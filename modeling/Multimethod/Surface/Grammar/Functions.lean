import Multimethod.Surface.Grammar.Targets
import Multimethod.Surface.Grammar.Types

/-!
# Functions

Statement lists with their directives, and functions of all forms.
-/

namespace Multimethod.Surface.Grammar

open Surface.Parser

/-! ## Statement lists -/

/-- The text of a directive, if an item may be one. -/
def directive? : Item → Option String
  | .stmt (.expression (.string raw _) _) => some raw
  | _ => none

/-- Makes the code from here on strict, and with it the faults that were kept apart. -/
def becomeStrict : Parser Unit := do
  setContext fun c => { c with strict := true }
  modify fun s =>
    { s with
      scanner :=
        { s.scanner with
          faults := s.scanner.strictFaults ++ s.scanner.faults
          strictFaults := [] } }

/-- Forgets the faults of strict code that were kept apart. -/
def forgetStrictFaults : Parser Unit :=
  modify fun s => { s with scanner := { s.scanner with strictFaults := [] } }

/-- The directives in front of a statement list. Tells whether one of them makes the code
    strict, and the item behind them. -/
def directives (g : Productions) (place : Bool → Place) (atEnd : Parser Bool) :
    Parser (Bool × Option Item) :=
  do
    let step := fun (found : Bool × Option Item) => do
      if ← atEnd then pure (found, false)
      else
        let item ← g.statement (place (← context).strict)
        match directive? item with
        | some raw =>
            if raw == "use strict" && !found.1 then
              becomeStrict
              pure ((true, none), true)
            else pure (found, true)
        | none =>
            forgetStrictFaults
            pure ((found.1, some item), false)
    iterate step (false, none)

/-- The items up to an end, which is not passed. -/
def plainItems (g : Productions) (place : Bool → Place) (atEnd : Parser Bool) :
    Parser (List Item) :=
  collect do
    if ← atEnd then return none
    else return some (← g.statement (place (← context).strict))

/-- The items of a unit or of a body with their directives left out. Tells whether the code is
    made strict by one. -/
def itemsWithDirectives (g : Productions) (place : Bool → Place) (atEnd : Parser Bool) :
    Parser (Bool × List Item) := do
  let (strict, first) ← directives g place atEnd
  match first with
  | none => pure (strict, [])
  | some item =>
      let others ← plainItems g place atEnd
      pure (strict, item :: others)

/-- Statements in braces. -/
def block (g : Productions) : Parser (List Stmt) := do
  expect "\x7b"
  let items ← plainItems g Place.block (atMark "\x7d")
  next
  pure (items.map Item.toStmt)

/-! ## Bodies -/

/-- What the check of a body has to know about its function. -/
structure BodyOwner where
  /-- Where a complaint about the directives of the body is placed. -/
  directiveAt : Position
  name : Option (String × Position)
  /-- What the check of the parameters finds, in strict code or not. -/
  params : (strict : Bool) → List Finding
  isSimple : Bool
  isArrow : Bool
  isMethod : Bool

/-- Notes what the parameters and the name of a function must not be. Plain parameters of a
    function in sloppy code may repeat a name. -/
def checkOwner (owner : BodyOwner) (becameStrict : Bool) : Parser Unit := do
  let strict := (← context).strict
  let mayRepeat := !strict && !owner.isArrow && !owner.isMethod && owner.isSimple
  checkParams (owner.params strict) mayRepeat becameStrict
  for bound in owner.name do checkBoundName false becameStrict bound

/-- The body of a function, in braces. -/
def functionBody (g : Productions) (owner : BodyOwner) : Parser (List Stmt) :=
  inHead .expression <| within (fun c => { c with labels := [], allowsReturn := true }) do
    let outer := (← context).strict
    forgetStrictFaults
    expect "\x7b"
    let (isStrict, items) ← itemsWithDirectives g Place.body (atMark "\x7d")
    if isStrict && !owner.isSimple then note owner.directiveAt
    checkOwner owner (!outer && (← context).strict)
    setContext fun c => { c with strict := outer }
    next
    pure (items.map Item.toStmt)

/-- Parses within a function that has a receiver of its own. -/
def withinFunction {α : Type} (receiver : Receiver) (isAsync isGenerator : Bool)
    (p : Parser α) : Parser α :=
  within
    (fun c =>
      { c with
        receiver := receiver
        allowsAwait := isAsync
        allowsYield := isGenerator
        allowsReturn := false
        allowsIn := false })
    p

/-- The receiver in a plain function. -/
def plainReceiver : Receiver := ⟨true, false, false, false, false⟩

/-! ## Forms of functions -/

/-- Where a function with a keyword of its own stands. -/
inductive FunctionForm where
  /-- A statement; one that is hanging stands where nothing else is declared. A function that
      is no plain one belongs to the block that it stands in. -/
  | statement (isHanging inBlock : Bool)
  /-- The default export, which may have no name. -/
  | exported
  | expression

/-- Whether a function is a declaration, which may lack a body. -/
def FunctionForm.isDeclaration : FunctionForm → Bool
  | expression => false
  | _ => true

/-- Passes the star of a generator, if there is one. -/
def generatorMark (form : FunctionForm) : Parser Bool := do
  if ← atMark "*" then
    match form with
    | .statement true _ => note (← here)
    | _ => pure ()
    next
    pure true
  else pure false

/-- The name of a function, unless it has none and needs none. -/
def functionName? (form : FunctionForm) : Parser (Option (String × Position)) := do
  match form with
  | .statement _ _ => some <$> name
  | _ => if ← atName then some <$> name else pure none

/-- Whether a function ends without a body. Only one that is declared may. -/
def endsBodyless (isDeclaration : Bool) : Parser Bool := do
  if !isDeclaration || (← atMark "\x7b") then pure false else endsLine

/-- Notes the name of a declared function if it must not be bound. -/
def checkDeclaredName (form : FunctionForm) (decl : FunctionDecl)
    (bound : Option (String × Position)) : Parser Unit := do
  for bound in bound do
    match form with
    | .statement true _ => pure ()
    | .statement false inBlock =>
        let isPlain := !decl.isAsync && !decl.isGenerator
        checkBoundName (inBlock && !isPlain && decl.body.isSome) false bound
    | .exported => checkBoundName false false bound
    | .expression => pure ()

/-- A function behind its keyword. One that is declared only must have no body. -/
def functionRest (g : Productions) (start : Position) (form : FunctionForm) (isAsync : Bool) :
    Parser FunctionDecl := do
  let isGenerator ← generatorMark form
  let outerName ← if form.isDeclaration then functionName? form else pure none
  let decl ← within (fun c => { c with maybeParams := false }) <|
    withinFunction plainReceiver isAsync isGenerator do
      let ownName ← if form.isDeclaration then pure outerName else functionName? form
      let typeParams ← typeParams? g .generic
      let l ← functionParams g false
      let returns ← returnType? g
      let decl : FunctionDecl :=
        { name := (ownName.map (·.1)).getD ""
          isAsync := isAsync
          isGenerator := isGenerator
          typeParams := typeParams
          params := l.binders
          returns := returns
          body := none
          start := start }
      if ← endsBodyless form.isDeclaration then pure decl
      else
        let isAmbient := (← context).ambient
        if form.isDeclaration && isAmbient then note start
        if !isAmbient then
          for p in l.optionalPatterns do note p
        let body ← functionBody g
          { directiveAt := start
            name := ownName
            params := fun _ => l.findings
            isSimple := l.isSimple
            isArrow := false
            isMethod := false }
        pure { decl with body := some body }
  checkDeclaredName form decl outerName
  pure decl

/-- What is to be known about a parsed method. -/
structure MethodShape where
  params : List Binder
  hasBody : Bool

/-- What is known about a method once its name is parsed. -/
structure MethodHead where
  /-- Where a complaint about the directives of its body is placed. -/
  directiveAt : Position
  receiver : Receiver
  isGenerator : Bool
  isAsync : Bool
  isConstructor : Bool
  inClass : Bool

/-- A method behind its name. Only a method of a class may lack a body. -/
def method (g : Productions) (h : MethodHead) : Parser MethodShape :=
  withinFunction h.receiver h.isAsync h.isGenerator do
    let _ ← typeParams? g .generic
    let l ← functionParams g h.isConstructor
    let _ ← returnType? g
    if ← endsBodyless h.inClass then pure ⟨l.binders, false⟩
    else
      if !(← context).ambient then
        for p in l.optionalPatterns do note p
      let _ ← functionBody g
        { directiveAt := h.directiveAt
          name := none
          params := fun _ => l.findings
          isSimple := l.isSimple
          isArrow := false
          isMethod := true }
      pure ⟨l.binders, true⟩

/-- Whether a binder is the receiver that a function declares. -/
def isThisBinder : Binder → Bool
  | .name "this" _ _ => true
  | _ => false

/-- Notes an accessor at `start` with a wrong number of parameters. -/
def checkAccessor (isGetter : Bool) (start : Position) (shape : MethodShape) : Parser Unit := do
  let declaresThis := (shape.params.head?.map isThisBinder).getD false
  let expected := (if isGetter then 0 else 1) + (if declaresThis then 1 else 0)
  if shape.params.length != expected then note start
  if !isGetter then
    match shape.params.getLast? with
    | some (.other "RestElement" _ _) => note start
    | _ => pure ()

/-! ## Arrow functions -/

/-- Whether an expression is a parameter without a default value or a pattern. -/
def isPlainParam : Expr → Bool
  | .name _ _ => true
  | .annotated (.name _ _) _ _ => true
  | _ => false

/-- What is known about an arrow function in front of its body. Its parameters are parsed as
    expressions, or as binders if they are certain. -/
structure ArrowHead where
  start : Position
  isAsync : Bool
  exprs : List Expr
  /-- Where a comma closes the list of parameters. -/
  trailing : Option Position
  binders : Option BinderList
  /-- Whether the function stands in front of the colon of a conditional expression. -/
  inConsequent : Bool

/-- Whether all parameters of an arrow function are plain names. -/
def ArrowHead.isSimple (h : ArrowHead) : Bool :=
  (h.binders.map BinderList.isSimple).getD (h.exprs.all isPlainParam)

/-- An arrow function behind its arrow. Parameters that were parsed as expressions are checked
    now. -/
def arrowRest (g : Productions) (h : ArrowHead) : Parser Expr := do
  let allowsIn := (← context).allowsIn
  let isConcise := !(← atMark "\x7b")
  within
    (fun c =>
      { c with
        allowsAwait := h.isAsync
        allowsYield := false
        allowsReturn := false
        allowsIn := isConcise && allowsIn
        maybeParams := false
        receiver := { c.receiver with inStaticBlock := false } })
    do
      markElements false h.trailing h.exprs
      let params := fun (strict : Bool) =>
        match h.binders with
        | some l => l.findings
        | none => elementFindings strict .param h.exprs
      if isConcise then
        inHead .expression do
          let _ ← within (fun c => { c with inConsequent := h.inConsequent }) do
            g.assign false false
          checkParams (params (← context).strict) false false
      else
        let _ ← functionBody g
          { directiveAt := h.start
            name := none
            params := params
            isSimple := h.isSimple
            isArrow := true
            isMethod := false }
      pure (.other "ArrowFunctionExpression" h.start)

end Multimethod.Surface.Grammar
