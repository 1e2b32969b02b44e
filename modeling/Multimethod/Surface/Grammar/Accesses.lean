import Multimethod.Surface.Grammar.Primary

/-!
# Accesses

Fields, elements, calls and type arguments behind a primary expression.
-/

namespace Multimethod.Surface.Grammar

open Surface.Parser

/-- An expression with the accesses that are parsed so far. -/
structure Chain where
  base : Expr
  /-- Whether an access that may have no object is among them. -/
  isOptional : Bool
  /-- Where an arrow function starts, if the expression is a word that makes one of a call. -/
  asyncAt : Option ArrowPlace

/-- Where an arrow function starts, if an expression is the word of the async kind. -/
def asyncPlace? (base : Expr) : Parser (Option ArrowPlace) := do
  match base with
  | .name "async" p =>
      if (← lastStop).offset == p.offset + 5 && !(← mayEnd) then arrowPlace? p else return none
  | _ => return none

/-- A call, which has no meaning if its chain `isOptional`. -/
def callOf (c : Chain) (args : List Expr) (start : Position) : Expr :=
  if c.isOptional then .other "OptionalCallExpression" start else .call c.base args start

/-- A tagged template, whose first piece is the current token. -/
def taggedTemplate (g : Productions) (c : Chain) (start : Position) : Parser Chain := do
  let _ ← templateParts (substitution g) true
  if c.isOptional then note start
  pure { c with base := .other "TaggedTemplateExpression" start }

/-- The field or element behind a dot or an opening bracket. -/
def memberAccess (g : Productions) (c : Chain) (start : Position) (isComputed : Bool) :
    Parser Expr := do
  if isComputed then
    let index ← expression g
    expect "]"
    pure (if c.isOptional then .optionalField false start else .index c.base index start)
  else
    match (← token).lexeme with
    | .privateName n => do
        if c.base.construct == "Super" then note start
        usePrivate n (← here)
        next
        pure (if c.isOptional then .optionalField true start else .privateField c.base start)
    | _ => do
        let (n, _) ← anyWord
        pure (if c.isOptional then .optionalField false start else .field c.base n start)

/-- Notes what the arguments of a dynamic import must not be. -/
def checkImportArgs (base : Expr) (args : List Expr) : Parser Unit := do
  if base.construct == "Import" then
    if args.isEmpty || 2 < args.length then note base.start
    else
      for arg in args do
        match arg with
        | .spread _ p => note p
        | _ => pure ()

/-- Whether an arrow follows parameters here, by itself or behind a return type. -/
def arrowAhead (g : Productions) : Parser Bool := do
  if ← atMark ":" then
    aheadIs do
      let _ ← returnType g ":"
      return (← atMark "=>") && !(← mayEnd)
  else return (← atMark "=>") && !(← mayEnd)

/-- The arrow function of the async kind whose parameters are passed as arguments, if they are
    followed by a return type or an arrow. What is doubted of them is certain in front of the
    return type already. -/
def asyncArrowBehind? (g : Productions) (doubts : Doubts) (h : ArrowHead) :
    Parser (Option Expr) := do
  if ← arrowAhead g then
    for p in doubts.privateKey do throw p
    confirmHead
    let _ ← returnType? g
    next
    return some (← arrowRest g h)
  else return none

/-- A call of the word at `place`, or the arrow function that it makes, behind the opening
    parenthesis. Tells whether accesses may follow. -/
def asyncCall (g : Productions) (c : Chain) (place : ArrowPlace) (start : Position)
    (isOptional : Bool) : Parser (Chain × Bool) :=
  inHead (.maybeParams true) do
    let ((args, comma), doubts) ← collectDoubts (arguments g)
    let arrow ←
      if isOptional then pure none
      else
        let h : ArrowHead :=
          { start := start
            isAsync := true
            exprs := args
            trailing := comma
            binders := none
            inConsequent := place.inConsequent }
        arrowInCondition? doubts h (asyncArrowBehind? g doubts h)
    match arrow with
    | some e => pure ({ c with base := e }, false)
    | none =>
        settle doubts
        noteAscriptions args
        pure ({ c with base := callOf c args start }, true)

/-- A call or an arrow function of the async kind, whose opening parenthesis is the current
    token. Tells whether accesses may follow. -/
def callAccess (g : Productions) (c : Chain) (start : Position) (isOptional : Bool) :
    Parser (Chain × Bool) :=
  within (fun c => { c with maybeParams := true }) do
    next
    match c.asyncAt with
    | some place => asyncCall g c place start isOptional
    | none =>
        let (args, _) ← withoutDoubts (arguments g)
        checkImportArgs c.base args
        noteAscriptions args
        pure ({ c with base := callOf c args start }, true)

/-- An access without type arguments. -/
def plainAccess (g : Productions) (mayCall : Bool) (start : Position) (c : Chain) :
    Parser (Chain × Bool) := do
  if ← atTemplate then return (← taggedTemplate g c start, true)
  else
    let isOptional ← atMark "?."
    if isOptional && !mayCall then note (← here)
    if isOptional && !mayCall && (← charAhead) == some '(' then pure (c, false)
    else
      if isOptional then next
      let c := { c with isOptional := c.isOptional || isOptional }
      if mayCall && (← atMark "(") then callAccess g c start isOptional
      else
        let isComputed ← eat "["
        let isAccess ← if isComputed || isOptional then pure true else eat "."
        if isAccess then
          let e ← memberAccess g c start isComputed
          pure ({ c with base := e }, true)
        else pure (c, false)

/-! ## Type arguments -/

/-- An arrow function of the async kind with type parameters, if it is one. -/
def genericAsyncArrow? (g : Productions) (place : ArrowPlace) (start : Position) :
    Parser (Option Expr) := do
  if ← atMark "<" then
    let head ← within (fun c => { c with maybeParams := true }) <| recover do
      let _ ← typeParams g .generic
      let l ← functionParams g false
      let _ ← returnType? g
      expect "=>"
      return some l
    match head with
    | some l =>
        some <$> arrowRest g
          { start := start
            isAsync := true
            exprs := []
            trailing := none
            binders := some l
            inConsequent := place.inConsequent }
    | none => return none
  else return none

/-- Whether the current token makes a comparison of what looks like type arguments. A type
    operator does not. -/
def endsComparison : Parser Bool := do
  let t ← token
  match t.lexeme with
  | .mark ">" | .mark ">>" | .mark ">>>" => return true
  | .mark "(" => return false
  | .word "as" _ | .word "satisfies" _ => return false
  | lexeme => return lexeme.startsExpression && !(← onNewLine)

/-- A function applied to type arguments only, which are passed. A field of it is noted. -/
def appliedAccess (c : Chain) (start : Position) : Parser (Chain × Bool) := do
  let isDot ← atMark "."
  let isOptional ← atMark "?."
  if isDot || (isOptional && (← charAhead) != some '(') then note (← here)
  pure ({ c with base := .applied c.base start }, isDot || isOptional)

/-- An access with type arguments. A missing parenthesis behind those of a call that
    `mustCall` is told by its place. -/
def typedAccess? (g : Productions) (mayCall mustCall : Bool) (start : Position) (c : Chain) :
    Parser (Option (Except Position (Chain × Bool))) := do
  let place ← if mayCall then asyncPlace? c.base else pure none
  let arrow ←
    match place with
    | some place => genericAsyncArrow? g place start
    | none => pure none
  match arrow with
  | some e => return some (.ok ({ c with base := e }, false))
  | none =>
      if ← atMark "<<" then splitToken
      let _ ← typeArgs g
      if mustCall && !(← atMark "(") then return some (.error (← behindToken))
      else if ← atTemplate then return some (.ok (← taggedTemplate g c start, true))
      else if mayCall && (← atMark "(") then
        next
        let (args, _) ← withoutDoubts (arguments g)
        noteAscriptions args
        checkImportArgs c.base args
        return some (.ok ({ c with base := callOf c args start }, true))
      else if ← endsComparison then return none
      else return some (.ok (← appliedAccess c start))

/-- The next access of a chain. Tells whether another one may follow. -/
def access (g : Productions) (mayCall : Bool) (start : Position) (c : Chain) :
    Parser (Chain × Bool) := do
  if (← atMark "!") && !(← onNewLine) then
    next
    pure ({ c with base := .cast nonNullCast c.base start, asyncAt := none }, true)
  else
    let mustCall := (← atMark "?.") && (← charAhead) == some '<'
    if mustCall && !mayCall then pure (c, false)
    else
      if mustCall then next
      let c := { c with isOptional := c.isOptional || mustCall }
      let typed ←
        if (← atMark "<") || (← atMark "<<") then
          recover (typedAccess? g mayCall mustCall start c)
        else pure none
      let (c, again) ←
        match typed with
        | some (.ok result) => pure result
        | some (.error p) => throw p
        | none => plainAccess g mayCall start c
      pure ({ c with asyncAt := none }, again)

/-- Whether an expression is an arrow function that starts where one was awaited. -/
def isArrowAt (arrowAt : Option ArrowPlace) : Expr → Bool
  | .other "ArrowFunctionExpression" p => arrowAt.any (·.start == p.offset)
  | _ => false

/-- A primary expression with the accesses to it, and with calls if it `mayCall`. -/
def accessed (g : Productions) (mayCall : Bool) : Parser Expr := do
  let start ← here
  let arrowAt := (← get).arrowAt
  let base ← primary g
  if mayCall && isArrowAt arrowAt base then pure base
  else
    let c ← iterate (access g mayCall start) ⟨base, false, ← asyncPlace? base⟩
    pure c.base

end Multimethod.Surface.Grammar
