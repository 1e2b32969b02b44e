import Multimethod.Surface.Grammar.Functions

/-!
# Classes

Class bodies are strict code. Of their members the language knows fields with plain names
only.
-/

namespace Multimethod.Surface.Grammar

open Surface.Parser

/-- The modifiers of class members. -/
def classModifiers : List String :=
  ["declare", "private", "public", "protected", "override", "abstract", "readonly", "static"]

/-- What is known about a class while its members are parsed. -/
structure ClassShape where
  hasSuperclass : Bool

/-- What is known about a member once its name is parsed. -/
structure MemberHead where
  start : Position
  modifiers : List String
  key : PropertyKey
  isOptional : Bool

namespace MemberHead

/-- Whether a member has a modifier. -/
def has (h : MemberHead) (m : String) : Bool :=
  h.modifiers.contains m

/-- Whether the name of a member is `name`, written as a word or as a string. -/
def isNamed (h : MemberHead) (name : String) : Bool :=
  match h.key.form with
  | .word n => n == name
  | .literal (some raw) => raw == name
  | _ => false

/-- Whether a member is the constructor. -/
def isConstructor (h : MemberHead) : Bool :=
  !h.has "static" && h.isNamed "constructor"

/-- Whether a member has a private name. -/
def isHidden (h : MemberHead) : Bool :=
  match h.key.form with
  | .hidden _ => true
  | _ => false

end MemberHead

/-- The name of a class member. -/
def memberKey (g : Productions) (isStatic : Bool) : Parser PropertyKey := do
  let t ← token
  match t.lexeme with
  | .word "prototype" _ => if isStatic then note t.start
  | .string "prototype" => if isStatic then note t.start
  | .privateName "constructor" => note t.start
  | _ => pure ()
  match t.lexeme with
  | .privateName n =>
      next
      pure ⟨.hidden n, t.start, t.stop⟩
  | _ => withoutDoubts (propertyKey g)

/-- What may stand behind the name of a member. Tells whether the member is optional. -/
def memberMark (start : Position) (seen : List String) : Parser Bool := do
  let isOptional ← eat "?"
  if ← atMark "(" then
    if seen.contains "readonly" then note start
    if seen.contains "declare" then note start
  pure isOptional

/-- Declares the private name of a member. -/
def declareKey (accessor : Option AccessorKind) (key : PropertyKey) : Parser Unit := do
  match key.form with
  | .hidden n => declarePrivate n key.start accessor
  | _ => pure ()

/-- The receiver in a method of a class. -/
def methodReceiver (maySuperCall : Bool) : Receiver := ⟨true, true, false, true, maySuperCall⟩

/-- The receiver in what initializes a field. -/
def fieldReceiver : Receiver := ⟨false, true, false, true, false⟩

/-- The receiver in a static initializer. -/
def initializerReceiver : Receiver := ⟨false, true, true, true, false⟩

/-- Type parameters of a member, which no constructor has. -/
def memberTypeParams (g : Productions) (isConstructor : Bool) : Parser Unit := do
  if ← atMark "<" then
    let start ← here
    let _ ← typeParams g .generic
    if isConstructor then note start

/-- A method behind its name. -/
def classMethod (g : Productions) (shape : ClassShape) (h : MemberHead)
    (isGenerator isAsync : Bool) (accessor : Option String) : Parser Member := do
  let isConstructor := h.isConstructor && !isGenerator && !isAsync && accessor.isNone
  if h.isConstructor && !isConstructor then note h.key.start
  if isConstructor && h.has "override" then note h.key.start
  memberTypeParams g isConstructor
  if !h.isHidden && accessor.isSome && h.has "declare" then note h.start
  let parsed ← method g
    { directiveAt := if accessor.isSome then h.start else h.key.stop
      receiver := methodReceiver (isConstructor && shape.hasSuperclass)
      isGenerator := isGenerator
      isAsync := isAsync
      isConstructor := isConstructor
      inClass := true }
  if h.has "abstract" && parsed.hasBody then note h.start
  if parsed.hasBody then
    declareKey (accessor.map fun kind => ⟨kind == "get", h.has "static"⟩) h.key
  for kind in accessor do checkAccessor (kind == "get") h.start parsed
  pure (.other h.start)

/-- A field behind its name. -/
def classField (g : Productions) (h : MemberHead) : Parser Member := do
  if h.isHidden then
    if h.has "abstract" || accessModifiers.any h.has then note h.start
  else if h.isNamed "constructor" then note h.key.start
  if !h.isOptional then
    if !(← eat "!") then
      let _ ← eat "?"
  let type ← ascription? g
  if !h.isHidden && (← atMark "=") then
    if (← context).ambient && !(h.has "readonly" && type.isNone) then note (← here)
    if h.has "abstract" then note (← here)
  let hasValue ←
    within
      (fun c =>
        { c with
          receiver := fieldReceiver
          allowsAwait := false
          allowsYield := false
          allowsReturn := false })
      (inHead .expression do return (← defaultValue? g).isSome)
  semicolon
  declareKey none h.key
  pure <|
    match h.key.form with
    | .word n => .field n type hasValue h.start
    | _ => .other h.start

/-- Whether a method starts behind the name of a member. -/
def atMethod : Parser Bool := do
  return (← atMark "(") || (← atMark "<")

/-- Whether a field is told by what stands behind the name of a member. -/
def atField : Parser Bool := do
  match (← token).lexeme with
  | .mark m => return ["=", ";", "\x7d", "!", ":"].contains m
  | _ => return false

/-- The name of a member with what may stand behind it. -/
def memberHead (g : Productions) (start : Position) (seen : List String) : Parser MemberHead := do
  let key ← memberKey g (seen.contains "static")
  let isOptional ← memberMark start seen
  pure ⟨start, seen, key, isOptional⟩

/-- The contextual word at the current token, if it is one. -/
def contextualWord? : Parser (Option String) := do
  match (← token).lexeme with
  | .word text false => return if isKeyword text then none else some text
  | _ => return none

/-- Whether a word in front of a member makes it a method of its own kind. What follows
    decides. -/
def marksMethod (word : String) : Parser Bool := do
  match word with
  | "async" => return !(← endsLine)
  | "get" | "set" => if ← atMark "*" then return !(← endsLine) else return true
  | _ => return false

/-- A method behind the word that makes it one of its own kind. -/
def markedClassMethod (g : Productions) (shape : ClassShape) (word : String) (h : MemberHead)
    (markAt : Position) : Parser Member := do
  if word == "async" then
    let isGenerator ← eat "*"
    if h.isOptional then throw markAt
    let h ← memberHead g h.start h.modifiers
    classMethod g shape h isGenerator true none
  else
    let key ← memberKey g (h.has "static")
    classMethod g shape { h with key := key } false false (some word)

/-- A member behind its modifiers. -/
def plainMember (g : Productions) (shape : ClassShape) (start : Position)
    (seen : List String) : Parser Member := do
  if ← eat "*" then
    let h ← memberHead g start seen
    classMethod g shape h true false none
  else
    let word := (← contextualWord?).getD ""
    let key ← memberKey g (seen.contains "static")
    let markAt ← here
    let isOptional ← memberMark start seen
    let h : MemberHead := ⟨start, seen, key, isOptional⟩
    if ← atMethod then classMethod g shape h false false none
    else if ← atField then classField g h
    else if ← marksMethod word then markedClassMethod g shape word h markAt
    else if ← endsLine then classField g h
    else unexpected

/-- A static initializer. -/
def staticBlock (g : Productions) (start : Position) (seen : List String) : Parser Member := do
  next
  next
  if seen.any classModifiers.contains then note (← behindToken)
  let _ ← within
    (fun c =>
      { c with
        labels := []
        receiver := initializerReceiver
        allowsAwait := false
        allowsYield := false
        allowsReturn := false })
    do
      let _ ← plainItems g Place.body (atMark "\x7d")
      next
  pure (.other start)

/-- A member of a class. -/
def classMember (g : Productions) (shape : ClassShape) : Parser Member := do
  let start ← here
  let seen ← modifiers classModifiers ["in", "out"] true
  (if seen.contains "declare" then withinAmbient else id) do
    if ← atStaticBlock then staticBlock g start seen
    else if ← indexSignature? g then
      if seen.any fun m => m != "static" && m != "readonly" then note start
      pure (.other start)
    else
      if !(← context).inAbstractClass && seen.contains "abstract" then note start
      if seen.contains "override" && !shape.hasSuperclass then note start
      plainMember g shape start seen

/-- The body of a class. The code behind it is strict only if that in front of it is. -/
def classBody (g : Productions) (shape : ClassShape) (wasStrict : Bool) : Parser (List Member) :=
  inPrivateScope do
    expect "\x7b"
    let members ← collect do
      let _ ← collect do
        if ← eat ";" then return some () else return none
      if ← atMark "\x7d" then return none
      else return some (← classMember g shape)
    setContext fun c => { c with strict := wasStrict }
    next
    pure members

/-- Types in a heritage clause, of which there must be one. -/
def heritage (g : Productions) : Parser Unit := do
  let start ← here
  let types ← listBefore (atMark "\x7b") do
    let _ ← entityName
    if ← atMark "<" then
      let _ ← typeArgs g
  if types.isEmpty then note start

/-- The superclass of a class, if it has one, and whether it has type arguments. -/
def superclass? (g : Productions) (subscripts : Parser Expr) : Parser (Option Expr × Bool) := do
  if ← eatKeyword "extends" then
    let e ← withoutDoubts subscripts
    match e.bare with
    | .applied inner _ => pure (some inner, true)
    | _ =>
        if (← atMark "<") || (← atMark "<<") then
          if ← atMark "<<" then splitToken
          let _ ← typeArgs g
          pure (some e, true)
        else pure (some e, false)
  else pure (none, false)

/-- How the name of a class is told. -/
inductive ClassForm where
  /-- A statement, which declares its name. -/
  | statement
  /-- A statement that tells of a class without an implementation. -/
  | declared
  /-- The default export, which may have no name. -/
  | exported
  | expression
  deriving DecidableEq

/-- The name of a class behind its keyword. Only a statement must have one. -/
def className (form : ClassForm) : Parser String := do
  if ← atName then
    let n ← name
    if form != .expression then checkBoundName (form != .declared) false n
    pure n.1
  else if form == .statement || form == .declared then unexpected
  else pure ""

/-- A class, whose keyword is the current token. -/
def classRest (g : Productions) (subscripts : Parser Expr) (start : Position)
    (form : ClassForm) (isAbstract : Bool) : Parser ClassDecl :=
  within (fun c => { c with inAbstractClass := isAbstract }) do
    next
    let wasStrict := (← context).strict
    setContext fun c => { c with strict := true }
    let mayLackName := form == .exported || form == .expression
    let isAnonymous := mayLackName && (← atWord "implements")
    let n ← if isAnonymous then pure "" else className form
    let typeParams ← if isAnonymous then pure [] else typeParams? g .both
    let (superclass, hasSuperArgs) ← superclass? g subscripts
    if ← eatWord "implements" then heritage g
    let members ← classBody g ⟨superclass.isSome⟩ wasStrict
    pure
      { name := n
        isAbstract := isAbstract
        typeParams := typeParams
        superclass := superclass
        hasSuperArgs := hasSuperArgs
        members := members
        start := start }

end Multimethod.Surface.Grammar
