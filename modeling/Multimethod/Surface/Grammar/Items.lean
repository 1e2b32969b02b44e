import Multimethod.Surface.Grammar.Functions

/-!
# Items

What stands in parentheses, brackets and braces: arguments, arrays and objects. As long as it
may still turn out to be the parameters of an arrow function, it may carry their marks.
-/

namespace Multimethod.Surface.Grammar

open Surface.Parser

/-- Passes the marks of a parameter behind an item. -/
def paramMarks (g : Productions) (item : Expr) (start : Position) : Parser Expr := do
  let _ ← eat "?"
  if ← atMark ":" then
    let colon ← here
    let _ ← ascription g
    pure (.annotated item colon start)
  else pure item

/-- Fails at a `void` that would be a pattern without a name in a list up to the character
    `close`, if the expression around may still become a pattern. -/
def refuseVoid (close : Char) : Parser Unit := do
  if (← get).doubts.isSome && (← atKeyword "void") then
    for c in ← charAhead do
      if c == ',' || c == close || c == '=' then unexpected

/-- An argument of a call or an element of an array, in which places may be left empty. The
    list is closed by the character `close`. -/
def listItem (g : Productions) (close : Char) (allowHoles : Bool) : Parser Expr := do
  let start ← here
  if ← atMark "," then
    if !allowHoles then note (← behindToken)
    pure .hole
  else if ← eat "..." then
    let operand ← assignAllowIn g true false
    paramMarks g (.spread operand start) start
  else if ← atMark "?" then unexpected
  else
    refuseVoid close
    assignAllowIn g true true

/-- Notes annotations, which only parameters may have. -/
def noteAscriptions (items : List Expr) : Parser Unit := do
  for item in items do
    match item with
    | .annotated _ colon _ => note colon
    | _ => pure ()

/-- The arguments of a call whose opening parenthesis is passed. Tells where a closing comma
    stands. -/
def arguments (g : Productions) : Parser (List Expr × Option Position) :=
  listUntil ")" (listItem g ')' false)

/-- An array, whose opening bracket is the current token. -/
def array (g : Productions) : Parser Expr := do
  let start ← here
  next
  let (elements, comma) ← listUntil "]" (listItem g ']' true)
  noteAscriptions elements
  pure (.array elements comma start)

/-! ## Objects -/

/-- The receiver in a method of an object. -/
def objectReceiver : Receiver := ⟨true, false, false, true, false⟩

/-- A method of an object, behind its name. -/
def objectMethod (g : Productions) (key : PropertyKey) (start : Position)
    (isGenerator isAsync : Bool) (accessor : Option String) : Parser Property := do
  let shape ← method g
    { directiveAt := if accessor.isSome then start else key.stop
      receiver := objectReceiver
      isGenerator := isGenerator
      isAsync := isAsync
      isConstructor := false
      inClass := false }
  for kind in accessor do checkAccessor (kind == "get") start shape
  pure (.method key.start)

/-- A property that is written by its name alone. A value behind it makes sense in a
    destructuring target only. -/
def shorthand (g : Productions) (name : String) (start : Position) : Parser Property := do
  checkReserved name start false
  if ← atMark "=" then
    let mark ← here
    if (← get).doubts.isSome then
      doubt fun d => { d with shorthandValue := d.shorthandValue.or (some mark) }
    else note mark
    let stop ← lastStop
    next
    let value ← assignAllowIn g false false
    pure (.value (.assign "=" (.name name start) value stop start))
  else pure (.value (.name name start))

/-- Whether a property with the name `key` sets the prototype if a value follows. -/
def setsPrototype (key : PropertyKey) : Bool :=
  match key.form with
  | .word n => n == "__proto__"
  | .literal (some raw) => raw == "__proto__"
  | _ => false

/-- A property behind its name, with the place of its name if it sets the prototype. -/
def propertyValue (g : Productions) (key : PropertyKey) :
    Parser (Property × Option Position) := do
  if ← eat ":" then
    refuseVoid '\x7d'
    let value ← assignAllowIn g true false
    pure (.value value, if setsPrototype key then some key.start else none)
  else
    match key.form with
    | .word n => return (← shorthand g n key.start, none)
    | _ => unexpected

/-- The word in front of the name of a property that makes it a method of its own kind. -/
def methodWord? (key : PropertyKey) : Parser (Option String) := do
  match key.form with
  | .word n =>
      if (← atPropertyName) || (← atMark "[") || (← atMark "*") then
        if n == "get" || n == "set" then return some n
        else if n == "async" && !(← onNewLine) then return some n
        else return none
      else return none
  | _ => return none

/-- A method behind the word that makes it one of its own kind. -/
def markedMethod (g : Productions) (word : String) (start : Position) : Parser Property := do
  let isAsync := word == "async"
  let isGenerator ←
    if isAsync then eat "*"
    else if ← atMark "*" then
      note (← behindToken)
      next
      pure true
    else pure false
  let key ← withoutDoubts (propertyKey g)
  let _ ← typeParams? g .generic
  objectMethod g key start isGenerator isAsync (if isAsync then none else some word)

/-- A property of an object, with the place of its name if it sets the prototype. -/
def property (g : Productions) : Parser (Property × Option Position) := do
  let start ← here
  if ← atMark "@" then unexpected
  else if ← eat "..." then
    let operand ← assignAllowIn g false false
    pure (.spread operand start, none)
  else
    let isGenerator ← eat "*"
    let isEscaped := match (← token).lexeme with
      | .word _ escaped => escaped
      | _ => false
    let key ← propertyKey g
    let word ← if isGenerator || isEscaped then pure none else methodWord? key
    match word with
    | some word => return (← markedMethod g word start, none)
    | none =>
        let _ ← typeParams? g .generic
        if isGenerator || (← atMark "(") then
          return (← objectMethod g key start isGenerator false none, none)
        else propertyValue g key

/-- Notes a repeated property that sets the prototype, or doubts it. -/
def repeatedPrototype (p : Position) : Parser Unit := do
  if (← get).doubts.isSome then
    doubt fun d => { d with repeatedProto := d.repeatedProto.or (some p) }
  else note p

/-- The properties of an object that are parsed so far, newest first. -/
structure Properties where
  found : List Property
  /-- Whether one of them sets the prototype. -/
  setsPrototype : Bool

/-- Adds the next property of an object. -/
def nextProperty (g : Productions) (before : Properties) : Parser Properties := do
  let (p, proto) ← property g
  if before.setsPrototype then
    for q in proto do repeatedPrototype q
  pure ⟨p :: before.found, before.setsPrototype || proto.isSome⟩

/-- An object, whose opening brace is the current token. -/
def object (g : Productions) : Parser Expr := do
  let start ← here
  next
  let (properties, comma) ← foldUntil "\x7d" (nextProperty g) ⟨[], false⟩
  pure (.object properties.found.reverse comma start)

end Multimethod.Surface.Grammar
