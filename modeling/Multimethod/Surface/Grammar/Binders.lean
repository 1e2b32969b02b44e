import Multimethod.Surface.Grammar.Productions

/-!
# Binders

Parameters and destructuring forms.
-/

namespace Multimethod.Surface.Grammar

open Surface.Parser

/-! ## Names of properties -/

/-- How the name of a property is written. -/
inductive KeyForm where
  | word (name : String)
  /-- A number, or a string by what is written between its quotes. -/
  | literal (raw : Option String)
  | computed
  | hidden (name : String)

/-- The name of a property with the places where it starts and ends. -/
structure PropertyKey where
  form : KeyForm
  start : Position
  stop : Position

/-- The name of a property. A private one is doubted. -/
def propertyKey (g : Productions) : Parser PropertyKey := do
  let t ← token
  if ← eat "[" then
    let e ← assignAllowIn g false false
    let stop ← lastStop
    expect "]"
    pure ⟨.computed, e.start, stop⟩
  else
    match t.lexeme with
    | .word text _ =>
        skip
        pure ⟨.word text, t.start, t.stop⟩
    | .string raw =>
        next
        pure ⟨.literal (some raw), t.start, t.stop⟩
    | .number _ | .bigint =>
        next
        pure ⟨.literal none, t.start, t.stop⟩
    | .privateName n =>
        if (← get).doubts.isSome then
          doubt fun d => { d with privateKey := d.privateKey.or (some t.start) }
        else note t.start
        next
        pure ⟨.hidden n, t.start, t.stop⟩
    | _ => unexpected

/-! ## Destructuring forms -/

/-- Passes the default value of a binder, if there is one, and tells where it starts. -/
def defaultValue? (g : Productions) : Parser (Option Position) := do
  if ← eat "=" then
    let start ← here
    let _ ← assignAllowIn g false false
    pure (some start)
  else pure none

/-- Notes a comma behind a rest element, and tells whether there is one. -/
def commaAfterRest : Parser Bool := do
  if ← atMark "," then
    note (← here)
    pure true
  else pure false

/-- The names that a property of a destructuring form binds. -/
def boundProperty (g : Productions) : Parser (List (String × Position)) := do
  if ← eat "..." then
    let n ← name
    let _ ← commaAfterRest
    pure [n]
  else
    match (← token).lexeme with
    | .privateName _ => unexpected
    | _ => pure ()
    let key ← propertyKey g
    let _ ← typeParams? g .generic
    if ← atMark "(" then unexpected
    else if ← eat ":" then
      let b ← g.binder
      let _ ← defaultValue? g
      pure b.names
    else
      match key.form with
      | .word n =>
          checkReserved n key.start false
          let _ ← defaultValue? g
          pure [(n, key.start)]
      | _ => unexpected

/-! ## Elements of lists -/

/-- An element of a list of binders. -/
structure BoundElement where
  binder : Binder
  /-- Whether a question mark stands behind it. -/
  isOptional : Bool
  /-- Whether the element is a plain name, with or without modifiers. -/
  isSimple : Bool

/-- A list of binders. -/
structure BinderList where
  elements : List BoundElement

namespace BinderList

/-- The binders of a list. -/
def binders (l : BinderList) : List Binder :=
  l.elements.map BoundElement.binder

/-- The names that all binders of a list bind. -/
def names (l : BinderList) : List (String × Position) :=
  l.binders.flatMap Binder.names

/-- What the check of a list finds: nothing but names. -/
def findings (l : BinderList) : List Finding :=
  l.names.map fun (n, p) => .name n p

/-- Whether all binders of a list are plain names. -/
def isSimple (l : BinderList) : Bool :=
  l.elements.all BoundElement.isSimple

/-- Where the optional binders start that are no plain names. -/
def optionalPatterns (l : BinderList) : List Position :=
  (l.elements.filter fun e => e.isOptional && !e.binder.isName).map (·.binder.start)

/-- Whether a plain name of a list is optional. -/
def hasOptionalName (l : BinderList) : Bool :=
  l.elements.any fun e => e.isOptional && e.binder.isName

end BinderList

/-- Passes what may stand behind a parameter: a question mark and a type annotation. Tells
    whether the parameter is optional, and the annotation with the place of its colon. -/
def paramType (g : Productions) : Parser (Bool × Option (TypeExpr × Position)) := do
  let isOptional ← eat "?"
  let colon ← here
  let type ← ascription? g
  pure (isOptional, type.map fun type => (type, colon))

/-- A binder with what stands behind it: default values, and for a parameter an optional mark
    and a type annotation in between. An annotation behind the only default value is noted. -/
def boundValue (g : Productions) (isParam : Bool) : Parser BoundElement := do
  let b ← g.binder
  let first ← defaultValue? g
  let (isOptional, type) ← if isParam then paramType g else pure (false, none)
  let second ← defaultValue? g
  let withDefault : Binder := .other "AssignmentPattern" b.names b.start
  if first.isNone && second.isNone then
    match b with
    | .name n _ p => pure ⟨.name n (type.map (·.1)) p, isOptional, true⟩
    | b => pure ⟨b, isOptional, false⟩
  else if second.isNone then
    for (_, colon) in type do note colon
    pure ⟨withDefault, isOptional, false⟩
  else pure ⟨withDefault, false, false⟩

/-- Whether a binder may be a field of the object that its constructor makes. -/
def mayBeProperty : Binder → Bool
  | .name _ _ _ => true
  | .other construct _ _ => construct == "AssignmentPattern"

/-- An element of a list of binders. Only a constructor has parameters with modifiers. -/
def boundElement (g : Productions) (isParam isConstructor : Bool) : Parser BoundElement := do
  let start ← here
  let seen ← modifiers ["public", "private", "protected", "override", "readonly"] [] false
  if !seen.isEmpty && !isConstructor then note start
  let element ← boundValue g isParam
  if seen.isEmpty then pure element
  else
    if !mayBeProperty element.binder then note start
    let b : Binder := .other "TSParameterProperty" element.binder.names start
    pure ⟨b, false, element.isSimple⟩

/-- A rest element, whose dots are the current token. -/
def restElement (g : Productions) : Parser Binder := do
  let start ← here
  next
  let b ← g.binder
  pure (.other "RestElement" b.names start)

/-- A list of binders up to the mark `close`, whose opening mark is passed. -/
def binderList (g : Productions) (close : String) (isParams isConstructor : Bool) :
    Parser BinderList := do
  let step := fun (found : List BoundElement × Bool) => do
    let (found, isFirst) := found
    if ← eat close then pure ((found, false), false)
    else
      if !isFirst then expect ","
      let isHole ← if isParams then pure false else atMark ","
      if isHole then pure ((found, false), true)
      else if ← eat close then pure ((found, false), false)
      else if ← atMark "..." then
        let b ← restElement g
        let (isOptional, _) ← if isParams then paramType g else pure (false, none)
        let found := ⟨b, isOptional, false⟩ :: found
        if ← commaAfterRest then pure ((found, false), true)
        else
          expect close
          pure ((found, false), false)
      else
        if ← atMark "@" then unexpected
        let element ← boundElement g isParams isConstructor
        pure ((element :: found, false), true)
  let (found, _) ← iterate step ([], true)
  pure ⟨found.reverse⟩

/-- What a declaration binds: a name or a destructuring form. -/
def binder (g : Productions) : Parser Binder := do
  let start ← here
  if ← eat "[" then
    let l ← binderList g "]" false false
    pure (.other "ArrayPattern" l.names start)
  else if ← eat "\x7b" then
    let (found, _) ← listUntil "\x7d" (boundProperty g)
    pure (.other "ObjectPattern" found.flatten start)
  else if ← atKeyword "void" then unexpected
  else if ← atKeyword "this" then
    let (n, p) ← anyWord
    pure (.name n none p)
  else
    let (n, p) ← name
    pure (.name n none p)

/-- The parameters of a signature, with their parentheses. -/
def params (g : Productions) (isConstructor : Bool) : Parser BinderList := do
  expect "("
  binderList g ")" true isConstructor

/-- The parameters of a function, with their parentheses. -/
def functionParams (g : Productions) (isConstructor : Bool) : Parser BinderList := do
  expect "("
  inHead .params (binderList g ")" true isConstructor)

end Multimethod.Surface.Grammar
