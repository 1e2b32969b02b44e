import Multimethod.Surface.Grammar.Declarations

/-!
# Imports and exports

A script has neither. They are parsed all the same, since a fault within one comes first.
-/

namespace Multimethod.Surface.Grammar

open Surface.Parser

/-! ## Modules -/

/-- Passes the text that names a module. -/
def moduleText : Parser Unit := do
  match (← token).lexeme with
  | .string _ => next
  | _ => unexpected

/-- The name of an attribute, which is not told from a string of the same text. -/
def attributeName : Parser String := do
  match (← token).lexeme with
  | .string raw =>
      next
      pure raw
  | _ => return (← anyWord).1

/-- The attributes of a module, in braces. A repeated one is noted. -/
def moduleAttributes : Parser Unit := do
  expect "\x7b"
  let step := fun (seen : List String) => do
    if ← atMark "\x7d" then pure (seen, false)
    else
      let start ← here
      let n ← attributeName
      if seen.contains n then note start
      expect ":"
      moduleText
      let again ← eat ","
      pure (n :: seen, again)
  let _ ← iterate step []
  expect "\x7d"

/-- The text that names a module, with its attributes. -/
def moduleSource : Parser Unit := do
  moduleText
  if ← eatKeyword "with" then moduleAttributes
  else if (← atWord "assert") && !(← onNewLine) then
    note (← here)
    next
    moduleAttributes

/-! ## Names in braces -/

/-- Whether the current token is any word. -/
def atAnyWord : Parser Bool := do
  return (← token).lexeme.wordText.isSome

/-- A word or a string that names an export, and whether it is a string. -/
def exportName : Parser ((String × Position) × Bool) := do
  let t ← token
  match t.lexeme with
  | .string raw =>
      next
      pure ((raw, t.start), true)
  | _ => return (← anyWord, false)

/-- A name that is bound by an import. -/
def importedName : Parser (String × Position) := do
  let n ← name
  checkBoundName false false n
  pure n

/-- The words behind `type` in a name of an import or export. Either it marks the name behind
    it as a type, or it is the name itself. -/
structure TypedName where
  name : String × Position
  /-- Whether the name is marked. -/
  isMarked : Bool
  /-- Whether another name was told behind it. -/
  isRenamed : Bool
  /-- Whether another name may be told behind it. -/
  mayBeRenamed : Bool

/-- What follows `type as`, where `second` is that `as`. -/
def typedNameBehindAs (type second : String × Position) (other : Parser Unit) :
    Parser TypedName := do
  if ← atWord "as" then
    let _ ← name
    if ← atAnyWord then
      other
      pure ⟨second, true, true, false⟩
    else pure ⟨type, false, true, false⟩
  else if ← atAnyWord then
    other
    pure ⟨type, false, true, false⟩
  else pure ⟨second, true, false, true⟩

/-- What follows the word `type` in a name of an import or export; `marked` passes a name that
    it marks, and `other` the name that this one gets. -/
def typedName (type : String × Position) (marked : Parser (String × Position))
    (other : Parser Unit) : Parser TypedName := do
  if ← atWord "as" then
    let second ← name
    typedNameBehindAs type second other
  else if ← atAnyWord then return ⟨← marked, true, false, true⟩
  else pure ⟨type, false, false, true⟩

/-- The rest of a name behind the word `type`. An import or export of types does not mark
    types. -/
def typedRest (type : String × Position) (inTypes : Bool) (marked : Parser (String × Position))
    (other : Parser Unit) : Parser (TypedName × Bool) := do
  let n ← typedName type marked other
  if n.isMarked && inTypes then note type.2
  let isRenamed ← if n.mayBeRenamed then eatWord "as" else pure false
  if isRenamed then other
  pure (n, n.isRenamed || isRenamed)

/-! ## Imports -/

/-- A name in the braces of an import. -/
def importSpecifier (inTypes : Bool) : Parser Unit := do
  let start ← here
  let isType ← atWord "type"
  let (n, isString) ← exportName
  if isType then
    let marked := do
      let n ← anyWord
      if !(← atWord "as") then checkReserved n.1 n.2 true
      pure n
    let (n, isRenamed) ← typedRest n inTypes marked (do let _ ← importedName)
    if !isRenamed then checkBoundName false false n.name
  else if ← eatWord "as" then
    let _ ← importedName
  else if isString then throw start
  else
    checkReserved n.1 n.2 true
    checkBoundName false false n

/-- The names in the braces of an import, and their number. -/
def importSpecifiers (inTypes : Bool) : Parser Nat := do
  expect "\x7b"
  let step := fun (count : Nat) => do
    if ← eat "\x7d" then pure (count, false)
    else
      if count != 0 then
        if ← eat ":" then throw (← here)
        expect ","
      let isDone ← if count != 0 then eat "\x7d" else pure false
      if isDone then pure (count, false)
      else
        importSpecifier inTypes
        pure (count + 1, true)
  iterate step 0

/-- A word in front of what is imported. -/
inductive ImportMark where
  /-- There is no such word. -/
  | none
  /-- The import takes types only. -/
  | types
  /-- The word is the name that the default export gets. -/
  | name (bound : String × Position)

/-- The word in front of what is imported. Of the words that say when a module is evaluated
    none is known. -/
def importMark : Parser ImportMark := do
  let t ← token
  let isType := (← atWord "type") && (← charAhead) != some '='
  let isPhase := ["source", "defer", "module"].any fun w => t.lexeme == .word w false
  if !isType && !isPhase then return .none
  else
    let n ← anyWord
    let isMark ←
      match (← token).lexeme with
      | .word "from" _ => pure ((← charAhead) == some 'f')
      | .word _ _ => pure true
      | .mark "," => pure false
      | _ => pure true
    if !isMark then return .name n
    else if isPhase then throw t.start
    else return .types

/-- An import under a name of its own, with its word passed: of a module, or of what a path of
    names stands for. -/
def importAlias (mark : ImportMark) : Parser Unit := do
  let bound ←
    match mark with
    | .name bound => pure bound
    | _ => name
  checkBoundName false false bound
  expect "="
  if (← atWord "require") && (← charAhead) == some '(' then
    next
    expect "("
    moduleText
    expect ")"
  else
    let start ← here
    let _ ← dottedName name
    match mark with
    | .types => note start
    | _ => pure ()
  semicolon

/-- The name that the default export gets, if there is one. -/
def importDefault (mark : ImportMark) : Parser Bool := do
  match mark with
  | .name bound =>
      checkBoundName true false bound
      pure true
  | _ =>
      if ← atAnyWord then
        checkBoundName true false (← name)
        pure true
      else pure false

/-- What is imported behind its mark. An import of types at `start` takes either the default
    export or names in braces. -/
def importList (mark : ImportMark) (start : Position) : Parser Unit := do
  let hasDefault ← importDefault mark
  let goesOn ← if hasDefault then eat "," else pure true
  let count ←
    if !goesOn then pure 0
    else if ← eat "*" then
      expectWord "as"
      checkBoundName true false (← name)
      pure 1
    else importSpecifiers (match mark with | .types => true | _ => false)
  expectWord "from"
  moduleSource
  semicolon
  match mark with
  | .types => if hasDefault && count != 0 then note start
  | _ => pure ()

/-- An import behind its keyword. -/
def importRest (start : Position) : Parser Unit := do
  match (← token).lexeme with
  | .string _ =>
      moduleSource
      semicolon
  | _ =>
      if (← atName) && (← charAhead) == some '=' then importAlias .none
      else if ← atWord "type" then
        let mark ← importMark
        if (← charAhead) == some '=' then importAlias mark else importList mark start
      else importList (← importMark) start

/-! ## Exports -/

/-- A name in the braces of an export. Tells it, unless it is a string, and its place. -/
def exportSpecifier (inTypes : Bool) : Parser (Option String × Position) := do
  let start ← here
  let isType ← atWord "type"
  let (n, isString) ← exportName
  let other := do
    let _ ← exportName
  if isType then
    let marked := do
      return (← exportName).1
    let (n, _) ← typedRest n inTypes marked other
    pure (some n.name.1, n.name.2)
  else
    if ← eatWord "as" then other
    pure (if isString then none else some n.1, start)

/-- The names in the braces of an export, if there are any. -/
def exportSpecifiers? (inTypes : Bool) : Parser (Option (List (Option String × Position))) := do
  if ← eat "\x7b" then return some (← listUntil "\x7d" (exportSpecifier inTypes)).1
  else return none

/-- The module that an export takes its names from. Without one the exported names must be
    local ones. -/
def exportSource (mustHave : Bool) (names : List (Option String × Position)) : Parser Unit := do
  let isFrom ← eatWord "from"
  if isFrom then moduleSource
  else if mustHave then unexpected
  semicolon
  if !isFrom then
    for (n, p) in names do
      match n with
      | some n => checkReserved n p false
      | none => note p

/-- An export of all names of a module, or of all under one name, behind its star. -/
def exportAll (inTypes : Bool) : Parser Unit := do
  if ← eatWord "as" then
    let _ ← exportName
    let goesOn ← eat ","
    let _ ← exportSpecifiers? inTypes
    if goesOn then unexpected
  exportSource true []

/-- What a module exports by default. -/
def defaultExport (g : Productions) : Parser Unit := do
  let start ← here
  if (← atWord "abstract") && (← wordAhead "class") then
    next
    let _ ← classRest g (g.accessed true) start .exported true
  else
    let shown ←
      match (← token).lexeme with
      | .word "interface" _ => interface? g start
      | _ => pure none
    match shown with
    | some _ => pure ()
    | none =>
        if ← eatKeyword "function" then
          let _ ← functionRest g start .exported false
        else if (← atWord "async") && (← wordAheadInLine "function") then
          next
          next
          let _ ← functionRest g start .exported true
        else if ← atKeyword "class" then
          let _ ← classRest g (g.accessed true) start .exported false
        else if (← atKeyword "const") || (← atKeyword "var") then unexpected
        else if (← atWord "let") && (← binderAhead) then unexpected
        else
          let _ ← assignAllowIn g false false
          semicolon

/-- The words that start a declaration and may also be names. -/
def declaringWords : List String :=
  ["abstract", "declare", "enum", "module", "namespace", "interface", "type"]

/-- Whether a declaration starts here that may be exported. A resource is noted. -/
def startsExported : Parser Bool := do
  match (← token).lexeme with
  | .word word isEscaped =>
      if declaringWords.contains word then return true
      else if (word == "using" && !isEscaped) || (← startsAwaitedResource) then
        note (← here)
        return true
      else if ["var", "const", "function", "class"].contains word then return true
      else if ← atWord "let" then binderAhead
      else if ← atWord "async" then wordAheadInLine "function"
      else return false
  | _ => return false

/-- An exported declaration. -/
def exportedItem (g : Productions) : Parser Unit := do
  let start ← here
  let declared ←
    match (← token).lexeme with
    | .word word _ => markedDecl? g word start
    | _ => pure none
  match declared with
  | some _ => pure ()
  | none =>
      if ← atKeyword "class" then
        let _ ← classDecl g (← here) .statement false
      else
        let _ ← g.statement (.body (← context).strict)

/-- An exported declaration that may lack an implementation. -/
def exportedDecl (g : Productions) : Parser Unit := do
  if ← atWord "declare" then
    withinAmbient do
      next
      let isAgain ← atWord "declare"
      let isDeclaration ← if isAgain then pure false else startsExported
      if isDeclaration then exportedItem g else unexpected
  else exportedItem g

/-- Whether an export by default takes its name from a module behind the word `from`. -/
def defaultFromAhead : Parser Bool := do
  if (← charAhead) == some ',' then return true
  else if ← wordAhead "from" then
    aheadIs do
      next
      return (← charAhead) == some '"' || (← charAhead) == some '\''
  else return false

/-- What is exported by names, by default or as a declaration. -/
def plainExport (g : Productions) : Parser Unit := do
  let types ←
    if ← atWord "type" then
      let c ← charAhead
      pure (c == some '\x7b' || c == some '*')
    else pure false
  if types then next
  if ← eat "*" then exportAll types
  else
    match ← exportSpecifiers? types with
    | some names => exportSource false names
    | none =>
        if ← atKeyword "default" then
          if ← defaultFromAhead then unexpected
          next
          defaultExport g
        else if ← startsExported then exportedDecl g
        else unexpected

/-- An export behind its keyword. -/
def exportRest (g : Productions) : Parser Unit := do
  if ← eatKeyword "import" then
    let mark ← if ← atWord "type" then importMark else pure .none
    importAlias mark
  else if ← eat "=" then
    let _ ← expression g
    semicolon
  else if ← eatWord "as" then
    expectWord "namespace"
    let _ ← name
    semicolon
  else plainExport g

/-- An import or export, which no script may have. -/
def moduleItem (g : Productions) (place : Place) (start : Position) : Parser Item := do
  if !place.isToplevel then note start
  let isImport ← atKeyword "import"
  next
  if isImport then importRest start else exportRest g
  note start
  pure (.stmt (.other (if isImport then "ImportDeclaration" else "ExportNamedDeclaration") start))

end Multimethod.Surface.Grammar
