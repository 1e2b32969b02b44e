import Multimethod.Surface.Grammar.Operators

/-!
# Declarations

Variables, type aliases, and the declarations that the language has no meaning for: interfaces,
enumerations and namespaces.
-/

namespace Multimethod.Surface.Grammar

open Surface.Parser

/-! ## Variables -/

/-- How long the variables of a declaration live, and whether they change. -/
inductive VariableKind where
  /-- A variable of the function around. -/
  | inFunction
  /-- A variable of the block around. -/
  | inBlock
  | constant
  /-- A constant that is disposed of at the end of its block. -/
  | resource
  deriving DecidableEq

/-- Whether variables of a kind must have initial values. -/
def VariableKind.needsValue : VariableKind → Bool
  | constant => true
  | resource => true
  | _ => false

/-- Whether the loop over elements goes on here. -/
def atLoopWord : Parser Bool := do
  return (← atKeyword "in") || (← atWord "of")

/-- A declared variable. Where `mayOmit` does not hold, constants and destructuring forms need
    an initial value, unless a loop gives them one. -/
def declarator (g : Productions) (kind : VariableKind) (isLoop mayOmit : Bool) :
    Parser Declarator := do
  let b ← g.binder
  if kind == .resource && !b.isName then note b.start
  checkBoundNames b.names (kind != .inFunction)
  if b.isName && !(← onNewLine) then
    let _ ← eat "!"
  let type ← ascription? g
  let b :=
    match b with
    | .name n _ p => .name n type p
    | b => b
  let value ←
    if ← eat "=" then
      let value ← within (fun c => { c with allowsIn := !isLoop }) (g.assign false false)
      pure (some value)
    else pure none
  if value.isNone && !mayOmit then
    let isGiven ← if isLoop then atLoopWord else pure false
    if !isGiven && (!b.isName || kind.needsValue) then note (← lastStop)
  pure ⟨b, value⟩

/-- The declared variables behind the word that declares them. -/
def declarators (g : Productions) (kind : VariableKind) (isLoop mayOmit : Bool) :
    Parser (List Declarator) := do
  let first ← declarator g kind isLoop mayOmit
  let others ← collect do
    if ← eat "," then return some (← declarator g kind isLoop mayOmit) else return none
  pure (first :: others)

/-- Whether an expression is a name with fields behind it. Parentheses do not count. -/
def isNamePath : Expr → Bool
  | .parens inner => isNamePath inner
  | .name _ _ => true
  | .field object _ _ => isNamePath object
  | .privateField object _ => isNamePath object
  | _ => false

/-- Whether an expression is a number. -/
def isNumber : Expr → Bool
  | .number _ _ => true
  | .other "BigIntLiteral" _ => true
  | _ => false

/-- Whether the value of an expression is a text that is written out. -/
def isPlainText : Expr → Bool
  | .string _ _ => true
  | .template [] _ => true
  | _ => false

/-- Whether an expression may be the value of a constant that is declared only. -/
def isPlainConstant : Expr → Bool
  | .bool _ _ => true
  | .unary "-" operand _ => isNumber operand.bare
  | .field object _ _ => isNamePath object
  | .privateField object _ => isNamePath object
  | .index object index _ => isNamePath object && isPlainText index.bare
  | e => isNumber e || isPlainText e

/-- Notes a value where variables are declared only. -/
def checkAmbientValue (kind : VariableKind) (d : Declarator) : Parser Unit := do
  let hasType :=
    match d.binder with
    | .name _ type _ => type.isSome
    | .other _ _ _ => false
  for value in d.value do
    if kind != .constant || hasType || !isPlainConstant value then note value.start

/-- A statement that declares variables, whose last word is the current token. -/
def declaredVars (g : Productions) (kind : VariableKind) (start : Position) (mayOmit : Bool) :
    Parser Item := do
  let isAmbient := (← context).ambient
  next
  let ds ← declarators g kind false (mayOmit || isAmbient)
  semicolon
  if isAmbient then
    if kind == .resource then note start
    else
      for d in ds do checkAmbientValue kind d
  pure (.stmt (.declared ds start))

/-- Whether the current word declares a resource. -/
def startsResource : Parser Bool := do
  let (text, newLine) ← textAhead
  return (← atWord "using") && !newLine
    && (startsBoundName text || text.head? == some '\x7b')

/-- Whether the current word declares a resource whose disposal is awaited. -/
def startsAwaitedResource : Parser Bool := do
  if ← atWord "await" then
    match ← textBehindWord "using" with
    | some (text, newLine) => return !newLine && startsBoundName text
    | none => return false
  else return false

/-! ## Interfaces, enumerations and namespaces -/

/-- An interface, whose word is the current token. -/
def interface (g : Productions) (start : Position) : Parser Item := do
  expectWord "interface"
  if ← atName then checkBoundName false false (← name) else note (← here)
  let _ ← typeParams? g .both
  if ← eatKeyword "extends" then heritage g
  inType (typeMembers g)
  pure (.stmt (.other "TSInterfaceDeclaration" start))

/-- An interface, unless a line ends behind its word. -/
def interface? (g : Productions) (start : Position) : Parser (Option Item) := do
  if ← lineEndsAhead then return none else return some (← interface g start)

/-- A member of an enumeration. -/
def enumMember (g : Productions) : Parser Unit := do
  match (← token).lexeme with
  | .string _ => next
  | _ =>
      let _ ← anyWord
  if ← eat "=" then
    let _ ← assignAllowIn g false false

/-- An enumeration, whose word is the current token. -/
def enumeration (g : Productions) (start : Position) : Parser Item := do
  expectWord "enum"
  checkBoundName true false (← name)
  expect "\x7b"
  let _ ← listBefore (atMark "\x7d") (enumMember g)
  expect "\x7d"
  pure (.stmt (.other "TSEnumDeclaration" start))

/-- The body of a namespace. -/
def namespaceBody (g : Productions) : Parser Unit :=
  within
    (fun c =>
      { c with
        receiver := .none
        allowsReturn := false
        allowsAwait := false
        allowsYield := false })
    do
      expect "\x7b"
      let _ ← plainItems g (fun _ => .inNamespace) (atMark "\x7d")
      next

/-- A namespace behind its word. -/
def namespaceRest (g : Productions) (start : Position) : Parser Item := do
  checkBoundName false false (← name)
  let _ ← collect do
    if ← eat "." then return some (← name) else return none
  namespaceBody g
  pure (.stmt (.other "TSModuleDeclaration" start))

/-- A module that is declared by a string or as the global one. -/
def externalModule (g : Productions) (start : Position) : Parser Item := do
  match (← token).lexeme with
  | .string _ => next
  | .word "global" false => next
  | _ => unexpected
  if ← atMark "\x7b" then namespaceBody g else semicolon
  pure (.stmt (.other "TSModuleDeclaration" start))

/-! ## Aliases -/

/-- The type of an alias. -/
def aliasedType (g : Productions) : Parser TypeExpr := do
  let start ← here
  let isIntrinsic ←
    if ← atWord "intrinsic" then
      aheadIs do
        next
        return !(← atMark ".")
    else pure false
  if isIntrinsic then
    next
    pure (.other "TSIntrinsicKeyword" start)
  else g.typeExpr

/-- A type alias behind its word. -/
def aliasRest (g : Productions) (start : Position) : Parser Item := do
  let bound ← name
  checkBoundName false false bound
  let (hasParams, type) ← inType do
    let params ← typeParams? g .variant
    expect "="
    let type ← aliasedType g
    pure (!params.isEmpty, type)
  semicolon
  pure (.typeAlias { name := bound.1, hasParams := hasParams, type := type, start := start })

/-! ## What starts with a word that may also be a name -/

/-- A class as a declaration, whose keyword is the current token. -/
def classDecl (g : Productions) (start : Position) (form : ClassForm) (isAbstract : Bool) :
    Parser Item := do
  return .classDecl (← classRest g (g.accessed true) start form isAbstract)

/-- What is declared abstract. Only a class may be. -/
def abstractDecl? (g : Productions) (start : Position) : Parser (Option Item) := do
  if ← atKeyword "class" then return some (← classDecl g start .statement true)
  else if ← atWord "interface" then
    if ← lineEndsAhead then return none
    else
      note start
      return some (← interface g start)
  else unexpected

/-- A module behind its word, if a name or a string tells which one. -/
def moduleRest? (g : Productions) (start : Position) : Parser (Option Item) := do
  match (← token).lexeme with
  | .string _ => return some (← externalModule g start)
  | lexeme => if lexeme.isName then return some (← namespaceRest g start) else return none

/-- A namespace behind its word, if a name tells which one. -/
def namespaceRest? (g : Productions) (start : Position) : Parser (Option Item) := do
  if ← atName then return some (← namespaceRest g start) else return none

/-- The words that may tell of a declaration behind an `export` or `declare`. -/
def markedWords : List String := ["abstract", "module", "namespace", "type"]

/-- A declaration behind an `export` or `declare` that starts with the current word. The word
    is passed if its line goes on. -/
def markedDecl? (g : Productions) (word : String) (start : Position) : Parser (Option Item) := do
  if !markedWords.contains word || (← lineEndsAhead) then return none
  else
    next
    match word with
    | "abstract" =>
        if (← atKeyword "class") || (← atName) then abstractDecl? g start else return none
    | "module" => moduleRest? g start
    | "namespace" => namespaceRest? g start
    | _ => if ← atName then return some (← aliasRest g start) else return none

/-- What is declared without an implementation. -/
def ambientDecl? (g : Productions) (start : Position) : Parser (Option Item) :=
  withinAmbient do
    let t ← token
    match t.lexeme with
    | .word "function" _ =>
        next
        return some (.function (← functionRest g start (.statement false false) false))
    | .word "class" _ => return some (← classDecl g start .declared false)
    | .word "enum" _ => return some (← enumeration g start)
    | .word "global" _ => return some (← externalModule g start)
    | .word "const" _ =>
        if ← wordAhead "enum" then
          next
          return some (← enumeration g start)
        else return some (← declaredVars g .constant start true)
    | .word "var" _ => return some (← declaredVars g .inFunction start true)
    | .word "let" false => return some (← declaredVars g .inBlock start true)
    | .word word _ =>
        if ← startsResource then
          note t.start
          return some (← declaredVars g .resource start true)
        else if ← startsAwaitedResource then
          note t.start
          next
          return some (← declaredVars g .resource start true)
        else
          match ← if word == "interface" then interface? g start else pure none with
          | some item => return some item
          | none => markedDecl? g word start
    | _ => return none

/-- The statement that a word makes by itself in front of a missing declaration. -/
def bareWord (word : String) (start : Position) : Parser Item := do
  plainSemicolon
  pure (.stmt (.expression (.name word start) start))

/-- A statement without an effect, in place of a declaration that its word announces but that
    does not follow. -/
def announcedOnly (start : Position) : Item :=
  .stmt (.empty start)

/-- Whether a name follows the current token in its line, no operator. -/
def operandAheadInLine : Parser Bool := do
  let (text, _) ← textAhead
  return (← nameAheadInLine) && !startsWithWord "as" text && !startsWithWord "satisfies" text

/-- The declaration that the current word starts, if what follows it in its line makes it the
    word of one. -/
def wordDecl? (g : Productions) (word : String) (start : Position) : Parser (Option Item) := do
  match word with
  | "abstract" =>
      if ← operandAheadInLine then
        next
        match ← abstractDecl? g start with
        | some item => return some item
        | none => return some (← bareWord word start)
      else return none
  | "declare" =>
      if ← operandAheadInLine then
        next
        match ← ambientDecl? g start with
        | some item => return some item
        | none => return some (← bareWord word start)
      else return none
  | "enum" => return some (← enumeration g start)
  | "interface" => interface? g start
  | "global" =>
      if (← charAhead) == some '\x7b' then return some (← externalModule g start)
      else return none
  | "module" =>
      let (text, newLine) ← textAhead
      let isString := text.head? == some '"' || text.head? == some '\''
      if !newLine && (isString || startsBoundName text) then
        next
        return some ((← moduleRest? g start).getD (announcedOnly start))
      else return none
  | "namespace" =>
      if ← nameAheadInLine then
        next
        return some ((← namespaceRest? g start).getD (announcedOnly start))
      else return none
  | "type" =>
      if ← nameAheadInLine then
        next
        return some (← aliasRest g start)
      else return none
  | _ => return none

end Multimethod.Surface.Grammar
