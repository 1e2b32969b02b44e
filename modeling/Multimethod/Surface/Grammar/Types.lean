import Multimethod.Surface.Grammar.Binders

/-!
# Types

The grammar of type annotations. Most forms have no meaning in the language and are kept by
name.
-/

namespace Multimethod.Surface.Grammar

open Surface.Parser

/-- Parses where a conditional type may stand. -/
def allowConditionalTypes {α : Type} (p : Parser α) : Parser α :=
  within (fun c => { c with noConditionalTypes := false }) p

/-- Parses where no conditional type may stand. -/
def refuseConditionalTypes {α : Type} (p : Parser α) : Parser α :=
  within (fun c => { c with noConditionalTypes := true }) p

/-- Type arguments in angle brackets, of which there must be one. -/
def typeArgs (g : Productions) : Parser (List TypeExpr) := do
  let start ← here
  let args ← inType do
    expect "<"
    listBefore (atMark ">") g.typeExpr
  if args.isEmpty then note start
  else if !(← context).inType then rejoinToken
  expect ">"
  pure args

/-- Type arguments in the same line, if there are any. -/
def typeArgs? (g : Productions) : Parser (List TypeExpr) := do
  if (← atMark "<") && !(← onNewLine) then typeArgs g else pure []

/-- A name with parts after dots. Tells the first part if it is the only one. -/
def dottedName (part : Parser (String × Position)) : Parser (Option String) := do
  let (first, _) ← part
  let more ← collect do
    if ← eat "." then return some (← part) else return none
  pure (if more.isEmpty then some first else none)

/-- A name with parts after dots, each of which may be any word. -/
def entityName : Parser (Option String) :=
  dottedName anyWord

/-- A named type with its arguments. -/
def typeReference (g : Productions) : Parser TypeExpr := do
  let start ← here
  let n ← entityName
  let args ← typeArgs? g
  pure <|
    match n with
    | some n => .reference n args start
    | none => .qualified start

/-! ## Functions -/

/-- The predicate behind a name, if there is one. -/
def predicateSubject : Parser (Option Unit) := do
  let _ ← name
  if (← atWord "is") && !(← onNewLine) then
    next
    return some ()
  else return none

/-- The word that makes an assertion of a predicate, if it is one. It must not be written with
    an escape. -/
def assertion? : Parser Bool :=
  attemptIf do
    let t ← token
    if t.lexeme.wordText != some "asserts" then return false
    else
      next
      let isAssertion := (← atName) || (← atKeyword "this")
      if isAssertion && t.lexeme != .word "asserts" false then note t.start
      return isAssertion

/-- What a function returns: a type or a predicate, behind the mark `m`. -/
def returnType (g : Productions) (m : String) : Parser TypeExpr :=
  inType do
    expect m
    let start ← here
    let predicate : TypeExpr := .other "TSTypePredicate" start
    let asserts ← assertion?
    if asserts && (← atKeyword "this") then
      next
      if (← atWord "is") && !(← onNewLine) then
        next
        let _ ← inType g.typeExpr
      pure predicate
    else
      let subject ← if ← atName then attempt predicateSubject else pure none
      if subject.isSome then
        let _ ← inType g.typeExpr
        pure predicate
      else if asserts then
        let _ ← name
        pure predicate
      else inType g.typeExpr

/-- What a function returns, if it is told. -/
def returnType? (g : Productions) : Parser (Option TypeExpr) := do
  if ← atMark ":" then return some (← returnType g ":") else return none

/-- The parameters of a signature, none of which has a default value. -/
def signatureParams (g : Productions) : Parser BinderList := do
  let l ← params g false
  for b in l.binders do
    match b with
    | .other "AssignmentPattern" _ p => note p
    | .other "TSParameterProperty" _ p => note p
    | _ => pure ()
  pure l

/-- The type parameters, parameters and return type of a signature. The return type stands
    behind the mark `m`; only an arrow must be there. Tells the parameters, and where the
    return type starts with its mark. -/
def signature (g : Productions) (m : String) : Parser (BinderList × Option Position) := do
  let _ ← typeParams? g .generic
  let l ← signatureParams g
  if m == "=>" || (← atMark m) then
    let start ← here
    let _ ← returnType g m
    pure (l, some start)
  else pure (l, none)

/-- Whether the opening parenthesis at the current token starts parameters. It is passed. -/
def startsParams (g : Productions) : Parser Bool := do
  next
  if (← atMark ")") || (← atMark "...") then return true
  else
    let notes ← noteCount
    let skipped ←
      if (← atName) || (← atKeyword "this") then
        next
        pure true
      else if (← atMark "[") || (← atMark "\x7b") then
        let _ ← g.binder
        pure ((← noteCount) == notes)
      else pure false
    if !skipped then return false
    else if ← eat ")" then atMark "=>"
    else
      match (← token).lexeme with
      | .mark m => return [":", ",", "?", "="].contains m
      | _ => return false

/-- Whether a function type starts here. -/
def startsFunctionType (g : Productions) : Parser Bool := do
  if ← atMark "<" then return true
  else if ← atMark "(" then aheadIs (startsParams g)
  else return false

/-- Whether the type of a constructor without an implementation starts here. -/
def startsAbstractConstructor : Parser Bool := do
  if ← atWord "abstract" then
    aheadIs do
      next
      atKeyword "new"
  else return false

/-! ## Members of object types -/

/-- The end of a member of an object type. -/
def memberEnd : Parser Unit := do
  if ← eat "," then pure ()
  else if ← endsLine then pure ()
  else expect ";"

/-- Whether an index signature starts here. -/
def startsIndexSignature : Parser Bool := do
  if ← atMark "[" then
    aheadIs do
      next
      if ← atName then
        next
        atMark ":"
      else return false
  else return false

/-- An index signature, if there is one. -/
def indexSignature? (g : Productions) : Parser Bool := do
  if ← startsIndexSignature then
    expect "["
    let _ ← name
    let _ ← ascription g
    expect "]"
    let _ ← ascription? g
    memberEnd
    pure true
  else pure false

/-- What is known of a member of an object type once its name is parsed. -/
structure TypeMemberHead where
  start : Position
  isReadonly : Bool
  accessor : Option String

/-- Whether a parameter is one that no setter has. -/
def isOddSetterParam (e : BoundElement) : Bool :=
  match e.binder with
  | .name n _ _ => n == "this"
  | .other construct _ _ => construct == "RestElement"

/-- Notes an accessor with a wrong signature, which is passed. -/
def checkAccessorSignature (kind : String) (l : BinderList) (returnAt : Option Position) :
    Parser Unit := do
  if kind == "get" then
    if !l.elements.isEmpty then note (← behindToken)
  else
    if l.elements.length != 1 || l.elements.any isOddSetterParam || l.hasOptionalName then
      note (← behindToken)
    for p in returnAt do note p

/-- What follows the name of a member of an object type. -/
def propertyOrMethod (g : Productions) (h : TypeMemberHead) : Parser Unit := do
  let _ ← eat "?"
  if (← atMark "(") || (← atMark "<") then
    if h.isReadonly then note h.start
    if h.accessor.isSome && (← atMark "<") then note (← behindToken)
    let (l, returnAt) ← signature g ":"
    memberEnd
    for kind in h.accessor do checkAccessorSignature kind l returnAt
  else
    let _ ← ascription? g
    memberEnd

/-- A member of an object type that has a name. -/
def namedTypeMember (g : Productions) (start : Position) (isReadonly : Bool) : Parser Unit := do
  let key ← withoutDoubts (propertyKey g)
  let accessor :=
    match key.form with
    | .word "get" => some "get"
    | .word "set" => some "set"
    | _ => none
  let isAccessor ← if accessor.isSome then followsModifier else pure false
  if isAccessor then
    let _ ← withoutDoubts (propertyKey g)
    if !(← atMark "(") && !(← atMark "<") then unexpected
    propertyOrMethod g ⟨start, isReadonly, accessor⟩
  else propertyOrMethod g ⟨start, isReadonly, none⟩

/-- A member of an object type. -/
def typeMember (g : Productions) : Parser Unit := do
  let start ← here
  let call := fun (_ : Unit) => do
    let _ ← signature g ":"
    memberEnd
  if (← atMark "(") || (← atMark "<") then call ()
  else if ← atKeyword "new" then
    next
    if (← atMark "(") || (← atMark "<") then call ()
    else propertyOrMethod g ⟨start, false, none⟩
  else
    let seen ← modifiers ["readonly"]
      ["declare", "abstract", "private", "protected", "public", "static", "override"] false
    if !(← indexSignature? g) then namedTypeMember g start (seen.contains "readonly")

/-- The members of an object type, in braces. -/
def typeMembers (g : Productions) : Parser Unit := do
  expect "\x7b"
  let _ ← collect do
    if ← atMark "\x7d" then return none
    else
      typeMember g
      return some ()
  expect "\x7d"

/-- A sign in front of a modifier of a mapped type, if there is one. -/
def mappedSign? : Parser Bool := do
  if ← eat "+" then pure true else eat "-"

/-- Whether what follows an opening brace makes it a mapped type. -/
def startsMappedType : Parser Bool := do
  next
  if ← mappedSign? then atWord "readonly"
  else
    let _ ← eatWord "readonly"
    if !(← eat "[") then return false
    else if !(← atName) then return false
    else
      next
      atKeyword "in"

/-- A mapped type. -/
def mappedType (g : Productions) : Parser Unit := do
  expect "\x7b"
  if ← mappedSign? then expectWord "readonly"
  else
    let _ ← eatWord "readonly"
  expect "["
  let _ ← name
  let _ ← inType do
    expectKeyword "in"
    g.typeExpr
  if ← eatWord "as" then
    let _ ← g.typeExpr
  expect "]"
  if ← mappedSign? then expect "?"
  else
    let _ ← eat "?"
  if ← atMark ":" then
    let _ ← inType do next; g.typeExpr
  semicolon
  expect "\x7d"

/-! ## Tuples -/

/-- The keywords that are types by themselves. -/
def typeKeywords : List String := ["this", "void", "null", "true", "false"]

/-- An element of a tuple type. Tells where it starts, whether it is optional and whether it
    stands for any number of elements. -/
def tupleElement (g : Productions) : Parser (Position × Bool × Bool) := do
  let start ← here
  let isRest ← eat "..."
  let isWord := (← token).lexeme.wordText.isSome
  let ahead ← if isWord then charAhead else pure none
  if ahead == some ':' then
    let _ ← anyWord
    expect ":"
    pure (start, ← labeledType, isRest)
  else if ahead == some '?' then
    let _ ← withinOperand
    let isLabel := (← charAhead) == some ':'
    expect "?"
    if isLabel then
      expect ":"
      let _ ← labeledType
    pure (start, true, isRest)
  else
    let p ← here
    let _ ← g.typeExpr
    let isOptional ← eat "?"
    if ← eat ":" then
      note p
      let _ ← g.typeExpr
    pure (start, isOptional, isRest)
where
  /-- A type behind a label. A question mark behind it is noted, and told. -/
  labeledType : Parser Bool := do
    let _ ← g.typeExpr
    if ← eat "?" then
      note (← get).lastStart
      pure true
    else pure false
  /-- A type that consists of a single word. -/
  withinOperand : Parser Unit := do
    match (← token).lexeme with
    | .word text _ =>
        if text == "typeof" || text == "import" then
          next
          unexpected
        else if isKeyword text && !typeKeywords.contains text then unexpected
        else next
    | _ => unexpected

/-- A tuple type. A required element must not follow an optional one. -/
def tupleType (g : Productions) : Parser Unit := do
  expect "["
  let elements ← listBefore (atMark "]") (tupleElement g)
  expect "]"
  let mut seenOptional := false
  for (p, isOptional, isRest) in elements do
    if seenOptional && !isOptional && !isRest then note p
    seenOptional := seenOptional || (isOptional && !isRest)

/-! ## Operands -/

/-- The attributes of a module that a type refers to, in braces. -/
def importAttributes (g : Productions) : Parser Unit := do
  expect "\x7b"
  let _ ← collect do
    if ← atMark "\x7d" then return none
    else
      match (← token).lexeme with
      | .string _ => pure ()
      | lexeme => if !lexeme.isName then unexpected
      let _ ← withoutDoubts g.property
      let _ ← eat ","
      return some ()
  expect "\x7d"

/-- The options of a type by reference to a module, which are its attributes. -/
def importOptions (g : Productions) : Parser Unit := do
  expect "\x7b"
  if (← token).lexeme != .word "with" false then unexpected
  skip
  expect ":"
  importAttributes g
  let _ ← eat ","
  expect "\x7d"

/-- A type by reference to a module. -/
def importType (g : Productions) : Parser Unit := do
  expectKeyword "import"
  expect "("
  match (← token).lexeme with
  | .string _ => next
  | _ =>
      note (← here)
      let _ ← withoutDoubts g.primary
  if ← eat "," then importOptions g
  expect ")"
  if ← eat "." then
    let _ ← entityName
  if ← atMark "<" then
    let _ ← typeArgs g

/-- The type of a value. -/
def typeQuery (g : Productions) : Parser Unit := do
  expectKeyword "typeof"
  if ← atKeyword "import" then importType g
  else
    let _ ← entityName
  let _ ← typeArgs? g

/-- The words that name a type by themselves. -/
def wordType (word : String) (start : Position) : Option TypeExpr :=
  match word with
  | "any" => some .any
  | "never" => some .never
  | "void" | "null" | "undefined" => some .nothing
  | "boolean" => some (.other "TSBooleanKeyword" start)
  | "bigint" => some (.other "TSBigIntKeyword" start)
  | "number" => some (.other "TSNumberKeyword" start)
  | "object" => some (.other "TSObjectKeyword" start)
  | "string" => some (.other "TSStringKeyword" start)
  | "symbol" => some (.other "TSSymbolKeyword" start)
  | "unknown" => some (.other "TSUnknownKeyword" start)
  | _ => none

/-- A type that starts with a word. -/
def typeOfWord (g : Productions) (word : String) (start : Position) : Parser TypeExpr := do
  match word with
  | "true" | "false" =>
      next
      pure (.other "TSLiteralType" start)
  | "this" =>
      next
      if (← atWord "is") && !(← onNewLine) then
        next
        let _ ← inType g.typeExpr
        pure (.other "TSTypePredicate" start)
      else pure (.other "TSThisType" start)
  | "typeof" =>
      typeQuery g
      pure (.other "TSTypeQuery" start)
  | "import" =>
      importType g
      pure (.other "TSImportType" start)
  | word =>
      if isKeyword word && word != "void" && word != "null" then unexpected
      else
        match wordType word start with
        | some type =>
            if (← charAhead) == some '.' then typeReference g
            else
              next
              pure type
        | none => typeReference g

/-- A type without operators. -/
def primaryType (g : Productions) : Parser TypeExpr := do
  let t ← token
  let start := t.start
  match t.lexeme with
  | .string _ | .number _ | .bigint =>
      next
      pure (.other "TSLiteralType" start)
  | .template _ _ =>
      let _ ← templateParts g.typeExpr false
      pure (.other "TSLiteralType" start)
  | .word word _ => typeOfWord g word start
  | .mark "-" =>
      let isNumber ← aheadIs do
        next
        match (← token).lexeme with
        | .number _ | .bigint => return true
        | _ => return false
      if !isNumber then unexpected
      else
        next
        let _ ← withoutDoubts (g.operand false)
        pure (.other "TSLiteralType" start)
  | .mark "\x7b" =>
      if ← aheadIs startsMappedType then
        mappedType g
        pure (.other "TSMappedType" start)
      else
        typeMembers g
        pure (.other "TSTypeLiteral" start)
  | .mark "[" =>
      tupleType g
      pure (.other "TSTupleType" start)
  | .mark "(" =>
      next
      let inner ← g.typeExpr
      expect ")"
      pure (.parens inner)
  | _ => unexpected

/-- A type with the brackets behind it. -/
def arrayType (g : Productions) : Parser TypeExpr := do
  let start ← here
  let first ← primaryType g
  let step := fun (type : TypeExpr) => do
    if (← atMark "[") && !(← onNewLine) then
      next
      if ← eat "]" then pure (.other "TSArrayType" start, true)
      else
        let _ ← g.typeExpr
        expect "]"
        pure (.other "TSIndexedAccessType" start, true)
    else pure (type, false)
  iterate step first

/-- The bound of an inferred type, unless it turns out to be a condition. -/
def inferredBound (g : Productions) : Parser (Option Unit) := do
  if ← eatKeyword "extends" then
    let _ ← refuseConditionalTypes g.typeExpr
    if (← context).noConditionalTypes || !(← atMark "?") then return some ()
    else return none
  else return none

/-- Whether a type is what `readonly` applies to. -/
def isReadonlyOperand : TypeExpr → Bool
  | .other "TSTupleType" _ => true
  | .other "TSArrayType" _ => true
  | _ => false

/-- A type without infix operators. -/
def typeOperand (g : Productions) : Parser TypeExpr := do
  let t ← token
  match t.lexeme with
  | .word "readonly" false => do
      next
      let operand ← g.typeOperand
      if !isReadonlyOperand operand then note t.start
      pure (.other "TSTypeOperator" t.start)
  | .word "keyof" false | .word "unique" false => do
      next
      let _ ← g.typeOperand
      pure (.other "TSTypeOperator" t.start)
  | .word "infer" false => do
      next
      let _ ← name
      let _ ← attempt (inferredBound g)
      pure (.other "TSInferType" t.start)
  | _ => allowConditionalTypes (arrayType g)

/-- Types joined by the operator `op`. -/
def joinedTypes (operand : Parser TypeExpr) (op : String)
    (join : List TypeExpr → Position → TypeExpr) : Parser TypeExpr := do
  let start ← here
  let leading ← eat op
  let first ← operand
  let others ← collect do
    if ← eat op then return some (← operand) else return none
  if others.isEmpty && !leading then pure first else pure (join (first :: others) start)

/-- A union, or what it consists of. -/
def unionType (g : Productions) : Parser TypeExpr :=
  let intersection :=
    joinedTypes (typeOperand g) "&" fun _ start => .other "TSIntersectionType" start
  joinedTypes intersection "|" fun members _ => .union members

/-- A type without conditions. -/
def plainType (g : Productions) : Parser TypeExpr := do
  let start ← here
  let constructor := fun (_ : Unit) => do
    next
    let _ ← allowConditionalTypes (signature g "=>")
    pure (TypeExpr.other "TSConstructorType" start)
  if ← startsFunctionType g then
    let _ ← allowConditionalTypes (signature g "=>")
    pure (.other "TSFunctionType" start)
  else if ← atKeyword "new" then constructor ()
  else if ← startsAbstractConstructor then
    next
    constructor ()
  else unionType g

/-- A type. -/
def typeExpr (g : Productions) : Parser TypeExpr := do
  let start ← here
  let type ← plainType g
  let mayGoOn := !(← context).noConditionalTypes && !(← onNewLine)
  let isConditional ← if mayGoOn then eatKeyword "extends" else pure false
  if !isConditional then pure type
  else
    let _ ← refuseConditionalTypes (plainType g)
    expect "?"
    let _ ← allowConditionalTypes g.typeExpr
    expect ":"
    let _ ← allowConditionalTypes g.typeExpr
    pure (.other "TSConditionalType" start)

end Multimethod.Surface.Grammar
