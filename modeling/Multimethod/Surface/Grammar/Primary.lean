import Multimethod.Surface.Grammar.Classes
import Multimethod.Surface.Grammar.Items

/-!
# Primary expressions

Names, literals, functions and what stands in parentheses. An opening parenthesis or a name
may start an arrow function if the expression around starts there.
-/

namespace Multimethod.Surface.Grammar

open Surface.Parser

/-! ## Arrow functions -/

/-- Whether an arrow function may start at `start`, and if so, where. -/
def arrowPlace? (start : Position) : Parser (Option ArrowPlace) := do
  return (← get).arrowAt.filter (·.start == start.offset)

/-- The return type and the arrow behind parameters. Without an arrow nothing is passed. -/
def arrowMark (g : Productions) : Parser Bool := do
  if ← atMark ":" then
    let _ ← recover do
      let _ ← returnType g ":"
      if (← mayEnd) || !(← atMark "=>") then return none else return some ()
  eat "=>"

/-- Whether the items of parentheses, which are closed, may be parameters. -/
def mayBeParams (items : List Expr) : Parser Bool := do
  if ← atMark ":" then return items.all (mayBeTarget true)
  else return !(← mayEnd)

/-- What stands in parentheses, newest first. -/
structure ParenItems where
  items : List Expr
  /-- Where a rest parameter starts. -/
  rest : Option Position
  /-- Where the parentheses are closed behind a comma. -/
  closing : Option Position

/-- Adds the next item of parentheses, if there is one. -/
def parenItem (g : Productions) (found : ParenItems) : Parser (ParenItems × Bool) := do
  if ← atMark ")" then pure (found, false)
  else
    if !found.items.isEmpty then
      if !(← eat ",") then
        throw ((((← get).doubts).bind (·.optionalMark)).getD (← here))
    if !found.items.isEmpty && (← atMark ")") then
      pure ({ found with closing := some (← here) }, false)
    else
      let start ← here
      if ← eat "..." then
        let b ← g.binder
        let item ← paramMarks g (.rest b.names start) start
        let again ← commaAfterRest
        pure ({ found with items := item :: found.items, rest := some start }, again)
      else
        refuseVoid ')'
        let item ← assignAllowIn g true true
        pure ({ found with items := item :: found.items }, true)

/-- An arrow function behind its parameters, if it is one. Then what is doubted of them is
    certain. -/
def arrowBehind? (g : Productions) (doubts : Doubts) (h : ArrowHead) : Parser (Option Expr) := do
  if ← arrowMark g then
    for p in doubts.privateKey do throw p
    confirmHead
    return some (← arrowRest g h)
  else return none

/-- Whether the first item in parentheses shows that parameters stand there: a name with a type,
    or what takes the rest. -/
def showsParams : Expr → Bool
  | .annotated operand _ _ =>
      match operand with
      | .name _ _ => true
      | .rest _ _ => true
      | .spread _ _ => true
      | _ => false
  | .assign _ (.annotated (.name _ _) _ _) _ _ _ => true
  | .rest _ _ => true
  | .spread _ _ => true
  | _ => false

/-- Whether what stands in parentheses in front of a colon is taken for parameters, whatever
    follows: there is nothing in them, the first item shows it, or an item is optional. -/
def mustBeParams (items : List Expr) (doubts : Doubts) : Bool :=
  doubts.optionalMark.isSome ||
    match items with
    | [] => true
    | first :: _ => showsParams first

/-- The arrow function that the step `arrow` gives behind the parameters of `h`. In front of the
    colon of a conditional expression, what looks like parameters with a return type may as well
    be an operand in front of that colon. If it may, the arrow function counts only if it is
    faultless and the colon follows it. -/
def arrowInCondition? (doubts : Doubts) (h : ArrowHead) (arrow : Parser (Option Expr)) :
    Parser (Option Expr) := do
  if h.inConsequent && (← atMark ":") && !mustBeParams h.exprs doubts then
    recover do
      let notes ← noteCount
      match ← arrow with
      | some e => if (← atMark ":") && (← noteCount) == notes then return some e else return none
      | none => return none
  else arrow

/-- Parentheses around expressions, whose first one starts at `inner`. -/
def enclosed (found : ParenItems) (doubts : Doubts) (inner : Position) : Parser Expr := do
  if found.items.isEmpty then throw (← get).lastStart
  for p in found.closing do throw p
  for p in found.rest do throw p
  settle doubts
  noteAscriptions found.items
  match found.items with
  | [item] => pure (.parens item)
  | _ => pure (.parens (.other "SequenceExpression" inner))

/-- Parentheses around expressions, or an arrow function. -/
def parens (g : Productions) : Parser Expr := do
  let start ← here
  let place ← arrowPlace? start
  next
  let inner ← here
  inHead (.maybeParams false) do
    let (found, doubts) ←
      within (fun c => { c with maybeParams := true }) <| collectDoubts do
        let found ← iterate (parenItem g) ⟨[], none, none⟩
        expect ")"
        pure found
    let found := { found with items := found.items.reverse }
    let isCandidate ← if place.isSome then mayBeParams found.items else pure false
    let arrow ←
      if isCandidate then
        let h : ArrowHead :=
          { start := start
            isAsync := false
            exprs := found.items
            trailing := none
            binders := none
            inConsequent := (place.map (·.inConsequent)).getD false }
        arrowInCondition? doubts h (arrowBehind? g doubts h)
      else pure none
    match arrow with
    | some e => pure e
    | none => enclosed found doubts inner

/-- An arrow function with a single parameter behind `async`. -/
def asyncArrow (g : Productions) (start : Position) (inConsequent : Bool) : Parser Expr := do
  let (n, p) ← within (fun c => { c with allowsAwait := true }) name
  if ← onNewLine then note (← behindToken)
  expect "=>"
  arrowRest g
    { start := start
      isAsync := true
      exprs := [.name n p]
      trailing := none
      binders := none
      inConsequent := inConsequent }

/-! ## Keywords -/

/-- Passes the one property that a keyword has. -/
def metaProperty (property : String) : Parser Unit := do
  let isEscaped := (← token).lexeme == .word property true
  let (n, p) ← anyWord
  if n != property || isEscaped then note p

/-- What starts with `new`. -/
def construction (g : Productions) : Parser Expr := do
  let start ← here
  next
  if ← eat "." then
    metaProperty "target"
    let receiver := (← context).receiver
    if !receiver.inFunction && !receiver.inClass then note start
    pure (.other "MetaProperty" start)
  else
    let isImport ← atKeyword "import"
    let callee ← withoutDoubts (g.accessed false)
    if isImport && callee.construct == "Import" then note callee.start
    let callee :=
      match callee with
      | .applied inner _ => inner
      | e => e
    if ← eat "(" then
      let (args, _) ← withoutDoubts (arguments g)
      noteAscriptions args
      pure (.creation callee args start)
    else pure (.creation callee [] start)

/-- What starts with `import` in an expression. -/
def importExpr : Parser Expr := do
  let start ← here
  next
  if ← eat "." then
    if (← atWord "source") || (← atWord "defer") then unexpected
    else
      if ← atWord "meta" then note start
      metaProperty "meta"
      pure (.other "MetaProperty" start)
  else
    if !(← atMark "(") then note start
    pure (.other "Import" start)

/-- The parent of the receiver. -/
def superExpr : Parser Expr := do
  let start ← here
  next
  let receiver := (← context).receiver
  if ← atMark "(" then
    if !receiver.allowsSuperCall then note start
  else if !receiver.allowsSuper then note start
  if !(← atMark "(") && !(← atMark "[") && !(← atMark ".") then note start
  pure (.other "Super" start)

/-- A function behind its keyword, as an expression. -/
def functionExpr (g : Productions) (start : Position) (isAsync : Bool) : Parser Expr := do
  let _ ← functionRest g start .expression isAsync
  pure (.other "FunctionExpression" start)

/-- What starts with a keyword. -/
def keywordExpr (g : Productions) (word : String) (start : Position) : Parser Expr := do
  match word with
  | "super" => superExpr
  | "import" => importExpr
  | "this" =>
      next
      pure (.other "ThisExpression" start)
  | "null" =>
      next
      pure (.null start)
  | "true" =>
      next
      pure (.bool true start)
  | "false" =>
      next
      pure (.bool false start)
  | "function" =>
      next
      let isDot ← if (← context).allowsYield then eat "." else pure false
      if isDot then unexpected else functionExpr g start false
  | "class" =>
      let _ ← classRest g (g.accessed true) start .expression false
      pure (.other "ClassExpression" start)
  | "new" => construction g
  | _ => unexpected

/-! ## Literals and names -/

/-- A regular expression, whose first slash starts the current token. -/
def regex : Parser Expr := do
  let start ← here
  modify fun s =>
    let isAssign := s.token.lexeme == .mark "/="
    { s with
      scanner :=
        { s.scanner with
          rest := if isAssign then '=' :: s.scanner.rest else s.scanner.rest
          position := start.shifted 1 } }
  let lexeme ← scan (Scan.regex start)
  modify fun s => { s with token := ⟨lexeme, start, s.scanner.position⟩ }
  next
  pure (.other "RegExpLiteral" start)

/-- A name, or an arrow function that starts with it. -/
def nameOrArrow (g : Productions) (isEscaped : Bool) (start : Position) : Parser Expr := do
  let place ← arrowPlace? start
  let (n, p) ← name
  let asyncAhead := !isEscaped && n == "async" && !(← mayEnd)
  if asyncAhead && (← atKeyword "function") then
    next
    functionExpr g start true
  else if asyncAhead && (← atName) then
    match place with
    | some place =>
        if (← charAhead) == some '=' then asyncArrow g start place.inConsequent
        else pure (.name n p)
    | none => pure (.name n p)
  else if asyncAhead && (← atKeyword "do") then unexpected
  else if place.isSome && (← atMark "=>") && !(← mayEnd) then
    next
    arrowRest g
      { start := start
        isAsync := false
        exprs := [.name n p]
        trailing := none
        binders := none
        inConsequent := (place.map (·.inConsequent)).getD false }
  else pure (.name n p)

/-- A substitution of a template, which is a type if the template stands in one. -/
def substitution (g : Productions) : Parser Expr := do
  if (← context).inType then
    let start ← here
    let _ ← g.typeExpr
    pure (.other "TSType" start)
  else expression g

/-- Whether the braces of a module expression follow the current word in its line. -/
def atModuleExpr : Parser Bool := do
  let (text, newLine) ← textAhead
  return (← atWord "module") && !newLine && text.head? == some '\x7b'

/-- A primary expression. -/
def primary (g : Productions) : Parser Expr := do
  let t ← token
  let start := t.start
  match t.lexeme with
  | .word word isEscaped =>
      if isKeyword word then keywordExpr g word start
      else if ← atModuleExpr then unexpected
      else nameOrArrow g isEscaped start
  | .number isWhole =>
      next
      pure (.number isWhole start)
  | .bigint =>
      next
      pure (.other "BigIntLiteral" start)
  | .string raw =>
      next
      pure (.string raw start)
  | .template _ _ => return .template (← templateParts (substitution g) false) start
  | .privateName _ =>
      note start
      next
      pure (.other "PrivateName" start)
  | .mark "/" => regex
  | .mark "/=" => regex
  | .mark "(" => parens g
  | .mark "[" => array g
  | .mark "\x7b" => object g
  | _ => unexpected

end Multimethod.Surface.Grammar
