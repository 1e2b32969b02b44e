import Multimethod.Surface.Grammar.Modules

/-!
# Statements

All forms of statements. Jumps are checked against the loops and labels around them.
-/

namespace Multimethod.Surface.Grammar

open Surface.Parser

/-! ## Parts of statements -/

/-- An expression in parentheses behind a keyword. -/
def header (g : Productions) : Parser Expr := do
  expect "("
  let e ← expression g
  expect ")"
  pure e

/-- A statement that is the only one in its place. -/
def single (g : Productions) : Parser Stmt := do
  return (← g.statement .single).toStmt

/-- A branch of a condition. -/
def branch (g : Productions) : Parser Stmt := do
  return (← g.statement (.branch (← context).strict false)).toStmt

/-- Parses within a statement that jumps may refer to. -/
def labeled {α : Type} (label : Label) (p : Parser α) : Parser α :=
  within (fun c => { c with labels := label :: c.labels }) p

/-- A statement without a name that jumps may refer to. -/
def anonymous (kind : LabelKind) : Label := ⟨none, kind, 0⟩

/-- Whether a jump may refer to a label. -/
def mayJumpTo (isLeave : Bool) (target : Option String) (label : Label) : Bool :=
  (target.isNone || label.name == target)
    && ((label.kind != .plain && (isLeave || label.kind == .loop)) || (target.isSome && isLeave))

/-! ## Jumps -/

/-- A jump within a loop, whose keyword is the current token. -/
def jump (jump : Jump) (start : Position) : Parser Stmt := do
  next
  let target ←
    if ← endsLine then pure none
    else
      let (n, _) ← name
      semicolon
      pure (some n)
  if !((← context).labels.any (mayJumpTo (jump == .leave) target)) then note start
  pure (.jump jump target.isSome start)

/-- A return from a function. -/
def ret (g : Productions) (start : Position) : Parser Stmt := do
  if !(← context).allowsReturn then note start
  next
  if ← endsLine then pure (.ret none start)
  else
    let value ← expression g
    semicolon
    pure (.ret (some value) start)

/-- The raising of an error. -/
def raise (g : Productions) (start : Position) : Parser Stmt := do
  next
  if ← onNewLine then note (← lastStop)
  let value ← expression g
  semicolon
  pure (.raise value start)

/-! ## Conditions -/

/-- A condition. -/
def condition (g : Productions) (start : Position) : Parser Stmt := do
  next
  let test ← header g
  let consequent ← branch g
  let alternate ← if ← eatKeyword "else" then some <$> branch g else pure none
  pure (.branch test consequent alternate start)

/-- What is known about the cases of a choice. -/
structure CasesSeen where
  any : Bool
  default : Bool

/-- The head of a case or a statement behind it. -/
def caseOrStatement (g : Productions) (seen : CasesSeen) : Parser (CasesSeen × Bool) := do
  if ← atMark "\x7d" then pure (seen, false)
  else if ← eatKeyword "case" then
    let _ ← expression g
    expect ":"
    pure (⟨true, seen.default⟩, true)
  else if ← eatKeyword "default" then
    if seen.default then note (← get).lastStart
    expect ":"
    pure (⟨true, true⟩, true)
  else if seen.any then
    let _ ← g.statement (.choice (← context).strict)
    pure (seen, true)
  else unexpected

/-- A choice between cases. -/
def choice (g : Productions) (start : Position) : Parser Stmt := do
  next
  let _ ← header g
  expect "\x7b"
  labeled (anonymous .choice) do
    let _ ← iterate (caseOrStatement g) ⟨false, false⟩
    next
  pure (.other "SwitchStatement" start)

/-- A block with handlers. -/
def guarded (g : Productions) (start : Position) : Parser Stmt := do
  next
  let _ ← block g
  let isHandled ← eatKeyword "catch"
  if isHandled then
    if ← eat "(" then
      let b ← g.binder
      checkBoundNames b.names false
      let _ ← ascription? g
      expect ")"
    let _ ← block g
  let isFinal ← eatKeyword "finally"
  if isFinal then
    let _ ← block g
  if !isHandled && !isFinal then note start
  pure (.other "TryStatement" start)

/-! ## Loops -/

/-- A loop that is tested in front of its body. -/
def whileLoop (g : Productions) (start : Position) : Parser Stmt := do
  next
  let test ← header g
  let body ← labeled (anonymous .loop) (single g)
  pure (.whileLoop test body start)

/-- A loop that is tested behind its body. -/
def doLoop (g : Productions) (start : Position) : Parser Stmt := do
  next
  let _ ← labeled (anonymous .loop) (single g)
  expectKeyword "while"
  let _ ← header g
  let _ ← eat ";"
  pure (.other "DoWhileStatement" start)

/-- A counting loop behind its first clause. -/
def countingRest (g : Productions) (init : LoopInit) (awaitAt : Option Position)
    (start : Position) : Parser Stmt := do
  for p in awaitAt do throw p
  plainSemicolon
  let test ← if ← atMark ";" then pure none else some <$> expression g
  plainSemicolon
  let update ← if ← atMark ")" then pure none else some <$> expression g
  expect ")"
  let body ← single g
  pure (.forLoop init test update body start)

/-- What a loop over elements assigns them to. -/
structure LoopTarget where
  /-- The name, if it is a single one. -/
  name : Option String
  /-- The place of a fault in it. -/
  fault : Option Position

/-- A loop over elements behind its target. -/
def elementsRest (g : Productions) (target : LoopTarget) (awaitAt : Option Position)
    (start : Position) : Parser Stmt := do
  let overKeys ← atKeyword "in"
  next
  if overKeys then
    for p in awaitAt do throw p
  for p in target.fault do note p
  if overKeys then
    let _ ← expression g
    expect ")"
    let _ ← single g
    pure (.other "ForInStatement" start)
  else
    let iterable ← assignAllowIn g false false
    expect ")"
    let body ← single g
    pure (.forOf (if awaitAt.isSome then none else target.name) iterable body start)

/-- The variable that a loop over elements declares at `start`. It must have no value. -/
def declaredTarget (kind : VariableKind) (d : Declarator) (start : Position) :
    Parser LoopTarget := do
  let inSloppyKeys := (← atKeyword "in") && !(← context).strict
  let isKept := inSloppyKeys && kind == .inFunction && d.binder.isName
  pure
    { name :=
        match d.binder with
        | .name n _ _ => some n
        | .other _ _ _ => none
      fault := if d.value.isSome && !isKept then some start else none }

/-- A loop whose first clause declares variables. Resources are no keys. -/
def variableLoop (g : Productions) (kind : VariableKind) (awaitAt : Option Position)
    (declStart start : Position) : Parser Stmt := do
  next
  let ds ← declarators g kind true false
  if kind == .resource && (← atKeyword "in") then note declStart
  match ds with
  | [d] =>
      if ← atLoopWord then
        elementsRest g (← declaredTarget kind d declStart) awaitAt start
      else countingRest g (.declared ds) awaitAt start
  | _ => countingRest g (.declared ds) awaitAt start

/-- A loop whose first clause is an expression. -/
def expressionLoop (g : Productions) (awaitAt : Option Position) (start : Position) :
    Parser Stmt := do
  let startsWithLet ← atWord "let"
  let startsWithAsync ← atWord "async"
  let (init, doubts) ← loopHead g
  if ← atWord "of" then
    if startsWithLet then note init.start
    if awaitAt.isNone && startsWithAsync && init.construct == "Identifier" then note init.start
  if ← atLoopWord then
    for p in doubts.privateKey do throw p
    markTarget true init
    checkTarget .looped init
    let target : LoopTarget :=
      { name :=
          match init.bare with
          | .name n _ => some n
          | _ => none
        fault :=
          match init.bare with
          | .assign "=" _ _ _ p => some p
          | _ => none }
    elementsRest g target awaitAt start
  else
    settle doubts
    countingRest g (.expression init) awaitAt start

/-- Whether the first clause of a loop declares a resource. -/
def startsLoopResource : Parser Bool := do
  if !(← atWord "using") || !(← nameAheadInLine) then return false
  else
    match ← textBehindWord "of" with
    | some (text, _) =>
        return (text.head?.map fun c => c == '=' || c == ':' || c == ';').getD false
    | none => return true

/-- Notes a resource whose disposal cannot be awaited. -/
def checkAwaitedResource : Parser Unit := do
  if !(← context).allowsAwait then note (← here)

/-- A loop with clauses. -/
def clauseLoop (g : Productions) (start : Position) : Parser Stmt := do
  next
  labeled (anonymous .loop) do
    let isAwait := (← context).allowsAwait && (← atWord "await")
    let awaitAt ← if isAwait then some <$> here else pure none
    if isAwait then next
    expect "("
    let declStart ← here
    let loopOver := fun (kind : VariableKind) => variableLoop g kind awaitAt declStart start
    if ← atMark ";" then countingRest g .none awaitAt start
    else if ← atKeyword "var" then loopOver .inFunction
    else if ← atKeyword "const" then loopOver .constant
    else if (← atWord "let") && (← binderAhead) then loopOver .inBlock
    else if ← startsAwaitedResource then
      checkAwaitedResource
      next
      loopOver .resource
    else if ← startsLoopResource then loopOver .resource
    else expressionLoop g awaitAt start

/-! ## Labels and expressions -/

/-- What the label in front of the current token marks. -/
def labelKind : Parser LabelKind := do
  if (← atKeyword "for") || (← atKeyword "while") || (← atKeyword "do") then return .loop
  else if ← atKeyword "switch" then return .choice
  else return .plain

/-- Lets the labels in front of a statement mark what the last one of them marks. -/
def retarget (labels : List Label) (from_ to_ : Nat) (kind : LabelKind) : List Label :=
  match labels with
  | [] => []
  | label :: outer =>
      if label.start == from_ then
        { label with start := to_, kind := kind } :: retarget outer from_ to_ kind
      else label :: outer

/-- A statement behind its label. -/
def labeledRest (g : Productions) (place : Place) (label : String) (labelAt start : Position) :
    Parser Item := do
  if (← context).labels.any (·.name == some label) then note labelAt
  let kind ← labelKind
  let bodyStart ← here
  let strict := (← context).strict
  let bodyPlace := if place.allowsLabeledFunction then .branch strict true else .single
  let _ ← within
    (fun c =>
      { c with
        labels :=
          ⟨some label, kind, bodyStart.offset⟩
            :: retarget c.labels start.offset bodyStart.offset kind })
    (g.statement bodyPlace)
  pure (.stmt (.other "LabeledStatement" start))

/-- A statement that starts with an expression. A name by itself may label a statement. -/
def expressionStatement (g : Productions) (place : Place) (start : Position) : Parser Item := do
  let startsWithName ← atName
  let e ← expression g
  let label? :=
    match e with
    | .name n _ => if startsWithName then some n else none
    | _ => none
  let isLabel ← if label?.isSome then eat ":" else pure false
  match if isLabel then label? else none with
  | some n => labeledRest g place n e.start start
  | none =>
      semicolon
      pure (.stmt (.expression e start))

/-! ## Statements -/

/-- Notes a declaration where none may stand. -/
def checkPlace (place : Place) : Parser Unit := do
  if !place.allowsDeclaration then note (← here)

/-- Whether a text starts with a word that is never a name. -/
def startsWithKeyword (text : List Char) : Bool :=
  keywords.any fun w => startsWithWord w text

/-- Whether `let` starts a declaration. Where a line ends behind it, a keyword does not go on
    with one. -/
def startsLet (place : Place) : Parser Bool := do
  let (text, newLine) ← textAhead
  if text.head? == some '[' then return true
  else if newLine && (!place.allowsDeclaration || startsWithKeyword text) then return false
  else return startsBoundName text || text.head? == some '\x7b'

/-- Notes a resource where none may be declared, or its disposal cannot be awaited. -/
def checkResource (place : Place) (isAwaited : Bool) : Parser Unit := do
  if !place.allowsResource || !place.allowsDeclaration then note (← here)
  else if isAwaited then checkAwaitedResource

/-- A function as a statement, whose keyword is the current token. -/
def functionStatement (g : Productions) (place : Place) (start : Position) (isAsync : Bool) :
    Parser Item := do
  next
  let isHanging := !place.allowsDeclaration && place.allowsFunction
  return .function (← functionRest g start (.statement isHanging place.isBlock) isAsync)

/-- A statement that starts with a word that may also be a name. -/
def nameStatement (g : Productions) (place : Place) (word : String) (start : Position) :
    Parser Item := do
  match ← wordDecl? g word start with
  | some item => pure item
  | none =>
      if word == "let" && (← startsLet place) then
        checkPlace place
        declaredVars g .inBlock start false
      else if ← startsResource then
        checkResource place false
        declaredVars g .resource start false
      else if ← startsAwaitedResource then
        checkResource place true
        next
        declaredVars g .resource start false
      else if word == "async" && (← wordAheadInLine "function") then
        checkPlace place
        next
        functionStatement g place start true
      else expressionStatement g place start

/-- A statement that starts with a word. -/
def wordStatement (g : Productions) (place : Place) (word : String) (isEscaped : Bool)
    (start : Position) : Parser Item := do
  match word with
  | "break" => return .stmt (← jump .leave start)
  | "continue" => return .stmt (← jump .next start)
  | "debugger" =>
      next
      semicolon
      return .stmt (.other "DebuggerStatement" start)
  | "do" => return .stmt (← doLoop g start)
  | "for" => return .stmt (← clauseLoop g start)
  | "if" => return .stmt (← condition g start)
  | "return" => return .stmt (← ret g start)
  | "switch" => return .stmt (← choice g start)
  | "throw" => return .stmt (← raise g start)
  | "try" => return .stmt (← guarded g start)
  | "while" => return .stmt (← whileLoop g start)
  | "with" =>
      if (← context).strict then note start
      next
      let _ ← header g
      let _ ← single g
      return .stmt (.other "WithStatement" start)
  | "function" =>
      if (← charAhead) == some '.' then expressionStatement g place start
      else
        if !place.allowsFunction then note start
        functionStatement g place start false
  | "class" =>
      if !place.allowsDeclaration then unexpected
      classDecl g start .statement false
  | "const" =>
      if !isEscaped && (← wordAhead "enum") then
        next
        enumeration g start
      else
        checkPlace place
        declaredVars g .constant start false
  | "var" => declaredVars g .inFunction start false
  | "import" =>
      let c ← charAhead
      if c == some '(' || c == some '.' then expressionStatement g place start
      else moduleItem g place start
  | "export" => moduleItem g place start
  | _ =>
      if isEscaped then expressionStatement g place start
      else nameStatement g place word start

/-- A statement or a declaration. -/
def statement (g : Productions) (place : Place) : Parser Item := do
  let t ← token
  match t.lexeme with
  | .word word isEscaped => wordStatement g place word isEscaped t.start
  | .mark "\x7b" => return .stmt (.block (← block g) t.start)
  | .mark ";" =>
      next
      return .stmt (.empty t.start)
  | .mark "@" => unexpected
  | _ => expressionStatement g place t.start

end Multimethod.Surface.Grammar
