import Multimethod.Surface.Grammar.Accesses

/-!
# Operators

Unary and binary operators by rank, conditional expressions and assignments.
-/

namespace Multimethod.Surface.Grammar

open Surface.Parser

/-! ## Unary operators -/

/-- A cast in angle brackets in front of its operand. -/
def leadingCast (g : Productions) : Parser Expr := do
  let start ← here
  let _ ← inType do
    next
    if ← atKeyword "const" then typeReference g else g.typeExpr
  expect ">"
  let operand ← withoutDoubts (g.operand false)
  pure (.cast "TSTypeAssertion" operand start)

/-- Notes a power of an operand that has an operator in front. -/
def checkPower (operand : Expr) : Parser Unit := do
  if ← atMark "**" then note operand.start

/-- The rest of an `await` expression, which no parameters may hold, with its operand. -/
def awaitRest (g : Productions) (start : Position) : Parser (Expr × Expr) := do
  doubtInParams start false
  if ← eat "*" then note start
  let operand ← withoutDoubts (g.operand true)
  pure (.other "AwaitExpression" start, operand)

/-- Whether an operand follows a word that may be an operator in front of it. What may also
    go on with an expression does not count. -/
def operandFollows : Parser Bool := do
  let t ← token
  if ← onNewLine then return false
  else
    match t.lexeme with
    | .mark m =>
        let goesOn := ["+", "-", "(", "[", "%"].contains m
        return t.lexeme.startsExpression && !goesOn
    | .template _ _ => return false
    | .regex => return false
    | .word "of" false => return false
    | lexeme => return lexeme.startsExpression

/-- An operator in front of its operand. -/
def prefixed (g : Productions) (op : String) (start : Position) (isInner : Bool) :
    Parser Expr := do
  if op == "throw" then unexpected
  next
  let operand ← withoutDoubts (g.operand true)
  settleOuter
  if op == "delete" && (← context).strict then
    match operand.bare with
    | .name _ _ => note start
    | .privateField _ _ => note start
    | .optionalField true _ => note start
    | _ => pure ()
  if op == "++" || op == "--" then
    checkTarget .counted operand
    pure (.update op operand start)
  else
    if !isInner then checkPower operand
    pure (.unary op operand start)

/-- An operand with the counting operators behind it. -/
def postfixed (g : Productions) : Parser Expr := do
  let start ← here
  let operand ← g.accessed true
  if ← isDoubted then pure operand
  else
    let step := fun (e : Expr) => do
      let isUpdate := (← atMark "++") || (← atMark "--")
      if isUpdate && !(← mayEnd) then
        let op ← if ← atMark "++" then pure "++" else pure "--"
        next
        checkTarget .counted e
        pure (.update op e start, true)
      else pure (e, false)
    iterate step operand

/-- An operand with the operators in front of it; one that `isInner` has another operator in
    front. -/
def unary (g : Productions) (isInner : Bool) : Parser Expr := do
  let t ← token
  let isAwait ← atWord "await"
  if ← atMark "<" then leadingCast g
  else if isAwait && (← context).allowsAwait then
    next
    let (e, operand) ← awaitRest g t.start
    if !isInner then checkPower operand
    pure e
  else
    match t.lexeme.prefixOperator with
    | some op => prefixed g op t.start isInner
    | none => do
        let e ← postfixed g
        if isAwait && (← operandFollows) then
          note t.start
          return (← awaitRest g t.start).1
        else pure e

/-! ## Binary operators -/

/-- The lowest rank of the operators in the right operand of an operator. -/
def rightRank (op : String) (rank : Nat) : Nat :=
  match op with
  | "**" => rank
  | "??" => rank + 2
  | _ => rank + 1

/-- Whether an operator decides which of its operands counts. -/
def isLogical (op : String) : Bool :=
  op == "&&" || op == "||" || op == "??"

/-- Two operands joined by an operator. -/
def joinOperands (op : String) (left right : Expr) (start : Position) : Expr :=
  if isLogical op then .logical op left right start else .binary op left right start

/-- Fails at an operator that must not be mixed with the one before it. -/
def checkMixed (op : String) : Parser Unit := do
  let isOr := (← atMark "||") || (← atMark "&&")
  let isDefault ← atMark "??"
  if (op == "??" && isOr) || ((op == "||" || op == "&&") && isDefault) then unexpected

/-- The type operator at the current token, if it may follow an operand. -/
def castOperator? (rank : Nat) : Parser (Option String) := do
  if Lexeme.comparisonRank < rank || (← onNewLine) then return none
  else if ← atWord "as" then return some "TSAsExpression"
  else if ← atWord "satisfies" then return some "TSSatisfiesExpression"
  else return none

/-- The type behind a type operator, which is the current token. -/
def castType (g : Productions) (construct : String) : Parser Unit := do
  let _ ← inType do
    next
    if ← atKeyword "const" then
      if construct == "TSSatisfiesExpression" then note (← here)
      typeReference g
    else g.typeExpr
  rejoinToken

/-- An operand of a binary operator, which may be a private name in front of `in` or a type
    operator only. An operator behind it must have the rank `rank` at least. -/
def binaryOperand (g : Productions) (rank : Nat) : Parser Expr := do
  match (← token).lexeme with
  | .privateName n => do
      let p ← here
      next
      if (← castOperator? rank).isNone then
        let isTested := (← context).allowsIn && (← atKeyword "in")
        if Lexeme.comparisonRank < rank || !isTested then note p
        usePrivate n p
      pure (.privateName n p)
  | _ => unary g false

/-- The operator at the current token, if it has the rank `rank` at least. A keyword that is
    written with an escape does not go on with the line before it. -/
def binaryOperator? (rank : Nat) : Parser (Option (String × Nat)) := do
  let lexeme := (← token).lexeme
  match lexeme.binaryOperator with
  | some (op, r) =>
      if r < rank || (op == "in" && !(← context).allowsIn) then return none
      else if lexeme.isEscapedKeyword && (← onNewLine) then return none
      else return some (op, r)
  | none => return none

/-- The operators behind an operand that have the rank `rank` at least, with their right
    operands. -/
def binaryRest (g : Productions) : Nat → Nat → Expr → Position → Parser Expr
  | 0, _, _, _ => unexpected
  | n + 1, rank, left, start => do
      match ← castOperator? rank with
      | some construct =>
          castType g construct
          binaryRest g n rank (.cast construct left start) start
      | none =>
          match ← binaryOperator? rank with
          | none => pure left
          | some (op, r) =>
              if op == "|>" then unexpected
              next
              let rightStart ← here
              let right ← withoutDoubts do
                let operand ← binaryOperand g (rightRank op r)
                binaryRest g n (rightRank op r) operand rightStart
              checkMixed op
              binaryRest g n rank (joinOperands op left right start) start

/-- An expression of binary operators. -/
def binary (g : Productions) : Parser Expr := do
  let start ← here
  let arrowAt := (← get).arrowAt
  let operand ← binaryOperand g 0
  if isArrowAt arrowAt operand then pure operand
  else binaryRest g (← bound) 0 operand start

/-! ## Conditions and assignments -/

/-- Whether the question mark at the current token may make a parameter optional. -/
def mayBeOptional : Parser Bool := do
  if (← context).maybeParams && (← atMark "?") then
    match ← charAhead with
    | some c => return [',', '=', ':', ')'].contains c
    | none => return false
  else return false

/-- Parses in front of the colon of a conditional expression, or not. -/
def inConsequent {α : Type} (isInFront : Bool) (p : Parser α) : Parser α :=
  within (fun c => { c with inConsequent := isInFront }) p

/-- A conditional expression, or what may be its condition. Its alternate stands in front of
    the colon of a conditional expression if the whole does. -/
def conditional (g : Productions) (isInFront : Bool) : Parser Expr := do
  let start ← here
  let arrowAt := (← get).arrowAt
  let test ← binary g
  if isArrowAt arrowAt test then pure test
  else if ← mayBeOptional then
    let mark ← here
    doubt fun d => { d with optionalMark := some mark }
    pure test
  else if ← eat "?" then
    let consequent ← inConsequent true (assignAllowIn g false false)
    expect ":"
    let alternate ← inConsequent isInFront (g.assign false false)
    pure (.conditional test consequent alternate start)
  else pure test

/-- The rest of a `yield` expression, which no parameters may hold. -/
def yieldRest (g : Productions) (start : Position) : Parser Expr := do
  doubtInParams start false
  let e : Expr := .other "YieldExpression" start
  if ← onNewLine then pure e
  else
    let isDelegating ← eat "*"
    let t ← token
    let isBare :=
      match t.lexeme with
      | .mark m => [";", "\x7d", ")", "]", ":", ","].contains m
      | .finish => true
      | .word "in" _ => true
      | _ => false
    if isBare && !isDelegating then pure e
    else
      let _ ← g.assign false false
      pure e

/-- Makes a target of an expression in front of an assignment: what was doubted in it is right.
    A private name in it ends the parse. -/
def settleTarget (start : Position) : Parser Unit := do
  let isInside := fun (p : Position) => start.offset ≤ p.offset
  let drop := fun (p : Option Position) => p.filter fun q => !isInside q
  for d in (← get).doubts do
    for p in d.privateKey do
      if isInside p then throw p
  doubt fun d =>
    { d with shorthandValue := drop d.shorthandValue, repeatedProto := drop d.repeatedProto }

/-- An assignment or what may be its target. Tells whether it is an assignment. -/
def assignment (g : Productions) (item isInFront : Bool) (start : Position) :
    Parser (Expr × Bool) := do
  if (← atMark "(") || (← atName) then
    modify fun s => { s with arrowAt := some ⟨start.offset, isInFront⟩ }
  let left ← conditional g isInFront
  let left ← if item then paramMarks g left start else pure left
  match (← token).lexeme.assignmentOperator with
  | some op =>
      if op == "=" then
        markTarget true left
        settleTarget start
      let stop ← lastStop
      next
      let value ← inConsequent isInFront (g.assign false false)
      checkTarget (.left op (!left.isParens)) left
      pure (.assign op left value stop start, true)
  | none => pure (left, false)

/-- An expression without commas that does not start with a type. -/
def plainAssign (g : Productions) (shared item : Bool) : Parser Expr := do
  let isInFront := (← context).inConsequent
  inConsequent false do
    let start ← here
    let isYield ← atWord "yield"
    if isYield && (← context).allowsYield then
      next
      let e ← yieldRest g start
      if item then paramMarks g e start else pure e
    else
      let (e, isAssign) ←
        if shared && (← get).doubts.isSome then assignment g item isInFront start
        else
          let ((e, isAssign), doubts) ← collectDoubts (assignment g item isInFront start)
          if !isAssign then settle doubts
          pure (e, isAssign)
      if isYield && !isAssign && (← operandFollows) then
        note start
        yieldRest g start
      else pure e

/-- An arrow function with type parameters, if it is one. -/
def genericArrow? (g : Productions) (shared item : Bool) : Parser (Option Expr) := do
  let start ← here
  let _ ← typeParams g .generic
  match ← plainAssign g shared item with
  | .other "ArrowFunctionExpression" _ => return some (.other "ArrowFunctionExpression" start)
  | _ => return none

/-- What starts with an angle bracket: an arrow function if it is a faultless one, otherwise a
    cast if it is a faultless one. Where both have faults, it is an arrow function if it can
    be parsed as one. -/
def arrowOrCast (g : Productions) (shared item : Bool) : Parser Expr := fun s =>
  let isFaultless := fun (s' : ParserState) =>
    s'.scanner.faults.length == s.scanner.faults.length
  match genericArrow? g shared item s with
  | .ok (some e, s') =>
      if isFaultless s' then .ok (e, s')
      else
        match plainAssign g shared item s with
        | .ok (cast, s'') => if isFaultless s'' then .ok (cast, s'') else .ok (e, s')
        | .error _ => .ok (e, s')
  | .ok (none, _) => plainAssign g shared item s
  | .error p =>
      match plainAssign g shared item s with
      | .ok found => .ok found
      | .error _ => .error p

/-- An expression without commas. -/
def assign (g : Productions) (shared item : Bool) : Parser Expr := do
  if ← atMark "<" then arrowOrCast g shared item else plainAssign g shared item

end Multimethod.Surface.Grammar
