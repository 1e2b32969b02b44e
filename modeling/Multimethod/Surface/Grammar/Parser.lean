import Multimethod.Surface.Scan
import Multimethod.Surface.Tree

/-!
# Parsing steps

The parser holds one token and reads the next one on demand. A fault from which there is no
recovery ends the parse; any other fault is noted and parsing goes on, so that a later fault
of the first kind wins. The state is a plain value: an attempt that fails leaves no trace.
-/

namespace Multimethod.Surface

/-- What a label of a statement marks. -/
inductive LabelKind where
  | loop
  | choice
  | plain
  deriving DecidableEq

/-- A place that a jump may go to. -/
structure Label where
  name : Option String
  kind : LabelKind
  /-- Where the labeled statement starts. -/
  start : Nat

/-- Whose receiver, parent class and call target an expression may mention. -/
structure Receiver where
  inFunction : Bool
  inClass : Bool
  inStaticBlock : Bool
  allowsSuper : Bool
  allowsSuperCall : Bool

/-- The receiver outside all functions and classes. -/
def Receiver.none : Receiver := ⟨false, false, false, false, false⟩

/-- What surrounds the current token. -/
structure Context where
  strict : Bool
  inType : Bool
  noConditionalTypes : Bool
  /-- Within parentheses that may turn out to be parameters. -/
  maybeParams : Bool
  /-- In front of the colon of a conditional expression: an arrow function that tells its
      return type must be followed by that colon. -/
  inConsequent : Bool
  /-- Among declarations without an implementation. -/
  ambient : Bool
  inAbstractClass : Bool
  allowsIn : Bool
  allowsAwait : Bool
  allowsYield : Bool
  allowsReturn : Bool
  labels : List Label
  receiver : Receiver

/-- The context of a script. -/
def Context.script : Context where
  strict := false
  inType := false
  noConditionalTypes := false
  maybeParams := false
  inConsequent := false
  ambient := false
  inAbstractClass := false
  allowsIn := false
  allowsAwait := false
  allowsYield := false
  allowsReturn := false
  labels := []
  receiver := .none

/-- Faults that count only if an expression does not turn out to be a pattern. -/
structure Doubts where
  shorthandValue : Option Position
  repeatedProto : Option Position
  privateKey : Option Position
  /-- A question mark that only a parameter may have. -/
  optionalMark : Option Position

/-- No doubts. -/
def Doubts.none : Doubts := ⟨.none, .none, .none, .none⟩

/-- Whether there are no doubts. -/
def Doubts.isNone (d : Doubts) : Bool :=
  d.shorthandValue.isNone && d.repeatedProto.isNone && d.privateKey.isNone
    && d.optionalMark.isNone

/-- A getter or a setter. -/
structure AccessorKind where
  isGetter : Bool
  isStatic : Bool
  deriving DecidableEq

/-- The private names of a class body. -/
structure PrivateScope where
  /-- The declared names. An accessor is kept as long as its counterpart is missing. -/
  declared : List (String × Option AccessorKind)
  /-- Names that were used before they were declared, in order of their first use, each with
      the place of its last one. -/
  pending : List (String × Position)

/-- What the expressions around the current token may turn out to be. -/
inductive HeadKind where
  /-- Nothing but an expression. -/
  | expression
  /-- The parameters of an arrow function, which may be an async one. -/
  | maybeParams (isAsync : Bool)
  /-- The parameters of a function. -/
  | params
  deriving DecidableEq

/-- What the expressions around the current token may turn out to be, with the faults that
    count if they are parameters, newest first. -/
structure Head where
  kind : HeadKind
  faults : List Position

/-- Where an arrow function may start. -/
structure ArrowPlace where
  start : Nat
  inConsequent : Bool

/-- The state of the parser. -/
structure ParserState where
  scanner : Scanner
  token : Token
  /-- Where the last token started and ended. -/
  lastStart : Position
  lastStop : Position
  context : Context
  arrowAt : Option ArrowPlace
  /-- The doubts of the expression around, if it takes any. -/
  doubts : Option Doubts
  privates : List PrivateScope
  /-- The innermost head comes first. -/
  heads : List Head

/-- Parsing steps. -/
abbrev Parser := StateT ParserState (Except Position)

namespace Parser

variable {α : Type}

/-! ## Faults -/

/-- Notes a fault. -/
def note (p : Position) : Parser Unit :=
  modify fun s => { s with scanner := { s.scanner with faults := p :: s.scanner.faults } }

/-- The number of faults noted. -/
def noteCount : Parser Nat := do
  return (← get).scanner.faults.length

/-- The current token. -/
def token : Parser Token := do
  return (← get).token

/-- Where the current token starts. -/
def here : Parser Position := do
  return (← get).token.start

/-- Where the last token ended. -/
def lastStop : Parser Position := do
  return (← get).lastStop

/-- The place behind the current token. -/
def behindToken : Parser Position := do
  return (← get).scanner.position

/-- Fails at the current token. -/
def unexpected : Parser α := do
  throw (← here)

/-- An upper bound on the number of steps that each read a token. -/
def bound : Parser Nat := do
  return (← get).scanner.total + 2

/-! ## Context -/

/-- What surrounds the current token. -/
def context : Parser Context := do
  return (← get).context

/-- Changes the context from here on. -/
def setContext (change : Context → Context) : Parser Unit :=
  modify fun s => { s with context := change s.context }

/-- Parses in a changed context. -/
def within (change : Context → Context) (p : Parser α) : Parser α := do
  let outer ← context
  setContext change
  let a ← p
  setContext fun _ => outer
  pure a

/-- Parses a type. -/
def inType (p : Parser α) : Parser α :=
  within (fun c => { c with inType := true }) p

/-- Parses what is declared without an implementation. Such code is never strict. -/
def withinAmbient (p : Parser α) : Parser α :=
  within (fun c => { c with ambient := true, strict := false }) p

/-- Parses where `in` is an operator. -/
def allowIn (p : Parser α) : Parser α :=
  within (fun c => { c with allowsIn := true }) p

/-! ## Tokens -/

/-- Runs a scan on the text behind the current token. -/
def scan (p : Scan α) : Parser α := fun s =>
  match p.run { s.scanner with strict := s.context.strict } with
  | .error e => .error e
  | .ok (a, scanner) => .ok (a, { s with scanner := scanner })

/-- Reads the next token, whatever the current one is. -/
def skip : Parser Unit := do
  modify fun s => { s with lastStart := s.token.start, lastStop := s.token.stop }
  let t ← scan (Scan.token (← context).inType)
  modify fun s => { s with token := t }

/-- Reads the next token. A keyword must not be written with an escape. -/
def next : Parser Unit := do
  let t ← token
  if t.lexeme.isEscapedKeyword then note t.start
  skip

/-- Whether the current token is the mark `m`. -/
def atMark (m : String) : Parser Bool := do
  return (← token).lexeme == .mark m

/-- Whether the current token is the keyword `w`. -/
def atKeyword (w : String) : Parser Bool := do
  return (← token).lexeme.wordText == some w

/-- Whether the current token is the word `w`, which is no keyword everywhere. -/
def atWord (w : String) : Parser Bool := do
  return (← token).lexeme == .word w false

/-- Whether the current token is a piece of a template. -/
def atTemplate : Parser Bool := do
  match (← token).lexeme with
  | .template _ _ => return true
  | _ => return false

/-- Whether the current token may be a name. -/
def atName : Parser Bool := do
  return (← token).lexeme.isName

/-- Whether the current token is the end of the text. -/
def atFinish : Parser Bool := do
  return (← token).lexeme == .finish

/-- Whether the current token may be the name of a property. -/
def atPropertyName : Parser Bool := do
  return (← token).lexeme.isPropertyName

/-- Whether a line ends in front of the current token. -/
def onNewLine : Parser Bool := do
  let s ← get
  return s.lastStop.line != s.token.start.line

/-- Passes the mark `m` if it is the current token. -/
def eat (m : String) : Parser Bool := do
  if ← atMark m then
    next
    return true
  else return false

/-- Passes the keyword `w` if it is the current token. -/
def eatKeyword (w : String) : Parser Bool := do
  if ← atKeyword w then
    next
    return true
  else return false

/-- Passes the word `w` if it is the current token. -/
def eatWord (w : String) : Parser Bool := do
  if ← atWord w then
    next
    return true
  else return false

/-- Passes the mark `m`, which must be the current token. -/
def expect (m : String) : Parser Unit := do
  if !(← eat m) then unexpected

/-- Passes the keyword `w`, which must be the current token. -/
def expectKeyword (w : String) : Parser Unit := do
  if !(← eatKeyword w) then unexpected

/-- Passes the word `w`, which must be the current token. -/
def expectWord (w : String) : Parser Unit := do
  if !(← eatWord w) then unexpected

/-- Whether a statement may end in front of the current token without a semicolon. -/
def mayEnd : Parser Bool := do
  return (← atFinish) || (← atMark "\x7d") || (← onNewLine)

/-- Passes a semicolon, if any, and tells whether the statement ends here. -/
def endsLine : Parser Bool := do
  if ← eat ";" then return true
  else mayEnd

/-- The end of a statement. A missing semicolon is noted behind the last token. -/
def semicolon : Parser Unit := do
  if !(← endsLine) then note (← lastStop)

/-- A semicolon that cannot be left out. -/
def plainSemicolon : Parser Unit := do
  if !(← eat ";") then note (← lastStop)

/-- Cuts an angle bracket off the current token, which starts with it. -/
def splitToken : Parser Unit :=
  modify fun s =>
    match s.token.lexeme with
    | .mark text =>
        match text.toList with
        | c :: d :: ds =>
            { s with
              token :=
                { s.token with
                  lexeme := .mark (String.singleton c)
                  stop := s.token.start.shifted 1 }
              scanner :=
                { s.scanner with
                  rest := d :: ds ++ s.scanner.rest
                  position := s.token.start.shifted 1 } }
        | _ => s
    | _ => s

/-- Reads the current token again, which is an angle bracket that was cut off within a type. -/
def rejoinToken : Parser Unit := do
  let s ← get
  if s.token.lexeme == .mark "<" || s.token.lexeme == .mark ">" then
    let c := if s.token.lexeme == .mark "<" then '<' else '>'
    set
      { s with
        scanner := { s.scanner with rest := c :: s.scanner.rest, position := s.token.start } }
    let lexeme ← scan (Scan.mark false)
    modify fun s => { s with token := ⟨lexeme, s.token.start, s.scanner.position⟩ }

/-! ## Looking ahead -/

/-- Runs a step and goes back to where it started. A step that fails gives nothing. -/
def ahead (p : Parser α) : Parser (Option α) := fun s =>
  match p s with
  | .ok (a, _) => .ok (some a, s)
  | .error _ => .ok (none, s)

/-- Tests what comes next. -/
def aheadIs (p : Parser Bool) : Parser Bool := do
  return (← ahead p) == some true

/-- The text behind the gap that follows the current token, and whether a line ends in the
    gap. -/
def textAhead : Parser (List Char × Bool) := do
  let s ← get
  match skipGap s.scanner.position .blank s.scanner.rest s.scanner.position with
  | .ok (rest, p) => return (rest, p.line != s.scanner.position.line)
  | .error _ => return ([], false)

/-- The first character behind the gap that follows the current token. -/
def charAhead : Parser (Option Char) := do
  return (← textAhead).1.head?

/-- Whether a line ends between the current token and the next one. -/
def lineEndsAhead : Parser Bool := do
  return (← textAhead).2

/-- Whether a text starts with the word `w`. An escape behind it does not count. -/
def startsWithWord (w : String) (text : List Char) : Bool :=
  text.take w.length == w.toList
    && !(((text.drop w.length).head?.map isNamePart).getD false)

/-- Whether the word `w` follows the current token. -/
def wordAhead (w : String) : Parser Bool := do
  return startsWithWord w (← textAhead).1

/-- Whether the word `w` follows the current token in its line. -/
def wordAheadInLine (w : String) : Parser Bool := do
  let (text, newLine) ← textAhead
  return !newLine && startsWithWord w text

/-- Whether a text starts with an operator that is a word, no part of a longer one. -/
def startsWithOperator (text : List Char) : Bool :=
  ["in", "instanceof"].any fun w =>
    startsWithWord w text && (text.drop w.length).head? != some '\\'

/-- Whether a text starts with what a declaration may bind by name. -/
def startsBoundName (text : List Char) : Bool :=
  match text with
  | [] => false
  | c :: _ => if isNameStart c then !startsWithOperator text else c == '\\'

/-- Whether what follows the current token may be bound by a declaration. -/
def binderAhead : Parser Bool := do
  let (text, _) ← textAhead
  return startsBoundName text || text.head? == some '\x7b' || text.head? == some '['

/-- Whether what follows the current token in its line may be bound by name. -/
def nameAheadInLine : Parser Bool := do
  let (text, newLine) ← textAhead
  return !newLine && startsBoundName text

/-- The text behind the word `w`, if that follows the current token in its line, and whether a
    line ends in between. -/
def textBehindWord (w : String) : Parser (Option (List Char × Bool)) := do
  let s ← get
  let (text, newLine) ← textAhead
  if newLine || !startsWithWord w text then return none
  else
    let p := s.scanner.position
    match skipGap p .blank (text.drop w.length) p with
    | .ok (rest, q) => return some (rest, q.line != p.line)
    | .error _ => return some ([], false)

/-- Goes back to the start unless a step gives a result. -/
def attempt (p : Parser (Option α)) : Parser (Option α) := fun s =>
  match p s with
  | .ok (some a, s') => .ok (some a, s')
  | .ok (none, _) => .ok (none, s)
  | .error e => .error e

/-- Goes back to the start unless a step holds. -/
def attemptIf (p : Parser Bool) : Parser Bool := do
  return (← attempt do return if ← p then some () else none).isSome

/-- Like `attempt`, but also goes back when the step fails. -/
def recover (p : Parser (Option α)) : Parser (Option α) := fun s =>
  match p s with
  | .ok (some a, s') => .ok (some a, s')
  | _ => .ok (none, s)

/-! ## Lists -/

/-- Repeats a step until it tells to stop. -/
def collectUpTo (step : Parser (Option α)) : Nat → List α → Parser (List α)
  | 0, _ => unexpected
  | n + 1, found => do
      match ← step with
      | some a => collectUpTo step n (a :: found)
      | none => pure found.reverse

/-- The results of a step that is repeated until it gives none. -/
def collect (step : Parser (Option α)) : Parser (List α) := do
  collectUpTo step (← bound) []

/-- Repeats a step on a value until it tells to stop. -/
def iterateUpTo (step : α → Parser (α × Bool)) : Nat → α → Parser α
  | 0, _ => unexpected
  | n + 1, a => do
      let (a, again) ← step a
      if again then iterateUpTo step n a else pure a

/-- Repeats a step on a value until it tells to stop. -/
def iterate (step : α → Parser (α × Bool)) (a : α) : Parser α := do
  iterateUpTo step (← bound) a

/-- Passes the items up to the mark `close`, parted by commas; a comma may follow the last one.
    Each item goes on with what those before it gave. The closing mark is passed. Tells where
    the last comma stands if it closes the list. -/
def foldUntil (close : String) (item : α → Parser α) (start : α) :
    Parser (α × Option Position) := do
  let step := fun (found : (α × Option Position) × Bool) => do
    let ((a, comma), isFirst) := found
    if ← eat close then pure (((a, comma), isFirst), false)
    else
      if !isFirst then expect ","
      if !isFirst && (← atMark close) then
        let comma := (← get).lastStart
        next
        pure (((a, some comma), isFirst), false)
      else return (((← item a, none), false), true)
  return (← iterate step ((start, none), true)).1

/-- The items up to the mark `close`, parted by commas; a comma may follow the last one. The
    closing mark is passed. Tells where the last comma stands if it closes the list. -/
def listUntil (close : String) (item : Parser α) : Parser (List α × Option Position) := do
  let (found, comma) ← foldUntil close (fun found => return (← item) :: found) []
  pure (found.reverse, comma)

/-- The items in front of a terminator, parted by commas; a comma may follow the last one. -/
def listBefore (atEnd : Parser Bool) (item : Parser α) : Parser (List α) :=
  do
    let step := fun (found : List α) => do
      if ← atEnd then pure (found, false)
      else
        let a ← item
        if ← eat "," then pure (a :: found, true)
        else if ← atEnd then pure (a :: found, false)
        else unexpected
    let found ← iterate step []
    pure found.reverse

/-! ## Doubts -/

/-- Parses an expression that settles its own doubts; tells them. -/
def collectDoubts (p : Parser α) : Parser (α × Doubts) := do
  let outer := (← get).doubts
  modify fun s => { s with doubts := some .none }
  let a ← p
  let own := ((← get).doubts).getD .none
  modify fun s => { s with doubts := outer }
  pure (a, own)

/-- Parses an expression that takes no doubts. -/
def withoutDoubts (p : Parser α) : Parser α := do
  let outer := (← get).doubts
  modify fun s => { s with doubts := none }
  let a ← p
  modify fun s => { s with doubts := outer }
  pure a

/-- Changes the doubts of the expression around, if it takes any. -/
def doubt (change : Doubts → Doubts) : Parser Unit :=
  modify fun s => { s with doubts := s.doubts.map change }

/-- Makes faults of doubts; a question mark that no parameter has ends the parse. -/
def settle (d : Doubts) : Parser Unit := do
  for p in d.shorthandValue do note p
  for p in d.repeatedProto do note p
  for p in d.privateKey do note p
  match d.optionalMark with
  | some p => throw p
  | none => pure ()

/-- Makes faults of the doubts of the expression around. -/
def settleOuter : Parser Unit := do
  for d in (← get).doubts do settle d

/-- Whether there are doubts about the expression around. -/
def isDoubted : Parser Bool := do
  return (← get).doubts.any fun d => !d.isNone

end Parser

end Multimethod.Surface
