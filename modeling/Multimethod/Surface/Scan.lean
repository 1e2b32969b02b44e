import Multimethod.Surface.Token

/-!
# Scanning

Cutting a source text into tokens, one at a time: the parser decides after each token whether
a slash starts a regular expression, whether a brace continues a template, and whether two
angle brackets stand for a shift. A scan stops at a fault from which there is no recovery;
every other fault is noted and the scan goes on.
-/

namespace Multimethod.Surface

/-- The text that is still to be scanned, and the faults noted so far, newest first. -/
structure Scanner where
  rest : List Char
  position : Position
  faults : List Position
  /-- Faults that count only if the code turns out to be strict. -/
  strictFaults : List Position
  /-- Whether the text that is scanned is strict code. -/
  strict : Bool
  /-- The length of the whole text. -/
  total : Nat

/-- Scanning steps; one that cannot go on fails at a position. -/
abbrev Scan := StateT Scanner (Except Position)

/-- What surrounds the characters of a gap between tokens. -/
inductive Gap where
  | blank
  | lineComment
  | blockComment (start : Position)

/-- Skips blanks and comments. A text that ends in a block comment fails where the comment
    starts. The marks of a comment in markup start one too; that of its end counts at the
    beginning of a line only. -/
def skipGap (from_ : Position) :
    Gap → List Char → Position → Except Position (List Char × Position)
  | .blockComment start, [], _ => .error start
  | _, [], p => .ok ([], p)
  | .lineComment, c :: cs, p =>
      skipGap from_ (if isLineEnd c then .blank else .lineComment) cs (p.after c cs)
  | .blockComment _, '*' :: '/' :: cs, p => skipGap from_ .blank cs (p.shifted 2)
  | .blockComment start, c :: cs, p => skipGap from_ (.blockComment start) cs (p.after c cs)
  | .blank, '/' :: '/' :: cs, p => skipGap from_ .lineComment cs (p.shifted 2)
  | .blank, '/' :: '*' :: cs, p => skipGap from_ (.blockComment p) cs (p.shifted 2)
  | .blank, '<' :: '!' :: '-' :: '-' :: cs, p => skipGap from_ .lineComment cs (p.shifted 4)
  | .blank, '-' :: '-' :: '>' :: cs, p =>
      if from_.offset == 0 || from_.line < p.line then
        skipGap from_ .lineComment cs (p.shifted 3)
      else .ok ('-' :: '-' :: '>' :: cs, p)
  | .blank, c :: cs, p =>
      if isBlank c || isLineEnd c then skipGap from_ .blank cs (p.after c cs)
      else .ok (c :: cs, p)

namespace Scan

/-- The next character. -/
def peek : Scan (Option Char) := do
  return (← get).rest.head?

/-- The place of the next character. -/
def here : Scan Position := do
  return (← get).position

/-- An upper bound on the number of steps that read one character each. -/
def bound : Scan Nat := do
  return (← get).total + 1

/-- Passes one character. -/
def advance : Scan Unit :=
  modify fun s =>
    match s.rest with
    | [] => s
    | c :: cs => { s with rest := cs, position := s.position.after c cs }

/-- Passes one character that does not count as the end of a line. -/
def advanceInLine : Scan Unit :=
  modify fun s =>
    match s.rest with
    | [] => s
    | c :: cs => { s with rest := cs, position := s.position.behind c }

/-- Passes the next character if it is `c`. -/
def eat (c : Char) : Scan Bool := do
  if (← peek) == some c then
    advance
    return true
  else return false

/-- Notes a fault. -/
def note (p : Position) : Scan Unit :=
  modify fun s => { s with faults := p :: s.faults }

/-- Notes a fault of strict code; in sloppy code it is kept apart. -/
def noteStrict (p : Position) : Scan Unit :=
  modify fun s =>
    if s.strict then { s with faults := p :: s.faults }
    else { s with strictFaults := p :: s.strictFaults }

/-- Skips the gap in front of the next token. -/
def gap : Scan Unit := do
  let s ← get
  let (rest, position) ← liftM (skipGap s.position .blank s.rest s.position)
  set { s with rest := rest, position := position }

/-! ## Numbers -/

/-- The value of a character as a digit; letters go on from ten. -/
def digitValue (c : Char) : Option Nat :=
  if c.isDigit then some (c.toNat - 48)
  else if 97 ≤ c.toNat then some (c.toNat - 87)
  else if 65 ≤ c.toNat then some (c.toNat - 55)
  else none

/-- Whether a character is a digit of a radix. -/
def isDigitOf (radix : Nat) (c : Char) : Bool :=
  match digitValue c with
  | some value => value < radix
  | none => false

/-- Whether a separator may stand between two characters of a number: both must be digits. What
    the radix lacks in front of it is noted by itself. -/
def separates (radix : Nat) (before : Char) (behind : Option Char) : Bool :=
  (before.isDigit || isDigitOf radix before) && (behind.map (isDigitOf radix)).getD false

/-- Passes the digits of a radix and the separators between them. A decimal digit that the
    radix does not have is noted and passed. Tells whether there was anything to pass. -/
def digits (radix : Nat) (before : Char) : Nat → Bool → Scan Bool
  | 0, found => pure found
  | n + 1, found => do
      match (← get).rest with
      | [] => pure found
      | c :: cs =>
          if c == '_' then
            if !separates radix before cs.head? then note (← here)
            advance
            digits radix c n true
          else if isDigitOf radix c then
            advance
            digits radix c n true
          else if c.isDigit then
            note (← here)
            advance
            digits radix c n true
          else pure found

/-- Fails when a name starts right behind a number. -/
def endNumber : Scan Unit := do
  if ((← peek).map isNameStart).getD false then
    throw (← here)

/-- A number with a radix mark; the two characters of the mark are next. It must not be a
    decimal one. -/
def radixNumber (radix : Nat) (markLetter : Char) : Scan Lexeme := do
  let start ← here
  advance
  advance
  if !(← digits radix markLetter (← bound) false) then note (start.shifted 2)
  let big ← eat 'n'
  if !big && (← peek) == some 'm' then throw start
  endNumber
  pure (if big then .bigint else .number true)

/-- Passes an exponent, if one follows. -/
def exponent (start : Position) : Scan Bool := do
  match ← peek with
  | some c =>
      if c == 'e' || c == 'E' then
        advance
        let sign ← peek
        if sign == some '+' || sign == some '-' then advance
        if !(← digits 10 (sign.getD c) (← bound) false) then note start
        pure true
      else pure false
  | none => pure false

/-- Passes the point of a number and the digits behind it, if there is a point. -/
def fraction : Scan Bool := do
  if ← eat '.' then
    let _ ← digits 10 '.' (← bound) false
    pure true
  else pure false

/-- A number without a radix mark; `fromDot` tells that it starts with its point. A leading
    zero makes an octal number of its digits if they allow it, which has neither a point nor
    an exponent. -/
def decimalNumber (fromDot : Bool) : Scan Lexeme := do
  let start ← here
  let text := (← get).rest
  if !fromDot then let _ ← digits 10 ' ' (← bound) false
  let whole := text.take ((← here).offset - start.offset)
  let leadingZero := 2 ≤ whole.length && whole.head? == some '0'
  if leadingZero then
    noteStrict start
    if !(← get).strict then
      for i in whole.findIdx? (· == '_') do note (start.shifted i)
  let octal := leadingZero && !whole.any fun c => c == '8' || c == '9'
  let point ← if octal then pure false else fraction
  let scaled ← if octal then pure false else exponent start
  let big ← eat 'n'
  if big && (point || scaled || leadingZero) then note start
  endNumber
  pure (if big then .bigint else .number (!point && !scaled))

/-! ## Escapes -/

/-- Passes up to `n` hexadecimal digits and tells the number they write if there are `n`. A
    separator counts as one that adds nothing; it is noted, unless `quiet`, where it ends the
    number. -/
def hexDigits (quiet : Bool) : Nat → Nat → Scan (Option Nat)
  | 0, value => pure (some value)
  | n + 1, value => do
      match ← peek with
      | some c =>
          if isDigitOf 16 c then
            advance
            hexDigits quiet n (value * 16 + (digitValue c).getD 0)
          else if c == '_' && !quiet then
            note (← here)
            advance
            hexDigits quiet n value
          else pure none
      | none => pure none

/-- The number that the hexadecimal digits of a text write, of which there must be one. With
    `withSeparators` it may hold separators. -/
def hexValue? (withSeparators : Bool) (text : List Char) : Option Nat :=
  let isPart := fun (c : Char) => isDigitOf 16 c || (withSeparators && c == '_')
  if text.isEmpty || !text.all isPart then none
  else
    let digits := text.filter (· != '_')
    some (digits.foldl (fun value c => value * 16 + (digitValue c).getD 0) 0)

/-- The number in braces whose opening one is passed. What it holds besides digits is noted
    unless `quiet`, where nothing is passed then. Without a closing brace one character is
    passed. -/
def bracedHex (quiet : Bool) : Scan (Option Nat) := do
  let start ← here
  let text := (← get).rest
  let body := text.takeWhile (· != '}')
  let isClosed := body.length < text.length
  match if isClosed then hexValue? (!quiet) body else none with
  | some value =>
      for _ in body do
        if (← peek) == some '_' then note (← here)
        advance
      advance
      pure (some value)
  | none =>
      if !quiet then
        if isClosed then
          for _ in body do
            if (← peek) == some '_' then note (← here)
            advanceInLine
        note start
        advanceInLine
      pure none

/-- The largest code point. -/
def lastCodePoint : Nat := 0x10ffff

/-- Reads a code point behind a backslash and a `u`. An invalid one is noted unless `quiet`. -/
def codePoint (quiet : Bool) : Scan (Option Nat) := do
  if ← eat '{' then
    match ← bracedHex quiet with
    | some n =>
        if lastCodePoint < n then
          if !quiet then note (← here)
          pure none
        else pure (some n)
    | none => pure none
  else
    let start ← here
    let value ← hexDigits quiet 4 0
    if value.isNone && !quiet then note start
    pure value

/-- Passes up to three octal digits below 256 and tells what they are. -/
def octalDigits : Nat → List Char → Scan (List Char)
  | 0, found => pure found
  | n + 1, found => do
      match ← peek with
      | some c =>
          let value := (found ++ [c]).foldl (fun v d => v * 8 + (d.toNat - 48)) 0
          if isDigitOf 8 c && value < 256 then
            advance
            octalDigits n (found ++ [c])
          else pure found
      | none => pure found

/-- Passes an escape whose backslash is next, and tells whether a template may hold it. Its
    faults are noted unless it stands in a template. -/
def escape (inTemplate : Bool) : Scan Bool := do
  advance
  let start ← here
  match ← peek with
  | none => pure true
  | some 'x' =>
      advance
      let first ← here
      match ← hexDigits inTemplate 2 0 with
      | some _ => pure true
      | none =>
          if !inTemplate then note first
          pure false
  | some 'u' =>
      advance
      pure (← codePoint inTemplate).isSome
  | some '\r' =>
      advance
      let _ ← eat '\n'
      pure true
  | some '\n' =>
      advance
      pure true
  | some c =>
      if c == '8' || c == '9' then
        advance
        if !inTemplate then noteStrict start
        pure false
      else if isDigitOf 8 c then
        let found ← octalDigits 3 []
        let next ← peek
        let plain := found == ['0'] && next != some '8' && next != some '9'
        if !plain && !inTemplate then noteStrict start
        pure plain
      else
        advanceInLine
        pure true

/-! ## Strings, templates and regular expressions -/

/-- Passes the rest of a string up to its closing quote. -/
def stringRest (quote : Char) (start : Position) : Nat → Scan Unit
  | 0 => throw start
  | n + 1 => do
      match ← peek with
      | none => throw start
      | some c =>
          if c == quote then advance
          else if c == '\n' || c == '\r' then throw start
          else if c == '\\' then
            let _ ← escape false
            stringRest quote start n
          else
            advance
            stringRest quote start n

/-- A string, whose opening quote is next. -/
def string (quote : Char) : Scan Lexeme := do
  let start ← here
  advance
  let text := (← get).rest
  stringRest quote start (← bound)
  pure (.string (String.ofList (text.take ((← here).offset - start.offset - 2))))

/-- Passes the rest of a piece of a template. -/
def templateRest (start : Position) : Nat → Option Position → Scan Lexeme
  | 0, _ => throw start
  | n + 1, invalid => do
      match (← get).rest with
      | [] => throw start
      | '$' :: '{' :: _ =>
          advance
          advance
          pure (.template false invalid)
      | c :: _ =>
          if c == '\x60' then
            advance
            pure (.template true invalid)
          else if c == '\\' then
            let p ← here
            let ok ← escape true
            templateRest start n (invalid.or (if ok then none else some p))
          else
            advance
            templateRest start n invalid

/-- A piece of a template, in front of which the backquote or the closing brace is next. -/
def template : Scan Lexeme := do
  advance
  templateRest (← here) (← bound) none

/-- Passes the body of a regular expression and its closing slash. -/
def regexBody (start : Position) : Nat → Bool → Scan Unit
  | 0, _ => throw start
  | n + 1, inClass => do
      match ← peek with
      | none => throw start
      | some c =>
          if isLineEnd c then throw start
          else
            advance
            if c == '\\' then
              match ← peek with
              | none => throw start
              | some d =>
                  if isLineEnd d then throw start
                  else
                    advance
                    regexBody start n inClass
            else if c == '/' && !inClass then pure ()
            else regexBody start n (c == '[' || (inClass && c != ']'))

/-- Passes the flags of a regular expression; a flag that is unknown or repeated, or excludes
    an earlier one, is noted. A flag is one UTF-16 unit: half of a character cannot be read. -/
def regexFlags : Nat → List Char → Scan Unit
  | 0, _ => pure ()
  | n + 1, seen => do
      match ← peek with
      | none => pure ()
      | some c =>
          if isNamePart c || c == '\\' then
            let excluded := (c == 'u' && seen.contains 'v') || (c == 'v' && seen.contains 'u')
            let known := ['g', 'm', 's', 'i', 'y', 'u', 'd', 'v'].contains c
            if !known || seen.contains c || excluded then note ((← here).shifted 1)
            if 0xffff < c.toNat then throw ((← here).shifted 1)
            advance
            regexFlags n (c :: seen)
          else pure ()

/-- A regular expression that starts at `start`, whose first slash is passed. -/
def regex (start : Position) : Scan Lexeme := do
  regexBody (start.shifted 1) (← bound) false
  regexFlags (← bound) []
  pure .regex

/-! ## Words and marks -/

/-- Passes the characters of a word that starts at `begin_` and tells its text and whether it
    holds an escape. A backslash that starts no escape is noted behind it and stays in the
    word. -/
def wordRest (begin_ : Position) : Nat → List Char → Bool → Scan (String × Bool)
  | 0, found, escaped => pure (String.ofList found.reverse, escaped)
  | n + 1, found, escaped => do
      match ← peek with
      | none => pure (String.ofList found.reverse, escaped)
      | some c =>
          if c == '\\' then
            let start ← here
            advance
            if ← eat 'u' then
              match ← codePoint false with
              | some value =>
                  let d := Char.ofNat value
                  let fits :=
                    if start.offset == begin_.offset then isNameStart d else isNamePart d
                  if !fits then note start
                  wordRest begin_ n (d :: found) true
              | none => wordRest begin_ n found true
            else
              note (← here)
              wordRest begin_ n ('\\' :: found) true
          else if isNamePart c then
            advance
            wordRest begin_ n (c :: found) escaped
          else pure (String.ofList found.reverse, escaped)

/-- A word, whose first character is next. -/
def word : Scan Lexeme := do
  let (text, escaped) ← wordRest (← here) (← bound) [] false
  pure (.word text escaped)

/-- The marks of more than one character, longer ones first. -/
def longMarks : List String :=
  [ ">>>=", "...", "===", "!==", "**=", "<<=", ">>=", ">>>", "&&=", "||=", "??=", "=>", "=="
  , "!=", "<=", ">=", "&&", "||", "??", "?.", "++", "--", "+=", "-=", "*=", "/=", "%="
  , "&=", "|=", "^=", "<<", ">>", "**", "|>" ]

/-- The marks of one character. -/
def shortMarks : List Char :=
  "\x7b\x7d()[];,<>+-*/%&|^!~?:=.@#".toList

/-- Whether a mark is next. An optional access does not go on with a digit. -/
def matchesMark (text : List Char) (mark : String) : Bool :=
  let n := mark.length
  text.take n == mark.toList
    && !(mark == "?." && ((text[n]?).map Char.isDigit).getD false)

/-- The marks that are not cut off as one within a type, where angle brackets are always
    single and some operators do not assign. -/
def isOutsideTypes (mark : String) : Bool :=
  mark.startsWith "<" || mark.startsWith ">" || ["*=", "%=", "**=", "^="].contains mark

/-- The longest mark that is next. -/
def markAt (inType : Bool) (text : List Char) : Option String :=
  match text with
  | [] => none
  | c :: _ =>
      let isCut := fun (mark : String) => matchesMark text mark && !(inType && isOutsideTypes mark)
      let long := longMarks.find? isCut
      match long with
      | some mark => some mark
      | none => if shortMarks.contains c then some (String.singleton c) else none

/-- A mark, which may be cut short by the type around it. -/
def mark (inType : Bool) : Scan Lexeme := do
  match markAt inType (← get).rest with
  | some text =>
      for _ in [0:text.length] do advance
      pure (.mark text)
  | none => throw (← here)

/-- What starts with a hash: a private name, or the first line of a script. -/
def hash (inType : Bool) : Scan Lexeme := do
  let start ← here
  match (← get).rest with
  | _ :: '!' :: cs =>
      if start.offset == 0 then
        let line := cs.takeWhile fun c => !isLineEnd c
        for _ in [0:line.length + 2] do advance
        pure .interpreter
      else mark inType
  | _ :: c :: _ =>
      if c.isDigit || c == '{' then throw start
      else if isNameStart c || c == '\\' then
        advance
        let (text, _) ← wordRest (← here) (← bound) [] false
        pure (.privateName text)
      else mark inType
  | _ => mark inType

/-- The lexeme at the current place, which is not in a gap. -/
def lexeme (inType : Bool) : Scan Lexeme := do
  match (← get).rest with
  | [] => pure .finish
  | '0' :: c :: _ =>
      if c == 'x' || c == 'X' then radixNumber 16 c
      else if c == 'o' || c == 'O' then radixNumber 8 c
      else if c == 'b' || c == 'B' then radixNumber 2 c
      else decimalNumber false
  | c :: cs =>
      if c.isDigit then decimalNumber false
      else if c == '.' && (cs.head?.map Char.isDigit).getD false then decimalNumber true
      else if c == '"' || c == '\'' then string c
      else if c == '\x60' then template
      else if c == '#' then hash inType
      else if isNameStart c || c == '\\' then word
      else mark inType

/-- The next token. -/
def token (inType : Bool) : Scan Token := do
  gap
  let start ← here
  let lexeme ← lexeme inType
  pure ⟨lexeme, start, ← here⟩

end Scan

end Multimethod.Surface
