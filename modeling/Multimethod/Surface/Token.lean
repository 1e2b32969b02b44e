import Multimethod.Surface.Position

/-!
# Tokens

The words, literals and marks of the surface language. A word is kept with its spelling: an
escaped word never counts as a contextual keyword, and must not be a keyword at all.
-/

namespace Multimethod.Surface

/-- What a token is. -/
inductive Lexeme where
  /-- A name or keyword, and whether it is written with an escape. -/
  | word (text : String) (escaped : Bool)
  /-- A number, and whether it is written as a whole number. -/
  | number (isWhole : Bool)
  | bigint
  /-- A string, by what is written between its quotes. -/
  | string (raw : String)
  /-- A piece of a template, up to a substitution or to its end. -/
  | template (isLast : Bool) (invalidEscape : Option Position)
  | regex
  | privateName (name : String)
  | mark (text : String)
  /-- The first line of a script that names its interpreter. -/
  | interpreter
  | finish
  deriving DecidableEq, Repr

/-- A token with the places where it starts and ends. -/
structure Token where
  lexeme : Lexeme
  start : Position
  stop : Position
  deriving Repr

/-- The words that are never names. -/
def keywords : List String :=
  [ "break", "case", "catch", "continue", "debugger", "default", "do", "else", "finally", "for"
  , "function", "if", "return", "switch", "throw", "try", "var", "const", "while", "with"
  , "new", "this", "super", "class", "extends", "export", "import", "null", "true", "false"
  , "in", "instanceof", "typeof", "void", "delete" ]

/-- Whether a word is never a name. -/
def isKeyword (word : String) : Bool :=
  keywords.contains word

/-- The words that strict code reserves. -/
def strictWords : List String :=
  [ "implements", "interface", "let", "package", "private", "protected", "public", "static"
  , "yield" ]

/-- The keywords that start an expression. -/
def startingKeywords : List String :=
  [ "throw", "new", "this", "super", "class", "import", "null", "true", "false", "typeof"
  , "void", "delete", "function" ]

/-- The marks that start an expression, or that some dialect gives a meaning in its place. -/
def startingMarks : List String :=
  ["[", "\x7b", "(", "++", "--", "!", "~", "+", "-", "%", "#"]

namespace Lexeme

/-- The text of a word. -/
def wordText : Lexeme → Option String
  | word text _ => some text
  | _ => none

/-- Whether a lexeme is a keyword that is written with an escape. -/
def isEscapedKeyword : Lexeme → Bool
  | word text true => isKeyword text
  | _ => false

/-- Whether a lexeme is a word that may be a name. -/
def isName : Lexeme → Bool
  | word text _ => !isKeyword text
  | _ => false

/-- Whether a lexeme may be the name of a property. -/
def isPropertyName : Lexeme → Bool
  | word _ _ => true
  | number _ => true
  | bigint => true
  | string _ => true
  | _ => false

/-- Whether a lexeme may start an expression. -/
def startsExpression : Lexeme → Bool
  | word text _ => !isKeyword text || startingKeywords.contains text
  | mark text => startingMarks.contains text
  | finish => false
  | interpreter => false
  | _ => true

/-- The operator that a lexeme stands for between two operands, with its rank. A higher rank
    binds closer. -/
def binaryOperator : Lexeme → Option (String × Nat)
  | word "in" _ => some ("in", 7)
  | word "instanceof" _ => some ("instanceof", 7)
  | mark text =>
      let rank :=
        match text with
        | "|>" => some 0
        | "??" => some 1
        | "||" => some 1
        | "&&" => some 2
        | "|" => some 3
        | "^" => some 4
        | "&" => some 5
        | "==" | "!=" | "===" | "!==" => some 6
        | "<" | ">" | "<=" | ">=" => some 7
        | "<<" | ">>" | ">>>" => some 8
        | "+" | "-" => some 9
        | "*" | "/" | "%" => some 10
        | "**" => some 11
        | _ => none
      rank.map fun r => (text, r)
  | _ => none

/-- The rank of the type operators that follow an operand, and of the comparisons. -/
def comparisonRank : Nat := 7

/-- The operator of an assignment that a lexeme stands for. -/
def assignmentOperator : Lexeme → Option String
  | mark text =>
      if ["=", "+=", "-=", "*=", "/=", "%=", "**=", "<<=", ">>=", ">>>=", "&=", "|=", "^=",
          "&&=", "||=", "??="].contains text then some text
      else none
  | _ => none

/-- The operator that a lexeme stands for in front of an operand. -/
def prefixOperator : Lexeme → Option String
  | word text _ => if ["typeof", "void", "delete", "throw"].contains text then some text else none
  | mark text => if ["++", "--", "!", "~", "+", "-"].contains text then some text else none
  | _ => none

end Lexeme

end Multimethod.Surface
