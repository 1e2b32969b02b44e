import Multimethod.Surface.Grammar.Statements

/-!
# Parsing source units

The grammar as a whole. Its productions descend into each other; the depth to which they do is
bounded by the length of the text, since only a few of them follow each other without passing
a token.
-/

namespace Multimethod.Surface

open Surface.Parser

/-- The grammar with room for `n` nested productions. -/
def productions : Nat → Productions
  | 0 =>
      { assign := fun _ _ => unexpected
        operand := fun _ => unexpected
        accessed := fun _ => unexpected
        primary := unexpected
        property := unexpected
        typeExpr := unexpected
        typeOperand := unexpected
        binder := unexpected
        statement := fun _ => unexpected }
  | n + 1 =>
      { assign := fun shared item s => Grammar.assign (productions n) shared item s
        operand := fun isInner s => Grammar.unary (productions n) isInner s
        accessed := fun mayCall s => Grammar.accessed (productions n) mayCall s
        primary := fun s => Grammar.primary (productions n) s
        property := fun s => Grammar.property (productions n) s
        typeExpr := fun s => Grammar.typeExpr (productions n) s
        typeOperand := fun s => Grammar.typeOperand (productions n) s
        binder := fun s => Grammar.binder (productions n) s
        statement := fun place s => Grammar.statement (productions n) place s }

/-- More nested productions than a text of `length` characters can need. -/
def roomFor (length : Nat) : Nat :=
  4 * (length + 2)

/-- The state of the parser in front of a text. -/
def ParserState.initial (text : List Char) : ParserState where
  scanner :=
    { rest := text, position := .start, faults := [], strictFaults := [], strict := false,
      total := text.length }
  token := { lexeme := .finish, start := .start, stop := .start }
  lastStart := .start
  lastStop := .start
  context := .script
  arrowAt := none
  doubts := none
  privates := []
  heads := []

/-- The items of a unit, behind a first line that names an interpreter. -/
def unitItems (g : Productions) : Parser (List Item) := do
  skip
  if (← token).lexeme == .interpreter then next
  let (_, items) ← Grammar.itemsWithDirectives g (fun _ => .toplevel) atFinish
  pure items

/-- Parses a source unit. A fault from which there is no recovery counts before all others;
    of the others the first one counts. -/
def SourceUnit.parse (text : String) : Except Position SourceUnit :=
  let cs := text.toList
  match unitItems (productions (roomFor cs.length)) (ParserState.initial cs) with
  | .error p => .error p
  | .ok (items, s) =>
      match s.scanner.faults.getLast? with
      | some p => .error p
      | none => .ok ⟨items⟩

end Multimethod.Surface
