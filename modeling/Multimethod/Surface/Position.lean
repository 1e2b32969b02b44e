import Multimethod.Text.Names
import Multimethod.Text.Units

/-!
# Positions

A position in a source text: its line from one, its column from zero in code units, and the
number of characters before it.
-/

namespace Multimethod.Surface

/-- A place between two characters of a source text. -/
structure Position where
  line : Nat
  column : Nat
  offset : Nat
  deriving DecidableEq, Inhabited, Repr

namespace Position

/-- The beginning of a text. -/
def start : Position := ⟨1, 0, 0⟩

/-- The place `n` code units further on in the same line. -/
def shifted (p : Position) (n : Nat) : Position :=
  { p with column := p.column + n, offset := p.offset + n }

/-- The place behind the character `c`, which does not end a line. -/
def behind (p : Position) (c : Char) : Position :=
  { p with column := p.column + unitWidth c, offset := p.offset + 1 }

/-- The place behind the character `c`, in front of `rest`. A carriage return in front of a
    line feed leaves the end of the line to it. -/
def after (p : Position) (c : Char) (rest : List Char) : Position :=
  if isLineEnd c && !(c == '\r' && rest.head? == some '\n') then
    ⟨p.line + 1, 0, p.offset + 1⟩
  else p.behind c

end Position

end Multimethod.Surface
