/-!
# Locations

A construct is located by its file, its line (from one) and its column (from zero, in code
units).
-/

namespace Multimethod

/-- Where a construct stands in its source unit. -/
structure Location where
  file : String
  line : Nat
  column : Nat
  deriving DecidableEq, Inhabited, Repr

namespace Location

/-- The location as it precedes a message. -/
def text (loc : Location) : String :=
  s!"{loc.file}:{loc.line}:{loc.column}"

/-- Source order: by line, then by column. -/
def notAfter (a b : Location) : Bool :=
  a.line < b.line || (a.line == b.line && a.column ≤ b.column)

end Location

end Multimethod
