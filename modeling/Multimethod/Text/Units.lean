/-!
# Code units

Columns, and the order of names, are counted in sixteen-bit code units: a character of the
basic plane is one unit, every other character is a pair of surrogates.
-/

namespace Multimethod

/-- The sixteen-bit units that write the character `c`. -/
def unitsOf (c : Char) : List Nat :=
  if c.toNat < 0x10000 then [c.toNat]
  else [0xD800 + (c.toNat - 0x10000) / 0x400, 0xDC00 + (c.toNat - 0x10000) % 0x400]

/-- How many units write the character `c`. -/
def unitWidth (c : Char) : Nat :=
  if c.toNat < 0x10000 then 1 else 2

theorem length_unitsOf (c : Char) : (unitsOf c).length = unitWidth c := by
  unfold unitsOf unitWidth
  split <;> rfl

/-- The units of a whole text. -/
def units (s : String) : List Nat :=
  s.toList.flatMap unitsOf

/-- `s` stands strictly before `t` when the units are compared one by one. -/
def unitsBefore (s t : String) : Bool :=
  decide (units s < units t)

end Multimethod
