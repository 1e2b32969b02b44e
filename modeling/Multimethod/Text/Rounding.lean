/-!
# Rounding

Whole numbers that are kept with 53 binary digits, and the fewest decimal digits that tell
such a number from its neighbours.
-/

namespace Multimethod.Rounding

/-- The binary digits that are kept of a number. -/
def precision : Nat := 53

/-- The quotient of two numbers rounded to the nearest whole number, a half to the even one. -/
def roundDiv (num den : Nat) : Nat :=
  let quotient := num / den
  let twice := 2 * (num % den)
  if den < twice || (twice == den && quotient % 2 == 1) then quotient + 1 else quotient

/-- The number of `precision` binary digits that is nearest to a whole number. -/
def nearest (n : Nat) : Nat :=
  let unit := Nat.pow 2 (n.log2 + 1 - precision)
  roundDiv n unit * unit

/-- The multiple of `unit` nearest to a rounded number of those that are rounded to it, which
    lie on either side of it. -/
def multiple? (n unit : Nat) : Option Nat :=
  ([roundDiv n unit, n / unit, n / unit + 1].map (· * unit)).find? fun m => nearest m == n

/-- Like `shortest`, with at most `zeros` zeros at the end. -/
def shortestUpTo (n : Nat) : Nat → Nat
  | 0 => n
  | zeros + 1 => (multiple? n (Nat.pow 10 (zeros + 1))).getD (shortestUpTo n zeros)

/-- Of the whole numbers that are rounded to a rounded number, the one with the most zeros at
    its end. -/
def shortest (n : Nat) : Nat :=
  shortestUpTo n n.log2

end Multimethod.Rounding
