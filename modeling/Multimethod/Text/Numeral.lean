import Multimethod.Text.Names
import Multimethod.Text.Rounding

/-!
# Numerals

Whole numbers as they are written in options: with a radix mark, or as a decimal with a point
and an exponent, with blanks around. A numeral stands for the nearest number of 53 binary
digits, so that a decimal counts as whole as soon as it cannot be told from a whole number.
-/

namespace Multimethod.Numeral

open Rounding

/-- Numbers from this power of two on are infinite. -/
def overflow : Nat := 1024

/-- The exponent of the highest binary digit of a quotient of positive numbers, raised by
    `bias`. -/
def topExponent (num den bias : Nat) : Nat :=
  let guess := num.log2 + bias - den.log2
  if den * Nat.pow 2 guess ≤ num * Nat.pow 2 bias then guess else guess - 1

/-- The number that a quotient of positive numbers is rounded to, if it is a positive whole
    number. -/
def nearestWhole? (num den : Nat) : Option Nat :=
  let bias := den.log2 + precision
  let top := topExponent num den bias
  let last := precision - 1
  if last + bias ≤ top then
    let unit := Nat.pow 2 (top - last - bias)
    let value := roundDiv num (den * unit) * unit
    if value < Nat.pow 2 overflow then some value else none
  else
    let scale := Nat.pow 2 (last + bias - top)
    let scaled := roundDiv (num * scale) den
    if scaled % scale == 0 && 0 < scaled then some (scaled / scale) else none

/-- The value of a digit of a radix. -/
def digit? (radix : Nat) (c : Char) : Option Nat :=
  let n := c.toNat
  let value :=
    if c.isDigit then n - 48 else if c.isLower then n - 87 else if c.isUpper then n - 55 else radix
  if value < radix then some value else none

/-- The number that digits of a radix write, behind those that write `value`. -/
def digitsFrom? (radix value : Nat) : List Char → Option Nat
  | [] => some value
  | c :: cs =>
      match digit? radix c with
      | some d => digitsFrom? radix (value * radix + d) cs
      | none => none

/-- The number that digits of a radix write, of which there must be one. -/
def digits? (radix : Nat) (cs : List Char) : Option Nat :=
  if cs.isEmpty then none else digitsFrom? radix 0 cs

/-- An exponent, with its sign. -/
def exponent? : List Char → Option Int
  | '+' :: cs => (digits? 10 cs).map Int.ofNat
  | '-' :: cs => (digits? 10 cs).map fun n => -Int.ofNat n
  | cs => (digits? 10 cs).map Int.ofNat

/-- The whole number nearest to `mantissa` times a power of ten, if it is positive. A power
    that is too large, or that leaves less than a half, is not written out. -/
def scaled? (mantissa : Nat) (exponent : Int) : Option Nat :=
  if mantissa == 0 || overflow < exponent || exponent + mantissa.log2 + 1 < 0 then none
  else if 0 ≤ exponent then nearestWhole? (mantissa * Nat.pow 10 exponent.toNat) 1
  else nearestWhole? mantissa (Nat.pow 10 (-exponent).toNat)

/-- A positive whole number that is written as a decimal without a sign. -/
def decimal? (cs : List Char) : Option Nat := do
  let isMark := fun (c : Char) => c == 'e' || c == 'E'
  let number := cs.takeWhile fun c => !isMark c
  let behind := cs.dropWhile fun c => !isMark c
  let whole := number.takeWhile (· != '.')
  let fraction := (number.dropWhile (· != '.')).drop 1
  let mantissa ← digits? 10 (whole ++ fraction)
  let exponent ← if behind.isEmpty then some 0 else exponent? (behind.drop 1)
  scaled? mantissa (exponent - fraction.length)

/-- A text without the blanks around it. -/
def trim (cs : List Char) : List Char :=
  let isGap := fun (c : Char) => isBlank c || isLineEnd c
  ((cs.dropWhile isGap).reverse.dropWhile isGap).reverse

/-- The positive whole number that a text writes. -/
def positive? (text : String) : Option Nat :=
  let withRadix := fun (radix : Nat) (cs : List Char) => do
    let value ← digits? radix cs
    if value == 0 then none else nearestWhole? value 1
  match trim text.toList with
  | '0' :: 'x' :: cs | '0' :: 'X' :: cs => withRadix 16 cs
  | '0' :: 'o' :: cs | '0' :: 'O' :: cs => withRadix 8 cs
  | '0' :: 'b' :: cs | '0' :: 'B' :: cs => withRadix 2 cs
  | '+' :: cs => decimal? cs
  | cs => decimal? cs

end Multimethod.Numeral
