/-!
# Binary64 numbers

The finite and infinite binary64 numbers, without the NaNs, as an exact data type: sign,
exponent field and fraction field. Every finite number is a whole number of *units* of
2⁻¹⁰⁷⁴ (`Binary64.units`), so order, sums, remainders and conversions to integers are exact
arithmetic on `Int`. Rounding a non-negative fraction to the nearest number, ties to even, is
`ofFraction`; every arithmetic result goes through it once.
-/

namespace Assay

/-- The number of fractions that share an exponent: two to the power 52. -/
abbrev fractionCount : Nat := 4503599627370496

/-- A binary64 number that is not a NaN. A zero exponent field marks the subnormal numbers. -/
inductive Binary64
  | finite (negative : Bool) (exponent : Fin 2047) (fraction : Fin fractionCount)
  | infinite (negative : Bool)
  deriving DecidableEq, Inhabited

namespace Binary64

/-- The number of units in one: a unit is 2⁻¹⁰⁷⁴. -/
def unitsPerOne : Nat := Nat.pow 2 1074

/-- The integral significand of a finite number's fields. -/
def significand (exponent : Fin 2047) (fraction : Fin fractionCount) : Nat :=
  if exponent.val = 0 then fraction.val else fractionCount + fraction.val

/-- How many times the significand's last place is doubled from one unit. -/
def shift (exponent : Fin 2047) : Nat := exponent.val - 1

/-- The size of a finite number, in units; an infinite one has the size that rounding takes
for the first too large. -/
def magnitude : Binary64 → Nat
  | finite _ e f => significand e f * Nat.pow 2 (shift e)
  | infinite _ => Nat.pow 2 2098

/-- The sign bit. -/
def isNegative : Binary64 → Bool
  | finite n _ _ => n
  | infinite n => n

/-- The number in units, with its sign. Infinities lie beyond every finite number. -/
def units (x : Binary64) : Int :=
  if x.isNegative then -(x.magnitude : Int) else x.magnitude

/-- The number is finite. -/
def isFinite : Binary64 → Bool
  | finite .. => true
  | infinite _ => false

/-- The number is one of the two zeros. -/
def isZero (x : Binary64) : Bool := x.magnitude == 0

/-- The zero of a sign. -/
def zero (negative : Bool) : Binary64 := finite negative 0 0

/-- The number whose significand, below 2⁵³, is doubled `s` times from one unit. A significand
below 2⁵² occurs only with `s = 0`. -/
def pack (negative : Bool) (m s : Nat) : Binary64 :=
  if m < fractionCount then finite negative 0 (Fin.ofNat fractionCount m)
  else if s + 1 < 2047 then
    finite negative (Fin.ofNat 2047 (s + 1)) (Fin.ofNat fractionCount (m - fractionCount))
  else infinite negative

/-- The quotient `n / d` rounded to the nearest whole number, a tie to the even one. -/
def roundQuotient (n d : Nat) : Nat :=
  let q := n / d
  let r := n % d
  if 2 * r < d then q else if d < 2 * r then q + 1 else q + q % 2

/-- The number nearest to `num / den` units, a tie to the even significand. -/
def ofFraction (negative : Bool) (num den : Nat) : Binary64 :=
  let whole := num / den
  let s := Nat.log2 whole + 1 - 53
  let m := roundQuotient num (den * Nat.pow 2 s)
  if m = Nat.pow 2 53 then pack negative fractionCount (s + 1) else pack negative m s

/-- The number nearest to a count of units; `zeroNegative` is the sign of an exact zero. -/
def ofUnits (n : Int) (zeroNegative : Bool) : Binary64 :=
  if n = 0 then zero zeroNegative else ofFraction (n < 0) n.natAbs 1

/-- The number nearest to an integer. -/
def ofInt (n : Int) : Binary64 := ofUnits (n * unitsPerOne) false

/-- The number nearest to `digits · 10 ^ exponent`. Values far beyond either end of the range
are decided by their decimal length. -/
def ofDecimal (negative : Bool) (digits : Nat) (exponent : Int) : Binary64 :=
  let places := (Nat.toDigits 10 digits).length
  if digits = 0 then zero negative
  else if exponent + places > 400 then infinite negative
  else if exponent + places < -400 then zero negative
  else if 0 ≤ exponent then
    ofFraction negative (digits * Nat.pow 10 exponent.toNat * unitsPerOne) 1
  else ofFraction negative (digits * unitsPerOne) (Nat.pow 10 (-exponent).toNat)

/-- The number is a whole number. -/
def isInteger (x : Binary64) : Bool :=
  x.isFinite && x.magnitude % unitsPerOne == 0

/-- The integer that a whole number is; other finite numbers lose what follows the point. -/
def toInt (x : Binary64) : Int :=
  let n := (x.magnitude / unitsPerOne : Nat)
  if x.isNegative then -(n : Int) else n

/-- Strictly smaller. -/
def lt (x y : Binary64) : Bool := x.units < y.units

/-- The same number; the two zeros are one. -/
def eq (x y : Binary64) : Bool := x.units == y.units

/-- The sum, which has no value for infinities of opposite sign. -/
def add? : Binary64 → Binary64 → Option Binary64
  | infinite n, infinite m => if n = m then some (infinite n) else none
  | infinite n, finite .. => some (infinite n)
  | finite .., infinite m => some (infinite m)
  | x@(finite ..), y@(finite ..) =>
    some (ofUnits (x.units + y.units) (x.isNegative && y.isNegative))

/-- Twice the number. -/
def double : Binary64 → Binary64
  | infinite n => infinite n
  | x@(finite ..) => ofUnits (2 * x.units) x.isNegative

/-- The number is a whole multiple of two; an infinity is not. -/
def isEven (x : Binary64) : Bool :=
  x.isFinite && x.magnitude % (2 * unitsPerOne) == 0

end Binary64

end Assay
