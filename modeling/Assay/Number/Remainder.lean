import Assay.Number.Numeral

/-!
# Remainders of exact decimals

A decimal is a whole number times a power of ten. Its remainder by another decimal is taken
with a working precision of 28 digits: the whole quotient must be written with at most that
many, or the remainder is refused (`Decimal.isMultiple?`).
-/

namespace Assay

/-- The size of a decimal: `digits · 10 ^ exponent`. Signs do not matter for divisibility. -/
structure Decimal where
  digits : Nat
  exponent : Int
  deriving DecidableEq, Inhabited

namespace Decimal

/-- The working precision, in digits. -/
def precision : Nat := 28

/-- The place of the leading digit. -/
def adjusted (d : Decimal) : Int :=
  d.exponent + (Nat.toDigits 10 d.digits).length - 1

/-- `x` is a whole multiple of `y ≠ 0`; nothing when the quotient is too long. A quotient
that is surely below one needs no arithmetic. -/
def isMultiple? (x y : Decimal) : Option Bool :=
  if x.digits = 0 then some true
  else
    let gap := x.adjusted - y.adjusted
    if gap ≤ -2 then some false
    else if gap > precision then none
    else
      let low := min x.exponent y.exponent
      let n := x.digits * Nat.pow 10 (x.exponent - low).toNat
      let d := y.digits * Nat.pow 10 (y.exponent - low).toNat
      if n / d < Nat.pow 10 precision then some (n % d == 0) else none

end Decimal

end Assay
