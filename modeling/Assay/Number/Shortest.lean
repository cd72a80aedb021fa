import Assay.Number.Binary64

/-!
# The shortest decimal of a binary64 number

A number is written with the fewest significant digits that read back as the same number, and
of those with the digits nearest to it. The reals that round to the number form an interval
(`Interval`), closed exactly when the significand is even; for one digit, two digits and so on
the two neighbours of the number on that decimal grid are tested against it (`shortestDigits`).
-/

namespace Assay.Binary64

/-- Non-negative bounds of the reals that round to a number, with the number itself, all over
one denominator. -/
structure Interval where
  low : Nat
  value : Nat
  high : Nat
  den : Nat
  closed : Bool

/-- The interval of a finite number's size. The gap below a power of two is half the gap
above it, save among the subnormal numbers. -/
def interval (exponent : Fin 2047) (fraction : Fin fractionCount) : Interval :=
  let m := significand exponent fraction
  let s := Nat.pow 2 (shift exponent)
  let below := if fraction.val = 0 && exponent.val > 1 then 1 else 2
  { low := (4 * m - below) * s
    value := 4 * m * s
    high := (4 * m + 2) * s
    den := 4 * unitsPerOne
    closed := m % 2 == 0 }

/-- `digits · 10 ^ scale` lies in the interval. -/
def Interval.holds (i : Interval) (digits : Nat) (scale : Int) : Bool :=
  let n := if 0 ≤ scale then digits * Nat.pow 10 scale.toNat * i.den else digits * i.den
  let p := if 0 ≤ scale then 1 else Nat.pow 10 (-scale).toNat
  if i.closed then i.low * p ≤ n && n ≤ i.high * p else i.low * p < n && n < i.high * p

/-- The least `k` from `k` upwards with `num < den · 10 ^ k`. -/
def leastPower (num den : Nat) : Nat → Nat → Nat
  | 0, k => k
  | fuel + 1, k => if num < den * Nat.pow 10 k then k else leastPower num den fuel (k + 1)

/-- The least `j` from `j` upwards with `den ≤ num · 10 ^ j`. -/
def leastScale (num den : Nat) : Nat → Nat → Nat
  | 0, j => j
  | fuel + 1, j => if den ≤ num * Nat.pow 10 j then j else leastScale num den fuel (j + 1)

/-- The place of the decimal point: the `k` with `10 ^ (k - 1) ≤ num / den < 10 ^ k`. -/
def pointPlace (num den : Nat) : Int :=
  if den ≤ num then leastPower num den 400 0 else 1 - (leastScale num den 400 0 : Int)

/-- The two neighbours of `num / den` on the grid of step `10 ^ scale`, and whether the upper
one is nearer (a tie goes to the even neighbour). -/
def neighbours (num den : Nat) (scale : Int) : Nat × Bool :=
  let n := if 0 ≤ scale then num else num * Nat.pow 10 (-scale).toNat
  let d := if 0 ≤ scale then den * Nat.pow 10 scale.toNat else den
  let q := n / d
  let r := n % d
  (q, if 2 * r < d then false else if d < 2 * r then true else q % 2 == 1)

/-- Look for a hit with `n` digits, then with one more, and so on. -/
def shortestFrom (i : Interval) (point : Int) : Nat → Nat → Nat × Int
  | 0, _ => (0, 0)
  | fuel + 1, n =>
    let scale := point - n
    let (q, up) := neighbours i.value i.den scale
    let lowHit := i.holds q scale
    let highHit := i.holds (q + 1) scale
    if lowHit && highHit then (if up then q + 1 else q, scale)
    else if lowHit then (q, scale)
    else if highHit then (q + 1, scale)
    else shortestFrom i point fuel (n + 1)

/-- The digits of a finite non-zero number's size, as a whole number times a power of ten. -/
def shortestDigits (exponent : Fin 2047) (fraction : Fin fractionCount) : Nat × Int :=
  let i := interval exponent fraction
  shortestFrom i (pointPlace i.value i.den) 18 1

/-- Drop trailing zeros, counting them into the exponent. -/
def dropZeros : Nat → Nat → Int → Nat × Int
  | 0, digits, scale => (digits, scale)
  | fuel + 1, digits, scale =>
    if digits % 10 == 0 && digits != 0 then dropZeros fuel (digits / 10) (scale + 1)
    else (digits, scale)

/-- The text of a number's size from its digits: positional when the point falls from four
places before the digits to sixteen places after their start, else with an exponent of at least
two digits. A whole number keeps `.0`. -/
def decimalText (digits : Nat) (scale : Int) : String :=
  let ds := Nat.toDigits 10 digits
  let point := scale + ds.length
  if -4 < point ∧ point ≤ 16 then
    if point ≤ 0 then String.ofList ("0.".toList ++ List.replicate (-point).toNat '0' ++ ds)
    else if ds.length ≤ point then
      String.ofList (ds ++ List.replicate (point - ds.length).toNat '0' ++ ".0".toList)
    else String.ofList (ds.take point.toNat ++ '.' :: ds.drop point.toNat)
  else
    let e := point - 1
    let es := Nat.toDigits 10 e.natAbs
    let es := if es.length < 2 then '0' :: es else es
    let tail := 'e' :: (if e < 0 then '-' else '+') :: es
    match ds with
    | [d] => String.ofList (d :: tail)
    | d :: rest => String.ofList (d :: '.' :: rest ++ tail)
    | [] => String.ofList tail

/-- The shortest text that reads back as the number. -/
def toText : Binary64 → String
  | infinite n => if n then "-inf" else "inf"
  | finite n e f =>
    let body :=
      if significand e f = 0 then "0.0"
      else
        let (digits, scale) := shortestDigits e f
        let (digits, scale) := dropZeros 18 digits scale
        decimalText digits scale
    if n then "-" ++ body else body

end Assay.Binary64
