/-!
# Sets of characters

A property of characters is stored as ascending closed ranges of code points, and asked by
binary search (`inRanges`).
-/

namespace Assay.Text

/-- Search the ranges with indices `lo ≤ i < hi` for one that holds `n`; `fuel` bounds the
number of halvings. -/
def inRangesBetween (ranges : Array (Nat × Nat)) (n : Nat) : Nat → Nat → Nat → Bool
  | 0, _, _ => false
  | fuel + 1, lo, hi =>
    if hi ≤ lo then false
    else
      let mid := (lo + hi) / 2
      match ranges[mid]? with
      | none => false
      | some (first, last) =>
        if n < first then inRangesBetween ranges n fuel lo mid
        else if last < n then inRangesBetween ranges n fuel (mid + 1) hi
        else true

/-- Some range holds `n`. The ranges are ascending, so halving them finds it. -/
def inRanges (ranges : Array (Nat × Nat)) (n : Nat) : Bool :=
  inRangesBetween ranges n (ranges.size + 1) 0 ranges.size

end Assay.Text
