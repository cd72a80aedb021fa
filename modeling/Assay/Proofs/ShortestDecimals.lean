import Assay.Proofs.Rounding
import Assay.Number.Shortest
import Mathlib.Algebra.Order.Field.Power
import Mathlib.Tactic.FieldSimp
import Mathlib.Tactic.Linarith
import Mathlib.Tactic.Positivity
import Mathlib.Tactic.Ring

/-!
# Shortest decimals

A finite number is written with the fewest digits that lie in its interval, and the intervals of
different numbers have no decimal in common (`fields_of_contains`). That the test of a decimal is
about its value is `Interval.holds_iff`. The search tries one to eighteen digits, and finds some
that pass because the interval is wide enough for the last of these grids (`shortestDigits_holds`).
-/

namespace Assay

namespace Binary64

/-! ## Decimals in an interval -/

/-- The rational number `digits · 10 ^ scale`. -/
def decimal (digits : Nat) (scale : Int) : ℚ := digits * 10 ^ scale

/-- The number lies in the interval. -/
def Interval.Contains (i : Interval) (q : ℚ) : Prop :=
  if i.closed then (i.low : ℚ) ≤ q * i.den ∧ q * i.den ≤ i.high
  else (i.low : ℚ) < q * i.den ∧ q * i.den < i.high

theorem Interval.holds_iff {i : Interval} (digits : Nat) (scale : Int) :
    i.holds digits scale = true ↔ i.Contains (decimal digits scale) := by
  unfold Interval.holds Interval.Contains decimal
  dsimp only
  by_cases hscale : 0 ≤ scale
  · obtain ⟨k, rfl⟩ := Int.eq_ofNat_of_zero_le hscale
    simp only [if_pos hscale, Int.toNat_natCast, zpow_natCast, Nat.mul_one, Nat.pow_eq]
    split
    · rw [Bool.and_eq_true, decide_eq_true_eq, decide_eq_true_eq]
      norm_cast
    · rw [Bool.and_eq_true, decide_eq_true_eq, decide_eq_true_eq]
      norm_cast
  · obtain ⟨k, hk⟩ : ∃ k : Nat, scale = -(k : Int) := ⟨(-scale).toNat, by omega⟩
    have hpos : (0 : ℚ) < 10 ^ k := by positivity
    have hmove : (digits : ℚ) * 10 ^ scale * i.den = digits * i.den / 10 ^ k := by
      rw [hk, zpow_neg, zpow_natCast]
      ring
    rw [hmove, le_div_iff₀ hpos, div_le_iff₀ hpos, lt_div_iff₀ hpos, div_lt_iff₀ hpos]
    simp only [if_neg hscale, show (-scale).toNat = k by omega, Nat.pow_eq]
    split
    · rw [Bool.and_eq_true, decide_eq_true_eq, decide_eq_true_eq]
      norm_cast
    · rw [Bool.and_eq_true, decide_eq_true_eq, decide_eq_true_eq]
      norm_cast

theorem Interval.contains_of_lt {i : Interval} {q : ℚ} (hlow : (i.low : ℚ) < q * i.den)
    (hhigh : q * i.den < i.high) : i.Contains q := by
  unfold Interval.Contains
  split
  · exact ⟨hlow.le, hhigh.le⟩
  · exact ⟨hlow, hhigh⟩

/-! ## The intervals of different numbers -/

section

variable {e e' : Fin 2047} {f f' : Fin fractionCount}

theorem significand_lt (e : Fin 2047) (f : Fin fractionCount) : significand e f < 2 ^ 53 := by
  have hf := f.isLt
  have hcount := fractionCount_eq
  unfold significand
  split <;> omega

/-- Only numbers of the least shift have a significand below 2⁵². -/
theorem le_significand (hs : shift e ≠ 0) (f : Fin fractionCount) : 2 ^ 52 ≤ significand e f := by
  have hcount := fractionCount_eq
  unfold shift at hs
  unfold significand
  rw [if_neg (by omega)]
  omega

/-- Of two numbers with different shifts the one with the greater shift is greater. -/
theorem size_lt_of_shift_lt (h : shift e < shift e') :
    significand e f * 2 ^ shift e < significand e' f' * 2 ^ shift e' :=
  calc significand e f * 2 ^ shift e < 2 ^ 53 * 2 ^ shift e :=
        Nat.mul_lt_mul_of_pos_right (significand_lt e f) (Nat.two_pow_pos _)
    _ = 2 ^ 52 * 2 ^ (shift e + 1) := by omega
    _ ≤ significand e' f' * 2 ^ shift e' :=
        Nat.mul_le_mul (le_significand (by omega) f') (two_pow_mono _ _ h)

/-- The size of a finite number determines its fields. -/
theorem fields_of_size
    (h : significand e f * 2 ^ shift e = significand e' f' * 2 ^ shift e') : e = e' ∧ f = f' := by
  have hshift : shift e = shift e' := by
    rcases Nat.lt_trichotomy (shift e) (shift e') with hlt | heq | hlt
    · exact absurd h (Nat.ne_of_lt (size_lt_of_shift_lt hlt))
    · exact heq
    · exact absurd h (Nat.ne_of_gt (size_lt_of_shift_lt hlt))
  have hsignificand : significand e f = significand e' f' := by
    rw [hshift] at h
    exact Nat.eq_of_mul_eq_mul_right (Nat.two_pow_pos _) h
  have hf := f.isLt
  have hf' := f'.isLt
  unfold shift at hshift
  unfold significand at hsignificand
  rw [Fin.ext_iff, Fin.ext_iff]
  split at hsignificand <;> split at hsignificand <;> omega

/-- The gap below a number in quarters of its last place, which is less below a power of two. -/
def gapBelow (e : Fin 2047) (f : Fin fractionCount) : Nat :=
  if f.val = 0 && e.val > 1 then 1 else 2

theorem gapBelow_le (e : Fin 2047) (f : Fin fractionCount) : gapBelow e f ≤ 2 := by
  unfold gapBelow
  split <;> decide

theorem le_lower_factor (hs : shift e ≠ 0) (f : Fin fractionCount) :
    2 ^ 54 - 1 ≤ 4 * significand e f - gapBelow e f := by
  have hcount := fractionCount_eq
  unfold shift at hs
  unfold significand gapBelow
  rw [if_neg (by omega)]
  split
  · omega
  · rename_i hgap
    have hf : f.val ≠ 0 := by
      intro hf
      simp [hf] at hgap
      omega
    omega

/-- The interval of the smaller of two numbers ends where that of the greater one begins or before,
and where they touch at most one of them has its end. -/
theorem intervals_apart
    (h : significand e f * 2 ^ shift e < significand e' f' * 2 ^ shift e') :
    (interval e f).high ≤ (interval e' f').low ∧
      ((interval e f).closed = true → (interval e' f').closed = true →
        (interval e f).high < (interval e' f').low) := by
  have hpos : 0 < 2 ^ shift e := Nat.two_pow_pos _
  have hgap := gapBelow_le e' f'
  show (4 * significand e f + 2) * 2 ^ shift e
      ≤ (4 * significand e' f' - gapBelow e' f') * 2 ^ shift e' ∧
    ((significand e f % 2 == 0) = true → (significand e' f' % 2 == 0) = true →
      (4 * significand e f + 2) * 2 ^ shift e
        < (4 * significand e' f' - gapBelow e' f') * 2 ^ shift e')
  rw [beq_iff_eq, beq_iff_eq]
  rcases Nat.lt_trichotomy (shift e) (shift e') with hlt | heq | hlt
  · -- The next number after the smaller one has half the last place of the greater one at most.
    have hm := significand_lt e f
    have hfactor : 2 ^ 54 - 1 ≤ 4 * significand e' f' - gapBelow e' f' :=
      le_lower_factor (by omega) f'
    have hlow : (2 ^ 55 - 2) * 2 ^ shift e
        ≤ (4 * significand e' f' - gapBelow e' f') * 2 ^ shift e' :=
      calc (2 ^ 55 - 2) * 2 ^ shift e = (2 ^ 54 - 1) * 2 ^ (shift e + 1) := by omega
        _ ≤ _ := Nat.mul_le_mul hfactor (two_pow_mono _ _ hlt)
    constructor
    · exact Nat.le_trans (Nat.mul_le_mul_right _ (by omega)) hlow
    · intro heven _
      exact Nat.lt_of_lt_of_le (Nat.mul_lt_mul_of_pos_right (by omega) hpos) hlow
  · rw [← heq] at h ⊢
    have hm : significand e f < significand e' f' := Nat.lt_of_mul_lt_mul_right h
    constructor
    · exact Nat.mul_le_mul_right _ (by omega)
    · intro heven heven'
      exact Nat.mul_lt_mul_of_pos_right (by omega) hpos
  · exact absurd h (Nat.not_lt.2 (Nat.le_of_lt (size_lt_of_shift_lt hlt)))

/-- A rational number lies in the interval of one finite size. -/
theorem fields_of_contains {q : ℚ} (h : (interval e f).Contains q)
    (h' : (interval e' f').Contains q) : e = e' ∧ f = f' := by
  have hbetween {e e' : Fin 2047} {f f' : Fin fractionCount} (h : (interval e f).Contains q)
      (h' : (interval e' f').Contains q) :
      ¬ significand e f * 2 ^ shift e < significand e' f' * 2 ^ shift e' := by
    intro hlt
    obtain ⟨hle, hclosed⟩ := intervals_apart hlt
    have hle : ((interval e f).high : ℚ) ≤ (interval e' f').low := by exact_mod_cast hle
    have hden : (interval e f).den = (interval e' f').den := rfl
    unfold Interval.Contains at h h'
    rw [hden] at h
    by_cases hc : (interval e f).closed = true
    · rw [if_pos hc] at h
      by_cases hc' : (interval e' f').closed = true
      · rw [if_pos hc'] at h'
        have hlt : ((interval e f).high : ℚ) < (interval e' f').low := by
          exact_mod_cast hclosed hc hc'
        linarith
      · rw [if_neg hc'] at h'
        linarith
    · rw [if_neg hc] at h
      split at h' <;> linarith
  have hsize : significand e f * 2 ^ shift e = significand e' f' * 2 ^ shift e' :=
    Nat.le_antisymm (Nat.not_lt.1 (hbetween h' h)) (Nat.not_lt.1 (hbetween h h'))
  exact fields_of_size hsize

end

/-! ## Looking for digits -/

/-- The lower neighbour on a decimal grid is less than a step below the quotient. -/
theorem neighbours_spec (num : Nat) {den : Nat} (hden : 0 < den) (scale : Int) :
    decimal (neighbours num den scale).1 scale * den ≤ num ∧
      (num : ℚ) < (decimal (neighbours num den scale).1 scale + 10 ^ scale) * den := by
  have hdenq : (0 : ℚ) < den := by exact_mod_cast hden
  unfold decimal neighbours
  dsimp only
  by_cases hscale : 0 ≤ scale
  · obtain ⟨k, rfl⟩ := Int.eq_ofNat_of_zero_le hscale
    simp only [if_pos hscale, Int.toNat_natCast, zpow_natCast, Nat.pow_eq]
    have hle := Nat.div_mul_le_self num (den * 10 ^ k)
    have hlt := Nat.lt_div_mul_add (a := num) (b := den * 10 ^ k) (by positivity)
    generalize num / (den * 10 ^ k) = q at hle hlt
    have hle : (q : ℚ) * (den * 10 ^ k) ≤ num := by exact_mod_cast hle
    have hlt : (num : ℚ) < q * (den * 10 ^ k) + den * 10 ^ k := by exact_mod_cast hlt
    constructor <;> linarith
  · obtain ⟨k, hk⟩ : ∃ k : Nat, scale = -(k : Int) := ⟨(-scale).toNat, by omega⟩
    have hpos : (0 : ℚ) < 10 ^ k := by positivity
    simp only [if_neg hscale, show (-scale).toNat = k by omega, Nat.pow_eq]
    have hle := Nat.div_mul_le_self (num * 10 ^ k) den
    have hlt := Nat.lt_div_mul_add (a := num * 10 ^ k) hden
    generalize num * 10 ^ k / den = q at hle hlt
    have hle : (q : ℚ) * den ≤ num * 10 ^ k := by exact_mod_cast hle
    have hlt : (num : ℚ) * 10 ^ k < q * den + den := by exact_mod_cast hlt
    rw [hk, zpow_neg, zpow_natCast]
    constructor
    · rw [← mul_le_mul_iff_left₀ hpos]
      field_simp
      linarith
    · rw [← mul_lt_mul_iff_left₀ hpos]
      field_simp
      linarith

/-- The power before the one that is found is reached, as are all those before the search. -/
theorem leastPower_spec {num den : Nat} (fuel k : Nat)
    (hbefore : ∀ j, j < k → den * 10 ^ j ≤ num) :
    ∀ j, j < leastPower num den fuel k → den * 10 ^ j ≤ num := by
  induction fuel generalizing k with
  | zero => exact hbefore
  | succ fuel ih =>
    unfold leastPower
    by_cases hlt : num < den * Nat.pow 10 k
    · rw [if_pos hlt]
      exact hbefore
    · rw [if_neg hlt]
      refine ih (k + 1) fun j hj => ?_
      rcases Nat.lt_succ_iff_lt_or_eq.1 hj with hj | rfl
      · exact hbefore j hj
      · exact Nat.not_lt.1 hlt

/-- With enough fuel a scale is found that lifts the quotient to one. -/
theorem leastScale_spec {num den : Nat} (fuel j : Nat) (henough : den ≤ num * 10 ^ (j + fuel)) :
    den ≤ num * 10 ^ leastScale num den fuel j := by
  induction fuel generalizing j with
  | zero => exact henough
  | succ fuel ih =>
    unfold leastScale
    by_cases hle : den ≤ num * Nat.pow 10 j
    · rw [if_pos hle]
      exact hle
    · rw [if_neg hle]
      exact ih (j + 1) (by rwa [Nat.add_right_comm])

/-- The decimal place before the point is reached. -/
theorem pointPlace_spec {num den : Nat} (henough : den ≤ num * 10 ^ 400) :
    (10 : ℚ) ^ (pointPlace num den - 1) * den ≤ num := by
  unfold pointPlace
  by_cases hle : den ≤ num
  · rw [if_pos hle]
    have hspec : ∀ j, j < leastPower num den 400 0 → den * 10 ^ j ≤ num :=
      leastPower_spec 400 0 fun j hj => absurd hj (Nat.not_lt_zero j)
    generalize leastPower num den 400 0 = k at hspec ⊢
    cases k with
    | zero =>
      have hle : (den : ℚ) ≤ num := by exact_mod_cast hle
      have hden : (0 : ℚ) ≤ den := by positivity
      norm_num
      linarith
    | succ j =>
      have hspec : (den : ℚ) * 10 ^ j ≤ num := by exact_mod_cast hspec j (Nat.lt_succ_self j)
      rw [show ((j + 1 : Nat) : Int) - 1 = j by omega, zpow_natCast]
      linarith
  · rw [if_neg hle]
    have hspec : den ≤ num * 10 ^ leastScale num den 400 0 :=
      leastScale_spec 400 0 (by rwa [Nat.zero_add])
    generalize leastScale num den 400 0 = j at hspec ⊢
    have hspec : (den : ℚ) ≤ num * 10 ^ j := by exact_mod_cast hspec
    rw [show (1 : Int) - j - 1 = -(j : Int) by omega, zpow_neg, zpow_natCast]
    have hpos : (0 : ℚ) < 10 ^ j := by positivity
    field_simp
    linarith

/-- If some number of digits within reach has its lower neighbour in the interval, the digits that
are found lie in the interval. -/
theorem shortestFrom_holds {i : Interval} {point : Int} (fuel n : Nat) {m : Nat} (hn : n ≤ m)
    (hm : m < n + fuel)
    (hhit : i.holds (neighbours i.value i.den (point - m)).1 (point - m) = true) :
    i.holds (shortestFrom i point fuel n).1 (shortestFrom i point fuel n).2 = true := by
  induction fuel generalizing n with
  | zero => omega
  | succ fuel ih =>
    unfold shortestFrom
    dsimp only
    by_cases hlow : i.holds (neighbours i.value i.den (point - n)).1 (point - n) = true
    · by_cases hhigh : i.holds ((neighbours i.value i.den (point - n)).1 + 1) (point - n) = true
      · rw [if_pos (by rw [hlow, hhigh]; rfl)]
        split
        · exact hhigh
        · exact hlow
      · rw [if_neg (by simp [hhigh]), if_pos hlow]
        exact hlow
    · rw [if_neg (by simp [hlow]), if_neg hlow]
      by_cases hhigh : i.holds ((neighbours i.value i.den (point - n)).1 + 1) (point - n) = true
      · rw [if_pos hhigh]
        exact hhigh
      · rw [if_neg hhigh]
        have hne : n ≠ m := by
          rintro rfl
          exact hlow hhit
        exact ih (n + 1) (by omega) (by omega)

/-- The interval reaches down by a part in 2⁵⁴ or more. -/
theorem value_le_gap (e : Fin 2047) (f : Fin fractionCount) :
    (interval e f).value ≤ 2 ^ 54 * ((interval e f).value - (interval e f).low) := by
  have hm := significand_lt e f
  have hcount := fractionCount_eq
  have hfactor : 4 * significand e f
      ≤ 2 ^ 54 * (4 * significand e f - (4 * significand e f - gapBelow e f)) := by
    unfold gapBelow
    split
    · -- Below a power of two the significand is the least one.
      rename_i hgap
      have hpower : significand e f = 2 ^ 52 := by
        simp only [Bool.and_eq_true, decide_eq_true_eq] at hgap
        unfold significand
        rw [if_neg (by omega)]
        omega
      omega
    · omega
  show 4 * significand e f * 2 ^ shift e ≤ 2 ^ 54 * (4 * significand e f * 2 ^ shift e -
    (4 * significand e f - gapBelow e f) * 2 ^ shift e)
  rw [← Nat.sub_mul, ← Nat.mul_assoc]
  exact Nat.mul_le_mul_right _ hfactor

/-- The digits of a finite number lie in its interval. -/
theorem shortestDigits_holds {e : Fin 2047} {f : Fin fractionCount} (hne : significand e f ≠ 0) :
    (interval e f).Contains (decimal (shortestDigits e f).1 (shortestDigits e f).2) := by
  obtain ⟨u, hu, hunits⟩ := unitsPerOne_eq
  have hs : 0 < 2 ^ shift e := Nat.two_pow_pos _
  have hvalue : (interval e f).value = 4 * significand e f * 2 ^ shift e := rfl
  have hhigh : (interval e f).high = (interval e f).value + 2 * 2 ^ shift e := by
    rw [hvalue, ← Nat.add_mul]
    rfl
  have hden : (interval e f).den = 4 * 2 ^ u := by
    rw [← hunits]
    rfl
  have hfour : 4 ≤ (interval e f).value := by
    rw [hvalue]
    exact Nat.mul_le_mul (show 4 ≤ 4 * significand e f by omega) hs
  have hpoint : (10 : ℚ) ^ (pointPlace (interval e f).value (interval e f).den - 1) *
      (interval e f).den ≤ (interval e f).value := by
    refine pointPlace_spec ?_
    rw [hden]
    exact Nat.mul_le_mul hfour (two_pow_le_ten_pow u 400 (by omega))
  have hgap := value_le_gap e f
  have hlow : (interval e f).low ≤ (interval e f).value := Nat.mul_le_mul_right _ (Nat.sub_le _ _)
  -- With 18 digits, the most that are tried, the lower neighbour is close enough.
  rw [← Interval.holds_iff]
  refine shortestFrom_holds (m := 18) 18 1 (by decide) (by decide) ?_
  rw [Interval.holds_iff]
  generalize interval e f = i at *
  obtain ⟨hbelow, habove⟩ := neighbours_spec i.value (show 0 < i.den by rw [hden]; positivity)
    (pointPlace i.value i.den - 18)
  have hstep : (10 : ℚ) ^ (pointPlace i.value i.den - 18)
      = 10 ^ (pointPlace i.value i.den - 1) / 10 ^ 17 := by
    rw [show pointPlace i.value i.den - 18 = pointPlace i.value i.den - 1 - (17 : Nat) by omega,
      zpow_sub₀ (by norm_num), zpow_natCast]
  apply Interval.contains_of_lt
  · -- A step of the grid with 18 digits is less than the gap.
    have hstepden : (10 : ℚ) ^ (pointPlace i.value i.den - 18) * i.den ≤ i.value / 10 ^ 17 := by
      rw [hstep]
      linarith
    have hgap : (i.value : ℚ) ≤ 2 ^ 54 * (i.value - i.low) := by
      rw [← Nat.cast_sub hlow]
      exact_mod_cast hgap
    have hpositive : (4 : ℚ) ≤ i.value := by exact_mod_cast hfour
    rw [add_mul] at habove
    have hlow : (i.low : ℚ) < decimal (neighbours i.value i.den (pointPlace i.value i.den - 18)).1
        (pointPlace i.value i.den - 18) * i.den := by
      linarith
    exact hlow
  · have hlt : (i.value : ℚ) < i.high := by
      rw [hhigh]
      push_cast
      linarith [show (0 : ℚ) < 2 ^ shift e by positivity]
    exact lt_of_le_of_lt hbelow hlt

/-- Trailing zeros are moved into the scale. -/
theorem decimal_dropZeros (fuel digits : Nat) (scale : Int) :
    decimal (dropZeros fuel digits scale).1 (dropZeros fuel digits scale).2
      = decimal digits scale := by
  induction fuel generalizing digits scale with
  | zero => rfl
  | succ fuel ih =>
    unfold dropZeros
    split
    · rename_i hzero
      simp only [Bool.and_eq_true, beq_iff_eq] at hzero
      obtain ⟨d, rfl⟩ := Nat.dvd_of_mod_eq_zero hzero.1
      rw [ih, Nat.mul_div_cancel_left d (by decide), decimal, decimal,
        zpow_add_one₀ (by norm_num)]
      push_cast
      ring
    · rfl

end Binary64

end Assay
