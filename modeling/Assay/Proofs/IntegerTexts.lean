import Assay.Proofs.Discrimination
import Assay.Proofs.Immediate
import Assay.Proofs.Numerals
import Assay.Proofs.Rounding

/-!
# Integers read from text

A coercing number schema reads a text as a binary64 number before it makes an integer of it. So of
the written integers it accepts those that are not too large for such a number, and gives the
nearest integer of at most 53 significant bits (`Schema.ReadsIntegers`, `coerced_integers`). Only
the integers that have so few come back as they were written (`integer_text_rounded`).
-/

namespace Assay

open Binary64

/-! ## The integer that a number is -/

namespace Binary64

/-- The integer rounded to 53 significant bits, with its sign. -/
def rounded (n : Int) : Int :=
  if n < 0 then -(roundedInteger n.natAbs : Int) else roundedInteger n.natAbs

theorem rounded_rounds (n : Int) : Rounds n (rounded n) := by
  have h := roundedInteger_rounds n.natAbs
  unfold rounded
  by_cases hn : n < 0
  · rw [if_pos hn]
    have habs : -(n.natAbs : Int) = n := by omega
    have hneg := h.neg
    rwa [habs] at hneg
  · rw [if_neg hn]
    have habs : (n.natAbs : Int) = n := by omega
    rwa [habs] at h

theorem natAbs_rounded (n : Int) : (rounded n).natAbs = roundedInteger n.natAbs := by
  unfold rounded
  split <;> omega

theorem rounded_eq_self {n : Int} : rounded n = n ↔ FitsSignificand n := by
  have h := rounded_rounds n
  constructor
  · intro heq
    exact heq ▸ h.fits
  · intro hfits
    have := h.nearest n hfits
    omega

/-- A whole number of units is an integer. -/
theorem toInt_of_hasSize {x : Binary64} {negative : Bool} {n : Nat}
    (h : x.HasSize negative (n * unitsPerOne)) (hfinite : x.isFinite = true) :
    x.isInteger = true ∧ x.toInt = if negative then -(n : Int) else n := by
  have hpos : 0 < unitsPerOne :=
    Nat.pos_of_ne_zero (Int.natCast_ne_zero.1 Value.unitsPerOne_ne_zero)
  constructor
  · simp [isInteger, hfinite, h.size hfinite]
  · simp [toInt, h.size hfinite, h.sign, Nat.mul_div_cancel _ hpos]

end Binary64

/-! ## Reading an integer -/

namespace Scalar

/-- A written integer has no point. -/
theorem contains_point (n : Int) : (toString n).contains '.' = false := by
  have hdigits : '.' ∉ n.natAbs.repr.toList := by
    intro hpoint
    exact absurd (Numeral.isAsciiDigit_repr _ _ hpoint) (by decide)
  rw [String.contains_char_eq, decide_eq_false_iff_not, Numeral.toString_int]
  split
  · exact hdigits
  · rw [String.toList_append]
    simpa using hdigits

/-- A written integer is read as the number that it is rounded to, unless that is out of range. -/
theorem coerceNumber_int (n : Int) : coerceNumber (.str (toString n)) =
    some (if n.natAbs < 2 ^ 1024 - 2 ^ 970 then .int (rounded n) else
      .float (.infinite (decide (n < 0)))) := by
  have hsize := hasSize_ofDecimal (decide (n < 0)) n.natAbs
  have hfinite := isFinite_ofDecimal (decide (n < 0)) n.natAbs
  simp only [coerceNumber, numberOf?, Numeral.floatReading?_toString, contains_point]
  generalize ofDecimal (decide (n < 0)) n.natAbs 0 = x at hsize hfinite ⊢
  by_cases hrange : n.natAbs < 2 ^ 1024 - 2 ^ 970
  · obtain ⟨hinteger, htoInt⟩ := toInt_of_hasSize hsize (hfinite.2 hrange)
    rw [if_pos hrange, if_pos (by rw [hinteger]; rfl), htoInt, rounded]
    by_cases hn : n < 0 <;> simp [hn]
  · rw [if_neg hrange]
    cases x with
    | finite negative e f => exact absurd (hfinite.1 rfl) hrange
    | infinite negative =>
      have hsign : negative = decide (n < 0) := hsize.sign
      rw [hsign]
      rfl

end Scalar

/-! ## Schemas that coerce -/

/-- How a schema reads written integers: it accepts them in the range of a binary64 number, each
with the nearest integer of 53 significant bits, and so without change those that have no more. -/
structure Schema.ReadsIntegers (host : Host) (σ : Session) (ctx : Context) (s : Schema Value) :
    Prop where
  rounds : ∀ n w, (safeParse host ctx s (.str (Value.int n).text)).answer σ = .ok (.accepted w) →
    ∃ m, w = .int m ∧ Rounds n m
  accepts : ∀ n, (∃ w, (safeParse host ctx s (.str (Value.int n).text)).answer σ
    = .ok (.accepted w)) ↔ n.natAbs < 2 ^ 1024 - 2 ^ 970
  unchanged : ∀ n, (safeParse host ctx s (.str (Value.int n).text)).answer σ
    = .ok (.accepted (.int n)) ↔ FitsSignificand n ∧ n.natAbs < 2 ^ 1024

variable {host : Host} {ctx : Context} {σ τ : Session} {s : Schema Value} {error : Value}

/-- The form reads an integer that is in range as the one that it is rounded to. -/
theorem number_reads (n : Int) {w : Value} :
    Scalar.number s true (.str (Value.int n).text) = .ok w ↔
      n.natAbs < 2 ^ 1024 - 2 ^ 970 ∧ w = .int (rounded n) := by
  have htext : (Value.int n).text = toString n := rfl
  rw [Scalar.number, if_pos rfl, htext, Scalar.coerceNumber_int]
  by_cases hrange : n.natAbs < 2 ^ 1024 - 2 ^ 970
  · rw [if_pos hrange, and_iff_right hrange]
    simp [Scalar.require, Value.isNumber, eq_comm]
  · rw [if_neg hrange]
    refine iff_of_false ?_ fun h => hrange h.1
    simp [Scalar.require, Value.isNumber, Binary64.isFinite, Result.wrongType, Result.failed]

/-- Made with coercion switched on, both kinds of schema read numbers in the same way. -/
theorem coercing_form
    (hs : (Construct.number (.bool true) { error := error }).answer τ = .ok s ∨
      ∃ abort, (Construct.integer (.bool true) abort { error := error }).answer τ = .ok s) :
    (s.form = .number (.bool true) ∨ ∃ abort, s.form = .integer (.bool true) abort) ∧
      s.kind = .str "number" ∧ s.checks = [] := by
  rcases hs with hs | ⟨abort, hs⟩
  · obtain ⟨hform, hkind, hchecks⟩ := make_ok rfl (Prod.ext hs rfl)
    exact ⟨.inl hform, hkind, hchecks⟩
  · obtain ⟨hform, hkind, hchecks⟩ := make_ok rfl (Prod.ext hs rfl)
    exact ⟨.inr ⟨abort, hform⟩, hkind, hchecks⟩

/-- A coercing number or integer schema accepts a written integer that is in range, as the one that
it is rounded to. -/
theorem coercing_accepts
    (hs : (Construct.number (.bool true) { error := error }).answer τ = .ok s ∨
      ∃ abort, (Construct.integer (.bool true) abort { error := error }).answer τ = .ok s)
    (hown : σ.kinds.evaluator? (.str "number") = .ok (.builtin .evaluateNode)) (n : Int)
    {w : Value} :
    (safeParse host ctx s (.str (Value.int n).text)).answer σ = .ok (.accepted w) ↔
      n.natAbs < 2 ^ 1024 - 2 ^ 970 ∧ w = .int (rounded n) := by
  obtain ⟨hform, hkind, hchecks⟩ := coercing_form hs
  have hverdict (m : Int) : s.form.verdict (.int m) = none := by
    rcases hform with hform | ⟨abort, hform⟩ <;> rw [hform] <;> rfl
  have hparse (v : Value) : (safeParse host ctx s v).answer σ = .ok (.accepted w) ↔
      Scalar.number s true v = .ok w ∧ s.form.verdict w = none := by
    refine safeParse_at_once (hkind ▸ hown) hchecks fun recur acceptsAbsent => ?_
    unfold evaluateForm
    rcases hform with hform | ⟨abort, hform⟩ <;> rw [hform] <;> rfl
  rw [hparse, number_reads, and_iff_left_of_imp]
  rintro ⟨-, rfl⟩
  exact hverdict (rounded n)

/-- A coercing number or integer schema reads written integers as binary64 numbers. -/
theorem coerced_integers
    (hs : (Construct.number (.bool true) { error := error }).answer τ = .ok s ∨
      ∃ abort, (Construct.integer (.bool true) abort { error := error }).answer τ = .ok s)
    (hown : σ.kinds.evaluator? (.str "number") = .ok (.builtin .evaluateNode)) :
    s.ReadsIntegers host σ ctx := by
  refine ⟨fun n w hw => ?_, fun n => ?_, fun n => ?_⟩
  · obtain ⟨-, rfl⟩ := (coercing_accepts hs hown n).1 hw
    exact ⟨rounded n, rfl, rounded_rounds n⟩
  · constructor
    · rintro ⟨w, hw⟩
      exact ((coercing_accepts hs hown n).1 hw).1
    · intro hrange
      exact ⟨_, (coercing_accepts hs hown n).2 ⟨hrange, rfl⟩⟩
  · rw [coercing_accepts hs hown, Value.int.injEq, eq_comm, rounded_eq_self, and_comm]
    -- An integer that has no more bits is in range as soon as it is below the limit.
    refine and_congr_right fun hfits => ?_
    rw [← roundedInteger_lt (k := 1024) (e := 970) rfl, ← natAbs_rounded,
      rounded_eq_self.2 hfits]

namespace Coerced

def amount : Schema Value := ⟨0, .str "number", .number (.bool true), [], [], .null⟩

def count : Schema Value :=
  ⟨0, .str "number", .integer (.bool true) (.bool false), [], [], .null⟩

theorem amount_made : (Construct.number (.bool true) {}).answer {} = .ok amount := rfl

theorem count_made : (Construct.integer (.bool true) (.bool false) {}).answer {} = .ok count := rfl

end Coerced

open Coerced Stock in
/-- Of the integers after `2 ^ 53` the even ones have 53 significant bits. -/
theorem coerced_integers_even :
    (safeParse (hostThat false) {} count (.str "9007199254740994")).answer {} =
      .ok (.accepted (.int 9007199254740994)) :=
  ((coerced_integers (.inr ⟨_, count_made⟩) rfl).unchanged 9007199254740994).2
    ⟨⟨4503599627370497, 1, by decide, rfl⟩, Nat.lt_of_lt_of_le
      (show 9007199254740994 < 2 ^ 54 by decide) (two_pow_mono 54 1024 (by decide))⟩

open Coerced Stock in
/-- The first odd one is read as the even one before it. -/
theorem integer_text_rounded :
    (safeParse (hostThat false) {} amount (.str "9007199254740993")).answer {} =
        .ok (.accepted (.int 9007199254740992)) ∧
      (safeParse (hostThat false) {} count (.str "9007199254740993")).answer {} =
        .ok (.accepted (.int 9007199254740992)) := by
  have hrange : (9007199254740993 : Int).natAbs < 2 ^ 1024 - 2 ^ 970 := by
    rw [← roundedInteger_lt (k := 1024) (e := 970) rfl]
    exact Nat.lt_of_lt_of_le (by decide) (two_pow_mono 54 1024 (by decide))
  have hrounded : Value.int 9007199254740992 = .int (rounded 9007199254740993) :=
    congrArg Value.int (by decide)
  exact ⟨(coercing_accepts (.inl amount_made) rfl 9007199254740993).2 ⟨hrange, hrounded⟩,
    (coercing_accepts (.inr ⟨_, count_made⟩) rfl 9007199254740993).2 ⟨hrange, hrounded⟩⟩

end Assay
