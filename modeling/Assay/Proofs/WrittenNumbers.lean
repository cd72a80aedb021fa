import Assay.Proofs.Numerals
import Assay.Proofs.ShortestDecimals

/-!
# Numbers that are written and read

A decimal is written with a point among its digits or with an exponent, and each of these forms is
read as the decimal again (`Writes`, `writes_decimalText`). So the text of a number is read as a
decimal in its interval (`floatReading?_finite`), different numbers have different texts
(`toText_injective`), and none of them is the text of an integer (`toText_ne_toString`).
-/

namespace Assay

open Text Numeral

namespace Text

theorem natOfDigits_append (cs ds : List Char) :
    natOfDigits (cs ++ ds) = natOfDigits cs * 10 ^ ds.length + natOfDigits ds := by
  rw [natOfDigits_eq, natOfDigits_eq, natOfDigits_eq, Nat.ofDigitChars_append,
    Nat.ofDigitChars_eq_ofDigitChars_zero, Nat.mul_comm]

theorem natOfDigits_zeros (k : Nat) : natOfDigits (List.replicate k '0') = 0 := by
  rw [natOfDigits_eq, Nat.ofDigitChars_replicate_zero, Nat.mul_zero]

end Text

namespace Binary64

/-- The text is read as the decimal, with either sign, and does not consist of digits alone. -/
structure Writes (cs : List Char) (digits : Nat) (scale : Int) : Prop where
  plain : ∀ c ∈ cs, isPlain c = true
  first : ∀ c ∈ cs.head?, isAsciiDigit c = true
  marked : ∃ c ∈ cs, isAsciiDigit c = false
  reads : ∀ negative, ∃ k : Nat,
    unsigned? negative cs = some (.decimal negative (digits * 10 ^ k) (scale - k))

section

variable {digits : Nat} {scale : Int} {whole places tail : List Char} {e : Int}

/-- Digits before a point and after it. -/
theorem Writes.of_places (hne : whole ≠ []) (hwhole : ∀ c ∈ whole, isAsciiDigit c = true)
    (hplaces : ∀ c ∈ places, isAsciiDigit c = true)
    (htail : ∀ c ∈ tail, isPlain c = true) (hends : ∀ c ∈ tail.head?, isAsciiDigit c = false)
    (he : exponent? tail = some e) (k : Nat)
    (hdigits : natOfDigits (whole ++ places) = digits * 10 ^ k)
    (hscale : e - places.length = scale - k) :
    Writes (whole ++ '.' :: (places ++ tail)) digits scale where
  plain c hc := by
    rcases List.mem_append.1 hc with hc | hc
    · exact isPlain_of_isAsciiDigit (hwhole c hc)
    · rcases List.mem_cons.1 hc with rfl | hc
      · decide
      · rcases List.mem_append.1 hc with hc | hc
        · exact isPlain_of_isAsciiDigit (hplaces c hc)
        · exact htail c hc
  first c hc := by
    cases whole with
    | nil => exact absurd rfl hne
    | cons d whole =>
      obtain rfl : d = c := Option.some.inj hc
      exact hwhole d (List.mem_cons_self)
  marked := ⟨'.', List.mem_append_right _ List.mem_cons_self, by decide⟩
  reads negative := by
    refine ⟨k, ?_⟩
    rw [unsigned?_places hne hwhole hplaces hends he, hdigits, hscale]

/-- Digits without a point, before an exponent. -/
theorem Writes.of_whole (hne : whole ≠ []) (hwhole : ∀ c ∈ whole, isAsciiDigit c = true)
    (htail : ∀ c ∈ tail, isPlain c = true) (hmark : tail ≠ [])
    (hends : ∀ c ∈ tail.head?, isAsciiDigit c = false ∧ c ≠ '.')
    (he : exponent? tail = some e) (hdigits : natOfDigits whole = digits) (hscale : e = scale) :
    Writes (whole ++ tail) digits scale where
  plain c hc := by
    rcases List.mem_append.1 hc with hc | hc
    · exact isPlain_of_isAsciiDigit (hwhole c hc)
    · exact htail c hc
  first c hc := by
    cases whole with
    | nil => exact absurd rfl hne
    | cons d whole =>
      obtain rfl : d = c := Option.some.inj hc
      exact hwhole d List.mem_cons_self
  marked := by
    cases tail with
    | nil => exact absurd rfl hmark
    | cons c tail =>
      exact ⟨c, List.mem_append_right _ List.mem_cons_self, (hends c rfl).1⟩
  reads negative := by
    refine ⟨0, ?_⟩
    rw [unsigned?_whole hne hwhole hends he, hdigits, hscale, Nat.pow_zero, Nat.mul_one]
    simp

end

/-- The digits of an exponent: at least two. -/
def exponentDigits (e : Int) : List Char :=
  let es := Nat.toDigits 10 e.natAbs
  if es.length < 2 then '0' :: es else es

/-- What follows the digits when there is an exponent. -/
def exponentTail (e : Int) : List Char :=
  'e' :: (if e < 0 then '-' else '+') :: exponentDigits e

theorem isAsciiDigit_exponentDigits (e : Int) : ∀ c ∈ exponentDigits e, isAsciiDigit c = true := by
  intro c hc
  unfold exponentDigits at hc
  dsimp only at hc
  split at hc
  · rcases List.mem_cons.1 hc with rfl | hc
    · decide
    · exact isAsciiDigit_toDigits hc
  · exact isAsciiDigit_toDigits hc

theorem natOfDigits_exponentDigits (e : Int) : natOfDigits (exponentDigits e) = e.natAbs := by
  unfold exponentDigits
  dsimp only
  split
  · have hzero : natOfDigits ['0'] = 0 := rfl
    rw [← List.singleton_append, natOfDigits_append, natOfDigits_toDigits, hzero]
    omega
  · exact natOfDigits_toDigits _

theorem exponent?_tail (e : Int) : exponent? (exponentTail e) = some e := by
  have hne : (exponentDigits e).isEmpty = false := by
    unfold exponentDigits
    dsimp only
    split
    · rfl
    · rw [List.isEmpty_eq_false_iff]
      exact Nat.toDigits_ne_nil
  have hall : (exponentDigits e).all isAsciiDigit = true :=
    List.all_eq_true.2 (isAsciiDigit_exponentDigits e)
  unfold exponentTail exponent?
  by_cases he : e < 0
  · have habs : -(e.natAbs : Int) = e := by omega
    rw [if_pos he]
    simp [sign, hne, hall, natOfDigits_exponentDigits, habs, -Nat.cast_natAbs]
  · have habs : (e.natAbs : Int) = e := by omega
    rw [if_neg he]
    simp [sign, hne, hall, natOfDigits_exponentDigits, habs, -Nat.cast_natAbs]

section

variable {ds : List Char} {digits : Nat} {scale : Int}

theorem isAsciiDigit_zeros (k : Nat) : ∀ c ∈ List.replicate k '0', isAsciiDigit c = true := by
  intro c hc
  rw [List.eq_of_mem_replicate hc]
  decide

/-- The point stands before all the digits. -/
theorem writes_below_one (hdigits : ∀ c ∈ ds, isAsciiDigit c = true)
    (hvalue : natOfDigits ds = digits) (hpoint : scale + ds.length ≤ 0) :
    Writes ("0.".toList ++ List.replicate (-(scale + ds.length)).toNat '0' ++ ds) digits scale := by
  obtain ⟨k, hk⟩ : ∃ k, k = (-(scale + ds.length)).toNat := ⟨_, rfl⟩
  rw [← hk]
  have hlist : "0.".toList ++ List.replicate k '0' ++ ds
      = ['0'] ++ '.' :: ((List.replicate k '0' ++ ds) ++ []) := by simp
  rw [hlist]
  refine Writes.of_places (e := 0) (List.cons_ne_nil _ _) (List.forall_mem_singleton.2 rfl) ?_
    nofun nofun rfl 0 ?_ ?_
  · intro c hc
    rcases List.mem_append.1 hc with hc | hc
    · exact isAsciiDigit_zeros k c hc
    · exact hdigits c hc
  · have hzeros : ['0'] ++ (List.replicate k '0' ++ ds) = List.replicate (k + 1) '0' ++ ds := by
      simp [List.replicate_succ]
    rw [hzeros, natOfDigits_append, natOfDigits_zeros, hvalue]
    omega
  · rw [List.length_append, List.length_replicate]
    omega

/-- The point stands after all the digits and perhaps zeros. -/
theorem writes_whole (hne : ds ≠ []) (hdigits : ∀ c ∈ ds, isAsciiDigit c = true)
    (hvalue : natOfDigits ds = digits) (hpoint : ds.length ≤ scale + ds.length) :
    Writes (ds ++ List.replicate (scale + ds.length - ds.length).toNat '0' ++ ".0".toList)
      digits scale := by
  obtain ⟨k, hk⟩ : ∃ k, k = (scale + ds.length - ds.length).toNat := ⟨_, rfl⟩
  rw [← hk]
  have hlist : ds ++ List.replicate k '0' ++ ".0".toList
      = (ds ++ List.replicate k '0') ++ '.' :: (['0'] ++ []) := by simp
  rw [hlist]
  refine Writes.of_places (e := 0) (by simp [hne]) ?_ (List.forall_mem_singleton.2 rfl) nofun nofun
    rfl (k + 1) ?_ ?_
  · intro c hc
    rcases List.mem_append.1 hc with hc | hc
    · exact hdigits c hc
    · exact isAsciiDigit_zeros k c hc
  · have hzeros : ds ++ List.replicate k '0' ++ ['0'] = ds ++ List.replicate (k + 1) '0' := by
      rw [List.append_assoc, ← List.replicate_succ']
    rw [hzeros, natOfDigits_append, natOfDigits_zeros, hvalue, List.length_replicate, Nat.add_zero]
  · rw [List.length_singleton]
    omega

/-- The point stands among the digits. -/
theorem writes_between (hdigits : ∀ c ∈ ds, isAsciiDigit c = true)
    (hvalue : natOfDigits ds = digits) (hpoint : ¬ scale + ds.length ≤ 0)
    (hbefore : ¬ ds.length ≤ scale + ds.length) :
    Writes (ds.take (scale + ds.length).toNat ++ '.' :: ds.drop (scale + ds.length).toNat)
      digits scale := by
  obtain ⟨k, hk⟩ : ∃ k, k = (scale + ds.length).toNat := ⟨_, rfl⟩
  rw [← hk, ← List.append_nil (ds.drop k)]
  refine Writes.of_places (e := 0) ?_ ?_ ?_ nofun nofun rfl 0 ?_ ?_
  · intro hnil
    have := congrArg List.length hnil
    rw [List.length_take, List.length_nil] at this
    omega
  · exact fun c hc => hdigits c (List.mem_of_mem_take hc)
  · exact fun c hc => hdigits c (List.mem_of_mem_drop hc)
  · rw [List.take_append_drop, hvalue, Nat.pow_zero, Nat.mul_one]
  · rw [List.length_drop]
    omega

theorem isPlain_exponentTail (e : Int) : ∀ c ∈ exponentTail e, isPlain c = true := by
  intro c hc
  rcases List.mem_cons.1 hc with rfl | hc
  · decide
  · rcases List.mem_cons.1 hc with rfl | hc
    · split <;> decide
    · exact isPlain_of_isAsciiDigit (isAsciiDigit_exponentDigits e c hc)

/-- An exponent follows, after one digit or after a point behind the first one. -/
theorem writes_exponent (hne : ds ≠ []) (hdigits : ∀ c ∈ ds, isAsciiDigit c = true)
    (hvalue : natOfDigits ds = digits) :
    Writes (match ds with
      | [d] => d :: exponentTail (scale + ds.length - 1)
      | d :: rest => d :: '.' :: rest ++ exponentTail (scale + ds.length - 1)
      | [] => exponentTail (scale + ds.length - 1)) digits scale := by
  have hends (e : Int) : ∀ c ∈ (exponentTail e).head?, isAsciiDigit c = false ∧ c ≠ '.' := by
    rintro c ⟨⟩
    decide
  match ds with
  | [] => exact absurd rfl hne
  | [d] =>
    show Writes ([d] ++ exponentTail _) digits scale
    refine Writes.of_whole (List.cons_ne_nil _ _) hdigits (isPlain_exponentTail _) nofun
      (hends _) (exponent?_tail _) hvalue ?_
    rw [List.length_singleton]
    omega
  | d :: c :: rest =>
    obtain ⟨hd, hrest⟩ := List.forall_mem_cons.1 hdigits
    show Writes ([d] ++ '.' :: ((c :: rest) ++ exponentTail _)) digits scale
    refine Writes.of_places (List.cons_ne_nil _ _) (by simpa using hd) hrest
      (isPlain_exponentTail _) (fun c hc => (hends _ c hc).1) (exponent?_tail _) 0 ?_ ?_
    · simpa using hvalue
    · simp only [List.length_cons]
      omega

end

/-- The text of a decimal is read as the decimal. -/
theorem writes_decimalText (digits : Nat) (scale : Int) :
    Writes (decimalText digits scale).toList digits scale := by
  have hdigits : ∀ c ∈ Nat.toDigits 10 digits, isAsciiDigit c = true :=
    fun c hc => isAsciiDigit_toDigits hc
  have hvalue := natOfDigits_toDigits digits
  have hne : Nat.toDigits 10 digits ≠ [] := Nat.toDigits_ne_nil
  unfold decimalText
  dsimp only
  generalize Nat.toDigits 10 digits = ds at *
  -- The point stands before the digits, behind them or among them, or there is an exponent.
  by_cases hplain : -4 < scale + ds.length ∧ scale + ds.length ≤ 16
  · rw [if_pos hplain]
    by_cases hsmall : scale + ds.length ≤ 0
    · rw [if_pos hsmall, String.toList_ofList]
      exact writes_below_one hdigits hvalue hsmall
    · rw [if_neg hsmall]
      by_cases hwhole : ds.length ≤ scale + ds.length
      · rw [if_pos hwhole, String.toList_ofList]
        exact writes_whole hne hdigits hvalue hwhole
      · rw [if_neg hwhole, String.toList_ofList]
        exact writes_between hdigits hvalue hsmall hwhole
  · rw [if_neg hplain]
    have hwrites : Writes _ digits scale := writes_exponent hne hdigits hvalue
    unfold exponentTail exponentDigits at hwrites
    dsimp only at hwrites
    match ds with
    | [] => exact absurd rfl hne
    | [d] =>
      rw [String.toList_ofList]
      exact hwrites
    | d :: c :: rest =>
      rw [String.toList_ofList]
      exact hwrites

/-! ## Written numbers -/

theorem decimal_shift (digits k : Nat) (scale : Int) :
    decimal (digits * 10 ^ k) (scale - k) = decimal digits scale := by
  have hpos : (10 : ℚ) ^ k ≠ 0 := by positivity
  rw [decimal, decimal, zpow_sub₀ (by norm_num), zpow_natCast]
  push_cast
  field_simp

/-- The text of a finite number's size. -/
def sizeText (e : Fin 2047) (f : Fin fractionCount) : String :=
  if significand e f = 0 then "0.0"
  else
    let found := dropZeros 18 (shortestDigits e f).1 (shortestDigits e f).2
    decimalText found.1 found.2

theorem toText_finite (negative : Bool) (e : Fin 2047) (f : Fin fractionCount) :
    (finite negative e f).toText = if negative then "-" ++ sizeText e f else sizeText e f := rfl

/-- The text of a finite number's size is read as a decimal in its interval. -/
theorem writes_sizeText (e : Fin 2047) (f : Fin fractionCount) : ∃ digits scale,
    Writes (sizeText e f).toList digits scale ∧ (interval e f).Contains (decimal digits scale) := by
  unfold sizeText
  by_cases hzero : significand e f = 0
  · rw [if_pos hzero]
    refine ⟨0, 0, ?_, ?_⟩
    · show Writes (['0'] ++ '.' :: (['0'] ++ [])) 0 0
      exact .of_places (List.cons_ne_nil _ _) (List.forall_mem_singleton.2 rfl)
        (List.forall_mem_singleton.2 rfl) nofun nofun rfl 1 rfl rfl
    · exact (Interval.holds_iff 0 0).1 (by simp [Interval.holds, interval, hzero])
  · rw [if_neg hzero]
    let found := dropZeros 18 (shortestDigits e f).1 (shortestDigits e f).2
    refine ⟨found.1, found.2, writes_decimalText _ _, ?_⟩
    rw [decimal_dropZeros]
    exact shortestDigits_holds hzero

/-- A finite number is read with its sign and as a decimal in the interval of its size. -/
theorem floatReading?_finite (negative : Bool) (e : Fin 2047) (f : Fin fractionCount) :
    ∃ digits scale,
      floatReading? (finite negative e f).toText = some (.decimal negative digits scale) ∧
        (interval e f).Contains (decimal digits scale) := by
  obtain ⟨digits, scale, hwrites, hcontains⟩ := writes_sizeText e f
  obtain ⟨k, hk⟩ := hwrites.reads negative
  refine ⟨digits * 10 ^ k, scale - k, ?_, ?_⟩
  · rw [toText_finite]
    cases negative with
    | false => exact (floatReading?_unsigned hwrites.plain hwrites.first).trans hk
    | true => exact (floatReading?_minus hwrites.plain).trans hk
  · rwa [decimal_shift]

theorem floatReading?_infinite (negative : Bool) :
    floatReading? (infinite negative).toText = some (.infinity negative) := by
  cases negative <;> decide

/-- Different numbers are written differently. -/
theorem toText_injective {x y : Binary64} (h : x.toText = y.toText) : x = y := by
  cases x with
  | finite n e f =>
    obtain ⟨d, k, hread, hcontains⟩ := floatReading?_finite n e f
    cases y with
    | finite m e' f' =>
      obtain ⟨d', k', hread', hcontains'⟩ := floatReading?_finite m e' f'
      rw [h, hread'] at hread
      cases hread
      obtain ⟨rfl, rfl⟩ := fields_of_contains hcontains hcontains'
      rfl
    | infinite m =>
      rw [h, floatReading?_infinite] at hread
      cases hread
  | infinite n =>
    cases y with
    | finite m e f =>
      obtain ⟨d, k, hread, -⟩ := floatReading?_finite m e f
      rw [← h, floatReading?_infinite] at hread
      cases hread
    | infinite m =>
      have hread := floatReading?_infinite n
      rw [h, floatReading?_infinite] at hread
      cases hread
      rfl

/-- A size has a mark beside its digits, which an integer has not. -/
theorem sizeText_ne_repr (e : Fin 2047) (f : Fin fractionCount) (n : Nat) :
    sizeText e f ≠ n.repr := by
  intro heq
  obtain ⟨d, k, hwrites, -⟩ := writes_sizeText e f
  obtain ⟨c, hc, hmark⟩ := hwrites.marked
  rw [heq, Nat.toList_repr] at hc
  rw [isAsciiDigit_toDigits hc] at hmark
  cases hmark

/-- No number is written like an integer. -/
theorem toText_ne_toString (x : Binary64) (n : Int) : x.toText ≠ toString n := by
  intro heq
  have hread := floatReading?_toString n
  cases x with
  | infinite negative =>
    rw [← heq, floatReading?_infinite] at hread
    cases hread
  | finite negative e f =>
    obtain ⟨d, k, hfinite, -⟩ := floatReading?_finite negative e f
    rw [← heq, hfinite] at hread
    injection hread with hread
    injection hread with hsign
    rw [toText_finite, toString_int] at heq
    by_cases hn : n < 0
    · rw [hsign, if_pos (decide_eq_true hn), if_neg (by omega)] at heq
      exact sizeText_ne_repr e f _ ((String.append_right_inj "-").1 heq)
    · rw [hsign, if_neg (by simpa using hn), if_pos (by omega)] at heq
      exact sizeText_ne_repr e f _ heq

end Binary64

end Assay
