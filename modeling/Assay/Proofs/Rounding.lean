import Assay.Proofs.Equivalence
import Mathlib.Tactic.LinearCombination

/-!
# Rounding

A fraction of units is rounded to its leading 53 bits, and the number has the size that results
unless that is too large (`hasSize_ofFraction`). Rounding an integer is described without any bits:
of the integers that have at most 53 of them it takes the nearest one, and of two that are as near
the even one (`Rounds`, `roundedInteger_rounds`); there is only one such integer (`Rounds.unique`).
A whole decimal is the number of this integer, and out of range exactly if it is half way to the
first power of two that is (`roundedInteger_lt`, `hasSize_ofDecimal`).
-/

namespace Assay

namespace Binary64

/-! ## Rounded quotients -/

section

variable {n d m : Nat}

/-- A quotient is rounded down or up, to the nearer side, and half way to the even one. -/
theorem roundQuotient_cases (n d : Nat) :
    (roundQuotient n d = n / d ∧ 2 * (n % d) ≤ d ∧ (2 * (n % d) = d → n / d % 2 = 0)) ∨
      (roundQuotient n d = n / d + 1 ∧ d ≤ 2 * (n % d) ∧
        (2 * (n % d) = d → n / d % 2 = 1)) := by
  unfold roundQuotient
  dsimp only
  split
  · left
    omega
  · split
    · right
      omega
    · rcases Nat.mod_two_eq_zero_or_one (n / d) with heven | hodd
      · left
        omega
      · right
        omega

theorem le_roundQuotient (n d : Nat) : n / d ≤ roundQuotient n d := by
  rcases roundQuotient_cases n d with ⟨h, -⟩ | ⟨h, -⟩ <;> omega

theorem roundQuotient_le (n d : Nat) : roundQuotient n d ≤ n / d + 1 := by
  rcases roundQuotient_cases n d with ⟨h, -⟩ | ⟨h, -⟩ <;> omega

theorem roundQuotient_mul_right {c : Nat} (hc : 0 < c) (n d : Nat) :
    roundQuotient (n * c) (d * c) = roundQuotient n d := by
  have hlt (a b : Nat) : a * c < b * c ↔ a < b := Nat.mul_lt_mul_right hc
  unfold roundQuotient
  simp only [Nat.mul_div_mul_right _ _ hc, Nat.mul_mod_mul_right, ← Nat.mul_assoc, hlt]

theorem roundQuotient_mul_self (hd : 0 < d) (a : Nat) : roundQuotient (a * d) d = a := by
  simp [roundQuotient, Nat.mul_div_cancel _ hd, hd]

end

theorem two_pow_mono (k l : Nat) (h : k ≤ l) : 2 ^ k ≤ 2 ^ l :=
  Nat.pow_le_pow_right (by decide) h

/-- The leading 53 bits of an integer, unless it has fewer. -/
theorem leading_bits (n : Nat) : n / 2 ^ (Nat.log2 n - 52) < 2 ^ 53 ∧
    (Nat.log2 n - 52 ≠ 0 → 2 ^ 52 ≤ n / 2 ^ (Nat.log2 n - 52)) := by
  have hpos : 0 < 2 ^ (Nat.log2 n - 52) := Nat.two_pow_pos _
  constructor
  · rw [Nat.div_lt_iff_lt_mul hpos, ← Nat.pow_add]
    exact Nat.lt_of_lt_of_le Nat.lt_log2_self (two_pow_mono _ _ (by omega))
  · intro hp
    have hn : n ≠ 0 := by
      rintro rfl
      exact hp (by decide)
    rw [Nat.le_div_iff_mul_le hpos, ← Nat.pow_add]
    exact Nat.le_trans (two_pow_mono _ _ (by omega)) (Nat.log2_self_le hn)

/-! ## The number nearest to a fraction -/

/-- The number has the sign and the size, unless it is too large for a finite number. -/
structure HasSize (x : Binary64) (negative : Bool) (size : Nat) : Prop where
  sign : x.isNegative = negative
  finite : x.isFinite = true ↔ size < (infinite negative).magnitude
  size : x.isFinite = true → x.magnitude = size

section

variable {negative : Bool} {m s num den : Nat}

theorem fractionCount_eq : fractionCount = 2 ^ 52 := by norm_num

theorem magnitude_infinite (negative : Bool) :
    ∃ n, n = 2098 ∧ (infinite negative).magnitude = 2 ^ n := by
  obtain ⟨n, hn⟩ : ∃ n, 2098 = n := ⟨_, rfl⟩
  refine ⟨n, hn.symm, ?_⟩
  unfold magnitude
  rw [hn]
  exact Nat.pow_eq

theorem two_pow_le_mul {n k : Nat} (hm : 2 ^ k ≤ m) (hn : n ≤ k + s) : 2 ^ n ≤ m * 2 ^ s :=
  calc 2 ^ n ≤ 2 ^ (k + s) := two_pow_mono n (k + s) hn
    _ = 2 ^ k * 2 ^ s := Nat.pow_add 2 k s
    _ ≤ m * 2 ^ s := Nat.mul_le_mul_right _ hm

/-- A significand below 2⁵³ and its shift are packed as they are. -/
theorem hasSize_pack (hm : m < 2 ^ 53) (hs : m < fractionCount → s = 0) :
    (pack negative m s).HasSize negative (m * 2 ^ s) := by
  obtain ⟨n, hn, hinfinite⟩ := magnitude_infinite negative
  have hrange (hs : s < 2046) : m * 2 ^ s < (infinite negative).magnitude := by
    rw [hinfinite]
    exact mul_two_pow_lt hm (by omega)
  unfold pack
  by_cases hsmall : m < fractionCount
  · -- The number is subnormal, and its significand is the fraction field.
    obtain rfl := hs hsmall
    rw [if_pos hsmall]
    refine ⟨rfl, iff_of_true rfl (hrange (by omega)), fun _ => ?_⟩
    simp [magnitude, significand, shift, Nat.mod_eq_of_lt hsmall]
  · rw [if_neg hsmall]
    rw [fractionCount_eq] at hsmall
    by_cases hshift : s + 1 < 2047
    · rw [if_pos hshift]
      refine ⟨rfl, iff_of_true rfl (hrange (by omega)), fun _ => ?_⟩
      have hfraction : m - fractionCount < fractionCount := by
        rw [fractionCount_eq]
        omega
      have hexponent : (Fin.ofNat 2047 (s + 1)).val = s + 1 := Nat.mod_eq_of_lt hshift
      have hplaces : (Fin.ofNat fractionCount (m - fractionCount)).val = m - fractionCount :=
        Nat.mod_eq_of_lt hfraction
      have hwhole : significand (Fin.ofNat 2047 (s + 1)) (Fin.ofNat fractionCount
          (m - fractionCount)) = m := by
        rw [significand, if_neg (by omega), hplaces, fractionCount_eq]
        omega
      rw [magnitude, hwhole, shift, hexponent, Nat.add_sub_cancel]
      rfl
    · rw [if_neg hshift]
      have hlarge : (infinite negative).magnitude ≤ m * 2 ^ s := by
        rw [hinfinite]
        exact two_pow_le_mul (k := 52) (by omega) (by omega)
      exact ⟨rfl, iff_of_false Bool.false_ne_true (Nat.not_lt.2 hlarge),
        fun hfinite => absurd hfinite Bool.false_ne_true⟩

/-- How many times the last of 53 bits of a fraction of units is doubled from one unit. -/
def shiftOf (num den : Nat) : Nat := Nat.log2 (num / den) - 52

/-- The size that a fraction of units is rounded to, however large. -/
def roundedSize (num den : Nat) : Nat :=
  roundQuotient num (den * 2 ^ shiftOf num den) * 2 ^ shiftOf num den

theorem hasSize_ofFraction (negative : Bool) (num den : Nat) :
    (ofFraction negative num den).HasSize negative (roundedSize num den) := by
  have hbits : num / (den * 2 ^ shiftOf num den) < 2 ^ 53 ∧
      (shiftOf num den ≠ 0 → 2 ^ 52 ≤ num / (den * 2 ^ shiftOf num den)) := by
    rw [← Nat.div_div_eq_div_mul]
    exact leading_bits (num / den)
  have hle := le_roundQuotient num (den * 2 ^ shiftOf num den)
  have hge := roundQuotient_le num (den * 2 ^ shiftOf num den)
  have hshift : Nat.log2 (num / den) + 1 - 53 = shiftOf num den := by
    unfold shiftOf
    omega
  unfold ofFraction
  dsimp only
  rw [hshift]
  show (if roundQuotient num (den * 2 ^ shiftOf num den) = 2 ^ 53 then
    pack negative fractionCount (shiftOf num den + 1)
    else pack negative (roundQuotient num (den * 2 ^ shiftOf num den)) (shiftOf num den)).HasSize
      negative (roundedSize num den)
  unfold roundedSize
  generalize roundQuotient num (den * 2 ^ shiftOf num den) = m at hle hge
  generalize shiftOf num den = s at hbits hle hge
  by_cases hcarry : m = 2 ^ 53
  · rw [if_pos hcarry, hcarry]
    have hsame : 2 ^ 53 * 2 ^ s = fractionCount * 2 ^ (s + 1) := by
      rw [fractionCount_eq]
      omega
    rw [hsame]
    exact hasSize_pack (by rw [fractionCount_eq]; omega) fun h => absurd h (Nat.lt_irrefl _)
  · rw [if_neg hcarry]
    refine hasSize_pack (by omega) fun hsmall => ?_
    rw [fractionCount_eq] at hsmall
    by_contra hs
    have := hbits.2 hs
    omega

end

/-! ## Integers with few significant bits -/

/-- The integer has at most 53 significant bits. -/
def FitsSignificand (n : Int) : Prop := ∃ m k : Nat, m < 2 ^ 53 ∧ n.natAbs = m * 2 ^ k

/-- Of the integers of at most 53 significant bits, `m` is the nearest to `n`. Of two that are as
near it is the one whose last of 53 bits is even: twice the distance between the two divides it. -/
structure Rounds (n m : Int) : Prop where
  fits : FitsSignificand m
  nearest : ∀ c, FitsSignificand c → (m - n).natAbs ≤ (c - n).natAbs
  even : ∀ c, FitsSignificand c → c ≠ m → (c - n).natAbs = (m - n).natAbs → 2 * (c - m) ∣ m

/-- There is one such integer. -/
theorem Rounds.unique {n m m' : Int} (h : Rounds n m) (h' : Rounds n m') : m = m' := by
  by_contra hne
  have hsame : (m' - n).natAbs = (m - n).natAbs :=
    Nat.le_antisymm (h'.nearest m h.fits) (h.nearest m' h'.fits)
  have hm : 2 * (m' - m) ∣ m := h.even m' h'.fits (Ne.symm hne) hsame
  have hm' : 2 * (m' - m) ∣ m' := by
    have hdvd : 2 * (m - m') ∣ m' := h'.even m h.fits hne hsame.symm
    rwa [← Int.neg_sub, Int.mul_neg, Int.neg_dvd] at hdvd
  -- Twice the distance divides the distance.
  obtain ⟨a, ha⟩ := Int.dvd_sub hm' hm
  have hzero : (m' - m) * (2 * a - 1) = 0 := by linear_combination -ha
  rcases Int.mul_eq_zero.1 hzero with hzero | hzero <;> omega

theorem fitsSignificand_neg {n : Int} : FitsSignificand (-n) ↔ FitsSignificand n := by
  simp only [FitsSignificand, Int.natAbs_neg]

/-- Rounding treats the two signs alike. -/
theorem Rounds.neg {n m : Int} (h : Rounds n m) : Rounds (-n) (-m) where
  fits := fitsSignificand_neg.2 h.fits
  nearest c hc := by
    have := h.nearest (-c) (fitsSignificand_neg.2 hc)
    omega
  even c hc hne hsame := by
    have hdvd := h.even (-c) (fitsSignificand_neg.2 hc) (by omega) (by omega)
    rwa [show 2 * (-c - m) = -(2 * (c - -m)) by omega, Int.neg_dvd, ← Int.dvd_neg] at hdvd

/-- The integer rounded to 53 significant bits. -/
def roundedInteger (n : Nat) : Nat :=
  roundQuotient n (2 ^ (Nat.log2 n - 52)) * 2 ^ (Nat.log2 n - 52)

section

variable {n m k p q : Nat}

/-- Between two neighbouring multiples of the last of 53 bits there is no integer that has so
few. -/
theorem le_or_ge_of_fits (hm : m < 2 ^ 53) (hq : p ≠ 0 → 2 ^ 52 ≤ q) (k : Nat) :
    m * 2 ^ k ≤ q * 2 ^ p ∨ (q + 1) * 2 ^ p ≤ m * 2 ^ k := by
  by_cases hk : p ≤ k
  · have hmultiple : m * 2 ^ k = m * 2 ^ (k - p) * 2 ^ p := by
      rw [Nat.mul_assoc, ← Nat.pow_add, Nat.sub_add_cancel hk]
    rw [hmultiple]
    rcases Nat.lt_or_ge q (m * 2 ^ (k - p)) with hlt | hge
    · exact .inr (Nat.mul_le_mul_right _ hlt)
    · exact .inl (Nat.mul_le_mul_right _ hge)
  · left
    calc m * 2 ^ k ≤ 2 ^ 53 * 2 ^ k := Nat.mul_le_mul_right _ (by omega)
      _ = 2 ^ 52 * 2 ^ (k + 1) := by omega
      _ ≤ q * 2 ^ p := Nat.mul_le_mul (hq (by omega)) (two_pow_mono (k + 1) p (by omega))

/-- Of two neighbouring multiples the rounded quotient gives the nearer one, against everything
that does not lie between them. -/
theorem nearest_multiple {n q d r R C : Nat} (hn : q * d + r = n) (hr : r < d)
    (hR : (R = q * d ∧ 2 * r ≤ d ∧ (2 * r = d → q % 2 = 0)) ∨
      (R = (q + 1) * d ∧ d ≤ 2 * r ∧ (2 * r = d → q % 2 = 1)))
    (hC : C ≤ q * d ∨ (q + 1) * d ≤ C) :
    ((R : Int) - n).natAbs ≤ ((C : Int) - n).natAbs ∧
      (C ≠ R → ((C : Int) - n).natAbs = ((R : Int) - n).natAbs →
        2 * ((C : Int) - R) ∣ (R : Int)) := by
  have hstep : (q + 1) * d = q * d + d := Nat.succ_mul q d
  rw [hstep] at hR hC
  refine ⟨by omega, fun hne hsame => ?_⟩
  -- The two are neighbours, and the rounded one is an even multiple of their distance.
  have htie : 2 * r = d := by omega
  rcases hR with ⟨hR, -, heven⟩ | ⟨hR, -, hodd⟩
  · obtain ⟨t, ht⟩ := Nat.dvd_of_mod_eq_zero (heven htie)
    have hdistance : (C : Int) - R = d := by omega
    refine ⟨t, ?_⟩
    rw [hdistance, hR, ht, Nat.cast_mul, Nat.cast_mul]
    linear_combination
  · obtain ⟨t, ht⟩ := Nat.dvd_of_mod_eq_zero (show (q + 1) % 2 = 0 by have := hodd htie; omega)
    have hdistance : (C : Int) - R = -d := by omega
    refine ⟨-t, ?_⟩
    rw [hdistance, hR, ← hstep, ht, Nat.cast_mul, Nat.cast_mul]
    linear_combination

theorem roundedInteger_rounds (n : Nat) : Rounds n (roundedInteger n) := by
  obtain ⟨hbits, hfull⟩ := leading_bits n
  have hcases := roundQuotient_cases n (2 ^ (Nat.log2 n - 52))
  have hdiv := Nat.div_add_mod' n (2 ^ (Nat.log2 n - 52))
  have hmod := Nat.mod_lt n (Nat.two_pow_pos (Nat.log2 n - 52))
  unfold roundedInteger
  generalize roundQuotient n (2 ^ (Nat.log2 n - 52)) = m at hcases ⊢
  generalize n / 2 ^ (Nat.log2 n - 52) = q at hbits hfull hcases hdiv
  generalize n % 2 ^ (Nat.log2 n - 52) = r at hcases hdiv hmod
  generalize Nat.log2 n - 52 = p at hfull hcases hdiv hmod ⊢
  have hR : (m * 2 ^ p = q * 2 ^ p ∧ 2 * r ≤ 2 ^ p ∧ (2 * r = 2 ^ p → q % 2 = 0)) ∨
      (m * 2 ^ p = (q + 1) * 2 ^ p ∧ 2 ^ p ≤ 2 * r ∧ (2 * r = 2 ^ p → q % 2 = 1)) :=
    hcases.imp (fun h => ⟨by rw [h.1], h.2⟩) fun h => ⟨by rw [h.1], h.2⟩
  have hbeside (c : Int) (hc : FitsSignificand c) :
      c.natAbs ≤ q * 2 ^ p ∨ (q + 1) * 2 ^ p ≤ c.natAbs := by
    obtain ⟨j, k, hj, hc⟩ := hc
    rw [hc]
    exact le_or_ge_of_fits hj hfull k
  have hzero := (nearest_multiple hdiv hmod hR (hbeside 0 ⟨0, 0, by decide, rfl⟩)).1
  refine ⟨?_, fun c hc => ?_, fun c hc hne hsame => ?_⟩
  · rcases Nat.lt_or_ge m (2 ^ 53) with hm | hm
    · exact ⟨m, p, hm, rfl⟩
    · -- The last bit was carried through all 53.
      have hcarry : m = 2 ^ 53 := by omega
      exact ⟨1, 53 + p, by decide, by rw [hcarry, Nat.one_mul, Nat.pow_add]; rfl⟩
  · have hnearest := (nearest_multiple hdiv hmod hR (hbeside c hc)).1
    omega
  · obtain ⟨hnearest, heven⟩ := nearest_multiple hdiv hmod hR (hbeside c hc)
    have hc : (c.natAbs : Int) = c := by omega
    have hdvd := heven (by omega) (by omega)
    rwa [hc] at hdvd

end

/-! ## The range -/

theorem two_pow_le_roundedInteger {n : Nat} (k : Nat) (h : 2 ^ k ≤ n) :
    2 ^ k ≤ roundedInteger n := by
  have hfits : FitsSignificand (2 ^ k : Nat) := ⟨1, k, by decide, (Nat.one_mul _).symm⟩
  have hnearest := (roundedInteger_rounds n).nearest _ hfits
  omega

/-- The last of the integers of 53 bits below a power of two. -/
theorem le_of_fits_of_lt {m k e : Nat} (hm : m < 2 ^ 53) (h : m * 2 ^ k < 2 ^ 53 * 2 ^ e) :
    m * 2 ^ k ≤ (2 ^ 53 - 1) * 2 ^ e := by
  by_cases hk : e ≤ k
  · have hmultiple : m * 2 ^ k = m * 2 ^ (k - e) * 2 ^ e := by
      rw [Nat.mul_assoc, ← Nat.pow_add, Nat.sub_add_cancel hk]
    rw [hmultiple] at h ⊢
    have := Nat.lt_of_mul_lt_mul_right h
    exact Nat.mul_le_mul_right _ (by omega)
  · exact Nat.mul_le_mul (by omega) (two_pow_mono k e (by omega))

/-- Rounding reaches a power of two from half way after the last integer of 53 bits before it. -/
theorem roundedInteger_lt {k e : Nat} (hk : k = e + 54) (n : Nat) :
    roundedInteger n < 2 ^ k ↔ n < 2 ^ k - 2 ^ e := by
  have h := roundedInteger_rounds n
  have hk : 2 ^ k = 2 ^ 54 * 2 ^ e := by rw [hk, Nat.pow_add, Nat.mul_comm]
  have hlimit : FitsSignificand (2 ^ 54 * 2 ^ e : Nat) :=
    ⟨1, 54 + e, by decide, by rw [Nat.one_mul, Nat.pow_add]; rfl⟩
  have hlast : FitsSignificand ((2 ^ 53 - 1) * 2 ^ (e + 1) : Nat) :=
    ⟨2 ^ 53 - 1, e + 1, by decide, rfl⟩
  have hstep : 2 ^ (e + 1) = 2 ^ e * 2 := Nat.pow_succ 2 e
  have hpos : 0 < 2 ^ e := Nat.two_pow_pos e
  rw [hk]
  constructor
  · intro hlt
    -- The rounded integer is at most the last one, and then not nearer to a later `n`.
    obtain ⟨m, j, hm, hfits⟩ := h.fits
    have hle : roundedInteger n ≤ (2 ^ 53 - 1) * 2 ^ (e + 1) := by
      rw [Int.natAbs_natCast] at hfits
      rw [hfits] at hlt ⊢
      exact le_of_fits_of_lt hm (by omega)
    have hnearest := h.nearest _ hlimit
    by_contra hge
    -- Only half way are both as near, and the last one is odd.
    obtain ⟨t, ht⟩ := h.even _ hlimit (by omega) (by omega)
    have hpos : (2 ^ e : Nat) ≠ (0 : Int) := by omega
    have hrounded : (roundedInteger n : Int) = (2 ^ 53 - 1) * 2 * (2 ^ e : Nat) := by omega
    have hdistance : ((2 ^ 54 * 2 ^ e : Nat) : Int) - roundedInteger n = 2 * (2 ^ e : Nat) := by
      omega
    rw [hdistance, hrounded] at ht
    have hodd : ((2 ^ 53 - 1) * 2 : Int) = 4 * t :=
      mul_right_cancel₀ hpos (by linear_combination ht)
    omega
  · intro hlt
    have hnearest := h.nearest _ hlast
    omega

/-! ## Whole decimals -/

theorem unitsPerOne_eq : ∃ u, u = 1074 ∧ unitsPerOne = 2 ^ u := by
  obtain ⟨u, hu⟩ : ∃ u, 1074 = u := ⟨_, rfl⟩
  refine ⟨u, hu.symm, ?_⟩
  unfold unitsPerOne
  rw [hu]
  exact Nat.pow_eq

theorem log2_mul_two_pow {n : Nat} (hn : n ≠ 0) (k : Nat) :
    Nat.log2 (n * 2 ^ k) = Nat.log2 n + k := by
  have hpos : 0 < 2 ^ k := Nat.two_pow_pos k
  rw [Nat.log2_eq_iff (Nat.mul_ne_zero hn (by omega)), Nat.pow_add, Nat.add_right_comm,
    Nat.pow_add]
  exact ⟨Nat.mul_le_mul_right _ (Nat.log2_self_le hn),
    Nat.mul_lt_mul_of_pos_right Nat.lt_log2_self hpos⟩

/-- An integer is rounded as such when it is rounded in units. -/
theorem roundedSize_units {n u : Nat} (hn : n ≠ 0) (hu : 52 ≤ u) :
    roundedSize (n * 2 ^ u) 1 = roundedInteger n * 2 ^ u := by
  have hshift : shiftOf (n * 2 ^ u) 1 = Nat.log2 n + u - 52 := by
    rw [shiftOf, Nat.div_one, log2_mul_two_pow hn]
  unfold roundedSize roundedInteger
  rw [hshift, Nat.one_mul]
  by_cases hwide : 52 ≤ Nat.log2 n
  · have hsum : Nat.log2 n + u - 52 = Nat.log2 n - 52 + u := by omega
    rw [hsum, Nat.pow_add, roundQuotient_mul_right (Nat.two_pow_pos u), Nat.mul_assoc]
  · -- An integer of fewer bits is exact.
    have hnone : Nat.log2 n - 52 = 0 := by omega
    have hexact : n * 2 ^ u = n * 2 ^ (52 - Nat.log2 n) * 2 ^ (Nat.log2 n + u - 52) := by
      rw [Nat.mul_assoc, ← Nat.pow_add, show 52 - Nat.log2 n + (Nat.log2 n + u - 52) = u by omega]
    have hself : roundQuotient n 1 = n := by
      simpa using roundQuotient_mul_self (d := 1) Nat.one_pos n
    rw [hnone, Nat.pow_zero, hself, hexact, roundQuotient_mul_self (Nat.two_pow_pos _), ← hexact,
      Nat.mul_one]

theorem two_pow_le_ten_pow (k l : Nat) (h : k ≤ 3 * l) : 2 ^ k ≤ 10 ^ l :=
  calc 2 ^ k ≤ 2 ^ (3 * l) := two_pow_mono k (3 * l) h
    _ = 8 ^ l := Nat.pow_mul 2 3 l
    _ ≤ 10 ^ l := Nat.pow_le_pow_left (by decide) l

/-- A whole decimal is the integer that it writes, rounded. -/
theorem hasSize_ofDecimal (negative : Bool) (n : Nat) :
    (ofDecimal negative n 0).HasSize negative (roundedInteger n * unitsPerOne) := by
  obtain ⟨u, hu, hunits⟩ := unitsPerOne_eq
  unfold ofDecimal
  dsimp only
  by_cases hn : n = 0
  · have hzero : roundedInteger n = 0 := by
      rw [hn]
      rfl
    rw [if_pos hn, hzero, Nat.zero_mul]
    have hpack : (pack negative 0 0).HasSize negative (0 * 2 ^ 0) :=
      hasSize_pack (by decide) fun _ => rfl
    rwa [Nat.zero_mul] at hpack
  rw [if_neg hn]
  by_cases hlong : (0 : Int) + (Nat.toDigits 10 n).length > 400
  · -- So many digits are out of range.
    have hlarge : 10 ^ 400 ≤ n := by
      rw [← Nat.not_lt, ← Nat.length_toDigits_le_iff (by decide) (by decide)]
      omega
    have htwo : 2 ^ 1024 ≤ 10 ^ 400 := two_pow_le_ten_pow 1024 400 (by decide)
    have hrounded := two_pow_le_roundedInteger 1024 (htwo.trans hlarge)
    rw [if_pos hlong]
    refine ⟨rfl, iff_of_false Bool.false_ne_true ?_, nofun⟩
    obtain ⟨k, hk, hinfinite⟩ := magnitude_infinite negative
    rw [Nat.not_lt, hunits, hinfinite]
    exact two_pow_le_mul hrounded (by omega)
  · rw [if_neg hlong, if_neg (by omega), if_pos (Int.le_refl 0)]
    have hscale : n * Nat.pow 10 (Int.toNat 0) * unitsPerOne = n * unitsPerOne := by
      rw [show Nat.pow 10 (Int.toNat 0) = 1 from rfl, Nat.mul_one]
    rw [hscale, hunits, ← roundedSize_units hn (by omega)]
    exact hasSize_ofFraction negative _ 1

theorem mul_two_pow_lt_iff {m n k s : Nat} (hn : n = k + s) : m * 2 ^ s < 2 ^ n ↔ m < 2 ^ k := by
  rw [hn, Nat.pow_add]
  exact Nat.mul_lt_mul_right (Nat.two_pow_pos s)

/-- Integers are in range until half way to two to the power 1024. -/
theorem isFinite_ofDecimal (negative : Bool) (n : Nat) :
    (ofDecimal negative n 0).isFinite = true ↔ n < 2 ^ 1024 - 2 ^ 970 := by
  obtain ⟨u, hu, hunits⟩ := unitsPerOne_eq
  obtain ⟨k, hk, hinfinite⟩ := magnitude_infinite negative
  rw [(hasSize_ofDecimal negative n).finite, hunits, hinfinite,
    mul_two_pow_lt_iff (k := 1024) (by omega), roundedInteger_lt (e := 970) rfl]

end Binary64

end Assay
