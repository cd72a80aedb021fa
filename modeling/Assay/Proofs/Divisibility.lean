import Assay.Evaluate.Check
import Assay.Function.Stock
import Assay.Proofs.Triple
import Assay.Proofs.WrittenNumbers

/-!
# Multiples of a divisor

A check of multiples divides integers as they are and all else as the exact decimals that they
write. Every number writes one: an integer itself (`decimal?_int`), a float one that rounds to it
(`decimalOf_finite`). A quotient of at most 28 digits has a remainder, which is zero exactly for
multiples, and a longer one has none (`Decimal.isMultiple?_spec`). So the check decides divisibility
up to 10²⁸ times the divisor and raises beyond it (`Check.DecidesMultiple`, `multiples_decided`),
even if the number is a multiple (`multiple_out_of_reach`).
-/

namespace Assay

open Binary64 Numeral Text

/-! ## Remainders -/

namespace Decimal

/-- The size as a rational number. -/
def size (x : Decimal) : ℚ := decimal x.digits x.exponent

variable {x y : Decimal}

theorem size_nonneg (x : Decimal) : 0 ≤ x.size := by
  unfold size decimal
  positivity

theorem size_eq_zero : x.size = 0 ↔ x.digits = 0 := by
  unfold size decimal
  have hpower : (10 : ℚ) ^ x.exponent ≠ 0 := (zpow_pos (by norm_num) _).ne'
  simp [hpower]

theorem size_pos (h : x.digits ≠ 0) : 0 < x.size :=
  lt_of_le_of_ne x.size_nonneg fun hzero => h (size_eq_zero.1 hzero.symm)

/-- The size lies below the power of ten that comes after the leading digit. -/
theorem size_lt (x : Decimal) : x.size < 10 ^ (x.adjusted + 1) := by
  have hdigits : x.digits < 10 ^ (Nat.toDigits 10 x.digits).length :=
    (Nat.length_toDigits_le_iff (by decide) Nat.length_toDigits_pos).1 le_rfl
  have hplace : x.adjusted + 1 = (Nat.toDigits 10 x.digits).length + x.exponent := by
    unfold adjusted
    omega
  rw [hplace, zpow_add₀ (by norm_num), zpow_natCast, size, decimal]
  refine mul_lt_mul_of_pos_right ?_ (zpow_pos (by norm_num) _)
  exact_mod_cast hdigits

/-- The size reaches the power of ten of the leading digit. -/
theorem le_size (h : x.digits ≠ 0) : 10 ^ x.adjusted ≤ x.size := by
  have hpos : 0 < (Nat.toDigits 10 x.digits).length := Nat.length_toDigits_pos
  obtain ⟨k, hk⟩ : ∃ k, (Nat.toDigits 10 x.digits).length = k + 1 :=
    Nat.exists_eq_succ_of_ne_zero hpos.ne'
  have hdigits : 10 ^ k ≤ x.digits := by
    by_cases hzero : k = 0
    · rw [hzero]
      omega
    · rw [← Nat.not_lt, ← Nat.length_toDigits_le_iff (by decide) (Nat.pos_of_ne_zero hzero)]
      omega
  have hplace : x.adjusted = k + x.exponent := by
    unfold adjusted
    omega
  rw [hplace, zpow_add₀ (by norm_num), zpow_natCast, size, decimal]
  refine mul_le_mul_of_nonneg_right ?_ (zpow_pos (by norm_num) _).le
  exact_mod_cast hdigits

/-- A leading digit two places below that of the divisor. -/
theorem size_lt_of_adjusted (hy : y.digits ≠ 0) (h : x.adjusted - y.adjusted ≤ -2) :
    x.size < y.size :=
  calc x.size < 10 ^ (x.adjusted + 1) := x.size_lt
    _ ≤ 10 ^ y.adjusted := zpow_le_zpow_right₀ (by norm_num) (by omega)
    _ ≤ y.size := le_size hy

/-- A leading digit too far above that of the divisor. -/
theorem le_size_of_adjusted (hx : x.digits ≠ 0) (h : x.adjusted - y.adjusted > precision) :
    10 ^ precision * y.size ≤ x.size :=
  calc 10 ^ precision * y.size ≤ 10 ^ precision * 10 ^ (y.adjusted + 1) :=
        mul_le_mul_of_nonneg_left y.size_lt.le (by positivity)
    _ = 10 ^ ((precision : Int) + (y.adjusted + 1)) := by
        rw [zpow_add₀ (by norm_num) (precision : Int), zpow_natCast]
    _ ≤ 10 ^ x.adjusted := zpow_le_zpow_right₀ (by norm_num) (by omega)
    _ ≤ x.size := le_size hx

/-- Over a power of ten that is low enough a size is a whole number. -/
theorem size_eq_mul {low : Int} (h : low ≤ x.exponent) :
    x.size = (x.digits * 10 ^ (x.exponent - low).toNat : Nat) * 10 ^ low := by
  obtain ⟨k, hk⟩ : ∃ k : Nat, x.exponent = k + low := ⟨(x.exponent - low).toNat, by omega⟩
  rw [size, decimal, hk, zpow_add₀ (by norm_num), zpow_natCast,
    show ((k : Int) + low - low).toNat = k by omega]
  push_cast
  ring

/-- Whole numbers over one unit have the quotient of the decimals, and no remainder exactly if one
decimal is a multiple of the other. -/
theorem quotient_spec {n d : Nat} {unit : ℚ} (hunit : 0 < unit) (hd : 0 < d)
    (hx : x.size = n * unit) (hy : y.size = d * unit) (bound : Nat) :
    (n / d < bound ↔ x.size < bound * y.size) ∧
      (n % d = 0 ↔ ∃ k : Nat, x.size = k * y.size) := by
  constructor
  · rw [Nat.div_lt_iff_lt_mul hd, hx, hy, ← mul_assoc, mul_lt_mul_iff_left₀ hunit]
    norm_cast
  · rw [← Nat.dvd_iff_mod_eq_zero, dvd_iff_exists_eq_mul_left, hx, hy]
    refine exists_congr fun k => ?_
    rw [← mul_assoc, mul_left_inj' hunit.ne']
    norm_cast

/-- The multiples of a decimal are zero and no less than it. -/
theorem not_multiple_of_lt (hx : x.digits ≠ 0) (h : x.size < y.size) :
    ¬ ∃ k : Nat, x.size = k * y.size := by
  rintro ⟨k, hk⟩
  rcases Nat.eq_zero_or_pos k with rfl | hpos
  · rw [Nat.cast_zero, zero_mul] at hk
    exact hx (size_eq_zero.1 hk)
  · have hone : (1 : ℚ) ≤ k := by exact_mod_cast hpos
    exact absurd (hk ▸ le_mul_of_one_le_left y.size_nonneg hone) h.not_ge

/-- There is no remainder by `y` for a quotient of more than 28 digits, and else it is zero exactly
for the multiples of `y`. -/
theorem isMultiple?_spec (hy : y.digits ≠ 0) :
    (isMultiple? x y = none ↔ 10 ^ precision * y.size ≤ x.size) ∧
      (isMultiple? x y = some true ↔
        x.size < 10 ^ precision * y.size ∧ ∃ k : Nat, x.size = k * y.size) := by
  have hypos := size_pos hy
  unfold isMultiple?
  by_cases hx : x.digits = 0
  · rw [if_pos hx, size_eq_zero.2 hx]
    exact ⟨iff_of_false nofun (not_le.2 (by positivity)),
      iff_of_true rfl ⟨by positivity, 0, by simp⟩⟩
  rw [if_neg hx]
  dsimp only
  by_cases hlow : x.adjusted - y.adjusted ≤ -2
  · have hlt := size_lt_of_adjusted hy hlow
    have hreach : x.size < 10 ^ precision * y.size :=
      hlt.trans_le (le_mul_of_one_le_left hypos.le (one_le_pow₀ (by norm_num)))
    rw [if_pos hlow]
    exact ⟨iff_of_false nofun hreach.not_ge,
      iff_of_false nofun fun h => not_multiple_of_lt hx hlt h.2⟩
  rw [if_neg hlow]
  by_cases hhigh : x.adjusted - y.adjusted > precision
  · have hbeyond := le_size_of_adjusted hx hhigh
    rw [if_pos hhigh]
    exact ⟨iff_of_true rfl hbeyond, iff_of_false nofun fun h => absurd hbeyond h.1.not_ge⟩
  rw [if_neg hhigh]
  -- What is left are quotients whose leading digits decide nothing: they are computed.
  obtain ⟨hquotient, hremainder⟩ := quotient_spec
    (d := y.digits * 10 ^ (y.exponent - min x.exponent y.exponent).toNat)
    (zpow_pos (by norm_num) _) (by positivity)
    (size_eq_mul (min_le_left x.exponent y.exponent))
    (size_eq_mul (min_le_right x.exponent y.exponent)) (10 ^ precision)
  push_cast at hquotient
  rw [← hremainder]
  simp only [Nat.pow_eq]
  split
  · rename_i hless
    exact ⟨iff_of_false nofun (hquotient.1 hless).not_ge, by simp [hquotient.1 hless]⟩
  · rename_i hmore
    exact ⟨iff_of_true rfl (not_lt.1 fun h => hmore (hquotient.2 h)),
      iff_of_false nofun fun h => hmore (hquotient.2 h.1)⟩

end Decimal

/-! ## What numbers write -/

/-- The rational number that a reading is, unless it is infinite or none at all. -/
def Numeral.Reading.rational? : Reading → Option ℚ
  | .decimal negative digits exponent =>
    some (if negative then -Binary64.decimal digits exponent else Binary64.decimal digits exponent)
  | _ => none

/-- The exact decimal that a value writes. -/
def Value.decimal? (v : Value) : Option ℚ := (decimalOf v).bind Reading.rational?

/-- A plain numeral writes the same decimal to every reader. -/
theorem decimalReading?_plain {s : String} (h : ∀ c ∈ s.toList, isPlain c = true) :
    decimalReading? s = floatReading? s := by
  have hword (word : List Char) (k : Nat) (hn : 'n' ∈ word) :
      ((lowerAscii (sign s.toList).2).take k == word) = false := by
    refine beq_eq_false_iff_ne.2 fun heq => ?_
    obtain ⟨c, hc, hlower⟩ := List.mem_map.1 (List.mem_of_mem_take (heq ▸ hn))
    exact toLower_ne_of_isPlain (sign_plain h c hc) hlower
  have hwhole (word : List Char) (hn : 'n' ∈ word) :
      (lowerAscii (sign s.toList).2 == word) = false := by
    rw [← List.take_length (l := lowerAscii (sign s.toList).2)]
    exact hword word _ hn
  have hmarks : s.toList.filter (· != '_') = s.toList := by
    refine List.filter_eq_self.2 fun c hc => bne_iff_ne.2 ?_
    rintro rfl
    exact absurd (h '_' hc) (by decide)
  rw [floatReading?_plain h]
  unfold decimalReading?
  rw [asciiDigits_plain h, trimList_eq_self fun c hc => isBlank_of_isPlain (h c hc), hmarks]
  dsimp only
  rw [hwhole _ (by decide), hwhole _ (by decide), hword _ 3 (by decide), hword _ 4 (by decide)]
  rfl

theorem isPlain_toText (negative : Bool) (e : Fin 2047) (f : Fin fractionCount) :
    ∀ c ∈ (finite negative e f).toText.toList, isPlain c = true := by
  obtain ⟨digits, scale, hwrites, -⟩ := writes_sizeText e f
  rw [toText_finite]
  cases negative with
  | false => exact hwrites.plain
  | true =>
    rw [if_pos rfl, String.toList_append]
    exact List.forall_mem_cons.2 ⟨rfl, hwrites.plain⟩

theorem decimalOf_int (n : Int) : decimalOf (.int n) = some (.decimal (n < 0) n.natAbs 0) :=
  (decimalReading?_plain (isPlain_toString n)).trans (floatReading?_toString n)

/-- A finite float writes a decimal that rounds to it. -/
theorem decimalOf_finite (negative : Bool) (e : Fin 2047) (f : Fin fractionCount) :
    ∃ digits scale,
      decimalOf (.float (finite negative e f)) = some (.decimal negative digits scale) ∧
        (interval e f).Contains (decimal digits scale) := by
  obtain ⟨digits, scale, hread, hcontains⟩ := floatReading?_finite negative e f
  have hplain := decimalReading?_plain (isPlain_toText negative e f)
  exact ⟨digits, scale, hplain.trans hread, hcontains⟩

/-- An integer writes itself. -/
theorem decimal?_int (n : Int) : (Value.int n).decimal? = some (n : ℚ) := by
  have hsize : decimal n.natAbs 0 = |(n : ℚ)| := by
    rw [decimal, zpow_zero, mul_one, Nat.cast_natAbs, Int.cast_abs]
  rw [Value.decimal?, decimalOf_int]
  show some (if decide (n < 0) then -decimal n.natAbs 0 else decimal n.natAbs 0) = _
  by_cases hn : n < 0
  · have hcast : (n : ℚ) < 0 := by exact_mod_cast hn
    rw [if_pos (decide_eq_true hn), hsize, abs_of_neg hcast, neg_neg]
  · have hcast : (0 : ℚ) ≤ n := by exact_mod_cast not_lt.1 hn
    rw [if_neg (by simpa using hn), hsize, abs_of_nonneg hcast]

/-- Every number writes a decimal. -/
theorem decimalOf_number {v : Value} (h : v.isNumber = true) :
    ∃ negative digits scale, decimalOf v = some (.decimal negative digits scale) := by
  cases v with
  | int n => exact ⟨_, _, _, decimalOf_int n⟩
  | float x =>
    cases x with
    | finite negative e f =>
      obtain ⟨digits, scale, hread, -⟩ := decimalOf_finite negative e f
      exact ⟨negative, digits, scale, hread⟩
    | infinite negative => cases h
  | _ => cases h

/-- A float is positive if its sign is and its size is not zero. -/
theorem finite_positive {negative : Bool} {e : Fin 2047} {f : Fin fractionCount}
    (h : (Value.int 0).before? false (.float (finite negative e f)) = some true) :
    negative = false ∧ 0 < significand e f * 2 ^ shift e := by
  have hunits : 0 < (finite negative e f).units := by
    simpa only [Value.before?, Value.numberBefore?, Value.units?, Binary64.isFinite, zero_mul,
      Option.map_some, if_true, Bool.false_and, Bool.or_false, Option.some.injEq,
      decide_eq_true_eq] using h
  cases negative with
  | false =>
    have hmagnitude : 0 < ((finite false e f).magnitude : Int) := hunits
    exact ⟨rfl, Int.natCast_pos.1 hmagnitude⟩
  | true =>
    have hmagnitude : 0 < -((finite true e f).magnitude : Int) := hunits
    omega

/-- Zero lies below the decimals that round to a number other than zero. -/
theorem digits_ne_zero {e : Fin 2047} {f : Fin fractionCount} {digits : Nat}
    {scale : Int} (hsize : 0 < significand e f * 2 ^ shift e)
    (h : (interval e f).Contains (decimal digits scale)) : digits ≠ 0 := by
  rintro rfl
  have hlow : (interval e f).low ≤ 0 := by
    unfold Interval.Contains at h
    rw [decimal, Nat.cast_zero, zero_mul, zero_mul] at h
    split at h
    · exact_mod_cast h.1
    · exact_mod_cast h.1.le
  have hsignificand : 0 < significand e f := Nat.pos_of_mul_pos_right hsize
  have hgap := gapBelow_le e f
  have hpos : 0 < (4 * significand e f - gapBelow e f) * 2 ^ shift e :=
    Nat.mul_pos (by omega) (Nat.two_pow_pos _)
  exact absurd hlow hpos.not_ge

/-- A positive number writes a positive decimal. -/
theorem decimalOf_positive {d : Value} (h : d.isNumber = true)
    (hpositive : (Value.int 0).before? false d = some true) :
    ∃ digits scale, decimalOf d = some (.decimal false digits scale) ∧ digits ≠ 0 := by
  cases d with
  | int n =>
    have hn : 0 < n := by simpa [Value.before?, Value.numberBefore?, Value.whole?] using hpositive
    refine ⟨n.natAbs, 0, ?_, by omega⟩
    rw [decimalOf_int, decide_eq_false (by omega)]
  | float x =>
    cases x with
    | infinite negative => cases h
    | finite negative e f =>
      obtain ⟨rfl, hsize⟩ := finite_positive hpositive
      obtain ⟨digits, scale, hread, hcontains⟩ := decimalOf_finite false e f
      exact ⟨digits, scale, hread, digits_ne_zero hsize hcontains⟩
  | _ => cases h

/-! ## The check -/

/-- Both are integers, or the decimals have a remainder. -/
def Value.InReach (v divisor : Value) (x y : ℚ) : Prop :=
  (∃ n d, v = .int n ∧ divisor = .int d) ∨ |x| < 10 ^ Decimal.precision * y

/-- How a check decides whether a number that writes `x` is a multiple of a divisor that writes
`y`. -/
structure Check.DecidesMultiple (host : Host) (σ : Session) (ctx : Context) (c : Check Value)
    (v divisor : Value) (x y : ℚ) : Prop where
  accepts : v.InReach divisor x y → (∃ k : ℤ, x = k * y) →
    (c.run host ctx v).answer σ = .ok (.ready ⟨v, []⟩)
  reports : v.InReach divisor x y → (¬ ∃ k : ℤ, x = k * y) →
    (c.run host ctx v).answer σ =
      .ok (.ready ⟨v, [⟨[], .null, v, .check c, .notMultipleOf divisor⟩]⟩)
  raises : ¬ v.InReach divisor x y → (c.run host ctx v).answer σ = .error .invalidOperation

variable {host : Host} {ctx : Context} {σ τ : Session} {c : Check Value} {v divisor : Value}

theorem multipleOf_ok {rule : Rule Value}
    (h : (Construct.multipleOf divisor).answer τ = .ok rule) :
    rule = .multipleOf divisor ∧ divisor.isNumber = true ∧
      (Value.int 0).before? false divisor = some true := by
  unfold Construct.multipleOf at h
  split at h
  · rename_i hvalid
    simp only [Bool.and_eq_true, beq_iff_eq] at hvalid
    cases h
    exact ⟨rfl, hvalid⟩
  · cases h

/-- A rational number is a multiple of a positive one exactly if its size is. -/
theorem exists_multiple_abs {x y : ℚ} (hy : 0 < y) :
    (∃ k : ℤ, x = k * y) ↔ ∃ k : Nat, |x| = k * y := by
  constructor
  · rintro ⟨k, rfl⟩
    refine ⟨k.natAbs, ?_⟩
    rw [abs_mul, abs_of_pos hy, Nat.cast_natAbs, Int.cast_abs]
  · rintro ⟨k, hk⟩
    rcases abs_choice x with habs | habs
    · exact ⟨k, by rw [← habs, hk, Int.cast_natCast]⟩
    · refine ⟨-k, ?_⟩
      rw [Int.cast_neg, Int.cast_natCast, neg_mul, ← hk, habs, neg_neg]

/-- Integers are divided as integers. -/
theorem isMultiple_int (n d : ℤ) :
    ∃ b, isMultiple (.int n) (.int d) = .ok b ∧ (b = true ↔ ∃ k : ℤ, (n : ℚ) = k * d) := by
  refine ⟨n % d == 0, rfl, ?_⟩
  rw [beq_iff_eq, ← Int.dvd_iff_emod_eq_zero, dvd_iff_exists_eq_mul_left]
  norm_cast

/-- All other numbers are divided as decimals. -/
theorem isMultiple_decimal {negative : Bool} {n m : Nat} {e f : Int}
    (hints : ¬ ∃ i d, v = .int i ∧ divisor = .int d) (hv : v.isNumber = true)
    (hn : decimalOf v = some (.decimal negative n e))
    (hm : decimalOf divisor = some (.decimal false m f)) :
    isMultiple v divisor = match Decimal.isMultiple? ⟨n, e⟩ ⟨m, f⟩ with
      | some b => .ok b
      | none => .error .invalidOperation := by
  unfold isMultiple
  rw [hn, hm]
  cases v with
  | int i =>
    cases divisor with
    | int d => exact absurd ⟨i, d, rfl, rfl⟩ hints
    | _ => rfl
  | float _ => rfl
  | _ => cases hv

/-- The test decides divisibility of the written decimals up to 28 digits of the quotient, and has
no answer beyond. -/
theorem isMultiple_spec (hv : v.isNumber = true) (hd : divisor.isNumber = true)
    (hpositive : (Value.int 0).before? false divisor = some true) :
    ∃ x y, v.decimal? = some x ∧ divisor.decimal? = some y ∧ 0 < y ∧
      (v.InReach divisor x y →
        ∃ b, isMultiple v divisor = .ok b ∧ (b = true ↔ ∃ k : ℤ, x = k * y)) ∧
      (¬ v.InReach divisor x y → isMultiple v divisor = .error .invalidOperation) := by
  obtain ⟨negative, n, e, hn⟩ := decimalOf_number hv
  obtain ⟨m, f, hm, hmpos⟩ := decimalOf_positive hd hpositive
  have hy : 0 < decimal m f := Decimal.size_pos (x := ⟨m, f⟩) hmpos
  have hdivisor : divisor.decimal? = some (decimal m f) := by
    rw [Value.decimal?, hm]
    rfl
  obtain ⟨x, hx, habs⟩ : ∃ x, v.decimal? = some x ∧ |x| = decimal n e := by
    have hsize : 0 ≤ decimal n e := Decimal.size_nonneg ⟨n, e⟩
    rw [Value.decimal?, hn]
    cases negative with
    | false => exact ⟨_, rfl, abs_of_nonneg hsize⟩
    | true => exact ⟨_, rfl, (abs_neg _).trans (abs_of_nonneg hsize)⟩
  refine ⟨x, decimal m f, hx, hdivisor, hy, ?_⟩
  by_cases hints : ∃ i d, v = .int i ∧ divisor = .int d
  · obtain ⟨i, d, rfl, rfl⟩ := hints
    have hwhole := Option.some.inj ((decimal?_int i).symm.trans hx)
    have hpositive := Option.some.inj ((decimal?_int d).symm.trans hdivisor)
    rw [← hwhole, ← hpositive]
    exact ⟨fun _ => isMultiple_int i d, fun hreach => absurd (.inl ⟨i, d, rfl, rfl⟩) hreach⟩
  · obtain ⟨hnone, htrue⟩ := Decimal.isMultiple?_spec (x := ⟨n, e⟩) (y := ⟨m, f⟩) hmpos
    rw [Value.InReach, or_iff_right hints, exists_multiple_abs hy, habs,
      isMultiple_decimal hints hv hn hm]
    constructor
    · intro hreach
      cases hanswer : Decimal.isMultiple? ⟨n, e⟩ ⟨m, f⟩ with
      | none => exact absurd (hnone.1 hanswer) hreach.not_ge
      | some b =>
        refine ⟨b, rfl, ?_⟩
        rw [hanswer, Option.some.injEq] at htrue
        exact htrue.trans (and_iff_right hreach)
    · intro hout
      rw [hnone.2 (not_lt.1 hout)]

/-- The check says what the test of its divisor says. -/
theorem run_multipleOf (hrule : c.rule = .multipleOf divisor) :
    (c.run host ctx v).answer σ = (isMultiple v divisor).map fun b =>
      .ready (Result.of v (.check c) (if b then none else some (.notMultipleOf divisor))) := by
  rw [Check.run, hrule]
  show (do return .ready (Result.of v (.check c)
    (← Run.lift (Rule.verdict (.multipleOf divisor) v))) : Run (Outcome Result)).answer σ = _
  rw [Rule.verdict]
  cases isMultiple v divisor <;> rfl

/-- A check of multiples decides divisibility of the written decimals, as long as the quotient is
not too long. -/
theorem multiples_decided (hc : (Construct.multipleOf divisor).answer τ = .ok c.rule)
    (hv : v.isNumber = true) :
    ∃ x y, v.decimal? = some x ∧ divisor.decimal? = some y ∧ 0 < y ∧
      c.DecidesMultiple host σ ctx v divisor x y := by
  obtain ⟨hrule, hnumber, hpositive⟩ := multipleOf_ok hc
  obtain ⟨x, y, hx, hy, hypos, hin, hout⟩ := isMultiple_spec hv hnumber hpositive
  refine ⟨x, y, hx, hy, hypos, fun hreach hmultiple => ?_, fun hreach hmultiple => ?_,
    fun hreach => ?_⟩
  · obtain ⟨b, htest, hb⟩ := hin hreach
    rw [run_multipleOf hrule, htest, hb.2 hmultiple]
    rfl
  · obtain ⟨b, htest, hb⟩ := hin hreach
    rw [run_multipleOf hrule, htest, Bool.eq_false_iff.2 (mt hb.1 hmultiple)]
    rfl
  · rw [run_multipleOf hrule, hout hreach]
    rfl

namespace Tenths

/-- The float that is written 0.1. -/
def tenth : Value := .float (.finite false ⟨1019, by decide⟩ ⟨2702159776422298, by decide⟩)

/-- The float that is written 0.3. -/
def threeTenths : Value := .float (.finite false ⟨1021, by decide⟩ ⟨900719925474099, by decide⟩)

/-- The float that is written 1e+30. -/
def huge : Value := .float (.finite false ⟨1122, by decide⟩ ⟨2601827730230506, by decide⟩)

def check : Check Value := ⟨0, .multipleOf tenth, .null, .bool false⟩

theorem check_made : (Construct.multipleOf tenth).answer {} = .ok check.rule := by
  rw [Construct.multipleOf, if_pos (by decide +kernel)]
  rfl

theorem tenth_reading : decimalOf tenth = some (.decimal false 1 (-1)) := by decide +kernel

theorem threeTenths_reading : decimalOf threeTenths = some (.decimal false 3 (-1)) := by
  decide +kernel

theorem huge_reading : decimalOf huge = some (.decimal false 1 30) := by decide +kernel

end Tenths

open Tenths in
/-- Three tenths are a multiple of a tenth. -/
theorem multiples_decided_tenths :
    (check.run Stock.host {} threeTenths).answer {} = .ok (.ready ⟨threeTenths, []⟩) := by
  obtain ⟨x, y, hx, hy, -, hdecides⟩ : ∃ x y, threeTenths.decimal? = some x ∧
      tenth.decimal? = some y ∧ 0 < y ∧
        check.DecidesMultiple Stock.host {} {} threeTenths tenth x y :=
    multiples_decided check_made rfl
  rw [Value.decimal?, threeTenths_reading] at hx
  rw [Value.decimal?, tenth_reading] at hy
  cases hx
  cases hy
  exact hdecides.accepts (.inr (by norm_num [decimal, Decimal.precision]))
    ⟨3, by norm_num [decimal]⟩

open Tenths in
/-- 10³⁰ is a multiple of a tenth as well, but the check raises. -/
theorem multiple_out_of_reach :
    (∃ x y : ℚ, huge.decimal? = some x ∧ tenth.decimal? = some y ∧ ∃ k : ℤ, x = k * y) ∧
      (check.run Stock.host {} huge).answer {} = .error .invalidOperation := by
  constructor
  · refine ⟨10 ^ 30, 1 / 10, ?_, ?_, 10 ^ 31, by norm_num⟩
    · rw [Value.decimal?, huge_reading]
      norm_num [Reading.rational?, decimal]
    · rw [Value.decimal?, tenth_reading]
      norm_num [Reading.rational?, decimal]
  · have htest : isMultiple huge tenth = .error .invalidOperation := by
      have hints : ¬ ∃ i d, huge = .int i ∧ tenth = .int d := by
        rintro ⟨i, d, hi, -⟩
        cases hi
      rw [isMultiple_decimal hints rfl huge_reading tenth_reading]
      rfl
    rw [run_multipleOf rfl, htest]
    rfl

end Assay
