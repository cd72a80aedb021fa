import Assay.Proofs.Immediate
import Assay.Proofs.Soundness
import Assay.Proofs.Sources
import Assay.Proofs.StockFunctions
import Mathlib.Algebra.Order.Ring.Int
import Mathlib.Data.Nat.Cast.Order.Ring

/-!
# Bounds of days and moments

Days are ordered by their numbers, which tell them apart (`Date.ordinal_injective`). Beside a moment
a day stands for its midnight by the moment's clock, so a day or moment has a standing as against
another one (`Value.standing`) and bounds compare the standings (`comparands_ordered`), unless one
of two moments knows its offset and the other does not (`Value.clashes`). So a date schema with
bounds answers every input that does not clash with them, and raises where one does
(`Schema.KeepsDateBounds`, `date_bounds_kept`, `date_bound_clash`).
-/

namespace Assay

open Run

/-! ## Days by their numbers -/

namespace Date

variable {a b : Date}

theorem daysBeforeMonth_succ (year : Nat) {month : Nat} (h : 1 ≤ month) :
    daysBeforeMonth year (month + 1) = daysBeforeMonth year month + daysInMonth year month := by
  obtain ⟨m, rfl⟩ : ∃ m, month = m + 1 := ⟨month - 1, by omega⟩
  unfold daysBeforeMonth
  rw [show m + 1 + 1 - 1 = (m + 1 - 1) + 1 by omega, List.range_succ, List.foldl_append]
  rfl

/-- A later month begins after the end of an earlier one. -/
theorem daysBeforeMonth_le (year : Nat) {month : Nat} (h : 1 ≤ month) (k : Nat) :
    daysBeforeMonth year month + daysInMonth year month ≤
      daysBeforeMonth year (month + 1 + k) := by
  induction k with
  | zero => exact Nat.le_of_eq (daysBeforeMonth_succ year h).symm
  | succ k ih =>
    have hnext := daysBeforeMonth_succ year (show 1 ≤ month + 1 + k by omega)
    rw [show month + 1 + (k + 1) = month + 1 + k + 1 by omega, hnext]
    omega

/-- February has a 29th day in years divisible by four, save those divisible by 100 but not by
400. -/
theorem february_days (year : Nat) :
    daysInMonth year 2 + (if year % 100 = 0 then 1 else 0) =
      28 + (if year % 4 = 0 then 1 else 0) + if year % 400 = 0 then 1 else 0 := by
  show (if isLeapYear year then 29 else 28) + _ = _
  by_cases h4 : year % 4 = 0
  · by_cases h100 : year % 100 = 0
    · by_cases h400 : year % 400 = 0 <;> simp [isLeapYear, h4, h100, h400]
    · have h400 : year % 400 ≠ 0 := by omega
      simp [isLeapYear, h4, h100, h400]
  · have h100 : year % 100 ≠ 0 := by omega
    have h400 : year % 400 ≠ 0 := by omega
    simp [isLeapYear, h4, h100, h400]

/-- The next year begins after the end of December. -/
theorem daysBeforeYear_succ {year : Nat} (h : 1 ≤ year) :
    daysBeforeYear (year + 1) = daysBeforeYear year + daysBeforeMonth year 13 := by
  have hmonths : daysBeforeMonth year 13 = 337 + daysInMonth year 2 := by
    have hsum : daysBeforeMonth year 13 =
        0 + 31 + daysInMonth year 2 + 31 + 30 + 31 + 30 + 31 + 31 + 30 + 31 + 30 + 31 := rfl
    omega
  have hfebruary := february_days year
  obtain ⟨y, rfl⟩ : ∃ y, year = y + 1 := ⟨year - 1, by omega⟩
  have hquotient (k : Nat) : (y + 1) / k = y / k + if (y + 1) % k = 0 then 1 else 0 := by
    rw [Nat.succ_div]
    simp only [Nat.dvd_iff_mod_eq_zero]
  have h4 := hquotient 4
  have h100 := hquotient 100
  have h400 := hquotient 400
  rw [hmonths]
  unfold daysBeforeYear
  dsimp only
  rw [Nat.add_sub_cancel, Nat.add_sub_cancel]
  generalize daysInMonth (y + 1) 2 = days at *
  generalize (if (y + 1) % 4 = 0 then 1 else 0) = a at *
  generalize (if (y + 1) % 100 = 0 then 1 else 0) = b at *
  generalize (if (y + 1) % 400 = 0 then 1 else 0) = c at *
  have hcentury : (y + 1) / 100 ≤ (y + 1) / 4 ∧ y / 100 ≤ y / 4 := by omega
  omega

/-- A later year begins after the end of an earlier one. -/
theorem daysBeforeYear_le {year : Nat} (h : 1 ≤ year) (k : Nat) :
    daysBeforeYear year + daysBeforeMonth year 13 ≤ daysBeforeYear (year + 1 + k) := by
  induction k with
  | zero => exact Nat.le_of_eq (daysBeforeYear_succ h).symm
  | succ k ih =>
    have hnext := daysBeforeYear_succ (show 1 ≤ year + 1 + k by omega)
    rw [show year + 1 + (k + 1) = year + 1 + k + 1 by omega, hnext]
    omega

/-- The days of a month come before the next month. -/
theorem ordinal_le_month (d : Date) {month : Nat} (h : d.month < month) :
    d.ordinal ≤ daysBeforeYear d.year + daysBeforeMonth d.year month := by
  obtain ⟨-, ⟨hmonth, -⟩, -, hday⟩ := d.isDay
  have hnext := daysBeforeMonth_le d.year hmonth (month - (d.month + 1))
  rw [show d.month + 1 + (month - (d.month + 1)) = month by omega] at hnext
  unfold ordinal
  omega

/-- A day in an earlier year has a smaller number. -/
theorem ordinal_lt_of_year (h : a.year < b.year) : a.ordinal < b.ordinal := by
  obtain ⟨⟨hyear, -⟩, ⟨-, hmonth⟩, -⟩ := a.isDay
  obtain ⟨-, -, hday, -⟩ := b.isDay
  have hend := ordinal_le_month a (show a.month < 13 by omega)
  have hnext := daysBeforeYear_le hyear (b.year - (a.year + 1))
  rw [show a.year + 1 + (b.year - (a.year + 1)) = b.year by omega] at hnext
  have hb : daysBeforeYear b.year + 1 ≤ b.ordinal := by
    unfold ordinal
    omega
  omega

/-- A day in an earlier month of the year has a smaller number. -/
theorem ordinal_lt_of_month (hyear : a.year = b.year) (h : a.month < b.month) :
    a.ordinal < b.ordinal := by
  obtain ⟨-, -, hday, -⟩ := b.isDay
  have hend := ordinal_le_month a h
  rw [hyear] at hend
  unfold ordinal at hend ⊢
  omega

/-- Different days have different numbers. -/
theorem ordinal_injective (h : a.ordinal = b.ordinal) : a = b := by
  have hyear : a.year = b.year := by
    rcases Nat.lt_trichotomy a.year b.year with hlt | heq | hlt
    · exact absurd h (Nat.ne_of_lt (ordinal_lt_of_year hlt))
    · exact heq
    · exact absurd h (Nat.ne_of_gt (ordinal_lt_of_year hlt))
  have hmonth : a.month = b.month := by
    rcases Nat.lt_trichotomy a.month b.month with hlt | heq | hlt
    · exact absurd h (Nat.ne_of_lt (ordinal_lt_of_month hyear hlt))
    · exact heq
    · exact absurd h (Nat.ne_of_gt (ordinal_lt_of_month hyear.symm hlt))
  have hday : a.day = b.day := by
    unfold ordinal at h
    rw [hyear, hmonth] at h
    omega
  cases a
  cases b
  cases hyear
  cases hmonth
  cases hday
  rfl

end Date

/-! ## Standings -/

namespace Value

/-- The place of a day or moment in time as against another one, whose clock a day borrows. -/
def standing : Value → Value → Int
  | moment t, _ => t.instant
  | date d, moment t => (Moment.midnight d t.offset).instant
  | date d, _ => (Moment.midnight d none).instant
  | _, _ => 0

/-- Both are moments and only one of them knows its offset. -/
def clashes : Value → Value → Bool
  | moment t, moment u => !t.comparable u
  | _, _ => false

end Value

variable {v b w : Value}

theorem isDate_cases (h : Scalar.isDate v = true) : (∃ d, v = .date d) ∨ ∃ t, v = .moment t := by
  cases v with
  | date d => exact .inl ⟨d, rfl⟩
  | moment t => exact .inr ⟨t, rfl⟩
  | _ => cases h

/-- Moments of one kind are ordered by their instants. -/
theorem before?_moments {t u : Moment} (h : t.comparable u = true) (orEqual : Bool) :
    (Value.moment t).before? orEqual (.moment u) =
      some (decide (t.instant < u.instant) || (orEqual && t.instant == u.instant)) := by
  show (t.lt? u).map (fun before => before || (orEqual && t.eq u)) = _
  rw [Moment.lt?, if_pos h, Moment.eq, h, Bool.true_and]
  rfl

/-- Days are ordered like their midnights. -/
theorem before?_dates (c d : Date) (orEqual : Bool) :
    (Value.date c).before? orEqual (.date d) =
      some (decide ((Moment.midnight c none).instant < (Moment.midnight d none).instant) ||
        (orEqual && (Moment.midnight c none).instant == (Moment.midnight d none).instant)) := by
  have hinstant (d : Date) : (Moment.midnight d none).instant = d.ordinal * Moment.perDay := by
    simp [Moment.instant, Moment.localTime, Moment.midnight]
  have hpos : 0 < Moment.perDay := by decide
  have hlt : decide ((Moment.midnight c none).instant < (Moment.midnight d none).instant) =
      c.lt d := by
    rw [hinstant, hinstant, Date.lt, decide_eq_decide, mul_lt_mul_iff_left₀ hpos]
    exact Int.ofNat_lt
  have heq : ((Moment.midnight c none).instant == (Moment.midnight d none).instant) =
      (c == d) := by
    rw [hinstant, hinstant, Bool.eq_iff_iff, beq_iff_eq, beq_iff_eq,
      mul_left_inj' (ne_of_gt hpos), Nat.cast_inj]
    exact ⟨Date.ordinal_injective, fun h => h ▸ rfl⟩
  rw [hlt, heq]
  rfl

/-- What does not clash is compared, in both directions, by standings. -/
theorem comparands_ordered (hv : Scalar.isDate v = true) (hb : Scalar.isDate b = true)
    (h : v.clashes b = false) (orEqual : Bool) :
    (comparands v b).1.before? orEqual (comparands v b).2 =
        some (decide (v.standing b < b.standing v) ||
          (orEqual && v.standing b == b.standing v)) ∧
      (comparands v b).2.before? orEqual (comparands v b).1 =
        some (decide (b.standing v < v.standing b) ||
          (orEqual && b.standing v == v.standing b)) := by
  have hborrowed (d : Date) (t : Moment) : t.comparable (Moment.midnight d t.offset) = true ∧
      (Moment.midnight d t.offset).comparable t = true := by
    constructor <;> exact beq_self_eq_true _
  rcases isDate_cases hv with ⟨c, rfl⟩ | ⟨t, rfl⟩ <;>
    rcases isDate_cases hb with ⟨d, rfl⟩ | ⟨u, rfl⟩
  · exact ⟨before?_dates c d orEqual, before?_dates d c orEqual⟩
  · exact ⟨before?_moments (hborrowed c u).2 orEqual, before?_moments (hborrowed c u).1 orEqual⟩
  · exact ⟨before?_moments (hborrowed d t).1 orEqual, before?_moments (hborrowed d t).2 orEqual⟩
  · have hcomparable : t.comparable u = true := by simpa [Value.clashes] using h
    have hback : u.comparable t = true := by
      rw [Moment.comparable, beq_iff_eq] at hcomparable ⊢
      exact hcomparable.symm
    exact ⟨before?_moments hcomparable orEqual, before?_moments hback orEqual⟩

/-- What clashes is not compared at all. -/
theorem comparands_unordered (h : v.clashes b = true) (orEqual : Bool) :
    (comparands v b).1.before? orEqual (comparands v b).2 = none ∧
      (comparands v b).2.before? orEqual (comparands v b).1 = none := by
  have hmoments : ∃ t u, v = .moment t ∧ b = .moment u := by
    unfold Value.clashes at h
    split at h
    · exact ⟨_, _, rfl, rfl⟩
    · cases h
  obtain ⟨t, u, rfl, rfl⟩ := hmoments
  have hleft : t.comparable u = false := by simpa [Value.clashes] using h
  have hright : u.comparable t = false := by
    rw [Moment.comparable, beq_eq_false_iff_ne] at hleft ⊢
    exact hleft.symm
  constructor
  · show (t.lt? u).map _ = none
    rw [Moment.lt?, hleft]
    rfl
  · show (u.lt? t).map _ = none
    rw [Moment.lt?, hright]
    rfl

/-! ## Bounds -/

/-- The check is a lower or an upper bound, which is a day or a moment. -/
def Value.IsDateBound (c bound : Value) : Prop :=
  ∃ d, c = .check d ∧ Scalar.isDate bound = true ∧
    ∃ inclusive, d.rule = .greaterThan bound inclusive ∨ d.rule = .lessThan bound inclusive

/-- The value stands on the right side of the bound that a rule is. -/
def Rule.Within (v : Value) : Rule Value → Prop
  | .greaterThan b inclusive =>
    b.standing v < v.standing b ∨ inclusive.truthy = true ∧ b.standing v = v.standing b
  | .lessThan b inclusive =>
    v.standing b < b.standing v ∨ inclusive.truthy = true ∧ v.standing b = b.standing v
  | _ => True

/-- The check is a bound with the value on its right side. -/
def Value.Admits (c v : Value) : Prop := ∃ d, c = .check d ∧ d.rule.Within v

section

variable {host : Host} {ctx : Context} {σ : Session} {c : Check Value} {checks : List Value}

/-- Bounds find out about what does not clash with them on which side of them it stands. -/
theorem verdict_bound {rule : Rule Value} {inclusive : Value}
    (hrule : rule = .greaterThan b inclusive ∨ rule = .lessThan b inclusive)
    (hv : Scalar.isDate v = true) (hb : Scalar.isDate b = true) (h : v.clashes b = false) :
    ∃ detail, rule.verdict v = .ok detail ∧ (detail = none ↔ rule.Within v) := by
  obtain ⟨hleft, hright⟩ := comparands_ordered hv hb h inclusive.truthy
  have hside (x y : Int) : (decide (x < y) || (inclusive.truthy && x == y)) = true ↔
      x < y ∨ inclusive.truthy = true ∧ x = y := by simp
  rcases hrule with rfl | rfl
  · unfold Rule.verdict Rule.Within
    dsimp only
    rw [hright, ← hside]
    cases decide (b.standing v < v.standing b) || (inclusive.truthy && b.standing v == v.standing b)
    · exact ⟨_, rfl, iff_of_false nofun nofun⟩
    · exact ⟨none, rfl, iff_of_true rfl rfl⟩
  · unfold Rule.verdict Rule.Within
    dsimp only
    rw [hleft, ← hside]
    cases decide (v.standing b < b.standing v) || (inclusive.truthy && v.standing b == b.standing v)
    · exact ⟨_, rfl, iff_of_false nofun nofun⟩
    · exact ⟨none, rfl, iff_of_true rfl rfl⟩

/-- A bound that clashes with a value has no verdict on it. -/
theorem verdict_clash {rule : Rule Value} {inclusive : Value}
    (hrule : rule = .greaterThan b inclusive ∨ rule = .lessThan b inclusive)
    (h : v.clashes b = true) : rule.verdict v = .error .unsupported := by
  obtain ⟨hleft, hright⟩ := comparands_unordered h inclusive.truthy
  rcases hrule with rfl | rfl
  · unfold Rule.verdict
    dsimp only
    rw [hright]
  · unfold Rule.verdict
    dsimp only
    rw [hleft]

/-- A bound asks no function. -/
theorem run_bound {inclusive : Value}
    (hrule : c.rule = .greaterThan b inclusive ∨ c.rule = .lessThan b inclusive) :
    c.run host ctx v = do
      return .ready (Result.of v (.check c) (← Run.lift (c.rule.verdict v))) := by
  unfold Check.run
  rcases hrule with hrule | hrule <;> rw [hrule]

/-! ## Lists of bounds -/

/-- Issues of single checks. -/
def Result.FoundBy (checks : List Value) (r : Result) : Prop :=
  ∀ i ∈ r.issues, i.source ∈ checks ∧ i.detail.isFlat = true

/-- What a check of the list finds comes on top. -/
theorem Result.FoundBy.merge {r : Result} {detail : Option (Detail Value (Issue Value))} (h : r.FoundBy checks)
    (hc : w ∈ checks) (hflat : ∀ e, detail = some e → e.isFlat = true) :
    (r.merge (Result.of v w detail)).FoundBy checks := by
  intro i hi
  rcases List.mem_append.1 hi with hi | hi
  · exact h i hi
  · cases detail with
    | none => cases hi
    | some e =>
      rcases List.mem_singleton.1 hi with rfl
      exact ⟨hc, hflat e rfl⟩

theorem Result.merge_of_valid (r : Result) (detail : Option (Detail Value (Issue Value))) :
    (r.merge (Result.of v w detail)).valid = true ↔ r.valid = true ∧ detail = none := by
  rw [Result.valid_iff, Result.valid_iff]
  cases detail <;> simp [Result.merge, Result.of]

theorem Value.check_admits : (Value.check c).Admits v ↔ c.rule.Within v := by
  constructor
  · rintro ⟨d, hd, h⟩
    obtain rfl := Value.check.inj hd
    exact h
  · exact fun h => ⟨c, rfl, h⟩

/-- Bounds that do not clash with a value find out whether it is on the right side of all of
them. -/
theorem bounds_read (hv : Scalar.isDate v = true)
    (hchecks : ∀ c ∈ checks, ∃ b, c.IsDateBound b ∧ v.clashes b = false) (r : Result)
    (hr : r.value = v) :
    ∃ found, runChecksFrom host ctx checks r = pure (.ready found) ∧ found.value = v ∧
      (found.valid = true ↔ r.valid = true ∧ ∀ c ∈ checks, c.Admits v) ∧
      ∀ sources, (∀ c ∈ checks, c ∈ sources) → r.FoundBy sources → found.FoundBy sources := by
  induction checks generalizing r with
  | nil => exact ⟨r, rfl, hr, by simp, fun _ _ h => h⟩
  | cons c checks ih =>
    obtain ⟨⟨b, ⟨d, rfl, hb, inclusive, hrule⟩, hclash⟩, hrest⟩ := List.forall_mem_cons.1 hchecks
    obtain ⟨detail, hverdict, hwithin⟩ := verdict_bound hrule hv hb hclash
    have hrun : runCheck host ctx (.check d) v =
        pure (.ready (Result.of v (.check d) detail)) := by
      show d.run host ctx v = _
      rw [run_bound hrule, hverdict]
      rfl
    have hmerged : (r.merge (Result.of v (.check d) detail)).valid = true ↔
        r.valid = true ∧ (Value.check d).Admits v := by
      rw [Result.merge_of_valid, Value.check_admits, hwithin]
    have hfound (sources : List Value) (hd : .check d ∈ sources) (h : r.FoundBy sources) :
        (r.merge (Result.of v (.check d) detail)).FoundBy sources :=
      h.merge hd fun e he => Rule.verdict_flat (he ▸ hverdict)
    rw [runChecksFrom, hr, hrun, pure_bind]
    dsimp only
    split
    · -- A check that halts has found an issue, so the checks that it skips do not matter.
      rename_i hhalts
      refine ⟨_, rfl, rfl, hmerged.trans ?_, fun sources hin h =>
        hfound sources (hin _ List.mem_cons_self) h⟩
      have hissue : detail ≠ none := by
        rintro rfl
        simp [halts, Result.of, Result.valid] at hhalts
      have hout : ¬ (Value.check d).Admits v := fun h =>
        hissue (hwithin.2 (Value.check_admits.1 h))
      exact iff_of_false (fun h => hout h.2) fun h => hout (h.2 _ List.mem_cons_self)
    · obtain ⟨found, hread, hvalue, hvalid, hissues⟩ :=
        ih hrest (r.merge (Result.of v (.check d) detail)) rfl
      refine ⟨found, hread, hvalue, ?_, fun sources hin h =>
        hissues sources (fun e he => hin e (List.mem_cons_of_mem _ he))
          (hfound sources (hin _ List.mem_cons_self) h)⟩
      rw [hvalid, hmerged, List.forall_mem_cons, and_assoc]

/-- A bound that clashes with a value is a fault, unless another check halts before it. -/
theorem bounds_clash (hv : Scalar.isDate v = true) (hctx : ctx.abortEarly = false)
    (hchecks : ∀ c ∈ checks, (∃ b, c.IsDateBound b) ∧ c.aborts = false)
    (hclash : ∃ c ∈ checks, ∃ b, c.IsDateBound b ∧ v.clashes b = true) (r : Result)
    (hr : r.value = v) : runChecksFrom host ctx checks r = throw .unsupported := by
  induction checks generalizing r with
  | nil =>
    obtain ⟨c, hc, -⟩ := hclash
    cases hc
  | cons c checks ih =>
    obtain ⟨⟨⟨b, d, rfl, hb, inclusive, hrule⟩, habort⟩, hrest⟩ := List.forall_mem_cons.1 hchecks
    have hrun : runCheck host ctx (.check d) v = do
        return .ready (Result.of v (.check d) (← Run.lift (d.rule.verdict v))) := run_bound hrule
    rw [runChecksFrom, hr, hrun]
    cases hcase : v.clashes b with
    | true =>
      rw [verdict_clash hrule hcase]
      rfl
    | false =>
      obtain ⟨detail, hverdict, -⟩ := verdict_bound hrule hv hb hcase
      have hgoes : halts ctx (.check d) (Result.of v (.check d) detail) = false := by
        rw [halts, habort, hctx]
        simp
      rw [hverdict]
      show (if halts ctx (.check d) (Result.of v (.check d) detail) = true then _ else _) = _
      rw [hgoes, if_neg Bool.false_ne_true]
      refine ih hrest ?_ (r.merge (Result.of v (.check d) detail)) rfl
      obtain ⟨c, hc, b', hbound, hclash⟩ := hclash
      rcases List.mem_cons.1 hc with rfl | hc
      · -- The clash is with a later check.
        obtain ⟨e, he, -, inclusive', hrule'⟩ := hbound
        cases he
        have hsame : b' = b := by
          rcases hrule with hrule | hrule <;> rcases hrule' with hrule' | hrule' <;>
            rw [hrule] at hrule' <;> cases hrule' <;> rfl
        rw [hsame, hcase] at hclash
        cases hclash
      · exact ⟨c, hc, b', hbound, hclash⟩

/-! ## Words for single issues -/

/-- The operation gives a value, whatever the session. -/
def Run.Completes {α : Type} (x : Run α) : Prop :=
  x.Always (fun _ => True) fun e => ∃ a, e = .ok a

namespace Run.Completes

variable {α β : Type} {x : Run α}

theorem pure {a : α} : (Pure.pure a : Run α).Completes := Always.pure ⟨a, rfl⟩

theorem bind {f : α → Run β} (hx : x.Completes) (hf : ∀ a, (f a).Completes) :
    (x >>= f).Completes := by
  refine Always.bind hx (fun a _ => hf a) fun e he => ?_
  obtain ⟨a, ha⟩ := he
  cases ha

theorem map {f : α → β} (hx : x.Completes) : (f <$> x).Completes := by
  rw [map_eq_pure_bind]
  exact hx.bind fun _ => pure

end Run.Completes

namespace Resolution

/-- The provider answers every issue, if only to decline, whenever it is asked. -/
def AlwaysAnswers (host : Host) (provider : Value) : Prop :=
  ∀ i, (consult host provider i).Completes

theorem AlwaysAnswers.null : AlwaysAnswers host .null := fun _ => .pure

theorem firstOffer_completes {ps : List Value} (h : ∀ p ∈ ps, AlwaysAnswers host p)
    (i : Issue Value) : (firstOffer host i ps).Completes := by
  induction ps with
  | nil => exact .pure
  | cons p ps ih =>
    obtain ⟨hp, hps⟩ := List.forall_mem_cons.1 h
    refine (hp i).bind fun o => ?_
    cases o with
    | none => exact ih hps
    | some text => exact .pure

/-- Issues that nest no others get their words from their sources, the parse and the session. -/
theorem finalize_completes {config : Config} {is : List (Issue Value)}
    (hflat : ∀ i ∈ is, i.detail.isFlat = true)
    (hproviders : ∀ i ∈ is,
      ∀ p ∈ [sourceError i, ctx.error, config.customError, config.localeError],
        AlwaysAnswers host p) :
    (finalize host ctx config is).Completes := by
  induction is with
  | nil => exact .pure
  | cons i is ih =>
    obtain ⟨hi, his⟩ := List.forall_mem_cons.1 hflat
    obtain ⟨hpi, hpis⟩ := List.forall_mem_cons.1 hproviders
    obtain ⟨path, text, input, source, detail⟩ := i
    have hdetail : finalizeDetail host ctx config detail = pure detail := by
      cases detail <;> first | rfl | cases hi
    have hone : (finalizeOne host ctx config ⟨path, text, input, source, detail⟩).Completes := by
      unfold finalizeOne
      rw [hdetail]
      split
      · exact (firstOffer_completes hpi _).map.bind fun _ => .pure
      · exact .pure
    exact hone.bind fun j => (ih his hpis).bind fun js => .pure

end Resolution

/-- The message providers of the schema, of its checks, of the parse and of the session always
answer. -/
structure Schema.AlwaysWorded (host : Host) (σ : Session) (ctx : Context) (s : Schema Value) :
    Prop where
  schema : Resolution.AlwaysAnswers host s.error
  checks : ∀ c, .check c ∈ s.checks → Resolution.AlwaysAnswers host c.error
  parse : Resolution.AlwaysAnswers host ctx.error
  config : Resolution.AlwaysAnswers host σ.config.customError
  locale : Resolution.AlwaysAnswers host σ.config.localeError

variable {s : Schema Value}

/-- What the schema itself and its checks find is put into words. -/
theorem Schema.AlwaysWorded.conclude (hwords : s.AlwaysWorded host σ ctx)
    (hchecks : ∀ c ∈ s.checks, ∃ d, c = .check d) {r : Result}
    (hr : r.FoundBy (.schema s :: s.checks)) :
    ∃ p, (conclude host ctx r).answer σ = .ok p := by
  by_cases hvalid : r.valid = true
  · rw [conclude_valid hvalid]
    exact ⟨_, rfl⟩
  have hproviders : ∀ i ∈ r.issues, ∀ p ∈ [Resolution.sourceError i, ctx.error,
      σ.config.customError, σ.config.localeError], Resolution.AlwaysAnswers host p := by
    intro i hi p hp
    simp only [List.mem_cons, List.not_mem_nil, or_false] at hp
    rcases hp with rfl | rfl | rfl | rfl
    · unfold Resolution.sourceError
      rcases List.mem_cons.1 (hr i hi).1 with hsource | hsource
      · rw [hsource]
        exact hwords.schema
      · obtain ⟨d, hd⟩ := hchecks _ hsource
        rw [hd] at hsource ⊢
        exact hwords.checks d hsource
    · exact hwords.parse
    · exact hwords.config
    · exact hwords.locale
  have hflat : ∀ i ∈ r.issues, i.detail.isFlat = true := fun i hi => (hr i hi).2
  obtain ⟨-, js, hjs⟩ := Resolution.finalize_completes hflat hproviders σ trivial
  exact ⟨.rejected js, conclude_invalid hvalid hjs⟩

/-! ## Date schemas -/

/-- The day or moment that a date schema takes a value for. -/
def Value.readDate (coerce : Bool) (v : Value) : Option Value :=
  (if coerce then Scalar.coerceDate v else some v).filter Scalar.isDate

/-- A date schema goes on with what it takes a value for, or finds that it takes it for nothing. -/
theorem date_read (s : Schema Value) (coerce : Bool) (v : Value) :
    (∃ w, v.readDate coerce = some w ∧ Scalar.isDate w = true ∧
      Scalar.date s coerce v = .ok w) ∨
    (v.readDate coerce = none ∧ ∃ u, Scalar.date s coerce v = .wrongType s u "date") := by
  unfold Value.readDate Scalar.date
  cases (if coerce then Scalar.coerceDate v else some v) with
  | none => exact .inr ⟨rfl, v, rfl⟩
  | some w =>
    cases hdate : Scalar.isDate w with
    | true => exact .inl ⟨w, by simp [Option.filter, hdate], hdate, if_pos hdate⟩
    | false => exact .inr ⟨by simp [Option.filter, hdate], w, if_neg (by simp [hdate])⟩

/-- No bound of the schema clashes with what it takes the value for. -/
def Schema.Suits (s : Schema Value) (coerce : Bool) (v : Value) : Prop :=
  ∀ w, v.readDate coerce = some w → ∀ c ∈ s.checks, ∀ b, c.IsDateBound b → w.clashes b = false

/-- The check lets the value pass. -/
def Check.Passes (host : Host) (σ : Session) (ctx : Context) (c : Check Value) (v : Value) : Prop :=
  (c.run host ctx v).answer σ = .ok (.ready ⟨v, []⟩)

/-- How date schemas with bounds treat values: unless what a value is read as clashes with a bound,
the parse answers, and accepts what is on the right side of all bounds, where of two opposite bounds
exactly one is kept. A clash is a fault, if no check before it halts. -/
structure Schema.KeepsDateBounds (host : Host) (σ : Session) (ctx : Context) (s : Schema Value)
    (coerce : Bool) : Prop where
  answers : ∀ v, s.Suits coerce v → ∃ p, (safeParse host ctx s v).answer σ = .ok p
  accepts : ∀ v w, s.Suits coerce v → ((safeParse host ctx s v).answer σ = .ok (.accepted w) ↔
    v.readDate coerce = some w ∧ ∀ c ∈ s.checks, c.Admits w)
  raises : (∀ c ∈ s.checks, c.aborts = false) → ctx.abortEarly = false → ∀ v w,
    v.readDate coerce = some w → (∃ c ∈ s.checks, ∃ b, c.IsDateBound b ∧ w.clashes b = true) →
    (safeParse host ctx s v).answer σ = .error .unsupported
  opposites : ∀ v b, Scalar.isDate v = true → Scalar.isDate b = true → v.clashes b = false →
    ∀ c d : Check Value, ∀ inclusive : Bool, c.rule = .greaterThan b (.bool inclusive) →
      d.rule = .lessThan b (.bool !inclusive) →
      Xor (c.Passes host σ ctx v) (d.Passes host σ ctx v)

/-- A bound lets pass what stands on its right side. -/
theorem passes_bound {inclusive : Value}
    (hrule : c.rule = .greaterThan b inclusive ∨ c.rule = .lessThan b inclusive)
    (hv : Scalar.isDate v = true) (hb : Scalar.isDate b = true) (h : v.clashes b = false) :
    c.Passes host σ ctx v ↔ c.rule.Within v := by
  obtain ⟨detail, hverdict, hwithin⟩ := verdict_bound hrule hv hb h
  have hrun : (c.run host ctx v).answer σ = .ok (.ready (Result.of v (.check c) detail)) := by
    rw [run_bound hrule, hverdict]
    rfl
  rw [Check.Passes, hrun, ← hwithin]
  cases detail <;> simp [Result.of]

/-- Of two opposite bounds exactly one lets a value pass. -/
theorem passes_opposites {d : Check Value} {inclusive : Bool} (hv : Scalar.isDate v = true)
    (hb : Scalar.isDate b = true) (h : v.clashes b = false)
    (hc : c.rule = .greaterThan b (.bool inclusive))
    (hd : d.rule = .lessThan b (.bool !inclusive)) :
    Xor (c.Passes host σ ctx v) (d.Passes host σ ctx v) := by
  have hopposite : d.rule.Within v ↔ ¬ c.rule.Within v := by
    rw [hc, hd]
    cases inclusive <;> simp [Rule.Within, Value.truthy] <;> omega
  rw [passes_bound (.inl hc) hv hb h, passes_bound (.inr hd) hv hb h, hopposite]
  exact xor_not_right.2 Iff.rfl

section

variable {coerce : Value} (hform : s.form = .date coerce)
  (hown : σ.kinds.evaluator? s.kind = .ok (.builtin .evaluateNode))
  (hchecks : ∀ c ∈ s.checks, ∃ b, c.IsDateBound b)

include hform hown

/-- A date schema reads its input and runs its own checks. -/
theorem date_parse (v : Value) : (safeParse host ctx s v).answer σ =
    ((if (Scalar.date s coerce.truthy v).valid then
        runChecksFrom host ctx s.checks (Scalar.date s coerce.truthy v)
      else pure (.ready (Scalar.date s coerce.truthy v))) >>= fun o =>
        o.settle >>= conclude host ctx).answer σ := by
  have hread : ∀ recur acceptsAbsent, evaluateForm host ctx recur acceptsAbsent s v =
      pure (.ready (Scalar.date s coerce.truthy v)) := by
    intro recur acceptsAbsent
    rw [evaluateForm, hform]
  have hall : s.allChecks = s.checks := by
    rw [Schema.allChecks, hform]
    rfl
  rw [safeParse_read hown hread, runChecks, hall]

include hchecks

/-- What comes of a value that suits a date schema with bounds. -/
theorem date_comes (v : Value) (h : s.Suits coerce.truthy v) : ∃ found,
    (safeParse host ctx s v).answer σ = (conclude host ctx found).answer σ ∧
      found.FoundBy (.schema s :: s.checks) ∧ ∀ w, found = .ok w ↔
        v.readDate coerce.truthy = some w ∧ ∀ c ∈ s.checks, c.Admits w := by
  rw [date_parse hform hown]
  rcases date_read s coerce.truthy v with ⟨w, hw, hdate, hfound⟩ | ⟨hnone, u, hfound⟩
  · have happart : ∀ c ∈ s.checks, ∃ b, c.IsDateBound b ∧ w.clashes b = false := fun c hc =>
      (hchecks c hc).imp fun b hb => ⟨hb, h w hw c hc b hb⟩
    obtain ⟨found, hrun, hvalue, hvalid, hissues⟩ := bounds_read hdate happart (.ok w) rfl
    have hnone : (Result.ok w).FoundBy (.schema s :: s.checks) := List.forall_mem_nil _
    refine ⟨found, ?_, hissues _ (fun c hc => List.mem_cons_of_mem _ hc) hnone, fun x => ?_⟩
    · rw [hfound, if_pos (show (Result.ok w).valid = true from rfl), hrun]
      rfl
    · rw [hw, Option.some.injEq]
      constructor
      · rintro rfl
        obtain rfl : x = w := hvalue
        exact ⟨rfl, (hvalid.1 rfl).2⟩
      · rintro ⟨rfl, hbounds⟩
        rw [Result.eq_ok (hvalid.2 ⟨rfl, hbounds⟩), hvalue]
  · refine ⟨.wrongType s u "date", ?_, ?_, fun x => ?_⟩
    · rw [hfound, if_neg (by simp [Result.wrongType, Result.failed, Result.valid])]
      rfl
    · intro i hi
      rcases List.mem_singleton.1 hi with rfl
      exact ⟨List.mem_cons_self, rfl⟩
    · simp [hnone, Result.wrongType, Result.failed]

/-- Date schemas with bounds answer and compare, save for moments of which only one knows its
offset. -/
theorem date_bounds_kept (hwords : s.AlwaysWorded host σ ctx) :
    s.KeepsDateBounds host σ ctx coerce.truthy := by
  refine ⟨fun v h => ?_, fun v w h => ?_, fun habort hctx v w hw hclash => ?_,
    fun v b hv hb h c d inclusive hc hd => passes_opposites hv hb h hc hd⟩
  · obtain ⟨found, hanswer, hissues, -⟩ := date_comes hform hown hchecks v h
    rw [hanswer]
    refine hwords.conclude (fun c hc => ?_) hissues
    obtain ⟨b, d, hd, -⟩ := hchecks c hc
    exact ⟨d, hd⟩
  · obtain ⟨found, hanswer, -, haccepts⟩ := date_comes hform hown hchecks v h
    rw [hanswer, conclude_accepted, haccepts]
  · rcases date_read s coerce.truthy v with ⟨x, hx, hdate, hfound⟩ | ⟨hnone, -⟩
    · obtain rfl : x = w := Option.some.inj (hx.symm.trans hw)
      rw [date_parse hform hown, hfound, if_pos (show (Result.ok x).valid = true from rfl),
        bounds_clash hdate hctx (fun c hc => ⟨hchecks c hc, habort c hc⟩) hclash _ rfl]
      rfl
    · rw [hnone] at hw
      cases hw

end

end

/-! ## New year -/

namespace NewYear

/-- The first day of 2024. -/
def day : Date := ⟨2024, 1, 1, by decide⟩

/-- Its midnight by universal time. -/
def universal : Value := .moment (Moment.midnight day (some 0))

/-- Its midnight by a clock whose offset is not known. -/
def naive : Value := .moment (Moment.midnight day none)

/-- Not before a bound. -/
def since (bound : Value) : Check Value := ⟨1, .greaterThan bound (.bool true), .null, .bool false⟩

/-- Days and moments not before a bound. -/
def datesSince (bound : Value) : Schema Value :=
  ⟨0, .str "date", .date .null, [], [.check (since bound)], .null⟩

theorem isDateBound {bound : Value} (hbound : Scalar.isDate bound = true) :
    ∀ c ∈ (datesSince bound).checks, ∃ b, c.IsDateBound b :=
  List.forall_mem_singleton.2 ⟨bound, since bound, rfl, hbound, _, .inl rfl⟩

theorem worded (bound : Value) : (datesSince bound).AlwaysWorded Stock.host {} {} where
  schema := .null
  checks c hc := by
    obtain rfl : c = since bound := Value.check.inj (List.mem_singleton.1 hc)
    exact .null
  parse := .null
  config := .null
  locale := .null

end NewYear

open NewYear in
/-- A moment is compared with a day whether it knows its offset or not. -/
theorem date_bounds_kept_day : (safeParse Stock.host {} (datesSince (.date day)) naive).answer {} =
    .ok (.accepted naive) := by
  have hkept : (datesSince (.date day)).KeepsDateBounds Stock.host {} {} (Value.truthy .null) :=
    date_bounds_kept rfl rfl (isDateBound rfl) (worded _)
  refine (hkept.accepts naive naive ?_).2 ⟨rfl, ?_⟩
  · intro w hw c hc b hb
    obtain rfl : c = .check (since (.date day)) := List.mem_singleton.1 hc
    obtain ⟨d, hd, -, inclusive, hrule⟩ := hb
    obtain rfl := Value.check.inj hd
    rcases hrule with hrule | hrule <;> cases hrule
    cases hw
    rfl
  · exact List.forall_mem_singleton.2 ⟨_, rfl, .inr ⟨rfl, rfl⟩⟩

open NewYear in
/-- A moment that does not know its offset is not compared with one that does. -/
theorem date_bound_clash :
    (∀ c ∈ (datesSince universal).checks, ∃ b, c.IsDateBound b) ∧ Scalar.isDate naive = true ∧
      (safeParse Stock.host {} (datesSince universal) naive).answer {} = .error .unsupported :=
  ⟨isDateBound rfl, rfl, rfl⟩

end Assay
