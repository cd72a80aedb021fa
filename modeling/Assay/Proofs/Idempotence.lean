import Assay.Proofs.Rereading

/-!
# Parsing twice

A schema that only reads values, converts them, and puts them together anew, with checks that
replace nothing, accepts each of its outputs as it is (`meaning_again`): parsing twice is parsing
once (`parse_idempotent`).

Readonly schemas need care. What is put together anew does not care whether the input is frozen, but
a schema may give back the very value that it accepts (`Schema.GivesBack`); then the second parse
sees the frozen value where the first one saw the value itself, and listed values or checks may tell
these apart. So freezing must not matter to such a schema (`Schema.IgnoresFreezing`).
-/

namespace Assay

open Structure

variable {host : Host} {σ : Session} {ctx : Context} {thorough : Bool}

/-! ## Absent values -/

/-- The positions that need not be there are those that accept an absent value. -/
theorem requiredPositions_ok {I : Session → Prop} (hσ : I σ)
    {acceptsAbsent : Schema Value → Run Bool} {schemas : List (Schema Value)}
    (hfixed : ∀ t ∈ schemas, (acceptsAbsent t).Fixed I) {n : Nat}
    (h : (requiredPositions acceptsAbsent schemas.reverse).answer σ = .ok n) :
    ∀ t ∈ schemas.drop n, (acceptsAbsent t).answer σ = .ok true := by
  suffices hlast : ∃ absent before, schemas.reverse = absent ++ before ∧ before.length = n ∧
      ∀ t ∈ absent, (acceptsAbsent t).answer σ = .ok true by
    obtain ⟨absent, before, hsplit, rfl, habsent⟩ := hlast
    rw [List.reverse_eq_iff, List.reverse_append] at hsplit
    intro t ht
    rw [hsplit, List.drop_left' (List.length_reverse)] at ht
    exact habsent t (List.mem_reverse.1 ht)
  have hfixed : ∀ t ∈ schemas.reverse, (acceptsAbsent t).Fixed I := fun t ht =>
    hfixed t (List.mem_reverse.1 ht)
  generalize schemas.reverse = last at h hfixed
  induction last with
  | nil =>
    cases h
    exact ⟨[], [], rfl, rfl, fun t ht => nomatch ht⟩
  | cons t last ih =>
    obtain ⟨ht, hfixed⟩ := List.forall_mem_cons.1 hfixed
    have hbefore := Settled.requiredPositions_fixed last hfixed
    rw [requiredPositions, ht.bind_answer hσ fun b _ => by
      split
      · exact hbefore
      · exact .pure] at h
    obtain ⟨b, hb, h⟩ := bind_eq_ok.1 h
    cases b with
    | false =>
      cases h
      exact ⟨[], t :: last, rfl, rfl, fun u hu => nomatch hu⟩
    | true =>
      obtain ⟨absent, before, rfl, hlength, habsent⟩ := ih h hfixed
      exact ⟨t :: absent, before, rfl, hlength, List.forall_mem_cons.2 ⟨hb, habsent⟩⟩

/-! ## Schemas that read -/

/-- The form reads values, converts them, or puts them together anew: it makes nothing up. -/
def Form.isReading {V S : Type} : Form V S → Bool
  | .string _ | .format .. | .number _ | .integer .. | .boolean _ | .date _ | .null | .any
  | .unknown | .never | .literal _ | .enumeration .. | .object .. | .array _ | .tuple ..
  | .record .. | .map .. | .set _ | .optional _ | .nullable _ | .readonly _ | .lazy .. => true
  | _ => false

/-- The schema has a form that reads and is evaluated by it, and its checks replace nothing. The
keys of a shape are distinct, and keys that are listed for a record are well-formed. -/
structure Schema.IsReading (σ : Session) (s : Schema Value) : Prop where
  own : s.IsOwn σ
  form : s.form.isReading = true
  checks : ∀ c ∈ s.checks, c.replaces = false
  shape : ∀ shape policy catchall, s.form = .object shape policy catchall →
    (shape.Pairwise fun f g => f.1.isFound g.1 = false) ∧ ∀ f ∈ shape, f.1.wellFormed = true
  listed : ∀ k x allowed, s.form = .record k x → Construct.enumerated? k = some allowed →
    ∀ y ∈ allowed, y.wellFormed = true

theorem Schema.IsReading.keeps {s : Schema Value} (h : s.IsReading σ) :
    ∀ c ∈ s.allChecks, c.replaces = false := by
  unfold Schema.allChecks
  split
  · exact List.forall_mem_cons.2 ⟨rfl, h.checks⟩
  · exact h.checks

theorem Schema.IsReading.accepted {s : Schema Value} (hs : s.IsReading σ) {fuel : Nat}
    {v w : Value} (h : meaning host σ ctx thorough (fuel + 1) s v = .ok (.ok w)) :
    σ.kinds.evaluator? s.kind = .ok (.builtin .evaluateNode) ∧
      Meaning.form host σ ctx thorough (meaning host σ ctx thorough fuel) fuel s v
        = .ok (.ok w) ∧ ∀ c ∈ s.allChecks, Holds host σ c w := by
  obtain ⟨u, hu, hchecks⟩ := meaning_accepts hs.own h
  obtain ⟨rfl, hholds⟩ := (checksFrom_keeping hs.keeps).1 hchecks
  obtain ⟨fn, hfn, -⟩ := bind_eq_ok.1 h
  exact ⟨hs.own fn hfn ▸ hfn, hu, hholds⟩

theorem Schema.IsReading.accepts {s : Schema Value} (hs : s.IsReading σ) {fuel : Nat}
    {v w : Value} (hkind : σ.kinds.evaluator? s.kind = .ok (.builtin .evaluateNode))
    (hform : Meaning.form host σ ctx thorough (meaning host σ ctx thorough fuel) fuel s v
      = .ok (.ok w)) (hholds : ∀ c ∈ s.allChecks, Holds host σ c w) :
    meaning host σ ctx thorough (fuel + 1) s v = .ok (.ok w) := by
  have hchecks : Meaning.checks host σ ctx s (.ok w) = .ok (.ok w) :=
    checks_accepts.2 ⟨w, rfl, (checksFrom_keeping hs.keeps).2 ⟨rfl, hholds⟩⟩
  rw [meaning, hkind]
  exact bind_eq_ok.2 ⟨_, rfl, bind_eq_ok.2 ⟨_, hform, hchecks⟩⟩

/-! ## Freezing -/

section

variable (host : Host) (σ : Session)

/-- The schema passes on what another one makes of the value. -/
inductive Schema.Passes (s t : Schema Value) : Prop
  | optional : s.form = .optional t → Passes s t
  | nullable : s.form = .nullable t → Passes s t
  | lazy {getter name : Value} : s.form = .lazy getter name →
      (s.resolve host getter).answer σ = .ok t → Passes s t

/-- The form gives back the very value that it accepts. -/
def Form.givesBack {V S : Type} : Form V S → Bool
  | .any | .unknown | .literal _ | .enumeration _ none => true
  | _ => false

/-- The schema gives back the very value that it accepts, or passes on one that is given back. -/
inductive Schema.GivesBack : Schema Value → Prop
  | itself {s : Schema Value} : s.form.givesBack = true → GivesBack s
  | passing {s t : Schema Value} : s.Passes host σ t → GivesBack t → GivesBack s

/-- The value is among those that the form lists, if it lists any. -/
def Form.lists {S : Type} : Form Value S → Value → Bool
  | .literal values, v => values.any v.same
  | .enumeration entries none, v => (entries.map (·.2)).any v.same
  | _, _ => true

/-- Neither the listed values nor the checks are against the value. -/
def Schema.Takes (s : Schema Value) (v : Value) : Prop :=
  s.form.lists v = true ∧ ∀ c ∈ s.allChecks, Holds host σ c v

/-- Wherever the value is given back, freezing it does not matter. -/
def Schema.IgnoresFreezing (s : Schema Value) : Prop :=
  ∀ t, Relation.ReflTransGen (Schema.Passes host σ) s t → t.GivesBack host σ →
    ∀ v, t.Takes host σ v → t.Takes host σ v.freeze

end

theorem Schema.Passes.lists {s t : Schema Value} (h : s.Passes host σ t) (v : Value) :
    s.form.lists v = true := by
  cases h with
  | optional hform | nullable hform | lazy hform _ =>
    rw [hform]
    rfl

theorem Schema.Passes.reaches {s t u : Schema Value} (h : t.Passes host σ u)
    (ht : s.Reaches host σ t) : s.Reaches host σ u := by
  cases h with
  | optional hform | nullable hform => exact .part ht (by simp [hform, Form.parts])
  | lazy hform hu => exact .lazily ht hform hu

theorem Schema.IgnoresFreezing.passed {s t : Schema Value} (h : s.IgnoresFreezing host σ)
    (ht : s.Passes host σ t) : t.IgnoresFreezing host σ :=
  fun u hu => h u (.head ht hu)

/-- The frozen output is accepted, with the output itself or, where values are given back, with
the frozen one. -/
def AcceptsFrozen (host : Host) (σ : Session)
    (recur : Schema Value → Value → Except Fault Result) (t : Schema Value) (v : Value) : Prop :=
  ∀ w, recur t v = .ok (.ok w) → ∃ x, recur t w.freeze = .ok (.ok x) ∧
    (x = w ∨ x = w.freeze ∧ t.GivesBack host σ)

/-! ## Forms -/

section

-- How a value is read against a nested schema: what it makes of a value it accepts again.
variable {recur : Schema Value → Value → Except Fault Result} {fuel : Nat}
  {s : Schema Value} {v w : Value}

/-- Each form that reads accepts its outputs again. -/
theorem form_again (hs : s.IsReading σ) (hv : v.wellFormed = true)
    (hparts : ∀ t ∈ s.form.parts, ∀ x, x.wellFormed = true → Meaning.AcceptsAgain recur t x)
    (hlazy : ∀ getter name t, s.form = .lazy getter name →
      (s.resolve host getter).answer σ = .ok t → Meaning.AcceptsAgain recur t v)
    (hfrozen : ∀ t, s.form = .readonly t → AcceptsFrozen host σ recur t v)
    (habsent : ∀ items rest n, s.form = .tuple items rest →
      (requiredPositions (Schema.acceptsAbsent host fuel) items.reverse).answer σ = .ok n →
      ∀ t ∈ items.drop n, ∀ x, recur t .missing = .ok (.ok x) → x = .missing)
    (h : Meaning.form host σ ctx thorough recur fuel s v = .ok (.ok w)) :
    Meaning.form host σ ctx thorough recur fuel s w = .ok (.ok w) := by
  have hreading := hs.form
  cases hform : s.form <;> simp only [Meaning.form, hform] at h ⊢ <;>
    simp only [hform, Form.parts] at hparts hreading
  case string coerce => exact congrArg _ (string_again (Except.ok.inj h))
  case format f coerce abort => exact congrArg _ (string_again (Except.ok.inj h))
  case number coerce => exact congrArg _ (number_again (Except.ok.inj h))
  case integer coerce abort => exact congrArg _ (number_again (Except.ok.inj h))
  case boolean coerce => exact congrArg _ (boolean_again (Except.ok.inj h))
  case date coerce => exact congrArg _ (date_again (Except.ok.inj h))
  case null =>
    obtain ⟨htest, rfl⟩ := require_ok.1 (Except.ok.inj h)
    exact h
  case never => cases h
  case literal values =>
    obtain ⟨-, rfl⟩ := literal_ok (Except.ok.inj h)
    exact h
  case enumeration entries cls => exact congrArg _ (enumeration_again (Except.ok.inj h))
  case object shape policy catchall =>
    obtain ⟨hshape, hkeys⟩ := hs.shape _ _ _ hform
    exact Meaning.object_again h hshape hkeys hv hparts
  case array element =>
    refine Meaning.array_again h fun vs hvs x hx => ?_
    exact hparts element (List.mem_singleton_self _) x (Value.wellFormed_items hv hvs x hx)
  case tuple items rest =>
    refine Meaning.tuple_again h (fun vs hvs p hp => ?_) (habsent items rest · hform)
    refine hparts p.1 (tupleItems_parts rest items vs p hp) p.2 ?_
    exact Meaning.tupleItems_formed (Value.wellFormed_items hv hvs) p hp
  case record k x =>
    have hentries {data : Entries} (hdata : v.entries? = some data) :=
      Value.wellFormed_entries hv hdata
    refine Meaning.record_again h (fun data hdata e he => ?_) (fun data hdata e he => ?_) ?_
      (hs.listed k x · hform)
    · exact hparts k (List.mem_cons_self ..) e.1 (hentries hdata e he).1
    · exact hparts x (List.mem_cons_of_mem _ (List.mem_singleton_self _)) e.2 (hentries hdata e he).2
    · exact hparts x (List.mem_cons_of_mem _ (List.mem_singleton_self _)) .missing rfl
  case map k x =>
    have hentries {data : Entries} (hdata : v.entries? = some data) :=
      Value.wellFormed_entries hv hdata
    refine Meaning.map_again h (fun data hdata e he => ?_) fun data hdata e he => ?_
    · exact hparts k (List.mem_cons_self ..) e.1 (hentries hdata e he).1
    · exact hparts x (List.mem_cons_of_mem _ (List.mem_singleton_self _)) e.2 (hentries hdata e he).2
  case set element =>
    refine Meaning.set_again h fun vs hvs x hx => ?_
    exact hparts element (List.mem_singleton_self _) x (Value.wellFormed_members hvs hv x hx)
  case optional t =>
    split at h
    · obtain rfl : Value.missing = w := congrArg Result.value (Except.ok.inj h)
      rfl
    · have hagain := hparts t (List.mem_singleton_self _) v hv w h
      cases w <;> first | rfl | exact hagain
  case nullable t =>
    split at h
    · obtain rfl : Value.null = w := congrArg Result.value (Except.ok.inj h)
      rfl
    · have hagain := hparts t (List.mem_singleton_self _) v hv w h
      cases w <;> first | rfl | exact hagain
  case readonly t =>
    obtain ⟨x, hx, rfl⟩ := Meaning.readonly_accepts.1 h
    -- The inner schema gets the frozen value; what it makes of it is the same once frozen.
    obtain ⟨y, hy, rfl | ⟨rfl, -⟩⟩ := hfrozen t hform x hx
    · exact Meaning.readonly_accepts.2 ⟨y, hy, rfl⟩
    · exact Meaning.readonly_accepts.2 ⟨x.freeze, hy, (Value.freeze_freeze x).symm⟩
  case lazy getter name =>
    obtain ⟨t, ht, h⟩ := bind_eq_ok.1 h
    exact bind_eq_ok.2 ⟨t, ht, hlazy getter name t hform ht w h⟩
  all_goals cases hreading

theorem form_givesBack (hback : s.form.givesBack = true) :
    Meaning.form host σ ctx thorough recur fuel s v = .ok (.ok w) ↔
      w = v ∧ s.form.lists v = true := by
  cases hform : s.form <;> simp only [hform, Form.givesBack, Bool.false_eq_true] at hback <;>
    simp only [Meaning.form, hform, Form.lists]
  case any => simp [eq_comm]
  case unknown => simp [eq_comm]
  case literal values =>
    constructor
    · intro h
      obtain ⟨hlisted, rfl⟩ := literal_ok (Except.ok.inj h)
      exact ⟨rfl, hlisted⟩
    · rintro ⟨rfl, hlisted⟩
      simp [Scalar.literal, hlisted]
  case enumeration entries cls =>
    cases cls with
    | some c => cases hback
    | none =>
      constructor
      · intro h
        obtain ⟨hlisted, rfl⟩ := listed_ok (Except.ok.inj h)
        exact ⟨rfl, hlisted⟩
      · rintro ⟨rfl, hlisted⟩
        simp only [Scalar.enumeration, hlisted, if_true]

/-- A form that neither gives values back nor passes them on reads a frozen output like the output
itself. -/
theorem form_freeze (hs : s.IsReading σ) (hback : s.form.givesBack = false)
    (hpasses : ∀ t, ¬ s.Passes host σ t)
    (h : Meaning.form host σ ctx thorough recur fuel s w = .ok (.ok w)) :
    Meaning.form host σ ctx thorough recur fuel s w.freeze = .ok (.ok w) := by
  have hreading := hs.form
  cases hform : s.form <;> simp only [hform, Form.givesBack, Bool.true_eq_false] at hback <;>
    simp only [Meaning.form, hform] at h ⊢
  case string coerce =>
    obtain ⟨t, rfl⟩ := string_ok (Except.ok.inj h)
    exact h
  case format f coerce abort =>
    obtain ⟨t, rfl⟩ := string_ok (Except.ok.inj h)
    exact h
  case number coerce =>
    have hnumber := number_ok (Except.ok.inj h)
    cases w <;> first | exact h | cases hnumber
  case integer coerce abort =>
    have hnumber := number_ok (Except.ok.inj h)
    cases w <;> first | exact h | cases hnumber
  case boolean coerce =>
    obtain ⟨b, rfl⟩ := boolean_ok (Except.ok.inj h)
    exact h
  case date coerce =>
    rcases date_ok (Except.ok.inj h) with ⟨d, rfl⟩ | ⟨t, rfl⟩ <;> exact h
  case null =>
    obtain ⟨htest, -⟩ := require_ok.1 (Except.ok.inj h)
    cases w <;> first | exact h | cases htest
  case never => cases h
  case enumeration entries cls =>
    cases cls with
    | none => cases hback
    | some c =>
      obtain ⟨d, name, x, hd, rfl⟩ := member_ok (Except.ok.inj h)
      exact h
  case object shape policy catchall =>
    rw [Meaning.object_accepts, Value.entries?_freeze, ← Meaning.object_accepts]
    exact h
  case array element =>
    rw [Meaning.array_accepts, Value.items?_freeze, ← Meaning.array_accepts]
    exact h
  case tuple items rest =>
    rw [Meaning.tuple_accepts, Value.items?_freeze, ← Meaning.tuple_accepts]
    exact h
  case record k x =>
    cases hk : Construct.enumerated? k with
    | none =>
      rw [Meaning.record_accepts hk, Value.entries?_freeze, ← Meaning.record_accepts hk]
      exact h
    | some allowed =>
      rw [Meaning.enumeratedRecord_accepts hk, Value.entries?_freeze,
        ← Meaning.enumeratedRecord_accepts hk]
      exact h
  case map k x =>
    rw [Meaning.map_accepts, Value.entries?_freeze, ← Meaning.map_accepts]
    exact h
  case set element =>
    obtain ⟨vs, ws, hvs, hset⟩ := Meaning.set_accepts.1 h
    refine Meaning.set_accepts.2 ⟨vs, ws, .inr ?_, hset⟩
    rcases hvs with rfl | rfl <;> rfl
  case optional t => exact absurd (.optional hform) (hpasses t)
  case nullable t => exact absurd (.nullable hform) (hpasses t)
  case readonly t =>
    obtain ⟨x, -, hx⟩ := Meaning.readonly_accepts.1 h
    rw [hx, Value.freeze_freeze, ← hx]
    exact h
  case lazy getter name =>
    obtain ⟨t, ht, -⟩ := bind_eq_ok.1 h
    exact absurd (.lazy hform ht) (hpasses t)
  all_goals simp [hform, Form.isReading] at hreading

/-- A form that passes on what another schema makes of a value does so with a frozen one. -/
theorem form_passes {t : Schema Value} (ht : s.Passes host σ t)
    (hfrozen : AcceptsFrozen host σ recur t v)
    (h : Meaning.form host σ ctx thorough recur fuel s v = .ok (.ok w)) :
    ∃ x, Meaning.form host σ ctx thorough recur fuel s w.freeze = .ok (.ok x) ∧
      (x = w ∨ x = w.freeze ∧ t.GivesBack host σ) := by
  cases ht with
  | optional hform | nullable hform =>
    simp only [Meaning.form, hform] at h ⊢
    split at h
    · obtain rfl := congrArg Result.value (Except.ok.inj h)
      exact ⟨_, rfl, .inl rfl⟩
    · obtain ⟨x, hx, hor⟩ := hfrozen w h
      cases w <;> first | exact ⟨x, hx, hor⟩ | exact ⟨_, rfl, .inl rfl⟩
  | lazy hform ht =>
    simp only [Meaning.form, hform] at h ⊢
    obtain ⟨t', ht', h⟩ := bind_eq_ok.1 h
    obtain rfl := Except.ok.inj (ht.symm.trans ht')
    obtain ⟨x, hx, hor⟩ := hfrozen w h
    exact ⟨x, bind_eq_ok.2 ⟨t, ht, hx⟩, hor⟩

/-- Each form that reads accepts its frozen outputs where freezing does not matter. -/
theorem form_frozen (hs : s.IsReading σ) (hignores : s.IgnoresFreezing host σ)
    (hpassed : ∀ t, s.Passes host σ t → AcceptsFrozen host σ recur t v)
    (h : Meaning.form host σ ctx thorough recur fuel s v = .ok (.ok w))
    (hagain : Meaning.form host σ ctx thorough recur fuel s w = .ok (.ok w))
    (hholds : ∀ c ∈ s.allChecks, Holds host σ c w) :
    ∃ x, Meaning.form host σ ctx thorough recur fuel s w.freeze = .ok (.ok x) ∧
      (∀ c ∈ s.allChecks, Holds host σ c x) ∧ (x = w ∨ x = w.freeze ∧ s.GivesBack host σ) := by
  by_cases hback : s.form.givesBack = true
  · -- The value comes back frozen, and its schema has nothing against that.
    obtain ⟨rfl, hlists⟩ := (form_givesBack hback).1 h
    obtain ⟨hfrozen, hchecks⟩ := hignores s .refl (.itself hback) w ⟨hlists, hholds⟩
    exact ⟨w.freeze, (form_givesBack hback).2 ⟨rfl, hfrozen⟩, hchecks, .inr ⟨rfl, .itself hback⟩⟩
  by_cases hpasses : ∃ t, s.Passes host σ t
  · obtain ⟨t, ht⟩ := hpasses
    obtain ⟨x, hx, rfl | ⟨rfl, htback⟩⟩ := form_passes ht (hpassed t ht) h
    · exact ⟨x, hx, hholds, .inl rfl⟩
    · -- The checks see the frozen value that the inner schema gives back.
      have hsback := Schema.GivesBack.passing ht htback
      have htakes := hignores s .refl hsback w ⟨ht.lists w, hholds⟩
      exact ⟨w.freeze, hx, htakes.2, .inr ⟨rfl, hsback⟩⟩
  · refine ⟨w, form_freeze hs (Bool.eq_false_iff.2 hback) ?_ hagain, hholds, .inl rfl⟩
    exact fun t ht => hpasses ⟨t, ht⟩

end

/-! ## Schemas -/

section

variable {s : Schema Value}

/-- What a schema reaches reads, and where a readonly schema freezes values that are given back,
that does not matter. -/
structure Schema.IsRepeatable (host : Host) (σ : Session) (s : Schema Value) : Prop where
  reading : ∀ t, s.Reaches host σ t → t.IsReading σ
  frozen : ∀ t inner, s.Reaches host σ t → t.form = .readonly inner →
    inner.IgnoresFreezing host σ

variable (hpure : s.IsPure host σ) (hs : s.IsRepeatable host σ)

include hpure hs

/-- A schema that need not be there makes nothing of an absent value. -/
theorem absent_of_acceptsAbsent {fuel fuel' : Nat} {t : Schema Value} (ht : s.Reaches host σ t)
    (habsent : (t.acceptsAbsent host fuel').answer σ = .ok true) {w : Value}
    (h : meaning host σ ctx thorough fuel t .missing = .ok (.ok w)) : w = .missing := by
  have settled := hpure.settled
  -- Along the way that the question takes, each schema gives the absent value back.
  induction fuel' generalizing fuel t w with
  | zero => cases habsent
  | succ fuel' ih =>
    cases fuel with
    | zero => cases h
    | succ fuel =>
      obtain ⟨-, h, -⟩ := (hs.reading t ht).accepted h
      have hreading := (hs.reading t ht).form
      have hparts {u : Schema Value} (hu : u ∈ t.form.parts) : s.Reaches host σ u := .part ht hu
      unfold Schema.acceptsAbsent at habsent
      cases hform : t.form <;> simp only [hform] at habsent hreading <;>
        simp only [Meaning.form, hform] at h
      case optional u => exact (congrArg Result.value (Except.ok.inj h)).symm
      case nullable u => exact ih (hparts (by simp [hform, Form.parts])) habsent h
      case readonly u =>
        obtain ⟨x, hx, rfl⟩ := Meaning.readonly_accepts.1 h
        obtain rfl := ih (hparts (by simp [hform, Form.parts])) habsent hx
        rfl
      case lazy getter name =>
        obtain ⟨u, hu, h⟩ := bind_eq_ok.1 h
        rw [((settled.lazies t ht getter name hform).bind_answer settled.here fun u hu =>
          settled.acceptsAbsent_fixed fuel' u (.lazily ht hform hu)), hu] at habsent
        exact ih (.lazily ht hform hu) habsent h
      all_goals first | (cases habsent; done) | cases hreading

/-- A schema accepts its outputs again, and frozen ones where freezing does not matter. -/
theorem meaning_again (fuel : Nat) (t : Schema Value) (ht : s.Reaches host σ t) (v : Value)
    (hv : v.wellFormed = true) :
    Meaning.AcceptsAgain (meaning host σ ctx thorough fuel) t v ∧
      (t.IgnoresFreezing host σ →
        AcceptsFrozen host σ (meaning host σ ctx thorough fuel) t v) := by
  -- Both at once: a readonly schema accepts its outputs again if its inner one accepts them frozen.
  induction fuel generalizing t v with
  | zero => exact ⟨nofun, nofun⟩
  | succ fuel ih =>
    have hreading := hs.reading t ht
    have hpart {u : Schema Value} (hu : u ∈ t.form.parts) := ih u (.part ht hu)
    have habsent {items : List (Schema Value)} {rest : Option (Schema Value)} {n : Nat}
        (hform : t.form = .tuple items rest)
        (hn : (requiredPositions (Schema.acceptsAbsent host fuel) items.reverse).answer σ = .ok n) :
        ∀ u ∈ items.drop n, ∀ x,
          meaning host σ ctx thorough fuel u .missing = .ok (.ok x) → x = .missing := by
      have hreaches : ∀ u ∈ items, s.Reaches host σ u := fun u hu =>
        .part ht (by rw [hform]; exact List.mem_append_left _ hu)
      intro u hu x hx
      have haccepts := requiredPositions_ok hpure.settled.here
        (fun y hy => hpure.settled.acceptsAbsent_fixed fuel y (hreaches y hy)) hn u hu
      exact absent_of_acceptsAbsent hpure hs (hreaches u (List.mem_of_mem_drop hu)) haccepts hx
    have hform {w : Value} (h : Meaning.form host σ ctx thorough
        (meaning host σ ctx thorough fuel) fuel t v = .ok (.ok w)) :=
      form_again hreading hv (fun u hu x hx => (hpart hu x hx).1)
        (fun getter name u hform hu => (ih u (.lazily ht hform hu) v hv).1)
        (fun u hform => (hpart (by simp [hform, Form.parts]) v hv).2 (hs.frozen t u ht hform))
        (fun items rest n => habsent) h
    constructor
    · intro w h
      obtain ⟨hkind, hw, hholds⟩ := hreading.accepted h
      exact hreading.accepts hkind (hform hw) hholds
    · intro hignores w h
      obtain ⟨hkind, hw, hholds⟩ := hreading.accepted h
      obtain ⟨x, hx, hxholds, hor⟩ := form_frozen hreading hignores
        (fun u hu => (ih u (hu.reaches ht) v hv).2 (hignores.passed hu)) hw (hform hw) hholds
      exact ⟨x, hreading.accepts hkind hx hxholds, hor⟩

omit hs in
theorem parse_fixed (v : Value) :
    (parse host (ctx.mayWait false) s v).Fixed (σ.Like host s) := by
  have hgives := safeParse_gives hpure.settled (hpure.words_fixed ctx) .self v
  refine hgives.fixed.bind fun p => ?_
  cases p with
  | accepted w => exact .pure
  | rejected issues => exact .throw

omit hs in
/-- A parse answers with what the schema accepts the value with. -/
theorem parse_accepts {v w : Value} : (parse host (ctx.mayWait false) s v).answer σ = .ok w ↔
    meaning host σ ctx false s.budget s v = .ok (.ok w) := by
  have hgives := safeParse_gives hpure.settled (hpure.words_fixed ctx) .self v
  rw [parse, hgives.fixed.bind_answer hpure.settled.here fun p _ => by
      cases p with
      | accepted w => exact .pure
      | rejected issues => exact .throw,
    hgives.answer hpure.settled.here, bind_eq_ok, ← parsed_accepted]
  constructor
  · rintro ⟨p, hp, h⟩
    cases p with
    | accepted x =>
      obtain rfl : x = w := Except.ok.inj h
      exact hp
    | rejected issues => cases h
  · exact fun h => ⟨.accepted w, h, rfl⟩

/-- Parsing twice is parsing once: what a parse answers is parsed to itself. -/
theorem parse_idempotent {v : Value} (hv : v.wellFormed = true) :
    (parse host (ctx.mayWait false) s v >>= parse host (ctx.mayWait false) s).answer σ =
      (parse host (ctx.mayWait false) s v).answer σ := by
  rw [(parse_fixed hpure v).bind_answer hpure.settled.here fun w _ => parse_fixed hpure w]
  cases hparse : (parse host (ctx.mayWait false) s v).answer σ with
  | error e => rfl
  | ok w =>
    have hagain : Meaning.AcceptsAgain (meaning host σ ctx false s.budget) s v :=
      (meaning_again hpure hs s.budget s .self v hv).1
    exact (parse_accepts hpure).2 (hagain w ((parse_accepts hpure).1 hparse))

end

/-! ## Frozen values of any kind -/

namespace Freezing

open Stock (hostThat)

/-- Anything, without checks. -/
def anything : Schema Value := ⟨2, .str "any", .any, [], [], .null⟩

def frozen : Schema Value := ⟨1, .str "readonly", .readonly anything, [], [], .null⟩

/-- Objects with a frozen value of any kind. -/
def holder : Schema Value :=
  ⟨0, .str "object", .object [(.str "raw", frozen)] .strip none, [], [], .null⟩

/-- A list to be frozen, and a key to be dropped. -/
def value : Value := .dict [(.str "raw", .list [.int 1]), (.str "x", .null)]

theorem reached_cases {t : Schema Value} (h : holder.Reaches (hostThat false) {} t) :
    t = holder ∨ t = frozen ∨ t = anything := by
  induction h with
  | self => exact .inl rfl
  | @part t u _ hu ih =>
    rcases ih with rfl | rfl | rfl
    · exact .inr (.inl (List.mem_singleton.1 hu))
    · exact .inr (.inr (List.mem_singleton.1 hu))
    · cases hu
  | lazily _ hform _ ih => rcases ih with rfl | rfl | rfl <;> cases hform

theorem holder_isPure : holder.IsPure (hostThat false) {} := by
  refine Stock.isPure_of_silent fun t ht => ?_
  rcases reached_cases ht with rfl | rfl | rfl <;> exact ⟨rfl, fun fn hfn => by cases hfn; rfl⟩

theorem anything_ignores_freezing : anything.IgnoresFreezing (hostThat false) {} := by
  intro t ht _ v _
  cases ht.cases_head with
  | inl h => exact h ▸ ⟨rfl, fun c hc => nomatch hc⟩
  | inr h =>
    obtain ⟨u, hu, -⟩ := h
    cases hu with
    | optional hform | nullable hform | lazy hform _ => cases hform

theorem holder_isRepeatable : holder.IsRepeatable (hostThat false) {} where
  reading t ht := by
    have hown {t : Schema Value} {tag : String} (hkind : t.kind = .str tag)
        (hkinds : ({} : Session).kinds.evaluator? (.str tag) = .ok (.builtin .evaluateNode)) :
        t.IsOwn {} := fun fn hfn => by
      rw [hkind, hkinds] at hfn
      exact (Except.ok.inj hfn).symm
    rcases reached_cases ht with rfl | rfl | rfl
    · refine ⟨hown rfl rfl, rfl, nofun, ?_, nofun⟩
      rintro _ _ _ ⟨⟩
      exact ⟨List.pairwise_singleton _ _, List.forall_mem_singleton.2 rfl⟩
    · exact ⟨hown rfl rfl, rfl, nofun, nofun, nofun⟩
    · exact ⟨hown rfl rfl, rfl, nofun, nofun, nofun⟩
  frozen t inner ht hform := by
    rcases reached_cases ht with rfl | rfl | rfl
    · cases hform
    · cases hform
      exact anything_ignores_freezing
    · cases hform

/-- A frozen list that is given back if it is the one that is listed. -/
def listing : Schema Value :=
  ⟨1, .str "literal", .literal [.list [.int 1, .int 2]], [], [], .null⟩

def frozenListing : Schema Value := ⟨0, .str "readonly", .readonly listing, [], [], .null⟩

/-- Anything that comes after a list with the number one. -/
def later : Schema Value :=
  ⟨1, .str "any", .any, [],
    [.check ⟨2, .greaterThan (.list [.int 1]) (.bool false), .null, .null⟩], .null⟩

def frozenLater : Schema Value := ⟨0, .str "readonly", .readonly later, [], [], .null⟩

end Freezing

open Freezing Stock in
/-- The first parse drops a key and freezes a list, the second one changes nothing. -/
theorem parse_idempotent_holder :
    (parse (hostThat false) (Context.mayWait {} false) holder value).answer {} =
        .ok (.dict [(.str "raw", .tuple [.int 1])]) ∧
      (parse (hostThat false) (Context.mayWait {} false) holder value >>=
        parse (hostThat false) (Context.mayWait {} false) holder).answer {} =
          (parse (hostThat false) (Context.mayWait {} false) holder value).answer {} :=
  ⟨rfl, @parse_idempotent (hostThat false) {} {} holder holder_isPure holder_isRepeatable value rfl⟩

open Freezing Stock in
/-- A frozen list is no longer the one that is listed, and has no order with a list. -/
theorem parse_idempotent_frozen_lists :
    (parse (hostThat false) (Context.mayWait {} false) frozenListing
        (.list [.int 1, .int 2])).answer {} = .ok (.tuple [.int 1, .int 2]) ∧
      (∀ w, (parse (hostThat false) (Context.mayWait {} false) frozenListing
        (.tuple [.int 1, .int 2])).answer {} ≠ .ok w) ∧
      (parse (hostThat false) (Context.mayWait {} false) frozenLater (.list [.int 2])).answer {}
        = .ok (.tuple [.int 2]) ∧
      ∀ w, (parse (hostThat false) (Context.mayWait {} false) frozenLater
        (.tuple [.int 2])).answer {} ≠ .ok w :=
  ⟨rfl, nofun, rfl, nofun⟩

end Assay
