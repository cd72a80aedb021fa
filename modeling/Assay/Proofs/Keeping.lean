import Assay.Proofs.Keyed
import Assay.Proofs.Purity

/-!
# Keeping to keys of a kind

What a schema makes of keyed values is keyed, and the issues that it finds lie along keys of the
class (`meaning_keyed`), when the keys that it names are of the class, when schemas of keys make
keys of keys and schemas of members make members of members, and when what stands in for values is
keyed (`Schema.KeepsTo`). The condition on the schemas of keys is about what they make, since an
array, or a number that is read from a text, may well be no key of the class; it holds of schemas
that leave values as they are (`MakesOnly.of_handsOn`).
-/

namespace Assay

open Structure Value

variable {host : Host} {σ : Session} {ctx : Context} {K : Keying}

/-- The keys that a form names. -/
def Form.namedKeys : Form Value (Schema Value) → List Value
  | .object shape _ _ => shape.map (·.1)
  | .record k _ => (Construct.enumerated? k).getD []
  | .discriminatedUnion _ d _ => [d]
  | _ => []

/-- The schema makes values that satisfy `P` of keyed values that do. -/
def MakesOnly (host : Host) (σ : Session) (ctx : Context) (K : Keying) (P : Value → Prop)
    (t : Schema Value) : Prop :=
  ∀ fuel v w, P v → v.Keyed K → meaning host σ ctx false fuel t v = .ok (.ok w) → P w

/-- Whatever the schema reaches keeps to keys of the class. It is evaluated by its form, replaces
values by no functions, and its checks only look. -/
structure Schema.KeepsTo (host : Host) (σ : Session) (ctx : Context) (K : Keying)
    (s : Schema Value) : Prop where
  own : ∀ t, s.Reaches host σ t → t.IsOwn σ
  checks : ∀ t, s.Reaches host σ t → ∀ c ∈ t.checks, c.inspects = true
  transforms : ∀ t, s.Reaches host σ t → ∀ fn, t.form ≠ .transform fn
  named : ∀ t, s.Reaches host σ t → ∀ k ∈ t.form.namedKeys, K.key k ∧ k.Keyed K
  keys : ∀ t, s.Reaches host σ t → ∀ k x, (t.form = .record k x ∨ t.form = .map k x) →
    MakesOnly host σ ctx K K.key k
  members : ∀ t, s.Reaches host σ t → ∀ element, t.form = .set element →
    MakesOnly host σ ctx K K.member element
  standins : ∀ t, s.Reaches host σ t → ∀ d, t.form.default? = some d →
    ∀ w, (defaultValue host d).answer σ = .ok w → w.Keyed K
  fallbacks : ∀ t, s.Reaches host σ t → ∀ inner fallback, t.form = .catching inner fallback →
    fallback.isCallable = false ∧ fallback.Keyed K

/-! ## Positions -/

section

variable {recur : Schema Value → Value → Except Fault Result}

/-- The results of entries come in turn, those of keys first. -/
theorem Meaning.entryItems_inTurn {k x : Schema Value} {P Q : Result → Prop} {data : Entries}
    (hkey : ∀ e ∈ data, ∀ r, recur k e.1 = .ok r → P r)
    (hvalue : ∀ e ∈ data, ∀ r, recur x e.2 = .ok r → Q r) {rs : List Result}
    (h : Meaning.items recur ctx (entryItems k x data) = .ok rs) : InTurn P Q rs := by
  obtain ⟨qs, hqs, hread⟩ := Meaning.items_prefix h
  clear h
  -- What was read ends before a key, after one, or after a value.
  induction data generalizing qs rs with
  | nil =>
    obtain rfl := List.prefix_nil.1 hqs
    cases hread
    exact .none
  | cons e data ih =>
    obtain ⟨hk, hks⟩ := List.forall_mem_cons.1 hkey
    obtain ⟨hv, hvs⟩ := List.forall_mem_cons.1 hvalue
    have hcons : entryItems k x (e :: data) = (k, e.1) :: (x, e.2) :: entryItems k x data := rfl
    rw [hcons] at hqs
    cases hread with
    | nil => exact .none
    | cons hkr hread =>
      obtain ⟨rfl, hvalues⟩ := List.cons_prefix_cons.1 hqs
      cases hread with
      | nil => exact .key (hk _ hkr)
      | cons hvr hread =>
        obtain ⟨rfl, hrest⟩ := List.cons_prefix_cons.1 hvalues
        exact .entry (hk _ hkr) (hv _ hvr) (ih hks hvs _ hrest hread)

end

/-! ## Scalars and checks -/

section

variable {s : Schema Value} {v : Value}

theorem Result.Keyed.of_verdict {source : Value} {detail : Option (Detail Value (Issue Value))}
    (hv : v.Keyed K) (h : ∀ d, detail = some d → d.isFlat = true) :
    (Result.of v source detail).Keyed K := by
  cases detail with
  | none => exact .ok hv
  | some d =>
    have hgroups := Issue.Along.groups_of_isFlat (h d rfl)
    refine .of_issues (List.cons_ne_nil _ _) (List.forall_mem_singleton.2 (.here ?_))
    rw [hgroups]
    exact nofun

/-- A check that only looks leaves the value. -/
theorem check_keyed {c : Value} {r : Result} (hc : c.inspects = true) (hv : v.Keyed K)
    (h : Meaning.check host σ c v = .ok r) : r.Keyed K ∧ r.value = v := by
  have hof {source : Value} {detail : Option (Detail Value (Issue Value))}
      (hflat : ∀ d, detail = some d → d.isFlat = true) :
      (Result.of v source detail).Keyed K ∧ (Result.of v source detail).value = v :=
    ⟨.of_verdict hv hflat, rfl⟩
  unfold Meaning.check at h
  split at h
  · rename_i c
    have hrule : ∀ rule : Rule Value, (do return Result.of v (.check c) (← rule.verdict v)) =
        Except.ok r → r.Keyed K ∧ r.value = v := by
      intro rule h
      obtain ⟨detail, hdetail, h⟩ := bind_eq_ok.1 h
      cases h
      exact hof (by rintro d rfl; exact Rule.verdict_flat hdetail)
    unfold Value.inspects at hc
    dsimp only at hc
    split at h
    · rw [‹c.rule = _›] at hc
      cases hc
    · rw [‹c.rule = _›] at hc
      cases hc
    · rw [‹c.rule = _›] at hc
      cases hc
    · exact hrule _ h
  · split at h
    · cases h
      exact hof fun d hd => Form.verdict_flat hd
    · cases h
  · cases h

theorem allChecks_inspect (hchecks : ∀ c ∈ s.checks, c.inspects = true) :
    ∀ c ∈ s.allChecks, c.inspects = true := by
  unfold Schema.allChecks
  split
  · exact List.forall_mem_cons.2 ⟨rfl, hchecks⟩
  · exact hchecks

theorem checks_keyed {r q : Result} (hchecks : ∀ c ∈ s.checks, c.inspects = true)
    (hr : r.Keyed K) (h : Meaning.checks host σ ctx s r = .ok q) : q.Keyed K := by
  have hfrom (cs : List Value) (hcs : ∀ c ∈ cs, c.inspects = true) (acc : Result)
      (hvalue : acc.value.Keyed K) (hacc : ∀ i ∈ acc.issues, i.Along K.key)
      (h : Meaning.checksFrom host σ ctx cs acc = .ok q) : q.Keyed K := by
    induction cs generalizing acc with
    | nil =>
      cases h
      exact ⟨fun _ => hvalue, hacc⟩
    | cons c cs ih =>
      obtain ⟨hc, hcs⟩ := List.forall_mem_cons.1 hcs
      obtain ⟨outcome, houtcome, h⟩ := bind_eq_ok.1 h
      obtain ⟨hkeyed, hsame⟩ := check_keyed hc hvalue houtcome
      -- Issues are added, and the value stays what it was.
      have hmerged : (acc.merge outcome).value.Keyed K := by
        show outcome.value.Keyed K
        rwa [hsame]
      have hissues : ∀ i ∈ (acc.merge outcome).issues, i.Along K.key :=
        List.forall_mem_append.2 ⟨hacc, hkeyed.issues⟩
      split at h
      · cases h
        exact ⟨fun _ => hmerged, hissues⟩
      · exact ih hcs _ hmerged hissues h
  unfold Meaning.checks at h
  split at h
  · exact hfrom _ (allChecks_inspect hchecks) r (hr.output ‹_›) hr.issues h
  · cases h
    exact hr

/-- Checks that only look leave the value. -/
theorem checksFrom_inspects {u w : Value} (hchecks : ∀ c ∈ s.checks, c.inspects = true)
    (h : Meaning.checksFrom host σ ctx s.allChecks (.ok u) = .ok (.ok w)) : w = u := by
  have hkeep : ∀ c ∈ s.allChecks, c.replaces = false := fun c hc => by
    have hinspects := allChecks_inspect hchecks c hc
    cases c with
    | check c =>
      obtain ⟨id, rule, error, abort⟩ := c
      cases rule <;> first | rfl | exact absurd hinspects Bool.false_ne_true
    | _ => rfl
  exact ((checksFrom_keeping hkeep).1 h).1

theorem Result.Keyed.require {test : Value → Bool} {expected : String} (h : v.Keyed K) :
    (Scalar.require test expected s v).Keyed K := by
  unfold Scalar.require
  split
  · exact .ok h
  · exact .wrongType

theorem coerceString_keyed : (Scalar.coerceString v).Keyed K := by
  cases v <;> exact keyed_of_inner_eq_nil trivial rfl

theorem coerceBoolean_keyed : (Scalar.coerceBoolean v).Keyed K := by
  cases v <;> exact keyed_of_inner_eq_nil trivial rfl

theorem coerceNumber_keyed {w : Value} (hv : v.Keyed K) (h : Scalar.coerceNumber v = some w) :
    w.Keyed K := by
  unfold Scalar.coerceNumber at h
  split at h
  · -- A number read from a text is an integer or a float.
    unfold Scalar.numberOf? at h
    split at h
    · cases h
    · cases h
      split_ifs <;> exact keyed_of_inner_eq_nil trivial rfl
    · cases h
      exact keyed_of_inner_eq_nil trivial rfl
    · cases h
      exact keyed_of_inner_eq_nil trivial rfl
  · cases h
    exact keyed_of_inner_eq_nil trivial rfl
  · cases h
    exact hv

theorem coerceDate_keyed {w : Value} (hv : v.Keyed K) (h : Scalar.coerceDate v = some w) :
    w.Keyed K := by
  unfold Scalar.coerceDate at h
  split at h
  · split at h
    · obtain ⟨t, -, rfl⟩ := Option.map_eq_some_iff.1 h
      exact keyed_of_inner_eq_nil trivial rfl
    · obtain ⟨d, -, rfl⟩ := Option.map_eq_some_iff.1 h
      exact keyed_of_inner_eq_nil trivial rfl
  · cases h
    exact hv

theorem string_keyed (hv : v.Keyed K) (coerce : Bool) : (Scalar.string s coerce v).Keyed K := by
  unfold Scalar.string
  split
  · exact .require coerceString_keyed
  · exact .require hv

theorem boolean_keyed (hv : v.Keyed K) (coerce : Bool) : (Scalar.boolean s coerce v).Keyed K := by
  unfold Scalar.boolean
  split
  · exact .require coerceBoolean_keyed
  · exact .require hv

theorem number_keyed (hv : v.Keyed K) (coerce : Bool) : (Scalar.number s coerce v).Keyed K := by
  unfold Scalar.number
  split
  · rename_i w hw
    split at hw
    · exact .require (coerceNumber_keyed hv hw)
    · exact .require (Option.some.inj hw ▸ hv)
  · exact .wrongType

theorem date_keyed (hv : v.Keyed K) (coerce : Bool) : (Scalar.date s coerce v).Keyed K := by
  unfold Scalar.date
  split
  · rename_i w hw
    split at hw
    · exact .require (coerceDate_keyed hv hw)
    · exact .require (Option.some.inj hw ▸ hv)
  · exact .wrongType

theorem literal_keyed (hv : v.Keyed K) (values : List Value) :
    (Scalar.literal s values v).Keyed K := by
  unfold Scalar.literal
  split
  · exact .ok hv
  · exact .failed nofun

theorem enumeration_keyed (hv : v.Keyed K) (entries : List (Value × Value))
    (cls : Option (EnumClass Value)) : (Scalar.enumeration s entries cls v).Keyed K := by
  cases cls with
  | none =>
    unfold Scalar.enumeration
    dsimp only
    split
    · exact .ok hv
    · exact .failed nofun
  | some c =>
    refine ⟨fun hvalid => ?_, ?_⟩
    · obtain ⟨d, name, x, -, hmember⟩ := member_ok (Result.eq_ok hvalid)
      rw [hmember]
      exact keyed_of_inner_eq_nil trivial rfl
    · unfold Scalar.enumeration
      dsimp only
      split
      · exact List.forall_mem_nil _
      · have hfailed : (Result.failed s v (.invalidValue (.tuple (entries.map (·.2))))).Keyed K :=
          .failed nofun
        exact hfailed.issues

end

/-! ## Forms -/

section

variable {recur : Schema Value → Value → Except Fault Result} {s : Schema Value} {v : Value}
  {r : Result}

/-- Reading a keyed value against the schema comes to a keyed result, if to any. -/
def Keeps (K : Keying) (recur : Schema Value → Value → Except Fault Result) (t : Schema Value) :
    Prop :=
  ∀ w r, w.Keyed K → recur t w = .ok r → r.Keyed K

/-- Going through positions with keyed values. -/
theorem items_keyed {ps : List (Schema Value × Value)} {rs : List Result}
    (h : ∀ p ∈ ps, Keeps K recur p.1 ∧ p.2.Keyed K)
    (hrs : Meaning.items recur ctx ps = .ok rs) : ∀ r ∈ rs, r.Keyed K := by
  intro r hr
  obtain ⟨p, hp, hrecur⟩ := Meaning.of_mem_items hrs r hr
  exact (h p hp).1 p.2 r (h p hp).2 hrecur

theorem objectItems_keyed {shape : List (Value × Schema Value)}
    (catchall : Option (Schema Value)) {data : Entries} (hdata : ∀ e ∈ data, K.Entry e.1 e.2)
    (hshape : ∀ k ∈ shape.map (·.1), K.key k ∧ k.Keyed K) :
    ∀ p ∈ objectItems shape catchall data, (K.key p.1 ∧ p.1.Keyed K) ∧ p.2.2.Keyed K := by
  have hnamed : ∀ p ∈ shape.map fun f => (f.1, f.2, (data.find? f.1).getD .missing),
      (K.key p.1 ∧ p.1.Keyed K) ∧ p.2.2.Keyed K := by
    intro p hp
    obtain ⟨f, hf, rfl⟩ := List.mem_map.1 hp
    exact ⟨hshape _ (List.mem_map_of_mem hf), keyed_find? hdata _⟩
  unfold objectItems
  cases catchall with
  | none => exact hnamed
  | some c =>
    refine List.forall_mem_append.2 ⟨hnamed, fun p hp => ?_⟩
    obtain ⟨e, he, rfl⟩ := List.mem_map.1 hp
    have hentry := hdata e (List.mem_of_mem_filter he)
    exact ⟨⟨hentry.key, hentry.inKey⟩, hentry.inValue⟩

theorem tupleItems_keyed {rest : Option (Schema Value)} (schemas : List (Schema Value))
    {vs : List Value} (hvs : ∀ w ∈ vs, w.Keyed K) :
    ∀ p ∈ tupleItems rest schemas vs, p.2.Keyed K := by
  induction schemas generalizing vs with
  | nil =>
    intro p hp
    cases rest with
    | none => cases hp
    | some t =>
      obtain ⟨w, hw, rfl⟩ := List.mem_map.1 hp
      exact hvs w hw
  | cons t schemas ih =>
    cases vs with
    | nil => exact List.forall_mem_cons.2 ⟨keyed_missing, ih hvs⟩
    | cons w vs =>
      obtain ⟨hw, hvs⟩ := List.forall_mem_cons.1 hvs
      exact List.forall_mem_cons.2 ⟨hw, ih hvs⟩

theorem objectMeaning_keyed {shape : List (Value × Schema Value)} {policy : UnknownKeys}
    {catchall : Option (Schema Value)} (hv : v.Keyed K)
    (hshape : ∀ k ∈ shape.map (·.1), K.key k ∧ k.Keyed K)
    (h : ∀ t ∈ shape.map (·.2) ++ catchall.toList, Keeps K recur t)
    (hr : Meaning.object ctx recur s shape policy catchall v = .ok r) : r.Keyed K := by
  unfold Meaning.object at hr
  cases hes : v.entries? with
  | none =>
    rw [hes] at hr
    cases hr
    exact .wrongType
  | some data =>
    rw [hes] at hr
    have hdata := hv.entries hes
    have hitems := objectItems_keyed catchall hdata hshape
    obtain ⟨rs, hrs, hr⟩ := bind_eq_ok.1 hr
    cases hr
    refine object_keyed (fun k hk => ?_) (items_keyed (fun p hp => ?_) hrs) policy _ fun e he =>
      hdata e (List.mem_of_mem_filter he)
    · obtain ⟨p, hp, rfl⟩ := List.mem_map.1 hk
      exact (hitems p hp).1
    · have hpart := h p.1 (objectItems_parts shape catchall data p hp)
      obtain ⟨q, hq, rfl⟩ := List.mem_map.1 hp
      exact ⟨hpart, (hitems q hq).2⟩

theorem entries_inTurn {k x : Schema Value} {data : Entries}
    (hdata : ∀ e ∈ data, K.Entry e.1 e.2) (hk : Keeps K recur k) (hx : Keeps K recur x)
    (hkeys : ∀ w u, K.key w → w.Keyed K → recur k w = .ok (.ok u) → K.key u) {rs : List Result}
    (hrs : Meaning.items recur ctx (entryItems k x data) = .ok rs) :
    InTurn (KeepsKey K) (Result.Keyed K) rs := by
  refine Meaning.entryItems_inTurn (fun e he q hq => ?_) (fun e he q hq => ?_) hrs
  · have hentry := hdata e he
    exact ⟨hk _ q hentry.inKey hq, fun hvalid =>
      hkeys _ _ hentry.key hentry.inKey (hq.trans (congrArg _ (Result.eq_ok hvalid)))⟩
  · exact hx _ q (hdata e he).inValue hq

/-- What a record and a map make of the entries of a mapping. -/
theorem entriesMeaning_keyed {k x : Schema Value} {report : EntryReport}
    (hreport : EntryReport.Along K report) {data : Entries} (hdata : ∀ e ∈ data, K.Entry e.1 e.2)
    (hk : Keeps K recur k) (hx : Keeps K recur x)
    (hkeys : ∀ w u, K.key w → w.Keyed K → recur k w = .ok (.ok u) → K.key u)
    (hr : (Meaning.items recur ctx (entryItems k x data) >>= fun rs =>
      entries report (data.map (·.1)) rs ⟨v, []⟩ []) = .ok r) : r.Keyed K := by
  obtain ⟨rs, hrs, hr⟩ := bind_eq_ok.1 hr
  refine entries_keyed hreport (fun k hk => ?_) (entries_inTurn hdata hk hx hkeys hrs)
    (List.forall_mem_nil _) (List.forall_mem_nil _) hr
  obtain ⟨e, he, rfl⟩ := List.mem_map.1 hk
  exact (hdata e he).key

theorem recordMeaning_keyed {k x : Schema Value} (hv : v.Keyed K)
    (hlisted : ∀ a ∈ (Construct.enumerated? k).getD [], K.key a ∧ a.Keyed K)
    (hk : Keeps K recur k) (hx : Keeps K recur x)
    (hkeys : ∀ w u, K.key w → w.Keyed K → recur k w = .ok (.ok u) → K.key u)
    (hr : Meaning.record ctx recur s k x v = .ok r) : r.Keyed K := by
  unfold Meaning.record at hr
  cases hes : v.entries? with
  | none =>
    rw [hes] at hr
    cases hr
    exact .wrongType
  | some data =>
    rw [hes] at hr
    have hdata := hv.entries hes
    dsimp only at hr
    split at hr
    · rename_i allowed hallowed
      rw [hallowed] at hlisted
      split at hr
      · cases hr
      · obtain ⟨rs, hrs, hr⟩ := bind_eq_ok.1 hr
        cases hr
        refine enumeratedRecord_keyed hlisted (items_keyed (fun p hp => ?_) hrs) data
        obtain ⟨a, -, rfl⟩ := List.mem_map.1 hp
        exact ⟨hx, keyed_find? hdata a⟩
    · exact entriesMeaning_keyed recordReport_along hdata hk hx hkeys hr

theorem mapMeaning_keyed {k x : Schema Value} (hv : v.Keyed K) (hk : Keeps K recur k)
    (hx : Keeps K recur x)
    (hkeys : ∀ w u, K.key w → w.Keyed K → recur k w = .ok (.ok u) → K.key u)
    (hr : Meaning.map ctx recur s k x v = .ok r) : r.Keyed K := by
  unfold Meaning.map at hr
  cases hes : v.entries? with
  | none =>
    rw [hes] at hr
    cases hr
    exact .wrongType
  | some data =>
    rw [hes] at hr
    exact entriesMeaning_keyed mapReport_along (hv.entries hes) hk hx hkeys hr

/-- The outputs for members of a set can be members of the class. -/
theorem members_kept {element : Schema Value} {vs : List Value}
    (hvs : ∀ w ∈ vs, K.member w ∧ w.Keyed K)
    (hmembers : ∀ w u, K.member w → w.Keyed K → recur element w = .ok (.ok u) → K.member u)
    {rs : List Result}
    (hrs : Meaning.items recur ctx ((Value.listed vs).map fun w => (element, w)) = .ok rs) :
    ∀ q ∈ rs, q.valid = true → K.member q.value := by
  intro q hq hvalid
  obtain ⟨p, hp, hrecur⟩ := Meaning.of_mem_items hrs q hq
  obtain ⟨w, hw, rfl⟩ := List.mem_map.1 hp
  obtain ⟨hmember, hkeyed⟩ := hvs w (mem_listed.1 hw)
  exact hmembers w _ hmember hkeyed (hrecur.trans (congrArg _ (Result.eq_ok hvalid)))

theorem setMeaning_keyed {element : Schema Value} (hv : v.Keyed K) (h : Keeps K recur element)
    (hmembers : ∀ w u, K.member w → w.Keyed K → recur element w = .ok (.ok u) → K.member u)
    (hr : Meaning.set ctx recur s element v = .ok r) : r.Keyed K := by
  have hset {vs : List Value} (hvs : ∀ w ∈ vs, K.member w ∧ w.Keyed K)
      (hr : (Meaning.items recur ctx ((Value.listed vs).map fun w => (element, w)) >>=
        Structure.set) = .ok r) : r.Keyed K := by
    obtain ⟨rs, hrs, hr⟩ := bind_eq_ok.1 hr
    refine set_keyed (items_keyed (fun p hp => ?_) hrs) (members_kept hvs hmembers hrs) hr
    obtain ⟨w, hw, rfl⟩ := List.mem_map.1 hp
    exact ⟨h, (hvs w (mem_listed.1 hw)).2⟩
  unfold Meaning.set at hr
  split at hr
  · exact hset (hv.members rfl) hr
  · exact hset (hv.members rfl) hr
  · cases hr
    exact .wrongType

theorem unionResult_keyed {rs : List Result} (h : ∀ q ∈ rs, q.Keyed K) :
    (unionResult s v rs).Keyed K := by
  unfold unionResult
  split
  · rename_i q hq
    exact .ok ((h q (List.mem_of_find?_eq_some hq)).output (List.find?_some hq))
  · refine .failed fun g hg => ?_
    obtain ⟨q, hq, rfl⟩ := List.mem_map.1 hg
    exact (h q hq).issues

theorem options_keyed {thorough : Bool} {schemas : List (Schema Value)} {rs : List Result}
    (hv : v.Keyed K) (h : ∀ t ∈ schemas, Keeps K recur t)
    (hrs : Meaning.options recur thorough v schemas = .ok rs) : ∀ q ∈ rs, q.Keyed K := by
  intro q hq
  obtain ⟨t, ht, hread⟩ := Meaning.of_mem_options hrs q hq
  exact h t ht v q hv hread

theorem intersectionResult_keyed {rs : List Result} (h : ∀ q ∈ rs, q.Keyed K) (hv : v.Keyed K)
    (hr : intersectionResult v rs = .ok r) : r.Keyed K := by
  have hissues : ∀ i ∈ rs.flatMap (·.issues), i.Along K.key := fun i hi => by
    obtain ⟨q, hq, hi⟩ := List.mem_flatMap.1 hi
    exact (h q hq).issues i hi
  have hall : Result.Keyed K ⟨v, rs.flatMap (·.issues)⟩ := ⟨fun _ => hv, hissues⟩
  unfold intersectionResult at hr
  dsimp only at hr
  split at hr
  · rename_i l r'
    split at hr
    · rename_i hempty
      have hnil := List.flatMap_eq_nil_iff.1 (List.isEmpty_iff.1 hempty)
      have hside {q : Result} (hq : q ∈ [l, r']) : q.value.Keyed K :=
        (h q hq).output (Result.valid_iff.2 (hnil q hq))
      obtain ⟨w, hw, hr⟩ := bind_eq_ok.1 hr
      cases hr
      exact .ok (mergeValues_keyed (hside (by simp)) _ (hside (by simp)) hw)
    · cases hr
      exact hall
  · cases hr
    exact hall

theorem discriminatedMeaning_keyed {schemas : List (Schema Value)} {d : Value}
    {table : List (Value × Nat)} (hv : v.Keyed K) (hd : K.key d)
    (h : ∀ t ∈ schemas, Keeps K recur t)
    (hr : Meaning.discriminated σ recur s schemas d table v = .ok r) : r.Keyed K := by
  unfold Meaning.discriminated at hr
  cases hes : v.entries? with
  | none =>
    rw [hes] at hr
    cases hr
    exact .wrongType
  | some data =>
    rw [hes] at hr
    obtain ⟨k, -, hr⟩ := bind_eq_ok.1 hr
    dsimp only at hr
    split at hr
    · rename_i option hoption
      exact h option (pickOption_mem hoption) v r hv hr
    · cases hr
      exact .of_issues (List.cons_ne_nil _ _) (List.forall_mem_singleton.2
        (.intro (List.forall_mem_singleton.2 hd) nofun))

end

/-- What a schema finds by its form keeps to keys of the class if reading its parts does. -/
theorem form_keyed {s₀ s : Schema Value} (hkeeps : s₀.KeepsTo host σ ctx K)
    (hs : s₀.Reaches host σ s) {fuel : Nat} {v : Value} {r : Result} (hv : v.Keyed K)
    (h : ∀ t, s₀.Reaches host σ t → Keeps K (meaning host σ ctx false fuel) t)
    (hr : Meaning.form host σ ctx false (meaning host σ ctx false fuel) fuel s v = .ok r) :
    r.Keyed K := by
  have hparts : ∀ t ∈ s.form.parts, Keeps K (meaning host σ ctx false fuel) t :=
    fun t ht => h t (.part hs ht)
  have hnamed := hkeeps.named s hs
  unfold Meaning.form at hr
  cases hform : s.form with
  | string coerce | format _ coerce _ =>
    rw [hform] at hr
    cases hr
    exact string_keyed hv _
  | number coerce | integer coerce _ =>
    rw [hform] at hr
    cases hr
    exact number_keyed hv _
  | boolean coerce =>
    rw [hform] at hr
    cases hr
    exact boolean_keyed hv _
  | date coerce =>
    rw [hform] at hr
    cases hr
    exact date_keyed hv _
  | null =>
    rw [hform] at hr
    cases hr
    exact .require hv
  | any | unknown =>
    rw [hform] at hr
    cases hr
    exact .ok hv
  | never =>
    rw [hform] at hr
    cases hr
    exact .wrongType
  | literal values =>
    rw [hform] at hr
    cases hr
    exact literal_keyed hv values
  | enumeration entries cls =>
    rw [hform] at hr
    cases hr
    exact enumeration_keyed hv entries cls
  | object shape policy catchall =>
    rw [hform] at hr hnamed
    exact objectMeaning_keyed hv hnamed (fun t ht => hparts t (by rwa [hform])) hr
  | array element =>
    rw [hform] at hr
    have helement := hparts element (by simp [hform, Form.parts])
    dsimp only at hr
    unfold Meaning.array at hr
    split at hr
    · cases hr
      exact .wrongType
    · rename_i vs hvs
      obtain ⟨rs, hrs, hr⟩ := bind_eq_ok.1 hr
      cases hr
      refine array_keyed (items_keyed (fun p hp => ?_) hrs)
      obtain ⟨w, hw, rfl⟩ := List.mem_map.1 hp
      exact ⟨helement, hv.items hvs w hw⟩
  | tuple schemas rest =>
    rw [hform] at hr
    dsimp only at hr
    unfold Meaning.tuple at hr
    split at hr
    · cases hr
      exact .wrongType
    · rename_i vs hvs
      obtain ⟨n, -, hr⟩ := bind_eq_ok.1 hr
      split at hr
      · rename_i detail hlength
        cases hr
        have hflat := tupleLength_flat hlength
        refine .failed ?_
        rw [Issue.Along.groups_of_isFlat hflat]
        exact List.forall_mem_nil _
      · obtain ⟨rs, hrs, hr⟩ := bind_eq_ok.1 hr
        cases hr
        refine tuple_keyed (items_keyed (fun p hp => ⟨hparts p.1 ?_, ?_⟩) hrs) _
        · rw [hform]
          exact tupleItems_parts rest schemas vs p hp
        · exact tupleItems_keyed schemas (hv.items hvs) p hp
  | record k x =>
    rw [hform] at hr hnamed
    exact recordMeaning_keyed hv hnamed (hparts k (by simp [hform, Form.parts]))
      (hparts x (by simp [hform, Form.parts])) (hkeeps.keys s hs k x (.inl hform) fuel) hr
  | map k x =>
    rw [hform] at hr
    exact mapMeaning_keyed hv (hparts k (by simp [hform, Form.parts]))
      (hparts x (by simp [hform, Form.parts])) (hkeeps.keys s hs k x (.inr hform) fuel) hr
  | set element =>
    rw [hform] at hr
    exact setMeaning_keyed hv (hparts element (by simp [hform, Form.parts]))
      (hkeeps.members s hs element hform fuel) hr
  | union schemas =>
    rw [hform] at hr
    obtain ⟨rs, hrs, hr⟩ := bind_eq_ok.1 hr
    cases hr
    exact unionResult_keyed (options_keyed hv (fun t ht => hparts t (by rwa [hform])) hrs)
  | discriminatedUnion schemas d table =>
    rw [hform] at hr hnamed
    exact discriminatedMeaning_keyed hv (hnamed d (List.mem_singleton_self d)).1
      (fun t ht => hparts t (by rwa [hform])) hr
  | intersection l x =>
    rw [hform] at hr
    obtain ⟨rs, hrs, hr⟩ := bind_eq_ok.1 hr
    refine intersectionResult_keyed (items_keyed (fun p hp => ?_) hrs) hv hr
    rcases List.mem_pair.1 hp with rfl | rfl
    · exact ⟨hparts l (by simp [hform, Form.parts]), hv⟩
    · exact ⟨hparts x (by simp [hform, Form.parts]), hv⟩
  | optional inner | nullable inner =>
    rw [hform] at hr
    dsimp only at hr
    split at hr
    · cases hr
      exact .ok hv
    · exact hparts inner (by simp [hform, Form.parts]) v r hv hr
  | default inner d =>
    rw [hform] at hr
    dsimp only at hr
    split at hr
    · obtain ⟨w, hw, hr⟩ := bind_eq_ok.1 hr
      cases hr
      exact .ok (hkeeps.standins s hs d (by rw [hform]; rfl) w hw)
    · exact hparts inner (by simp [hform, Form.parts]) v r hv hr
  | prefault inner d =>
    rw [hform] at hr
    dsimp only at hr
    split at hr
    · obtain ⟨w, hw, hr⟩ := bind_eq_ok.1 hr
      exact hparts inner (by simp [hform, Form.parts]) w r
        (hkeeps.standins s hs d (by rw [hform]; rfl) w hw) hr
    · exact hparts inner (by simp [hform, Form.parts]) v r hv hr
  | catching inner fallback =>
    rw [hform] at hr
    obtain ⟨hsilent, hfallback⟩ := hkeeps.fallbacks s hs inner fallback hform
    obtain ⟨q, hq, hr⟩ := bind_eq_ok.1 hr
    unfold Meaning.caught at hr
    split at hr
    · cases hr
      exact hparts inner (by simp [hform, Form.parts]) v _ hv hq
    · rw [hsilent] at hr
      cases hr
      exact .ok hfallback
  | readonly inner =>
    rw [hform] at hr
    obtain ⟨q, hq, hr⟩ := bind_eq_ok.1 hr
    have hinner := hparts inner (by simp [hform, Form.parts]) v q hv hq
    cases hr
    split
    · exact .ok (hinner.output ‹_›).freeze
    · exact hinner
  | promise inner =>
    rw [hform] at hr
    dsimp only at hr
    split at hr
    · cases hr
    · exact hparts inner (by simp [hform, Form.parts]) v r hv hr
  | transform fn => exact absurd hform (hkeeps.transforms s hs fn)
  | pipe source target =>
    rw [hform] at hr
    obtain ⟨q, hq, hr⟩ := bind_eq_ok.1 hr
    have hsource := hparts source (by simp [hform, Form.parts]) v q hv hq
    split at hr
    · exact hparts target (by simp [hform, Form.parts]) q.value r (hsource.output ‹_›) hr
    · cases hr
      exact hsource
  | lazy getter name =>
    rw [hform] at hr
    obtain ⟨t, ht, hr⟩ := bind_eq_ok.1 hr
    exact h t (.lazily hs hform ht) v r hv hr
  | custom fn params =>
    rw [hform] at hr
    dsimp only at hr
    unfold Meaning.custom at hr
    split at hr
    · cases hr
      exact .ok hv
    · obtain ⟨q, -, hr⟩ := bind_eq_ok.1 hr
      split at hr
      · cases hr
        exact .ok hv
      · obtain ⟨params, -, hr⟩ := bind_eq_ok.1 hr
        cases hr
        exact .failed (List.forall_mem_nil _)
  | generic =>
    rw [hform] at hr
    cases hr

/-- What a schema makes of a keyed value is keyed, and the issues that it finds lie along keys of
the class. The induction is on the levels of the evaluation. -/
theorem meaning_keyed {s₀ : Schema Value} (h : s₀.KeepsTo host σ ctx K) (fuel : Nat) :
    ∀ s, s₀.Reaches host σ s → Keeps K (meaning host σ ctx false fuel) s := by
  induction fuel with
  | zero =>
    intro s _ v r _ hr
    cases hr
  | succ fuel ih =>
    intro s hs v r hv hr
    obtain ⟨fn, hfn, hr⟩ := bind_eq_ok.1 hr
    obtain rfl := h.own s hs fn hfn
    obtain ⟨q, hq, hr⟩ := bind_eq_ok.1 hr
    exact checks_keyed (h.checks s hs) (form_keyed h hs hv ih hq) hr

/-! ## Schemas that leave values as they are -/

/-- The form accepts a value as it is, or with what one of its parts makes of it. -/
def Form.handsOn : Form Value (Schema Value) → Bool
  | .string c | .number c | .boolean c | .date c | .format _ c _ | .integer c _ => !c.truthy
  | .null | .any | .unknown | .never | .literal _ | .enumeration _ none | .optional _ | .nullable _
  | .union _ | .discriminatedUnion .. | .promise _ => true
  | _ => false

theorem form_handsOn {recur : Schema Value → Value → Except Fault Result} {thorough : Bool}
    {fuel : Nat} {s : Schema Value} {v u : Value} (hform : s.form.handsOn = true)
    (h : Meaning.form host σ ctx thorough recur fuel s v = .ok (.ok u)) :
    u = v ∨ ∃ t ∈ s.form.parts, recur t v = .ok (.ok u) := by
  have hplain {c : Value} (hc : (!c.truthy) = true) : c.truthy = false := by simpa using hc
  cases hcase : s.form <;> rw [hcase] at hform <;> simp only [Meaning.form, hcase] at h
  case string c | format c _ =>
    unfold Scalar.string at h
    rw [hplain hform] at h
    exact .inl (require_ok.1 (Except.ok.inj h)).2
  case number c | integer c _ =>
    unfold Scalar.number at h
    rw [hplain hform] at h
    exact .inl (require_ok.1 (Except.ok.inj h)).2
  case boolean c =>
    unfold Scalar.boolean at h
    rw [hplain hform] at h
    exact .inl (require_ok.1 (Except.ok.inj h)).2
  case date c =>
    unfold Scalar.date at h
    rw [hplain hform] at h
    exact .inl (require_ok.1 (Except.ok.inj h)).2
  case null => exact .inl (require_ok.1 (Except.ok.inj h)).2
  case any | unknown => exact .inl (congrArg Result.value (Except.ok.inj h)).symm
  case never => cases h
  case literal values => exact .inl (literal_ok (Except.ok.inj h)).2
  case enumeration entries cls =>
    cases cls with
    | none => exact .inl (listed_ok (Except.ok.inj h)).2
    | some c => cases hform
  case union options =>
    obtain ⟨o, ho, h⟩ := Meaning.union_accepted h
    exact .inr ⟨o, ho, h⟩
  case discriminatedUnion options d table =>
    unfold Meaning.discriminated at h
    split at h
    · cases h
    · obtain ⟨tag, -, h⟩ := bind_eq_ok.1 h
      dsimp only at h
      split at h
      · exact .inr ⟨_, pickOption_mem ‹_›, h⟩
      · cases h
  case optional inner | nullable inner =>
    split at h
    · exact .inl (congrArg Result.value (Except.ok.inj h)).symm
    · exact .inr ⟨inner, List.mem_singleton_self _, h⟩
  case promise inner =>
    split at h
    · cases h
    · exact .inr ⟨inner, List.mem_singleton_self _, h⟩
  all_goals cases hform

/-- A schema that leaves values as they are, or to parts that make only such values. -/
theorem MakesOnly.of_handsOn {P : Value → Prop} {t : Schema Value} (hown : t.IsOwn σ)
    (hchecks : ∀ c ∈ t.checks, c.inspects = true) (hform : t.form.handsOn = true)
    (hparts : ∀ u ∈ t.form.parts, MakesOnly host σ ctx K P u) : MakesOnly host σ ctx K P t := by
  intro fuel v w hP hv hw
  cases fuel with
  | zero => cases hw
  | succ fuel =>
    obtain ⟨u, hu, hchecked⟩ := meaning_accepts hown hw
    obtain rfl : w = u := checksFrom_inspects hchecks hchecked
    rcases form_handsOn hform hu with rfl | ⟨part, hpart, hu⟩
    · exact hP
    · exact hparts part hpart fuel v w hP hv hu

end Assay
