import Assay.Proofs.Answering
import Assay.Proofs.Discrimination

/-!
# Structures and their positions

What a structural schema comes to is put together from what its positions come to. A position has
a meaning of its own, whatever structure it is part of (`Meaning.alone`), so schemas that put
together the same positions can be compared by the way in which they do it. For this a schema has
to be steady: its functions are pure, it is read by its form, and its message provider answers
(`Schema.IsSteady`). If its positions can be read, its parse answers
(`Schema.IsSteady.items`, `Schema.IsSteady.parse`).
-/

namespace Assay

open Run Structure

variable {host : Host} {σ : Session} {ctx : Context}

/-! ## Positions on their own -/

/-- What a value comes to against a schema on its own. -/
def Meaning.alone (host : Host) (σ : Session) (ctx : Context) (s : Schema Value) (v : Value) :
    Except Fault Result :=
  meaning host σ ctx false s.budget s v

/-- The value can be read against the schema: that ends without a fault, and whatever reports an
issue then has no message provider that does not answer. -/
def Schema.Reads (host : Host) (σ : Session) (ctx : Context) (s : Schema Value) (v : Value) :
    Prop :=
  ∃ r, (evaluate host (ctx.mayWait false) s.budget s v).answer σ = .ok (.ready r) ∧
    r.Sourced (Value.SourceAnswers host σ)

/-- What is read has a meaning. -/
theorem Schema.Reads.alone {I : Session → Prop} {pool : Schema Value → Prop}
    (hsettled : Settled host σ I pool) {s : Schema Value} (hs : pool s) {v : Value}
    (h : s.Reads host σ ctx v) :
    ∃ r, Meaning.alone host σ ctx s v = .ok r ∧ r.Sourced (Value.SourceAnswers host σ) := by
  obtain ⟨r, hr, hsourced⟩ := h
  rw [(evaluate_promptly hsettled s.budget hs v).answer hsettled.here] at hr
  refine ⟨r, ?_, hsourced⟩
  show meaning host σ ctx false s.budget s v = .ok r
  cases hmeaning : meaning host σ ctx false s.budget s v with
  | error e =>
    rw [hmeaning] at hr
    cases hr
  | ok q =>
    rw [hmeaning] at hr
    cases hr
    rfl

/-- What a schema that accepts anything makes of a value. -/
theorem alone_any {key : Schema Value} (hform : key.form = .any)
    (hown : σ.kinds.evaluator? key.kind = .ok (.builtin .evaluateNode)) (hbare : key.allChecks = [])
    (k : Value) : Meaning.alone host σ ctx key k = .ok (.ok k) := by
  show meaning host σ ctx false (key.depth + 1999 + 1) key k = _
  rw [meaning_of_form hown hbare]
  simp only [Meaning.form, hform]

/-- Any value can be read against a schema that accepts anything. -/
theorem reads_any {key : Schema Value} (hform : key.form = .any)
    (hown : σ.kinds.evaluator? key.kind = .ok (.builtin .evaluateNode)) (hbare : key.allChecks = [])
    (k : Value) : key.Reads host σ ctx k := by
  refine ⟨.ok k, ?_, .ok k⟩
  show ((evaluate host (ctx.mayWait false) (key.depth + 1999 + 1) key k).exec σ).1 = _
  rw [evaluate_exec hown]
  simp only [evaluateForm, hform, pure_bind, checkOutcome, runChecks, hbare]
  rfl

section

variable {recur recur' : Schema Value → Value → Except Fault Result}
  {ps : List (Schema Value × Value)}

theorem Meaning.each_congr (h : ∀ p ∈ ps, recur p.1 p.2 = recur' p.1 p.2) :
    each recur ps = each recur' ps := by
  induction ps with
  | nil => rfl
  | cons p ps ih =>
    obtain ⟨hp, hps⟩ := List.forall_mem_cons.1 h
    simp only [each, hp, ih hps]

theorem Meaning.inOrder_congr (h : ∀ p ∈ ps, recur p.1 p.2 = recur' p.1 p.2) :
    inOrder recur ps = inOrder recur' ps := by
  induction ps with
  | nil => rfl
  | cons p ps ih =>
    obtain ⟨hp, hps⟩ := List.forall_mem_cons.1 h
    simp only [inOrder, hp, ih hps]

/-- Readings that agree on every position have the same results. -/
theorem Meaning.items_congr (h : ∀ p ∈ ps, recur p.1 p.2 = recur' p.1 p.2) :
    items recur ctx ps = items recur' ctx ps := by
  unfold items
  rw [inOrder_congr h, each_congr h]

end

/-- Positions that come to something on their own come to that as parts of a schema. -/
theorem Meaning.items_alone {s : Schema Value} {ps : List (Schema Value × Value)}
    (hparts : ∀ p ∈ ps, p.1 ∈ s.form.parts)
    (hcomes : ∀ p ∈ ps, Comes (Meaning.alone host σ ctx p.1 p.2)) :
    ∃ rs, Meaning.items (Meaning.alone host σ ctx) ctx ps = .ok rs ∧
      ∀ n, s.budget = n + 1 → Meaning.items (meaning host σ ctx false n) ctx ps = .ok rs := by
  obtain ⟨rs, hrs⟩ := items_come hcomes
  refine ⟨rs, hrs, fun n hn => ?_⟩
  rw [← hrs]
  apply Meaning.items_congr
  intro p hp
  obtain ⟨r, hr⟩ := hcomes p hp
  -- A part is read with at least the levels that it has on its own.
  have hle : p.1.budget ≤ n := by
    have hdepth := Schema.depth_part_lt (hparts p hp)
    unfold Schema.budget at hn ⊢
    omega
  rw [hr, meaning_mono hle hr]

/-! ## Steady schemas -/

/-- The schema is read by its form alone, all functions that are called for it are pure, and its
message provider answers. -/
structure Schema.IsSteady (host : Host) (σ : Session) (s : Schema Value) : Prop where
  pure : s.IsPure host σ
  own : σ.kinds.evaluator? s.kind = .ok (.builtin .evaluateNode)
  bare : s.allChecks = []
  provider : Resolution.Answers host σ s.error

/-- The form of the schema comes to the result, and whatever reports its issues has no message
provider that does not answer. -/
structure Schema.ComesTo (host : Host) (σ : Session) (ctx : Context) (s : Schema Value) (v : Value)
    (r : Result) : Prop where
  form : ∀ n, s.budget = n + 1 →
    Meaning.form host σ ctx false (meaning host σ ctx false n) n s v = .ok r
  sourced : r.Sourced (Value.SourceAnswers host σ)

namespace Schema.IsSteady

variable {s : Schema Value} {v : Value}

/-- The positions come to what they come to on their own. -/
theorem items (hs : s.IsSteady host σ) {ps : List (Schema Value × Value)}
    (hparts : ∀ p ∈ ps, p.1 ∈ s.form.parts) (hreads : ∀ p ∈ ps, p.1.Reads host σ ctx p.2) :
    ∃ rs, Meaning.items (Meaning.alone host σ ctx) ctx ps = .ok rs ∧
      (∀ n, s.budget = n + 1 → Meaning.items (meaning host σ ctx false n) ctx ps = .ok rs) ∧
      ∀ r ∈ rs, r.Sourced (Value.SourceAnswers host σ) := by
  have halone : ∀ p ∈ ps, ∃ r, Meaning.alone host σ ctx p.1 p.2 = .ok r ∧
      r.Sourced (Value.SourceAnswers host σ) := by
    intro p hp
    exact (hreads p hp).alone hs.pure.settled (.part .self (hparts p hp))
  obtain ⟨rs, hrs, hread⟩ := Meaning.items_alone hparts fun p hp => by
    obtain ⟨r, hr, -⟩ := halone p hp
    exact ⟨r, hr⟩
  refine ⟨rs, hrs, hread, fun r hr => ?_⟩
  obtain ⟨p, hp, hread⟩ := Meaning.of_mem_items hrs r hr
  obtain ⟨r', hr', hsourced⟩ := halone p hp
  obtain rfl : r' = r := Except.ok.inj (hr'.symm.trans hread)
  exact hsourced

/-- The parse concludes what the form comes to. -/
theorem parse (hs : s.IsSteady host σ) (hctx : ctx.Answers host σ) {r : Result}
    (h : s.ComesTo host σ ctx v r) :
    ∃ p, (safeParse host (ctx.mayWait false) s v).answer σ = .ok p ∧
      (conclude host ctx r).answer σ = .ok p := by
  have hsettled := hs.pure.settled
  obtain ⟨p, hp⟩ := hctx.conclude hs.pure h.sourced
  refine ⟨p, ?_, hp⟩
  rw [(safeParse_gives hsettled (hs.pure.words_fixed _) .self v).answer hsettled.here]
  refine bind_eq_ok.2 ⟨r, ?_, hp⟩
  rw [show s.budget = (s.depth + 1999) + 1 from rfl, meaning_of_form hs.own hs.bare]
  exact h.form _ rfl

/-! ## What structures come to -/

variable {data : Entries} {vs : List Value}

/-- An object. -/
theorem object (hs : s.IsSteady host σ) {shape : List (Value × Schema Value)}
    {policy : UnknownKeys} {catchall : Option (Schema Value)}
    (hform : s.form = .object shape policy catchall) (hdata : v.entries? = some data)
    (hreads : ∀ p ∈ objectItems shape catchall data, p.2.1.Reads host σ ctx p.2.2) :
    ∃ rs, Meaning.items (Meaning.alone host σ ctx) ctx
        ((objectItems shape catchall data).map (·.2)) = .ok rs ∧
      (∀ r ∈ rs, r.Sourced (Value.SourceAnswers host σ)) ∧
      s.ComesTo host σ ctx v (Structure.object s ctx policy catchall.isSome v
        (unknownKeys shape data) (placedAt ((objectItems shape catchall data).map (·.1)) rs)) := by
  obtain ⟨rs, hrs, hread, hsourced⟩ := hs.items
    (fun p hp => by rw [hform]; exact objectItems_parts shape catchall data p hp)
    (fun p hp => by
      obtain ⟨q, hq, rfl⟩ := List.mem_map.1 hp
      exact hreads q hq)
  refine ⟨rs, hrs, hsourced, fun n hn => ?_, object_sourced hs.provider hsourced _ _ _ v _⟩
  simp only [Meaning.form, hform, Meaning.object, hdata]
  exact bind_eq_ok.2 ⟨rs, hread n hn, rfl⟩

/-- A record with listed keys. -/
theorem listedRecord (hs : s.IsSteady host σ) {key value : Schema Value}
    (hform : s.form = .record key value) {allowed : List Value}
    (hallowed : Construct.enumerated? key = some allowed)
    (hkeys : Value.areHashable allowed = true) (hdata : v.entries? = some data)
    (hreads : ∀ p ∈ enumeratedItems value data allowed, p.1.Reads host σ ctx p.2) :
    ∃ rs, Meaning.items (Meaning.alone host σ ctx) ctx (enumeratedItems value data allowed)
        = .ok rs ∧
      s.ComesTo host σ ctx v (enumeratedRecord s ctx allowed v data (placedAt allowed rs)) := by
  have hparts : ∀ p ∈ enumeratedItems value data allowed, p.1 ∈ s.form.parts := by
    intro p hp
    obtain ⟨k, -, rfl⟩ := List.mem_map.1 hp
    simp [hform, Form.parts]
  obtain ⟨rs, hrs, hread, hsourced⟩ := hs.items hparts hreads
  refine ⟨rs, hrs, fun n hn => ?_, enumeratedRecord_sourced hs.provider hsourced allowed v data⟩
  simp only [Meaning.form, hform, Meaning.record, hdata, hallowed, hkeys]
  exact bind_eq_ok.2 ⟨rs, hread n hn, rfl⟩

/-- The positions of entries. -/
theorem entryItems (hs : s.IsSteady host σ) {key value : Schema Value}
    (hform : s.form = .record key value ∨ s.form = .map key value)
    (hreads : ∀ p ∈ Structure.entryItems key value data, p.1.Reads host σ ctx p.2) :
    ∃ rs, Meaning.items (Meaning.alone host σ ctx) ctx (Structure.entryItems key value data)
        = .ok rs ∧
      (∀ n, s.budget = n + 1 → Meaning.items (meaning host σ ctx false n) ctx
        (Structure.entryItems key value data) = .ok rs) ∧
      ∀ r ∈ rs, r.Sourced (Value.SourceAnswers host σ) := by
  refine hs.items (fun p hp => ?_) hreads
  rcases entryItems_parts key value data p hp with h | h <;> rcases hform with hform | hform <;>
    simp [h, hform, Form.parts]

/-- A record with any keys, if the outputs of these can be keys. -/
theorem record (hs : s.IsSteady host σ) {key value : Schema Value}
    (hform : s.form = .record key value) (hopen : Construct.enumerated? key = none)
    (hdata : v.entries? = some data)
    (hreads : ∀ p ∈ Structure.entryItems key value data, p.1.Reads host σ ctx p.2) :
    ∃ rs, Meaning.items (Meaning.alone host σ ctx) ctx (Structure.entryItems key value data)
        = .ok rs ∧
      ∀ r, entries (recordReport s) (data.map (·.1)) rs ⟨v, []⟩ [] = .ok r →
        s.ComesTo host σ ctx v r := by
  obtain ⟨rs, hrs, hread, hsourced⟩ := hs.entryItems (.inl hform) hreads
  refine ⟨rs, hrs, fun r hr => ⟨fun n hn => ?_, ?_⟩⟩
  · simp only [Meaning.form, hform, Meaning.record, hdata, hopen]
    exact bind_eq_ok.2 ⟨rs, hread n hn, hr⟩
  · exact entries_sourced (recordReport_sourced hs.provider) hsourced (.ok v) hr

/-- A map, if the outputs of keys can be keys. -/
theorem map (hs : s.IsSteady host σ) {key value : Schema Value}
    (hform : s.form = .map key value) (hdata : v.entries? = some data)
    (hreads : ∀ p ∈ Structure.entryItems key value data, p.1.Reads host σ ctx p.2) :
    ∃ rs, Meaning.items (Meaning.alone host σ ctx) ctx (Structure.entryItems key value data)
        = .ok rs ∧
      ∀ r, entries (mapReport s) (data.map (·.1)) rs ⟨v, []⟩ [] = .ok r →
        s.ComesTo host σ ctx v r := by
  obtain ⟨rs, hrs, hread, hsourced⟩ := hs.entryItems (.inr hform) hreads
  refine ⟨rs, hrs, fun r hr => ⟨fun n hn => ?_, ?_⟩⟩
  · simp only [Meaning.form, hform, Meaning.map, hdata]
    exact bind_eq_ok.2 ⟨rs, hread n hn, hr⟩
  · exact entries_sourced (mapReport_sourced hs.provider) hsourced (.ok v) hr

/-- An array. -/
theorem array (hs : s.IsSteady host σ) {element : Schema Value} (hform : s.form = .array element)
    (hvs : v.items? = some vs) (hreads : ∀ w ∈ vs, element.Reads host σ ctx w) :
    ∃ rs, Meaning.items (Meaning.alone host σ ctx) ctx (vs.map fun w => (element, w)) = .ok rs ∧
      s.ComesTo host σ ctx v (Structure.array rs) := by
  have hparts : ∀ p ∈ vs.map fun w => (element, w), p.1 ∈ s.form.parts := by
    simp [hform, Form.parts]
  obtain ⟨rs, hrs, hread, hsourced⟩ := hs.items hparts (List.forall_mem_map.2 hreads)
  refine ⟨rs, hrs, fun n hn => ?_, indexed_sourced hsourced⟩
  simp only [Meaning.form, hform, Meaning.array, hvs]
  exact bind_eq_ok.2 ⟨rs, hread n hn, rfl⟩

/-- A tuple of a rest alone. -/
theorem rest (hs : s.IsSteady host σ) {element : Schema Value}
    (hform : s.form = .tuple [] (some element)) (hvs : v.items? = some vs)
    (hreads : ∀ w ∈ vs, element.Reads host σ ctx w) :
    ∃ rs, Meaning.items (Meaning.alone host σ ctx) ctx (vs.map fun w => (element, w)) = .ok rs ∧
      s.ComesTo host σ ctx v (Structure.tuple vs.length rs) := by
  have hparts : ∀ p ∈ vs.map fun w => (element, w), p.1 ∈ s.form.parts := by
    simp [hform, Form.parts]
  obtain ⟨rs, hrs, hread, hsourced⟩ := hs.items hparts (List.forall_mem_map.2 hreads)
  refine ⟨rs, hrs, fun n hn => ?_, indexed_sourced hsourced⟩
  -- No position must be there, and there may be any number.
  have hlength : tupleLength 0 0 true vs.length = none := by simp [tupleLength]
  simp only [Meaning.form, hform, Meaning.tuple, hvs]
  refine bind_eq_ok.2 ⟨0, rfl, ?_⟩
  simp only [List.length_nil, Option.isSome_some, hlength]
  exact bind_eq_ok.2 ⟨rs, hread n hn, rfl⟩

end Schema.IsSteady

/-- A schema is steady with the functions of the stock if neither it nor its parts, which have none
themselves, call any. -/
theorem Schema.isSteady_of_leaves {s : Schema Value}
    (hown : σ.kinds.evaluator? s.kind = .ok (.builtin .evaluateNode)) (hbare : s.allChecks = [])
    (hsilent : s.functions = []) (herror : s.error = .null)
    (hleaves : ∀ t ∈ s.form.parts, t.form.parts = [] ∧ t.functions = [] ∧ t.IsOwn σ) :
    s.IsSteady (Stock.hostThat false) σ := by
  have hreached : ∀ t, s.Reaches (Stock.hostThat false) σ t → t = s ∨ t ∈ s.form.parts := by
    intro t ht
    induction ht with
    | self => exact .inl rfl
    | part _ hu ih =>
      rcases ih with rfl | ht
      · exact .inr hu
      · rw [(hleaves _ ht).1] at hu
        cases hu
    | lazily _ hform _ ih =>
      -- A lazy schema calls its getter.
      have hcalls : ∀ u : Schema Value, u.functions = [] → u.form.calls? = none := by
        intro u hu
        simpa [Schema.functions, Option.toList_eq_nil_iff] using (List.append_eq_nil_iff.1 hu).1
      rcases ih with rfl | ht
      · have hnone := hcalls _ hsilent
        rw [hform] at hnone
        cases hnone
      · have hnone := hcalls _ (hleaves _ ht).2.1
        rw [hform] at hnone
        cases hnone
  refine ⟨Stock.isPure_of_silent fun t ht => ?_, hown, hbare, ?_⟩
  · rcases hreached t ht with rfl | ht
    · refine ⟨hsilent, fun fn hfn => ?_⟩
      rw [hown] at hfn
      exact (Except.ok.inj hfn).symm
    · exact (hleaves t ht).2
  · rw [herror]
    exact .null

/-! ## Structures of amounts -/

namespace Samples

open Stock (hostThat)

def amount : Schema Value := ⟨2, .str "number", .number .null, [], [], .null⟩

def letter : Schema Value := ⟨1, .str "literal", .literal [.str "a"], [], [], .null⟩

def anything : Schema Value := ⟨3, .str "any", .any, [], [], .null⟩

/-- A structure without checks. -/
def bare (kind : String) (form : Form Value (Schema Value)) : Schema Value :=
  ⟨0, .str kind, form, [], [], .null⟩

theorem bare_isSteady {kind : String} {form : Form Value (Schema Value)}
    (hown : ({} : Session).kinds.evaluator? (.str kind) = .ok (.builtin .evaluateNode))
    (hform : form.checkTag? = none ∧ form.calls? = none)
    (hparts : ∀ t ∈ form.parts, t = amount ∨ t = letter ∨ t = anything) :
    (bare kind form).IsSteady (hostThat false) {} := by
  refine Schema.isSteady_of_leaves hown ?_ ?_ rfl fun t ht => ?_
  · simp [Schema.allChecks, bare, hform.1]
  · simp [Schema.functions, bare, hform.2]
  · rcases hparts t ht with rfl | rfl | rfl <;> exact ⟨rfl, rfl, fun fn hfn => by cases hfn; rfl⟩

/-- An amount, and null, which is none. -/
def values : List Value := [.int 1, .null]

/-- Null is reported without a provider of messages. -/
theorem reads_amount : ∀ w ∈ values, amount.Reads (hostThat false) {} {} w := by
  intro w hw
  rcases List.mem_pair.1 hw with rfl | rfl
  · exact ⟨.ok (.int 1), rfl, .ok (.int 1)⟩
  · exact ⟨.wrongType amount .null "number", rfl, .one ⟨.null, trivial⟩⟩

end Samples

end Assay
