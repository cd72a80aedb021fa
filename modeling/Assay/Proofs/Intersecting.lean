import Assay.Proofs.Merging
import Assay.Proofs.RoundTrip
import Assay.Proofs.Specializing
import Assay.Proofs.UnknownKeys
import Assay.Vocabulary.Methods

/-!
# Merged objects and intersections (`merge_agrees`)

Two objects that leave out unknown keys and name no key in common can be merged, which makes one
object of both shapes, or intersected, which reads a value against both and merges the outputs.
The merged object reads the positions of the first shape and then those of the second
(`Meaning.items_append`); so does the intersection, one object after the other. Outputs without a
common key merge to the entries of both (`mergeValues_of_apart`). So both find the same issues, and
come to the same output if there are none, whether the parse stops at the first failure or not.
-/

namespace Assay

open Run Structure

variable {host : Host} {σ τ : Session} {ctx : Context}

/-! ## Outputs without a common key -/

section

variable {es fs : Entries}

theorem mergeEntries_of_apart (path : List Value) {left merged rest : Entries}
    (hleft : ∀ e ∈ rest, left.find? e.1 = none) (hapart : Entries.Distinct (merged ++ rest)) :
    mergeEntries path left merged rest = .ok (merged ++ rest) := by
  induction rest generalizing merged with
  | nil => rw [List.append_nil, mergeEntries]
  | cons e rest ih =>
    obtain ⟨k, v⟩ := e
    obtain ⟨hk, hleft⟩ := List.forall_mem_cons.1 hleft
    have hnew : ∀ e ∈ merged, e.1.isFound k = false := fun e he =>
      (List.pairwise_append.1 hapart).2.2 e he (k, v) List.mem_cons_self
    have hmoved : merged ++ (k, v) :: rest = merged ++ [(k, v)] ++ rest := by simp
    rw [mergeEntries, hk]
    dsimp only
    rw [Entries.insert_of_apart hnew, hmoved]
    exact ih hleft (hmoved ▸ hapart)

/-- Mappings without a common key merge to the entries of both. -/
theorem mergeValues_of_apart (path : List Value) (hapart : Entries.Distinct (es ++ fs)) :
    mergeValues path (.dict es) (.dict fs) = .ok (.dict (es ++ fs)) := by
  obtain ⟨-, -, hacross⟩ := List.pairwise_append.1 hapart
  have hfind : ∀ f ∈ fs, Entries.find? es f.1 = none := fun f hf =>
    Entries.find?_eq_none.2 fun e he => hacross e he f hf
  cases hone : (Value.dict es).isOne (.dict fs) with
  | true =>
    -- Equal mappings without a common key are both empty.
    obtain ⟨fs', ⟨⟩, hlength, hfound⟩ : ∃ fs', Value.entries? (.dict fs) = some fs' ∧
        es.length = fs'.length ∧ Value.entriesFound es fs' = true :=
      (Value.isFound_mapping rfl).1 (Value.isOne_iff.1 hone).1
    have hes : es = [] := List.eq_nil_iff_forall_not_mem.2 fun e he => by
      obtain ⟨f, hf, hkey, -⟩ := Value.entriesFound_iff.1 hfound e he
      rw [hacross e he f hf] at hkey
      cases hkey
    subst hes
    obtain rfl : fs = [] := List.length_eq_zero_iff.1 hlength.symm
    rw [mergeValues_of_isOne hone, List.append_nil]
  | false =>
    rw [mergeValues_entries hone rfl rfl, mergeEntries_of_apart path hfind hapart]
    rfl

end

/-! ## Positions in two parts -/

section

variable {recur : Schema Value → Value → Except Fault Result} {ps qs : List (Schema Value × Value)}
  {rs rs' : List Result}

/-- The parse stops at one of the results. -/
def Context.stopsAt (ctx : Context) (rs : List Result) : Bool :=
  ctx.abortEarly && !rs.all Result.valid

theorem Meaning.each_of_parts (hps : Meaning.each recur ps = .ok rs)
    (hqs : Meaning.each recur qs = .ok rs') : Meaning.each recur (ps ++ qs) = .ok (rs ++ rs') := by
  induction ps generalizing rs with
  | nil =>
    cases hps
    exact hqs
  | cons p ps ih =>
    obtain ⟨r, hr, hps⟩ := bind_eq_ok.1 hps
    obtain ⟨rest, hrest, hps⟩ := bind_eq_ok.1 hps
    cases hps
    exact bind_eq_ok.2 ⟨r, hr, bind_eq_ok.2 ⟨rest ++ rs', ih hrest, rfl⟩⟩

theorem Meaning.inOrder_of_parts (hps : Meaning.inOrder recur ps = .ok rs)
    (hqs : Meaning.inOrder recur qs = .ok rs') : Meaning.inOrder recur (ps ++ qs) =
      .ok (if rs.all Result.valid then rs ++ rs' else rs) := by
  induction ps generalizing rs with
  | nil =>
    cases hps
    exact hqs
  | cons p ps ih =>
    obtain ⟨r, hr, hps⟩ := bind_eq_ok.1 hps
    refine bind_eq_ok.2 ⟨r, hr, ?_⟩
    cases hvalid : r.valid with
    | false =>
      rw [hvalid] at hps
      cases hps
      simp [hvalid]
      rfl
    | true =>
      rw [hvalid] at hps
      obtain ⟨rest, hrest, hps⟩ := bind_eq_ok.1 hps
      cases hps
      refine bind_eq_ok.2 ⟨_, ih hrest, ?_⟩
      simp only [List.all_cons, hvalid, Bool.true_and]
      split <;> rfl

/-- Positions in two parts are read as the parts are, unless the parse stops in the first. -/
theorem Meaning.items_append (hps : Meaning.items recur ctx ps = .ok rs)
    (hqs : Meaning.items recur ctx qs = .ok rs') : Meaning.items recur ctx (ps ++ qs) =
      .ok (if ctx.stopsAt rs then rs else rs ++ rs') := by
  unfold Meaning.items Context.stopsAt at *
  cases habort : ctx.abortEarly with
  | false =>
    rw [habort] at hps hqs
    exact Meaning.each_of_parts hps hqs
  | true =>
    rw [habort] at hps hqs
    rw [if_pos rfl, Meaning.inOrder_of_parts hps hqs]
    cases rs.all Result.valid <;> rfl

theorem Meaning.inOrder_length (h : Meaning.inOrder recur ps = .ok rs)
    (hall : rs.all Result.valid = true) : rs.length = ps.length := by
  induction ps generalizing rs with
  | nil =>
    cases h
    rfl
  | cons p ps ih =>
    obtain ⟨r, -, h⟩ := bind_eq_ok.1 h
    cases hvalid : r.valid with
    | false =>
      rw [hvalid] at h
      cases h
      simp [hvalid] at hall
    | true =>
      rw [hvalid] at h
      obtain ⟨rest, hrest, h⟩ := bind_eq_ok.1 h
      cases h
      rw [List.all_cons, hvalid, Bool.true_and] at hall
      rw [List.length_cons, List.length_cons, ih hrest hall]

/-- Unless the parse stops there is a result for each position. -/
theorem Meaning.items_length (h : Meaning.items recur ctx ps = .ok rs)
    (hgoes : ctx.stopsAt rs = false) : rs.length = ps.length := by
  unfold Meaning.items at h
  unfold Context.stopsAt at hgoes
  cases habort : ctx.abortEarly with
  | false =>
    rw [habort] at h
    exact (Meaning.each_all h).length_eq.symm
  | true =>
    rw [habort] at h hgoes
    exact Meaning.inOrder_length h (by simpa using hgoes)

end

/-! ## What objects and intersections come to -/

/-- A schema without checks that is read by its form. -/
structure Schema.IsFormal (σ : Session) (s : Schema Value) : Prop where
  own : σ.kinds.evaluator? s.kind = .ok (.builtin .evaluateNode)
  bare : s.allChecks = []

theorem Schema.IsFormal.of_form {s : Schema Value} (hform : s.form.checkTag? = none)
    (hchecks : s.checks = []) (hown : σ.kinds.evaluator? s.kind = .ok (.builtin .evaluateNode)) :
    s.IsFormal σ := by
  refine ⟨hown, ?_⟩
  rw [Schema.allChecks, hform, hchecks]
  rfl

/-- The issues of an object that leaves out unknown keys are those of its positions. Its output has
theirs, unless the parse stops. -/
def stripped (ctx : Context) (v : Value) (placed : List Placed) : Result :=
  ⟨if ctx.abortEarly && !(issuesUnder placed).isEmpty then v else .dict (outputs placed),
    issuesUnder placed⟩

theorem object_strip (s : Schema Value) (ctx : Context) (v : Value) (unknown : Entries)
    (placed : List Placed) :
    object s ctx .strip false v unknown placed = stripped ctx v placed := by
  unfold object stripped
  dsimp only
  cases h : (ctx.abortEarly && !(issuesUnder placed).isEmpty) with
  | true => rfl
  | false =>
    rw [if_neg Bool.false_ne_true, if_neg Bool.false_ne_true]
    split <;> rfl

theorem stripped_value {v : Value} {placed : List Placed} (h : (stripped ctx v placed).issues = []) :
    (stripped ctx v placed).value = .dict (outputs placed) := by
  have hnone : issuesUnder placed = [] := h
  simp [stripped, hnone]

theorem stripped_valid {keys : List Value} {rs : List Result} (hkeys : rs.length ≤ keys.length)
    (v : Value) : (stripped ctx v (placedAt keys rs)).valid = rs.all Result.valid := by
  rw [Bool.eq_iff_iff, Result.valid_iff, List.all_eq_true]
  refine ⟨valid_of_issuesUnder hkeys, fun hall => List.flatMap_eq_nil_iff.2 fun p hp => ?_⟩
  rw [Result.valid_iff.1 (hall p.2 (List.of_mem_zip hp).2), List.map_nil]

section

variable {s : Schema Value} {v : Value} {data : Entries} {shape : List (Value × Schema Value)}

/-- What a value comes to against a schema is what it comes to against its form. -/
theorem Schema.IsFormal.alone (hs : s.IsFormal σ) {x : Except Fault Result}
    (h : ∀ n, s.budget = n + 1 →
      Meaning.form host σ ctx false (meaning host σ ctx false n) n s v = x) :
    Meaning.alone host σ ctx s v = x := by
  show meaning host σ ctx false (s.depth + 1999 + 1) s v = x
  rw [meaning_of_form hs.own hs.bare]
  exact h _ rfl

theorem Schema.IsFormal.alone_object (hs : s.IsFormal σ) (hform : s.form = .object shape .strip none)
    (hdata : v.entries? = some data)
    (hcomes : ∀ p ∈ objectItems shape none data, Comes (Meaning.alone host σ ctx p.2.1 p.2.2)) :
    ∃ rs, Meaning.items (Meaning.alone host σ ctx) ctx
        ((objectItems shape none data).map (·.2)) = .ok rs ∧
      Meaning.alone host σ ctx s v = .ok (stripped ctx v (placedAt (shape.map (·.1)) rs)) := by
  have hparts : ∀ p ∈ (objectItems shape none data).map (·.2), p.1 ∈ s.form.parts := by
    rw [hform]
    exact objectItems_parts shape none data
  obtain ⟨rs, hrs, hread⟩ := Meaning.items_alone hparts (List.forall_mem_map.2 hcomes)
  refine ⟨rs, hrs, hs.alone fun n hn => ?_⟩
  simp only [Meaning.form, hform, Meaning.object, hdata, ← objectItems_keys shape data]
  exact bind_eq_ok.2 ⟨rs, hread n hn, by rw [Option.isSome_none, object_strip]; rfl⟩

theorem Schema.IsFormal.alone_intersection (hs : s.IsFormal σ) {a b : Schema Value}
    (hform : s.form = .intersection a b) {ra rb : Result}
    (ha : Meaning.alone host σ ctx a v = .ok ra) (hb : Meaning.alone host σ ctx b v = .ok rb) :
    Meaning.alone host σ ctx s v =
      intersectionResult v (if ctx.stopsAt [ra] then [ra] else [ra, rb]) := by
  have hparts : ∀ p ∈ [(a, v), (b, v)], p.1 ∈ s.form.parts := by
    simp [hform, Form.parts]
  have hcomes : ∀ p ∈ [(a, v), (b, v)], Comes (Meaning.alone host σ ctx p.1 p.2) := by
    simpa using ⟨⟨ra, ha⟩, ⟨rb, hb⟩⟩
  have hone {t : Schema Value} {r : Result} (h : Meaning.alone host σ ctx t v = .ok r) :
      Meaning.items (Meaning.alone host σ ctx) ctx [(t, v)] = .ok [r] := by
    unfold Meaning.items
    cases ctx.abortEarly <;> cases hvalid : r.valid <;>
      simp [Meaning.inOrder, Meaning.each, h, hvalid, bind, Except.bind, pure, Except.pure]
  obtain ⟨rs, hrs, hread⟩ := Meaning.items_alone hparts hcomes
  obtain rfl : _ = rs := Except.ok.inj ((Meaning.items_append (hone ha) (hone hb)).symm.trans hrs)
  refine hs.alone fun n hn => ?_
  simp only [Meaning.form, hform, hread n hn]
  rfl

end

/-! ## Derivations -/

/-- A schema that is derived by name is what the derivation of the name makes. -/
theorem deriveByName_ok {s p : Schema Value} {name : String} {args : List Value} {m : Method}
    (hm : method? host s name = some m)
    (h : (deriveByName host (.schema s) name args []).answer τ = .ok (.schema p)) :
    ∃ a τ', m.signature.bind args [] = .ok a ∧ (m.run s a).exec τ = (.ok p, τ') := by
  obtain ⟨τ', h⟩ : ∃ τ', (deriveByName host (.schema s) name args []).exec τ
      = (.ok (.schema p), τ') := ⟨_, Prod.ext h rfl⟩
  unfold deriveByName at h
  simp only [hm] at h
  obtain ⟨a, ρ, ha, h⟩ := bind_exec_ok.1 h
  obtain ⟨q, ρ', hq, h⟩ := bind_exec_ok.1 h
  rw [exec_lift] at ha
  cases h
  obtain ⟨hbound, rfl⟩ : m.signature.bind args [] = .ok a ∧ τ = ρ := Prod.mk.inj ha
  exact ⟨a, τ', hbound, hq⟩

/-- An object of another shape is derived from an object without checks, and has none itself. -/
theorem withShape_ok {s p : Schema Value} {shape shape' : List (Value × Schema Value)}
    {policy : UnknownKeys} {catchall : Option (Schema Value)} {τ' : Session}
    (h : (Derive.withShape s shape (Derive.shapeValue shape') policy catchall).exec τ
      = (.ok p, τ')) :
    s.checks = [] ∧ p.form = .object shape' policy catchall ∧ p.kind = .str "object" ∧
      p.checks = [] := by
  have hpolicy : (Value.str policy.name).str?.bind UnknownKeys.ofName? = some policy := by
    cases policy <;> rfl
  unfold Derive.withShape at h
  cases hchecks : s.checks with
  | cons c checks =>
    rw [hchecks] at h
    obtain ⟨_, _, -, hrefused⟩ := bind_exec_ok.1 h
    obtain ⟨_, _, hrefused, -⟩ := bind_exec_ok.1 hrefused
    cases hrefused
  | nil =>
    rw [hchecks] at h
    have hmade : (Construct.make (.object shape' policy catchall) { error := s.error }).exec τ
        = (.ok p, τ') := by
      rw [← Construct.object_eq hpolicy shape' catchall { error := s.error }]
      exact h
    exact ⟨rfl, make_ok rfl hmade⟩

theorem exists_shape {es : Entries} (h : ∀ e ∈ es, ∃ c, e.2 = .schema c) :
    ∃ shape, Value.dict es = Derive.shapeValue shape := by
  induction es with
  | nil => exact ⟨[], rfl⟩
  | cons e es ih =>
    obtain ⟨⟨c, hc⟩, h⟩ := List.forall_mem_cons.1 h
    obtain ⟨shape, hshape⟩ := ih h
    obtain ⟨k, w⟩ := e
    cases hc
    cases hshape
    exact ⟨(k, c) :: shape, rfl⟩

theorem shapeValue_injective : Function.Injective Derive.shapeValue := by
  intro shape shape' h
  refine List.map_injective_iff.2 (fun e f hef => ?_) (Value.dict.inj h)
  obtain ⟨hkey, hchild⟩ := Prod.mk.inj hef
  exact Prod.ext hkey (Value.schema.inj hchild)

section

variable {a b merged : Schema Value} {first second : List (Value × Schema Value)}

/-- An object without checks merged with another one has both shapes, where the second one decides
about common keys, and the policy and the catchall of the second one. It has no checks. -/
theorem merge_shapes {policy policy' : UnknownKeys} {catchall catchall' : Option (Schema Value)}
    (ha : a.form = .object first policy catchall) (hb : b.form = .object second policy' catchall')
    (h : (deriveByName host (.schema a) "merge" [.schema b] []).answer τ = .ok (.schema merged)) :
    ∃ shape, .dict (Entries.ofList ((first ++ second).map fun e => (e.1, Value.schema e.2)))
        = Derive.shapeValue shape ∧
      a.checks = [] ∧ merged.form = .object shape policy' catchall' ∧ merged.kind = .str "object" ∧
      merged.checks = [] := by
  have hmethod : method? host a "merge" = Method.object? host first policy catchall "merge" := by
    rw [method?, ha]
    rfl
  obtain ⟨args, τ', hargs, h⟩ := deriveByName_ok hmethod h
  cases Except.ok.inj hargs
  have hschemas : ∀ e ∈ (first ++ second).map fun e => (e.1, Value.schema e.2),
      ∃ c, e.2 = .schema c := List.forall_mem_map.2 fun e _ => ⟨e.2, rfl⟩
  obtain ⟨shape, hshape⟩ := exists_shape <| Entries.forall_ofList
    (P := fun _ w => ∃ c, w = .schema c) hschemas fun _ _ _ _ _ hw _ => hw
  obtain ⟨id, kind, form, extra, checks, error⟩ := b
  cases hb
  have hmade : (Derive.withShape a first (.dict (Entries.ofList
      ((first ++ second).map fun e => (e.1, Value.schema e.2)))) policy' catchall').exec τ
        = (.ok merged, τ') := h
  rw [hshape] at hmade
  exact ⟨shape, hshape, withShape_ok hmade⟩

/-- No key is named twice. -/
def ApartKeys (shape : List (Value × Schema Value)) : Prop :=
  (shape.map (·.1)).Pairwise fun k l => k.isFound l = false

/-- The first object merged with the second has both shapes. -/
theorem merge_ok (ha : a.form = .object first .strip none)
    (hb : b.form = .object second .strip none) (hapart : ApartKeys (first ++ second))
    (h : (deriveByName host (.schema a) "merge" [.schema b] []).answer τ = .ok (.schema merged)) :
    merged.form = .object (first ++ second) .strip none ∧ merged.kind = .str "object" ∧
      merged.checks = [] := by
  obtain ⟨shape, hshape, -, hmerged⟩ := merge_shapes ha hb h
  rw [Entries.ofList_of_distinct (List.pairwise_map.2 (List.pairwise_map.1 hapart))] at hshape
  obtain rfl : first ++ second = shape := shapeValue_injective hshape
  exact hmerged

theorem intersection_ok {error : Value} {s : Schema Value}
    (h : (Construct.intersection (.schema a) (.schema b) { error := error }).answer τ = .ok s) :
    s.form = .intersection a b ∧ s.kind = .str "intersection" ∧ s.checks = [] :=
  make_ok rfl (Prod.ext h rfl)

end

/-! ## Agreement -/

/-- A schema that calls no function itself calls those that its parts call, so it is pure if these
parts belong to a pure one. -/
theorem Schema.IsPure.of_parts {s t : Schema Value} (h : s.IsPure host σ)
    (hown : σ.kinds.evaluator? t.kind = .ok (.builtin .evaluateNode)) (hsilent : t.functions = [])
    (hdefault : t.form.default? = none) (hcalls : t.form.calls? = none)
    (hparts : ∀ u ∈ t.form.parts, s.Reaches host σ u) : t.IsPure host σ := by
  have hnever : ∀ getter name, t.form ≠ .lazy getter name := by
    intro getter name hform
    rw [hform] at hcalls
    cases hcalls
  have hreached : ∀ u, t.Reaches host σ u → u = t ∨ s.Reaches host σ u := by
    intro u hu
    induction hu with
    | self => exact .inl rfl
    | part _ hu ih =>
      rcases ih with rfl | ih
      · exact .inr (hparts _ hu)
      · exact .inr (.part ih hu)
    | lazily _ hform hu ih =>
      rcases ih with rfl | ih
      · exact absurd hform (hnever _ _)
      · exact .inr (.lazily ih hform hu)
  constructor
  case functions =>
    intro u hu fn hfn
    rcases hreached u hu with rfl | hu
    · rw [hsilent] at hfn
      cases hfn
    · exact h.functions u hu fn hfn
  case evaluators =>
    intro u hu fn hfn
    rcases hreached u hu with rfl | hu
    · rw [hown] at hfn
      cases hfn
      trivial
    · exact h.evaluators u hu fn hfn
  case providers => exact h.providers
  case defaults =>
    intro u hu d hd
    rcases hreached u hu with rfl | hu
    · rw [hdefault] at hd
      cases hd
    · exact h.defaults u hu d hd
  case lazies =>
    intro u w getter name getter' name' hu hw hform hform'
    rcases hreached u hu with rfl | hu
    · exact absurd hform (hnever _ _)
    rcases hreached w hw with rfl | hw
    · exact absurd hform' (hnever _ _)
    exact h.lazies u w getter name getter' name' hu hw hform hform'
  case settings => exact h.settings
  case prompt => exact h.prompt

section

variable {keys keys' : List Value} {rs rs' : List Result}

/-- The positions of a merged object are those of the two shapes, as far as the parse goes. -/
theorem placedAt_parts (hlength : rs.length ≤ keys.length)
    (hgoes : ctx.stopsAt rs = false → rs.length = keys.length) :
    placedAt (keys ++ keys') (if ctx.stopsAt rs then rs else rs ++ rs') =
      if ctx.stopsAt rs then placedAt keys rs else placedAt keys rs ++ placedAt keys' rs' := by
  cases hstops : ctx.stopsAt rs with
  | false => exact List.zip_append (hgoes hstops).symm
  | true =>
    rw [if_pos rfl, if_pos rfl]
    clear hgoes hstops
    induction keys generalizing rs with
    | nil =>
      obtain rfl : rs = [] := List.length_eq_zero_iff.1 (Nat.le_zero.1 hlength)
      exact List.zip_nil_right
    | cons k keys ih =>
      cases rs with
      | nil => rfl
      | cons r rs => exact congrArg ((k, r) :: ·) (ih (Nat.le_of_succ_le_succ hlength))

/-- An intersection of objects without a common key has the issues of both, and if there are none,
the entries of both. -/
theorem intersection_of_stripped (hlength : rs.length ≤ keys.length)
    (hgoes : ctx.stopsAt rs = false → rs.length = keys.length)
    (hapart : (keys ++ keys').Pairwise fun k l => k.isFound l = false) (v : Value)
    {r ra rb : Result} (hra : ra = stripped ctx v (placedAt keys rs))
    (hrb : rb = stripped ctx v (placedAt keys' rs'))
    (hr : r = stripped ctx v
      (placedAt (keys ++ keys') (if ctx.stopsAt rs then rs else rs ++ rs'))) :
    ∃ r', intersectionResult v (if ctx.stopsAt [ra] then [ra] else [ra, rb]) = .ok r' ∧
      r'.issues = r.issues ∧
      (r.valid = true → ∃ es, r.value = .dict es ∧ r'.value = .dict es) := by
  rw [placedAt_parts hlength hgoes] at hr
  have hvalid : ra.valid = rs.all Result.valid := hra ▸ stripped_valid hlength v
  have hstopsAt : ctx.stopsAt [ra] = ctx.stopsAt rs := by
    simp [Context.stopsAt, hvalid]
  rw [hstopsAt]
  cases hstops : ctx.stopsAt rs with
  | true =>
    rw [hstops, if_pos rfl, ← hra] at hr
    subst hr
    have hinvalid : r.valid = false := by
      rw [hvalid]
      simpa using (Bool.and_eq_true_iff.1 hstops).2
    refine ⟨⟨v, r.issues⟩, ?_, rfl, fun h => ?_⟩
    · rw [if_pos rfl]
      simp [intersectionResult]
    · rw [hinvalid] at h
      cases h
  | false =>
    rw [hstops, if_neg Bool.false_ne_true] at hr
    rw [if_neg Bool.false_ne_true]
    have hissues : r.issues = ra.issues ++ rb.issues := by
      rw [hr, hra, hrb]
      exact issuesUnder_append _ _
    have hresult : intersectionResult v [ra, rb] =
        if r.issues.isEmpty then (do return ⟨← mergeValues [] ra.value rb.value, []⟩)
        else .ok ⟨v, r.issues⟩ := by
      simp [intersectionResult, hissues]
    rw [hresult]
    cases hnone : r.issues with
    | cons i is =>
      refine ⟨⟨v, i :: is⟩, rfl, rfl, fun h => ?_⟩
      rw [Result.valid_iff.1 h] at hnone
      cases hnone
    | nil =>
      obtain ⟨hraissues, hrbissues⟩ := List.append_eq_nil_iff.1 (hissues.symm.trans hnone)
      have hravalue : ra.value = .dict (outputs (placedAt keys rs)) :=
        hra ▸ stripped_value (hra ▸ hraissues)
      have hrbvalue : rb.value = .dict (outputs (placedAt keys' rs')) :=
        hrb ▸ stripped_value (hrb ▸ hrbissues)
      have hrvalue : r.value =
          .dict (outputs (placedAt keys rs) ++ outputs (placedAt keys' rs')) := by
        rw [← outputs_append, hr]
        exact stripped_value (hr ▸ hnone)
      have hdistinct : Entries.Distinct
          (outputs (placedAt keys rs) ++ outputs (placedAt keys' rs')) := by
        rw [← outputs_append, placedAt, placedAt, ← List.zip_append (hgoes hstops).symm]
        exact outputs_distinct hapart (rs ++ rs')
      rw [hravalue, hrbvalue, mergeValues_of_apart [] hdistinct]
      exact ⟨_, rfl, rfl, fun _ => ⟨_, hrvalue, rfl⟩⟩

end

variable {v : Value} {r r' : Result}

/-- The evaluation of a value against a schema answers at once with a result. -/
def Schema.Yields (host : Host) (σ : Session) (ctx : Context) (s : Schema Value) (v : Value)
    (r : Result) : Prop :=
  (evaluate host (ctx.mayWait false) s.budget s v).answer σ = .ok (.ready r)

/-- What a schema yields is what the value comes to against it on its own. -/
theorem Schema.IsPure.yields_iff {s t : Schema Value} (hs : s.IsPure host σ)
    (ht : s.Reaches host σ t) :
    t.Yields host σ ctx v r ↔ Meaning.alone host σ ctx t v = .ok r := by
  unfold Schema.Yields
  rw [(evaluate_promptly hs.settled t.budget ht v).answer hs.settled.here]
  show (Outcome.ready <$> Meaning.alone host σ ctx t v) = _ ↔ _
  rw [map_eq_ok]
  simp

/-- A parse concludes what the value comes to. -/
theorem Schema.IsPure.parse_of_alone {s : Schema Value} (hs : s.IsPure host σ)
    (h : Meaning.alone host σ ctx s v = .ok r) :
    (safeParse host (ctx.mayWait false) s v).answer σ = (conclude host ctx r).answer σ := by
  rw [(safeParse_gives hs.settled (hs.words_fixed _) .self v).answer hs.settled.here]
  show (Meaning.alone host σ ctx s v >>= fun r => (conclude host ctx r).answer σ) = _
  rw [h]
  rfl

/-- Results with the same issues, and the same value if there are none, are concluded alike. -/
theorem conclude_congr (hissues : r'.issues = r.issues)
    (hvalue : r.valid = true → r'.value = r.value) : conclude host ctx r' = conclude host ctx r := by
  have hvalid : r'.valid = r.valid := by
    unfold Result.valid
    rw [hissues]
  unfold conclude
  rw [hvalid, hissues]
  cases h : r.valid with
  | true => rw [hvalue h]
  | false => rfl

/-- A schema is read as another when it yields the same issues, and the same mapping if there are
none. -/
structure Schema.ReadsAs (host : Host) (σ : Session) (ctx : Context) (s t : Schema Value)
    (v : Value) (r r' : Result) : Prop where
  yields : s.Yields host σ ctx v r
  yields' : t.Yields host σ ctx v r'
  issues : r'.issues = r.issues
  output : r.valid = true → ∃ es, r.value = .dict es ∧ r'.value = .dict es
  parse : (safeParse host (ctx.mayWait false) t v).answer σ =
    (safeParse host (ctx.mayWait false) s v).answer σ

/-- Two objects that leave out unknown keys, have no checks and name no key in common, the object
that the first is merged with the second to, and the intersection of the two. All are read by their
forms, and the functions that are called are pure. -/
structure Combined (host : Host) (σ : Session) (first second : List (Value × Schema Value))
    (a b merged both : Schema Value) : Prop where
  left : a.form = .object first .strip none
  right : b.form = .object second .strip none
  bare : a.checks = [] ∧ b.checks = []
  apart : ApartKeys (first ++ second)
  merge : ∃ τ, (deriveByName host (.schema a) "merge" [.schema b] []).answer τ =
    .ok (.schema merged)
  intersection : ∃ τ error,
    (Construct.intersection (.schema a) (.schema b) { error := error }).answer τ = .ok both
  own : ∀ s ∈ [a, b, merged, both], σ.kinds.evaluator? s.kind = .ok (.builtin .evaluateNode)
  pure : both.IsPure host σ

/-- In full parses and in those that stop early, two objects without a common key are read merged
as they are read intersected. -/
theorem merge_agrees {first second : List (Value × Schema Value)} {a b merged both : Schema Value}
    (h : Combined host σ first second a b merged both) {data : Entries}
    (hdata : v.entries? = some data)
    (hyields : ∀ p ∈ objectItems (first ++ second) none data,
      ∃ r, p.2.1.Yields host σ ctx p.2.2 r) :
    ∃ r r', merged.ReadsAs host σ ctx both v r r' := by
  obtain ⟨τ, hmerge⟩ := h.merge
  obtain ⟨τ', error, hintersection⟩ := h.intersection
  obtain ⟨hmergedform, -, hmergedbare⟩ := merge_ok h.left h.right h.apart hmerge
  obtain ⟨hbothform, -, hbothbare⟩ := intersection_ok hintersection
  obtain ⟨howna, hownb, hownmerged, hownboth⟩ :
    σ.kinds.evaluator? a.kind = .ok (.builtin .evaluateNode) ∧
    σ.kinds.evaluator? b.kind = .ok (.builtin .evaluateNode) ∧
    σ.kinds.evaluator? merged.kind = .ok (.builtin .evaluateNode) ∧
    σ.kinds.evaluator? both.kind = .ok (.builtin .evaluateNode) := by simpa using h.own
  have ha : a.IsFormal σ := .of_form (by rw [h.left]; rfl) h.bare.1 howna
  have hb : b.IsFormal σ := .of_form (by rw [h.right]; rfl) h.bare.2 hownb
  have hmerged : merged.IsFormal σ := .of_form (by rw [hmergedform]; rfl) hmergedbare hownmerged
  have hboth : both.IsFormal σ := .of_form (by rw [hbothform]; rfl) hbothbare hownboth
  -- The intersection reaches the schemas of both shapes, so the merged object is pure, too.
  have hparts : ∀ u ∈ merged.form.parts, both.Reaches host σ u := by
    have hside (t : Schema Value) (ht : t = a ∨ t = b) : both.Reaches host σ t :=
      .part .self (by simpa [hbothform, Form.parts] using ht)
    intro u hu
    have hu : u ∈ a.form.parts ∨ u ∈ b.form.parts := by
      simpa [hmergedform, h.left, h.right, Form.parts] using hu
    exact hu.elim (.part (hside a (.inl rfl))) (.part (hside b (.inr rfl)))
  have hpure : merged.IsPure host σ := h.pure.of_parts hownmerged
    (by rw [Schema.functions, hmergedform, hmergedbare]; rfl) (by rw [hmergedform]; rfl)
    (by rw [hmergedform]; rfl) hparts
  have hcomes : ∀ p ∈ objectItems (first ++ second) none data,
      Comes (Meaning.alone host σ ctx p.2.1 p.2.2) := by
    intro p hp
    obtain ⟨r, hr⟩ := hyields p hp
    have hpart : p.2.1 ∈ merged.form.parts := by
      rw [hmergedform]
      exact objectItems_parts _ none data p.2 (List.mem_map_of_mem hp)
    exact ⟨r, (h.pure.yields_iff (hparts _ hpart)).1 hr⟩
  have hitems : objectItems (first ++ second) none data =
      objectItems first none data ++ objectItems second none data := List.map_append
  obtain ⟨rs, hrs, haloneleft⟩ := ha.alone_object h.left hdata fun p hp =>
    hcomes p (hitems ▸ List.mem_append_left _ hp)
  obtain ⟨rs', hrs', haloneright⟩ := hb.alone_object h.right hdata fun p hp =>
    hcomes p (hitems ▸ List.mem_append_right _ hp)
  obtain ⟨all, hall, halonemerged⟩ := hmerged.alone_object hmergedform hdata hcomes
  rw [hitems, List.map_append, Meaning.items_append hrs hrs'] at hall
  cases hall
  -- All three are now said by the results of the positions, `rs` and `rs'`.
  have haloneboth := hboth.alone_intersection hbothform haloneleft haloneright
  have hlength : rs.length ≤ (first.map (·.1)).length := by
    simpa [objectItems] using Meaning.items_length_le hrs
  have hgoes : ctx.stopsAt rs = false → rs.length = (first.map (·.1)).length := fun hgoes => by
    simpa [objectItems] using Meaning.items_length hrs hgoes
  have hapart := h.apart
  rw [ApartKeys, List.map_append] at hapart
  rw [List.map_append] at halonemerged
  obtain ⟨r', hr', hissues, houtput⟩ :=
    intersection_of_stripped hlength hgoes hapart v rfl rfl rfl
  rw [hr'] at haloneboth
  refine ⟨_, r', (hpure.yields_iff .self).2 halonemerged, (h.pure.yields_iff .self).2 haloneboth,
    hissues, houtput, ?_⟩
  rw [h.pure.parse_of_alone haloneboth, hpure.parse_of_alone halonemerged]
  rw [conclude_congr hissues fun hvalid => ?_]
  obtain ⟨es, hes, hes'⟩ := houtput hvalid
  rw [hes, hes']

namespace Samples

open Stock (hostThat)

def income : Schema Value := bare "object" (.object [(.str "in", amount)] .strip none)

def expenses : Schema Value := bare "object" (.object [(.str "out", amount)] .strip none)

def balance : Schema Value :=
  bare "object" (.object [(.str "in", amount), (.str "out", amount)] .strip none)

def bothSides : Schema Value := bare "intersection" (.intersection income expenses)

theorem bothSides_cases {t : Schema Value} (h : bothSides.Reaches (hostThat false) {} t) :
    t = bothSides ∨ t = income ∨ t = expenses ∨ t = amount := by
  induction h with
  | self => exact .inl rfl
  | @part t u _ hu ih =>
    rcases ih with rfl | rfl | rfl | rfl
    · exact .inr ((List.mem_pair.1 hu).imp id .inl)
    · exact .inr (.inr (.inr (List.mem_singleton.1 hu)))
    · exact .inr (.inr (.inr (List.mem_singleton.1 hu)))
    · cases hu
  | lazily _ hform _ ih => rcases ih with rfl | rfl | rfl | rfl <;> cases hform

theorem balance_combined : Combined (hostThat false) {} [(.str "in", amount)]
    [(.str "out", amount)] income expenses balance bothSides := by
  refine ⟨rfl, rfl, ⟨rfl, rfl⟩, ?_, ⟨{}, rfl⟩, ⟨{}, .null, rfl⟩, ?_, ?_⟩
  · unfold ApartKeys
    decide
  · simp only [List.forall_mem_cons]
    exact ⟨rfl, rfl, rfl, rfl, nofun⟩
  · refine Stock.isPure_of_silent fun t ht => ?_
    rcases bothSides_cases ht with rfl | rfl | rfl | rfl <;>
      exact ⟨rfl, fun fn hfn => by cases hfn; rfl⟩

/-- No income, and nothing that would be an amount of expenses. -/
def ledger : Entries := [(.str "out", .null)]

theorem yields_ledger {ctx : Context} :
    ∀ p ∈ objectItems ([(.str "in", amount)] ++ [(.str "out", amount)]) none ledger,
      ∃ r, p.2.1.Yields (hostThat false) {} ctx p.2.2 r := by
  intro p hp
  rcases List.mem_pair.1 hp with rfl | rfl
  · exact ⟨.wrongType amount .missing "number", rfl⟩
  · exact ⟨.wrongType amount .null "number", rfl⟩

end Samples

open Samples in
/-- Both amounts are reported by a full parse, and the first of them by one that stops early. -/
theorem merge_agrees_ledger :
    (∃ r r', balance.ReadsAs (Stock.hostThat false) {} {} bothSides (.dict ledger) r r' ∧
      r'.issues.length = 2) ∧
    ∃ r r', balance.ReadsAs (Stock.hostThat false) {} { abortEarly := true } bothSides
      (.dict ledger) r r' ∧ r'.issues.length = 1 := by
  have hdata : (Value.dict ledger).entries? = some ledger := rfl
  constructor
  · obtain ⟨r, r', h⟩ := merge_agrees balance_combined hdata yields_ledger
    refine ⟨r, r', h, ?_⟩
    cases h.yields'
    rfl
  · obtain ⟨r, r', h⟩ := merge_agrees balance_combined hdata yields_ledger
    refine ⟨r, r', h, ?_⟩
    cases h.yields'
    rfl

end Assay
