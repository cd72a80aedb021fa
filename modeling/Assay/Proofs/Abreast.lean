import Assay.Proofs.Containers
import Assay.Proofs.Lockstep
import Assay.Proofs.Parts
import Assay.Proofs.Settled

/-!
# Evaluations abreast

A form that evaluates a value starts nested evaluations: of what is nested in the value, of the
value itself when it hands it on, and of other values where a part makes them (`Form.Passes`). When
all of these go in lockstep, so do the evaluations of the form (`evaluateForm_abreast`) and those of
the schema (`evaluate_abreast`).
-/

namespace Assay

open Run

/-! ## The depth of positions -/

theorem objectItems_depth {v : Value} {data : Entries} (h : v.entries? = some data)
    (shape : List (Value × Schema Value)) (catchall : Option (Schema Value)) :
    ∀ p ∈ (Structure.objectItems shape catchall data).map (·.2), p.2.depth < v.depth := by
  intro p hp
  unfold Structure.objectItems at hp
  cases catchall with
  | none =>
    obtain ⟨f, -, rfl⟩ : ∃ f ∈ shape, (f.2, (data.find? f.1).getD .missing) = p := by
      simpa using hp
    exact Value.depth_find?_lt h f.1
  | some c =>
    rw [List.map_append, List.map_map, List.map_map] at hp
    rcases List.mem_append.1 hp with hp | hp
    · obtain ⟨f, -, rfl⟩ := List.mem_map.1 hp
      exact Value.depth_find?_lt h f.1
    · obtain ⟨e, he, rfl⟩ := List.mem_map.1 hp
      exact (Value.depth_entry_lt h e (List.mem_filter.1 he).1).2

theorem tupleItems_depth {n : Nat} (hn : 0 < n) (rest : Option (Schema Value))
    (schemas : List (Schema Value)) {vs : List Value} (h : ∀ w ∈ vs, w.depth < n) :
    ∀ p ∈ Structure.tupleItems rest schemas vs, p.2.depth < n := by
  induction schemas generalizing vs with
  | nil =>
    intro p hp
    cases rest with
    | none => simp [Structure.tupleItems] at hp
    | some t =>
      obtain ⟨w, hw, rfl⟩ := List.mem_map.1 hp
      exact h w hw
  | cons t schemas ih =>
    intro p hp
    cases vs with
    | nil =>
      rcases List.mem_cons.1 hp with rfl | hp
      · exact hn
      · exact ih (by simp) p hp
    | cons w vs =>
      obtain ⟨hw, hvs⟩ := List.forall_mem_cons.1 h
      rcases List.mem_cons.1 hp with rfl | hp
      · exact hw
      · exact ih hvs p hp

theorem entryItems_depth {v : Value} {data : Entries} (h : v.entries? = some data)
    (keyType valueType : Schema Value) :
    ∀ p ∈ Structure.entryItems keyType valueType data, p.2.depth < v.depth := by
  intro p hp
  obtain ⟨e, he, hp⟩ := List.mem_flatMap.1 hp
  obtain ⟨hkey, hvalue⟩ := Value.depth_entry_lt h e he
  rcases List.mem_cons.1 hp with rfl | hp
  · exact hkey
  · obtain rfl := List.mem_singleton.1 hp
    exact hvalue

/-! ## Nested evaluations -/

/-- The schemas that a form evaluates its own value against. -/
def Form.onward {V S : Type} : Form V S → List S
  | .union options | .discriminatedUnion options _ _ => options
  | .intersection l r => [l, r]
  | .optional s | .nullable s | .readonly s => [s]
  | .default s _ | .catching s _ => [s]
  | _ => []

/-- The form evaluates no values but its own and those nested in it. -/
def Form.isDirect {V S : Type} : Form V S → Bool
  | .pipe .. | .prefault .. | .promise _ => false
  | _ => true

/-- Evaluating a value against the form may start an evaluation of another value against a part: one
that is less deep, the same one where it is handed on, and any one where parts make values anew. -/
inductive Form.Passes (form : Form Value (Schema Value)) (v : Value) : Schema Value → Value → Prop
  | inward {t : Schema Value} {w : Value} : t ∈ form.parts → w.depth < v.depth → Passes form v t w
  | onward {t : Schema Value} : t ∈ form.onward → Passes form v t v
  | anew {t : Schema Value} {w : Value} : form.isDirect = false → t ∈ form.parts →
      Passes form v t w

/-- What a form hands its value on to is a part of it. -/
theorem Form.onward_subset_parts {V S : Type} (form : Form V S) {t : S} (ht : t ∈ form.onward) :
    t ∈ form.parts := by
  cases form <;> first | exact ht | cases ht

/-- Nested evaluations are evaluations against parts. -/
theorem Form.Passes.mem_parts {form : Form Value (Schema Value)} {v w : Value} {t : Schema Value}
    (h : form.Passes v t w) : t ∈ form.parts := by
  cases h with
  | inward ht _ => exact ht
  | onward ht => exact form.onward_subset_parts ht
  | anew _ ht => exact ht

variable {p : Pace} {host : Host}

/-! ## Absence -/

theorem anySchema_lockstep {test test' : Schema Value → Run Bool} {schemas : List (Schema Value)}
    (h : ∀ t ∈ schemas, (test t).Lockstep p Eq (test' t)) :
    (anySchema test schemas).Lockstep p Eq (anySchema test' schemas) := by
  induction schemas with
  | nil => exact .pure rfl
  | cons t schemas ih =>
    obtain ⟨ht, hts⟩ := List.forall_mem_cons.1 h
    refine ht.bind ?_
    rintro b _ rfl
    split
    · exact .pure rfl
    · exact ih hts

theorem requiredPositions_lockstep {test test' : Schema Value → Run Bool}
    {schemas : List (Schema Value)} (h : ∀ t ∈ schemas, (test t).Lockstep p Eq (test' t)) :
    (requiredPositions test schemas).Lockstep p Eq (requiredPositions test' schemas) := by
  induction schemas with
  | nil => exact .pure rfl
  | cons t schemas ih =>
    obtain ⟨ht, hts⟩ := List.forall_mem_cons.1 h
    refine ht.bind ?_
    rintro b _ rfl
    split
    · exact ih hts
    · exact .pure rfl

/-- Whether a schema accepts an absent value is found out in lockstep when that is so of the parts
that it depends on. -/
theorem acceptsAbsent_lockstep {fuel fuel' : Nat} {s : Schema Value} {v : Value}
    (hrec : ∀ t, s.form.Passes v t v →
      (t.acceptsAbsent host fuel).Lockstep p Eq (t.acceptsAbsent host fuel'))
    (hlazy : ∀ getter name, s.form = .lazy getter name →
      (s.resolve host getter >>= Schema.acceptsAbsent host fuel).Lockstep p Eq
        (s.resolve host getter >>= Schema.acceptsAbsent host fuel')) :
    (s.acceptsAbsent host (fuel + 1)).Lockstep p Eq (s.acceptsAbsent host (fuel' + 1)) := by
  have honward {t : Schema Value} (ht : t ∈ s.form.onward) := hrec t (.onward ht)
  unfold Schema.acceptsAbsent
  cases hform : s.form with
  | nullable inner | readonly inner => exact honward (by simp [hform, Form.onward])
  | catching inner _ => exact honward (by simp [hform, Form.onward])
  | pipe source target =>
    exact hrec source (.anew (by simp [hform, Form.isDirect]) (by simp [hform, Form.parts]))
  | union options | discriminatedUnion options _ _ =>
    exact anySchema_lockstep fun t ht => honward (by simpa [hform, Form.onward] using ht)
  | lazy getter name => exact hlazy getter name hform
  | _ => exact .pure rfl

/-! ## Forms -/

section

variable {ctx : Context} {recur recur' : Schema Value → Value → Run (Outcome Result)}
  {s : Schema Value} {v : Value}

/-- Nested evaluations of values that are less deep go in lockstep. -/
def Inward (p : Pace) (recur recur' : Schema Value → Value → Run (Outcome Result))
    (ts : List (Schema Value)) (v : Value) : Prop :=
  ∀ t ∈ ts, ∀ w : Value, w.depth < v.depth → (recur t w).Abreast p (recur' t w)

theorem Inward.items {ts : List (Schema Value)} (h : Inward p recur recur' ts v)
    (hhost : host.Steady p) {ps : List (Schema Value × Value)} (hparts : ∀ q ∈ ps, q.1 ∈ ts)
    (hdepth : ∀ q ∈ ps, q.2.depth < v.depth) :
    (evaluateItems host recur ctx ps).Abreast p (evaluateItems host recur' ctx ps) :=
  evaluateItems_abreast hhost fun q hq => h q.1 (hparts q hq) q.2 (hdepth q hq)

theorem object_abreast (hhost : host.Steady p) {shape : List (Value × Schema Value)}
    {policy : UnknownKeys} {catchall : Option (Schema Value)}
    (h : Inward p recur recur' (shape.map (·.2) ++ catchall.toList) v) :
    (evaluateObject host ctx recur s shape policy catchall v).Abreast p
      (evaluateObject host ctx recur' s shape policy catchall v) := by
  unfold evaluateObject
  cases hdata : v.entries? with
  | none => exact Abreast.ready
  | some data =>
    exact (h.items hhost (objectItems_parts shape catchall data)
      (objectItems_depth hdata shape catchall)).map _

theorem array_abreast (hhost : host.Steady p) {element : Schema Value}
    (h : Inward p recur recur' [element] v) :
    (evaluateArray host ctx recur s element v).Abreast p
      (evaluateArray host ctx recur' s element v) := by
  unfold evaluateArray
  cases hitems : v.items? with
  | none => exact Abreast.ready
  | some vs =>
    refine (h.items hhost (fun q hq => ?_) fun q hq => ?_).map _ <;>
      obtain ⟨w, hw, rfl⟩ := List.mem_map.1 hq
    · exact List.mem_singleton_self _
    · exact Value.depth_item_lt hitems w hw

theorem tuple_abreast (hhost : host.Steady p) {absent absent' : Schema Value → Run Bool}
    {schemas : List (Schema Value)} {rest : Option (Schema Value)}
    (h : Inward p recur recur' (schemas ++ rest.toList) v)
    (habsent : 0 < v.depth → ∀ t ∈ schemas, (absent t).Lockstep p Eq (absent' t)) :
    (evaluateTuple host ctx recur absent s schemas rest v).Abreast p
      (evaluateTuple host ctx recur' absent' s schemas rest v) := by
  unfold evaluateTuple
  cases hitems : v.items? with
  | none => exact Abreast.ready
  | some vs =>
    have hpos := Value.depth_pos_of_items? hitems
    have hrequired : (requiredPositions absent schemas.reverse).Lockstep p Eq
        (requiredPositions absent' schemas.reverse) :=
      requiredPositions_lockstep fun t ht => habsent hpos t (List.mem_reverse.1 ht)
    refine hrequired.bind ?_
    rintro required _ rfl
    cases Structure.tupleLength required schemas.length rest.isSome vs.length with
    | some detail => exact Abreast.ready
    | none =>
      exact (h.items hhost (tupleItems_parts rest schemas vs)
        (tupleItems_depth hpos rest schemas (Value.depth_item_lt hitems))).map _

theorem entryItems_abreast (hhost : host.Steady p) {keyType valueType : Schema Value}
    {data : Entries} (h : Inward p recur recur' [keyType, valueType] v) (hdata : v.entries? = some data) :
    (evaluateItems host recur ctx (Structure.entryItems keyType valueType data)).Abreast p
      (evaluateItems host recur' ctx (Structure.entryItems keyType valueType data)) := by
  refine h.items hhost (fun q hq => ?_) (entryItems_depth hdata keyType valueType)
  rcases entryItems_parts keyType valueType data q hq with hq | hq <;> simp [hq]

theorem record_abreast (hhost : host.Steady p) {keyType valueType : Schema Value}
    (h : Inward p recur recur' [keyType, valueType] v) :
    (evaluateRecord host ctx recur s keyType valueType v).Abreast p
      (evaluateRecord host ctx recur' s keyType valueType v) := by
  unfold evaluateRecord
  cases hdata : v.entries? with
  | none => exact Abreast.ready
  | some data =>
    cases Construct.enumerated? keyType with
    | none => exact (entryItems_abreast hhost h hdata).lift fun rs => entries_ample _ _ rs _ _
    | some allowed =>
      cases hhashable : Value.areHashable allowed with
      | false =>
        simp only [hhashable]
        exact .throw nofun
      | true =>
        simp only [hhashable]
        refine (h.items hhost (fun q hq => ?_) fun q hq => ?_).map _ <;>
          obtain ⟨k, -, rfl⟩ := List.mem_map.1 hq
        · exact List.mem_cons_of_mem _ (List.mem_singleton_self _)
        · exact Value.depth_find?_lt hdata k

theorem map_abreast (hhost : host.Steady p) {keyType valueType : Schema Value}
    (h : Inward p recur recur' [keyType, valueType] v) :
    (evaluateMap host ctx recur s keyType valueType v).Abreast p
      (evaluateMap host ctx recur' s keyType valueType v) := by
  unfold evaluateMap
  cases hdata : v.entries? with
  | none => exact Abreast.ready
  | some data => exact (entryItems_abreast hhost h hdata).lift fun rs => entries_ample _ _ rs _ _

theorem set_abreast (hhost : host.Steady p) {element : Schema Value}
    (h : Inward p recur recur' [element] v) :
    (evaluateSet host ctx recur s element v).Abreast p
      (evaluateSet host ctx recur' s element v) := by
  have hmembers {vs : List Value} (hvs : ∀ w ∈ vs, w.depth < v.depth) :
      (evaluateItems host recur ctx ((Value.listed vs).map fun w => (element, w))).Abreast p
        (evaluateItems host recur' ctx ((Value.listed vs).map fun w => (element, w))) := by
    refine h.items hhost (fun q hq => ?_) fun q hq => ?_ <;>
      obtain ⟨w, hw, rfl⟩ := List.mem_map.1 hq
    · exact List.mem_singleton_self _
    · exact hvs w (Value.mem_listed.1 hw)
  cases v with
  | set vs | frozenSet vs =>
    exact (hmembers fun w hw => Nat.lt_succ_of_le (Value.depth_le_depthAll hw)).lift set_ample
  | _ => exact Abreast.ready

theorem discriminated_abreast {schemas : List (Schema Value)} {discriminator : Value}
    {table : List (Value × Nat)} (h : ∀ t ∈ schemas, (recur t v).Abreast p (recur' t v)) :
    (evaluateDiscriminated recur s schemas discriminator table v).Abreast p
      (evaluateDiscriminated recur' s schemas discriminator table v) := by
  unfold evaluateDiscriminated
  cases v.entries? with
  | none => exact Abreast.ready
  | some data =>
    have hhashable : (Construct.hashable discriminator).Steady p := by
      unfold Construct.hashable
      split
      · exact .pure
      · exact .throw nofun
    refine .after hhashable fun d => ?_
    dsimp only
    cases hpick : pickOption schemas table ((data.find? d).getD .missing) with
    | some t => exact h t (pickOption_mem hpick)
    | none => exact Abreast.ready

theorem catching_abreast (hp : p.Bookkeeping) (hhost : host.Steady p) {inner : Schema Value}
    {fallback : Value} (h : (recur inner v).Abreast p (recur' inner v)) :
    (evaluateCatching host ctx recur inner fallback v).Abreast p
      (evaluateCatching host ctx recur' inner fallback v) := by
  refine h.andThen fun r => ?_
  split
  · exact Abreast.ready
  · split
    · exact .after (Resolution.finalizeActive_steady hp hhost _) fun _ =>
        .after (Host.call_steady hp hhost _ _) fun _ => Abreast.ready
    · exact Abreast.ready

theorem custom_abreast (hp : p.Bookkeeping) (hhost : host.Steady p) (fn params : Value) :
    (evaluateCustom host ctx s fn params v).Abreast p (evaluateCustom host ctx s fn params v) := by
  unfold evaluateCustom
  split
  · exact Abreast.ready
  · refine (Host.callAwaiting_abreast hp hhost _ _ _).andThen fun r => ?_
    split
    · exact Abreast.ready
    · exact .after (issueParameters_steady params) fun _ => Abreast.ready

theorem promise_abreast (hp : p.Bookkeeping) (hhost : host.Steady p) {inner : Schema Value}
    (h : ∀ w, (recur inner w).Abreast p (recur' inner w)) :
    (evaluatePromise host ctx recur s inner v).Abreast p
      (evaluatePromise host ctx recur' s inner v) := by
  unfold evaluatePromise
  split
  · split
    · exact .pure (.after (Host.await_steady hp hhost _ _) fun w =>
        (h w).bind fun _ _ ho => ho.settle)
    · exact .changing (fun σ τ ht => hp.spending σ τ _ ht) (.throw nofun)
  · exact h v

/-- A form goes in lockstep with itself when the nested evaluations that it may start do. -/
theorem evaluateForm_abreast (hp : p.Bookkeeping) (hhost : host.Steady p)
    {absent absent' : Schema Value → Run Bool}
    (hdefault : ∀ d, s.form.default? = some d → (defaultValue host d).Steady p)
    (hrec : ∀ t w, s.form.Passes v t w → (recur t w).Abreast p (recur' t w))
    (hlazy : ∀ getter name, s.form = .lazy getter name →
      (s.resolve host getter >>= fun t => recur t v).Abreast p
        (s.resolve host getter >>= fun t => recur' t v))
    (habsent : 0 < v.depth → ∀ t ∈ s.form.parts, (absent t).Lockstep p Eq (absent' t)) :
    (evaluateForm host ctx recur absent s v).Abreast p
      (evaluateForm host ctx recur' absent' s v) := by
  have hinward : Inward p recur recur' s.form.parts v := fun t ht w hw => hrec t w (.inward ht hw)
  have honward {t : Schema Value} (ht : t ∈ s.form.onward) := hrec t v (.onward ht)
  have hanew {t : Schema Value} (w : Value) (hdirect : s.form.isDirect = false)
      (ht : t ∈ s.form.parts) := hrec t w (.anew hdirect ht)
  unfold evaluateForm
  cases hform : s.form with
  | object shape policy catchall => exact object_abreast hhost (by rwa [hform] at hinward)
  | array element => exact array_abreast hhost (by rwa [hform] at hinward)
  | tuple schemas rest =>
    rw [hform] at hinward habsent
    exact tuple_abreast hhost hinward fun hpos t ht => habsent hpos t (List.mem_append_left _ ht)
  | record k w => exact record_abreast hhost (by rwa [hform] at hinward)
  | map k w => exact map_abreast hhost (by rwa [hform] at hinward)
  | set element => exact set_abreast hhost (by rwa [hform] at hinward)
  | union schemas =>
    exact evaluateUnion_abreast hhost s fun t ht => honward (by simpa [hform, Form.onward] using ht)
  | discriminatedUnion schemas d table =>
    exact discriminated_abreast fun t ht => honward (by simpa [hform, Form.onward] using ht)
  | intersection l r =>
    have hitems : (evaluateItems host recur ctx [(l, v), (r, v)]).Abreast p
        (evaluateItems host recur' ctx [(l, v), (r, v)]) := by
      refine evaluateItems_abreast hhost fun q hq => ?_
      rcases List.mem_cons.1 hq with rfl | hq
      · exact honward (by simp [hform, Form.onward])
      · obtain rfl := List.mem_singleton.1 hq
        exact honward (by simp [hform, Form.onward])
    exact hitems.lift (intersectionResult_ample v)
  | optional inner =>
    have hinner := honward (t := inner) (by simp [hform, Form.onward])
    cases v with
    | missing => exact Abreast.ready
    | _ => exact hinner
  | nullable inner =>
    have hinner := honward (t := inner) (by simp [hform, Form.onward])
    cases v with
    | null => exact Abreast.ready
    | _ => exact hinner
  | default inner d =>
    have hinner := honward (t := inner) (by simp [hform, Form.onward])
    have hdefault := hdefault d (by simp [hform, Form.default?])
    cases v with
    | missing => exact .after hdefault fun _ => Abreast.ready
    | _ => exact hinner
  | prefault inner d =>
    have hinner (w : Value) : (recur inner w).Abreast p (recur' inner w) :=
      hanew w (by simp [hform, Form.isDirect]) (by simp [hform, Form.parts])
    have hdefault := hdefault d (by simp [hform, Form.default?])
    cases v with
    | missing => exact .after hdefault hinner
    | _ => exact hinner _
  | catching inner fallback =>
    exact catching_abreast hp hhost (honward (by simp [hform, Form.onward]))
  | readonly inner => exact (honward (by simp [hform, Form.onward])).map _
  | promise inner =>
    refine promise_abreast hp hhost fun w => ?_
    exact hanew w (by simp [hform, Form.isDirect]) (by simp [hform, Form.parts])
  | transform fn => exact Host.callAwaiting_abreast hp hhost _ _ _
  | pipe source target =>
    have hpart {t : Schema Value} (w : Value) (ht : t ∈ s.form.parts) :=
      hanew w (by simp [hform, Form.isDirect]) ht
    refine (hpart v (by simp [hform, Form.parts])).andThen fun r => ?_
    split
    · exact hpart r.value (by simp [hform, Form.parts])
    · exact Abreast.ready
  | lazy getter name => exact hlazy getter name hform
  | custom fn params => exact custom_abreast hp hhost fn params
  | generic => exact .throw (by rintro ⟨⟩)
  | _ => exact Abreast.ready

/-- Evaluations go in lockstep when those of the form do. -/
theorem evaluate_abreast (hp : p.Bookkeeping) (hhost : host.Steady p) {fuel fuel' : Nat}
    (h : (evaluateForm host ctx (evaluate host ctx fuel) (Schema.acceptsAbsent host fuel) s
        v).Abreast p
      (evaluateForm host ctx (evaluate host ctx fuel') (Schema.acceptsAbsent host fuel') s v)) :
    (evaluate host ctx (fuel + 1) s v).Abreast p (evaluate host ctx (fuel' + 1) s v) := by
  have hchecked {x y : Run (Outcome Result)} (hxy : x.Abreast p y) :
      (x >>= checkOutcome host ctx s).Abreast p (y >>= checkOutcome host ctx s) :=
    hxy.bind fun _ _ ho => checkOutcome_abreast hp hhost s ho
  have hother (fn : Value) := hchecked (Host.start_abreast hp hhost fn (.evaluating (.schema s) v))
  unfold evaluate
  refine Run.Lockstep.reading fun σ τ ht => ?_
  rw [hp.kinds σ τ ht]
  refine .after (.lift (evaluator?_ample _ _)) fun fn => ?_
  cases fn with
  | builtin b =>
    cases b with
    | evaluateNode => exact hchecked h
    | _ => exact hother _
  | _ => exact hother _

end

/-! ## Parses -/

/-- A copy of a default value, or what a function gives for one. -/
theorem defaultValue_steady (hp : p.Bookkeeping) (hhost : host.Steady p)
    (hcopy : ∀ s, (Construct.copy s s).Steady p) (d : Value) :
    (defaultValue host d).Steady p := by
  unfold defaultValue
  split
  · exact .bind (Host.call_steady hp hhost _ _) fun _ => .pure
  · cases d with
    | view _ | pending _ _ => exact .throw nofun
    | object _ _ => exact .bind hp.freshRef_steady fun _ => .pure
    | schema s => exact .bind (hcopy s) fun _ => .pure
    | check c => exact .bind hp.freshRef_steady fun _ => .pure
    | _ => exact .pure

/-- Evaluating along the schemas does not tell sessions that go together apart: they are closed
under parts and under what lazy schemas stand for, and neither functions nor the defaults and the
lazy schemas tell the sessions apart. -/
structure Pace.Walks (p : Pace) (host : Host) (nodes : Schema Value → Prop) : Prop where
  bookkeeping : p.Bookkeeping
  functions : host.Steady p
  deep : p.deep
  defaults : ∀ d, (defaultValue host d).Steady p
  parts : ∀ s, nodes s → ∀ t ∈ s.form.parts, nodes t
  lazies : ∀ s, nodes s → ∀ getter name, s.form = .lazy getter name →
    (s.resolve host getter).Lockstep p (fun t u => t = u ∧ nodes t) (s.resolve host getter)

namespace Pace.Walks

variable {nodes : Schema Value → Prop} {ctx : Context} {s : Schema Value}
  (h : p.Walks host nodes)
include h

theorem acceptsAbsent_steady (hs : nodes s) (fuel : Nat) :
    (s.acceptsAbsent host fuel).Steady p := by
  induction fuel generalizing s with
  | zero => exact .throw fun _ => h.deep
  | succ fuel ih =>
    refine acceptsAbsent_lockstep (v := .null) (fun t ht => ih (h.parts s hs t ht.mem_parts))
      fun getter name hform => (h.lazies s hs getter name hform).bind ?_
    rintro t _ ⟨rfl, ht⟩
    exact ih ht

theorem evaluateForm_steady {fuel : Nat}
    (hrec : ∀ t, nodes t → ∀ w, (evaluate host ctx fuel t w).Abreast p (evaluate host ctx fuel t w))
    (hs : nodes s) (v : Value) :
    (evaluateForm host ctx (evaluate host ctx fuel) (Schema.acceptsAbsent host fuel) s v).Abreast p
      (evaluateForm host ctx (evaluate host ctx fuel) (Schema.acceptsAbsent host fuel) s v) := by
  refine evaluateForm_abreast h.bookkeeping h.functions (fun d _ => h.defaults d)
    (fun t w ht => hrec t (h.parts s hs t ht.mem_parts) w)
    (fun getter name hform => (h.lazies s hs getter name hform).bind ?_)
    fun _ t ht => h.acceptsAbsent_steady (h.parts s hs t ht) fuel
  rintro t _ ⟨rfl, ht⟩
  exact hrec t ht v

theorem evaluate_steady (hs : nodes s) (fuel : Nat) (v : Value) :
    (evaluate host ctx fuel s v).Abreast p (evaluate host ctx fuel s v) := by
  induction fuel generalizing s v with
  | zero => exact .throw fun _ => h.deep
  | succ fuel ih =>
    exact evaluate_abreast h.bookkeeping h.functions
      (h.evaluateForm_steady (fun t ht w => ih ht w) hs v)

/-- A parse does not tell the sessions apart. -/
theorem safeParse_steady (hs : nodes s) (v : Value) : (safeParse host ctx s v).Steady p := by
  refine (h.evaluate_steady hs s.budget v).bind fun o o' ho => ho.settle.next fun r => ?_
  unfold conclude
  split
  · exact .pure rfl
  · exact .after (Resolution.finalizeActive_steady h.bookkeeping h.functions _) fun _ => .pure rfl

end Pace.Walks

end Assay
