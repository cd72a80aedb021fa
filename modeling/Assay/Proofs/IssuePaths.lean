import Assay.Proofs.Calls
import Assay.Proofs.Checks
import Assay.Proofs.Location
import Assay.Proofs.Parts
import Assay.Proofs.Positions
import Assay.Proofs.StockFunctions

/-!
# The paths of issues

A family of schemas that only look at the value they are given (`Locating`) reports issues whose
paths lead to their inputs. The invariant of an evaluation is that each issue is located in the
value being evaluated (`Result.Located`); a structure places the issues of a part under the key
that leads to the part, which keeps them located (`issuesUnder_located`), and every other issue
is about the value itself.
-/

namespace Assay

/-! ## Schemas that look at their value -/

/-- The form reports issues about the value as it is given: it converts nothing and hands parts
of the value on as they are. -/
def Form.locates : Form Value (Schema Value) → Bool
  | .string c | .number c | .boolean c | .date c | .format _ c _ | .integer c _ => !c.truthy
  | .null | .any | .unknown | .never | .literal _ | .enumeration .. | .object .. | .array _
  | .tuple .. | .record .. | .union _ | .discriminatedUnion .. | .intersection .. | .optional _
  | .nullable _ | .default .. | .readonly _ | .lazy .. => true
  | _ => false

/-- The form leaves a valid value as it is and has no parts. -/
def Form.isScalar : Form Value (Schema Value) → Bool
  | .string _ | .number _ | .boolean _ | .date _ | .format .. | .integer .. | .null | .any
  | .unknown | .never | .literal _ | .enumeration _ none => true
  | _ => false

/-- A family of schemas that look at the value they are given, with an invariant of the sessions
they are used in. The family is closed under the parts of schemas and under what getters answer,
and only its scalars have checks. The sessions evaluate its schemas by their forms and have
resolved its lazy schemas within the family; supplied functions may do all else. -/
structure Locating (host : Host) (I : Session → Prop) (pool : Schema Value → Prop) : Prop where
  form : ∀ s, pool s → s.form.locates = true
  checks : ∀ s, pool s →
    s.checks = [] ∨ (s.form.isScalar = true ∧ ∀ c ∈ s.checks, c.inspects = true)
  parts : ∀ s, pool s → ∀ t ∈ s.form.parts, pool t
  defaults : ∀ s inner t, pool s → s.form = .default inner (.schema t) → pool t
  lazies : ∀ s getter name, pool s → s.form = .lazy getter name →
    (getterAnswer host getter).Always I fun e => ∀ t, e = .ok (.schema t) → pool t
  functions : host.Keeps I
  bookkeeping : Bookkeeping I
  kinds : ∀ σ, I σ → ∀ s, pool s → σ.kinds.evaluator? s.kind = .ok (.builtin .evaluateNode)
  memo : ∀ σ, I σ → ∀ s t, pool s → σ.resolved.lookup s.id = some t → pool t
  noting : ∀ σ id t, I σ → pool t → I { σ with resolved := (id, t) :: σ.resolved }

/-- Every issue of the result is located in the value. -/
def Result.Located (v : Value) (r : Result) : Prop := ∀ i ∈ r.issues, i.LocatedIn v []

/-- What an evaluation comes to is located in the value. -/
def Locates (v : Value) (e : Except Fault (Timed Result)) : Prop :=
  ∀ t, e = .ok t → t.value.Located v

/-! ## Issues about the value itself -/

theorem located_ok (v w : Value) : Result.Located v ⟨w, []⟩ := by
  simp [Result.Located]

theorem located_failed (s : Schema Value) (v : Value) {detail : Detail Value (Issue Value)}
    (h : detailLocated v [] v detail) : (Result.failed s v detail).Located v := by
  simpa [Result.Located, Result.failed, Issue.LocatedIn] using h

theorem located_wrongType (s : Schema Value) (v : Value) (expected : String) :
    (Result.wrongType s v expected).Located v :=
  located_failed s v rfl

theorem located_require {test : Value → Bool} {expected : String} {s : Schema Value} {v : Value} :
    (Scalar.require test expected s v).Located v := by
  unfold Scalar.require
  split
  · exact located_ok v v
  · exact located_wrongType s v expected

theorem located_literal (s : Schema Value) (values : List Value) (v : Value) :
    (Scalar.literal s values v).Located v := by
  unfold Scalar.literal
  split
  · exact located_ok v v
  · exact located_failed s v rfl

theorem located_enumeration (s : Schema Value) (entries : List (Value × Value))
    (cls : Option (EnumClass Value)) (v : Value) :
    (Scalar.enumeration s entries cls v).Located v := by
  unfold Scalar.enumeration
  split
  · split
    · exact located_ok v _
    · exact located_failed s v rfl
  · split
    · exact located_ok v v
    · exact located_failed s v rfl

/-! ## Issues of parts -/

/-- An issue about a part is placed under the step that leads to the part. -/
theorem Issue.LocatedIn.under {v w k : Value} {i : Issue Value} (h : v.follow [k] = some w)
    (hi : i.LocatedIn w []) : (i.under [k]).LocatedIn v [] := by
  have := Issue.LocatedIn.below h i hi
  cases i
  simpa [Issue.under, Issue.LocatedIn] using this

theorem issuesUnder_located {v : Value} {placed : List Placed}
    (h : ∀ p ∈ placed, ∃ w, v.follow [p.1] = some w ∧ p.2.Located w) :
    ∀ i ∈ Structure.issuesUnder placed, i.LocatedIn v [] := by
  intro i hi
  obtain ⟨p, hp, hi⟩ := List.mem_flatMap.1 hi
  obtain ⟨j, hj, rfl⟩ := List.mem_map.1 hi
  obtain ⟨w, hw, hlocated⟩ := h p hp
  exact (hlocated j hj).under hw

/-- The results of a sequence stand under their indices. -/
theorem indexed_located {v : Value} {vs : List Value} (hvs : v.items? = some vs)
    {rs : List Result} {n : Nat}
    (h : ∀ (i : Nat) r, rs[i]? = some r → r.Located (vs[n + i]?.getD .missing)) :
    ∀ p ∈ Structure.indexed n rs, ∃ w, v.follow [p.1] = some w ∧ p.2.Located w := by
  induction rs generalizing n with
  | nil => simp [Structure.indexed]
  | cons r rs ih =>
    refine List.forall_mem_cons.2 ⟨⟨_, Value.follow_index hvs n, h 0 r rfl⟩, ih fun i r' hr => ?_⟩
    have := h (i + 1) r' hr
    rwa [← Nat.add_assoc, Nat.add_right_comm] at this

/-! ## Structures -/

section

variable {host : Host} {ctx : Context} {I : Session → Prop} {pool : Schema Value → Prop}
  {recur : Schema Value → Value → Run (Outcome Result)} {s : Schema Value} {v : Value}

/-- Nested schemas of the family report issues that are located in the values they are given. -/
def Nested (I : Session → Prop) (pool : Schema Value → Prop)
    (recur : Schema Value → Value → Run (Outcome Result)) :
    Prop :=
  ∀ t, pool t → ∀ w, w.distinctKeys = true → (recur t w).Brings I (Locates w)

/-- The results belong to positions in order, each located in the value at its position. -/
def PlacedIn (items : List (Schema Value × Value)) (rs : List Result) : Prop :=
  ∀ (i : Nat) r, rs[i]? = some r → ∃ p, items[i]? = some p ∧ r.Located p.2

theorem PlacedIn.zip {items : List (Schema Value × Value)} {rs : List Result}
    (h : PlacedIn items rs) : ∀ x ∈ items.zip rs, x.2.Located x.1.2 := by
  intro x hx
  obtain ⟨i, hi⟩ := List.getElem?_of_mem hx
  obtain ⟨hp, hr⟩ := List.getElem?_zip_eq_some.1 hi
  obtain ⟨p, hp', hlocated⟩ := h i x.2 hr
  rw [hp, Option.some.injEq] at hp'
  exact hp' ▸ hlocated

/-- Each position has a result that is located in the value at the position. -/
theorem evaluateItems_located (hrec : Nested I pool recur) {items : List (Schema Value × Value)}
    (hitems : ∀ p ∈ items, pool p.1 ∧ p.2.distinctKeys = true) :
    (evaluateItems host recur ctx items).Brings I fun e =>
      ∀ t, e = .ok t → PlacedIn items t.value := by
  refine (evaluateItems_brings (P := fun p => Locates p.2) ctx items
    fun p hp => hrec p.1 (hitems p hp).1 p.2 (hitems p hp).2).mono ?_
  rintro e he t rfl
  exact getElem?_of_evaluated (Q := fun p r => r.Located p.2) (fun p u hu => hu u rfl) he

/-- The positions of an object lead to the values that are evaluated there. -/
theorem objectItems_follow {data : Entries} (hdata : v.entries? = some data)
    (hv : v.distinctKeys = true) (shape : List (Value × Schema Value))
    (catchall : Option (Schema Value)) :
    ∀ item ∈ Structure.objectItems shape catchall data,
      v.follow [item.1] = some item.2.2 ∧ item.2.2.distinctKeys = true ∧
        item.2.1 ∈ shape.map (·.2) ++ catchall.toList := by
  obtain ⟨hdistinct, hvalues⟩ := Value.distinctKeys_entries hv hdata
  have hnamed : ∀ item ∈ shape.map fun f => (f.1, f.2, (data.find? f.1).getD .missing),
      v.follow [item.1] = some item.2.2 ∧ item.2.2.distinctKeys = true ∧
        item.2.1 ∈ shape.map (·.2) ++ catchall.toList := by
    intro item hitem
    obtain ⟨f, hf, rfl⟩ := List.mem_map.1 hitem
    exact ⟨Value.follow_key hdata f.1, Value.distinctKeys_find hvalues f.1,
      List.mem_append_left _ (List.mem_map_of_mem hf)⟩
  cases catchall with
  | none => exact hnamed
  | some c =>
    intro item hitem
    rcases List.mem_append.1 hitem with hitem | hitem
    · exact hnamed item hitem
    · obtain ⟨e, he, rfl⟩ := List.mem_map.1 hitem
      have hmem : e ∈ data := (List.mem_filter.1 he).1
      refine ⟨?_, (hvalues e hmem).2, by simp⟩
      rw [Value.follow_key hdata, Entries.find?_of_mem hdistinct (k := e.1) (v := e.2) hmem]
      rfl

/-- Results of positions with their keys are results of the positions. -/
theorem mem_zip_keys {items : List (Value × Schema Value × Value)} {rs : List Result}
    {p : Placed} (h : p ∈ placedAt (items.map (·.1)) rs) :
    ∃ item ∈ items, p.1 = item.1 ∧ (item.2, p.2) ∈ (items.map (·.2)).zip rs := by
  rw [placedAt, List.zip_map_left] at h
  obtain ⟨⟨item, r⟩, hmem, rfl⟩ := List.mem_map.1 h
  refine ⟨item, (List.of_mem_zip hmem).1, rfl, ?_⟩
  rw [List.zip_map_left]
  exact List.mem_map.2 ⟨(item, r), hmem, rfl⟩

theorem located_object {policy : UnknownKeys} {hasCatchall : Bool} {unknown : Entries}
    {placed : List Placed} (h : ∀ i ∈ Structure.issuesUnder placed, i.LocatedIn v []) :
    (Structure.object s ctx policy hasCatchall v unknown placed).Located v := by
  unfold Structure.object
  dsimp only
  split
  · exact h
  · split
    · exact h
    · split
      · exact h
      · exact h
      · intro i hi
        rcases List.mem_append.1 hi with hi | hi
        · exact h i hi
        · obtain rfl := List.mem_singleton.1 hi
          rfl

theorem evaluateObject_located (hrec : Nested I pool recur) (hv : v.distinctKeys = true)
    (shape : List (Value × Schema Value)) (policy : UnknownKeys)
    (catchall : Option (Schema Value)) (hparts : ∀ t ∈ shape.map (·.2) ++ catchall.toList, pool t) :
    (evaluateObject host ctx recur s shape policy catchall v).Brings I
      (Locates v) := by
  unfold evaluateObject
  split
  · exact .ready (by rintro t ⟨⟩; exact located_wrongType s v "object")
  · rename_i data hdata
    have hfollow := objectItems_follow hdata hv shape catchall
    refine (evaluateItems_located hrec ?_).map ?_ (by rintro e he t ⟨⟩)
    · intro p hp
      obtain ⟨item, hitem, rfl⟩ := List.mem_map.1 hp
      exact ⟨hparts _ (hfollow item hitem).2.2, (hfollow item hitem).2.1⟩
    · rintro t ht u ⟨⟩
      refine located_object (issuesUnder_located fun p hp => ?_)
      obtain ⟨item, hitem, hkey, hmem⟩ := mem_zip_keys hp
      exact ⟨item.2.2, hkey ▸ (hfollow item hitem).1, (ht t rfl).zip _ hmem⟩

theorem evaluateArray_located (hrec : Nested I pool recur) (hv : v.distinctKeys = true)
    (element : Schema Value) (hparts : pool element) :
    (evaluateArray host ctx recur s element v).Brings I (Locates v) := by
  unfold evaluateArray
  split
  · exact .ready (by rintro t ⟨⟩; exact located_wrongType s v "array")
  · rename_i vs hvs
    refine (evaluateItems_located hrec ?_).map ?_ (by rintro e he t ⟨⟩)
    · intro p hp
      obtain ⟨w, hw, rfl⟩ := List.mem_map.1 hp
      exact ⟨hparts, Value.distinctKeys_items hv hvs w hw⟩
    · rintro t ht u ⟨⟩
      refine issuesUnder_located (indexed_located hvs fun i r hr => ?_)
      obtain ⟨p, hp, hlocated⟩ := ht t rfl i r hr
      obtain ⟨w, hw, rfl⟩ := Option.map_eq_some_iff.1 (List.getElem?_map .. ▸ hp)
      simpa [hw] using hlocated

/-- The positions of a tuple are those of its value, absent beyond the end. -/
theorem tupleItems_getElem? (rest : Option (Schema Value)) (items : List (Schema Value))
    (vs : List Value) : ∀ (i : Nat) p, (Structure.tupleItems rest items vs)[i]? = some p →
      p.2 = vs[i]?.getD .missing ∧ p.1 ∈ items ++ rest.toList := by
  induction items generalizing vs with
  | nil =>
    intro i p hp
    cases rest with
    | none => simp [Structure.tupleItems] at hp
    | some r =>
      obtain ⟨w, hw, rfl⟩ := Option.map_eq_some_iff.1 (List.getElem?_map .. ▸ hp)
      simp [hw]
  | cons s ss ih =>
    have hmem : ∀ {p}, p ∈ ss ++ rest.toList → p ∈ s :: ss ++ rest.toList :=
      List.mem_cons_of_mem s
    rintro (_ | i) p hp
    · cases vs <;> cases hp <;> simp
    · cases vs with
      | nil =>
        obtain ⟨hvalue, hin⟩ := ih [] i p hp
        exact ⟨by simpa using hvalue, hmem hin⟩
      | cons w vs =>
        obtain ⟨hvalue, hin⟩ := ih vs i p hp
        exact ⟨hvalue, hmem hin⟩

theorem requiredPositions_keeps {acceptsAbsent : Schema Value → Run Bool}
    (items : List (Schema Value)) (h : ∀ t ∈ items, (acceptsAbsent t).Keeps I) :
    (requiredPositions acceptsAbsent items).Keeps I := by
  induction items with
  | nil => exact Run.Keeps.pure
  | cons t items ih =>
    refine (h t (List.mem_cons_self ..)).bind fun b => ?_
    split
    · exact ih fun u hu => h u (List.mem_cons_of_mem _ hu)
    · exact Run.Keeps.pure

theorem detailLocated_of_flat {d : Detail Value (Issue Value)} (h : d.isFlat = true) :
    detailLocated v [] v d := by
  cases d <;> first | rfl | cases h

theorem located_tupleLength {required size length : Nat} {hasRest : Bool}
    {detail : Detail Value (Issue Value)}
    (h : Structure.tupleLength required size hasRest length = some detail) :
    (Result.failed s v detail).Located v :=
  located_failed s v (detailLocated_of_flat (tupleLength_flat h))

theorem evaluateTuple_located (hrec : Nested I pool recur) (hv : v.distinctKeys = true)
    {acceptsAbsent : Schema Value → Run Bool}
    (habsent : ∀ t, pool t → (acceptsAbsent t).Keeps I)
    (items : List (Schema Value)) (rest : Option (Schema Value))
    (hparts : ∀ t ∈ items ++ rest.toList, pool t) :
    (evaluateTuple host ctx recur acceptsAbsent s items rest v).Brings I
      (Locates v) := by
  unfold evaluateTuple
  split
  · exact .ready (by rintro t ⟨⟩; exact located_wrongType s v "tuple")
  · rename_i vs hvs
    have hrequired : (requiredPositions acceptsAbsent items.reverse).Keeps I :=
      requiredPositions_keeps _ fun t ht =>
        habsent t (hparts t (List.mem_append_left _ (List.mem_reverse.1 ht)))
    refine .bind hrequired (fun required _ => ?_) (by rintro e - t ⟨⟩)
    split
    · rename_i detail hlength
      exact .ready (by rintro t ⟨⟩; exact located_tupleLength hlength)
    · have hitems := tupleItems_getElem? rest items vs
      refine (evaluateItems_located hrec ?_).map ?_ (by rintro e he t ⟨⟩)
      · intro p hp
        obtain ⟨i, hi⟩ := List.getElem?_of_mem hp
        obtain ⟨hvalue, hmem⟩ := hitems i p hi
        refine ⟨hparts _ hmem, ?_⟩
        rw [hvalue]
        cases hw : vs[i]? with
        | none => rfl
        | some w => exact Value.distinctKeys_items hv hvs w (List.mem_of_getElem? hw)
      · rintro t ht u ⟨⟩
        refine issuesUnder_located (indexed_located hvs fun i r hr => ?_)
        obtain ⟨p, hp, hlocated⟩ := ht t rfl i r hr
        rw [(hitems i p hp).1] at hlocated
        simpa using hlocated

/-! ## Records -/

/-- The issues of entries: each key is named, and each value is located under its key. -/
theorem located_entries {data : Entries} (hdata : v.entries? = some data)
    (hdistinct : data.Distinct) {keyType valueType : Schema Value} {rs : List Result}
    (h : PlacedIn (Structure.entryItems keyType valueType data) rs) {acc r : Result}
    {output : Entries} (hacc : acc.Located v)
    (hr : Structure.entries (Structure.recordReport s) (data.map (·.1)) rs acc output = .ok r) :
    r.Located v := by
  intro i hi
  rcases mem_entries_issues hr hi with hi | ⟨n, k, hk, hfound⟩
  · exact hacc i hi
  rw [List.getElem?_map] at hk
  obtain ⟨e, he, rfl⟩ := Option.map_eq_some_iff.1 hk
  have hmem := List.mem_of_getElem? he
  obtain ⟨kr, -, hi⟩ | ⟨vr, hvr, hi⟩ := hfound
  · unfold Structure.EntryReport.ofKey at hi
    split at hi
    · cases hi
    · obtain rfl := List.mem_singleton.1 hi
      refine ⟨[], data, rfl, ?_, List.mem_map_of_mem hmem⟩
      simpa using hdata
  · obtain ⟨p, hp, hlocated⟩ := h _ vr hvr
    rw [entryItems_value, he] at hp
    cases hp
    unfold Structure.EntryReport.ofValue at hi
    split at hi
    · cases hi
    · obtain ⟨j, hj, rfl⟩ := List.mem_map.1 hi
      refine (hlocated j hj).under ?_
      rw [Value.follow_key hdata, Entries.find?_of_mem hdistinct (k := e.1) (v := e.2) hmem]
      rfl

theorem evaluateRecord_located (hrec : Nested I pool recur) (hv : v.distinctKeys = true)
    (keyType valueType : Schema Value) (hkeyType : pool keyType) (hvalueType : pool valueType) :
    (evaluateRecord host ctx recur s keyType valueType v).Brings I (Locates v) := by
  unfold evaluateRecord
  split
  · exact .ready (by rintro t ⟨⟩; exact located_wrongType s v "record")
  · rename_i data hdata
    obtain ⟨hdistinct, hvalues⟩ := Value.distinctKeys_entries hv hdata
    split
    · rename_i allowed _
      split
      · exact .throw (by rintro t ⟨⟩)
      · refine (evaluateItems_located hrec ?_).map ?_ (by rintro e he t ⟨⟩)
        · intro p hp
          obtain ⟨k, -, rfl⟩ := List.mem_map.1 hp
          exact ⟨hvalueType, Value.distinctKeys_find hvalues k⟩
        · rintro t ht u ⟨⟩
          have hplaced : ∀ i ∈ Structure.issuesUnder (placedAt allowed t.value),
              i.LocatedIn v [] := by
            refine issuesUnder_located fun p hp => ?_
            obtain ⟨i, hi⟩ := List.getElem?_of_mem hp
            obtain ⟨hk, hr⟩ := List.getElem?_zip_eq_some.1 hi
            obtain ⟨q, hq, hlocated⟩ := ht t rfl i p.2 hr
            obtain ⟨k, hk', rfl⟩ := Option.map_eq_some_iff.1 (List.getElem?_map .. ▸ hq)
            rw [hk, Option.some.injEq] at hk'
            exact ⟨_, Value.follow_key hdata p.1, hk' ▸ hlocated⟩
          unfold Structure.enumeratedRecord
          dsimp only
          split
          · exact hplaced
          · intro i hi
            rcases List.mem_append.1 hi with hi | hi
            · exact hplaced i hi
            · obtain rfl := List.mem_singleton.1 hi
              rfl
    · refine (evaluateItems_located hrec ?_).andThen ?_ (by rintro e he t ⟨⟩)
      · intro p hp
        obtain ⟨e, he, hp⟩ := List.mem_flatMap.1 hp
        rcases List.mem_cons.1 hp with rfl | hp
        · exact ⟨hkeyType, (hvalues e he).1⟩
        · obtain rfl := List.mem_singleton.1 hp
          exact ⟨hvalueType, (hvalues e he).2⟩
      · intro t ht
        refine .bind (.lift rfl) (fun r hr => .ready ?_) (by rintro e - t ⟨⟩)
        rintro u ⟨⟩
        exact located_entries hdata hdistinct (ht t rfl) (located_ok v v) hr

/-! ## Unions and modifiers -/

theorem located_union {results : List Result} (h : ∀ r ∈ results, r.Located v) :
    (unionResult s v results).Located v := by
  unfold unionResult
  split
  · exact located_ok v _
  · refine located_failed s v ⟨rfl, groupsLocated_iff.2 fun g hg i hi => ?_⟩
    obtain ⟨r, hr, rfl⟩ := List.mem_map.1 hg
    exact h r hr i hi

/-- The answers of the options that were tried are answers of options. -/
theorem forall_of_tries {α : Type} {P : α → Except Fault (Timed Result) → Prop} {waiting : Bool}
    {as : List α} {ts : List (Timed Result)} (h : Tries P waiting as ts) :
    ∀ t ∈ ts, ∃ a ∈ as, P a (.ok t) := by
  induction h with
  | done => simp
  | takes ha _ _ => simpa using .inl ha
  | goes ha _ _ ih =>
    refine List.forall_mem_cons.2 ⟨⟨_, List.mem_cons_self .., ha⟩, fun t ht => ?_⟩
    obtain ⟨a, hmem, ha⟩ := ih t ht
    exact ⟨a, List.mem_cons_of_mem _ hmem, ha⟩

theorem evaluateUnion_located (hrec : Nested I pool recur) (hv : v.distinctKeys = true)
    (options : List (Schema Value)) (hparts : ∀ t ∈ options, pool t) :
    (evaluateUnion host recur s options v).Brings I (Locates v) := by
  refine (evaluateUnion_brings (P := fun _ => Locates v) s options
    fun o ho => hrec o (hparts o ho) v hv).mono ?_
  rintro e he t rfl
  obtain ⟨ts, hts, rfl⟩ := he
  refine located_union fun r hr => ?_
  obtain ⟨u, hu, rfl⟩ := List.mem_map.1 hr
  obtain ⟨-, -, hlocated⟩ := forall_of_tries hts u hu
  exact hlocated u rfl

theorem evaluateDiscriminated_located (hrec : Nested I pool recur) (hv : v.distinctKeys = true)
    (options : List (Schema Value)) (discriminator : Value) (table : List (Value × Nat))
    (hparts : ∀ t ∈ options, pool t) :
    (evaluateDiscriminated recur s options discriminator table v).Brings I
      (Locates v) := by
  unfold evaluateDiscriminated
  split
  · exact .ready (by rintro t ⟨⟩; exact located_wrongType s v "object")
  · rename_i data hdata
    unfold Construct.hashable
    split
    · refine .bind (.pure rfl) (fun d hd => ?_) (by rintro e - t ⟨⟩)
      obtain rfl : discriminator = d := by simpa using hd
      dsimp only
      split
      · rename_i option hpick
        exact hrec option (hparts option (pickOption_mem hpick)) v hv
      · refine .ready ?_
        rintro t ⟨⟩ i hi
        obtain rfl := List.mem_singleton.1 hi
        exact ⟨Value.follow_key hdata _, trivial⟩
    · exact .bind (P := fun e => e = .error .unsupported) (.throw rfl) (fun _ h => nomatch h)
        (by rintro e - t ⟨⟩)

theorem evaluateIntersection_located (hrec : Nested I pool recur) (hv : v.distinctKeys = true)
    (left right : Schema Value) (hleft : pool left) (hright : pool right) :
    (evaluateIntersection host ctx recur left right v).Brings I (Locates v) := by
  refine (evaluateItems_located hrec ?_).andThen ?_ (by rintro e he t ⟨⟩)
  · simp [hleft, hright, hv]
  · intro t ht
    refine .bind (.lift rfl) (fun r hr => .ready ?_) (by rintro e - t ⟨⟩)
    rintro u ⟨⟩
    have hissues : ∀ i ∈ t.value.flatMap (·.issues), i.LocatedIn v [] := by
      intro i hi
      obtain ⟨q, hq, hi⟩ := List.mem_flatMap.1 hi
      obtain ⟨n, hn⟩ := List.getElem?_of_mem hq
      obtain ⟨p, hp, hlocated⟩ := ht t rfl n q hn
      have hmem := List.mem_of_getElem? hp
      obtain rfl | rfl : p = (left, v) ∨ p = (right, v) := by simpa using hmem
      · exact hlocated i hi
      · exact hlocated i hi
    unfold intersectionResult at hr
    dsimp only at hr
    split at hr
    · split at hr
      · obtain ⟨w, -, hr⟩ := bind_eq_ok.1 hr
        cases hr
        exact located_ok v w
      · cases hr
        exact hissues
    · cases hr
      exact hissues

end

/-! ## Lazy schemas and defaults -/

section

variable {host : Host} {ctx : Context} {I : Session → Prop} {pool : Schema Value → Prop} {s : Schema Value} {v : Value}

/-- A lazy schema of the family stands for a schema of the family. -/
theorem resolve_always (h : Locating host I pool) (hs : pool s) {getter name : Value}
    (hform : s.form = .lazy getter name) :
    (s.resolve host getter).Always I fun e => ∀ t, e = .ok t → pool t := by
  refine .reading fun σ hσ => ?_
  split
  · rename_i inner hinner
    refine .pure ?_
    rintro t ⟨⟩
    exact h.memo σ hσ s inner hs hinner
  · refine (h.lazies s getter name hs hform).bind (fun answer hanswer => ?_) (by rintro e - t ⟨⟩)
    unfold Construct.schemaAt
    split
    · rename_i t
      have ht : pool t := hanswer t rfl
      refine .bind (Q := fun e => e = .ok t) (.pure rfl) (fun u hu => ?_) (by rintro e ⟨⟩)
      cases hu
      refine .changing (fun τ hτ => h.noting τ _ _ hτ ht) (.pure ?_)
      rintro u ⟨⟩
      exact ht
    · exact .bind (Q := fun e => ∃ f, e = .error f) (.throw ⟨_, rfl⟩) (by rintro u ⟨f, ⟨⟩⟩)
        (by rintro e - t ⟨⟩)

theorem anySchema_keeps {test : Schema Value → Run Bool}
    (ss : List (Schema Value)) (h : ∀ t ∈ ss, (test t).Keeps I) : (anySchema test ss).Keeps I := by
  induction ss with
  | nil => exact Run.Keeps.pure
  | cons t ss ih =>
    refine (h t (List.mem_cons_self ..)).bind fun b => ?_
    split
    · exact Run.Keeps.pure
    · exact ih fun u hu => h u (List.mem_cons_of_mem _ hu)

theorem acceptsAbsent_keeps (h : Locating host I pool) (fuel : Nat) :
    ∀ s, pool s → (s.acceptsAbsent host fuel).Keeps I := by
  induction fuel with
  | zero => exact fun s _ => .throw
  | succ fuel ih =>
    intro s hs
    have hparts := h.parts s hs
    unfold Schema.acceptsAbsent
    split
    · exact .pure
    · exact .pure
    · exact .pure
    · rename_i inner hform
      exact ih inner (hparts inner (by simp [hform, Form.parts]))
    · rename_i inner _ hform
      exact ih inner (hparts inner (by simp [hform, Form.parts]))
    · rename_i inner hform
      exact ih inner (hparts inner (by simp [hform, Form.parts]))
    · rename_i source _ hform
      exact ih source (hparts source (by simp [hform, Form.parts]))
    · rename_i options hform
      exact anySchema_keeps options fun t ht => ih t (hparts t (by simpa [hform, Form.parts] using ht))
    · rename_i options _ _ hform
      exact anySchema_keeps options fun t ht => ih t (hparts t (by simpa [hform, Form.parts] using ht))
    · rename_i hform
      exact (resolve_always h hs hform).bind (fun t ht => ih t (ht t rfl)) fun _ _ => trivial
    · exact .pure

theorem copyDefault_keeps (h : Locating host I pool) {inner : Schema Value} {d : Value} (hs : pool s)
    (hform : s.form = .default inner d) : (copyDefault d).Keeps I := by
  unfold copyDefault
  split
  · exact .throw
  · exact .throw
  · exact h.bookkeeping.freshRef.bind fun _ => .pure
  · rename_i t
    have ht : pool t := h.defaults s inner t hs hform
    refine Run.Keeps.bind ?_ fun _ => .pure
    refine h.bookkeeping.freshRef.bind fun ref => .reading fun σ hσ => ?_
    split
    · rename_i u hu
      exact .changing (fun τ hτ => h.noting τ _ _ hτ (h.memo σ hσ t u ht hu)) Run.Keeps.pure
    · exact Run.Keeps.pure
  · exact h.bookkeeping.freshRef.bind fun _ => .pure
  · exact .pure

theorem defaultValue_keeps (h : Locating host I pool) {inner : Schema Value} {d : Value}
    (hs : pool s) (hform : s.form = .default inner d) :
    (defaultValue host d).Keeps I := by
  unfold defaultValue
  split
  · exact (Host.call_keeps h.bookkeeping h.functions).bind fun _ => .pure
  · exact copyDefault_keeps h hs hform

end

/-! ## Forms -/

section

variable {host : Host} {ctx : Context} {I : Session → Prop} {pool : Schema Value → Prop} {s : Schema Value} {v : Value}
  {recur : Schema Value → Value → Run (Outcome Result)}

theorem located_string {c : Bool} (h : (!c) = true) : (Scalar.string s c v).Located v := by
  rw [Bool.not_eq_true'] at h
  subst h
  exact located_require

theorem located_number {c : Bool} (h : (!c) = true) : (Scalar.number s c v).Located v := by
  rw [Bool.not_eq_true'] at h
  subst h
  exact located_require

theorem located_boolean {c : Bool} (h : (!c) = true) : (Scalar.boolean s c v).Located v := by
  rw [Bool.not_eq_true'] at h
  subst h
  exact located_require

theorem located_date {c : Bool} (h : (!c) = true) : (Scalar.date s c v).Located v := by
  rw [Bool.not_eq_true'] at h
  subst h
  exact located_require

/-- Whatever the form of a schema of the family reports about a value is located in it. -/
theorem evaluateForm_located (h : Locating host I pool) (hs : pool s) (hrec : Nested I pool recur)
    {acceptsAbsent : Schema Value → Run Bool}
    (habsent : ∀ t, pool t → (acceptsAbsent t).Keeps I) (hv : v.distinctKeys = true) :
    (evaluateForm host ctx recur acceptsAbsent s v).Brings I (Locates v) := by
  have hparts := h.parts s hs
  have hlocates := h.form s hs
  have itself : ∀ {r : Result}, r.Located v →
      (pure (.ready r) : Run (Outcome Result)).Brings I (Locates v) := by
    rintro r hr
    exact .ready (by rintro t ⟨⟩; exact hr)
  unfold evaluateForm
  revert hparts hlocates
  cases hform : s.form with
  | string c | format _ c _ =>
    exact fun _ hc => itself (located_string hc)
  | number c | integer c _ =>
    exact fun _ hc => itself (located_number hc)
  | boolean c =>
    exact fun _ hc => itself (located_boolean hc)
  | date c =>
    exact fun _ hc => itself (located_date hc)
  | null => exact fun _ _ => itself located_require
  | any | unknown => exact fun _ _ => itself (located_ok v v)
  | never => exact fun _ _ => itself (located_wrongType s v "never")
  | literal values => exact fun _ _ => itself (located_literal s values v)
  | enumeration entries cls => exact fun _ _ => itself (located_enumeration s entries cls v)
  | object shape policy catchall =>
    exact fun hparts _ => evaluateObject_located hrec hv shape policy catchall hparts
  | array element =>
    exact fun hparts _ => evaluateArray_located hrec hv element (hparts _ (by simp [Form.parts]))
  | tuple items rest =>
    exact fun hparts _ => evaluateTuple_located hrec hv habsent items rest hparts
  | record k w =>
    exact fun hparts _ => evaluateRecord_located hrec hv k w (hparts k (by simp [Form.parts]))
      (hparts w (by simp [Form.parts]))
  | union options => exact fun hparts _ => evaluateUnion_located hrec hv options hparts
  | discriminatedUnion options d table =>
    exact fun hparts _ => evaluateDiscriminated_located hrec hv options d table hparts
  | intersection l r =>
    exact fun hparts _ => evaluateIntersection_located hrec hv l r
      (hparts l (by simp [Form.parts])) (hparts r (by simp [Form.parts]))
  | optional inner | nullable inner =>
    intro hparts _
    dsimp only
    split
    · exact itself (located_ok _ _)
    · exact hrec inner (hparts inner (by simp [Form.parts])) v hv
  | default inner d =>
    intro hparts _
    dsimp only
    split
    · exact .bind (defaultValue_keeps h hs hform)
        (fun w _ => itself (located_ok _ w)) (by rintro e - t ⟨⟩)
    · exact hrec inner (hparts inner (by simp [Form.parts])) v hv
  | readonly inner =>
    intro hparts _
    refine (hrec inner (hparts inner (by simp [Form.parts])) v hv).map ?_ (by rintro e - t ⟨⟩)
    rintro t ht u ⟨⟩
    dsimp only
    split
    · exact located_ok v _
    · exact ht t rfl
  | lazy getter name =>
    intro _ _
    exact .bind (resolve_always h hs hform) (fun t ht => hrec t (ht t rfl) v hv)
      (by rintro e - t ⟨⟩)
  | _ => exact fun _ hlocates => absurd hlocates (by simp [Form.locates])

/-! ## Checks -/

/-- Checks that call no function leave the value, and their issues are about it. -/
theorem runChecksFrom_located {checks : List Value} (hchecks : ∀ c ∈ checks, c.inspects = true)
    {r : Result} (hvalue : r.value = v) (hr : r.Located v) :
    (runChecksFrom host ctx checks r).Brings I (Locates v) := by
  have hstep : ∀ c ∈ checks, ∀ q : Result, q.value = v ∧ q.Located v →
      (runCheck host ctx c q.value).Brings I fun e =>
        ∀ t, e = .ok t → (q.merge t.value).value = v ∧ (q.merge t.value).Located v := by
    rintro c hc q ⟨hqv, hq⟩
    refine (runCheck_inspects (hchecks c hc)).mono ?_
    rintro e he t rfl
    obtain ⟨source, detail, ht, hflat⟩ := he t rfl
    rw [ht, hqv]
    refine ⟨rfl, fun i hi => ?_⟩
    rcases List.mem_append.1 hi with hi | hi
    · exact hq i hi
    · cases detail with
      | none => cases hi
      | some d =>
        obtain rfl := List.mem_singleton.1 hi
        exact detailLocated_of_flat (hflat d rfl)
  exact (runChecksFrom_brings hstep ⟨hvalue, hr⟩).mono fun e he t ht => (he t ht).2

theorem runChecks_located (h : Locating host I pool) (hs : pool s) {r : Result}
    (hvalue : s.form.isScalar = true → r.value = v) (hr : r.Located v) :
    (runChecks host ctx s r).Brings I (Locates v) := by
  have itself : (pure (.ready r) : Run (Outcome Result)).Brings I (Locates v) :=
    .ready (by rintro t ⟨⟩; exact hr)
  unfold runChecks
  split
  · have hall : s.allChecks = [] ∨
        (s.form.isScalar = true ∧ ∀ c ∈ s.allChecks, c.inspects = true) := by
      unfold Schema.allChecks
      have hformat : s.form.checkTag?.isSome = true → s.form.isScalar = true := by
        cases s.form <;> simp [Form.checkTag?, Form.isScalar]
      split
      · rename_i htag
        refine .inr ⟨hformat htag, List.forall_mem_cons.2 ⟨rfl, ?_⟩⟩
        rcases h.checks s hs with hnone | ⟨-, hchecks⟩
        · simp [hnone]
        · exact hchecks
      · exact h.checks s hs
    rcases hall with hnone | ⟨hscalar, hchecks⟩
    · rw [hnone]
      exact itself
    · exact runChecksFrom_located hchecks (hvalue hscalar) hr
  · exact itself

end

/-! ## Parses -/

section

variable {host : Host} {ctx : Context} {I : Session → Prop} {pool : Schema Value → Prop}

theorem require_value {test : Value → Bool} {expected : String} {s : Schema Value} {v : Value} :
    (Scalar.require test expected s v).value = v := by
  unfold Scalar.require
  split <;> rfl

/-- A scalar of the family leaves the value as it is. -/
theorem scalar_value {recur : Schema Value → Value → Run (Outcome Result)}
    {acceptsAbsent : Schema Value → Run Bool} {s : Schema Value} {v : Value}
    (hlocates : s.form.locates = true) (hscalar : s.form.isScalar = true) :
    (evaluateForm host ctx recur acceptsAbsent s v).Brings I fun e =>
      ∀ t, e = .ok t → t.value.value = v := by
  have itself : ∀ {r : Result}, r.value = v → (pure (.ready r) : Run (Outcome Result)).Brings I
      fun e => ∀ t, e = .ok t → t.value.value = v := by
    rintro r hr
    exact .ready (by rintro t ⟨⟩; exact hr)
  unfold evaluateForm
  revert hlocates hscalar
  cases hform : s.form with
  | string c | format _ c _ | number c | integer c _ | boolean c | date c =>
    intro hc _
    have hc : c.truthy = false := by simpa [Form.locates] using hc
    exact itself (by simp [Scalar.string, Scalar.number, Scalar.boolean, Scalar.date, hc,
      require_value])
  | null => exact fun _ _ => itself require_value
  | any | unknown | never => exact fun _ _ => itself rfl
  | literal values =>
    refine fun _ _ => itself ?_
    unfold Scalar.literal
    split <;> rfl
  | enumeration entries cls =>
    intro _ hscalar
    cases cls with
    | some c => cases hscalar
    | none =>
      refine itself ?_
      dsimp only [Scalar.enumeration]
      split <;> rfl
  | _ => exact fun _ hscalar => absurd hscalar (by simp [Form.isScalar])

/-- Evaluating a schema of the family reports issues that are located in the value. -/
theorem evaluate_located (h : Locating host I pool) (fuel : Nat) :
    Nested I pool (evaluate host ctx fuel) := by
  induction fuel with
  | zero => exact fun s _ v _ => .throw (by rintro t ⟨⟩)
  | succ fuel ih =>
    intro s hs v hv
    unfold evaluate
    refine .reading fun σ hσ => ?_
    rw [h.kinds σ hσ s hs]
    refine .bind (Q := fun e => e = .ok (.builtin .evaluateNode)) (.pure rfl) ?_ (by rintro e ⟨⟩)
    rintro _ ⟨⟩
    dsimp only
    have hform : (evaluateForm host ctx (evaluate host ctx fuel)
        (Schema.acceptsAbsent host fuel) s v).Brings I (Locates v) :=
      evaluateForm_located h hs ih (acceptsAbsent_keeps h fuel) hv
    have hvalue : (evaluateForm host ctx (evaluate host ctx fuel)
        (Schema.acceptsAbsent host fuel) s v).Brings I fun e =>
          Locates v e ∧ (s.form.isScalar = true → ∀ t, e = .ok t → t.value.value = v) := by
      cases hscalar : s.form.isScalar with
      | true => exact (hform.and (scalar_value (h.form s hs) hscalar)).mono fun e he => ⟨he.1, fun _ => he.2⟩
      | false => exact hform.mono fun e he => ⟨he, by rintro ⟨⟩⟩
    refine hvalue.bindOutcome (fun o ho => ?_) (by rintro e - t ⟨⟩)
    refine checkOutcome_brings ho ?_ (by rintro - e - t ⟨⟩) (by rintro e - t ⟨⟩)
    rintro t ⟨hlocates, hscalar⟩
    refine (runChecks_located h hs (fun hs' => hscalar hs' t rfl) (hlocates t rfl)).mono ?_
    rintro (e | u) hu w ⟨⟩
    exact hu u rfl

/-- The issues that a parse of a schema of the family reports, its inputs being shown, are
located in the value. -/
theorem safeParse_located (h : Locating host I pool) {s : Schema Value} (hs : pool s) {v : Value}
    (hv : v.distinctKeys = true) (hreport : ctx.reportInput = true) :
    (safeParse host ctx s v).Always I fun e =>
      ∀ issues, e = .ok (.rejected issues) → ∀ i ∈ issues, i.LocatedIn v [] := by
  have hproviders : Resolution.Providers host I :=
    fun _ _ => Host.call_keeps h.bookkeeping h.functions
  refine .bind (evaluate_located h s.budget s hs v hv) (fun o ho => ?_) (by rintro e - issues ⟨⟩)
  refine ho.settle.bind (fun r hr => ?_) (by rintro e - issues ⟨⟩)
  refine (conclude_always hproviders r).mono ?_
  rintro e he issues rfl
  rw [hreport] at he
  exact issuesLocated_congr he.2 (hr ⟨r, _⟩ rfl)

/-- Following the path of a reported issue through the value leads to the input that the issue
shows, at every depth of union branches; an issue about a key names a key of the mapping. -/
theorem issue_paths_locate_inputs (h : Locating host I pool) {s : Schema Value} (hs : pool s)
    {v : Value} (hv : v.distinctKeys = true) (hreport : ctx.reportInput = true)
    {σ τ : Session} (hσ : I σ) {issues : List (Issue Value)}
    (hparse : (safeParse host ctx s v).exec σ = (.ok (.rejected issues), τ)) :
    ∀ i ∈ issues, i.LocatedIn v [] :=
  (safeParse_located h hs hv hreport σ hσ).2 issues (by rw [hparse])

end

/-! ## An object with a list of texts -/

namespace Tagged

/-- Texts. -/
def text : Schema Value := ⟨0, .str "string", .string .null, [], [], .str "no text"⟩

/-- Lists of texts. -/
def tags : Schema Value := ⟨1, .str "array", .array text, [], [], .null⟩

/-- Objects with a list of texts. -/
def tagged : Schema Value :=
  ⟨2, .str "object", .object [(.str "tags", tags)] .strip none, [], [], .null⟩

/-- A mapping in whose list the second item is no text. -/
def value : Value := .dict [(.str "tags", .list [.str "a", .int 1])]

/-- The schemas above. -/
def pool (s : Schema Value) : Prop := s = tagged ∨ s = tags ∨ s = text

/-- Sessions with the kinds of the library that have resolved nothing else. -/
def Fresh (σ : Session) : Prop :=
  σ.kinds = .initial ∧ ∀ e ∈ σ.resolved, pool e.2

theorem locating : Locating Stock.host Fresh pool where
  form := by rintro s (rfl | rfl | rfl) <;> rfl
  checks := by rintro s (rfl | rfl | rfl) <;> exact .inl rfl
  parts := by
    rintro s (rfl | rfl | rfl) t ht
    · exact .inr (.inl (List.mem_singleton.1 ht))
    · exact .inr (.inr (List.mem_singleton.1 ht))
    · cases ht
  defaults := by rintro s inner t (rfl | rfl | rfl) ⟨⟩
  lazies := by rintro s getter name (rfl | rfl | rfl) ⟨⟩
  functions := Stock.host_keeps fun _ _ h => h
  bookkeeping := ⟨fun _ _ h => h, fun _ _ h => h, fun _ _ h => h⟩
  kinds := by
    rintro σ ⟨hkinds, -⟩ s (rfl | rfl | rfl) <;> rw [hkinds] <;> rfl
  memo := by
    rintro σ ⟨-, hmemo⟩ s t - ht
    obtain ⟨l, r, hl, -⟩ := List.lookup_eq_some_iff.1 ht
    exact hmemo (s.id, t) (hl ▸ List.mem_append_right l (List.mem_cons_self ..))
  noting := by
    rintro σ id t ⟨hkinds, hmemo⟩ ht
    exact ⟨hkinds, List.forall_mem_cons.2 ⟨ht, hmemo⟩⟩

end Tagged

/-- The issue about the item that is no text has a path that leads to the item. -/
theorem issue_paths_locate_item :
    ∃ issues τ, (safeParse Stock.host { reportInput := true } Tagged.tagged Tagged.value).exec {} =
        (.ok (.rejected issues), τ) ∧ ∀ i ∈ issues, i.LocatedIn Tagged.value [] :=
  have fresh : Tagged.Fresh {} := ⟨rfl, by simp⟩
  ⟨_, _, rfl, @issue_paths_locate_inputs Stock.host { reportInput := true } _ _ Tagged.locating _
    (.inl rfl) _ (by decide) rfl _ _ fresh _ rfl⟩

end Assay
