import Assay.Proofs.Soundness

/-!
# Reading outputs again

A form that reads values, converts them, or puts them together anew accepts its outputs as they are
if the schemas that it holds do (`Meaning.AcceptsAgain`). What has to be shown for each structure is
that the output has the same positions, with the outputs of the input's positions in them: an object
and a record with listed keys find them by their keys, which are distinct; a tuple leaves out
nothing but absent positions at its end; and a mapping or set is put together the same way again.
-/

namespace Assay

open Structure

/-! ## Frozen values -/

namespace Value

@[simp] theorem freeze_freeze (v : Value) : v.freeze.freeze = v.freeze := by
  cases v <;> rfl

@[simp] theorem entries?_freeze (v : Value) : v.freeze.entries? = v.entries? := by
  cases v <;> rfl

@[simp] theorem items?_freeze (v : Value) : v.freeze.items? = v.items? := by
  cases v <;> rfl

end Value

/-! ## Present entries -/

namespace Entries

theorem present_missing (k : Value) (es : Entries) :
    present ((k, .missing) :: es) = present es :=
  rfl

theorem present_cons {k w : Value} (hw : w ≠ .missing) (es : Entries) :
    present ((k, w) :: es) = (k, w) :: present es :=
  List.filter_cons_of_pos (by cases w <;> first | rfl | exact absurd rfl hw)

theorem present_append (es fs : Entries) : present (es ++ fs) = present es ++ present fs :=
  List.filter_append es fs

theorem present_present (es : Entries) : present (present es) = present es :=
  List.filter_eq_self.2 fun _ he => (List.mem_filter.1 he).2

/-- Of distinct keys each finds its value, present or not, if none of what follows is found for
it. -/
theorem find?_present {es rest : Entries} (hes : es.Distinct)
    (hformed : ∀ e ∈ es, e.1.wellFormed = true) {k w : Value} (hmem : (k, w) ∈ es)
    (hrest : ∀ e ∈ rest, e.1.isFound k = false) :
    (find? (es.present ++ rest) k).getD .missing = w := by
  induction es with
  | nil => cases hmem
  | cons e es ih =>
    obtain ⟨i, x⟩ := e
    obtain ⟨hi, hdistinct⟩ := List.pairwise_cons.1 hes
    obtain ⟨hiformed, hothers⟩ := List.forall_mem_cons.1 hformed
    rcases List.mem_cons.1 hmem with heq | hmem
    · obtain ⟨rfl, rfl⟩ := Prod.mk.inj heq
      by_cases hw : w = .missing
      · -- The entry is left out, and no later key is equal to its key.
        have hnone : find? (present es ++ rest) k = none := by
          refine find?_eq_none.2 fun f hf => ?_
          rcases List.mem_append.1 hf with hf | hf
          · have hf := (mem_present.1 hf).1
            exact (Value.isFound_comm (hothers f hf) hiformed).trans (hi f hf)
          · exact hrest f hf
        rw [hw, present_missing, hnone]
        rfl
      · simp [present_cons hw, find?, Value.isFound_refl]
    · have hskip : find? (present ((i, x) :: es) ++ rest) k = find? (present es ++ rest) k := by
        by_cases hx : x = .missing
        · rw [hx, present_missing]
        · simp [present_cons hx, find?, hi _ hmem]
      rw [hskip]
      exact ih hdistinct hothers hmem

end Entries

/-! ## Scalars -/

section

variable {s : Schema Value} {v u : Value}

theorem string_again {coerce : Bool} (h : Scalar.string s coerce v = .ok u) :
    Scalar.string s coerce u = .ok u := by
  obtain ⟨t, rfl⟩ := string_ok h
  cases coerce <;> rfl

theorem number_again {coerce : Bool} (h : Scalar.number s coerce v = .ok u) :
    Scalar.number s coerce u = .ok u := by
  have hnumber := number_ok h
  have hself : Scalar.coerceNumber u = some u := by
    cases u <;> first | rfl | cases hnumber
  cases coerce <;> simp [Scalar.number, Scalar.require, hself, hnumber]

theorem boolean_again {coerce : Bool} (h : Scalar.boolean s coerce v = .ok u) :
    Scalar.boolean s coerce u = .ok u := by
  obtain ⟨b, rfl⟩ := boolean_ok h
  cases coerce <;> rfl

theorem date_again {coerce : Bool} (h : Scalar.date s coerce v = .ok u) :
    Scalar.date s coerce u = .ok u := by
  rcases date_ok h with ⟨d, rfl⟩ | ⟨t, rfl⟩ <;> cases coerce <;> rfl

theorem enumeration_again {entries : List (Value × Value)} {cls : Option (EnumClass Value)}
    (h : Scalar.enumeration s entries cls v = .ok u) :
    Scalar.enumeration s entries cls u = .ok u := by
  cases cls with
  | none =>
    obtain ⟨hlisted, rfl⟩ := listed_ok h
    exact h
  | some c =>
    obtain ⟨d, name, x, hd, rfl⟩ := member_ok h
    simp [Scalar.enumeration, Scalar.memberOf?, hd]

end

/-! ## Positions -/

namespace Meaning

variable {recur : Schema Value → Value → Except Fault Result} {ctx : Context}
  {s : Schema Value} {v u : Value}

/-- The schema accepts what it makes of the value, as it is. -/
def AcceptsAgain (recur : Schema Value → Value → Except Fault Result) (t : Schema Value)
    (v : Value) : Prop :=
  ∀ w, recur t v = .ok (.ok w) → recur t w = .ok (.ok w)

theorem accepts_append {ps qs : List (Schema Value × Value)} {ws : List Value} :
    Accepts recur (ps ++ qs) ws ↔
      ∃ us vs, ws = us ++ vs ∧ Accepts recur ps us ∧ Accepts recur qs vs := by
  induction ps generalizing ws with
  | nil =>
    refine ⟨fun h => ⟨[], ws, rfl, .nil, h⟩, ?_⟩
    rintro ⟨us, vs, rfl, hus, hvs⟩
    cases hus
    exact hvs
  | cons p ps ih =>
    constructor
    · intro h
      cases h with
      | @cons _ w _ ws hw h =>
        obtain ⟨us, vs, rfl, hus, hvs⟩ := ih.1 h
        exact ⟨w :: us, vs, rfl, .cons hw hus, hvs⟩
    · rintro ⟨us, vs, rfl, hus, hvs⟩
      cases hus with
      | cons hw hus => exact .cons hw (ih.2 ⟨_, vs, rfl, hus, hvs⟩)

theorem accepts_self {t : Schema Value} {ws : List Value}
    (h : ∀ w ∈ ws, recur t w = .ok (.ok w)) : Accepts recur (ws.map fun w => (t, w)) ws := by
  induction ws with
  | nil => exact .nil
  | cons w ws ih =>
    obtain ⟨hw, hws⟩ := List.forall_mem_cons.1 h
    exact .cons hw (ih hws)

/-- One schema accepts its outputs again. -/
theorem Accepts.again {t : Schema Value} {vs ws : List Value}
    (h : Accepts recur (vs.map fun v => (t, v)) ws) (hagain : ∀ v ∈ vs, AcceptsAgain recur t v) :
    ∀ w ∈ ws, recur t w = .ok (.ok w) := by
  intro w hw
  obtain ⟨p, hp, hrecur⟩ := h.of_mem_output hw
  obtain ⟨v, hv, rfl⟩ := List.mem_map.1 hp
  exact hagain v hv w hrecur

/-- Fields are accepted again in any mapping in which each finds its output. -/
theorem lookups_again {fields : List (Value × Schema Value)} {data out : Entries}
    {ws : List Value}
    (h : Accepts recur (fields.map fun f => (f.2, (data.find? f.1).getD .missing)) ws)
    (hagain : ∀ f ∈ fields, AcceptsAgain recur f.2 ((data.find? f.1).getD .missing))
    (hfound : ∀ f w, (f, w) ∈ fields.zip ws → (out.find? f.1).getD .missing = w) :
    Accepts recur (fields.map fun f => (f.2, (out.find? f.1).getD .missing)) ws := by
  unfold Accepts at h ⊢
  rw [List.forall₂_map_left_iff, List.forall₂_iff_zip] at h ⊢
  refine ⟨h.1, fun {f w} hzip => ?_⟩
  rw [hfound f w hzip]
  exact hagain f (List.of_mem_zip hzip).1 w (h.2 hzip)

/-! ## Sequences -/

theorem array_again {element : Schema Value}
    (h : array ctx recur s element v = .ok (.ok u))
    (hagain : ∀ vs, v.items? = some vs → ∀ x ∈ vs, AcceptsAgain recur element x) :
    array ctx recur s element u = .ok (.ok u) := by
  obtain ⟨vs, ws, hvs, hws, rfl⟩ := array_accepts.1 h
  exact array_accepts.2 ⟨ws, ws, rfl, accepts_self (hws.again (hagain vs hvs)), rfl⟩

/-- The positions of a tuple are accepted again, in a tuple of the same length. -/
theorem tupleItems_again {schemas : List (Schema Value)} {rest : Option (Schema Value)}
    {vs ws : List Value} (h : Accepts recur (tupleItems rest schemas vs) ws)
    (hagain : ∀ p ∈ tupleItems rest schemas vs, AcceptsAgain recur p.1 p.2)
    (hlength : rest = none → vs.length ≤ schemas.length)
    (habsent : ∀ t ∈ schemas.drop vs.length, ∀ w, recur t .missing = .ok (.ok w) → w = .missing) :
    (tupleOutput vs.length ws).length = vs.length ∧
      Accepts recur (tupleItems rest schemas (tupleOutput vs.length ws)) ws := by
  induction schemas generalizing vs ws with
  | nil =>
    cases rest with
    | none =>
      obtain rfl := List.eq_nil_of_length_eq_zero (Nat.le_zero.1 (hlength rfl))
      cases h
      exact ⟨rfl, .nil⟩
    | some rest =>
      have hws : ws.length = vs.length :=
        (List.Forall₂.length_eq h).symm.trans (length_tupleItems (Nat.zero_le _))
      rw [tupleOutput_of_length_le (Nat.le_of_eq hws)]
      refine ⟨hws, accepts_self (Accepts.again h fun x hx => ?_)⟩
      exact hagain (rest, x) (List.mem_map_of_mem hx)
  | cons t schemas ih =>
    cases vs with
    | nil =>
      cases h with
      | @cons _ w _ ws hw h =>
        -- Beyond the end of the input nothing comes out, so the output ends there as well.
        obtain rfl := habsent t (List.mem_cons_self ..) w hw
        obtain ⟨hnil, haccepts⟩ := ih h (fun p hp => hagain p (List.mem_cons_of_mem _ hp))
          (fun _ => Nat.zero_le _) fun t' ht' => habsent t' (List.mem_cons_of_mem _ ht')
        have hout : tupleOutput 0 ws = [] := List.eq_nil_of_length_eq_zero hnil
        have hcons : tupleOutput 0 (.missing :: ws) = [] := hout
        rw [List.length_nil, hcons]
        rw [List.length_nil, hout] at haccepts
        exact ⟨rfl, .cons hw haccepts⟩
    | cons v vs =>
      cases h with
      | @cons _ w _ ws hw h =>
        obtain ⟨hlength', haccepts⟩ := ih h (fun p hp => hagain p (List.mem_cons_of_mem _ hp))
          (fun hrest => Nat.le_of_succ_le_succ (hlength hrest)) habsent
        refine ⟨congrArg (· + 1) hlength', .cons ?_ haccepts⟩
        exact hagain (t, v) (List.mem_cons_self ..) w hw

theorem tupleItems_formed {rest : Option (Schema Value)} {schemas : List (Schema Value)}
    {vs : List Value} (h : ∀ x ∈ vs, x.wellFormed = true) :
    ∀ p ∈ tupleItems rest schemas vs, p.2.wellFormed = true := by
  induction schemas generalizing vs with
  | nil =>
    cases rest with
    | none => exact fun p hp => nomatch hp
    | some rest =>
      intro p hp
      obtain ⟨x, hx, rfl⟩ := List.mem_map.1 hp
      exact h x hx
  | cons t schemas ih =>
    cases vs with
    | nil => exact List.forall_mem_cons.2 ⟨rfl, ih h⟩
    | cons x vs =>
      obtain ⟨hx, hvs⟩ := List.forall_mem_cons.1 h
      exact List.forall_mem_cons.2 ⟨hx, ih hvs⟩

theorem tuple_again {required : Except Fault Nat} {schemas : List (Schema Value)}
    {rest : Option (Schema Value)}
    (h : tuple ctx recur required s schemas rest v = .ok (.ok u))
    (hagain : ∀ vs, v.items? = some vs → ∀ p ∈ tupleItems rest schemas vs,
      AcceptsAgain recur p.1 p.2)
    (habsent : ∀ n, required = .ok n →
      ∀ t ∈ schemas.drop n, ∀ w, recur t .missing = .ok (.ok w) → w = .missing) :
    tuple ctx recur required s schemas rest u = .ok (.ok u) := by
  obtain ⟨vs, n, ws, hvs, hn, hlength, hws, rfl⟩ := tuple_accepts.1 h
  obtain ⟨hrequired, hmost⟩ : n ≤ vs.length ∧ (rest = none → vs.length ≤ schemas.length) := by
    unfold tupleLength at hlength
    dsimp only at hlength
    split at hlength
    · cases hlength
    · split at hlength
      · cases hlength
      · rename_i hshort hlong
        exact ⟨Nat.le_of_not_lt hshort, fun hrest => by simpa [hrest] using hlong⟩
  obtain ⟨hout, haccepts⟩ := tupleItems_again hws (hagain vs hvs) hmost fun t ht =>
    habsent n hn t ((List.drop_subset_drop_left schemas hrequired) ht)
  refine tuple_accepts.2 ⟨_, n, ws, rfl, hn, ?_, haccepts, ?_⟩
  · rwa [hout]
  · rw [hout]

/-! ## Mappings -/

/-- Accepted entries are accepted again when equal keys have been merged. -/
theorem entries_again {k x : Schema Value} {data es : Entries}
    (h : AcceptsEntries recur k x data es) (hkey : ∀ e ∈ data, AcceptsAgain recur k e.1)
    (hvalue : ∀ e ∈ data, AcceptsAgain recur x e.2) :
    AcceptsEntries recur k x (Entries.ofList es) (Entries.ofList es) := by
  have hall : ∀ e ∈ es, recur k e.1 = .ok (.ok e.1) ∧ recur x e.2 = .ok (.ok e.2) := by
    induction h with
    | nil => exact fun e he => nomatch he
    | @cons d e _ _ hd _ ih =>
      obtain ⟨hk, hks⟩ := List.forall_mem_cons.1 hkey
      obtain ⟨hx, hxs⟩ := List.forall_mem_cons.1 hvalue
      exact List.forall_mem_cons.2 ⟨⟨hk _ hd.1, hx _ hd.2⟩, ih hks hxs⟩
  have hmerged := Entries.forall_ofList
    (P := fun i w => recur k i = .ok (.ok i) ∧ recur x w = .ok (.ok w)) hall
    fun _ _ _ _ hi hj _ => ⟨hi.1, hj.2⟩
  exact List.forall₂_same.2 hmerged

/-- What a record with open keys and a map put together is put together again. -/
theorem merged_again {k x : Schema Value} {data es : Entries}
    (h : AcceptsEntries recur k x data es) (hhashable : ∀ e ∈ es, e.1.isHashable = true)
    (hkey : ∀ e ∈ data, AcceptsAgain recur k e.1)
    (hvalue : ∀ e ∈ data, AcceptsAgain recur x e.2) :
    ∃ data' es', (Value.dict (Entries.ofList es)).entries? = some data' ∧
      AcceptsEntries recur k x data' es' ∧ (∀ e ∈ es', e.1.isHashable = true) ∧
      Value.dict (Entries.ofList es) = .dict (Entries.ofList es') := by
  refine ⟨_, _, rfl, entries_again h hkey hvalue, ?_, ?_⟩
  · exact Entries.forall_ofList (P := fun i _ => i.isHashable = true) hhashable
      fun _ _ _ _ hi _ _ => hi
  · rw [Entries.ofList_of_distinct (Entries.distinct_ofList es)]

theorem map_again {k x : Schema Value} (h : map ctx recur s k x v = .ok (.ok u))
    (hkey : ∀ data, v.entries? = some data → ∀ e ∈ data, AcceptsAgain recur k e.1)
    (hvalue : ∀ data, v.entries? = some data → ∀ e ∈ data, AcceptsAgain recur x e.2) :
    map ctx recur s k x u = .ok (.ok u) := by
  obtain ⟨data, es, hdata, hes, hhashable, rfl⟩ := map_accepts.1 h
  exact map_accepts.2 (merged_again hes hhashable (hkey data hdata) (hvalue data hdata))

/-- A record with listed keys looks each of them up again. -/
theorem enumeratedRecord_again {k x : Schema Value} {allowed : List Value}
    (hk : Construct.enumerated? k = some allowed) (h : record ctx recur s k x v = .ok (.ok u))
    (hallowed : ∀ y ∈ allowed, y.wellFormed = true)
    (hvalue : ∀ data, v.entries? = some data → ∀ key,
      AcceptsAgain recur x ((data.find? key).getD .missing)) :
    record ctx recur s k x u = .ok (.ok u) := by
  obtain ⟨hhashable, data, ws, hdata, hws, -, rfl⟩ := (enumeratedRecord_accepts hk).1 h
  generalize hes : Entries.present (allowed.zip ws) = es
  have hitems (data : Entries) : enumeratedItems x data allowed =
      (allowed.map fun y => (y, x)).map fun f => (f.2, (data.find? f.1).getD .missing) := by
    simp [enumeratedItems]
  have hread : ∀ y w, (y, w) ∈ allowed.zip ws →
      recur x ((data.find? y).getD .missing) = .ok (.ok w) := by
    unfold Accepts enumeratedItems at hws
    rw [List.forall₂_map_left_iff, List.forall₂_iff_zip] at hws
    exact fun y w => hws.2
  -- Equal keys are looked up alike, so they come with the same value.
  have hsame {y y' w w' : Value} (hy : (y, w) ∈ allowed.zip ws) (hy' : (y', w') ∈ allowed.zip ws)
      (hfound : y.isFound y' = true) : w = w' := by
    have hw := hread y w hy
    rw [Entries.find?_congr (hallowed y (List.of_mem_zip hy).1) hfound data,
      hread y' w' hy'] at hw
    exact (congrArg Result.value (Except.ok.inj hw)).symm
  have hzip {e : Value × Value} (he : e ∈ es) : e ∈ allowed.zip ws ∧ e.2 ≠ .missing := by
    rw [← hes] at he
    exact Entries.mem_present.1 he
  have hagree : ∀ e ∈ es, ∀ f ∈ es, e.1.isFound f.1 = true → e.2 = f.2 := fun e he f hf =>
    hsame (hzip he).1 (hzip hf).1
  have hfound : ∀ y w, (y, w) ∈ allowed.zip ws →
      ((Entries.ofList es).find? y).getD .missing = w := by
    intro y w hy
    by_cases hmissing : w = .missing
    · subst hmissing
      have hnone : (Entries.ofList es).find? y = none := by
        refine Entries.find?_eq_none.2 fun e he => Bool.eq_false_iff.2 fun hey => ?_
        obtain ⟨hmem, hpresent⟩ := hzip (Entries.mem_of_ofList hagree e he)
        exact hpresent (hsame hmem hy hey)
      rw [hnone]
      rfl
    · have hmem : (y, w) ∈ es := hes ▸ Entries.mem_present.2 ⟨hy, hmissing⟩
      rw [Entries.find?_ofList hagree hmem]
      rfl
  refine (enumeratedRecord_accepts hk).2 ⟨hhashable, _, ws, rfl, ?_, fun e he => ?_, by rw [hes]⟩
  · rw [hitems] at hws ⊢
    refine lookups_again hws (fun f hf => ?_) fun f w hf => ?_
    · obtain ⟨y, -, rfl⟩ := List.mem_map.1 hf
      exact hvalue data hdata y
    · rw [List.zip_map_left] at hf
      obtain ⟨p, hp, heq⟩ := List.mem_map.1 hf
      cases heq
      exact hfound p.1 p.2 hp
  · have hmem := (hzip (Entries.mem_of_ofList hagree e he)).1
    exact List.any_eq_true.2 ⟨e.1, (List.of_mem_zip hmem).1, Value.isFound_refl _⟩

theorem record_again {k x : Schema Value} (h : record ctx recur s k x v = .ok (.ok u))
    (hkey : ∀ data, v.entries? = some data → ∀ e ∈ data, AcceptsAgain recur k e.1)
    (hvalue : ∀ data, v.entries? = some data → ∀ e ∈ data, AcceptsAgain recur x e.2)
    (habsent : AcceptsAgain recur x .missing)
    (hallowed : ∀ allowed, Construct.enumerated? k = some allowed →
      ∀ y ∈ allowed, y.wellFormed = true) :
    record ctx recur s k x u = .ok (.ok u) := by
  cases hk : Construct.enumerated? k with
  | none =>
    obtain ⟨data, es, hdata, hes, hhashable, rfl⟩ := (record_accepts hk).1 h
    exact (record_accepts hk).2
      (merged_again hes hhashable (hkey data hdata) (hvalue data hdata))
  | some allowed =>
    refine enumeratedRecord_again hk h (hallowed allowed hk) fun data hdata key => ?_
    cases hfound : data.find? key with
    | none => exact habsent
    | some w =>
      obtain ⟨e, he, rfl⟩ := Option.map_eq_some_iff.1 hfound
      exact hvalue data hdata e (List.mem_of_find?_eq_some he)

/-! ## Objects -/

/-- The positions that the shape names, and what is unknown to it, in an output of an object. -/
theorem object_reads {shape : List (Value × Schema Value)} {data rest : Entries}
    {ws : List Value} (hshape : shape.Pairwise fun f g => f.1.isFound g.1 = false)
    (hkeys : ∀ f ∈ shape, f.1.wellFormed = true)
    (hrest : ∀ e ∈ rest, e.1.wellFormed = true ∧ (shape.any fun f => f.1.isFound e.1) = false)
    (hws : Accepts recur (shape.map fun f => (f.2, (data.find? f.1).getD .missing)) ws)
    (hagain : ∀ f ∈ shape, AcceptsAgain recur f.2 ((data.find? f.1).getD .missing)) :
    let out := Entries.present ((shape.map (·.1)).zip ws) ++ rest
    unknownKeys shape out = rest ∧
      Accepts recur (shape.map fun f => (f.2, (out.find? f.1).getD .missing)) ws := by
  have hlength : (shape.map (·.1)).length ≤ ws.length := by
    have hlength := List.Forall₂.length_eq hws
    simp only [List.length_map] at hlength ⊢
    exact Nat.le_of_eq hlength
  have hzipped : ((shape.map (·.1)).zip ws).map (·.1) = shape.map (·.1) :=
    List.map_fst_zip hlength
  have hdistinct : Entries.Distinct ((shape.map (·.1)).zip ws) := by
    have hpairwise : (shape.map (·.1)).Pairwise fun i j => i.isFound j = false :=
      List.pairwise_map.2 hshape
    rw [← hzipped] at hpairwise
    exact List.pairwise_map.1 hpairwise
  have hnamed : ∀ e ∈ (shape.map (·.1)).zip ws, ∃ f ∈ shape, f.1 = e.1 := fun e he =>
    List.mem_map.1 (List.of_mem_zip he).1
  constructor
  · -- Named entries are left out of the unknown ones, as each has a key of the shape.
    unfold unknownKeys
    rw [List.filter_append, List.filter_eq_nil_iff.2 fun e he => ?_,
      List.filter_eq_self.2 fun e he => ?_, List.nil_append]
    · rw [(hrest e he).2]
      rfl
    · obtain ⟨f, hf, hfe⟩ := hnamed e (Entries.mem_present.1 he).1
      have hany : (shape.any fun f => f.1.isFound e.1) = true :=
        List.any_eq_true.2 ⟨f, hf, hfe ▸ Value.isFound_refl _⟩
      rw [hany]
      exact Bool.false_ne_true
  · refine lookups_again hws hagain fun f w hf => ?_
    have hmem : (f.1, w) ∈ (shape.map (·.1)).zip ws := by
      rw [List.zip_map_left]
      exact List.mem_map.2 ⟨(f, w), hf, rfl⟩
    have hformed : ∀ e ∈ (shape.map (·.1)).zip ws, e.1.wellFormed = true := fun e he => by
      obtain ⟨g, hg, hge⟩ := hnamed e he
      exact hge ▸ hkeys g hg
    -- What is unknown has no key of the shape, so it does not get in the way.
    refine Entries.find?_present hdistinct hformed hmem fun e he => ?_
    have hfshape := (List.of_mem_zip hf).1
    rw [Value.isFound_comm (hrest e he).1 (hkeys f hfshape)]
    simpa using List.any_eq_false.1 (hrest e he).2 f hfshape

theorem objectItems_keys (shape : List (Value × Schema Value)) (catchall : Option (Schema Value))
    (data : Entries) : (objectItems shape catchall data).map (·.1) =
      shape.map (·.1) ++ catchall.elim [] fun _ => (unknownKeys shape data).map (·.1) := by
  cases catchall with
  | none => simp [objectItems]
  | some c =>
    rw [objectItems, List.map_append, List.map_map, List.map_map]
    rfl

theorem objectItems_inputs (shape : List (Value × Schema Value))
    (catchall : Option (Schema Value)) (data : Entries) :
    (objectItems shape catchall data).map (·.2) =
      (shape.map fun f => (f.2, (data.find? f.1).getD .missing)) ++
        catchall.elim [] fun c => ((unknownKeys shape data).map (·.2)).map fun x => (c, x) := by
  cases catchall with
  | none => simp [objectItems]
  | some c =>
    rw [objectItems, List.map_append, List.map_map, List.map_map, Option.elim_some, List.map_map]
    rfl

section

variable {shape : List (Value × Schema Value)} {policy : UnknownKeys} {data : Entries}

/-- An object without a catchall: what passes through stays unknown. -/
theorem plainObject_again (hshape : shape.Pairwise fun f g => f.1.isFound g.1 = false)
    (hkeys : ∀ f ∈ shape, f.1.wellFormed = true)
    (hunknown : ∀ e ∈ unknownKeys shape data, e.1.wellFormed = true)
    (hfields : ∀ f ∈ shape, AcceptsAgain recur f.2 ((data.find? f.1).getD .missing))
    {ws : List Value} (hws : Accepts recur ((objectItems shape none data).map (·.2)) ws)
    (hu : u = .dict (objectOutput shape policy none data ws)) :
    object ctx recur s shape policy none u = .ok (.ok u) := by
  have hinputs (data : Entries) : (objectItems shape none data).map (·.2) =
      shape.map fun f => (f.2, (data.find? f.1).getD .missing) :=
    (objectItems_inputs shape none data).trans (List.append_nil _)
  have hplaces (data : Entries) : (objectItems shape none data).map (·.1) = shape.map (·.1) :=
    (objectItems_keys shape none data).trans (List.append_nil _)
  -- What follows the named entries in the output, and is unknown there again.
  generalize hrest : (if policy == .passthrough then unknownKeys shape data else []) = rest
  obtain rfl : u = .dict (Entries.present ((shape.map (·.1)).zip ws) ++ rest) := by
    rw [hu, ← hrest, objectOutput, hplaces]
    rfl
  have hunnamed : ∀ e ∈ rest,
      e.1.wellFormed = true ∧ (shape.any fun f => f.1.isFound e.1) = false := by
    rw [← hrest]
    split
    · exact fun e he => ⟨hunknown e he, by simpa using (List.mem_filter.1 he).2⟩
    · exact List.forall_mem_nil _
  rw [hinputs] at hws
  obtain ⟨hleft, haccepts⟩ := object_reads hshape hkeys hunnamed hws hfields
  refine object_accepts.2 ⟨_, ws, rfl, ?_, fun hpolicy _ => ?_, ?_⟩
  · rwa [hinputs]
  · rw [hleft, ← hrest, hpolicy]
    rfl
  · rw [objectOutput, hplaces, hleft, ← hrest]
    cases policy <;> rfl

/-- An object with a catchall: the outputs of unknown keys are caught again. -/
theorem catchingObject_again (hshape : shape.Pairwise fun f g => f.1.isFound g.1 = false)
    (hkeys : ∀ f ∈ shape, f.1.wellFormed = true)
    (hunknown : ∀ e ∈ unknownKeys shape data, e.1.wellFormed = true)
    (hfields : ∀ f ∈ shape, AcceptsAgain recur f.2 ((data.find? f.1).getD .missing))
    {c : Schema Value} (hcatchall : ∀ e ∈ unknownKeys shape data, AcceptsAgain recur c e.2)
    {ws : List Value} (hws : Accepts recur ((objectItems shape (some c) data).map (·.2)) ws)
    (hu : u = .dict (objectOutput shape policy (some c) data ws)) :
    object ctx recur s shape policy (some c) u = .ok (.ok u) := by
  rw [objectItems_inputs] at hws
  obtain ⟨ws, xs, rfl, hws, hxs⟩ := accepts_append.1 hws
  have hlength : (shape.map (·.1)).length = ws.length := by
    have hlength := List.Forall₂.length_eq hws
    rwa [List.length_map] at hlength ⊢
  -- The caught entries, of which those without an output are left out.
  generalize hrest : Entries.present (((unknownKeys shape data).map (·.1)).zip xs) = rest
  have hzip : ∀ e ∈ rest, e ∈ ((unknownKeys shape data).map (·.1)).zip xs := fun e he => by
    rw [← hrest] at he
    exact (Entries.mem_present.1 he).1
  obtain rfl : u = .dict (Entries.present ((shape.map (·.1)).zip ws) ++ rest) := by
    rw [hu, objectOutput, objectItems_keys, Option.elim_some, List.zip_append hlength,
      Entries.present_append, hrest]
    exact congrArg _ (List.append_nil _)
  have hunnamed : ∀ e ∈ rest,
      e.1.wellFormed = true ∧ (shape.any fun f => f.1.isFound e.1) = false := fun e he => by
    obtain ⟨d, hd, hde⟩ := List.mem_map.1 (List.of_mem_zip (hzip e he)).1
    exact hde ▸ ⟨hunknown d hd, by simpa using (List.mem_filter.1 hd).2⟩
  have hcaught : ∀ x ∈ xs, recur c x = .ok (.ok x) := by
    refine Accepts.again hxs fun x hx => ?_
    obtain ⟨e, he, rfl⟩ := List.mem_map.1 hx
    exact hcatchall e he
  obtain ⟨hleft, haccepts⟩ := object_reads hshape hkeys hunnamed hws hfields
  refine object_accepts.2 ⟨_, ws ++ rest.map (·.2), rfl, ?_,
    fun _ hnone => absurd hnone (Option.some_ne_none c), ?_⟩
  · rw [objectItems_inputs, hleft]
    refine accepts_append.2 ⟨ws, rest.map (·.2), rfl, haccepts, accepts_self fun x hx => ?_⟩
    obtain ⟨e, he, rfl⟩ := List.mem_map.1 hx
    exact hcaught e.2 (List.of_mem_zip (hzip e he)).2
  · have hself : (rest.map (·.1)).zip (rest.map (·.2)) = rest := by
      rw [List.zip_map', List.map_id']
    rw [objectOutput, objectItems_keys, hleft, Option.elim_some, List.zip_append hlength, hself,
      Entries.present_append, ← hrest, Entries.present_present]
    exact congrArg _ (List.append_nil _).symm

end

theorem object_again {shape : List (Value × Schema Value)} {policy : UnknownKeys}
    {catchall : Option (Schema Value)}
    (h : object ctx recur s shape policy catchall v = .ok (.ok u))
    (hshape : shape.Pairwise fun f g => f.1.isFound g.1 = false)
    (hkeys : ∀ f ∈ shape, f.1.wellFormed = true) (hv : v.wellFormed = true)
    (hagain : ∀ t ∈ shape.map (·.2) ++ catchall.toList, ∀ x, x.wellFormed = true →
      AcceptsAgain recur t x) :
    object ctx recur s shape policy catchall u = .ok (.ok u) := by
  obtain ⟨data, ws, hdata, hws, -, hu⟩ := object_accepts.1 h
  have hentries := Value.wellFormed_entries hv hdata
  have hunknown : ∀ e ∈ unknownKeys shape data, e.1.wellFormed = true := fun e he =>
    (hentries e (List.mem_filter.1 he).1).1
  have hfields : ∀ f ∈ shape, AcceptsAgain recur f.2 ((data.find? f.1).getD .missing) :=
    fun f hf => hagain f.2 (List.mem_append_left _ (List.mem_map_of_mem hf)) _
      (Value.wellFormed_found hv hdata f.1)
  cases catchall with
  | none => exact plainObject_again hshape hkeys hunknown hfields hws hu
  | some c =>
    refine catchingObject_again hshape hkeys hunknown hfields (fun e he => ?_) hws hu
    exact hagain c (List.mem_append_right _ (List.mem_singleton_self c)) _
      (hentries e (List.mem_filter.1 he).1).2

/-! ## Sets -/

theorem areHashable_iff {vs : List Value} :
    Value.areHashable vs = true ↔ ∀ v ∈ vs, v.isHashable = true := by
  induction vs with
  | nil => simp [Value.areHashable]
  | cons v vs ih => simp [Value.areHashable, ih]

theorem set_again {element : Schema Value} (h : set ctx recur s element v = .ok (.ok u))
    (hagain : ∀ vs, (v = .set vs ∨ v = .frozenSet vs) → ∀ x ∈ vs, AcceptsAgain recur element x) :
    set ctx recur s element u = .ok (.ok u) := by
  obtain ⟨vs, ws, hvs, hws, hhashable, rfl⟩ := set_accepts.1 h
  have hmembers := hws.again fun x hx => hagain vs hvs x (Value.mem_listed.1 hx)
  have hsubset : ∀ w ∈ Value.listed (Value.membersOf ws), w ∈ ws := fun w hw =>
    Value.mem_of_membersOf (Value.mem_listed.1 hw)
  refine set_accepts.2 ⟨_, _, .inl rfl, accepts_self fun w hw => hmembers w (hsubset w hw), ?_, ?_⟩
  · exact areHashable_iff.2 fun w hw => areHashable_iff.1 hhashable w (hsubset w hw)
  · rw [Value.membersOf_membersOf]

end Meaning

end Assay
