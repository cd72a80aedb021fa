import Assay.Proofs.Equivalence
import Assay.Value.Depth
import Assay.Value.Order
import Mathlib.Data.List.Basic

/-!
# Putting containers together

A mapping is put together entry by entry: an entry for a key that is there already replaces the
value and leaves the key (`Entries.insert`, `Entries.ofList`). A set is put together member by
member, and what it has already is dropped (`Value.distinct`); small whole numbers are then listed
by their places (`Value.listed`). What a container holds is less deep than the container
(`Value.depth_item_lt`, `Value.depth_entry_lt`).
-/

namespace Assay

/-! ## Well-formed containers -/

namespace Value

variable {v : Value}

theorem wellFormed_entries (hv : v.wellFormed = true) {data : Entries}
    (hdata : v.entries? = some data) :
    ∀ e ∈ data, e.1.wellFormed = true ∧ e.2.wellFormed = true := by
  cases v with
  | dict _ | view _ =>
    cases hdata
    exact entriesWellFormed_iff.1 (Bool.and_eq_true_iff.1 hv).2
  | _ => cases hdata

/-- What is found in a well-formed mapping is well-formed. -/
theorem wellFormed_found (hv : v.wellFormed = true) {data : Entries}
    (hdata : v.entries? = some data) (key : Value) :
    ((data.find? key).getD .missing).wellFormed = true := by
  cases hfound : data.find? key with
  | none => rfl
  | some w =>
    obtain ⟨e, he, rfl⟩ := Option.map_eq_some_iff.1 hfound
    exact (wellFormed_entries hv hdata e (List.mem_of_find?_eq_some he)).2

theorem wellFormed_items (hv : v.wellFormed = true) {vs : List Value} (hvs : v.items? = some vs) :
    ∀ x ∈ vs, x.wellFormed = true := by
  cases v with
  | list _ | tuple _ =>
    cases hvs
    exact allWellFormed_iff.1 hv
  | _ => cases hvs

theorem wellFormed_members {vs : List Value} (hv : v = .set vs ∨ v = .frozenSet vs)
    (hformed : v.wellFormed = true) : ∀ x ∈ vs, x.wellFormed = true := by
  rcases hv with rfl | rfl <;> exact allWellFormed_iff.1 (Bool.and_eq_true_iff.1 hformed).2

end Value

/-! ## Mappings -/

namespace Entries

variable {es : Entries} {k v x : Value}

/-- Equal keys find the same values. -/
theorem find?_congr {k k' : Value} (hk : k.wellFormed = true) (h : k.isFound k' = true)
    (es : Entries) : es.find? k = es.find? k' := by
  unfold Entries.find?
  rw [funext fun e : Value × Value => Value.isFound_congr_right hk h e.1]

theorem find?_eq_none : es.find? x = none ↔ ∀ e ∈ es, e.1.isFound x = false := by
  simp [find?]

/-- What holds of all entries still does with one more, if it does with another value that comes
with an equal key. -/
theorem forall_insert {P : Value → Value → Prop} (hes : ∀ e ∈ es, P e.1 e.2) (hkv : P k v)
    (hreplace : ∀ e ∈ es, e.1.isFound k = true → P e.1 v) :
    ∀ e ∈ es.insert k v, P e.1 e.2 := by
  induction es with
  | nil =>
    rintro e he
    rw [List.mem_singleton.1 he]
    exact hkv
  | cons e es ih =>
    obtain ⟨he, hes⟩ := List.forall_mem_cons.1 hes
    obtain ⟨hreplaceone, hreplace⟩ := List.forall_mem_cons.1 hreplace
    rw [insert]
    split
    · exact List.forall_mem_cons.2 ⟨hreplaceone ‹_›, hes⟩
    · exact List.forall_mem_cons.2 ⟨he, ih hes hreplace⟩

/-- Keys that are there stay there. -/
theorem keys_subset_insert : es.map (·.1) ⊆ (es.insert k v).map (·.1) := by
  induction es with
  | nil => exact List.nil_subset _
  | cons e es ih =>
    rw [insert]
    split
    · exact List.Subset.refl _
    · exact List.cons_subset_cons _ ih

theorem exists_key_insert : ∃ i ∈ (es.insert k v).map (·.1), i.isFound k = true := by
  induction es with
  | nil => exact ⟨k, List.mem_singleton_self _, Value.isFound_refl k⟩
  | cons e es ih =>
    rw [insert]
    split
    · exact ⟨e.1, List.mem_cons_self .., ‹_›⟩
    · obtain ⟨i, hi, h⟩ := ih
      exact ⟨i, List.mem_cons_of_mem _ hi, h⟩

/-- What holds of all entries still does when equal keys are merged, if the value of an equal key
can take the place of another. -/
theorem forall_ofList {P : Value → Value → Prop} (hes : ∀ e ∈ es, P e.1 e.2)
    (hreplace : ∀ i j v w, P i v → P j w → i.isFound j = true → P i w) :
    ∀ e ∈ ofList es, P e.1 e.2 := by
  have hfold (out : Entries) (hout : ∀ e ∈ out, P e.1 e.2) :
      ∀ e ∈ es.foldl (fun acc e => insert acc e.1 e.2) out, P e.1 e.2 := by
    induction es generalizing out with
    | nil => exact hout
    | cons e es ih =>
      obtain ⟨he, hes⟩ := List.forall_mem_cons.1 hes
      exact ih hes _ (forall_insert hout he fun f hf hfe => hreplace _ _ _ _ (hout f hf) he hfe)
  exact hfold [] fun e he => nomatch he

/-- Every key is found when equal keys are merged. -/
theorem find?_ofList_ne_none {e : Value × Value} (he : e ∈ es) : (ofList es).find? e.1 ≠ none := by
  have hstays {i : Value} {es out : Entries} (h : i ∈ out.map (·.1)) :
      i ∈ (es.foldl (fun acc e => insert acc e.1 e.2) out).map (·.1) := by
    induction es generalizing out with
    | nil => exact h
    | cons f es ih => exact ih (keys_subset_insert h)
  have hfold (out : Entries) :
      ∃ i ∈ (es.foldl (fun acc e => insert acc e.1 e.2) out).map (·.1), i.isFound e.1 = true := by
    induction es generalizing out with
    | nil => cases he
    | cons f es ih =>
      rw [List.foldl_cons]
      rcases List.mem_cons.1 he with rfl | he
      · obtain ⟨i, hi, h⟩ := @exists_key_insert out e.1 e.2
        exact ⟨i, hstays hi, h⟩
      · exact ih he _
  intro hnone
  obtain ⟨i, hi, h⟩ := hfold []
  obtain ⟨f, hf, rfl⟩ := List.mem_map.1 hi
  rw [find?_eq_none.1 hnone f hf] at h
  cases h

/-- If equal keys come with the same value, the entries that remain are among those there were. -/
theorem mem_of_ofList (hagree : ∀ e ∈ es, ∀ f ∈ es, e.1.isFound f.1 = true → e.2 = f.2) :
    ∀ e ∈ ofList es, e ∈ es := by
  refine forall_ofList (P := fun i w => (i, w) ∈ es) (fun _ he => he) fun i j w x hi hj hij => ?_
  obtain rfl : w = x := hagree _ hi _ hj hij
  exact hi

/-- If equal keys come with the same value, that value is found. -/
theorem find?_ofList (hagree : ∀ e ∈ es, ∀ f ∈ es, e.1.isFound f.1 = true → e.2 = f.2)
    {e : Value × Value} (he : e ∈ es) : (ofList es).find? e.1 = some e.2 := by
  obtain ⟨w, hw⟩ := Option.ne_none_iff_exists'.1 (find?_ofList_ne_none he)
  obtain ⟨f, hf, rfl⟩ := Option.map_eq_some_iff.1 hw
  have hmem := mem_of_ofList hagree f (List.mem_of_find?_eq_some hf)
  have hfound : f.1.isFound e.1 = true := by simpa using List.find?_some hf
  rw [hw, hagree f hmem e he hfound]

theorem insert_of_apart (h : ∀ e ∈ es, e.1.isFound k = false) : es.insert k v = es ++ [(k, v)] := by
  induction es with
  | nil => rfl
  | cons e es ih =>
    obtain ⟨he, hes⟩ := List.forall_mem_cons.1 h
    rw [insert, if_neg (by simp [he]), ih hes, List.cons_append]

theorem Distinct.insert (h : es.Distinct) (k v : Value) : (es.insert k v).Distinct := by
  induction es with
  | nil => exact List.pairwise_singleton _ _
  | cons e es ih =>
    obtain ⟨he, hes⟩ := List.pairwise_cons.1 h
    rw [Entries.insert]
    split
    · exact List.pairwise_cons.2 ⟨he, hes⟩
    · rename_i hne
      refine List.pairwise_cons.2 ⟨?_, ih hes⟩
      exact forall_insert (P := fun i _ => e.1.isFound i = false) he (Bool.eq_false_iff.2 hne)
        fun f hf _ => he f hf

/-- Merging equal keys leaves distinct ones. -/
theorem distinct_ofList (es : Entries) : (ofList es).Distinct := by
  have hfold (out : Entries) (hout : out.Distinct) :
      Distinct (es.foldl (fun acc e => insert acc e.1 e.2) out) := by
    induction es generalizing out with
    | nil => exact hout
    | cons e es ih => exact ih _ (hout.insert e.1 e.2)
  exact hfold [] .nil

/-- Among distinct keys there is nothing to merge. -/
theorem ofList_of_distinct (h : es.Distinct) : ofList es = es := by
  have hfold (out : Entries) (hout : Distinct (out ++ es)) :
      es.foldl (fun acc e => insert acc e.1 e.2) out = out ++ es := by
    induction es generalizing out with
    | nil => exact (List.append_nil _).symm
    | cons e es ih =>
      have hapart : ∀ f ∈ out, f.1.isFound e.1 = false := fun f hf =>
        (List.pairwise_append.1 hout).2.2 f hf e (List.mem_cons_self ..)
      rw [List.foldl_cons, insert_of_apart hapart,
        ih (List.pairwise_cons.1 h).2 _ (by rwa [List.append_assoc]), List.append_assoc]
      rfl
  exact hfold [] h

end Entries

/-! ## Sets -/

namespace Value

variable {vs : List Value} {v w : Value}

theorem mem_of_distinct (h : v ∈ distinct vs) : v ∈ vs := by
  have hfold {ws : List Value} (acc : List Value)
      (h : v ∈ ws.foldl (fun acc v => if v.isIn acc then acc else acc ++ [v]) acc) :
      v ∈ acc ∨ v ∈ ws := by
    induction ws generalizing acc with
    | nil => exact .inl h
    | cons w ws ih =>
      rcases ih _ h with h | h
      · dsimp only at h
        split at h
        · exact .inl h
        · rcases List.mem_append.1 h with h | h
          · exact .inl h
          · exact .inr (List.mem_singleton.1 h ▸ List.mem_cons_self ..)
      · exact .inr (List.mem_cons_of_mem _ h)
  exact (hfold [] h).resolve_left fun h => nomatch h

/-- Members that are apart are all kept. -/
theorem distinct_of_apart (h : vs.Pairwise fun v w => v.isFound w = false) : distinct vs = vs := by
  have hfold {ws : List Value} (acc : List Value)
      (h : (acc ++ ws).Pairwise fun v w => v.isFound w = false) :
      ws.foldl (fun acc v => if v.isIn acc then acc else acc ++ [v]) acc = acc ++ ws := by
    induction ws generalizing acc with
    | nil => exact (List.append_nil _).symm
    | cons w ws ih =>
      have hnew : w.isIn acc = false := by
        unfold isIn
        exact List.any_eq_false.2 fun v hv => by
          simp [(List.pairwise_append.1 h).2.2 v hv w (List.mem_cons_self ..)]
      rw [List.foldl_cons, hnew, if_neg Bool.false_ne_true, ih _ (by rwa [List.append_assoc]),
        List.append_assoc]
      rfl
  exact hfold [] h

theorem apart_distinct (vs : List Value) :
    (distinct vs).Pairwise fun v w => v.isFound w = false := by
  have hfold (acc : List Value) (hacc : acc.Pairwise fun v w => v.isFound w = false) :
      (vs.foldl (fun acc v => if v.isIn acc then acc else acc ++ [v]) acc).Pairwise
        fun v w => v.isFound w = false := by
    induction vs generalizing acc with
    | nil => exact hacc
    | cons w vs ih =>
      rw [List.foldl_cons]
      refine ih _ ?_
      split
      · exact hacc
      · rename_i hnew
        refine List.pairwise_append.2 ⟨hacc, List.pairwise_singleton _ _, fun v hv u hu => ?_⟩
        rw [List.mem_singleton.1 hu]
        unfold isIn at hnew
        exact Bool.eq_false_iff.2 fun h => hnew (List.any_eq_true.2 ⟨v, hv, h⟩)
  exact hfold [] .nil

/-! ## The places of whole numbers -/

/-- Pairs of places and values are in order: each value has its place, no two the same. -/
structure Placing (size : Int) (ps : List (Int × Value)) : Prop where
  places : ∀ p ∈ ps, placeIn size p.2 = some p.1
  once : (ps.map (·.1)).Nodup
  sorted : ps.Pairwise fun p q => p.1 ≤ q.1

theorem map_snd_placed {β : Type} (place : Value → Option β) (vs : List Value) :
    (vs.filterMap fun v => (place v).map fun i => (i, v)).map (·.2) =
      vs.filter fun v => (place v).isSome := by
  induction vs with
  | nil => rfl
  | cons v vs ih => cases hv : place v <;> simp [hv, ih]

theorem placed_of_places {size : Int} {ps : List (Int × Value)}
    (h : ∀ p ∈ ps, placeIn size p.2 = some p.1) :
    ((ps.map (·.2)).filterMap fun v => (placeIn size v).map fun i => (i, v)) = ps := by
  induction ps with
  | nil => rfl
  | cons p ps ih =>
    obtain ⟨hp, hps⟩ := List.forall_mem_cons.1 h
    simp [hp, ih hps]

theorem length_eraseDups_le (is : List Int) : is.eraseDups.length ≤ is.length := by
  induction hn : is.length using Nat.strongRecOn generalizing is with
  | ind n ih =>
    cases is with
    | nil => exact Nat.zero_le _
    | cons i is =>
      subst hn
      rw [List.eraseDups_cons]
      have hle := List.length_filter_le (fun j => !j == i) is
      exact Nat.succ_le_succ (Nat.le_trans (ih _ (Nat.lt_succ_of_le hle) _ rfl) hle)

theorem length_eraseDups_iff {is : List Int} : is.eraseDups.length = is.length ↔ is.Nodup := by
  induction is with
  | nil => simp
  | cons i is ih =>
    have hfilter : is.filter (fun j => !j == i) = is ↔ i ∉ is := by
      rw [List.filter_eq_self]
      exact ⟨fun h hi => by simpa using h i hi, fun h j hj => by
        simpa using fun hji : j = i => h (hji ▸ hj)⟩
    have hle := length_eraseDups_le (is.filter fun j => !j == i)
    have hle' := List.length_filter_le (fun j => !j == i) is
    rw [List.eraseDups_cons, List.nodup_cons, ← ih, ← hfilter]
    simp only [List.length_cons, Nat.add_right_cancel_iff]
    constructor
    · intro h
      -- Dropping equal numbers and those equal to the first one both shorten the list.
      have hself : is.filter (fun j => !j == i) = is := by
        refine List.filter_eq_self.2 (List.length_filter_eq_length_iff.1 ?_)
        omega
      exact ⟨hself, by rwa [hself] at h⟩
    · rintro ⟨hself, h⟩
      rw [hself]
      exact h

/-- Members are listed as they are, or in the order of their places. -/
theorem listed_cases (vs : List Value) : listed vs = vs ∨
    ∃ ps, Placing (room vs.length) ps ∧ (ps.map (·.2)).Perm vs ∧ listed vs = ps.map (·.2) := by
  unfold listed
  dsimp only
  split
  · -- All members have places, no two the same: they are sorted by these.
    rename_i h
    simp only [Bool.and_eq_true, beq_iff_eq] at h
    generalize hplaced : (vs.filterMap fun v =>
      (placeIn (room vs.length) v).map fun i => (i, v)) = placed at h ⊢
    have hperm := List.mergeSort_perm placed fun a b => decide (a.1 ≤ b.1)
    refine .inr ⟨_, ⟨fun p hp => ?_, ?_, ?_⟩, (hperm.map _).trans (.of_eq ?_), rfl⟩
    · rw [hperm.mem_iff, ← hplaced] at hp
      obtain ⟨v, -, hv⟩ := List.mem_filterMap.1 hp
      obtain ⟨i, hi, rfl⟩ := Option.map_eq_some_iff.1 hv
      exact hi
    · refine (hperm.map _).nodup_iff.2 (length_eraseDups_iff.1 ?_)
      rw [h.2, List.length_map, h.1]
    · let le := fun p q : Int × Value => decide (p.1 ≤ q.1)
      have htrans : ∀ p q r, le p q = true → le q r = true → le p r = true := by
        intro p q r hpq hqr
        simp only [le, decide_eq_true_eq] at hpq hqr ⊢
        omega
      have htotal : ∀ p q, (le p q || le q p) = true := by
        intro p q
        simp only [le, Bool.or_eq_true, decide_eq_true_eq]
        omega
      exact (List.pairwise_mergeSort htrans htotal placed).imp fun h => by simpa [le] using h
    · have hsnd := map_snd_placed (placeIn (room vs.length)) vs
      have hlength := congrArg List.length hsnd
      rw [hplaced, List.length_map, h.1] at hlength
      rw [← hplaced, hsnd]
      exact List.filter_eq_self.2 (List.length_filter_eq_length_iff.1 hlength.symm)
  · exact .inl rfl

theorem listed_of_placing {ps : List (Int × Value)} (h : Placing (room ps.length) ps) :
    listed (ps.map (·.2)) = ps.map (·.2) := by
  have hsorted : ps.mergeSort (fun a b => decide (a.1 ≤ b.1)) = ps :=
    List.mergeSort_of_pairwise (h.sorted.imp fun h => by simpa using h)
  unfold listed
  simp only [List.length_map, placed_of_places h.places, hsorted, ite_self]

/-- Members are listed in another order at most. -/
theorem listed_perm (vs : List Value) : (listed vs).Perm vs := by
  rcases listed_cases vs with h | ⟨ps, -, hperm, h⟩
  · rw [h]
  · exact h ▸ hperm

/-- Members that have been listed are listed as they are. -/
theorem listed_listed (vs : List Value) : listed (listed vs) = listed vs := by
  rcases listed_cases vs with h | ⟨ps, hps, hperm, h⟩
  · rw [h, h]
  · rw [h]
    refine listed_of_placing ?_
    have hlength := hperm.length_eq
    rw [List.length_map] at hlength
    rwa [hlength]

theorem whole?_congr {n m : Int} (hv : v.whole? = some n) (hw : w.whole? = some m)
    (h : v.isFound w = true) : n = m := by
  cases v <;> cases hv <;> cases w <;> cases hw <;>
    simpa [isFound, numberEquals, whole?] using h

/-- Equal whole numbers have the same place. -/
theorem placeIn_congr {size i j : Int} (hv : placeIn size v = some i)
    (hw : placeIn size w = some j) (h : v.isFound w = true) : i = j := by
  obtain ⟨n, hn, rfl⟩ := Option.map_eq_some_iff.1 hv
  obtain ⟨m, hm, rfl⟩ := Option.map_eq_some_iff.1 hw
  rw [whole?_congr hn hm h]

theorem apart_listed (h : vs.Pairwise fun v w => v.isFound w = false) :
    (listed vs).Pairwise fun v w => v.isFound w = false := by
  rcases listed_cases vs with heq | ⟨ps, hps, -, heq⟩
  · rwa [heq]
  · rw [heq, List.pairwise_map]
    have honce : ps.Pairwise fun p q => p.1 ≠ q.1 := List.pairwise_map.1 hps.once
    refine honce.imp_of_mem fun {p q} hp hq hne => Bool.eq_false_iff.2 fun hfound => ?_
    exact hne (placeIn_congr (hps.places p hp) (hps.places q hq) hfound)

theorem mem_listed : v ∈ listed vs ↔ v ∈ vs := (listed_perm vs).mem_iff

/-- The members of a set of some values are among these. -/
theorem mem_of_membersOf (h : v ∈ membersOf vs) : v ∈ vs := mem_of_distinct (mem_listed.1 h)

/-- The members of a set make up the same set, listed in the same order. -/
theorem membersOf_membersOf (vs : List Value) :
    membersOf (listed (membersOf vs)) = membersOf vs := by
  have hlisted : listed (membersOf vs) = membersOf vs := listed_listed _
  have hdistinct : distinct (membersOf vs) = membersOf vs :=
    distinct_of_apart (apart_listed (apart_distinct vs))
  rw [hlisted]
  unfold membersOf at hdistinct hlisted ⊢
  rw [hdistinct, hlisted]

end Value

/-! ## The depth of what is nested -/

namespace Value

theorem depth_le_depthAll {v : Value} {vs : List Value} (h : v ∈ vs) : v.depth ≤ depthAll vs := by
  induction vs with
  | nil => cases h
  | cons w vs ih =>
    rw [depthAll]
    rcases List.mem_cons.1 h with rfl | h
    · exact Nat.le_max_left ..
    · exact Nat.le_trans (ih h) (Nat.le_max_right ..)

theorem depth_le_depthEntries {e : Value × Value} {es : Entries} (h : e ∈ es) :
    e.1.depth ≤ depthEntries es ∧ e.2.depth ≤ depthEntries es := by
  induction es with
  | nil => cases h
  | cons f es ih =>
    rw [depthEntries]
    rcases List.mem_cons.1 h with rfl | h
    · exact ⟨Nat.le_trans (Nat.le_max_left ..) (Nat.le_max_left ..),
        Nat.le_trans (Nat.le_max_right ..) (Nat.le_max_left ..)⟩
    · exact ⟨Nat.le_trans (ih h).1 (Nat.le_max_right ..), Nat.le_trans (ih h).2 (Nat.le_max_right ..)⟩

theorem depth_pos_of_items? {v : Value} {vs : List Value} (h : v.items? = some vs) : 0 < v.depth := by
  cases v <;> cases h <;> exact Nat.succ_pos _

theorem depth_item_lt {v : Value} {vs : List Value} (h : v.items? = some vs) :
    ∀ w ∈ vs, w.depth < v.depth := by
  intro w hw
  cases v <;> cases h <;> exact Nat.lt_succ_of_le (depth_le_depthAll hw)

theorem depth_entry_lt {v : Value} {es : Entries} (h : v.entries? = some es) :
    ∀ e ∈ es, e.1.depth < v.depth ∧ e.2.depth < v.depth := by
  intro e he
  obtain ⟨hkey, hvalue⟩ := depth_le_depthEntries he
  cases v <;> cases h <;> exact ⟨Nat.lt_succ_of_le hkey, Nat.lt_succ_of_le hvalue⟩

/-- What a mapping has for a key, or an absent value, is less deep than the mapping. -/
theorem depth_find?_lt {v : Value} {es : Entries} (h : v.entries? = some es) (key : Value) :
    ((es.find? key).getD .missing).depth < v.depth := by
  cases hfind : es.find? key with
  | none => cases v <;> cases h <;> exact Nat.succ_pos _
  | some w =>
    obtain ⟨e, he, rfl⟩ := Option.map_eq_some_iff.1 hfind
    exact (depth_entry_lt h e (List.mem_of_find?_eq_some he)).2

end Value

end Assay
