import Assay.Evaluate.Merge
import Assay.Proofs.Containers

/-!
# What a merge holds (`merges_by_parts`)

Where two values stand does not matter for what their merge holds (`toOption_mergeValues`), so a
merge has a value for the two (`Value.merged?`). Two mappings that are not equal are merged by
their keys (`MergesByKeys`), two lists of one length by their places (`MergesByPlaces`): the merge
succeeds when all shared parts merge, and holds their merges. Equal containers are merged without
a look at their parts, and equality of containers takes a truth value for the number that it is,
while truth values and numbers do not merge. So equal containers are merged by their parts exactly
when no two shared parts are a truth value and a number.
-/

namespace Assay

variable {path path' : List Value} {l r v w m : Value} {ls rs ms : Entries} {vs ws : List Value}

/-! ## Values that are one -/

theorem Value.isOne_iff : v.isOne w = true ↔ v.isFound w = true ∧ v.isTruth = w.isTruth := by
  have hnan : v.isNan = true → v.isFound w = true → v.isTruth = w.isTruth := fun hv h => by
    have hfamily := family_eq h
    cases v <;> cases hv
    cases w <;> first | rfl | cases hfamily
  -- Only a NaN can be one object with another value and not equal it.
  have hone : v.isOne w = (v.same w || v.isNan && v.isFound w) := by
    cases v <;> rfl
  rw [hone, Bool.or_eq_true, Bool.and_eq_true, same_iff]
  constructor
  · rintro (⟨hfound, htruth, -⟩ | ⟨hv, hfound⟩)
    · exact ⟨hfound, htruth⟩
    · exact ⟨hfound, hnan hv hfound⟩
  · rintro ⟨hfound, htruth⟩
    cases hv : v.isNan with
    | true => exact .inr ⟨rfl, hfound⟩
    | false => exact .inl ⟨hfound, htruth, rfl⟩

/-! ## One step -/

theorem mergeValues_of_isOne (hone : l.isOne r = true) : mergeValues path l r = .ok l := by
  cases r <;> exact if_pos hone

theorem mergeValues_entries (hone : l.isOne r = false) (hl : l.entries? = some ls)
    (hr : r.entries? = some rs) :
    mergeValues path l r = Value.dict <$> mergeEntries path ls ls rs := by
  cases r <;> cases hr <;> simp [mergeValues, hone, hl]

theorem mergeValues_items (hone : l.isOne r = false) (hl : l.items? = some ws)
    (hr : r.items? = some vs) (hlength : ws.length = vs.length) :
    mergeValues path l r = l.sequenceLike <$> mergeItems path 0 ws vs := by
  cases r <;> cases hr <;> simp [mergeValues, hone, hl, hlength]

/-- Values of which nothing can be merged. -/
theorem mergeValues_apart (hone : l.isOne r = false)
    (hentries : l.entries? = none ∨ r.entries? = none)
    (hitems : ∀ ws vs, l.items? = some ws → r.items? = some vs → ws.length ≠ vs.length) :
    mergeValues path l r = unmergeable path := by
  cases r with
  | dict _ | view _ =>
    have hl : l.entries? = none := hentries.resolve_right nofun
    simp [mergeValues, hone, hl]
  | list vs | tuple vs =>
    cases hl : l.items? with
    | none => simp [mergeValues, hone, hl]
    | some ws => simp [mergeValues, hone, hl, hitems ws vs hl rfl]
  | _ => simp [mergeValues, hone]

/-! ## Without the path -/

theorem toOption_map {α β : Type} (f : α → β) (x : Except Fault α) :
    (f <$> x).toOption = x.toOption.map f := by
  cases x <;> rfl

theorem toOption_bind {α β : Type} (x : Except Fault α) (f : α → Except Fault β) :
    (x >>= f).toOption = x.toOption.bind fun a => (f a).toOption := by
  cases x <;> rfl

theorem path_of_entries (hr : r.entries? = some rs)
    (h : ∀ ls, (mergeEntries path ls ls rs).toOption = (mergeEntries path' ls ls rs).toOption) :
    (mergeValues path l r).toOption = (mergeValues path' l r).toOption := by
  cases hone : l.isOne r with
  | true => rw [mergeValues_of_isOne hone, mergeValues_of_isOne hone]
  | false =>
    cases hl : l.entries? with
    | some ls =>
      rw [mergeValues_entries hone hl hr, mergeValues_entries hone hl hr, toOption_map,
        toOption_map, h]
    | none =>
      have hitems : ∀ ws vs, l.items? = some ws → r.items? = some vs → ws.length ≠ vs.length := by
        cases r <;> cases hr <;> nofun
      rw [mergeValues_apart hone (.inl hl) hitems, mergeValues_apart hone (.inl hl) hitems]
      rfl

theorem path_of_items (hr : r.items? = some vs)
    (h : ∀ ws, (mergeItems path 0 ws vs).toOption = (mergeItems path' 0 ws vs).toOption) :
    (mergeValues path l r).toOption = (mergeValues path' l r).toOption := by
  have hentries : r.entries? = none := by cases r <;> cases hr <;> rfl
  cases hone : l.isOne r with
  | true => rw [mergeValues_of_isOne hone, mergeValues_of_isOne hone]
  | false =>
    by_cases hl : ∃ ws, l.items? = some ws ∧ ws.length = vs.length
    · obtain ⟨ws, hl, hlength⟩ := hl
      rw [mergeValues_items hone hl hr hlength, mergeValues_items hone hl hr hlength, toOption_map,
        toOption_map, h]
    · have hitems : ∀ ws us, l.items? = some ws → r.items? = some us → ws.length ≠ us.length := by
        intro ws us hws hus hlength
        obtain rfl : vs = us := Option.some.inj (hr.symm.trans hus)
        exact hl ⟨ws, hws, hlength⟩
      rw [mergeValues_apart hone (.inr hentries) hitems,
        mergeValues_apart hone (.inr hentries) hitems]
      rfl

mutual

/-- The path is only told. -/
theorem mergeValues_path (path path' : List Value) (l : Value) : (r : Value) →
    (mergeValues path l r).toOption = (mergeValues path' l r).toOption
  | .dict es => path_of_entries rfl fun ls => mergeEntries_path path path' ls ls es
  | .view es => path_of_entries rfl fun ls => mergeEntries_path path path' ls ls es
  | .list vs => path_of_items rfl fun ws => mergeItems_path path path' 0 0 ws vs
  | .tuple vs => path_of_items rfl fun ws => mergeItems_path path path' 0 0 ws vs
  | .missing | .null | .bool _ | .int _ | .float _ | .nan _ | .str _ | .bytes .. | .date _
  | .moment _ | .set _ | .frozenSet _ | .object .. | .cls _ | .member .. | .pending ..
  | .callable _ | .builtin _ | .issue _ | .check _ | .schema _ => by
    unfold mergeValues
    split <;> rfl
termination_by structural x => x

theorem mergeEntries_path (path path' : List Value) (left merged : Entries) :
    (rest : List (Value × Value)) → (mergeEntries path left merged rest).toOption =
      (mergeEntries path' left merged rest).toOption
  | [] => rfl
  | (k, v) :: rest => by
    unfold mergeEntries
    split
    · rename_i w _
      rw [toOption_bind, toOption_bind, mergeValues_path (path ++ [k]) (path' ++ [k]) w v]
      simp only [mergeEntries_path path path' left _ rest]
    · exact mergeEntries_path path path' left _ rest
termination_by structural x => x

theorem mergeItems_path (path path' : List Value) (i j : Nat) (ws : List Value) :
    (vs : List Value) → (mergeItems path i ws vs).toOption = (mergeItems path' j ws vs).toOption
  | [] => by cases ws <;> rfl
  | v :: vs => by
    cases ws with
    | nil => rfl
    | cons w ws =>
      unfold mergeItems
      simp only [toOption_bind]
      rw [mergeValues_path (path ++ [Value.int i]) (path' ++ [Value.int j]) w v,
        mergeItems_path path path' (i + 1) (j + 1) ws vs]
termination_by structural x => x

end

/-- The merge of two values, if they merge. -/
def Value.merged? (l r : Value) : Option Value :=
  (mergeValues [] l r).toOption

theorem toOption_mergeValues (path : List Value) (l r : Value) :
    (mergeValues path l r).toOption = l.merged? r :=
  mergeValues_path path [] l r

theorem merged?_eq_some : l.merged? r = some m ↔ mergeValues [] l r = .ok m := by
  unfold Value.merged?
  cases mergeValues [] l r <;> simp [Except.toOption]

theorem merged?_of_isOne (hone : l.isOne r = true) : l.merged? r = some l :=
  merged?_eq_some.2 (mergeValues_of_isOne hone)

/-- Values of which nothing can be merged. -/
theorem merged?_apart (hone : l.isOne r = false) (hentries : l.entries? = none ∨ r.entries? = none)
    (hitems : ∀ ws vs, l.items? = some ws → r.items? = some vs → ws.length ≠ vs.length) :
    l.merged? r = none := by
  rw [Value.merged?, mergeValues_apart hone hentries hitems]
  rfl

/-- A truth value merges with truth values alone. -/
theorem merged?_of_truth (h : l.isTruth ≠ r.isTruth) : l.merged? r = none := by
  have hone : l.isOne r = false := Bool.eq_false_iff.2 fun hone => h (Value.isOne_iff.1 hone).2
  have hplain : l.isTruth = true ∨ r.isTruth = true := by
    cases hl : l.isTruth <;> cases hr : r.isTruth <;> simp [hl, hr] at h ⊢
  have hentries (v : Value) (hv : v.isTruth = true) : v.entries? = none := by
    cases v <;> first | rfl | cases hv
  have hitems (v : Value) (hv : v.isTruth = true) : v.items? = none := by
    cases v <;> first | rfl | cases hv
  refine merged?_apart hone (hplain.imp (hentries l) (hentries r)) fun ws vs hws hvs => ?_
  rcases hplain with hl | hr
  · cases (hitems l hl).symm.trans hws
  · cases (hitems r hr).symm.trans hvs

/-! ## Mappings -/

namespace Entries

/-- What an entry brings to a mapping that it is merged into: its value, or the merge with what is
there already. -/
def meeting? (left : Entries) (k v : Value) : Option Value :=
  (left.find? k).elim (some v) fun w => w.merged? v

theorem meeting?_of_some {left : Entries} {k w : Value} (hw : left.find? k = some w) (v : Value) :
    left.meeting? k v = w.merged? v := by
  rw [meeting?, hw, Option.elim_some]

theorem meeting?_of_none {left : Entries} {k : Value} (hw : left.find? k = none) (v : Value) :
    left.meeting? k v = some v := by
  rw [meeting?, hw, Option.elim_none]

theorem meeting?_congr (left : Entries) {k k' : Value} (hk : k.wellFormed = true)
    (h : k.isFound k' = true) (v : Value) : left.meeting? k v = left.meeting? k' v := by
  rw [meeting?, meeting?, find?_congr hk h]

theorem exists_of_find? {es : Entries} {k v : Value} (h : es.find? k = some v) :
    ∃ i, (i, v) ∈ es ∧ i.isFound k = true := by
  obtain ⟨e, he, rfl⟩ := Option.map_eq_some_iff.1 h
  exact ⟨e.1, List.mem_of_find?_eq_some he, by simpa using List.find?_some he⟩

/-- What is found after an insertion. -/
theorem find?_insert {es : Entries} {k : Value} (hes : ∀ e ∈ es, e.1.wellFormed = true)
    (hk : k.wellFormed = true) (v x : Value) :
    (es.insert k v).find? x = if k.isFound x then some v else es.find? x := by
  induction es with
  | nil => cases h : k.isFound x <;> simp [insert, find?, h]
  | cons e es ih =>
    obtain ⟨he, hes⟩ := List.forall_mem_cons.1 hes
    rw [insert]
    split
    · rename_i hsame
      rw [← Value.isFound_congr_left he hsame x]
      cases h : e.1.isFound x <;> simp [find?, h]
    · rename_i hother
      specialize ih hes
      cases h : e.1.isFound x with
      | false => simpa [find?, h] using ih
      | true =>
        -- Two different keys are not both found for a third.
        have hk : k.isFound x = false := Bool.eq_false_iff.2 fun hkx =>
          hother (Value.isFound_trans h (Value.isFound_symm hk hkx))
        simp [find?, h, hk]

theorem find?_cons (e : Value × Value) (es : Entries) (x : Value) :
    find? (e :: es) x = if e.1.isFound x then some e.2 else es.find? x := by
  cases h : e.1.isFound x <;> simp [find?, h]

/-- Of entries that are inserted one after the other, those that are there already are found where
no inserted one is. -/
theorem find?_foldl_insert {es out : Entries} (hapart : es.Distinct)
    (hes : ∀ e ∈ es, e.1.wellFormed = true) (hout : ∀ e ∈ out, e.1.wellFormed = true) (x : Value) :
    (es.foldl (fun acc e => acc.insert e.1 e.2) out).find? x = (es.find? x).or (out.find? x) := by
  induction es generalizing out with
  | nil => rfl
  | cons e es ih =>
    obtain ⟨hother, hapart⟩ := List.pairwise_cons.1 hapart
    obtain ⟨he, hes⟩ := List.forall_mem_cons.1 hes
    have hinserted : ∀ f ∈ out.insert e.1 e.2, f.1.wellFormed = true :=
      forall_insert (P := fun i _ => i.wellFormed = true) hout he fun f hf _ => hout f hf
    rw [List.foldl_cons, ih hapart hes hinserted, find?_insert hout he, find?_cons]
    cases hx : e.1.isFound x with
    | false => rfl
    | true =>
      -- No later key is the same, so the value of this one stays.
      have hnone : find? es x = none := find?_eq_none.2 fun f hf => by
        rw [← Value.isFound_congr_right he hx, Value.isFound_comm (hes f hf) he, hother f hf]
      rw [hnone]
      rfl

theorem ofList_wellFormed {es : Entries} (hes : ∀ e ∈ es, e.1.wellFormed = true) :
    ∀ e ∈ ofList es, e.1.wellFormed = true :=
  forall_ofList (P := fun i _ => i.wellFormed = true) hes fun _ _ _ _ hi _ _ => hi

/-- Of two lists of entries, the second one decides about equal keys. -/
theorem find?_ofList_append {es fs : Entries} (hapart : fs.Distinct)
    (hformed : ∀ e ∈ es ++ fs, e.1.wellFormed = true) (x : Value) :
    (ofList (es ++ fs)).find? x = (fs.find? x).or ((ofList es).find? x) := by
  obtain ⟨hes, hfs⟩ := List.forall_mem_append.1 hformed
  have hinserted := find?_foldl_insert hapart hfs (ofList_wellFormed hes) x
  rwa [ofList, ← List.foldl_append] at hinserted

end Entries

theorem mergeEntries_cons (path : List Value) (left merged : Entries) (k v : Value)
    (rest : Entries) :
    (mergeEntries path left merged ((k, v) :: rest)).toOption = (left.meeting? k v).bind fun m =>
      (mergeEntries path left (merged.insert k m) rest).toOption := by
  rw [mergeEntries, Entries.meeting?]
  cases left.find? k with
  | none => rfl
  | some w => rw [toOption_bind, toOption_mergeValues, Option.elim_some]

/-- What a run over entries comes to, from what is merged so far. -/
structure MergeRun (left merged rest : Entries) (result : Option Entries) : Prop where
  succeeds : result.isSome ↔ ∀ e ∈ rest, (left.meeting? e.1 e.2).isSome
  distinct : ∀ ms, result = some ms → ms.Distinct
  finds : ∀ ms, result = some ms → ∀ k,
    ms.find? k = (rest.find? k).elim (merged.find? k) (left.meeting? k)

theorem mergeEntries_run (path : List Value) {left merged rest : Entries}
    (hmerged : ∀ e ∈ merged, e.1.wellFormed = true) (hrest : ∀ e ∈ rest, e.1.wellFormed = true)
    (hdistinct : merged.Distinct) (hapart : rest.Distinct) :
    MergeRun left merged rest (mergeEntries path left merged rest).toOption := by
  -- On the entries that remain. What is merged so far stays without a key that is named twice, and
  -- its keys stay well formed, for which being found is symmetric and transitive.
  induction rest generalizing merged with
  | nil =>
    refine ⟨by simp [mergeEntries, Except.toOption], ?_, ?_⟩
    · rintro ms ⟨⟩
      exact hdistinct
    · rintro ms ⟨⟩ k
      rfl
  | cons e rest ih =>
    obtain ⟨k, v⟩ := e
    obtain ⟨hk, hrest⟩ := List.forall_mem_cons.1 hrest
    obtain ⟨hkapart, hapart⟩ := List.pairwise_cons.1 hapart
    rw [mergeEntries_cons]
    cases hm : left.meeting? k v with
    | none => exact ⟨by simp [hm], nofun, nofun⟩
    | some m =>
      have hinserted : ∀ e ∈ merged.insert k m, e.1.wellFormed = true :=
        Entries.forall_insert (P := fun i _ => i.wellFormed = true) hmerged hk
          fun e he _ => hmerged e he
      have hrun := ih hinserted hrest (hdistinct.insert k m) hapart
      refine ⟨by simp [hm, hrun.succeeds], hrun.distinct, fun ms hms x => ?_⟩
      rw [hrun.finds ms hms, Entries.find?_insert hmerged hk, Entries.find?_cons]
      split
      · rename_i hx
        have hnone : Entries.find? rest x = none := Entries.find?_eq_none.2 fun e he =>
          Bool.eq_false_iff.2 fun hex => Bool.eq_false_iff.1 (hkapart e he)
            (Value.isFound_trans hx (Value.isFound_symm (hrest e he) hex))
        rw [hnone, Option.elim_none, Option.elim_some, ← left.meeting?_congr hk hx v, hm]
      · rfl

/-- A mapping has the keys of two others. It holds the merges of what they share, and else what
only one of them holds. -/
structure Entries.Merges (ls rs ms : Entries) : Prop where
  keys : ∀ k, (ms.find? k).isSome ↔ (ls.find? k).isSome ∨ (rs.find? k).isSome
  shared : ∀ k w v, ls.find? k = some w → rs.find? k = some v → ms.find? k = w.merged? v
  onlyLeft : ∀ k, rs.find? k = none → ms.find? k = ls.find? k
  onlyRight : ∀ k, ls.find? k = none → ms.find? k = rs.find? k

/-- Two mappings are merged by their keys: when the values of all shared keys merge, to a mapping
of the merges. -/
structure MergesByKeys (ls rs : Entries) (result : Option Value) : Prop where
  succeeds : result.isSome ↔
    ∀ k w v, ls.find? k = some w → rs.find? k = some v → (w.merged? v).isSome
  holds : ∀ m, result = some m → ∃ ms, m.entries? = some ms ∧ ms.Distinct ∧ ls.Merges rs ms

theorem Value.distinct_entries (hv : v.wellFormed = true) (hdata : v.entries? = some ls) :
    ls.Distinct := by
  cases v with
  | dict _ | view _ =>
    cases hdata
    exact of_decide_eq_true (Bool.and_eq_true_iff.1 hv).1
  | _ => cases hdata

/-- Mappings that are not equal are merged by their keys. -/
theorem mergesByKeys_of_not_isOne (hone : l.isOne r = false) (hl : l.wellFormed = true)
    (hr : r.wellFormed = true) (hls : l.entries? = some ls) (hrs : r.entries? = some rs) :
    MergesByKeys ls rs (l.merged? r) := by
  have hlkeys : ∀ e ∈ ls, e.1.wellFormed = true := fun e he =>
    (Value.wellFormed_entries hl hls e he).1
  have hrkeys : ∀ e ∈ rs, e.1.wellFormed = true := fun e he =>
    (Value.wellFormed_entries hr hrs e he).1
  have hapart : rs.Distinct := Value.distinct_entries hr hrs
  have hrun : MergeRun ls ls rs (mergeEntries [] ls ls rs).toOption :=
    mergeEntries_run [] hlkeys hrkeys (Value.distinct_entries hl hls) hapart
  -- A run that succeeds has something to put at every key of the right side.
  have hmeets : (mergeEntries [] ls ls rs).toOption.isSome ↔
      ∀ k v, rs.find? k = some v → (ls.meeting? k v).isSome := by
    rw [hrun.succeeds]
    constructor
    · intro h k v hv
      obtain ⟨i, hi, hik⟩ := Entries.exists_of_find? hv
      rw [← ls.meeting?_congr (hrkeys _ hi) hik v]
      exact h _ hi
    · intro h e he
      exact h e.1 e.2 (Entries.find?_of_mem hapart he)
  have hmerged : l.merged? r = (mergeEntries [] ls ls rs).toOption.map Value.dict := by
    rw [Value.merged?, mergeValues_entries hone hls hrs, toOption_map]
  rw [hmerged]
  constructor
  · rw [Option.isSome_map, hmeets]
    constructor
    · intro h k w v hw hv
      rw [← Entries.meeting?_of_some hw]
      exact h k v hv
    · intro h k v hv
      cases hw : ls.find? k with
      | none => rw [Entries.meeting?_of_none hw, Option.isSome_some]
      | some w =>
        rw [Entries.meeting?_of_some hw]
        exact h k w v hw hv
  · intro m hm
    obtain ⟨(ms : Entries), hms, rfl⟩ := Option.map_eq_some_iff.1 hm
    have hright : ∀ k v, rs.find? k = some v → ms.find? k = ls.meeting? k v := fun k v hv => by
      rw [hrun.finds ms hms, hv, Option.elim_some]
    have hleft : ∀ k, rs.find? k = none → ms.find? k = ls.find? k := fun k hk => by
      rw [hrun.finds ms hms, hk, Option.elim_none]
    refine ⟨ms, rfl, hrun.distinct ms hms, ?_, ?_, hleft, ?_⟩
    · intro k
      cases hv : rs.find? k with
      | none => simp [hleft k hv]
      | some v => simpa [hright k v hv] using hmeets.1 (by rw [hms]; rfl) k v hv
    · intro k w v hw hv
      rw [hright k v hv, Entries.meeting?_of_some hw]
    · intro k hk
      cases hv : rs.find? k with
      | none => rw [hleft k hv, hk]
      | some v => rw [hright k v hv, Entries.meeting?_of_none hk]

/-- Equal mappings hold equal values for equal keys. -/
theorem Value.find?_of_isFound (h : l.isFound r = true) (hl : l.wellFormed = true)
    (hr : r.wellFormed = true) (hls : l.entries? = some ls) (hrs : r.entries? = some rs)
    {k w : Value} (hw : ls.find? k = some w) : ∃ v, rs.find? k = some v ∧ w.isFound v = true := by
  obtain ⟨fs, hfs, -, hfound⟩ := (Value.isFound_mapping hls).1 h
  obtain rfl : rs = fs := Option.some.inj (hrs.symm.trans hfs)
  obtain ⟨i, hi, hik⟩ := Entries.exists_of_find? hw
  obtain ⟨f, hf, hkey, hvalue⟩ := Value.entriesFound_iff.1 hfound _ hi
  have hiformed : i.wellFormed = true := (Value.wellFormed_entries hl hls _ hi).1
  have hfk : f.1.isFound k = true := Value.isFound_trans (Value.isFound_symm hiformed hkey) hik
  refine ⟨f.2, ?_, hvalue⟩
  rw [← Entries.find?_congr (Value.wellFormed_entries hr hrs f hf).1 hfk]
  exact Entries.find?_of_mem (Value.distinct_entries hr hrs) hf

/-- A key that two mappings share has a truth value on one side alone. -/
def MixesTruthAtKey (ls rs : Entries) : Prop :=
  ∃ k w v, ls.find? k = some w ∧ rs.find? k = some v ∧ w.isTruth ≠ v.isTruth

/-- Equal mappings are merged by their keys, unless they mix truth values and numbers. -/
theorem mergesByKeys_of_isFound (h : l.isFound r = true) (hl : l.wellFormed = true)
    (hr : r.wellFormed = true) (hls : l.entries? = some ls) (hrs : r.entries? = some rs)
    (hmixes : ¬MixesTruthAtKey ls rs) : MergesByKeys ls rs (some l) := by
  have hshared : ∀ k w v, ls.find? k = some w → rs.find? k = some v → w.merged? v = some w := by
    intro k w v hw hv
    obtain ⟨u, hu, hwu⟩ := Value.find?_of_isFound h hl hr hls hrs hw
    obtain rfl : v = u := Option.some.inj (hv.symm.trans hu)
    refine merged?_of_isOne (Value.isOne_iff.2 ⟨hwu, ?_⟩)
    by_contra htruth
    exact hmixes ⟨k, w, v, hw, hv, htruth⟩
  have hkeys : ∀ k, (rs.find? k).isSome → (ls.find? k).isSome := fun k hk => by
    obtain ⟨v, hv⟩ := Option.isSome_iff_exists.1 hk
    obtain ⟨w, hw, -⟩ := Value.find?_of_isFound (Value.isFound_symm hl h) hr hl hrs hls hv
    rw [hw, Option.isSome_some]
  constructor
  · exact iff_of_true rfl fun k w v hw hv => by rw [hshared k w v hw hv, Option.isSome_some]
  · rintro m ⟨⟩
    refine ⟨ls, hls, Value.distinct_entries hl hls, fun k => ?_, fun k w v hw hv => ?_,
      fun k hk => rfl, fun k hk => ?_⟩
    · exact ⟨.inl, fun h => h.elim id (hkeys k)⟩
    · rw [hw, hshared k w v hw hv]
    · rw [hk, eq_comm, ← Option.not_isSome_iff_eq_none]
      intro h
      simpa [hk] using hkeys k h

/-- Two mappings are merged by their keys exactly when they are not equal with a truth value in
the place of a number. -/
theorem mergesByKeys_iff (hl : l.wellFormed = true) (hr : r.wellFormed = true)
    (hls : l.entries? = some ls) (hrs : r.entries? = some rs) :
    MergesByKeys ls rs (l.merged? r) ↔ ¬(l.isFound r = true ∧ MixesTruthAtKey ls rs) := by
  have htruth : l.isTruth = r.isTruth := by
    cases l <;> cases hls <;> cases r <;> cases hrs <;> rfl
  have hone : l.isOne r = l.isFound r := by
    rw [Bool.eq_iff_iff, Value.isOne_iff]
    exact and_iff_left htruth
  cases hfound : l.isFound r with
  | false => exact iff_of_true (mergesByKeys_of_not_isOne (hone.trans hfound) hl hr hls hrs) nofun
  | true =>
    rw [merged?_of_isOne (hone.trans hfound)]
    constructor
    · rintro h ⟨-, k, w, v, hw, hv, hmixed⟩
      have hsome := h.succeeds.1 rfl k w v hw hv
      rw [merged?_of_truth hmixed] at hsome
      cases hsome
    · intro h
      exact mergesByKeys_of_isFound hfound hl hr hls hrs fun hmixes => h ⟨rfl, hmixes⟩

/-! ## Lists -/

/-- Two lists are merged by their places: when the values at all places merge, to a list of the
merges. -/
structure MergesByPlaces (ws vs : List Value) (result : Option Value) : Prop where
  succeeds : result.isSome ↔
    ∀ (i : Nat) (w v : Value), ws[i]? = some w → vs[i]? = some v → (w.merged? v).isSome
  holds : ∀ m, result = some m → ∃ ms, m.items? = some ms ∧ ms.length = ws.length ∧
    ∀ (i : Nat) (w v : Value), ws[i]? = some w → vs[i]? = some v → ms[i]? = w.merged? v

/-- A place has a truth value in one of two lists alone. -/
def MixesTruthAtPlace (ws vs : List Value) : Prop :=
  ∃ (i : Nat) (w v : Value), ws[i]? = some w ∧ vs[i]? = some v ∧ w.isTruth ≠ v.isTruth

theorem mergeItems_cons (path : List Value) (i : Nat) (w v : Value) (ws vs : List Value) :
    (mergeItems path i (w :: ws) (v :: vs)).toOption = (w.merged? v).bind fun m =>
      (mergeItems path (i + 1) ws vs).toOption.map (m :: ·) := by
  rw [mergeItems, toOption_bind, toOption_mergeValues]
  congr 1
  funext m
  cases mergeItems path (i + 1) ws vs <;> rfl

/-- What a run over items comes to. -/
structure ItemsRun (ws vs : List Value) (result : Option (List Value)) : Prop where
  succeeds : result.isSome ↔
    ∀ (i : Nat) (w v : Value), ws[i]? = some w → vs[i]? = some v → (w.merged? v).isSome
  length : ∀ ms, result = some ms → ms.length = ws.length
  each : ∀ ms, result = some ms →
    ∀ (i : Nat) (w v : Value), ws[i]? = some w → vs[i]? = some v → ms[i]? = w.merged? v

theorem mergeItems_run (path : List Value) (i : Nat) (hlength : ws.length = vs.length) :
    ItemsRun ws vs (mergeItems path i ws vs).toOption := by
  induction ws generalizing vs i with
  | nil =>
    obtain rfl : vs = [] := List.length_eq_zero_iff.1 hlength.symm
    refine ⟨iff_of_true rfl (by simp), ?_, ?_⟩
    · rintro ms ⟨⟩
      rfl
    · simp
  | cons w ws ih =>
    obtain _ | ⟨v, vs⟩ := vs
    · cases hlength
    have hrun := ih (i + 1) (Nat.succ.inj hlength)
    rw [mergeItems_cons]
    cases hm : w.merged? v with
    | none =>
      refine ⟨iff_of_false nofun fun h => ?_, nofun, nofun⟩
      simpa [hm] using h 0 w v rfl rfl
    | some m =>
      refine ⟨?_, fun ms hms => ?_, fun ms hms => ?_⟩
      · rw [Option.bind_some, Option.isSome_map, hrun.succeeds]
        constructor
        · rintro h (_ | j) w' v' hw hv
          · cases hw
            cases hv
            rw [hm, Option.isSome_some]
          · exact h j w' v' hw hv
        · exact fun h j => h (j + 1)
      · obtain ⟨rest, hrest, rfl⟩ := Option.map_eq_some_iff.1 hms
        rw [List.length_cons, List.length_cons, hrun.length rest hrest]
      · obtain ⟨rest, hrest, rfl⟩ := Option.map_eq_some_iff.1 hms
        rintro (_ | j) w' v' hw hv
        · cases hw
          cases hv
          exact hm.symm
        · exact hrun.each rest hrest j w' v' hw hv

/-- Lists of one length that are not equal are merged by their places. -/
theorem mergesByPlaces_of_not_isOne (hone : l.isOne r = false) (hws : l.items? = some ws)
    (hvs : r.items? = some vs) (hlength : ws.length = vs.length) :
    MergesByPlaces ws vs (l.merged? r) := by
  have hrun := mergeItems_run [] 0 hlength
  have hmerged : l.merged? r = (mergeItems [] 0 ws vs).toOption.map l.sequenceLike := by
    rw [Value.merged?, mergeValues_items hone hws hvs hlength, toOption_map]
  rw [hmerged]
  refine ⟨by rw [Option.isSome_map, hrun.succeeds], fun m hm => ?_⟩
  obtain ⟨ms, hms, rfl⟩ := Option.map_eq_some_iff.1 hm
  have hitems : (l.sequenceLike ms).items? = some ms := by cases l <;> cases hws <;> rfl
  exact ⟨ms, hitems, hrun.length ms hms, hrun.each ms hms⟩

/-- Two lists of one length are merged by their places exactly when they are not equal with a
truth value in the place of a number. -/
theorem mergesByPlaces_iff (hws : l.items? = some ws) (hvs : r.items? = some vs)
    (hlength : ws.length = vs.length) :
    MergesByPlaces ws vs (l.merged? r) ↔ ¬(l.isFound r = true ∧ MixesTruthAtPlace ws vs) := by
  have hone : l.isOne r = l.isFound r := by
    rw [Bool.eq_iff_iff, Value.isOne_iff]
    refine and_iff_left ?_
    cases l <;> cases hws <;> cases r <;> cases hvs <;> rfl
  cases hfound : l.isFound r with
  | false => exact iff_of_true (mergesByPlaces_of_not_isOne (hone.trans hfound) hws hvs hlength) nofun
  | true =>
    have heach : List.Forall₂ (fun w v => w.isFound v = true) ws vs := by
      cases l <;> cases hws <;> cases r <;> cases hvs <;>
        first | exact Value.areFound_iff.1 hfound | cases hfound
    rw [merged?_of_isOne (hone.trans hfound)]
    constructor
    · rintro h ⟨-, i, w, v, hw, hv, hmixed⟩
      have hsome := h.succeeds.1 rfl i w v hw hv
      rw [merged?_of_truth hmixed] at hsome
      cases hsome
    · intro h
      have hshared : ∀ (i : Nat) (w v : Value), ws[i]? = some w → vs[i]? = some v →
          w.merged? v = some w := by
        intro i w v hw hv
        obtain ⟨hi, rfl⟩ := List.getElem?_eq_some_iff.1 hw
        obtain ⟨hj, rfl⟩ := List.getElem?_eq_some_iff.1 hv
        have hfound : ws[i].isFound vs[i] = true := heach.get hi hj
        refine merged?_of_isOne (Value.isOne_iff.2 ⟨hfound, ?_⟩)
        by_contra htruth
        exact h ⟨rfl, i, ws[i], vs[i], hw, hv, htruth⟩
      refine ⟨iff_of_true rfl fun i w v hw hv => ?_, ?_⟩
      · rw [hshared i w v hw hv, Option.isSome_some]
      · rintro m ⟨⟩
        exact ⟨ws, hws, rfl, fun i w v hw hv => by rw [hw, hshared i w v hw hv]⟩

/-! ## By parts -/

/-- Wherever they stand, two mappings are merged by their keys and two lists of one length by
their places, except where they are equal with a truth value in the place of a number. -/
theorem merges_by_parts (path : List Value) (hl : l.wellFormed = true) (hr : r.wellFormed = true) :
    (∀ ls rs, l.entries? = some ls → r.entries? = some rs →
      (MergesByKeys ls rs (mergeValues path l r).toOption ↔
        ¬(l.isFound r = true ∧ MixesTruthAtKey ls rs))) ∧
    (∀ ws vs, l.items? = some ws → r.items? = some vs → ws.length = vs.length →
      (MergesByPlaces ws vs (mergeValues path l r).toOption ↔
        ¬(l.isFound r = true ∧ MixesTruthAtPlace ws vs))) := by
  rw [toOption_mergeValues]
  exact ⟨fun ls rs hls hrs => mergesByKeys_iff hl hr hls hrs,
    fun ws vs hws hvs hlength => mergesByPlaces_iff hws hvs hlength⟩

/-- Settings that share two sections merge by their keys, the sections too. -/
theorem merges_by_parts_settings :
    let l := Value.dict [(.str "limits", .dict [(.str "low", .int 1)]), (.str "on", .bool true)]
    let r := Value.dict [(.str "limits", .dict [(.str "high", .int 9)]), (.str "on", .bool true)]
    (l.wellFormed = true ∧ r.wellFormed = true) ∧
      l.merged? r = some (.dict [(.str "limits", .dict [(.str "low", .int 1),
        (.str "high", .int 9)]), (.str "on", .bool true)]) ∧
      ∃ ls rs, l.entries? = some ls ∧ r.entries? = some rs ∧
        MergesByKeys ls rs (mergeValues [] l r).toOption := by
  intro l r
  have hl : l.wellFormed = true := by decide
  have hr : r.wellFormed = true := by decide
  have hfound : l.isFound r ≠ true := by decide
  refine ⟨⟨hl, hr⟩, by rfl, _, _, rfl, rfl, ?_⟩
  exact ((merges_by_parts [] hl hr).1 _ _ rfl rfl).2 fun h => hfound h.1

/-- A mapping with a truth value is merged with an equal one that has a number there, though the
truth value does not merge with the number. -/
theorem not_mergesByKeys_of_truth :
    let ls : Entries := [(.str "a", .bool true)]
    let rs : Entries := [(.str "a", .int 1)]
    (Value.dict ls).merged? (.dict rs) = some (.dict ls) ∧
      (Value.bool true).merged? (.int 1) = none ∧
      ¬MergesByKeys ls rs ((Value.dict ls).merged? (.dict rs)) := by
  intro ls rs
  refine ⟨by rfl, by rfl, fun h => ?_⟩
  have hsome := h.succeeds.1 (by rfl) (.str "a") (.bool true) (.int 1) (by rfl) (by rfl)
  cases hsome

end Assay
