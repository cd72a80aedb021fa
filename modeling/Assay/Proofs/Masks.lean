import Assay.Evaluate.Form
import Assay.Proofs.Checks
import Mathlib.Data.List.Forall2

/-!
# Issues behind a mask

Issues say which schema or check reports them. A mask says what of that is to be seen
(`Issue.masked`); results are the same behind a mask when they differ in what it hides at most
(`Result.Same`), and so are structures that are assembled of such results.
-/

namespace Assay

open Structure

/-! ## Masks -/

mutual

/-- An issue whose source, and those of the issues that it nests, are masked. -/
def Issue.masked (m : Value → Value) : Issue Value → Issue Value
  | ⟨path, message, input, source, detail⟩ =>
    ⟨path, message, input, m source, Detail.masked m detail⟩
termination_by structural x => x

/-- A detail with its issues masked. -/
def Detail.masked (m : Value → Value) : Detail Value (Issue Value) → Detail Value (Issue Value)
  | .invalidUnion groups note discriminator =>
    .invalidUnion (Issue.maskedGroups m groups) note discriminator
  | .invalidKey origin issues => .invalidKey origin (Issue.maskedAll m issues)
  | .invalidElement origin key issues => .invalidElement origin key (Issue.maskedAll m issues)
  | detail => detail
termination_by structural x => x

/-- A list of issues masked. -/
def Issue.maskedAll (m : Value → Value) : List (Issue Value) → List (Issue Value)
  | [] => []
  | i :: is => Issue.masked m i :: Issue.maskedAll m is
termination_by structural x => x

/-- Groups of issues masked. -/
def Issue.maskedGroups (m : Value → Value) : List (List (Issue Value)) → List (List (Issue Value))
  | [] => []
  | g :: gs => Issue.maskedAll m g :: Issue.maskedGroups m gs
termination_by structural x => x

end

section

variable (m : Value → Value)

theorem Issue.maskedAll_eq_map (is : List (Issue Value)) : maskedAll m is = is.map (masked m) := by
  induction is with
  | nil => rfl
  | cons i is ih => rw [maskedAll, ih, List.map_cons]

theorem Issue.maskedGroups_eq_map (gs : List (List (Issue Value))) :
    maskedGroups m gs = gs.map fun g => g.map (masked m) := by
  induction gs with
  | nil => rfl
  | cons g gs ih => rw [maskedGroups, ih, List.map_cons, maskedAll_eq_map]

theorem Issue.masked_under (keys : List Value) (i : Issue Value) :
    (i.under keys).masked m = (i.masked m).under keys := by
  cases i
  rfl

end

/-! ## Results -/

/-- A result whose issues are masked. -/
def Result.masked (m : Value → Value) (r : Result) : Result := ⟨r.value, r.issues.map (·.masked m)⟩

section

variable {m : Value → Value}

/-- Results are the same behind a mask. -/
def Result.Same (m : Value → Value) (r r' : Result) : Prop := r.masked m = r'.masked m

/-- Lists of results are the same behind a mask, one by one. -/
abbrev Result.SameAll (m : Value → Value) : List Result → List Result → Prop :=
  List.Forall₂ (Result.Same m)

/-- Lists of issues are the same behind a mask, one by one. -/
def Issue.SameAll (m : Value → Value) (is is' : List (Issue Value)) : Prop :=
  is.map (·.masked m) = is'.map (·.masked m)

theorem Issue.SameAll.append {is is' js js' : List (Issue Value)} (h : SameAll m is is')
    (hj : SameAll m js js') : SameAll m (is ++ js) (is' ++ js') := by
  unfold SameAll at *
  rw [List.map_append, List.map_append, h, hj]

theorem Issue.SameAll.isEmpty {is is' : List (Issue Value)} (h : SameAll m is is') :
    is'.isEmpty = is.isEmpty := by
  rw [← List.isEmpty_map (f := (·.masked m)), ← h, List.isEmpty_map]

/-- One issue of a source. -/
theorem Issue.SameAll.one {path : List Value} {message input source source' : Value}
    {detail detail' : Detail Value (Issue Value)} (hsource : m source = m source')
    (hdetail : detail.masked m = detail'.masked m) :
    SameAll m [⟨path, message, input, source, detail⟩]
      [⟨path, message, input, source', detail'⟩] := by
  simp only [SameAll, List.map_cons, List.map_nil, Issue.masked, hsource, hdetail]

theorem Issue.SameAll.under {is is' : List (Issue Value)} (h : SameAll m is is')
    (keys : List Value) :
    SameAll m (is.map (Issue.under keys)) (is'.map (Issue.under keys)) := by
  have hmask (m : Value → Value) (is : List (Issue Value)) :
      (is.map (Issue.under keys)).map (·.masked m) =
        (is.map (·.masked m)).map (Issue.under keys) := by
    simp only [List.map_map]
    exact List.map_congr_left fun i _ => i.masked_under m keys
  unfold SameAll at *
  rw [hmask, hmask, h]

namespace Result.Same

variable {r r' q q' : Result} {s t : Schema Value} {v : Value}

theorem value (h : Same m r r') : r'.value = r.value := (congrArg Result.value h).symm

theorem issues (h : Same m r r') : Issue.SameAll m r.issues r'.issues :=
  congrArg Result.issues h

theorem intro {is is' : List (Issue Value)} (h : Issue.SameAll m is is') :
    Same m ⟨v, is⟩ ⟨v, is'⟩ :=
  congrArg (Result.mk v) h

theorem ok : Same m ⟨v, []⟩ ⟨v, []⟩ := rfl

theorem valid (h : Same m r r') : r'.valid = r.valid := h.issues.isEmpty

theorem merge (h : Same m r r') (hq : Same m q q') :
    Same m (r.merge q) (r'.merge q') := by
  unfold Result.merge
  rw [hq.value]
  exact .intro (h.issues.append hq.issues)

theorem failed (hst : m (.schema s) = m (.schema t)) (d : Detail Value (Issue Value)) :
    Same m (Result.failed s v d) (Result.failed t v d) :=
  .intro (.one hst rfl)

theorem wrongType (hst : m (.schema s) = m (.schema t)) (expected : String) :
    Same m (Result.wrongType s v expected) (Result.wrongType t v expected) :=
  failed hst _

theorem of {c c' : Value} (hc : m c = m c') (detail : Option (Detail Value (Issue Value))) :
    Same m (Result.of v c detail) (Result.of v c' detail) := by
  cases detail with
  | none => exact ok
  | some d => exact .intro (.one hc rfl)

end Result.Same

/-! ## Structures -/

/-- Positions with results that are the same behind a mask. -/
abbrev Placed.SameAll (m : Value → Value) : List Placed → List Placed → Prop :=
  List.Forall₂ fun p q => q.1 = p.1 ∧ Result.Same m p.2 q.2

variable {rs rs' : List Result} {placed placed' : List Placed} {s t : Schema Value}

namespace Result.SameAll

theorem issues (h : SameAll m rs rs') :
    Issue.SameAll m (rs.flatMap (·.issues)) (rs'.flatMap (·.issues)) := by
  induction h with
  | nil => rfl
  | cons hr _ ih => exact hr.issues.append ih

theorem values (h : SameAll m rs rs') : rs'.map (·.value) = rs.map (·.value) := by
  induction h with
  | nil => rfl
  | cons hr _ ih => rw [List.map_cons, List.map_cons, ih, hr.value]

theorem valid (h : SameAll m rs rs') :
    SameAll m (rs.filter Result.valid) (rs'.filter Result.valid) := by
  induction h with
  | nil => exact .nil
  | @cons r r' _ _ hr _ ih =>
    by_cases hvalid : r.valid = true
    · rw [List.filter_cons_of_pos hvalid, List.filter_cons_of_pos (hr.valid.trans hvalid)]
      exact .cons hr ih
    · rw [List.filter_cons_of_neg hvalid, List.filter_cons_of_neg (by rwa [hr.valid])]
      exact ih

theorem groups (h : SameAll m rs rs') :
    (rs.map (·.issues)).map (fun g => g.map (·.masked m)) =
      (rs'.map (·.issues)).map fun g => g.map (·.masked m) := by
  induction h with
  | nil => rfl
  | cons hr _ ih =>
    simp only [List.map_cons, ih]
    exact congrArg (· :: _) hr.issues

theorem placedAt (h : SameAll m rs rs') (keys : List Value) :
    Placed.SameAll m (placedAt keys rs) (placedAt keys rs') := by
  induction h generalizing keys with
  | nil => cases keys <;> exact .nil
  | cons hr _ ih =>
    cases keys with
    | nil => exact .nil
    | cons k keys => exact .cons ⟨rfl, hr⟩ (ih keys)

theorem indexed (h : SameAll m rs rs') (index : Nat) :
    Placed.SameAll m (indexed index rs) (indexed index rs') := by
  induction h generalizing index with
  | nil => exact .nil
  | cons hr _ ih => exact .cons ⟨rfl, hr⟩ (ih (index + 1))

end Result.SameAll

namespace Structure

theorem issuesUnder_same (h : Placed.SameAll m placed placed') :
    Issue.SameAll m (issuesUnder placed) (issuesUnder placed') := by
  induction h with
  | nil => rfl
  | @cons p q _ _ hp _ ih =>
    obtain ⟨hkey, hr⟩ := hp
    unfold issuesUnder at *
    rw [List.flatMap_cons, List.flatMap_cons, hkey]
    exact (hr.issues.under [p.1]).append ih

theorem outputs_same (h : Placed.SameAll m placed placed') :
    outputs placed' = outputs placed := by
  induction h with
  | nil => rfl
  | cons hp _ ih =>
    obtain ⟨hkey, hr⟩ := hp
    unfold outputs at *
    rw [List.filterMap_cons, List.filterMap_cons, ih, hkey, hr.valid, hr.value]

theorem object_same (hst : m (.schema s) = m (.schema t)) (ctx : Context) (policy : UnknownKeys)
    (hasCatchall : Bool) (v : Value) (unknown : Entries)
    (h : Placed.SameAll m placed placed') :
    Result.Same m (object s ctx policy hasCatchall v unknown placed)
      (object t ctx policy hasCatchall v unknown placed') := by
  have hissues := issuesUnder_same h
  unfold object
  dsimp only
  rw [hissues.isEmpty, outputs_same h]
  split
  · exact .intro hissues
  · split
    · exact .intro hissues
    · cases policy with
      | strip | passthrough => exact .intro hissues
      | strict => exact .intro (hissues.append (.one hst rfl))

theorem array_same (h : Result.SameAll m rs rs') : Result.Same m (array rs) (array rs') := by
  unfold array
  rw [h.values]
  exact .intro (issuesUnder_same (h.indexed 0))

theorem tupleOutputs_same (h : Result.SameAll m rs rs') (present index : Nat) :
    tupleOutputs present index rs' = tupleOutputs present index rs := by
  induction h generalizing index with
  | nil => rfl
  | cons hr _ ih => simp only [tupleOutputs, ih, hr.valid, hr.value]

theorem tuple_same (h : Result.SameAll m rs rs') (present : Nat) :
    Result.Same m (tuple present rs) (tuple present rs') := by
  unfold tuple
  rw [tupleOutputs_same h]
  exact .intro (issuesUnder_same (h.indexed 0))

/-- Reports that say the same behind a mask. -/
structure EntryReport.Same (m : Value → Value) (report report' : EntryReport) : Prop where
  key : ∀ k r r', Result.Same m r r' →
    Issue.SameAll m (report.key k r) (report'.key k r')
  value : ∀ k r r', Result.Same m r r' →
    Issue.SameAll m (report.value k r) (report'.value k r')

theorem masked_nested {is is' : List (Issue Value)} (h : Issue.SameAll m is is') :
    Issue.maskedAll m is = Issue.maskedAll m is' := by
  rw [Issue.maskedAll_eq_map, Issue.maskedAll_eq_map]
  exact h

theorem recordReport_same (hst : m (.schema s) = m (.schema t)) :
    EntryReport.Same m (recordReport s) (recordReport t) where
  key k r r' hr := .one hst (by rw [Detail.masked, Detail.masked, masked_nested hr.issues])
  value k r r' hr := hr.issues.under [k]

theorem mapReport_same (hst : m (.schema s) = m (.schema t)) :
    EntryReport.Same m (mapReport s) (mapReport t) where
  key k r r' hr := .one hst (by rw [Detail.masked, Detail.masked, masked_nested hr.issues])
  value k r r' hr := by
    dsimp only [mapReport]
    rw [hr.value]
    exact .one hst (by rw [Detail.masked, Detail.masked, masked_nested hr.issues])

namespace EntryReport.Same

variable {report report' : EntryReport} (h : EntryReport.Same m report report') {r r' : Result}

include h

theorem ofKey (k : Value) (hr : Result.Same m r r') :
    Issue.SameAll m (report.ofKey k r) (report'.ofKey k r') := by
  unfold EntryReport.ofKey
  rw [hr.valid]
  split
  · rfl
  · exact h.key k r r' hr

theorem ofValue (k : Value) (hr : Result.Same m r r') :
    Issue.SameAll m (report.ofValue k r) (report'.ofValue k r') := by
  unfold EntryReport.ofValue
  rw [hr.valid]
  split
  · rfl
  · exact h.value k r r' hr

end EntryReport.Same

theorem enumeratedRecord_same (hst : m (.schema s) = m (.schema t)) (ctx : Context)
    (allowed : List Value) (v : Value) (data : Entries) (h : Placed.SameAll m placed placed') :
    Result.Same m (enumeratedRecord s ctx allowed v data placed)
      (enumeratedRecord t ctx allowed v data placed') := by
  have hissues := issuesUnder_same h
  unfold enumeratedRecord enumeratedOutputs
  dsimp only
  rw [hissues.isEmpty, outputs_same h]
  split
  · exact .intro hissues
  · exact .intro (hissues.append (.one hst rfl))

end Structure

theorem unionResult_same (hst : m (.schema s) = m (.schema t)) (v : Value)
    (h : Result.SameAll m rs rs') :
    Result.Same m (unionResult s v rs) (unionResult t v rs') := by
  have hvalid := h.valid
  unfold unionResult
  rw [← List.head?_filter, ← List.head?_filter]
  generalize rs.filter Result.valid = found at *
  generalize rs'.filter Result.valid = found' at *
  cases hvalid with
  | nil =>
    refine .intro (.one hst ?_)
    rw [Detail.masked, Detail.masked, Issue.maskedGroups_eq_map, Issue.maskedGroups_eq_map,
      h.groups]
  | cons hr _ =>
    dsimp only [List.head?_cons]
    rw [hr.value]
    exact .ok

end

end Assay
