import Assay.Evaluate.Form
import Assay.Proofs.Checks
import Assay.Proofs.Wording

/-!
# Outlines of issues

What two parses that stop at different points have in common about an issue: its path and what it
says, and of each group of issues that it nests the outline of the first (`Issue.outline`). A
result is an abridgment of another when it has the same output, or else one issue with the outline
of the first one (`Result.AbridgesTo`). The results of positions that are evaluated up to the first
that fails are abridgments of the results of all positions (`Shortens`), and so is what a structure
makes of them.
-/

namespace Assay

mutual

/-- The outline of an issue: no message, input, or source, and each group of nested issues cut
down to its first. -/
def Issue.outline : Issue Value → Issue Value
  | ⟨path, _, _, _, detail⟩ => ⟨path, .null, .missing, .null, outlineDetail detail⟩
termination_by structural x => x

/-- The outline of a detail. -/
def outlineDetail : Detail Value (Issue Value) → Detail Value (Issue Value)
  | .invalidUnion groups note discriminator =>
    .invalidUnion (outlineGroups groups) note discriminator
  | .invalidKey origin issues => .invalidKey origin (outlineFirst issues)
  | .invalidElement origin key issues => .invalidElement origin key (outlineFirst issues)
  | detail => detail
termination_by structural x => x

/-- The outline of the first issue of a list. -/
def outlineFirst : List (Issue Value) → List (Issue Value)
  | [] => []
  | i :: _ => [i.outline]
termination_by structural x => x

/-- Groups of issues, cut down to the outlines of their first ones. -/
def outlineGroups : List (List (Issue Value)) → List (List (Issue Value))
  | [] => []
  | g :: gs => outlineFirst g :: outlineGroups gs
termination_by structural x => x

end

/-! ## Outlines and words -/

mutual

theorem outline_unworded {b : Bool} : (i : Issue Value) → (i.unworded b).outline = i.outline
  | ⟨_, _, _, _, detail⟩ => by
    rw [Issue.unworded, Issue.outline, Issue.outline, outlineDetail_unworded detail]
termination_by structural x => x

theorem outlineDetail_unworded {b : Bool} : (d : Detail Value (Issue Value)) →
    outlineDetail (unwordedDetail b d) = outlineDetail d
  | .invalidUnion groups .. => by
    rw [unwordedDetail, outlineDetail, outlineDetail, outlineGroups_unworded groups]
  | .invalidKey _ issues => by
    rw [unwordedDetail, outlineDetail, outlineDetail, outlineFirst_unworded issues]
  | .invalidElement _ _ issues => by
    rw [unwordedDetail, outlineDetail, outlineDetail, outlineFirst_unworded issues]
  | .unspecified => rfl
  | .invalidType .. => rfl
  | .tooBig .. => rfl
  | .tooSmall .. => rfl
  | .invalidFormat .. => rfl
  | .notMultipleOf .. => rfl
  | .unrecognizedKeys .. => rfl
  | .invalidValue .. => rfl
  | .custom .. => rfl
termination_by structural x => x

theorem outlineFirst_unworded {b : Bool} : (is : List (Issue Value)) →
    outlineFirst (unwordedAll b is) = outlineFirst is
  | [] => rfl
  | i :: _ => by rw [unwordedAll, outlineFirst, outlineFirst, outline_unworded i]
termination_by structural x => x

theorem outlineGroups_unworded {b : Bool} : (gs : List (List (Issue Value))) →
    outlineGroups (unwordedGroups b gs) = outlineGroups gs
  | [] => rfl
  | g :: gs => by
    rw [unwordedGroups, outlineGroups, outlineGroups, outlineFirst_unworded g,
      outlineGroups_unworded gs]
termination_by structural x => x

end

mutual

theorem unworded_unworded {b : Bool} : (i : Issue Value) →
    (i.unworded b).unworded false = i.unworded false
  | ⟨_, _, _, _, detail⟩ => by
    rw [Issue.unworded, Issue.unworded, Issue.unworded, unwordedDetail_unworded detail]
    rfl
termination_by structural x => x

theorem unwordedDetail_unworded {b : Bool} : (d : Detail Value (Issue Value)) →
    unwordedDetail false (unwordedDetail b d) = unwordedDetail false d
  | .invalidUnion groups .. => by
    rw [unwordedDetail, unwordedDetail, unwordedDetail, unwordedGroups_unworded groups]
  | .invalidKey _ issues => by
    rw [unwordedDetail, unwordedDetail, unwordedDetail, unwordedAll_unworded issues]
  | .invalidElement _ _ issues => by
    rw [unwordedDetail, unwordedDetail, unwordedDetail, unwordedAll_unworded issues]
  | .unspecified => rfl
  | .invalidType .. => rfl
  | .tooBig .. => rfl
  | .tooSmall .. => rfl
  | .invalidFormat .. => rfl
  | .notMultipleOf .. => rfl
  | .unrecognizedKeys .. => rfl
  | .invalidValue .. => rfl
  | .custom .. => rfl
termination_by structural x => x

theorem unwordedAll_unworded {b : Bool} : (is : List (Issue Value)) →
    unwordedAll false (unwordedAll b is) = unwordedAll false is
  | [] => rfl
  | i :: is => by
    rw [unwordedAll, unwordedAll, unwordedAll, unworded_unworded i, unwordedAll_unworded is]
termination_by structural x => x

theorem unwordedGroups_unworded {b : Bool} : (gs : List (List (Issue Value))) →
    unwordedGroups false (unwordedGroups b gs) = unwordedGroups false gs
  | [] => rfl
  | g :: gs => by
    rw [unwordedGroups, unwordedGroups, unwordedGroups, unwordedAll_unworded g,
      unwordedGroups_unworded gs]
termination_by structural x => x

end

theorem unwordedDetail_of_isFlat {d : Detail Value (Issue Value)} (h : d.isFlat = true) :
    unwordedDetail false d = outlineDetail d := by
  cases d with
  | invalidUnion _ _ _ | invalidKey _ _ | invalidElement _ _ _ => cases h
  | _ => rfl

theorem outlineFirst_append {is : List (Issue Value)} (h : is ≠ []) (js : List (Issue Value)) :
    outlineFirst (is ++ js) = outlineFirst is := by
  cases is with
  | nil => exact absurd rfl h
  | cons i is => rfl

theorem outlineFirst_under (keys : List Value) (is : List (Issue Value)) :
    outlineFirst (is.map (Issue.under keys)) = (outlineFirst is).map (Issue.under keys) := by
  rcases is with - | ⟨⟨path, message, input, source, detail⟩, is⟩ <;> rfl

theorem unwordedAll_under {b : Bool} (keys : List Value) (is : List (Issue Value)) :
    unwordedAll b (is.map (Issue.under keys)) = (unwordedAll b is).map (Issue.under keys) := by
  rw [unwordedAll_eq_map, unwordedAll_eq_map, List.map_map, List.map_map]
  refine List.map_congr_left fun i _ => ?_
  obtain ⟨path, message, input, source, detail⟩ := i
  rfl

theorem unwordedAll_eq_nil {is : List (Issue Value)} (h : unwordedAll false is = []) : is = [] := by
  cases is with
  | nil => rfl
  | cons i is => cases h

/-- Where there is a first issue to be outlined there is an issue. -/
theorem unwordedAll_ne_nil {is js : List (Issue Value)}
    (h : unwordedAll false js = outlineFirst is) (his : is ≠ []) : js ≠ [] := by
  rintro rfl
  obtain ⟨i, is, rfl⟩ := List.exists_cons_of_ne_nil his
  cases h

/-! ## Abridgments -/

/-- The other result has the same output, or one issue with the outline of the first. -/
def Result.AbridgesTo (r a : Result) : Prop :=
  unwordedAll false a.issues = outlineFirst r.issues ∧ (r.valid = true → a.value = r.value)

namespace Result

variable {r a : Result}

theorem valid_iff {r : Result} : r.valid = true ↔ r.issues = [] := List.isEmpty_iff

theorem invalid_iff {r : Result} : r.valid = false ↔ r.issues ≠ [] := by
  rw [← Bool.not_eq_true, valid_iff]

namespace AbridgesTo

/-- A result with one issue, which nests no others, is its own abridgment. -/
theorem flat {v : Value} {i : Issue Value} (h : i.detail.isFlat = true) :
    AbridgesTo ⟨v, [i]⟩ ⟨v, [i]⟩ := by
  refine ⟨?_, fun _ => rfl⟩
  obtain ⟨path, message, input, source, detail⟩ := i
  rw [unwordedAll, unwordedAll, outlineFirst, Issue.unworded, Issue.outline,
    unwordedDetail_of_isFlat h]
  rfl

theorem ok (v : Value) : AbridgesTo ⟨v, []⟩ ⟨v, []⟩ := ⟨rfl, fun _ => rfl⟩

theorem eq_of_valid (h : r.AbridgesTo a) (hr : r.valid = true) : a = r := by
  have hissues : unwordedAll false a.issues = [] := by rw [h.1, valid_iff.1 hr]; rfl
  obtain ⟨v, is⟩ := r
  obtain ⟨w, js⟩ := a
  obtain rfl : w = v := h.2 hr
  obtain rfl : is = [] := valid_iff.1 hr
  obtain rfl : js = [] := unwordedAll_eq_nil hissues
  rfl

theorem valid_eq (h : r.AbridgesTo a) : a.valid = r.valid := by
  cases hr : r.valid with
  | true => rw [h.eq_of_valid hr, hr]
  | false => exact invalid_iff.2 (unwordedAll_ne_nil h.1 (invalid_iff.1 hr))

/-- Results that are given by their issues when these are not empty. -/
theorem of_issues (hissues : unwordedAll false a.issues = outlineFirst r.issues)
    (hvalue : r.issues = [] → a.value = r.value) : r.AbridgesTo a :=
  ⟨hissues, fun hr => hvalue (valid_iff.1 hr)⟩

end AbridgesTo

end Result

/-- The result has no issue, or one that `source` reports and that nests no others. -/
def Result.Atomic (source : Value) (r : Result) : Prop :=
  r.issues = [] ∨ ∃ i, r.issues = [i] ∧ i.source = source ∧ i.detail.isFlat = true

namespace Result.Atomic

variable {source v : Value}

theorem ok (v : Value) : Atomic source ⟨v, []⟩ := .inl rfl

theorem failed (s : Schema Value) (v : Value) {d : Detail Value (Issue Value)}
    (h : d.isFlat = true) : Atomic (.schema s) (.failed s v d) :=
  .inr ⟨_, rfl, rfl, h⟩

theorem wrongType (s : Schema Value) (v : Value) (expected : String) :
    Atomic (.schema s) (.wrongType s v expected) :=
  failed s v rfl

theorem of {detail : Option (Detail Value (Issue Value))}
    (h : ∀ d, detail = some d → d.isFlat = true) : Atomic source (.of v source detail) := by
  cases detail with
  | none => exact .inl rfl
  | some d => exact .inr ⟨_, rfl, rfl, h d rfl⟩

/-- Such a result is its own abridgment. -/
theorem abridges {r : Result} (h : r.Atomic source) : r.AbridgesTo r := by
  obtain ⟨v, is⟩ := r
  rcases h with h | ⟨i, h, -, hflat⟩ <;> cases h
  · exact .ok v
  · exact .flat hflat

end Result.Atomic

/-! ## Results of positions -/

/-- The results up to the first that fails, of which there is an abridgment. -/
inductive Shortens : List Result → List Result → Prop
  | nil : Shortens [] []
  | valid {r rs as} : r.valid = true → Shortens rs as → Shortens (r :: rs) (r :: as)
  | failed {r rs a} : r.valid = false → r.AbridgesTo a → Shortens (r :: rs) [a]

namespace Shortens

variable {rs as : List Result}

theorem eq_of_valid (h : Shortens rs as) (hvalid : ∀ r ∈ rs, r.valid = true) : as = rs := by
  induction h with
  | nil => rfl
  | valid _ _ ih => rw [ih fun r hr => hvalid r (List.mem_cons_of_mem _ hr)]
  | failed hr _ => rw [hvalid _ (List.mem_cons_self ..)] at hr; cases hr

/-- The issues of all results. -/
theorem issues (h : Shortens rs as) :
    unwordedAll false (as.flatMap (·.issues)) = outlineFirst (rs.flatMap (·.issues)) := by
  induction h with
  | nil => rfl
  | valid hr _ ih =>
    rw [List.flatMap_cons, List.flatMap_cons, Result.valid_iff.1 hr]
    exact ih
  | failed hr ha =>
    rw [List.flatMap_cons, List.flatMap_cons, List.flatMap_nil, List.append_nil,
      outlineFirst_append (Result.invalid_iff.1 hr)]
    exact ha.1

/-- The issues of all results, placed under the keys of their positions. -/
theorem issuesUnder (h : Shortens rs as) (keys : List Value) (hkeys : rs.length ≤ keys.length) :
    unwordedAll false (Structure.issuesUnder (placedAt keys as)) =
      outlineFirst (Structure.issuesUnder (placedAt keys rs)) := by
  induction h generalizing keys with
  | nil => simp [placedAt, Structure.issuesUnder, unwordedAll, outlineFirst]
  | @valid r _ _ hr _ ih =>
    obtain ⟨k, keys, rfl⟩ := List.exists_cons_of_length_pos (Nat.lt_of_lt_of_le (by simp) hkeys)
    have := ih keys (by simpa using hkeys)
    simpa [placedAt, Structure.issuesUnder, Result.valid_iff.1 hr] using this
  | @failed r _ a hr ha =>
    obtain ⟨k, keys, rfl⟩ := List.exists_cons_of_length_pos (Nat.lt_of_lt_of_le (by simp) hkeys)
    have hne : r.issues.map (Issue.under [k]) ≠ [] := by simpa using Result.invalid_iff.1 hr
    simp only [placedAt, Structure.issuesUnder, List.zip_cons_cons, List.flatMap_cons,
      List.zip_nil_right, List.flatMap_nil, List.append_nil]
    rw [outlineFirst_append hne, unwordedAll_under, outlineFirst_under, ha.1]

end Shortens

theorem indexed_eq_placedAt (rs : List Result) (index n : Nat) (h : rs.length ≤ n) :
    Structure.indexed index rs = placedAt ((List.range' index n).map fun i : Nat => .int i) rs := by
  induction rs generalizing index n with
  | nil => simp [Structure.indexed, placedAt]
  | cons r rs ih =>
    obtain ⟨m, rfl⟩ : ∃ m, n = m + 1 := ⟨n - 1, by simp at h; omega⟩
    rw [Structure.indexed, ih (index + 1) m (by simpa using h), List.range'_succ, List.map_cons]
    rfl

end Assay
