import Assay.Value.Equality
import Mathlib.Data.List.Pairwise

/-!
# Equality of values

Every value is found again in a container that holds it (`Value.isFound_refl`): a NaN by its
identity, everything else because it equals itself. A mapping with distinct keys therefore finds
each of its entries (`Entries.find?_of_mem`).
-/

namespace Assay

namespace Value

theorem membersFound_refl {vs ws : List Value} (h : ∀ v ∈ vs, isFound v v = true)
    (hsub : vs ⊆ ws) : membersFound vs ws = true := by
  induction vs with
  | nil => rfl
  | cons v vs ih =>
    rw [membersFound, Bool.and_eq_true]
    refine ⟨List.any_eq_true.2 ⟨v, hsub (List.mem_cons_self ..), h v (List.mem_cons_self ..)⟩, ?_⟩
    exact ih (fun w hw => h w (List.mem_cons_of_mem _ hw)) fun w hw =>
      hsub (List.mem_cons_of_mem _ hw)

theorem entriesFound_refl {es fs : List (Value × Value)}
    (h : ∀ e ∈ es, isFound e.1 e.1 = true ∧ isFound e.2 e.2 = true) (hsub : es ⊆ fs) :
    entriesFound es fs = true := by
  induction es with
  | nil => rfl
  | cons e es ih =>
    rw [entriesFound, Bool.and_eq_true]
    refine ⟨List.any_eq_true.2 ⟨e, hsub (List.mem_cons_self ..), ?_⟩, ?_⟩
    · exact Bool.and_eq_true_iff.2 (h e (List.mem_cons_self ..))
    · exact ih (fun f hf => h f (List.mem_cons_of_mem _ hf)) fun f hf =>
        hsub (List.mem_cons_of_mem _ hf)

mutual

/-- Every value is found again. -/
theorem isFound_refl : (v : Value) → isFound v v = true
  | missing => rfl
  | null => rfl
  | bool b => by simp [isFound, numberEquals, whole?]
  | int n => by simp [isFound, numberEquals, whole?]
  | float x => by simp [isFound, numberEquals, Binary64.eq]
  | nan r => by simp [isFound]
  | str s => by simp [isFound]
  | bytes data m => by simp [isFound]
  | date d => by simp [isFound]
  | moment t => by simp [isFound, Moment.eq, Moment.comparable]
  | list vs => by
    rw [isFound]
    exact areFound_refl vs
  | tuple vs => by
    rw [isFound]
    exact areFound_refl vs
  | dict es => by
    rw [isFound, beq_self_eq_true, Bool.true_and]
    exact entriesFound_refl (eachEntry_refl es) (List.Subset.refl _)
  | view es => by
    rw [isFound, beq_self_eq_true, Bool.true_and]
    exact entriesFound_refl (eachEntry_refl es) (List.Subset.refl _)
  | set vs => by
    rw [isFound, beq_self_eq_true, Bool.true_and]
    exact membersFound_refl (each_refl vs) (List.Subset.refl _)
  | frozenSet vs => by
    rw [isFound, beq_self_eq_true, Bool.true_and]
    exact membersFound_refl (each_refl vs) (List.Subset.refl _)
  | object r name => by simp [isFound]
  | cls (.builtin t) => by simp [isFound]
  | cls (.object name) => by simp [isFound]
  | cls (.enumeration c) => by simp [isFound]
  | member c name v => by simp [isFound]
  | pending r p => by simp [isFound]
  | callable f => by simp [isFound]
  | builtin b => by
    rw [isFound]
    exact sameBuiltin_refl b
  | issue i => by
    rw [isFound]
    exact issueFound_refl i
  | check c => by simp [isFound]
  | schema s => by simp [isFound]
termination_by structural x => x

theorem sameBuiltin_refl : (b : Builtin Value) → sameBuiltin b b = true
  | .evaluateNode => rfl
  | .english => rfl
  | .trim => rfl
  | .toLower => rfl
  | .toUpper => rfl
  | .instanceOf c => by
    rw [sameBuiltin]
    exact isFound_refl c
  | .definition n a => by
    rw [sameBuiltin, beq_self_eq_true, Bool.true_and]
    exact isFound_refl a
termination_by structural x => x

theorem each_refl : (vs : List Value) → ∀ v ∈ vs, isFound v v = true
  | [] => by simp
  | v :: vs => List.forall_mem_cons.2 ⟨isFound_refl v, each_refl vs⟩
termination_by structural x => x

theorem eachEntry_refl : (es : List (Value × Value)) →
    ∀ e ∈ es, isFound e.1 e.1 = true ∧ isFound e.2 e.2 = true
  | [] => by simp
  | (k, v) :: es => List.forall_mem_cons.2 ⟨⟨isFound_refl k, isFound_refl v⟩, eachEntry_refl es⟩
termination_by structural x => x

theorem areFound_refl : (vs : List Value) → areFound vs vs = true
  | [] => rfl
  | v :: vs => by
    rw [areFound, isFound_refl v, areFound_refl vs]
    rfl
termination_by structural x => x

theorem issueFound_refl : (i : Issue Value) → issueFound i i = true
  | ⟨path, message, input, source, detail⟩ => by
    rw [issueFound, areFound_refl path, isFound_refl message, detailFound_refl detail]
    rfl
termination_by structural x => x

theorem detailFound_refl : (d : Detail Value (Issue Value)) → detailFound d d = true
  | .unspecified => rfl
  | .invalidType a b => by simp [detailFound, isFound_refl a, isFound_refl b]
  | .tooBig a b c d => by
    simp [detailFound, isFound_refl a, isFound_refl b, isFound_refl c, isFound_refl d]
  | .tooSmall a b c d => by
    simp [detailFound, isFound_refl a, isFound_refl b, isFound_refl c, isFound_refl d]
  | .invalidFormat a b c d e => by
    simp [detailFound, isFound_refl a, isFound_refl b, isFound_refl c, isFound_refl d,
      isFound_refl e]
  | .notMultipleOf a => by simp [detailFound, isFound_refl a]
  | .unrecognizedKeys a => by simp [detailFound, isFound_refl a]
  | .invalidUnion gs a b => by
    simp [detailFound, groupsFound_refl gs, isFound_refl a, isFound_refl b]
  | .invalidKey a is => by simp [detailFound, isFound_refl a, issuesFound_refl is]
  | .invalidElement a k is => by
    simp [detailFound, isFound_refl a, isFound_refl k, issuesFound_refl is]
  | .invalidValue a => by simp [detailFound, isFound_refl a]
  | .custom a => rfl
termination_by structural x => x

theorem issuesFound_refl : (is : List (Issue Value)) → issuesFound is is = true
  | [] => rfl
  | i :: is => by
    rw [issuesFound, issueFound_refl i, issuesFound_refl is]
    rfl
termination_by structural x => x

theorem groupsFound_refl : (gs : List (List (Issue Value))) → groupsFound gs gs = true
  | [] => rfl
  | g :: gs => by
    rw [groupsFound, issuesFound_refl g, groupsFound_refl gs]
    rfl
termination_by structural x => x

end

end Value

/-! ## Mappings -/

namespace Entries

/-- No two entries have the same key. -/
def Distinct (es : Entries) : Prop :=
  es.Pairwise fun e f => e.1.isFound f.1 = false

instance (es : Entries) : Decidable es.Distinct :=
  inferInstanceAs (Decidable (List.Pairwise _ _))

/-- A mapping with distinct keys finds each of its entries. -/
theorem find?_of_mem {es : Entries} (h : es.Distinct) {k v : Value} (hmem : (k, v) ∈ es) :
    es.find? k = some v := by
  induction es with
  | nil => cases hmem
  | cons e es ih =>
    rw [Distinct, List.pairwise_cons] at h
    unfold find?
    rcases List.mem_cons.1 hmem with rfl | hmem
    · simp [Value.isFound_refl]
    · rw [List.find?_cons_of_neg (by simp [h.1 _ hmem])]
      exact ih h.2 hmem

end Entries

end Assay
