import Assay.Evaluate.Structure
import Assay.Proofs.Equality
import Assay.Proofs.Wording

/-!
# Places in values

A path leads from a value to one of its parts: a key steps into a mapping, an index into a list
or tuple, and the last step may lead to something absent (`Value.follow`). An issue is located in
a value when its path leads to its input, and so are the issues of the union branches that it
nests, from where it stands itself (`Issue.LocatedIn`).
-/

namespace Assay

namespace Value

/-! ## Following paths -/

/-- One step into a value: what is at a key of a mapping or an index of a list or tuple, which
may be nothing. Other values and other keys are no step at all. -/
def step (v key : Value) : Option (Option Value) :=
  match v.entries?, v.items?, key with
  | some es, _, key => some (es.find? key)
  | none, some vs, .int i => if 0 ≤ i then some vs[i.toNat]? else none
  | _, _, _ => none

/-- What a path leads to. Only its last step may lead to something absent. -/
def follow (v : Value) : List Value → Option Value
  | [] => some v
  | k :: ks =>
    match v.step k with
    | none => none
    | some (some w) => follow w ks
    | some none => if ks.isEmpty then some .missing else none

@[simp] theorem follow_nil (v : Value) : v.follow [] = some v := rfl

theorem follow_missing {ks : List Value} (h : ks ≠ []) : missing.follow ks = none := by
  cases ks with
  | nil => exact absurd rfl h
  | cons k ks => rfl

/-- A path is followed in two parts. -/
theorem follow_append (v : Value) (ks ls : List Value) :
    v.follow (ks ++ ls) = (v.follow ks).bind (·.follow ls) := by
  induction ks generalizing v with
  | nil => rfl
  | cons k ks ih =>
    rw [List.cons_append, follow, follow]
    cases hstep : v.step k with
    | none => rfl
    | some o =>
      cases o with
      | some w => exact ih w
      | none =>
        cases ks with
        | cons k ks => rfl
        | nil =>
          cases ls with
          | nil => rfl
          | cons l ls => exact (follow_missing (by simp)).symm

/-- What a path leads to in a part of a value. -/
theorem follow_below {v w u : Value} {ks ls : List Value} (h : v.follow ks = some w)
    (hw : w.follow ls = some u) : v.follow (ks ++ ls) = some u := by
  rw [follow_append, h]
  exact hw

/-- A step into a mapping. -/
theorem follow_key {v : Value} {es : Entries} (h : v.entries? = some es) (k : Value) :
    v.follow [k] = some ((es.find? k).getD .missing) := by
  have hstep : v.step k = some (es.find? k) := by simp only [step, h]
  rw [follow, hstep]
  cases es.find? k <;> rfl

/-- A step into a list or tuple. -/
theorem follow_index {v : Value} {vs : List Value} (h : v.items? = some vs) (i : Nat) :
    v.follow [.int i] = some (vs[i]?.getD .missing) := by
  have hes : v.entries? = none := by
    cases v <;> simp_all [entries?, items?]
  have hstep : v.step (.int i) = some vs[i]? := by simp [step, hes, h]
  rw [follow, hstep]
  cases vs[i]? <;> rfl

/-! ## Mappings with distinct keys -/

mutual

/-- No mapping within the value has two equal keys. -/
def distinctKeys : Value → Bool
  | dict es | view es => decide (Entries.Distinct es) && distinctEntries es
  | list vs | tuple vs => distinctItems vs
  | _ => true
termination_by structural x => x

/-- The same for the keys and values of entries. -/
def distinctEntries : List (Value × Value) → Bool
  | [] => true
  | (k, v) :: es => distinctKeys k && distinctKeys v && distinctEntries es
termination_by structural x => x

/-- The same for the items of a list. -/
def distinctItems : List Value → Bool
  | [] => true
  | v :: vs => distinctKeys v && distinctItems vs
termination_by structural x => x

end

theorem distinctEntries_iff {es : List (Value × Value)} :
    distinctEntries es = true ↔
      ∀ e ∈ es, distinctKeys e.1 = true ∧ distinctKeys e.2 = true := by
  induction es with
  | nil => simp [distinctEntries]
  | cons e es ih => simp [distinctEntries, ih]

theorem distinctItems_iff {vs : List Value} :
    distinctItems vs = true ↔ ∀ v ∈ vs, distinctKeys v = true := by
  induction vs with
  | nil => simp [distinctItems]
  | cons v vs ih => simp [distinctItems, ih]

/-- The keys of a mapping are distinct, and so are those within its keys and values. -/
theorem distinctKeys_entries {v : Value} {es : Entries} (h : v.distinctKeys = true)
    (hes : v.entries? = some es) :
    Entries.Distinct es ∧ ∀ e ∈ es, e.1.distinctKeys = true ∧ e.2.distinctKeys = true := by
  have : es.Distinct ∧ distinctEntries es = true := by
    cases v <;> cases hes <;> simpa [distinctKeys] using h
  exact ⟨this.1, distinctEntries_iff.1 this.2⟩

theorem distinctKeys_items {v : Value} {vs : List Value} (h : v.distinctKeys = true)
    (hvs : v.items? = some vs) : ∀ w ∈ vs, w.distinctKeys = true := by
  have : distinctItems vs = true := by
    cases v <;> cases hvs <;> simpa [distinctKeys] using h
  exact distinctItems_iff.1 this

theorem distinctKeys_find {es : Entries}
    (h : ∀ e ∈ es, e.1.distinctKeys = true ∧ e.2.distinctKeys = true) (k : Value) :
    ((es.find? k).getD .missing).distinctKeys = true := by
  unfold Entries.find?
  cases hfind : List.find? (fun e => e.1.isFound k) es with
  | none => rfl
  | some e => exact (h e (List.mem_of_find?_eq_some hfind)).2

end Value

/-! ## Located issues -/

/-- The last element of the path is the input, and a key of the mapping at the rest of the
path. -/
def Value.NamesKey (v : Value) (path : List Value) (input : Value) : Prop :=
  ∃ rest es, path = rest ++ [input] ∧ (v.follow rest).bind Value.entries? = some es ∧
    input ∈ es.map (·.1)

mutual

/-- The path of an issue, below a place `at_`, leads to its input; an issue about a key names the
key instead. The issues of union branches are located from where the union stands. -/
def Issue.LocatedIn (v : Value) (place : List Value) : Issue Value → Prop
  | ⟨path, _, input, _, detail⟩ => detailLocated v (place ++ path) input detail
termination_by structural x => x

/-- What the detail of an issue at a place says is located, with the input of the issue. -/
def detailLocated (v : Value) (place : List Value) (input : Value) :
    Detail Value (Issue Value) → Prop
  | .invalidKey _ _ => v.NamesKey place input
  | .invalidUnion groups _ _ => v.follow place = some input ∧ groupsLocated v place groups
  | _ => v.follow place = some input
termination_by structural x => x

/-- Every issue of a list is located. -/
def issuesLocated (v : Value) (place : List Value) : List (Issue Value) → Prop
  | [] => True
  | i :: is => Issue.LocatedIn v place i ∧ issuesLocated v place is
termination_by structural x => x

/-- Every issue of every group is located. -/
def groupsLocated (v : Value) (place : List Value) : List (List (Issue Value)) → Prop
  | [] => True
  | g :: gs => issuesLocated v place g ∧ groupsLocated v place gs
termination_by structural x => x

end

theorem issuesLocated_iff {v : Value} {place : List Value} {is : List (Issue Value)} :
    issuesLocated v place is ↔ ∀ i ∈ is, i.LocatedIn v place := by
  induction is with
  | nil => simp [issuesLocated]
  | cons i is ih => simp [issuesLocated, ih]

theorem groupsLocated_iff {v : Value} {place : List Value} {gs : List (List (Issue Value))} :
    groupsLocated v place gs ↔ ∀ g ∈ gs, ∀ i ∈ g, i.LocatedIn v place := by
  induction gs with
  | nil => simp [groupsLocated]
  | cons g gs ih => simp [groupsLocated, ih, issuesLocated_iff]

/-- An issue that names a key below a place names it in the whole. -/
theorem Value.NamesKey.below {v w : Value} {ks path : List Value} {input : Value}
    (h : v.follow ks = some w) (hw : w.NamesKey path input) : v.NamesKey (ks ++ path) input := by
  obtain ⟨rest, es, rfl, hes, hmem⟩ := hw
  refine ⟨ks ++ rest, es, by simp, ?_, hmem⟩
  rw [Value.follow_append, h]
  exact hes

mutual

/-- What is located in a part of a value is located in the value, from the place of the part. -/
theorem Issue.LocatedIn.below {v w : Value} {ks place : List Value} (h : v.follow ks = some w) :
    (i : Issue Value) → i.LocatedIn w place → i.LocatedIn v (ks ++ place)
  | ⟨path, _, input, _, detail⟩, hi => by
    rw [Issue.LocatedIn, List.append_assoc]
    exact detailLocated_below h detail hi
termination_by structural x => x

theorem detailLocated_below {v w : Value} {ks place : List Value} {input : Value}
    (h : v.follow ks = some w) : (d : Detail Value (Issue Value)) →
    detailLocated w place input d → detailLocated v (ks ++ place) input d
  | .invalidKey _ _, hd => Value.NamesKey.below h hd
  | .invalidUnion groups _ _, hd => by
    obtain ⟨hinput, hgroups⟩ := hd
    exact ⟨Value.follow_below h hinput, groupsLocated_below h groups hgroups⟩
  | .unspecified, hd => Value.follow_below h hd
  | .invalidType .., hd => Value.follow_below h hd
  | .tooBig .., hd => Value.follow_below h hd
  | .tooSmall .., hd => Value.follow_below h hd
  | .invalidFormat .., hd => Value.follow_below h hd
  | .notMultipleOf .., hd => Value.follow_below h hd
  | .unrecognizedKeys .., hd => Value.follow_below h hd
  | .invalidElement .., hd => Value.follow_below h hd
  | .invalidValue .., hd => Value.follow_below h hd
  | .custom .., hd => Value.follow_below h hd
termination_by structural x => x

theorem issuesLocated_below {v w : Value} {ks place : List Value} (h : v.follow ks = some w) :
    (is : List (Issue Value)) → issuesLocated w place is → issuesLocated v (ks ++ place) is
  | [], _ => trivial
  | i :: is, his => ⟨Issue.LocatedIn.below h i his.1, issuesLocated_below h is his.2⟩
termination_by structural x => x

theorem groupsLocated_below {v w : Value} {ks place : List Value} (h : v.follow ks = some w) :
    (gs : List (List (Issue Value))) → groupsLocated w place gs → groupsLocated v (ks ++ place) gs
  | [], _ => trivial
  | g :: gs, hgs => ⟨issuesLocated_below h g hgs.1, groupsLocated_below h gs hgs.2⟩
termination_by structural x => x

end

/-! ## Wording keeps places -/

mutual

/-- Where an issue is located does not depend on its words. -/
theorem Issue.locatedIn_unworded {v : Value} {place : List Value} : (i : Issue Value) →
    ((i.unworded true).LocatedIn v place ↔ i.LocatedIn v place)
  | ⟨_, _, _, _, detail⟩ => by
    rw [Issue.unworded, Issue.LocatedIn, Issue.LocatedIn]
    exact detailLocated_unworded detail
termination_by structural x => x

theorem detailLocated_unworded {v : Value} {place : List Value} {input : Value} :
    (d : Detail Value (Issue Value)) →
    (detailLocated v place input (unwordedDetail true d) ↔ detailLocated v place input d)
  | .invalidKey _ _ => Iff.rfl
  | .invalidUnion groups _ _ => and_congr_right' (groupsLocated_unworded groups)
  | .unspecified => Iff.rfl
  | .invalidType .. => Iff.rfl
  | .tooBig .. => Iff.rfl
  | .tooSmall .. => Iff.rfl
  | .invalidFormat .. => Iff.rfl
  | .notMultipleOf .. => Iff.rfl
  | .unrecognizedKeys .. => Iff.rfl
  | .invalidElement .. => Iff.rfl
  | .invalidValue .. => Iff.rfl
  | .custom .. => Iff.rfl
termination_by structural x => x

theorem issuesLocated_unworded {v : Value} {place : List Value} : (is : List (Issue Value)) →
    (issuesLocated v place (unwordedAll true is) ↔ issuesLocated v place is)
  | [] => Iff.rfl
  | i :: is => and_congr (Issue.locatedIn_unworded i) (issuesLocated_unworded is)
termination_by structural x => x

theorem groupsLocated_unworded {v : Value} {place : List Value} :
    (gs : List (List (Issue Value))) →
    (groupsLocated v place (unwordedGroups true gs) ↔ groupsLocated v place gs)
  | [] => Iff.rfl
  | g :: gs => and_congr (issuesLocated_unworded g) (groupsLocated_unworded gs)
termination_by structural x => x

end

/-- Issues with the same unworded part are located in the same places. -/
theorem issuesLocated_congr {v : Value} {is js : List (Issue Value)}
    (h : unwordedAll true js = unwordedAll true is) (his : ∀ i ∈ is, i.LocatedIn v []) :
    ∀ j ∈ js, j.LocatedIn v [] := by
  rw [← issuesLocated_iff, ← issuesLocated_unworded] at his ⊢
  exact h ▸ his

end Assay
