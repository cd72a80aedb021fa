import Assay.Proofs.BuiltChecks
import Assay.Proofs.Creating

/-!
# Definitions without refused checks

A check definition is refused when building it ends with a definition error, which is then so in
every session (`Value.isRefused_iff`). Pruning takes the refused checks out of a definition and of
everything that is nested in it (`Value.pruned`), and out of the definitions that it comes with
(`Value.prunedDefinition`). What a field nests depends on its name and on the tag of the definition
(`OfDefinition.nesting`); fields that nest nothing stay as they are.
-/

namespace Assay

open Run

/-! ## Refused checks -/

/-- Building the check ends with a definition error. -/
def Value.isRefused (definition : Value) : Bool :=
  match (buildCheck definition).answer {} with
  | .error (.definition _) => true
  | _ => false

/-- What is refused is refused in every session, and leaves it as it is. -/
theorem Value.isRefused_iff {definition : Value} : definition.isRefused = true ↔
    ∀ σ, ∃ cause, (buildCheck definition).exec σ = (.error (.definition cause), σ) := by
  unfold isRefused
  constructor
  · intro h
    split at h
    · next cause hanswer => exact fun σ => ⟨cause, buildCheck_exec_error hanswer σ⟩
    · cases h
  · intro h
    obtain ⟨cause, hexec⟩ := h {}
    rw [answer, hexec]

/-- What is not refused in one session is refused in none. -/
theorem Value.not_refused {definition : Value} (h : definition.isRefused = false) (σ : Session)
    (cause : DefinitionError) : (buildCheck definition).answer σ ≠ .error (.definition cause) := by
  intro hanswer
  rw [isRefused_iff.2 fun τ => ⟨cause, buildCheck_exec_error hanswer τ⟩] at h
  cases h

/-- A check must be a mapping to be refused. -/
theorem Value.isRefused_of_atom {v : Value} (h : v.entries? = none) : v.isRefused = false := by
  unfold isRefused buildCheck
  rw [h]
  rfl

namespace OfDefinition

/-! ## What is nested where -/

/-- How the field of a definition holds other definitions. -/
inductive Nesting
  | checks
  | child
  | items
  | shape
  | nothing

/-- How a field holds other definitions, by the tag of its definition and its name. -/
def nesting (tag : Value) (name : String) : Nesting :=
  if name = "checks" then .checks
  else
    match tag with
    | .str tag =>
      if name ∈ childFields tag then .child
      else if name ∈ listFields tag then .items
      else if tag = "object" ∧ name = "shape" then .shape
      else .nothing
    | _ => .nothing

variable {tag : Value} {name : String}

theorem nesting_child {tag : String} (h : name ∈ childFields tag) :
    nesting (.str tag) name = .child := by
  have hne : name ≠ "checks" := by
    rintro rfl
    exact (not_nested_of_common tag (by decide)).1 h
  unfold nesting
  rw [if_neg hne]
  exact if_pos h

/-- A field whose name no tag has for definitions holds none. -/
theorem nesting_nothing (hne : name ≠ "checks")
    (h : ∀ t, tag = .str t → name ∉ childFields t ∧ name ∉ listFields t ∧
      (t = "object" → name ≠ "shape")) : nesting tag name = .nothing := by
  unfold nesting
  rw [if_neg hne]
  split
  · next t =>
    obtain ⟨hchild, hlist, hshape⟩ := h t rfl
    rw [if_neg hchild, if_neg hlist, if_neg fun hboth => hshape hboth.1 hboth.2]
  · rfl

theorem nesting_of_common (hne : name ≠ "checks") (h : name ∈ commonFields) :
    nesting tag name = .nothing :=
  nesting_nothing hne fun t _ => not_nested_of_common t h

/-- Only tags of the library nest definitions. -/
theorem nesting_of_unknown (htag : ∀ t ∈ tags, tag ≠ .str t) (h : name ∉ commonFields) :
    nesting tag name = .nothing := by
  have hnone (t : String) (heq : tag = .str t) (v v' : Value)
      (hposition : Position .null .null t name v v') : False :=
    htag t hposition.tag_mem heq
  refine nesting_nothing (by rintro rfl; exact h (by decide)) fun t heq => ⟨?_, ?_, ?_⟩
  · exact fun hchild => hnone t heq .null .null (.child hchild)
  · exact fun hlist => hnone t heq (.list ([] ++ [.null])) (.list ([] ++ [.null])) (.item hlist)
  · rintro rfl rfl
    exact hnone _ heq (.dict ([] ++ [(.null, .null)])) (.dict ([] ++ [(.null, .null)])) .shape

/-- The names of named definitions and references hold no definitions. -/
theorem nesting_apart (h : name = "definitions" ∨ name = "name") : nesting tag name = .nothing := by
  refine nesting_nothing (by rintro rfl; simp at h) fun t _ => ⟨?_, ?_, ?_⟩
  · intro hchild
    obtain ⟨-, hdefinitions, hname⟩ := apart_of_nested (.inl hchild)
    exact h.elim hdefinitions hname
  · intro hlist
    obtain ⟨-, hdefinitions, hname⟩ := apart_of_nested (.inr hlist)
    exact h.elim hdefinitions hname
  · rintro - rfl
    simp at h

end OfDefinition

open OfDefinition

/-! ## Pruning -/

namespace Value

/-- A list of check definitions without the refused ones. -/
def withoutRefused : Value → Value
  | list vs => list (vs.filter (!·.isRefused))
  | tuple vs => tuple (vs.filter (!·.isRefused))
  | set vs => set (vs.filter (!·.isRefused))
  | frozenSet vs => frozenSet (vs.filter (!·.isRefused))
  | dict es => dict (es.filter fun e => !e.1.isRefused)
  | view es => view (es.filter fun e => !e.1.isRefused)
  | v => v

mutual

/-- A definition without refused checks, its own and those of the definitions nested in it. -/
def pruned : Value → Value
  | dict es => dict (prunedFields (field es "type") es)
  | view es => view (prunedFields (field es "type") es)
  | v => v
termination_by structural x => x

/-- The fields of a definition of the tag. -/
def prunedFields (tag : Value) : List (Value × Value) → List (Value × Value)
  | [] => []
  | (k, v) :: es =>
    (k, match k.str?.elim .nothing (nesting tag) with
      | .checks => withoutRefused v
      | .child => pruned v
      | .items => prunedItems v
      | .shape => prunedShape v
      | .nothing => v) :: prunedFields tag es
termination_by structural x => x

/-- What is iterated over to get definitions. -/
def prunedItems : Value → Value
  | list vs => list (prunedAll vs)
  | tuple vs => tuple (prunedAll vs)
  | set vs => set (prunedAll vs)
  | frozenSet vs => frozenSet (prunedAll vs)
  | dict es => dict (prunedKeys es)
  | view es => view (prunedKeys es)
  | v => v
termination_by structural x => x

/-- A mapping to definitions. -/
def prunedShape : Value → Value
  | dict es => dict (prunedEntries es)
  | view es => view (prunedEntries es)
  | v => v
termination_by structural x => x

def prunedAll : List Value → List Value
  | [] => []
  | v :: vs => pruned v :: prunedAll vs
termination_by structural x => x

def prunedKeys : List (Value × Value) → List (Value × Value)
  | [] => []
  | (k, v) :: es => (pruned k, v) :: prunedKeys es
termination_by structural x => x

def prunedEntries : List (Value × Value) → List (Value × Value)
  | [] => []
  | (k, v) :: es => (k, pruned v) :: prunedEntries es
termination_by structural x => x

end

/-- The value of a field that holds other definitions in this way. -/
def prunedAs (v : Value) : Nesting → Value
  | .checks => v.withoutRefused
  | .child => v.pruned
  | .items => v.prunedItems
  | .shape => v.prunedShape
  | .nothing => v

theorem prunedFields_eq_map (tag : Value) (es : List (Value × Value)) : prunedFields tag es =
    es.map fun e => (e.1, e.2.prunedAs (e.1.str?.elim .nothing (nesting tag))) := by
  induction es with
  | nil => rfl
  | cons e es ih =>
    rw [prunedFields, List.map_cons, ih]
    unfold prunedAs
    rfl

theorem prunedAll_eq_map (vs : List Value) : prunedAll vs = vs.map pruned := by
  induction vs with
  | nil => rfl
  | cons v vs ih => rw [prunedAll, List.map_cons, ih]

theorem prunedKeys_eq_map (es : List (Value × Value)) :
    prunedKeys es = es.map fun e => (e.1.pruned, e.2) := by
  induction es with
  | nil => rfl
  | cons e es ih => rw [prunedKeys, List.map_cons, ih]

theorem prunedEntries_eq_map (es : List (Value × Value)) :
    prunedEntries es = es.map fun e => (e.1, e.2.pruned) := by
  induction es with
  | nil => rfl
  | cons e es ih => rw [prunedEntries, List.map_cons, ih]

/-- What is no mapping is no definition, and stays as it is. -/
theorem pruned_of_atom {v : Value} (h : v.entries? = none) : v.pruned = v := by
  cases v <;> first | rfl | cases h

theorem entries?_pruned {v : Value} {es : Entries} (h : v.entries? = some es) :
    v.pruned.entries? = some (prunedFields (field es "type") es) := by
  cases v with
  | dict d | view d =>
    cases h
    rfl
  | _ => cases h

/-! ### What is iterated over -/

theorem iterate?_withoutRefused (v : Value) :
    v.withoutRefused.iterate? = v.iterate?.map (List.filter (!·.isRefused)) := by
  have hatoms {α : Type} (f : α → Value) (as : List α) (h : ∀ a, (f a).entries? = none) :
      some (as.map f) = (some (as.map f)).map (List.filter (!·.isRefused)) := by
    rw [Option.map_some, List.filter_eq_self.2]
    intro w hw
    obtain ⟨a, -, rfl⟩ := List.mem_map.1 hw
    rw [isRefused_of_atom (h a)]
    rfl
  cases v with
  | str s => exact hatoms _ _ fun _ => rfl
  | bytes data => exact hatoms _ _ fun _ => rfl
  | dict es | view es =>
    show some ((es.filter fun e => !e.1.isRefused).map (·.1)) =
      some ((es.map (·.1)).filter (!·.isRefused))
    rw [List.filter_map]
    rfl
  | cls c =>
    cases c with
    | enumeration c => exact hatoms _ _ fun _ => rfl
    | _ => rfl
  | _ => rfl

theorem truthy_of_withoutRefused {v : Value} (h : v.withoutRefused.truthy = true) :
    v.truthy = true := by
  have hfilter {α : Type} {as : List α} {p : α → Bool} (h : (!(as.filter p).isEmpty) = true) :
      (!as.isEmpty) = true := by
    cases as with
    | nil => exact h
    | cons a as => rfl
  cases v with
  | list vs | tuple vs | set vs | frozenSet vs => exact hfilter h
  | dict es | view es => exact hfilter h
  | _ => exact h

/-- A list that is not empty is emptied if all its checks are refused. -/
theorem iterate?_of_emptied {v : Value} (hv : v.truthy = true)
    (h : v.withoutRefused.truthy = false) : v.withoutRefused.iterate? = some [] := by
  have hfilter {α : Type} {as : List α} (h : (!as.isEmpty) = false) : as = [] := by simpa using h
  cases v with
  | list vs | tuple vs | set vs | frozenSet vs => exact congrArg some (hfilter h)
  | dict es | view es => exact congrArg (fun es => some (es.map (·.1))) (hfilter h)
  | _ => exact absurd (hv.symm.trans h) nofun

theorem iterate?_prunedItems (v : Value) :
    v.prunedItems.iterate? = v.iterate?.map (List.map pruned) := by
  have hatoms {α : Type} (f : α → Value) (as : List α) (h : ∀ a, (f a).entries? = none) :
      some (as.map f) = (some (as.map f)).map (List.map pruned) := by
    rw [Option.map_some, List.map_map]
    exact congrArg some (List.map_congr_left fun a _ => (pruned_of_atom (h a)).symm)
  cases v with
  | str s => exact hatoms _ _ fun _ => rfl
  | bytes data => exact hatoms _ _ fun _ => rfl
  | list vs | tuple vs | set vs | frozenSet vs => exact congrArg some (prunedAll_eq_map vs)
  | dict es | view es =>
    rw [prunedItems]
    show some ((prunedKeys es).map (·.1)) = some ((es.map (·.1)).map pruned)
    rw [prunedKeys_eq_map, List.map_map, List.map_map]
    rfl
  | cls c =>
    cases c with
    | enumeration c => exact hatoms _ _ fun _ => rfl
    | _ => rfl
  | _ => rfl

theorem truthy_prunedItems (v : Value) : v.prunedItems.truthy = v.truthy := by
  cases v with
  | list vs | tuple vs | set vs | frozenSet vs => cases vs <;> rfl
  | dict es | view es => cases es <;> rfl
  | _ => rfl

theorem entries?_prunedShape (v : Value) :
    v.prunedShape.entries? = v.entries?.map prunedEntries := by
  cases v <;> rfl

theorem truthy_prunedShape (v : Value) : v.prunedShape.truthy = v.truthy := by
  cases v with
  | dict es | view es => cases es <;> rfl
  | _ => rfl

theorem className_prunedShape (v : Value) : v.prunedShape.className = v.className := by
  cases v <;> rfl

end Value

/-! ### Fields -/

namespace Entries

variable {es : Entries} {f : Value × Value → Value}

theorem find?_map (key : Value) : Entries.find? (es.map fun e => (e.1, f e)) key =
    (List.find? (fun e => e.1.isFound key) es).map f := by
  unfold Entries.find?
  rw [List.find?_map, Option.map_map]
  rfl

/-- The entry of a name with its new value. -/
theorem get?_map {g : Value → Value} {name : String} (h : ∀ v, f (.str name, v) = g v) :
    Entries.get? (es.map fun e => (e.1, f e)) name = (es.get? name).map g := by
  unfold Entries.get?
  rw [find?_map]
  unfold Entries.find?
  cases he : List.find? (fun e => e.1.isFound (.str name)) es with
  | none => rfl
  | some e =>
    obtain ⟨key, v⟩ := e
    have hfound := List.find?_some (p := fun e : Value × Value => e.1.isFound (.str name)) he
    obtain rfl : key = .str name := Value.isFound_text.1 hfound
    exact congrArg some (h v)

theorem erase_map (key : Value) : Entries.erase (es.map fun e => (e.1, f e)) key =
    (es.erase key).map fun e => (e.1, f e) := by
  unfold Entries.erase
  rw [List.filter_map]
  rfl

end Entries

namespace OfDefinition

open Value

variable {tag : Value} {d : Entries} {name : String}

theorem keys_prunedFields : (prunedFields tag d).map (·.1) = d.map (·.1) := by
  rw [prunedFields_eq_map, List.map_map]
  rfl

theorem erase_prunedFields (key : Value) :
    Entries.erase (prunedFields tag d) key = prunedFields tag (d.erase key) := by
  rw [prunedFields_eq_map, prunedFields_eq_map, Entries.erase_map]

theorem get?_prunedFields : Entries.get? (prunedFields tag d) name =
    (d.get? name).map (·.prunedAs (nesting tag name)) := by
  rw [prunedFields_eq_map]
  exact Entries.get?_map fun _ => rfl

theorem field_prunedFields :
    field (prunedFields tag d) name = (field d name).prunedAs (nesting tag name) := by
  unfold field
  rw [get?_prunedFields]
  cases d.get? name with
  | none => cases nesting tag name <;> rfl
  | some v => rfl

theorem get?_prunedFields_nothing (h : nesting tag name = .nothing) :
    Entries.get? (prunedFields tag d) name = d.get? name := by
  rw [get?_prunedFields, h]
  exact Option.map_id'

theorem field_prunedFields_nothing (h : nesting tag name = .nothing) :
    field (prunedFields tag d) name = field d name := by
  rw [field_prunedFields, h]
  rfl

@[simp] theorem field_prunedFields_type : field (prunedFields tag d) "type" = field d "type" :=
  field_prunedFields_nothing (nesting_of_common (by decide) (by decide))

@[simp] theorem field_prunedFields_error : field (prunedFields tag d) "error" = field d "error" :=
  field_prunedFields_nothing (nesting_of_common (by decide) (by decide))

@[simp] theorem field_prunedFields_name : field (prunedFields tag d) "name" = field d "name" :=
  field_prunedFields_nothing (nesting_apart (.inr rfl))

/-! ### Named definitions -/

theorem keys_prunedEntries : (prunedEntries d).map (·.1) = d.map (·.1) := by
  rw [prunedEntries_eq_map, List.map_map]
  rfl

theorem contains_prunedEntries (key : Value) :
    Entries.contains (prunedEntries d) key = d.contains key := by
  rw [prunedEntries_eq_map]
  unfold Entries.contains
  rw [Entries.find?_map, Entries.find?, Option.isSome_map, Option.isSome_map]

/-- A definition that comes with others, without the refused checks of any. -/
def prunedConfig (c : Entries) : Entries :=
  (prunedFields (field c "type") c).map fun e =>
    (e.1, if e.1.str? = some "definitions" then e.2.prunedShape else e.2)

variable {c : Entries}

theorem keys_prunedConfig : (prunedConfig c).map (·.1) = c.map (·.1) := by
  rw [prunedConfig, List.map_map]
  exact keys_prunedFields

theorem field_prunedConfig_definitions :
    field (prunedConfig c) "definitions" = (field c "definitions").prunedShape := by
  have hget : Entries.get? (prunedConfig c) "definitions" =
      (c.get? "definitions").map prunedShape := by
    have hfields : Entries.get? (prunedFields (field c "type") c) "definitions" =
        c.get? "definitions" := get?_prunedFields_nothing (nesting_apart (.inl rfl))
    rw [← hfields]
    exact Entries.get?_map fun _ => rfl
  unfold field
  rw [hget]
  cases c.get? "definitions" <;> rfl

theorem tableOf?_prunedConfig : tableOf? (prunedConfig c) = (tableOf? c).map prunedEntries := by
  unfold tableOf?
  dsimp only
  rw [field_prunedConfig_definitions, truthy_prunedShape]
  split
  · exact entries?_prunedShape _
  · rfl

theorem erase_prunedConfig : (prunedConfig c).erase (.str "definitions") =
    prunedFields (field c "type") (c.erase (.str "definitions")) := by
  unfold prunedConfig
  rw [Entries.erase_map, erase_prunedFields]
  have hsame : ∀ e ∈ prunedFields (field c "type") (c.erase (.str "definitions")),
      (e.1, if e.1.str? = some "definitions" then e.2.prunedShape else e.2) = e := by
    intro e he
    rw [if_neg]
    intro hname
    have hkey : e.1 ∈ (c.erase (.str "definitions")).map (·.1) :=
      keys_prunedFields ▸ List.mem_map_of_mem he
    obtain ⟨f, hf, hfe⟩ := List.mem_map.1 hkey
    have hother := (List.mem_filter.1 hf).2
    cases hv : e.1 with
    | str s =>
      rw [hv] at hname hfe
      cases hname
      rw [hfe, isFound_refl] at hother
      cases hother
    | _ =>
      rw [hv] at hname
      cases hname
  exact (List.map_congr_left hsame).trans (List.map_id' _)

/-- Pruning a definition that comes with others prunes what it is apart from them. -/
theorem mainOf_prunedConfig : Value.dict (mainOf (prunedConfig c)) = pruned (.dict (mainOf c)) := by
  have htype : field (c.erase (.str "definitions")) "type" = field c "type" := by
    rw [field, Entries.get?_erase (by decide), field]
  have hrest : field ((c.erase (.str "definitions")).erase (.str "name")) "type" =
      field c "type" := by
    rw [field, Entries.get?_erase (by decide), ← htype, field]
  have hsame : Entries.get? (prunedFields (field c "type") (c.erase (.str "definitions"))) "type" =
      Entries.get? (c.erase (.str "definitions")) "type" :=
    get?_prunedFields_nothing (nesting_of_common (by decide) (by decide))
  unfold mainOf
  dsimp only
  rw [erase_prunedConfig, field_prunedFields_type, erase_prunedFields, hsame,
    field_prunedFields_name, htype]
  split
  · rw [pruned, htype]
  · generalize (Option.isNone (Entries.get? (c.erase (.str "definitions")) "type") && _) = bare
    cases bare with
    | true => rfl
    | false =>
      show dict _ = pruned (dict ((c.erase (.str "definitions")).erase (.str "name")))
      rw [pruned, hrest]
      rfl

end OfDefinition

/-- A definition without refused checks, its own, those of the definitions nested in it, and those
of the definitions that it comes with. -/
def Value.prunedDefinition (definition : Value) : Value :=
  match ClassRef.toDict definition with
  | .ok (.dict c) => .dict (prunedConfig c)
  | _ => definition

end Assay
