import Assay.Proofs.Describing
import Assay.Schema.OfDefinition
import Mathlib.Data.List.Forall2

/-!
# Definitions with a reference inlined

A bare reference may stand wherever a definition nests another one. `Inlines` replaces one of them
by the definition that its name is bound to. Definitions that differ so have the same fields, and
under each name the same value or definitions that are related again (`Near`).
-/

namespace Assay

namespace OfDefinition

/-- The fields of a tag that hold a definition. -/
def childFields : String → List String
  | "object" => ["catchall"]
  | "array" | "set" => ["element"]
  | "tuple" => ["rest"]
  | "record" | "map" => ["key_type", "value_type"]
  | "intersection" => ["left", "right"]
  | "optional" | "nullable" | "readonly" | "promise" | "default" | "prefault" | "catch" => ["inner"]
  | "pipe" => ["source", "target"]
  | _ => []

/-- The fields of a tag that hold a list of definitions. -/
def listFields : String → List String
  | "tuple" => ["items"]
  | "union" => ["options"]
  | _ => []

/-- A definition nested in the field of a tag: the value of the field when `x` is nested there, and
the same with `x'` in its place. -/
inductive Position (x x' : Value) : String → String → Value → Value → Prop
  | child {tag name} : name ∈ childFields tag → Position x x' tag name x x'
  | item {tag name} {before after : List Value} : name ∈ listFields tag →
      Position x x' tag name (.list (before ++ x :: after)) (.list (before ++ x' :: after))
  | shape {key : Value} {before after : Entries} : Position x x' "object" "shape"
      (.dict (before ++ (key, x) :: after)) (.dict (before ++ (key, x') :: after))

/-- The fields are those of a reference to a name, without checks and message. -/
structure IsReference (e : Entries) (name : Value) : Prop where
  tag : field e "type" = .str "ref"
  name : field e "name" = name
  checks : (field e "checks").truthy = false
  error : (field e "error").str? = none

/-- The tags of listed values. -/
def listing (tag : String) : Bool := tag == "literal" || tag == "enum"

/-- The definition is one of listed values. -/
def enumerates (definition : Value) : Bool :=
  definition.entries?.any fun e => (field e "type").str?.any listing

/-- One bare reference, nested in a definition at any depth, is replaced by the definition that it
refers to. The keys of a record stay a reference if listed values are referred to. -/
inductive Inlines (definitions : Entries) : Value → Value → Prop
  | reference {e e' : Entries} {name : Value} : IsReference e name →
      definitions.find? name = some (.dict e') → Inlines definitions (.dict e) (.dict e')
  | inside {before after : Entries} {tag name : String} {v v' x x' : Value} :
      Inlines definitions x x' → Position x x' tag name v v' →
      field (before ++ (.str name, v) :: after) "type" = .str tag →
      (tag = "record" → name = "key_type" → enumerates x' = true → enumerates x = true) →
      Inlines definitions (.dict (before ++ (.str name, v) :: after))
        (.dict (before ++ (.str name, v') :: after))

/-- The definitions are the same but for one reference that may be replaced. -/
def Related (definitions : Entries) (x x' : Value) : Prop := x = x' ∨ Inlines definitions x x'

/-! ## Fields -/

/-- Values under the same name: the same, or holding related definitions. -/
inductive Fits (definitions : Entries) (tag name : String) : Value → Value → Prop
  | same {v} : Fits definitions tag name v v
  | child {x x'} : name ∈ childFields tag → Related definitions x x' →
      Fits definitions tag name x x'
  | items {xs xs'} : name ∈ listFields tag → List.Forall₂ (Related definitions) xs xs' →
      Fits definitions tag name (.list xs) (.list xs')
  | shape {es es' : Entries} : tag = "object" → name = "shape" →
      List.Forall₂ (fun f g => g.1 = f.1 ∧ Related definitions f.2 g.2) es es' →
      Fits definitions tag name (.dict es) (.dict es')

/-- Definitions of a tag with the same fields, under each of which there is the same or a definition
that is related. A key schema lists values when the other one does. -/
structure Near (definitions : Entries) (tag : String) (e e' : Entries) : Prop where
  names : e'.map (·.1) = e.map (·.1)
  fields : ∀ name, Option.Rel (Fits definitions tag name) (e.get? name) (e'.get? name)
  keys : tag = "record" → ∀ x x', e.get? "key_type" = some x → e'.get? "key_type" = some x' →
    enumerates x' = true → enumerates x = true

section

variable {definitions : Entries} {tag name : String} {v v' x x' : Value}

theorem Position.fits (h : Position x x' tag name v v') (hx : Related definitions x x') :
    Fits definitions tag name v v' := by
  have hsame (xs : List Value) : List.Forall₂ (Related definitions) xs xs :=
    List.forall₂_same.2 fun _ _ => .inl rfl
  cases h with
  | child hname => exact .child hname hx
  | item hname => exact .items hname (List.rel_append (hsame _) (.cons hx (hsame _)))
  | shape =>
    have hsame (es : Entries) :
        List.Forall₂ (fun f g => g.1 = f.1 ∧ Related definitions f.2 g.2) es es :=
      List.forall₂_same.2 fun _ _ => ⟨rfl, .inl rfl⟩
    exact .shape rfl rfl (List.rel_append (hsame _) (.cons ⟨rfl, hx⟩ (hsame _)))

/-- The fields that all definitions share hold no definitions. -/
theorem not_nested_of_common (tag : String) {name : String} (h : name ∈ commonFields) :
    name ∉ childFields tag ∧ name ∉ listFields tag ∧ (tag = "object" → name ≠ "shape") := by
  have hchild : ∀ name ∈ childFields tag, name ∉ commonFields := by
    unfold childFields
    split <;> decide
  have hlist : ∀ name ∈ listFields tag, name ∉ commonFields := by
    unfold listFields
    split <;> decide
  refine ⟨fun hname => hchild name hname h, fun hname => hlist name hname h, fun _ hname => ?_⟩
  subst hname
  exact absurd h (by decide)

theorem Position.not_common (h : Position x x' tag name v v') : name ∉ commonFields := by
  intro hcommon
  obtain ⟨hchild, hlist, hshape⟩ := not_nested_of_common tag hcommon
  cases h with
  | child hname => exact hchild hname
  | item hname => exact hlist hname
  | shape => exact hshape rfl rfl

/-- Only tags of the library nest definitions. -/
theorem Position.tag_mem (h : Position x x' tag name v v') : tag ∈ tags := by
  cases h with
  | child hname =>
    unfold childFields at hname
    split at hname <;> first | decide | cases hname
  | item hname =>
    unfold listFields at hname
    split at hname <;> first | decide | cases hname
  | shape => decide

namespace Near

variable {e e' : Entries}

theorem refl : Near definitions tag e e where
  names := rfl
  fields name := by
    cases e.get? name with
    | none => exact .none
    | some v => exact .some .same
  keys _ x x' hx hx' h := by
    obtain rfl := Option.some.inj (hx.symm.trans hx')
    exact h

/-- Under a name that holds no definitions there is the same. -/
theorem get?_eq (h : Near definitions tag e e') (hchild : name ∉ childFields tag)
    (hlist : name ∉ listFields tag) (hshape : tag = "object" → name ≠ "shape") :
    e'.get? name = e.get? name := by
  have hfield := h.fields name
  cases hv : e.get? name with
  | none =>
    rw [hv] at hfield
    cases hv' : e'.get? name with
    | none => rfl
    | some v' => rw [hv'] at hfield; cases hfield
  | some v =>
    rw [hv] at hfield
    cases hv' : e'.get? name with
    | none => rw [hv'] at hfield; cases hfield
    | some v' =>
      rw [hv'] at hfield
      cases hfield with
      | some hfits =>
        cases hfits with
        | same => rfl
        | child hname => exact absurd hname hchild
        | items hname => exact absurd hname hlist
        | shape htag hname => exact absurd hname (hshape htag)

end Near

theorem near_inside {before after : Entries} (hx : Inlines definitions x x')
    (h : Position x x' tag name v v')
    (hkeys : tag = "record" → name = "key_type" → enumerates x' = true → enumerates x = true) :
    Near definitions tag (before ++ (.str name, v) :: after)
      (before ++ (.str name, v') :: after) where
  names := by simp
  fields key := by
    rw [Entries.get?_append, Entries.get?_append, Entries.get?_cons, Entries.get?_cons]
    have hrefl (o : Option Value) : Option.Rel (Fits definitions tag key) o o := by
      cases o with
      | none => exact .none
      | some w => exact .some .same
    cases before.get? key with
    | some w => exact hrefl _
    | none =>
      by_cases hname : name = key
      · rw [if_pos hname, if_pos hname]
        exact .some (hname ▸ h.fits (.inr hx))
      · rw [if_neg hname, if_neg hname]
        exact hrefl _
  keys htag y y' hy hy' hlists := by
    rw [Entries.get?_append, Entries.get?_cons] at hy hy'
    cases hbefore : before.get? "key_type" with
    | some w =>
      rw [hbefore] at hy hy'
      exact Option.some.inj (hy'.symm.trans hy) ▸ hlists
    | none =>
      rw [hbefore] at hy hy'
      by_cases hname : name = "key_type"
      · rw [if_pos hname] at hy hy'
        cases hy
        cases hy'
        cases h with
        | child => exact hkeys htag hname hlists
        | item hitem =>
          rw [htag] at hitem
          cases hitem
        | shape => exact absurd htag (by decide)
      · rw [if_neg hname] at hy hy'
        exact Option.some.inj (hy'.symm.trans hy) ▸ hlists

end

end OfDefinition

end Assay
