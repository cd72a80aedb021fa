import Assay.Proofs.RoundTrip
import Assay.Proofs.Twofold

/-!
# Schemas of related definitions

Two definitions that are the same but for one reference are built side by side, each with its own
named definitions. The schemas have matching forms, or are both references, or the first one is the
reference that was replaced (`Paired`); and so have their parts, as many levels deep as the
definitions nest (`Twins`, `build_twofold`).
-/

namespace Assay

open Run

/-! ## Forms that match -/

namespace Form.Matches

variable {R R' : Schema Value → Schema Value → Prop} {form form' : Form Value (Schema Value)}

theorem tag?_eq (h : form.Matches R form') : form'.tag? = form.tag? := by
  cases h <;> rfl

theorem className_eq (h : form.Matches R form') : form'.className = form.className := by
  cases h <;> rfl

/-- Listed values are those of a form without parts. -/
theorem enumerated?_eq {s t : Schema Value} (h : s.form.Matches R t.form) :
    Construct.enumerated? t = Construct.enumerated? s := by
  unfold Construct.enumerated?
  generalize s.form = form at h
  generalize t.form = form' at h
  cases h <;> rfl

end Form.Matches

namespace OfDefinition

/-! ## Twins -/

/-- The schemas are made of definitions with the same fields, apart from those that hold
definitions. -/
structure Siblings (s t : Schema Value) : Prop where
  kind : t.kind = s.kind
  own : ∀ tag, s.form.tag? = some tag → s.kind = .str tag
  extra : t.extra = s.extra
  error : t.error = s.error
  message : s.error.isJson = true
  checks : List.Forall₂ Value.CheckTwins s.checks t.checks
  defaults : ∀ d, s.form.default? = some d → d.isJson = true

/-- The schema is a reference to a named definition. -/
def RefersTo (scope : Scope) (name : Value) (s : Schema Value) : Prop :=
  s.form = .lazy (.builtin (.definition scope.id name)) name

/-- The schemas have matching parts, or both are references to a name, or the first one is a bare
reference and the second one built from the definition that it refers to. -/
inductive Paired (K : KindTable) (scope scope' : Scope) (R : Schema Value → Schema Value → Prop)
    (s t : Schema Value) : Prop
  | parts : Siblings s t → s.form.Matches R t.form → Paired K scope scope' R s t
  | references {name : Value} : Siblings s t → RefersTo scope name s → RefersTo scope' name t →
      Paired K scope scope' R s t
  | unfolds {id : Nat} {name x : Value} {depth : Nat} {τ : Session} :
      s = ⟨id, .str "lazy", .lazy (.builtin (.definition scope.id name)) name, [], [], .null⟩ →
      scope.definitions.find? name = some x → τ.kinds = K →
      (build scope' depth x).answer τ = .ok t → Paired K scope scope' R s t

/-- The schemas are paired, and so are their parts, at most `depth` levels deep. -/
def Twins (K : KindTable) (scope scope' : Scope) : Nat → Schema Value → Schema Value → Prop
  | 0 => fun _ _ => False
  | depth + 1 => Paired K scope scope' (Twins K scope scope' depth)

/-- The definitions are plain and the same but for one reference that may be replaced. -/
structure Akin (definitions : Entries) (x x' : Value) : Prop where
  related : Related definitions x x'
  left : x.isJson = true
  right : x'.isJson = true

theorem Akin.refl {definitions : Entries} {x : Value} (h : x.isJson = true) :
    Akin definitions x x :=
  ⟨.inl rfl, h, h⟩

section

variable {K : KindTable} {scope scope' : Scope} {R : Schema Value → Schema Value → Prop}
  {definitions : Entries} {tag name : String} {e e' : Entries}

/-! ## Discriminators -/

/-- The first schema of a related pair is lazy, or both have matching parts. -/
def Open (R : Schema Value → Schema Value → Prop) (s t : Schema Value) : Prop :=
  (∃ getter name, s.form = .lazy getter name) ∨ s.form.Matches R t.form

theorem Twins.isOpen {depth : Nat} {s t : Schema Value} (h : Twins K scope scope' depth s t) :
    Open (Twins K scope scope' (depth - 1)) s t := by
  cases depth with
  | zero => exact h.elim
  | succ depth =>
    cases h with
    | parts _ hform => exact .inr hform
    | references _ hs _ => exact .inl ⟨_, _, hs⟩
    | unfolds hs => exact .inl ⟨_, _, congrArg Schema.form hs⟩

end

section

variable {K : KindTable} {R : Schema Value → Schema Value → Prop} {s t : Schema Value}

/-- An operation that cannot succeed is in lenient accord with any other. -/
theorem twofold_of_refuse {α β : Type} {Q : α → β → Prop} {cause : DefinitionError} {y : Run β} :
    Twofold K True Q (Run.refuse cause) y :=
  fun _ _ _ _ => .of_lenient trivial nofun

theorem enumerated?_of_open (h : Open R s t) (hs : Construct.enumerated? s ≠ none) :
    Construct.enumerated? t = Construct.enumerated? s := by
  obtain ⟨getter, name, hform⟩ | hform := h
  · exact absurd (by unfold Construct.enumerated?; rw [hform]) hs
  · exact hform.enumerated?_eq

/-- Options offer the same values of a discriminator. -/
theorem discriminatorValues_twofold {R' : Schema Value → Schema Value → Prop}
    (hR : ∀ a b, R a b → Open R' a b) (h : Open R s t) (d : Value) :
    Twofold K True Eq (Construct.discriminatorValues s d) (Construct.discriminatorValues t d) := by
  unfold Construct.discriminatorValues
  obtain ⟨getter, name, hform⟩ | hform := h
  · rw [hform]
    exact twofold_of_refuse
  · generalize s.form = form at hform
    generalize t.form = form' at hform
    cases hform with
    | discriminatedUnion =>
      dsimp only
      split
      · exact .pure rfl
      · exact .refuse trivial
    | @object shape shape' _ _ _ hshape =>
      refine .after (Construct.hashable_still d) fun key _ => ?_
      have hfields : Option.Rel (fun e f => R e.2 f.2) (shape.find? fun e => e.1.isFound key)
          (shape'.find? fun e => e.1.isFound key) := by
        induction hshape with
        | nil => exact .none
        | @cons e f _ _ hef _ ih =>
          rw [List.find?_cons, List.find?_cons, hef.1]
          cases e.1.isFound key with
          | true => exact .some hef.2
          | false => exact ih
      generalize shape.find? (fun e => e.1.isFound key) = o at hfields
      generalize shape'.find? (fun e => e.1.isFound key) = o' at hfields
      cases hfields with
      | none => exact .refuse trivial
      | @some e f hef =>
        have hvalues := enumerated?_of_open (hR _ _ hef)
        dsimp only
        cases hlisted : Construct.enumerated? e.2 with
        | none => exact twofold_of_refuse
        | some values =>
          rw [hvalues (by rw [hlisted]; exact nofun), hlisted]
          exact .pure rfl
    | simple => cases form <;> first | exact .refuse trivial | contradiction
    | _ => exact .refuse trivial

theorem addValues_still (d : Value) (index : Nat) (vs : List Value) (table : List (Value × Nat)) :
    (Construct.addValues d index vs table).Still fun _ => True := by
  induction vs generalizing table with
  | nil => exact .pure trivial
  | cons v vs ih =>
    unfold Construct.addValues
    split
    · exact .refuse
    · exact ih _

theorem tableFrom_twofold {R' R'' : Schema Value → Schema Value → Prop}
    (hR : ∀ a b, R a b → Open R' a b) (hR' : ∀ a b, R' a b → Open R'' a b)
    {ss ts : List (Schema Value)} (h : List.Forall₂ R ss ts) (d : Value) (index : Nat)
    (table : List (Value × Nat)) :
    Twofold K True Eq (Construct.tableFrom d index ss table)
      (Construct.tableFrom d index ts table) := by
  induction h generalizing index table with
  | nil => exact .pure rfl
  | cons hst _ ih =>
    refine (discriminatorValues_twofold hR' (hR _ _ hst) d).bind ?_
    rintro values _ rfl
    exact .after (addValues_still d index values table) fun table _ => ih _ _

end

/-! ## Fields -/

/-- No field of a tag holds both a definition and a list of definitions. -/
theorem not_listField {tag name : String} (h : name ∈ childFields tag) :
    name ∉ listFields tag ∧ (tag = "object" → name ≠ "shape") := by
  have hapart : ∀ name ∈ childFields tag,
      name ∉ listFields tag ∧ (tag = "object" → name ≠ "shape") := by
    unfold childFields listFields
    split <;> simp
  exact hapart name h

section

variable {definitions e e' : Entries} {tag name : String} (h : Near definitions tag e e')
  (he : (Value.dict e).isJson = true) (he' : (Value.dict e').isJson = true)
include h he he'

/-- A field that holds a definition. -/
theorem Near.child (hname : name ∈ childFields tag) :
    Option.Rel (Akin definitions) (e.get? name) (e'.get? name) := by
  have hfield := h.fields name
  cases hv : e.get? name with
  | none =>
    rw [hv] at hfield
    cases hv' : e'.get? name with
    | none => exact .none
    | some v' => rw [hv'] at hfield; cases hfield
  | some v =>
    rw [hv] at hfield
    cases hv' : e'.get? name with
    | none => rw [hv'] at hfield; cases hfield
    | some v' =>
      rw [hv'] at hfield
      have hjson := Value.isJson_get? he hv
      have hjson' := Value.isJson_get? he' hv'
      cases hfield with
      | some hfits =>
        cases hfits with
        | same => exact .some (.refl hjson)
        | child _ hx => exact .some ⟨hx, hjson, hjson'⟩
        | items hlist => exact absurd hlist (not_listField hname).1
        | shape htag hshape => exact absurd hshape ((not_listField hname).2 htag)

theorem Near.child_field (hname : name ∈ childFields tag) :
    Akin definitions (field e name) (field e' name) := by
  have hchild := h.child he he' hname
  unfold field
  generalize e.get? name = o at hchild
  generalize e'.get? name = o' at hchild
  cases hchild with
  | none => exact .refl rfl
  | some hx => exact hx

/-- A field that holds a list of definitions. -/
theorem Near.listed (hname : name ∈ listFields tag) : ∀ {K : KindTable},
    Twofold K True (List.Forall₂ (Akin definitions)) (listed e name) (listed e' name) := by
  intro K
  have hfield := h.fields name
  have hsame (v : Value) (hv : v.isJson = true) : Twofold K True (List.Forall₂ (Akin definitions))
      (if v.truthy then Construct.items v else pure [])
      (if v.truthy then Construct.items v else pure []) := by
    split
    · refine (Twofold.still (.ofOption (P := fun vs => ∀ w ∈ vs, w.isJson = true) fun vs hvs =>
        Value.isJson_iterate? hv hvs)).mono ?_
      rintro vs _ ⟨rfl, hvs⟩
      exact List.forall₂_same.2 fun w hw => .refl (hvs w hw)
    · exact .pure .nil
  unfold OfDefinition.listed field
  cases hv : e.get? name with
  | none =>
    rw [hv] at hfield
    cases hv' : e'.get? name with
    | none => exact hsame .null rfl
    | some v' => rw [hv'] at hfield; cases hfield
  | some v =>
    rw [hv] at hfield
    cases hv' : e'.get? name with
    | none => rw [hv'] at hfield; cases hfield
    | some v' =>
      rw [hv'] at hfield
      have hjson := Value.isJson_get? he hv
      have hjson' := Value.isJson_get? he' hv'
      cases hfield with
      | some hfits =>
        cases hfits with
        | same => exact hsame v hjson
        | child hchild => exact absurd hname (not_listField hchild).1
        | @items xs xs' _ hitems =>
          have hakin : List.Forall₂ (Akin definitions) xs xs' := by
            refine List.forall₂_iff_zip.2 ⟨hitems.length_eq, fun {a b} hab => ?_⟩
            obtain ⟨ha, hb⟩ := List.of_mem_zip hab
            exact ⟨(List.forall₂_iff_zip.1 hitems).2 hab, Value.isJson_list.1 hjson _ ha,
              Value.isJson_list.1 hjson' _ hb⟩
          cases hitems with
          | nil => exact .pure .nil
          | cons _ _ => exact .pure hakin
        | shape htag =>
          rw [htag] at hname
          cases hname

/-- The shape of an object. -/
theorem Near.shape (htag : tag = "object") :
    Option.Rel (List.Forall₂ fun f g => g.1 = f.1 ∧ Akin definitions f.2 g.2)
      (if (field e "shape").truthy then (field e "shape").entries? else some [])
      (if (field e' "shape").truthy then (field e' "shape").entries? else some []) := by
  have hfield := h.fields "shape"
  have hsame (v : Value) (hv : v.isJson = true) :
      Option.Rel (List.Forall₂ fun f g => g.1 = f.1 ∧ Akin definitions f.2 g.2)
        (if v.truthy then v.entries? else some []) (if v.truthy then v.entries? else some []) := by
    split
    · cases v with
      | dict es =>
        exact .some (List.forall₂_same.2 fun f hf =>
          ⟨rfl, .refl ((Value.isJson_dict.1 hv).1 f hf).2⟩)
      | view es => exact absurd hv Bool.false_ne_true
      | _ => exact .none
    · exact .some .nil
  unfold field
  cases hv : e.get? "shape" with
  | none =>
    rw [hv] at hfield
    cases hv' : e'.get? "shape" with
    | none => exact hsame .null rfl
    | some v' => rw [hv'] at hfield; cases hfield
  | some v =>
    rw [hv] at hfield
    cases hv' : e'.get? "shape" with
    | none => rw [hv'] at hfield; cases hfield
    | some v' =>
      rw [hv'] at hfield
      have hjson := Value.isJson_get? he hv
      have hjson' := Value.isJson_get? he' hv'
      cases hfield with
      | some hfits =>
        cases hfits with
        | same => exact hsame v hjson
        | child hchild => exact absurd rfl ((not_listField hchild).2 htag)
        | items hlist =>
          rw [htag] at hlist
          cases hlist
        | @shape es es' _ _ hshape =>
          have hakin : List.Forall₂ (fun f g => g.1 = f.1 ∧ Akin definitions f.2 g.2) es es' := by
            refine List.forall₂_iff_zip.2 ⟨hshape.length_eq, fun {f g} hfg => ?_⟩
            obtain ⟨hf, hg⟩ := List.of_mem_zip hfg
            obtain ⟨hkey, hrelated⟩ := (List.forall₂_iff_zip.1 hshape).2 hfg
            exact ⟨hkey, hrelated, ((Value.isJson_dict.1 hjson).1 f hf).2,
              ((Value.isJson_dict.1 hjson').1 g hg).2⟩
          cases hshape with
          | nil => exact .some .nil
          | cons _ _ => exact .some hakin

end

/-! ## Parts -/

section

variable {K : KindTable} {R : Schema Value → Schema Value → Prop} {definitions e e' : Entries}
  {tag name : String} {build build' : Value → Run (Schema Value)}
  (hbuild : ∀ x x', Akin definitions x x' → Twofold K True R (build x) (build' x'))
include hbuild

theorem child_twofold (h : Near definitions tag e e') (he : (Value.dict e).isJson = true)
    (he' : (Value.dict e').isJson = true) (hname : name ∈ childFields tag) :
    Twofold K True (fun v w => ∃ s t, v = .schema s ∧ w = .schema t ∧ R s t)
      (child build e name) (child build' e' name) := by
  have hchild := h.child he he' hname
  unfold child
  generalize e.get? name = o at hchild
  generalize e'.get? name = o' at hchild
  cases hchild with
  | none => exact .refuse trivial
  | some hx => exact (hbuild _ _ hx).map fun s t hst => ⟨s, t, rfl, rfl, hst⟩

theorem child?_twofold {x x' : Value} (h : Akin definitions x x') :
    Twofold K True
      (fun v w => ∃ s t, v = .ofSchema? s ∧ w = .ofSchema? t ∧ Option.Rel R s t)
      (child? build x) (child? build' x') := by
  have hsome (h : Akin definitions x x') : Twofold K True
      (fun v w => ∃ s t, v = .ofSchema? s ∧ w = .ofSchema? t ∧ Option.Rel R s t)
      (Value.schema <$> build x) (Value.schema <$> build' x') :=
    (hbuild _ _ h).map fun s t hst => ⟨some s, some t, rfl, rfl, .some hst⟩
  obtain ⟨rfl | hinlines, -, -⟩ := id h
  · unfold child?
    split
    · exact .pure ⟨none, none, rfl, rfl, .none⟩
    · exact hsome h
  · cases hinlines <;> exact hsome h

theorem children_twofold {xs xs' : List Value} (h : List.Forall₂ (Akin definitions) xs xs') :
    Twofold K True
      (fun vs ws => ∃ ss ts, vs = ss.map .schema ∧ ws = ts.map .schema ∧ List.Forall₂ R ss ts)
      (children build xs) (children build' xs') := by
  induction h with
  | nil => exact .pure ⟨[], [], rfl, rfl, .nil⟩
  | cons hx _ ih =>
    refine (hbuild _ _ hx).bind fun s t hst => ih.bind ?_
    rintro _ _ ⟨ss, ts, rfl, rfl, hall⟩
    exact .pure ⟨s :: ss, t :: ts, rfl, rfl, .cons hst hall⟩

theorem shape_twofold {es es' : Entries}
    (h : List.Forall₂ (fun f g => g.1 = f.1 ∧ Akin definitions f.2 g.2) es es') :
    Twofold K True
      (fun vs ws => ∃ fs gs : List (Value × Schema Value), vs = fs.map (fun f => (f.1, .schema f.2)) ∧
        ws = gs.map (fun g => (g.1, .schema g.2)) ∧
        List.Forall₂ (fun f g => g.1 = f.1 ∧ R f.2 g.2) fs gs)
      (shape build es) (shape build' es') := by
  induction h with
  | nil => exact .pure ⟨[], [], rfl, rfl, .nil⟩
  | @cons f g _ _ hfg _ ih =>
    obtain ⟨k, x⟩ := f
    obtain ⟨k', x'⟩ := g
    obtain ⟨rfl, hx⟩ := hfg
    refine (hbuild _ _ hx).bind fun s t hst => ih.bind ?_
    rintro _ _ ⟨fs, gs, rfl, rfl, hall⟩
    exact .pure ⟨(k', s) :: fs, (k', t) :: gs, rfl, rfl, .cons ⟨rfl, hst⟩ hall⟩

end

end OfDefinition

end Assay
