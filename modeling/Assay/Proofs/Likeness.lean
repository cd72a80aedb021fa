import Assay.Proofs.Correspondence
import Assay.Proofs.Discrimination
import Assay.Proofs.Overlooking

/-!
# Evaluating schemas that are alike

Whether a schema is data-only does not depend on numbers, and a data-only schema corresponds to the
same schema without its numbers. The numbers show in what an evaluation finds only as the sources of
issues, so data-only schemas that are alike parse alike (`safeParse_alike`).
-/

namespace Assay

theorem Construct.enumerated?_unnumbered (s : Schema Value) :
    Construct.enumerated? s.unnumbered = Construct.enumerated? s := by
  unfold Construct.enumerated?
  rw [Schema.unnumbered_form]
  cases s.form <;> rfl

/-! ## Tables of discriminated unions -/

namespace Construct

variable {d : Value}

theorem discriminatorValues_of_offers {o : Schema Value} {values : List Value}
    (h : o.Offers d values) (hd : d.isHashable = true) :
    discriminatorValues o d = pure values := by
  have hkey : hashable d = pure d := if_pos hd
  unfold discriminatorValues
  cases h with
  | field hform hfield hvalues => simp only [hform, hkey, pure_bind, hfield, hvalues]
  | nested hform heq => simp only [hform, heq, if_true]

end Construct

/-- A schema offers the values that it offers without its numbers. -/
theorem Schema.unnumbered_offers {d : Value} {o : Schema Value} {values : List Value} :
    o.unnumbered.Offers d values ↔ o.Offers d values := by
  have hfind (shape : List (Value × Schema Value)) :
      (Schema.unnumberedShape shape).find? (fun f => f.1.isFound d) =
        (shape.find? fun f => f.1.isFound d).map fun e => (e.1, e.2.unnumbered) := by
    rw [Schema.unnumberedShape_eq_map, List.find?_map]
    rfl
  constructor
  · intro h
    cases hcase : o.form with
    | object shape policy catchall =>
      have hform : o.unnumbered.form = .object (Schema.unnumberedShape shape) policy
          (Schema.unnumberedOption catchall) := by rw [Schema.unnumbered_form, hcase, Form.unnumbered]
      cases h with
      | field hform' hfield hvalues =>
        obtain ⟨rfl, -, -⟩ := Form.object.inj (hform.symm.trans hform')
        obtain ⟨e, he, heq⟩ := Option.map_eq_some_iff.1 ((hfind shape).symm.trans hfield)
        obtain ⟨rfl, rfl⟩ := Prod.mk.inj heq
        exact .field hcase he (Construct.enumerated?_unnumbered e.2 ▸ hvalues)
      | nested hform' => cases hform.symm.trans hform'
    | discriminatedUnion schemas d' table =>
      have hform : o.unnumbered.form = .discriminatedUnion (Schema.unnumberedAll schemas) d' table := by
        rw [Schema.unnumbered_form, hcase, Form.unnumbered]
      cases h with
      | field hform' => cases hform.symm.trans hform'
      | nested hform' heq =>
        obtain ⟨-, rfl, rfl⟩ := Form.discriminatedUnion.inj (hform.symm.trans hform')
        exact .nested hcase heq
    | _ =>
      have hform := o.unnumbered_form
      rw [hcase] at hform
      cases h with
      | field hform' | nested hform' => cases hform.symm.trans hform'
  · intro h
    cases h with
    | @field shape policy catchall key field values hform hfield hvalues =>
      have hfield' : (unnumberedShape shape).find? (fun f => f.1.isFound d) =
          some (key, field.unnumbered) := by
        rw [hfind, hfield]
        rfl
      exact .field (o.unnumbered_form.trans (congrArg Form.unnumbered hform)) hfield'
        ((Construct.enumerated?_unnumbered field).trans hvalues)
    | nested hform heq =>
      exact .nested (o.unnumbered_form.trans (congrArg Form.unnumbered hform)) heq

theorem Run.Extends.trans {α : Type} {x y z : Run α} (hxy : x.Extends y) (hyz : y.Extends z) :
    x.Extends z :=
  fun σ a τ h => hyz σ a τ (hxy σ a τ h)

namespace Construct

variable {d : Value}

theorem discriminatorValues_extends (hd : d.isHashable = true) {o o' : Schema Value}
    (h : ∀ values, o.Offers d values → o'.Offers d values) :
    Run.Extends (discriminatorValues o d) (discriminatorValues o' d) := by
  intro σ values τ hvalues
  have hoffers := discriminatorValues_offers hvalues
  rw [discriminatorValues_of_offers hoffers hd] at hvalues
  rw [discriminatorValues_of_offers (h values hoffers) hd]
  exact hvalues

/-- The table of options does not depend on their numbers, as far as there is one. -/
theorem tableFrom_unnumbered (hd : d.isHashable = true) (ss : List (Schema Value)) (index : Nat)
    (table : List (Value × Nat)) :
    Run.Extends (tableFrom d index ss table)
        (tableFrom d index (ss.map Schema.unnumbered) table) ∧
      Run.Extends (tableFrom d index (ss.map Schema.unnumbered) table)
        (tableFrom d index ss table) := by
  induction ss generalizing index table with
  | nil => exact ⟨.refl, .refl⟩
  | cons s ss ih =>
    have hforth := discriminatorValues_extends hd fun _ h => (Schema.unnumbered_offers (o := s)).2 h
    have hback := discriminatorValues_extends hd fun _ h => (Schema.unnumbered_offers (o := s)).1 h
    exact ⟨.bind hforth fun _ => .bind .refl fun _ => (ih _ _).1,
      .bind hback fun _ => .bind .refl fun _ => (ih _ _).2⟩

theorem tableFrom_alike (hd : d.isHashable = true) {ss ts : List (Schema Value)}
    (h : ts.map Schema.unnumbered = ss.map Schema.unnumbered) (index : Nat)
    (table : List (Value × Nat)) :
    Run.Extends (tableFrom d index ss table) (tableFrom d index ts table) :=
  (tableFrom_unnumbered hd ss index table).1.trans (h ▸ (tableFrom_unnumbered hd ts index table).2)

end Construct

/-! ## Data-only schemas that are alike -/

/-- Whether plain data can say all about a form does not depend on numbers. -/
theorem Form.isData_unnumbered (form : Form Value (Schema Value)) :
    form.unnumbered.IsData ↔ form.IsData := by
  cases form with
  | object shape policy catchall =>
    simp only [unnumbered, IsData, Schema.unnumberedShape_eq_map, List.map_map]
    rfl
  | union options => simp only [unnumbered, IsData, Schema.unnumberedAll_eq_map, ne_eq, List.map_eq_nil_iff]
  | discriminatedUnion options d table =>
    simp only [unnumbered, IsData, Schema.unnumberedAll_eq_map, ne_eq, List.map_eq_nil_iff]
    refine and_congr_right fun _ => and_congr_right fun ⟨name, hd, _⟩ => forall_congr' fun σ => ?_
    have hextends := Construct.tableFrom_unnumbered (d := d) (hd ▸ rfl) options 0 []
    exact ⟨hextends.2.answer σ table, hextends.1.answer σ table⟩
  | _ => exact Iff.rfl

theorem Form.parts_unnumbered (form : Form Value (Schema Value)) :
    form.unnumbered.parts = form.parts.map Schema.unnumbered := by
  cases form with
  | object shape policy catchall =>
    cases catchall <;> simp [unnumbered, parts, Schema.unnumberedShape_eq_map, Schema.unnumberedOption]
  | tuple items rest =>
    cases rest <;> simp [unnumbered, parts, Schema.unnumberedAll_eq_map, Schema.unnumberedOption]
  | union options | discriminatedUnion options _ _ => exact Schema.unnumberedAll_eq_map options
  | _ => rfl

theorem Form.unnumbered_of_no_parts {form : Form Value (Schema Value)} (h : form.parts = []) :
    form.unnumbered = form := by
  cases form with
  | object shape policy catchall =>
    obtain ⟨hshape, hcatchall⟩ := List.append_eq_nil_iff.1 h
    obtain rfl := List.map_eq_nil_iff.1 hshape
    obtain rfl := Option.toList_eq_nil_iff.1 hcatchall
    rfl
  | tuple items rest =>
    obtain ⟨rfl, hrest⟩ := List.append_eq_nil_iff.1 h
    obtain rfl := Option.toList_eq_nil_iff.1 hrest
    rfl
  | union options | discriminatedUnion options _ _ =>
    cases h
    rfl
  | _ => first | rfl | cases h

theorem Form.tag?_unnumbered (form : Form Value (Schema Value)) :
    form.unnumbered.tag? = form.tag? := by
  cases form <;> rfl

/-- A schema without parts, checks and further fields is alike to those with another number only. -/
theorem Value.unnumbered_eq_bare {c : Value} {id : Nat} {kind error : Value}
    {form : Form Value (Schema Value)} (hparts : form.parts = [])
    (h : c.unnumbered = .schema ⟨id, kind, form, [], [], error⟩) :
    ∃ id', c = .schema ⟨id', kind, form, [], [], error⟩ := by
  cases c with
  | schema s =>
    obtain ⟨id', kind', form', extra', checks', error'⟩ := s
    simp only [unnumbered, Schema.unnumbered, Value.schema.injEq, Schema.mk.injEq] at h
    obtain ⟨-, rfl, hform, rfl, hchecks, rfl⟩ := h
    have hnil : checks' = [] := by
      rw [Value.unnumberedAll_eq_map] at hchecks
      exact List.map_eq_nil_iff.1 hchecks
    have hbare : form'.unnumbered = form' := by
      rw [← hform, form'.parts_unnumbered, List.map_eq_nil_iff] at hparts
      exact form'.unnumbered_of_no_parts hparts
    exact ⟨id', by rw [hnil, ← hform, hbare]⟩
  | _ => cases h

theorem Value.IsDataCheck.alike {c c' : Value} (h : c.IsDataCheck)
    (hc : c'.unnumbered = c.unnumbered) : c'.IsDataCheck := by
  cases h with
  | rule abort hrule herror =>
    cases c' with
    | check k =>
      obtain ⟨id', rule', error', abort'⟩ := k
      obtain ⟨-, rfl, rfl, rfl⟩ := Check.mk.inj (Value.check.inj hc)
      exact .rule abort hrule herror
    | _ => cases hc
  | named hrule =>
    cases c' with
    | check k =>
      obtain ⟨id', rule', error', abort'⟩ := k
      obtain ⟨-, rfl, rfl, rfl⟩ := Check.mk.inj (Value.check.inj hc)
      exact .named hrule
    | _ => cases hc
  | format f abort herror =>
    obtain ⟨id, rfl⟩ := unnumbered_eq_bare rfl hc
    exact .format f abort herror
  | integer abort herror =>
    obtain ⟨id, rfl⟩ := unnumbered_eq_bare rfl hc
    exact .integer abort herror

/-- A schema that is alike to a data-only schema is data-only. -/
theorem Schema.IsData.alike {s t : Schema Value} (hs : s.IsData) (hst : s.Alike t) : t.IsData := by
  induction hs generalizing t with
  | @intro id tag form checks error htag hform hparts hchecks herror ih =>
    obtain ⟨id', kind', form', extra', checks', error'⟩ := t
    simp only [Alike, unnumbered, Schema.mk.injEq, true_and] at hst
    obtain ⟨rfl, hforms, rfl, hall, rfl⟩ := hst
    refine .intro ?_ ?_ (fun u hu => ?_) (fun c hc => ?_) herror
    · rw [← form'.tag?_unnumbered, ← hforms, form.tag?_unnumbered, htag]
    · rwa [← form'.isData_unnumbered, ← hforms, form.isData_unnumbered]
    · have hmem : u.unnumbered ∈ form.parts.map unnumbered := by
        rw [← form.parts_unnumbered, hforms, form'.parts_unnumbered]
        exact List.mem_map_of_mem hu
      obtain ⟨u', hu', heq⟩ := List.mem_map.1 hmem
      exact ih u' hu' heq
    · have hmem : c.unnumbered ∈ checks.map Value.unnumbered := by
        rw [← Value.unnumberedAll_eq_map, hall, Value.unnumberedAll_eq_map]
        exact List.mem_map_of_mem hc
      obtain ⟨c', hc', heq⟩ := List.mem_map.1 hmem
      exact (hchecks c' hc').alike heq.symm

/-! ## Evaluation -/

/-- A data-only schema and the same without its numbers. -/
def Schema.Bare (s t : Schema Value) : Prop := s.IsData ∧ t = s.unnumbered

section

variable {host : Host} {σ : Session} {ctx : Context} {s t : Schema Value}

theorem forall₂_bare {ss : List (Schema Value)} (h : ∀ s ∈ ss, s.IsData) :
    List.Forall₂ Schema.Bare ss (ss.map Schema.unnumbered) :=
  List.forall₂_map_right_iff.2 (List.forall₂_same.2 fun s hs => ⟨h s hs, rfl⟩)

theorem rel_bare {o : Option (Schema Value)} (h : ∀ s ∈ o.toList, s.IsData) :
    Option.Rel Schema.Bare o (Schema.unnumberedOption o) := by
  cases o with
  | none => exact .none
  | some s => exact .some ⟨h s (by simp), rfl⟩

/-- A form that plain data can say all about matches the same without numbers. -/
theorem Form.IsData.matches_unnumbered {form : Form Value (Schema Value)} (h : form.IsData)
    (hparts : ∀ t ∈ form.parts, t.IsData) : form.Matches Schema.Bare form.unnumbered := by
  have hpart (t : Schema Value) (ht : t ∈ form.parts) : Schema.Bare t t.unnumbered :=
    ⟨hparts t ht, rfl⟩
  cases form with
  | object shape policy catchall =>
    rw [unnumbered, Schema.unnumberedShape_eq_map]
    refine .object ?_ (rel_bare fun t ht => hparts t (List.mem_append_right _ ht))
    refine List.forall₂_map_right_iff.2 (List.forall₂_same.2 fun e he => ⟨rfl, hpart _ ?_⟩)
    exact List.mem_append_left _ (List.mem_map_of_mem he)
  | tuple items rest =>
    rw [unnumbered, Schema.unnumberedAll_eq_map]
    exact .tuple (forall₂_bare fun t ht => hparts t (List.mem_append_left _ ht))
      (rel_bare fun t ht => hparts t (List.mem_append_right _ ht))
  | union options =>
    rw [unnumbered, Schema.unnumberedAll_eq_map]
    exact .union (forall₂_bare hparts)
  | discriminatedUnion options d table =>
    rw [unnumbered, Schema.unnumberedAll_eq_map]
    exact .discriminatedUnion (forall₂_bare hparts)
  | array s => exact .array (hpart s (by simp [parts]))
  | set s => exact .set (hpart s (by simp [parts]))
  | optional s => exact .optional (hpart s (by simp [parts]))
  | nullable s => exact .nullable (hpart s (by simp [parts]))
  | readonly s => exact .readonly (hpart s (by simp [parts]))
  | promise s => exact .promise (hpart s (by simp [parts]))
  | default s d => exact .default (hpart s (by simp [parts]))
  | prefault s d => exact .prefault (hpart s (by simp [parts]))
  | catching s d => exact .catching (Value.isCallable_of_isJson h) (hpart s (by simp [parts]))
  | record k x =>
    exact .record (hpart k (by simp [parts])) (hpart x (by simp [parts]))
      (Construct.enumerated?_unnumbered k)
  | map k x => exact .map (hpart k (by simp [parts])) (hpart x (by simp [parts]))
  | intersection l r => exact .intersection (hpart l (by simp [parts])) (hpart r (by simp [parts]))
  | pipe s t => exact .pipe (hpart s (by simp [parts])) (hpart t (by simp [parts]))
  | transform _ | lazy _ _ | custom _ _ | generic => exact h.elim
  | _ => exact .simple rfl

/-- A check of data reports no issues of others. -/
theorem Value.IsDataCheck.own {d : Check Value} (h : (Value.check d).IsDataCheck) :
    d.rule.isOwn = true := by
  cases h with
  | rule _ hrule => cases hrule <;> rfl
  | named hrule => cases hrule <;> rfl

/-- A data-only schema corresponds to the same without its numbers. -/
theorem bare_correspondence (hσ : σ.HasOwnKinds) :
    Correspondence host σ False Value.unnumbered (fun τ => τ.settings = σ.settings)
      (fun τ => τ.settings = σ.settings) Schema.IsData Schema.IsData Schema.Bare where
  left := settled_isData hσ
  right := settled_isData hσ
  related := by
    rintro s _ ⟨hs, rfl⟩
    exact ⟨hs, hs.alike (Schema.unnumbered_unnumbered s).symm⟩
  linked := by
    rintro s _ ⟨hs, rfl⟩
    refine .parts ⟨s.unnumbered_kind, s.unnumbered_extra, s.unnumbered_error, ?_, ?_, ?_⟩ ?_
    · exact congrArg Value.schema (Schema.unnumbered_unnumbered s).symm
    · rw [s.unnumbered_checks]
      refine List.forall₂_map_right_iff.2 (List.forall₂_same.2 fun c hc => ⟨?_, ?_, ?_⟩)
      · exact c.unnumbered_unnumbered.symm
      · exact c.unnumbered_unnumbered
      · rintro d rfl
        exact (hs.checks _ hc).own
    · exact fun fn hfn hne => absurd (hs.own hσ hfn) hne
    · rw [s.unnumbered_form]
      exact hs.form.matches_unnumbered hs.parts

/-- What a data-only schema finds is reported by schemas and checks without functions of their
own. -/
theorem Schema.IsData.sourced (hs : s.IsData) (hσ : σ.HasOwnKinds) {thorough : Bool} {fuel : Nat}
    {v : Value} {r : Result} (h : meaning host σ ctx thorough fuel s v = .ok r) :
    r.Sourced Resolution.HasMessage := by
  refine meaning_sourced (hs.isPlain hσ) (fun t ht => ?_) fuel s .self v r h
  have hdata := hs.reached ht
  refine ⟨Resolution.hasMessage_schema hdata.error.isJson, fun c hc => ?_⟩
  cases hdata.checks c hc with
  | rule _ _ herror => exact Resolution.hasMessage_check herror.isJson
  | named _ => exact Resolution.hasMessage_check rfl
  | format _ _ herror | integer _ herror => exact Resolution.hasMessage_schema herror.isJson

theorem Schema.shows_errors : Resolution.ShowsErrors Value.unnumbered := by
  rintro ⟨path, message, input, source, detail⟩
  cases source with
  | schema s => exact s.unnumbered_error
  | _ => rfl

/-- Data-only schemas that are alike parse alike. -/
theorem safeParse_alike (hs : s.IsData) (ht : t.IsData) (hst : s.Alike t) (hσ : σ.HasOwnKinds)
    (h : Resolution.Blind host Value.unnumbered ctx σ.config fun τ => τ.settings = σ.settings)
    (v : Value) : (safeParse host (ctx.mayWait false) s v).answer σ =
      (safeParse host (ctx.mayWait false) t v).answer σ := by
  have hconfig (τ : Session) (hτ : τ.settings = σ.settings) : τ.config = σ.config :=
    Session.config_eq_of_settings hτ
  have hbare {u : Schema Value} (hu : u.IsData) :
      (safeParse host (ctx.mayWait false) u v).answer σ =
        (safeParse host (ctx.mayWait false) u.unnumbered v).answer σ := by
    have hu' : u.unnumbered.IsData := hu.alike u.unnumbered_unnumbered.symm
    have hbudget : u.budget = u.unnumbered.budget := by
      rw [Schema.budget, Schema.budget, u.depth_unnumbered]
    exact Accord.eq_of_strict ((bare_correspondence hσ).safeParse_accord Schema.shows_errors h h
      hconfig hconfig (.inr hbudget) ⟨hu, rfl⟩ v (fun r hr => hu.sourced hσ hr)
      fun r hr => hu'.sourced hσ hr)
  rw [hbare hs, hbare ht, show s.unnumbered = t.unnumbered from hst]

end

end Assay
