import Assay.Proofs.Places
import Assay.Proofs.Twins

/-!
# Related definitions side by side

Definitions that are the same but for one reference are built side by side: form by form, with
checks and message, one level of nesting after the other. What comes out are twins
(`build_twofold`).
-/

namespace Assay

open Run

namespace OfDefinition

/-! ## Forms -/

/-- A tag that nests no definitions. -/
def nests (tag : String) : Bool :=
  !(childFields tag).isEmpty || !(listFields tag).isEmpty || tag == "object"

namespace Near

variable {definitions e e' : Entries} {tag name : String} (h : Near definitions tag e e')
include h

theorem field_eq (hchild : name ∉ childFields tag) (hlist : name ∉ listFields tag)
    (hshape : tag = "object" → name ≠ "shape") : field e' name = field e name := by
  unfold field
  rw [h.get?_eq hchild hlist hshape]

/-- Definitions of a tag that nests none have the same fields. -/
theorem bare_eq (hbare : nests tag = false) (name : String) : e'.get? name = e.get? name := by
  simp only [nests, Bool.or_eq_false_iff, Bool.not_eq_false', List.isEmpty_iff, beq_eq_false_iff_ne]
    at hbare
  exact h.get?_eq (by simp [hbare]) (by simp [hbare]) fun htag => absurd htag hbare.2

theorem flag_eq (hbare : nests tag = false) (name : String) : flag e' name = flag e name := by
  unfold flag field
  rw [h.bare_eq hbare]

theorem scalar_eq (hbare : nests tag = false) : scalar e' tag = scalar e tag := by
  unfold scalar flag field
  rw [h.bare_eq hbare, h.bare_eq hbare, h.bare_eq hbare]

theorem enumerated_eq (hbare : nests tag = false) : enumerated e' tag = enumerated e tag := by
  unfold enumerated field
  rw [h.bare_eq hbare, h.bare_eq hbare, h.bare_eq hbare]

end Near

/-- Schemas that were just made, of forms that match or that refer to one name. -/
inductive Made (scope scope' : Scope) (R : Schema Value → Schema Value → Prop)
    (s t : Schema Value) : Prop
  | parts {id id' : Nat} {tag : String} {form form' : Form Value (Schema Value)} :
      s = ⟨id, .str tag, form, [], [], .null⟩ → t = ⟨id', .str tag, form', [], [], .null⟩ →
      form.tag? = some tag → form.Matches R form' →
      (∀ d, form.default? = some d → d.isJson = true) → Made scope scope' R s t
  | references {id id' : Nat} {name : Value} :
      s = ⟨id, .str "lazy", .lazy (.builtin (.definition scope.id name)) name, [], [], .null⟩ →
      t = ⟨id', .str "lazy", .lazy (.builtin (.definition scope'.id name)) name, [], [], .null⟩ →
      Made scope scope' R s t

section

variable {K : KindTable} {scope scope' : Scope} {R : Schema Value → Schema Value → Prop}
  {definitions e e' : Entries} {tag name : String} {build build' : Value → Run (Schema Value)}

/-- Schemas of forms that match. -/
theorem make_made {form form' : Form Value (Schema Value)} (h : form.Matches R form')
    (hdefault : ∀ d, form.default? = some d → d.isJson = true) :
    Twofold K True (Made scope scope' R) (Construct.make form {}) (Construct.make form' {}) := by
  refine (Construct.make_plain_twofold h.tag?_eq h.className_eq .null).mono ?_
  rintro s t ⟨id, id', tag, htag, hs, ht⟩
  exact .parts hs ht htag h hdefault

/-- Schemas of a form without parts. -/
theorem make_simple {form : Form Value (Schema Value)} (h : form.isSimple = true) :
    Twofold K True (Made scope scope' R) (Construct.make form {}) (Construct.make form {}) := by
  refine make_made (.simple h) fun d hd => ?_
  cases form <;> first | exact absurd h Bool.false_ne_true | cases hd

theorem scalar_twofold (d : Entries) (tag : String) :
    Twofold K True (Made scope scope' R) (scalar d tag) (scalar d tag) := by
  unfold scalar
  dsimp only
  split
  · split
    · refine (Construct.namedFormat_twofold _ _ _).mono ?_
      rintro _ _ ⟨f, id, id', rfl, rfl⟩
      exact .parts rfl rfl rfl (.simple rfl) nofun
    · exact make_simple rfl
  · split
    · exact make_simple rfl
    · split
      · exact .refuse trivial
      · exact make_simple rfl

theorem literal_twofold (values : Value) : Twofold K True (Made scope scope' R)
    (Construct.literal values {}) (Construct.literal values {}) := by
  unfold Construct.literal
  dsimp only
  split
  · exact .refuse trivial
  · exact make_simple rfl

theorem enumeration_twofold (entries : Value) : Twofold K True (Made scope scope' R)
    (Construct.enumeration entries {}) (Construct.enumeration entries {}) := by
  refine Twofold.bind (Q := Eq) ?_ ?_
  · split
    · exact .pure rfl
    · exact .pure rfl
    · exact .pure rfl
    · exact .after (.ofOption (P := fun _ => True) fun _ _ => trivial) fun _ _ => .pure rfl
  · rintro ⟨entries, cls⟩ _ rfl
    dsimp only
    split
    · exact .refuse trivial
    · exact make_simple rfl

theorem enumerated_twofold (d : Entries) (tag : String) :
    Twofold K True (Made scope scope' R) (enumerated d tag) (enumerated d tag) := by
  unfold enumerated
  split
  · split
    · exact .after (.ofOption (P := fun _ => True) fun _ _ => trivial) fun _ _ =>
        literal_twofold _
    · exact literal_twofold _
    · exact .refuse trivial
  · split
    · exact .refuse trivial
    · exact enumeration_twofold _

section

variable (hbuild : ∀ x x', Akin definitions x x' → Twofold K True R (build x) (build' x'))
  (he : (Value.dict e).isJson = true) (he' : (Value.dict e').isJson = true)
include hbuild he he'

theorem object_twofold (h : Near definitions "object" e e') :
    Twofold K True (Made scope scope' R) (object build e) (object build' e') := by
  have hshape := h.shape he he' rfl
  have hpolicy : e'.get? "unknown_keys" = e.get? "unknown_keys" :=
    h.get?_eq (by decide) (by decide) fun _ => by decide
  unfold object
  dsimp only
  rw [hpolicy]
  generalize (if (field e "shape").truthy then (field e "shape").entries? else some []) = o at hshape
  generalize (if (field e' "shape").truthy then (field e' "shape").entries? else some []) = o'
    at hshape
  cases hshape with
  | none => exact .refuse trivial
  | some hentries =>
    refine (shape_twofold hbuild hentries).bind ?_
    rintro _ _ ⟨fs, gs, rfl, rfl, hall⟩
    refine (child?_twofold hbuild (h.child_field he he' (by decide))).bind ?_
    rintro _ _ ⟨s, t, rfl, rfl, hst⟩
    cases hp : ((e.get? "unknown_keys").getD (.str "strip")).str?.bind UnknownKeys.ofName? with
    | none =>
      unfold Construct.object
      rw [hp]
      exact .refuse trivial
    | some p =>
      rw [Construct.object_eq hp, Construct.object_eq hp]
      exact make_made (.object hall hst) nofun

theorem tuple_twofold (h : Near definitions "tuple" e e') :
    Twofold K True (Made scope scope' R)
      (form build scope e "tuple") (form build' scope' e' "tuple") := by
  refine (h.listed he he' (by decide)).bind fun xs xs' hxs => ?_
  refine (children_twofold hbuild hxs).bind ?_
  rintro _ _ ⟨ss, ts, rfl, rfl, hall⟩
  refine (child?_twofold hbuild (h.child_field he he' (by decide))).bind ?_
  rintro _ _ ⟨s, t, rfl, rfl, hst⟩
  rw [Construct.tuple_eq, Construct.tuple_eq]
  exact make_made (.tuple hall hst) nofun

theorem union_twofold {R' R'' : Schema Value → Schema Value → Prop}
    (hR : ∀ a b, R a b → Open R' a b) (hR' : ∀ a b, R' a b → Open R'' a b)
    (h : Near definitions "union" e e') :
    Twofold K True (Made scope scope' R) (union build e) (union build' e') := by
  have hfield : field e' "discriminator" = field e "discriminator" :=
    h.field_eq (by decide) (by decide) (by decide)
  unfold union
  rw [hfield]
  refine (h.listed he he' (by decide)).bind fun xs xs' hxs => ?_
  refine (children_twofold hbuild hxs).bind ?_
  rintro _ _ ⟨ss, ts, rfl, rfl, hall⟩
  dsimp only
  cases hall with
  | nil => split <;> exact .refuse trivial
  | @cons s t ss ts hst hall =>
    have hss := List.cons_ne_nil s ss
    have hts := List.cons_ne_nil t ts
    split
    · rw [Construct.discriminatedUnion_eq hss, Construct.discriminatedUnion_eq hts]
      refine (tableFrom_twofold hR hR' (.cons hst hall) _ _ _).bind ?_
      rintro table _ rfl
      exact make_made (.discriminatedUnion (.cons hst hall)) nofun
    · rw [Construct.union_eq hss, Construct.union_eq hts]
      exact make_made (.union (.cons hst hall)) nofun

/-- Forms around one part. -/
theorem around_twofold {f f' : Value → Run (Schema Value)} (h : Near definitions tag e e')
    (hname : name ∈ childFields tag) (form : Schema Value → Form Value (Schema Value))
    (hf : ∀ s, f (.schema s) = Construct.make (form s) {})
    (hf' : ∀ t, f' (.schema t) = Construct.make (form t) {})
    (hform : ∀ s t, R s t → (form s).Matches R (form t))
    (hdefault : ∀ s d, (form s).default? = some d → d.isJson = true) :
    Twofold K True (Made scope scope' R) (child build e name >>= f)
      (child build' e' name >>= f') := by
  refine (child_twofold hbuild h he he' hname).bind ?_
  rintro _ _ ⟨s, t, rfl, rfl, hst⟩
  rw [hf, hf']
  exact make_made (hform s t hst) (hdefault s)

/-- Forms around two parts. -/
theorem between_twofold {name' : String} {f f' : Value → Value → Run (Schema Value)}
    (h : Near definitions tag e e') (hname : name ∈ childFields tag)
    (hname' : name' ∈ childFields tag)
    (form : Schema Value → Schema Value → Form Value (Schema Value))
    (hf : ∀ s u, f (.schema s) (.schema u) = Construct.make (form s u) {})
    (hf' : ∀ t w, f' (.schema t) (.schema w) = Construct.make (form t w) {})
    (hform : ∀ s t u w, R s t → R u w → (form s u).Matches R (form t w))
    (hdefault : ∀ s u, (form s u).default? = none) :
    Twofold K True (Made scope scope' R)
      (child build e name >>= fun v => child build e name' >>= f v)
      (child build' e' name >>= fun v => child build' e' name' >>= f' v) := by
  refine (child_twofold hbuild h he he' hname).bind ?_
  rintro _ _ ⟨s, t, rfl, rfl, hst⟩
  refine (child_twofold hbuild h he he' hname').bind ?_
  rintro _ _ ⟨u, w, rfl, rfl, huw⟩
  rw [hf, hf']
  exact make_made (hform s t u w hst huw) fun d hd => by rw [hdefault] at hd; cases hd

/-- The key schema of a record lists values when the other one does. -/
theorem record_twofold {R' : Schema Value → Schema Value → Prop} (hR : ∀ a b, R a b → Open R' a b)
    (hlists : ∀ x σ s, (build x).answer σ = .ok s →
      (Construct.enumerated? s).isSome = enumerates x)
    (hlists' : ∀ x σ s, (build' x).answer σ = .ok s →
      (Construct.enumerated? s).isSome = enumerates x)
    (h : Near definitions "record" e e') : Twofold K True (Made scope scope' R)
      (form build scope e "record") (form build' scope' e' "record") := by
  have hchild : Option.Rel (Akin definitions) (e.get? "key_type") (e'.get? "key_type") :=
    h.child he he' (by decide)
  have hkeys := h.keys rfl
  have hkey : Twofold K True (fun v w => ∃ k k', v = .schema k ∧ w = .schema k' ∧ R k k' ∧
      Construct.enumerated? k' = Construct.enumerated? k)
      (child build e "key_type") (child build' e' "key_type") := by
    unfold child
    generalize e.get? "key_type" = o at hchild hkeys
    generalize e'.get? "key_type" = o' at hchild hkeys
    cases hchild with
    | none => exact twofold_of_refuse
    | @some x x' hx =>
      refine ((hbuild x x' hx).and (hlists x) (hlists' x')).map ?_
      rintro k k' ⟨hk, hlist, hlist'⟩
      refine ⟨k, k', rfl, rfl, hk, ?_⟩
      cases hvalues : Construct.enumerated? k with
      | some values =>
        rw [← hvalues]
        exact enumerated?_of_open (hR k k' hk) (hvalues ▸ nofun)
      | none =>
        rw [hvalues] at hlist
        cases hvalues' : Construct.enumerated? k' with
        | none => rfl
        | some values =>
          rw [hvalues'] at hlist'
          have := hkeys x x' rfl rfl hlist'.symm
          rw [← hlist] at this
          cases this
  refine hkey.bind ?_
  rintro _ _ ⟨k, k', rfl, rfl, hk, hvalues⟩
  refine (child_twofold hbuild h he he' (by decide)).bind ?_
  rintro _ _ ⟨s, t, rfl, rfl, hst⟩
  exact make_made (.record hk hst hvalues) nofun

end

theorem reference_twofold {d d' : Entries} (hname : field d' "name" = field d "name")
    (hscope : ∀ name, scope'.definitions.contains name = scope.definitions.contains name) :
    Twofold K True (Made scope scope' R) (reference scope d) (reference scope' d') := by
  unfold reference
  rw [hname]
  refine .after (Construct.hashable_still _) fun name _ => ?_
  rw [hscope]
  split
  · have hlazy (id : Nat) : Construct.lazy (.builtin (.definition id name)) name {} =
        Construct.make (.lazy (.builtin (.definition id name)) name) {} := rfl
    have hmake : Twofold K True _
        (Construct.make (.lazy (.builtin (.definition scope.id name)) name) {})
        (Construct.make (.lazy (.builtin (.definition scope'.id name)) name) {}) :=
      Construct.make_plain_twofold (by rfl) (by rfl) .null
    rw [hlazy, hlazy]
    refine hmake.mono ?_
    rintro _ _ ⟨id, id', tag, htag, rfl, rfl⟩
    cases htag
    exact .references rfl rfl
  · cases Value.sorted? (scope.definitions.map (·.1)) with
    | none => exact fun _ _ _ _ => .of_lenient trivial nofun
    | some available => exact twofold_of_refuse

section

variable (hbuild : ∀ x x', Akin definitions x x' → Twofold K True R (build x) (build' x'))
  (he : (Value.dict e).isJson = true) (he' : (Value.dict e').isJson = true)
  {R' R'' : Schema Value → Schema Value → Prop} (hR : ∀ a b, R a b → Open R' a b)
  (hR' : ∀ a b, R' a b → Open R'' a b)
  (hlists : ∀ x σ s, (build x).answer σ = .ok s → (Construct.enumerated? s).isSome = enumerates x)
  (hlists' : ∀ x σ s, (build' x).answer σ = .ok s → (Construct.enumerated? s).isSome = enumerates x)
  (hscope : ∀ name, scope'.definitions.contains name = scope.definitions.contains name)
include hbuild he he' hR hR' hlists hlists' hscope

theorem form_twofold (h : Near definitions tag e e') :
    Twofold K True (Made scope scope' R) (form build scope e tag) (form build' scope' e' tag) := by
  by_cases htuple : tag = "tuple"
  · subst htuple
    exact tuple_twofold hbuild he he' h
  by_cases hrecord : tag = "record"
  · subst hrecord
    exact record_twofold hbuild he he' hR hlists hlists' h
  unfold form
  dsimp only
  split
  · exact h.scalar_eq (by decide) ▸ scalar_twofold _ _
  · exact h.scalar_eq (by decide) ▸ scalar_twofold _ _
  · exact h.flag_eq (by decide) "coerce" ▸ make_simple rfl
  · exact h.flag_eq (by decide) "coerce" ▸ make_simple rfl
  · exact make_simple rfl
  · exact make_simple rfl
  · exact make_simple rfl
  · exact make_simple rfl
  · exact h.enumerated_eq (by decide) ▸ enumerated_twofold _ _
  · exact h.enumerated_eq (by decide) ▸ enumerated_twofold _ _
  · exact object_twofold hbuild he he' h
  · exact around_twofold hbuild he he' h (by decide) .array (fun _ => rfl) (fun _ => rfl)
      (fun _ _ => .array) nofun
  · exact absurd rfl htuple
  · exact absurd rfl hrecord
  · exact between_twofold hbuild he he' h (by decide) (by decide) .map (fun _ _ => rfl)
      (fun _ _ => rfl) (fun _ _ _ _ => .map) fun _ _ => rfl
  · exact around_twofold hbuild he he' h (by decide) .set (fun _ => rfl) (fun _ => rfl)
      (fun _ _ => .set) nofun
  · exact union_twofold hbuild he he' hR hR' h
  · exact between_twofold hbuild he he' h (by decide) (by decide) .intersection (fun _ _ => rfl)
      (fun _ _ => rfl) (fun _ _ _ _ => .intersection) fun _ _ => rfl
  · exact around_twofold hbuild he he' h (by decide) .optional (fun _ => rfl) (fun _ => rfl)
      (fun _ _ => .optional) nofun
  · exact around_twofold hbuild he he' h (by decide) .nullable (fun _ => rfl) (fun _ => rfl)
      (fun _ _ => .nullable) nofun
  · exact around_twofold hbuild he he' h (by decide) .readonly (fun _ => rfl) (fun _ => rfl)
      (fun _ _ => .readonly) nofun
  · exact around_twofold hbuild he he' h (by decide) .promise (fun _ => rfl) (fun _ => rfl)
      (fun _ _ => .promise) nofun
  · have hfield : field e' "default_value" = field e "default_value" :=
      h.field_eq (by decide) (by decide) (by decide)
    rw [hfield]
    exact around_twofold hbuild he he' h (by decide) (.default · (field e "default_value"))
      (fun _ => rfl) (fun _ => rfl) (fun _ _ => .default)
      fun s d hd => Option.some.inj hd ▸ Value.isJson_field he _
  · have hfield : field e' "default_value" = field e "default_value" :=
      h.field_eq (by decide) (by decide) (by decide)
    rw [hfield]
    exact around_twofold hbuild he he' h (by decide) (.prefault · (field e "default_value"))
      (fun _ => rfl) (fun _ => rfl) (fun _ _ => .prefault)
      fun s d hd => Option.some.inj hd ▸ Value.isJson_field he _
  · have hfield : field e' "catch_value" = field e "catch_value" :=
      h.field_eq (by decide) (by decide) (by decide)
    have hcallable := Value.isCallable_of_isJson (Value.isJson_field he "catch_value")
    rw [hfield]
    exact around_twofold hbuild he he' h (by decide) (.catching · (field e "catch_value"))
      (fun _ => rfl) (fun _ => rfl)
      (fun _ _ => .catching hcallable) nofun
  · exact between_twofold hbuild he he' h (by decide) (by decide) .pipe (fun _ _ => rfl)
      (fun _ _ => rfl) (fun _ _ _ _ => .pipe) fun _ _ => rfl
  · exact reference_twofold (h.field_eq (by decide) (by decide) (by decide)) hscope
  · exact reference_twofold (h.field_eq (by decide) (by decide) (by decide)) hscope
  · exact twofold_of_refuse

end

end

/-! ## Checks and messages -/

section

variable {K : KindTable} {scope scope' : Scope} {R : Schema Value → Schema Value → Prop}
  {definitions e e' : Entries} {tag : String} {s t : Schema Value}

/-- The checks and messages that related definitions attach to schemas without any. -/
theorem attach_twofold (hstrict : scope'.strict = scope.strict)
    (he : (Value.dict e).isJson = true) (hchecks : field e' "checks" = field e "checks")
    (herror : field e' "error" = field e "error") (hs : s.checks = [] ∧ s.error = .null)
    (ht : t.checks = [] ∧ t.error = .null) :
    Twofold K True (fun u w => ∃ id id' checks checks' error,
        u = { s with id := id, checks := checks, error := error } ∧
        w = { t with id := id', checks := checks', error := error } ∧
        List.Forall₂ Value.CheckTwins checks checks' ∧ error.isJson = true)
      (attach scope e s) (attach scope' e' t) := by
  rw [attach_eq, attach_eq, hstrict, herror]
  refine (checksOf_twofold scope.strict he hchecks).weaken.bind fun checks checks' hall => ?_
  have hbare (s : Schema Value) (hs : s.checks = []) : s = { s with checks := [] } := by
    cases s
    cases hs
    rfl
  have hmessage (u w : Schema Value) (hu : u = { s with id := u.id, checks := checks })
      (hw : w = { t with id := w.id, checks := checks' }) :
      Twofold K True (fun u w => ∃ id id' checks checks' error,
          u = { s with id := id, checks := checks, error := error } ∧
          w = { t with id := id', checks := checks', error := error } ∧
          List.Forall₂ Value.CheckTwins checks checks' ∧ error.isJson = true)
        (withError (field e "error") u) (withError (field e "error") w) := by
    unfold withError
    split
    · next text _ =>
      refine Twofold.freshRef.bind fun id id' _ => .pure ?_
      exact ⟨id, id', checks, checks', .str text, by rw [hu], by rw [hw], hall, rfl⟩
    · refine .pure ⟨u.id, w.id, checks, checks', .null, ?_, ?_, hall, rfl⟩
      · rw [← hs.2]
        exact hu
      · rw [← ht.2]
        exact hw
  cases hall with
  | nil =>
    exact hmessage s t (hbare s hs.1) (hbare t ht.1)
  | @cons c c' cs cs' hc hcs =>
    refine Twofold.freshRef.bind fun id id' _ => hmessage _ _ ?_ ?_
    · rw [hs.1, List.nil_append]
    · rw [ht.1, List.nil_append]

/-! ## Definitions -/

theorem Made.bare (h : Made scope scope' R s t) :
    (s.checks = [] ∧ s.error = .null) ∧ t.checks = [] ∧ t.error = .null := by
  cases h with
  | parts hs ht => rw [hs, ht]; exact ⟨⟨rfl, rfl⟩, rfl, rfl⟩
  | references hs ht => rw [hs, ht]; exact ⟨⟨rfl, rfl⟩, rfl, rfl⟩

/-- What was just made is paired when it has got its checks and messages. -/
theorem Made.paired (h : Made scope scope' R s t) {id id' : Nat} {checks checks' : List Value}
    {error : Value} (hchecks : List.Forall₂ Value.CheckTwins checks checks')
    (herror : error.isJson = true) :
    Paired K scope scope' R { s with id := id, checks := checks, error := error }
      { t with id := id', checks := checks', error := error } := by
  cases h with
  | @parts _ _ tag form form' hs ht htag hform hdefault =>
    subst hs ht
    exact .parts ⟨rfl, fun tag' htag' => congrArg Value.str (Option.some.inj (htag.symm.trans htag')),
      rfl, rfl, herror, hchecks, hdefault⟩ hform
  | @references _ _ name hs ht =>
    subst hs ht
    exact .references ⟨rfl, fun tag' htag' => congrArg Value.str (Option.some.inj htag'),
      rfl, rfl, herror, hchecks, nofun⟩ rfl rfl

theorem mapM_twofold {α β : Type} {f : α → Run β} (h : ∀ a, Twofold K True Eq (f a) (f a))
    (as : List α) : Twofold K True Eq (as.mapM f) (as.mapM f) := by
  induction as with
  | nil => exact .pure rfl
  | cons a as ih =>
    rw [List.mapM_cons]
    refine (h a).bind ?_
    rintro b _ rfl
    refine ih.bind ?_
    rintro bs _ rfl
    exact .pure rfl

/-- A schema of a further kind. -/
theorem generic_twofold (hstrict : scope'.strict = scope.strict)
    (he : (Value.dict e).isJson = true) :
    Twofold K True (Paired K scope scope' R) (generic scope e) (generic scope' e) := by
  unfold generic
  rw [hstrict]
  dsimp only
  split
  · refine .reading fun σ τ hσ hτ => ?_
    rw [hσ, hτ]
    split
    · exact twofold_of_refuse
    · refine (checksOf_twofold scope.strict he rfl).weaken.bind fun cs cs' hcs => ?_
      refine (mapM_twofold (fun e => ?_) _).bind ?_
      · split <;> first | exact .throw | exact .pure rfl
      · rintro extra _ rfl
        have hcs₁ : (Value.list cs).iterate? = some cs := rfl
        have hcs₂ : (Value.list cs').iterate? = some cs' := rfl
        refine (Construct.make_twofold rfl rfl hcs₁ hcs₂).mono ?_
        rintro _ _ ⟨id, id', kind, extra', rfl, rfl⟩
        exact .parts ⟨rfl, nofun, rfl, rfl, Value.isJson_field he "error", hcs, nofun⟩ (.simple rfl)
  · exact twofold_of_refuse

theorem warnUnknown_eq (h : e'.map (·.1) = e.map (·.1)) : warnUnknown e' tag = warnUnknown e tag := by
  have hnames (d : Entries) (p : Value → Bool) :
      (d.filter fun f => p f.1).map (·.1) = (d.map (·.1)).filter p := by
    rw [List.filter_map]
    rfl
  unfold warnUnknown
  dsimp only
  rw [hnames e' fun k => !(k.str?.any (commonFields ++ ownFields tag).contains),
    hnames e fun k => !(k.str?.any (commonFields ++ ownFields tag).contains), h]

theorem warnUnknown_twofold :
    Twofold K True (fun _ _ => True) (warnUnknown e tag) (warnUnknown e tag) := by
  refine .after (.ofOption (P := fun _ => True) fun _ _ => trivial) fun ignored _ => ?_
  split
  · exact .logLine _ _ _ _
  · exact .pure trivial

/-- A bare reference is built to a lazy schema without checks and message. -/
theorem build_reference {name : Value} (h : IsReference e name) {depth lane i : Nat} :
    (build scope depth (.dict e)).From lane i fun _ s => ∃ id,
      s = ⟨id, .str "lazy", .lazy (.builtin (.definition scope.id name)) name, [], [], .null⟩ := by
  cases depth with
  | zero => exact .throw
  | succ depth =>
    unfold build
    dsimp only [Value.entries?]
    rw [h.tag]
    refine (From.of_builds (warnUnknown_builds _ _)).bind fun _ _ _ _ => ?_
    refine From.bind (P := fun _ s => ∃ id, s =
      ⟨id, .str "lazy", .lazy (.builtin (.definition scope.id name)) name, [], [], .null⟩) ?_ ?_
    · show (reference scope e).From _ _ _
      refine (hashable_same _).bind ?_
      rintro _ _ - ⟨rfl, rfl⟩
      rw [h.name]
      split
      · exact .of_yields (Construct.lazy_builds _ _ _)
          (Construct.make_yields (.lazy (.builtin (.definition scope.id name)) name) rfl [] .null)
      · exact (From.of_builds .ofOption).bind fun _ _ _ _ => .refuse
    · rintro j s - hs
      have hchecks : checksOf scope.strict e = pure [] := by
        unfold checksOf
        dsimp only
        rw [h.checks]
        rfl
      rw [attach_eq, hchecks, pure_bind]
      have herror : ∀ text, field e "error" ≠ .str text := fun text htext => by
        have := h.error
        rw [htext] at this
        cases this
      show From _ _ _ (withError (field e "error") s)
      unfold withError
      split
      · next text htext => exact absurd htext (herror text)
      · exact .pure hs

/-- The tables of named definitions have the same names and related definitions. -/
structure Scope.Akin (scope scope' : Scope) : Prop where
  strict : scope'.strict = scope.strict
  definitions : ∀ name, Option.Rel (OfDefinition.Akin scope.definitions) (scope.definitions.find? name)
    (scope'.definitions.find? name)

variable {definitions : Entries} {depth depth' : Nat}

theorem Scope.Akin.contains (h : scope.Akin scope') (name : Value) :
    scope'.definitions.contains name = scope.definitions.contains name := by
  have hname := h.definitions name
  unfold Entries.contains
  generalize scope.definitions.find? name = o at hname
  generalize scope'.definitions.find? name = o' at hname
  cases hname <;> rfl

/-- Definitions of one tag. -/
theorem tagged_twofold (hscope : scope.Akin scope')
    (hbuild : ∀ x x', Akin scope.definitions x x' → Twofold K True (Twins K scope scope' depth)
      (build scope depth x) (build scope' depth' x'))
    (h : Near scope.definitions tag e e') (he : (Value.dict e).isJson = true)
    (he' : (Value.dict e').isJson = true) :
    Twofold K True (Twins K scope scope' (depth + 1))
      (warnUnknown e tag >>= fun _ => form (build scope depth) scope e tag >>= attach scope e)
      (warnUnknown e' tag >>= fun _ =>
        form (build scope' depth') scope' e' tag >>= attach scope' e') := by
  have hcommon {name : String} (hname : name ∈ commonFields) : field e' name = field e name :=
    have ⟨hchild, hlist, hshape⟩ := not_nested_of_common _ hname
    h.field_eq hchild hlist hshape
  rw [warnUnknown_eq h.names]
  refine warnUnknown_twofold.bind fun _ _ _ => ?_
  refine (form_twofold hbuild he he' (fun _ _ => Twins.isOpen) (fun _ _ => Twins.isOpen)
    (fun _ _ _ => build_lists) (fun _ _ _ => build_lists) hscope.contains h).bind fun s t hst => ?_
  refine (attach_twofold hscope.strict he (hcommon (by decide)) (hcommon (by decide)) hst.bare.1
    hst.bare.2).mono ?_
  rintro _ _ ⟨id, id', checks, checks', error, rfl, rfl, hchecks, herror⟩
  exact hst.paired hchecks herror

/-- From definitions that are the same but for one reference twins are built. -/
theorem build_twofold (hscope : scope.Akin scope') (depth : Nat) :
    ∀ depth' x x', Akin scope.definitions x x' → Twofold K True (Twins K scope scope' depth)
      (build scope depth x) (build scope' depth' x') := by
  induction depth with
  | zero =>
    intro depth' x x' _ σ τ _ _
    refine .of_lenient trivial fun a b ha => ?_
    unfold build at ha
    split at ha <;> cases ha
  | succ depth ih =>
    intro depth' x x' h
    cases depth' with
    | zero =>
      intro σ τ _ _
      refine .of_lenient trivial fun a b _ hb => ?_
      unfold build at hb
      split at hb <;> cases hb
    | succ depth' =>
      obtain ⟨rfl | hinlines, hx, hx'⟩ := h
      · cases x with
        | dict e =>
          unfold build
          dsimp only [Value.entries?]
          refine .after (Construct.hashable_still _) fun w _ => ?_
          split
          · split
            · exact tagged_twofold hscope (ih depth') .refl hx hx'
            · exact generic_twofold hscope.strict hx
          · exact generic_twofold hscope.strict hx
        | view e => cases hx
        | _ => exact twofold_of_refuse
      · cases hinlines with
        | @reference e e' name href hfind =>
          refine .of_success trivial (build_builds _ _ _) (build_builds _ _ _) ?_
          intro σ τ _ hτ s t hs ht
          obtain ⟨-, -, id, hid⟩ := build_reference href σ _ s rfl rfl (Prod.ext hs rfl)
          exact .unfolds hid hfind hτ ht
        | @inside before after tag name v v' y y' hy hposition htype hkeys =>
          have hnear : Near scope.definitions tag (before ++ (.str name, v) :: after)
              (before ++ (.str name, v') :: after) := near_inside hy hposition hkeys
          have htype' : field (before ++ (.str name, v') :: after) "type" = .str tag := by
            rw [← htype]
            have htype : "type" ∈ commonFields := by decide
            obtain ⟨hchild, hlist, hshape⟩ := not_nested_of_common tag htype
            exact hnear.field_eq hchild hlist hshape
          have htag : tags.contains tag = true := List.contains_iff_mem.2 hposition.tag_mem
          unfold build
          dsimp only [Value.entries?]
          rw [htype, htype']
          refine .after (Construct.hashable_still _) fun w hw => ?_
          subst hw
          dsimp only
          rw [htag]
          exact tagged_twofold hscope (ih depth') hnear hx hx'

end

end OfDefinition

end Assay
