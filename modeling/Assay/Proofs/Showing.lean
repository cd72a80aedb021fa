import Assay.Proofs.Mirroring

/-!
# What a definition says is shown

Each part of a strict build is told by what comes of it without a warning: the form of a tag shows
what is nested in the definition (`OfDefinition.form_quietly`), and the schema has its checks and
its message (`OfDefinition.attach_quietly`). By induction on the depth a schema mirrors its
definition (`OfDefinition.build_quietly`), so that no switch, message or check of a definition is
dropped without a word (`definition_fields_shown`), except the switch of a string format
(`Showing.format_switch_dropped`).
-/

namespace Assay

open Run Value

namespace OfDefinition

/-! ## Forms -/

section

variable {build : Value → Run (Schema Value)} {d : Entries} {tag name : String}

/-- The schema is made of a form that shows the parts of the definition. -/
def IsShown (d : Entries) (tag : String) (s : Schema Value) : Prop :=
  ∃ form, s.IsBare form ∧ FormShows d tag form

theorem child_quietly (hbuild : ∀ x, (build x).Quietly (Mirrors x)) {f : Value → Run (Schema Value)}
    {P : Schema Value → Prop} (hf : ∀ x, d.get? name = some x → ∀ t,
      (f (.schema t)).Quietly fun s => Mirrors x t → P s) :
    (child build d name >>= f).Quietly P := by
  unfold child
  split
  · next x hx =>
    rw [map_eq_pure_bind, bind_assoc]
    exact (hbuild x).bind fun t => hf x hx t
  · exact .throw

theorem child?_quietly (hbuild : ∀ x, (build x).Quietly (Mirrors x))
    {f : Value → Run (Schema Value)} {P : Schema Value → Prop} (x : Value)
    (hf : ∀ t, (f (.ofSchema? t)).Quietly fun s =>
      (x ≠ .null → ∃ u, t = some u ∧ Mirrors x u) → P s) :
    (child? build x >>= f).Quietly P := by
  unfold child?
  split
  · exact (hf none).mono fun s hs => hs fun hnull => absurd rfl hnull
  · rw [map_eq_pure_bind, bind_assoc]
    exact (hbuild x).bind fun t => (hf (some t)).mono fun s hs ht => hs fun _ => ⟨t, rfl, ht⟩

theorem children_quietly (hbuild : ∀ x, (build x).Quietly (Mirrors x)) (xs : List Value)
    {f : List Value → Run (Schema Value)} {P : Schema Value → Prop}
    (hf : ∀ ts : List (Schema Value), (f (ts.map .schema)).Quietly fun s =>
      List.Forall₂ Mirrors xs ts → P s) :
    (children build xs >>= f).Quietly P := by
  induction xs generalizing f P with
  | nil => exact (hf []).mono fun s hs => hs .nil
  | cons x xs ih =>
    unfold children
    rw [bind_assoc]
    refine (hbuild x).bind fun t => ?_
    rw [bind_assoc]
    refine ih fun ts => ?_
    exact (hf (t :: ts)).mono fun s hs hts ht => hs (.cons ht hts)

theorem shape_quietly (hbuild : ∀ x, (build x).Quietly (Mirrors x)) (es : Entries)
    {f : Entries → Run (Schema Value)} {P : Schema Value → Prop}
    (hf : ∀ ts : List (Value × Schema Value),
      (f (ts.map fun e => (e.1, .schema e.2))).Quietly fun s =>
        List.Forall₂ (fun e t => e.1 = t.1 ∧ Mirrors e.2 t.2) es ts → P s) :
    (shape build es >>= f).Quietly P := by
  induction es generalizing f P with
  | nil => exact (hf []).mono fun s hs => hs .nil
  | cons e es ih =>
    unfold shape
    rw [bind_assoc]
    refine (hbuild e.2).bind fun t => ?_
    rw [bind_assoc]
    refine ih fun ts => ?_
    exact (hf ((e.1, t) :: ts)).mono fun s hs hts ht => hs (.cons ⟨rfl, ht⟩ hts)

/-! Each form by what is nested in it. -/

/-- What counts as nothing yields nothing. -/
theorem iterate?_of_falsy {v : Value} {xs : List Value} (hfalsy : ¬ v.truthy = true)
    (h : v.iterate? = some xs) : xs = [] := by
  have hempty {α : Type} {as : List α} (hfalsy : ¬ (!as.isEmpty) = true) : as = [] := by
    simpa using hfalsy
  cases v with
  | str t =>
    cases h
    have ht : t = "" := by simpa [truthy] using hfalsy
    rw [ht]
    rfl
  | bytes data =>
    cases h
    rw [hempty hfalsy]
    rfl
  | list vs | tuple vs | set vs | frozenSet vs =>
    cases h
    exact hempty hfalsy
  | dict es | view es =>
    cases h
    rw [hempty hfalsy]
    rfl
  | cls c => exact absurd rfl hfalsy
  | _ => cases h

theorem entries?_of_falsy {v : Value} {es : Entries} (hfalsy : ¬ v.truthy = true)
    (h : v.entries? = some es) : es = [] := by
  cases v with
  | dict es' | view es' =>
    cases h
    simpa [truthy] using hfalsy
  | _ => cases h

theorem listed_quietly (d : Entries) (name : String) :
    (listed d name).Quietly fun vs => ∀ xs, (field d name).iterate? = some xs → vs = xs := by
  unfold listed
  dsimp only
  split
  · exact (Construct.items_quietly _).mono fun vs hvs xs hxs => Option.some.inj (hvs.symm.trans hxs)
  · next hfalsy => exact .pure fun xs hxs => (iterate?_of_falsy hfalsy hxs).symm

theorem enumerated_quietly (d : Entries) (tag : String) :
    (enumerated d tag).Quietly fun s => ∃ form, s.IsBare form := by
  unfold enumerated
  split
  · split
    · exact (Construct.items_quietly _).next fun _ => Construct.literal_quietly _
    · exact Construct.literal_quietly _
    · exact .refuse
  · split
    · exact .refuse
    · exact Construct.enumeration_quietly _

theorem reference_quietly (scope : Scope) (d : Entries) :
    (reference scope d).Quietly fun s => ∃ form, s.IsBare form := by
  refine (Construct.hashable_quietly _).next fun name => ?_
  split
  · exact Construct.lazy_quietly _ _
  · exact (Quietly.still (.ofOption (P := fun _ => True) fun _ _ => trivial)).next fun _ => .refuse

theorem scalar_quietly {tag : String} (htag : field d "type" = .str tag)
    (hscalar : tag = "string" ∨ tag = "number") : (scalar d tag).Quietly (IsShown d tag) := by
  have hshows {form : Form Value (Schema Value)} (hform : ¬ NamesFormat d →
      flag d "coerce" = .bool true →
        Entries.get? (describeForm form) "coerce" = some (.bool true)) : FormShows d tag form := by
    rcases hscalar with rfl | rfl <;> exact formShows_of_switch htag (by decide) hform
  have hswitch (h : flag d "coerce" = .bool true) :
      Construct.switch (flag d "coerce") = .bool true := by
    rw [h]
    rfl
  unfold scalar
  dsimp only
  split
  · split
    · next hformat =>
      refine (Construct.namedFormat_quietly _ _).mono fun s ⟨f, hs⟩ => ⟨_, hs, hshows ?_⟩
      exact fun hnot => absurd ⟨htag, hformat⟩ hnot
    · refine (Construct.make_quietly rfl).mono fun s hs => ⟨_, hs, hshows fun _ h => ?_⟩
      rw [hswitch h]
      rfl
  · split
    · refine (Construct.make_quietly rfl).mono fun s hs => ⟨_, hs, hshows fun _ h => ?_⟩
      rw [hswitch h]
      rfl
    · split
      · exact .refuse
      · refine (Construct.make_quietly rfl).mono fun s hs => ⟨_, hs, hshows fun _ h => ?_⟩
        rw [hswitch h]
        rfl

variable (hbuild : ∀ x, (build x).Quietly (Mirrors x))
include hbuild

/-- A form around one definition. -/
theorem around_quietly (htag : field d "type" = .str tag) {f : Value → Run (Schema Value)}
    (form : Schema Value → Form Value (Schema Value))
    (hf : ∀ t, f (.schema t) = Construct.make (form t) {}) {kind : String}
    (hkind : ∀ t, (form t).tag? = some kind) (hcoerce : "coerce" ∉ ownFields tag)
    (hnests : NestsIn tag [name])
    (hshown : ∀ t, Entries.get? (describeForm (form t)) name = some t.describe) :
    (child build d name >>= f).Quietly (IsShown d tag) := by
  refine child_quietly hbuild fun x hx t => ?_
  rw [hf]
  refine (Construct.make_quietly (hkind t)).mono fun s hs ht =>
    ⟨_, hs, fun h => absurd h hcoerce, ?_⟩
  refine nested_of_fields htag hnests fun other hother y hy => ?_
  obtain rfl := List.mem_singleton.1 hother
  cases hx.symm.trans hy
  exact ⟨t, ht, hshown t⟩

/-- A form around two definitions. -/
theorem between_quietly {name' : String} (htag : field d "type" = .str tag)
    {f : Value → Value → Run (Schema Value)}
    (form : Schema Value → Schema Value → Form Value (Schema Value))
    (hf : ∀ t u, f (.schema t) (.schema u) = Construct.make (form t u) {}) {kind : String}
    (hkind : ∀ t u, (form t u).tag? = some kind) (hcoerce : "coerce" ∉ ownFields tag)
    (hnests : NestsIn tag [name, name'])
    (hshown : ∀ t u, Entries.get? (describeForm (form t u)) name = some t.describe)
    (hshown' : ∀ t u, Entries.get? (describeForm (form t u)) name' = some u.describe) :
    (child build d name >>= fun v => child build d name' >>= f v).Quietly (IsShown d tag) := by
  refine child_quietly hbuild fun x hx t => child_quietly hbuild fun y hy u => ?_
  rw [hf]
  refine (Construct.make_quietly (hkind t u)).mono fun s hs hu ht =>
    ⟨_, hs, fun h => absurd h hcoerce, ?_⟩
  refine nested_of_fields htag hnests fun other hother z hz => ?_
  simp only [List.mem_cons, List.not_mem_nil, or_false] at hother
  rcases hother with rfl | rfl
  · cases hx.symm.trans hz
    exact ⟨t, ht, hshown t u⟩
  · cases hy.symm.trans hz
    exact ⟨u, hu, hshown' t u⟩

theorem object_quietly (htag : field d "type" = .str "object") :
    (object build d).Quietly (IsShown d "object") := by
  unfold object
  dsimp only
  split
  · exact .refuse
  · next es hes =>
    refine shape_quietly hbuild es fun ts => child?_quietly hbuild _ fun catchall => ?_
    cases hpolicy : ((d.get? "unknown_keys").getD (.str "strip")).str?.bind UnknownKeys.ofName? with
    | none =>
      unfold Construct.object
      rw [hpolicy]
      exact .refuse
    | some policy =>
      rw [Construct.object_eq hpolicy]
      refine (Construct.make_quietly rfl).mono fun s hs hcatchall hts => ⟨_, hs, ?_⟩
      refine ⟨fun h => absurd h (by decide), nested_of_parts htag ?_ nofun fun _ es' hes' => ?_⟩
      · intro name hname x hx hnull
        obtain rfl := List.mem_singleton.1 hname
        have hfield : field d "catchall" = x := by rw [field, hx, Option.getD_some]
        obtain ⟨t, rfl, ht⟩ := hcatchall (hfield ▸ hnull)
        exact ⟨t, hfield ▸ ht, rfl⟩
      · refine ⟨ts, ?_, rfl⟩
        obtain rfl : es' = es := by
          split at hes
          · exact Option.some.inj (hes'.symm.trans hes)
          · next hfalsy => exact (entries?_of_falsy hfalsy hes').trans (Option.some.inj hes)
        exact hts

theorem tuple_quietly (htag : field d "type" = .str "tuple") (scope : Scope) :
    (form build scope d "tuple").Quietly (IsShown d "tuple") := by
  refine (listed_quietly d "items").bind fun xs => children_quietly hbuild xs fun ts =>
    child?_quietly hbuild _ fun rest => ?_
  rw [Construct.tuple_eq]
  refine (Construct.make_quietly rfl).mono fun s hs hrest hts hxs => ⟨_, hs, ?_⟩
  refine ⟨fun h => absurd h (by decide), nested_of_parts htag ?_ ?_ nofun⟩
  · intro name hname x hx hnull
    obtain rfl := List.mem_singleton.1 hname
    have hfield : field d "rest" = x := by rw [field, hx, Option.getD_some]
    obtain ⟨t, rfl, ht⟩ := hrest (hfield ▸ hnull)
    exact ⟨t, hfield ▸ ht, rfl⟩
  · intro name hname ys hys
    obtain rfl := List.mem_singleton.1 hname
    refine ⟨ts, hxs ys hys ▸ hts, ?_⟩
    rw [← describeAll_eq_map]
    rfl

theorem union_quietly (htag : field d "type" = .str "union") :
    (union build d).Quietly (IsShown d "union") := by
  have hshown {xs : List Value} {ts : List (Schema Value)} {form : Form Value (Schema Value)}
      (hxs : ∀ ys, (field d "options").iterate? = some ys → xs = ys)
      (hts : List.Forall₂ Mirrors xs ts)
      (hform : Entries.get? (describeForm form) "options" = some (.list (describeAll ts))) :
      FormShows d "union" form := by
    refine ⟨fun h => absurd h (by decide), nested_of_parts htag nofun ?_ nofun⟩
    intro name hname ys hys
    obtain rfl := List.mem_singleton.1 hname
    exact ⟨ts, hxs ys hys ▸ hts, by rw [hform, describeAll_eq_map]⟩
  refine (listed_quietly d "options").bind fun xs => children_quietly hbuild xs fun ts => ?_
  dsimp only
  by_cases hts : ts = []
  · subst hts
    split
    · exact .refuse
    · exact .refuse
  split
  · rw [Construct.discriminatedUnion_eq hts]
    refine (Construct.tableFrom_quietly _ _ _ _).next fun table => ?_
    exact (Construct.make_quietly rfl).mono fun s hs hts hxs => ⟨_, hs, hshown hxs hts rfl⟩
  · rw [Construct.union_eq hts]
    exact (Construct.make_quietly rfl).mono fun s hs hts hxs => ⟨_, hs, hshown hxs hts rfl⟩

/-- Every form shows what is nested in the definition. -/
theorem form_quietly (scope : Scope) {tag : String} (htag : field d "type" = .str tag) :
    (form build scope d tag).Quietly (IsShown d tag) := by
  have hleaf {k : String} {x : Run (Schema Value)} (htag : field d "type" = .str k)
      (hx : x.Quietly fun s => ∃ form, s.IsBare form) (hcoerce : "coerce" ∉ ownFields k)
      (hnests : NestsIn k []) : x.Quietly (IsShown d k) :=
    hx.mono fun s ⟨form, hs⟩ => ⟨form, hs, formShows_of_leaf htag hcoerce hnests⟩
  have hmake {form : Form Value (Schema Value)} {k : String} (hkind : form.tag? = some k) :
      (Construct.make form {}).Quietly fun s => ∃ form, s.IsBare form :=
    (Construct.make_quietly hkind).mono fun s hs => ⟨form, hs⟩
  have hswitch {f : Value → Form Value (Schema Value)} {k : String}
      (htag : field d "type" = .str k) (hkind : ∀ c, (f c).tag? = some k) (hnests : NestsIn k [])
      (hshown : Entries.get? (describeForm (f (.bool true))) "coerce" = some (.bool true)) :
      (Construct.make (f (Construct.switch (flag d "coerce"))) {}).Quietly (IsShown d k) := by
    refine (Construct.make_quietly (hkind _)).mono fun s hs => ⟨_, hs, ?_⟩
    refine formShows_of_switch htag hnests fun _ h => ?_
    rw [h]
    exact hshown
  unfold form
  dsimp only
  split
  · exact scalar_quietly htag (.inl rfl)
  · exact scalar_quietly htag (.inr rfl)
  · exact hswitch htag (fun _ => rfl) (by decide) rfl
  · exact hswitch htag (fun _ => rfl) (by decide) rfl
  · exact hleaf htag (hmake rfl) (by decide) (by decide)
  · exact hleaf htag (hmake rfl) (by decide) (by decide)
  · exact hleaf htag (hmake rfl) (by decide) (by decide)
  · exact hleaf htag (hmake rfl) (by decide) (by decide)
  · exact hleaf htag (enumerated_quietly d _) (by decide) (by decide)
  · exact hleaf htag (enumerated_quietly d _) (by decide) (by decide)
  · exact object_quietly hbuild htag
  · exact around_quietly hbuild htag .array (fun _ => rfl) (fun _ => rfl) (by decide)
      (by decide) fun _ => rfl
  · exact tuple_quietly hbuild htag scope
  · exact between_quietly hbuild htag .record (fun _ _ => rfl) (fun _ _ => rfl) (by decide)
      (by decide) (fun _ _ => rfl) fun _ _ => rfl
  · exact between_quietly hbuild htag .map (fun _ _ => rfl) (fun _ _ => rfl) (by decide)
      (by decide) (fun _ _ => rfl) fun _ _ => rfl
  · exact around_quietly hbuild htag .set (fun _ => rfl) (fun _ => rfl) (by decide)
      (by decide) fun _ => rfl
  · exact union_quietly hbuild htag
  · exact between_quietly hbuild htag .intersection (fun _ _ => rfl) (fun _ _ => rfl) (by decide)
      (by decide) (fun _ _ => rfl) fun _ _ => rfl
  · exact around_quietly hbuild htag .optional (fun _ => rfl) (fun _ => rfl) (by decide)
      (by decide) fun _ => rfl
  · exact around_quietly hbuild htag .nullable (fun _ => rfl) (fun _ => rfl) (by decide)
      (by decide) fun _ => rfl
  · exact around_quietly hbuild htag .readonly (fun _ => rfl) (fun _ => rfl) (by decide)
      (by decide) fun _ => rfl
  · exact around_quietly hbuild htag .promise (fun _ => rfl) (fun _ => rfl) (by decide)
      (by decide) fun _ => rfl
  · exact around_quietly hbuild htag (.default · (field d "default_value")) (fun _ => rfl)
      (fun _ => rfl) (by decide) (by decide) fun _ => rfl
  · exact around_quietly hbuild htag (.prefault · (field d "default_value")) (fun _ => rfl)
      (fun _ => rfl) (by decide) (by decide) fun _ => rfl
  · exact around_quietly hbuild htag (.catching · (field d "catch_value")) (fun _ => rfl)
      (fun _ => rfl) (by decide) (by decide) fun _ => rfl
  · exact between_quietly hbuild htag .pipe (fun _ _ => rfl) (fun _ _ => rfl) (by decide)
      (by decide) (fun _ _ => rfl) fun _ _ => rfl
  · exact hleaf htag (reference_quietly scope d) (by decide) (by decide)
  · exact hleaf htag (reference_quietly scope d) (by decide) (by decide)
  · exact .refuse

end

/-! ## Schemas -/

/-- The checks of a strict build are those that are listed. -/
theorem checksOf_quietly (d : Entries) : (checksOf true d).Quietly fun cs =>
    ∀ vs, (field d "checks").iterate? = some vs →
      List.Forall₂ (fun v c => Renders v c.plain) vs cs := by
  unfold checksOf
  dsimp only
  split
  · refine (Construct.items_quietly _).bind fun vs => (checks_quietly vs).mono ?_
    intro cs hcs hvs ws hws
    exact Option.some.inj (hvs.symm.trans hws) ▸ hcs
  · next hfalsy =>
    rw [pure_bind]
    refine (checks_quietly []).mono fun cs hcs ws hws => ?_
    rw [iterate?_of_falsy hfalsy hws]
    exact hcs

/-- The schema has the form and the further fields of another one. -/
structure HasForm (s t : Schema Value) : Prop where
  form : t.form = s.form
  kind : t.kind = s.kind
  extra : t.extra = s.extra

theorem withError_quietly (d : Entries) (s : Schema Value) :
    (withError (field d "error") s).Quietly fun t => HasForm s t ∧ t.checks = s.checks ∧
      ∀ e, d.get? "error" = some (.str e) → t.error = .str e := by
  unfold withError field
  split
  · next e he =>
    refine Quietly.freshRef.next fun id => .pure ⟨⟨rfl, rfl, rfl⟩, rfl, fun e' he' => ?_⟩
    rw [he', Option.getD_some] at he
    exact he.symm
  · next hother =>
    refine .pure ⟨⟨rfl, rfl, rfl⟩, rfl, fun e he => absurd ?_ (hother e)⟩
    rw [he, Option.getD_some]

/-- A schema without checks is given those of its definition, and the message. -/
theorem attach_quietly {scope : Scope} (hstrict : scope.strict = true) (d : Entries)
    (s : Schema Value) : (attach scope d s).Quietly fun t =>
      HasForm s t ∧ (s.checks = [] → HasShared d t) := by
  rw [attach_eq, hstrict]
  refine (checksOf_quietly d).bind fun checks => ?_
  split
  · next hempty =>
    obtain rfl : checks = [] := by simpa using hempty
    refine (withError_quietly d s).mono ?_
    rintro t ⟨hform, hkept, herror⟩ hchecks
    exact ⟨hform, fun hnone => ⟨herror, (hkept.trans hnone).symm ▸ hchecks⟩⟩
  · refine Quietly.freshRef.next fun id => (withError_quietly d _).mono ?_
    rintro t ⟨hform, hkept, herror⟩ hchecks
    refine ⟨⟨hform.form, hform.kind, hform.extra⟩, fun hnone => ⟨herror, ?_⟩⟩
    rw [hkept, hnone]
    exact hchecks

theorem make_generic_quietly (checks : List Value) (error : Value) (kind : String)
    (extra : List (String × Value)) :
    (Construct.make .generic ⟨.list checks, error, ("kind", .str kind) :: extra⟩).Quietly
      fun s => (∀ f ∈ extra, f.1 ≠ "kind" ∧ f.1 ≠ "type") →
        ∃ id, s = ⟨id, .str kind, .generic, extra, checks, error⟩ := by
  unfold Construct.make
  refine (Construct.items_quietly _).bind fun cs => ?_
  dsimp only
  split
  · exact .refuse
  · next tag htag =>
    refine Quietly.freshRef.next fun id => .pure fun hcs hextra => ⟨id, ?_⟩
    cases hcs
    have htype : List.lookup "type" (("kind", .str kind) :: extra) = none := by
      rw [List.lookup_cons, show ("type" == "kind") = false from rfl, List.lookup_eq_none_iff]
      exact fun f hf => bne_iff_ne.2 (hextra f hf).2.symm
    have hkind : List.lookup "kind" (("kind", .str kind) :: extra) = some (.str kind) := by
      rw [List.lookup_cons]
      rfl
    have hfilter : (("kind", .str kind) :: extra).filter
        (fun f => f.1 != "kind" && f.1 != "type") = extra := by
      rw [List.filter_cons, if_neg (by simp), List.filter_eq_self]
      intro f hf
      simpa using hextra f hf
    rw [htype, hfilter]
    rw [hkind, Option.filter_some] at htag
    split at htag
    · cases htag
      rfl
    · cases htag

/-- The further fields are given by name. -/
theorem further_quietly {d : Entries} {f : Value × Value → Run (String × Value)}
    (hf : ∀ e, (f e).Quietly fun g => e = (.str g.1, g.2) ∧ g.1 ≠ "kind") :
    ((d.filter fun e => !(e.1.str?.any commonFields.contains)).mapM f).Quietly
      (IsFurther d) := by
  refine (Quietly.mapM hf _).mono fun extra hextra => ?_
  generalize hfields : (d.filter fun e => !(e.1.str?.any commonFields.contains)) = fields at hextra
  refine ⟨hfields.trans ?_, ?_⟩
  · clear hfields
    induction hextra with
    | nil => rfl
    | cons h _ ih => rw [List.map_cons, ← h.1, ← ih]
  · clear hfields
    induction hextra with
    | nil => nofun
    | cons h _ ih => exact List.forall_mem_cons.2 ⟨h.2, ih⟩

theorem generic_quietly {scope : Scope} (hstrict : scope.strict = true) {v : Value} {d : Entries}
    (hv : v.entries? = some d) (hkind : ∀ tag ∈ tags, field d "type" ≠ .str tag) :
    (generic scope d).Quietly (Mirrors v) := by
  have hleaf (step : Step) (x : Value) : ¬ Nests d step x := by
    intro hnests
    obtain ⟨tag, hmem, htag⟩ := hnests.tag_mem
    exact hkind tag hmem htag
  have hmake {f : Value × Value → Run (String × Value)} (kind : String)
      (hf : ∀ e, (f e).Quietly fun g => e = (.str g.1, g.2) ∧ g.1 ≠ "kind") :
      (checksOf scope.strict d >>= fun checks =>
        (d.filter fun e => !(e.1.str?.any commonFields.contains)).mapM f >>= fun extra =>
          Construct.make .generic
            ⟨.list checks, field d "error", ("kind", .str kind) :: extra⟩).Quietly (Mirrors v) := by
    rw [hstrict]
    refine (checksOf_quietly d).bind fun checks => (further_quietly hf).bind fun extra => ?_
    refine (make_generic_quietly checks (field d "error") kind extra).mono ?_
    intro s hs hextra hchecks
    obtain ⟨id, rfl⟩ := hs fun f hf =>
      ⟨hextra.kind f hf, fun htype => hextra.not_common hf (htype ▸ by decide)⟩
    refine mirrors_of_further hv hleaf hextra ⟨fun e he => ?_, hchecks⟩ ⟨rfl, rfl, rfl⟩
    show field d "error" = _
    rw [field, he, Option.getD_some]
  unfold generic
  dsimp only
  split
  · next kind hfield =>
    rw [hfield]
    refine .reading fun σ => ?_
    split
    on_goal 1 => refine (Quietly.refuse (P := fun _ => True)).next fun _ => ?_
    all_goals
      refine hmake kind fun e => ?_
      split
      · exact .throw
      · exact .throw
      · next name hkind _ hname =>
        exact .pure ⟨Prod.ext hname rfl, hkind⟩
      · exact .throw
  · exact .refuse

/-! ## Definitions -/

/-- A strict build without a warning mirrors the definition. -/
theorem build_quietly {scope : Scope} (hstrict : scope.strict = true) (depth : Nat) (v : Value) :
    (build scope depth v).Quietly (Mirrors v) := by
  induction depth generalizing v with
  | zero =>
    unfold build
    split
    · exact .refuse
    · exact .throw
  | succ depth ih =>
    unfold build
    split
    · exact .refuse
    · next d hd =>
      unfold Construct.hashable
      split
      · rw [pure_bind]
        split
        · next tag htag =>
          split
          · refine (warnUnknown_quietly d tag).bind fun _ =>
              (form_quietly ih scope htag).bind fun s => (attach_quietly hstrict d s).mono ?_
            rintro t ⟨hkept, hshared⟩ ⟨form, ⟨id, kind, rfl⟩, hform⟩ hknows
            exact mirrors_of_form hd hknows (hkept.form ▸ hform) (hshared rfl) hkept.kind
              hkept.extra
          · next hunknown =>
            refine generic_quietly hstrict hd fun other hmem hother => hunknown ?_
            cases htag.symm.trans hother
            exact List.contains_iff_mem.2 hmem
        · next hother => exact generic_quietly hstrict hd fun tag _ htag => hother tag htag
      · exact .throw

theorem createSchema_quietly (c : Entries) :
    (createSchema c true).Quietly (Mirrors (.dict (mainOf c))) := by
  obtain ⟨line, heq⟩ := createSchema_eq c true
  rw [heq]
  split
  · exact .refuse
  · refine (Quietly.logLine _ _).next fun _ => Quietly.freshRef.next fun id => ?_
    exact .changing (fun _ => rfl) (build_quietly rfl _ _)

end OfDefinition

open OfDefinition

/-- A strict build drops no field without a word: if it does not warn, then at every place of the
definition the description of the schema shows the switch, the message, and the checks in their
order, each as it is built. The switch of a string format is not shown. Without a tag and with a
name a definition is a reference as a whole. -/
theorem definition_fields_shown {definition : Value} {c d : Entries} {σ τ : Session}
    {s : Schema Value} {path : List Step} (hc : ClassRef.toDict definition = .ok (.dict c))
    (hbuilt : (buildSchema definition true).exec σ = (.ok s, τ))
    (hquiet : τ.ignorings = σ.ignorings)
    (hroot : c.get? "type" = none → field c "name" = .null)
    (hnode : NodeAt (.dict c) path d) (hdistinct : d.Distinct) :
    ∃ r, s.describe.at? path = some (.dict r) ∧ Shows d r := by
  have hcreated : (createSchema c true).exec σ = (.ok s, τ) := by
    unfold buildSchema at hbuilt
    rw [hc] at hbuilt
    exact createSchema_of_buildSchema hbuilt
  obtain ⟨-, hmirrors⟩ := createSchema_quietly c σ
  unfold answer at hmirrors
  rw [hcreated] at hmirrors
  exact (hmirrors s rfl hquiet).of_main hroot path d hnode hdistinct

namespace Showing

/-- The definition of a size, which is read from a text too. -/
def size : Entries :=
  [(.str "type", .str "number"), (.str "coerce", .bool true), (.str "error", .str "no size")]

/-- The definition of a list of sizes that is not empty. -/
def sizes : Entries :=
  [(.str "type", .str "array"), (.str "element", .dict size),
    (.str "checks", .list [.dict [(.str "check", .str "min_length"), (.str "minimum", .int 1)]])]

def sizesSchema : Schema Value :=
  ⟨25, .str "array", .array ⟨4, .str "number", .number (.bool true), [], [], .str "no size"⟩, [],
    [.check ⟨16, .atLeast .length 1, .null, .bool false⟩], .null⟩

/-- The session in which one schema of a kind was created. -/
def sessionAfter (kind : String) (next : Nat) : Session :=
  { nextRef := next
    log := ["INFO: Creating schema: " ++ kind]
    definitionSets := [(0, ⟨[], true, []⟩)] }

theorem sizes_built :
    (buildSchema (.dict sizes) true).exec {} = (.ok sizesSchema, sessionAfter "array" 6) := rfl

theorem sessionAfter_quiet (kind : String) (next : Nat) :
    (sessionAfter kind next).ignorings = 0 := by
  simp [sessionAfter, Session.ignorings, warnsOfFields, List.isPrefixOf]

/-- The check of the list is shown, and so are the switch and the message of the size in it. -/
theorem definition_fields_shown_sizes :
    (∃ r, sizesSchema.describe.at? [] = some (.dict r) ∧ Shows sizes r) ∧
      ∃ r, sizesSchema.describe.at? [.field "element"] = some (.dict r) ∧ Shows size r := by
  have hquiet := sessionAfter_quiet "array" 6
  have hnests : Nests sizes (.field "element") (.dict size) := .child rfl (by decide) rfl
  exact ⟨definition_fields_shown rfl sizes_built hquiet nofun (.here rfl) (by decide),
    definition_fields_shown rfl sizes_built hquiet nofun (.into rfl hnests (.here rfl)) (by decide)⟩

/-- The definition of e-mail addresses, which are read from other values too. -/
def address : Entries :=
  [(.str "type", .str "string"), (.str "format", .str "email"), (.str "coerce", .bool true)]

/-- A string knows the switch, so nothing is said about it, but a format does not keep it. -/
theorem format_switch_dropped : ∃ s τ r,
    (buildSchema (.dict address) true).exec {} = (.ok s, τ) ∧
      τ.ignorings = ({} : Session).ignorings ∧ NodeAt (.dict address) [] address ∧
      address.get? "coerce" = some (.bool true) ∧ s.describe.at? [] = some (.dict r) ∧
      Entries.get? r "coerce" = none :=
  ⟨⟨1, .str "string", .format .email .null (.bool false), [], [], .null⟩, sessionAfter "string" 2,
    _, rfl, sessionAfter_quiet _ _, .here rfl, rfl, rfl, rfl⟩

end Showing

end Assay
