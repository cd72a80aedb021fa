import Assay.Proofs.Discrimination
import Assay.Proofs.Likeness
import Assay.Proofs.Rebuilding
import Assay.Proofs.StockFunctions

/-!
# Round trips through descriptions

From the description of a data-only schema a schema is built that is alike: it differs in numbers
only (`buildSchema_describe`). So it has the same description, and every value parses alike against
both (`definition_round_trip`).
-/

namespace Assay

open Run Value

/-! ## Parts -/

namespace OfDefinition

variable {build : Value → Run (Schema Value)} {d : Entries} {name : String}

/-- The description of the schema is built to a schema that is alike. -/
abbrev Rebuilds (build : Value → Run (Schema Value)) (s : Schema Value) : Prop :=
  (build s.describe).Yields s.Alike

theorem child_yields {s : Schema Value} (h : d.get? name = some s.describe)
    (hs : Rebuilds build s) :
    (child build d name).Yields fun v => ∃ t, v = .schema t ∧ s.Alike t := by
  unfold child
  rw [h]
  exact hs.map fun t ht => ⟨t, rfl, ht⟩

theorem child?_yields {s : Option (Schema Value)} (hdata : ∀ t ∈ s.toList, t.IsData)
    (hs : ∀ t ∈ s.toList, Rebuilds build t) :
    (child? build ((Entries.get? (describeOption name s) name).getD .null)).Yields fun v =>
      ∃ t, v = .ofSchema? t ∧ Schema.unnumberedOption t = Schema.unnumberedOption s := by
  cases s with
  | none => exact .pure ⟨none, rfl, rfl⟩
  | some s =>
    have hfield : (Entries.get? (describeOption name (some s)) name).getD .null = s.describe := by
      rw [describeOption, Entries.get?_cons, if_pos rfl]
      rfl
    have hbuild : (Value.schema <$> build s.describe).Yields fun v =>
        ∃ t, v = .ofSchema? t ∧ Schema.unnumberedOption t = Schema.unnumberedOption (some s) :=
      (hs s (by simp)).map fun t ht => ⟨some t, rfl, congrArg some (Eq.symm ht)⟩
    have hdescribe := (hdata s (by simp)).describe_eq
    rw [hfield]
    unfold child?
    rw [hdescribe] at hbuild ⊢
    exact hbuild

theorem children_yields {ss : List (Schema Value)} (hs : ∀ t ∈ ss, Rebuilds build t) :
    (children build (ss.map Schema.describe)).Yields fun vs =>
      ∃ ts : List (Schema Value), vs = ts.map .schema ∧
        ts.map Schema.unnumbered = ss.map Schema.unnumbered := by
  induction ss with
  | nil => exact .pure ⟨[], rfl, rfl⟩
  | cons s ss ih =>
    obtain ⟨hs, hss⟩ := List.forall_mem_cons.1 hs
    refine Yields.bind hs fun t ht => (ih hss).bind fun vs ⟨ts, hvs, hts⟩ => .pure ?_
    exact ⟨t :: ts, hvs ▸ rfl, by rw [List.map_cons, List.map_cons, hts, ht]⟩

theorem shape_yields {es : List (Value × Schema Value)} (hs : ∀ t ∈ es.map (·.2), Rebuilds build t) :
    (shape build (es.map fun e => (e.1, e.2.describe))).Yields fun fs =>
      ∃ es' : List (Value × Schema Value), fs = es'.map (fun e => (e.1, .schema e.2)) ∧
        Schema.unnumberedShape es' = Schema.unnumberedShape es := by
  induction es with
  | nil => exact .pure ⟨[], rfl, rfl⟩
  | cons e es ih =>
    obtain ⟨hs, hes⟩ := List.forall_mem_cons.1 hs
    refine Yields.bind hs fun t ht => (ih hes).bind fun fs ⟨es', hfs, hes'⟩ => .pure ?_
    refine ⟨(e.1, t) :: es', hfs ▸ rfl, ?_⟩
    rw [Schema.unnumberedShape, Schema.unnumberedShape, hes', ht]

/-- A field with a list, which is not shown as anything else. -/
theorem listed_yields {vs : List Value} (h : d.get? name = some (.list vs)) :
    (listed d name).Yields (· = vs) := by
  unfold listed
  rw [field_eq h]
  cases vs with
  | nil => exact .pure rfl
  | cons v vs => exact .pure rfl

end OfDefinition

/-! ## Constructors -/

namespace Construct

theorem shapeOf_eq (es : List (Value × Schema Value)) :
    shapeOf (es.map fun e => (e.1, .schema e.2)) = pure es := by
  induction es with
  | nil => rfl
  | cons e es ih =>
    rw [List.map_cons, shapeOf, ih]
    rfl

theorem positions_eq (index : Nat) (ss : List (Schema Value)) :
    positions index (ss.map .schema) = pure ss := by
  induction ss generalizing index with
  | nil => rfl
  | cons s ss ih =>
    rw [List.map_cons, positions, ih]
    rfl

theorem optionsFrom_eq (index : Nat) (ss : List (Schema Value)) :
    optionsFrom index (ss.map .schema) = pure ss := by
  induction ss generalizing index with
  | nil => rfl
  | cons s ss ih =>
    rw [List.map_cons]
    unfold optionsFrom
    rw [ih]
    rfl

theorem optionsOf_eq {ss : List (Schema Value)} (h : ss ≠ []) :
    optionsOf (.list (ss.map .schema)) = pure ss := by
  have hempty : (ss.map Value.schema).isEmpty = false := by
    cases ss with
    | nil => exact absurd rfl h
    | cons s ss => rfl
  show (if (ss.map Value.schema).isEmpty then refuse .unionEmpty else optionsFrom 0 _) = _
  rw [hempty, optionsFrom_eq]
  rfl

theorem schemaAt?_eq (place : String) (s : Option (Schema Value)) :
    schemaAt? place (.ofSchema? s) = pure s := by
  cases s <;> rfl

theorem object_eq {policy : Value} {p : UnknownKeys}
    (h : policy.str?.bind UnknownKeys.ofName? = some p) (shape : List (Value × Schema Value))
    (catchall : Option (Schema Value)) (shared : Shared) :
    object (.dict (shape.map fun e => (e.1, .schema e.2))) policy (.ofSchema? catchall) shared =
      make (.object shape p catchall) shared := by
  unfold object
  rw [h]
  show shapeOf (shape.map fun e => (e.1, .schema e.2)) >>= _ = _
  rw [shapeOf_eq, pure_bind, schemaAt?_eq, pure_bind]

theorem tuple_eq (ss : List (Schema Value)) (rest : Option (Schema Value)) :
    tuple (.list (ss.map .schema)) (.ofSchema? rest) {} = make (.tuple ss rest) {} := by
  show positions 0 (ss.map .schema) >>= _ = _
  rw [positions_eq, pure_bind, schemaAt?_eq, pure_bind]

theorem union_eq {ss : List (Schema Value)} (h : ss ≠ []) :
    union (.list (ss.map .schema)) {} = make (.union ss) {} := by
  unfold union
  rw [optionsOf_eq h, pure_bind]

theorem discriminatedUnion_eq {ss : List (Schema Value)} (h : ss ≠ []) (d : Value) :
    discriminatedUnion d (.list (ss.map .schema)) {} =
      tableFrom d 0 ss [] >>= fun table => make (.discriminatedUnion ss d table) {} := by
  unfold discriminatedUnion
  rw [optionsOf_eq h, pure_bind]
  rfl

end Construct

/-! ## Forms -/

namespace OfDefinition

variable {build : Value → Run (Schema Value)} {s : Schema Value} {tag : String}

/-- The schema has the form that a data-only schema has, but for numbers, and nothing else. -/
def IsBareOf (s t : Schema Value) : Prop :=
  ∃ id form, t = ⟨id, s.kind, form, [], [], .null⟩ ∧ form.unnumbered = s.form.unnumbered

theorem make_isBareOf (form : Form Value (Schema Value)) (htag : s.kind = .str tag)
    (hform : form.tag? = some tag) (h : form.unnumbered = s.form.unnumbered) :
    (Construct.make form {}).Yields (IsBareOf s) :=
  (Construct.make_yields form hform [] .null).mono fun _ ⟨id, ht⟩ => ⟨id, form, htag ▸ ht, h⟩

/-- A switch is made of its field as it was. -/
theorem switch_flag {d : Entries} {coerce : Value} (h : field d "coerce" = coerce)
    (hcoerce : coerce.IsSwitch) : Construct.switch (flag d "coerce") = coerce := by
  unfold flag
  rw [h]
  obtain rfl | rfl := hcoerce <;> rfl

/-- A form around one part. -/
theorem around_isBareOf (name : String) {t : Schema Value} {f : Value → Run (Schema Value)}
    (form : Schema Value → Form Value (Schema Value)) (hcase : s.form = form t)
    (hkind : s.kind = .str tag) (hname : name ∉ ["type", "checks", "error", "check"])
    (hshown : Entries.get? (describeForm (form t)) name = some t.describe)
    (ht : Rebuilds build t) (hf : ∀ t', f (.schema t') = Construct.make (form t') {})
    (htag : ∀ t', (form t').tag? = some tag)
    (hform : ∀ t', t'.unnumbered = t.unnumbered →
      (form t').unnumbered = (form t).unnumbered) :
    (child build s.described name >>= f).Yields (IsBareOf s) := by
  have hfield : s.described.get? name = some t.describe := by
    rw [s.described_form hname, hcase, hshown]
  refine Yields.bind (child_yields hfield ht) ?_
  rintro _ ⟨t', rfl, ht'⟩
  rw [hf]
  exact make_isBareOf _ hkind (htag t') ((hform t' ht'.symm).trans (congrArg _ hcase.symm))

/-- A form around two parts. -/
theorem between_isBareOf {name name' : String} {t u : Schema Value}
    {f : Value → Value → Run (Schema Value)}
    (form : Schema Value → Schema Value → Form Value (Schema Value)) (hcase : s.form = form t u)
    (hkind : s.kind = .str tag) (hname : name ∉ ["type", "checks", "error", "check"])
    (hname' : name' ∉ ["type", "checks", "error", "check"])
    (hshown : Entries.get? (describeForm (form t u)) name = some t.describe)
    (hshown' : Entries.get? (describeForm (form t u)) name' = some u.describe)
    (ht : Rebuilds build t) (hu : Rebuilds build u)
    (hf : ∀ t' u', f (.schema t') (.schema u') = Construct.make (form t' u') {})
    (htag : ∀ t' u', (form t' u').tag? = some tag)
    (hform : ∀ t' u', t'.unnumbered = t.unnumbered → u'.unnumbered = u.unnumbered →
      (form t' u').unnumbered = (form t u).unnumbered) :
    (child build s.described name >>= fun v =>
      child build s.described name' >>= f v).Yields (IsBareOf s) := by
  have hfield : s.described.get? name = some t.describe := by
    rw [s.described_form hname, hcase, hshown]
  have hfield' : s.described.get? name' = some u.describe := by
    rw [s.described_form hname', hcase, hshown']
  refine Yields.bind (child_yields hfield ht) ?_
  rintro _ ⟨t', rfl, ht'⟩
  refine Yields.bind (child_yields hfield' hu) ?_
  rintro _ ⟨u', rfl, hu'⟩
  rw [hf]
  exact make_isBareOf _ hkind (htag t' u')
    ((hform t' u' ht'.symm hu'.symm).trans (congrArg _ hcase.symm))

/-- The switch of a form that has nothing else is found in the description of its schema. -/
theorem switch_described {coerce : Value}
    (hfields : describeForm s.form = shownField "coerce" coerce coerce.plain)
    (hcoerce : coerce.IsSwitch) : Construct.switch (flag s.described "coerce") = coerce := by
  refine switch_flag ?_ hcoerce
  rw [field, s.described_form (by decide), hfields]
  exact field_shownField hcoerce.isJson (by decide)

/-- A form that has a switch only does not name a format. -/
theorem format_described {coerce : Value}
    (hfields : describeForm s.form = shownField "coerce" coerce coerce.plain) :
    field s.described "format" = .null := by
  rw [field, s.described_form (by decide), hfields, Entries.get?_shownField_of_ne (by decide)]
  rfl

theorem format_yields {f : StringFormat} {b : Bool} (hcase : s.form = .format f .null (.bool b))
    (hkind : s.kind = .str "string") : (scalar s.described "string").Yields (IsBareOf s) := by
  have hformat : field s.described "format" = .str f.name := by
    rw [field, s.described_form (by decide), hcase]
    rfl
  have htruthy : (Value.str f.name).truthy = true := by cases f <;> decide
  unfold scalar
  rw [hformat]
  dsimp only
  rw [if_pos htruthy, flag_abort (.inl ⟨f, rfl⟩) (.inl rfl) hcase]
  refine (Construct.namedFormat_yields f _ [] .null).mono ?_
  rintro t ⟨id, ht⟩
  exact ⟨id, _, hkind ▸ ht, hcase ▸ rfl⟩

theorem integer_yields {coerce : Value} {b : Bool} (hcase : s.form = .integer coerce (.bool b))
    (hcoerce : coerce.IsSwitch) (hkind : s.kind = .str "number") :
    (scalar s.described "number").Yields (IsBareOf s) := by
  have hfield : field s.described "coerce" = coerce := by
    rw [field, s.described_form (by decide), hcase, describeForm, Entries.get?_append,
      Entries.get?_cons, if_neg (by decide),
      Entries.get?_shownField_of_ne (show "abort" ≠ "coerce" by decide), Option.or_none]
    exact field_shownField hcoerce.isJson (by decide)
  have hformat : field s.described "format" = .str "int" := by
    rw [field, s.described_form (by decide), hcase, describeForm, Entries.get?_append,
      Entries.get?_cons, if_pos rfl, Entries.get?_shownField_of_ne (by decide)]
    rfl
  have hmake := make_isBareOf (.integer coerce (.bool b)) hkind rfl (hcase ▸ rfl)
  rw [← switch_flag hfield hcoerce, ← flag_abort (.inr rfl) hcoerce hcase] at hmake
  unfold scalar
  rw [hformat]
  exact hmake

theorem object_yields {shape : List (Value × Schema Value)} {policy : UnknownKeys}
    {catchall : Option (Schema Value)} (hs : s.IsData) (hcase : s.form = .object shape policy catchall)
    (hkind : s.kind = .str "object") (hparts : ∀ t ∈ s.form.parts, Rebuilds build t) :
    (object build s.described).Yields (IsBareOf s) := by
  have hfield {name : String} (hname : name ∉ ["type", "checks", "error", "check"]) :=
    s.described_form hname
  obtain ⟨names, hkeys, hnames⟩ :
      ∃ names : List String, shape.map (·.1) = names.map .str ∧ names.Nodup := (hcase ▸ hs.form :)
  have hdata := hs.parts
  rw [hcase] at hfield hparts hdata
  have hshape : field s.described "shape" = .dict (shape.map fun e => (e.1, e.2.describe)) := by
    rw [field, hfield (by decide), describeForm, ofList_describeShape hkeys hnames]
    rfl
  have hpolicy : (s.described.get? "unknown_keys").getD (.str "strip") = .str policy.name := by
    rw [hfield (by decide)]
    rfl
  have hcatchall : field s.described "catchall" =
      (Entries.get? (describeOption "catchall" catchall) "catchall").getD .null := by
    rw [field, hfield (by decide)]
    rfl
  have hentries : (if (field s.described "shape").truthy then (field s.described "shape").entries?
      else some []) = some (shape.map fun e => (e.1, e.2.describe)) := by
    rw [hshape]
    cases shape <;> rfl
  unfold object
  dsimp only
  rw [hentries, hpolicy, hcatchall]
  refine (shape_yields fun t ht => hparts t (List.mem_append_left _ ht)).bind ?_
  rintro _ ⟨shape', rfl, hshape'⟩
  refine (child?_yields (fun t ht => hdata t (List.mem_append_right _ ht))
    fun t ht => hparts t (List.mem_append_right _ ht)).bind ?_
  rintro _ ⟨catchall', rfl, hcatchall'⟩
  have hname : (Value.str policy.name).str?.bind UnknownKeys.ofName? = some policy := by
    cases policy <;> rfl
  rw [Construct.object_eq hname]
  refine make_isBareOf _ hkind rfl ?_
  rw [hcase, Form.unnumbered, Form.unnumbered, hshape', hcatchall']

theorem tuple_yields {items : List (Schema Value)} {rest : Option (Schema Value)} (hs : s.IsData)
    (scope : Scope) (hcase : s.form = .tuple items rest) (hkind : s.kind = .str "tuple")
    (hparts : ∀ t ∈ s.form.parts, Rebuilds build t) :
    (OfDefinition.form build scope s.described "tuple").Yields (IsBareOf s) := by
  have hfield {name : String} (hname : name ∉ ["type", "checks", "error", "check"]) :=
    s.described_form hname
  have hdata := hs.parts
  rw [hcase] at hfield hparts hdata
  have hitems : s.described.get? "items" = some (.list (items.map Schema.describe)) := by
    rw [hfield (by decide), ← describeAll_eq_map]
    rfl
  have hrest : field s.described "rest" =
      (Entries.get? (describeOption "rest" rest) "rest").getD .null := by
    rw [field, hfield (by decide)]
    rfl
  refine Yields.bind (listed_yields hitems) ?_
  rintro _ rfl
  refine (children_yields fun t ht => hparts t (List.mem_append_left _ ht)).bind ?_
  rintro _ ⟨items', rfl, hitems'⟩
  rw [hrest]
  refine (child?_yields (fun t ht => hdata t (List.mem_append_right _ ht))
    fun t ht => hparts t (List.mem_append_right _ ht)).bind ?_
  rintro _ ⟨rest', rfl, hrest'⟩
  rw [Construct.tuple_eq]
  refine make_isBareOf _ hkind rfl ?_
  rw [hcase, Form.unnumbered, Form.unnumbered, Schema.unnumberedAll_eq_map,
    Schema.unnumberedAll_eq_map, hitems', hrest']

theorem options_ne_nil {ss ts : List (Schema Value)} (h : ts.map Schema.unnumbered = ss.map Schema.unnumbered)
    (hss : ss ≠ []) : ts ≠ [] := by
  rintro rfl
  exact hss (List.map_eq_nil_iff.1 h.symm)

theorem union_yields {options : List (Schema Value)} (hcase : s.form = .union options)
    (hne : options ≠ []) (hkind : s.kind = .str "union")
    (hparts : ∀ t ∈ s.form.parts, Rebuilds build t) :
    (union build s.described).Yields (IsBareOf s) := by
  have hfield {name : String} (hname : name ∉ ["type", "checks", "error", "check"]) :=
    s.described_form hname
  rw [hcase] at hfield hparts
  have hoptions : s.described.get? "options" = some (.list (options.map Schema.describe)) := by
    rw [hfield (by decide), ← describeAll_eq_map]
    rfl
  have hdiscriminator : field s.described "discriminator" = .null := by
    rw [field, hfield (by decide)]
    rfl
  refine Yields.bind (listed_yields hoptions) ?_
  rintro _ rfl
  refine (children_yields hparts).bind ?_
  rintro _ ⟨options', rfl, hoptions'⟩
  rw [hdiscriminator]
  show (Construct.union (.list (options'.map .schema)) {}).Yields _
  rw [Construct.union_eq (options_ne_nil hoptions' hne)]
  refine make_isBareOf _ hkind rfl ?_
  rw [hcase, Form.unnumbered, Form.unnumbered, Schema.unnumberedAll_eq_map,
    Schema.unnumberedAll_eq_map, hoptions']
  rfl

theorem discriminated_yields {options : List (Schema Value)} {name : String}
    {table : List (Value × Nat)} (hcase : s.form = .discriminatedUnion options (.str name) table)
    (hne : options ≠ []) (hname : name ≠ "")
    (htable : ∀ σ, (Construct.tableFrom (.str name) 0 options []).answer σ = .ok table)
    (hkind : s.kind = .str "union") (hparts : ∀ t ∈ s.form.parts, Rebuilds build t) :
    (union build s.described).Yields (IsBareOf s) := by
  have hfield {name : String} (hname : name ∉ ["type", "checks", "error", "check"]) :=
    s.described_form hname
  rw [hcase] at hfield hparts
  have hoptions : s.described.get? "options" = some (.list (options.map Schema.describe)) := by
    rw [hfield (by decide), ← describeAll_eq_map]
    rfl
  have hdiscriminator : field s.described "discriminator" = .str name := by
    rw [field, hfield (by decide)]
    rfl
  have htruthy : (Value.str name).truthy = true := by
    simpa [Value.truthy] using hname
  refine Yields.bind (listed_yields hoptions) ?_
  rintro _ rfl
  refine (children_yields hparts).bind ?_
  rintro _ ⟨options', rfl, hoptions'⟩
  rw [hdiscriminator]
  dsimp only
  rw [if_pos htruthy]
  rw [Construct.discriminatedUnion_eq (options_ne_nil hoptions' hne)]
  have htable' : (Construct.tableFrom (.str name) 0 options' []).Yields (· = table) :=
    fun σ _ => ⟨trivial, table,
      (Construct.tableFrom_alike rfl hoptions' 0 []).answer σ table (htable σ), rfl⟩
  refine htable'.bind ?_
  rintro _ rfl
  refine make_isBareOf _ hkind rfl ?_
  rw [hcase, Form.unnumbered, Form.unnumbered, Schema.unnumberedAll_eq_map,
    Schema.unnumberedAll_eq_map, hoptions']
  rfl

theorem literal_yields {values : List Value} (hcase : s.form = .literal values)
    (hne : values ≠ []) (hvalues : allJson values = true) (hkind : s.kind = .str "literal") :
    (enumerated s.described "literal").Yields (IsBareOf s) := by
  have hfield : s.described.get? "values" = some (.list values) := by
    rw [s.described_form (by decide), hcase, describeForm, plainAll_of_allJson values hvalues]
    rfl
  have hliteral : Construct.literal (.tuple values) {} = Construct.make (.literal values) {} := by
    cases values with
    | nil => exact absurd rfl hne
    | cons v vs => rfl
  unfold enumerated
  rw [hfield]
  show (Construct.literal (.tuple values) {}).Yields _
  rw [hliteral]
  exact make_isBareOf _ hkind rfl (hcase ▸ rfl)

theorem enumeration_yields {entries : List (Value × Value)} (hcase : s.form = .enumeration entries none)
    (hne : entries ≠ []) (hentries : (Value.dict entries).isJson = true)
    (hkind : s.kind = .str "enum") : (enumerated s.described "enum").Yields (IsBareOf s) := by
  have hfield : s.described.get? "entries" = some (.dict entries) := by
    have hplain : plainEntries entries = entries :=
      plainEntries_of_entriesJson entries (Bool.and_eq_true_iff.1 hentries).1
    rw [s.described_form (by decide), hcase, describeForm, hplain,
      Entries.ofList_of_distinct (distinct_of_isJson hentries)]
    rfl
  have henumeration : Construct.enumeration (.dict entries) {} =
      Construct.make (.enumeration entries none) {} := by
    cases entries with
    | nil => exact absurd rfl hne
    | cons e es => rfl
  unfold enumerated
  rw [hfield]
  show (Construct.enumeration (.dict entries) {}).Yields _
  rw [henumeration]
  exact make_isBareOf _ hkind rfl (hcase ▸ rfl)

/-- From the description of a data-only schema its form is built again. -/
theorem form_yields (scope : Scope) (hs : s.IsData)
    (hparts : ∀ t ∈ s.form.parts, Rebuilds build t) (htag : s.form.tag? = some tag) :
    (OfDefinition.form build scope s.described tag).Yields (IsBareOf s) := by
  obtain ⟨tag', hkind, htag'⟩ := hs.kind_eq
  obtain rfl : tag = tag' := Option.some.inj (htag.symm.trans htag')
  have hform := hs.form
  have hfield {name : String} (hname : name ∉ ["type", "checks", "error", "check"]) :=
    s.described_form hname
  cases hcase : s.form with
  | string coerce =>
    rw [hcase] at htag hform
    cases htag
    have hfields : describeForm s.form = shownField "coerce" coerce coerce.plain := hcase ▸ rfl
    have hmake := make_isBareOf (.string coerce) hkind rfl (hcase ▸ rfl)
    rw [← switch_described hfields hform] at hmake
    show (scalar s.described "string").Yields _
    unfold scalar
    rw [format_described hfields]
    exact hmake
  | format f coerce abort =>
    rw [hcase] at htag hform
    cases htag
    obtain ⟨rfl, b, rfl⟩ := hform
    exact format_yields hcase hkind
  | number coerce =>
    rw [hcase] at htag hform
    cases htag
    have hfields : describeForm s.form = shownField "coerce" coerce coerce.plain := hcase ▸ rfl
    have hmake := make_isBareOf (.number coerce) hkind rfl (hcase ▸ rfl)
    rw [← switch_described hfields hform] at hmake
    show (scalar s.described "number").Yields _
    unfold scalar
    rw [format_described hfields]
    exact hmake
  | integer coerce abort =>
    rw [hcase] at htag hform
    cases htag
    obtain ⟨hswitch, b, rfl⟩ := hform
    exact integer_yields hcase hswitch hkind
  | boolean coerce =>
    rw [hcase] at htag hform
    cases htag
    have hfields : describeForm s.form = shownField "coerce" coerce coerce.plain := hcase ▸ rfl
    have hmake := make_isBareOf (.boolean coerce) hkind rfl (hcase ▸ rfl)
    rwa [← switch_described hfields hform] at hmake
  | date coerce =>
    rw [hcase] at htag hform
    cases htag
    have hfields : describeForm s.form = shownField "coerce" coerce coerce.plain := hcase ▸ rfl
    have hmake := make_isBareOf (.date coerce) hkind rfl (hcase ▸ rfl)
    rwa [← switch_described hfields hform] at hmake
  | null | any | unknown | never =>
    rw [hcase] at htag
    cases htag
    exact make_isBareOf _ hkind rfl (hcase ▸ rfl)
  | literal values =>
    rw [hcase] at htag hform
    cases htag
    exact literal_yields hcase hform.1 hform.2 hkind
  | enumeration entries cls =>
    rw [hcase] at htag hform
    cases htag
    obtain ⟨rfl, hne, hentries⟩ := hform
    exact enumeration_yields hcase hne hentries hkind
  | object shape policy catchall =>
    rw [hcase] at htag
    cases htag
    exact object_yields hs hcase hkind hparts
  | tuple items rest =>
    rw [hcase] at htag
    cases htag
    exact tuple_yields hs scope hcase hkind hparts
  | union options =>
    rw [hcase] at htag hform
    cases htag
    exact union_yields hcase hform hkind hparts
  | discriminatedUnion options d table =>
    rw [hcase] at htag hform
    cases htag
    obtain ⟨hne, ⟨name, rfl, hname⟩, htable⟩ := hform
    exact discriminated_yields hcase hne hname htable hkind hparts
  | array t =>
    rw [hcase] at htag hparts
    cases htag
    exact around_isBareOf _ .array hcase hkind (by decide) rfl (hparts t (by simp [Form.parts]))
      (fun _ => rfl) (fun _ => rfl) fun _ => congrArg Form.array
  | set t =>
    rw [hcase] at htag hparts
    cases htag
    exact around_isBareOf _ .set hcase hkind (by decide) rfl (hparts t (by simp [Form.parts]))
      (fun _ => rfl) (fun _ => rfl) fun _ => congrArg Form.set
  | optional t =>
    rw [hcase] at htag hparts
    cases htag
    exact around_isBareOf _ .optional hcase hkind (by decide) rfl (hparts t (by simp [Form.parts]))
      (fun _ => rfl) (fun _ => rfl) fun _ => congrArg Form.optional
  | nullable t =>
    rw [hcase] at htag hparts
    cases htag
    exact around_isBareOf _ .nullable hcase hkind (by decide) rfl (hparts t (by simp [Form.parts]))
      (fun _ => rfl) (fun _ => rfl) fun _ => congrArg Form.nullable
  | readonly t =>
    rw [hcase] at htag hparts
    cases htag
    exact around_isBareOf _ .readonly hcase hkind (by decide) rfl (hparts t (by simp [Form.parts]))
      (fun _ => rfl) (fun _ => rfl) fun _ => congrArg Form.readonly
  | promise t =>
    rw [hcase] at htag hparts
    cases htag
    exact around_isBareOf _ .promise hcase hkind (by decide) rfl (hparts t (by simp [Form.parts]))
      (fun _ => rfl) (fun _ => rfl) fun _ => congrArg Form.promise
  | default t d =>
    rw [hcase] at htag hparts hform
    cases htag
    have hvalue : field s.described "default_value" = d := by
      rw [field, s.described_form (by decide), hcase, describeForm, Entries.get?_cons,
        if_neg (by decide)]
      exact field_shownField hform (by decide)
    refine around_isBareOf "inner" (.default · d) hcase hkind (by decide) rfl
      (hparts t (by simp [Form.parts])) (fun _ => ?_) (fun _ => rfl) fun _ => congrArg (Form.default · d)
    rw [hvalue]
    rfl
  | prefault t d =>
    rw [hcase] at htag hparts hform
    cases htag
    have hvalue : field s.described "default_value" = d := by
      rw [field, s.described_form (by decide), hcase, describeForm, Entries.get?_cons,
        if_neg (by decide)]
      exact field_shownField hform (by decide)
    refine around_isBareOf "inner" (.prefault · d) hcase hkind (by decide) rfl
      (hparts t (by simp [Form.parts])) (fun _ => ?_) (fun _ => rfl) fun _ => congrArg (Form.prefault · d)
    rw [hvalue]
    rfl
  | catching t d =>
    rw [hcase] at htag hparts hform
    cases htag
    have hvalue : field s.described "catch_value" = d := by
      rw [field, s.described_form (by decide), hcase, describeForm, Entries.get?_cons,
        if_neg (by decide)]
      exact field_shownField hform (by decide)
    refine around_isBareOf "inner" (.catching · d) hcase hkind (by decide) rfl
      (hparts t (by simp [Form.parts])) (fun _ => ?_) (fun _ => rfl) fun _ => congrArg (Form.catching · d)
    rw [hvalue]
    rfl
  | record t u =>
    rw [hcase] at htag hparts
    cases htag
    exact between_isBareOf .record hcase hkind (by decide) (by decide) rfl rfl
      (hparts t (by simp [Form.parts])) (hparts u (by simp [Form.parts])) (fun _ _ => rfl)
      (fun _ _ => rfl) fun _ _ => congrArg₂ Form.record
  | map t u =>
    rw [hcase] at htag hparts
    cases htag
    exact between_isBareOf .map hcase hkind (by decide) (by decide) rfl rfl
      (hparts t (by simp [Form.parts])) (hparts u (by simp [Form.parts])) (fun _ _ => rfl)
      (fun _ _ => rfl) fun _ _ => congrArg₂ Form.map
  | intersection t u =>
    rw [hcase] at htag hparts
    cases htag
    exact between_isBareOf .intersection hcase hkind (by decide) (by decide) rfl rfl
      (hparts t (by simp [Form.parts])) (hparts u (by simp [Form.parts])) (fun _ _ => rfl)
      (fun _ _ => rfl) fun _ _ => congrArg₂ Form.intersection
  | pipe t u =>
    rw [hcase] at htag hparts
    cases htag
    exact between_isBareOf .pipe hcase hkind (by decide) (by decide) rfl rfl
      (hparts t (by simp [Form.parts])) (hparts u (by simp [Form.parts])) (fun _ _ => rfl)
      (fun _ _ => rfl) fun _ _ => congrArg₂ Form.pipe
  | transform fn | lazy getter name | custom fn params | generic =>
    rw [hcase] at hform
    exact hform.elim

/-! ## Whole schemas -/

/-- The fields of a form that plain data can say all about are known to its tag. -/
theorem names_known {form : Form Value (Schema Value)} (hdata : form.IsData)
    (htag : form.tag? = some tag) : ∀ name ∈ form.names, name ∈ commonFields ++ ownFields tag := by
  cases form <;> cases htag <;> first
    | exact hdata.elim
    | simp [Form.names, Form.fields, Form.checkFields, Form.checkTag?, commonFields, ownFields]

/-- No form of data has a field that names definitions. -/
theorem names_apart {form : Form Value (Schema Value)} (hdata : form.IsData) {name : String}
    (hname : name ∈ ["definitions", "name", "self"]) : name ∉ form.names := by
  simp only [List.mem_cons, List.not_mem_nil, or_false] at hname
  rcases hname with rfl | rfl | rfl <;> cases form <;> first
    | exact hdata.elim
    | simp [Form.names, Form.fields, Form.checkFields, Form.checkTag?]

theorem key_of_described {e : Value × Value} (he : e ∈ s.described) :
    ∃ name ∈ s.form.names, e.1 = .str name := by
  have hkey := s.described_keys.subset (List.mem_map_of_mem he)
  obtain ⟨name, hname, heq⟩ := List.mem_map.1 hkey
  exact ⟨name, hname, heq.symm⟩

/-- No field of a description is left out with a warning. -/
theorem warnUnknown_yields (hs : s.IsData) (htag : s.form.tag? = some tag) :
    (warnUnknown s.described tag).Yields fun _ => True := by
  have hnone : (s.described.filter fun e =>
      !(e.1.str?.any (commonFields ++ ownFields tag).contains)) = [] := by
    refine List.filter_eq_nil_iff.2 fun e he => ?_
    obtain ⟨name, hname, hkey⟩ := key_of_described he
    have hknown := names_known hs.form htag name hname
    simp [hkey, Value.str?, List.mem_append.1 hknown]
  unfold warnUnknown
  dsimp only
  rw [hnone]
  exact .pure trivial

/-- The checks and the message of a schema are built from its description as well. -/
theorem attach_yields (scope : Scope) (hs : s.IsData) {t : Schema Value} (ht : IsBareOf s t) :
    (attach scope s.described t).Yields s.Alike := by
  obtain ⟨id, form, rfl, hform⟩ := ht
  have hextra : s.extra = [] := by
    cases hs
    rfl
  have halike (id : Nat) {checks : List Value}
      (hchecks : checks.map Value.unnumbered = s.checks.map Value.unnumbered) :
      s.Alike ⟨id, s.kind, form, [], checks, s.error⟩ := by
    have hall : Value.unnumberedAll s.checks = Value.unnumberedAll checks := by
      rw [Value.unnumberedAll_eq_map, Value.unnumberedAll_eq_map, hchecks]
    obtain ⟨id', kind, form', extra, checks', error⟩ := s
    unfold Schema.Alike
    rw [Schema.unnumbered, Schema.unnumbered, hform, hall, show extra = [] from hextra]
  have herror : field s.described "error" = s.error := s.described_error hs.error
  have hattached {id : Nat} {checks : List Value}
      (hchecks : checks.map Value.unnumbered = s.checks.map Value.unnumbered) :
      (withError s.error ⟨id, s.kind, form, [], checks, .null⟩).Yields s.Alike := by
    obtain hnull | ⟨e, he⟩ := hs.error
    · have hbuilt := halike id hchecks
      rw [hnull] at hbuilt ⊢
      exact .pure hbuilt
    · rw [he]
      exact Yields.freshRef.bind fun id' _ => .pure (he ▸ halike id' hchecks)
  rw [attach_eq, herror]
  refine Yields.bind (checksOf_yields scope.strict hs.checks) fun checks hchecks => ?_
  cases checks with
  | nil => exact hattached hchecks
  | cons c cs => exact Yields.freshRef.bind fun _ _ => hattached hchecks

/-- From the description of a data-only schema a schema is built that is alike. -/
theorem build_describe (scope : Scope) (depth : Nat) :
    ∀ s : Schema Value, s.IsData → s.describe.depth ≤ depth →
      Rebuilds (OfDefinition.build scope depth) s := by
  induction depth with
  | zero =>
    intro s hs hdepth
    rw [hs.describe_eq] at hdepth
    cases hdepth
  | succ depth ih =>
    intro s hs hdepth
    obtain ⟨tag, hkind, htag⟩ := hs.kind_eq
    have hparts : ∀ t ∈ s.form.parts, Rebuilds (OfDefinition.build scope depth) t := fun t ht =>
      ih t (hs.parts t ht) (Nat.le_of_lt_succ (Nat.lt_of_lt_of_le (hs.depth_part_lt ht) hdepth))
    have hfield : field s.described "type" = .str tag := field_eq (s.described_type.trans (hkind ▸ rfl))
    have hknown : tags.contains tag = true := by
      cases hcase : s.form <;> rw [hcase] at htag <;> cases htag <;> decide
    unfold Rebuilds
    rw [hs.describe_eq]
    show (Construct.hashable (field s.described "type") >>= _).Yields _
    rw [hfield]
    refine (Construct.hashable_yields tag).bind ?_
    rintro _ rfl
    dsimp only
    rw [if_pos hknown]
    exact (warnUnknown_yields hs htag).bind fun _ _ =>
      Yields.bind (form_yields scope hs hparts htag) fun t ht => attach_yields scope hs ht

end OfDefinition

open OfDefinition

/-- From the description of a data-only schema a schema is built that is alike, in every session. -/
theorem buildSchema_describe {s : Schema Value} (hs : s.IsData) (strict : Bool) :
    (buildSchema s.describe strict).Yields s.Alike := by
  obtain ⟨tag, hkind, htag⟩ := hs.kind_eq
  have habsent {name : String} (hname : name ∈ ["definitions", "name", "self"]) :
      field s.described name = .null := by
    rw [field, Entries.get?_eq_none_of_keys s.described_keys (names_apart hs.form hname)]
    rfl
  have herase {name : String} (hname : name ∈ ["definitions", "name", "self"]) :
      Entries.erase s.described (.str name) = s.described := by
    refine List.filter_eq_self.2 fun e he => ?_
    obtain ⟨other, hother, hkey⟩ := key_of_described he
    rw [hkey, Bool.not_eq_true']
    exact beq_eq_false_iff_ne.2 fun heq => names_apart hs.form hname (heq ▸ hother)
  have htype : field s.described "type" = .str tag := field_eq (hkind ▸ s.described_type)
  have hreference : ((Value.str tag).equals (.str "ref") || (Value.str tag).equals (.str "lazy"))
      = false := by
    have hform := hs.form
    cases hcase : s.form <;> rw [hcase] at htag hform <;> cases htag <;>
      first | exact hform.elim | rfl
  have hkeys : (s.described.any fun e => e.1.str?.isNone || e.1.str? == some "self") = false := by
    refine List.any_eq_false.2 fun e he => ?_
    obtain ⟨name, hname, hkey⟩ := key_of_described he
    have hself : name ≠ "self" := fun heq => names_apart hs.form (by simp) (heq ▸ hname)
    simpa [hkey, Value.str?] using hself
  rw [hs.describe_eq]
  show (if (s.described.any fun e => e.1.str?.isNone || e.1.str? == some "self") then
    throw .unsupported else createSchema s.described strict).Yields _
  rw [hkeys]
  show (createSchema s.described strict).Yields _
  unfold createSchema
  rw [habsent (by simp), herase (by simp)]
  dsimp only
  rw [show (if Value.null.truthy = true then Value.null.entries? else some []) = some [] from rfl,
    htype, hreference, herase (by simp), s.described_type]
  refine Yields.bind (Yields.logLine _ _) fun _ _ => Yields.freshRef.bind fun id _ =>
    .changing (fun _ _ => trivial) ?_
  have hbuilt := build_describe ⟨id, [], strict⟩ _ s hs (Nat.le_refl _)
  unfold Rebuilds at hbuilt
  rwa [hs.describe_eq] at hbuilt

/-- A data-only schema is built from its description again: in every session and whether strictly or
not, the description yields a schema of the same description against which every value parses as
against the schema itself, in every session in which the providers of words do not tell apart who
reports. -/
theorem definition_round_trip {s : Schema Value} (hs : s.IsData) (strict : Bool) (σ : Session) :
    ∃ t τ, (buildSchema s.describe strict).exec σ = (.ok t, τ) ∧ t.describe = s.describe ∧
      ∀ (host : Host) (ρ : Session) (ctx : Context) (v : Value), ρ.HasOwnKinds →
        Resolution.Blind host Value.unnumbered ctx ρ.config (fun π => π.settings = ρ.settings) →
        (safeParse host (ctx.mayWait false) t v).answer ρ =
          (safeParse host (ctx.mayWait false) s v).answer ρ := by
  obtain ⟨-, t, ht, halike⟩ := buildSchema_describe hs strict σ trivial
  refine ⟨t, _, Prod.ext ht rfl, halike.describe_eq.symm, fun host ρ ctx v hρ hblind => ?_⟩
  exact (safeParse_alike hs (hs.alike halike) halike hρ hblind v).symm

/-! ## Instances -/

namespace Describing

/-- A list of texts of which none is empty. -/
def words : Schema Value :=
  ⟨0, .str "array", .array ⟨1, .str "string", .string .null, [],
    [.check ⟨2, .atLeast .length 1, .str "empty", .bool false⟩], .null⟩, [], [], .null⟩

theorem words_isData : words.IsData := by
  refine .intro rfl trivial (fun t ht => ?_) nofun (.inl rfl)
  obtain rfl := List.mem_singleton.1 ht
  refine .intro rfl (.inl rfl) nofun (fun c hc => ?_) (.inl rfl)
  obtain rfl := List.mem_singleton.1 hc
  exact .rule false (.atLeast .length 1) (.inr ⟨_, rfl⟩)

/-- The kinds of a new session are evaluated by the library itself. -/
theorem hasOwnKinds : ({} : Session).HasOwnKinds := by
  have hkinds : ∀ tag ∈ KindTable.knownKinds,
      ({} : Session).kinds.evaluator? (.str tag) = .ok (.builtin .evaluateNode) := by
    unfold KindTable.knownKinds
    repeat' refine List.forall_mem_cons.2 ⟨rfl, ?_⟩
    exact List.forall_mem_nil _
  intro tag htag fn hfn
  rw [hkinds tag htag] at hfn
  exact (Except.ok.inj hfn).symm

/-- A text with a pattern that goes under the name of a format. -/
def labelled : Schema Value :=
  ⟨1, .str "string", .string .null, [],
    [.check ⟨0, .regex (.rep (.char false 'a') 1 none) "a+" (.str "email"), .null, .bool false⟩],
    .null⟩

/-- A text with a format. -/
def formatted : Schema Value :=
  ⟨9, .str "string", .string .null, [],
    [.schema ⟨4, .str "string", .format .email .null (.bool false), [], [], .null⟩], .null⟩

def never (id : Nat) : Schema Value := ⟨id, .str "never", .never, [], [], .null⟩

/-- Words that tell one schema from the others. -/
def telling : Host :=
  { Stock.hostThat false with
    run := fun _ call => match call with
      | .wording ⟨_, _, _, .schema s, _⟩ => pure ⟨.str (if s.id = 7 then "seven" else "other"), []⟩
      | _ => pure ⟨.null, []⟩ }

def asking : Context := { error := .callable ⟨0, "tell", [], false⟩ }

/-- The texts of the issues of a parse. -/
def texts : Except Fault Parsed → List (Option String)
  | .ok (.rejected issues) => issues.map (·.message.str?)
  | _ => []

end Describing

open Describing Stock in
/-- A list with an empty text is rejected by the schema that is built as by the one described. -/
theorem definition_round_trip_words :
    words.IsData ∧ ({} : Session).HasOwnKinds ∧
      ∃ t τ, (buildSchema words.describe true).exec {} = (.ok t, τ) ∧ t.describe = words.describe ∧
        (safeParse (hostThat false) (Context.mayWait {} false) t (.list [.str ""])).answer {} =
          (safeParse (hostThat false) (Context.mayWait {} false) words
            (.list [.str ""])).answer {} := by
  obtain ⟨t, τ, ht, hdescribe, hparse⟩ := definition_round_trip words_isData true {}
  refine ⟨words_isData, hasOwnKinds, t, τ, ht, hdescribe, hparse _ {} {} _ hasOwnKinds ?_⟩
  exact ⟨Resolution.overlooks_of_isJson rfl,
    Resolution.overlooks_of_isJson rfl,
    Resolution.overlooks_of_isJson rfl⟩

open Describing Stock in
/-- A pattern under the name of a format comes back as that format, and words that look at who
reports an issue tell a schema that is built from the one described. -/
theorem definition_round_trip_labelled_pattern :
    (Construct.regex (.str "a+") (.str "email")).answer {} =
        .ok (.regex (.rep (.char false 'a') 1 none) "a+" (.str "email")) ∧
      (buildSchema labelled.describe true).answer {} = .ok formatted ∧
      formatted.describe ≠ labelled.describe ∧
      (safeParse (hostThat false) (Context.mayWait {} false) labelled (.str "aaa")).answer {} =
        .ok (.accepted (.str "aaa")) ∧
      (safeParse (hostThat false) (Context.mayWait {} false) formatted (.str "aaa")).answer {} ≠
        .ok (.accepted (.str "aaa")) ∧
      (buildSchema (never 7).describe true).answer {} = .ok (never 1) ∧
      (safeParse telling (asking.mayWait false) (never 1) .null).answer {} ≠
        (safeParse telling (asking.mayWait false) (never 7) .null).answer {} := by
  refine ⟨rfl, rfl, fun h => ?_, rfl, nofun, rfl, fun h => ?_⟩
  · have hlabelled : labelled.describe = .dict [(.str "type", .str "string"), (.str "checks",
        .list [.dict [(.str "check", .str "string_format"), (.str "format", .str "email"),
          (.str "pattern", .str "a+")]])] := rfl
    have hformatted : formatted.describe = .dict [(.str "type", .str "string"), (.str "checks",
        .list [.dict [(.str "type", .str "string"), (.str "format", .str "email"),
          (.str "check", .str "string_format")]])] := rfl
    rw [hlabelled, hformatted] at h
    simp at h
  · exact absurd (congrArg texts h) (by decide)

end Assay
