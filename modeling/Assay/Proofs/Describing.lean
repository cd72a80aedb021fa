import Assay.Proofs.PlainData

/-!
# Descriptions of data-only schemas

The description of a data-only schema is a mapping with a field for each part of its definition that
is not left out (`Schema.IsData.describe_eq`). What is found under a name in it is what the form
shows under this name (`described_get?`), or the checks or the message of the schema.
-/

namespace Assay

open Value

/-! ## Fields -/

theorem Value.shownField_cases (name : String) (v described : Value) :
    shownField name v described = [(.str name, described)] ∨ shownField name v described = [] :=
  ite_eq_or_eq ..

namespace Entries

variable {es fs : Entries} {k name : String} {v : Value}

@[simp] theorem get?_nil : Entries.get? [] name = none := rfl

@[simp] theorem get?_cons :
    Entries.get? ((.str k, v) :: es) name = if k = name then some v else Entries.get? es name := by
  unfold Entries.get? Entries.find?
  rw [List.find?_cons]
  by_cases hk : k = name
  · rw [if_pos hk, show (Value.str k).isFound (.str name) = true from beq_iff_eq.2 hk]
    rfl
  · rw [if_neg hk, show (Value.str k).isFound (.str name) = false from beq_eq_false_iff_ne.2 hk]

@[simp] theorem get?_append : Entries.get? (es ++ fs) name = (es.get? name).or (fs.get? name) := by
  unfold Entries.get? Entries.find?
  rw [List.find?_append]
  cases List.find? (fun e => e.1.isFound (.str name)) es <;> rfl

/-- A name that no field has is not found. -/
theorem get?_eq_none_of_keys {names : List String} (h : (es.map (·.1)).Sublist (names.map .str))
    (hname : name ∉ names) : es.get? name = none := by
  unfold Entries.get?
  rw [find?_eq_none]
  intro e he
  obtain ⟨k, hk, hkey⟩ := List.mem_map.1 (h.subset (List.mem_map_of_mem he))
  rw [← hkey]
  exact beq_eq_false_iff_ne.2 fun heq => hname (heq ▸ hk)

/-- A field is found under its name only. -/
theorem get?_shownField_of_ne {described : Value} (h : k ≠ name) :
    Entries.get? (shownField k v described) name = none := by
  rcases shownField_cases k v described with hk | hk
  · rw [hk, get?_cons, if_neg h, get?_nil]
  · rw [hk, get?_nil]

end Entries

namespace Value

variable {name : String} {v : Value}

theorem shownField_of_isShown (h : v.isShown = true) (hname : name ≠ "abort") (described : Value) :
    shownField name v described = [(.str name, described)] := by
  unfold shownField
  rw [h, beq_eq_false_iff_ne.2 hname]
  rfl

/-- A plain value is found as it is, null also when it is left out. -/
theorem field_shownField (h : v.isJson = true) (hname : name ≠ "abort") :
    (Entries.get? (shownField name v (plain v)) name).getD .null = v := by
  rw [plain_of_isJson v h]
  by_cases hshown : v.isShown = true
  · rw [shownField_of_isShown hshown hname, Entries.get?_cons, if_pos rfl, Option.getD_some]
  · obtain rfl : v = .null := by
      refine Classical.byContradiction fun hnull => hshown (isShown_of_isJson h hnull)
    rfl

/-- A switch that is off may be left out. -/
theorem truthy_shownField_abort (b : Bool) :
    ((Entries.get? (shownField "abort" (.bool b) (plain (.bool b))) "abort").getD .null).truthy
      = b := by
  cases b <;> rfl

theorem shownField_keys (name : String) (v described : Value) :
    ((shownField name v described).map (·.1)).Sublist [.str name] := by
  rcases shownField_cases name v described with h | h
  · rw [h]
    exact .refl _
  · rw [h]
    exact List.nil_sublist _

theorem describeOption_keys (name : String) (s : Option (Schema Value)) :
    ((describeOption name s).map (·.1)).Sublist [.str name] := by
  cases s with
  | none => exact List.nil_sublist _
  | some s => exact .refl _

/-- A description of a form has no fields but those of its definition. -/
theorem describeForm_keys (form : Form Value (Schema Value)) :
    ((describeForm form).map (·.1)).Sublist (form.fields.map fun f => .str f.1) := by
  cases form with
  | string c | number c | boolean c | date c => exact shownField_keys ..
  | format f c a | integer c a =>
    simp only [describeForm, Form.fields, List.map_append, List.map_cons]
    exact (shownField_keys ..).append ((shownField_keys ..).cons_cons _)
  | object shape policy catchall => exact ((describeOption_keys ..).cons_cons _).cons_cons _
  | tuple items rest => exact (describeOption_keys ..).cons_cons _
  | discriminatedUnion options d table => exact (shownField_keys ..).cons_cons _
  | default s v | prefault s v | catching s v => exact (shownField_keys ..).cons_cons _
  | transform fn => exact shownField_keys ..
  | lazy a b | custom a b =>
    simp only [describeForm, List.map_append]
    exact (shownField_keys ..).append (shownField_keys ..)
  | _ => exact .refl _

end Value

/-! ## Schemas -/

/-- The names of what a definition has. -/
def Form.names (form : Form Value (Schema Value)) : List String :=
  "type" :: form.fields.map (·.1) ++ ["checks", "error"] ++ (form.checkFields []).map (·.1)

theorem Form.names_nodup (form : Form Value (Schema Value)) : form.names.Nodup := by
  cases form <;> simp [names, fields, checkFields, checkTag?]

namespace Schema

/-- The field for the checks of a schema, if it has any. -/
def describedChecks (s : Schema Value) : Entries :=
  if s.checks.isEmpty then [] else [(.str "checks", .list (plainAll s.checks))]

/-- The field for the tag of a schema that is a check. -/
def describedTag (s : Schema Value) : Entries :=
  (s.form.checkFields []).map fun f => (.str f.1, f.2)

/-- The fields that a description shows. -/
def described (s : Schema Value) : Entries :=
  (.str "type", s.kind) :: (describeForm s.form ++ (s.describedChecks
    ++ (shownField "error" s.error (plain s.error) ++ s.describedTag)))

variable {s : Schema Value} {name : String}

theorem described_keys (s : Schema Value) :
    (s.described.map (·.1)).Sublist (s.form.names.map .str) := by
  have hform := describeForm_keys s.form
  have hchecks : (s.describedChecks.map (·.1)).Sublist [.str "checks"] := by
    unfold describedChecks
    split
    · exact List.nil_sublist _
    · exact .refl _
  have herror := shownField_keys "error" s.error (plain s.error)
  simp only [described, describedTag, Form.names, List.map_append, List.map_cons, List.map_map,
    List.append_assoc, List.cons_append]
  exact (hform.append (hchecks.append (herror.append (.refl _)))).cons_cons _

/-- No two fields have the same name. -/
theorem described_distinct (s : Schema Value) : s.described.Distinct :=
  Entries.distinct_of_sublist s.described_keys s.form.names_nodup

/-- Without further fields a schema of a tag is described by what its form shows and by what all
schemas share. -/
theorem describe_eq_described {tag : String} (hkind : s.kind = .str tag) (hextra : s.extra = []) :
    s.describe = .dict s.described := by
  have hdistinct := s.described_distinct
  obtain ⟨id, kind, form, extra, checks, error⟩ := s
  cases hkind
  cases hextra
  have hfields : shownField "type" (.str tag) (plain (.str tag)) = [(.str "type", .str tag)] := rfl
  unfold describe describeSchema
  rw [hfields, plainExtra, ← Entries.ofList_of_distinct hdistinct]
  simp [described, describedChecks, describedTag]

theorem IsData.describe_eq (h : s.IsData) : s.describe = .dict s.described := by
  cases h
  exact describe_eq_described rfl rfl

/-! ## What is found under a name -/

theorem get?_describedChecks (h : "checks" ≠ name) : s.describedChecks.get? name = none := by
  unfold describedChecks
  split
  · rfl
  · exact Entries.get?_cons.trans (if_neg h)

theorem get?_describedTag (h : "check" ≠ name) : s.describedTag.get? name = none := by
  unfold describedTag Form.checkFields
  cases s.form.checkTag? with
  | none => rfl
  | some tag => exact Entries.get?_cons.trans (if_neg h)

/-- A form has no fields under the names that all schemas share. -/
theorem get?_describeForm (form : Form Value (Schema Value))
    (h : name ∈ ["checks", "error", "check"]) : Entries.get? (describeForm form) name = none := by
  have hfields : name ∉ form.fields.map (·.1) := by
    simp only [List.mem_cons, List.not_mem_nil, or_false] at h
    rcases h with rfl | rfl | rfl <;> cases form <;> simp [Form.fields]
  refine Entries.get?_eq_none_of_keys ?_ hfields
  rw [List.map_map]
  exact describeForm_keys form

theorem described_type (s : Schema Value) : s.described.get? "type" = some s.kind := by
  rw [described, Entries.get?_cons, if_pos rfl]

/-- The fields of a form are found in the description of its schema. -/
theorem described_form (s : Schema Value) (h : name ∉ ["type", "checks", "error", "check"]) :
    s.described.get? name = Entries.get? (describeForm s.form) name := by
  simp only [List.mem_cons, List.not_mem_nil, or_false, not_or] at h
  obtain ⟨htype, hchecks, herror, hcheck⟩ := h
  rw [described, Entries.get?_cons, if_neg (Ne.symm htype), Entries.get?_append,
    Entries.get?_append, Entries.get?_append, get?_describedChecks (Ne.symm hchecks),
    Entries.get?_shownField_of_ne (Ne.symm herror), get?_describedTag (Ne.symm hcheck),
    Option.none_or, Option.none_or, Option.or_none]

theorem described_get?_checks (s : Schema Value) :
    s.described.get? "checks" = s.describedChecks.get? "checks" := by
  rw [described, Entries.get?_cons, if_neg (by decide), Entries.get?_append,
    get?_describeForm _ (by simp), Entries.get?_append, Entries.get?_append,
    Entries.get?_shownField_of_ne (by decide), get?_describedTag (by decide), Option.none_or,
    Option.none_or, Option.or_none]

theorem described_checks (s : Schema Value) : (s.described.get? "checks").getD .null =
    if s.checks.isEmpty then .null else .list (plainAll s.checks) := by
  rw [described_get?_checks, describedChecks]
  split <;> rfl

theorem described_get?_error (s : Schema Value) : s.described.get? "error" =
    Entries.get? (shownField "error" s.error (plain s.error)) "error" := by
  rw [described, Entries.get?_cons, if_neg (by decide), Entries.get?_append,
    get?_describeForm _ (by simp), Entries.get?_append, Entries.get?_append,
    get?_describedChecks (by decide), get?_describedTag (by decide), Option.none_or,
    Option.none_or, Option.or_none]

theorem described_error (h : s.error.IsMessage) :
    (s.described.get? "error").getD .null = s.error := by
  rw [described_get?_error]
  exact field_shownField h.isJson (by decide)

theorem described_check {tag : String} (h : s.form.checkTag? = some tag) :
    s.described.get? "check" = some (.str tag) := by
  have htag : s.form.checkFields [] = [("check", .str tag)] := by
    unfold Form.checkFields
    rw [h]
    rfl
  rw [described, Entries.get?_cons, if_neg (by decide), Entries.get?_append,
    get?_describeForm _ (by simp), Entries.get?_append, Entries.get?_append,
    get?_describedChecks (by decide), Entries.get?_shownField_of_ne (by decide), describedTag, htag]
  rfl

end Schema

/-! ## The descriptions of parts -/

namespace Value

theorem describeAll_eq_map (ss : List (Schema Value)) : describeAll ss = ss.map Schema.describe := by
  induction ss with
  | nil => rfl
  | cons s ss ih =>
    rw [describeAll, ih, List.map_cons]
    rfl

theorem plainAll_eq_map (vs : List Value) : plainAll vs = vs.map plain := by
  induction vs with
  | nil => rfl
  | cons v vs ih => rw [plainAll, ih, List.map_cons]

/-- A shape with text keys is described key by key. -/
theorem describeShape_eq_map {shape : List (Value × Schema Value)} {names : List String}
    (h : shape.map (·.1) = names.map .str) :
    describeShape shape = shape.map fun e => (e.1, e.2.describe) := by
  induction shape generalizing names with
  | nil => rfl
  | cons e shape ih =>
    obtain _ | ⟨name, names⟩ := names
    · cases h
    obtain ⟨he, h⟩ := List.cons.inj h
    have hkey : e.1 = .str name := he
    rw [describeShape, ih h, List.map_cons, hkey]
    rfl

/-- A shape with different text keys is described as it is. -/
theorem ofList_describeShape {shape : List (Value × Schema Value)} {names : List String}
    (h : shape.map (·.1) = names.map .str) (hnames : names.Nodup) :
    Entries.ofList (describeShape shape) = shape.map fun e => (e.1, e.2.describe) := by
  rw [describeShape_eq_map h]
  refine Entries.ofList_of_distinct (Entries.distinct_of_texts ?_ hnames)
  rw [List.map_map]
  exact h

theorem depth_le_list {v : Value} {vs : List Value} (h : v ∈ vs) : v.depth ≤ (list vs).depth :=
  Nat.le_succ_of_le (depth_le_depthAll h)

theorem depth_le_dict {e : Value × Value} {es : Entries} (h : e ∈ es) :
    e.2.depth ≤ (dict es).depth :=
  Nat.le_succ_of_le (depth_le_depthEntries h).2

end Value

/-- A field of the description of a form is at least as deep as that of any part. -/
theorem Form.IsData.depth_part_le {form : Form Value (Schema Value)} (hform : form.IsData)
    {t : Schema Value} (ht : t ∈ form.parts) :
    ∃ e ∈ describeForm form, t.describe.depth ≤ e.2.depth := by
  have hoption {name : String} {s : Option (Schema Value)} (h : t ∈ s.toList) :
      ∃ e ∈ describeOption name s, t.describe.depth ≤ e.2.depth := by
    cases s with
    | none => cases h
    | some s =>
      obtain rfl := List.mem_singleton.1 h
      exact ⟨_, List.mem_singleton_self _, Nat.le_refl _⟩
  have hall {ss : List (Schema Value)} (h : t ∈ ss) :
      t.describe.depth ≤ (Value.list (describeAll ss)).depth := by
    rw [describeAll_eq_map]
    exact depth_le_list (List.mem_map_of_mem h)
  cases form with
  | object shape policy catchall =>
    obtain ⟨names, hkeys, hnames⟩ := hform
    rcases List.mem_append.1 ht with ht | ht
    · obtain ⟨e, he, rfl⟩ := List.mem_map.1 ht
      refine ⟨_, List.mem_cons_self .., ?_⟩
      rw [ofList_describeShape hkeys hnames]
      exact @depth_le_dict (e.1, e.2.describe) _ (List.mem_map_of_mem he)
    · obtain ⟨e, he, hdepth⟩ := hoption ht
      exact ⟨e, List.mem_cons_of_mem _ (List.mem_cons_of_mem _ he), hdepth⟩
  | tuple items rest =>
    rcases List.mem_append.1 ht with ht | ht
    · exact ⟨_, List.mem_cons_self .., hall ht⟩
    · obtain ⟨e, he, hdepth⟩ := hoption ht
      exact ⟨e, List.mem_cons_of_mem _ he, hdepth⟩
  | union options | discriminatedUnion options d table =>
    exact ⟨_, List.mem_cons_self .., hall ht⟩
  | array s | set s | optional s | nullable s | readonly s | promise s | default s _
  | prefault s _ | catching s _ =>
    obtain rfl := List.mem_singleton.1 ht
    exact ⟨_, List.mem_cons_self .., Nat.le_refl _⟩
  | record k v | map k v | intersection k v | pipe k v =>
    obtain rfl | rfl : t = k ∨ t = v := by simpa [Form.parts] using ht
    · exact ⟨_, List.mem_cons_self .., Nat.le_refl _⟩
    · exact ⟨_, List.mem_cons_of_mem _ (List.mem_cons_self ..), Nat.le_refl _⟩
  | _ => cases ht

/-- The description of a part is less deep than that of the whole. -/
theorem Schema.IsData.depth_part_lt {s t : Schema Value} (hs : s.IsData)
    (ht : t ∈ s.form.parts) : t.describe.depth < s.describe.depth := by
  obtain ⟨e, he, hdepth⟩ := hs.form.depth_part_le ht
  have hmem : e ∈ s.described := List.mem_cons_of_mem _ (List.mem_append_left _ he)
  rw [hs.describe_eq]
  exact Nat.lt_succ_of_le (Nat.le_trans hdepth (depth_le_depthEntries hmem).2)

end Assay
