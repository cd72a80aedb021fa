import Assay.Proofs.Refusals

/-!
# What malformed definitions end with

A malformed definition is refused with a definition error, as long as the library can read it so
far: tags, names and formats must be possible keys, lists of definitions must be lists, and checks
must be mappings that can be read (`OfDefinition.Readable`). Then building ends with a schema or
with a definition error (`malformed_definitions_refused`). The condition is about the definition and
what it nests, and not about named definitions, which are built when they are first asked for.
-/

namespace Assay

open Run.Refuses

namespace Value

/-! ## Sorted texts -/

theorem insertSorted?_of_texts {s : String} {vs : List Value} (h : ∀ v ∈ vs, ∃ t, v = .str t) :
    ∃ ws, insertSorted? (.str s) vs = some ws ∧ ∀ w ∈ ws, ∃ t, w = .str t := by
  induction vs with
  | nil => exact ⟨_, rfl, List.forall_mem_singleton.2 ⟨s, rfl⟩⟩
  | cons v vs ih =>
    obtain ⟨⟨t, rfl⟩, hvs⟩ := List.forall_mem_cons.1 h
    obtain ⟨ws, hws, htexts⟩ := ih hvs
    unfold insertSorted? before?
    dsimp only [Option.bind_eq_bind, Option.bind]
    split
    · exact ⟨_, rfl, List.forall_mem_cons.2 ⟨⟨s, rfl⟩, h⟩⟩
    · rw [hws]
      exact ⟨_, rfl, List.forall_mem_cons.2 ⟨⟨t, rfl⟩, htexts⟩⟩

/-- Texts have an order. -/
theorem sorted?_of_texts {vs : List Value} (h : ∀ v ∈ vs, ∃ t, v = .str t) :
    (sorted? vs).isSome = true := by
  have hfold (acc : List Value) (hacc : ∀ v ∈ acc, ∃ t, v = Value.str t) :
      ∃ ws, vs.foldlM (fun acc v => insertSorted? v acc) acc = some ws := by
    induction vs generalizing acc with
    | nil => exact ⟨acc, rfl⟩
    | cons v vs ih =>
      obtain ⟨⟨t, rfl⟩, hvs⟩ := List.forall_mem_cons.1 h
      obtain ⟨ws, hws, htexts⟩ := @insertSorted?_of_texts t acc hacc
      rw [List.foldlM_cons, hws]
      exact ih hvs ws htexts
  exact Option.isSome_iff_exists.2 (hfold [] (List.forall_mem_nil _))

/-- What a value yields is no deeper than the value. -/
theorem depth_iterate?_le {v w : Value} {vs : List Value} (h : v.iterate? = some vs) (hw : w ∈ vs) :
    w.depth ≤ v.depth := by
  have hatom {α : Type} {f : α → Value} {as : List α} (hf : ∀ a, (f a).depth = 0)
      (hw : w ∈ as.map f) : w.depth ≤ v.depth := by
    obtain ⟨a, -, rfl⟩ := List.mem_map.1 hw
    exact (hf a).symm ▸ Nat.zero_le _
  cases v with
  | str s =>
    cases h
    exact hatom (fun _ => rfl) hw
  | bytes data =>
    cases h
    exact hatom (fun _ => rfl) hw
  | list vs | tuple vs | set vs | frozenSet vs =>
    cases h
    exact Nat.le_succ_of_le (depth_le_depthAll hw)
  | dict es | view es =>
    cases h
    obtain ⟨e, he, rfl⟩ := List.mem_map.1 hw
    exact Nat.le_succ_of_le (depth_le_depthEntries he).1
  | cls c =>
    cases c <;> cases h
    exact hatom (fun _ => rfl) hw
  | _ => cases h

end Value

/-! ## Definitions -/

namespace OfDefinition

/-- The definitions that a definition nests. -/
def nested (d : Entries) : List Value :=
  match field d "type" with
  | .str tag =>
    (childFields tag).filterMap d.get? ++
      (listFields tag).flatMap (fun name => ((field d name).iterate?).getD []) ++
      if tag == "object" then (((field d "shape").entries?).getD []).map (·.2) else []
  | _ => []

/-- The fields of a definition can be read: its tag is a possible key, and so are the name of a
format, of a reference and of a discriminator; what is gone through are lists, checks are mappings
that can be read; and a further kind is given no field of the name of an argument. -/
structure ReadableFields (d : Entries) : Prop where
  tag : (field d "type").isHashable = true
  checks : (field d "checks").truthy = true → ∃ cs, (field d "checks").iterate? = some cs ∧
    ∀ c ∈ cs, ∃ e, c.entries? = some e ∧ ReadableCheck e
  format : field d "type" = .str "string" → (field d "format").truthy = true →
    (field d "format").isHashable = true
  values : field d "type" = .str "literal" → ∀ v, d.get? "values" = some v →
    v.iterate?.isSome = true
  entries : field d "type" = .str "enum" → (d.get? "entries").getD (field d "values") ≠ .null →
    ((d.get? "entries").getD (field d "values")).iterate?.isSome = true
  lists : ∀ tag, field d "type" = .str tag → ∀ name ∈ listFields tag,
    (field d name).truthy = true → (field d name).iterate?.isSome = true
  discriminator : field d "type" = .str "union" → (field d "discriminator").truthy = true →
    (field d "discriminator").isHashable = true
  name : ∀ tag ∈ ["ref", "lazy"], field d "type" = .str tag → (field d "name").isHashable = true
  further : ∀ tag, field d "type" = .str tag → tag ∉ tags →
    d.get? "kind" = none ∧ d.get? "self" = none

/-- The definition, and every definition nested in it, can be read. -/
inductive Readable : Value → Prop
  | intro {v : Value} : (∀ d, v.entries? = some d → ReadableFields d) →
      (∀ d, v.entries? = some d → ∀ x ∈ nested d, Readable x) → Readable v

variable {d : Entries}

theorem depth_get?_le {name : String} {v : Value} (h : d.get? name = some v) :
    v.depth ≤ Value.depthEntries d := by
  obtain ⟨e, he, rfl⟩ := Option.map_eq_some_iff.1 h
  exact (Value.depth_le_depthEntries (List.mem_of_find?_eq_some he)).2

theorem depth_field_le (name : String) : (field d name).depth ≤ Value.depthEntries d := by
  unfold field
  cases h : d.get? name with
  | none => exact Nat.zero_le _
  | some v => exact depth_get?_le h

/-- What is nested is less deep. -/
theorem depth_nested_lt {x : Value} (h : x ∈ nested d) : x.depth ≤ Value.depthEntries d := by
  unfold nested at h
  split at h
  · obtain h | h := List.mem_append.1 h
    · obtain h | h := List.mem_append.1 h
      · obtain ⟨name, -, hget⟩ := List.mem_filterMap.1 h
        exact depth_get?_le hget
      · obtain ⟨name, -, hx⟩ := List.mem_flatMap.1 h
        cases hvs : (field d name).iterate? with
        | none =>
          rw [hvs] at hx
          cases hx
        | some vs =>
          rw [hvs] at hx
          exact Nat.le_trans (Value.depth_iterate?_le hvs hx) (depth_field_le name)
    · split at h
      · obtain ⟨e, he, rfl⟩ := List.mem_map.1 h
        cases hes : (field d "shape").entries? with
        | none =>
          rw [hes] at he
          cases he
        | some es =>
          rw [hes] at he
          exact Nat.le_trans (Nat.le_of_lt (Value.depth_entry_lt hes e he).2)
            (depth_field_le "shape")
      · cases h
  · cases h

/-! ## Building -/

theorem warnUnknown_refuses (hd : (Value.dict d).isJson = true) (tag : String) :
    (warnUnknown d tag).Refuses := by
  refine (ofOption (Value.sorted?_of_texts fun v hv => ?_)).bind fun ignored => ?_
  · obtain ⟨e, he, rfl⟩ := List.mem_map.1 hv
    exact ((Value.isJson_dict.1 hd).1 e (List.mem_of_mem_filter he)).1
  · split
    · exact logLine
    · exact pure

theorem checks_refuses (strict : Bool) {cs : List Value}
    (h : ∀ c ∈ cs, ∃ e, c.entries? = some e ∧ ReadableCheck e) : (checks strict cs).Refuses := by
  induction cs with
  | nil => exact pure
  | cons c cs ih =>
    obtain ⟨⟨e, he, hcheck⟩, hcs⟩ := List.forall_mem_cons.1 h
    have hfirst : (buildCheck c).Refuses := by
      unfold buildCheck
      rw [he]
      exact check_refuses hcheck
    refine hfirst.attempt (fun check => (ih hcs).bind fun _ => pure) fun cause => ?_
    dsimp only
    split
    · exact refuse
    · exact logLine.bind fun _ => ih hcs

theorem checksOf_refuses (h : ReadableFields d) (strict : Bool) : (checksOf strict d).Refuses := by
  unfold checksOf
  dsimp only
  split
  · rename_i hgiven
    obtain ⟨cs, hcs, hchecks⟩ := h.checks hgiven
    unfold Construct.items
    rw [hcs]
    exact checks_refuses strict hchecks
  · exact checks_refuses strict (List.forall_mem_nil _)

theorem withError_refuses (error : Value) (s : Schema Value) : (withError error s).Refuses := by
  unfold withError
  split
  · exact freshRef.bind fun _ => pure
  · exact pure

theorem attach_refuses (h : ReadableFields d) (scope : Scope) (s : Schema Value) :
    (attach scope d s).Refuses := by
  rw [attach_eq]
  refine (checksOf_refuses h _).bind fun checks => ?_
  split
  · exact withError_refuses _ _
  · exact freshRef.bind fun _ => withError_refuses _ _

theorem ne_of_get?_eq_none {name : String} (h : d.get? name = none) :
    ∀ e ∈ d, e.1 ≠ .str name := by
  intro e he hname
  have hfound := Entries.find?_eq_none.1 h e he
  rw [hname, Value.isFound_refl] at hfound
  cases hfound

theorem generic_refuses (hd : (Value.dict d).isJson = true) (h : ReadableFields d)
    (htag : ∀ tag, field d "type" = .str tag → tag ∉ tags) (scope : Scope) :
    (generic scope d).Refuses := by
  unfold generic
  dsimp only
  split
  · rename_i tag hkind
    refine .reading fun σ => ?_
    obtain ⟨hnoKind, hnoSelf⟩ := h.further tag hkind (htag tag hkind)
    split
    · exact refuse_bind
    · refine (checksOf_refuses h _).bind fun checks => (mapM fun e he => ?_).bind fun extra =>
        Construct.make_refuses _ rfl
      have hmem := List.mem_of_mem_filter he
      obtain ⟨name, hname⟩ := ((Value.isJson_dict.1 hd).1 e hmem).1
      split
      · exact absurd ‹_› (ne_of_get?_eq_none hnoKind e hmem)
      · exact absurd ‹_› (ne_of_get?_eq_none hnoSelf e hmem)
      · exact pure
      · exact absurd hname (‹∀ name, e.1 = .str name → False› name)
  · exact refuse

section

variable {build : Value → Run (Schema Value)} (hbuild : ∀ x ∈ nested d, (build x).Refuses)

include hbuild

theorem child_refuses {tag name : String} (htag : field d "type" = .str tag)
    (hname : name ∈ childFields tag) : (child build d name).Refuses := by
  unfold child
  cases hv : d.get? name with
  | none => exact refuse
  | some v =>
    refine (hbuild v ?_).map
    unfold nested
    rw [htag]
    exact List.mem_append_left _ (List.mem_append_left _ (List.mem_filterMap.2 ⟨name, hname, hv⟩))

theorem child?_refuses {tag name : String} (htag : field d "type" = .str tag)
    (hname : name ∈ childFields tag) : (child? build (field d name)).Refuses := by
  unfold child? field
  cases hv : d.get? name with
  | none => exact pure
  | some v =>
    dsimp only [Option.getD_some]
    split
    · exact pure
    · refine (hbuild v ?_).map
      unfold nested
      rw [htag]
      exact List.mem_append_left _ (List.mem_append_left _ (List.mem_filterMap.2 ⟨name, hname, hv⟩))

theorem children_refuses {vs : List Value} (h : ∀ v ∈ vs, v ∈ nested d) :
    (children build vs).Refuses := by
  induction vs with
  | nil => exact pure
  | cons v vs ih =>
    obtain ⟨hv, hvs⟩ := List.forall_mem_cons.1 h
    exact (hbuild v hv).bind fun _ => (ih hvs).bind fun _ => pure

/-- The definitions of a list field, built one by one. -/
theorem listed_refuses (h : ReadableFields d) {tag name : String}
    (htag : field d "type" = .str tag) (hname : name ∈ listFields tag) {α : Type}
    {f : List Value → Run α} (hf : ∀ ss, (f ss).Refuses) :
    (listed d name >>= fun vs => children build vs >>= f).Refuses := by
  unfold listed Construct.items
  dsimp only
  split
  · rename_i hgiven
    obtain ⟨vs, hvs⟩ := Option.isSome_iff_exists.1 (h.lists tag htag name hname hgiven)
    rw [hvs]
    have hchildren : (children build vs).Refuses := children_refuses hbuild fun v hv => by
      unfold nested
      rw [htag]
      refine List.mem_append_left _ (List.mem_append_right _ (List.mem_flatMap.2 ⟨name, hname, ?_⟩))
      rwa [hvs]
    exact hchildren.bind hf
  · exact hf []

theorem shape_refuses {es : Entries} (h : ∀ e ∈ es, e.2 ∈ nested d) : (shape build es).Refuses := by
  induction es with
  | nil => exact pure
  | cons e es ih =>
    obtain ⟨he, hes⟩ := List.forall_mem_cons.1 h
    exact (hbuild e.2 he).bind fun _ => (ih hes).bind fun _ => pure

end

theorem scalar_refuses (h : ReadableFields d) {tag : String} (htag : field d "type" = .str tag) :
    (scalar d tag).Refuses := by
  unfold scalar
  dsimp only
  split
  · split
    · exact Construct.namedFormat_refuses (h.format htag ‹_›) rfl _
    · exact Construct.make_plain_refuses _
  · split
    · exact Construct.make_plain_refuses _
    · split
      · exact refuse
      · exact Construct.make_plain_refuses _

theorem enumerated_refuses (h : ReadableFields d) {tag : String}
    (htag : tag = "literal" ∨ tag = "enum") (hfield : field d "type" = .str tag) :
    (enumerated d tag).Refuses := by
  unfold enumerated
  split
  · split
    · rename_i hvalues
      exact (Construct.items_refuses (h.values hfield _ hvalues)).bind fun _ =>
        Construct.literal_refuses _
    · exact Construct.literal_refuses _
    · exact refuse
  · rename_i hne
    obtain rfl := htag.resolve_left hne
    split
    · exact refuse
    · exact Construct.enumeration_refuses (h.entries hfield ‹_›)

theorem reference_refuses {scope : Scope} (hscope : scope.IsJson)
    (h : (field d "name").isHashable = true) : (reference scope d).Refuses := by
  refine (Construct.hashable_refuses h).bind fun name => ?_
  split
  · exact Construct.lazy_refuses _ _
  · refine (ofOption (Value.sorted?_of_texts fun v hv => ?_)).bind fun _ => refuse
    obtain ⟨e, he, rfl⟩ := List.mem_map.1 hv
    exact ((Value.isJson_dict.1 hscope).1 e he).1

section

variable {build : Value → Run (Schema Value)} (hbuild : ∀ x ∈ nested d, (build x).Refuses)

include hbuild

theorem object_refuses (htag : field d "type" = .str "object") : (object build d).Refuses := by
  unfold object
  dsimp only
  split
  · exact refuse
  · rename_i es hes
    have hshape : (shape build es).Refuses := shape_refuses hbuild fun e he => by
      unfold nested
      rw [htag]
      refine List.mem_append_right _ (List.mem_map.2 ⟨e, ?_, rfl⟩)
      split at hes
      · rwa [hes]
      · cases hes
        cases he
    exact hshape.bind fun _ => (child?_refuses hbuild htag (by simp [childFields])).bind fun _ =>
      Construct.object_refuses _ _ _

theorem union_refuses (h : ReadableFields d) (htag : field d "type" = .str "union") :
    (union build d).Refuses := by
  refine listed_refuses hbuild h htag (by simp [listFields]) fun options => ?_
  dsimp only
  split
  · exact Construct.discriminatedUnion_refuses (h.discriminator htag ‹_›) _
  · exact (Construct.optionsOf_refuses _).bind fun _ => Construct.make_plain_refuses _

theorem form_refuses (h : ReadableFields d) {scope : Scope} (hscope : scope.IsJson) {tag : String}
    (htag : field d "type" = .str tag) : (form build scope d tag).Refuses := by
  have hone {name : String} (place : String) (f : Schema Value → Form Value (Schema Value))
      (hname : name ∈ childFields tag) :
      (child build d name >>= fun v => do
        Construct.make (f (← Construct.schemaAt place v)) {} : Run (Schema Value)).Refuses :=
    (child_refuses hbuild htag hname).bind fun _ => Construct.around_refuses _ _ _
  have htwo {name name' : String} (place place' : String)
      (f : Schema Value → Schema Value → Form Value (Schema Value))
      (hname : name ∈ childFields tag) (hname' : name' ∈ childFields tag) :
      (child build d name >>= fun v => child build d name' >>= fun v' => do
        let s ← Construct.schemaAt place v
        let t ← Construct.schemaAt place' v'
        Construct.make (f s t) {} : Run (Schema Value)).Refuses :=
    (child_refuses hbuild htag hname).bind fun _ => (child_refuses hbuild htag hname').bind
      fun _ => Construct.between_refuses _ _ _ _ _
  unfold form
  dsimp only
  -- One case for each tag, and one for a tag that is none.
  split
  · exact scalar_refuses h htag
  · exact scalar_refuses h htag
  · exact Construct.make_plain_refuses _
  · exact Construct.make_plain_refuses _
  · exact Construct.make_plain_refuses _
  · exact Construct.make_plain_refuses _
  · exact Construct.make_plain_refuses _
  · exact Construct.make_plain_refuses _
  · exact enumerated_refuses h (.inl rfl) htag
  · exact enumerated_refuses h (.inr rfl) htag
  · exact object_refuses hbuild htag
  · exact hone _ _ (by simp [childFields])
  · exact listed_refuses hbuild h htag (by simp [listFields]) fun _ =>
      (child?_refuses hbuild htag (by simp [childFields])).bind fun _ =>
        Construct.tuple_refuses _ _
  · exact htwo _ _ _ (by simp [childFields]) (by simp [childFields])
  · exact htwo _ _ _ (by simp [childFields]) (by simp [childFields])
  · exact hone _ _ (by simp [childFields])
  · exact union_refuses hbuild h htag
  · exact (child_refuses hbuild htag (by simp [childFields])).bind fun _ =>
      (child_refuses hbuild htag (by simp [childFields])).bind fun _ =>
        (Construct.side_refuses _ _).bind fun _ => (Construct.side_refuses _ _).bind fun _ =>
          Construct.make_plain_refuses _
  · exact hone _ _ (by simp [childFields])
  · exact hone _ _ (by simp [childFields])
  · exact hone _ _ (by simp [childFields])
  · exact hone _ _ (by simp [childFields])
  · exact hone _ _ (by simp [childFields])
  · exact hone _ _ (by simp [childFields])
  · exact hone _ _ (by simp [childFields])
  · exact htwo _ _ _ (by simp [childFields]) (by simp [childFields])
  · exact reference_refuses hscope (h.name _ (by simp) htag)
  · exact reference_refuses hscope (h.name _ (by simp) htag)
  · exact refuse

end

/-- What is nested in a plain definition is plain. -/
theorem nested_isJson (hd : (Value.dict d).isJson = true) : ∀ x ∈ nested d, x.isJson = true := by
  have hfield (name : String) : (field d name).isJson = true := Value.isJson_field hd name
  intro x hx
  unfold nested at hx
  split at hx
  · obtain hx | hx := List.mem_append.1 hx
    · obtain hx | hx := List.mem_append.1 hx
      · obtain ⟨name, -, hget⟩ := List.mem_filterMap.1 hx
        have hname := hfield name
        unfold field at hname
        rwa [hget] at hname
      · obtain ⟨name, -, hx⟩ := List.mem_flatMap.1 hx
        cases hvs : (field d name).iterate? with
        | none =>
          rw [hvs] at hx
          cases hx
        | some vs =>
          rw [hvs] at hx
          exact Value.isJson_iterate? (hfield name) hvs _ hx
    · split at hx
      · obtain ⟨e, he, rfl⟩ := List.mem_map.1 hx
        have hshape := hfield "shape"
        cases hv : field d "shape" with
        | dict es =>
          rw [hv] at he hshape
          exact ((Value.isJson_dict.1 hshape).1 e he).2
        | view es =>
          rw [hv] at hshape
          exact absurd hshape Bool.false_ne_true
        | _ =>
          rw [hv] at he
          cases he
      · cases hx
  · cases hx

/-- A plain definition that can be read is built or refused with a definition error. The depth that
is left suffices for what is nested. -/
theorem build_refuses {scope : Scope} (hscope : scope.IsJson) (depth : Nat) {x : Value}
    (hx : x.isJson = true) (h : Readable x) (hdepth : x.depth ≤ depth) :
    (build scope depth x).Refuses := by
  induction depth generalizing x with
  | zero =>
    -- A mapping is no less than one deep, so this is none.
    unfold build
    cases x with
    | dict d => cases hdepth
    | view d => cases hdepth
    | _ => exact refuse
  | succ depth ih =>
    unfold build
    cases x with
    | dict d =>
      cases h with
      | intro hfields hnested =>
        have hfields := hfields d rfl
        have hbuild : ∀ y ∈ nested d, (build scope depth y).Refuses := fun y hy =>
          ih (nested_isJson hx y hy) (hnested d rfl y hy)
            (Nat.le_trans (depth_nested_lt hy) (Nat.le_of_succ_le_succ hdepth))
        dsimp only [Value.entries?]
        unfold Construct.hashable
        rw [if_pos hfields.tag]
        show Run.Refuses (match field d "type" with
          | .str tag =>
            if tags.contains tag then
              warnUnknown d tag >>= fun _ => form (build scope depth) scope d tag >>= attach scope d
            else generic scope d
          | _ => generic scope d)
        split
        · rename_i tag htag
          split
          · exact (warnUnknown_refuses hx tag).bind fun _ =>
              (form_refuses hbuild hfields hscope htag).bind fun s => attach_refuses hfields scope s
          · refine generic_refuses hx hfields (fun tag' htag' => ?_) scope
            obtain rfl := Value.str.inj (htag.symm.trans htag')
            exact fun hmem => ‹¬_› (List.contains_iff_mem.2 hmem)
        · refine generic_refuses hx hfields (fun tag htag => ?_) scope
          exact absurd htag (‹∀ tag, field d "type" = .str tag → False› tag)
    | view d => cases hx
    | _ => exact refuse

theorem createSchema_refuses {c : Entries} (hc : (Value.dict c).isJson = true)
    (h : Readable (.dict (mainOf c))) (strict : Bool) : (createSchema c strict).Refuses := by
  obtain ⟨line, heq⟩ := createSchema_eq c strict
  rw [heq]
  cases htable : tableOf? c with
  | none => exact refuse
  | some table =>
    refine logLine.bind fun _ => freshRef.bind fun id => .changing ?_
    have hscope : Scope.IsJson ⟨id, table, strict⟩ := tableOf?_isJson hc htable
    exact build_refuses hscope _ (mainOf_isJson hc) h (Nat.le_refl _)

end OfDefinition

open OfDefinition

/-- A malformed definition is refused with a definition error: building from a plain definition that
can be read ends with a schema or with such an error, in every session and whether strictly or
not. -/
theorem malformed_definitions_refused {c : Entries} (hc : (Value.dict c).isJson = true)
    (hself : c.get? "self" = none) (h : Readable (.dict (mainOf c))) (strict : Bool) (σ : Session) :
    (∃ s, (buildSchema (.dict c) strict).answer σ = .ok s) ∨
      ∃ cause, (buildSchema (.dict c) strict).answer σ = .error (.definition cause) := by
  -- The fields are given as arguments by name, of which one is taken already.
  have hguard : (c.any fun e => e.1.str?.isNone || e.1.str? == some "self") = false := by
    refine List.any_eq_false.2 fun e he => ?_
    obtain ⟨name, hname⟩ := ((Value.isJson_dict.1 hc).1 e he).1
    have hne : name ≠ "self" := fun heq => ne_of_get?_eq_none hself e he (heq ▸ hname)
    simpa [hname, Value.str?] using hne
  have hbuild : buildSchema (.dict c) strict = createSchema c strict := by
    show (if (c.any fun e => e.1.str?.isNone || e.1.str? == some "self") then
      throw .unsupported else createSchema c strict) = _
    rw [hguard]
    rfl
  rw [hbuild]
  cases hanswer : (createSchema c strict).answer σ with
  | ok s => exact .inl ⟨s, rfl⟩
  | error fault =>
    obtain ⟨cause, rfl⟩ := createSchema_refuses hc h strict σ fault hanswer
    exact .inr ⟨cause, rfl⟩

/-- The definition of texts of a format that there is not. -/
def loudText : Entries := [(.str "type", .str "string"), (.str "format", .str "loud")]

/-- A definition that nests it. -/
def loudTexts : Entries := [(.str "type", .str "array"), (.str "element", .dict loudText)]

/-- The unknown format is in the element of the array. It can be read, and so it is refused with a
definition error. -/
theorem malformed_definitions_refused_format :
    (Value.dict loudTexts).isJson = true ∧ loudTexts.get? "self" = none ∧
      Readable (.dict (mainOf loudTexts)) ∧
      ∃ cause, (buildSchema (.dict loudTexts) true).answer {} = .error (.definition cause) := by
  have htext : ReadableFields loudText :=
    { tag := rfl
      checks := nofun
      format := fun _ _ => rfl
      values := nofun
      entries := nofun
      lists := fun tag htag => by cases htag; nofun
      discriminator := nofun
      name := fun tag hmem htag => by cases htag; exact absurd hmem (by decide)
      further := fun tag htag hnot => by cases htag; exact absurd (by decide) hnot }
  have harray : ReadableFields (mainOf loudTexts) :=
    { tag := rfl
      checks := nofun
      format := nofun
      values := nofun
      entries := nofun
      lists := fun tag htag => by cases htag; nofun
      discriminator := nofun
      name := fun tag hmem htag => by cases htag; exact absurd hmem (by decide)
      further := fun tag htag hnot => by cases htag; exact absurd (by decide) hnot }
  have hreadable : Readable (.dict (mainOf loudTexts)) := by
    refine .intro (fun d hd => Option.some.inj hd ▸ harray) fun d hd x hx => ?_
    cases hd
    obtain rfl := List.mem_singleton.1 hx
    refine .intro (fun e he => Option.some.inj he ▸ htext) fun e he y hy => ?_
    cases he
    cases hy
  obtain ⟨s, hs⟩ | herror :=
    malformed_definitions_refused (by decide) (by decide) hreadable true {}
  · cases hs
  · exact ⟨by decide, by decide, hreadable, herror⟩

/-- A tag that is a list cannot be looked up: what it ends with is no definition error. -/
theorem unreadable_tag_not_refused :
    (buildSchema (.dict [(.str "type", .list [])]) true).answer {} = .error .unsupported := by
  rfl

end Assay
