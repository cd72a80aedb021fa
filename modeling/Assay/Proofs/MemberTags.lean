import Assay.Proofs.Absence
import Assay.Proofs.Immediate
import Assay.Proofs.ListedKeys
import Assay.Proofs.StockFunctions

/-!
# Members as tags

An option of a discriminated union may tell its inputs by a field that lists the members of a class.
The table of the union has the values of the members, while the field accepts the members beside
their values. So the union accepts the same as the plain union of its options when the tag is no
member that a field knows, the values of the members included, and nothing when the tag is one that
is not listed as a value (`Schema.SelectsBy`, `discriminated_by_tag`). The plain union accepts such
a member (`member_not_discriminated`).
-/

namespace Assay

open Run Construct

variable {host : Host} {σ τ : Session} {ctx : Context} {thorough : Bool} {s o field : Schema Value}
  {d v w : Value} {values : List Value} {data : Entries} {fuel : Nat}

/-! ## Fields that list values -/

/-- What a schema lists is the same as one of its values, but for the members of its class. -/
theorem same_of_lists (hvalues : enumerated? field = some values) (hmembers : field.ListsMembers)
    (hformed : ∀ x ∈ values, x.wellFormed = true) (h : field.lists v = true) :
    (∃ x ∈ values, v.same x = true) ∨ field.HasMember v := by
  unfold enumerated? at hvalues
  unfold Schema.lists at h
  cases hform : field.form with
  | literal listed =>
    simp only [hform, Option.some.injEq] at hvalues h
    subst hvalues
    exact .inl (List.any_eq_true.1 h)
  | enumeration entries cls =>
    simp only [hform, Option.some.injEq] at hvalues h
    subst hvalues
    cases cls with
    | some c =>
      obtain rfl := hmembers entries c hform
      obtain ⟨m, hm⟩ := Option.isSome_iff_exists.1 h
      rcases memberOf?_cases hm with ⟨d, name, w, rfl, hd⟩ | ⟨n, hn, hsame⟩
      · exact .inr ⟨_, c, d, name, w, hform, rfl, hd⟩
      · -- The class compares its values with the tag, and the table the tag with its values.
        have hmem : n.2 ∈ (c.members.map fun m => (Value.str m.1, m.2)).map (·.2) :=
          List.mem_map_of_mem (List.mem_map_of_mem hn)
        exact .inl ⟨n.2, hmem, Value.same_symm (hformed _ hmem) hsame⟩
    | none => exact .inl (List.any_eq_true.1 h)
  | _ => simp [hform] at hvalues

/-- A schema that lists values accepts nothing else. -/
theorem lists_of_meaning (hvalues : enumerated? field = some values) (hown : field.IsOwn σ)
    (h : meaning host σ ctx thorough fuel field v = .ok (.ok w)) : field.lists v = true := by
  cases fuel with
  | zero => cases h
  | succ fuel =>
    obtain ⟨u, hu, -⟩ := meaning_accepts hown h
    unfold enumerated? at hvalues
    unfold Meaning.form at hu
    unfold Schema.lists
    cases hform : field.form with
    | literal listed =>
      simp only [hform, Scalar.literal, Except.ok.injEq] at hu
      split at hu
      · assumption
      · cases hu
    | enumeration entries cls =>
      simp only [hform, Except.ok.injEq] at hu
      cases cls with
      | some c => exact Option.isSome_iff_exists.2 ⟨u, enumeration_members.1 hu⟩
      | none => simpa using (enumeration_values.1 hu).2
    | _ => simp [hform] at hvalues

/-! ## Options that are told by their tags -/

/-- An option tells its inputs by a field: it is read as what it is, and its field lists values or
the members of a class. -/
structure Schema.TellsBy (σ : Session) (d : Value) (o : Schema Value) : Prop where
  own : o.IsOwn σ
  keys : ∀ shape policy catchall, o.form = .object shape policy catchall →
    ∀ f ∈ shape, f.1.isFound d = true → f.1.wellFormed = true ∧ f.2.IsOwn σ ∧ f.2.ListsMembers ∧
      ∀ values, enumerated? f.2 = some values → ∀ x ∈ values, x.wellFormed = true
  nested : ∀ schemas d' table, o.form = .discriminatedUnion schemas d' table → d'.wellFormed = true

/-- The field by which the option tells its inputs lists the members of a class, of which the tag is
one. -/
def Schema.KnowsMember (o : Schema Value) (d tag : Value) : Prop :=
  ∃ shape policy catchall f, o.form = .object shape policy catchall ∧ f ∈ shape ∧
    f.1.isFound d = true ∧ f.2.HasMember tag

/-- An option accepts only mappings with a tag that it offers, or with a member that it knows. -/
theorem Schema.Offers.same_tag (h : o.Offers d values) (htells : o.TellsBy σ d)
    (hdata : v.entries? = some data) (htag : ¬ o.KnowsMember d ((data.find? d).getD .missing))
    (hv : meaning host σ ctx thorough fuel o v = .ok (.ok w)) :
    ∃ x ∈ values, ((data.find? d).getD .missing).same x = true := by
  refine h.same_of htells.own htells.nested hdata (fun _ _ _ f hform hf hkey hvalues => ?_) hv
  obtain ⟨hformed, hown, hmembers, hvaluesformed⟩ := htells.keys _ _ _ hform f hf hkey
  refine ⟨hformed, fun _ _ hw => ?_⟩
  have hlists := lists_of_meaning hvalues hown hw
  refine (same_of_lists hvalues hmembers (hvaluesformed _ hvalues) hlists).resolve_right ?_
  exact fun hmember => htag ⟨_, _, _, f, hform, hf, hkey, hmember⟩

theorem Schema.Offers.unique {values' : List Value} (h : o.Offers d values)
    (h' : o.Offers d values') : values = values' := by
  cases h with
  | field hform hfound hvalues =>
    cases h' with
    | field hform' hfound' hvalues' =>
      cases hform.symm.trans hform'
      cases hfound.symm.trans hfound'
      exact Option.some.inj (hvalues.symm.trans hvalues')
    | nested hform' => cases hform.symm.trans hform'
  | nested hform =>
    cases h' with
    | field hform' => cases hform.symm.trans hform'
    | nested hform' =>
      cases hform.symm.trans hform'
      rfl

/-- Every entry of a table is offered by an option. -/
theorem tableFrom_offered {index : Nat} {schemas : List (Schema Value)}
    {table table' : List (Value × Nat)} {σ τ : Session} (hapart : Apart table)
    (h : (tableFrom d index schemas table).exec σ = (.ok table', τ)) :
    ∀ e ∈ table', e ∈ table ∨ ∃ o ∈ schemas, ∃ values, o.Offers d values ∧ e.1 ∈ values := by
  induction schemas generalizing index table σ with
  | nil =>
    cases h
    exact fun e he => .inl he
  | cons o schemas ih =>
    obtain ⟨values, ρ, hvalues, h⟩ := Run.bind_exec_ok.1 h
    obtain ⟨more, ρ', hmore, h⟩ := Run.bind_exec_ok.1 h
    obtain ⟨rfl, hapart⟩ := addValues_ok hapart hmore
    intro e he
    -- The rest of the options goes on with the table to which this one has added its values.
    rcases ih hapart h e he with he | ⟨t, ht, hoffers⟩
    · rcases List.mem_append.1 he with he | he
      · exact .inl he
      · obtain ⟨x, hx, rfl⟩ := List.mem_map.1 he
        exact .inr ⟨o, List.mem_cons_self, values, discriminatorValues_offers hvalues, hx⟩
    · exact .inr ⟨t, List.mem_cons_of_mem _ ht, hoffers⟩

/-- Every entry of the table of a discriminated union is offered by one of its options. -/
theorem discriminatedUnion_offered {options error : Value} {s : Schema Value} {σ τ : Session}
    (h : (discriminatedUnion d options { error := error }).exec σ = (.ok s, τ))
    {schemas : List (Schema Value)} {table : List (Value × Nat)}
    (hform : s.form = .discriminatedUnion schemas d table) :
    ∀ e ∈ table, ∃ o ∈ schemas, ∃ values, o.Offers d values ∧ e.1 ∈ values := by
  obtain ⟨schemas', ρ, hschemas, h⟩ := Run.bind_exec_ok.1 h
  obtain ⟨checks, ρ', -, h⟩ := Run.bind_exec_ok.1 h
  obtain ⟨table', ρ'', htable, h⟩ := Run.bind_exec_ok.1 h
  cases hform.symm.trans (make_ok rfl h).1
  exact fun e he => (tableFrom_offered List.Pairwise.nil htable e he).resolve_left nofun

/-! ## What is accepted -/

/-- A discriminated union accepts the same as a plain one when the tag is no member that an option
knows. When the tag is the same as a value that an option offers, it accepts the same as this
option, and otherwise nothing. -/
structure Schema.SelectsBy (host : Host) (σ : Session) (ctx : Context) (s u : Schema Value)
    (d tag v : Value) : Prop where
  agrees : (∀ o ∈ s.form.parts, ¬ o.KnowsMember d tag) →
    ∀ w, s.AcceptsAs host σ ctx v w ↔ u.AcceptsAs host σ ctx v w
  offered : ∀ o ∈ s.form.parts, ∀ values, o.Offers d values → (∃ x ∈ values, tag.same x = true) →
    ∀ w, s.AcceptsAs host σ ctx v w ↔ o.AcceptsAs host σ ctx v w
  unlisted : (∀ o ∈ s.form.parts, ∀ values, o.Offers d values → ∀ x ∈ values, tag.same x = false) →
    ∀ w, ¬ s.AcceptsAs host σ ctx v w

/-- A discriminated union without checks of its own reads a mapping by the values that its options
list, provided that no option raises a fault. -/
theorem discriminated_by_tag {options error error' : Value} {u : Schema Value} {τ τ' : Session}
    (hs : (discriminatedUnion d options { error := error }).answer τ = .ok s)
    (hu : (Construct.union options { error := error' }).answer τ' = .ok u)
    (hpure : s.IsPure host σ)
    (hkind : σ.kinds.evaluator? (.str "union") = .ok (.builtin .evaluateNode))
    (hd : d.isHashable = true) (htells : ∀ o ∈ s.form.parts, o.TellsBy σ d)
    (hv : v.wellFormed = true) (hdata : v.entries? = some data)
    (hquiet : ∀ o ∈ s.form.parts, ∃ outcome,
      (evaluate host (ctx.mayWait false) o.budget o v).answer σ = .ok outcome) :
    s.SelectsBy host σ ctx u d ((data.find? d).getD .missing) v := by
  obtain ⟨table, htable, hform, hreads⟩ := discriminates hs hu hpure hkind hd hdata hquiet
  constructor
  case agrees =>
    intro hunknown
    refine hreads.union fun o ho w hw => htable.picks_offering hv hdata ho fun values hoffers => ?_
    rw [hpure.parse_answer ctx (.part .self ho), parsed_accepted] at hw
    exact hoffers.same_tag (htells o ho) hdata (hunknown o ho) hw
  case offered =>
    intro o ho values hoffers hsame w
    have hpick := htable.picks_offering hv hdata ho fun values' hoffers' =>
      hoffers.unique hoffers' ▸ hsame
    exact iff_of_eq (congrArg (· = _) (hreads.picked o hpick))
  case unlisted =>
    intro hnone
    refine hreads.unpicked ?_
    have hmissing : table.find? (fun e => ((data.find? d).getD .missing).same e.1) = none := by
      refine List.find?_eq_none.2 fun e he => ?_
      obtain ⟨o, ho, values, hoffers, hmem⟩ :=
        discriminatedUnion_offered (Prod.ext hs rfl) hform e he
      rw [hnone o ho values hoffers e.1 hmem]
      exact Bool.false_ne_true
    rw [pickOption, hmissing]
    rfl

namespace Coloured

open Listed Stock

/-- Mappings whose kind the schema lists. -/
def ofKind (kind : Schema Value) : Schema Value :=
  ⟨4, .str "object", .object [(.str "kind", kind)] .strip none, [], [], .null⟩

/-- A member of the class, or a letter. -/
def options : List (Schema Value) := [ofKind colors, ofKind letter]

/-- The two options picked by their kinds. -/
def picking : Schema Value :=
  ⟨0, .str "union", .discriminatedUnion options (.str "kind") [(.str "r", 0), (.str "a", 1)], [],
    [], .null⟩

/-- The two options tried in turn. -/
def trying : Schema Value := ⟨0, .str "union", .union options, [], [], .null⟩

theorem picking_made : (discriminatedUnion (.str "kind") (.list (options.map .schema)) {}).answer {}
    = .ok picking := rfl

theorem trying_made : (Construct.union (.list (options.map .schema)) {}).answer {}
    = .ok trying := rfl

def kinded (kind : Value) : Value := .dict [(.str "kind", kind)]

theorem picking_isPure : picking.IsPure (hostThat false) {} := by
  have hreached : ∀ t, picking.Reaches (hostThat false) {} t →
      t = picking ∨ (t = ofKind colors ∨ t = ofKind letter) ∨ t = colors ∨ t = letter := by
    intro t ht
    induction ht with
    | self => exact .inl rfl
    | part _ hu ih =>
      rcases ih with rfl | (rfl | rfl) | rfl | rfl
      · exact .inr (.inl (List.mem_pair.1 hu))
      · exact .inr (.inr (.inl (List.mem_singleton.1 hu)))
      · exact .inr (.inr (.inr (List.mem_singleton.1 hu)))
      · cases hu
      · cases hu
    | lazily _ hform _ ih => rcases ih with rfl | (rfl | rfl) | rfl | rfl <;> cases hform
  refine isPure_of_silent fun t ht => ?_
  rcases hreached t ht with rfl | (rfl | rfl) | rfl | rfl <;>
    exact ⟨rfl, fun fn hfn => by cases hfn; rfl⟩

theorem forall_options {property : Schema Value → Prop} (hcolors : property (ofKind colors))
    (hletter : property (ofKind letter)) : ∀ o ∈ picking.form.parts, property o := by
  intro o ho
  rcases List.mem_pair.1 ho with rfl | rfl
  · exact hcolors
  · exact hletter

/-- The options are told by their kinds. -/
theorem picking_tells : ∀ o ∈ picking.form.parts, o.TellsBy {} (.str "kind") := by
  have htells {kind : Schema Value} (hown : kind.IsOwn {}) (hmembers : kind.ListsMembers)
      (hformed : ∀ values, enumerated? kind = some values → ∀ x ∈ values, x.wellFormed = true) :
      (ofKind kind).TellsBy {} (.str "kind") := by
    refine ⟨fun fn hfn => by cases hfn; rfl, ?_, fun _ _ _ h => nomatch h⟩
    rintro _ _ _ ⟨⟩ f hf -
    rw [List.mem_singleton.1 hf]
    exact ⟨rfl, hown, hmembers, hformed⟩
  refine forall_options (htells (fun fn hfn => by cases hfn; rfl) ?_ ?_)
    (htells (fun fn hfn => by cases hfn; rfl) nofun ?_)
  · rintro _ _ ⟨⟩
    rfl
  · rintro _ ⟨⟩
    exact List.forall_mem_singleton.2 rfl
  · rintro _ ⟨⟩
    exact List.forall_mem_singleton.2 rfl

/-- No option knows a text as a member. -/
theorem not_knowsMember (text : String) :
    ∀ o ∈ picking.form.parts, ¬ o.KnowsMember (.str "kind") (.str text) := by
  rintro o - ⟨_, _, _, _, -, -, -, _, _, _, _, _, -, hmember, -⟩
  cases hmember

end Coloured

open Coloured Listed Stock in
/-- By the value of a member its option is picked, and found by the union. -/
theorem discriminated_by_tag_value :
    (∀ w, picking.AcceptsAs (hostThat false) {} {} (kinded (.str "r")) w ↔
      trying.AcceptsAs (hostThat false) {} {} (kinded (.str "r")) w) ∧
    picking.AcceptsAs (hostThat false) {} {} (kinded (.str "r")) (kinded red) := by
  have hdata : (kinded (.str "r")).entries? = some [(.str "kind", .str "r")] := rfl
  have hselects : picking.SelectsBy (hostThat false) {} {} trying (.str "kind") (.str "r")
      (kinded (.str "r")) :=
    discriminated_by_tag picking_made trying_made picking_isPure rfl rfl picking_tells rfl hdata
      (forall_options ⟨_, rfl⟩ ⟨_, rfl⟩)
  exact ⟨hselects.agrees (not_knowsMember "r"), rfl⟩

open Coloured Listed Stock in
/-- By the member itself no option is picked, while the union finds its option. -/
theorem member_not_discriminated :
    (discriminatedUnion (.str "kind") (.list (options.map .schema)) {}).answer {} = .ok picking ∧
      (Construct.union (.list (options.map .schema)) {}).answer {} = .ok trying ∧
      (∀ o ∈ options, ∃ outcome, (evaluate (hostThat false) (Context.mayWait {} false) o.budget o
        (kinded red)).answer {} = .ok outcome) ∧
      trying.AcceptsAs (hostThat false) {} {} (kinded red) (kinded red) ∧
      ¬ picking.AcceptsAs (hostThat false) {} {} (kinded red) (kinded red) :=
  ⟨rfl, rfl, forall_options ⟨_, rfl⟩ ⟨_, rfl⟩, rfl, nofun⟩

end Assay
