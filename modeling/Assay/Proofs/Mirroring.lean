import Assay.Proofs.Creating
import Assay.Proofs.Warnings

/-!
# Places in definitions and descriptions

A place in a definition is a path of steps into nested definitions (`OfDefinition.NodeAt`), and the
same path leads through a description (`Value.at?`). A schema mirrors a definition if its
description shows at every place what the definition says there (`OfDefinition.Mirrors`): its
switch, its message and its checks. This follows from what the form of the schema shows and from
what it shares with all schemas (`OfDefinition.mirrors_of_form`,
`OfDefinition.mirrors_of_further`).
-/

namespace Assay

open Run Value

namespace OfDefinition

/-! ## Places -/

/-- A step into a definition: the definition in a field, in the list of a field, or under a key of
the shape. -/
inductive Step
  | field (name : String)
  | item (name : String) (index : Nat)
  | key (text : String)

/-- The text that a description shows for a key of a shape. -/
def keyText (key : Value) : String := textBy (fun node => "<" ++ node.className ++ ">") key

/-- The step leads from the fields of a definition to what is nested there. No other key of a shape
has the same text. -/
inductive Nests (d : Entries) : Step → Value → Prop
  | child {tag name : String} {x : Value} : field d "type" = .str tag → name ∈ childFields tag →
      d.get? name = some x → Nests d (.field name) x
  | item {tag name : String} {xs : List Value} {index : Nat} {x : Value} :
      field d "type" = .str tag → name ∈ listFields tag →
      (field d name).iterate? = some xs → xs[index]? = some x →
      Nests d (.item name index) x
  | key {es : Entries} {k x : Value} : field d "type" = .str "object" →
      (field d "shape").entries? = some es → (k, x) ∈ es →
      (es.map fun e => keyText e.1).Nodup → Nests d (.key (keyText k)) x

/-- The path leads from a definition to the fields of a definition. -/
inductive NodeAt : Value → List Step → Entries → Prop
  | here {v : Value} {d : Entries} : v.entries? = some d → NodeAt v [] d
  | into {v x : Value} {d e : Entries} {step : Step} {path : List Step} : v.entries? = some d →
      Nests d step x → NodeAt x path e → NodeAt v (step :: path) e

/-- What the fields of a description show where the step leads. -/
def Step.shown? (r : Entries) : Step → Option Value
  | .field name => r.get? name
  | .item name index =>
    match r.get? name with
    | some (.list vs) => vs[index]?
    | _ => none
  | .key text =>
    match r.get? "shape" with
    | some (.dict es) => Entries.get? es text
    | _ => none

end OfDefinition

open OfDefinition

/-- What a description shows at the end of a path. -/
def Value.at? : Value → List Step → Option Value
  | v, [] => some v
  | v, step :: path =>
    match v with
    | .dict r => (step.shown? r).bind (at? · path)
    | _ => none

namespace OfDefinition

/-- The definition is of a string format. -/
def NamesFormat (d : Entries) : Prop :=
  field d "type" = .str "string" ∧ (field d "format").truthy = true

/-- The fields of a description show the switch of a definition unless it names a string format, its
message, and the checks of its list in their order. -/
structure Shows (d r : Entries) : Prop where
  coerce : d.get? "coerce" = some (.bool true) → ¬ NamesFormat d →
    r.get? "coerce" = some (.bool true)
  error : ∀ e, d.get? "error" = some (.str e) → r.get? "error" = some (.str e)
  checks : ∀ vs, (field d "checks").iterate? = some vs → vs ≠ [] →
    ∃ rs, r.get? "checks" = some (.list rs) ∧ List.Forall₂ Renders vs rs

/-- At every place the description of the schema shows what the definition says. -/
def Mirrors (v : Value) (s : Schema Value) : Prop :=
  ∀ path d, NodeAt v path d → d.Distinct →
    ∃ r, s.describe.at? path = some (.dict r) ∧ Shows d r

/-- A form shows the switch of a definition, and its parts where they are nested. -/
structure FormShows (d : Entries) (tag : String) (form : Form Value (Schema Value)) : Prop where
  coerce : "coerce" ∈ ownFields tag → d.get? "coerce" = some (.bool true) → ¬ NamesFormat d →
    Entries.get? (describeForm form) "coerce" = some (.bool true)
  nested : ∀ step x, Nests d step x → x ≠ .null →
    ∃ t : Schema Value, Mirrors x t ∧ step.shown? (describeForm form) = some t.describe

/-- The parts of a schema are described in its form. -/
theorem Nests.shown?_described {d : Entries} {step : Step} {x : Value} (h : Nests d step x)
    (s : Schema Value) : step.shown? s.described = step.shown? (describeForm s.form) := by
  have hform {name : String} (hname : name ∉ commonFields) :
      s.described.get? name = Entries.get? (describeForm s.form) name := by
    have hcommon : ∀ other ∈ ["type", "checks", "error", "check"], other ∈ commonFields := by decide
    exact s.described_form fun hmem => hname (hcommon name hmem)
  cases h with
  | child _ hname => exact hform fun hcommon => (not_nested_of_common _ hcommon).1 hname
  | item _ hname =>
    rw [Step.shown?, hform fun hcommon => (not_nested_of_common _ hcommon).2.1 hname, Step.shown?]
  | key => rw [Step.shown?, hform (by decide), Step.shown?]

theorem NodeAt.ne_null {v : Value} {path : List Step} {d : Entries} (h : NodeAt v path d) :
    v ≠ .null := by
  rintro rfl
  cases h with
  | here he => cases he
  | into he => cases he

theorem mem_of_get? {d : Entries} {name : String} {v : Value} (h : d.get? name = some v) :
    (.str name, v) ∈ d := by
  obtain ⟨⟨key, w⟩, he, rfl⟩ := Option.map_eq_some_iff.1 h
  have hfound := List.find?_some he
  obtain rfl : key = .str name := isFound_text.1 hfound
  exact List.mem_of_find?_eq_some he

theorem Nests.tag_mem {d : Entries} {step : Step} {x : Value} (h : Nests d step x) :
    ∃ tag ∈ tags, field d "type" = .str tag := by
  cases h with
  | @child tag _ _ htag hname =>
    refine ⟨tag, ?_, htag⟩
    unfold childFields at hname
    split at hname <;> first | decide | cases hname
  | @item tag _ _ _ _ htag hname =>
    refine ⟨tag, ?_, htag⟩
    unfold listFields at hname
    split at hname <;> first | decide | cases hname
  | key htag => exact ⟨"object", by decide, htag⟩

/-! ## Forms -/

section

variable {d : Entries} {tag : String}

theorem describeShape_eq (ts : List (Value × Schema Value)) :
    describeShape ts = ts.map fun e => (.str (keyText e.1), e.2.describe) := by
  induction ts with
  | nil => rfl
  | cons e ts ih =>
    rw [describeShape, ih]
    rfl

/-- What is nested under a key of a shape is shown under its text. -/
theorem shape_shown {es : Entries} {ts : List (Value × Schema Value)} {k x : Value}
    (h : List.Forall₂ (fun e t => e.1 = t.1 ∧ Mirrors e.2 t.2) es ts) (hmem : (k, x) ∈ es)
    (hnodup : (es.map fun e => keyText e.1).Nodup) : ∃ t : Schema Value, Mirrors x t ∧
      Entries.get? (Entries.ofList (describeShape ts)) (keyText k) = some t.describe := by
  have hkeys : es.map (·.1) = ts.map (·.1) := by
    rw [← List.forall₂_eq_eq_eq, List.forall₂_map_left_iff, List.forall₂_map_right_iff]
    exact h.imp fun _ _ => And.left
  have htexts : ts.map (fun e => keyText e.1) = es.map fun e => keyText e.1 := by
    show ts.map (keyText ∘ fun e => e.1) = _
    rw [← List.map_map, ← hkeys, List.map_map]
    rfl
  have hdistinct : Entries.Distinct (ts.map fun e => (.str (keyText e.1), e.2.describe)) := by
    refine Entries.distinct_of_texts ?_ (htexts ▸ hnodup)
    simp
  obtain ⟨index, hlt, hget⟩ := List.mem_iff_getElem.1 hmem
  have hlt' : index < ts.length := h.length_eq ▸ hlt
  obtain ⟨hkey, hmirrors⟩ : es[index].1 = ts[index].1 ∧ Mirrors es[index].2 ts[index].2 :=
    h.get hlt hlt'
  rw [hget] at hkey hmirrors
  refine ⟨ts[index].2, hmirrors, ?_⟩
  rw [describeShape_eq, Entries.ofList_of_distinct hdistinct]
  refine Entries.find?_of_mem hdistinct (List.mem_map.2 ⟨ts[index], List.getElem_mem hlt', ?_⟩)
  rw [← hkey]

/-- What is nested is shown if this is so of every field, list and shape. -/
theorem nested_of_parts {form : Form Value (Schema Value)} (htag : field d "type" = .str tag)
    (hfields : ∀ name ∈ childFields tag, ∀ x, d.get? name = some x → x ≠ .null →
      ∃ t : Schema Value, Mirrors x t ∧ Entries.get? (describeForm form) name = some t.describe)
    (hitems : ∀ name ∈ listFields tag, ∀ xs, (field d name).iterate? = some xs →
      ∃ ts : List (Schema Value), List.Forall₂ Mirrors xs ts ∧
        Entries.get? (describeForm form) name = some (.list (ts.map Schema.describe)))
    (hshape : tag = "object" → ∀ es, (field d "shape").entries? = some es →
      ∃ ts : List (Value × Schema Value),
        List.Forall₂ (fun e t => e.1 = t.1 ∧ Mirrors e.2 t.2) es ts ∧
          Entries.get? (describeForm form) "shape" =
            some (.dict (Entries.ofList (describeShape ts))))
    (step : Step) (x : Value) (h : Nests d step x) (hnull : x ≠ .null) :
    ∃ t : Schema Value, Mirrors x t ∧ step.shown? (describeForm form) = some t.describe := by
  cases h with
  | @child tag' name _ htag' hname hx =>
    cases htag.symm.trans htag'
    exact hfields name hname x hx hnull
  | @item tag' name xs index _ htag' hname hxs hx =>
    cases htag.symm.trans htag'
    obtain ⟨ts, hts, hshown⟩ := hitems name hname xs hxs
    have hindex := List.forall₂_iff_get.1 hts
    obtain ⟨hlt, hget⟩ := List.getElem?_eq_some_iff.1 hx
    have hlt' : index < ts.length := hindex.1 ▸ hlt
    subst hget
    refine ⟨ts[index], hindex.2 index hlt hlt', ?_⟩
    rw [Step.shown?, hshown]
    exact List.getElem?_eq_some_iff.2 ⟨by simpa using hlt', by simp⟩
  | @key es k _ htag' hes hmem hnodup =>
    obtain ⟨ts, hts, hshown⟩ := hshape (Value.str.inj (htag.symm.trans htag')) es hes
    rw [Step.shown?, hshown]
    exact shape_shown hts hmem hnodup

/-- The tag nests definitions in these fields and nowhere else. -/
def NestsIn (tag : String) (names : List String) : Prop :=
  childFields tag = names ∧ listFields tag = [] ∧ tag ≠ "object"

instance (tag : String) (names : List String) : Decidable (NestsIn tag names) :=
  inferInstanceAs (Decidable (_ ∧ _ ∧ _))

/-- What is nested in fields is shown if this is so of each of them. -/
theorem nested_of_fields {form : Form Value (Schema Value)} {names : List String}
    (htag : field d "type" = .str tag) (hnests : NestsIn tag names)
    (hfields : ∀ name ∈ names, ∀ x, d.get? name = some x →
      ∃ t : Schema Value, Mirrors x t ∧ Entries.get? (describeForm form) name = some t.describe)
    (step : Step) (x : Value) (h : Nests d step x) (hnull : x ≠ .null) :
    ∃ t : Schema Value, Mirrors x t ∧ step.shown? (describeForm form) = some t.describe := by
  obtain ⟨rfl, hlist, hshape⟩ := hnests
  refine nested_of_parts htag (fun name hname x hx _ => hfields name hname x hx) ?_
    (fun h => absurd h hshape) step x h hnull
  rw [hlist]
  exact fun _ hname => nomatch hname

/-- A form that nests nothing and knows no switch. -/
theorem formShows_of_leaf {form : Form Value (Schema Value)} (htag : field d "type" = .str tag)
    (hcoerce : "coerce" ∉ ownFields tag) (hnests : NestsIn tag []) : FormShows d tag form :=
  ⟨fun h => absurd h hcoerce, nested_of_fields htag hnests nofun⟩

/-- A form that nests nothing and knows a switch. -/
theorem formShows_of_switch {form : Form Value (Schema Value)} (htag : field d "type" = .str tag)
    (hnests : NestsIn tag []) (hform : ¬ NamesFormat d → flag d "coerce" = .bool true →
      Entries.get? (describeForm form) "coerce" = some (.bool true)) : FormShows d tag form where
  coerce _ hcoerce hformat := by
    refine hform hformat ?_
    rw [flag, field, hcoerce]
    rfl
  nested := nested_of_fields htag hnests nofun

end

/-! ## Schemas -/

/-- The schema has the checks and the message of a definition. -/
structure HasShared (d : Entries) (s : Schema Value) : Prop where
  error : ∀ e, d.get? "error" = some (.str e) → s.error = .str e
  checks : ∀ vs, (field d "checks").iterate? = some vs →
    List.Forall₂ (fun v c => Renders v c.plain) vs s.checks

/-- A description that shows the checks and the message of a schema shows those of its
definition. -/
theorem HasShared.shows {d r : Entries} {s : Schema Value} (h : HasShared d s)
    (hcoerce : d.get? "coerce" = some (.bool true) → ¬ NamesFormat d →
      r.get? "coerce" = some (.bool true))
    (herror : r.get? "error" = (Entries.get? (shownField "error" s.error (plain s.error)) "error"))
    (hchecks : r.get? "checks" = s.describedChecks.get? "checks") : Shows d r where
  coerce := hcoerce
  error e he := by
    rw [herror, h.error e he]
    rfl
  checks vs hvs hne := by
    have hrenders := h.checks vs hvs
    have hnonempty : s.checks.isEmpty = false := by
      cases hcs : s.checks with
      | nil =>
        rw [hcs] at hrenders
        cases hrenders
        exact absurd rfl hne
      | cons c cs => rfl
    refine ⟨plainAll s.checks, ?_, ?_⟩
    · rw [hchecks, Schema.describedChecks, hnonempty]
      rfl
    · rw [plainAll_eq_map, List.forall₂_map_right_iff]
      exact hrenders

/-- A tag knows a switch if it knows all the fields of a definition that has one. -/
theorem Knows.coerce {tag : String} {d : Entries} (h : Knows tag d) {v : Value}
    (hv : d.get? "coerce" = some v) : "coerce" ∈ ownFields tag := by
  obtain ⟨name, hname, hmem⟩ := h _ (mem_of_get? hv)
  cases hname
  exact (List.mem_append.1 hmem).resolve_left (by decide)

/-- A schema of a form that shows the parts of a definition mirrors the definition, if it has the
checks and the message. -/
theorem mirrors_of_form {v : Value} {d : Entries} {tag : String} {s : Schema Value}
    (hv : v.entries? = some d) (hknows : Knows tag d) (hform : FormShows d tag s.form)
    (hshared : HasShared d s) {kind : String} (hkind : s.kind = .str kind) (hextra : s.extra = []) :
    Mirrors v s := by
  intro path e hnode hdistinct
  have hdescribe := Schema.describe_eq_described hkind hextra
  cases hnode with
  | here he =>
    obtain rfl := Option.some.inj (hv.symm.trans he)
    refine ⟨s.described, by rw [hdescribe]; rfl, hshared.shows ?_ ?_ ?_⟩
    · intro hcoerce hformat
      rw [s.described_form (by decide)]
      exact hform.coerce (hknows.coerce hcoerce) hcoerce hformat
    · exact s.described_get?_error
    · exact s.described_get?_checks
  | @into _ x d' _ step path hd hnests hnode =>
    obtain rfl := Option.some.inj (hv.symm.trans hd)
    obtain ⟨t, ht, hshown⟩ := hform.nested step x hnests hnode.ne_null
    obtain ⟨r, hr, hshows⟩ := ht path e hnode hdistinct
    refine ⟨r, ?_, hshows⟩
    rw [hdescribe, at?, hnests.shown?_described, hshown]
    exact hr

/-! ## Kinds without a form of their own -/

/-- The further fields of a schema are those of its definition that not every definition has. -/
structure IsFurther (d : Entries) (extra : List (String × Value)) : Prop where
  fields : (d.filter fun e => !(e.1.str?.any commonFields.contains)) =
    extra.map fun f => (.str f.1, f.2)
  kind : ∀ f ∈ extra, f.1 ≠ "kind"

namespace IsFurther

variable {d : Entries} {extra : List (String × Value)}

theorem not_common (h : IsFurther d extra) {f : String × Value} (hf : f ∈ extra) :
    f.1 ∉ commonFields := by
  have hmem : ((.str f.1, f.2) : Value × Value) ∈ extra.map fun f => (.str f.1, f.2) :=
    List.mem_map_of_mem hf
  rw [← h.fields, List.mem_filter] at hmem
  simpa [Value.str?] using hmem.2

theorem mem_of_get? (h : IsFurther d extra) {name : String} {v : Value}
    (hv : d.get? name = some v) (hname : name ∉ commonFields) : (name, v) ∈ extra := by
  have hmem : (.str name, v) ∈ d.filter fun e => !(e.1.str?.any commonFields.contains) :=
    List.mem_filter.2 ⟨OfDefinition.mem_of_get? hv, by simpa [Value.str?] using hname⟩
  rw [h.fields] at hmem
  obtain ⟨f, hf, heq⟩ := List.mem_map.1 hmem
  cases heq
  exact hf

end IsFurther

/-- The names of what a schema with further fields shows. -/
def furtherNames (extra : List (String × Value)) : List String :=
  "type" :: extra.map (·.1) ++ ["checks", "error"]

/-- What a schema with further fields shows. -/
def describedFurther (kind : String) (extra : List (String × Value)) (s : Schema Value) : Entries :=
  (.str "type", .str kind) :: (plainExtra extra ++ (s.describedChecks
    ++ shownField "error" s.error (plain s.error)))

theorem plainExtra_keys (extra : List (String × Value)) :
    ((plainExtra extra).map (·.1)).Sublist ((extra.map (·.1)).map .str) := by
  induction extra with
  | nil => exact .refl _
  | cons f extra ih =>
    obtain ⟨name, v⟩ := f
    rw [plainExtra, List.map_append, List.map_cons, List.map_cons]
    exact (shownField_keys name v _).append ih

theorem mem_plainExtra {extra : List (String × Value)} {name : String} {v : Value}
    (h : (name, v) ∈ extra) (hshown : shownField name v (plain v) = [(.str name, plain v)]) :
    (.str name, plain v) ∈ plainExtra extra := by
  induction extra with
  | nil => cases h
  | cons f extra ih =>
    obtain ⟨other, w⟩ := f
    rw [plainExtra]
    rcases List.mem_cons.1 h with heq | h
    · cases heq
      rw [hshown]
      exact List.mem_append_left _ (List.mem_singleton_self _)
    · exact List.mem_append_right _ (ih h)

namespace IsFurther

variable {d : Entries} {extra : List (String × Value)}

theorem names_nodup (h : IsFurther d extra) (hd : d.Distinct) : (furtherNames extra).Nodup := by
  have hnames : (extra.map (·.1)).Nodup := by
    have hdistinct : Entries.Distinct (extra.map fun f => (.str f.1, f.2)) :=
      h.fields ▸ List.Pairwise.sublist List.filter_sublist hd
    unfold Entries.Distinct at hdistinct
    rw [List.pairwise_map] at hdistinct
    exact List.pairwise_map.2 (hdistinct.imp fun hne heq => beq_eq_false_iff_ne.1 hne heq)
  have hfurther : ∀ name ∈ extra.map (·.1), name ∉ commonFields := by
    intro name hname
    obtain ⟨f, hf, rfl⟩ := List.mem_map.1 hname
    exact h.not_common hf
  refine List.nodup_cons.2 ⟨fun hmem => ?_, List.nodup_append.2 ⟨hnames, by decide, ?_⟩⟩
  · rcases List.mem_append.1 hmem with hmem | hmem
    · exact hfurther _ hmem (by decide)
    · exact absurd hmem (by decide)
  · rintro name hname other hother rfl
    have hcommon : ∀ name ∈ ["checks", "error"], name ∈ commonFields := by decide
    exact hfurther name hname (hcommon name hother)

theorem distinct (h : IsFurther d extra) (hd : d.Distinct) (kind : String) (s : Schema Value) :
    (describedFurther kind extra s).Distinct := by
  refine Entries.distinct_of_sublist ?_ (h.names_nodup hd)
  have hchecks : (s.describedChecks.map (·.1)).Sublist [.str "checks"] := by
    unfold Schema.describedChecks
    split
    · exact List.nil_sublist _
    · exact .refl _
  simp only [describedFurther, furtherNames, List.map_cons, List.map_append, List.cons_append]
  exact ((plainExtra_keys extra).append
    (hchecks.append (shownField_keys "error" s.error (plain s.error)))).cons_cons _

end IsFurther

/-- A schema of a kind without a form mirrors its definition. -/
theorem mirrors_of_further {v : Value} {d : Entries} {extra : List (String × Value)}
    {s : Schema Value} {kind : String} (hv : v.entries? = some d)
    (hleaf : ∀ step x, ¬ Nests d step x) (hextra : IsFurther d extra) (hshared : HasShared d s)
    (hs : s.kind = .str kind ∧ s.form = .generic ∧ s.extra = extra) : Mirrors v s := by
  intro path e hnode hdistinct
  cases hnode with
  | into he hnests =>
    obtain rfl := Option.some.inj (hv.symm.trans he)
    exact absurd hnests (hleaf _ _)
  | here he =>
    obtain rfl := Option.some.inj (hv.symm.trans he)
    have hapart := hextra.distinct hdistinct kind s
    have hdescribe : s.describe = .dict (describedFurther kind extra s) := by
      obtain ⟨id, _, _, _, checks, error⟩ := s
      obtain ⟨rfl, rfl, rfl⟩ := hs
      have htype : shownField "type" (.str kind) (plain (.str kind)) = [(.str "type", .str kind)] :=
        rfl
      unfold Schema.describe describeSchema
      rw [htype, ← Entries.ofList_of_distinct hapart]
      simp [describedFurther, Schema.describedChecks, describeForm, Form.checkFields,
        Form.checkTag?]
    have hnone {name : String} (hname : name ∈ commonFields) :
        Entries.get? (plainExtra extra) name = none := by
      refine Entries.get?_eq_none_of_keys (plainExtra_keys extra) fun hmem => ?_
      obtain ⟨f, hf, rfl⟩ := List.mem_map.1 hmem
      exact hextra.not_common hf hname
    refine ⟨_, by rw [hdescribe]; rfl, hshared.shows ?_ ?_ ?_⟩
    · intro hcoerce _
      refine Entries.find?_of_mem hapart (List.mem_cons_of_mem _ (List.mem_append_left _ ?_))
      exact mem_plainExtra (hextra.mem_of_get? hcoerce (by decide)) rfl
    · rw [describedFurther, Entries.get?_cons, if_neg (by decide), Entries.get?_append,
        hnone (by decide), Entries.get?_append, Schema.get?_describedChecks (by decide),
        Option.none_or, Option.none_or]
    · rw [describedFurther, Entries.get?_cons, if_neg (by decide), Entries.get?_append,
        hnone (by decide), Entries.get?_append, Entries.get?_shownField_of_ne (by decide),
        Option.none_or, Option.or_none]

/-! ## The main definition -/

section

variable {c : Entries}

/-- Without a tag and with a name the whole definition is a reference. -/
theorem mainOf_erased (hroot : c.get? "type" = none → field c "name" = .null) :
    mainOf c = c.erase (.str "definitions") ∨
      mainOf c = (c.erase (.str "definitions")).erase (.str "name") := by
  have htype : Entries.get? (c.erase (.str "definitions")) "type" = c.get? "type" :=
    Entries.get?_erase (by decide)
  have hname : field (c.erase (.str "definitions")) "name" = field c "name" := by
    unfold field
    rw [Entries.get?_erase (by decide)]
  unfold mainOf
  dsimp only
  rw [htype, hname]
  split
  · exact .inl rfl
  · refine .inr (if_neg fun h => ?_)
    obtain ⟨hnone, hnamed⟩ := Bool.and_eq_true_iff.1 h
    rw [hroot (Option.isNone_iff_eq_none.1 hnone)] at hnamed
    cases hnamed

theorem mainOf_get? (hroot : c.get? "type" = none → field c "name" = .null) {name : String}
    (hdefinitions : name ≠ "definitions") (hname : name ≠ "name") :
    (mainOf c).get? name = c.get? name := by
  rcases mainOf_erased hroot with heq | heq <;> rw [heq]
  · exact Entries.get?_erase hdefinitions.symm
  · rw [Entries.get?_erase hname.symm, Entries.get?_erase hdefinitions.symm]

theorem mainOf_field (hroot : c.get? "type" = none → field c "name" = .null) {name : String}
    (hdefinitions : name ≠ "definitions") (hname : name ≠ "name") :
    field (mainOf c) name = field c name := by
  unfold field
  rw [mainOf_get? hroot hdefinitions hname]

theorem Nests.main (hroot : c.get? "type" = none → field c "name" = .null) {step : Step}
    {x : Value} (h : Nests c step x) : Nests (mainOf c) step x := by
  have htype : field (mainOf c) "type" = field c "type" :=
    mainOf_field hroot (by decide) (by decide)
  cases h with
  | child htag hname hx =>
    obtain ⟨-, hdefinitions, hother⟩ := apart_of_nested (.inl hname)
    exact .child (htype.trans htag) hname ((mainOf_get? hroot hdefinitions hother).trans hx)
  | item htag hname hxs hx =>
    obtain ⟨-, hdefinitions, hother⟩ := apart_of_nested (.inr hname)
    exact .item (htype.trans htag) hname ((mainOf_field hroot hdefinitions hother).symm ▸ hxs) hx
  | key htag hes hx hnodup =>
    have hshape : field (mainOf c) "shape" = field c "shape" :=
      mainOf_field hroot (by decide) (by decide)
    exact .key (htype.trans htag) (hshape ▸ hes) hx hnodup

/-- Fields with the same values are shown alike. -/
theorem Shows.congr {d e r : Entries} (h : Shows d r)
    (hsame : ∀ name ∈ ["type", "format", "coerce", "error", "checks"], d.get? name = e.get? name) :
    Shows e r := by
  have hfield {name : String} (hname : name ∈ ["type", "format", "coerce", "error", "checks"]) :
      field d name = field e name := by
    rw [field, hsame name hname, field]
  refine ⟨fun hcoerce hformat => ?_, fun message he => ?_, fun vs hvs => ?_⟩
  · refine h.coerce ((hsame _ (by simp)).trans hcoerce) fun hnames => hformat ?_
    unfold NamesFormat at hnames
    rwa [hfield (by simp), hfield (by simp)] at hnames
  · exact h.error message ((hsame _ (by simp)).trans he)
  · exact h.checks vs ((congrArg iterate? (hfield (by simp))).trans hvs)

/-- What mirrors the main definition mirrors the whole one. -/
theorem Mirrors.of_main (hroot : c.get? "type" = none → field c "name" = .null)
    {s : Schema Value} (h : Mirrors (.dict (mainOf c)) s) : Mirrors (.dict c) s := by
  intro path d hnode hdistinct
  cases hnode with
  | here hd =>
    cases hd
    have hmain : (mainOf c).Distinct := by
      rcases mainOf_erased hroot with heq | heq <;> rw [heq]
      · exact List.Pairwise.sublist List.filter_sublist hdistinct
      · exact List.Pairwise.sublist (List.filter_sublist.trans List.filter_sublist) hdistinct
    obtain ⟨r, hr, hshows⟩ := h [] (mainOf c) (.here rfl) hmain
    refine ⟨r, hr, hshows.congr fun name hname => ?_⟩
    refine mainOf_get? hroot ?_ ?_ <;> rintro rfl <;> simp at hname
  | into hd hnests hnode =>
    cases hd
    exact h _ d (.into rfl (hnests.main hroot) hnode) hdistinct

end

end OfDefinition

end Assay
