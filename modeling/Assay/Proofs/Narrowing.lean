import Assay.Proofs.Immediate
import Assay.Proofs.ListedKeys
import Assay.Proofs.Merging
import Assay.Proofs.StockFunctions
import Assay.Vocabulary.Methods

/-!
# Narrowed enumerations

To extract names from an enumeration, or to exclude them, makes an enumeration of the entries that
are kept (`extract_answer`, `exclude_answer`, `Entries.mem_named`). It is made of the entries alone.
Where the enumeration lists values and has no checks, it accepts of these the ones that are kept and
nothing else. Where the enumeration has a class it no longer knows the members, and takes their
values as they are. Checks that were attached are gone (`Schema.Narrows`, `enumeration_narrowed`,
`extracting_drops_class_and_checks`).
-/

namespace Assay

open Run

variable {host : Host} {ctx : Context} {σ τ : Session} {s t : Schema Value} {entries : Entries}
  {cls : Option (EnumClass Value)} {names : List Value}

/-! ## Kept entries -/

namespace Entries

/-- The entries of the names. -/
def named (entries : Entries) (names : List Value) : Entries :=
  ofList (names.map fun n => (n, (find? entries n).getD .null))

/-- The names of entries give the values of these entries. -/
theorem mem_named (hkeys : entries.Distinct) (hformed : ∀ e ∈ entries, e.1.wellFormed = true)
    (hnames : names ⊆ entries.map (·.1)) {x : Value} :
    (∃ e ∈ named entries names, e.2 = x) ↔ ∃ e ∈ entries, e.1.isIn names = true ∧ e.2 = x := by
  have hname {n : Value} (hn : n ∈ names) : ∃ e ∈ entries, e.1 = n :=
    List.mem_map.1 (hnames hn)
  have hwell {n : Value} (hn : n ∈ names) : n.wellFormed = true := by
    obtain ⟨e, he, rfl⟩ := hname hn
    exact hformed e he
  -- Equal names find the same entry, so it does not matter which of them is kept.
  have hagree : ∀ e ∈ names.map (fun n => (n, (find? entries n).getD .null)),
      ∀ f ∈ names.map (fun n => (n, (find? entries n).getD .null)),
        e.1.isFound f.1 = true → e.2 = f.2 := by
    rintro e he f hf hfound
    obtain ⟨n, hn, rfl⟩ := List.mem_map.1 he
    obtain ⟨m, hm, rfl⟩ := List.mem_map.1 hf
    exact congrArg (·.getD .null) (find?_congr (hwell hn) hfound entries)
  constructor
  · rintro ⟨f, hf, rfl⟩
    obtain ⟨n, hn, rfl⟩ := List.mem_map.1 (mem_of_ofList hagree f hf)
    obtain ⟨e, he, rfl⟩ := hname hn
    refine ⟨e, he, List.any_eq_true.2 ⟨e.1, hn, Value.isFound_refl _⟩, ?_⟩
    rw [find?_of_mem hkeys he, Option.getD_some]
  · rintro ⟨e, he, hin, rfl⟩
    obtain ⟨n, hn, hfound⟩ := List.any_eq_true.1 hin
    have hvalue : find? entries n = some e.2 := by
      rw [find?_congr (hwell hn) hfound, find?_of_mem hkeys he]
    have hnamed : find? (named entries names) n = some ((find? entries n).getD .null) :=
      find?_ofList hagree (List.mem_map_of_mem hn)
    rw [hvalue, Option.getD_some] at hnamed
    obtain ⟨k, hk, -⟩ := exists_of_find? hnamed
    exact ⟨(k, e.2), hk, rfl⟩

end Entries

theorem Value.areHashable_of_forall {vs : List Value} (h : ∀ v ∈ vs, v.isHashable = true) :
    Value.areHashable vs = true := by
  induction vs with
  | nil => rfl
  | cons v vs ih =>
    obtain ⟨hv, hvs⟩ := List.forall_mem_cons.1 h
    rw [Value.areHashable, hv, ih hvs]
    rfl

/-! ## Derivations -/

/-- A derivation that takes any number of arguments is derived by its name. -/
theorem deriveByName_variadic {name : String} {args : List Value}
    {run : Schema Value → List Value → Run (Schema Value)}
    (hm : method? host s name = some (Method.variadic run)) (hrun : (run s args).answer τ = .ok t) :
    (deriveByName host (.schema s) name args []).answer τ = .ok (.schema t) := by
  have hbound : (Method.variadic run).signature.bind args [] = .ok { rest := args } := by
    cases args <;> rfl
  have hexec : ((Method.variadic run).run s { rest := args }).exec τ
      = (.ok t, ((run s args).exec τ).2) := Prod.ext hrun rfl
  unfold deriveByName answer
  simp only [hm, exec_bind, exec_lift, hbound]
  rw [hexec]
  rfl

/-- To extract names of entries makes an enumeration of the entries. -/
theorem extract_answer (hform : s.form = .enumeration entries cls) (hne : names ≠ [])
    (hnames : names ⊆ entries.map (·.1)) (hhashable : Value.areHashable names = true)
    (τ : Session) :
    ∃ t, (deriveByName host (.schema s) "extract" names []).answer τ = .ok (.schema t) ∧
      t.form = .enumeration (Entries.named entries names) none ∧ t.kind = .str "enum" ∧
      t.checks = [] := by
  have hpresent : (names.filter fun n => !Entries.contains entries n) = [] := by
    rw [List.filter_eq_nil_iff]
    intro n hn
    obtain ⟨e, he, rfl⟩ := List.mem_map.1 (hnames hn)
    have hfound : Entries.find? entries e.1 ≠ none := fun hnone => by
      have hother := Entries.find?_eq_none.1 hnone e he
      rw [Value.isFound_refl] at hother
      cases hother
    simpa [Entries.contains, Option.isSome_iff_ne_none] using hfound
  have hrequired : Derive.requireNames entries names = pure () := by
    unfold Derive.requireNames
    rw [hpresent, hhashable]
    rfl
  -- The first name is found among the entries that are put together.
  have hfull : Entries.named entries names ≠ [] := by
    obtain ⟨n, hn⟩ := List.exists_mem_of_ne_nil names hne
    have hmem : (n, (Entries.find? entries n).getD .null) ∈
        names.map fun n => (n, (Entries.find? entries n).getD .null) := List.mem_map_of_mem hn
    intro hnil
    refine Entries.find?_ofList_ne_none hmem ?_
    exact congrArg (Entries.find? · n) hnil
  have hmethod : method? host s "extract" = Method.enumeration? entries "extract" := by
    unfold method? Method.own?
    rw [hform]
    rfl
  obtain ⟨t, ht, hmade⟩ := enumeration_dict hfull s.error τ
  refine ⟨t, deriveByName_variadic hmethod ?_, hmade⟩
  show (Derive.requireNames entries names >>= fun _ =>
    Construct.enumeration (.dict (Entries.named entries names)) { error := s.error }).answer τ = _
  rw [hrequired, pure_bind, ht]

/-- To exclude names makes an enumeration of the other entries. -/
theorem exclude_answer (hform : s.form = .enumeration entries cls)
    (hrest : ∃ e ∈ entries, e.1.isIn names = false) (τ : Session) :
    ∃ t, (deriveByName host (.schema s) "exclude" names []).answer τ = .ok (.schema t) ∧
      t.form = .enumeration (entries.filter fun e => !e.1.isIn names) none ∧
      t.kind = .str "enum" ∧ t.checks = [] := by
  have hfull : (entries.filter fun e => !e.1.isIn names) ≠ [] := by
    obtain ⟨e, he, hout⟩ := hrest
    exact List.ne_nil_of_mem (List.mem_filter.2 ⟨he, by rw [hout]; rfl⟩)
  have hmethod : method? host s "exclude" = Method.enumeration? entries "exclude" := by
    unfold method? Method.own?
    rw [hform]
    rfl
  obtain ⟨t, ht, hmade⟩ := enumeration_dict hfull s.error τ
  exact ⟨t, deriveByName_variadic hmethod ht, hmade⟩

/-! ## What is accepted -/

/-- An enumeration of entries: their names and their values differ, and no value is a member of the
class, whose values they are if there is one. -/
structure Schema.Enumerates (s : Schema Value) (entries : Entries)
    (cls : Option (EnumClass Value)) : Prop where
  form : s.form = .enumeration entries cls
  kind : s.kind = .str "enum"
  keys : entries.Distinct
  formed : ∀ e ∈ entries, e.1.wellFormed = true ∧ e.1.isHashable = true ∧ e.2.wellFormed = true
  apart : entries.Pairwise fun e f => e.2.same f.2 = false
  members : s.ListsMembers
  plain : ∀ e ∈ entries, ¬ s.HasMember e.2

/-- The schema without its checks. -/
def Schema.unchecked (s : Schema Value) : Schema Value := { s with checks := [] }

/-- A schema takes over some entries of an enumeration. It accepts their values as they are. Those
are the values of the enumeration that it accepts if there is no class; if there is one they are
the values of the members that are kept, whose members it does not accept. The enumeration has its
checks beside that, which are not taken over. -/
structure Schema.Narrows (host : Host) (σ : Session) (ctx : Context) (t s : Schema Value)
    (entries : Entries) (cls : Option (EnumClass Value)) (keeps : Value → Bool) : Prop where
  kept : ∀ v w, (safeParse host ctx t v).answer σ = .ok (.accepted w) ↔
    w = v ∧ ∃ e ∈ entries, keeps e.1 = true ∧ v.same e.2 = true
  values : cls = none → ∀ v w, (safeParse host ctx t v).answer σ = .ok (.accepted w) ↔
    (safeParse host ctx s.unchecked v).answer σ = .ok (.accepted w) ∧
      ∃ e ∈ entries, keeps e.1 = true ∧ w.same e.2 = true
  members : ∀ c, cls = some c → ∀ v w, v.wellFormed = true →
    ((safeParse host ctx t v).answer σ = .ok (.accepted w) ↔
      w = v ∧ ¬ s.HasMember v ∧ ∃ m ∈ c.members, keeps (.str m.1) = true ∧
        (safeParse host ctx s.unchecked v).answer σ = .ok (.accepted (.member c m.1 m.2)))
  checks : ∀ v w, (safeParse host ctx s v).answer σ = .ok (.accepted w) ↔
    ∃ u, (safeParse host ctx s.unchecked v).answer σ = .ok (.accepted u) ∧
      (safeParse host ctx s.checksAlone u).answer σ = .ok (.accepted w)

section

variable {kept : Entries} {keeps : Value → Bool} {c : EnumClass Value} {v w : Value}

/-- A value that is the same as a member of the class is one. -/
theorem Schema.HasMember.of_same {x : Value} (h : s.HasMember v) (hsame : v.same x = true) :
    s.HasMember x := by
  obtain ⟨es, c, d, name, value, hform, rfl, hd⟩ := h
  have hfound := (Value.same_iff.1 hsame).1
  cases x with
  | member d' name' value' =>
    have href : (d.ref == d'.ref && name == name') = true := hfound
    rw [Bool.and_eq_true, beq_iff_eq] at href
    exact ⟨es, c, d', name', value', hform, rfl, href.1.symm.trans hd⟩
  | _ => cases Value.family_eq hfound

/-- A value that is no member of the class stands for the member whose value is the same. -/
theorem Schema.Enumerates.memberOf?_eq (h : s.Enumerates entries (some c))
    (hv : v.wellFormed = true) (hmember : ¬ s.HasMember v) {m : String × Value}
    (hm : m ∈ c.members) :
    Scalar.memberOf? c v = some (.member c m.1 m.2) ↔ v.same m.2 = true := by
  have hread : Scalar.memberOf? c v =
      (c.members.find? fun m => m.2.same v).map fun m => .member c m.1 m.2 := by
    unfold Scalar.memberOf?
    split
    · rename_i d name value
      exact if_neg fun href => hmember ⟨_, c, d, name, value, h.form, rfl, by simpa using href⟩
    · rfl
  obtain rfl := h.members entries c h.form
  have hformed {m : String × Value} (hm : m ∈ c.members) : m.2.wellFormed = true :=
    (h.formed (.str m.1, m.2) (List.mem_map_of_mem hm)).2.2
  rw [hread]
  constructor
  · intro hfind
    obtain ⟨⟨name, value⟩, hfound, heq⟩ := Option.map_eq_some_iff.1 hfind
    obtain ⟨-, rfl, rfl⟩ := Value.member.inj heq
    exact Value.same_symm (hformed hm) (by simpa using List.find?_some hfound)
  · intro hsame
    -- The values of two members that are the same as this one would be the same.
    have hunique : c.members.Pairwise fun m n => ¬ (m.2.same v = true ∧ n.2.same v = true) := by
      refine (List.pairwise_map.1 h.apart).imp_of_mem fun {m n} _ hn happart ⟨hmv, hnv⟩ => ?_
      rw [Value.same_trans hmv (Value.same_symm (hformed hn) hnv)] at happart
      cases happart
    rw [find?_of_unique hunique hm (Value.same_symm hv hsame)]
    rfl

/-- The schema accepts what its checks accept of what it accepts without them. -/
theorem Schema.Enumerates.checks_accept (h : s.Enumerates entries cls)
    (henum : σ.kinds.evaluator? (.str "enum") = .ok (.builtin .evaluateNode))
    (hany : σ.kinds.evaluator? (.str "any") = .ok (.builtin .evaluateNode)) :
    (safeParse host ctx s v).answer σ = .ok (.accepted w) ↔
      ∃ u, (safeParse host ctx s.unchecked v).answer σ = .ok (.accepted u) ∧
        (safeParse host ctx s.checksAlone u).answer σ = .ok (.accepted w) := by
  -- The source of the issues is another one, but the values that are read are the same.
  have hread (u : Value) : Scalar.enumeration s entries cls v = .ok u ↔
      (safeParse host ctx s.unchecked v).answer σ = .ok (.accepted u) := by
    have hown : σ.kinds.evaluator? s.unchecked.kind = .ok (.builtin .evaluateNode) :=
      h.kind ▸ henum
    cases cls with
    | none => rw [enumeration_values, values_accepted hown h.form rfl]
    | some c => rw [enumeration_members, members_accepted hown h.form rfl]
  rw [safeParse_checked (h.kind ▸ henum) hany (by rw [h.form]; rfl) (enumeration_read h.form)]
  exact exists_congr fun u => and_congr_left fun _ => hread u

/-- What is made of the entries that are kept narrows the enumeration to them. -/
theorem Schema.Enumerates.narrows (h : s.Enumerates entries cls)
    (henum : σ.kinds.evaluator? (.str "enum") = .ok (.builtin .evaluateNode))
    (hany : σ.kinds.evaluator? (.str "any") = .ok (.builtin .evaluateNode))
    (ht : t.form = .enumeration kept none ∧ t.kind = .str "enum" ∧ t.checks = [])
    (hkept : ∀ x, (∃ e ∈ kept, e.2 = x) ↔ ∃ e ∈ entries, keeps e.1 = true ∧ e.2 = x) :
    t.Narrows host σ ctx s entries cls keeps := by
  obtain ⟨hform, hkind, hchecks⟩ := ht
  have haccepts (v w : Value) : (safeParse host ctx t v).answer σ = .ok (.accepted w) ↔
      w = v ∧ ∃ e ∈ entries, keeps e.1 = true ∧ v.same e.2 = true := by
    rw [values_accepted (hkind ▸ henum) hform hchecks]
    refine and_congr_right fun _ => ?_
    constructor
    · rintro ⟨f, hf, hsame⟩
      obtain ⟨e, he, hkeeps, heq⟩ := (hkept f.2).1 ⟨f, hf, rfl⟩
      exact ⟨e, he, hkeeps, heq ▸ hsame⟩
    · rintro ⟨e, he, hkeeps, hsame⟩
      obtain ⟨f, hf, heq⟩ := (hkept e.2).2 ⟨e, he, hkeeps, rfl⟩
      exact ⟨f, hf, heq ▸ hsame⟩
  have hown : σ.kinds.evaluator? s.unchecked.kind = .ok (.builtin .evaluateNode) := h.kind ▸ henum
  refine ⟨haccepts, ?_, ?_, fun v w => h.checks_accept henum hany⟩
  · rintro rfl v w
    rw [haccepts, values_accepted hown h.form rfl]
    constructor
    · rintro ⟨rfl, e, he, hkeeps, hsame⟩
      exact ⟨⟨rfl, e, he, hsame⟩, e, he, hkeeps, hsame⟩
    · rintro ⟨⟨rfl, -⟩, hrest⟩
      exact ⟨rfl, hrest⟩
  · rintro c rfl v w hv
    rw [haccepts]
    simp only [members_accepted hown h.form rfl]
    have hentries := h.members entries c h.form
    refine and_congr_right fun _ => ?_
    constructor
    · rintro ⟨e, he, hkeeps, hsame⟩
      -- A member of the class is the same as no value of an entry.
      have hmember : ¬ s.HasMember v := fun hmember => h.plain e he (hmember.of_same hsame)
      obtain ⟨m, hm, heq⟩ := List.mem_map.1 (hentries ▸ he)
      subst heq
      exact ⟨hmember, m, hm, hkeeps, (h.memberOf?_eq hv hmember hm).2 hsame⟩
    · rintro ⟨hmember, m, hm, hkeeps, hread⟩
      have hlisted : (Value.str m.1, m.2) ∈ entries := hentries ▸ List.mem_map_of_mem hm
      exact ⟨_, hlisted, hkeeps, (h.memberOf?_eq hv hmember hm).1 hread⟩

end

/-- To extract names of entries narrows an enumeration to these entries, and to exclude names
narrows it to the other ones. -/
theorem enumeration_narrowed (h : s.Enumerates entries cls)
    (henum : σ.kinds.evaluator? (.str "enum") = .ok (.builtin .evaluateNode))
    (hany : σ.kinds.evaluator? (.str "any") = .ok (.builtin .evaluateNode))
    (hnames : names ⊆ entries.map (·.1)) :
    (names ≠ [] → ∃ t,
      (deriveByName host (.schema s) "extract" names []).answer τ = .ok (.schema t) ∧
        t.Narrows host σ ctx s entries cls fun k => k.isIn names) ∧
    ((∃ e ∈ entries, e.1.isIn names = false) → ∃ t,
      (deriveByName host (.schema s) "exclude" names []).answer τ = .ok (.schema t) ∧
        t.Narrows host σ ctx s entries cls fun k => !k.isIn names) := by
  constructor
  · intro hne
    have hhashable : Value.areHashable names = true := Value.areHashable_of_forall fun n hn => by
      obtain ⟨e, he, rfl⟩ := List.mem_map.1 (hnames hn)
      exact (h.formed e he).2.1
    obtain ⟨t, ht, hmade⟩ := extract_answer h.form hne hnames hhashable τ
    exact ⟨t, ht, h.narrows henum hany hmade fun x =>
      Entries.mem_named h.keys (fun e he => (h.formed e he).1) hnames⟩
  · intro hrest
    obtain ⟨t, ht, hmade⟩ := exclude_answer h.form hrest τ
    refine ⟨t, ht, h.narrows henum hany hmade fun x => ?_⟩
    simp only [List.mem_filter, and_assoc]

namespace Colors

open Stock (hostThat)

def color : EnumClass Value := ⟨4, "Color", [("RED", .str "r"), ("GREEN", .str "g")], []⟩

def shades : Entries := [(.str "RED", .str "r"), (.str "GREEN", .str "g")]

/-- The members of the class. -/
def colors : Schema Value := ⟨1, .str "enum", .enumeration shades (some color), [], [], .null⟩

def red : Value := .member color "RED" (.str "r")

/-- The values alone, of which a predicate accepts none. -/
def refused : Schema Value :=
  let predicate : Value := .callable ⟨0, "const", [.bool false], false⟩
  let check : Check Value := ⟨5, .refinement predicate .null .null, .null, .null⟩
  ⟨1, .str "enum", .enumeration shades none, [], [.check check], .null⟩

def parsed (s : Schema Value) (v : Value) : Except Fault Parsed :=
  (safeParse (hostThat false) {} s v).answer {}

theorem colors_enumerates : colors.Enumerates shades (some color) where
  form := rfl
  kind := rfl
  keys := by decide
  formed := by decide
  apart := by decide
  members := by
    rintro _ _ ⟨⟩
    rfl
  plain := by
    rintro e he ⟨_, _, d, name, w, -, hmember, -⟩
    rcases List.mem_pair.1 he with rfl | rfl <;> cases hmember

end Colors

open Colors Stock in
/-- Of two colours one is left, by its value. -/
theorem enumeration_narrowed_colors :
    ∃ t, (deriveByName (hostThat false) (.schema colors) "exclude" [.str "GREEN"] []).answer {}
        = .ok (.schema t) ∧
      parsed t (.str "r") = .ok (.accepted (.str "r")) ∧
      ∀ w, parsed t (.str "g") ≠ .ok (.accepted w) := by
  have hnames : [Value.str "GREEN"] ⊆ shades.map (·.1) :=
    List.cons_subset.2 ⟨List.mem_cons_of_mem _ List.mem_cons_self, List.nil_subset _⟩
  have hrest : ∃ e ∈ shades, e.1.isIn [.str "GREEN"] = false := ⟨_, List.mem_cons_self, rfl⟩
  obtain ⟨t, ht, hnarrows⟩ : ∃ t,
      (deriveByName (hostThat false) (.schema colors) "exclude" [.str "GREEN"] []).answer {}
        = .ok (.schema t) ∧
      t.Narrows (hostThat false) {} {} colors shades (some color) fun k => !k.isIn [.str "GREEN"] :=
    (enumeration_narrowed colors_enumerates rfl rfl hnames).2 hrest
  refine ⟨t, ht, (hnarrows.kept _ _).2 ⟨rfl, _, List.mem_cons_self, rfl, rfl⟩, fun w hw => ?_⟩
  obtain ⟨-, e, he, hkeeps, hsame⟩ := (hnarrows.kept _ _).1 hw
  rcases List.mem_pair.1 he with rfl | rfl
  · cases hsame
  · cases hkeeps

open Colors Stock in
/-- What is extracted from a class does not accept its members, and takes their values as they are.
What is extracted from an enumeration with a check accepts what the check rejects. -/
theorem extracting_drops_class_and_checks :
    (∃ t, (deriveByName (hostThat false) (.schema colors) "extract" [.str "RED"] []).answer {}
        = .ok (.schema t) ∧
      parsed colors red = .ok (.accepted red) ∧ (∃ issues, parsed t red = .ok (.rejected issues)) ∧
      parsed colors (.str "r") = .ok (.accepted red) ∧
      parsed t (.str "r") = .ok (.accepted (.str "r"))) ∧
    ∃ t, (deriveByName (hostThat false) (.schema refused) "extract" [.str "RED"] []).answer {}
        = .ok (.schema t) ∧
      (∃ issues, parsed refused (.str "r") = .ok (.rejected issues)) ∧
      parsed t (.str "r") = .ok (.accepted (.str "r")) :=
  ⟨⟨_, rfl, rfl, ⟨_, rfl⟩, rfl, rfl⟩, _, rfl, ⟨_, rfl⟩, rfl⟩

end Assay
