import Assay.Proofs.Creating

/-!
# References are transparent

A reference stands for the definition of its name: where one is replaced by the definition, values
parse alike, as long as both schemas come to an end (`references_are_transparent`). Only keys of a
record that are listed values, by reference, are not treated like listed values.
-/

namespace Assay

open Run

/-! ## Forms that match -/

section

variable {R R' : Schema Value → Schema Value → Prop}

theorem forall₂_of_mem {α β : Type} {P Q : α → β → Prop} {as : List α} {bs : List β}
    (h : List.Forall₂ P as bs) (hPQ : ∀ a ∈ as, ∀ b ∈ bs, P a b → Q a b) :
    List.Forall₂ Q as bs := by
  refine List.forall₂_iff_zip.2 ⟨h.length_eq, fun {a b} hab => ?_⟩
  obtain ⟨ha, hb⟩ := List.of_mem_zip hab
  exact hPQ a ha b hb ((List.forall₂_iff_zip.1 h).2 hab)

/-- Forms match by any relation of their parts. -/
theorem Form.Matches.of_mem {form form' : Form Value (Schema Value)} (h : form.Matches R form')
    (hR : ∀ a ∈ form.parts, ∀ b ∈ form'.parts, R a b → R' a b) : form.Matches R' form' := by
  have hoption {o o' : Option (Schema Value)} (ho : Option.Rel R o o')
      (hR : ∀ a ∈ o.toList, ∀ b ∈ o'.toList, R a b → R' a b) : Option.Rel R' o o' := by
    cases ho with
    | none => exact .none
    | some hab => exact .some (hR _ (by simp) _ (by simp) hab)
  cases h with
  | simple hsimple => exact .simple hsimple
  | object hshape hcatchall =>
    refine .object (forall₂_of_mem hshape fun e he f hf hef => ⟨hef.1, ?_⟩)
      (hoption hcatchall fun a ha b hb => ?_)
    · exact hR _ (List.mem_append_left _ (List.mem_map_of_mem he)) _
        (List.mem_append_left _ (List.mem_map_of_mem hf)) hef.2
    · exact hR a (List.mem_append_right _ ha) b (List.mem_append_right _ hb)
  | tuple hss hrest =>
    refine .tuple (forall₂_of_mem hss fun a ha b hb => ?_) (hoption hrest fun a ha b hb => ?_)
    · exact hR a (List.mem_append_left _ ha) b (List.mem_append_left _ hb)
    · exact hR a (List.mem_append_right _ ha) b (List.mem_append_right _ hb)
  | union hss => exact .union (forall₂_of_mem hss hR)
  | discriminatedUnion hss => exact .discriminatedUnion (forall₂_of_mem hss hR)
  | record hk hx hkeys =>
    exact .record (hR _ (by simp [Form.parts]) _ (by simp [Form.parts]) hk)
      (hR _ (by simp [Form.parts]) _ (by simp [Form.parts]) hx) hkeys
  | map hk hx =>
    exact .map (hR _ (by simp [Form.parts]) _ (by simp [Form.parts]) hk)
      (hR _ (by simp [Form.parts]) _ (by simp [Form.parts]) hx)
  | intersection hk hx =>
    exact .intersection (hR _ (by simp [Form.parts]) _ (by simp [Form.parts]) hk)
      (hR _ (by simp [Form.parts]) _ (by simp [Form.parts]) hx)
  | pipe hk hx =>
    exact .pipe (hR _ (by simp [Form.parts]) _ (by simp [Form.parts]) hk)
      (hR _ (by simp [Form.parts]) _ (by simp [Form.parts]) hx)
  | array hs => exact .array (hR _ (by simp [Form.parts]) _ (by simp [Form.parts]) hs)
  | set hs => exact .set (hR _ (by simp [Form.parts]) _ (by simp [Form.parts]) hs)
  | optional hs => exact .optional (hR _ (by simp [Form.parts]) _ (by simp [Form.parts]) hs)
  | nullable hs => exact .nullable (hR _ (by simp [Form.parts]) _ (by simp [Form.parts]) hs)
  | default hs => exact .default (hR _ (by simp [Form.parts]) _ (by simp [Form.parts]) hs)
  | prefault hs => exact .prefault (hR _ (by simp [Form.parts]) _ (by simp [Form.parts]) hs)
  | catching hcallable hs =>
    exact .catching hcallable (hR _ (by simp [Form.parts]) _ (by simp [Form.parts]) hs)
  | readonly hs => exact .readonly (hR _ (by simp [Form.parts]) _ (by simp [Form.parts]) hs)
  | promise hs => exact .promise (hR _ (by simp [Form.parts]) _ (by simp [Form.parts]) hs)

end

namespace OfDefinition

/-! ## Twins correspond -/

section

variable {host : Host} {υ : Session} {ctx : Context} {scope scope' : Scope}
  {s₀ t₀ s t : Schema Value}

/-- Twins that are reached from two schemas. -/
structure Tied (host : Host) (υ : Session) (scope scope' : Scope) (s₀ t₀ s t : Schema Value) :
    Prop where
  twins : ∃ depth, Twins υ.kinds scope scope' depth s t
  left : s₀.Reaches host υ s
  right : t₀.Reaches host υ t

theorem seen_of_unnumbered {c c' : Value} (h : c.Alike c') : seen c = seen c' := by
  cases c with
  | schema s =>
    cases c' with
    | schema t =>
      have hst : t.unnumbered = s.unnumbered := Value.schema.inj h
      unfold seen
      dsimp only
      rw [← s.unnumbered_kind, ← s.unnumbered_extra, ← s.unnumbered_error, ← hst,
        t.unnumbered_kind, t.unnumbered_extra, t.unnumbered_error]
    | _ => cases h
  | check c =>
    cases c' with
    | check c' => exact h.symm
    | _ => cases h
  | _ => cases c' <;> first | exact h.symm | cases h

theorem checks_match {cs cs' : List Value} (h : List.Forall₂ Value.CheckTwins cs cs') :
    List.Forall₂ (CheckMatch seen) cs cs' :=
  h.imp fun _ _ hc => ⟨seen_of_unnumbered hc.alike, hc.alike,
    fun d hd => (hc.left.rule d hd).own⟩

/-- Twins with checks of their own look the same. -/
theorem Siblings.congruent {R : Schema Value → Schema Value → Prop} (h : Siblings s t)
    (hform : s.form.tag? = none → s.form = .generic ∧ t.form = .generic)
    (hhost : Impartial host υ ctx) : Congruent host υ True seen R s t where
  kind := h.kind
  extra := h.extra
  error := h.error
  mask := by
    unfold seen
    dsimp only
    rw [h.kind, h.extra, h.error]
  checks := checks_match h.checks
  evaluators fn hfn hne v := by
    cases htag : s.form.tag? with
    | some tag =>
      rw [h.own tag htag] at hfn
      exact absurd (hhost.own tag (Form.tag?_known htag) fn hfn) hne
    | none =>
      obtain ⟨hs, ht⟩ := hform htag
      refine hhost.unnumbered s t fn ?_ hfn hne v
      have hchecks := CheckMatch.alike_all (checks_match h.checks)
      rw [← Value.unnumberedAll_eq_map, ← Value.unnumberedAll_eq_map] at hchecks
      have hkind := h.kind
      have hextra := h.extra
      have herror := h.error
      obtain ⟨id, kind, form, extra, checks, error⟩ := s
      obtain ⟨id', kind', form', extra', checks', error'⟩ := t
      dsimp only at *
      unfold Schema.Alike Schema.unnumbered
      rw [hs, ht, hchecks, hkind, hextra, herror]

/-- References of one name stand for twins. -/
theorem twins_of_resolved (hs₀ : Homed υ scope s₀) (ht₀ : Homed υ scope' t₀)
    (hscope : scope.Akin scope') {name : Value} {u w : Schema Value} (hs : s₀.Reaches host υ s)
    (ht : t₀.Reaches host υ t)
    (hu : (s.resolve host (.builtin (.definition scope.id name))).answer υ = .ok u)
    (hw : (t.resolve host (.builtin (.definition scope'.id name))).answer υ = .ok w) :
    ∃ depth, Twins υ.kinds scope scope' depth u w := by
  obtain ⟨place, hfind, hbuilt⟩ := hs₀.resolve (hs₀.unresolved_of_reaches hs) hu
  obtain ⟨place', hfind', hbuilt'⟩ := ht₀.resolve (ht₀.unresolved_of_reaches ht) hw
  have hakin := hscope.definitions name
  rw [hfind, hfind'] at hakin
  cases hakin with
  | some hakin =>
    have htwofold := build_twofold (K := υ.kinds) hscope (scope.at place).depth
      (scope'.at place').depth _ _ hakin (scope.lane place υ) (scope'.lane place' υ) rfl rfl
    rw [hbuilt, hbuilt'] at htwofold
    exact ⟨_, htwofold.1⟩

/-- A reference stands for a twin of what is built from its definition in its place. -/
theorem twins_of_unfolded (hs₀ : Homed υ scope s₀) (hscope : scope.Akin scope') {name x : Value}
    {u : Schema Value} {depth : Nat} {τ : Session} (hs : s₀.Reaches host υ s)
    (hx : scope.definitions.find? name = some x) (hτ : τ.kinds = υ.kinds)
    (ht : (build scope' depth x).answer τ = .ok t)
    (hu : (s.resolve host (.builtin (.definition scope.id name))).answer υ = .ok u) :
    ∃ depth, Twins υ.kinds scope scope' depth u t := by
  obtain ⟨place, hfind, hbuilt⟩ := hs₀.resolve (hs₀.unresolved_of_reaches hs) hu
  obtain rfl : x = scope.at place := Option.some.inj (hx.symm.trans hfind)
  have htwofold := build_twofold (K := υ.kinds) hscope (scope.at place).depth depth _ _
    (.refl (hs₀.json.at place)) (scope.lane place υ) τ rfl hτ
  rw [hbuilt, ht] at htwofold
  exact ⟨_, htwofold.1⟩

/-- What two schemas reach that are twins corresponds. -/
theorem tied_correspondence (hs₀ : Homed υ scope s₀) (ht₀ : Homed υ scope' t₀)
    (hscope : scope.Akin scope') (hhost : Impartial host υ ctx) :
    Correspondence host υ True seen (υ.Like host s₀) (υ.Like host t₀) (s₀.Reaches host υ)
      (t₀.Reaches host υ) (Tied host υ scope scope' s₀ t₀) where
  left := (hs₀.isPure hhost).settled
  right := (ht₀.isPure hhost).settled
  related _ _ hst := ⟨hst.left, hst.right⟩
  linked := by
    rintro s t ⟨⟨_ | depth, htwins⟩, hs, ht⟩
    · exact htwins.elim
    · cases htwins with
      | parts hsiblings hform =>
        refine .parts (hsiblings.congruent (fun htag => ?_) hhost)
          (hform.of_mem fun a ha b hb hab => ⟨⟨depth, hab⟩, .part hs ha, .part ht hb⟩)
        have hgeneric := hform.generic_of_tag? htag
        rw [hgeneric] at hform
        generalize t.form = form' at hform
        cases hform
        exact ⟨hgeneric, rfl⟩
      | @references name hsiblings hsform htform =>
        unfold RefersTo at hsform htform
        refine .lazies trivial (hsiblings.congruent (fun htag => ?_) hhost) hsform htform
          fun u w hu hw => ⟨twins_of_resolved hs₀ ht₀ hscope hs ht hu hw, ?_, ?_⟩
        · rw [hsform] at htag
          cases htag
        · exact .lazily hs hsform hu
        · exact .lazily ht htform hw
      | @unfolds id name x depth' τ hform hfind hτ hbuilt =>
        have hsform := congrArg Schema.form hform
        refine .unfolds trivial hsform (congrArg Schema.checks hform) (fun fn hfn => ?_)
          fun u hu => ⟨twins_of_unfolded hs₀ hscope hs hfind hτ hbuilt hu, ?_, ht⟩
        · rw [congrArg Schema.kind hform] at hfn
          exact hhost.own "lazy" (by decide) fn hfn
        · exact .lazily hs hsform hu

/-! ## Parses -/

theorem shows_errors_seen : Resolution.ShowsErrors seen := by
  rintro ⟨path, message, input, source, detail⟩
  cases source <;> rfl

/-- Issues of a schema that was built have plain messages. -/
theorem Homed.sourced (h : Homed υ scope s) (hhost : Impartial host υ ctx) {thorough : Bool}
    {fuel : Nat} {v : Value} {r : Result} (hr : meaning host υ ctx thorough fuel s v = .ok r) :
    r.Sourced Resolution.HasMessage := by
  have hformed (t : Schema Value) (ht : s.Reaches host υ t) : Formed scope t :=
    (h.reaches ht).1.formed
  refine Schema.Reports.sourced ⟨fun t ht => ⟨?_, fun c hc => ?_⟩, fun t _ fn hfn hne => ?_,
    fun t ht c hc fn hrule => ?_, fun t ht fn hform => ?_⟩ fuel s .self v r hr
  · exact Resolution.hasMessage_schema (hformed t ht).message
  · exact ((hformed t ht).checks c hc).message
  · exact hhost.sources t fn hfn hne
  · have hown := (((hformed t ht).checks _ hc).rule c rfl).own
    rw [hrule] at hown
    cases hown
  · exact absurd hform ((hformed t ht).transforms fn)

/-- Impartial providers overlook what is not to be seen. -/
theorem Homed.blind (h : Homed υ scope s) (hhost : Impartial host υ ctx) :
    Resolution.Blind host seen ctx υ.config (υ.Like host s) := by
  have hfixed := (h.isPure hhost).wording_fixed
  have hhere := Session.Like.refl host υ s
  have hoverlooks (p : Value) (hp : p ∈ [ctx.error, υ.config.customError, υ.config.localeError]) :
      Resolution.Overlooks host seen (υ.Like host s) p := by
    intro i
    refine ⟨_, (Resolution.consult_fixed hfixed p i).gives hhere, ?_⟩
    rw [hhost.words p hp i]
    exact (Resolution.consult_fixed hfixed p (i.masked seen)).gives hhere
  exact ⟨hoverlooks _ (by simp), hoverlooks _ (by simp), hoverlooks _ (by simp)⟩

/-- Twins parse alike. -/
theorem safeParse_twins (hs : Homed υ scope s) (ht : Homed υ scope' t) (hscope : scope.Akin scope')
    (hhost : Impartial host υ ctx) (hst : ∃ depth, Twins υ.kinds scope scope' depth s t)
    (v : Value) : Accord True Eq ((safeParse host (ctx.mayWait false) s v).answer υ)
      ((safeParse host (ctx.mayWait false) t v).answer υ) :=
  (tied_correspondence hs ht hscope hhost).safeParse_accord shows_errors_seen (hs.blind hhost)
    (ht.blind hhost) (fun _ hτ => Session.config_eq_of_settings hτ.settings)
    (fun _ hτ => Session.config_eq_of_settings hτ.settings) (.inl trivial)
    ⟨hst, .self, .self⟩ v (fun _ hr => hs.sourced hhost hr) fun _ hr => ht.sourced hhost hr

end

end OfDefinition

/-! ## Replacing a reference -/

open OfDefinition

/-- Named references are transparent: when one bare reference of a definition is replaced by the
definition of its name, every value parses to the same result against both schemas, whenever both
parses come to one. The keys of a record may stay a reference only to what lists no values. -/
theorem references_are_transparent {c c' : Entries} (hc : (Value.dict c).isJson = true)
    (hreplaces : Replaces c c') {strict : Bool} {σ τ υ : Session} (hσ : Ready σ)
    {s t : Schema Value} (hs : (buildSchema (.dict c) strict).exec σ = (.ok s, τ))
    (ht : (buildSchema (.dict c') strict).exec τ = (.ok t, υ)) {host : Host} {ctx : Context}
    (hhost : Impartial host υ ctx) (v : Value) {p p' : Parsed}
    (hp : (safeParse host (ctx.mayWait false) s v).answer υ = .ok p)
    (hp' : (safeParse host (ctx.mayWait false) t v).answer υ = .ok p') : p' = p := by
  obtain ⟨scope, hstrict, hcreated⟩ := createSchema_created hc hσ (createSchema_of_buildSchema hs)
  obtain ⟨scope', hstrict', hcreated'⟩ := createSchema_created (hreplaces.isJson hc)
    (hσ.later hcreated) (createSchema_of_buildSchema ht)
  obtain ⟨hdefinitions, hmain⟩ := hreplaces.akin hc hcreated.table hcreated'.table
  have hscope : scope.Akin scope' := ⟨hstrict'.trans hstrict.symm, hdefinitions⟩
  obtain ⟨ρ, hρ, hbuilt⟩ := hcreated.built
  obtain ⟨ρ', hρ', hbuilt'⟩ := hcreated'.built
  have hkinds : υ.kinds = τ.kinds := by rw [hcreated'.frame]
  have htwofold := build_twofold (K := υ.kinds) hscope (Value.dict (mainOf c)).depth
    (Value.dict (mainOf c')).depth _ _ hmain ρ ρ' (hρ.trans hkinds.symm) hρ'
  rw [hbuilt, hbuilt'] at htwofold
  have haccord := safeParse_twins (hcreated.home_later hcreated') hcreated'.home hscope hhost
    ⟨_, htwofold.1⟩ v
  rw [hp, hp'] at haccord
  exact haccord.symm

namespace Referring

/-- A reference to a named definition. -/
def reference (name : String) : Entries := [(.str "type", .str "ref"), (.str "name", .str name)]

theorem isReference (name : String) : IsReference (reference name) (.str name) where
  tag := rfl
  name := rfl
  checks := rfl
  error := rfl

/-- Lists of lists of their own kind. -/
def nests : Entries := [(.str "type", .str "array"), (.str "element", .dict (reference "nests"))]

/-- A list of nested lists, which are defined by name. -/
def listOf (element : Value) : Entries :=
  [(.str "type", .str "array"), (.str "element", element),
    (.str "definitions", .dict [(.str "nests", .dict nests)])]

theorem replaces : Replaces (listOf (.dict (reference "nests"))) (listOf (.dict nests)) :=
  @Replaces.main [(.str "type", .str "array")] _ [(.str "nests", .dict nests)] "array" "element"
    _ _ _ _ rfl (.reference (isReference "nests") rfl) (.child (by simp [childFields])) rfl nofun

def array (id : Nat) (element : Schema Value) : Schema Value :=
  ⟨id, .str "array", .array element, [], [], .null⟩

/-- What is built from a reference. -/
def lazily (name : String) (id scope : Nat) : Schema Value :=
  ⟨id, .str "lazy", .lazy (.builtin (.definition scope (.str name))) (.str name), [], [], .null⟩

/-- A session in which schemas of a kind were created with named definitions. -/
def sessionAfter (kind : String) (table : Entries) (next : Nat) (scopes : List Nat) : Session :=
  { nextRef := next
    log := scopes.map fun _ => "INFO: Creating schema: " ++ kind
    definitionSets := scopes.map fun id => (id, ⟨table, true, []⟩) }

/-- The session in which both lists were created. -/
def session : Session := sessionAfter "array" [(.str "nests", .dict nests)] 7 [9, 0]

/-- The reference is kept when the first list is created, and what it refers to is in its place when
the second one is. -/
theorem created :
    let σ := sessionAfter "array" [(.str "nests", .dict nests)] 3 [0]
    (buildSchema (.dict (listOf (.dict (reference "nests")))) true).exec {} =
        (.ok (array 4 (lazily "nests" 1 0)), σ) ∧
      (buildSchema (.dict (listOf (.dict nests))) true).exec σ =
        (.ok (array 36 (array 25 (lazily "nests" 16 9))), session) :=
  ⟨rfl, rfl⟩

theorem ready : Ready {} := ⟨rfl, fun _ _ => rfl, fun _ _ _ _ => rfl⟩

/-- A new session has evaluators of the library only. -/
theorem evaluator_own {kind fn : Value} (h : KindTable.initial.evaluator? kind = .ok fn) :
    fn = .builtin .evaluateNode := by
  unfold KindTable.evaluator? at h
  split at h
  · cases h
  split at h
  · rename_i w hw
    cases h
    obtain ⟨f, hf, rfl⟩ := Option.map_eq_some_iff.1 (Option.eq_some_of_filter_eq_some hw)
    obtain ⟨k, -, rfl⟩ := List.mem_map.1 (List.mem_of_find?_eq_some hf)
    rfl
  · split at h <;> cases h

open Stock in
/-- Where no kinds and no message providers were registered, stock functions tell nothing apart. -/
theorem impartial {υ : Session} (hkinds : υ.kinds = .initial) (hconfig : υ.config = {}) :
    Impartial (hostThat false) υ {} where
  own tag _ fn hfn := evaluator_own (hkinds ▸ hfn)
  evaluators kind fn hfn := by
    obtain rfl : fn = .builtin .evaluateNode := evaluator_own (hkinds ▸ hfn)
    trivial
  unnumbered s t fn _ hfn hne := absurd (evaluator_own (hkinds ▸ hfn)) hne
  sources s fn hfn hne := absurd (evaluator_own (hkinds ▸ hfn)) hne
  providers f i τ _ := wording_exec f i υ τ
  words p hp i := by
    rw [hconfig] at hp
    have hp : p = .null := by simpa using hp
    rw [hp]
    rfl
  settings := host_settings
  prompt _ _ _ := rfl

/-- A list whose second item is no list. -/
def mistaken : Value := .list [.list [], .int 7]

end Referring

open Referring Stock in
/-- A list whose second item is no list is rejected alike by reference and by definition. -/
theorem references_are_transparent_nests :
    Impartial (hostThat false) session {} ∧
      ∃ issues p', (safeParse (hostThat false) (Context.mayWait {} false)
          (array 4 (lazily "nests" 1 0)) mistaken).answer session = .ok (.rejected issues) ∧
        (safeParse (hostThat false) (Context.mayWait {} false)
          (array 36 (array 25 (lazily "nests" 16 9))) mistaken).answer session = .ok p' ∧
        p' = .rejected issues := by
  have himpartial : Impartial (hostThat false) session {} := impartial rfl rfl
  obtain ⟨issues, hp⟩ : ∃ issues, (safeParse (hostThat false) (Context.mayWait {} false)
      (array 4 (lazily "nests" 1 0)) mistaken).answer session = .ok (.rejected issues) := ⟨_, rfl⟩
  obtain ⟨p', hp'⟩ : ∃ p', (safeParse (hostThat false) (Context.mayWait {} false)
      (array 36 (array 25 (lazily "nests" 16 9))) mistaken).answer session = .ok p' := ⟨_, rfl⟩
  exact ⟨himpartial, issues, p', hp, hp', references_are_transparent rfl replaces ready created.1
    created.2 himpartial mistaken hp hp'⟩

namespace Referring

/-- A listed key. -/
def listed : Entries := [(.str "type", .str "enum"), (.str "values", .list [.str "a"])]

/-- A record of texts under listed keys, which are defined by name. -/
def recordOf (keys : Value) : Entries :=
  [(.str "type", .str "record"), (.str "key_type", keys),
    (.str "value_type", .dict [(.str "type", .str "string")]),
    (.str "definitions", .dict [(.str "key", .dict listed)])]

def record (id : Nat) (keys value : Schema Value) : Schema Value :=
  ⟨id, .str "record", .record keys value, [], [], .null⟩

def text (id : Nat) : Schema Value := ⟨id, .str "string", .string .null, [], [], .null⟩

/-- What is built from listed keys. -/
def enumeration (id : Nat) : Schema Value :=
  ⟨id, .str "enum", .enumeration [(.str "a", .str "a")] none, [], [], .null⟩

end Referring

open Referring Stock in
/-- An empty record lacks no listed key when the keys are a reference, and lacks one when they are
the definition that is referred to. -/
theorem listed_keys_by_reference :
    let σ := sessionAfter "record" [(.str "key", .dict listed)] 4 [0]
    let υ := sessionAfter "record" [(.str "key", .dict listed)] 8 [16, 0]
    IsReference (reference "key") (.str "key") ∧
      tableOf? (recordOf (.dict (reference "key"))) = some [(.str "key", .dict listed)] ∧
      (buildSchema (.dict (recordOf (.dict (reference "key")))) true).exec {} =
        (.ok (record 9 (lazily "key" 1 0) (text 4)), σ) ∧
      (buildSchema (.dict (recordOf (.dict listed))) true).exec σ =
        (.ok (record 49 (enumeration 25) (text 36)), υ) ∧
      (safeParse (hostThat false) (Context.mayWait {} false) (record 9 (lazily "key" 1 0) (text 4))
        (.dict [])).answer υ = .ok (.accepted (.dict [])) ∧
      ∃ issues, (safeParse (hostThat false) (Context.mayWait {} false)
        (record 49 (enumeration 25) (text 36)) (.dict [])).answer υ = .ok (.rejected issues) :=
  ⟨isReference "key", rfl, rfl, rfl, rfl, _, rfl⟩

end Assay
