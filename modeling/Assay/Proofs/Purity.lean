import Assay.Proofs.Building
import Assay.Proofs.Settled
import Assay.Proofs.Wording

/-!
# Pure functions

The functions that a schema calls, itself or through the schemas that it reaches, are pure when
they answer alike in all sessions with the same settings and change none (`Schema.IsPure`). Then
the schemas that it reaches are settled (`Schema.IsPure.settled`), with an invariant that says what
may differ between sessions: anything but the settings, as long as named definitions and lazy
schemas stand for the same schemas (`Session.Like`). Nothing has to be assumed about references to
named definitions: building one depends on the settings only.
-/

namespace Assay

/-- What of a session no evaluation changes. -/
def Session.settings (σ : Session) : Session :=
  { σ with
    lane := 0, nextRef := 0, calls := [], log := [], counters := [], resolved := []
    definitionSets := [], spent := [] }

/-- The value answers each call alike in all sessions with the settings of `σ`; a supplied
function changes none of them. -/
def Host.IsPure (host : Host) (σ : Session) : Value → Prop
  | .callable f => ∀ call τ, τ.settings = σ.settings →
      (host.run f call).exec τ = ((host.run f call).answer σ, τ)
  | .cls c => ∀ call τ, (c.call call).answer τ = (c.call call).answer σ
  | _ => True

/-- Copies of the value can be told apart. -/
def Value.isCopiedAnew : Value → Bool
  | .object .. | .schema _ | .check _ => true
  | _ => false

/-- A schema reaches itself, the parts of what it reaches, and what its lazy schemas stand for. -/
inductive Schema.Reaches (host : Host) (σ : Session) (s : Schema Value) : Schema Value → Prop
  | self : Reaches host σ s s
  | part {t u} : Reaches host σ s t → u ∈ t.form.parts → Reaches host σ s u
  | lazily {t u getter name} : Reaches host σ s t → t.form = .lazy getter name →
      (t.resolve host getter).answer σ = .ok u → Reaches host σ s u

/-- All functions that a schema calls, itself or through what it reaches, are pure, and so are
message providers. Whatever functions there are besides, they change no settings. Default values
are their own copies, and numbers tell lazy schemas apart. -/
structure Schema.IsPure (host : Host) (σ : Session) (s : Schema Value) : Prop where
  functions : ∀ t, s.Reaches host σ t → ∀ fn ∈ t.functions, host.IsPure σ fn
  evaluators : ∀ t, s.Reaches host σ t →
    ∀ fn, σ.kinds.evaluator? t.kind = .ok fn → host.IsPure σ fn
  providers : ∀ f i τ, τ.settings = σ.settings →
    (host.run f (.wording i)).exec τ = ((host.run f (.wording i)).answer σ, τ)
  defaults : ∀ t, s.Reaches host σ t → ∀ d, t.form.default? = some d → d.isCopiedAnew = false
  lazies : ∀ t u getter name getter' name', s.Reaches host σ t → s.Reaches host σ u →
    t.form = .lazy getter name → u.form = .lazy getter' name' → t.id = u.id → getter = getter'
  settings : ∀ f call τ, ((host.run f call).exec τ).2.settings = τ.settings ∧
    ((host.run f call).exec τ).2.resolved = τ.resolved ∧
    ((host.run f call).exec τ).2.definitionSets = τ.definitionSets
  prompt : host.Prompt

/-- The session has the settings of `σ`, and in it named definitions, and the lazy schemas that a
schema reaches, stand for the same schemas. -/
structure Session.Like (host : Host) (σ : Session) (s : Schema Value) (τ : Session) : Prop where
  settings : τ.settings = σ.settings
  definitions : ∀ id name,
    (resolveDefinition id name).answer τ = (resolveDefinition id name).answer σ
  lazies : ∀ t, s.Reaches host σ t → ∀ getter name, t.form = .lazy getter name →
    (t.resolve host getter).answer τ = (t.resolve host getter).answer σ

theorem Session.Like.refl (host : Host) (σ : Session) (s : Schema Value) : σ.Like host s σ :=
  ⟨rfl, fun _ _ => rfl, fun _ _ _ _ _ => rfl⟩

theorem Session.kinds_eq_of_settings {σ τ : Session} (h : τ.settings = σ.settings) :
    τ.kinds = σ.kinds :=
  show τ.settings.kinds = σ.settings.kinds by rw [h]

theorem Session.config_eq_of_settings {σ τ : Session} (h : τ.settings = σ.settings) :
    τ.config = σ.config :=
  show τ.settings.config = σ.settings.config by rw [h]

/-! ## Named definitions -/

/-- What a named definition stands for is found among the schemas built so far, or else built. -/
theorem resolveDefinition_answer (id : Nat) (name : Value) (τ : Session) :
    (resolveDefinition id name).answer τ =
      match τ.definitionSets.lookup id with
      | none => .error (.missingKey name)
      | some set =>
        match set.place? name with
        | none => .error (.missingKey name)
        | some place =>
          match set.built.lookup place with
          | some s => .ok s
          | none => (buildPlace id set place).answer τ := by
  unfold resolveDefinition Run.answer
  rw [Run.exec_bind]
  dsimp only [Run.exec_get]
  cases τ.definitionSets.lookup id with
  | none => rfl
  | some set =>
    dsimp only
    cases set.place? name with
    | none => rfl
    | some place =>
      dsimp only
      cases set.built.lookup place with
      | some s => rfl
      | none =>
        dsimp only
        rw [Run.exec_bind]
        rcases (buildPlace id set place).exec τ with ⟨e | s, τ'⟩ <;> rfl

/-- Looking up a named definition changes the log at most, and may remember a schema that was
built. -/
theorem resolveDefinition_session (id : Nat) (name : Value) (τ : Session) :
    ∃ l, ((resolveDefinition id name).exec τ).2 = { τ with log := l } ∨
      ∃ set place s, τ.definitionSets.lookup id = some set ∧ set.built.lookup place = none ∧
        (buildPlace id set place).answer τ = .ok s ∧
        ((resolveDefinition id name).exec τ).2 =
          Session.remember { τ with log := l } id place s := by
  unfold resolveDefinition
  rw [Run.exec_bind]
  dsimp only [Run.exec_get]
  cases hset : τ.definitionSets.lookup id with
  | none => exact ⟨τ.log, .inl rfl⟩
  | some set =>
    dsimp only
    cases hplace : set.place? name with
    | none => exact ⟨τ.log, .inl rfl⟩
    | some place =>
      dsimp only
      cases hbuilt : set.built.lookup place with
      | some s => exact ⟨τ.log, .inl rfl⟩
      | none =>
        obtain ⟨l, hl⟩ := (buildPlace_exec id set place (σ := τ) (τ := τ) rfl).2
        dsimp only
        rw [Run.exec_bind]
        have hanswer : (buildPlace id set place).answer τ = ((buildPlace id set place).exec τ).1 :=
          rfl
        rcases hexec : (buildPlace id set place).exec τ with ⟨e | s, τ'⟩ <;>
          rw [hexec] at hl hanswer <;> cases hl
        · exact ⟨l, .inl rfl⟩
        · exact ⟨l, .inr ⟨set, place, s, rfl, hbuilt, hanswer, rfl⟩⟩

/-- What named definitions stand for does not depend on the rest of the session. -/
theorem resolveDefinition_congr (id : Nat) (name : Value) {τ τ' : Session}
    (hkinds : τ'.kinds = τ.kinds) (hsets : τ'.definitionSets = τ.definitionSets) :
    (resolveDefinition id name).answer τ' = (resolveDefinition id name).answer τ := by
  rw [resolveDefinition_answer, resolveDefinition_answer, hsets]
  simp only [(buildPlace_exec id _ _ hkinds).1]

theorem lookup_map_self {α : Type} (f : α → α) (id : Nat) (es : List (Nat × α)) (id' : Nat) :
    (es.map fun e => if e.1 == id then (id, f e.2) else e).lookup id' =
      if id' = id then (es.lookup id').map f else es.lookup id' := by
  induction es with
  | nil => simp
  | cons e es ih =>
    rw [List.map_cons, List.lookup_cons, List.lookup_cons, ih]
    by_cases he : e.1 = id
    · rw [if_pos (by simpa using he)]
      by_cases hid : id' = id
      · simp [he, hid]
      · simp [he, hid, show (id' == id) = false by simpa using hid]
    · rw [if_neg (by simpa using he)]
      by_cases hid : id' = id
      · simp [hid, show (id == e.1) = false by simpa using Ne.symm he]
      · simp [hid]

/-- Remembering what a definition was built to does not change what definitions stand for. -/
theorem resolveDefinition_remember {id place : Nat} {set : DefinitionSet} {s : Schema Value}
    {τ : Session} (hset : τ.definitionSets.lookup id = some set)
    (hnone : set.built.lookup place = none) (hbuilt : (buildPlace id set place).answer τ = .ok s)
    (id' : Nat) (name : Value) :
    (resolveDefinition id' name).answer (τ.remember id place s) =
      (resolveDefinition id' name).answer τ := by
  let grown (set : DefinitionSet) : DefinitionSet := { set with built := (place, s) :: set.built }
  have hsets : (τ.remember id place s).definitionSets.lookup id' =
      if id' = id then (τ.definitionSets.lookup id').map grown else τ.definitionSets.lookup id' :=
    lookup_map_self grown id _ id'
  have hkinds : (τ.remember id place s).kinds = τ.kinds := rfl
  rw [resolveDefinition_answer, resolveDefinition_answer, hsets]
  by_cases hid : id' = id
  · subst hid
    rw [if_pos rfl, hset, Option.map_some]
    dsimp only
    rw [show (grown set).place? name = set.place? name from rfl]
    cases set.place? name with
    | none => rfl
    | some p =>
      dsimp only
      rw [show (grown set).built = (place, s) :: set.built from rfl, List.lookup_cons]
      by_cases hp : p = place
      · subst hp
        rw [hnone, beq_self_eq_true]
        exact hbuilt.symm
      · rw [show (p == place) = false by simpa using hp]
        cases set.built.lookup p with
        | some t => rfl
        | none => exact (buildPlace_exec id' set p hkinds).1
  · rw [if_neg hid]
    simp only [(buildPlace_exec id' _ _ hkinds).1]

/-! ## Lazy schemas -/

variable {host : Host} {σ τ τ' : Session} {s : Schema Value}

/-- What a lazy schema stands for is remembered, or else what its getter answers. -/
theorem Schema.resolve_answer (t : Schema Value) (getter : Value) (τ : Session) :
    (t.resolve host getter).answer τ =
      match τ.resolved.lookup t.id with
      | some u => .ok u
      | none => (getterAnswer host getter).answer τ >>= fun v =>
        (Construct.schemaAt "lazy getter result" v).answer {} := by
  unfold Schema.resolve Run.answer
  rw [Run.exec_bind]
  dsimp only [Run.exec_get]
  cases τ.resolved.lookup t.id with
  | some u => rfl
  | none =>
    dsimp only
    rw [Run.exec_bind]
    rcases (getterAnswer host getter).exec τ with ⟨e | v, τ'⟩
    · rfl
    · dsimp only
      rw [Run.exec_bind]
      cases v <;> rfl

/-- Resolving a lazy schema leaves the session as its getter leaves it, and may remember what the
schema stands for. -/
theorem Schema.resolve_session (t : Schema Value) (getter : Value) (τ : Session) :
    ((t.resolve host getter).exec τ).2 = τ ∨
      ((t.resolve host getter).exec τ).2 = ((getterAnswer host getter).exec τ).2 ∨
      ∃ u, (t.resolve host getter).answer τ = .ok u ∧ ((t.resolve host getter).exec τ).2 =
        { ((getterAnswer host getter).exec τ).2 with
          resolved := (t.id, u) :: ((getterAnswer host getter).exec τ).2.resolved } := by
  unfold Schema.resolve Run.answer
  rw [Run.exec_bind]
  dsimp only [Run.exec_get]
  cases τ.resolved.lookup t.id with
  | some u => exact .inl rfl
  | none =>
    dsimp only
    rw [Run.exec_bind]
    rcases (getterAnswer host getter).exec τ with ⟨e | v, τ'⟩
    · exact .inr (.inl rfl)
    · dsimp only
      rw [Run.exec_bind]
      cases v with
      | schema u => exact .inr (.inr ⟨u, rfl, rfl⟩)
      | _ => exact .inr (.inl rfl)

/-! ## Pure functions -/

variable {I : Session → Prop}

/-- Pure functions answer alike in sessions with the settings of `σ`. -/
theorem Host.IsPure.answers {fn : Value} (h : host.IsPure σ fn) (hB : Bookkeeping I)
    (hI : ∀ τ, I τ → τ.settings = σ.settings) (call : Call Value) : host.Answers I call fn := by
  cases fn with
  | callable f =>
    refine ⟨(host.run f call).answer σ, fun τ hτ => ?_⟩
    rw [h call τ (hI τ hτ)]
    exact ⟨hτ, rfl⟩
  | cls c => exact ⟨_, fun τ hτ => ⟨(hB.callClass c call τ hτ).1, h call τ⟩⟩
  | _ => trivial

theorem bookkeeping_settings (σ : Session) : Bookkeeping fun τ => τ.settings = σ.settings :=
  ⟨fun _ _ h => h, fun _ _ h => h, fun _ _ h => h⟩

/-- A getter that is not a reference to a named definition. -/
theorem getterAnswer_fixed (hB : Bookkeeping I) (hI : ∀ τ, I τ → τ.settings = σ.settings)
    (hprompt : host.Prompt) {getter : Value} (h : host.IsPure σ getter)
    (hgetter : ∀ id name, getter ≠ .builtin (.definition id name)) :
    (getterAnswer host getter).Fixed I := by
  unfold getterAnswer
  split
  · exact absurd rfl (hgetter _ _)
  · exact (Host.call_fixed hB hprompt (h.answers hB hI _) rfl).bind fun _ => .pure

/-- The getter of a lazy schema answers alike wherever named definitions stand for the same. -/
theorem getterAnswer_congr (hτ : τ.settings = σ.settings) (hτ' : τ'.settings = σ.settings)
    (hdefinitions : ∀ id name,
      (resolveDefinition id name).answer τ' = (resolveDefinition id name).answer τ)
    (hprompt : host.Prompt) {getter : Value} (h : host.IsPure σ getter) :
    (getterAnswer host getter).answer τ' = (getterAnswer host getter).answer τ := by
  by_cases hgetter : ∃ id name, getter = .builtin (.definition id name)
  · obtain ⟨id, name, rfl⟩ := hgetter
    show (Value.schema <$> resolveDefinition id name).answer τ' =
      (Value.schema <$> resolveDefinition id name).answer τ
    rw [Run.answer_map, Run.answer_map, hdefinitions]
  · obtain ⟨e, he⟩ := getterAnswer_fixed (bookkeeping_settings σ) (fun _ h => h) hprompt h
      fun id name hid => hgetter ⟨id, name, hid⟩
    rw [he.answer hτ, he.answer hτ']

theorem Schema.resolve_congr (hτ : τ.settings = σ.settings) (hτ' : τ'.settings = σ.settings)
    (hdefinitions : ∀ id name,
      (resolveDefinition id name).answer τ' = (resolveDefinition id name).answer τ)
    (hprompt : host.Prompt) {t : Schema Value}
    (hresolved : τ'.resolved.lookup t.id = τ.resolved.lookup t.id) {getter : Value}
    (h : host.IsPure σ getter) :
    (t.resolve host getter).answer τ' = (t.resolve host getter).answer τ := by
  rw [resolve_answer, resolve_answer, hresolved, getterAnswer_congr hτ hτ' hdefinitions hprompt h]

namespace Schema.IsPure

theorem getter (h : s.IsPure host σ) {t : Schema Value} (ht : s.Reaches host σ t)
    {getter name : Value} (hform : t.form = .lazy getter name) : host.IsPure σ getter :=
  h.functions t ht getter (List.mem_append_left _ (by simp [hform, Form.calls?]))

/-- Sessions that differ in nothing that named definitions and lazy schemas depend on. -/
theorem like_congr (h : s.IsPure host σ) (hτ : σ.Like host s τ)
    (hsettings : τ'.settings = τ.settings) (hresolved : τ'.resolved = τ.resolved)
    (hsets : τ'.definitionSets = τ.definitionSets) : σ.Like host s τ' := by
  have hkinds := Session.kinds_eq_of_settings hsettings
  have hdefinitions := fun id name => resolveDefinition_congr id name hkinds hsets
  refine ⟨hsettings.trans hτ.settings, fun id name => ?_, fun t ht getter name hform => ?_⟩
  · rw [hdefinitions, hτ.definitions]
  · rw [Schema.resolve_congr hτ.settings (hsettings.trans hτ.settings) hdefinitions h.prompt
      (by rw [hresolved]) (h.getter ht hform), hτ.lazies t ht getter name hform]

theorem bookkeeping (h : s.IsPure host σ) : Bookkeeping (σ.Like host s) :=
  ⟨fun _ _ hτ => h.like_congr hτ rfl rfl rfl, fun _ _ hτ => h.like_congr hτ rfl rfl rfl,
    fun _ _ hτ => h.like_congr hτ rfl rfl rfl⟩

theorem keeps (h : s.IsPure host σ) : host.Keeps (σ.Like host s) := by
  intro f call τ hτ
  obtain ⟨hsettings, hresolved, hsets⟩ := h.settings f call τ
  exact ⟨h.like_congr hτ hsettings hresolved hsets, trivial⟩

theorem reliable (h : s.IsPure host σ) {fn : Value} (hfn : host.IsPure σ fn) :
    host.Reliable (σ.Like host s) fn :=
  .of_answers h.bookkeeping h.prompt (hfn.answers h.bookkeeping fun _ hτ => hτ.settings)

theorem definition_gives (h : s.IsPure host σ) (id : Nat) (name : Value) :
    (resolveDefinition id name).Gives (σ.Like host s) ((resolveDefinition id name).answer σ) := by
  intro τ hτ
  refine ⟨?_, hτ.definitions id name⟩
  obtain ⟨l, hl | ⟨set, place, t, hset, hnone, hbuilt, hl⟩⟩ := resolveDefinition_session id name τ
  · rw [hl]
    exact h.like_congr hτ rfl rfl rfl
  · rw [hl]
    have hlike : σ.Like host s { τ with log := l } := h.like_congr hτ rfl rfl rfl
    have hkinds : Session.kinds { τ with log := l } = τ.kinds := rfl
    have hbuilt' : (buildPlace id set place).answer { τ with log := l } = .ok t := by
      rw [(buildPlace_exec id set place hkinds).1, hbuilt]
    have hremember := resolveDefinition_remember (τ := { τ with log := l }) hset hnone hbuilt'
    have hsettings : (Session.remember { τ with log := l } id place t).settings = σ.settings :=
      hlike.settings
    refine ⟨hsettings, fun id' name' => ?_, fun u hu getter name' hform => ?_⟩
    · rw [hremember, hlike.definitions]
    · have hsame : (u.resolve host getter).answer (Session.remember { τ with log := l } id place t) =
          (u.resolve host getter).answer { τ with log := l } :=
        Schema.resolve_congr hlike.settings hsettings hremember h.prompt rfl (h.getter hu hform)
      rw [hsame, hlike.lazies u hu getter name' hform]

theorem getter_fixed (h : s.IsPure host σ) {t : Schema Value} (ht : s.Reaches host σ t)
    {getter name : Value} (hform : t.form = .lazy getter name) :
    (getterAnswer host getter).Fixed (σ.Like host s) := by
  by_cases hgetter : ∃ id name, getter = .builtin (.definition id name)
  · obtain ⟨id, name', rfl⟩ := hgetter
    exact (h.definition_gives id name').map.fixed
  · exact getterAnswer_fixed h.bookkeeping (fun _ hτ => hτ.settings) h.prompt (h.getter ht hform)
      fun id name' hid => hgetter ⟨id, name', hid⟩

/-- Remembering what a lazy schema stands for does not change what lazy schemas stand for. -/
theorem like_noting (h : s.IsPure host σ) (hτ : σ.Like host s τ) {t u : Schema Value}
    (ht : s.Reaches host σ t) {getter name : Value} (hform : t.form = .lazy getter name)
    (hu : (t.resolve host getter).answer σ = .ok u) :
    σ.Like host s { τ with resolved := (t.id, u) :: τ.resolved } := by
  have hdefinitions : ∀ id name', (resolveDefinition id name').answer
      { τ with resolved := (t.id, u) :: τ.resolved } = (resolveDefinition id name').answer τ :=
    fun id name' => resolveDefinition_congr id name' rfl rfl
  refine ⟨hτ.settings, fun id name' => ?_, fun t' ht' getter' name' hform' => ?_⟩
  · rw [hdefinitions, hτ.definitions]
  · by_cases hid : t'.id = t.id
    · -- The same lazy schema, as far as the session can tell.
      obtain rfl := h.lazies t t' getter name getter' name' ht ht' hform hform' hid.symm
      have hsame : t'.resolve host getter = t.resolve host getter := by
        rw [Schema.resolve, Schema.resolve, hid]
      rw [hsame, hu, Schema.resolve_answer, List.lookup_cons, beq_self_eq_true]
    · have hlookup : ((t.id, u) :: τ.resolved).lookup t'.id = τ.resolved.lookup t'.id := by
        rw [List.lookup_cons, show (t'.id == t.id) = false by simpa using hid]
      have hsettings :
          Session.settings { τ with resolved := (t.id, u) :: τ.resolved } = σ.settings :=
        hτ.settings
      have hsame : (t'.resolve host getter').answer { τ with resolved := (t.id, u) :: τ.resolved } =
          (t'.resolve host getter').answer τ :=
        Schema.resolve_congr hτ.settings hsettings hdefinitions h.prompt hlookup
          (h.getter ht' hform')
      rw [hsame, hτ.lazies t' ht' getter' name' hform']

theorem resolve_gives (h : s.IsPure host σ) {t : Schema Value} (ht : s.Reaches host σ t)
    {getter name : Value} (hform : t.form = .lazy getter name) :
    (t.resolve host getter).Gives (σ.Like host s) ((t.resolve host getter).answer σ) := by
  intro τ hτ
  have hanswer := hτ.lazies t ht getter name hform
  refine ⟨?_, hanswer⟩
  have hafter : σ.Like host s ((getterAnswer host getter).exec τ).2 :=
    ((h.getter_fixed ht hform).keeps τ hτ).1
  rcases t.resolve_session getter τ with hsame | hsame | ⟨u, hu, hsame⟩
  · rw [hsame]
    exact hτ
  · rw [hsame]
    exact hafter
  · rw [hsame]
    exact h.like_noting hafter ht hform (hanswer ▸ hu)

/-! ## Words and defaults -/

theorem convertIssue_fixed (c : ClassRef Value) (i : Issue Value) :
    (c.convert (.issue i)).Fixed I := by
  unfold ClassRef.convert ClassRef.toFloat ClassRef.toInt
  split
  · exact .throw
  · exact .pure
  · exact .throw
  · exact .pure
  · exact .ofOption
  · exact .ofOption
  · exact .throw
  · exact .lift
  · exact .lift
  · exact .throw
  · dsimp only
    split
    · exact .pure
    · exact .throw

theorem wording_fixed (h : s.IsPure host σ) :
    Resolution.FixedProviders host (σ.Like host s) := by
  intro provider i
  refine Host.call_fixed h.bookkeeping h.prompt ?_ rfl
  cases provider with
  | callable f =>
    refine ⟨(host.run f (.wording i)).answer σ, fun τ hτ => ?_⟩
    rw [h.providers f i τ hτ.settings]
    exact ⟨hτ, rfl⟩
  | cls c => exact convertIssue_fixed c i
  | _ => trivial

theorem default_fixed (h : s.IsPure host σ) {t : Schema Value} (ht : s.Reaches host σ t)
    {d : Value} (hd : t.form.default? = some d) :
    (defaultValue host d).Fixed (σ.Like host s) := by
  unfold defaultValue
  split
  · have hfn : d ∈ t.functions := by
      refine List.mem_append_left _ ?_
      cases hform : t.form <;> simp_all [Form.default?, Form.calls?]
    exact ((h.reliable (h.functions t ht d hfn)).taken _ rfl).bind fun _ => .pure
  · have hcopy := h.defaults t ht d hd
    cases d <;> first
      | exact Run.Fixed.pure
      | exact Run.Fixed.throw
      | exact nomatch hcopy

theorem words_fixed (h : s.IsPure host σ) (ctx : Context) (issues : List (Issue Value)) :
    (Resolution.finalizeActive host ctx issues).Fixed (σ.Like host s) :=
  Resolution.finalizeActive_fixed h.wording_fixed
    (fun _ hτ => Session.config_eq_of_settings hτ.settings) issues

/-- What a schema with pure functions reaches is settled. -/
theorem settled (h : s.IsPure host σ) : Settled host σ (σ.Like host s) (s.Reaches host σ) where
  here := .refl host σ s
  bookkeeping := h.bookkeeping
  kinds _ hτ := Session.kinds_eq_of_settings hτ.settings
  parts _ ht _ hu := .part ht hu
  functions t ht fn hfn := h.reliable (h.functions t ht fn hfn)
  evaluators t ht fn hfn := h.reliable (h.evaluators t ht fn hfn)
  defaults _ ht _ hd := h.default_fixed ht hd
  lazies _ ht _ _ hform := (h.resolve_gives ht hform).fixed
  resolved _ ht _ _ _ hform hu := .lazily ht hform hu
  wording _ _ _ _ _ _ := h.words_fixed

end Schema.IsPure

end Assay
