import Assay.Proofs.Abreast
import Assay.Proofs.StockFunctions

/-!
# What lazy schemas remember

A lazy schema asks its getter when it is first needed and remembers the answer, and a set of named
definitions remembers what its definitions were built to. Nothing that a parse comes to tells
whether something is remembered: sessions that show the same, and remember nothing wrong, go
together through every evaluation (`LazyGraph.walks`), and forgetting leads from a
session to one that goes together with it. So a sequence of parses comes to the same when each is
made on schemas that are as new (`lazy_memory_is_unobservable`).
-/

namespace Assay

open Run

/-! ## Memory -/

/-- The session with nothing remembered: all lazy schemas and all sets of definitions are as new. -/
def Session.forgotten (σ : Session) : Session :=
  { σ with
    resolved := []
    definitionSets := σ.definitionSets.map fun e => (e.1, { e.2 with built := [] }) }

/-- What a session shows: all but what is remembered and the records of calls and lines. -/
def Session.shown (σ : Session) : Session := { σ.forgotten with calls := [], log := [] }

/-- The operation of a lazy schema that is not resolved yet: ask its getter and remember the answer
if it is a schema. -/
def Schema.ask (host : Host) (s : Schema Value) (getter : Value) : Run (Schema Value) := do
  let inner ← Construct.schemaAt "lazy getter result" (← getterAnswer host getter)
  modify fun session => { session with resolved := (s.id, inner) :: session.resolved }
  return inner

/-- Supplied functions see what a session shows and do not touch what is remembered. They change no
settings and give no number out twice. -/
structure Host.Discreet (host : Host) : Prop where
  run : ∀ f call σ τ, τ.shown = σ.shown →
    (host.run f call).answer τ = (host.run f call).answer σ ∧
      ((host.run f call).exec τ).2.shown = ((host.run f call).exec σ).2.shown
  order : ∀ σ τ, τ.shown = σ.shown → host.order τ = host.order σ
  frame : ∀ f call σ, ((host.run f call).exec σ).2.settings = σ.settings ∧
    ((host.run f call).exec σ).2.resolved = σ.resolved ∧
    ((host.run f call).exec σ).2.definitionSets = σ.definitionSets
  numbers : ∀ f call σ, ((host.run f call).exec σ).2.lane = σ.lane ∧
    σ.nextRef ≤ ((host.run f call).exec σ).2.nextRef

/-- The getter answers the same at each call, which is noted and changes nothing else. -/
def Host.Repeats (host : Host) (σ : Session) (getter : Value) : Prop :=
  ∃ e, ∀ τ, τ.settings = σ.settings →
    ∃ calls, (getterAnswer host getter).exec τ = (e, { τ with calls := calls })

/-- A graph of schemas as new, closed under parts and under what lazy schemas stand for. Getters are
references to named definitions or functions that repeat themselves. Numbers tell lazy schemas
apart, also from schemas still to come. -/
structure LazyGraph (host : Host) (σ : Session) (nodes : Schema Value → Prop) : Prop where
  parts : ∀ s, nodes s → ∀ t ∈ s.form.parts, nodes t
  lazies : ∀ s, nodes s → ∀ getter name t, s.form = .lazy getter name →
    (s.resolve host getter).answer σ = .ok t → nodes t
  getters : ∀ s, nodes s → ∀ getter name, s.form = .lazy getter name →
    (∃ id place, getter = .builtin (.definition id place)) ∨ host.Repeats σ getter
  apart : ∀ s t, nodes s → nodes t → ∀ getter name getter' name', s.form = .lazy getter name →
    t.form = .lazy getter' name' → s.id = t.id → getter = getter'
  numbers : ∀ s, nodes s → ∀ getter name, s.form = .lazy getter name →
    ∀ n, σ.nextRef ≤ n → numberIn σ.lane n ≠ s.id
  unresolved : ∀ s, nodes s → ∀ getter name, s.form = .lazy getter name →
    σ.resolved.lookup s.id = none
  definitions : ∀ s, nodes s → ∀ id name label,
    s.form = .lazy (.builtin (.definition id name)) label →
    (resolveDefinition id name).answer σ.forgotten = (resolveDefinition id name).answer σ

/-- A session in the course of work on a graph: what it remembers about the graph is right, and was
remembered once. -/
structure Session.Recalls (host : Host) (σ : Session) (nodes : Schema Value → Prop) (τ : Session) :
    Prop where
  settings : τ.settings = σ.settings
  sets : τ.forgotten.definitionSets = σ.forgotten.definitionSets
  definitions : ∀ s, nodes s → ∀ id name label,
    s.form = .lazy (.builtin (.definition id name)) label →
    (resolveDefinition id name).answer τ = (resolveDefinition id name).answer σ
  lazies : ∀ s, nodes s → ∀ getter name u, s.form = .lazy getter name →
    τ.resolved.lookup s.id = some u → (s.resolve host getter).answer σ = .ok u
  once : ∀ s, nodes s → ∀ getter name, s.form = .lazy getter name →
    τ.resolved.countP (·.1 == s.id) ≤ 1

/-- What cannot be found is not counted. -/
theorem countP_of_lookup_eq_none {α : Type} {es : List (Nat × α)} {n : Nat}
    (h : es.lookup n = none) : es.countP (·.1 == n) = 0 := by
  refine List.countP_eq_zero.2 fun e he heq => ?_
  have hne := List.lookup_eq_none_iff.1 h e he
  rw [beq_iff_eq.1 heq] at hne
  exact absurd hne (by simp)

section

variable {host : Host} {σ τ υ : Session} {nodes : Schema Value → Prop} {s : Schema Value}

/-! ## What sessions show -/

namespace Session

theorem lane_eq_of_shown (h : υ.shown = τ.shown) : υ.lane = τ.lane :=
  show υ.shown.lane = τ.shown.lane by rw [h]

theorem nextRef_eq_of_shown (h : υ.shown = τ.shown) : υ.nextRef = τ.nextRef :=
  show υ.shown.nextRef = τ.shown.nextRef by rw [h]

theorem shown_forgotten (τ : Session) : τ.forgotten.shown = τ.shown := by
  simp [shown, forgotten]

/-- Remembering what a definition was built to does not show. -/
theorem forgotten_remember (τ : Session) (id place : Nat) (s : Schema Value) :
    (τ.remember id place s).forgotten = τ.forgotten := by
  unfold forgotten remember
  dsimp only
  rw [List.map_map]
  congr 1
  refine List.map_congr_left fun e _ => ?_
  by_cases he : e.1 = id <;> simp [he]

end Session

/-! ## Asking getters -/

/-- A lazy schema that is resolved stands for what is remembered. -/
theorem Schema.resolve_exec_of_resolved {getter : Value} {u : Schema Value}
    (h : τ.resolved.lookup s.id = some u) : (s.resolve host getter).exec τ = (.ok u, τ) := by
  unfold resolve
  rw [exec_bind]
  dsimp only [exec_get]
  rw [h]
  rfl

/-- A lazy schema that is not resolved asks its getter. -/
theorem Schema.resolve_exec_of_unresolved {getter : Value} (h : τ.resolved.lookup s.id = none) :
    (s.resolve host getter).exec τ = (s.ask host getter).exec τ := by
  unfold resolve
  rw [exec_bind]
  dsimp only [exec_get]
  rw [h]
  rfl

/-! ## Sessions in the course of work -/

namespace Session.Recalls

/-- Sessions that remember the same. -/
theorem congr (h : σ.Recalls host nodes τ) (hsettings : υ.settings = τ.settings)
    (hresolved : υ.resolved = τ.resolved) (hsets : υ.definitionSets = τ.definitionSets) :
    σ.Recalls host nodes υ where
  settings := hsettings.trans h.settings
  sets := by rw [← h.sets, forgotten, forgotten, hsets]
  definitions s hs id name label hform := by
    rw [resolveDefinition_congr id name (kinds_eq_of_settings hsettings) hsets,
      h.definitions s hs id name label hform]
  lazies s hs getter name u hform hu := h.lazies s hs getter name u hform (hresolved ▸ hu)
  once s hs getter name hform := by
    rw [hresolved]
    exact h.once s hs getter name hform

/-- A definition that was built is remembered. -/
theorem remember (h : σ.Recalls host nodes τ) {id place : Nat} {set : DefinitionSet}
    (hset : τ.definitionSets.lookup id = some set) (hnone : set.built.lookup place = none)
    (hbuilt : (buildPlace id set place).answer τ = .ok s) :
    σ.Recalls host nodes (τ.remember id place s) where
  settings := h.settings
  sets := by rw [forgotten_remember, h.sets]
  definitions t ht id' name label hform := by
    rw [resolveDefinition_remember hset hnone hbuilt, h.definitions t ht id' name label hform]
  lazies := h.lazies
  once := h.once

/-- Looking up a named definition shows nothing. -/
theorem after_resolveDefinition (h : σ.Recalls host nodes τ) (id : Nat) (name : Value) :
    σ.Recalls host nodes ((resolveDefinition id name).exec τ).2 ∧
      ((resolveDefinition id name).exec τ).2.shown = τ.shown ∧
      ((resolveDefinition id name).exec τ).2.resolved = τ.resolved := by
  obtain ⟨l, hl | ⟨set, place, u, hset, hnone, hbuilt, hl⟩⟩ := resolveDefinition_session id name τ
  · rw [hl]
    exact ⟨h.congr rfl rfl rfl, rfl, rfl⟩
  · rw [hl]
    have hlogged : σ.Recalls host nodes { τ with log := l } := h.congr rfl rfl rfl
    have hkinds : Session.kinds { τ with log := l } = τ.kinds := rfl
    refine ⟨hlogged.remember hset hnone ?_, ?_, rfl⟩
    · rw [(buildPlace_exec id set place hkinds).1, hbuilt]
    · rw [shown, forgotten_remember]
      rfl

end Session.Recalls

namespace LazyGraph

variable (g : LazyGraph host σ nodes)
include g

theorem recalls : σ.Recalls host nodes σ where
  settings := rfl
  sets := rfl
  definitions _ _ _ _ _ _ := rfl
  lazies s hs getter name u hform hu := by
    rw [g.unresolved s hs getter name hform] at hu
    cases hu
  once s hs getter name hform := by
    rw [countP_of_lookup_eq_none (g.unresolved s hs getter name hform)]
    exact Nat.zero_le _

/-- With everything forgotten, what is remembered is still right. -/
theorem forgotten (h : σ.Recalls host nodes τ) : σ.Recalls host nodes τ.forgotten where
  settings := h.settings
  sets := by
    rw [← h.sets]
    simp [Session.forgotten]
  definitions s hs id name label hform := by
    rw [← g.definitions s hs id name label hform]
    have hkinds := Session.kinds_eq_of_settings h.settings
    exact resolveDefinition_congr id name hkinds h.sets
  lazies _ _ _ _ _ _ hu := nomatch hu
  once _ _ _ _ _ := Nat.zero_le _

/-! ## Lazy schemas -/

/-- The getter of a node answers as at first, and its call does not show. -/
theorem getter (h : σ.Recalls host nodes τ) (hs : nodes s) {getter name : Value}
    (hform : s.form = .lazy getter name) :
    (getterAnswer host getter).answer τ = (getterAnswer host getter).answer σ ∧
      σ.Recalls host nodes ((getterAnswer host getter).exec τ).2 ∧
      ((getterAnswer host getter).exec τ).2.shown = τ.shown ∧
      ((getterAnswer host getter).exec τ).2.resolved = τ.resolved := by
  obtain ⟨id, place, rfl⟩ | ⟨e, he⟩ := g.getters s hs getter name hform
  · have hsession : ((getterAnswer host (.builtin (.definition id place))).exec τ).2 =
        ((resolveDefinition id place).exec τ).2 := by
      show ((Value.schema <$> resolveDefinition id place).exec τ).2 = _
      rw [exec_map]
    refine ⟨?_, ?_⟩
    · show (Value.schema <$> resolveDefinition id place).answer τ =
        (Value.schema <$> resolveDefinition id place).answer σ
      rw [answer_map, answer_map, h.definitions s hs id place name hform]
    · rw [hsession]
      exact h.after_resolveDefinition id place
  · obtain ⟨calls, hτ⟩ := he τ h.settings
    obtain ⟨calls', hσ⟩ := he σ rfl
    refine ⟨by rw [answer, answer, hτ, hσ], ?_⟩
    rw [hτ]
    exact ⟨h.congr rfl rfl rfl, rfl, rfl⟩

/-- A node stands for what it stood for at first. -/
theorem resolve_answer (h : σ.Recalls host nodes τ) (hs : nodes s) {getter name : Value}
    (hform : s.form = .lazy getter name) :
    (s.resolve host getter).answer τ = (s.resolve host getter).answer σ := by
  cases hu : τ.resolved.lookup s.id with
  | some u =>
    rw [h.lazies s hs getter name u hform hu, Schema.resolve_answer, hu]
  | none =>
    rw [Schema.resolve_answer, Schema.resolve_answer, hu, g.unresolved s hs getter name hform,
      (g.getter h hs hform).1]

/-- What a node stands for is remembered when it is not yet. -/
theorem push (h : σ.Recalls host nodes τ) (hs : nodes s) {getter name : Value}
    (hform : s.form = .lazy getter name) (hnone : τ.resolved.lookup s.id = none)
    {u : Schema Value} (hu : (s.resolve host getter).answer σ = .ok u) :
    σ.Recalls host nodes { τ with resolved := (s.id, u) :: τ.resolved } where
  settings := h.settings
  sets := h.sets
  definitions r hr id place label hform' := by
    rw [← h.definitions r hr id place label hform']
    exact resolveDefinition_congr id place rfl rfl
  lazies t ht getter' name' w hform' hw := by
    by_cases hid : t.id = s.id
    · obtain rfl := g.apart t s ht hs getter' name' getter name hform' hform hid
      have hsame : t.resolve host getter' = s.resolve host getter' := by
        rw [Schema.resolve, Schema.resolve, hid]
      rw [List.lookup_cons, hid, beq_self_eq_true] at hw
      rw [hsame, hu, Option.some.inj hw]
    · rw [List.lookup_cons, show (t.id == s.id) = false by simpa using hid] at hw
      exact h.lazies t ht getter' name' w hform' hw
  once t ht getter' name' hform' := by
    by_cases hid : s.id = t.id
    · refine Nat.le_of_eq ?_
      rw [List.countP_cons_of_pos (by simpa using hid), countP_of_lookup_eq_none (hid ▸ hnone)]
    · rw [List.countP_cons_of_neg (by simpa using hid)]
      exact h.once t ht getter' name' hform'

/-- Resolving a node does not show. -/
theorem after_resolve (h : σ.Recalls host nodes τ) (hs : nodes s) {getter name : Value}
    (hform : s.form = .lazy getter name) :
    σ.Recalls host nodes ((s.resolve host getter).exec τ).2 ∧
      ((s.resolve host getter).exec τ).2.shown = τ.shown := by
  obtain ⟨-, hafter, hshown, hresolved⟩ := g.getter h hs hform
  cases hnone : τ.resolved.lookup s.id with
  | some u =>
    rw [Schema.resolve_exec_of_resolved hnone]
    exact ⟨h, rfl⟩
  | none =>
    rcases s.resolve_session getter τ with hsame | hsame | ⟨u, hu, hsame⟩
    · rw [hsame]
      exact ⟨h, rfl⟩
    · rw [hsame]
      exact ⟨hafter, hshown⟩
    · rw [hsame]
      exact ⟨g.push hafter hs hform (by rw [hresolved, hnone]) (g.resolve_answer h hs hform ▸ hu),
        hshown⟩

end LazyGraph

/-! ## Sessions that go together -/

/-- Sessions that show the same, each in the course of work on the graph, in which no number is
given out twice. -/
structure Session.Together (host : Host) (σ : Session) (nodes : Schema Value → Prop)
    (τ υ : Session) : Prop where
  shown : υ.shown = τ.shown
  lane : τ.lane = σ.lane
  nextRef : σ.nextRef ≤ τ.nextRef
  left : σ.Recalls host nodes τ
  right : σ.Recalls host nodes υ

def LazyGraph.pace (host : Host) (σ : Session) (nodes : Schema Value → Prop) : Pace where
  together := σ.Together host nodes
  deep := True

namespace LazyGraph

variable (g : LazyGraph host σ nodes)

theorem together_congr {τ' υ' : Session} (h : σ.Together host nodes τ υ)
    (hshown : υ'.shown = τ'.shown) (hlane : τ'.lane = τ.lane) (hnext : τ.nextRef ≤ τ'.nextRef)
    (hτ : τ'.settings = τ.settings ∧ τ'.resolved = τ.resolved ∧
      τ'.definitionSets = τ.definitionSets)
    (hυ : υ'.settings = υ.settings ∧ υ'.resolved = υ.resolved ∧
      υ'.definitionSets = υ.definitionSets) : σ.Together host nodes τ' υ' where
  shown := hshown
  lane := hlane.trans h.lane
  nextRef := Nat.le_trans h.nextRef hnext
  left := h.left.congr hτ.1 hτ.2.1 hτ.2.2
  right := h.right.congr hυ.1 hυ.2.1 hυ.2.2

theorem bookkeeping : (pace host σ nodes).Bookkeeping where
  kinds τ υ h := show υ.shown.kinds = τ.shown.kinds by rw [h.shown]
  config τ υ h := show υ.shown.config = τ.shown.config by rw [h.shown]
  spent τ υ h := show υ.shown.spent = τ.shown.spent by rw [h.shown]
  numbers τ υ h :=
    show numberIn υ.shown.lane υ.shown.nextRef = numberIn τ.shown.lane τ.shown.nextRef by
      rw [h.shown]
  noting τ υ c h :=
    together_congr h h.shown rfl (Nat.le_refl _) ⟨rfl, rfl, rfl⟩ ⟨rfl, rfl, rfl⟩
  numbering τ υ h := together_congr h
    (show ({ υ.shown with nextRef := υ.shown.nextRef + 1 } : Session) =
      { τ.shown with nextRef := τ.shown.nextRef + 1 } by rw [h.shown])
    rfl (Nat.le_succ _) ⟨rfl, rfl, rfl⟩ ⟨rfl, rfl, rfl⟩
  spending τ υ r h := together_congr h
    (show ({ υ.shown with spent := r :: υ.shown.spent } : Session) =
      { τ.shown with spent := r :: τ.shown.spent } by rw [h.shown])
    rfl (Nat.le_refl _) ⟨rfl, rfl, rfl⟩ ⟨rfl, rfl, rfl⟩

/-- Operations that answer alike in sessions that go together and lead to such. -/
theorem lockstep_of_answer {α : Type} {x : Run α} {Q : α → Prop}
    (h : ∀ τ υ, (pace host σ nodes).together τ υ →
      (pace host σ nodes).together (x.exec τ).2 (x.exec υ).2 ∧ x.answer υ = x.answer τ ∧
        ∀ a, x.answer τ = .ok a → Q a) :
    x.Lockstep (pace host σ nodes) (fun a b => a = b ∧ Q a) x := by
  intro τ υ hτ
  obtain ⟨hafter, hanswer, hQ⟩ := h τ υ hτ
  refine ⟨hafter, ?_⟩
  unfold answer at hanswer hQ
  rw [hanswer]
  cases hx : (x.exec τ).1 with
  | error e => exact ⟨rfl, fun _ => trivial⟩
  | ok a => exact ⟨rfl, hQ a hx⟩

theorem steady_of_answer {α : Type} {x : Run α}
    (h : ∀ τ υ, (pace host σ nodes).together τ υ →
      (pace host σ nodes).together (x.exec τ).2 (x.exec υ).2 ∧ x.answer υ = x.answer τ) :
    x.Steady (pace host σ nodes) := by
  have hx := lockstep_of_answer (Q := fun _ => True) fun τ υ hτ =>
    ⟨(h τ υ hτ).1, (h τ υ hτ).2, fun _ _ => trivial⟩
  exact (bind_pure x) ▸ hx.bind fun _ _ hab => .pure hab.1

include g

omit g in
theorem steady (hhost : host.Discreet) : host.Steady (pace host σ nodes) where
  run f call := steady_of_answer fun τ υ h => by
    obtain ⟨hlane, hnext⟩ := hhost.numbers f call τ
    obtain ⟨hanswer, hshown⟩ := hhost.run f call τ υ h.shown
    exact ⟨together_congr h hshown hlane hnext (hhost.frame f call τ) (hhost.frame f call υ),
      hanswer⟩
  order τ υ h := hhost.order τ υ h.shown

/-- Resolving a node, whether it is remembered what it stands for or not. -/
theorem resolve_lockstep (hs : nodes s) {getter name : Value}
    (hform : s.form = .lazy getter name) :
    (s.resolve host getter).Lockstep (pace host σ nodes) (fun t u => t = u ∧ nodes t)
      (s.resolve host getter) :=
  lockstep_of_answer fun τ υ h => by
    obtain ⟨hτafter, hτshown⟩ := g.after_resolve h.left hs hform
    obtain ⟨hυafter, hυshown⟩ := g.after_resolve h.right hs hform
    have hsame {ρ : Session} (hρ : σ.Recalls host nodes ρ) := g.resolve_answer hρ hs hform
    refine ⟨⟨by rw [hτshown, hυshown, h.shown], ?_, ?_, hτafter, hυafter⟩, ?_, fun t ht => ?_⟩
    · rw [Session.lane_eq_of_shown hτshown, h.lane]
    · rw [Session.nextRef_eq_of_shown hτshown]
      exact h.nextRef
    · rw [hsame h.left, hsame h.right]
    · exact g.lazies s hs getter name t hform (hsame h.left ▸ ht)

/-- A copy of a resolved lazy schema is remembered under a number of its own. -/
theorem remembering_copy (h : σ.Recalls host nodes τ) {n : Nat} (hn : σ.nextRef ≤ n)
    (u : Schema Value) :
    σ.Recalls host nodes { τ with resolved := (numberIn σ.lane n, u) :: τ.resolved } where
  settings := h.settings
  sets := h.sets
  definitions r hr id place label hform' := by
    rw [← h.definitions r hr id place label hform']
    exact resolveDefinition_congr id place rfl rfl
  lazies t ht getter name w hform hw := by
    have hne : ¬ t.id = numberIn σ.lane n := Ne.symm (g.numbers t ht getter name hform n hn)
    rw [List.lookup_cons, beq_eq_false_iff_ne.2 hne] at hw
    exact h.lazies t ht getter name w hform hw
  once t ht getter name hform := by
    rw [List.countP_cons_of_neg
      (by rw [beq_iff_eq]; exact g.numbers t ht getter name hform n hn)]
    exact h.once t ht getter name hform

theorem copy_steady (old new : Schema Value) :
    (Construct.copy old new).Steady (pace host σ nodes) :=
  steady_of_answer fun τ υ h => by
    have hcopied (τ : Session) (hτ : σ.Recalls host nodes τ) (hlane : τ.lane = σ.lane)
        (hnext : σ.nextRef ≤ τ.nextRef) :
        σ.Recalls host nodes ((Construct.copy old new).exec τ).2 ∧
          ((Construct.copy old new).exec τ).2.shown =
            { τ.shown with nextRef := τ.shown.nextRef + 1 } ∧
          (Construct.copy old new).answer τ =
            .ok { new with id := numberIn τ.shown.lane τ.shown.nextRef } := by
      have hnumbered : σ.Recalls host nodes { τ with nextRef := τ.nextRef + 1 } :=
        hτ.congr rfl rfl rfl
      unfold answer Construct.copy
      rw [exec_bind]
      dsimp only [exec_freshRef]
      rw [exec_bind]
      dsimp only [exec_get]
      cases τ.resolved.lookup old.id with
      | none => exact ⟨hnumbered, rfl, rfl⟩
      | some inner =>
        refine ⟨?_, rfl, rfl⟩
        have hpushed := g.remembering_copy hnumbered hnext inner
        rw [← hlane] at hpushed
        exact hpushed
    have hlane := Session.lane_eq_of_shown h.shown
    have hnext := Session.nextRef_eq_of_shown h.shown
    have hnumbered : Session.shown { τ with nextRef := τ.nextRef + 1 } =
        { τ.shown with nextRef := τ.shown.nextRef + 1 } := rfl
    obtain ⟨hτ, hτshown, hτanswer⟩ := hcopied τ h.left h.lane h.nextRef
    obtain ⟨hυ, hυshown, hυanswer⟩ :=
      hcopied υ h.right (hlane.trans h.lane) (hnext ▸ h.nextRef)
    refine ⟨⟨by rw [hτshown, hυshown, h.shown], ?_, ?_, hτ, hυ⟩, by
      rw [hτanswer, hυanswer, h.shown]⟩
    · rw [Session.lane_eq_of_shown (hτshown.trans hnumbered.symm)]
      exact h.lane
    · rw [Session.nextRef_eq_of_shown (hτshown.trans hnumbered.symm)]
      exact Nat.le_succ_of_le h.nextRef

variable (hhost : host.Discreet)
include hhost

/-- Evaluating along the graph does not tell what is remembered. -/
theorem walks : (pace host σ nodes).Walks host nodes where
  bookkeeping := bookkeeping
  functions := steady hhost
  deep := trivial
  defaults := defaultValue_steady bookkeeping (steady hhost) fun s => g.copy_steady s s
  parts := g.parts
  lazies _ hs _ _ hform := g.resolve_lockstep hs hform

end LazyGraph

/-! ## Sequences of parses -/

/-- A parse of a value against a schema of a graph. -/
structure ParseCall where
  schema : Schema Value
  value : Value
  ctx : Context := {}
  /-- Issues are a fault. -/
  isStrict : Bool := false

def ParseCall.run (host : Host) (c : ParseCall) : Run Parsed :=
  if c.isStrict then Parsed.accepted <$> parse host c.ctx c.schema c.value
  else safeParse host c.ctx c.schema c.value

/-- Make calls one after the other. Each comes to a result or ends with a fault. -/
def runAll (host : Host) : List ParseCall → Run (List (Except Fault Parsed))
  | [] => pure []
  | c :: cs => do
    let first ← attempt (c.run host)
    return first :: (← runAll host cs)

/-- Make calls one after the other, each on schemas that are as new. -/
def runAfresh (host : Host) : List ParseCall → Run (List (Except Fault Parsed))
  | [] => pure []
  | c :: cs => do
    modify Session.forgotten
    let first ← attempt (c.run host)
    return first :: (← runAfresh host cs)

/-- A call on one of the schemas does not tell the sessions apart. -/
theorem Pace.Walks.call_steady {p : Pace} (h : p.Walks host nodes) {c : ParseCall}
    (hc : nodes c.schema) : (c.run host).Steady p := by
  have hsafe : (safeParse host c.ctx c.schema c.value).Steady p := h.safeParse_steady hc c.value
  unfold ParseCall.run
  split
  · refine .map (Lockstep.after hsafe fun parsed => ?_)
    cases parsed with
    | accepted w => exact Lockstep.pure rfl
    | rejected issues => exact Lockstep.throw nofun
  · exact hsafe

namespace LazyGraph

variable (g : LazyGraph host σ nodes) (hhost : host.Discreet)
include g hhost

/-- Step by step the sessions of the two sequences go together. -/
theorem runAll_lockstep {cs : List ParseCall} (hcs : ∀ c ∈ cs, nodes c.schema) :
    (runAll host cs).Lockstep (pace host σ nodes) Eq (runAfresh host cs) := by
  induction cs with
  | nil => exact .pure rfl
  | cons c cs ih =>
    obtain ⟨hc, hcs⟩ := List.forall_mem_cons.1 hcs
    have hforget : ∀ τ υ, (pace host σ nodes).together τ υ →
        (pace host σ nodes).together τ υ.forgotten :=
      fun τ υ h => ⟨by rw [Session.shown_forgotten, h.shown], h.lane, h.nextRef, h.left,
        g.forgotten h.right⟩
    have hgo : (do return (← attempt (c.run host)) :: (← runAll host cs) : Run _).Lockstep
        (pace host σ nodes) Eq
        (do return (← attempt (c.run host)) :: (← runAfresh host cs)) := by
      refine ((g.walks hhost).call_steady hc).attempt.bind fun first first' hfirst =>
        (ih hcs).bind ?_
      rintro rest _ rfl
      exact .pure (by rw [hfirst.eq])
    exact fun τ υ h => hgo τ υ.forgotten (hforget τ υ h)

end LazyGraph

/-! ## Getters that fail -/

/-- A getter was asked in vain: nothing happened besides its call, which gave no schema. -/
theorem Schema.ask_error {getter : Value} {e : Fault}
    (h : (s.ask host getter).answer τ = .error e) :
    ((s.ask host getter).exec τ).2 = ((getterAnswer host getter).exec τ).2 ∧
      ∀ u, (getterAnswer host getter).answer τ ≠ .ok (.schema u) := by
  unfold ask answer at *
  rw [exec_bind] at *
  rcases hget : (getterAnswer host getter).exec τ with ⟨e' | v, τ'⟩ <;> rw [hget] at h
  · exact ⟨rfl, nofun⟩
  · dsimp only at h ⊢
    rw [exec_bind] at *
    cases v <;> first | exact ⟨rfl, nofun⟩ | cases h

/-- A definition that cannot be built is not remembered. -/
theorem resolveDefinition_error {id : Nat} {name : Value}
    (h : ∀ u, (resolveDefinition id name).answer τ ≠ .ok u) :
    ∃ l, ((resolveDefinition id name).exec τ).2 = { τ with log := l } := by
  unfold resolveDefinition answer at *
  simp only [exec_bind, exec_get] at h ⊢
  cases hset : τ.definitionSets.lookup id with
  | none => exact ⟨τ.log, rfl⟩
  | some set =>
    simp only [hset] at h ⊢
    cases hplace : set.place? name with
    | none => exact ⟨τ.log, rfl⟩
    | some place =>
      simp only [hplace] at h ⊢
      cases hbuilt : set.built.lookup place with
      | some u => exact ⟨τ.log, rfl⟩
      | none =>
        simp only [hbuilt, exec_bind] at h ⊢
        obtain ⟨l, hl⟩ := (buildPlace_exec id set place (σ := τ) (τ := τ) rfl).2
        rcases hexec : (buildPlace id set place).exec τ with ⟨e | u, τ'⟩ <;> rw [hexec] at h hl
        · exact ⟨l, hl⟩
        · exact absurd rfl (h u)

/-- The call of a getter that gives no schema leaves nothing remembered. -/
theorem Host.Discreet.getter_frame (h : host.Discreet) {getter : Value}
    (hnone : ∀ u, (getterAnswer host getter).answer τ ≠ .ok (.schema u)) :
    ((getterAnswer host getter).exec τ).2.resolved = τ.resolved ∧
      ((getterAnswer host getter).exec τ).2.definitionSets = τ.definitionSets := by
  by_cases hgetter : ∃ id name, getter = .builtin (.definition id name)
  · obtain ⟨id, name, rfl⟩ := hgetter
    have hmap : getterAnswer host (.builtin (.definition id name)) =
        Value.schema <$> resolveDefinition id name := rfl
    rw [hmap] at hnone ⊢
    obtain ⟨l, hl⟩ := resolveDefinition_error fun u hu =>
      hnone u (by rw [answer_map, hu]; rfl)
    rw [exec_map, hl]
    exact ⟨rfl, rfl⟩
  · let I : Session → Prop :=
      fun υ => υ.resolved = τ.resolved ∧ υ.definitionSets = τ.definitionSets
    have hkeeps : host.Keeps I := fun f call υ hυ => by
      obtain ⟨-, hresolved, hsets⟩ := h.frame f call υ
      exact ⟨⟨hresolved.trans hυ.1, hsets.trans hυ.2⟩, trivial⟩
    have hcall : (getterAnswer host getter).Keeps I := by
      unfold getterAnswer
      split
      · exact absurd ⟨_, _, rfl⟩ hgetter
      · exact (Host.call_keeps ⟨fun _ _ h => h, fun _ _ h => h, fun _ _ h => h⟩ hkeeps).bind
          fun _ => .pure
    exact (hcall τ ⟨rfl, rfl⟩).1

end

/-! ## The stock functions -/

namespace Stock

variable {σ τ : Session}

/-- Stock functions see counts and variables only, which show. -/
theorem produce_congr (f : Callable Value) (h : τ.shown = σ.shown) :
    (produce f).answer τ = (produce f).answer σ ∧
      ((produce f).exec τ).2.shown = ((produce f).exec σ).2.shown := by
  have hcounters : τ.counters = σ.counters := show τ.shown.counters = σ.shown.counters by rw [h]
  have hbindings : τ.bindings = σ.bindings := show τ.shown.bindings = σ.shown.bindings by rw [h]
  unfold produce answer
  split
  · simp only [exec_bind, exec_get, exec_modify, hcounters]
    let counted : List (Nat × Nat) :=
      (f.ref, (σ.counters.lookup f.ref).getD 0 + 1) :: σ.counters.filter (·.1 != f.ref)
    exact ⟨rfl, congrArg (fun υ : Session => { υ with counters := counted }) h⟩
  · simp only [exec_bind, exec_get, exec_ofOption, hbindings]
    exact ⟨trivial, h⟩
  · exact ⟨rfl, h⟩

theorem host_discreet : host.Discreet where
  run f call σ τ h := by
    have hpure {x : Run Result} (hx : ∀ υ, x.exec υ = (x.answer σ, υ)) :
        x.answer τ = x.answer σ ∧ (x.exec τ).2.shown = (x.exec σ).2.shown := by
      rw [answer, hx τ, hx σ]
      exact ⟨rfl, h⟩
    cases call with
    | nothing =>
      obtain ⟨hanswer, hshown⟩ := produce_congr f h
      have hmap : host.run f .nothing = (fun v => (⟨v, []⟩ : Result)) <$> produce f :=
        (map_eq_pure_bind ..).symm
      rw [hmap, answer_map, answer_map, exec_map, exec_map, hanswer]
      exact ⟨rfl, hshown⟩
    | value v => exact hpure (computed_exec (apply f v) _ σ)
    | replacing v => exact hpure (computed_exec (apply f v) _ σ)
    | wording i => exact hpure (wording_exec f i σ)
    | reporting v source =>
      refine hpure fun υ => ?_
      dsimp only [host]
      rw [answer, exec_lift, exec_lift]
    | recovering v issues => exact hpure (computed_exec (recover f v issues) _ σ)
    | evaluating schema v => exact hpure fun υ => rfl
  order _ _ _ := rfl
  frame := host_settings
  numbers f call σ :=
    (host_keeps (I := fun υ => υ.lane = σ.lane ∧ σ.nextRef ≤ υ.nextRef) (fun _ _ h => h) f call σ
      ⟨rfl, Nat.le_refl _⟩).1

/-- A stock function that does not count repeats itself. -/
theorem repeats {f : Callable Value} (hf : f.name ≠ "counter") (hasync : f.isAsync = false) :
    host.Repeats σ (.callable f) := by
  refine ⟨(getterAnswer host (.callable f)).answer σ, fun τ h => ?_⟩
  have hrun (υ : Session) (hυ : υ.settings = σ.settings) :
      (host.run f .nothing).exec υ = ((host.run f .nothing).answer σ, υ) :=
    isPure hf σ .nothing υ hυ
  have hnote (υ : Session) :
      ∃ cs, (host.note f .nothing).exec υ = (.ok (), { υ with calls := cs }) := by
    unfold Host.note
    split
    · exact ⟨υ.calls, rfl⟩
    · exact ⟨_, rfl⟩
  obtain ⟨cs, hτ⟩ := hnote τ
  obtain ⟨cs', hσ⟩ := hnote σ
  have hready : host.isAsync f .nothing = false := hasync
  unfold answer getterAnswer Host.call Host.start Host.invoke
  dsimp only
  split
  · exact ⟨τ.calls, rfl⟩
  · refine ⟨cs, ?_⟩
    rw [hready]
    simp only [exec_bind, exec_pure, Bool.false_eq_true, if_false, hτ, hσ]
    rw [hrun { τ with calls := cs } h, hrun { σ with calls := cs' } rfl]
    cases (host.run f .nothing).answer σ <;> rfl
end Stock

/-! ## A tree that is made by hand and by a definition -/

namespace Tree

/-- The definition of labels. -/
def definition : Value := .dict [(.str "type", .str "string")]

def text : Schema Value :=
  ⟨numberIn (numberIn 25 0 + 1) 0, .str "string", .string .null, [], [], .null⟩

def label : Schema Value :=
  ⟨0, .str "lazy", .lazy (.builtin (.definition 25 (.str "label"))) (.str "label"), [], [], .null⟩

/-- The getter that looks the tree up in the variables. -/
def getter : Value := .callable ⟨0, "var", [.str "tree"], false⟩

def self : Schema Value := ⟨1, .str "lazy", .lazy getter .null, [], [], .null⟩

def children : Schema Value := ⟨4, .str "array", .array self, [], [], .null⟩

/-- A tree has a label and children, which are trees. -/
def tree : Schema Value :=
  ⟨9, .str "object", .object [(.str "label", label), (.str "children", children)] .strip none, [],
    [], .null⟩

def nodes : List (Schema Value) := [tree, children, self, label, text]

/-- A session with the definition and the variable. -/
def session : Session :=
  { nextRef := 6
    bindings := [("tree", .schema tree)]
    definitionSets := [(25, { definitions := [(.str "label", definition)] })] }

theorem mem_cases {s : Schema Value} (h : s ∈ nodes) :
    s = tree ∨ s = children ∨ s = self ∨ s = label ∨ s = text := by
  simpa only [nodes, List.mem_cons, List.not_mem_nil, or_false] using h

theorem lazy_cases {s : Schema Value} {g name : Value} (h : s ∈ nodes)
    (hform : s.form = .lazy g name) :
    s = self ∧ g = getter ∨ s = label ∧ g = .builtin (.definition 25 (.str "label")) := by
  rcases mem_cases h with rfl | rfl | rfl | rfl | rfl <;> cases hform
  · exact .inl ⟨rfl, rfl⟩
  · exact .inr ⟨rfl, rfl⟩

theorem lazyGraph : LazyGraph Stock.host session (· ∈ nodes) where
  parts s hs t ht := by
    rcases mem_cases hs with rfl | rfl | rfl | rfl | rfl
    · rcases List.mem_pair.1 (show t ∈ [label, children] from ht) with rfl | rfl <;> simp [nodes]
    · obtain rfl := List.mem_singleton.1 (show t ∈ [self] from ht)
      simp [nodes]
    · cases ht
    · cases ht
    · cases ht
  lazies s hs g name t hform ht := by
    have hself : (self.resolve Stock.host getter).answer session = .ok tree := rfl
    have hlabel : (label.resolve Stock.host (.builtin (.definition 25 (.str "label")))).answer
        session = .ok text := rfl
    obtain ⟨rfl, rfl⟩ | ⟨rfl, rfl⟩ := lazy_cases hs hform
    · obtain rfl := Except.ok.inj (hself.symm.trans ht)
      simp [nodes]
    · obtain rfl := Except.ok.inj (hlabel.symm.trans ht)
      simp [nodes]
  getters s hs g name hform := by
    obtain ⟨rfl, rfl⟩ | ⟨rfl, rfl⟩ := lazy_cases hs hform
    · exact .inr (Stock.repeats (by decide) rfl)
    · exact .inl ⟨_, _, rfl⟩
  apart s t hs ht g name g' name' hform hform' hid := by
    obtain ⟨rfl, rfl⟩ | ⟨rfl, rfl⟩ := lazy_cases hs hform <;>
      obtain ⟨rfl, rfl⟩ | ⟨rfl, rfl⟩ := lazy_cases ht hform' <;> first | rfl | cases hid
  numbers s hs g name hform n hn := by
    have hlarge : 36 ≤ numberIn 0 n := by
      have hn : 6 ≤ n := hn
      unfold numberIn
      rw [if_pos (by omega), Nat.add_zero]
      exact Nat.mul_le_mul hn hn
    have hlane : numberIn session.lane n = numberIn 0 n := rfl
    obtain ⟨rfl, rfl⟩ | ⟨rfl, rfl⟩ := lazy_cases hs hform
    · rw [hlane]
      exact Nat.ne_of_gt (Nat.lt_of_lt_of_le (by decide : (1 : Nat) < 36) hlarge)
    · rw [hlane]
      exact Nat.ne_of_gt (Nat.lt_of_lt_of_le (by decide : (0 : Nat) < 36) hlarge)
  unresolved _ _ _ _ _ := rfl
  definitions _ _ id name _ _ := resolveDefinition_congr id name rfl rfl

/-- A tree whose second level has a label that is no text. -/
def mistaken : Value :=
  .dict [(.str "label", .str "root"),
    (.str "children", .list [.dict [(.str "label", .int 3), (.str "children", .list [])]])]

end Tree

end Assay
