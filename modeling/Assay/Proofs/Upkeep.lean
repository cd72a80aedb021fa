import Assay.Proofs.Abreast
import Assay.Proofs.Purity

/-!
# What evaluations keep

An evaluation notes calls and lines, gives out numbers, spends pending values and remembers what
lazy schemas and named definitions stand for. An invariant that does not look at any of these and
that supplied functions keep (`Upkeep`) is kept by every evaluation, now and later
(`evaluate_keeps`). The kinds of a session are such an invariant (`upkeep_kinds`).
-/

namespace Assay

open Run

/-- Supplied functions keep the invariant, and it does not look at what an evaluation itself
changes in a session. -/
structure Upkeep (host : Host) (I : Session → Prop) : Prop where
  functions : host.Keeps I
  bookkeeping : Bookkeeping I
  resolved : ∀ σ memo, I σ → I { σ with resolved := memo }
  sets : ∀ σ sets, I σ → I { σ with definitionSets := sets }
  log : ∀ σ lines, I σ → I { σ with log := lines }

/-- An evaluation changes no kinds that supplied functions do not change. -/
theorem upkeep_kinds {host : Host} {K : KindTable} (h : host.Keeps fun σ => σ.kinds = K) :
    Upkeep host fun σ => σ.kinds = K where
  functions := h
  bookkeeping := ⟨fun _ _ h => h, fun _ _ h => h, fun _ _ h => h⟩
  resolved _ _ h := h
  sets _ _ h := h
  log _ _ h := h

variable {α : Type} {host : Host} {ctx : Context} {I : Session → Prop}

/-! ## Sessions that go with themselves -/

/-- Each session of an invariant goes with itself only, and levels may run out. -/
def Pace.within (I : Session → Prop) : Pace := ⟨fun σ τ => σ = τ ∧ I σ, True⟩

/-- An operation that keeps the invariant is in lockstep with itself. -/
theorem Run.Keeps.steady {x : Run α} (h : x.Keeps I) : x.Steady (.within I) := by
  rintro σ _ ⟨rfl, hσ⟩
  refine ⟨⟨rfl, (h σ hσ).1⟩, ?_⟩
  cases (x.exec σ).1 with
  | error e => exact ⟨rfl, fun _ => trivial⟩
  | ok a => exact rfl

theorem Run.Lockstep.keeps {R : α → α → Prop} {x : Run α} (h : x.Lockstep (.within I) R x) :
    x.Keeps I :=
  fun σ hσ => ⟨(h σ σ ⟨rfl, hσ⟩).1.2, trivial⟩

/-- An evaluation in lockstep with itself keeps the invariant, now and later. -/
theorem Run.Abreast.brings {x : Run (Outcome α)} (h : x.Abreast (.within I) x) :
    x.Brings I fun _ => True := by
  -- Both runs start in one session, so that they also end in one, and it is of the invariant.
  intro σ hσ
  obtain ⟨⟨-, hτ⟩, hmatches⟩ := h σ σ ⟨rfl, hσ⟩
  refine ⟨hτ, ?_⟩
  cases he : (x.exec σ).1 with
  | error e => trivial
  | ok o =>
    rw [he] at hmatches
    cases o with
    | ready a => trivial
    | later work => exact Run.Lockstep.keeps (x := work) hmatches

namespace Upkeep

variable (h : Upkeep host I)
include h

theorem pace : (Pace.within I).Bookkeeping where
  kinds σ _ ht := by rw [ht.1]
  config σ _ ht := by rw [ht.1]
  spent σ _ ht := by rw [ht.1]
  numbers σ _ ht := by rw [ht.1]
  noting σ _ c ht := ⟨by rw [ht.1], h.bookkeeping.calls σ c ht.2⟩
  numbering σ _ ht := ⟨by rw [ht.1], h.bookkeeping.refs σ _ ht.2⟩
  spending σ _ r ht := ⟨by rw [ht.1], h.bookkeeping.spent σ r ht.2⟩

theorem steady : host.Steady (.within I) where
  run f call := Run.Keeps.steady (h.functions f call)
  order σ _ ht := by rw [ht.1]

/-! ## Lazy schemas and defaults -/

theorem call_keeps (fn : Value) (call : Call Value) : (host.call fn call).Keeps I :=
  Host.call_keeps h.bookkeeping h.functions

theorem resolveDefinition_keeps (id : Nat) (name : Value) :
    (resolveDefinition id name).Keeps I := by
  intro σ hσ
  refine ⟨?_, trivial⟩
  obtain ⟨l, hl | ⟨set, place, s, -, -, -, hl⟩⟩ := resolveDefinition_session id name σ
  · rw [hl]
    exact h.log σ l hσ
  · rw [hl]
    exact h.sets _ _ (h.log σ l hσ)

theorem getterAnswer_keeps (getter : Value) : (getterAnswer host getter).Keeps I := by
  unfold getterAnswer
  split
  · exact (h.resolveDefinition_keeps _ _).map
  · exact (h.call_keeps _ _).bind fun _ => .pure

theorem resolve_keeps (s : Schema Value) (getter : Value) : (s.resolve host getter).Keeps I := by
  refine .reading fun σ _ => ?_
  split
  · exact Run.Keeps.pure
  · refine (h.getterAnswer_keeps getter).bind fun answer => Run.Keeps.bind ?_ fun inner => ?_
    · unfold Construct.schemaAt
      split
      · exact .pure
      · exact .throw
    · exact .changing (fun τ hτ => h.resolved τ _ hτ) Run.Keeps.pure

theorem copyDefault_keeps (d : Value) : (copyDefault d).Keeps I := by
  unfold copyDefault
  split
  · exact .throw
  · exact .throw
  · exact h.bookkeeping.freshRef.bind fun _ => .pure
  · refine Run.Keeps.bind ?_ fun _ => .pure
    refine h.bookkeeping.freshRef.bind fun ref => .reading fun σ _ => ?_
    split
    · exact .changing (fun τ hτ => h.resolved τ _ hτ) Run.Keeps.pure
    · exact Run.Keeps.pure
  · exact h.bookkeeping.freshRef.bind fun _ => .pure
  · exact .pure

theorem defaultValue_keeps (d : Value) : (defaultValue host d).Keeps I := by
  unfold defaultValue
  split
  · exact (h.call_keeps _ _).bind fun _ => .pure
  · exact h.copyDefault_keeps d

theorem walks : (Pace.within I).Walks host fun _ => True where
  bookkeeping := h.pace
  functions := h.steady
  deep := trivial
  defaults d := (h.defaultValue_keeps d).steady
  parts _ _ _ _ := trivial
  lazies s _ getter _ _ := (bind_pure (s.resolve host getter)) ▸
    (h.resolve_keeps s getter).steady.next fun _ => .pure ⟨rfl, trivial⟩

/-! ## Evaluations -/

/-- Every evaluation keeps the invariant, now and later. -/
theorem evaluate_keeps (fuel : Nat) (s : Schema Value) (v : Value) :
    (evaluate host ctx fuel s v).Brings I fun _ => True :=
  (h.walks.evaluate_steady trivial fuel v).brings

theorem evaluateForm_keeps (fuel : Nat) (s : Schema Value) (v : Value) :
    (evaluateForm host ctx (evaluate host ctx fuel) (Schema.acceptsAbsent host fuel) s v).Brings I
      fun _ => True :=
  (h.walks.evaluateForm_steady (fun _ ht w => h.walks.evaluate_steady ht fuel w) trivial v).brings

theorem runChecks_keeps (s : Schema Value) (r : Result) :
    (runChecks host ctx s r).Brings I fun _ => True :=
  (runChecks_abreast h.pace h.steady s r).brings

end Upkeep

/-! ## What evaluations come to -/

/-- What holds of an evaluation in any session holds where it keeps an invariant. -/
theorem Run.Brings.within {x : Run (Outcome α)} {Q : Except Fault (Timed α) → Prop}
    (h : x.Brings (fun _ => True) Q) (hkeeps : x.Brings I fun _ => True) : x.Brings I Q := by
  intro σ hσ
  obtain ⟨hτ, hwork⟩ := hkeeps σ hσ
  have hany := (h σ trivial).2
  refine ⟨hτ, ?_⟩
  cases he : (x.exec σ).1 with
  | error e =>
    rw [he] at hany
    exact hany
  | ok o =>
    rw [he] at hany hwork
    cases o with
    | ready a => exact hany
    | later work =>
      intro υ hυ
      exact ⟨((Outcome.brings_later.1 hwork) υ hυ).1, ((Outcome.brings_later.1 hany) υ trivial).2⟩

end Assay
