import Assay.Function.Stock
import Assay.Proofs.Purity
import Assay.Proofs.Suspends

/-!
# The stock functions

The functions of the stock change nothing in a session but the counts of counting functions, so
an invariant that does not look at these is kept by all of them (`Stock.host_keeps`), and all but
the counting functions are pure (`Stock.isPure`).
-/

namespace Assay.Stock

variable {I : Session → Prop}

theorem produce_keeps (hI : ∀ σ cs, I σ → I { σ with counters := cs }) (f : Callable Value) :
    (produce f).Keeps I := by
  unfold produce
  split
  · exact .reading fun σ _ => .changing (fun τ hτ => hI τ _ hτ) Run.Keeps.pure
  · exact .reading fun σ _ => Run.Keeps.ofOption
  · exact .pure

/-- A stock function keeps what does not depend on counts. -/
theorem host_keeps (hI : ∀ σ cs, I σ → I { σ with counters := cs }) : host.Keeps I := by
  intro f call
  cases call with
  | nothing => exact (produce_keeps hI f).bind fun _ => .pure
  | reporting v source => exact .lift
  | evaluating s v => exact .pure
  | _ => exact Run.Keeps.lift.bind fun _ => .pure

/-- No stock function changes what sessions are settled by. -/
theorem host_settings (f : Callable Value) (call : Call Value) (τ : Session) :
    ((host.run f call).exec τ).2.settings = τ.settings ∧
      ((host.run f call).exec τ).2.resolved = τ.resolved ∧
      ((host.run f call).exec τ).2.definitionSets = τ.definitionSets :=
  (host_keeps (I := fun υ => υ.settings = τ.settings ∧ υ.resolved = τ.resolved ∧
    υ.definitionSets = τ.definitionSets) (fun _ _ h => h) f call τ ⟨rfl, rfl, rfl⟩).1

theorem produce_exec {f : Callable Value} (hf : f.name ≠ "counter") {σ τ : Session}
    (h : τ.settings = σ.settings) : (produce f).exec τ = ((produce f).answer σ, τ) := by
  unfold produce Run.answer
  split
  · exact absurd ‹_› hf
  · have hbindings : τ.bindings = σ.bindings := show τ.settings.bindings = σ.settings.bindings by rw [h]
    rw [Run.exec_bind, Run.exec_bind]
    simp only [Run.exec_get, Run.exec_ofOption, hbindings]
  · rfl

/-- A computed answer needs no session. -/
theorem computed_exec {α β : Type} (e : Except Fault α) (g : α → β) (σ τ : Session) :
    (do return g (← Run.lift e) : Run β).exec τ =
      ((do return g (← Run.lift e) : Run β).answer σ, τ) := by
  cases e <;> rfl

/-- Asking stock functions for words changes nothing, whether they count or not. -/
theorem wording_exec (f : Callable Value) (i : Issue Value) (σ τ : Session) :
    (host.run f (.wording i)).exec τ = ((host.run f (.wording i)).answer σ, τ) :=
  computed_exec (apply f (.issue i)) _ σ τ

/-- Stock functions that do not count are pure. -/
theorem isPure {f : Callable Value} (hf : f.name ≠ "counter") (σ : Session) :
    host.IsPure σ (.callable f) := by
  intro call τ h
  cases call with
  | nothing =>
    dsimp only [host]
    rw [Run.answer, Run.exec_bind, Run.exec_bind, produce_exec hf h, produce_exec hf rfl]
    cases (produce f).answer σ <;> rfl
  | value v => exact computed_exec (apply f v) _ σ τ
  | replacing v => exact computed_exec (apply f v) _ σ τ
  | wording i => exact wording_exec f i σ τ
  | reporting v source =>
    dsimp only [host]
    rw [Run.answer, Run.exec_lift, Run.exec_lift]
  | recovering v issues => exact computed_exec (recover f v issues) _ σ τ
  | evaluating schema v => rfl

/-- The functions of the stock, asynchronous or not wherever they are awaited. -/
def hostThat (waits : Bool) : Host :=
  { host with isAsync := fun _ call => waits && call.isAwaited }

theorem suspends : (hostThat false).Suspends (hostThat true) :=
  ⟨rfl, rfl, rfl, fun _ _ h => h⟩

/-- A schema is pure if all that it reaches call pure functions in checks only. -/
theorem isPure_of_checks {σ : Session} {s : Schema Value}
    (h : ∀ t, s.Reaches (hostThat false) σ t → t.form.calls? = none ∧
      (∀ fn ∈ t.functions, (hostThat false).IsPure σ fn) ∧
      ∀ fn, σ.kinds.evaluator? t.kind = .ok fn → fn = .builtin .evaluateNode) :
    s.IsPure (hostThat false) σ where
  functions t ht := (h t ht).2.1
  evaluators t ht fn hfn := by
    rw [(h t ht).2.2 fn hfn]
    trivial
  providers f i τ _ := wording_exec f i σ τ
  defaults t ht d hd := by
    have hcalls := (h t ht).1
    cases hform : t.form <;> simp_all [Form.default?, Form.calls?]
  lazies t u getter name getter' name' ht _ hform := by
    have hcalls := (h t ht).1
    rw [hform] at hcalls
    cases hcalls
  settings := host_settings
  prompt _ _ _ := rfl

/-- A schema that reaches no functions is pure. -/
theorem isPure_of_silent {σ : Session} {s : Schema Value}
    (h : ∀ t, s.Reaches (hostThat false) σ t → t.functions = [] ∧
      ∀ fn, σ.kinds.evaluator? t.kind = .ok fn → fn = .builtin .evaluateNode) :
    s.IsPure (hostThat false) σ := by
  refine isPure_of_checks fun t ht => ?_
  obtain ⟨hsilent, hown⟩ := h t ht
  have hcalls : t.form.calls? = none :=
    Option.toList_eq_nil_iff.1 (List.append_eq_nil_iff.1 hsilent).1
  rw [hsilent]
  exact ⟨hcalls, nofun, hown⟩

end Assay.Stock
