import Assay.Proofs.Calls
import Assay.Proofs.Meaning
import Assay.Proofs.Parts
import Assay.Vocabulary.Attributes

/-!
# Settled schemas

A family of schemas is settled for some sessions when every question that its evaluation asks has
one answer in all of them (`Settled`): the functions that it calls answer alike, its lazy schemas
stand for the same schemas, issues get the same words. Other functions may do what they will as
long as they stay within these sessions.
-/

namespace Assay

/-- The answer to the call is awaited when it is pending. -/
def Call.isAwaited {V : Type} : Call V → Bool
  | .value _ | .reporting .. | .evaluating .. => true
  | _ => false

/-- Functions whose answers are taken as they are do not answer with pending values. -/
def Host.Prompt (host : Host) : Prop :=
  ∀ f call, Call.isAwaited call = false → host.isAsync f call = false

/-- The value answers the call alike in all sessions of the invariant. -/
def Host.Answers (host : Host) (I : Session → Prop) (call : Call Value) : Value → Prop
  | .callable f => (host.run f call).Fixed I
  | .cls c => (c.call call).Fixed I
  | _ => True

/-- The value answers each call alike in all sessions of the invariant, and there at once where
its answer is taken as it is. -/
structure Host.Reliable (host : Host) (I : Session → Prop) (fn : Value) : Prop where
  answers : ∀ call, host.Answers I call fn
  taken : ∀ call, Call.isAwaited call = false → (host.call fn call).Fixed I

/-- The function that a check calls. -/
def Value.checkCalls? : Value → Option Value
  | .check c => c.rule.function?
  | _ => none

/-- The function that a form calls, or a value in its place. -/
def Form.calls? {S : Type} : Form Value S → Option Value
  | .transform fn | .custom fn _ | .catching _ fn | .default _ fn | .prefault _ fn
  | .lazy fn _ => some fn
  | _ => none

/-- The value that stands in for an absent one. -/
def Form.default? {S : Type} : Form Value S → Option Value
  | .default _ d | .prefault _ d => some d
  | _ => none

/-- The functions that a schema itself calls, or values in their place. -/
def Schema.functions (s : Schema Value) : List Value :=
  s.form.calls?.toList ++ s.checks.filterMap Value.checkCalls?

/-- A family of schemas, closed under parts and under what its lazy schemas stand for, whose
evaluation gets the same answers in all sessions of an invariant, among them `σ`. -/
structure Settled (host : Host) (σ : Session) (I : Session → Prop) (pool : Schema Value → Prop) :
    Prop where
  here : I σ
  bookkeeping : Bookkeeping I
  kinds : ∀ τ, I τ → τ.kinds = σ.kinds
  parts : ∀ s, pool s → ∀ t ∈ s.form.parts, pool t
  functions : ∀ s, pool s → ∀ fn ∈ s.functions, host.Reliable I fn
  evaluators : ∀ s, pool s → ∀ fn, σ.kinds.evaluator? s.kind = .ok fn → host.Reliable I fn
  defaults : ∀ s, pool s → ∀ d, s.form.default? = some d → (defaultValue host d).Fixed I
  lazies : ∀ s, pool s → ∀ getter name, s.form = .lazy getter name →
    (s.resolve host getter).Fixed I
  resolved : ∀ s, pool s → ∀ getter name t, s.form = .lazy getter name →
    (s.resolve host getter).answer σ = .ok t → pool t
  wording : ∀ s, pool s → ∀ inner fallback, s.form = .catching inner fallback →
    fallback.isCallable = true → ∀ ctx issues, (Resolution.finalizeActive host ctx issues).Fixed I

variable {host : Host} {σ : Session} {I : Session → Prop}

/-! ## Calls -/

theorem issueParameters_fixed (params : Value) : (issueParameters params).Fixed I := by
  unfold issueParameters
  split
  · exact .lift
  · exact .pure

theorem hashable_fixed (v : Value) : (Construct.hashable v).Fixed I := by
  unfold Construct.hashable
  split
  · exact .pure
  · exact .throw

namespace Host

variable {fn : Value} {call : Call Value}

theorem note_fixed (hI : Bookkeeping I) (f : Callable Value) (call : Call Value) :
    (host.note f call).Fixed I :=
  ⟨.ok (), note_always hI f call⟩

/-- What a supplied function answers at once: nothing when it is asynchronous. -/
theorem invoke_gives (hI : Bookkeeping I) {f : Callable Value} {e : Except Fault Result}
    (he : (host.run f call).Gives I e) :
    (Outcome.now? <$> host.invoke f call).Gives I
      (if host.arity f != call.arity then .error .unsupported
        else if host.isAsync f call then .ok none else e.map some) := by
  unfold invoke
  split
  · exact Run.Gives.map .throw
  · rw [map_bind]
    refine (note_always hI f call).bind (fun _ _ => ?_) fun _ h => nomatch h
    split
    · rw [map_pure]
      exact Run.Gives.pure
    · rw [map_bind, map_eq_bind_ok]
      exact he.bind fun _ _ => .pure

/-- Whether there is an answer without waiting, and which, does not vary. -/
theorem start_fixed (hI : Bookkeeping I) (h : host.Reliable I fn) (call : Call Value) :
    (Outcome.now? <$> host.start fn call).Fixed I := by
  cases fn with
  | callable f =>
    obtain ⟨e, he⟩ := h.answers call
    exact (invoke_gives hI he).fixed
  | builtin b =>
    dsimp only [start]
    rw [map_bind]
    exact Run.Fixed.lift.bind fun _ => .pure
  | cls c =>
    dsimp only [start]
    rw [map_bind]
    exact Run.Fixed.bind (h.answers call) fun _ => .pure
  | _ => exact Run.Fixed.map .throw

theorem start_now (hI : Bookkeeping I) (h : host.Reliable I fn) (hσ : I σ) (call : Call Value) :
    (host.start fn call).Always I fun e =>
      e.map Outcome.now? = ((host.start fn call).answer σ).map Outcome.now? := by
  have hfixed := (start_fixed hI h call).gives hσ
  unfold Run.answer at hfixed ⊢
  rw [Run.exec_map] at hfixed
  intro τ hτ
  have := hfixed τ hτ
  rw [Run.exec_map] at this
  exact this

/-- A call whose answer is taken as it is. -/
theorem call_fixed (hI : Bookkeeping I) (hprompt : host.Prompt) (h : host.Answers I call fn)
    (hcall : Call.isAwaited call = false) : (host.call fn call).Fixed I := by
  unfold Host.call start
  cases fn with
  | callable f =>
    dsimp only
    unfold invoke
    split
    · exact .throw
    · rw [bind_assoc]
      refine (note_fixed hI f call).bind fun _ => ?_
      simp only [hprompt f call hcall, Bool.false_eq_true, if_false, bind_assoc, pure_bind]
      exact Run.Fixed.bind h fun _ => .pure
  | builtin b =>
    simp only [bind_assoc, pure_bind]
    exact Run.Fixed.lift.bind fun _ => .pure
  | cls c =>
    simp only [bind_assoc, pure_bind]
    exact Run.Fixed.bind h fun _ => .pure
  | _ => exact .throw

theorem Reliable.of_answers (hI : Bookkeeping I) (hprompt : host.Prompt)
    (h : ∀ call, host.Answers I call fn) : host.Reliable I fn :=
  ⟨h, fun call hcall => call_fixed hI hprompt (h call) hcall⟩

end Host

/-! ## Absence -/

namespace Settled

variable {pool : Schema Value → Prop}

theorem anySchema_fixed {test : Schema Value → Run Bool} (options : List (Schema Value))
    (h : ∀ t ∈ options, (test t).Fixed I) : (anySchema test options).Fixed I := by
  induction options with
  | nil => exact .pure
  | cons t options ih =>
    refine (h t (List.mem_cons_self ..)).bind fun b => ?_
    split
    · exact .pure
    · exact ih fun u hu => h u (List.mem_cons_of_mem _ hu)

/-- Going on with the schema that a lazy schema stands for. -/
theorem resolve_bind (h : Settled host σ I pool) {s : Schema Value} (hs : pool s)
    {getter name : Value} (hform : s.form = .lazy getter name) {α : Type}
    {f : Schema Value → Run α} (hf : ∀ t, pool t → (f t).Fixed I) :
    (s.resolve host getter >>= f).Fixed I := by
  have hresolve := (h.lazies s hs getter name hform).gives h.here
  cases hanswer : (s.resolve host getter).answer σ with
  | error e =>
    rw [hanswer] at hresolve
    exact (hresolve.bind (k := fun _ => .error e) fun a ha => nomatch ha).fixed
  | ok t =>
    rw [hanswer] at hresolve
    obtain ⟨e, he⟩ := hf t (h.resolved s hs getter name t hform hanswer)
    exact (hresolve.bind (k := fun _ => e) fun a ha => by cases ha; exact he).fixed

/-- Whether a schema of the family accepts an absent value does not vary. -/
theorem acceptsAbsent_fixed (h : Settled host σ I pool) (fuel : Nat) :
    ∀ s, pool s → (s.acceptsAbsent host fuel).Fixed I := by
  induction fuel with
  | zero => exact fun s _ => .throw
  | succ fuel ih =>
    intro s hs
    have hparts := h.parts s hs
    unfold Schema.acceptsAbsent
    cases hform : s.form with
    | optional _ | default _ _ | prefault _ _ => exact .pure
    | nullable inner | readonly inner => exact ih inner (hparts _ (by simp [hform, Form.parts]))
    | catching inner _ => exact ih inner (hparts _ (by simp [hform, Form.parts]))
    | pipe source _ => exact ih source (hparts _ (by simp [hform, Form.parts]))
    | union options | discriminatedUnion options _ _ =>
      exact anySchema_fixed options fun t ht => ih t (hparts t (by simpa [hform, Form.parts] using ht))
    | lazy getter name => exact h.resolve_bind hs hform ih
    | _ => exact .pure

theorem requiredPositions_fixed {acceptsAbsent : Schema Value → Run Bool}
    (schemas : List (Schema Value)) (h : ∀ t ∈ schemas, (acceptsAbsent t).Fixed I) :
    (requiredPositions acceptsAbsent schemas).Fixed I := by
  induction schemas with
  | nil => exact .pure
  | cons t schemas ih =>
    refine (h t (List.mem_cons_self ..)).bind fun b => ?_
    split
    · exact ih fun u hu => h u (List.mem_cons_of_mem _ hu)
    · exact .pure

end Settled

end Assay
