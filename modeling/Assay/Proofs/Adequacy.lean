import Assay.Proofs.Judgment

/-!
# A parse that must not wait

Evaluating a settled schema in a parse that must not wait has an answer at once, and the answer is
the meaning (`evaluate_promptly`). So such a parse comes to what its meaning comes to, faults
included.
-/

namespace Assay

open Run

/-- The operation answers in all sessions of the invariant with the result, at once, or with the
fault. -/
abbrev Run.Promptly {α : Type} (I : Session → Prop) (x : Run (Outcome α)) (m : Except Fault α) :
    Prop :=
  x.Gives I (m.map Outcome.ready)

namespace Run.Promptly

variable {α β : Type} {I : Session → Prop} {x : Run (Outcome α)} {m : Except Fault α}

theorem ready {a : α} : (Pure.pure (.ready a) : Run (Outcome α)).Promptly I (.ok a) := Gives.pure

theorem throw {e : Fault} : (MonadExcept.throw e : Run (Outcome α)).Promptly I (.error e) :=
  Gives.throw

/-- An evaluation after an operation that does not wait. -/
theorem bind {y : Run β} {e : Except Fault β} {f : β → Run (Outcome α)}
    {k : β → Except Fault α} (hy : y.Gives I e)
    (hf : ∀ b, e = .ok b → (f b).Promptly I (k b)) : (y >>= f).Promptly I (e >>= k) := by
  rw [Promptly, map_bind_except]
  exact Gives.bind hy hf

/-- What is done with a result. -/
theorem next {f : Outcome α → Run (Outcome β)} {k : α → Except Fault β} (hx : x.Promptly I m)
    (hf : ∀ a, m = .ok a → (f (.ready a)).Promptly I (k a)) :
    (x >>= f).Promptly I (m >>= k) := by
  rw [Promptly, map_bind_except]
  exact Gives.next hx hf

theorem map {f : α → β} (hx : x.Promptly I m) :
    (do return (← x).map f : Run (Outcome β)).Promptly I (m >>= fun a => .ok (f a)) :=
  hx.next fun _ _ => .ready

theorem andThen {f : α → Run (Outcome β)} {k : α → Except Fault β} (hx : x.Promptly I m)
    (hf : ∀ a, m = .ok a → (f a).Promptly I (k a)) :
    (do (← x).andThen f).Promptly I (m >>= k) :=
  hx.next hf

end Run.Promptly

variable {host : Host} {σ : Session} {ctx : Context} {I : Session → Prop}
  {pool : Schema Value → Prop}

/-! ## Several positions -/

section

variable {recur : Schema Value → Value → Run (Outcome Result)}
  {m : Schema Value → Value → Except Fault Result}

theorem evaluateAll_promptly (ps : List (Schema Value × Value))
    (h : ∀ p ∈ ps, (recur p.1 p.2).Promptly I (m p.1 p.2)) :
    (evaluateAll recur ps).Gives I ((Meaning.each m ps).map (·.map Outcome.ready)) := by
  induction ps with
  | nil => exact .pure
  | cons p ps ih =>
    have hp := h p (List.mem_cons_self ..)
    have hrest := ih fun q hq => h q (List.mem_cons_of_mem _ hq)
    rw [evaluateAll, Meaning.each, map_bind_except]
    refine Gives.next hp fun r _ => ?_
    rw [map_bind_except]
    exact Gives.next hrest fun rs _ => .pure

theorem readyAll_map_ready (rs : List Result) : readyAll (rs.map .ready) = some rs := by
  induction rs with
  | nil => rfl
  | cons r rs ih => rw [List.map_cons, readyAll, ih, Option.map_some]

theorem gather_ready (rs : List Result) : gather host (rs.map .ready) = .ready rs := by
  rw [gather, readyAll_map_ready]

theorem evaluateInOrder_promptly (ps : List (Schema Value × Value))
    (h : ∀ p ∈ ps, (recur p.1 p.2).Promptly I (m p.1 p.2)) :
    (evaluateInOrder recur ps).Promptly I (Meaning.inOrder m ps) := by
  induction ps with
  | nil => exact .ready
  | cons p ps ih =>
    have hp := h p (List.mem_cons_self ..)
    have hrest := ih fun q hq => h q (List.mem_cons_of_mem _ hq)
    refine hp.next fun r _ => ?_
    dsimp only
    split
    · exact hrest.map
    · exact .ready

theorem evaluateItems_promptly (ps : List (Schema Value × Value))
    (h : ∀ p ∈ ps, (recur p.1 p.2).Promptly I (m p.1 p.2)) :
    (evaluateItems host recur ctx ps).Promptly I (Meaning.items m ctx ps) := by
  unfold evaluateItems Meaning.items
  split
  · exact evaluateInOrder_promptly ps h
  · rw [Promptly, map_eq_bind_ok]
    refine Gives.next (evaluateAll_promptly ps h) fun rs _ => ?_
    rw [gather_ready]
    exact .pure

end

/-! ## Unions -/

section

variable {recur : Schema Value → Value → Run (Outcome Result)}
  {m : Schema Value → Value → Except Fault Result} {v : Value}

/-- Trying options that answer at once ends with the first valid result, or with all of them. -/
theorem tryOptions_gives (options : List (Schema Value))
    (h : ∀ o ∈ options, (recur o v).Promptly I (m o v)) :
    (tryOptions recur v false options).Gives I ((Meaning.options m false v options).map fun rs =>
      match rs.find? Result.valid with
      | some r => .error r
      | none => .ok (rs.map .ready)) := by
  induction options with
  | nil => exact .pure
  | cons o options ih =>
    have ho := h o (List.mem_cons_self ..)
    have hrest := ih fun q hq => h q (List.mem_cons_of_mem _ hq)
    rw [tryOptions, Meaning.options, map_bind_except]
    refine Gives.next ho fun r _ => ?_
    by_cases hr : r.valid
    · simp only [hr, Bool.not_false, Bool.and_self, if_true]
      exact Always.pure (by simp [Except.map, pure, Except.pure, hr])
    · simp only [hr, Bool.and_false, Bool.false_and, Bool.false_eq_true, if_false]
      rw [map_bind_except]
      refine Gives.next hrest fun rs _ => Always.pure ?_
      cases hfind : rs.find? Result.valid <;> simp [Except.map, pure, Except.pure, hr, hfind]

theorem evaluateUnion_promptly (s : Schema Value) (options : List (Schema Value))
    (h : ∀ o ∈ options, (recur o v).Promptly I (m o v)) :
    (evaluateUnion host recur s options v).Promptly I
      (Meaning.options m false v options >>= fun rs => .ok (unionResult s v rs)) := by
  rw [evaluateUnion, Promptly, map_bind_except]
  refine Gives.next (tryOptions_gives options h) fun rs _ => ?_
  cases hfind : rs.find? Result.valid with
  | some r => exact Always.pure (by simp [hfind, unionResult, Except.map])
  | none => exact Always.pure (by simp [hfind, unionResult, gather_ready, Outcome.map, Except.map])

end

/-! ## Functions and checks -/

/-- A function in a parse that must not wait. -/
theorem callAwaiting_promptly (hI : Bookkeeping I) (hσ : I σ) {fn : Value}
    (h : host.Reliable I fn) (kind : Value) (call : Call Value) :
    (host.callAwaiting (ctx.mayWait false) kind fn call).Promptly I (Meaning.promptly host σ kind fn call) := by
  unfold Host.callAwaiting Meaning.promptly
  have hstart := Host.start_now hI h hσ call
  generalize (host.start fn call).answer σ = answer at hstart
  refine Always.bind hstart (fun o ho => ?_) fun e he => ?_
  · -- The outcome is the same in all sessions as far as it is there at once.
    obtain ⟨o', rfl, hnow⟩ : ∃ o', answer = .ok o' ∧ o'.now? = o.now? := by
      cases answer with
      | error e => cases ho
      | ok o' => exact ⟨o', rfl, by simpa [Except.map] using ho.symm⟩
    simp only [bind, Except.bind, hnow]
    cases o with
    | later work =>
      exact Always.throw rfl
    | ready r =>
      cases hr : r.value with
      | pending ref source =>
        simp only [Outcome.now?, hr, Value.isPending, if_true]
        exact Always.changing (fun τ hτ => hI.spent τ ref hτ) (Always.throw rfl)
      | _ =>
        simp only [Outcome.now?, hr, Value.isPending]
        exact Always.pure rfl
  · cases answer with
    | error e' =>
      cases he
      rfl
    | ok o' => cases he

theorem runChecksFrom_promptly {checks : List Value}
    (h : ∀ c ∈ checks, ∀ v,
      (runCheck host (ctx.mayWait false) c v).Promptly I (Meaning.check host σ c v))
    (r : Result) : (runChecksFrom host (ctx.mayWait false) checks r).Promptly I
      (Meaning.checksFrom host σ ctx checks r) := by
  induction checks generalizing r with
  | nil => exact .ready
  | cons c checks ih =>
    have hrest := ih fun d hd => h d (List.mem_cons_of_mem _ hd)
    refine (h c (List.mem_cons_self ..) r.value).next fun q _ => ?_
    by_cases hq : halts ctx c q
    · simp only [halts_mayWait, hq, if_true]
      exact .ready
    · simp only [halts_mayWait, hq]
      exact hrest _

/-- An evaluator of a further kind, with the checks after it. -/
theorem evaluator_promptly (hI : Bookkeeping I) (hσ : I σ) {fn : Value}
    (hfn : host.Reliable I fn) {s : Schema Value} (v : Value)
    (h : ∀ r, (runChecks host (ctx.mayWait false) s r).Promptly I (Meaning.checks host σ ctx s r)) :
    (host.start fn (.evaluating (.schema s) v) >>=
      checkOutcome host (ctx.mayWait false) s).Promptly I
      (Meaning.evaluator host σ fn s v >>= Meaning.checks host σ ctx s) := by
  have hstart := Host.start_now hI hfn hσ (.evaluating (.schema s) v)
  unfold Meaning.evaluator
  generalize (host.start fn (.evaluating (.schema s) v)).answer σ = answer at hstart
  refine Always.bind hstart (fun o ho => ?_) fun e he => ?_
  · obtain ⟨o', rfl, hnow⟩ : ∃ o', answer = .ok o' ∧ o'.now? = o.now? := by
      cases answer with
      | error e => cases ho
      | ok o' => exact ⟨o', rfl, by simpa [Except.map] using ho.symm⟩
    simp only [bind, Except.bind, hnow]
    cases o with
    | later work => exact Always.throw rfl
    | ready r => exact h r
  · cases answer with
    | error e' =>
      cases he
      rfl
    | ok o' => cases he

/-! ## Parses -/

/-- Answering at once with the meaning is a judgment. -/
theorem judgment_promptly (hI : Bookkeeping I) (hσ : I σ) :
    Judgment host host σ ctx false false I fun _ x m => x.Promptly I m where
  ready _ _ := .ready
  throw _ _ := .throw
  bind _ _ _ _ _ _ hy hf := .bind hy hf
  map _ _ _ _ _ hx := hx.map
  andThen _ _ _ _ _ _ hx hf := hx.andThen fun a _ => hf a
  items ps h := evaluateItems_promptly ps h
  union s schemas h := evaluateUnion_promptly s schemas h
  pending _ _ ref _ _ :=
    Always.changing (fun τ hτ => hI.spent τ ref hτ) (Always.throw rfl)
  call hfn kind call := callAwaiting_promptly hI hσ hfn kind call
  checks h r := runChecksFrom_promptly h r
  checked hx h := hx.next fun r _ => h r
  evaluator hfn _ v h := evaluator_promptly hI hσ hfn v h

/-- Evaluating a schema of the family in a parse that must not wait answers at once with the
meaning. -/
theorem evaluate_promptly (h : Settled host σ I pool) (fuel : Nat) {s : Schema Value} (hs : pool s)
    (v : Value) : (evaluate host (ctx.mayWait false) fuel s v).Promptly I
      (meaning host σ ctx false fuel s v) :=
  (judgment_promptly h.bookkeeping h.here).evaluate .refl h fuel s hs v

theorem conclude_fixed (hwords : ∀ issues, (Resolution.finalizeActive host ctx issues).Fixed I)
    (r : Result) : (conclude host ctx r).Fixed I := by
  unfold conclude
  split
  · exact .pure
  · exact (hwords r.issues).bind fun _ => .pure

/-- What a parse comes to when every question to a session is answered as in `σ`. -/
def Meaning.parsed (host : Host) (σ : Session) (ctx : Context) (thorough : Bool)
    (s : Schema Value) (v : Value) : Except Fault Parsed := do
  (conclude host ctx (← meaning host σ ctx thorough s.budget s v)).answer σ

/-- A parse that must not wait comes to the meaning of the schema, concluded, when the words for
what is found do not vary. -/
theorem safeParse_gives_of (h : Settled host σ I pool) {s : Schema Value} (hs : pool s) (v : Value)
    (hwords : ∀ r, meaning host σ ctx false s.budget s v = .ok r → (conclude host ctx r).Fixed I) :
    (safeParse host (ctx.mayWait false) s v).Gives I (Meaning.parsed host σ ctx false s v) := by
  refine Gives.next (evaluate_promptly h s.budget hs v) fun r hr => ?_
  simp only [Outcome.settle, pure_bind]
  rw [Host.Agrees.refl.conclude_eq]
  exact (hwords r hr).gives h.here

theorem safeParse_gives (h : Settled host σ I pool)
    (hwords : ∀ issues, (Resolution.finalizeActive host ctx issues).Fixed I) {s : Schema Value}
    (hs : pool s) (v : Value) :
    (safeParse host (ctx.mayWait false) s v).Gives I (Meaning.parsed host σ ctx false s v) :=
  safeParse_gives_of h hs v fun r _ => conclude_fixed hwords r

end Assay
