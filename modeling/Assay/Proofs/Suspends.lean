import Assay.Proofs.Settled

/-!
# Hosts with the same functions

A second host may have some of the functions of a first as asynchronous ones, wherever their
answers are awaited (`Host.Suspends`). All that is not awaited is the same for both (`Host.Agrees`): the
schemas that lazy schemas stand for, the values that stand in for absent ones, and the words of
issues.
-/

namespace Assay

/-- The second host has the functions of the first. Any of them may be asynchronous when their
answers are awaited, and they may complete in any order. -/
structure Host.Suspends (host host' : Host) : Prop where
  arity : host'.arity = host.arity
  run : host'.run = host.run
  isProvider : host'.isProvider = host.isProvider
  prompt : host'.Prompt

/-- The second host has the answers of the first wherever answers are taken as they are. -/
structure Host.Agrees (host host' : Host) : Prop where
  arity : host'.arity = host.arity
  call : ∀ fn call, Call.isAwaited call = false → host'.call fn call = host.call fn call

/-- The same options for a parse that may wait, or for one that must not. -/
def Context.mayWait (ctx : Context) (b : Bool) : Context := { ctx with isAsync := b }

variable {host host' : Host} {σ : Session} {ctx : Context} {I : Session → Prop} {b : Bool}

/-! ## Calls -/

namespace Host.Suspends

variable {fn : Value} {call : Call Value}

theorem keeps (h : host.Suspends host') (hkeeps : host.Keeps I) : host'.Keeps I := by
  intro f call
  rw [h.run]
  exact hkeeps f call

theorem note_eq (h : host.Suspends host') (f : Callable Value) (call : Call Value) :
    host'.note f call = host.note f call := by
  rw [note, note, h.isProvider]

/-- A call whose answer is taken as it is does the same for both hosts. -/
theorem agrees (h : host.Suspends host') (hprompt : host.Prompt) : host.Agrees host' := by
  refine ⟨h.arity, fun fn call hcall => ?_⟩
  unfold Host.call start
  cases fn with
  | callable f =>
    dsimp only
    rw [invoke, invoke, h.arity, h.run, h.note_eq, h.prompt f call hcall, hprompt f call hcall]
  | _ => rfl

/-- Where the first host has an answer at once the second comes to the same answer. -/
theorem start_brings (h : host.Suspends host') (hI : Bookkeeping I) (hσ : I σ)
    (hfn : host.Reliable I fn) (call : Call Value) :
    (host'.start fn call).Brings I fun e =>
      ∀ r, ((host.start fn call).answer σ).map Outcome.now? = .ok (some r) →
        ∃ t, e = .ok t ∧ t.value = r := by
  simp only [← Run.answer_map]
  cases fn with
  | callable f =>
    obtain ⟨e, he⟩ := hfn.answers call
    have hanswer : (Outcome.now? <$> host.start (.callable f) call).answer σ = _ :=
      (invoke_gives hI he).answer hσ
    rw [hanswer]
    refine Host.invoke_brings hI (fun harity r hr => ?_) fun _ => ?_
    · rw [if_pos (by simpa [h.arity] using harity)] at hr
      cases hr
    · rw [h.run]
      refine he.mono ?_
      rintro e' rfl r hr
      split at hr
      · cases hr
      · split at hr
        · cases hr
        · cases e' with
          | error e => cases hr
          | ok q =>
            cases hr
            exact ⟨_, rfl, rfl⟩
  | builtin b =>
    refine Run.Brings.bind (Run.Gives.lift (e := b.call call)) (fun v hv => .ready ?_)
      fun e he r hr => ?_
    · intro r hr
      simp only [start, ← hv] at hr
      cases hr
      exact ⟨_, rfl, rfl⟩
    · simp only [start, ← he] at hr
      cases hr
  | cls c =>
    obtain ⟨e, he⟩ := hfn.answers call
    have hanswer : (Outcome.now? <$> host.start (.cls c) call).answer σ =
        e.map fun v => some ⟨v, []⟩ := by
      dsimp only [start]
      rw [map_bind, map_eq_bind_ok]
      exact (he.bind fun _ _ => Run.Gives.pure).answer hσ
    rw [hanswer]
    refine Run.Brings.bind he (fun v hv => .ready ?_) ?_
    · rintro r hr
      rw [← hv] at hr
      cases hr
      exact ⟨_, rfl, rfl⟩
    · rintro f rfl r hr
      cases hr
  | _ =>
    refine Run.Brings.throw fun r hr => ?_
    cases hr

end Host.Suspends

/-! ## Questions with one answer -/

namespace Host.Agrees

theorem refl : host.Agrees host := ⟨rfl, fun _ _ _ => rfl⟩


theorem getterAnswer_eq (h : host.Agrees host') (getter : Value) :
    getterAnswer host' getter = getterAnswer host getter := by
  unfold getterAnswer
  split
  · rfl
  · rw [h.call _ _ rfl]

theorem resolve_eq (h : host.Agrees host') (s : Schema Value)
    (getter : Value) : s.resolve host' getter = s.resolve host getter := by
  rw [Schema.resolve, Schema.resolve, h.getterAnswer_eq]

theorem acceptsAbsent_eq (h : host.Agrees host') (fuel : Nat) :
    Schema.acceptsAbsent host' fuel = Schema.acceptsAbsent host fuel := by
  induction fuel with
  | zero => rfl
  | succ fuel ih =>
    funext s
    unfold Schema.acceptsAbsent
    simp only [ih, h.resolve_eq]

theorem defaultValue_eq (h : host.Agrees host') (d : Value) :
    defaultValue host' d = defaultValue host d := by
  rw [defaultValue, defaultValue, h.call _ _ rfl]

theorem wantsSink_eq (h : host.Agrees host') (fn : Value) :
    wantsSink host' fn = wantsSink host fn := by
  unfold wantsSink
  rw [h.arity]

theorem message_eq (h : host.Agrees host') (config : Config)
    (i : Issue Value) :
    Resolution.message host' (ctx.mayWait b) config i = Resolution.message host ctx config i := by
  have hconsult : ∀ p, Resolution.consult host' p i = Resolution.consult host p i := by
    intro p
    unfold Resolution.consult
    rw [h.call _ _ rfl]
  have hoffer : ∀ ps, Resolution.firstOffer host' i ps = Resolution.firstOffer host i ps := by
    intro ps
    induction ps with
    | nil => rfl
    | cons p ps ih => rw [Resolution.firstOffer, Resolution.firstOffer, hconsult, ih]
  exact hoffer _

mutual

theorem finalizeOne_eq (h : host.Agrees host') (config : Config) :
    (i : Issue Value) → Resolution.finalizeOne host' (ctx.mayWait b) config i =
      Resolution.finalizeOne host ctx config i
  | ⟨_, text, _, _, detail⟩ => by
    unfold Resolution.finalizeOne
    rw [finalizeDetail_eq h config detail]
    cases text <;> first | rfl | (rw [h.message_eq]; rfl)
termination_by structural x => x

theorem finalizeDetail_eq (h : host.Agrees host') (config : Config) :
    (d : Detail Value (Issue Value)) → Resolution.finalizeDetail host' (ctx.mayWait b) config d =
      Resolution.finalizeDetail host ctx config d
  | .invalidUnion groups .. => by
    rw [Resolution.finalizeDetail, Resolution.finalizeDetail,
      finalizeGroups_eq h config groups]
  | .invalidKey _ issues => by
    rw [Resolution.finalizeDetail, Resolution.finalizeDetail, finalize_eq h config issues]
  | .invalidElement _ _ issues => by
    rw [Resolution.finalizeDetail, Resolution.finalizeDetail, finalize_eq h config issues]
  | .unspecified => rfl
  | .invalidType .. => rfl
  | .tooBig .. => rfl
  | .tooSmall .. => rfl
  | .invalidFormat .. => rfl
  | .notMultipleOf .. => rfl
  | .unrecognizedKeys .. => rfl
  | .invalidValue .. => rfl
  | .custom .. => rfl
termination_by structural x => x

/-- Issues get the same words from both hosts. -/
theorem finalize_eq (h : host.Agrees host') (config : Config) :
    (is : List (Issue Value)) → Resolution.finalize host' (ctx.mayWait b) config is =
      Resolution.finalize host ctx config is
  | [] => rfl
  | i :: is => by
    rw [Resolution.finalize, Resolution.finalize, finalizeOne_eq h config i,
      finalize_eq h config is]
termination_by structural x => x

theorem finalizeGroups_eq (h : host.Agrees host') (config : Config) :
    (gs : List (List (Issue Value))) → Resolution.finalizeGroups host' (ctx.mayWait b) config gs =
      Resolution.finalizeGroups host ctx config gs
  | [] => rfl
  | g :: gs => by
    rw [Resolution.finalizeGroups, Resolution.finalizeGroups, finalize_eq h config g,
      finalizeGroups_eq h config gs]
termination_by structural x => x

end

theorem finalizeActive_eq (h : host.Agrees host')
    (issues : List (Issue Value)) :
    Resolution.finalizeActive host' (ctx.mayWait b) issues =
      Resolution.finalizeActive host ctx issues := by
  unfold Resolution.finalizeActive
  simp only [h.finalize_eq]

theorem conclude_eq (h : host.Agrees host') (r : Result) :
    conclude host' (ctx.mayWait b) r = conclude host ctx r := by
  unfold conclude
  rw [h.finalizeActive_eq]

end Host.Agrees

@[simp] theorem halts_mayWait (c : Value) (r : Result) :
    halts (ctx.mayWait b) c r = halts ctx c r := rfl

end Assay
