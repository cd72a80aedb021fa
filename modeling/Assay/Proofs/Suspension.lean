import Assay.Proofs.Judgment
import Assay.Proofs.Positions

/-!
# A parse that may wait

The functions of a host may be made asynchronous, any of them and for any call, as long as their
answers are awaited (`Host.Suspends`). Evaluating a settled schema in a parse that may wait then
follows the meaning: where there is a meaning, no other result is reached, in whichever order the
pieces of work complete (`evaluate_follows`). Where a thorough reading raises no fault the
evaluation raises none either. A union may try more options than its meaning reads, since one
option that has to wait keeps it from stopping at the next valid one; these come too late to be
taken.
-/

namespace Assay

open Run

/-- No other result is reached than that of the meaning, and in a total agreement it is reached. -/
def Agrees {α : Type} (total : Bool) (m : Except Fault α) : Except Fault (Timed α) → Prop
  | .ok t => ∀ a, m = .ok a → t.value = a
  | .error _ => ∀ a, m = .ok a → total = false

/-- Now or later, the operation agrees with the meaning. -/
abbrev Run.Follows {α : Type} (total : Bool) (I : Session → Prop) (x : Run (Outcome α))
    (m : Except Fault α) : Prop :=
  x.Brings I (Agrees total m)

namespace Run.Follows

variable {α β : Type} {total : Bool} {I : Session → Prop} {x : Run (Outcome α)}
  {m : Except Fault α}

theorem agrees_error {f : Fault} : ∀ e, Agrees (α := α) total (.error f) e
  | .ok _ => fun _ h => nomatch h
  | .error _ => fun _ h => nomatch h

theorem ready {a : α} : (Pure.pure (.ready a) : Run (Outcome α)).Follows total I (.ok a) :=
  Brings.ready fun _ h => Except.ok.inj h

theorem throw {e f : Fault} :
    (MonadExcept.throw e : Run (Outcome α)).Follows total I (.error f) :=
  Brings.throw fun _ h => nomatch h

/-- Without a meaning there is nothing to follow. -/
theorem of_error {f : Fault} (h : x.Brings I fun _ => True) : x.Follows total I (.error f) :=
  h.mono fun e _ => agrees_error e

/-- An evaluation after an operation that does not wait. -/
theorem bind {y : Run β} {e : Except Fault β} {f : β → Run (Outcome α)}
    {k : β → Except Fault α} (hy : y.Gives I e)
    (hf : ∀ b, e = .ok b → (f b).Follows total I (k b)) :
    (y >>= f).Follows total I (e >>= k) := by
  cases e with
  | error e => exact of_error (Always.bind hy (fun _ h => nomatch h) fun _ _ => trivial)
  | ok b => exact Brings.bind hy (fun c hc => by cases hc; exact hf b rfl) fun _ h => nomatch h

theorem map {f : α → β} (hx : x.Follows total I m) :
    (do return (← x).map f : Run (Outcome β)).Follows total I (m >>= fun a => .ok (f a)) := by
  refine Brings.map hx (fun t ht => ?_) fun e he => ?_
  · intro b hb
    obtain ⟨a, ha, hab⟩ := bind_eq_ok.1 hb
    rw [ht a ha]
    exact Except.ok.inj hab
  · intro b hb
    obtain ⟨a, ha, -⟩ := bind_eq_ok.1 hb
    exact he a ha

theorem andThen {f : α → Run (Outcome β)} {k : α → Except Fault β} (hx : x.Follows total I m)
    (hf : ∀ a, (f a).Follows total I (k a)) :
    (do (← x).andThen f).Follows total I (m >>= k) := by
  refine Brings.andThen hx (fun t ht => (hf t.value).mono ?_) fun e he => ?_
  · rintro (e | u) hu b hb
    · obtain ⟨a, ha, hab⟩ := bind_eq_ok.1 hb
      exact hu b (ht a ha ▸ hab)
    · obtain ⟨a, ha, hab⟩ := bind_eq_ok.1 hb
      exact hu b (ht a ha ▸ hab)
  · intro b hb
    obtain ⟨a, ha, -⟩ := bind_eq_ok.1 hb
    exact he a ha

end Run.Follows

variable {host host' : Host} {σ : Session} {ctx : Context} {I : Session → Prop}
  {pool : Schema Value → Prop} {total : Bool}

/-! ## Several positions -/

section

variable {recur : Schema Value → Value → Run (Outcome Result)}
  {m : Schema Value → Value → Except Fault Result}

/-- Answers that agree with their meanings are the meaning of all positions. -/
theorem each_of_answers {ps : List (Schema Value × Value)} {ts : List (Timed Result)}
    (h : Answers (fun p => Agrees total (m p.1 p.2)) ps ts) :
    ∀ rs, Meaning.each m ps = .ok rs → ts.map (·.value) = rs := by
  induction h with
  | nil =>
    rintro rs ⟨⟩
    rfl
  | cons hp _ ih =>
    intro rs hrs
    obtain ⟨r, hr, hrs⟩ := bind_eq_ok.1 hrs
    obtain ⟨rest, hrest, hrs⟩ := bind_eq_ok.1 hrs
    cases hrs
    rw [List.map_cons, hp r hr, ih rest hrest]

theorem not_each_of_fails {ps : List (Schema Value × Value)} {e : Fault}
    (h : Fails (fun p => Agrees total (m p.1 p.2)) ps e) :
    ∀ rs, Meaning.each m ps = .ok rs → total = false := by
  obtain ⟨p, hp, he⟩ := h
  induction ps with
  | nil => cases hp
  | cons q ps ih =>
    intro rs hrs
    obtain ⟨r, hr, hrs⟩ := bind_eq_ok.1 hrs
    obtain ⟨rest, hrest, -⟩ := bind_eq_ok.1 hrs
    rcases List.mem_cons.1 hp with rfl | hp
    · exact he r hr
    · exact ih hp rest hrest

/-- Answers up to the first that is not valid, likewise. -/
theorem inOrder_of_stops {ps : List (Schema Value × Value)} {ts : List (Timed Result)}
    (h : Stops (fun p => Agrees total (m p.1 p.2)) ps ts) :
    ∀ rs, Meaning.inOrder m ps = .ok rs → ts.map (·.value) = rs := by
  induction h with
  | done =>
    rintro rs ⟨⟩
    rfl
  | fails hp hvalid =>
    intro rs hrs
    obtain ⟨r, hr, hrs⟩ := bind_eq_ok.1 hrs
    rw [hp r hr] at hvalid
    rw [hvalid] at hrs
    cases hrs
    rw [List.map_cons, hp r hr, List.map_nil]
  | goes hp hvalid _ ih =>
    intro rs hrs
    obtain ⟨r, hr, hrs⟩ := bind_eq_ok.1 hrs
    rw [hp r hr] at hvalid
    rw [if_pos hvalid] at hrs
    obtain ⟨rest, hrest, hrs⟩ := bind_eq_ok.1 hrs
    cases hrs
    rw [List.map_cons, hp r hr, ih rest hrest]

theorem not_inOrder_of_breaks {ps : List (Schema Value × Value)} {e : Fault}
    (h : Breaks (fun p => Agrees total (m p.1 p.2)) ps e) :
    ∀ rs, Meaning.inOrder m ps = .ok rs → total = false := by
  induction h with
  | here hp =>
    intro rs hrs
    obtain ⟨r, hr, -⟩ := bind_eq_ok.1 hrs
    exact hp r hr
  | goes hp hvalid _ ih =>
    intro rs hrs
    obtain ⟨r, hr, hrs⟩ := bind_eq_ok.1 hrs
    rw [hp r hr] at hvalid
    rw [if_pos hvalid] at hrs
    obtain ⟨rest, hrest, -⟩ := bind_eq_ok.1 hrs
    exact ih rest hrest

theorem evaluateItems_follows (ps : List (Schema Value × Value))
    (h : ∀ p ∈ ps, (recur p.1 p.2).Follows total I (m p.1 p.2)) :
    (evaluateItems host' recur ctx ps).Follows total I (Meaning.items m ctx ps) := by
  refine (evaluateItems_brings (P := fun p => Agrees total (m p.1 p.2)) ctx ps h).mono ?_
  unfold Evaluated Meaning.items
  split
  · rintro (e | t) he
    · exact not_inOrder_of_breaks he
    · obtain ⟨ts, hts, rfl⟩ := he
      exact inOrder_of_stops hts
  · rintro (e | t) he
    · exact not_each_of_fails he
    · obtain ⟨ts, hts, rfl⟩ := he
      exact each_of_answers hts

/-! ## Unions -/

variable {v : Value}

/-- Whatever options are tried beyond those that the meaning reads, the first valid one is the
same, and where there is none all options are tried. -/
theorem options_of_tries {waiting : Bool} {schemas : List (Schema Value)}
    {ts : List (Timed Result)} (h : Tries (fun t => Agrees total (m t v)) waiting schemas ts) :
    ∀ rs, Meaning.options m total v schemas = .ok rs →
      (ts.map (·.value)).find? Result.valid = rs.find? Result.valid ∧
        (rs.find? Result.valid = none → ts.map (·.value) = rs) := by
  induction h with
  | done =>
    rintro rs ⟨⟩
    exact ⟨rfl, fun _ => rfl⟩
  | @takes s rest t ht _ hvalid =>
    intro rs hrs
    obtain ⟨r, hr, hrs⟩ := bind_eq_ok.1 hrs
    obtain rfl := ht r hr
    obtain ⟨rest', rfl⟩ : ∃ rest', rs = t.value :: rest' := by
      split at hrs
      · cases hrs
        exact ⟨[], rfl⟩
      · obtain ⟨rest', -, hrs⟩ := bind_eq_ok.1 hrs
        cases hrs
        exact ⟨rest', rfl⟩
    simp [hvalid]
  | @goes waiting s rest t ts ht _ _ ih =>
    intro rs hrs
    obtain ⟨r, hr, hrs⟩ := bind_eq_ok.1 hrs
    obtain rfl := ht r hr
    by_cases hvalid : t.value.valid
    · -- Both find this option, whatever is tried after it.
      obtain ⟨rest', rfl⟩ : ∃ rest', rs = t.value :: rest' := by
        split at hrs
        · cases hrs
          exact ⟨[], rfl⟩
        · obtain ⟨rest', -, hrs⟩ := bind_eq_ok.1 hrs
          cases hrs
          exact ⟨rest', rfl⟩
      simp [hvalid]
    · rw [if_neg (by simp [hvalid])] at hrs
      obtain ⟨rest', hrest, hrs⟩ := bind_eq_ok.1 hrs
      cases hrs
      obtain ⟨hfind, hall⟩ := ih rest' hrest
      simp only [List.map_cons, List.find?_cons, hvalid]
      exact ⟨hfind, fun hnone => by rw [hall hnone]⟩

theorem unionResult_of_tries {s : Schema Value} {waiting : Bool} {schemas : List (Schema Value)}
    {ts : List (Timed Result)} (h : Tries (fun t => Agrees total (m t v)) waiting schemas ts)
    {rs : List Result} (hrs : Meaning.options m total v schemas = .ok rs) :
    unionResult s v (ts.map (·.value)) = unionResult s v rs := by
  obtain ⟨hfind, hall⟩ := options_of_tries h rs hrs
  unfold unionResult
  rw [hfind]
  cases hrs' : rs.find? Result.valid with
  | some r => rfl
  | none => rw [hall hrs']

/-- A thorough reading of a union raises what any option raises. -/
theorem not_options_of_fails {schemas : List (Schema Value)} {e : Fault}
    (h : ∃ o ∈ schemas, Agrees total (m o v) (.error e)) :
    ∀ rs, Meaning.options m total v schemas = .ok rs → total = false := by
  obtain ⟨o, ho, he⟩ := h
  cases total with
  | false => exact fun _ _ => rfl
  | true =>
    induction schemas with
    | nil => cases ho
    | cons s schemas ih =>
      intro rs hrs
      obtain ⟨r, hr, hrs⟩ := bind_eq_ok.1 hrs
      rw [if_neg (by simp)] at hrs
      obtain ⟨rest, hrest, -⟩ := bind_eq_ok.1 hrs
      rcases List.mem_cons.1 ho with rfl | ho
      · exact he r hr
      · exact ih ho rest hrest

theorem evaluateUnion_follows (s : Schema Value) (schemas : List (Schema Value))
    (h : ∀ o ∈ schemas, (recur o v).Follows total I (m o v)) :
    (evaluateUnion host' recur s schemas v).Follows total I
      (Meaning.options m total v schemas >>= fun rs => .ok (unionResult s v rs)) := by
  refine (evaluateUnion_brings (P := fun o => Agrees total (m o v)) s schemas h).mono ?_
  rintro (e | t) he r hr
  · obtain ⟨rs, hrs, -⟩ := bind_eq_ok.1 hr
    exact not_options_of_fails he rs hrs
  · obtain ⟨rs, hrs, hr⟩ := bind_eq_ok.1 hr
    obtain ⟨ts, hts, rfl⟩ := he
    cases hr
    exact unionResult_of_tries hts hrs

end

/-! ## Functions -/

/-- A prompt answer is there at once and not pending. -/
theorem promptly_eq_ok {kind fn : Value} {call : Call Value} {r : Result}
    (h : Meaning.promptly host σ kind fn call = .ok r) :
    ((host.start fn call).answer σ).map Outcome.now? = .ok (some r) ∧ r.value.isPending = false := by
  obtain ⟨o, ho, h⟩ := bind_eq_ok.1 h
  rw [ho]
  split at h
  · rename_i q hq
    split at h
    · cases h
    · rename_i hpending
      cases h
      exact ⟨congrArg Except.ok hq, by simpa using hpending⟩
  · cases h

theorem await_keeps (hI : Bookkeeping I) (hkeeps : host.Keeps I) (ref : Nat)
    (source : Pending Value) : (host.await ref source).Keeps I := by
  refine .reading fun τ hτ => ?_
  split
  · exact Keeps.throw
  · refine .changing (fun τ hτ => hI.spent τ ref hτ) ?_
    cases source with
    | promised v => exact Keeps.pure
    | calling f call => exact (hkeeps f call).bind fun _ => .pure

/-- A function in a parse that may wait. -/
theorem callAwaiting_follows (h : host.Suspends host') (hI : Bookkeeping I) (hσ : I σ)
    (hkeeps : host.Keeps I) {fn : Value} (hfn : host.Reliable I fn) (kind : Value)
    (call : Call Value) :
    (host'.callAwaiting (ctx.mayWait true) kind fn call).Follows total I
      (Meaning.promptly host σ kind fn call) := by
  refine (h.start_brings hI hσ hfn call).bindOutcome (fun o ho => ?_) fun e he r hr => ?_
  · cases o with
    | later work =>
      refine .later ((Outcome.brings_later.1 ho).mono ?_)
      rintro (e | q) he r hr
      · obtain ⟨t, ht, -⟩ := he r (promptly_eq_ok hr).1
        cases ht
      · obtain ⟨t, ht, hvalue⟩ := he r (promptly_eq_ok hr).1
        cases ht
        exact hvalue
    | ready q =>
      have hready : (pure (.ready q) : Run (Outcome Result)).Follows total I
          (Meaning.promptly host σ kind fn call) := by
        refine Brings.ready fun r hr => ?_
        obtain ⟨t, ht, hvalue⟩ := ho r (promptly_eq_ok hr).1
        cases ht
        exact hvalue
      cases hq : q.value with
      | pending ref source =>
        -- The meaning of a pending answer is a fault, so only the invariant is at stake.
        have hnone : ∀ r, Meaning.promptly host σ kind fn call ≠ .ok r := by
          intro r hr
          obtain ⟨hnow, hpending⟩ := promptly_eq_ok hr
          obtain ⟨t, ht, hvalue⟩ := ho r hnow
          cases ht
          obtain rfl : q = r := hvalue
          simp [hq, Value.isPending] at hpending
        have hwait : (do return { q with value := ← host'.await ref source } :
            Run Result).Keeps I :=
          (await_keeps hI (h.keeps hkeeps) ref source).bind fun _ => .pure
        simp only [hq]
        rw [if_pos (show (ctx.mayWait true).isAsync = true from rfl)]
        refine .later (hwait.mono fun e _ => ?_)
        rcases e with e | r' <;> exact fun r hr => absurd hr (hnone r)
      | _ =>
        simp only [hq]
        exact hready
  · obtain ⟨t, ht, -⟩ := he r (promptly_eq_ok hr).1
    cases ht

/-! ## Checks -/

/-- In a parse that may wait, the checks go on from the outcome of the first. -/
theorem runChecksFrom_awaiting (c : Value) (checks : List Value) (r : Result) :
    runChecksFrom host (ctx.mayWait true) (c :: checks) r = (do
      (← runCheck host (ctx.mayWait true) c r.value).andThen fun q =>
        if halts ctx c q then pure (.ready (r.merge q))
        else runChecksFrom host (ctx.mayWait true) checks (r.merge q)) := by
  rw [runChecksFrom]
  congr 1
  funext o
  cases o with
  | ready q => rfl
  | later work =>
    dsimp only [Outcome.andThen]
    rw [if_pos (show (ctx.mayWait true).isAsync = true from rfl)]
    congr 2
    congr 1
    funext q
    by_cases hq : halts ctx c q
    · rw [if_pos hq, if_pos (show halts (ctx.mayWait true) c q = true from hq)]
      rfl
    · rw [if_neg hq, if_neg (show ¬ halts (ctx.mayWait true) c q = true from hq)]

theorem runChecksFrom_follows {checks : List Value}
    (h : ∀ c ∈ checks, ∀ v,
      (runCheck host' (ctx.mayWait true) c v).Follows total I (Meaning.check host σ c v))
    (r : Result) : (runChecksFrom host' (ctx.mayWait true) checks r).Follows total I
      (Meaning.checksFrom host σ ctx checks r) := by
  induction checks generalizing r with
  | nil => exact .ready
  | cons c checks ih =>
    have hrest := ih fun d hd => h d (List.mem_cons_of_mem _ hd)
    have hc := h c (List.mem_cons_self ..) r.value
    rw [runChecksFrom_awaiting]
    refine Follows.andThen hc fun q => ?_
    split
    · exact .ready
    · exact hrest _

theorem checkOutcome_awaiting (s : Schema Value) (o : Outcome Result) :
    checkOutcome host (ctx.mayWait true) s o = o.andThen (runChecks host (ctx.mayWait true) s) := by
  cases o <;> rfl

/-- The checks of a schema on what its form comes to. -/
theorem checkOutcome_follows {s : Schema Value} {x : Run (Outcome Result)}
    {m : Except Fault Result} (hx : x.Follows total I m)
    (h : ∀ r, (runChecks host' (ctx.mayWait true) s r).Follows total I
      (Meaning.checks host σ ctx s r)) :
    (x >>= checkOutcome host' (ctx.mayWait true) s).Follows total I
      (m >>= Meaning.checks host σ ctx s) := by
  have : checkOutcome host' (ctx.mayWait true) s =
      fun o => o.andThen (runChecks host' (ctx.mayWait true) s) :=
    funext fun o => checkOutcome_awaiting s o
  rw [this]
  exact hx.andThen h

/-! ## Parses -/

theorem evaluator_follows (hhosts : host.Suspends host') (hI : Bookkeeping I) (hσ : I σ)
    {fn : Value} (hfn : host.Reliable I fn) (s : Schema Value) (v : Value) :
    (host'.start fn (.evaluating (.schema s) v)).Follows total I
      (Meaning.evaluator host σ fn s v) := by
  refine (hhosts.start_brings hI hσ hfn _).mono ?_
  have hnow : ∀ r, Meaning.evaluator host σ fn s v = .ok r →
      ((host.start fn (.evaluating (.schema s) v)).answer σ).map Outcome.now? = .ok (some r) := by
    intro r hr
    obtain ⟨o, ho, hr⟩ := bind_eq_ok.1 hr
    rw [ho]
    split at hr
    · rename_i q hq
      cases hr
      exact congrArg Except.ok hq
    · cases hr
  rintro (e | t) he r hr
  · obtain ⟨t, ht, -⟩ := he r (hnow r hr)
    cases ht
  · obtain ⟨t, ht, hvalue⟩ := he r (hnow r hr)
    cases ht
    exact hvalue

/-- Following the meaning is a judgment. -/
theorem judgment_follows (hhosts : host.Suspends host') (hI : Bookkeeping I) (hσ : I σ)
    (hkeeps : host.Keeps I) :
    Judgment host host' σ ctx true total I fun _ x m => x.Follows total I m where
  ready _ _ := .ready
  throw _ _ := .throw
  bind _ _ _ _ _ _ hy hf := .bind hy hf
  map _ _ _ _ _ hx := hx.map
  andThen _ _ _ _ _ _ hx hf := hx.andThen hf
  items ps h := evaluateItems_follows ps h
  union s schemas h := evaluateUnion_follows s schemas h
  pending _ _ ref source h := .of_error (Brings.later (Keeps.bind
    (await_keeps hI (hhosts.keeps hkeeps) ref source) fun w => (h w).settle.mono fun _ _ => trivial))
  call hfn kind call := callAwaiting_follows hhosts hI hσ hkeeps hfn kind call
  checks h r := runChecksFrom_follows h r
  checked hx h := checkOutcome_follows hx h
  evaluator hfn s v h := checkOutcome_follows (evaluator_follows hhosts hI hσ hfn s v) h

/-- Evaluating a schema of the family in a parse that may wait follows its meaning. -/
theorem evaluate_follows (hhosts : host.Suspends host') (hprompt : host.Prompt)
    (hkeeps : host.Keeps I) (h : Settled host σ I pool) (fuel : Nat) {s : Schema Value}
    (hs : pool s) (v : Value) :
    (evaluate host' (ctx.mayWait true) fuel s v).Follows total I
      (meaning host σ ctx total fuel s v) :=
  (judgment_follows hhosts h.bookkeeping h.here hkeeps).evaluate (hhosts.agrees hprompt) h fuel s
    hs v

end Assay
