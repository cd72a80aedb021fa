import Assay.Session.Basic

/-!
# Triples of runs

What an operation does to a session is read off `Run.exec`: the answer, or the fault, and the
session after it. The claims about an operation are triples with one invariant for all sessions,
`Run.Always I x Q`: from a session with `I` the operation ends in a session with `I`, and with an
answer or a fault for which `Q` holds. The invariant is kept on faults too, since the session
outlives them.

An evaluation ends with an outcome, which may leave work for later. `Run.Brings I x Q` looks
through the outcome: `Q` holds of what the work comes to, with a note whether there was any work
to wait for (`Timed`). The rules follow the operations on outcomes (`Run.Brings.andThen`,
`Run.Brings.map`, `Run.Brings.settle`).
-/

namespace Assay

/-- An answer with a note whether it had to be waited for. -/
structure Timed (α : Type) where
  value : α
  waits : Bool

/-- Two steps have an answer when both have. -/
theorem bind_eq_ok {α β : Type} {x : Except Fault α} {f : α → Except Fault β} {b : β} :
    x >>= f = .ok b ↔ ∃ a, x = .ok a ∧ f a = .ok b := by
  cases x with
  | error e => exact ⟨(nomatch ·), by rintro ⟨a, h, -⟩; cases h⟩
  | ok a => exact ⟨fun h => ⟨a, rfl, h⟩, by rintro ⟨a', ⟨⟩, h⟩; exact h⟩

theorem map_eq_bind_ok {α β : Type} (g : α → β) (x : Except Fault α) :
    x.map g = x >>= fun a => .ok (g a) := by
  cases x <;> rfl

/-- Changing the answer of two steps is changing the answer of the second. -/
theorem map_bind_except {α β γ : Type} (g : β → γ) (x : Except Fault α) (f : α → Except Fault β) :
    (x >>= f).map g = x >>= fun a => (f a).map g := by
  cases x <;> rfl

namespace Run

variable {α β : Type}

/-! ## Executions -/

/-- What an operation answers in a session, and the session after it. -/
def exec (x : Run α) (σ : Session) : Except Fault α × Session := x.run.run σ

@[simp] theorem exec_pure (a : α) (σ : Session) : (pure a : Run α).exec σ = (.ok a, σ) := rfl

@[simp] theorem exec_throw (e : Fault) (σ : Session) :
    (throw e : Run α).exec σ = (.error e, σ) := rfl

theorem exec_bind (x : Run α) (f : α → Run β) (σ : Session) :
    (x >>= f).exec σ = match x.exec σ with
      | (.ok a, τ) => (f a).exec τ
      | (.error e, τ) => (.error e, τ) := by
  show (ExceptT.bindCont f (x.exec σ).1).run (x.exec σ).2 = _
  rcases x.exec σ with ⟨e | a, τ⟩ <;> rfl

theorem exec_map (f : α → β) (x : Run α) (σ : Session) :
    (f <$> x).exec σ = ((x.exec σ).1.map f, (x.exec σ).2) := by
  rw [map_eq_pure_bind, exec_bind]
  rcases x.exec σ with ⟨e | a, τ⟩ <;> rfl

@[simp] theorem exec_get (σ : Session) : (get : Run Session).exec σ = (.ok σ, σ) := rfl

@[simp] theorem exec_modify (f : Session → Session) (σ : Session) :
    (modify f : Run Unit).exec σ = (.ok (), f σ) := rfl

@[simp] theorem exec_freshRef (σ : Session) :
    freshRef.exec σ = (.ok (numberIn σ.lane σ.nextRef), { σ with nextRef := σ.nextRef + 1 }) := rfl

@[simp] theorem exec_refuse (cause : DefinitionError) (σ : Session) :
    (refuse cause : Run α).exec σ = (.error (.definition cause), σ) := rfl

@[simp] theorem exec_lift (e : Except Fault α) (σ : Session) : (Run.lift e).exec σ = (e, σ) := by
  cases e <;> rfl

@[simp] theorem exec_ofOption (fault : Fault) (o : Option α) (σ : Session) :
    (ofOption fault o).exec σ = (o.elim (.error fault) .ok, σ) := by
  cases o <;> rfl

@[simp] theorem exec_attempt (x : Run α) (σ : Session) :
    (attempt x).exec σ = (.ok (x.exec σ).1, (x.exec σ).2) := rfl

theorem exec_inLane (lane : Nat) (x : Run α) (σ : Session) :
    (inLane lane x).exec σ = ((x.exec { σ with lane := lane, nextRef := 0 }).1,
      { (x.exec { σ with lane := lane, nextRef := 0 }).2 with
        lane := σ.lane, nextRef := σ.nextRef }) := rfl

/-! ## Triples -/

/-- The operation keeps the invariant, and what it comes to satisfies `Q`. -/
def Always (I : Session → Prop) (x : Run α) (Q : Except Fault α → Prop) : Prop :=
  ∀ σ, I σ → I (x.exec σ).2 ∧ Q (x.exec σ).1

variable {I : Session → Prop}

namespace Always

variable {x : Run α} {Q R : Except Fault α → Prop}

theorem mono (h : x.Always I Q) (hQ : ∀ e, Q e → R e) : x.Always I R :=
  fun σ hσ => ⟨(h σ hσ).1, hQ _ (h σ hσ).2⟩

theorem and (h : x.Always I Q) (h' : x.Always I R) : x.Always I (fun e => Q e ∧ R e) :=
  fun σ hσ => ⟨(h σ hσ).1, (h σ hσ).2, (h' σ hσ).2⟩

theorem pure {a : α} (h : Q (.ok a)) : (Pure.pure a : Run α).Always I Q :=
  fun _ hσ => ⟨hσ, h⟩

theorem throw {e : Fault} (h : Q (.error e)) : (MonadExcept.throw e : Run α).Always I Q :=
  fun _ hσ => ⟨hσ, h⟩

/-- The rule of sequence: the second operation starts from an answer of the first. -/
theorem bind {f : α → Run β} {S : Except Fault β → Prop} (hx : x.Always I Q)
    (hf : ∀ a, Q (.ok a) → (f a).Always I S) (he : ∀ e, Q (.error e) → S (.error e)) :
    (x >>= f).Always I S := by
  intro σ hσ
  obtain ⟨hτ, hQ⟩ := hx σ hσ
  rw [exec_bind]
  rcases h : x.exec σ with ⟨e | a, τ⟩ <;> rw [h] at hτ hQ
  · exact ⟨hτ, he e hQ⟩
  · exact hf a hQ τ hτ

theorem map {f : α → β} {S : Except Fault β → Prop} (hx : x.Always I Q)
    (hf : ∀ a, Q (.ok a) → S (.ok (f a))) (he : ∀ e, Q (.error e) → S (.error e)) :
    (f <$> x).Always I S := by
  rw [map_eq_pure_bind]
  exact hx.bind (fun a ha => .pure (hf a ha)) he

theorem lift {e : Except Fault α} (h : Q e) : (Run.lift e).Always I Q := by
  intro σ hσ
  rw [exec_lift]
  exact ⟨hσ, h⟩

/-- An operation that starts by reading the session. -/
theorem reading {f : Session → Run α} (h : ∀ σ, I σ → (f σ).Always I Q) :
    (get >>= f).Always I Q :=
  fun σ hσ => h σ hσ σ hσ

/-- An operation that starts by changing the session. -/
theorem changing {f : Session → Session} {y : Unit → Run α} (hI : ∀ σ, I σ → I (f σ))
    (h : (y ()).Always I Q) : (modify f >>= y).Always I Q :=
  fun σ hσ => h (f σ) (hI σ hσ)

/-- A fault that is caught is an answer. -/
theorem attempt (hx : x.Always I Q) :
    (Run.attempt x).Always I fun e => ∃ a, e = .ok a ∧ Q a :=
  fun σ hσ => ⟨(hx σ hσ).1, _, rfl, (hx σ hσ).2⟩

end Always

/-- The operation keeps the invariant. -/
abbrev Keeps (I : Session → Prop) (x : Run α) : Prop := x.Always I fun _ => True

namespace Keeps

variable {x : Run α}

theorem of_always {Q : Except Fault α → Prop} (h : x.Always I Q) : x.Keeps I :=
  h.mono fun _ _ => trivial

theorem pure {a : α} : (Pure.pure a : Run α).Keeps I := Always.pure trivial

theorem throw {e : Fault} : (MonadExcept.throw e : Run α).Keeps I := Always.throw trivial

theorem lift {e : Except Fault α} : (Run.lift e).Keeps I := Always.lift trivial

theorem bind {f : α → Run β} (hx : x.Keeps I) (hf : ∀ a, (f a).Keeps I) : (x >>= f).Keeps I :=
  Always.bind hx (fun a _ => hf a) fun _ _ => trivial

theorem map {f : α → β} (hx : x.Keeps I) : (f <$> x).Keeps I :=
  Always.map hx (fun _ _ => trivial) fun _ _ => trivial

theorem ofOption {fault : Fault} {o : Option α} : (Run.ofOption fault o).Keeps I := by
  cases o with
  | none => exact throw
  | some a => exact pure

end Keeps

/-! ## Answers that do not vary -/

/-- What an operation answers in a session. -/
def answer (x : Run α) (σ : Session) : Except Fault α := (x.exec σ).1

theorem answer_map (f : α → β) (x : Run α) (σ : Session) :
    (f <$> x).answer σ = (x.answer σ).map f := by
  rw [answer, exec_map, answer]

/-- The operation has the same answer in all sessions of the invariant. -/
abbrev Gives (I : Session → Prop) (x : Run α) (e : Except Fault α) : Prop :=
  x.Always I fun e' => e' = e

/-- The operation has an answer that does not vary. -/
def Fixed (I : Session → Prop) (x : Run α) : Prop := ∃ e, x.Gives I e

namespace Gives

variable {x : Run α}

theorem pure {a : α} : (Pure.pure a : Run α).Gives I (.ok a) := Always.pure rfl

theorem throw {e : Fault} : (MonadExcept.throw e : Run α).Gives I (.error e) := Always.throw rfl

theorem lift {e : Except Fault α} : (Run.lift e).Gives I e := Always.lift rfl

theorem bind {f : α → Run β} {e : Except Fault α} {k : α → Except Fault β} (hx : x.Gives I e)
    (hf : ∀ a, e = .ok a → (f a).Gives I (k a)) : (x >>= f).Gives I (e >>= k) := by
  refine Always.bind hx (fun a ha => ?_) fun f hf => ?_
  · rw [← ha]
    exact hf a ha.symm
  · rw [← hf]
    rfl

theorem map {f : α → β} {e : Except Fault α} (hx : x.Gives I e) :
    (f <$> x).Gives I (e.map f) := by
  rw [map_eq_pure_bind, map_eq_bind_ok]
  exact hx.bind fun _ _ => pure

/-- Going on from the answer. -/
theorem next_ok {f : α → Run β} {a : α} {e : Except Fault β} (hx : x.Gives I (.ok a))
    (hf : (f a).Gives I e) : (x >>= f).Gives I e :=
  hx.bind (k := fun _ => e) (by rintro _ ⟨⟩; exact hf)

/-- Going on from an answer that stands for another. -/
theorem next {γ : Type} {m : Except Fault γ} {g : γ → α} {f : α → Run β}
    {k : γ → Except Fault β} (hx : x.Gives I (m.map g))
    (hf : ∀ c, m = .ok c → (f (g c)).Gives I (k c)) : (x >>= f).Gives I (m >>= k) := by
  cases m with
  | error e => exact hx.bind (k := fun _ => .error e) fun a ha => nomatch ha
  | ok c => exact hx.bind (k := fun _ => k c) fun a ha => by cases ha; exact hf c rfl

theorem answer {e : Except Fault α} (hx : x.Gives I e) {σ : Session} (hσ : I σ) :
    x.answer σ = e :=
  (hx σ hσ).2

theorem fixed {e : Except Fault α} (hx : x.Gives I e) : x.Fixed I := ⟨e, hx⟩

end Gives

namespace Fixed

variable {x : Run α}

theorem gives (hx : x.Fixed I) {σ : Session} (hσ : I σ) : x.Gives I (x.answer σ) := by
  obtain ⟨e, he⟩ := hx
  rw [he.answer hσ]
  exact he

theorem keeps (hx : x.Fixed I) : x.Keeps I :=
  let ⟨_, he⟩ := hx
  .of_always he

theorem pure {a : α} : (Pure.pure a : Run α).Fixed I := ⟨_, Gives.pure⟩

theorem throw {e : Fault} : (MonadExcept.throw e : Run α).Fixed I := ⟨_, Gives.throw⟩

theorem lift {e : Except Fault α} : (Run.lift e).Fixed I := ⟨_, Gives.lift⟩

theorem bind {f : α → Run β} (hx : x.Fixed I) (hf : ∀ a, (f a).Fixed I) :
    (x >>= f).Fixed I := by
  obtain ⟨e, he⟩ := hx
  exact ⟨e >>= fun a => (hf a).choose, he.bind fun a _ => (hf a).choose_spec⟩

/-- The answer of a sequence takes an answer of each operation. -/
theorem bind_answer {f : α → Run β} {σ : Session} (hσ : I σ) (hx : x.Fixed I)
    (hf : ∀ a, x.answer σ = .ok a → (f a).Fixed I) :
    (x >>= f).answer σ = x.answer σ >>= fun a => (f a).answer σ :=
  ((hx.gives hσ).bind fun a ha => (hf a ha).gives hσ).answer hσ

theorem map {f : α → β} (hx : x.Fixed I) : (f <$> x).Fixed I := by
  rw [map_eq_pure_bind]
  exact hx.bind fun _ => pure

theorem ofOption {fault : Fault} {o : Option α} : (Run.ofOption fault o).Fixed I := by
  cases o with
  | none => exact throw
  | some a => exact pure

end Fixed

end Run

/-! ## Outcomes -/

/-- The outcome leaves work for later. -/
def Outcome.waits {α : Type} : Outcome α → Bool
  | .ready _ => false
  | .later _ => true

/-- What is there now satisfies `Q`, or else what the work that is left comes to. -/
def Outcome.Brings {α : Type} (I : Session → Prop) (Q : Except Fault (Timed α) → Prop) :
    Outcome α → Prop
  | .ready a => Q (.ok ⟨a, false⟩)
  | .later work => work.Always I fun e => Q (e.map (⟨·, true⟩))

/-- The operation keeps the invariant, now and later, and what its outcome comes to satisfies
`Q`. -/
def Run.Brings {α : Type} (I : Session → Prop) (x : Run (Outcome α))
    (Q : Except Fault (Timed α) → Prop) : Prop :=
  x.Always I fun
    | .ok o => o.Brings I Q
    | .error e => Q (.error e)

section

variable {α β : Type} {I : Session → Prop} {Q R : Except Fault (Timed α) → Prop}

theorem Outcome.brings_later {work : Run α} :
    (Outcome.later work).Brings I Q ↔ work.Always I fun e => Q (e.map (⟨·, true⟩)) := Iff.rfl

theorem Outcome.Brings.mono {o : Outcome α} (h : o.Brings I Q) (hQ : ∀ e, Q e → R e) :
    o.Brings I R := by
  cases o with
  | ready a => exact hQ _ h
  | later work => exact (Outcome.brings_later.1 h).mono fun _ he => hQ _ he

theorem Outcome.Brings.and {o : Outcome α} (h : o.Brings I Q) (h' : o.Brings I R) :
    o.Brings I fun e => Q e ∧ R e := by
  cases o with
  | ready a => exact ⟨h, h'⟩
  | later work => exact (Outcome.brings_later.1 h).and (Outcome.brings_later.1 h')

theorem Outcome.Brings.map {o : Outcome α} {f : α → β} {S : Except Fault (Timed β) → Prop}
    (h : o.Brings I Q) (hf : ∀ t, Q (.ok t) → S (.ok ⟨f t.value, t.waits⟩))
    (he : ∀ e, Q (.error e) → S (.error e)) : (o.map f).Brings I S := by
  cases o with
  | ready a => exact hf _ h
  | later work =>
    refine Outcome.brings_later.2 ((Outcome.brings_later.1 h).map (fun a ha => ?_) fun e hq => ?_)
    · exact hf ⟨a, true⟩ ha
    · exact he e hq

/-- Waiting for an outcome. -/
theorem Outcome.Brings.settle {o : Outcome α} (h : o.Brings I Q) :
    o.settle.Always I fun e => Q (e.map (⟨·, o.waits⟩)) := by
  cases o with
  | ready a => exact .pure h
  | later work => exact Outcome.brings_later.1 h

namespace Run.Brings

variable {x : Run (Outcome α)}

theorem mono (h : x.Brings I Q) (hQ : ∀ e, Q e → R e) : x.Brings I R :=
  Always.mono h fun
    | .ok _, ho => ho.mono hQ
    | .error _, he => hQ _ he

theorem and (h : x.Brings I Q) (h' : x.Brings I R) : x.Brings I fun e => Q e ∧ R e :=
  (Always.and h h').mono fun
    | .ok _, ho => ho.1.and ho.2
    | .error _, he => he

theorem ready {a : α} (h : Q (.ok ⟨a, false⟩)) :
    (pure (.ready a) : Run (Outcome α)).Brings I Q :=
  .pure h

theorem throw {e : Fault} (h : Q (.error e)) :
    (MonadExcept.throw e : Run (Outcome α)).Brings I Q :=
  Always.throw h

/-- Work that is left for later. -/
theorem later {work : Run α} (h : work.Always I fun e => Q (e.map (⟨·, true⟩))) :
    (pure (.later work) : Run (Outcome α)).Brings I Q :=
  .pure h

/-- An evaluation after an operation that does not wait. -/
theorem bind {y : Run β} {P : Except Fault β → Prop} {f : β → Run (Outcome α)}
    (hy : y.Always I P) (hf : ∀ b, P (.ok b) → (f b).Brings I Q)
    (he : ∀ e, P (.error e) → Q (.error e)) : (y >>= f).Brings I Q :=
  Always.bind hy hf he

/-- What is done with an outcome once there is one. -/
theorem bindOutcome {f : Outcome α → Run (Outcome β)} {S : Except Fault (Timed β) → Prop}
    (h : x.Brings I Q) (hf : ∀ o, o.Brings I Q → (f o).Brings I S)
    (he : ∀ e, Q (.error e) → S (.error e)) : (x >>= f).Brings I S :=
  Always.bind h hf he

theorem map {f : α → β} {S : Except Fault (Timed β) → Prop} (h : x.Brings I Q)
    (hf : ∀ t, Q (.ok t) → S (.ok ⟨f t.value, t.waits⟩)) (he : ∀ e, Q (.error e) → S (.error e)) :
    (do return (← x).map f : Run (Outcome β)).Brings I S :=
  h.bindOutcome (fun _ ho => .pure (ho.map hf he)) he

/-- An operation of which nothing is asked. -/
theorem anything : x.Brings (fun _ => True) fun _ => True := by
  intro σ _
  refine ⟨trivial, ?_⟩
  rcases (x.exec σ).1 with e | o
  · trivial
  · cases o with
    | ready a => trivial
    | later work => exact fun _ _ => ⟨trivial, trivial⟩

/-- What an operation comes to that starts in a session of the invariant and is awaited in one. -/
theorem of_exec_in {P : α → Prop} (h : x.Brings I fun e => ∀ t, e = .ok t → P t.value)
    {o : Outcome α} {a : α} {σ ρ τ υ : Session} (hσ : I σ) (hτ : I τ)
    (ho : x.exec σ = (.ok o, ρ)) (ha : o.settle.exec τ = (.ok a, υ)) : P a := by
  have hbrings := (h σ hσ).2
  rw [ho] at hbrings
  cases o with
  | ready b =>
    cases ha
    exact hbrings ⟨a, false⟩ rfl
  | later work =>
    have hwork := ((Outcome.brings_later.1 hbrings) τ hτ).2
    rw [show work.exec τ = (.ok a, υ) from ha] at hwork
    exact hwork ⟨a, true⟩ rfl

/-- What an operation comes to when its outcome is awaited at last. -/
theorem of_exec {P : α → Prop} (h : x.Brings (fun _ => True) fun e => ∀ t, e = .ok t → P t.value)
    {o : Outcome α} {a : α} {σ ρ τ : Session} (ho : x.exec σ = (.ok o, ρ))
    (ha : o.settle.exec ρ = (.ok a, τ)) : P a :=
  of_exec_in h trivial trivial ho ha

/-- Waiting for what an operation leaves. -/
theorem settle (h : x.Brings I Q) :
    (do (← x).settle : Run α).Always I fun e => ∃ w, Q (e.map (⟨·, w⟩)) :=
  Always.bind h (fun o ho => ho.settle.mono fun _ he => ⟨o.waits, he⟩) fun _ he => ⟨false, he⟩

end Run.Brings

/-- Going on from an outcome: it waits if either part does. -/
theorem Outcome.Brings.andThen {o : Outcome α} {next : α → Run (Outcome β)}
    {S : Except Fault (Timed β) → Prop} (h : o.Brings I Q)
    (hn : ∀ t, Q (.ok t) → (next t.value).Brings I
      fun e => S (e.map fun u => ⟨u.value, t.waits || u.waits⟩))
    (he : ∀ e, Q (.error e) → S (.error e)) : (o.andThen next).Brings I S := by
  cases o with
  | ready a =>
    refine (hn ⟨a, false⟩ h).mono fun e hS => ?_
    cases e with
    | error e => exact hS
    | ok u => simpa [Except.map] using hS
  | later work =>
    refine .later ((Outcome.brings_later.1 h).bind (fun a ha => ?_) he)
    refine (hn ⟨a, true⟩ ha).settle.mono fun e => ?_
    rintro ⟨w, hS⟩
    cases e with
    | error e => exact hS
    | ok b => simpa [Except.map] using hS

/-- The same, for an operation that leaves the outcome. -/
theorem Run.Brings.andThen {x : Run (Outcome α)} {next : α → Run (Outcome β)}
    {S : Except Fault (Timed β) → Prop} (h : x.Brings I Q)
    (hn : ∀ t, Q (.ok t) → (next t.value).Brings I
      fun e => S (e.map fun u => ⟨u.value, t.waits || u.waits⟩))
    (he : ∀ e, Q (.error e) → S (.error e)) : (do (← x).andThen next).Brings I S :=
  h.bindOutcome (fun _ ho => ho.andThen hn he) he

end

end Assay
