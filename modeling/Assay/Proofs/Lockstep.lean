import Assay.Evaluate.Parse
import Assay.Proofs.Ample
import Mathlib.Data.List.Forall2

/-!
# Operations in lockstep

Some sessions go together (`Pace`). Two operations go in lockstep when, started in sessions that go
together, they come to matching answers and leave sessions that go together (`Run.Lockstep`);
evaluations, when so does the work that they leave for later (`Run.Abreast`). An operation in
lockstep with itself is steady. Evaluations of several positions, of options and of checks go in
lockstep when those of each do, whatever the order in which they complete.
-/

namespace Assay

open Run

/-- Which sessions go together, and whether operations that start there may run out of levels. -/
structure Pace where
  together : Session → Session → Prop
  deep : Prop

/-- Each session of an invariant goes with itself only, and levels suffice. -/
def Pace.alone (I : Session → Prop) : Pace := ⟨fun σ τ => σ = τ ∧ I σ, False⟩

variable {α β : Type} {p : Pace}

/-! ## Operations -/

/-- Both answer with what is related, or both end with the same fault. -/
def Matches (p : Pace) (R : α → α → Prop) : Except Fault α → Except Fault α → Prop
  | .ok a, .ok b => R a b
  | .error e, .error f => e = f ∧ (e = .tooDeep → p.deep)
  | _, _ => False

theorem Matches.eq {a b : Except Fault α} (h : Matches p Eq a b) : a = b := by
  rcases a with e | a <;> rcases b with f | b
  · rw [h.1]
  · exact h.elim
  · exact h.elim
  · rw [show a = b from h]

/-- From sessions that go together the operations lead to sessions that do, with matching
answers. -/
def Run.Lockstep (p : Pace) (R : α → α → Prop) (x y : Run α) : Prop :=
  ∀ σ τ, p.together σ τ →
    p.together (x.exec σ).2 (y.exec τ).2 ∧ Matches p R (x.exec σ).1 (y.exec τ).1

/-- The operation does not tell sessions that go together apart. -/
abbrev Run.Steady (p : Pace) (x : Run α) : Prop := x.Lockstep p Eq x

namespace Run.Lockstep

variable {R : α → α → Prop} {S : β → β → Prop} {x y : Run α}

theorem pure {a b : α} (h : R a b) : (Pure.pure a : Run α).Lockstep p R (Pure.pure b) :=
  fun _ _ ht => ⟨ht, h⟩

theorem throw {e : Fault} (h : e = .tooDeep → p.deep) :
    (MonadExcept.throw e : Run α).Lockstep p R (MonadExcept.throw e) :=
  fun _ _ ht => ⟨ht, rfl, h⟩

theorem bind {f g : α → Run β} (h : x.Lockstep p R y)
    (hf : ∀ a b, R a b → (f a).Lockstep p S (g b)) : (x >>= f).Lockstep p S (y >>= g) := by
  intro σ τ ht
  obtain ⟨hafter, hmatches⟩ := h σ τ ht
  rw [exec_bind, exec_bind]
  rcases hx : x.exec σ with ⟨e | a, σ'⟩ <;> rcases hy : y.exec τ with ⟨f | b, τ'⟩ <;>
    rw [hx, hy] at hafter hmatches
  · exact ⟨hafter, hmatches⟩
  · exact hmatches.elim
  · exact hmatches.elim
  · exact hf a b hmatches σ' τ' hafter

/-- Operations that start by reading the session. -/
theorem reading {f g : Session → Run α}
    (h : ∀ σ τ, p.together σ τ → (f σ).Lockstep p R (g τ)) :
    (get >>= f).Lockstep p R (get >>= g) :=
  fun σ τ ht => h σ τ ht σ τ ht

/-- Operations that start by changing the session. -/
theorem changing {f g : Session → Session} {x y : Unit → Run α}
    (hfg : ∀ σ τ, p.together σ τ → p.together (f σ) (g τ)) (h : (x ()).Lockstep p R (y ())) :
    (modify f >>= x).Lockstep p R (modify g >>= y) :=
  fun σ τ ht => h (f σ) (g τ) (hfg σ τ ht)

/-- Operations with the same answer first. -/
theorem next {f g : α → Run β} (h : x.Lockstep p Eq y) (hf : ∀ a, (f a).Lockstep p S (g a)) :
    (x >>= f).Lockstep p S (y >>= g) :=
  bind h fun a _ hab => hab ▸ hf a

/-- The same operation first. -/
theorem after {z : Run β} {f g : β → Run α} (hz : z.Steady p) (h : ∀ b, (f b).Lockstep p R (g b)) :
    (z >>= f).Lockstep p R (z >>= g) :=
  next hz h

theorem map {f g : α → β} (h : x.Lockstep p R y) (hf : ∀ a b, R a b → S (f a) (g b)) :
    (f <$> x).Lockstep p S (g <$> y) := by
  rw [map_eq_pure_bind, map_eq_pure_bind]
  exact h.bind fun a b hab => .pure (hf a b hab)

/-- A fault that is caught is an answer. -/
theorem attempt (h : x.Lockstep p R y) :
    (Run.attempt x).Lockstep p (Matches p R) (Run.attempt y) :=
  fun σ τ ht => h σ τ ht

/-- The answers in sessions that go together are the same. -/
theorem answer_eq (h : x.Lockstep p Eq y) {σ τ : Session} (ht : p.together σ τ) :
    x.answer σ = y.answer τ :=
  (h σ τ ht).2.eq

/-! ### Sessions alone -/

section

variable {I : Session → Prop}

/-- An operation that does not run out of levels. -/
theorem of_ample (h : x.Ample I) : x.Steady (.alone I) := by
  rintro σ τ ⟨rfl, hσ⟩
  obtain ⟨hτ, hample⟩ := h σ hσ
  refine ⟨⟨rfl, hτ⟩, ?_⟩
  cases he : (x.exec σ).1 with
  | error e => exact ⟨rfl, fun h => hample (he.trans (h ▸ rfl))⟩
  | ok a => exact rfl

theorem ample (h : x.Lockstep (.alone I) R y) : x.Ample I := by
  intro σ hσ
  obtain ⟨⟨-, hτ⟩, hmatches⟩ := h σ σ ⟨rfl, hσ⟩
  refine ⟨hτ, fun hdeep => ?_⟩
  rw [hdeep] at hmatches
  cases hy : (y.exec σ).1 with
  | error f =>
    rw [hy] at hmatches
    exact hmatches.2 rfl
  | ok b =>
    rw [hy] at hmatches
    exact hmatches

/-- What the operations do from a session of the invariant is the same. -/
theorem exec_eq (h : x.Lockstep (.alone I) Eq y) {σ : Session} (hσ : I σ) :
    x.exec σ = y.exec σ :=
  Prod.ext (h.answer_eq ⟨rfl, hσ⟩) (h σ σ ⟨rfl, hσ⟩).1.1

/-- The answer that does not vary first. -/
theorem afterGives {z : Run β} {e : Except Fault β} {f g : β → Run α} (hz : z.Gives I e)
    (he : Assay.Ample e) (h : ∀ b, e = .ok b → (f b).Lockstep (.alone I) R (g b)) :
    (z >>= f).Lockstep (.alone I) R (z >>= g) := by
  have hfirst : z.Lockstep (.alone I) (fun b c => b = c ∧ e = .ok b) z := by
    rintro σ τ ⟨rfl, hσ⟩
    obtain ⟨hτ, hanswer⟩ := hz σ hσ
    refine ⟨⟨rfl, hτ⟩, ?_⟩
    rw [hanswer]
    cases e with
    | error f => exact ⟨rfl, fun hf => he (hf ▸ rfl)⟩
    | ok b => exact ⟨rfl, rfl⟩
  exact hfirst.bind fun b _ ⟨hbc, hb⟩ => hbc ▸ h b hb

end

end Run.Lockstep

namespace Run.Steady

variable {x : Run α}

theorem pure {a : α} : (Pure.pure a : Run α).Steady p := Lockstep.pure rfl

theorem throw {e : Fault} (h : e = .tooDeep → p.deep) : (MonadExcept.throw e : Run α).Steady p :=
  Lockstep.throw h

theorem lift {e : Except Fault α} (h : Assay.Ample e) : (Run.lift e).Steady p := by
  cases e with
  | ok a => exact pure
  | error f => exact throw fun hf => absurd (hf ▸ rfl) h

theorem ofOption {fault : Fault} {o : Option α} (h : fault = .tooDeep → p.deep) :
    (Run.ofOption fault o).Steady p := by
  cases o with
  | none => exact throw h
  | some a => exact pure

theorem bind {f : α → Run β} (hx : x.Steady p) (hf : ∀ a, (f a).Steady p) : (x >>= f).Steady p :=
  Lockstep.after hx hf

theorem map {f : α → β} (hx : x.Steady p) : (f <$> x).Steady p :=
  Lockstep.map hx fun _ _ h => congrArg f h

end Run.Steady

/-! ## Outcomes -/

/-- Both are there and the same, or both are left for later and go in lockstep then. -/
def Outcome.Lockstep (p : Pace) : Outcome α → Outcome α → Prop
  | .ready a, .ready b => a = b
  | .later work, .later work' => work.Lockstep p Eq work'
  | _, _ => False

/-- Evaluations go in lockstep, now and later. -/
abbrev Run.Abreast (p : Pace) (x y : Run (Outcome α)) : Prop :=
  x.Lockstep p (Outcome.Lockstep p) y

namespace Outcome.Lockstep

variable {o o' : Outcome α}

theorem settle (h : o.Lockstep p o') : o.settle.Lockstep p Eq o'.settle := by
  cases o <;> cases o'
  · exact .pure h
  · exact h.elim
  · exact h.elim
  · exact h

theorem map (h : o.Lockstep p o') (f : α → β) : (o.map f).Lockstep p (o'.map f) := by
  cases o <;> cases o'
  · exact congrArg f h
  · exact h.elim
  · exact h.elim
  · exact Run.Lockstep.map h fun _ _ hab => congrArg f hab

theorem andThen (h : o.Lockstep p o') {f g : α → Run (Outcome β)}
    (hf : ∀ a, (f a).Abreast p (g a)) : (o.andThen f).Abreast p (o'.andThen g) := by
  cases o <;> cases o'
  · cases h
    exact hf _
  · exact h.elim
  · exact h.elim
  · refine .pure (Run.Lockstep.bind h ?_)
    rintro a _ rfl
    exact (hf a).bind fun _ _ h => h.settle

end Outcome.Lockstep

namespace Run.Abreast

variable {x y : Run (Outcome α)}

theorem ready {a : α} : (pure (.ready a) : Run (Outcome α)).Abreast p (pure (.ready a)) :=
  .pure rfl

theorem map (h : x.Abreast p y) (f : α → β) :
    (do return (← x).map f : Run (Outcome β)).Abreast p (do return (← y).map f) :=
  h.bind fun _ _ ho => .pure (ho.map f)

theorem andThen (h : x.Abreast p y) {f g : α → Run (Outcome β)}
    (hf : ∀ a, (f a).Abreast p (g a)) :
    (do (← x).andThen f : Run (Outcome β)).Abreast p (do (← y).andThen g) :=
  h.bind fun _ _ ho => ho.andThen hf

/-- A pure computation on a result. -/
theorem lift (h : x.Abreast p y) {f : α → Except Fault β} (hf : ∀ a, Assay.Ample (f a)) :
    (do (← x).andThen fun a => do return .ready (← Run.lift (f a)) :
      Run (Outcome β)).Abreast p
      (do (← y).andThen fun a => do return .ready (← Run.lift (f a))) :=
  h.andThen fun a => .after (.lift (hf a)) fun _ => ready

end Run.Abreast

/-! ## Several positions -/

/-- Supplied functions do not tell sessions that go together apart, nor does the order in which
work completes. -/
structure Host.Steady (host : Host) (p : Pace) : Prop where
  run : ∀ f call, (host.run f call).Steady p
  order : ∀ σ τ, p.together σ τ → host.order τ = host.order σ


section

variable {host : Host} {os os' : List (Outcome Result)}

theorem readyAll_eq (h : List.Forall₂ (Outcome.Lockstep p) os os') :
    readyAll os = readyAll os' := by
  induction h with
  | nil => rfl
  | @cons o o' os os' ho _ ih =>
    cases o <;> cases o'
    · cases ho
      rw [readyAll, readyAll, ih]
    · exact ho.elim
    · exact ho.elim
    · rfl

theorem settleAll_lockstep (h : List.Forall₂ (Outcome.Lockstep p) os os') :
    (settleAll os).Lockstep p Eq (settleAll os') := by
  induction h with
  | nil => exact .pure rfl
  | cons ho _ ih =>
    refine ho.settle.attempt.bind fun first first' hfirst =>
      ih.attempt.bind fun rest rest' hrest => ?_
    rcases first with e | r <;> rcases first' with e' | r'
    · obtain ⟨rfl, he⟩ := hfirst
      exact .throw he
    · exact hfirst.elim
    · exact hfirst.elim
    · rcases rest with e | rs <;> rcases rest' with e' | rs'
      · obtain ⟨rfl, he⟩ := hrest
        exact .throw he
      · exact hrest.elim
      · exact hrest.elim
      · cases hfirst
        cases hrest
        exact .pure rfl

theorem forall₂_picked (h : List.Forall₂ (Outcome.Lockstep p) os os') (positions : List Nat) :
    List.Forall₂ (Outcome.Lockstep p) (positions.filterMap (os[·]?))
      (positions.filterMap (os'[·]?)) := by
  have hlength := h.length_eq
  induction positions with
  | nil => exact .nil
  | cons i positions ih =>
    by_cases hi : i < os.length
    · have hi' : i < os'.length := hlength ▸ hi
      rw [List.filterMap_cons, List.filterMap_cons, List.getElem?_eq_getElem hi,
        List.getElem?_eq_getElem hi']
      exact .cons (List.Forall₂.get h hi hi') ih
    · have hi' : ¬ i < os'.length := hlength ▸ hi
      rw [List.filterMap_cons, List.filterMap_cons, List.getElem?_eq_none (Nat.le_of_not_lt hi),
        List.getElem?_eq_none (Nat.le_of_not_lt hi')]
      exact ih

/-- What is waited for together goes in lockstep, whatever the order in which it completes. -/
theorem gather_lockstep (hhost : host.Steady p) (h : List.Forall₂ (Outcome.Lockstep p) os os') :
    (gather host os).Lockstep p (gather host os') := by
  unfold gather
  rw [readyAll_eq h]
  cases readyAll os' with
  | some rs => exact rfl
  | none =>
    refine Run.Lockstep.reading fun σ τ ht => ?_
    rw [h.length_eq, hhost.order σ τ ht]
    exact (settleAll_lockstep (forall₂_picked h _)).bind fun _ _ hrs => .pure (hrs ▸ rfl)

variable {recur recur' : Schema Value → Value → Run (Outcome Result)}

theorem evaluateInOrder_abreast {ps : List (Schema Value × Value)}
    (h : ∀ q ∈ ps, (recur q.1 q.2).Abreast p (recur' q.1 q.2)) :
    (evaluateInOrder recur ps).Abreast p (evaluateInOrder recur' ps) := by
  induction ps with
  | nil => exact .ready
  | cons q ps ih =>
    obtain ⟨hq, hps⟩ := List.forall_mem_cons.1 h
    refine Run.Lockstep.bind hq fun o o' ho => ?_
    cases o <;> cases o'
    · cases ho
      dsimp only
      split
      · exact (ih hps).map _
      · exact Run.Abreast.ready
    · exact ho.elim
    · exact ho.elim
    · refine .pure (Run.Lockstep.bind ho ?_)
      rintro r _ rfl
      split
      · refine Run.Lockstep.bind (ih hps) fun _ _ hrest => hrest.settle.bind ?_
        rintro rs _ rfl
        exact .pure rfl
      · exact .pure rfl

theorem evaluateAll_lockstep {ps : List (Schema Value × Value)}
    (h : ∀ q ∈ ps, (recur q.1 q.2).Abreast p (recur' q.1 q.2)) :
    (evaluateAll recur ps).Lockstep p (List.Forall₂ (Outcome.Lockstep p))
      (evaluateAll recur' ps) := by
  induction ps with
  | nil => exact .pure .nil
  | cons q ps ih =>
    obtain ⟨hq, hps⟩ := List.forall_mem_cons.1 h
    exact Run.Lockstep.bind hq fun _ _ ho => (ih hps).bind fun _ _ hos => .pure (.cons ho hos)

theorem evaluateItems_abreast (hhost : host.Steady p) {ctx : Context}
    {ps : List (Schema Value × Value)} (h : ∀ q ∈ ps, (recur q.1 q.2).Abreast p (recur' q.1 q.2)) :
    (evaluateItems host recur ctx ps).Abreast p (evaluateItems host recur' ctx ps) := by
  unfold evaluateItems
  split
  · exact evaluateInOrder_abreast h
  · exact (evaluateAll_lockstep h).bind fun _ _ hos => .pure (gather_lockstep hhost hos)

/-! ## Options -/

/-- What trying options answers: the same valid result, or outcomes that go in lockstep. -/
def TriesMatch (p : Pace) :
    Except Result (List (Outcome Result)) → Except Result (List (Outcome Result)) → Prop
  | .error r, .error r' => r = r'
  | .ok os, .ok os' => List.Forall₂ (Outcome.Lockstep p) os os'
  | _, _ => False

theorem TriesMatch.cons {t t' : Except Result (List (Outcome Result))} {o o' : Outcome Result}
    (h : TriesMatch p t t') (ho : o.Lockstep p o') :
    TriesMatch p (t.map (o :: ·)) (t'.map (o' :: ·)) := by
  cases t <;> cases t'
  · exact h
  · exact h.elim
  · exact h.elim
  · exact List.Forall₂.cons ho h

theorem tryOptions_lockstep {v : Value} {options : List (Schema Value)}
    (h : ∀ s ∈ options, (recur s v).Abreast p (recur' s v)) (waiting : Bool) :
    (tryOptions recur v waiting options).Lockstep p (TriesMatch p)
      (tryOptions recur' v waiting options) := by
  induction options generalizing waiting with
  | nil => exact .pure .nil
  | cons s rest ih =>
    obtain ⟨hs, hrest⟩ := List.forall_mem_cons.1 h
    refine Run.Lockstep.bind hs fun o o' ho => ?_
    cases o <;> cases o'
    · cases ho
      dsimp only
      split
      · exact .pure rfl
      · exact (ih hrest waiting).bind fun _ _ ht => .pure (ht.cons rfl)
    · exact ho.elim
    · exact ho.elim
    · exact (ih hrest true).bind fun _ _ ht => .pure (ht.cons ho)

theorem evaluateUnion_abreast (hhost : host.Steady p) (s : Schema Value) {v : Value}
    {options : List (Schema Value)} (h : ∀ o ∈ options, (recur o v).Abreast p (recur' o v)) :
    (evaluateUnion host recur s options v).Abreast p (evaluateUnion host recur' s options v) := by
  refine (tryOptions_lockstep h false).bind fun t t' ht => ?_
  cases t <;> cases t'
  · cases ht
    exact Run.Abreast.ready
  · exact ht.elim
  · exact ht.elim
  · exact .pure ((gather_lockstep hhost ht).map _)

end

/-! ## Functions -/

/-- Sessions that go together have the same kinds, configuration, spent pending values and numbers
to come, and go on doing so when a call is noted, a number is given out or a pending value is
spent. -/
structure Pace.Bookkeeping (p : Pace) : Prop where
  kinds : ∀ σ τ, p.together σ τ → τ.kinds = σ.kinds
  config : ∀ σ τ, p.together σ τ → τ.config = σ.config
  spent : ∀ σ τ, p.together σ τ → τ.spent = σ.spent
  numbers : ∀ σ τ, p.together σ τ → numberIn τ.lane τ.nextRef = numberIn σ.lane σ.nextRef
  noting : ∀ σ τ c, p.together σ τ →
    p.together { σ with calls := c :: σ.calls } { τ with calls := c :: τ.calls }
  numbering : ∀ σ τ, p.together σ τ →
    p.together { σ with nextRef := σ.nextRef + 1 } { τ with nextRef := τ.nextRef + 1 }
  spending : ∀ σ τ r, p.together σ τ →
    p.together { σ with spent := r :: σ.spent } { τ with spent := r :: τ.spent }

theorem Pace.alone_bookkeeping {I : Session → Prop} (hI : Assay.Bookkeeping I) :
    (Pace.alone I).Bookkeeping where
  kinds σ _ ht := by rw [ht.1]
  config σ _ ht := by rw [ht.1]
  spent σ _ ht := by rw [ht.1]
  numbers σ _ ht := by rw [ht.1]
  noting σ _ c ht := ⟨by rw [ht.1], hI.calls σ c ht.2⟩
  numbering σ _ ht := ⟨by rw [ht.1], hI.refs σ _ ht.2⟩
  spending σ _ r ht := ⟨by rw [ht.1], hI.spent σ r ht.2⟩

theorem Host.Ample.steady {host : Host} {I : Session → Prop} (h : host.Ample I) :
    host.Steady (.alone I) where
  run f call := .of_ample (h f call)
  order σ _ ht := by rw [ht.1]

namespace Pace.Bookkeeping

variable (hp : p.Bookkeeping)
include hp

theorem freshRef_steady : Run.freshRef.Steady p :=
  fun σ τ ht => ⟨hp.numbering σ τ ht, (hp.numbers σ τ ht).symm⟩

theorem floatOf_steady (s : String) : (ClassRef.floatOf s).Steady p := by
  unfold ClassRef.floatOf
  split
  · exact .pure
  · exact .pure
  · exact hp.freshRef_steady.bind fun _ => .pure
  · exact .throw nofun

theorem toFloat_steady (v : Value) : (ClassRef.toFloat v).Steady p := by
  unfold ClassRef.toFloat
  split
  · exact .pure
  · exact .pure
  · exact hp.floatOf_steady _
  · exact hp.floatOf_steady _
  · split
    · dsimp only
      split
      · exact .pure
      · exact .throw nofun
    · exact .throw nofun

omit hp in
theorem toInt_steady (v : Value) : (ClassRef.toInt v).Steady p := by
  unfold ClassRef.toInt
  split
  · exact .pure
  · exact .pure
  · split
    · exact .pure
    · exact .throw nofun
  · exact .throw nofun
  · exact .ofOption nofun
  · exact .ofOption nofun
  · exact .throw nofun

theorem convert_steady (c : ClassRef Value) (v : Value) : (c.convert v).Steady p := by
  unfold ClassRef.convert
  split
  · exact toInt_steady v
  · exact .pure
  · exact hp.toFloat_steady v
  · exact .pure
  · exact .ofOption (by rintro ⟨⟩)
  · exact .ofOption (by rintro ⟨⟩)
  · split
    · split
      · exact .pure
      · exact .throw (by rintro ⟨⟩)
    · exact .throw (by rintro ⟨⟩)
  · exact .lift (toDict_ample v)
  · exact .lift (toBytes_ample v)
  · exact .throw (by rintro ⟨⟩)
  · split
    · split
      · exact .pure
      · exact .throw (by rintro ⟨⟩)
    · split
      · exact .pure
      · exact .throw (by rintro ⟨⟩)

theorem start_steady (c : ClassRef Value) : c.start.Steady p := by
  cases c with
  | builtin t => cases t <;> exact .pure
  | object name => exact hp.freshRef_steady.bind fun _ => .pure
  | enumeration c => exact .throw nofun

theorem callClass_steady (c : ClassRef Value) (call : Call Value) : (c.call call).Steady p := by
  unfold ClassRef.call
  split
  · exact hp.start_steady c
  · exact hp.convert_steady c _
  · exact .throw nofun

end Pace.Bookkeeping

section

variable {host : Host} {ctx : Context} (hp : p.Bookkeeping) (hhost : host.Steady p)
include hp hhost

namespace Host

omit hhost in
theorem note_steady (f : Callable Value) (call : Call Value) : (host.note f call).Steady p := by
  unfold note
  split
  · exact .pure
  · exact fun σ τ ht => ⟨hp.noting σ τ _ ht, rfl⟩

theorem invoke_abreast (f : Callable Value) (call : Call Value) :
    (host.invoke f call).Abreast p (host.invoke f call) := by
  unfold invoke
  split
  · exact .throw nofun
  · refine .after (note_steady hp f call) fun _ => ?_
    split
    · exact .pure (hhost.run f call)
    · exact .after (hhost.run f call) fun _ => Run.Abreast.ready

theorem start_abreast (fn : Value) (call : Call Value) :
    (host.start fn call).Abreast p (host.start fn call) := by
  unfold start
  split
  · exact invoke_abreast hp hhost _ call
  · exact .after (.lift (builtin_ample _ call)) fun _ => Run.Abreast.ready
  · exact .after (hp.callClass_steady _ call) fun _ => Run.Abreast.ready
  · exact .throw nofun

theorem call_steady (fn : Value) (call : Call Value) : (host.call fn call).Steady p := by
  refine (start_abreast hp hhost fn call).bind fun o o' ho => ?_
  cases o <;> cases o'
  · cases ho
    exact .pure rfl
  · exact ho.elim
  · exact ho.elim
  · cases fn with
    | callable f => exact .after hp.freshRef_steady fun _ => .pure rfl
    | _ => exact ho

theorem await_steady (ref : Nat) (source : Pending Value) : (host.await ref source).Steady p := by
  refine .reading fun σ τ ht => ?_
  rw [hp.spent σ τ ht]
  split
  · exact .throw nofun
  · refine .changing (fun σ τ ht => hp.spending σ τ ref ht) ?_
    cases source with
    | promised v => exact .pure rfl
    | calling f call => exact .map (hhost.run f call) fun _ _ h => congrArg Result.value h

theorem callAwaiting_abreast (kind fn : Value) (call : Call Value) :
    (host.callAwaiting ctx kind fn call).Abreast p (host.callAwaiting ctx kind fn call) := by
  refine (start_abreast hp hhost fn call).bind fun o o' ho => ?_
  cases o <;> cases o'
  · cases ho
    dsimp only
    split
    · split
      · exact .pure (.bind (await_steady hp hhost _ _) fun _ _ h => h ▸ .pure rfl)
      · exact .changing (fun σ τ ht => hp.spending σ τ _ ht) (.throw nofun)
    · exact Run.Abreast.ready
  · exact ho.elim
  · exact ho.elim
  · dsimp only
    split
    · exact .pure ho
    · exact .throw nofun

end Host

/-! ## Words -/

namespace Resolution

theorem consult_steady (provider : Value) (i : Issue Value) :
    (consult host provider i).Steady p := by
  unfold consult
  split
  · exact .pure
  · exact .pure
  · exact .bind (Host.call_steady hp hhost _ _) fun _ => .pure

theorem firstOffer_steady (i : Issue Value) (ps : List Value) :
    (firstOffer host i ps).Steady p := by
  induction ps with
  | nil => exact .pure
  | cons provider ps ih =>
    refine .bind (consult_steady hp hhost provider i) fun o => ?_
    cases o with
    | none => exact ih
    | some s => exact .pure

end Resolution

end

namespace Resolution

variable {host : Host} {ctx : Context} {config : Config}

mutual

theorem finalizeOne_steady (h : ∀ i ps, (firstOffer host i ps).Steady p) : (i : Issue Value) →
    (finalizeOne host ctx config i).Steady p
  | ⟨path, text, input, source, detail⟩ => by
    have hdetail := finalizeDetail_steady h detail
    unfold finalizeOne
    split
    · exact .bind (.map (h _ _)) fun w => .bind hdetail fun d => .pure
    · exact .bind .pure fun w => .bind hdetail fun d => .pure
termination_by structural x => x

theorem finalizeDetail_steady (h : ∀ i ps, (firstOffer host i ps).Steady p) :
    (d : Detail Value (Issue Value)) → (finalizeDetail host ctx config d).Steady p
  | .invalidUnion groups .. => .bind (finalizeGroups_steady h groups) fun _ => .pure
  | .invalidKey _ issues => .bind (finalize_steady h issues) fun _ => .pure
  | .invalidElement _ _ issues => .bind (finalize_steady h issues) fun _ => .pure
  | .unspecified | .invalidType .. | .tooBig .. | .tooSmall .. | .invalidFormat ..
  | .notMultipleOf .. | .unrecognizedKeys .. | .invalidValue .. | .custom .. => .pure
termination_by structural x => x

theorem finalize_steady (h : ∀ i ps, (firstOffer host i ps).Steady p) :
    (is : List (Issue Value)) → (finalize host ctx config is).Steady p
  | [] => .pure
  | i :: is => .bind (finalizeOne_steady h i) fun _ => .bind (finalize_steady h is) fun _ => .pure
termination_by structural x => x

theorem finalizeGroups_steady (h : ∀ i ps, (firstOffer host i ps).Steady p) :
    (gs : List (List (Issue Value))) → (finalizeGroups host ctx config gs).Steady p
  | [] => .pure
  | g :: gs =>
    .bind (finalize_steady h g) fun _ => .bind (finalizeGroups_steady h gs) fun _ => .pure
termination_by structural x => x

end

theorem finalizeActive_steady (hp : p.Bookkeeping) (hhost : host.Steady p)
    (is : List (Issue Value)) : (finalizeActive host ctx is).Steady p := by
  refine .reading fun σ τ ht => ?_
  rw [hp.config σ τ ht]
  exact finalize_steady (firstOffer_steady hp hhost) is

end Resolution

/-! ## Checks -/

theorem issueParameters_steady (params : Value) : (issueParameters params).Steady p := by
  unfold issueParameters
  split
  · exact .lift (toDict_ample params)
  · exact .pure

section

variable {host : Host} {ctx : Context} (hp : p.Bookkeeping) (hhost : host.Steady p)
include hp hhost

theorem runCheck_abreast (c v : Value) :
    (runCheck host ctx c v).Abreast p (runCheck host ctx c v) := by
  cases c with
  | check c =>
    have hrule (rule : Rule Value) :
        (do return .ready (Result.of v (.check c) (← Run.lift (rule.verdict v))) :
          Run (Outcome Result)).Abreast p
          (do return .ready (Result.of v (.check c) (← Run.lift (rule.verdict v)))) :=
      .after (.lift (verdict_ample rule v)) fun _ => Run.Abreast.ready
    dsimp only [runCheck, Check.run]
    cases c.rule with
    | overwrite fn name => exact .after (Host.call_steady hp hhost _ _) fun _ => Run.Abreast.ready
    | refinement fn path params =>
      refine (Host.callAwaiting_abreast hp hhost _ _ _).andThen fun r => ?_
      split
      · exact Run.Abreast.ready
      · exact .after (issueParameters_steady params) fun _ => Run.Abreast.ready
    | superRefinement fn => exact (Host.callAwaiting_abreast hp hhost _ _ _).map _
    | _ => exact hrule _
  | schema s =>
    dsimp only [runCheck]
    split
    · exact Run.Abreast.ready
    · exact .throw nofun
  | _ => exact .throw nofun

theorem runChecksFrom_abreast (cs : List Value) (r : Result) :
    (runChecksFrom host ctx cs r).Abreast p (runChecksFrom host ctx cs r) := by
  induction cs generalizing r with
  | nil => exact Run.Abreast.ready
  | cons c cs ih =>
    refine (runCheck_abreast hp hhost c r.value).bind fun o o' ho => ?_
    cases o <;> cases o'
    · cases ho
      dsimp only
      split
      · exact Run.Abreast.ready
      · exact ih _
    · exact ho.elim
    · exact ho.elim
    · dsimp only
      split
      · refine .pure (Run.Lockstep.bind ho ?_)
        rintro q _ rfl
        split
        · exact .pure rfl
        · exact (ih _).bind fun _ _ hrest => hrest.settle
      · exact .throw nofun

theorem runChecks_abreast (s : Schema Value) (r : Result) :
    (runChecks host ctx s r).Abreast p (runChecks host ctx s r) := by
  unfold runChecks
  split
  · exact runChecksFrom_abreast hp hhost _ r
  · exact Run.Abreast.ready

/-- The checks of a schema on outcomes that go in lockstep. -/
theorem checkOutcome_abreast (s : Schema Value) {o o' : Outcome Result} (ho : o.Lockstep p o') :
    (checkOutcome host ctx s o).Abreast p (checkOutcome host ctx s o') := by
  cases o <;> cases o'
  · cases ho
    exact runChecks_abreast hp hhost s _
  · exact ho.elim
  · exact ho.elim
  · dsimp only [checkOutcome]
    split
    · refine .pure (Run.Lockstep.bind ho ?_)
      rintro r _ rfl
      exact (runChecks_abreast hp hhost s r).bind fun _ _ hrest => hrest.settle
    · exact .throw nofun

end

end Assay
