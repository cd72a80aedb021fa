import Assay.Proofs.Accord
import Assay.Proofs.Adequacy
import Assay.Proofs.Overlooking

/-!
# Schemas that correspond

Schemas are linked when they have the same kind and checks and forms with matching parts, or are
lazy and stand for such, or when only one of them is lazy, without checks, and stands for what the
other one is linked with (`Linked`). Linked schemas come to the same for every value, behind a mask
(`Meaning.meaning_accord`).
-/

namespace Assay

variable {host : Host} {σ : Session} {lenient : Prop} {m : Value → Value}

/-! ## Checks -/

/-- The rule reports no issues of others. -/
def Rule.isOwn : Rule Value → Bool
  | .superRefinement _ => false
  | _ => true

/-- Checks that differ in numbers only and look the same behind a mask. They report no issues of
others. -/
structure CheckMatch (m : Value → Value) (c c' : Value) : Prop where
  mask : m c = m c'
  alike : c'.unnumbered = c.unnumbered
  own : ∀ d, c = .check d → d.rule.isOwn = true

theorem Value.aborts_unnumbered (c : Value) : c.unnumbered.aborts = c.aborts := by
  cases c with
  | schema s =>
    simp only [unnumbered, aborts, Schema.unnumbered_form]
    cases s.form <;> rfl
  | _ => rfl

theorem Form.verdict_unnumbered (form : Form Value (Schema Value)) (v : Value) :
    form.unnumbered.verdict v = form.verdict v := by
  cases form <;> rfl

namespace CheckMatch

variable {c c' : Value} {ctx : Context} {v : Value}

theorem aborts (h : CheckMatch m c c') : c'.aborts = c.aborts := by
  rw [← c'.aborts_unnumbered, h.alike, c.aborts_unnumbered]

theorem halts {r r' : Result} (h : CheckMatch m c c') (hr : Result.Same m r r') :
    halts ctx c' r' = halts ctx c r := by
  unfold Assay.halts
  rw [hr.valid, h.aborts]

theorem verdict_accord (h : m c = m c') (rule : Rule Value) (v : Value) :
    Accord lenient (Result.Same m) (do return Result.of v c (← rule.verdict v))
      (do return Result.of v c' (← rule.verdict v)) := by
  exact .after fun detail => .of h detail

/-- Checks that match find the same. -/
theorem check_accord (h : CheckMatch m c c') :
    Accord lenient (Result.Same m) (Meaning.check host σ c v) (Meaning.check host σ c' v) := by
  obtain ⟨hmask, halike, hown⟩ := h
  cases c with
  | check d =>
    cases c' with
    | check d' =>
      obtain ⟨id, rule, error, abort⟩ := d
      obtain ⟨id', rule', error', abort'⟩ := d'
      cases halike
      cases rule with
      | overwrite fn name => exact .after fun _ => .ok
      | refinement fn path params =>
        refine .after fun r => ?_
        split
        · exact .ok
        · exact .after fun _ => .intro (.one hmask rfl)
      | superRefinement fn => cases hown _ rfl
      | _ => exact verdict_accord hmask _ v
    | _ => cases halike
  | schema s =>
    cases c' with
    | schema t =>
      have hform : t.form.unnumbered = s.form.unnumbered := by
        rw [← t.unnumbered_form, ← s.unnumbered_form, Value.schema.inj halike]
      unfold Meaning.check
      dsimp only
      rw [← t.form.unnumbered_checkTag?, hform, s.form.unnumbered_checkTag?,
        ← t.form.verdict_unnumbered, hform, s.form.verdict_unnumbered]
      split
      · exact .of hmask _
      · exact .error
    | _ => cases halike
  | _ => cases c' <;> first | exact .error | cases halike

theorem alike_all {cs cs' : List Value} (h : List.Forall₂ (CheckMatch m) cs cs') :
    cs'.map Value.unnumbered = cs.map Value.unnumbered := by
  induction h with
  | nil => rfl
  | cons hc _ ih => rw [List.map_cons, List.map_cons, ih, hc.alike]

/-- Lists of checks that match find the same. -/
theorem checksFrom_accord {cs cs' : List Value} (h : List.Forall₂ (CheckMatch m) cs cs')
    {r r' : Result} (hr : Result.Same m r r') : Accord lenient (Result.Same m)
      (Meaning.checksFrom host σ ctx cs r) (Meaning.checksFrom host σ ctx cs' r') := by
  induction h generalizing r r' with
  | nil => exact hr
  | cons hc _ ih =>
    unfold Meaning.checksFrom
    rw [hr.value]
    refine hc.check_accord.bind fun outcome outcome' hout => ?_
    rw [hc.halts hout]
    split
    · exact hr.merge hout
    · exact ih (hr.merge hout)

end CheckMatch

/-! ## Linked schemas -/

variable {I I' : Session → Prop} {R : Schema Value → Schema Value → Prop} {s t : Schema Value}

/-- The schemas differ in numbers and parts only, and their parts match. Evaluators of further
kinds do not tell them apart. -/
structure Congruent (host : Host) (σ : Session) (lenient : Prop) (m : Value → Value)
    (R : Schema Value → Schema Value → Prop) (s t : Schema Value) : Prop where
  kind : t.kind = s.kind
  extra : t.extra = s.extra
  error : t.error = s.error
  mask : m (.schema s) = m (.schema t)
  checks : List.Forall₂ (CheckMatch m) s.checks t.checks
  evaluators : ∀ fn, σ.kinds.evaluator? s.kind = .ok fn → fn ≠ .builtin .evaluateNode →
    ∀ v, Accord lenient (Result.Same m) (Meaning.evaluator host σ fn s v)
      (Meaning.evaluator host σ fn t v)

/-- The schemas have matching parts, or are lazy, or the first one is: then it has no checks and
stands for what the other one is linked with. -/
inductive Linked (host : Host) (σ : Session) (lenient : Prop) (m : Value → Value)
    (R : Schema Value → Schema Value → Prop) (s t : Schema Value) : Prop
  | parts : Congruent host σ lenient m R s t → s.form.Matches R t.form →
      Linked host σ lenient m R s t
  | lazies {getter name getter' name'} : lenient → Congruent host σ lenient m R s t →
      s.form = .lazy getter name → t.form = .lazy getter' name' →
      (∀ u w, (s.resolve host getter).answer σ = .ok u →
        (t.resolve host getter').answer σ = .ok w → R u w) →
      Linked host σ lenient m R s t
  | unfolds {getter name} : lenient → s.form = .lazy getter name → s.checks = [] →
      (∀ fn, σ.kinds.evaluator? s.kind = .ok fn → fn = .builtin .evaluateNode) →
      (∀ u, (s.resolve host getter).answer σ = .ok u → R u t) →
      Linked host σ lenient m R s t

/-- A form that is a check matches itself only. -/
theorem Form.Matches.checkTag {form form' : Form Value (Schema Value)} (h : form.Matches R form') :
    form' = form ∨ form.checkTag? = none ∧ form'.checkTag? = none := by
  cases h with
  | simple _ => exact .inl rfl
  | _ => exact .inr ⟨rfl, rfl⟩

namespace Congruent

variable {ctx : Context} (h : Congruent host σ lenient m R s t)
include h

/-- All checks match, a schema that is a check among them. -/
theorem allChecks (hform : t.form = s.form ∨ s.form.checkTag? = none ∧ t.form.checkTag? = none) :
    List.Forall₂ (CheckMatch m) s.allChecks t.allChecks := by
  unfold Schema.allChecks
  obtain hform | ⟨hs, ht⟩ := hform
  · rw [hform]
    split
    · refine .cons ⟨h.mask, ?_, nofun⟩ h.checks
      have hchecks := CheckMatch.alike_all h.checks
      rw [← Value.unnumberedAll_eq_map, ← Value.unnumberedAll_eq_map] at hchecks
      have hkind := h.kind
      have hextra := h.extra
      have herror := h.error
      obtain ⟨id, kind, form, extra, checks, error⟩ := s
      obtain ⟨id', kind', form', extra', checks', error'⟩ := t
      dsimp only at *
      rw [Value.unnumbered, Value.unnumbered, Schema.unnumbered, Schema.unnumbered, hchecks, hkind,
        hform, hextra, herror]
    · exact h.checks
  · rw [hs, ht]
    exact h.checks

/-- Schemas come to the same when their forms do. -/
theorem evaluation_accord {thorough : Bool} {fuel fuel' : Nat} {v : Value}
    (hform : t.form = s.form ∨ s.form.checkTag? = none ∧ t.form.checkTag? = none)
    (haccord : Accord lenient (Result.Same m)
      (Meaning.form host σ ctx thorough (meaning host σ ctx thorough fuel) fuel s v)
      (Meaning.form host σ ctx thorough (meaning host σ ctx thorough fuel') fuel' t v)) :
    Accord lenient (Result.Same m) (meaning host σ ctx thorough (fuel + 1) s v)
      (meaning host σ ctx thorough (fuel' + 1) t v) := by
  have hchecks (r r' : Result) (hr : Result.Same m r r') :
      Accord lenient (Result.Same m) (Meaning.checks host σ ctx s r)
        (Meaning.checks host σ ctx t r') := by
    unfold Meaning.checks
    rw [hr.valid]
    split
    · exact CheckMatch.checksFrom_accord (h.allChecks hform) hr
    · exact hr
  have hevaluators := h.evaluators
  unfold meaning
  rw [h.kind]
  cases hkind : σ.kinds.evaluator? s.kind with
  | error e => exact .error
  | ok fn =>
    change Accord lenient _ (_ >>= Meaning.checks host σ ctx s) (_ >>= Meaning.checks host σ ctx t)
    refine Accord.bind ?_ hchecks
    split
    · exact haccord
    · next hfn => exact hevaluators _ hkind (fun heq => hfn heq) v

end Congruent

/-- Families of settled schemas whose related members are linked. -/
structure Correspondence (host : Host) (σ : Session) (lenient : Prop) (m : Value → Value)
    (I I' : Session → Prop) (pool pool' : Schema Value → Prop)
    (R : Schema Value → Schema Value → Prop) : Prop where
  left : Settled host σ I pool
  right : Settled host σ I' pool'
  related : ∀ s t, R s t → pool s ∧ pool' t
  linked : ∀ s t, R s t → Linked host σ lenient m R s t

/-! ## Absence -/

/-- The operations have answers that do not vary and are in accord. -/
def Run.InAccord {α : Type} (I I' : Session → Prop) (lenient : Prop) (x y : Run α) : Prop :=
  ∃ e e', x.Gives I e ∧ y.Gives I' e' ∧ Accord lenient Eq e e'

namespace Run.InAccord

variable {α β : Type} {x y : Run α}

theorem pure {a : α} : InAccord I I' lenient (Pure.pure a) (Pure.pure a) :=
  ⟨_, _, .pure, .pure, rfl⟩

theorem of_answers (hx : x.Fixed I) (hy : y.Fixed I') (hI : I σ) (hI' : I' σ)
    (h : Accord lenient Eq (x.answer σ) (y.answer σ)) : InAccord I I' lenient x y :=
  ⟨_, _, hx.gives hI, hy.gives hI', h⟩

theorem bind {f g : α → Run β} (h : InAccord I I' lenient x y)
    (hf : ∀ a, InAccord I I' lenient (f a) (g a)) :
    InAccord I I' lenient (x >>= f) (y >>= g) := by
  obtain ⟨e, e', hx, hy, he⟩ := h
  refine ⟨e >>= fun a => (hf a).choose, e' >>= fun a => (hf a).choose_spec.choose,
    hx.bind fun a _ => (hf a).choose_spec.choose_spec.1,
    hy.bind fun a _ => (hf a).choose_spec.choose_spec.2.1, he.bind ?_⟩
  rintro a _ rfl
  exact (hf a).choose_spec.choose_spec.2.2

theorem answers (h : InAccord I I' lenient x y) (hI : I σ) (hI' : I' σ) :
    Accord lenient Eq (x.answer σ) (y.answer σ) := by
  obtain ⟨e, e', hx, hy, he⟩ := h
  rw [hx.answer hI, hy.answer hI']
  exact he

end Run.InAccord

section

variable {test test' : Schema Value → Run Bool} {ss ts : List (Schema Value)}

theorem anySchema_accord
    (h : List.Forall₂ (fun s t => Run.InAccord I I' lenient (test s) (test' t)) ss ts) :
    Run.InAccord I I' lenient (anySchema test ss) (anySchema test' ts) := by
  induction h with
  | nil => exact .pure
  | cons hst _ ih =>
    refine hst.bind fun b => ?_
    cases b with
    | false => exact ih
    | true => exact .pure

theorem requiredPositions_accord
    (h : List.Forall₂ (fun s t => Run.InAccord I I' lenient (test s) (test' t)) ss ts) :
    Run.InAccord I I' lenient (requiredPositions test ss) (requiredPositions test' ts) := by
  induction h with
  | nil => exact .pure
  | cons hst hrest ih =>
    unfold requiredPositions
    rw [hrest.length_eq]
    refine hst.bind fun b => ?_
    cases b with
    | false => exact .pure
    | true => exact ih

end

/-- A lazy schema accepts an absent value when what it stands for does. -/
theorem Settled.acceptsAbsent_lazy {pool : Schema Value → Prop} (h : Settled host σ I pool)
    (hs : pool s) {getter name : Value} (hform : s.form = .lazy getter name) (fuel : Nat) :
    (s.acceptsAbsent host (fuel + 1)).answer σ = (s.resolve host getter).answer σ >>= fun u =>
      (u.acceptsAbsent host fuel).answer σ := by
  rw [Schema.acceptsAbsent, hform]
  exact Run.Fixed.bind_answer h.here (h.lazies s hs getter name hform) fun u hu =>
    h.acceptsAbsent_fixed fuel u (h.resolved s hs getter name u hform hu)

namespace Correspondence

variable {pool pool' : Schema Value → Prop}
  (h : Correspondence host σ lenient m I I' pool pool' R)
include h

/-- Linked schemas accept an absent value alike. -/
theorem acceptsAbsent_accord (fuel : Nat) : ∀ fuel', lenient ∨ fuel = fuel' → ∀ s t, R s t →
    Run.InAccord I I' lenient (s.acceptsAbsent host fuel) (t.acceptsAbsent host fuel') := by
  have hleft (n : Nat) {s t : Schema Value} (hst : R s t) : (s.acceptsAbsent host n).Fixed I :=
    h.left.acceptsAbsent_fixed n s (h.related s t hst).1
  have hright (n : Nat) {s t : Schema Value} (hst : R s t) : (t.acceptsAbsent host n).Fixed I' :=
    h.right.acceptsAbsent_fixed n t (h.related s t hst).2
  induction fuel with
  | zero =>
    intro fuel' hfuel s t hst
    refine .of_answers (hleft _ hst) (hright _ hst) h.left.here h.right.here ?_
    obtain hlenient | rfl := hfuel
    · exact .of_lenient hlenient nofun
    · exact .error
  | succ fuel ih =>
    intro fuel' hfuel s t hst
    have hanswers (haccord : Accord lenient Eq _ _) : Run.InAccord I I' lenient _ _ :=
      .of_answers (hleft (fuel + 1) hst) (hright fuel' hst) h.left.here h.right.here haccord
    cases h.linked s t hst with
    | parts _ hform =>
      cases fuel' with
      | zero => exact hanswers (.of_lenient (hfuel.resolve_right nofun) fun _ _ _ hb => nomatch hb)
      | succ fuel' =>
        have hparts : ∀ a b, R a b → Run.InAccord I I' lenient (a.acceptsAbsent host fuel)
            (b.acceptsAbsent host fuel') := ih fuel' (hfuel.imp_right Nat.succ.inj)
        unfold Schema.acceptsAbsent
        generalize s.form = form at hform
        generalize t.form = form' at hform
        cases hform with
        | simple hsimple => cases form <;> first | exact .pure | cases hsimple
        | nullable hs | readonly hs | catching _ hs => exact hparts _ _ hs
        | pipe hs _ => exact hparts _ _ hs
        | union hss | discriminatedUnion hss => exact anySchema_accord (hss.imp hparts)
        | _ => exact .pure
    | lazies hlenient _ hs ht hR =>
      refine hanswers (.of_lenient hlenient fun a b ha hb => ?_)
      cases fuel' with
      | zero => cases hb
      | succ fuel' =>
        rw [h.left.acceptsAbsent_lazy (h.related s t hst).1 hs] at ha
        rw [h.right.acceptsAbsent_lazy (h.related s t hst).2 ht] at hb
        obtain ⟨u, hu, ha⟩ := bind_eq_ok.1 ha
        obtain ⟨w, hw, hb⟩ := bind_eq_ok.1 hb
        have hinner := (ih fuel' (.inl hlenient) u w (hR u w hu hw)).answers h.left.here
          h.right.here
        rwa [ha, hb] at hinner
    | unfolds hlenient hs _ _ hR =>
      refine hanswers (.of_lenient hlenient fun a b ha hb => ?_)
      rw [h.left.acceptsAbsent_lazy (h.related s t hst).1 hs] at ha
      obtain ⟨u, hu, ha⟩ := bind_eq_ok.1 ha
      have hinner := (ih fuel' (.inl hlenient) u t (hR u hu)).answers h.left.here h.right.here
      rwa [ha, hb] at hinner

/-! ## Meanings -/

omit h in
/-- What a lazy schema without checks comes to is what the schema comes to that it stands for. -/
theorem meaning_of_bare {ctx : Context} {thorough : Bool} {fuel : Nat} {getter name v : Value}
    {r : Result} (hform : s.form = .lazy getter name) (hchecks : s.checks = [])
    (hevaluators : ∀ fn, σ.kinds.evaluator? s.kind = .ok fn → fn = .builtin .evaluateNode)
    (hr : meaning host σ ctx thorough (fuel + 1) s v = .ok r) :
    ∃ u, (s.resolve host getter).answer σ = .ok u ∧ meaning host σ ctx thorough fuel u v = .ok r := by
  unfold meaning at hr
  obtain ⟨fn, hfn, hr⟩ := bind_eq_ok.1 hr
  obtain rfl := hevaluators fn hfn
  obtain ⟨q, hq, hr⟩ := bind_eq_ok.1 hr
  unfold Meaning.form at hq
  rw [hform] at hq
  obtain ⟨u, hu, hq⟩ := bind_eq_ok.1 hq
  refine ⟨u, hu, ?_⟩
  have hall : s.allChecks = [] := by
    unfold Schema.allChecks
    rw [hform, hchecks]
    rfl
  unfold Meaning.checks at hr
  rw [hall] at hr
  rw [hq]
  split at hr <;> exact hr

/-- Linked schemas come to the same for every value. -/
theorem meaning_accord {ctx : Context} {thorough : Bool} (fuel : Nat) :
    ∀ fuel', lenient ∨ fuel = fuel' → ∀ s t, R s t → Agree lenient m
      (meaning host σ ctx thorough fuel) (meaning host σ ctx thorough fuel') s t := by
  induction fuel with
  | zero =>
    rintro fuel' (hlenient | rfl) s t - v
    · exact .of_lenient hlenient nofun
    · exact .error
  | succ fuel ih =>
    intro fuel' hfuel s t hst v
    cases h.linked s t hst with
    | parts hcongruent hform =>
      cases fuel' with
      | zero => exact .of_lenient (hfuel.resolve_right nofun) fun _ _ _ hb => nomatch hb
      | succ fuel' =>
        have hfuel' : lenient ∨ fuel = fuel' := hfuel.imp_right Nat.succ.inj
        refine hcongruent.evaluation_accord hform.checkTag ?_
        refine Meaning.form_accord hcongruent.mask hcongruent.kind hform (ih fuel' hfuel')
          fun ss ss' hss => ?_
        exact (requiredPositions_accord ((List.rel_reverse hss).imp
          (h.acceptsAbsent_accord fuel fuel' hfuel'))).answers h.left.here h.right.here
    | lazies hlenient hcongruent hs ht hR =>
      cases fuel' with
      | zero => exact .of_lenient hlenient fun _ _ _ hb => nomatch hb
      | succ fuel' =>
        refine hcongruent.evaluation_accord (.inr ?_) ?_
        · rw [hs, ht]
          exact ⟨rfl, rfl⟩
        · unfold Meaning.form
          rw [hs, ht]
          refine .of_lenient hlenient fun r r' hr hr' => ?_
          obtain ⟨u, hu, hr⟩ := bind_eq_ok.1 hr
          obtain ⟨w, hw, hr'⟩ := bind_eq_ok.1 hr'
          have hinner := ih fuel' (.inl hlenient) u w (hR u w hu hw) v
          rwa [hr, hr'] at hinner
    | unfolds hlenient hs hchecks hevaluators hR =>
      refine .of_lenient hlenient fun r r' hr hr' => ?_
      obtain ⟨u, hu, hr⟩ := meaning_of_bare hs hchecks hevaluators hr
      have hinner := ih fuel' (.inl hlenient) u t (hR u hu) v
      rwa [hr, hr'] at hinner

/-- Linked schemas parse alike when the words of issues do not show what the mask hides. -/
theorem safeParse_accord {ctx : Context} (hm : Resolution.ShowsErrors m)
    (hleft : Resolution.Blind host m ctx σ.config I)
    (hright : Resolution.Blind host m ctx σ.config I')
    (hI : ∀ τ, I τ → τ.config = σ.config) (hI' : ∀ τ, I' τ → τ.config = σ.config)
    (hbudget : lenient ∨ s.budget = t.budget) (hst : R s t) (v : Value)
    (hs : ∀ r, meaning host σ ctx false s.budget s v = .ok r → r.Sourced Resolution.HasMessage)
    (ht : ∀ r, meaning host σ ctx false t.budget t v = .ok r → r.Sourced Resolution.HasMessage) :
    Accord lenient Eq ((safeParse host (ctx.mayWait false) s v).answer σ)
      ((safeParse host (ctx.mayWait false) t v).answer σ) := by
  obtain ⟨hspool, htpool⟩ := h.related s t hst
  rw [(safeParse_gives_of h.left hspool v fun r hr =>
      (conclude_alike hI hm hleft (hs r hr)).fixed).answer h.left.here,
    (safeParse_gives_of h.right htpool v fun r hr =>
      (conclude_alike hI' hm hright (ht r hr)).fixed).answer h.right.here]
  refine (h.meaning_accord s.budget t.budget hbudget s t hst v).named.bind ?_
  rintro r r' ⟨hr, hsr, htr⟩
  rw [conclude_same hI h.left.here hm hleft (hs r hsr) (ht r' htr) hr]
  exact .refl fun _ => rfl

end Correspondence

end Assay
