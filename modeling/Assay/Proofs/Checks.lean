import Assay.Evaluate.Parse
import Assay.Proofs.Triple

/-!
# What checks find

A check that calls no function leaves the value and finds at most one thing wrong with it, which
nests no further issues (`Rule.verdict_flat`, `Form.verdict_flat`, `runCheck_inspects`). Running
checks one after the other keeps what every single check keeps (`runChecksFrom_brings`).
-/

namespace Assay

/-- The detail nests no issues. -/
def Detail.isFlat {V I : Type} : Detail V I → Bool
  | .invalidUnion .. | .invalidKey .. | .invalidElement .. => false
  | _ => true

/-- The detail may be what a rule or a named format finds wrong with a value: it nests no issues,
and it names no keys. -/
def Detail.isFinding {V I : Type} : Detail V I → Bool
  | .unrecognizedKeys _ => false
  | d => d.isFlat

theorem Detail.isFlat_of_isFinding {V I : Type} {d : Detail V I} (h : d.isFinding = true) :
    d.isFlat = true := by
  cases d <;> first | rfl | cases h

/-! ## Rules -/

theorem Rule.lengthDetail_finding {rule : Rule Value} {origin : Value} {n : Nat}
    {d : Detail Value (Issue Value)} (h : rule.lengthDetail? origin n = some d) :
    d.isFinding = true := by
  unfold Rule.lengthDetail? at h
  split at h
  · split at h <;> cases h
    rfl
  · split at h <;> cases h
    rfl
  · split at h
    · cases h
      rfl
    · split at h <;> cases h
      rfl
  · cases h

theorem Rule.textDetail_finding (rule : Rule Value) : rule.textDetail.isFinding = true := by
  cases rule <;> rfl

/-- A rule reports findings. -/
theorem Rule.verdict_finding {rule : Rule Value} {v : Value} {d : Detail Value (Issue Value)}
    (h : rule.verdict v = .ok (some d)) : d.isFinding = true := by
  cases rule with
  | atLeast m n | atMost m n | exactly m n =>
    unfold Rule.verdict at h
    dsimp only at h
    split at h
    · split at h
      · exact Rule.lengthDetail_finding (Except.ok.inj h)
      · cases h
    · cases h
  | greaterThan bound inclusive | lessThan bound inclusive =>
    unfold Rule.verdict at h
    dsimp only at h
    split at h <;> cases h
    rfl
  | multipleOf divisor =>
    obtain ⟨b, -, h⟩ := bind_eq_ok.1 h
    cases b <;> cases h
    rfl
  | _ =>
    unfold Rule.verdict at h
    dsimp only at h
    split at h
    · obtain ⟨b, -, h⟩ := bind_eq_ok.1 h
      cases b <;> cases h
      exact Rule.textDetail_finding _
    · cases h

/-- A named format reports findings. -/
theorem Form.verdict_finding {form : Form Value (Schema Value)} {v : Value}
    {d : Detail Value (Issue Value)} (h : form.verdict v = some d) : d.isFinding = true := by
  unfold Form.verdict at h
  split at h
  · split at h <;> cases h
    rfl
  · cases h
  · split at h <;> cases h
    rfl
  · cases h

/-- What a rule finds wrong with a value nests no issues. -/
theorem Rule.verdict_flat {rule : Rule Value} {v : Value} {d : Detail Value (Issue Value)}
    (h : rule.verdict v = .ok (some d)) : d.isFlat = true :=
  Detail.isFlat_of_isFinding (Rule.verdict_finding h)

/-- What a named format finds wrong with a value nests no issues. -/
theorem Form.verdict_flat {form : Form Value (Schema Value)} {v : Value}
    {d : Detail Value (Issue Value)} (h : form.verdict v = some d) : d.isFlat = true :=
  Detail.isFlat_of_isFinding (Form.verdict_finding h)

/-- What the length of a tuple breaks nests no issues. -/
theorem tupleLength_flat {required size length : Nat} {hasRest : Bool}
    {d : Detail Value (Issue Value)}
    (h : Structure.tupleLength required size hasRest length = some d) : d.isFlat = true := by
  unfold Structure.tupleLength at h
  dsimp only at h
  split at h
  · cases h
    rfl
  · split at h <;> cases h
    rfl

/-! ## Running checks -/

/-- The check calls no function. Among the checks of a schema stand formats too, which call
none. -/
def Value.inspects : Value → Bool
  | .check c =>
    match c.rule with
    | .overwrite .. | .refinement .. | .superRefinement _ => false
    | _ => true
  | _ => true

variable {host : Host} {ctx : Context} {I : Session → Prop}

/-- What a check that calls no function answers: the value, and at most one flat issue. -/
def Inspected (v : Value) (r : Result) : Prop :=
  ∃ source detail, r = Result.of v source detail ∧ ∀ d, detail = some d → d.isFlat = true

theorem runCheck_inspects {c v : Value} (hc : c.inspects = true) :
    (runCheck host ctx c v).Brings I fun e => ∀ t, e = .ok t → Inspected v t.value := by
  cases c with
  | check c =>
    have hrule : ∀ rule : Rule Value,
        (do return .ready (Result.of v (.check c) (← Run.lift (rule.verdict v))) :
          Run (Outcome Result)).Brings I fun e => ∀ t, e = .ok t → Inspected v t.value := by
      intro rule
      refine .bind (.lift rfl) (fun detail hdetail => .ready ?_) (by rintro e - t ⟨⟩)
      rintro t ⟨⟩
      exact ⟨.check c, detail, rfl, by rintro d rfl; exact Rule.verdict_flat hdetail⟩
    obtain ⟨id, rule, error, abort⟩ := c
    cases rule with
    | overwrite => cases hc
    | refinement => cases hc
    | superRefinement => cases hc
    | _ => exact hrule _
  | schema s =>
    dsimp only [runCheck]
    split
    · refine .ready ?_
      rintro t ⟨⟩
      exact ⟨.schema s, _, rfl, fun d hd => Form.verdict_flat hd⟩
    · exact .throw (by rintro t ⟨⟩)
  | _ => exact .throw (by rintro t ⟨⟩)

/-- Running checks one after the other keeps what running each of them keeps. -/
theorem runChecksFrom_brings {P : Result → Prop} {checks : List Value}
    (hstep : ∀ c ∈ checks, ∀ r, P r →
      (runCheck host ctx c r.value).Brings I fun e => ∀ t, e = .ok t → P (r.merge t.value))
    {r : Result} (hr : P r) :
    (runChecksFrom host ctx checks r).Brings I fun e => ∀ t, e = .ok t → P t.value := by
  induction checks generalizing r with
  | nil => exact .ready (by rintro t ⟨⟩; exact hr)
  | cons c checks ih =>
    have hrest := fun {r} => ih (fun d hd => hstep d (List.mem_cons_of_mem _ hd)) (r := r)
    refine (hstep c (List.mem_cons_self ..) r hr).bindOutcome (fun o ho => ?_) (by rintro e - t ⟨⟩)
    cases o with
    | ready q =>
      have hq : P (r.merge q) := ho ⟨q, false⟩ rfl
      dsimp only
      split
      · exact .ready (by rintro t ⟨⟩; exact hq)
      · exact hrest hq
    | later work =>
      dsimp only
      split
      · refine .later ((Outcome.brings_later.1 ho).bind (fun q hq => ?_) (by rintro e - t ⟨⟩))
        have hq : P (r.merge q) := hq ⟨q, true⟩ rfl
        split
        · exact .pure (by rintro t ⟨⟩; exact hq)
        · refine (hrest hq).settle.mono ?_
          rintro (e | a) ⟨w, he⟩ t ⟨⟩
          exact he ⟨a, w⟩ rfl
      · exact .throw (by rintro t ⟨⟩)

/-- A schema that is read by its form is checked on what its form comes to. -/
theorem evaluate_exec {fuel : Nat} {s : Schema Value} {v : Value} {σ : Session}
    (hown : σ.kinds.evaluator? s.kind = .ok (.builtin .evaluateNode)) :
    (evaluate host ctx (fuel + 1) s v).exec σ =
      (evaluateForm host ctx (evaluate host ctx fuel) (Schema.acceptsAbsent host fuel) s v >>=
        checkOutcome host ctx s).exec σ := by
  rw [evaluate, Run.exec_bind, Run.exec_get]
  dsimp only
  rw [Run.exec_bind, Run.exec_lift, hown]

/-- The checks of a schema after its form: they wait when the form does, which a parse that must
not wait refuses. -/
theorem checkOutcome_brings {s : Schema Value} {o : Outcome Result}
    {Q R : Except Fault (Timed Result) → Prop} (ho : o.Brings I Q)
    (hchecks : ∀ t, Q (.ok t) → (runChecks host ctx s t.value).Brings I
      fun e => R (e.map fun u => ⟨u.value, t.waits || u.waits⟩))
    (hwait : ctx.isAsync = false → ∀ e : Except Fault Result, Q (e.map (⟨·, true⟩)) →
      R (.error (.asyncRequired s.kind)))
    (he : ∀ e, Q (.error e) → R (.error e)) : (checkOutcome host ctx s o).Brings I R := by
  cases o with
  | ready r =>
    refine (hchecks ⟨r, false⟩ ho).mono fun e hR => ?_
    cases e with
    | error e => exact hR
    | ok u => simpa [Except.map] using hR
  | later work =>
    dsimp only [checkOutcome]
    split
    · refine .later ((Outcome.brings_later.1 ho).bind (fun r hr => ?_) he)
      refine (hchecks ⟨r, true⟩ hr).settle.mono fun e => ?_
      rintro ⟨w, hR⟩
      cases e with
      | error e => exact hR
      | ok q => simpa [Except.map] using hR
    · rename_i hsync
      intro σ hσ
      exact ⟨hσ, hwait (by simpa using hsync) _ ((Outcome.brings_later.1 ho) σ hσ).2⟩

/-- Whether one has to wait for an answer does not matter to what holds of it. -/
theorem forall_timed {P : Result → Prop} {e : Except Fault (Timed Result)}
    (h : ∀ t, e = .ok t → P t.value) (waits : Bool) :
    ∀ t, (e.map fun u => (⟨u.value, waits || u.waits⟩ : Timed Result)) = .ok t → P t.value := by
  intro t ht
  cases e with
  | error e => cases ht
  | ok q =>
    cases ht
    exact h q rfl

/-- The checks of a schema on what its form comes to. -/
theorem Run.Brings.checked {s : Schema Value} {x : Run (Outcome Result)} {P R : Result → Prop}
    (hx : x.Brings I fun e => ∀ t, e = .ok t → P t.value)
    (hchecks : ∀ r, P r → (runChecks host ctx s r).Brings I fun e => ∀ t, e = .ok t → R t.value) :
    (x >>= checkOutcome host ctx s).Brings I fun e => ∀ t, e = .ok t → R t.value := by
  refine hx.bindOutcome (fun o ho => checkOutcome_brings ho (fun t ht => ?_)
    (by rintro - e - t ⟨⟩) (by rintro e - t ⟨⟩)) (by rintro e - t ⟨⟩)
  exact (hchecks t.value (ht t rfl)).mono fun _ he => forall_timed he t.waits

/-- A schema that is read by its form comes to what its checks make of what its form comes to. -/
theorem evaluate_own_brings {s : Schema Value} {v : Value} {fuel : Nat} {P R : Result → Prop}
    (hown : ∀ σ, I σ → σ.kinds.evaluator? s.kind = .ok (.builtin .evaluateNode))
    (hform : (evaluateForm host ctx (evaluate host ctx fuel) (Schema.acceptsAbsent host fuel) s
      v).Brings I fun e => ∀ t, e = .ok t → P t.value)
    (hchecks : ∀ r, P r → (runChecks host ctx s r).Brings I fun e => ∀ t, e = .ok t → R t.value) :
    (evaluate host ctx (fuel + 1) s v).Brings I fun e => ∀ t, e = .ok t → R t.value := by
  intro σ hσ
  rw [evaluate_exec (hown σ hσ)]
  exact hform.checked hchecks σ hσ

end Assay
