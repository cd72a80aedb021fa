import Assay.Proofs.Acceptance
import Assay.Proofs.Conformance
import Assay.Proofs.Checks

/-!
# Schemas that answer at once

Scalar schemas read a value without asking other schemas or functions. Without checks attached such
a schema accepts what its form accepts, whatever the context, as long as it has no objection as the
check that it may be (`safeParse_at_once`). With checks it accepts what these accept of what the
form reads (`safeParse_checked`). So enumerations accept listed values as they are
(`values_accepted`), and with a class the members (`members_accepted`).
-/

namespace Assay

open Run

variable {host : Host} {ctx : Context} {σ : Session} {s : Schema Value} {v w : Value}

/-- Without checks attached a schema is checked by itself, if it is a check. -/
theorem runChecks_unchecked (hchecks : s.checks = []) (u : Value) :
    runChecks host ctx s (.ok u) =
      pure (.ready (Result.of u (.schema s) (s.form.verdict u))) := by
  unfold runChecks Schema.allChecks
  rw [hchecks, if_pos (show (Result.ok u).valid = true from rfl)]
  by_cases htag : s.form.checkTag?.isSome = true
  · simp only [htag, if_true, runChecksFrom, runCheck, pure_bind]
    split <;> rfl
  · have hnone : s.form.verdict u = none := by
      unfold Form.verdict
      cases hform : s.form <;> first | rfl | simp [hform, Form.checkTag?] at htag
    rw [if_neg htag, hnone]
    rfl

/-- A schema whose form reads a value at once goes on with its checks. -/
theorem safeParse_read (hown : σ.kinds.evaluator? s.kind = .ok (.builtin .evaluateNode))
    {found : Result}
    (hform : ∀ recur acceptsAbsent,
      evaluateForm host ctx recur acceptsAbsent s v = pure (.ready found)) :
    (safeParse host ctx s v).answer σ =
      (runChecks host ctx s found >>= fun o => o.settle >>= conclude host ctx).answer σ := by
  unfold safeParse
  rw [answer, answer, exec_bind, show s.budget = (s.depth + 1999) + 1 from rfl, evaluate_exec hown,
    hform, pure_bind, exec_bind]
  rfl

/-- What the form finds fault with is rejected. -/
theorem not_accepted_of_invalid (hown : σ.kinds.evaluator? s.kind = .ok (.builtin .evaluateNode))
    {found : Result}
    (hform : ∀ recur acceptsAbsent,
      evaluateForm host ctx recur acceptsAbsent s v = pure (.ready found))
    (hinvalid : found.valid = false) :
    (safeParse host ctx s v).answer σ ≠ .ok (.accepted w) := by
  have hr : runChecks host ctx s found = pure (.ready found) := by
    unfold runChecks
    rw [hinvalid, if_neg Bool.false_ne_true]
  rw [safeParse_read hown hform, hr]
  intro hw
  have hfound : found = .ok w := conclude_accepted.1 hw
  rw [hfound] at hinvalid
  cases hinvalid

/-- A schema without checks whose form reads the value at once accepts it exactly if the form does
and the schema, as the check that it may be, has no objection. -/
theorem safeParse_at_once (hown : σ.kinds.evaluator? s.kind = .ok (.builtin .evaluateNode))
    (hchecks : s.checks = []) {found : Result}
    (hform : ∀ recur acceptsAbsent,
      evaluateForm host ctx recur acceptsAbsent s v = pure (.ready found)) :
    (safeParse host ctx s v).answer σ = .ok (.accepted w) ↔
      found = .ok w ∧ s.form.verdict w = none := by
  cases hvalid : found.valid with
  | true =>
    obtain ⟨u, rfl⟩ : ∃ u, found = .ok u := ⟨found.value, Result.eq_ok hvalid⟩
    rw [safeParse_read hown hform, runChecks_unchecked hchecks u, pure_bind]
    show (conclude host ctx _).answer σ = _ ↔ _
    rw [conclude_accepted]
    constructor
    · intro hw
      obtain ⟨hverdict, rfl⟩ := Result.of_eq_ok.1 hw
      exact ⟨rfl, hverdict⟩
    · rintro ⟨heq, hverdict⟩
      cases heq
      rw [hverdict]
      rfl
  | false =>
    refine iff_of_false (not_accepted_of_invalid hown hform hvalid) ?_
    rintro ⟨rfl, -⟩
    cases hvalid

/-- Anything, with the checks of the schema. -/
def Schema.checksAlone (s : Schema Value) : Schema Value :=
  { s with form := .any, kind := .str "any" }

/-- What the form of a schema that is no check reads at once is accepted as its checks accept it. -/
theorem safeParse_checked (hown : σ.kinds.evaluator? s.kind = .ok (.builtin .evaluateNode))
    (hany : σ.kinds.evaluator? (.str "any") = .ok (.builtin .evaluateNode))
    (htag : s.form.checkTag? = none) {found : Result}
    (hform : ∀ recur acceptsAbsent,
      evaluateForm host ctx recur acceptsAbsent s v = pure (.ready found)) :
    (safeParse host ctx s v).answer σ = .ok (.accepted w) ↔
      ∃ u, found = .ok u ∧ (safeParse host ctx s.checksAlone u).answer σ = .ok (.accepted w) := by
  cases hvalid : found.valid with
  | true =>
    obtain ⟨u, rfl⟩ : ∃ u, found = .ok u := ⟨found.value, Result.eq_ok hvalid⟩
    have hchecks : runChecks host ctx s (.ok u) = runChecks host ctx s.checksAlone (.ok u) := by
      unfold runChecks Schema.allChecks
      rw [htag]
      rfl
    have halone : (safeParse host ctx s.checksAlone u).answer σ =
        (runChecks host ctx s.checksAlone (.ok u) >>= fun o =>
          o.settle >>= conclude host ctx).answer σ :=
      safeParse_read hany fun _ _ => rfl
    rw [safeParse_read hown hform, hchecks, ← halone]
    constructor
    · exact fun hw => ⟨u, rfl, hw⟩
    · rintro ⟨u', heq, hw⟩
      cases heq
      exact hw
  | false =>
    refine iff_of_false (not_accepted_of_invalid hown hform hvalid) ?_
    rintro ⟨u, rfl, -⟩
    cases hvalid

/-! ## Enumerations -/

section

variable {entries : List (Value × Value)} {cls : Option (EnumClass Value)} {c : EnumClass Value}

/-- Entries make an enumeration without checks. -/
theorem enumeration_dict (hne : entries ≠ []) (error : Value) (τ : Session) :
    ∃ t, (Construct.enumeration (.dict entries) { error := error }).answer τ = .ok t ∧
      t.form = .enumeration entries none ∧ t.kind = .str "enum" ∧ t.checks = [] := by
  have hmake : (Construct.enumeration (.dict entries) { error := error }).answer τ =
      (Construct.make (.enumeration entries none) { error := error }).answer τ := by
    show (if entries.isEmpty then refuse .enumEmpty
      else Construct.make (.enumeration entries none) { error := error }).answer τ = _
    rw [List.isEmpty_eq_false_iff.2 hne]
    rfl
  exact ⟨_, hmake, rfl, rfl, rfl⟩

theorem enumeration_read (hform : s.form = .enumeration entries cls) :
    ∀ recur acceptsAbsent, evaluateForm host ctx recur acceptsAbsent s v =
      pure (.ready (Scalar.enumeration s entries cls v)) := by
  intro recur acceptsAbsent
  rw [evaluateForm, hform]

theorem enumeration_values : Scalar.enumeration s entries none v = .ok w ↔
    w = v ∧ ∃ e ∈ entries, v.same e.2 = true := by
  have hlisted : ((entries.map (·.2)).any v.same = true) ↔ ∃ e ∈ entries, v.same e.2 = true := by
    simp
  rw [← hlisted]
  unfold Scalar.enumeration
  dsimp only
  split
  · rename_i hsame
    simp [hsame, eq_comm]
  · rename_i hother
    simp [hother, Result.failed]

theorem enumeration_members : Scalar.enumeration s entries (some c) v = .ok w ↔
    Scalar.memberOf? c v = some w := by
  unfold Scalar.enumeration
  dsimp only
  cases Scalar.memberOf? c v with
  | some m => simp
  | none => simp [Result.failed]

/-- An enumeration of values without checks accepts what is the same as one of them, as it is. -/
theorem values_accepted (hown : σ.kinds.evaluator? s.kind = .ok (.builtin .evaluateNode))
    (hform : s.form = .enumeration entries none) (hchecks : s.checks = []) :
    (safeParse host ctx s v).answer σ = .ok (.accepted w) ↔
      w = v ∧ ∃ e ∈ entries, v.same e.2 = true := by
  rw [safeParse_at_once hown hchecks (enumeration_read hform), hform, enumeration_values]
  exact and_iff_left rfl

/-- An enumeration of the members of a class without checks accepts these and their values, as the
members. -/
theorem members_accepted (hown : σ.kinds.evaluator? s.kind = .ok (.builtin .evaluateNode))
    (hform : s.form = .enumeration entries (some c)) (hchecks : s.checks = []) :
    (safeParse host ctx s v).answer σ = .ok (.accepted w) ↔ Scalar.memberOf? c v = some w := by
  rw [safeParse_at_once hown hchecks (enumeration_read hform), hform, enumeration_members]
  exact and_iff_left rfl

end

end Assay
