import Assay.Proofs.Conformance
import Assay.Proofs.Discrimination

/-!
# Tuples position by position

A parse that must not wait evaluates the positions of a tuple one after the other, each in the
session that the one before leaves (`Successively`), and puts its output together from theirs. A
position beyond the end of the input that comes to nothing is left out, and those after it move
up. So an output stands at the index of its position as long as nothing was left out before it
(`tuple_outputs_aligned`), and not always (`tuple_outputs_move_up`).
-/

namespace Assay

open Run

variable {host : Host} {ctx : Context} {σ τ : Session}

/-! ## Evaluations that must not wait -/

/-- Whatever checks find, they find it at once. -/
theorem runChecksFrom_ready {checks : List Value} {r : Result} {o : Outcome Result}
    (h : (runChecksFrom host (ctx.mayWait false) checks r).exec σ = (.ok o, τ)) :
    ∃ q, o = .ready q := by
  induction checks generalizing r σ with
  | nil =>
    cases h
    exact ⟨r, rfl⟩
  | cons c checks ih =>
    obtain ⟨found, ρ, -, h⟩ := bind_exec_ok.1 h
    cases found with
    | ready q =>
      dsimp only at h
      split at h
      · cases h
        exact ⟨r.merge q, rfl⟩
      · exact ih h
    | later work => cases h

theorem runChecks_ready {s : Schema Value} {r : Result} {o : Outcome Result}
    (h : (runChecks host (ctx.mayWait false) s r).exec σ = (.ok o, τ)) : ∃ q, o = .ready q := by
  unfold runChecks at h
  split at h
  · exact runChecksFrom_ready h
  · cases h
    exact ⟨r, rfl⟩

/-- Checks that must not wait are not reached by an outcome that has to. -/
theorem checkOutcome_ready {s : Schema Value} {o o' : Outcome Result}
    (h : (checkOutcome host (ctx.mayWait false) s o).exec σ = (.ok o', τ)) :
    ∃ r q, o = .ready r ∧ o' = .ready q ∧
      (runChecks host (ctx.mayWait false) s r).exec σ = (.ok (.ready q), τ) := by
  cases o with
  | ready r =>
    obtain ⟨q, rfl⟩ := runChecks_ready h
    exact ⟨r, q, rfl, rfl, h⟩
  | later work => cases h

theorem evaluate_ready {fuel : Nat} {s : Schema Value} {v : Value} {o : Outcome Result}
    (h : (evaluate host (ctx.mayWait false) fuel s v).exec σ = (.ok o, τ)) : ∃ q, o = .ready q := by
  cases fuel with
  | zero => cases h
  | succ fuel =>
    obtain ⟨_, _, -, h⟩ := bind_exec_ok.1 h
    obtain ⟨_, _, -, h⟩ := bind_exec_ok.1 h
    obtain ⟨_, _, -, h⟩ := bind_exec_ok.1 h
    obtain ⟨_, q, -, hq, -⟩ := checkOutcome_ready h
    exact ⟨q, hq⟩

/-! ## Checks that replace nothing -/

/-- A check that replaces nothing hands on the value that it was given. -/
theorem runCheck_keeping {c v : Value} (hc : c.replaces = false) {q : Result}
    (h : (runCheck host ctx c v).exec σ = (.ok (.ready q), τ)) : q.value = v := by
  cases c with
  | check c =>
    obtain ⟨id, rule, error, abort⟩ := c
    cases rule with
    | overwrite fn name => cases hc
    | refinement fn path params =>
      obtain ⟨verdict, ρ, -, h⟩ := bind_exec_ok.1 h
      cases verdict with
      | ready r =>
        dsimp only [Outcome.andThen] at h
        split at h
        · cases h
          rfl
        · obtain ⟨_, _, -, h⟩ := bind_exec_ok.1 h
          cases h
          rfl
      | later work => cases h
    | superRefinement fn =>
      obtain ⟨done, ρ, -, h⟩ := bind_exec_ok.1 h
      cases done with
      | ready r =>
        cases h
        rfl
      | later work => cases h
    | _ =>
      -- What is left compares the value with a bound or a pattern.
      obtain ⟨_, _, -, h⟩ := bind_exec_ok.1 h
      cases h
      rfl
  | schema s =>
    dsimp only [runCheck] at h
    split at h
    · cases h
      rfl
    · cases h
  | _ => cases h

theorem runChecksFrom_keeping {checks : List Value} (hchecks : ∀ c ∈ checks, c.replaces = false)
    {r q : Result}
    (h : (runChecksFrom host (ctx.mayWait false) checks r).exec σ = (.ok (.ready q), τ)) :
    q.value = r.value := by
  induction checks generalizing r σ with
  | nil =>
    cases h
    rfl
  | cons c checks ih =>
    obtain ⟨hc, hrest⟩ := List.forall_mem_cons.1 hchecks
    obtain ⟨found, ρ, hfound, h⟩ := bind_exec_ok.1 h
    cases found with
    | ready found =>
      have hvalue : (r.merge found).value = r.value := by
        show found.value = r.value
        exact runCheck_keeping hc hfound
      dsimp only at h
      split at h
      · cases h
        exact hvalue
      · exact (ih hrest h).trans hvalue
    | later work => cases h

/-- What comes through checks that replace nothing is what was given to them. -/
theorem runChecks_keeping {s : Schema Value} (hchecks : ∀ c ∈ s.checks, c.replaces = false)
    {r : Result} {w : Value}
    (h : (runChecks host (ctx.mayWait false) s r).exec σ = (.ok (.ready (.ok w)), τ)) :
    r = .ok w := by
  have hall : ∀ c ∈ s.allChecks, c.replaces = false := by
    intro c hc
    unfold Schema.allChecks at hc
    split at hc
    · rcases List.mem_cons.1 hc with rfl | hc
      · rfl
      · exact hchecks c hc
    · exact hchecks c hc
  unfold runChecks at h
  by_cases hr : r.valid = true
  · rw [if_pos hr] at h
    rw [Result.eq_ok hr, ← runChecksFrom_keeping hall h]
  · rw [if_neg hr] at h
    cases h
    exact absurd rfl hr

/-! ## Positions one after the other -/

section

variable {recur : Schema Value → Value → Run (Outcome Result)}

/-- The positions are evaluated one after the other with the results, each in the session that
the one before leaves. -/
inductive Successively (recur : Schema Value → Value → Run (Outcome Result)) :
    List (Schema Value × Value) → Session → List Result → Session → Prop
  | done {σ : Session} : Successively recur [] σ [] σ
  | next {p : Schema Value × Value} {ps : List (Schema Value × Value)} {r : Result}
      {rs : List Result} {σ ρ τ : Session} : (recur p.1 p.2).exec σ = (.ok (.ready r), ρ) →
      Successively recur ps ρ rs τ → Successively recur (p :: ps) σ (r :: rs) τ

/-- Nothing has to be waited for. -/
def AtOnce (recur : Schema Value → Value → Run (Outcome Result)) : Prop :=
  ∀ s v σ o τ, (recur s v).exec σ = (.ok o, τ) → ∃ r, o = .ready r

theorem evaluateAll_successively (hrecur : AtOnce recur) {ps : List (Schema Value × Value)}
    {os : List (Outcome Result)} (h : (evaluateAll recur ps).exec σ = (.ok os, τ)) :
    ∃ rs, os = rs.map .ready ∧ Successively recur ps σ rs τ := by
  induction ps generalizing σ os with
  | nil =>
    cases h
    exact ⟨[], rfl, .done⟩
  | cons p ps ih =>
    obtain ⟨o, ρ, ho, h⟩ := bind_exec_ok.1 h
    obtain ⟨os, ρ', hos, h⟩ := bind_exec_ok.1 h
    cases h
    obtain ⟨r, rfl⟩ := hrecur _ _ _ _ _ ho
    obtain ⟨rs, rfl, hrs⟩ := ih hos
    exact ⟨r :: rs, rfl, .next ho hrs⟩

/-- A parse that stops early gets to the end only over valid results. -/
theorem evaluateInOrder_successively (hrecur : AtOnce recur) {ps : List (Schema Value × Value)}
    {o : Outcome (List Result)} (h : (evaluateInOrder recur ps).exec σ = (.ok o, τ)) :
    ∃ rs, o = .ready rs ∧ ((∀ r ∈ rs, r.valid = true) → Successively recur ps σ rs τ) := by
  induction ps generalizing σ o with
  | nil =>
    cases h
    exact ⟨[], rfl, fun _ => .done⟩
  | cons p ps ih =>
    obtain ⟨first, ρ, hfirst, h⟩ := bind_exec_ok.1 h
    obtain ⟨r, rfl⟩ := hrecur _ _ _ _ _ hfirst
    dsimp only at h
    split at h
    · obtain ⟨rest, ρ', hrest, h⟩ := bind_exec_ok.1 h
      cases h
      obtain ⟨rs, rfl, hrs⟩ := ih hrest
      exact ⟨r :: rs, rfl, fun hvalid => .next hfirst (hrs (List.forall_mem_cons.1 hvalid).2)⟩
    · rename_i hinvalid
      cases h
      exact ⟨[r], rfl, fun hvalid => absurd (hvalid r (List.mem_singleton_self r)) hinvalid⟩

theorem evaluateItems_successively (hrecur : AtOnce recur) {ps : List (Schema Value × Value)}
    {o : Outcome (List Result)} (h : (evaluateItems host recur ctx ps).exec σ = (.ok o, τ)) :
    ∃ rs, o = .ready rs ∧ ((∀ r ∈ rs, r.valid = true) → Successively recur ps σ rs τ) := by
  unfold evaluateItems at h
  split at h
  · exact evaluateInOrder_successively hrecur h
  · obtain ⟨os, ρ, hos, h⟩ := bind_exec_ok.1 h
    obtain ⟨rs, rfl, hrs⟩ := evaluateAll_successively hrecur hos
    cases h
    exact ⟨rs, gather_ready rs, fun _ => hrs⟩

/-- What is accepted of a tuple is put together from the outputs of its positions. -/
theorem evaluateTuple_successively (hrecur : AtOnce recur)
    {acceptsAbsent : Schema Value → Run Bool} {s : Schema Value} {items : List (Schema Value)}
    {rest : Option (Schema Value)} {v w : Value}
    (h : (evaluateTuple host ctx recur acceptsAbsent s items rest v).exec σ
      = (.ok (.ready (.ok w)), τ)) :
    ∃ vs ws n ρ, v.items? = some vs ∧
      (requiredPositions acceptsAbsent items.reverse).exec σ = (.ok n, ρ) ∧
      Successively recur (Structure.tupleItems rest items vs) ρ (ws.map .ok) τ ∧
      w = .tuple (Meaning.tupleOutput vs.length ws) := by
  unfold evaluateTuple at h
  split at h
  · cases h
  · rename_i vs hvs
    obtain ⟨n, ρ, hn, h⟩ := bind_exec_ok.1 h
    split at h
    · cases h
    · obtain ⟨o, ρ', ho, h⟩ := bind_exec_ok.1 h
      obtain ⟨rs, rfl, hrs⟩ := evaluateItems_successively hrecur ho
      obtain ⟨hready, rfl⟩ : Except.ok (.ready (Structure.tuple vs.length rs))
          = Except.ok (Outcome.ready (Result.ok w)) ∧ ρ' = τ := Prod.mk.inj h
      have hresult : Structure.tuple vs.length rs = .ok w :=
        Outcome.ready.inj (Except.ok.inj hready)
      have hvalid : ∀ r ∈ rs, r.valid = true := valid_of_indexed (congrArg Result.issues hresult)
      obtain ⟨ws, rfl⟩ : ∃ ws : List Value, rs = ws.map .ok := ⟨_, Result.eq_map_ok hvalid⟩
      rw [Meaning.tuple_ok] at hresult
      exact ⟨vs, ws, n, ρ, hvs, hn, hrs hvalid, (congrArg Result.value hresult).symm⟩

/-- Evaluating positions in turn gives their meanings when all questions are settled. -/
theorem Successively.meanings {I : Session → Prop} {pool : Schema Value → Prop} {fuel : Nat}
    (hsettled : Settled host σ I pool) {ps : List (Schema Value × Value)} {ρ : Session}
    {rs : List Result}
    (h : Successively (evaluate host (ctx.mayWait false) fuel) ps ρ rs τ) (hρ : I ρ)
    (hps : ∀ p ∈ ps, pool p.1) :
    List.Forall₂ (fun p r => meaning host σ ctx false fuel p.1 p.2 = .ok r) ps rs := by
  induction h with
  | done => exact .nil
  | @next p ps r rs ρ ρ' τ hr _ ih =>
    obtain ⟨hp, hps⟩ := List.forall_mem_cons.1 hps
    have hpromptly : (evaluate host (ctx.mayWait false) fuel p.1 p.2).Promptly I
        (meaning host σ ctx false fuel p.1 p.2) := evaluate_promptly hsettled fuel hp p.2
    obtain ⟨hρ', hanswer⟩ := hpromptly ρ hρ
    rw [hr] at hρ' hanswer
    refine .cons ?_ (ih hρ' hps)
    cases hmeaning : meaning host σ ctx false fuel p.1 p.2 with
    | error e =>
      rw [hmeaning] at hanswer
      cases hanswer
    | ok q =>
      rw [hmeaning] at hanswer
      cases hanswer
      rfl

end

/-! ## Indices -/

/-- As long as nothing was left out, the outputs stand at the indices of their positions. -/
theorem tupleOutput_getElem? {present i : Nat} {ws : List Value}
    (h : ∀ j ≤ i, present ≤ j → ws[j]? ≠ some .missing) :
    (Meaning.tupleOutput present ws)[i]? = ws[i]? := by
  induction ws generalizing present i with
  | nil => simp [Meaning.tupleOutput]
  | cons w ws ih =>
    -- The first output is there: the input goes so far, or else it is a value.
    have hcons : Meaning.tupleOutput present (w :: ws)
        = w :: Meaning.tupleOutput (present - 1) ws := by
      by_cases hpresent : 0 < present
      · obtain ⟨n, rfl⟩ : ∃ n, present = n + 1 := ⟨present - 1, by omega⟩
        rfl
      · obtain rfl : present = 0 := by omega
        cases w with
        | missing => exact absurd rfl (h 0 (Nat.zero_le i) (Nat.le_refl 0))
        | _ => rfl
    rw [hcons]
    cases i with
    | zero => rfl
    | succ i =>
      apply ih
      intro j hj hpresent
      exact h (j + 1) (by omega) (by omega)

/-! ## Parses -/

/-- What a parse accepts is what its evaluation comes to. -/
theorem evaluate_of_accepted {s : Schema Value} {v w : Value}
    (h : (safeParse host (ctx.mayWait false) s v).answer σ = .ok (.accepted w)) :
    ∃ τ, (evaluate host (ctx.mayWait false) s.budget s v).exec σ = (.ok (.ready (.ok w)), τ) := by
  obtain ⟨o, ρ, ho, h⟩ := bind_exec_ok.1 (Prod.ext h rfl)
  obtain ⟨r, rfl⟩ := evaluate_ready ho
  obtain ⟨r', ρ', hr, h⟩ := bind_exec_ok.1 h
  cases hr
  obtain ⟨hvalid, rfl⟩ := conclude_answer (congrArg Prod.fst h)
  exact ⟨ρ, by rw [ho, ← Result.eq_ok hvalid]⟩

/-- The checks of a schema that is read by its form start from what its form comes to. -/
theorem evaluate_own {fuel : Nat} {s : Schema Value} {v : Value} {q : Result}
    (hown : σ.kinds.evaluator? s.kind = .ok (.builtin .evaluateNode))
    (h : (evaluate host (ctx.mayWait false) (fuel + 1) s v).exec σ = (.ok (.ready q), τ)) :
    ∃ r ρ, (evaluateForm host (ctx.mayWait false) (evaluate host (ctx.mayWait false) fuel)
        (Schema.acceptsAbsent host fuel) s v).exec σ = (.ok (.ready r), ρ) ∧
      (runChecks host (ctx.mayWait false) s r).exec ρ = (.ok (.ready q), τ) := by
  rw [evaluate_exec hown] at h
  obtain ⟨o, ρ, ho, h⟩ := bind_exec_ok.1 h
  obtain ⟨r, q', rfl, hq, h⟩ := checkOutcome_ready h
  cases hq
  exact ⟨r, ρ, ho, h⟩

/-- What a tuple accepts is put together from the outputs of its positions, which are evaluated
one after the other: an output stands at the index of its position unless a position beyond the end
of the input was left out before it. When all functions are pure, the output of a position is what
its schema accepts on its own, if it comes to anything there. -/
theorem tuple_outputs_aligned {s : Schema Value} {items : List (Schema Value)}
    {rest : Option (Schema Value)} (hform : s.form = .tuple items rest)
    (hown : σ.kinds.evaluator? s.kind = .ok (.builtin .evaluateNode))
    (hchecks : ∀ c ∈ s.checks, c.replaces = false) {v w : Value}
    (h : (safeParse host (ctx.mayWait false) s v).answer σ = .ok (.accepted w)) :
    ∃ levels required vs ws us ρ τ, s.budget = levels + 1 ∧ v.items? = some vs ∧
      (requiredPositions (Schema.acceptsAbsent host levels) items.reverse).exec σ
        = (.ok required, ρ) ∧
      Successively (evaluate host (ctx.mayWait false) levels) (Structure.tupleItems rest items vs) ρ
        (ws.map .ok) τ ∧
      w = .tuple us ∧ us = Meaning.tupleOutput vs.length ws ∧
      (∀ i, (∀ j ≤ i, vs.length ≤ j → ws[j]? ≠ some .missing) → us[i]? = ws[i]?) ∧
      (s.IsPure host σ → ∀ (i : Nat) p u, (Structure.tupleItems rest items vs)[i]? = some p →
        ws[i]? = some u → ∀ q, (safeParse host (ctx.mayWait false) p.1 p.2).answer σ = .ok q →
          q = .accepted u) := by
  obtain ⟨levels, hlevels⟩ : ∃ n, s.budget = n + 1 := ⟨s.depth + 1999, rfl⟩
  obtain ⟨τ, hevaluate⟩ := evaluate_of_accepted h
  rw [hlevels] at hevaluate
  obtain ⟨r, ρ, htuple, hrun⟩ := evaluate_own hown hevaluate
  obtain rfl := runChecks_keeping hchecks hrun
  simp only [evaluateForm, hform] at htuple
  obtain ⟨vs, ws, required, ρ', hvs, hrequired, hsuccessive, hw⟩ :=
    evaluateTuple_successively (fun _ _ _ _ _ => evaluate_ready) htuple
  refine ⟨levels, required, vs, ws, _, ρ', ρ, hlevels, hvs, hrequired, hsuccessive, hw, rfl,
    fun i hkept => tupleOutput_getElem? hkept, fun hpure i p u hp hu q hq => ?_⟩
  -- The session in which the first position starts is as good as the one before.
  have hsettled := hpure.settled
  have hparts : ∀ t ∈ items ++ rest.toList, s.Reaches host σ t := fun t ht =>
    .part .self (by rw [hform]; exact ht)
  have hρ' : σ.Like host s ρ' := by
    have hkeeps := (Settled.requiredPositions_fixed items.reverse fun t ht =>
      hsettled.acceptsAbsent_fixed levels t
        (hparts t (List.mem_append_left _ (List.mem_reverse.1 ht)))).keeps
    have hafter := (hkeeps σ hsettled.here).1
    rwa [hrequired] at hafter
  have hpart : p.1 ∈ s.form.parts := by
    rw [hform]
    exact tupleItems_parts rest items vs p (List.mem_of_getElem? hp)
  have hread : meaning host σ ctx false levels p.1 p.2 = .ok (.ok u) := by
    have hmeanings := hsuccessive.meanings hsettled hρ' fun p hp =>
      hparts p.1 (tupleItems_parts rest items vs p hp)
    obtain ⟨hi, rfl⟩ := List.getElem?_eq_some_iff.1 hp
    obtain ⟨hi', rfl⟩ := List.getElem?_eq_some_iff.1 hu
    have hget := hmeanings.get hi (by simpa using hi')
    simpa using hget
  -- On its own a position has no more levels, so it can come to nothing else.
  have hle : p.1.budget ≤ levels := by
    have hdepth := Schema.depth_part_lt hpart
    unfold Schema.budget at hlevels ⊢
    omega
  rw [(safeParse_gives hsettled (hpure.words_fixed ctx) (.part .self hpart) p.2).answer
    hsettled.here] at hq
  obtain ⟨r, hr, hq⟩ := bind_eq_ok.1 hq
  obtain rfl : r = .ok u := Except.ok.inj ((meaning_mono hle hr).symm.trans hread)
  exact (Except.ok.inj hq).symm

namespace Trailing

open Stock (hostThat)

def text : Schema Value := ⟨1, .str "string", .string .null, [], [], .null⟩

/-- A text that may be absent. -/
def perhaps : Schema Value := ⟨2, .str "optional", .optional text, [], [], .null⟩

/-- A text with another in its place. -/
def otherwise : Schema Value := ⟨3, .str "default", .default text (.str "x"), [], [], .null⟩

def pair (first second : Schema Value) : Schema Value :=
  ⟨0, .str "tuple", .tuple [first, second] none, [], [], .null⟩

end Trailing

open Trailing Stock in
/-- A text, and one that may be absent and is. -/
theorem tuple_outputs_aligned_absent :
    (safeParse (hostThat false) (Context.mayWait {} false) (pair text perhaps)
        (.list [.str "a"])).answer {} = .ok (.accepted (.tuple [.str "a"])) ∧
      ∃ ws, [.str "a"] = Meaning.tupleOutput 1 ws ∧ ws[0]? = some (.str "a") := by
  have haccepted : (safeParse (hostThat false) (Context.mayWait {} false) (pair text perhaps)
      (.list [.str "a"])).answer {} = .ok (.accepted (.tuple [.str "a"])) := rfl
  obtain ⟨levels, required, vs, ws, us, ρ, τ, -, hvs, -, -, hw, hus, haligned, -⟩ :=
    tuple_outputs_aligned rfl rfl (by rintro c ⟨⟩) haccepted
  cases hvs
  cases hw
  refine ⟨haccepted, ws, hus, ?_⟩
  rw [← haligned 0 (by simp)]
  rfl

open Trailing Stock in
/-- The first of two absent texts is left out, and what stands in for the second moves up. -/
theorem tuple_outputs_move_up :
    (safeParse (hostThat false) (Context.mayWait {} false) (pair perhaps otherwise)
        (.list [])).answer {} = .ok (.accepted (.tuple [.str "x"])) ∧
      (safeParse (hostThat false) (Context.mayWait {} false) perhaps .missing).answer {}
        = .ok (.accepted .missing) ∧
      (safeParse (hostThat false) (Context.mayWait {} false) otherwise .missing).answer {}
        = .ok (.accepted (.str "x")) :=
  ⟨rfl, rfl, rfl⟩

end Assay
