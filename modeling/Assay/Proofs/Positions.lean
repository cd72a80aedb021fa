import Assay.Evaluate.Form
import Assay.Proofs.Triple
import Mathlib.Data.List.Forall2

/-!
# Triples of evaluations side by side

A structural schema evaluates several positions, and a union several options. What each of them
comes to is described by a postcondition `P` of its own, and the rules here describe what they
come to together: all of them in a full parse, whatever the order in which they complete
(`gather_brings`), a start up to the first that fails in a parse that stops early
(`evaluateInOrder_brings`), and the options up to the one that a union takes
(`evaluateUnion_brings`).
-/

namespace Assay

/-- Several answers, for which one has to wait if one waits for any of them. -/
def Timed.all {α : Type} (ts : List (Timed α)) : Timed (List α) :=
  ⟨ts.map (·.value), ts.any (·.waits)⟩

/-- The postcondition of several evaluations: what their answers, or the fault that ends them,
have to do with their inputs. -/
def Together {α : Type} (relates : List α → List (Timed Result) → Prop)
    (breaks : List α → Fault → Prop) (inputs : List α) :
    Except Fault (Timed (List Result)) → Prop
  | .ok t => ∃ ts, relates inputs ts ∧ t = Timed.all ts
  | .error e => breaks inputs e

/-- Every input has its answer. -/
def Answers {α : Type} (P : α → Except Fault (Timed Result) → Prop) :
    List α → List (Timed Result) → Prop :=
  List.Forall₂ fun a t => P a (.ok t)

/-- One of the inputs has the fault. -/
def Fails {α : Type} (P : α → Except Fault (Timed Result) → Prop) (inputs : List α)
    (e : Fault) : Prop :=
  ∃ a ∈ inputs, P a (.error e)

/-- The inputs have their answers up to the first that is not valid. -/
inductive Stops {α : Type} (P : α → Except Fault (Timed Result) → Prop) :
    List α → List (Timed Result) → Prop
  | done : Stops P [] []
  | fails {a as t} : P a (.ok t) → t.value.valid = false → Stops P (a :: as) [t]
  | goes {a as t ts} : P a (.ok t) → t.value.valid = true → Stops P as ts →
      Stops P (a :: as) (t :: ts)

/-- The first input without a valid answer has the fault. -/
inductive Breaks {α : Type} (P : α → Except Fault (Timed Result) → Prop) :
    List α → Fault → Prop
  | here {a as e} : P a (.error e) → Breaks P (a :: as) e
  | goes {a as t e} : P a (.ok t) → t.value.valid = true → Breaks P as e → Breaks P (a :: as) e

/-- The options have their answers up to the first that is valid, unless that or one before it
had to be waited for (`waiting`). -/
inductive Tries {α : Type} (P : α → Except Fault (Timed Result) → Prop) :
    Bool → List α → List (Timed Result) → Prop
  | done {waiting} : Tries P waiting [] []
  | takes {a as t} : P a (.ok t) → t.waits = false → t.value.valid = true →
      Tries P false (a :: as) [t]
  | goes {waiting a as t ts} : P a (.ok t) →
      (waiting || t.waits || !t.value.valid) = true → Tries P (waiting || t.waits) as ts →
      Tries P waiting (a :: as) (t :: ts)

variable {host : Host} {I : Session → Prop}

/-! ## Waiting for all -/

section

variable {α : Type} {P : α → Except Fault (Timed Result) → Prop}

/-- A piece of work that was started for an input. -/
abbrev Job (α : Type) := α × Outcome Result

/-- What the jobs come to in the order in which they are waited for. -/
theorem settleAll_always (jobs : List (Job α)) (h : ∀ j ∈ jobs, j.2.Brings I (P j.1)) :
    (settleAll (jobs.map (·.2))).Always I fun
      | .ok rs => List.Forall₂ (fun j r => P j.1 (.ok ⟨r, j.2.waits⟩)) jobs rs
      | .error e => ∃ j ∈ jobs, P j.1 (.error e) := by
  induction jobs with
  | nil => exact .pure .nil
  | cons j jobs ih =>
    have hj := (h j (List.mem_cons_self ..)).settle
    have hjs := ih fun k hk => h k (List.mem_cons_of_mem _ hk)
    simp only [List.map_cons, settleAll]
    refine hj.attempt.bind ?_ (by simp)
    rintro first ⟨_, ⟨rfl⟩, hfirst⟩
    refine hjs.attempt.bind ?_ (by simp)
    rintro others ⟨_, ⟨rfl⟩, hothers⟩
    cases first with
    | error e => exact .throw ⟨j, List.mem_cons_self .., hfirst⟩
    | ok r =>
      cases others with
      | error e =>
        obtain ⟨k, hk, he⟩ := hothers
        exact .throw ⟨k, List.mem_cons_of_mem _ hk, he⟩
      | ok rs => exact .pure (.cons hfirst hothers)

/-- Results that are looked up by position for each position. -/
theorem forall₂_filterMap_range {β : Type} {rel : β → Result → Prop} {jobs : List β}
    {g : Nat → Option Result} (h : ∀ i (hi : i < jobs.length), ∃ r, g i = some r ∧ rel jobs[i] r) :
    List.Forall₂ rel jobs ((List.range jobs.length).filterMap g) := by
  have hmap : (List.range jobs.length).filterMap g =
      (List.range jobs.length).map fun i => (g i).getD default := by
    rw [← List.filterMap_eq_map]
    refine List.filterMap_congr fun i hi => ?_
    obtain ⟨r, hr, -⟩ := h i (by simpa using hi)
    simp [hr]
  rw [hmap, List.forall₂_iff_get]
  refine ⟨by simp, fun i hi hi' => ?_⟩
  obtain ⟨r, hr, hrel⟩ := h i hi
  simpa [hr] using hrel

/-- Each position finds a result of its own job among the results in order of positions. -/
theorem lookup_zip_positions {β : Type} {rel : β → Result → Prop} {jobs : List β}
    {positions : List Nat} {rs : List Result} (hlt : ∀ i ∈ positions, i < jobs.length)
    (h : List.Forall₂ rel (positions.filterMap (jobs[·]?)) rs) :
    ∀ i ∈ positions, ∃ r, List.lookup i (positions.zip rs) = some r ∧
      ∃ j, jobs[i]? = some j ∧ rel j r := by
  induction positions generalizing rs with
  | nil => simp
  | cons k ks ih =>
    have hk := hlt k (List.mem_cons_self ..)
    rw [List.filterMap_cons, List.getElem?_eq_getElem hk] at h
    cases h with
    | cons hr hrs =>
      intro i hi
      by_cases hik : i = k
      · subst hik
        exact ⟨_, by simp, _, List.getElem?_eq_getElem hk, hr⟩
      · have := ih (fun i hi => hlt i (List.mem_cons_of_mem _ hi)) hrs i (by simpa [hik] using hi)
        have hne : (i == k) = false := by simpa using hik
        simpa only [List.zip_cons_cons, List.lookup_cons, hne] using this

/-- Results that came in any order of all positions stand in their positions again. -/
theorem forall₂_inPlace {β : Type} {rel : β → Result → Prop} {jobs : List β}
    {positions : List Nat} {rs : List Result} (hperm : positions.Perm (List.range jobs.length))
    (h : List.Forall₂ rel (positions.filterMap (jobs[·]?)) rs) :
    List.Forall₂ rel jobs (inPlace jobs.length positions rs) := by
  have hmem : ∀ i, i ∈ positions ↔ i < jobs.length := fun i => by
    rw [hperm.mem_iff, List.mem_range]
  refine forall₂_filterMap_range fun i hi => ?_
  obtain ⟨r, hr, j, hj, hrel⟩ :=
    lookup_zip_positions (fun i hi => (hmem i).1 hi) h i ((hmem i).2 hi)
  rw [List.getElem?_eq_getElem hi, Option.some.injEq] at hj
  exact ⟨r, hr, hj ▸ hrel⟩

/-- Results that are all there were not waited for. -/
theorem readyAll_eq_some {jobs : List (Job α)} {rs : List Result}
    (h : readyAll (jobs.map (·.2)) = some rs) :
    jobs.map (·.2) = rs.map .ready := by
  induction jobs generalizing rs with
  | nil => simp_all [readyAll]
  | cons j jobs ih =>
    rcases j with ⟨a, r | work⟩
    · simp only [List.map_cons, readyAll, Option.map_eq_some_iff] at h
      obtain ⟨rs', h, rfl⟩ := h
      simp [ih h]
    · simp [readyAll] at h

/-- Where not all results are there, one of them is waited for. -/
theorem readyAll_eq_none {jobs : List (Job α)} (h : readyAll (jobs.map (·.2)) = none) :
    jobs.any (·.2.waits) = true := by
  induction jobs with
  | nil => simp [readyAll] at h
  | cons j jobs ih =>
    rcases j with ⟨a, r | work⟩
    · simp only [List.map_cons, readyAll, Option.map_eq_none_iff] at h
      simp [ih h]
    · simp [Outcome.waits]

/-- Jobs with their results are jobs with timed results. -/
theorem answers_of_results {jobs : List (Job α)} {rs : List Result}
    (h : List.Forall₂ (fun j r => P j.1 (.ok ⟨r, j.2.waits⟩)) jobs rs) :
    ∃ ts, Answers P (jobs.map (·.1)) ts ∧ rs = ts.map (·.value) ∧
      jobs.any (·.2.waits) = ts.any (·.waits) := by
  induction h with
  | nil => exact ⟨[], .nil, rfl, rfl⟩
  | @cons j r jobs rs hj _ ih =>
    obtain ⟨ts, hts, hvalues, hwaits⟩ := ih
    exact ⟨⟨r, j.2.waits⟩ :: ts, .cons hj hts, by simp [hvalues], by simp [hwaits]⟩

/-- The results of all jobs, in whichever order they complete. -/
theorem gather_brings (jobs : List (Job α)) (h : ∀ j ∈ jobs, j.2.Brings I (P j.1)) :
    (gather host (jobs.map (·.2))).Brings I
      (Together (Answers P) (Fails P) (jobs.map (·.1))) := by
  unfold gather
  cases hready : readyAll (jobs.map (·.2)) with
  | some rs =>
    have hjobs := readyAll_eq_some hready
    have hresults : List.Forall₂ (fun j r => P j.1 (.ok ⟨r, j.2.waits⟩)) jobs rs := by
      refine List.forall₂_iff_get.2 ⟨by simpa using congrArg List.length hjobs, fun i hi hi' => ?_⟩
      have ho : jobs[i].2 = .ready rs[i] := by
        simpa [hi, show i < rs.length from hi'] using congrArg (·[i]?) hjobs
      have hj := h jobs[i] (List.getElem_mem hi)
      rw [ho] at hj
      simp only [List.get_eq_getElem, ho]
      exact hj
    obtain ⟨ts, hts, hvalues, hwaits⟩ := answers_of_results hresults
    refine ⟨ts, hts, ?_⟩
    have hnone : jobs.any (·.2.waits) = false := by
      have : (jobs.map (·.2)).any Outcome.waits = false := by
        rw [hjobs]
        simp [Outcome.waits]
      simpa [List.any_map, Function.comp_def] using this
    simp [Timed.all, ← hvalues, ← hwaits, hnone]
  | none =>
    refine Outcome.brings_later.2 (.reading fun σ _ => ?_)
    generalize host.order σ (jobs.map (·.2)).length = order
    obtain ⟨positions, hperm⟩ := order
    rw [List.length_map] at hperm
    have hpicked : positions.filterMap ((jobs.map (·.2))[·]?) =
        (positions.filterMap (jobs[·]?)).map (·.2) := by
      simp [List.map_filterMap]
    have hmem : ∀ j ∈ positions.filterMap (jobs[·]?), j ∈ jobs := by
      intro j hj
      obtain ⟨i, -, hi⟩ := List.mem_filterMap.1 hj
      exact List.mem_of_getElem? hi
    have hsettle := settleAll_always (P := P) (I := I) (positions.filterMap (jobs[·]?))
      fun j hj => h j (hmem j hj)
    rw [← hpicked] at hsettle
    refine hsettle.bind (fun rs hrs => .pure ?_) ?_
    · obtain ⟨ts, hts, hvalues, hwaits⟩ := answers_of_results (forall₂_inPlace hperm hrs)
      refine ⟨ts, hts, ?_⟩
      simp [Timed.all, ← hvalues, ← hwaits, readyAll_eq_none hready]
    · rintro e ⟨j, hj, he⟩
      exact ⟨j.1, List.mem_map_of_mem (hmem j hj), he⟩

/-! ## Positions -/

variable {recur : Schema Value → Value → Run (Outcome Result)}
  {P : Schema Value × Value → Except Fault (Timed Result) → Prop}

/-- Each position leaves its own work. -/
theorem evaluateAll_always (items : List (Schema Value × Value))
    (h : ∀ p ∈ items, (recur p.1 p.2).Brings I (P p)) :
    (evaluateAll recur items).Always I fun
      | .ok os => ∃ jobs : List (Job (Schema Value × Value)),
          jobs.map (·.1) = items ∧ jobs.map (·.2) = os ∧ ∀ j ∈ jobs, j.2.Brings I (P j.1)
      | .error e => ∃ p ∈ items, P p (.error e) := by
  induction items with
  | nil => exact .pure ⟨[], rfl, rfl, by simp⟩
  | cons p items ih =>
    have hp := h p (List.mem_cons_self ..)
    have hrest := ih fun q hq => h q (List.mem_cons_of_mem _ hq)
    refine Run.Always.bind hp (fun o ho => hrest.bind (fun os hos => .pure ?_) ?_) ?_
    · obtain ⟨jobs, hitems, rfl, hjobs⟩ := hos
      exact ⟨(p, o) :: jobs, by simp [hitems], rfl, List.forall_mem_cons.2 ⟨ho, hjobs⟩⟩
    · rintro e ⟨q, hq, he⟩
      exact ⟨q, List.mem_cons_of_mem _ hq, he⟩
    · intro e he
      exact ⟨p, List.mem_cons_self .., he⟩

/-- Evaluating one after the other up to the first that is not valid. -/
theorem evaluateInOrder_brings (items : List (Schema Value × Value))
    (h : ∀ p ∈ items, (recur p.1 p.2).Brings I (P p)) :
    (evaluateInOrder recur items).Brings I (Together (Stops P) (Breaks P) items) := by
  induction items with
  | nil => exact .ready ⟨[], .done, rfl⟩
  | cons p items ih =>
    have hp := h p (List.mem_cons_self ..)
    have hrest := ih fun q hq => h q (List.mem_cons_of_mem _ hq)
    -- The rest follows a valid answer, with the same note on waiting in both branches.
    have step : ∀ t : Timed Result, P p (.ok t) → t.value.valid = true →
        ∀ e, Together (Stops P) (Breaks P) items e →
          Together (Stops P) (Breaks P) (p :: items) (e.map fun u => ⟨t.value :: u.value, t.waits || u.waits⟩) := by
      rintro t ht hvalid (e | u) hu
      · exact .goes ht hvalid hu
      · obtain ⟨ts, hts, rfl⟩ := hu
        exact ⟨t :: ts, .goes ht hvalid hts, rfl⟩
    refine hp.bindOutcome (fun o ho => ?_) fun e he => .here he
    cases o with
    | ready r =>
      by_cases hr : r.valid
      · simp only [hr, if_true]
        refine hrest.map (fun u hu => ?_) fun e he => ?_
        · simpa [Except.map] using step ⟨r, false⟩ ho hr (.ok u) hu
        · exact step ⟨r, false⟩ ho hr (.error e) he
      · simp only [hr]
        exact .ready ⟨[⟨r, false⟩], .fails ho (by simpa using hr), rfl⟩
    | later work =>
      refine .later ((Outcome.brings_later.1 ho).bind (fun r hr => ?_) fun e he => ?_)
      · by_cases hvalid : r.valid
        · simp only [hvalid, if_true]
          refine Run.Always.bind hrest (fun o ho => ho.settle.bind (fun rs hrs => .pure ?_) ?_) ?_
          · simpa [Except.map] using step ⟨r, true⟩ hr hvalid _ hrs
          · exact fun e he => step ⟨r, true⟩ hr hvalid _ he
          · exact fun e he => step ⟨r, true⟩ hr hvalid _ he
        · simp only [hvalid]
          exact .pure ⟨[⟨r, true⟩], .fails hr (by simpa using hvalid), rfl⟩
      · exact .here he

/-- What the positions of a structure come to, as the options of the parse ask. -/
def Evaluated (ctx : Context) (P : Schema Value × Value → Except Fault (Timed Result) → Prop) :
    List (Schema Value × Value) → Except Fault (Timed (List Result)) → Prop :=
  Together (if ctx.abortEarly then Stops P else Answers P)
    (if ctx.abortEarly then Breaks P else Fails P)

theorem evaluateItems_brings (ctx : Context) (items : List (Schema Value × Value))
    (h : ∀ p ∈ items, (recur p.1 p.2).Brings I (P p)) :
    (evaluateItems host recur ctx items).Brings I (Evaluated ctx P items) := by
  unfold evaluateItems Evaluated
  by_cases habort : ctx.abortEarly
  · simp only [habort, if_true]
    exact evaluateInOrder_brings items h
  · simp only [habort]
    refine .bind (evaluateAll_always items h) (fun os hos => ?_) fun e he => he
    obtain ⟨jobs, rfl, rfl, hjobs⟩ := hos
    exact .pure (gather_brings jobs hjobs)

/-- Each result belongs to the position of its index. -/
theorem getElem?_of_evaluated {ctx : Context} {items : List (Schema Value × Value)}
    {t : Timed (List Result)} {Q : Schema Value × Value → Result → Prop}
    (hQ : ∀ p u, P p (.ok u) → Q p u.value) (h : Evaluated ctx P items (.ok t)) :
    ∀ (i : Nat) r, t.value[i]? = some r → ∃ p, items[i]? = some p ∧ Q p r := by
  obtain ⟨ts, hts, rfl⟩ := h
  by_cases habort : ctx.abortEarly
  · simp only [habort, if_true] at hts
    induction hts with
    | done => simp [Timed.all]
    | @fails p _ u hp _ =>
      rintro (_ | i) r hr
      · obtain rfl : u.value = r := by simpa [Timed.all] using hr
        exact ⟨p, rfl, hQ _ _ hp⟩
      · simp [Timed.all] at hr
    | @goes p _ u _ hp _ _ ih =>
      rintro (_ | i) r hr
      · obtain rfl : u.value = r := by simpa [Timed.all] using hr
        exact ⟨p, rfl, hQ _ _ hp⟩
      · exact ih i r hr
  · simp only [habort] at hts
    induction hts with
    | nil => simp [Timed.all]
    | @cons p u _ _ hp _ ih =>
      rintro (_ | i) r hr
      · obtain rfl : u.value = r := by simpa [Timed.all] using hr
        exact ⟨p, rfl, hQ _ _ hp⟩
      · exact ih i r hr

end

/-! ## Options -/

/-- A timed answer is one that the outcome may come to. -/
def Outcome.Shows (o : Outcome Result) (t : Timed Result) : Prop :=
  t.waits = o.waits ∧ ∀ r, o = .ready r → t.value = r

theorem Outcome.Brings.shows {o : Outcome Result} {Q : Except Fault (Timed Result) → Prop}
    (h : o.Brings I Q) : o.Brings I fun e => Q e ∧ ∀ t, e = .ok t → o.Shows t := by
  cases o with
  | ready r => exact ⟨h, by rintro t ⟨⟩; exact ⟨rfl, by rintro r' ⟨⟩; rfl⟩⟩
  | later work =>
    refine Outcome.brings_later.2 ((Outcome.brings_later.1 h).mono fun e he => ⟨he, ?_⟩)
    rintro t ht
    cases e with
    | error e => cases ht
    | ok r =>
      cases ht
      exact ⟨rfl, by rintro r' ⟨⟩⟩

section

variable {α : Type} {P : α → Except Fault (Timed Result) → Prop}

/-- No outcome in the list ends a search for a valid one: where one is there and valid, one
before it has to wait. -/
def Passed : Bool → List (Job α) → Prop
  | _, [] => True
  | waiting, j :: js =>
    (∀ r, j.2 = .ready r → (waiting || !r.valid) = true) ∧ Passed (waiting || j.2.waits) js

theorem tries_of_passed {waiting : Bool} {jobs : List (Job α)} {ts : List (Timed Result)}
    (hp : Passed waiting jobs)
    (h : List.Forall₂ (fun j t => P j.1 (.ok t) ∧ j.2.Shows t) jobs ts) :
    Tries P waiting (jobs.map (·.1)) ts := by
  induction h generalizing waiting with
  | nil => exact .done
  | @cons j t jobs ts hj _ ih =>
    obtain ⟨ht, hwaits, hvalue⟩ := hj
    obtain ⟨hnow, hlater⟩ := hp
    refine .goes ht ?_ ?_
    · rcases hj2 : j.2 with r | work
      · rw [hvalue r hj2, Bool.or_assoc, Bool.or_comm t.waits, ← Bool.or_assoc, hnow r hj2]
        rfl
      · simp [hwaits, hj2, Outcome.waits]
    · rw [hwaits]
      exact ih hlater

end

section

variable {recur : Schema Value → Value → Run (Outcome Result)}
  {P : Schema Value → Except Fault (Timed Result) → Prop} {v : Value}

/-- Trying options ends with a valid one, before which none was waited for, or with outcomes
that are all passed. -/
theorem tryOptions_always (options : List (Schema Value))
    (h : ∀ s ∈ options, (recur s v).Brings I (P s)) (waiting : Bool) :
    (tryOptions recur v waiting options).Always I fun
      | .ok (.error r) => waiting = false ∧ ∃ ts, Tries P false options ts ∧
          (ts.map (·.value)).find? Result.valid = some r ∧ ts.any (·.waits) = false
      | .ok (.ok os) => ∃ jobs : List (Job (Schema Value)), jobs.map (·.1) = options ∧
          jobs.map (·.2) = os ∧ Passed waiting jobs ∧ ∀ j ∈ jobs, j.2.Brings I (P j.1)
      | .error e => ∃ s ∈ options, P s (.error e) := by
  induction options generalizing waiting with
  | nil => exact .pure ⟨[], rfl, rfl, trivial, by simp⟩
  | cons s rest ih =>
    have hs := h s (List.mem_cons_self ..)
    have hrest := ih fun o ho => h o (List.mem_cons_of_mem _ ho)
    refine Run.Always.bind hs (fun o ho => ?_) fun e he => ⟨s, List.mem_cons_self .., he⟩
    cases o with
    | ready r =>
      by_cases htake : (!waiting && r.valid) = true
      · simp only [htake, if_true]
        obtain ⟨hw, hr⟩ := Bool.and_eq_true_iff.1 htake
        rw [Bool.not_eq_true'] at hw
        exact .pure ⟨hw, [⟨r, false⟩], .takes ho rfl hr, by simp [hr], rfl⟩
      · simp only [htake]
        have hgoes : (waiting || !r.valid) = true := by
          cases waiting <;> simp_all
        refine (hrest waiting).map (fun a ha => ?_) ?_
        · cases a with
          | error r' =>
            obtain ⟨rfl, ts, hts, hfind, hany⟩ := ha
            have hinvalid : r.valid = false := by simpa using hgoes
            refine ⟨rfl, ⟨r, false⟩ :: ts, .goes ho (by simpa using hinvalid) hts, ?_, ?_⟩
            · simpa [hinvalid] using hfind
            · simpa using hany
          | ok os =>
            obtain ⟨jobs, rfl, rfl, hpassed, hjobs⟩ := ha
            refine ⟨(s, .ready r) :: jobs, rfl, rfl, ⟨?_, ?_⟩, ?_⟩
            · rintro r' ⟨⟩
              exact hgoes
            · simpa [Outcome.waits] using hpassed
            · exact List.forall_mem_cons.2 ⟨ho, hjobs⟩
        · rintro e ⟨o, ho, he⟩
          exact ⟨o, List.mem_cons_of_mem _ ho, he⟩
    | later work =>
      refine (hrest true).map (fun a ha => ?_) ?_
      · cases a with
        | error r' => exact absurd ha.1 (by simp)
        | ok os =>
          obtain ⟨jobs, rfl, rfl, hpassed, hjobs⟩ := ha
          refine ⟨(s, .later work) :: jobs, rfl, rfl, ⟨by rintro r' ⟨⟩, ?_⟩, ?_⟩
          · simpa [Outcome.waits] using hpassed
          · exact List.forall_mem_cons.2 ⟨ho, hjobs⟩
      · rintro e ⟨o, ho, he⟩
        exact ⟨o, List.mem_cons_of_mem _ ho, he⟩

/-- What a union comes to: the answers of the options that it tries, in one result. -/
def Chosen (P : Schema Value → Except Fault (Timed Result) → Prop) (s : Schema Value)
    (options : List (Schema Value)) (v : Value) : Except Fault (Timed Result) → Prop
  | .ok t => ∃ ts, Tries P false options ts ∧
      t = ⟨unionResult s v (ts.map (·.value)), ts.any (·.waits)⟩
  | .error e => ∃ o ∈ options, P o (.error e)

theorem evaluateUnion_brings (s : Schema Value) (options : List (Schema Value))
    (h : ∀ o ∈ options, (recur o v).Brings I (P o)) :
    (evaluateUnion host recur s options v).Brings I (Chosen P s options v) := by
  refine .bind (tryOptions_always options h false) (fun a ha => ?_) fun e he => he
  cases a with
  | error r =>
    obtain ⟨-, ts, hts, hfind, hany⟩ := ha
    exact .ready ⟨ts, hts, by simp [unionResult, hfind, hany]⟩
  | ok os =>
    obtain ⟨jobs, rfl, rfl, hpassed, hjobs⟩ := ha
    -- Each job is its own input here, so that its outcome tells what its answer shows.
    let Q (j : Job (Schema Value)) (e : Except Fault (Timed Result)) : Prop :=
      P j.1 e ∧ ∀ t, e = .ok t → j.2.Shows t
    have hgather : (gather host (jobs.map (·.2))).Brings I (Together (Answers Q) (Fails Q) jobs) := by
      simpa [Function.comp_def] using gather_brings (P := Q) (jobs.map fun j => (j, j.2))
        (List.forall_mem_map.2 fun j hj => (hjobs j hj).shows)
    refine .pure (hgather.map (fun t ht => ?_) fun e he => ?_)
    · obtain ⟨ts, hts, rfl⟩ := ht
      refine ⟨ts, tries_of_passed hpassed (hts.imp fun j t hj => ⟨hj.1, hj.2 t rfl⟩), rfl⟩
    · obtain ⟨j, hj, he, -⟩ := he
      exact ⟨j.1, List.mem_map_of_mem hj, he⟩

end

/-! ## Entries -/

theorem entryItems_value (keyType valueType : Schema Value) (data : Entries) (n : Nat) :
    (Structure.entryItems keyType valueType data)[2 * n + 1]? =
      data[n]?.map fun e => (valueType, e.2) := by
  induction data generalizing n with
  | nil => rfl
  | cons e data ih =>
    cases n with
    | zero => rfl
    | succ n => exact ih n

/-- An issue of assembled entries was there before, or is reported for the key or for the value of
one of them. -/
theorem mem_entries_issues {report : Structure.EntryReport} {keys : List Value} {rs : List Result}
    {acc r : Result} {output : Entries}
    (h : Structure.entries report keys rs acc output = .ok r) {i : Issue Value}
    (hi : i ∈ r.issues) :
    i ∈ acc.issues ∨ ∃ n k, keys[n]? = some k ∧
      ((∃ kr, rs[2 * n]? = some kr ∧ i ∈ report.ofKey k kr) ∨
        ∃ vr, rs[2 * n + 1]? = some vr ∧ i ∈ report.ofValue k vr) := by
  induction keys generalizing rs acc output with
  | nil =>
    obtain rfl : ⟨.dict output, acc.issues⟩ = r := by simpa [Structure.entries] using h
    exact .inl hi
  | cons k keys ih =>
    match rs with
    | [] =>
      obtain rfl : ⟨.dict output, acc.issues⟩ = r := by simpa [Structure.entries] using h
      exact .inl hi
    | [kr] =>
      obtain rfl : ⟨.dict output, acc.issues ++ report.ofKey k kr⟩ = r := by
        simpa [Structure.entries] using h
      rcases List.mem_append.1 hi with hi | hi
      · exact .inl hi
      · exact .inr ⟨0, k, rfl, .inl ⟨kr, rfl, hi⟩⟩
    | kr :: vr :: rest =>
      obtain ⟨output', -, h⟩ := bind_eq_ok.1 h
      rcases ih h with hi | ⟨n, k', hk', hfound⟩
      · rcases List.mem_append.1 hi with hi | hi
        · exact .inl hi
        · rcases List.mem_append.1 hi with hi | hi
          · exact .inr ⟨0, k, rfl, .inl ⟨kr, rfl, hi⟩⟩
          · exact .inr ⟨0, k, rfl, .inr ⟨vr, rfl, hi⟩⟩
      · exact .inr ⟨n + 1, k', hk', hfound⟩

end Assay
