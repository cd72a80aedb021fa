import Assay.Proofs.IssuePaths
import Assay.Proofs.ListedKeys
import Assay.Proofs.Upkeep

/-!
# The elements that maps reject

A map reports an element under its key. What the issue shows as the input is not the element but
what the evaluation of the element against the schema of values has left of it
(`map_shows_remains`). The two are the same when that schema returns what it rejects
(`Schema.Returns`): scalars do, and choices among schemas, and what passes a value on to such
schemas. An object does only in a parse that stops early: in a full one it leaves the fields that
it accepts (`map_shows_no_element`).
-/

namespace Assay

open Run

variable {host : Host} {ctx : Context} {I : Session → Prop} {K : KindTable}

/-! ## Schemas that leave values as they are -/

/-- The check overwrites nothing. -/
def Value.leavesValue : Value → Bool
  | .check c => !(c.rule matches .overwrite ..)
  | _ => true

/-- The form asks a function about the value or chooses schemas for it. -/
def Form.chooses : Form Value (Schema Value) → Bool
  | .custom .. | .union _ | .discriminatedUnion .. | .optional _ | .nullable _ | .pipe .. => true
  | _ => false

/-- The form converts nothing, and takes nothing apart. -/
def Form.looks (form : Form Value (Schema Value)) : Bool :=
  (form.isScalar && form.locates) || form.chooses

/-- The schema hands every value on as it is, whether it accepts it or not. -/
inductive Schema.Looks (K : KindTable) : Schema Value → Prop
  | intro {s : Schema Value} : K.evaluator? s.kind = .ok (.builtin .evaluateNode) →
      (∀ c ∈ s.checks, c.leavesValue = true) → s.form.looks = true →
      (∀ t ∈ s.form.parts, Looks K t) → Looks K s

/-- The form returns what it rejects, whatever its parts do. -/
def Form.returns (ctx : Context) : Form Value (Schema Value) → Bool
  | .string _ | .boolean _ | .date _ | .enumeration .. => true
  | .union _ | .intersection .. | .catching .. => true
  | .object _ policy catchall => ctx.abortEarly && (catchall.isSome || !(policy matches .strict))
  | _ => false

/-- The form returns what it rejects when its parts do. -/
def Form.defers : Form Value (Schema Value) → Bool
  | .discriminatedUnion .. | .optional _ | .nullable _ | .default .. | .readonly _ => true
  | _ => false

/-- A value that the schema rejects comes back from it as it is. -/
inductive Schema.Returns (K : KindTable) (ctx : Context) : Schema Value → Prop
  | looks {s : Schema Value} : s.Looks K → Returns K ctx s
  | alone {s : Schema Value} : K.evaluator? s.kind = .ok (.builtin .evaluateNode) →
      s.checks = [] → s.form.returns ctx = true → Returns K ctx s
  | defers {s : Schema Value} : K.evaluator? s.kind = .ok (.builtin .evaluateNode) →
      s.checks = [] → s.form.defers = true → (∀ t ∈ s.form.parts, Returns K ctx t) →
      Returns K ctx s
  | pipe {s source target : Schema Value} :
      K.evaluator? s.kind = .ok (.builtin .evaluateNode) → s.checks = [] →
      s.form = .pipe source target → source.Looks K → Returns K ctx target → Returns K ctx s

/-- What comes of the value is the value. -/
abbrev Hands (v : Value) (e : Except Fault (Timed Result)) : Prop :=
  ∀ t, e = .ok t → t.value.value = v

/-- What is rejected of the value is the value. -/
abbrev GivesBack (v : Value) (e : Except Fault (Timed Result)) : Prop :=
  ∀ t, e = .ok t → t.value.valid = false → t.value.value = v

theorem Hands.givesBack {v : Value} {e : Except Fault (Timed Result)} (h : Hands v e) :
    GivesBack v e :=
  fun t ht _ => h t ht

theorem hands_ready {r : Result} {v : Value} (h : r.value = v) :
    (pure (.ready r) : Run (Outcome Result)).Brings I (Hands v) :=
  .ready (by rintro t ⟨⟩; exact h)

theorem givesBack_ready {r : Result} {v : Value} (h : r.valid = false → r.value = v) :
    (pure (.ready r) : Run (Outcome Result)).Brings I (GivesBack v) :=
  .ready (by rintro t ⟨⟩; exact h)

/-! ### Checks -/

theorem runCheck_hands {c : Value} (hc : c.leavesValue = true) (v : Value) :
    (runCheck host ctx c v).Brings (fun _ => True) (Hands v) := by
  cases c with
  | check c =>
    obtain ⟨id, rule, error, abort⟩ := c
    cases rule with
    | overwrite fn name => cases hc
    | refinement fn path params =>
      refine Run.Brings.anything.andThen (fun verdict _ => ?_) (by rintro e - t ⟨⟩)
      split
      · exact .ready (by rintro t ⟨⟩; rfl)
      · refine .bind (P := fun _ => True) (fun _ _ => ⟨trivial, trivial⟩)
          (fun params _ => .ready ?_) (by rintro e - t ⟨⟩)
        rintro t ⟨⟩
        rfl
    | superRefinement fn =>
      refine Run.Brings.anything.map (fun t _ => ?_) (by rintro e - t ⟨⟩)
      rintro _ ⟨⟩
      rfl
    | _ =>
      refine .bind (P := fun _ => True) (.lift trivial) (fun detail _ => .ready ?_)
        (by rintro e - t ⟨⟩)
      rintro t ⟨⟩
      rfl
  | schema s =>
    dsimp only [runCheck]
    split
    · exact hands_ready rfl
    · exact .throw (by rintro t ⟨⟩)
  | _ => exact .throw (by rintro t ⟨⟩)

theorem allChecks_leaveValue {s : Schema Value} (h : ∀ c ∈ s.checks, c.leavesValue = true) :
    ∀ c ∈ s.allChecks, c.leavesValue = true := by
  unfold Schema.allChecks
  split
  · exact List.forall_mem_cons.2 ⟨rfl, h⟩
  · exact h

/-- Checks that overwrite nothing leave the value of a result. -/
theorem runChecks_hands {s : Schema Value} (hchecks : ∀ c ∈ s.checks, c.leavesValue = true)
    (r : Result) : (runChecks host ctx s r).Brings (fun _ => True) (Hands r.value) := by
  unfold runChecks
  split
  · refine runChecksFrom_brings (P := fun q => q.value = r.value) (fun c hc q hq => ?_) rfl
    refine (runCheck_hands (allChecks_leaveValue hchecks c hc) q.value).mono fun e he t ht => ?_
    exact (he t ht).trans hq
  · exact hands_ready rfl

/-- Without checks a result is what its form comes to. -/
theorem runChecks_none {s : Schema Value} (htag : s.form.checkTag? = none)
    (hchecks : s.checks = []) (r : Result) : runChecks host ctx s r = pure (.ready r) := by
  unfold runChecks Schema.allChecks
  simp [htag, hchecks, runChecksFrom]

/-! ### Forms -/

section

variable {recur : Schema Value → Value → Run (Outcome Result)}
  {absent : Schema Value → Run Bool} {s : Schema Value} {v : Value}

theorem evaluateCustom_hands (fn params : Value) :
    (evaluateCustom host ctx s fn params v).Brings (fun _ => True) (Hands v) := by
  unfold evaluateCustom
  split
  · exact hands_ready rfl
  · refine Run.Brings.anything.andThen (fun verdict _ => ?_) (by rintro e - t ⟨⟩)
    split
    · exact .ready (by rintro t ⟨⟩; rfl)
    · refine .bind (P := fun _ => True) (fun _ _ => ⟨trivial, trivial⟩)
        (fun params _ => .ready ?_) (by rintro e - t ⟨⟩)
      rintro t ⟨⟩
      rfl

theorem unionResult_value {rs : List Result} (h : ∀ r ∈ rs, r.value = v) :
    (unionResult s v rs).value = v := by
  unfold unionResult
  split
  · rename_i r hfind
    exact h r (List.mem_of_find?_eq_some hfind)
  · rfl

theorem unionResult_givesBack (rs : List Result) (h : (unionResult s v rs).valid = false) :
    (unionResult s v rs).value = v := by
  unfold unionResult at h ⊢
  split at h
  · cases h
  · rfl

/-- A discriminated union brings what its options do, and otherwise reports on the value. -/
theorem evaluateDiscriminated_brings {Q : Except Fault (Timed Result) → Prop}
    {options : List (Schema Value)} (d : Value) (table : List (Value × Nat))
    (h : ∀ t ∈ options, (recur t v).Brings I Q) (hown : ∀ issues, Q (.ok ⟨⟨v, issues⟩, false⟩))
    (herror : ∀ e, Q (.error e)) :
    (evaluateDiscriminated recur s options d table v).Brings I Q := by
  unfold evaluateDiscriminated
  split
  · exact .ready (hown _)
  · refine .bind (P := fun _ => True) ?_ (fun key _ => ?_) fun e _ => herror e
    · unfold Construct.hashable
      split
      · exact .pure trivial
      · exact .throw trivial
    · dsimp only
      split
      · rename_i option hpick
        exact h option (pickOption_mem hpick)
      · exact .ready (hown _)

/-- A pipe from a schema that hands the value on brings what its target does. -/
theorem pipe_brings {source target : Schema Value} (hform : s.form = .pipe source target)
    {P : Result → Prop} (hsource : (recur source v).Brings I (Hands v))
    (htarget : (recur target v).Brings I fun e => ∀ t, e = .ok t → P t.value)
    (hrejected : ∀ r : Result, r.value = v → P r) :
    (evaluateForm host ctx recur absent s v).Brings I fun e => ∀ t, e = .ok t → P t.value := by
  simp only [evaluateForm, hform]
  refine hsource.andThen (fun t ht => ?_) (by rintro e - t ⟨⟩)
  have hvalue := ht t rfl
  split
  · rw [hvalue]
    exact htarget.mono fun _ he => forall_timed he t.waits
  · refine .ready ?_
    rintro u ⟨⟩
    exact hrejected _ hvalue

/-- What a form that only looks makes of a value is the value. -/
theorem evaluateForm_hands
    (hkeeps : (evaluateForm host ctx recur absent s v).Brings I fun _ => True)
    (hlooks : s.form.looks = true)
    (hrec : ∀ t ∈ s.form.parts, ∀ w, (recur t w).Brings I (Hands w)) :
    (evaluateForm host ctx recur absent s v).Brings I (Hands v) := by
  rcases Bool.or_eq_true_iff.1 hlooks with hscalar | hchooses
  · obtain ⟨hscalar, hlocates⟩ := Bool.and_eq_true_iff.1 hscalar
    exact scalar_value hlocates hscalar
  cases hform : s.form with
  | custom fn params =>
    refine Run.Brings.within ?_ hkeeps
    simp only [evaluateForm, hform]
    exact evaluateCustom_hands fn params
  | union options =>
    simp only [evaluateForm, hform]
    refine (evaluateUnion_brings (P := fun _ => Hands v) s options fun t ht =>
      hrec t (by simpa [hform, Form.parts] using ht) v).mono ?_
    rintro e he t rfl
    obtain ⟨ts, hts, rfl⟩ := he
    refine unionResult_value fun r hr => ?_
    obtain ⟨u, hu, rfl⟩ := List.mem_map.1 hr
    obtain ⟨-, -, hhands⟩ := forall_of_tries hts u hu
    exact hhands u rfl
  | discriminatedUnion options d table =>
    simp only [evaluateForm, hform]
    refine evaluateDiscriminated_brings d table
      (fun t ht => hrec t (by simpa [hform, Form.parts] using ht) v) ?_ (by rintro e t ⟨⟩)
    rintro issues t ⟨⟩
    rfl
  | optional inner | nullable inner =>
    simp only [evaluateForm, hform]
    split
    · exact hands_ready rfl
    · exact hrec inner (by simp [hform, Form.parts]) v
  | pipe source target =>
    exact pipe_brings hform (hrec source (by simp [hform, Form.parts]) v)
      (hrec target (by simp [hform, Form.parts]) v) fun _ hr => hr
  | _ => simp [hform, Form.chooses] at hchooses

theorem require_givesBack {test : Value → Bool} {expected : String} {w : Value}
    (h : (Scalar.require test expected s w).valid = false) (hw : test w = false → w = v) :
    (Scalar.require test expected s w).value = v := by
  unfold Scalar.require at h ⊢
  cases htest : test w with
  | true =>
    rw [htest] at h
    cases h
  | false => exact hw htest

/-- A text is made of all but an absent value and null, which are no texts. -/
theorem string_givesBack {c : Bool} (h : (Scalar.string s c v).valid = false) :
    (Scalar.string s c v).value = v := by
  refine require_givesBack h fun hrejected => ?_
  cases c with
  | false => rfl
  | true => cases v <;> first | rfl | cases hrejected

theorem boolean_givesBack {c : Bool} (h : (Scalar.boolean s c v).valid = false) :
    (Scalar.boolean s c v).value = v := by
  refine require_givesBack h fun hrejected => ?_
  cases c with
  | false => rfl
  | true => cases v <;> first | rfl | cases hrejected

/-- A day or a moment that is made of a text is accepted. -/
theorem coerceDate_isDate {w : Value} (h : Scalar.coerceDate v = some w)
    (hw : Scalar.isDate w = false) : w = v := by
  unfold Scalar.coerceDate at h
  split at h
  · split at h
    · obtain ⟨t, -, rfl⟩ := Option.map_eq_some_iff.1 h
      cases hw
    · obtain ⟨d, -, rfl⟩ := Option.map_eq_some_iff.1 h
      cases hw
  · exact (Option.some.inj h).symm

theorem date_givesBack {c : Bool} (h : (Scalar.date s c v).valid = false) :
    (Scalar.date s c v).value = v := by
  unfold Scalar.date at h ⊢
  cases c with
  | false => exact require_givesBack h fun _ => rfl
  | true =>
    simp only [if_true] at h ⊢
    cases hw : Scalar.coerceDate v with
    | none => rfl
    | some w =>
      rw [hw] at h
      exact require_givesBack h (coerceDate_isDate hw)

theorem enumeration_givesBack {entries : List (Value × Value)} {cls : Option (EnumClass Value)}
    (h : (Scalar.enumeration s entries cls v).valid = false) :
    (Scalar.enumeration s entries cls v).value = v := by
  unfold Scalar.enumeration at h ⊢
  cases cls with
  | some c =>
    dsimp only at h ⊢
    cases hmember : Scalar.memberOf? c v with
    | some m =>
      rw [hmember] at h
      cases h
    | none => rfl
  | none =>
    dsimp only at h ⊢
    split <;> rfl

/-- A parse that stops early leaves an object alone that has a wrong field. -/
theorem object_givesBack {policy : UnknownKeys} {hasCatchall : Bool} {unknown : Entries}
    {placed : List Placed} (hearly : ctx.abortEarly = true)
    (hpolicy : (hasCatchall || !(policy matches .strict)) = true)
    (h : (Structure.object s ctx policy hasCatchall v unknown placed).valid = false) :
    (Structure.object s ctx policy hasCatchall v unknown placed).value = v := by
  unfold Structure.object at h ⊢
  cases hissues : (Structure.issuesUnder placed).isEmpty with
  | false => simp only [hearly, hissues, Bool.not_false, Bool.and_self, if_true]
  | true =>
    -- All fields are right, so that only an unknown key may be wrong.
    simp only [hissues, Bool.not_true, Bool.and_false, Bool.false_eq_true, if_false] at h
    cases hknown : hasCatchall || unknown.isEmpty with
    | true =>
      rw [hknown, if_pos rfl] at h
      rw [Result.valid, hissues] at h
      cases h
    | false =>
      obtain ⟨rfl, -⟩ := Bool.or_eq_false_iff.1 hknown
      rw [hknown] at h
      cases policy with
      | strict => cases hpolicy
      | strip =>
        rw [if_neg Bool.false_ne_true, Result.valid, hissues] at h
        cases h
      | passthrough =>
        rw [if_neg Bool.false_ne_true, Result.valid, hissues] at h
        cases h

theorem intersection_givesBack {rs : List Result} {r : Result}
    (hr : intersectionResult v rs = .ok r) (h : r.valid = false) : r.value = v := by
  unfold intersectionResult at hr
  dsimp only at hr
  split at hr
  · split at hr
    · obtain ⟨w, -, hr⟩ := bind_eq_ok.1 hr
      cases hr
      cases h
    · cases hr
      rfl
  · cases hr
    rfl

/-- What a form that returns what it rejects rejects is the value. -/
theorem evaluateForm_givesBack (hreturns : s.form.returns ctx = true) :
    (evaluateForm host ctx recur absent s v).Brings (fun _ => True) (GivesBack v) := by
  unfold evaluateForm
  cases hform : s.form with
  | string c => exact givesBack_ready string_givesBack
  | boolean c => exact givesBack_ready boolean_givesBack
  | date c => exact givesBack_ready date_givesBack
  | enumeration entries cls => exact givesBack_ready enumeration_givesBack
  | object shape policy catchall =>
    rw [hform] at hreturns
    obtain ⟨hearly, hpolicy⟩ := Bool.and_eq_true_iff.1 hreturns
    dsimp only
    unfold evaluateObject
    split
    · exact (hands_ready rfl).mono fun _ => Hands.givesBack
    · refine Run.Brings.anything.map (fun t _ => ?_) (by rintro e - t ⟨⟩)
      rintro _ ⟨⟩ hrejected
      exact object_givesBack hearly hpolicy hrejected
  | union options =>
    refine (evaluateUnion_brings (P := fun _ _ => True) s options
      fun _ _ => Run.Brings.anything).mono ?_
    rintro e he t rfl
    obtain ⟨ts, -, rfl⟩ := he
    exact unionResult_givesBack _
  | intersection l r =>
    refine Run.Brings.anything.andThen (fun t _ => ?_) (by rintro e - t ⟨⟩)
    refine .bind (.lift rfl) (fun r hr => .ready ?_) (by rintro e - t ⟨⟩)
    rintro _ ⟨⟩
    exact intersection_givesBack hr
  | catching inner fallback =>
    have hvalid {r : Result} (hr : r.valid = true) (waits : Bool) :=
      forall_timed (P := fun q => q.valid = false → q.value = v) (e := .ok ⟨r, false⟩)
        (by rintro _ ⟨⟩ hrejected; cases hr.symm.trans hrejected) waits
    refine Run.Brings.anything.andThen (fun t _ => ?_) (by rintro e - t ⟨⟩)
    split
    · rename_i hinner
      exact .ready (hvalid hinner t.waits)
    · -- The fallback has no issues, wherever it comes from.
      split
      · refine .bind (P := fun _ => True) (fun _ _ => ⟨trivial, trivial⟩) (fun issues _ => ?_)
          (by rintro e - t ⟨⟩)
        exact .bind (P := fun _ => True) (fun _ _ => ⟨trivial, trivial⟩)
          (fun r _ => .ready (hvalid rfl t.waits)) (by rintro e - t ⟨⟩)
      · exact .ready (hvalid rfl t.waits)
  | _ => simp [hform, Form.returns] at hreturns

/-- So it is when the form leaves the choice to parts that return what they reject. -/
theorem evaluateForm_defers
    (hkeeps : (evaluateForm host ctx recur absent s v).Brings I fun _ => True)
    (hdefers : s.form.defers = true)
    (hrec : ∀ t ∈ s.form.parts, (recur t v).Brings I (GivesBack v)) :
    (evaluateForm host ctx recur absent s v).Brings I (GivesBack v) := by
  have hhands (w : Value) (waits : Bool) : GivesBack v (.ok ⟨.ok w, waits⟩) := by
    rintro _ ⟨⟩ ⟨⟩
  cases hform : s.form with
  | discriminatedUnion options d table =>
    simp only [evaluateForm, hform]
    refine evaluateDiscriminated_brings d table
      (fun t ht => hrec t (by simpa [hform, Form.parts] using ht)) ?_ (by rintro e t ⟨⟩)
    rintro issues t ⟨⟩ -
    rfl
  | optional inner | nullable inner =>
    simp only [evaluateForm, hform]
    split
    · exact .ready (hhands _ _)
    · exact hrec inner (by simp [hform, Form.parts])
  | default inner d =>
    have hrec := hrec inner (by simp [hform, Form.parts])
    by_cases habsent : v = .missing
    · subst habsent
      refine Run.Brings.within ?_ hkeeps
      simp only [evaluateForm, hform]
      exact .bind (P := fun _ => True) (fun _ _ => ⟨trivial, trivial⟩)
        (fun w _ => .ready (hhands w _)) (by rintro e - t ⟨⟩)
    · simp only [evaluateForm, hform]
      exact hrec
  | readonly inner =>
    simp only [evaluateForm, hform]
    refine (hrec inner (by simp [hform, Form.parts])).map (fun t ht => ?_) (by rintro e - t ⟨⟩)
    rintro _ ⟨⟩
    dsimp only
    split
    · rintro ⟨⟩
    · exact ht t rfl
  | _ => simp [hform, Form.defers] at hdefers

end

/-! ### Evaluations -/

section

variable (h : Upkeep host I) (hkinds : ∀ σ, I σ → σ.kinds = K)
include h hkinds

/-- Whatever comes of a value by a schema that only looks is the value. -/
theorem evaluate_hands {s : Schema Value} (hs : s.Looks K) (fuel : Nat) (v : Value) :
    (evaluate host ctx fuel s v).Brings I (Hands v) := by
  induction fuel generalizing s v with
  | zero => exact .throw (by rintro t ⟨⟩)
  | succ fuel ih =>
    cases hs with
    | intro hown hchecks hlooks hparts =>
      refine evaluate_own_brings (P := fun r => r.value = v) (R := fun r => r.value = v)
        (fun σ hσ => hkinds σ hσ ▸ hown) (evaluateForm_hands (h.evaluateForm_keeps fuel s v)
          hlooks fun t ht w => ih (hparts t ht) w) ?_
      rintro r rfl
      exact (runChecks_hands hchecks r).within (h.runChecks_keeps s r)

/-- What a schema rejects that returns what it rejects is the value. -/
theorem evaluate_givesBack {s : Schema Value} (hs : s.Returns K ctx) (fuel : Nat) (v : Value) :
    (evaluate host ctx fuel s v).Brings I (GivesBack v) := by
  induction fuel generalizing s v with
  | zero => exact .throw (by rintro t ⟨⟩)
  | succ fuel ih =>
    -- Without checks an evaluation comes to what its form does.
    have hbare {u : Schema Value} (hown : K.evaluator? u.kind = .ok (.builtin .evaluateNode))
        (hnone : u.checks = []) (htag : u.form.checkTag? = none)
        (hform : (evaluateForm host ctx (evaluate host ctx fuel)
          (Schema.acceptsAbsent host fuel) u v).Brings I (GivesBack v)) :
        (evaluate host ctx (fuel + 1) u v).Brings I (GivesBack v) := by
      refine evaluate_own_brings (P := fun r => r.valid = false → r.value = v)
        (R := fun r => r.valid = false → r.value = v) (fun σ hσ => hkinds σ hσ ▸ hown) hform
        fun r hr => ?_
      rw [runChecks_none htag hnone]
      exact givesBack_ready hr
    cases hs with
    | looks hs => exact (evaluate_hands h hkinds hs _ v).mono fun _ => Hands.givesBack
    | alone hown hnone hreturns =>
      refine hbare hown hnone ?_
        ((evaluateForm_givesBack hreturns).within (h.evaluateForm_keeps fuel s v))
      revert hreturns
      cases s.form <;> simp [Form.returns, Form.checkTag?]
    | defers hown hnone hdefers hparts =>
      refine hbare hown hnone ?_ (evaluateForm_defers (h.evaluateForm_keeps fuel s v) hdefers
        fun t ht => ih (hparts t ht) v)
      revert hdefers
      cases s.form <;> simp [Form.defers, Form.checkTag?]
    | @pipe _ source target hown hnone hform hsource htarget =>
      refine hbare hown hnone (by rw [hform]; rfl) ?_
      exact pipe_brings (P := fun r => r.valid = false → r.value = v) hform
        (evaluate_hands h hkinds hsource fuel v) (ih htarget v) fun r hr _ => hr

end

/-! ## Maps -/

/-- An evaluation of the value against the schema that starts in a session of the invariant and is
awaited in one may come to the result. -/
def Schema.MayComeTo (host : Host) (ctx : Context) (I : Session → Prop) (s : Schema Value)
    (v : Value) (r : Result) : Prop :=
  ∃ fuel o σ ρ τ υ, I σ ∧ I τ ∧ (evaluate host ctx fuel s v).exec σ = (.ok o, ρ) ∧
    o.settle.exec τ = (.ok r, υ)

/-- An issue about an element shows the element. -/
def Issue.ShowsElement (data : Entries) (i : Issue Value) : Prop :=
  ∀ origin k nested, i.detail = .invalidElement origin k nested → (k, i.input) ∈ data

/-- An issue about an element stands under its key, and shows what an evaluation that rejects the
element has left of it. The issues that it nests are those of the evaluation. -/
def Issue.ShowsRemains (host : Host) (ctx : Context) (I : Session → Prop) (value : Schema Value)
    (data : Entries) (i : Issue Value) : Prop :=
  ∀ origin k nested, i.detail = .invalidElement origin k nested →
    i.path = [k] ∧ ∃ w r, (k, w) ∈ data ∧ value.MayComeTo host ctx I w r ∧ r.valid = false ∧
      i.input = r.value ∧ unwordedAll true nested = unwordedAll true r.issues

section

variable {s key value : Schema Value} {v : Value} {data : Entries}

/-- What an evaluation comes to is what the schema may come to. -/
theorem evaluate_mayComeTo (h : Upkeep host I) (fuel : Nat) (s : Schema Value) (v : Value) :
    (evaluate host ctx fuel s v).Brings I fun e =>
      ∀ t, e = .ok t → s.MayComeTo host ctx I v t.value := by
  intro σ hσ
  have hkept : (evaluate host ctx fuel s v).Brings I fun _ => True := h.evaluate_keeps fuel s v
  obtain ⟨hρ, hkeeps⟩ := hkept σ hσ
  refine ⟨hρ, ?_⟩
  rcases he : (evaluate host ctx fuel s v).exec σ with ⟨e | o, ρ⟩
  · rintro t ⟨⟩
  · rw [he] at hkeeps
    cases o with
    | ready r =>
      rintro t ⟨⟩
      exact ⟨fuel, .ready r, σ, ρ, σ, σ, hσ, hσ, he, rfl⟩
    | later work =>
      -- The work may be awaited in any session of the invariant.
      intro τ hτ
      refine ⟨((Outcome.brings_later.1 hkeeps) τ hτ).1, fun t ht => ?_⟩
      rcases hr : work.exec τ with ⟨e | r, υ⟩
      · rw [hr] at ht
        cases ht
      · rw [hr] at ht
        cases ht
        exact ⟨fuel, .later work, σ, ρ, τ, υ, hσ, hτ, he, hr⟩

/-- What a schema rejects that returns what it rejects comes back. -/
theorem Schema.MayComeTo.value_eq {w : Value} {r : Result} (h : Upkeep host I)
    (hkinds : ∀ σ, I σ → σ.kinds = K) (hs : s.Returns K ctx) (hr : s.MayComeTo host ctx I w r)
    (hinvalid : r.valid = false) : r.value = w := by
  obtain ⟨fuel, o, σ, ρ, τ, υ, hσ, hτ, ho, hsettle⟩ := hr
  exact Run.Brings.of_exec_in (P := fun r => r.valid = false → r.value = w)
    (evaluate_givesBack h hkinds hs fuel w) hσ hτ ho hsettle hinvalid

/-- An issue that nests no issues of an element shows none. -/
theorem showsRemains_of_finding {i : Issue Value} (h : i.detail.isFinding = true) :
    i.ShowsRemains host ctx I value data := by
  intro origin k nested hdetail
  rw [hdetail] at h
  cases h

/-- The words of an issue do not change what it shows, as long as it shows its input. -/
theorem showsRemains_of_worded {is js : List (Issue Value)}
    (h : unwordedAll true is = unwordedAll true js)
    (hjs : ∀ j ∈ js, j.ShowsRemains host ctx I value data) :
    ∀ i ∈ is, i.ShowsRemains host ctx I value data := by
  intro i hi origin k nested hdetail
  have hmem : i.unworded true ∈ unwordedAll true js := by
    rw [← h, unwordedAll_eq_map]
    exact List.mem_map_of_mem hi
  rw [unwordedAll_eq_map] at hmem
  obtain ⟨⟨path, message, input, source, detail⟩, hj, heq⟩ := List.mem_map.1 hmem
  obtain ⟨path', message', input', source', detail'⟩ := i
  obtain rfl : detail' = .invalidElement origin k nested := hdetail
  simp only [Issue.unworded, if_true, Issue.mk.injEq, true_and] at heq
  obtain ⟨rfl, rfl, hsame⟩ := heq
  cases detail with
  | invalidElement origin' k' nested' =>
    simp only [unwordedDetail, Detail.invalidElement.injEq] at hsame
    obtain ⟨rfl, rfl, hnested⟩ := hsame
    obtain ⟨hpath, w, r, hw, hr, hinvalid, hinput, hissues⟩ := hjs _ hj _ _ _ rfl
    exact ⟨hpath, w, r, hw, hr, hinvalid, hinput, hnested.symm.trans hissues⟩
  | _ => simp [unwordedDetail] at hsame

/-- The issues of the assembled entries of a map. -/
theorem entries_showRemains {rs : List Result}
    (h : ∀ (n : Nat) r, rs[n]? = some r → ∃ p, (Structure.entryItems key value data)[n]? = some p ∧
      p.1.MayComeTo host ctx I p.2 r) {r : Result}
    (hr : Structure.entries (Structure.mapReport s) (data.map (·.1)) rs ⟨v, []⟩ [] = .ok r) :
    ∀ i ∈ r.issues, i.ShowsRemains host ctx I value data := by
  intro i hi origin k nested hdetail
  obtain hi | ⟨n, k', hk', ⟨kr, -, hi⟩ | ⟨vr, hvr, hi⟩⟩ := mem_entries_issues hr hi
  · cases hi
  · unfold Structure.EntryReport.ofKey at hi
    split at hi
    · cases hi
    · obtain rfl := List.mem_singleton.1 hi
      cases hdetail
  · rw [List.getElem?_map] at hk'
    obtain ⟨e, he, rfl⟩ := Option.map_eq_some_iff.1 hk'
    obtain ⟨p, hp, hcomes⟩ := h _ vr hvr
    rw [entryItems_value, he] at hp
    cases hp
    unfold Structure.EntryReport.ofValue at hi
    split at hi
    · cases hi
    · rename_i hinvalid
      obtain rfl := List.mem_singleton.1 hi
      cases hdetail
      exact ⟨rfl, e.2, vr, List.mem_of_getElem? he, hcomes, by simpa using hinvalid, rfl, rfl⟩

/-- The issues that an evaluation of a map finds. -/
theorem evaluateMap_showsRemains (h : Upkeep host I) (fuel : Nat) (hdata : v.entries? = some data) :
    (evaluateMap host ctx (evaluate host ctx fuel) s key value v).Brings I fun e =>
      ∀ t, e = .ok t → ∀ i ∈ t.value.issues, i.ShowsRemains host ctx I value data := by
  unfold evaluateMap
  simp only [hdata]
  refine (evaluateItems_brings
    (P := fun p e => ∀ t, e = .ok t → p.1.MayComeTo host ctx I p.2 t.value)
    ctx _ fun p _ => evaluate_mayComeTo h fuel p.1 p.2).andThen (fun t ht => ?_)
    (by rintro e - t ⟨⟩)
  refine .bind (.lift rfl) (fun r hr => .ready ?_) (by rintro e - t ⟨⟩)
  rintro _ ⟨⟩
  exact entries_showRemains (getElem?_of_evaluated
    (Q := fun p r => p.1.MayComeTo host ctx I p.2 r) (fun p u hu => hu u rfl) ht) hr

/-- Whatever an evaluation of a map comes to, with its checks. -/
theorem evaluate_showsRemains (h : Upkeep host I) (hform : s.form = .map key value)
    (hchecks : ∀ c ∈ s.checks, c.reportsFindings = true) (hdata : v.entries? = some data)
    {fuel : Nat} {o : Outcome Result} {r : Result} {σ ρ τ υ : Session} (hσ : I σ) (hτ : I τ)
    (hown : σ.kinds.evaluator? s.kind = .ok (.builtin .evaluateNode))
    (ho : (evaluate host ctx fuel s v).exec σ = (.ok o, ρ))
    (hr : o.settle.exec τ = (.ok r, υ)) :
    ∀ i ∈ r.issues, i.ShowsRemains host ctx I value data := by
  let Shows (q : Result) : Prop := ∀ i ∈ q.issues, i.ShowsRemains host ctx I value data
  cases fuel with
  | zero => cases ho
  | succ fuel =>
    rw [evaluate_exec hown] at ho
    simp only [evaluateForm, hform] at ho
    have hmap : (evaluateMap host ctx (evaluate host ctx fuel) s key value v >>=
        checkOutcome host ctx s).Brings I fun e => ∀ t, e = .ok t → Shows t.value := by
      refine Run.Brings.checked (P := Shows) (R := Shows)
        (evaluateMap_showsRemains h fuel hdata) fun q hq => ?_
      -- Checks add findings alone, and keep what the form has found.
      refine ((runChecks_finds hchecks q).within (h.runChecks_keeps s q)).mono ?_
      intro e hkept t ht i hi
      cases hfinding : i.detail.isFinding with
      | true => exact showsRemains_of_finding hfinding
      | false => exact hq i ((hkept t ht i hfinding).1 hi)
    exact Run.Brings.of_exec_in (P := Shows) hmap hσ hτ ho hr

/-! ## Parses -/

/-- The issues about elements show what evaluations in sessions of the invariant have left of them.
They show the elements when the schema of values returns what it rejects, as long as the sessions
have the kinds by which it does. -/
structure ElementsShown (host : Host) (ctx : Context) (I : Session → Prop) (value : Schema Value)
    (data : Entries) (issues : List (Issue Value)) : Prop where
  remains : ∀ i ∈ issues, i.ShowsRemains host ctx I value data
  elements : ∀ K, (∀ τ, I τ → τ.kinds = K) → value.Returns K ctx →
    ∀ i ∈ issues, i.ShowsElement data

theorem elementsShown_of_remains (h : Upkeep host I) {issues : List (Issue Value)}
    (hremains : ∀ i ∈ issues, i.ShowsRemains host ctx I value data) :
    ElementsShown host ctx I value data issues where
  remains := hremains
  elements := by
    intro K hkinds hvalue i hi origin k nested hdetail
    obtain ⟨-, w, r, hw, hr, hinvalid, hinput, -⟩ := hremains i hi origin k nested hdetail
    rw [hinput, hr.value_eq h hkinds hvalue hinvalid]
    exact hw

/-- What a map reports of an element shows what its evaluation has left of it, wherever the map is
evaluated, and in the issues of a parse that shows inputs. -/
theorem map_shows_remains {σ : Session} (h : Upkeep host I) (hσ : I σ)
    (hform : s.form = .map key value)
    (hown : σ.kinds.evaluator? s.kind = .ok (.builtin .evaluateNode))
    (hchecks : ∀ c ∈ s.checks, c.reportsFindings = true) (hdata : v.entries? = some data) :
    (∀ r, s.MayComeTo host ctx
          (fun τ => I τ ∧ τ.kinds.evaluator? s.kind = .ok (.builtin .evaluateNode)) v r →
        ElementsShown host ctx I value data r.issues) ∧
      ∀ issues, ctx.reportInput = true →
        (safeParse host ctx s v).answer σ = .ok (.rejected issues) →
          ElementsShown host ctx I value data issues := by
  constructor
  · rintro r ⟨fuel, o, τ, ρ, υ, ω, ⟨hτ, hown⟩, ⟨hυ, -⟩, ho, hr⟩
    exact elementsShown_of_remains h
      (evaluate_showsRemains h hform hchecks hdata hτ hυ hown ho hr)
  · intro issues hreport hparse
    obtain ⟨o, ρ, ho, hparse⟩ := bind_exec_ok.1 (Prod.ext hparse rfl)
    obtain ⟨r, τ, hr, hparse⟩ := bind_exec_ok.1 hparse
    obtain ⟨-, hwords⟩ := conclude_answer (congrArg Prod.fst hparse)
    have hkept : (evaluate host ctx s.budget s v).Brings I fun _ => True :=
      h.evaluate_keeps s.budget s v
    have hρ : I ρ := by
      have hafter := (hkept σ hσ).1
      rwa [ho] at hafter
    -- The issues are worded, and keep their inputs because the parse shows them.
    rw [hreport] at hwords
    exact elementsShown_of_remains h (showsRemains_of_worded hwords
      (evaluate_showsRemains h hform hchecks hdata hσ hρ hown ho hr))

end

namespace Elements

def anything : Schema Value := ⟨1, .str "any", .any, [], [], .null⟩

def amount : Schema Value := ⟨2, .str "number", .number .null, [], [], .null⟩

/-- Mappings with an amount. -/
def entry : Schema Value :=
  ⟨3, .str "object", .object [(.str "a", amount)] .strip none, [], [], .null⟩

def mapOf (value : Schema Value) : Schema Value :=
  ⟨0, .str "map", .map anything value, [], [], .null⟩

/-- One amount, and nothing. -/
def amounts : Entries := [(.str "in", .int 1), (.str "out", .null)]

/-- A mapping in which a text stands for the amount. -/
def entries : Entries := [(.str "k", .dict [(.str "a", .str "x")])]

/-- What a parse that shows inputs comes to in a new session. -/
def parsed (value : Schema Value) (data : Entries) : Except Fault Parsed :=
  (safeParse Stock.host { reportInput := true } (mapOf value) (.dict data)).answer {}

theorem amount_returns : amount.Returns .initial { reportInput := true } :=
  .looks (.intro rfl nofun rfl nofun)

end Elements

open Elements in
/-- A number returns what it rejects, so that the issue shows what is no amount. -/
theorem map_shows_remains_amounts :
    ∃ i, parsed amount amounts = .ok (.rejected [i]) ∧ i.path = [.str "out"] ∧ i.input = .null ∧
      i.ShowsElement amounts := by
  refine ⟨_, rfl, rfl, rfl, ?_⟩
  have hkinds : Upkeep Stock.host fun τ => τ.kinds = .initial :=
    upkeep_kinds (Stock.host_keeps fun _ _ h => h)
  obtain ⟨-, hparsed⟩ := @map_shows_remains Stock.host { reportInput := true } _ (mapOf amount)
    anything amount (.dict amounts) amounts {} hkinds rfl rfl rfl nofun rfl
  exact (hparsed _ rfl rfl).elements .initial (fun _ h => h) amount_returns _
    (List.mem_singleton_self _)

open Elements in
/-- An object leaves a mapping without the fields that it rejects, which the issue then shows in
place of the element. -/
theorem map_shows_no_element :
    ∃ i, parsed entry entries = .ok (.rejected [i]) ∧ i.path = [.str "k"] ∧ i.input = .dict [] ∧
      ¬ i.ShowsElement entries := by
  refine ⟨_, rfl, rfl, rfl, fun hshows => ?_⟩
  have hmem : (Value.str "k", Value.dict []) ∈ entries := hshows _ _ _ rfl
  simp [entries] at hmem

end Assay
