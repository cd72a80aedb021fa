import Assay.Proofs.Narrowing

/-!
# Formats as schemas and as checks

A format node is a schema and a check at once. As a check of a plain schema it is its format alone:
the checks that are attached to the node itself run only when the node is the schema. So a plain
schema with the node and then the node's checks attached means the same as the node, and one with
only the node attached means the same as the node without its checks (`formats_attached`). It
accepts whatever the node accepts, but not the other way round (`attached_format_drops_checks`).
-/

namespace Assay

open Run

variable {host : Host} {ctx : Context} {σ τ : Session} {n s t : Schema Value} {v w : Value}

/-! ## Agreement -/

/-- The codes of issues, in order. -/
def issueCodes (is : List (Issue Value)) : List String := is.map (·.detail.code)

/-- What a value comes to against a schema before issues are worded: the output and the codes of the
issues, or the fault that a check raises. -/
def Schema.outcome (host : Host) (ctx : Context) (σ : Session) (s : Schema Value) (v : Value) :
    Except Fault (Value × List String) :=
  ((evaluate host ctx s.budget s v >>= Outcome.settle).answer σ).map
    fun r => (r.value, issueCodes r.issues)

/-- Two schemas mean the same for a value: it comes to the same against both, so they accept it with
the same output and reject it with issues of the same codes. -/
structure Schema.AgreesOn (host : Host) (ctx : Context) (σ : Session) (s t : Schema Value)
    (v : Value) : Prop where
  outcome : s.outcome host ctx σ v = t.outcome host ctx σ v
  accepts : ∀ w, (safeParse host ctx s v).answer σ = .ok (.accepted w) ↔
    (safeParse host ctx t v).answer σ = .ok (.accepted w)
  codes : ∀ is js, (safeParse host ctx s v).answer σ = .ok (.rejected is) →
    (safeParse host ctx t v).answer σ = .ok (.rejected js) → issueCodes is = issueCodes js

theorem safeParse_exec (s : Schema Value) (v : Value) (σ : Session) :
    (safeParse host ctx s v).exec σ = (evaluate host ctx s.budget s v >>= fun o =>
      o.settle >>= conclude host ctx).exec σ := rfl

theorem Schema.AgreesOn.of_eq (h : (evaluate host ctx s.budget s v).exec σ =
    (evaluate host ctx t.budget t v).exec σ) : s.AgreesOn host ctx σ t v := by
  have hparse : (safeParse host ctx s v).answer σ = (safeParse host ctx t v).answer σ := by
    rw [answer, answer, safeParse_exec, safeParse_exec, exec_bind, exec_bind, h]
  refine ⟨?_, fun w => by rw [hparse], fun is js his hjs => ?_⟩
  · unfold Schema.outcome answer
    rw [exec_bind, exec_bind, h]
  · rw [hparse, hjs] at his
    cases his
    rfl

theorem code_unworded (keepInput : Bool) (i : Issue Value) :
    (i.unworded keepInput).detail.code = i.detail.code := by
  obtain ⟨path, message, input, source, detail⟩ := i
  cases detail <;> rfl

/-- Wording keeps the codes. -/
theorem issueCodes_of_conclude {r : Result} {is : List (Issue Value)}
    (h : (conclude host ctx r).answer σ = .ok (.rejected is)) :
    issueCodes is = issueCodes r.issues := by
  have hwords := (conclude_answer h).2
  rw [unwordedAll_eq_map, unwordedAll_eq_map] at hwords
  have hcodes := congrArg (List.map fun i => i.detail.code) hwords
  simp only [List.map_map, Function.comp_def, code_unworded] at hcodes
  exact hcodes

/-- Results with the same value and the same codes are concluded alike. -/
theorem Schema.AgreesOn.of_results {r q : Result}
    (hs : (evaluate host ctx s.budget s v).exec σ = (.ok (.ready r), σ))
    (ht : (evaluate host ctx t.budget t v).exec σ = (.ok (.ready q), σ))
    (hvalue : r.value = q.value) (hcodes : issueCodes r.issues = issueCodes q.issues) :
    s.AgreesOn host ctx σ t v := by
  have hparse {s : Schema Value} {r : Result}
      (h : (evaluate host ctx s.budget s v).exec σ = (.ok (.ready r), σ)) :
      (safeParse host ctx s v).answer σ = (conclude host ctx r).answer σ := by
    rw [answer, safeParse_exec, exec_bind, h]
    rfl
  refine ⟨?_, fun w => ?_, fun is js his hjs => ?_⟩
  · unfold Schema.outcome answer
    rw [exec_bind, exec_bind, hs, ht]
    exact congrArg Except.ok (Prod.ext hvalue hcodes)
  · have hok (r : Result) : r = .ok w ↔ r.value = w ∧ issueCodes r.issues = [] := by
      obtain ⟨u, is⟩ := r
      simp [issueCodes]
    rw [hparse hs, hparse ht, conclude_accepted, conclude_accepted, hok, hok, hvalue, hcodes]
  · rw [hparse hs] at his
    rw [hparse ht] at hjs
    rw [issueCodes_of_conclude his, issueCodes_of_conclude hjs, hcodes]

/-! ## Format nodes -/

/-- The node is a format of the plain schema that `plain` makes, and takes the value as it stands: a
string format does so with texts, an integer format that does not coerce with any value. -/
inductive Schema.Formats (n : Schema Value) : Run (Schema Value) → Value → Prop
  | text {f : StringFormat} {coerce abort : Value} (hform : n.form = .format f coerce abort)
      (hkind : n.kind = .str "string") (s : String) :
      n.Formats (Construct.string (.bool false) {}) (.str s)
  | number {coerce abort : Value} (hform : n.form = .integer coerce abort)
      (hkind : n.kind = .str "number") (hcoerce : coerce.truthy = false) (v : Value) :
      n.Formats (Construct.number (.bool false) {}) v

/-- A schema without the checks that are attached to it. -/
def Schema.bare (s : Schema Value) : Schema Value := { s with checks := [] }

/-- A plain schema with checks attached. -/
def attached (host : Host) (plain : Run (Schema Value)) (checks : List Value) : Run Value := do
  deriveByName host (.schema (← plain)) "add_check" checks []

theorem copy_answer (old new : Schema Value) (τ : Session) :
    ∃ ref, (Construct.copy old new).answer τ = .ok { new with id := ref } := by
  unfold answer Construct.copy
  rw [exec_bind]
  dsimp only [exec_freshRef]
  rw [exec_bind]
  dsimp only [exec_get]
  cases τ.resolved.lookup old.id <;> exact ⟨_, rfl⟩

/-- Checks can be attached to every plain schema. -/
theorem attached_answer (host : Host) (checks : List Value) {plain : Run (Schema Value)}
    {ρ : Session} (hplain : plain.exec τ = (.ok s, ρ))
    (hm : method? host s "add_check" = some (Method.variadic Derive.withChecks)) :
    ∃ t, (attached host plain checks).answer τ = .ok (.schema t) ∧
      t.form = s.form ∧ t.kind = s.kind ∧ t.checks = s.checks ++ checks := by
  obtain ⟨ref, hcopy⟩ := copy_answer s { s with checks := s.checks ++ checks } ρ
  refine ⟨{ s with id := ref, checks := s.checks ++ checks }, ?_, rfl, rfl, rfl⟩
  unfold attached answer
  rw [exec_bind, hplain]
  exact deriveByName_variadic hm hcopy

/-- The form of the schema takes the value as it is if it fits, and else reports its type. -/
def Schema.TakesAs (host : Host) (ctx : Context) (v : Value) (fits : Bool) (expected : String)
    (s : Schema Value) : Prop :=
  ∀ recur acceptsAbsent, evaluateForm host ctx recur acceptsAbsent s v =
    pure (.ready (if fits then .ok v else .wrongType s v expected))

/-- With checks attached a plain schema runs these checks, and it takes what schemas of its form
take. -/
theorem attached_takes {plain : Run (Schema Value)} {ρ : Session} {fits : Bool} {expected : String}
    (checks : List Value) (hplain : plain.exec τ = (.ok s, ρ))
    (hm : method? host s "add_check" = some (Method.variadic Derive.withChecks))
    (hplainChecks : s.form.checkTag? = none ∧ s.checks = [])
    (hform : ∀ m : Schema Value, m.form = s.form → m.TakesAs host ctx v fits expected) :
    ∃ t, (attached host plain checks).answer τ = .ok (.schema t) ∧
      t.kind = s.kind ∧ t.allChecks = checks ∧ t.TakesAs host ctx v fits expected := by
  obtain ⟨t, ht, htform, htkind, htchecks⟩ := attached_answer host checks hplain hm
  refine ⟨t, ht, htkind, ?_, hform t htform⟩
  unfold Schema.allChecks
  rw [htform, hplainChecks.1, htchecks, hplainChecks.2]
  rfl

/-- The node takes what the plain schema takes, whatever checks are attached to either. -/
theorem Schema.Formats.takes (host : Host) (ctx : Context) {plain : Run (Schema Value)}
    (h : n.Formats plain v) :
    ∃ fits expected, (∀ m : Schema Value, m.form = n.form → m.TakesAs host ctx v fits expected) ∧
      ∀ checks τ, ∃ t, (attached host plain checks).answer τ = .ok (.schema t) ∧
        t.kind = n.kind ∧ t.allChecks = checks ∧ t.TakesAs host ctx v fits expected := by
  cases h with
  | text hform hkind s =>
    refine ⟨true, "string", fun m hm recur acceptsAbsent => ?_, fun checks τ => ?_⟩
    · rw [evaluateForm, hm, hform]
      dsimp only
      unfold Scalar.string
      split <;> rfl
    · rw [hkind]
      refine attached_takes checks
        (show (Construct.string (.bool false) {}).exec τ = (.ok _, _) from rfl) rfl ⟨rfl, rfl⟩
        fun m hm recur acceptsAbsent => ?_
      rw [evaluateForm, hm]
      rfl
  | number hform hkind hcoerce =>
    refine ⟨v.isNumber, "number", fun m hm recur acceptsAbsent => ?_, fun checks τ => ?_⟩
    · rw [evaluateForm, hm, hform]
      dsimp only
      rw [hcoerce]
      rfl
    · rw [hkind]
      refine attached_takes checks
        (show (Construct.number (.bool false) {}).exec τ = (.ok _, _) from rfl) rfl ⟨rfl, rfl⟩
        fun m hm recur acceptsAbsent => ?_
      rw [evaluateForm, hm]
      rfl

theorem Schema.Formats.isCheck {plain : Run (Schema Value)} (h : n.Formats plain v) :
    n.form.checkTag?.isSome = true := by
  cases h with
  | text hform => rw [hform]; rfl
  | number hform => rw [hform]; rfl

/-! ## The checks that run -/

section

variable {fits : Bool} {expected : String}

/-- The form of a schema that takes values as they are goes on with its checks. -/
theorem Schema.TakesAs.evaluated (h : s.TakesAs host ctx v fits expected)
    (hown : σ.kinds.evaluator? s.kind = .ok (.builtin .evaluateNode)) :
    (evaluate host ctx s.budget s v).exec σ =
      (runChecks host ctx s (if fits then .ok v else .wrongType s v expected)).exec σ := by
  rw [show s.budget = (s.depth + 1999) + 1 from rfl, evaluate_exec hown, h]
  rfl

/-- A value that fits goes on to the checks. -/
theorem Schema.TakesAs.checked (h : s.TakesAs host ctx v true expected)
    (hown : σ.kinds.evaluator? s.kind = .ok (.builtin .evaluateNode)) :
    (evaluate host ctx s.budget s v).exec σ =
      (runChecksFrom host ctx s.allChecks (.ok v)).exec σ :=
  h.evaluated hown

/-- A value that does not fit is rejected at once. -/
theorem Schema.TakesAs.rejected (h : s.TakesAs host ctx v false expected)
    (hown : σ.kinds.evaluator? s.kind = .ok (.builtin .evaluateNode)) :
    (evaluate host ctx s.budget s v).exec σ = (.ok (.ready (.wrongType s v expected)), σ) :=
  h.evaluated hown

/-- Schemas that take the same and run the same checks agree. -/
theorem Schema.TakesAs.agrees (hs : s.TakesAs host ctx v fits expected)
    (ht : t.TakesAs host ctx v fits expected)
    (hown : σ.kinds.evaluator? t.kind = .ok (.builtin .evaluateNode)) (hkind : s.kind = t.kind)
    (hchecks : s.allChecks = t.allChecks) : s.AgreesOn host ctx σ t v := by
  cases fits with
  | true =>
    refine .of_eq ?_
    rw [hs.checked (hkind ▸ hown), ht.checked hown, hchecks]
  | false => exact .of_results (hs.rejected (hkind ▸ hown)) (ht.rejected hown) rfl rfl

/-- A schema whose only check is a node agrees with the node without its checks. -/
theorem Schema.TakesAs.agrees_alone (ht : t.TakesAs host ctx v fits expected)
    (hbare : n.bare.TakesAs host ctx v fits expected)
    (hown : σ.kinds.evaluator? n.kind = .ok (.builtin .evaluateNode)) (hkind : t.kind = n.kind)
    (hcheck : n.form.checkTag?.isSome = true) (hchecks : t.allChecks = [.schema n]) :
    t.AgreesOn host ctx σ n.bare v := by
  cases fits with
  | true =>
    have hrun (m : Schema Value) (hm : m.form = n.form) :
        runChecksFrom host ctx [.schema m] (.ok v) =
          pure (.ready (Result.of v (.schema m) (n.form.verdict v))) := by
      rw [runChecksFrom, runCheck, hm, if_pos hcheck, pure_bind]
      dsimp only
      split <;> rfl
    have hall : n.bare.allChecks = [.schema n.bare] := if_pos hcheck
    have hattached := ht.checked (hkind ▸ hown)
    have hnode := hbare.checked hown
    rw [hchecks, hrun n rfl] at hattached
    rw [hall, hrun n.bare rfl] at hnode
    -- The two results differ only in the node that they name as the source.
    refine .of_results hattached hnode rfl ?_
    cases n.form.verdict v <;> rfl
  | false => exact .of_results (ht.rejected (hkind ▸ hown)) (hbare.rejected hown) rfl rfl

end

/-- Issues that were found before stay. -/
theorem runChecksFrom_keeps_issues {checks : List Value} {r : Result} (h : r.issues ≠ []) :
    (runChecksFrom host ctx checks r).Brings (fun _ => True)
      fun e => ∀ t, e = .ok t → t.value.issues ≠ [] := by
  refine runChecksFrom_brings (P := fun r => r.issues ≠ []) (fun c _ r hr => ?_) h
  refine Brings.anything.mono fun e _ t _ => ?_
  exact List.append_ne_nil_of_left_ne_nil hr _

/-- What the checks of a node accept, its format has no objection to. -/
theorem verdict_of_accepted (hcheck : n.form.checkTag?.isSome = true)
    (hchecked : (evaluate host ctx n.budget n v).exec σ =
      (runChecksFrom host ctx n.allChecks (.ok v)).exec σ)
    (hw : (safeParse host ctx n v).answer σ = .ok (.accepted w)) : n.form.verdict v = none := by
  have hall : n.allChecks = .schema n :: n.checks := if_pos hcheck
  obtain ⟨o, ρ, ho, h⟩ := bind_exec_ok.1 (Prod.ext hw rfl)
  rw [hchecked] at ho
  obtain ⟨r, υ, hr, h⟩ := bind_exec_ok.1 h
  have hvalid : r = .ok w := conclude_accepted.1 (congrArg Prod.fst h)
  rw [hall, runChecksFrom, runCheck, if_pos hcheck, pure_bind] at ho
  cases hverdict : n.form.verdict v with
  | none => rfl
  | some d =>
    rw [hverdict] at ho
    have hissues : (Result.merge (.ok v) (Result.of v (.schema n) (some d))).issues ≠ [] :=
      List.cons_ne_nil _ _
    have hkept : r.issues ≠ [] := by
      dsimp only at ho
      split at ho
      · cases ho
        cases hr
        exact hissues
      · exact Brings.of_exec (P := fun r => r.issues ≠ [])
          (runChecksFrom_keeps_issues hissues) ho hr
    rw [hvalid] at hkept
    exact absurd rfl hkept

/-- What a node accepts with its checks, it accepts as it is without them. -/
theorem Schema.TakesAs.accepts_alone {fits : Bool} {expected : String}
    (hn : n.TakesAs host ctx v fits expected)
    (hbare : n.bare.TakesAs host ctx v fits expected)
    (hown : σ.kinds.evaluator? n.kind = .ok (.builtin .evaluateNode))
    (hcheck : n.form.checkTag?.isSome = true)
    (hw : (safeParse host ctx n v).answer σ = .ok (.accepted w)) :
    (safeParse host ctx n.bare v).answer σ = .ok (.accepted v) := by
  cases fits with
  | true =>
    exact (safeParse_at_once (s := n.bare) hown rfl hbare).2
      ⟨rfl, verdict_of_accepted (n := n) hcheck (hn.checked hown) hw⟩
  | false => exact absurd hw (not_accepted_of_invalid hown hn rfl)

/-! ## Attached nodes -/

/-- A format node that is followed by its checks means as checks of a plain schema what it means as
a schema. The node alone means as a check what it means as a schema without its checks, and so
accepts what it accepts with them. -/
theorem formats_attached {plain : Run (Schema Value)} (hn : n.Formats plain v)
    (hown : σ.kinds.evaluator? n.kind = .ok (.builtin .evaluateNode)) :
    (∃ t, (attached host plain (.schema n :: n.checks)).answer τ = .ok (.schema t) ∧
      t.AgreesOn host ctx σ n v) ∧
    ∃ t, (attached host plain [.schema n]).answer τ = .ok (.schema t) ∧
      t.AgreesOn host ctx σ n.bare v ∧
      ∀ w, (safeParse host ctx n v).answer σ = .ok (.accepted w) →
        (safeParse host ctx t v).answer σ = .ok (.accepted v) := by
  obtain ⟨fits, expected, htakes, hattach⟩ := hn.takes host ctx
  have hcheck := hn.isCheck
  constructor
  · obtain ⟨t, ht, hkind, hchecks, htaken⟩ := hattach (.schema n :: n.checks) τ
    exact ⟨t, ht, htaken.agrees (htakes n rfl) hown hkind (hchecks.trans (if_pos hcheck).symm)⟩
  · obtain ⟨t, ht, hkind, hchecks, htaken⟩ := hattach [.schema n] τ
    have hbare := htakes n.bare rfl
    have hagrees := htaken.agrees_alone hbare hown hkind hcheck hchecks
    refine ⟨t, ht, hagrees, fun w hw => (hagrees.accepts v).2 ?_⟩
    exact (htakes n rfl).accepts_alone hbare hown hcheck hw

namespace Hexadecimal

open Stock (hostThat)

/-- Hexadecimal digits, at least three of them. -/
def digits : Schema Value :=
  ⟨1, .str "string", .format .hex .null (.bool false), [],
    [.check ⟨0, .atLeast .length 3, .null, .bool false⟩], .null⟩

def plain : Run (Schema Value) := Construct.string (.bool false) {}

def parsed (s : Schema Value) (text : String) : Except Fault Parsed :=
  (safeParse (hostThat false) {} s (.str text)).answer {}

end Hexadecimal

open Hexadecimal Stock in
/-- Three digits are accepted by the node, and by a plain schema with the node attached. -/
theorem formats_attached_hex : parsed digits "abc" = .ok (.accepted (.str "abc")) ∧
    ∃ t, (attached (hostThat false) plain [.schema digits]).answer {} = .ok (.schema t) ∧
      parsed t "abc" = .ok (.accepted (.str "abc")) := by
  have haccepts : parsed digits "abc" = .ok (.accepted (.str "abc")) := rfl
  have hformats : digits.Formats plain (.str "abc") := .text rfl rfl "abc"
  obtain ⟨-, t, ht, -, hkeeps⟩ : _ ∧ ∃ t,
      (attached (hostThat false) plain [.schema digits]).answer {} = .ok (.schema t) ∧
        t.AgreesOn (hostThat false) {} {} digits.bare (.str "abc") ∧ _ :=
    formats_attached hformats rfl
  exact ⟨haccepts, t, ht, hkeeps _ haccepts⟩

open Hexadecimal Stock in
/-- Two digits are too few for the node, but not for a plain schema with the node attached. -/
theorem attached_format_drops_checks :
    (∃ issues, parsed digits "ab" = .ok (.rejected issues) ∧ issueCodes issues = ["too_small"]) ∧
    ∃ t, (attached (hostThat false) plain [.schema digits]).answer {} = .ok (.schema t) ∧
      parsed t "ab" = .ok (.accepted (.str "ab")) :=
  ⟨⟨_, rfl, rfl⟩, _, rfl, rfl⟩

end Assay
