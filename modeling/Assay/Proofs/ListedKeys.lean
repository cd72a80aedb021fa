import Assay.Proofs.Checks
import Assay.Proofs.Containers
import Assay.Proofs.Discrimination
import Assay.Proofs.Immediate

/-!
# Records with listed keys

A record whose schema of keys lists values has exactly these keys, and reports any other ones. It
looks for a key among the listed values as a mapping does and never reads it against the schema
(`unlisted_keys_unrecognized`). The two differ where the schema tells values apart that are one key,
where it stands for the members of a class, and where it has checks (`listed_keys_unread`).
-/

namespace Assay

open Run

/-- The issue is about the value itself and names the key as one that does not belong there. -/
def Issue.Unrecognizes (k : Value) (i : Issue Value) : Prop :=
  i.path = [] ∧ ∃ keys, i.detail = .unrecognizedKeys (.tuple keys) ∧ k ∈ keys

/-- An issue of the result names the key. -/
def Result.Unrecognizes (k : Value) (r : Result) : Prop := ∃ i ∈ r.issues, i.Unrecognizes k

/-- The parse is rejected with an issue that names the key. -/
def Parsed.Unrecognizes (k : Value) (p : Parsed) : Prop :=
  ∃ issues, p = .rejected issues ∧ ∃ i ∈ issues, i.Unrecognizes k

/-- The parse is rejected. -/
def Parsed.Rejects (p : Parsed) : Prop := ∃ issues, p = .rejected issues

variable {host : Host} {ctx : Context} {σ τ : Session} {k : Value}

/-! ## Issues that name keys -/

/-- An issue of a part is not about the value itself. -/
theorem not_unrecognizes_under (key : Value) (i : Issue Value) :
    ¬ (i.under [key]).Unrecognizes k := by
  rintro ⟨hpath, -⟩
  cases hpath

theorem not_unrecognizes_finding {i : Issue Value} (h : i.detail.isFinding = true) :
    ¬ i.Unrecognizes k := by
  rintro ⟨-, keys, hdetail, -⟩
  rw [hdetail] at h
  cases h

theorem unrecognizes_unworded (b : Bool) (i : Issue Value) :
    (i.unworded b).Unrecognizes k ↔ i.Unrecognizes k := by
  obtain ⟨path, message, input, source, detail⟩ := i
  have hdetail (keys : List Value) : unwordedDetail b detail = .unrecognizedKeys (.tuple keys) ↔
      detail = .unrecognizedKeys (.tuple keys) := by
    cases detail <;> simp [unwordedDetail]
  simp only [Issue.Unrecognizes, Issue.unworded, hdetail]

/-- Wording issues does not change which keys they name. -/
theorem unrecognizes_worded {b : Bool} {is js : List (Issue Value)}
    (h : unwordedAll b is = unwordedAll b js) :
    (∃ i ∈ is, i.Unrecognizes k) ↔ ∃ i ∈ js, i.Unrecognizes k := by
  have hunworded (is : List (Issue Value)) :
      (∃ i ∈ is, i.Unrecognizes k) ↔ ∃ i ∈ unwordedAll b is, i.Unrecognizes k := by
    simp [unwordedAll_eq_map, unrecognizes_unworded]
  rw [hunworded, h, ← hunworded]

/-- A record names exactly the keys that are not listed. -/
theorem enumeratedRecord_unrecognizes {s : Schema Value} (hfull : ctx.abortEarly = false)
    (allowed : List Value) (v : Value) {data : Entries} (placed : List Placed)
    (hk : k ∈ data.map (·.1)) :
    (Structure.enumeratedRecord s ctx allowed v data placed).Unrecognizes k ↔
      k.isIn allowed = false := by
  have hparts : ∀ i ∈ Structure.issuesUnder placed, ¬ i.Unrecognizes k := by
    intro i hi
    obtain ⟨p, -, hi⟩ := List.mem_flatMap.1 hi
    obtain ⟨j, -, rfl⟩ := List.mem_map.1 hi
    exact not_unrecognizes_under p.1 j
  have hunknown : k.isIn allowed = false ↔
      k ∈ (data.map (·.1)).filter fun key => !key.isIn allowed := by
    simp only [List.mem_filter, hk, true_and, Bool.not_eq_true']
  unfold Result.Unrecognizes Structure.enumeratedRecord
  rw [hunknown]
  simp only [hfull, Bool.false_and, Bool.or_false]
  generalize (data.map (·.1)).filter (fun key => !key.isIn allowed) = unknown
  split
  · rename_i hempty
    obtain rfl := List.isEmpty_iff.1 hempty
    constructor
    · rintro ⟨i, hi, hnames⟩
      exact absurd hnames (hparts i hi)
    · exact fun h => nomatch h
  · constructor
    · rintro ⟨i, hi, hnames⟩
      rcases List.mem_append.1 hi with hi | hi
      · exact absurd hnames (hparts i hi)
      · obtain rfl := List.mem_singleton.1 hi
        obtain ⟨-, keys, hkeys, hmem⟩ := hnames
        cases hkeys
        exact hmem
    · intro hmem
      exact ⟨_, List.mem_append_right _ (List.mem_singleton_self _), rfl, unknown, rfl, hmem⟩

/-! ## Checks -/

/-- The check is no callback that reports issues of its own. -/
def Value.reportsFindings : Value → Bool
  | .check c => !(c.rule matches .superRefinement _)
  | _ => true

/-- Every issue of the result is a finding. -/
def Result.Finds (r : Result) : Prop := ∀ i ∈ r.issues, i.detail.isFinding = true

theorem Result.finds_ok (v : Value) : (Result.ok v).Finds := nofun

theorem Result.finds_of_verdict {v source : Value} {detail : Option (Detail Value (Issue Value))}
    (h : ∀ d, detail = some d → d.isFinding = true) : (Result.of v source detail).Finds := by
  intro i hi
  cases detail with
  | none => cases hi
  | some d =>
    obtain rfl := List.mem_singleton.1 hi
    exact h d rfl

/-- Rules and predicates report findings. -/
theorem runCheck_finds {c : Value} (hc : c.reportsFindings = true) (v : Value) :
    (runCheck host ctx c v).Brings (fun _ => True) fun e => ∀ t, e = .ok t → t.value.Finds := by
  cases c with
  | check c =>
    obtain ⟨id, rule, error, abort⟩ := c
    have hrule : (do return .ready (Result.of v (.check ⟨id, rule, error, abort⟩)
        (← Run.lift (rule.verdict v))) : Run (Outcome Result)).Brings (fun _ => True)
        fun e => ∀ t, e = .ok t → t.value.Finds := by
      refine .bind (.lift rfl) (fun detail hdetail => .ready ?_) (by rintro e - t ⟨⟩)
      rintro t ⟨⟩
      apply Result.finds_of_verdict
      rintro d rfl
      exact Rule.verdict_finding hdetail
    cases rule with
    | overwrite fn name =>
      refine .bind (Q := fun e : Except Fault (Timed Result) => ∀ t, e = .ok t → t.value.Finds)
        (P := fun _ => True) (fun _ _ => ⟨trivial, trivial⟩) (fun r _ => .ready ?_)
        (by rintro e - t ⟨⟩)
      rintro t ⟨⟩
      exact Result.finds_ok r.value
    | refinement fn path params =>
      refine Run.Brings.anything.andThen (fun verdict _ => ?_) (by rintro e - t ⟨⟩)
      split
      · refine .ready ?_
        rintro t ⟨⟩
        exact Result.finds_ok v
      · refine .bind (P := fun _ => True) (fun _ _ => ⟨trivial, trivial⟩)
          (fun params _ => .ready ?_) (by rintro e - t ⟨⟩)
        rintro t ⟨⟩ i hi
        obtain rfl := List.mem_singleton.1 hi
        rfl
    | superRefinement fn => cases hc
    | _ => exact hrule
  | schema s =>
    dsimp only [runCheck]
    split
    · refine .ready ?_
      rintro t ⟨⟩
      exact Result.finds_of_verdict fun d hd => Form.verdict_finding hd
    · exact .throw (by rintro t ⟨⟩)
  | _ => exact .throw (by rintro t ⟨⟩)

theorem allChecks_reportFindings {s : Schema Value}
    (hchecks : ∀ c ∈ s.checks, c.reportsFindings = true) :
    ∀ c ∈ s.allChecks, c.reportsFindings = true := by
  unfold Schema.allChecks
  split
  · exact List.forall_mem_cons.2 ⟨rfl, hchecks⟩
  · exact hchecks

/-- Checks add findings to the issues that there are. -/
theorem runChecks_finds {s : Schema Value} (hchecks : ∀ c ∈ s.checks, c.reportsFindings = true)
    (r : Result) :
    (runChecks host ctx s r).Brings (fun _ => True) fun e => ∀ t, e = .ok t →
      ∀ i, i.detail.isFinding = false → (i ∈ t.value.issues ↔ i ∈ r.issues) := by
  unfold runChecks
  split
  · refine runChecksFrom_brings
      (P := fun q => ∀ i, i.detail.isFinding = false → (i ∈ q.issues ↔ i ∈ r.issues))
      (fun c hc q hq => ?_) fun i _ => Iff.rfl
    refine (runCheck_finds (allChecks_reportFindings hchecks c hc) q.value).mono ?_
    rintro e hfinds t rfl i hi
    rw [← hq i hi]
    refine ⟨fun hmem => (List.mem_append.1 hmem).resolve_right fun hmem => ?_,
      List.mem_append_left _⟩
    rw [hfinds t rfl i hmem] at hi
    cases hi
  · refine .ready ?_
    rintro t ⟨⟩ i -
    rfl

/-- Checks leave the issues that name the key as they are. -/
theorem runChecks_unrecognizes {s : Schema Value}
    (hchecks : ∀ c ∈ s.checks, c.reportsFindings = true) (r : Result) :
    (runChecks host ctx s r).Brings (fun _ => True) fun e =>
      ∀ t, e = .ok t → (t.value.Unrecognizes k ↔ r.Unrecognizes k) := by
  refine (runChecks_finds hchecks r).mono fun e hkept t ht => ?_
  have hsame (i : Issue Value) (hnames : i.Unrecognizes k) :
      i ∈ t.value.issues ↔ i ∈ r.issues :=
    hkept t ht i (Bool.eq_false_iff.2 fun hfinding => not_unrecognizes_finding hfinding hnames)
  constructor
  · rintro ⟨i, hi, hnames⟩
    exact ⟨i, (hsame i hnames).1 hi, hnames⟩
  · rintro ⟨i, hi, hnames⟩
    exact ⟨i, (hsame i hnames).2 hi, hnames⟩

/-! ## Evaluating a record -/

/-- A record that comes to anything names the keys of the input that are not listed. -/
theorem evaluateRecord_unrecognizes {recur : Schema Value → Value → Run (Outcome Result)}
    (hfull : ctx.abortEarly = false) {s key value : Schema Value} {allowed : List Value}
    (hallowed : Construct.enumerated? key = some allowed) {v : Value} {data : Entries}
    (hdata : v.entries? = some data) (hk : k ∈ data.map (·.1)) :
    (evaluateRecord host ctx recur s key value v).Brings (fun _ => True) fun e =>
      ∀ t, e = .ok t → (t.value.Unrecognizes k ↔ k.isIn allowed = false) := by
  unfold evaluateRecord
  simp only [hdata, hallowed]
  split
  · exact .throw (by rintro t ⟨⟩)
  · refine Run.Brings.anything.map (fun t _ => ?_) (by rintro e - t ⟨⟩)
    rintro _ ⟨⟩
    exact enumeratedRecord_unrecognizes hfull allowed v _ hk

/-- Nor do the checks of the record change which keys are named. -/
theorem evaluateRecord_checked {recur : Schema Value → Value → Run (Outcome Result)}
    {s key value : Schema Value} (hchecks : ∀ c ∈ s.checks, c.reportsFindings = true)
    (hfull : ctx.abortEarly = false) {allowed : List Value}
    (hallowed : Construct.enumerated? key = some allowed) {v : Value} {data : Entries}
    (hdata : v.entries? = some data) (hk : k ∈ data.map (·.1)) :
    (evaluateRecord host ctx recur s key value v >>= checkOutcome host ctx s).Brings
      (fun _ => True) fun e =>
        ∀ t, e = .ok t → (t.value.Unrecognizes k ↔ k.isIn allowed = false) := by
  refine Run.Brings.checked (P := fun r => r.Unrecognizes k ↔ k.isIn allowed = false)
    (R := fun r => r.Unrecognizes k ↔ k.isIn allowed = false)
    (evaluateRecord_unrecognizes hfull hallowed hdata hk) fun r hr => ?_
  exact (runChecks_unrecognizes hchecks r).mono fun e hkept t ht => (hkept t ht).trans hr

/-- A record that comes to anything names the keys that are not listed. -/
theorem record_unrecognizes {s key value : Schema Value} (hform : s.form = .record key value)
    (hown : σ.kinds.evaluator? s.kind = .ok (.builtin .evaluateNode))
    (hchecks : ∀ c ∈ s.checks, c.reportsFindings = true) (hfull : ctx.abortEarly = false)
    {allowed : List Value} (hallowed : Construct.enumerated? key = some allowed) {v : Value}
    {data : Entries} (hdata : v.entries? = some data) (hk : k ∈ data.map (·.1)) {p : Parsed}
    (hp : (safeParse host ctx s v).answer σ = .ok p) :
    p.Unrecognizes k ↔ k.isIn allowed = false := by
  obtain ⟨o, ρ, ho, h⟩ := bind_exec_ok.1 (Prod.ext hp rfl)
  obtain ⟨r, ρ', hr, h⟩ := bind_exec_ok.1 h
  rw [show s.budget = (s.depth + 1999) + 1 from rfl, evaluate_exec hown] at ho
  simp only [evaluateForm, hform] at ho
  have hnames : r.Unrecognizes k ↔ k.isIn allowed = false :=
    Run.Brings.of_exec (P := fun r => r.Unrecognizes k ↔ k.isIn allowed = false)
      (evaluateRecord_checked hchecks hfull hallowed hdata hk) ho hr
  rw [← hnames]
  have hwords := conclude_answer (congrArg Prod.fst h)
  cases p with
  | accepted w =>
    have hnone : r.issues = [] := Result.valid_iff.1 hwords.1
    simp [Parsed.Unrecognizes, Result.Unrecognizes, hnone]
  | rejected issues =>
    simp only [Parsed.Unrecognizes, Parsed.rejected.injEq, exists_eq_left', Result.Unrecognizes]
    exact unrecognizes_worded hwords.2

/-! ## Schemas that list values -/

/-- The schema lists the value: a class lists its members beside their values. -/
def Schema.lists (s : Schema Value) (v : Value) : Bool :=
  match s.form with
  | .literal values => values.any v.same
  | .enumeration _ (some c) => (Scalar.memberOf? c v).isSome
  | .enumeration entries none => (entries.map (·.2)).any v.same
  | _ => false

/-- A schema that stands for a class has the values of the members. -/
def Schema.ListsMembers (s : Schema Value) : Prop :=
  ∀ entries c, s.form = .enumeration entries (some c) →
    entries = c.members.map fun m => (.str m.1, m.2)

/-- The value is a member of the class that the schema stands for. -/
def Schema.HasMember (s : Schema Value) (v : Value) : Prop :=
  ∃ entries c d name w, s.form = .enumeration entries (some c) ∧ v = .member d name w ∧
    d.ref = c.ref

section

variable {s : Schema Value} {allowed : List Value} {v : Value}

theorem form_listing (hallowed : Construct.enumerated? s = some allowed) :
    ∃ r : Result, (∀ recur acceptsAbsent,
      evaluateForm host ctx recur acceptsAbsent s v = pure (.ready r)) ∧ r.valid = s.lists v := by
  unfold Construct.enumerated? at hallowed
  unfold evaluateForm Schema.lists
  cases hform : s.form with
  | literal values =>
    refine ⟨_, fun _ _ => rfl, ?_⟩
    unfold Scalar.literal
    split
    · rename_i hlisted
      exact hlisted.symm
    · rename_i hunlisted
      exact (Bool.not_eq_true _ ▸ hunlisted).symm
  | enumeration entries cls =>
    refine ⟨_, fun _ _ => rfl, ?_⟩
    unfold Scalar.enumeration
    cases cls with
    | some c =>
      dsimp only
      cases Scalar.memberOf? c v <;> rfl
    | none =>
      dsimp only
      split
      · rename_i hlisted
        exact hlisted.symm
      · rename_i hunlisted
        exact (Bool.not_eq_true _ ▸ hunlisted).symm
  | _ => simp [hform] at hallowed

/-- What a schema does not list it rejects, whatever its checks. What it lists it accepts when it
has none. -/
theorem parse_listing (hallowed : Construct.enumerated? s = some allowed)
    (hown : σ.kinds.evaluator? s.kind = .ok (.builtin .evaluateNode)) {q : Parsed}
    (hq : (safeParse host ctx s v).answer σ = .ok q) :
    (s.lists v = false → q.Rejects) ∧ (s.lists v = true → s.checks = [] → ¬ q.Rejects) := by
  obtain ⟨found, hfound, hvalid⟩ := form_listing (v := v) hallowed
  constructor
  · intro hunlisted
    cases q with
    | accepted w => exact absurd hq (not_accepted_of_invalid hown hfound (hvalid.trans hunlisted))
    | rejected issues => exact ⟨issues, rfl⟩
  · rintro hlisted hnone ⟨issues, rfl⟩
    have hread : found = .ok found.value := Result.eq_ok (hvalid.trans hlisted)
    have hnotag : s.form.verdict found.value = none := by
      unfold Construct.enumerated? at hallowed
      unfold Form.verdict
      cases hform : s.form <;> first | rfl | simp [hform] at hallowed
    have haccepted := (safeParse_at_once hown hnone hfound).2 ⟨hread, hnotag⟩
    cases hq.symm.trans haccepted

/-- A value stands for a member of a class when it is one, or the value of one. -/
theorem memberOf?_cases {c : EnumClass Value} {m : Value} (h : Scalar.memberOf? c v = some m) :
    (∃ d name w, v = .member d name w ∧ d.ref = c.ref) ∨ ∃ n ∈ c.members, n.2.same v = true := by
  have hvalue (h : (c.members.find? fun m => m.2.same v).map
      (fun m => Value.member c m.1 m.2) = some m) : ∃ n ∈ c.members, n.2.same v = true := by
    obtain ⟨n, hn, -⟩ := Option.map_eq_some_iff.1 h
    exact ⟨n, List.mem_of_find?_eq_some hn, by simpa using List.find?_some hn⟩
  unfold Scalar.memberOf? at h
  split at h
  · split at h
    · rename_i d name w href
      exact .inl ⟨d, name, w, rfl, by simpa using href⟩
    · exact .inr (hvalue h)
  · exact .inr (hvalue h)

/-- The keys of a mapping that a schema lists are found among its values, but for the members of
its class. -/
theorem isIn_of_lists (hallowed : Construct.enumerated? s = some allowed)
    (hmembers : s.ListsMembers) (hv : v.wellFormed = true) (h : s.lists v = true) :
    v.isIn allowed = true ∨ s.HasMember v := by
  have hlisted {a : Value} (ha : a ∈ allowed) (hsame : v.same a = true) : v.isIn allowed = true :=
    List.any_eq_true.2 ⟨a, ha, Value.isFound_symm hv (Value.same_iff.1 hsame).1⟩
  unfold Construct.enumerated? at hallowed
  unfold Schema.lists at h
  cases hform : s.form with
  | literal values =>
    simp only [hform, Option.some.injEq] at hallowed h
    subst hallowed
    obtain ⟨a, ha, hsame⟩ := List.any_eq_true.1 h
    exact .inl (hlisted ha hsame)
  | enumeration entries cls =>
    simp only [hform, Option.some.injEq] at hallowed h
    subst hallowed
    cases cls with
    | some c =>
      obtain rfl := hmembers entries c hform
      obtain ⟨m, hm⟩ := Option.isSome_iff_exists.1 h
      rcases memberOf?_cases hm with ⟨d, name, w, rfl, hd⟩ | ⟨n, hn, hsame⟩
      · exact .inr ⟨_, c, d, name, w, hform, rfl, hd⟩
      · refine .inl (List.any_eq_true.2 ⟨n.2, ?_, (Value.same_iff.1 hsame).1⟩)
        exact List.mem_map_of_mem (List.mem_map_of_mem hn)
    | none =>
      obtain ⟨a, ha, hsame⟩ := List.any_eq_true.1 h
      exact .inl (hlisted ha hsame)
  | _ => simp [hform] at hallowed

/-- A value that is found only where it is the same is listed when it is found. -/
theorem lists_of_isIn (hallowed : Construct.enumerated? s = some allowed)
    (hmembers : s.ListsMembers) (hv : v.wellFormed = true)
    (hapart : ∀ a ∈ allowed, a.isFound v = true → v.same a = true)
    (h : v.isIn allowed = true) : s.lists v = true := by
  obtain ⟨a, ha, hfound⟩ := List.any_eq_true.1 h
  have hsame := hapart a ha hfound
  clear hapart
  unfold Construct.enumerated? at hallowed
  unfold Schema.lists
  cases hform : s.form with
  | literal values =>
    simp only [hform, Option.some.injEq] at hallowed
    subst hallowed
    exact List.any_eq_true.2 ⟨a, ha, hsame⟩
  | enumeration entries cls =>
    simp only [hform, Option.some.injEq] at hallowed
    subst hallowed
    cases cls with
    | some c =>
      obtain rfl := hmembers entries c hform
      have hvalue : ∃ m, (c.members.find? fun m => m.2.same v).map
          (fun m => Value.member c m.1 m.2) = some m := by
        obtain ⟨e, he, rfl⟩ := List.mem_map.1 ha
        obtain ⟨m, hm, rfl⟩ := List.mem_map.1 he
        have : (c.members.find? fun m => m.2.same v).isSome :=
          List.find?_isSome.2 ⟨m, hm, Value.same_symm hv hsame⟩
        obtain ⟨m, hm⟩ := Option.isSome_iff_exists.1 this
        exact ⟨_, by rw [hm]; rfl⟩
      dsimp only
      unfold Scalar.memberOf?
      split
      · split
        · rfl
        · exact Option.isSome_iff_exists.2 hvalue
      · exact Option.isSome_iff_exists.2 hvalue
    | none => exact List.any_eq_true.2 ⟨a, ha, hsame⟩
  | _ => simp [hform] at hallowed

end

/-! ## Parses -/

/-- A record with listed keys reports the keys of its input that no listed value equals, and none
that is the same as a listed value. A key that it reports the schema of keys rejects, unless it is a
member of the class that the schema stands for. A key that the schema of keys rejects it reports
when that schema has no checks and no listed value equals the key without being the same. -/
theorem unlisted_keys_unrecognized {s key value : Schema Value}
    (hform : s.form = .record key value) {allowed : List Value}
    (hallowed : Construct.enumerated? key = some allowed) (hmembers : key.ListsMembers)
    (hown : σ.kinds.evaluator? s.kind = .ok (.builtin .evaluateNode))
    (hkey : σ.kinds.evaluator? key.kind = .ok (.builtin .evaluateNode))
    (hchecks : ∀ c ∈ s.checks, c.reportsFindings = true) (hfull : ctx.abortEarly = false)
    {v : Value} (hv : v.wellFormed = true) {data : Entries} (hdata : v.entries? = some data)
    {p : Parsed} (hp : (safeParse host ctx s v).answer σ = .ok p) :
    ∀ e ∈ data,
      ((∀ a ∈ allowed, a.isFound e.1 = false) → p.Unrecognizes e.1) ∧
      (p.Unrecognizes e.1 → ∀ a ∈ allowed, e.1.same a = false) ∧
      ∀ {alone q}, (safeParse host alone key e.1).answer σ = .ok q →
        (p.Unrecognizes e.1 → q.Rejects ∨ key.HasMember e.1) ∧
        (key.checks = [] → (∀ a ∈ allowed, a.isFound e.1 = true → e.1.same a = true) →
          q.Rejects → p.Unrecognizes e.1) := by
  intro e he
  have hnames := record_unrecognizes hform hown hchecks hfull hallowed hdata
    (List.mem_map_of_mem he) hp
  have hformed := (Value.wellFormed_entries hv hdata e he).1
  refine ⟨fun hnone => ?_, fun hunlisted a ha => ?_, fun {alone q} hq => ?_⟩
  · rw [hnames, ← Bool.not_eq_true]
    intro hin
    obtain ⟨a, ha, hfound⟩ := List.any_eq_true.1 hin
    rw [hnone a ha] at hfound
    cases hfound
  · by_contra hsame
    have hfound := Value.isFound_symm hformed (Value.same_iff.1 (by simpa using hsame)).1
    have hin : e.1.isIn allowed = true := List.any_eq_true.2 ⟨a, ha, hfound⟩
    rw [hnames.1 hunlisted] at hin
    cases hin
  · obtain ⟨hrejects, haccepts⟩ := parse_listing hallowed hkey hq
    constructor
    · intro hunlisted
      by_cases hlists : key.lists e.1 = true
      · rcases isIn_of_lists hallowed hmembers hformed hlists with hin | hmember
        · rw [hnames.1 hunlisted] at hin
          cases hin
        · exact .inr hmember
      · exact .inl (hrejects (by simpa using hlists))
    · intro hnone hsame hrejected
      by_contra hknown
      have hin : e.1.isIn allowed = true := by simpa [hnames] using hknown
      exact haccepts (lists_of_isIn hallowed hmembers hformed hsame hin) hnone hrejected

namespace Listed

open Stock (hostThat)

def anything : Schema Value := ⟨2, .str "any", .any, [], [], .null⟩

/-- Anything under keys that a schema lists. -/
def under (key : Schema Value) : Schema Value :=
  ⟨0, .str "record", .record key anything, [], [], .null⟩

def letter : Schema Value := ⟨1, .str "literal", .literal [.str "a"], [], [], .null⟩

/-- Two texts, of which a check leaves the longer one. -/
def long : Schema Value :=
  ⟨1, .str "enum", .enumeration [(.str "aa", .str "aa"), (.str "b", .str "b")] none, [],
    [.check ⟨3, .atLeast .length 2, .null, .null⟩], .null⟩

def color : EnumClass Value := ⟨4, "Color", [("RED", .str "r")], []⟩

def red : Value := .member color "RED" (.str "r")

/-- The members of a class. -/
def colors : Schema Value :=
  ⟨1, .str "enum", .enumeration [(.str "RED", .str "r")] (some color), [], [], .null⟩

/-- What a parse in full comes to in a new session. -/
def parsed (s : Schema Value) (v : Value) : Except Fault Parsed :=
  (safeParse (hostThat false) {} s v).answer {}

end Listed

open Listed Stock in
/-- One letter is listed, and another one is not. -/
theorem unlisted_keys_unrecognized_letter :
    parsed (under letter) (.dict [(.str "b", .int 1)]) = .ok (.rejected [⟨[], .str "Invalid input",
        .missing, .null, .unrecognizedKeys (.tuple [.str "b"])⟩]) ∧
      ∀ q, parsed letter (.str "b") = .ok q → q.Rejects := by
  have hparsed : parsed (under letter) (.dict [(.str "b", .int 1)]) = .ok (.rejected [⟨[],
      .str "Invalid input", .missing, .null, .unrecognizedKeys (.tuple [.str "b"])⟩]) := rfl
  refine ⟨hparsed, fun q hq => ?_⟩
  obtain ⟨hunlisted, -, hkey⟩ := unlisted_keys_unrecognized rfl rfl (by rintro entries c ⟨⟩) rfl rfl
    (by rintro c ⟨⟩) rfl (by decide) rfl hparsed (.str "b", .int 1) (List.mem_singleton_self _)
  refine ((hkey hq).1 (hunlisted (by decide))).resolve_right ?_
  rintro ⟨entries, c, d, name, w, -, hmember, -⟩
  cases hmember

open Listed Stock in
/-- The schema of keys is not asked: a key that one of its checks rejects is no unknown one, and a
member of its class is not known, whose value alone is listed. -/
theorem listed_keys_unread :
    (parsed (under long) (.dict [(.str "aa", .int 1), (.str "b", .int 2)])
        = .ok (.accepted (.dict [(.str "aa", .int 1), (.str "b", .int 2)])) ∧
      ∃ issues, parsed long (.str "b") = .ok (.rejected issues)) ∧
    (∃ p, parsed (under colors) (.dict [(red, .int 1)]) = .ok p ∧ p.Unrecognizes red) ∧
      parsed colors red = .ok (.accepted red) := by
  refine ⟨⟨rfl, _, rfl⟩, ⟨_, rfl, _, rfl, _, List.mem_singleton_self _, rfl, ?_⟩, rfl⟩
  exact ⟨[red], rfl, List.mem_singleton_self red⟩

end Assay
