import Assay.Proofs.Describing

/-!
# Building from descriptions

What a description of data says is enough to build the schema again: from the description of a
data-only schema, with any numbers, a schema is built that is alike (`build_describe`,
`buildSchema_describe`). Each constructor yields what it was made to (`Run.Yields`), and each rule
and form finds its own fields in its description.
-/

namespace Assay

open Value

/-! ## Operations that answer -/

namespace Run

variable {α β : Type}

/-- The operation answers in every session, with something that satisfies `P`. -/
abbrev Yields (x : Run α) (P : α → Prop) : Prop :=
  x.Always (fun _ => True) fun e => ∃ a, e = .ok a ∧ P a

namespace Yields

variable {x : Run α} {P Q : α → Prop} {S : β → Prop}

theorem pure {a : α} (h : P a) : (Pure.pure a : Run α).Yields P := Always.pure ⟨a, rfl, h⟩

theorem bind {f : α → Run β} (hx : x.Yields P) (hf : ∀ a, P a → (f a).Yields S) :
    (x >>= f).Yields S :=
  Always.bind hx (fun a ⟨b, hb, h⟩ => by cases hb; exact hf a h) fun _ ⟨_, hb, _⟩ => nomatch hb

theorem map {f : α → β} (hx : x.Yields P) (hf : ∀ a, P a → S (f a)) : (f <$> x).Yields S := by
  rw [map_eq_pure_bind]
  exact hx.bind fun a ha => pure (hf a ha)

theorem mono (hx : x.Yields P) (h : ∀ a, P a → Q a) : x.Yields Q :=
  Always.mono hx fun _ ⟨a, ha, hP⟩ => ⟨a, ha, h a hP⟩

theorem freshRef : Run.freshRef.Yields fun _ => True := fun _ _ => ⟨trivial, _, rfl, trivial⟩

theorem logLine (level text : String) : (Run.logLine level text).Yields fun _ => True :=
  fun _ _ => ⟨trivial, _, rfl, trivial⟩

theorem ofOption {fault : Fault} {a : α} (h : P a) : (Run.ofOption fault (some a)).Yields P :=
  pure h

theorem attempt (hx : x.Yields P) : (Run.attempt x).Yields fun e => ∃ a, e = .ok a ∧ P a :=
  fun σ hσ => ⟨trivial, _, rfl, (hx σ hσ).2⟩

/-- Going on from a part that is there. -/
theorem of_eq {y : Run α} (h : x = y) (hy : y.Yields P) : x.Yields P := h ▸ hy

theorem answer (hx : x.Yields P) (σ : Session) : ∃ a, x.answer σ = .ok a ∧ P a :=
  (hx σ trivial).2

end Yields

end Run

open Run

/-! ## Constructors -/

namespace Construct

/-- A schema of a form with checks and a message provider comes out as it is given. -/
theorem make_yields (form : Form Value (Schema Value)) {tag : String} (h : form.tag? = some tag)
    (checks : List Value) (error : Value) : (make form ⟨.tuple checks, error, []⟩).Yields
      fun s => ∃ id, s = ⟨id, .str tag, form, [], checks, error⟩ := by
  unfold make items
  refine (Yields.ofOption (P := (· = checks)) rfl).bind fun cs hcs => ?_
  subst hcs
  simp only [List.lookup_nil, Option.filter_none, Option.none_or, h, Option.map_some]
  exact Yields.freshRef.bind fun id _ => .pure ⟨id, rfl⟩

/-- The schema of a format is made by its name. -/
theorem namedFormat_yields (f : StringFormat) (abort : Value) (checks : List Value)
    (error : Value) : (namedFormat (.str f.name) abort ⟨.tuple checks, error, []⟩).Yields
      fun s => ∃ id, s = ⟨id, .str "string", .format f .null abort, [], checks, error⟩ := by
  have hname : (Value.str f.name).str?.bind StringFormat.ofName? = some f := by cases f <;> rfl
  have hname' : hashable (Value.str f.name) = pure (.str f.name) := rfl
  unfold namedFormat
  rw [hname', pure_bind, hname]
  exact make_yields _ rfl checks error

theorem hashable_yields (name : String) : (hashable (.str name)).Yields (· = .str name) :=
  .pure rfl

theorem check_yields (rule : Rule Value) (error abort : Value) :
    (check rule error abort).Yields fun c => ∃ id, c = ⟨id, rule, error, abort⟩ :=
  Yields.freshRef.bind fun id _ => .pure ⟨id, rfl⟩

theorem lengthBound_ok (rule : Nat → Rule Value) (n : Nat) :
    lengthBound rule (.int n) = pure (rule n) := by
  unfold lengthBound
  exact if_neg (Int.not_lt.2 (Int.natCast_nonneg n))

end Construct

/-! ## Checks -/

/-- The fields that the description of a check shows. -/
def Check.described (c : Check Value) : Entries :=
  (.str "check", .str c.rule.tag) :: (describeRule c.rule
    ++ (shownField "error" c.error (plain c.error) ++ shownField "abort" c.abort (plain c.abort)))

namespace Check

variable {c : Check Value} {name : String}

theorem plain_eq (c : Check Value) : plain (.check c) = .dict c.described := by
  obtain ⟨id, rule, error, abort⟩ := c
  simp [plain, describeCheck, described]

theorem described_tag (c : Check Value) : c.described.get? "check" = some (.str c.rule.tag) := by
  rw [described, Entries.get?_cons, if_pos rfl]

/-- The fields of a rule are found in the description of its check. -/
theorem described_rule (c : Check Value) (h : name ∉ ["check", "error", "abort"]) :
    c.described.get? name = Entries.get? (describeRule c.rule) name := by
  simp only [List.mem_cons, List.not_mem_nil, or_false, not_or] at h
  obtain ⟨hcheck, herror, habort⟩ := h
  rw [described, Entries.get?_cons, if_neg (Ne.symm hcheck), Entries.get?_append,
    Entries.get?_append, Entries.get?_shownField_of_ne (Ne.symm herror),
    Entries.get?_shownField_of_ne (Ne.symm habort), Option.or_none, Option.or_none]

/-- A rule has no fields under the names that all checks share. -/
theorem get?_describeRule (rule : Rule Value) (h : name ∈ ["error", "abort"]) :
    Entries.get? (describeRule rule) name = none := by
  simp only [List.mem_cons, List.not_mem_nil, or_false] at h
  cases rule with
  | exactly measure n => cases measure <;> rcases h with rfl | rfl <;> rfl
  | _ => rcases h with rfl | rfl <;> simp [describeRule, Entries.get?_shownField_of_ne]

theorem described_error (h : c.error.IsMessage) :
    (c.described.get? "error").getD .null = c.error := by
  rw [described, Entries.get?_cons, if_neg (by decide), Entries.get?_append,
    get?_describeRule _ (by simp), Entries.get?_append,
    Entries.get?_shownField_of_ne (show "abort" ≠ "error" by decide), Option.none_or,
    Option.or_none]
  exact field_shownField h.isJson (by decide)

theorem described_abort {b : Bool} (h : c.abort = .bool b) :
    ((c.described.get? "abort").getD .null).truthy = b := by
  rw [described, Entries.get?_cons, if_neg (by decide), Entries.get?_append,
    get?_describeRule _ (by simp), Entries.get?_append, Entries.get?_shownField_of_ne (by decide),
    Option.none_or, Option.none_or, h]
  exact truthy_shownField_abort b

end Check

namespace OfDefinition

variable {d : Entries}

/-- A check of a rule with the message and the switch that the fields say. -/
def IsCheckOf (d : Entries) (rule : Rule Value) (c : Value) : Prop :=
  ∃ id, c = .check ⟨id, rule, field d "error", flag d "abort"⟩

theorem make_isCheckOf (d : Entries) (rule : Rule Value) :
    (Value.check <$> Construct.check rule (field d "error") (flag d "abort")).Yields
      (IsCheckOf d rule) :=
  (Construct.check_yields rule _ _).map fun _ ⟨id, hc⟩ => ⟨id, hc ▸ rfl⟩

/-- A check of the rule that is made from a field. -/
theorem make_required {tag v : Value} {name : String} {rule : Rule Value}
    {f : Value → Run (Rule Value)} (hv : d.get? name = some v) (hrule : f v = pure rule) :
    (do
      let r ← f (← required d tag name)
      Value.check <$> Construct.check r (field d "error") (flag d "abort")).Yields
        (IsCheckOf d rule) := by
  have hrequired : required d tag name = pure v := by
    unfold required
    rw [hv]
  rw [hrequired, pure_bind, hrule, pure_bind]
  exact make_isCheckOf d rule

/-- A rule on lengths finds its bound. -/
theorem checkOfTag_length {tag bound : String} {rule : Nat → Rule Value} {n : Nat}
    (htag : lengthRule? tag = some (rule, bound)) (hbound : d.get? bound = some (.int n)) :
    (checkOfTag d tag).Yields (IsCheckOf d (rule n)) := by
  unfold checkOfTag
  simp only [htag]
  exact make_required hbound (Construct.lengthBound_ok rule n)

/-- What a rule on texts does is found by the name of its format. -/
theorem checkOfTag_text {rule : Rule Value} (htag : rule.tag = "string_format")
    (h : (stringCheck d (.str "string_format") (field d "error") (flag d "abort")).Yields
      (IsCheckOf d rule)) : (checkOfTag d rule.tag).Yields (IsCheckOf d rule) := by
  rw [htag]
  exact h

theorem field_eq {name : String} {v : Value} (h : d.get? name = some v) : field d name = v := by
  rw [field, h]
  rfl

/-- From the fields that the description of a rule shows a check of the rule is built. -/
theorem checkOfTag_rule {rule : Rule Value} (hrule : rule.IsData)
    (hfields : ∀ name ∉ ["check", "error", "abort"],
      d.get? name = Entries.get? (describeRule rule) name) :
    (checkOfTag d rule.tag).Yields (IsCheckOf d rule) := by
  cases hrule with
  | atLeast m n =>
    have hbound : d.get? "minimum" = some (.int n) := hfields "minimum" (by decide)
    cases m <;> exact checkOfTag_length rfl hbound
  | atMost m n =>
    have hbound : d.get? "maximum" = some (.int n) := hfields "maximum" (by decide)
    cases m <;> exact checkOfTag_length rfl hbound
  | exactly m n =>
    cases m with
    | length =>
      have hbound : d.get? "length" = some (.int n) := hfields "length" (by decide)
      exact checkOfTag_length rfl hbound
    | size =>
      have hbound : d.get? "size" = some (.int n) := hfields "size" (by decide)
      exact checkOfTag_length rfl hbound
  | @greaterThan bound h inclusive =>
    have hfield (name : String) (hname : name ∉ ["check", "error", "abort"]) :
        d.get? name = Entries.get? [(.str "value", bound), (.str "inclusive", .bool inclusive)]
          name := by
      rw [hfields name hname]
      obtain ⟨n, rfl⟩ | ⟨x, rfl⟩ := h <;> rfl
    have hgreater : Construct.greaterThan bound (.bool inclusive) =
        pure (.greaterThan bound (.bool inclusive)) := by
      obtain ⟨n, rfl⟩ | ⟨x, rfl⟩ := h <;> rfl
    have hinclusive : (d.get? "inclusive").getD (.bool false) = .bool inclusive := by
      rw [hfield "inclusive" (by decide)]
      rfl
    unfold checkOfTag
    rw [hinclusive]
    exact make_required (hfield "value" (by decide)) hgreater
  | @lessThan bound h inclusive =>
    have hfield (name : String) (hname : name ∉ ["check", "error", "abort"]) :
        d.get? name = Entries.get? [(.str "value", bound), (.str "inclusive", .bool inclusive)]
          name := by
      rw [hfields name hname]
      obtain ⟨n, rfl⟩ | ⟨x, rfl⟩ := h <;> rfl
    have hless : Construct.lessThan bound (.bool inclusive) =
        pure (.lessThan bound (.bool inclusive)) := by
      obtain ⟨n, rfl⟩ | ⟨x, rfl⟩ := h <;> rfl
    have hinclusive : (d.get? "inclusive").getD (.bool false) = .bool inclusive := by
      rw [hfield "inclusive" (by decide)]
      rfl
    unfold checkOfTag
    rw [hinclusive]
    exact make_required (hfield "value" (by decide)) hless
  | @multipleOf divisor h hpositive =>
    have hdivisor : d.get? "value" = some divisor := by
      rw [hfields "value" (by decide)]
      cases divisor <;> first | rfl | cases h
    have hmultiple : Construct.multipleOf divisor = pure (.multipleOf divisor) := by
      unfold Construct.multipleOf
      rw [h, hpositive]
      rfl
    exact make_required hdivisor hmultiple
  | @regex pattern text h =>
    have hregex : Construct.regex (.str text) (.str "regex") =
        pure (.regex pattern text (.str "regex")) := by
      unfold Construct.regex
      simp only [h]
    refine checkOfTag_text rfl ?_
    unfold stringCheck
    rw [field_eq (hfields "format" (by decide))]
    exact @make_required d _ _ _ _ (Construct.regex · (.str "regex"))
      (hfields "pattern" (by decide)) hregex
  | lowercase | uppercase =>
    refine checkOfTag_text rfl ?_
    unfold stringCheck
    rw [field_eq (hfields "format" (by decide))]
    exact make_isCheckOf d _
  | startsWith text =>
    refine checkOfTag_text rfl ?_
    unfold stringCheck
    rw [field_eq (hfields "format" (by decide))]
    exact @make_required d _ _ _ _ (fun v => pure (.startsWith v)) (hfields "prefix" (by decide)) rfl
  | endsWith text =>
    refine checkOfTag_text rfl ?_
    unfold stringCheck
    rw [field_eq (hfields "format" (by decide))]
    exact @make_required d _ _ _ _ (fun v => pure (.endsWith v)) (hfields "suffix" (by decide)) rfl
  | includes text =>
    refine checkOfTag_text rfl ?_
    unfold stringCheck
    rw [field_eq (hfields "format" (by decide))]
    exact @make_required d _ _ _ _ (fun v => pure (.includes v)) (hfields "includes" (by decide)) rfl

/-- The library's own replacements are found by their names. -/
theorem checkOfTag_named {rule : Rule Value} (hrule : rule.IsNamed)
    (hname : d.get? "name" = Entries.get? (describeRule rule) "name") :
    (checkOfTag d "overwrite").Yields fun c =>
      ∃ id, c = .check ⟨id, rule, .null, .bool false⟩ := by
  have hcheck : (Value.check <$> Construct.check rule .null (.bool false)).Yields fun c =>
      ∃ id, c = .check ⟨id, rule, .null, .bool false⟩ :=
    (Construct.check_yields rule _ _).map fun _ ⟨id, hc⟩ => ⟨id, hc ▸ rfl⟩
  rw [map_eq_pure_bind] at hcheck
  unfold checkOfTag
  cases hrule <;> rw [field_eq hname] <;> exact hcheck

/-- A format that is a check is found by its name. -/
theorem checkOfTag_format {f : StringFormat} (hformat : d.get? "format" = some (.str f.name)) :
    (checkOfTag d "string_format").Yields fun c => ∃ id, c = .schema
      ⟨id, .str "string", .format f .null (flag d "abort"), [], [], field d "error"⟩ := by
  have hmake : (Construct.namedFormat (.str f.name) (flag d "abort")
      ⟨.tuple [], field d "error", []⟩ >>= fun s => pure (Value.schema s)).Yields fun c =>
        ∃ id, c = .schema
          ⟨id, .str "string", .format f .null (flag d "abort"), [], [], field d "error"⟩ := by
    refine (Construct.namedFormat_yields f _ _ _).bind fun s ⟨id, hs⟩ => .pure ⟨id, hs ▸ rfl⟩
  show (stringCheck d (.str "string_format") (field d "error") (flag d "abort")).Yields _
  unfold stringCheck
  rw [field_eq hformat]
  cases f <;> exact hmake

theorem checkOfTag_integer : (checkOfTag d "number_format").Yields fun c => ∃ id, c = .schema
    ⟨id, .str "number", .integer .null (flag d "abort"), [], [], field d "error"⟩ := by
  have hmake := Construct.make_yields (.integer .null (flag d "abort")) rfl []
    (field d "error")
  exact hmake.bind fun s ⟨id, hs⟩ => .pure ⟨id, hs ▸ rfl⟩

end OfDefinition

/-- A check is built by its tag. -/
theorem buildCheck_of_tag {d : Entries} {tag : String} {P : Value → Prop}
    (htag : d.get? "check" = some (.str tag)) (h : (OfDefinition.checkOfTag d tag).Yields P) :
    (buildCheck (.dict d)).Yields P := by
  have hcheck : Construct.hashable (OfDefinition.field d "check") = pure (.str tag) := by
    rw [OfDefinition.field_eq htag]
    rfl
  show (OfDefinition.check d).Yields P
  unfold OfDefinition.check
  rw [hcheck, pure_bind]
  exact h

/-- The switch that makes a format abort is found in the description of its schema. -/
theorem flag_abort {form : Form Value (Schema Value)} {coerce : Value} {b : Bool}
    (hform : (∃ f, form = .format f coerce (.bool b)) ∨ form = .integer coerce (.bool b))
    (hcoerce : coerce.IsSwitch) {s : Schema Value} (hs : s.form = form) :
    OfDefinition.flag s.described "abort" = .bool b := by
  have hfield : Entries.get? (describeForm form) "abort" =
      Entries.get? (shownField "abort" (.bool b) (plain (.bool b))) "abort" := by
    obtain ⟨f, rfl⟩ | rfl := hform <;> obtain rfl | rfl := hcoerce <;> rfl
  unfold OfDefinition.flag OfDefinition.field
  rw [s.described_form (by decide), hs, hfield, truthy_shownField_abort]

/-- A schema that is a check is built as one by its tag. -/
theorem Schema.IsData.buildCheck {s : Schema Value} (hs : s.IsData) {tag : String}
    (htag : s.form.checkTag? = some tag) {P : Value → Prop}
    (h : (OfDefinition.checkOfTag s.described tag).Yields P) :
    (buildCheck (plain (.schema s))).Yields P := by
  have hplain : plain (.schema s) = .dict s.described := hs.describe_eq
  rw [hplain]
  exact buildCheck_of_tag (s.described_check htag) h

/-- From the description of a check of data a check is built that differs in numbers only. -/
theorem Value.IsDataCheck.buildCheck {c : Value} (h : c.IsDataCheck) :
    (buildCheck c.plain).Yields fun c' => c'.unnumbered = c.unnumbered := by
  cases h with
  | @rule id rule error abort hrule herror =>
    let c : Check Value := ⟨id, rule, error, .bool abort⟩
    have hbuilt := OfDefinition.checkOfTag_rule hrule fun name hname => c.described_rule hname
    rw [Check.plain_eq]
    refine buildCheck_of_tag c.described_tag (hbuilt.mono fun c' ⟨id', hc'⟩ => ?_)
    have herror' : OfDefinition.field c.described "error" = error := c.described_error herror
    have habort : OfDefinition.flag c.described "abort" = .bool abort :=
      congrArg Value.bool (c.described_abort rfl)
    rw [hc', herror', habort]
    rfl
  | @named id rule hrule =>
    let c : Check Value := ⟨id, rule, .null, .bool false⟩
    have htag : c.described.get? "check" = some (.str "overwrite") := by
      rw [c.described_tag]
      cases hrule <;> rfl
    rw [Check.plain_eq]
    refine buildCheck_of_tag htag ?_
    refine (OfDefinition.checkOfTag_named hrule (c.described_rule (by decide))).mono ?_
    rintro c' ⟨id', rfl⟩
    rfl
  | @format id f error abort herror =>
    let s : Schema Value := ⟨id, .str "string", .format f .null (.bool abort), [], [], error⟩
    have hs : s.IsData := .intro rfl ⟨rfl, abort, rfl⟩ (List.forall_mem_nil _)
      (List.forall_mem_nil _) herror
    have hformat : s.described.get? "format" = some (.str f.name) := s.described_form (by decide)
    have habort := flag_abort (.inl ⟨f, rfl⟩) (.inl rfl) (s := s) rfl
    refine hs.buildCheck rfl ((OfDefinition.checkOfTag_format hformat).mono ?_)
    rintro c' ⟨id', rfl⟩
    rw [habort, show OfDefinition.field s.described "error" = error from s.described_error herror]
    rfl
  | @integer id error abort herror =>
    let s : Schema Value := ⟨id, .str "number", .integer .null (.bool abort), [], [], error⟩
    have hs : s.IsData := .intro rfl ⟨.inl rfl, abort, rfl⟩ (List.forall_mem_nil _)
      (List.forall_mem_nil _) herror
    have habort := flag_abort (.inr rfl) (.inl rfl) (s := s) rfl
    refine hs.buildCheck rfl (OfDefinition.checkOfTag_integer.mono ?_)
    rintro c' ⟨id', rfl⟩
    rw [habort, show OfDefinition.field s.described "error" = error from s.described_error herror]
    rfl

namespace OfDefinition

/-- From the descriptions of checks of data checks are built that differ in numbers only. -/
theorem checks_yields (strict : Bool) {cs : List Value} (h : ∀ c ∈ cs, c.IsDataCheck) :
    (checks strict (plainAll cs)).Yields fun cs' =>
      cs'.map Value.unnumbered = cs.map Value.unnumbered := by
  induction cs with
  | nil => exact .pure rfl
  | cons c cs ih =>
    obtain ⟨hc, hcs⟩ := List.forall_mem_cons.1 h
    refine Yields.bind (Yields.attempt hc.buildCheck) fun e he => ?_
    obtain ⟨c', rfl, hc'⟩ := he
    refine (ih hcs).bind fun cs' hcs' => .pure ?_
    rw [List.map_cons, List.map_cons, hc', hcs']

/-- The checks of a schema are built from its description. -/
theorem checksOf_yields (strict : Bool) {s : Schema Value} (h : ∀ c ∈ s.checks, c.IsDataCheck) :
    (checksOf strict s.described).Yields fun cs =>
      cs.map Value.unnumbered = s.checks.map Value.unnumbered := by
  have hchecks : field s.described "checks" =
      if s.checks.isEmpty then .null else .list (plainAll s.checks) := s.described_checks
  unfold checksOf
  rw [hchecks]
  cases hcs : s.checks with
  | nil => exact .pure rfl
  | cons c cs => exact checks_yields strict (hcs ▸ h)

end OfDefinition

end Assay
