import Assay.Proofs.Parts
import Assay.Schema.Definition

/-!
# Numbers left out

Schemas and checks have numbers that tell them apart. What is left of a schema without its own
number, those of its parts and those of its checks is its `Schema.unnumbered` form. Two schemas are
alike when they differ in numbers only (`Schema.Alike`); then they have the same description
(`Schema.Alike.describe_eq`) and the same depth.
-/

namespace Assay

mutual

/-- A schema or check without its numbers; other values as they are. -/
def Value.unnumbered : Value → Value
  | .check ⟨_, rule, error, abort⟩ => .check ⟨0, rule, error, abort⟩
  | .schema s => .schema (Schema.unnumbered s)
  | v => v
termination_by structural x => x

/-- What stands in a list of checks, without its numbers. -/
def Value.unnumberedAll : List Value → List Value
  | [] => []
  | v :: vs => Value.unnumbered v :: Value.unnumberedAll vs
termination_by structural x => x

/-- A schema without its number and those of its parts and checks. -/
def Schema.unnumbered : Schema Value → Schema Value
  | ⟨_, kind, form, extra, checks, error⟩ =>
    ⟨0, kind, Form.unnumbered form, extra, Value.unnumberedAll checks, error⟩
termination_by structural x => x

/-- A form with the schemas that it holds unnumbered. -/
def Form.unnumbered : Form Value (Schema Value) → Form Value (Schema Value)
  | .object shape policy catchall =>
    .object (Schema.unnumberedShape shape) policy (Schema.unnumberedOption catchall)
  | .array e => .array (Schema.unnumbered e)
  | .tuple items rest => .tuple (Schema.unnumberedAll items) (Schema.unnumberedOption rest)
  | .record k v => .record (Schema.unnumbered k) (Schema.unnumbered v)
  | .map k v => .map (Schema.unnumbered k) (Schema.unnumbered v)
  | .set e => .set (Schema.unnumbered e)
  | .union options => .union (Schema.unnumberedAll options)
  | .discriminatedUnion options d table =>
    .discriminatedUnion (Schema.unnumberedAll options) d table
  | .intersection l r => .intersection (Schema.unnumbered l) (Schema.unnumbered r)
  | .optional s => .optional (Schema.unnumbered s)
  | .nullable s => .nullable (Schema.unnumbered s)
  | .default s v => .default (Schema.unnumbered s) v
  | .prefault s v => .prefault (Schema.unnumbered s) v
  | .catching s v => .catching (Schema.unnumbered s) v
  | .readonly s => .readonly (Schema.unnumbered s)
  | .promise s => .promise (Schema.unnumbered s)
  | .pipe s t => .pipe (Schema.unnumbered s) (Schema.unnumbered t)
  | form => form
termination_by structural x => x

/-- A shape with its schemas unnumbered. -/
def Schema.unnumberedShape : List (Value × Schema Value) → List (Value × Schema Value)
  | [] => []
  | (k, s) :: rest => (k, Schema.unnumbered s) :: Schema.unnumberedShape rest
termination_by structural x => x

/-- A list of schemas unnumbered. -/
def Schema.unnumberedAll : List (Schema Value) → List (Schema Value)
  | [] => []
  | s :: rest => Schema.unnumbered s :: Schema.unnumberedAll rest
termination_by structural x => x

/-- A schema that may be absent, unnumbered. -/
def Schema.unnumberedOption : Option (Schema Value) → Option (Schema Value)
  | none => none
  | some s => some (Schema.unnumbered s)
termination_by structural x => x

end

theorem Value.unnumberedAll_eq_map (vs : List Value) :
    Value.unnumberedAll vs = vs.map Value.unnumbered := by
  induction vs with
  | nil => rfl
  | cons v vs ih => rw [unnumberedAll, ih, List.map_cons]

namespace Schema

theorem unnumberedAll_eq_map (ss : List (Schema Value)) :
    unnumberedAll ss = ss.map unnumbered := by
  induction ss with
  | nil => rfl
  | cons s ss ih => rw [unnumberedAll, ih, List.map_cons]

theorem unnumberedShape_eq_map (shape : List (Value × Schema Value)) :
    unnumberedShape shape = shape.map fun e => (e.1, e.2.unnumbered) := by
  induction shape with
  | nil => rfl
  | cons e shape ih => rw [unnumberedShape, ih, List.map_cons]

end Schema

/-! ### Nothing is left to leave out -/

mutual

theorem Value.unnumbered_unnumbered : (v : Value) → v.unnumbered.unnumbered = v.unnumbered
  | .check ⟨_, _, _, _⟩ => rfl
  | .schema s => congrArg Value.schema (Schema.unnumbered_unnumbered s)
  | .missing | .null | .bool _ | .int _ | .float _ | .nan _ | .str _ | .bytes .. | .date _
  | .moment _ | .list _ | .tuple _ | .dict _ | .view _ | .set _ | .frozenSet _ | .object ..
  | .cls _ | .member .. | .pending .. | .callable _ | .builtin _ | .issue _ => rfl
termination_by structural x => x

theorem Value.unnumberedAll_unnumberedAll : (vs : List Value) →
    Value.unnumberedAll (Value.unnumberedAll vs) = Value.unnumberedAll vs
  | [] => rfl
  | v :: vs => by
    rw [Value.unnumberedAll, Value.unnumberedAll, v.unnumbered_unnumbered,
      Value.unnumberedAll_unnumberedAll vs]
termination_by structural x => x

theorem Schema.unnumbered_unnumbered : (s : Schema Value) → s.unnumbered.unnumbered = s.unnumbered
  | ⟨_, _, form, _, checks, _⟩ => by
    rw [Schema.unnumbered, Schema.unnumbered, form.unnumbered_unnumbered,
      Value.unnumberedAll_unnumberedAll checks]
termination_by structural x => x

theorem Form.unnumbered_unnumbered : (form : Form Value (Schema Value)) →
    form.unnumbered.unnumbered = form.unnumbered
  | .object shape _ catchall => by
    rw [Form.unnumbered, Form.unnumbered, Schema.unnumberedShape_unnumberedShape shape,
      Schema.unnumberedOption_unnumberedOption catchall]
  | .array s | .set s | .optional s | .nullable s | .readonly s | .promise s | .default s _
  | .prefault s _ | .catching s _ => by
    rw [Form.unnumbered, Form.unnumbered, s.unnumbered_unnumbered]
  | .tuple items rest => by
    rw [Form.unnumbered, Form.unnumbered, Schema.unnumberedAll_unnumberedAll items,
      Schema.unnumberedOption_unnumberedOption rest]
  | .record s t | .map s t | .intersection s t | .pipe s t => by
    rw [Form.unnumbered, Form.unnumbered, s.unnumbered_unnumbered, t.unnumbered_unnumbered]
  | .union options | .discriminatedUnion options _ _ => by
    rw [Form.unnumbered, Form.unnumbered, Schema.unnumberedAll_unnumberedAll options]
  | .string _ | .format .. | .number _ | .integer .. | .boolean _ | .date _ | .null | .any
  | .unknown | .never | .literal _ | .enumeration .. | .transform _ | .lazy .. | .custom ..
  | .generic => rfl
termination_by structural x => x

theorem Schema.unnumberedShape_unnumberedShape : (shape : List (Value × Schema Value)) →
    Schema.unnumberedShape (Schema.unnumberedShape shape) = Schema.unnumberedShape shape
  | [] => rfl
  | (_, s) :: rest => by
    rw [Schema.unnumberedShape, Schema.unnumberedShape, s.unnumbered_unnumbered,
      Schema.unnumberedShape_unnumberedShape rest]
termination_by structural x => x

theorem Schema.unnumberedAll_unnumberedAll : (ss : List (Schema Value)) →
    Schema.unnumberedAll (Schema.unnumberedAll ss) = Schema.unnumberedAll ss
  | [] => rfl
  | s :: rest => by
    rw [Schema.unnumberedAll, Schema.unnumberedAll, s.unnumbered_unnumbered,
      Schema.unnumberedAll_unnumberedAll rest]
termination_by structural x => x

theorem Schema.unnumberedOption_unnumberedOption : (s : Option (Schema Value)) →
    Schema.unnumberedOption (Schema.unnumberedOption s) = Schema.unnumberedOption s
  | none => rfl
  | some s => by rw [Schema.unnumberedOption, Schema.unnumberedOption, s.unnumbered_unnumbered]
termination_by structural x => x

end

namespace Schema

/-! ## What numbers do not matter to -/

@[simp] theorem unnumbered_kind (s : Schema Value) : s.unnumbered.kind = s.kind := by
  cases s; rfl

@[simp] theorem unnumbered_form (s : Schema Value) : s.unnumbered.form = s.form.unnumbered := by
  cases s; rfl

@[simp] theorem unnumbered_extra (s : Schema Value) : s.unnumbered.extra = s.extra := by
  cases s; rfl

@[simp] theorem unnumbered_error (s : Schema Value) : s.unnumbered.error = s.error := by
  cases s; rfl

theorem unnumbered_checks (s : Schema Value) :
    s.unnumbered.checks = s.checks.map Value.unnumbered := by
  cases s
  exact Value.unnumberedAll_eq_map _

end Schema

namespace Form

variable (form : Form Value (Schema Value))

@[simp] theorem unnumbered_checkTag? : form.unnumbered.checkTag? = form.checkTag? := by
  cases form <;> rfl

theorem unnumbered_checkFields (extra : List (String × Value)) :
    form.unnumbered.checkFields extra = form.checkFields extra := by
  unfold checkFields
  rw [unnumbered_checkTag?]

end Form

/-! ## Descriptions -/

namespace Value

mutual

theorem plain_unnumbered : (v : Value) → v.unnumbered.plain = v.plain
  | .check ⟨_, _, _, _⟩ => rfl
  | .schema s => describeSchema_unnumbered s
  | .missing | .null | .bool _ | .int _ | .float _ | .nan _ | .str _ | .bytes .. | .date _
  | .moment _ | .list _ | .tuple _ | .dict _ | .view _ | .set _ | .frozenSet _ | .object ..
  | .cls _ | .member .. | .pending .. | .callable _ | .builtin _ | .issue _ => rfl
termination_by structural x => x

theorem plainAll_unnumbered : (vs : List Value) → plainAll (unnumberedAll vs) = plainAll vs
  | [] => rfl
  | v :: vs => by rw [unnumberedAll, plainAll, plainAll, plain_unnumbered v, plainAll_unnumbered vs]
termination_by structural x => x

/-- A description does not show numbers. -/
theorem describeSchema_unnumbered : (s : Schema Value) →
    describeSchema s.unnumbered = describeSchema s
  | ⟨_, _, form, _, checks, _⟩ => by
    have hchecks := plainAll_unnumbered checks
    have hempty : (unnumberedAll checks).isEmpty = checks.isEmpty := by cases checks <;> rfl
    rw [Schema.unnumbered, describeSchema, describeSchema, describeForm_unnumbered form,
      form.unnumbered_checkFields, hchecks, hempty]
termination_by structural x => x

theorem describeForm_unnumbered : (form : Form Value (Schema Value)) →
    describeForm form.unnumbered = describeForm form
  | .object shape _ catchall => by
    rw [Form.unnumbered, describeForm, describeForm, describeShape_unnumbered shape,
      describeOption_unnumbered _ catchall]
  | .array s | .set s | .optional s | .nullable s | .readonly s | .promise s | .default s _
  | .prefault s _ | .catching s _ => by
    rw [Form.unnumbered, describeForm, describeForm, describeSchema_unnumbered s]
  | .tuple items rest => by
    rw [Form.unnumbered, describeForm, describeForm, describeAll_unnumbered items,
      describeOption_unnumbered _ rest]
  | .record s t | .map s t | .intersection s t | .pipe s t => by
    rw [Form.unnumbered, describeForm, describeForm, describeSchema_unnumbered s,
      describeSchema_unnumbered t]
  | .union options | .discriminatedUnion options _ _ => by
    rw [Form.unnumbered, describeForm, describeForm, describeAll_unnumbered options]
  | .string _ | .format .. | .number _ | .integer .. | .boolean _ | .date _ | .null | .any
  | .unknown | .never | .literal _ | .enumeration .. | .transform _ | .lazy .. | .custom ..
  | .generic => rfl
termination_by structural x => x

theorem describeShape_unnumbered : (shape : List (Value × Schema Value)) →
    describeShape (Schema.unnumberedShape shape) = describeShape shape
  | [] => rfl
  | (_, s) :: rest => by
    rw [Schema.unnumberedShape, describeShape, describeShape, describeSchema_unnumbered s,
      describeShape_unnumbered rest]
termination_by structural x => x

theorem describeAll_unnumbered : (ss : List (Schema Value)) →
    describeAll (Schema.unnumberedAll ss) = describeAll ss
  | [] => rfl
  | s :: rest => by
    rw [Schema.unnumberedAll, describeAll, describeAll, describeSchema_unnumbered s,
      describeAll_unnumbered rest]
termination_by structural x => x

theorem describeOption_unnumbered (name : String) : (s : Option (Schema Value)) →
    describeOption name (Schema.unnumberedOption s) = describeOption name s
  | none => rfl
  | some s => by
    rw [Schema.unnumberedOption, describeOption, describeOption, describeSchema_unnumbered s]
termination_by structural x => x

end

end Value

/-! ## Depth -/

namespace Schema

mutual

theorem depth_unnumbered : (s : Schema Value) → s.unnumbered.depth = s.depth
  | ⟨_, _, form, _, _, _⟩ => by rw [unnumbered, depth, depth, depthForm_unnumbered form]
termination_by structural x => x

theorem depthForm_unnumbered : (form : Form Value (Schema Value)) →
    depthForm form.unnumbered = depthForm form
  | .object shape _ catchall => by
    rw [Form.unnumbered, depthForm, depthForm, depthShape_unnumbered shape,
      depthOption_unnumbered catchall]
  | .array s | .set s | .optional s | .nullable s | .readonly s | .promise s | .default s _
  | .prefault s _ | .catching s _ => depth_unnumbered s
  | .tuple items rest => by
    rw [Form.unnumbered, depthForm, depthForm, depthAll_unnumbered items,
      depthOption_unnumbered rest]
  | .record s t | .map s t | .intersection s t | .pipe s t => by
    rw [Form.unnumbered, depthForm, depthForm, depth_unnumbered s, depth_unnumbered t]
  | .union options | .discriminatedUnion options _ _ => depthAll_unnumbered options
  | .string _ | .format .. | .number _ | .integer .. | .boolean _ | .date _ | .null | .any
  | .unknown | .never | .literal _ | .enumeration .. | .transform _ | .lazy .. | .custom ..
  | .generic => rfl
termination_by structural x => x

theorem depthShape_unnumbered : (shape : List (Value × Schema Value)) →
    depthShape (unnumberedShape shape) = depthShape shape
  | [] => rfl
  | (_, s) :: rest => by
    rw [unnumberedShape, depthShape, depthShape, depth_unnumbered s, depthShape_unnumbered rest]
termination_by structural x => x

theorem depthAll_unnumbered : (ss : List (Schema Value)) →
    depthAll (unnumberedAll ss) = depthAll ss
  | [] => rfl
  | s :: rest => by
    rw [unnumberedAll, depthAll, depthAll, depth_unnumbered s, depthAll_unnumbered rest]
termination_by structural x => x

theorem depthOption_unnumbered : (s : Option (Schema Value)) →
    depthOption (unnumberedOption s) = depthOption s
  | none => rfl
  | some s => depth_unnumbered s
termination_by structural x => x

end

/-! ## Schemas that are alike -/

/-- The schemas differ in numbers only. -/
def Alike (s t : Schema Value) : Prop := s.unnumbered = t.unnumbered

theorem Alike.describe_eq {s t : Schema Value} (h : s.Alike t) : s.describe = t.describe := by
  have hs : s.unnumbered.describe = s.describe := Value.describeSchema_unnumbered s
  have ht : t.unnumbered.describe = t.describe := Value.describeSchema_unnumbered t
  rw [← hs, ← ht, h]

end Schema

end Assay
