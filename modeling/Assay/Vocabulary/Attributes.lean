import Assay.Evaluate.Check
import Assay.Evaluate.Lazy

/-!
# Attributes

What can be asked of a schema or check by name: its definition, its checks, its message
provider, and the parts that its form has (`Form.part?`, `attributeOf`). The schema behind a lazy
one, and whether a schema accepts an absent value, may have to be resolved first.
-/

namespace Assay

open Run

/-- The fields of forms that can be asked for; all others only show in the definition. -/
def Form.openFields : List String :=
  ["format", "values", "shape", "unknown_keys", "catchall", "element", "items", "rest",
    "key_type", "value_type", "options", "discriminator", "left", "right", "inner", "source",
    "target"]

/-- The parts that a form has by name. -/
def Form.part? (form : Form Value (Schema Value)) (name : String) : Option Value :=
  match form, name with
  | .enumeration entries _, "values" => some (.tuple (entries.map (·.2)))
  | .enumeration _ cls, "enum_class" =>
    some ((cls.map fun c => Value.cls (.enumeration c)).getD .null)
  | .discriminatedUnion options _ table, "lookup" =>
    some (.tuple (table.filterMap fun e =>
      (options[e.2]?).map fun o => Value.tuple [e.1, .schema o]))
  | form, name =>
    (form.fields.lookup name).filter fun _ => openFields.contains name

/-- The definition of a schema or check as a view. -/
def definitionView (fields : List (String × Value)) : Value :=
  .view (fields.map fun f => (.str f.1, f.2))

/-- What every schema tells by name, and what one that is a check tells beside. -/
def Schema.fact? (s : Schema Value) : String → Option Value
  | "definition" => some (definitionView s.definition)
  | "kind" => some s.kind
  | "checks" => some (.tuple s.checks)
  | "all_checks" => some (.tuple s.allChecks)
  | "error" => some s.error
  | "check_kind" => (Value.schema s).checkTag?
  | "abort" => (Value.schema s).checkTag?.map fun _ => .bool (Value.schema s).aborts
  | _ => none

/-- The bound of a rule on lengths. -/
def Rule.bound? : Rule Value → Option Nat
  | .atLeast _ n | .atMost _ n | .exactly _ n => some n
  | _ => none

/-- The function that a rule calls. -/
def Rule.function? : Rule Value → Option Value
  | .overwrite fn _ | .refinement fn _ _ | .superRefinement fn => some fn
  | _ => none

/-- What a check tells by name. -/
def Check.fact? (c : Check Value) : String → Option Value
  | "definition" => some (definitionView c.definition)
  | "check_kind" => some (.str c.rule.tag)
  | "error" => some c.error
  | "abort" => some (.bool c.abort.truthy)
  | "format" => (c.definition.lookup "format").filter fun _ => c.rule.tag == "string_format"
  | "bound" => c.rule.bound?.map fun n => .int n
  | "fn" => c.rule.function?
  | _ => none

/-- What a schema or check answers when asked for an attribute. -/
def attributeOf (host : Host) (node : Value) (name : String) : Run Value :=
  match node with
  | .check c => ofOption .missingAttribute (c.fact? name)
  | .schema s =>
    match s.form, name with
    | .lazy getter _, "inner" => Value.schema <$> s.resolve host getter
    | _, "optional_in" => Value.bool <$> s.acceptsAbsent host s.budget
    | form, name => ofOption .missingAttribute ((form.part? name).or (s.fact? name))
  | _ => throw .missingAttribute

end Assay
