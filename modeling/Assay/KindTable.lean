import Assay.Schema.Fault

/-!
# Tables of kinds

A table maps each kind of schema to the function that evaluates schemas of that kind. The forms
that the library itself knows are evaluated by one function, `Builtin.evaluateNode`; further
kinds are registered with functions of their own.
-/

namespace Assay

/-- The evaluators by kind. -/
structure KindTable where
  name : String
  evaluators : Entries := []
  deriving Inhabited

namespace KindTable

/-- The kinds that the library itself evaluates. -/
def knownKinds : List String :=
  ["string", "number", "boolean", "date", "null", "any", "unknown", "never", "literal", "enum",
    "union", "intersection", "object", "array", "tuple", "record", "map", "set", "optional",
    "nullable", "default", "prefault", "catch", "readonly", "transform", "pipe", "lazy",
    "promise", "custom"]

/-- The table with the library's own kinds. -/
def initial : KindTable :=
  ⟨"kinds", knownKinds.map fun k => (.str k, .builtin .evaluateNode)⟩

/-- The kinds in ascending order. -/
def kinds? (t : KindTable) : Option (List Value) :=
  Value.sorted? (t.evaluators.map (·.1))

/-- Register an evaluator. A kind that has another evaluator must be replaced explicitly. -/
def register? (t : KindTable) (kind evaluator : Value) (replacing : Bool) :
    Except Fault KindTable :=
  if !kind.isHashable then .error .unsupported
  else
    let known := (t.evaluators.find? kind).filter fun v => !(v matches .null)
    if known.any (fun v => !v.isIdentical evaluator) && !replacing then
      .error (.definition (.kindTaken kind t.name))
    else .ok { t with evaluators := t.evaluators.insert kind evaluator }

/-- Remove a kind, giving its evaluator. -/
def unregister? (t : KindTable) (kind : Value) : Except Fault (Value × KindTable) :=
  if !kind.isHashable then .error .unsupported
  else match t.evaluators.find? kind with
  | some v => .ok (v, { t with evaluators := t.evaluators.erase kind })
  | none => .error (.definition (.kindNotRegistered kind t.name))

/-- The evaluator of a kind. -/
def evaluator? (t : KindTable) (kind : Value) : Except Fault Value :=
  if !kind.isHashable then .error .unsupported
  else match (t.evaluators.find? kind).filter fun v => !(v matches .null) with
  | some v => .ok v
  | none =>
    match t.kinds? with
    | some available => .error (.definition (.noEvaluator kind available))
    | none => .error .unsupported

/-- The kind is registered. -/
def has? (t : KindTable) (kind : Value) : Except Fault Bool :=
  if kind.isHashable then .ok (t.evaluators.contains kind) else .error .unsupported

end KindTable

end Assay
