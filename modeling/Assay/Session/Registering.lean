import Assay.Session.Basic
import Assay.Function.Class

/-!
# Registries by name

A session has any number of registries by name. What is looked up in a registry may be any
value: a plain value has no identity, so it cannot be looked up, and is never there.
-/

namespace Assay

/-- The value has an identity of its own, beside what it is equal to. -/
def Value.hasIdentity : Value → Bool
  | .missing | .object .. | .cls _ | .member .. | .pending .. | .callable _ | .builtin _
  | .issue _ | .check _ | .schema _ | .set _ | .frozenSet _ => true
  | _ => false

namespace Registering

open Run

/-- The name that a registry has unless it is given one. -/
def defaultName : String := "schemas"

/-- The registry of a name. -/
def registry (name : String) : Run Registry := do
  let new : Registry := { name := if name.isEmpty then defaultName else name }
  return ((← get).registries.lookup name).getD new

/-- Change the registry of a name. -/
def setRegistry (name : String) (r : Registry) : Run Unit :=
  modify fun s => { s with registries := (name, r) :: s.registries.filter (·.1 != name) }

/-- Attach metadata to a schema, which is the answer. -/
def add (name : String) (node metadata : Value) : Run Value := do
  let r ← registry name
  match node with
  | .schema s =>
    match ← (if metadata.truthy then Run.lift (ClassRef.toDict metadata) else pure (.dict [])) with
    | .dict entries =>
      setRegistry name (← Run.lift (r.add? s entries))
      return node
    | _ => throw .unsupported
  | _ => throw (.notRegistrable node.className r.name)

/-- The metadata of a schema; null if it is not registered. -/
def metadata (name : String) (node : Value) : Run Value := do
  if !node.hasIdentity || !node.isHashable then throw .unsupported
  match node with
  | .schema s => return ((← registry name).get? s |>.map .dict).getD .null
  | _ => return .null

/-- The value is a registered schema. -/
def has (name : String) (node : Value) : Run Bool := do
  if node.hasIdentity && !node.isHashable then throw .unsupported
  match node with
  | .schema s => return (← registry name).has s
  | _ => return false

/-- The value is a registered schema; values of other kinds never are. -/
def contains (name : String) (node : Value) : Run Bool :=
  match node with
  | .schema _ => has name node
  | _ => pure false

/-- Remove the registration of a schema, telling whether there was one. -/
def remove (name : String) (node : Value) : Run Bool := do
  let known ← has name node
  match known, node with
  | true, .schema s => do
    setRegistry name ((← registry name).remove s)
    return true
  | _, _ => return false

/-- Remove every registration. -/
def clear (name : String) : Run Unit := do
  setRegistry name (← registry name).clear

/-- The schema that holds an identifier; null if none does. -/
def byId (name : String) (id : Value) : Run Value := do
  if !id.isHashable then throw .unsupported
  return .ofSchema? ((← registry name).holder? id)

/-- The number of registered schemas. -/
def count (name : String) : Run Nat := do
  return (← registry name).count

end Registering

end Assay
