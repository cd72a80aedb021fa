import Assay.Function.Host
import Assay.Schema.OfDefinition

/-!
# Lazy schemas and absence

A lazy schema asks its getter for the schema that it stands for when it is first needed, and
remembers the answer (`Schema.resolve`). Whether a schema accepts an absent value
(`Schema.acceptsAbsent`) is passed on by modifiers that do not decide it themselves, so the
question may go through lazy schemas.
-/

namespace Assay

variable (host : Host)

/-- What a getter answers. The getter of a reference to a named definition is the library's. -/
def getterAnswer (getter : Value) : Run Value :=
  match getter with
  | .builtin (.definition id name) => Value.schema <$> resolveDefinition id name
  | getter => do return (← host.call getter .nothing).value

/-- The schema that a lazy schema stands for. -/
def Schema.resolve (s : Schema Value) (getter : Value) : Run (Schema Value) := do
  match (← get).resolved.lookup s.id with
  | some inner => return inner
  | none =>
    let inner ← Construct.schemaAt "lazy getter result" (← getterAnswer host getter)
    modify fun session => { session with resolved := (s.id, inner) :: session.resolved }
    return inner

/-- One of the schemas satisfies a test; those after it are not asked. -/
def anySchema (test : Schema Value → Run Bool) : List (Schema Value) → Run Bool
  | [] => pure false
  | s :: rest => do if ← test s then return true else anySchema test rest

/-- The schema accepts an absent value, as far as `fuel` levels show. -/
def Schema.acceptsAbsent : Nat → Schema Value → Run Bool
  | 0, _ => throw .tooDeep
  | fuel + 1, s =>
    match s.form with
    | .optional _ | .default .. | .prefault .. => pure true
    | .nullable inner | .catching inner _ | .readonly inner => acceptsAbsent fuel inner
    | .pipe source _ => acceptsAbsent fuel source
    | .union options | .discriminatedUnion options .. => anySchema (acceptsAbsent fuel) options
    | .lazy getter _ => do acceptsAbsent fuel (← s.resolve host getter)
    | _ => pure false

/-- How many levels recursion through lazy schemas may go beyond the depth of a schema. -/
def reserve : Nat := 2000

/-- The levels that are allowed for a walk along a schema. -/
def Schema.budget (s : Schema Value) : Nat := s.depth + reserve

end Assay
