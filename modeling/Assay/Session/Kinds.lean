import Assay.Session.Basic

/-!
# Tables of kinds by name

A session has the table that evaluation uses, and any number of separate ones by name.
-/

namespace Assay.Kinds

open Run

/-- The table of a name; evaluation uses the one without a name. -/
def table (name : Option String) : Run KindTable := do
  let s ← get
  match name with
  | none => return s.kinds
  | some n => return (s.kindTables.lookup n).getD ⟨n, []⟩

/-- Change the table of a name. -/
def setTable (name : Option String) (t : KindTable) : Run Unit :=
  modify fun s =>
    match name with
    | none => { s with kinds := t }
    | some n => { s with kindTables := (n, t) :: s.kindTables.filter (·.1 != n) }

/-- Register an evaluator. -/
def register (name : Option String) (kind evaluator replacing : Value) : Run Unit := do
  setTable name (← Run.lift ((← table name).register? kind evaluator replacing.truthy))

/-- Remove a kind, giving its evaluator. -/
def unregister (name : Option String) (kind : Value) : Run Value := do
  let (evaluator, t) ← Run.lift ((← table name).unregister? kind)
  setTable name t
  return evaluator

/-- The evaluator of a kind. -/
def evaluator (name : Option String) (kind : Value) : Run Value := do
  Run.lift ((← table name).evaluator? kind)

/-- The kind is registered. -/
def has (name : Option String) (kind : Value) : Run Bool := do
  Run.lift ((← table name).has? kind)

/-- The kinds in ascending order. -/
def list (name : Option String) : Run Value := do
  return .list (← ofOption .unsupported (← table name).kinds?)

end Assay.Kinds
