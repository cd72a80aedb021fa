import Assay.Session.Basic

/-!
# Signatures

How the arguments of an operation are told apart: by place, by name, or either, some with a
default. An operation may also take any number of further arguments by place, or further fields
by name. Arguments that do not fit are refused (`Signature.bind`).
-/

namespace Assay

/-- A parameter, which needs an argument unless it has a default. -/
structure Parameter where
  name : String
  default : Option Value
  deriving Inhabited

/-- The parameters of an operation. -/
structure Signature where
  /-- Given by place or by name. -/
  places : List Parameter := []
  /-- Given by name alone. -/
  names : List Parameter := []
  /-- Any number of further arguments by place. -/
  takesRest : Bool := false
  /-- Any number of further fields by name. -/
  takesFields : Bool := false
  deriving Inhabited

/-- The arguments of an operation. -/
structure Arguments where
  values : List (String × Value) := []
  rest : List Value := []
  fields : List (String × Value) := []
  deriving Inhabited

/-- The argument of a parameter. -/
def Arguments.get (args : Arguments) (name : String) : Value :=
  (args.values.lookup name).getD .null

namespace Signature

/-- The arguments by place, each with the parameter that stands there, and those left over. -/
def byPlace : List Parameter → List Value → List (String × Value) × List Value
  | p :: ps, v :: vs =>
    let (bound, rest) := byPlace ps vs
    ((p.name, v) :: bound, rest)
  | _, vs => ([], vs)

/-- Complete arguments with the defaults of their parameters. -/
def complete (given : List (String × Value)) :
    List Parameter → Except Fault (List (String × Value))
  | [] => .ok []
  | p :: ps =>
    match (given.lookup p.name).or p.default with
    | some v => ((p.name, v) :: ·) <$> complete given ps
    | none => .error .unsupported

/-- Tell arguments by place and by name apart. -/
def bind (sig : Signature) (byPlaceArgs : List Value) (byName : List (String × Value)) :
    Except Fault Arguments := do
  let (placed, rest) := byPlace sig.places byPlaceArgs
  if !rest.isEmpty && !sig.takesRest then throw .unsupported
  if byName.any fun f => (placed.lookup f.1).isSome then throw .unsupported
  let parameters := sig.places ++ sig.names
  let isOwn (f : String × Value) : Bool := parameters.any (·.name == f.1)
  let fields := byName.filter fun f => !isOwn f
  if !fields.isEmpty && !sig.takesFields then throw .unsupported
  let values ← complete (placed ++ byName.filter isOwn) parameters
  return ⟨values, rest, fields⟩

end Signature

end Assay
