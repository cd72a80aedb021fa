import Assay.Session.Basic

/-!
# Names in a session

Variables and classes of named members, by which later operations refer to what earlier ones
made. Of several variables for one object the oldest names it.
-/

namespace Assay

/-- A class with one more name. A value that is named already gets an alias. -/
def EnumClass.add (c : EnumClass Value) (name : String) (v : Value) : EnumClass Value :=
  match c.members.find? fun m => m.2.isFound v with
  | some m => { c with aliases := c.aliases ++ [(name, m.1)] }
  | none => { c with members := c.members ++ [(name, v)] }

namespace Names

open Run

/-- Let a variable stand for a value. A variable that is set again keeps its age. -/
def bind (name : String) (v : Value) : Run Unit :=
  modify fun s =>
    if (s.bindings.lookup name).isSome then
      { s with bindings := s.bindings.map fun e => if e.1 == name then (name, v) else e }
    else { s with bindings := s.bindings ++ [(name, v)] }

/-- Forget a variable. -/
def forget (name : String) : Run Unit :=
  modify fun s => { s with bindings := s.bindings.filter (·.1 != name) }

/-- What a variable stands for. -/
def valueOf (name : String) : Run Value := do
  ofOption (.missingKey (.str name)) ((← get).bindings.lookup name)

/-- The variable that stands for a schema or check. -/
def nameOf? (s : Session) (node : Value) : Option String :=
  let isNode (v : Value) : Bool :=
    match v, node with
    | .schema a, .schema b => a.id == b.id
    | .check a, .check b => a.id == b.id
    | _, _ => false
  (s.bindings.find? fun e => isNode e.2).map (·.1)

/-- Define a class of named members. -/
def defineClass (name : String) (members : List (String × Value)) : Run Value := do
  let new : EnumClass Value := ⟨← freshRef, name, [], []⟩
  let c := members.foldl (fun c m => c.add m.1 m.2) new
  modify fun s => { s with classes := (name, c) :: s.classes }
  return .cls (.enumeration c)

/-- The member of a class by its name or an alias. -/
def member (className name : String) : Run Value := do
  let session : Session ← get
  match session.classes.lookup className with
  | none => throw (.missingKey (.str className))
  | some c =>
    match c.members.find? fun m => m.1 == (c.aliases.lookup name).getD name with
    | some m => return .member c m.1 m.2
    | none => throw (.missingKey (.str name))

end Names

end Assay
