import Assay.Schema.Fault

/-!
# Registries

A registry attaches metadata to schemas by identity. Metadata may carry an `id`, which belongs
to at most one registered schema at a time (`Registry.add?`). Entries do not keep a schema alive:
`Registry.keepLive` drops those whose schema nobody holds any more. The identifiers of such
schemas stay behind, held by no schema.
-/

namespace Assay

/-- A schema with the metadata attached to it. -/
structure Registration where
  schema : Schema Value
  metadata : Entries
  deriving Inhabited

namespace Registration

/-- The identifier in the metadata, if there is one. -/
def id? (r : Registration) : Option Value :=
  (r.metadata.get? "id").filter fun v => !(v matches .null)

end Registration

/-- The registrations in the order of their schemas' first registration, and the identifiers,
each with the schema that holds it as long as that is alive. -/
structure Registry where
  name : String
  registrations : List Registration := []
  holders : List (Value × Option (Schema Value)) := []
  deriving Inhabited

namespace Registry

/-- The registration of a schema. -/
def registration? (r : Registry) (schema : Schema Value) : Option Registration :=
  r.registrations.find? (·.schema.id == schema.id)

/-- The metadata of a schema. -/
def get? (r : Registry) (schema : Schema Value) : Option Entries :=
  (r.registration? schema).map (·.metadata)

/-- The schema is registered. -/
def has (r : Registry) (schema : Schema Value) : Bool :=
  (r.registration? schema).isSome

/-- The number of registered schemas. -/
def count (r : Registry) : Nat := r.registrations.length

/-- The schema that holds an identifier. -/
def holder? (r : Registry) (id : Value) : Option (Schema Value) :=
  (r.holders.find? fun h => h.1.isFound id).bind (·.2)

/-- Release the identifier that a schema's current metadata carries. -/
def release (r : Registry) (schema : Schema Value) : Registry :=
  match (r.registration? schema).bind Registration.id? with
  | some id => { r with holders := r.holders.filter fun h => !h.1.isFound id }
  | none => r

/-- Put a registration in the place of the schema's earlier one, or at the end. -/
def put (new : Registration) : List Registration → List Registration
  | [] => [new]
  | old :: rest =>
    if old.schema.id == new.schema.id then new :: rest else old :: put new rest

/-- Let a schema hold an identifier: a known identifier stays as it is, in its place. -/
def hold (id : Value) (schema : Schema Value) :
    List (Value × Option (Schema Value)) → List (Value × Option (Schema Value))
  | [] => [(id, some schema)]
  | h :: rest => if h.1.isFound id then (h.1, some schema) :: rest else h :: hold id schema rest

/-- Attach metadata to a schema, in place of any earlier metadata. The identifier must not be
held by another schema. -/
def add? (r : Registry) (schema : Schema Value) (metadata : Entries) : Except Fault Registry :=
  let new : Registration := ⟨schema, metadata⟩
  match new.id? with
  | none =>
    let r := r.release schema
    .ok { r with registrations := put new r.registrations }
  | some id =>
    if !id.isHashable then .error .unsupported
    else match (r.holder? id).filter (·.id != schema.id) with
    | some _ => .error (.duplicateId id)
    | none =>
      let r := r.release schema
      .ok { r with
        registrations := put new r.registrations
        holders := hold id schema r.holders }

/-- Remove the registration of a schema. -/
def remove (r : Registry) (schema : Schema Value) : Registry :=
  let r := r.release schema
  { r with registrations := r.registrations.filter (·.schema.id != schema.id) }

/-- Remove every registration. -/
def clear (r : Registry) : Registry :=
  { r with registrations := [], holders := [] }

/-- Drop the registrations of schemas that are no longer alive; nobody holds their identifiers
any more. -/
def keepLive (live : Nat → Bool) (r : Registry) : Registry :=
  { r with
    registrations := r.registrations.filter fun e => live e.schema.id
    holders := r.holders.map fun h => (h.1, h.2.filter fun s => live s.id) }

end Registry

end Assay
