import Assay.Pattern.Parser
import Assay.Function.Class

/-!
# Making schemas and checks

Every schema and check is made here, after its parts have been found well formed; a part that
is not ends the operation with the cause. A new object gets a number of its own, so that two
schemas of the same definition stay apart.
-/

namespace Assay.Construct

open Run

/-- What every schema has beside its form. -/
structure Shared where
  checks : Value := .tuple []
  error : Value := .null
  /-- Further fields of the definition, two of which name the kind. -/
  extra : List (String × Value) := []
  deriving Inhabited

/-- The items of a value that has to be iterable. -/
def items (v : Value) : Run (List Value) := ofOption .unsupported v.iterate?

/-- A value that has to be hashable. -/
def hashable (v : Value) : Run Value :=
  if v.isHashable then pure v else throw .unsupported

/-- A schema of a form. Its kind is the tag of the form unless another is given. -/
def make (form : Form Value (Schema Value)) (shared : Shared) : Run (Schema Value) := do
  let checks ← items shared.checks
  let given := (shared.extra.lookup "kind").filter Value.truthy
  match given.or (form.tag?.map Value.str) with
  | none => refuse (.kindTagMissing form.className)
  | some tag =>
    return {
      id := ← freshRef
      kind := (shared.extra.lookup "type").getD tag
      form := form
      extra := shared.extra.filter fun f => f.1 != "kind" && f.1 != "type"
      checks := checks
      error := shared.error }

/-- A copy of a schema with parts changed. A copy of a resolved lazy schema is resolved too. -/
def copy (old new : Schema Value) : Run (Schema Value) := do
  let ref ← freshRef
  match (← get).resolved.lookup old.id with
  | some inner => modify fun s => { s with resolved := (ref, inner) :: s.resolved }
  | none => pure ()
  return { new with id := ref }

/-- A part that has to be a schema. -/
def schemaAt (place : String) (v : Value) : Run (Schema Value) :=
  match v with
  | .schema s => pure s
  | v => refuse (.notSchema place v.className)

/-- A part that has to be a schema unless it is null. -/
def schemaAt? (place : String) (v : Value) : Run (Option (Schema Value)) :=
  match v with
  | .null => pure none
  | v => some <$> schemaAt place v

/-- A switch as definitions keep it: null when off. -/
def switch (v : Value) : Value := if v.truthy then v else .null

/-! ## Scalars -/

def string (coerce : Value) (shared : Shared) : Run (Schema Value) :=
  make (.string (switch coerce)) shared

def number (coerce : Value) (shared : Shared) : Run (Schema Value) :=
  make (.number (switch coerce)) shared

def integer (coerce abort : Value) (shared : Shared) : Run (Schema Value) :=
  make (.integer (switch coerce) abort) shared

def boolean (coerce : Value) (shared : Shared) : Run (Schema Value) :=
  make (.boolean (switch coerce)) shared

def date (coerce : Value) (shared : Shared) : Run (Schema Value) :=
  make (.date (switch coerce)) shared

/-- A string schema of a format. -/
def format (f : StringFormat) (coerce abort : Value) (shared : Shared) : Run (Schema Value) :=
  make (.format f (switch coerce) abort) shared

/-- A string schema of a format by name. -/
def namedFormat (name abort : Value) (shared : Shared) : Run (Schema Value) := do
  let name ← hashable name
  match name.str?.bind StringFormat.ofName? with
  | some f => format f .null abort shared
  | none => refuse (.formatUnknown name)

/-- One value, or any number of them in a list or tuple. -/
def literal (values : Value) (shared : Shared) : Run (Schema Value) :=
  let values := values.items?.getD [values]
  if values.isEmpty then refuse .literalEmpty else make (.literal values) shared

/-- Entries by name, from a class of members, a mapping, or a list of values that are named by
their texts. -/
def enumeration (entries : Value) (shared : Shared) : Run (Schema Value) := do
  let (entries, cls) ← (match entries with
    | .cls (.enumeration c) => pure (c.members.map fun m => (Value.str m.1, m.2), some c)
    | .dict es | .view es => pure (es, none)
    | v => do
      let values ← items v
      pure (Entries.ofList (values.map fun v => (.str v.text, v)), none))
  if entries.isEmpty then refuse .enumEmpty
  else make (.enumeration entries cls) shared

/-! ## Structures -/

/-- The schemas of a shape by key. -/
def shapeOf : List (Value × Value) → Run (List (Value × Schema Value))
  | [] => pure []
  | (k, v) :: rest => do
    let s ← schemaAt ("shape[" ++ k.written ++ "]") v
    return (k, s) :: (← shapeOf rest)

def object (shape policy catchall : Value) (shared : Shared) : Run (Schema Value) := do
  match policy.str?.bind UnknownKeys.ofName? with
  | none => refuse (.policyUnknown policy)
  | some p =>
    let shape ← shapeOf (← ofOption .missingAttribute shape.entries?)
    let catchall ← schemaAt? "catchall" catchall
    make (.object shape p catchall) shared

def array (element : Value) (shared : Shared) : Run (Schema Value) := do
  make (.array (← schemaAt "element" element)) shared

def set (element : Value) (shared : Shared) : Run (Schema Value) := do
  make (.set (← schemaAt "element" element)) shared

/-- The schemas of positions, from position `index` on. -/
def positions : Nat → List Value → Run (List (Schema Value))
  | _, [] => pure []
  | index, v :: vs => do
    let s ← schemaAt ("items[" ++ toString index ++ "]") v
    return s :: (← positions (index + 1) vs)

def tuple (schemas rest : Value) (shared : Shared) : Run (Schema Value) := do
  let schemas ← positions 0 (← items schemas)
  let rest ← schemaAt? "rest" rest
  make (.tuple schemas rest) shared

def record (keyType valueType : Value) (shared : Shared) : Run (Schema Value) := do
  let k ← schemaAt "key_type" keyType
  let v ← schemaAt "value_type" valueType
  make (.record k v) shared

def map (keyType valueType : Value) (shared : Shared) : Run (Schema Value) := do
  let k ← schemaAt "key_type" keyType
  let v ← schemaAt "value_type" valueType
  make (.map k v) shared

/-! ## Combinations -/

/-- The options of a union, from option `index` on. -/
def optionsFrom : Nat → List Value → Run (List (Schema Value))
  | _, [] => pure []
  | index, v :: vs =>
    match v with
    | .schema s => do return s :: (← optionsFrom (index + 1) vs)
    | v => refuse (.optionNotSchema index v.className)

/-- The options of a union, of which there must be one. -/
def optionsOf (options : Value) : Run (List (Schema Value)) := do
  let options ← items options
  if options.isEmpty then refuse .unionEmpty else optionsFrom 0 options

def union (options : Value) (shared : Shared) : Run (Schema Value) := do
  make (.union (← optionsOf options)) shared

/-- The values that a schema enumerates, if it is one that does. -/
def enumerated? (s : Schema Value) : Option (List Value) :=
  match s.form with
  | .literal values => some values
  | .enumeration entries _ => some (entries.map (·.2))
  | _ => none

/-- The values of a field for which an option is picked. -/
def discriminatorValues (option : Schema Value) (discriminator : Value) : Run (List Value) := do
  match option.form with
  | .discriminatedUnion _ d table =>
    if d.equals discriminator then return table.map (·.1)
    else refuse (.discriminatorMissing discriminator (.schema option))
  | .object shape _ _ =>
    let key ← hashable discriminator
    match shape.find? fun e => e.1.isFound key with
    | none => refuse (.discriminatorMissing discriminator (.schema option))
    | some (_, field) =>
      match enumerated? field with
      | some values => return values
      | none => refuse (.discriminatorOpen discriminator (.schema option))
  | _ => refuse (.discriminatorMissing discriminator (.schema option))

/-- Add the values of one option to a table, in which each value occurs once. -/
def addValues (discriminator : Value) (index : Nat) :
    List Value → List (Value × Nat) → Run (List (Value × Nat))
  | [], table => pure table
  | v :: vs, table =>
    if table.any fun e => v.same e.1 then refuse (.discriminatorRepeated discriminator v)
    else addValues discriminator index vs (table ++ [(v, index)])

/-- The table of a discriminated union, from option `index` on. -/
def tableFrom (discriminator : Value) :
    Nat → List (Schema Value) → List (Value × Nat) → Run (List (Value × Nat))
  | _, [], table => pure table
  | index, o :: os, table => do
    let values ← discriminatorValues o discriminator
    tableFrom discriminator (index + 1) os (← addValues discriminator index values table)

def discriminatedUnion (discriminator options : Value) (shared : Shared) :
    Run (Schema Value) := do
  let options ← optionsOf options
  let _ ← items shared.checks
  let table ← tableFrom discriminator 0 options []
  make (.discriminatedUnion options discriminator table) shared

/-- A side of an intersection. -/
def side (name : String) (v : Value) : Run (Schema Value) :=
  match v with
  | .schema s => pure s
  | _ => refuse (.sideNotSchema name)

def intersection (left right : Value) (shared : Shared) : Run (Schema Value) := do
  let l ← side "left" left
  let r ← side "right" right
  make (.intersection l r) shared

/-! ## Modifiers -/

/-- A schema around another, by the form that it gives the inner one. -/
def wrapper (form : Schema Value → Form Value (Schema Value)) (inner : Value)
    (shared : Shared) : Run (Schema Value) := do
  make (form (← schemaAt "inner" inner)) shared

def transform (fn : Value) (shared : Shared) : Run (Schema Value) :=
  if fn.isCallable then make (.transform fn) shared else refuse .transformNotCallable

def pipe (source target : Value) (shared : Shared) : Run (Schema Value) := do
  let s ← schemaAt "source" source
  let t ← schemaAt "target" target
  make (.pipe s t) shared

def lazy (getter name : Value) (shared : Shared) : Run (Schema Value) :=
  if getter.isCallable then make (.lazy getter name) shared else refuse .lazyNotCallable

def custom (fn params : Value) (shared : Shared) : Run (Schema Value) :=
  make (.custom fn params) shared

/-- A schema for the instances of a class. -/
def instanceOf (cls : Value) (shared : Shared) : Run (Schema Value) := do
  let name ← (match cls with
    | .cls c => pure c.name
    | .callable f => pure f.name
    | _ => throw .missingAttribute)
  custom (.builtin (.instanceOf cls)) (.dict [(.str "class", .str name)]) shared

/-! ## Checks -/

/-- A check of a rule. -/
def check (rule : Rule Value) (error abort : Value) : Run (Check Value) := do
  return ⟨← freshRef, rule, error, abort⟩

/-- A bound of a length. -/
def lengthBound (rule : Nat → Rule Value) (bound : Value) : Run (Rule Value) :=
  match bound with
  | .int n => if n < 0 then refuse (.lengthBound (rule 0).tag bound) else pure (rule n.toNat)
  | _ => refuse (.lengthBound (rule 0).tag bound)

/-- A lower bound, which must be something. -/
def greaterThan (bound inclusive : Value) : Run (Rule Value) :=
  match bound with
  | .null | .nan _ => refuse (.lowerBound bound)
  | _ => pure (.greaterThan bound inclusive)

/-- An upper bound, which must be something. -/
def lessThan (bound inclusive : Value) : Run (Rule Value) :=
  match bound with
  | .null | .nan _ => refuse (.upperBound bound)
  | _ => pure (.lessThan bound inclusive)

/-- A divisor, which must be a positive number. -/
def multipleOf (divisor : Value) : Run (Rule Value) :=
  if divisor.isNumber && (Value.int 0).before? false divisor == some true then
    pure (.multipleOf divisor)
  else refuse (.divisor divisor)

/-- A pattern that is found somewhere in a text. -/
def regex (pattern format : Value) : Run (Rule Value) :=
  match pattern with
  | .str s =>
    match Pattern.ofText s with
    | .ok p => pure (.regex p s format)
    | .error _ => throw .badPattern
  | _ => throw .missingAttribute

/-- A replacement by a function, or by one of the library's own by name. -/
def overwrite (fn name : Value) : Run (Rule Value) :=
  match fn with
  | .str "trim" => pure (.overwrite (.builtin .trim) fn)
  | .str "to_lower" => pure (.overwrite (.builtin .toLower) fn)
  | .str "to_upper" => pure (.overwrite (.builtin .toUpper) fn)
  | .str _ => refuse (.overwriteUnknown fn)
  | _ => pure (.overwrite fn name)

/-- A predicate; its issues carry a path and parameters. -/
def refinement (fn path params : Value) : Run (Rule Value) := do
  let path ← items path
  return .refinement fn (if path.isEmpty then .null else .list path) params

end Assay.Construct
