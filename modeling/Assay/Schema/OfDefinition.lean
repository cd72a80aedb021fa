import Assay.Schema.Construct
import Assay.Value.Depth

/-!
# Schemas from definitions

A definition is plain data: a tag, the fields of a form, and a list of check definitions.
`buildSchema` makes the schema that a definition describes, together with its named definitions,
to which references resolve on first use (`resolveDefinition`). A field that a tag does not know
is left out with a warning, and so is, in a lenient build, a check that cannot be built.
-/

namespace Assay

open Run

namespace OfDefinition

/-- The value of a field, null if it is absent. -/
def field (d : Entries) (name : String) : Value :=
  (d.get? name).getD .null

/-- A field that a check must have. -/
def required (d : Entries) (tag : Value) (name : String) : Run Value :=
  match d.get? name with
  | some v => pure v
  | none => refuse (.checkFieldMissing tag (.str name))

/-- A field as a switch. -/
def flag (d : Entries) (name : String) : Value :=
  .bool (field d name).truthy

/-! ## Checks -/

/-- The length rules by tag, with the field of their bound. -/
def lengthRule? : String → Option ((Nat → Rule Value) × String)
  | "min_length" => some (.atLeast .length, "minimum")
  | "max_length" => some (.atMost .length, "maximum")
  | "length_equals" => some (.exactly .length, "length")
  | "min_size" => some (.atLeast .size, "minimum")
  | "max_size" => some (.atMost .size, "maximum")
  | "size_equals" => some (.exactly .size, "size")
  | _ => none

/-- The check of a string format: one of the rules on texts, or a named format. -/
def stringCheck (d : Entries) (tag error abort : Value) : Run Value := do
  let make (rule : Rule Value) : Run Value := Value.check <$> Construct.check rule error abort
  match field d "format" with
  | .str "regex" => make (← Construct.regex (← required d tag "pattern") (.str "regex"))
  | .str "lowercase" => make .lowercase
  | .str "uppercase" => make .uppercase
  | .str "starts_with" => make (.startsWith (← required d tag "prefix"))
  | .str "ends_with" => make (.endsWith (← required d tag "suffix"))
  | .str "includes" => make (.includes (← required d tag "includes"))
  | name =>
    return .schema (← Construct.namedFormat name abort ⟨.tuple [], error, []⟩)

/-- The check of a tag. -/
def checkOfTag (d : Entries) (tag : String) : Run Value := do
  let error := field d "error"
  let abort := flag d "abort"
  let make (rule : Rule Value) : Run Value := Value.check <$> Construct.check rule error abort
  let required := required d (.str tag)
  let inclusive := (d.get? "inclusive").getD (.bool false)
  match lengthRule? tag, tag with
  | some (rule, bound), _ => make (← Construct.lengthBound rule (← required bound))
  | none, "greater_than" => make (← Construct.greaterThan (← required "value") inclusive)
  | none, "less_than" => make (← Construct.lessThan (← required "value") inclusive)
  | none, "multiple_of" => make (← Construct.multipleOf (← required "value"))
  | none, "string_format" => stringCheck d (.str tag) error abort
  | none, "number_format" =>
    return .schema (← Construct.integer .null abort ⟨.tuple [], error, []⟩)
  | none, "overwrite" =>
    let name := field d "name"
    if name.truthy then
      return .check (← Construct.check (← Construct.overwrite name .null) .null (.bool false))
    else refuse (.checkUnknown (.str tag))
  | none, tag => refuse (.checkUnknown (.str tag))

/-- The check that a definition describes. -/
def check (d : Entries) : Run Value := do
  match ← Construct.hashable (field d "check") with
  | .str tag => checkOfTag d tag
  | tag => refuse (.checkUnknown tag)

end OfDefinition

/-- Make the check that a definition describes. -/
def buildCheck (definition : Value) : Run Value :=
  match definition.entries? with
  | some d => OfDefinition.check d
  | none => throw .missingAttribute

namespace OfDefinition

/-! ## Schemas -/

/-- The tags of the forms that can be defined. -/
def tags : List String :=
  ["string", "number", "boolean", "date", "null", "any", "unknown", "never", "literal", "enum",
    "object", "array", "tuple", "record", "map", "set", "union", "intersection", "optional",
    "nullable", "readonly", "promise", "default", "prefault", "catch", "pipe", "ref", "lazy",
    "transform", "custom"]

/-- The fields that every definition may have. -/
def commonFields : List String := ["type", "checks", "error", "check", "abort"]

/-- The fields of a tag. -/
def ownFields : String → List String
  | "string" | "number" => ["coerce", "format"]
  | "boolean" | "date" => ["coerce"]
  | "literal" => ["values", "value"]
  | "enum" => ["entries", "values"]
  | "object" => ["shape", "unknown_keys", "catchall"]
  | "array" | "set" => ["element"]
  | "tuple" => ["items", "rest"]
  | "record" | "map" => ["key_type", "value_type"]
  | "union" => ["options", "discriminator"]
  | "intersection" => ["left", "right"]
  | "optional" | "nullable" | "readonly" | "promise" => ["inner"]
  | "default" | "prefault" => ["inner", "default_value"]
  | "catch" => ["inner", "catch_value"]
  | "pipe" => ["source", "target"]
  | "ref" | "lazy" => ["name"]
  | "custom" => ["params"]
  | _ => []

/-- Warn of the fields that a tag does not know. -/
def warnUnknown (d : Entries) (tag : String) : Run Unit := do
  let known := commonFields ++ ownFields tag
  let unknown := d.filter fun e => !(e.1.str?.any known.contains)
  let ignored ← ofOption .unsupported (Value.sorted? (unknown.map (·.1)))
  if !ignored.isEmpty then
    logLine "WARNING"
      ("Ignoring unknown keys for '" ++ tag ++ "' schema: " ++ (Value.list ignored).written)

/-- The checks that definitions describe. A lenient build skips those that cannot be built. -/
def checks (strict : Bool) : List Value → Run (List Value)
  | [] => pure []
  | definition :: rest => do
    match ← attempt (buildCheck definition) with
    | .ok check => return check :: (← checks strict rest)
    | .error (.definition cause) =>
      if strict then refuse cause
      else
        logLine "WARNING" ("Skipping check that cannot be built: " ++ definition.written)
        checks strict rest
    | .error fault => throw fault

/-- The checks of a definition. -/
def checksOf (strict : Bool) (d : Entries) : Run (List Value) := do
  let given := field d "checks"
  checks strict (← if given.truthy then Construct.items given else pure [])

/-- A set of named definitions and whether it is strict. -/
structure Scope where
  id : Nat
  definitions : Entries
  strict : Bool

/-- A schema of a kind that has an evaluator but no form of its own. -/
def generic (scope : Scope) (d : Entries) : Run (Schema Value) := do
  let kind := field d "type"
  let unknown := DefinitionError.typeUnknown kind (tags.mergeSort (· ≤ ·))
  match kind with
  | .str _ =>
    if !(← get).kinds.evaluators.contains kind then refuse unknown
    let checks ← checksOf scope.strict d
    let fields := d.filter fun e => !(e.1.str?.any commonFields.contains)
    let extra ← fields.mapM fun e =>
      match e.1 with
      | .str "kind" | .str "self" => throw .unsupported
      | .str name => pure (name, e.2)
      | _ => throw .unsupported
    Construct.make .generic ⟨.list checks, field d "error", ("kind", kind) :: extra⟩
  | _ => refuse unknown

section

-- How nested definitions are built.
variable (build : Value → Run (Schema Value))

/-- The schema of a nested definition that must be there. -/
def child (d : Entries) (name : String) : Run Value :=
  match d.get? name with
  | some v => Value.schema <$> build v
  | none => refuse (.childMissing (field d "type") name)

/-- The schema of a nested definition that may be null. -/
def child? (v : Value) : Run Value :=
  match v with
  | .null => pure .null
  | v => Value.schema <$> build v

/-- The schemas of nested definitions. -/
def children : List Value → Run (List Value)
  | [] => pure []
  | v :: vs => do
    let s ← build v
    return .schema s :: (← children vs)

/-- The schemas of a shape's definitions. -/
def shape : List (Value × Value) → Run (List (Value × Value))
  | [] => pure []
  | (k, v) :: rest => do
    let s ← build v
    return (k, .schema s) :: (← shape rest)

/-- The items of a field, none if it is absent or empty. -/
def listed (d : Entries) (name : String) : Run (List Value) :=
  let v := field d name
  if v.truthy then Construct.items v else pure []

/-- The schema of a string or number definition, which may name a format. -/
def scalar (d : Entries) (tag : String) : Run (Schema Value) := do
  let coerce := flag d "coerce"
  let abort := flag d "abort"
  let format := field d "format"
  match tag with
  | "string" =>
    if format.truthy then Construct.namedFormat format abort {} else Construct.string coerce {}
  | _ =>
    if format.equals (.str "int") then Construct.integer coerce abort {}
    else if format.truthy then refuse (.numberFormatUnknown format)
    else Construct.number coerce {}

/-- The schema of listed values. -/
def enumerated (d : Entries) (tag : String) : Run (Schema Value) :=
  match tag with
  | "literal" =>
    match d.get? "values", d.get? "value" with
    | some values, _ => do Construct.literal (.tuple (← Construct.items values)) {}
    | none, some value => Construct.literal (.tuple [value]) {}
    | none, none => refuse .literalWithoutValues
  | _ =>
    match (d.get? "entries").getD (field d "values") with
    | .null => refuse .enumWithoutEntries
    | entries => Construct.enumeration entries {}

/-- The schema of a reference to a named definition. -/
def reference (scope : Scope) (d : Entries) : Run (Schema Value) := do
  let name ← Construct.hashable (field d "name")
  if scope.definitions.contains name then
    Construct.lazy (.builtin (.definition scope.id name)) name {}
  else
    let available ← ofOption .unsupported (Value.sorted? (scope.definitions.map (·.1)))
    refuse (.referenceUnknown name available)

/-- The schema of an object definition. -/
def object (d : Entries) : Run (Schema Value) := do
  let given := field d "shape"
  match if given.truthy then given.entries? else some [] with
  | none => refuse .shapeNotMapping
  | some entries =>
    let shape ← shape build entries
    let catchall ← child? build (field d "catchall")
    Construct.object (.dict shape) ((d.get? "unknown_keys").getD (.str "strip")) catchall {}

/-- The schema of a union definition, with a discriminator or without. -/
def union (d : Entries) : Run (Schema Value) := do
  let options ← children build (← listed d "options")
  let discriminator := field d "discriminator"
  if discriminator.truthy then Construct.discriminatedUnion discriminator (.list options) {}
  else Construct.union (.list options) {}

/-- The schema of a definition by its tag, without checks and message provider. -/
def form (scope : Scope) (d : Entries) (tag : String) : Run (Schema Value) := do
  let child := child build d
  match tag with
  | "string" | "number" => scalar d tag
  | "boolean" => Construct.boolean (flag d "coerce") {}
  | "date" => Construct.date (flag d "coerce") {}
  | "null" => Construct.make .null {}
  | "any" => Construct.make .any {}
  | "unknown" => Construct.make .unknown {}
  | "never" => Construct.make .never {}
  | "literal" | "enum" => enumerated d tag
  | "object" => object build d
  | "array" => Construct.array (← child "element") {}
  | "tuple" =>
    let items ← children build (← listed d "items")
    Construct.tuple (.list items) (← child? build (field d "rest")) {}
  | "record" =>
    let k ← child "key_type"
    Construct.record k (← child "value_type") {}
  | "map" =>
    let k ← child "key_type"
    Construct.map k (← child "value_type") {}
  | "set" => Construct.set (← child "element") {}
  | "union" => union build d
  | "intersection" =>
    let l ← child "left"
    Construct.intersection l (← child "right") {}
  | "optional" => Construct.wrapper .optional (← child "inner") {}
  | "nullable" => Construct.wrapper .nullable (← child "inner") {}
  | "readonly" => Construct.wrapper .readonly (← child "inner") {}
  | "promise" => Construct.wrapper .promise (← child "inner") {}
  | "default" => Construct.wrapper (.default · (field d "default_value")) (← child "inner") {}
  | "prefault" => Construct.wrapper (.prefault · (field d "default_value")) (← child "inner") {}
  | "catch" => Construct.wrapper (.catching · (field d "catch_value")) (← child "inner") {}
  | "pipe" =>
    let s ← child "source"
    Construct.pipe s (← child "target") {}
  | "ref" | "lazy" => reference scope d
  | _ => refuse (.functionOnly (.str tag))

end

/-- Give a schema that was just made the checks and the message provider of its definition, and
with either of them a number of its own. -/
def attach (scope : Scope) (d : Entries) (s : Schema Value) : Run (Schema Value) := do
  let checks ← checksOf scope.strict d
  let s ← if checks.isEmpty then pure s
    else pure { s with id := ← freshRef, checks := s.checks ++ checks }
  match field d "error" with
  | .str e => return { s with id := ← freshRef, error := .str e }
  | _ => return s

/-- The schema of a definition nested at most `depth` deep. -/
def build (scope : Scope) : Nat → Value → Run (Schema Value)
  | 0, definition =>
    match definition.entries? with
    | none => refuse (.notMapping definition)
    | some _ => throw .tooDeep
  | depth + 1, definition =>
    match definition.entries? with
    | none => refuse (.notMapping definition)
    | some d => do
      match ← Construct.hashable (field d "type") with
      | .str tag =>
        if tags.contains tag then
          warnUnknown d tag
          attach scope d (← form (build scope depth) scope d tag)
        else generic scope d
      | _ => generic scope d

end OfDefinition

/-- The place of a named definition in its set. -/
def DefinitionSet.place? (set : DefinitionSet) (name : Value) : Option Nat :=
  List.findIdx? (fun e => e.1.isFound name) set.definitions

/-- Remember what the definition at a place was built to. -/
def Session.remember (session : Session) (id place : Nat) (s : Schema Value) : Session :=
  { session with definitionSets := session.definitionSets.map fun e =>
      if e.1 == id then (id, { e.2 with built := (place, s) :: e.2.built }) else e }

/-- Build the definition at a place of a set. -/
def buildPlace (id : Nat) (set : DefinitionSet) (place : Nat) : Run (Schema Value) :=
  let definition := ((set.definitions[place]?).map (·.2)).getD .null
  inLane (numberIn id place + 1)
    (OfDefinition.build ⟨id, set.definitions, set.strict⟩ definition.depth definition)

/-- The schema of a named definition, built on first use. -/
def resolveDefinition (id : Nat) (name : Value) : Run (Schema Value) := do
  match (← get).definitionSets.lookup id with
  | none => throw (.missingKey name)
  | some set =>
    match set.place? name with
    | none => throw (.missingKey name)
    | some place =>
      match set.built.lookup place with
      | some s => return s
      | none =>
        let s ← buildPlace id set place
        modify fun session => session.remember id place s
        return s

/-- Make the schema that the fields of a definition describe. A definition without a tag but
with a name refers to the named definition. -/
def createSchema (config : Entries) (strict : Bool) : Run (Schema Value) := do
  let given := OfDefinition.field config "definitions"
  let config := config.erase (.str "definitions")
  match if given.truthy then given.entries? else some [] with
  | none => refuse (.definitionsNotMapping given.className)
  | some definitions =>
    let tag := OfDefinition.field config "type"
    let name := OfDefinition.field config "name"
    let isReference := tag.equals (.str "ref") || tag.equals (.str "lazy")
    let config :=
      if isReference then config
      else
        let rest := config.erase (.str "name")
        if (config.get? "type").isNone && !(name matches .null) then
          [(.str "type", .str "ref"), (.str "name", name)]
        else rest
    let label := if name.truthy then name else (config.get? "type").getD (.str "unnamed_schema")
    logLine "INFO" ("Creating schema: " ++ label.text)
    let id ← freshRef
    modify fun s => { s with definitionSets := (id, ⟨definitions, strict, []⟩) :: s.definitionSets }
    OfDefinition.build ⟨id, definitions, strict⟩ (Value.dict config).depth (.dict config)

/-- Make the schema that a definition describes. -/
def buildSchema (definition : Value) (strict : Bool) : Run (Schema Value) := do
  match ← Run.lift (ClassRef.toDict definition) with
  | .dict config =>
    if config.any fun e => e.1.str?.isNone || e.1.str? == some "self" then throw .unsupported
    createSchema config strict
  | _ => throw .unsupported

end Assay
