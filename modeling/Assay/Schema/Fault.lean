import Assay.Schema.Definition

/-!
# Faults

What can go wrong other than a value failing validation. A definition can be malformed or a
schema misused (`DefinitionError`, each cause with its wording and the context that reports
carry); a parse can meet something to await when it must not wait; a registry can refuse an
entry; and a supplied function or an unsupported operand can fail (`Fault`).
-/

namespace Assay

/-- The ways in which a definition is malformed or a schema is misused. -/
inductive DefinitionError
  | localeNotCallable (locale : Value)
  | localeUnknown (name : Value) (available : List Value)
  | kindTaken (kind : Value) (table : String)
  | kindNotRegistered (kind : Value) (table : String)
  | noEvaluator (kind : Value) (available : List Value)
  | noOwnEvaluator (kind : Value) (className : String)
  | kindTagMissing (className : String)
  | lengthBound (check : String) (bound : Value)
  | lowerBound (bound : Value)
  | upperBound (bound : Value)
  | divisor (value : Value)
  | overwriteUnknown (name : Value)
  | literalEmpty
  | enumEmpty
  | enumEntriesUnknown (missing entries : List Value)
  | formatUnknown (name : Value)
  | unionEmpty
  | optionNotSchema (index : Nat) (className : String)
  | discriminatorMissing (discriminator option : Value)
  | discriminatorOpen (discriminator option : Value)
  | discriminatorRepeated (discriminator value : Value)
  | unmergeable (path : List Value)
  | sideNotSchema (side : String)
  | policyUnknown (policy : Value)
  | notSchema (place className : String)
  | keysWithChecks (keys checks : List Value)
  | keysUnknown (keys available : List Value)
  | transformNotCallable
  | lazyNotCallable
  | checkFieldMissing (check field : Value)
  | checkUnknown (check : Value)
  | notMapping (definition : Value)
  | childMissing (kind : Value) (field : String)
  | typeUnknown (kind : Value) (available : List String)
  | functionOnly (kind : Value)
  | numberFormatUnknown (format : Value)
  | literalWithoutValues
  | enumWithoutEntries
  | shapeNotMapping
  | referenceUnknown (name : Value) (available : List Value)
  | definitionsNotMapping (className : String)
  | fileFormat (suffix path : String)
  | fileYaml (path : String)
  | fileJson (path reason : String)
  | fileUnreadable (path : String)
  | fileNotMapping (path : String)

namespace DefinitionError

/-- The wording of a cause. -/
def message : DefinitionError → String
  | localeNotCallable _ => "Locale must be a callable or a locale name"
  | localeUnknown name _ => "Unknown locale: " ++ name.text
  | kindTaken kind table => "Kind '" ++ kind.text ++ "' already registered in " ++ table
  | kindNotRegistered kind _ => "Kind not registered: " ++ kind.text
  | noEvaluator kind _ => "No evaluator registered for kind '" ++ kind.text ++ "'"
  | noOwnEvaluator kind _ => "Kind '" ++ kind.text ++ "' has no evaluator"
  | kindTagMissing _ => "Schema nodes need a kind tag"
  | lengthBound check bound => check ++ " must be a non-negative integer: " ++ bound.written
  | lowerBound bound => "Invalid lower bound: " ++ bound.written
  | upperBound bound => "Invalid upper bound: " ++ bound.written
  | divisor value => "multiple_of requires a positive number: " ++ value.written
  | overwriteUnknown name => "Unknown overwrite: " ++ name.text
  | literalEmpty => "Literal schema requires at least one value"
  | enumEmpty => "Enum schema requires at least one entry"
  | enumEntriesUnknown missing _ => "Unknown enum entries: " ++ (Value.list missing).written
  | formatUnknown name => "Unknown string format: " ++ name.text
  | unionEmpty => "Union schema requires at least one option"
  | optionNotSchema index className =>
    "Union option " ++ toString index ++ " must be a schema, got " ++ className
  | discriminatorMissing d _ =>
    "Discriminated union option lacks discriminator '" ++ d.text ++ "'"
  | discriminatorOpen d _ =>
    "Discriminator '" ++ d.text ++ "' must be a literal or enum schema"
  | discriminatorRepeated _ value => "Duplicate discriminator value " ++ value.written
  | unmergeable path => "Unmergeable intersection at path " ++ (Value.list path).written
  | sideNotSchema side => "Intersection " ++ side ++ " must be a schema"
  | policyUnknown policy => "Invalid unknown_keys policy: " ++ policy.text
  | notSchema place className => place ++ " must be a schema, got " ++ className
  | keysWithChecks .. => "Cannot change the keys of an object schema that has checks attached"
  | keysUnknown keys _ => "Unknown keys: " ++ (Value.list keys).written
  | transformNotCallable => "Transform requires a callable"
  | lazyNotCallable => "Lazy schema requires a callable"
  | checkFieldMissing check field =>
    "Check '" ++ check.text ++ "' is missing field " ++ field.written
  | checkUnknown check => "Cannot build check: " ++ check.text
  | notMapping definition => "Schema definition must be a mapping, got " ++ definition.className
  | childMissing kind field => "'" ++ kind.text ++ "' schema requires '" ++ field ++ "'"
  | typeUnknown kind _ => "Unknown schema type: " ++ kind.text
  | functionOnly kind =>
    "'" ++ kind.text ++ "' schemas wrap a function and cannot be built from a definition"
  | numberFormatUnknown format => "Unknown number format: " ++ format.text
  | literalWithoutValues => "'literal' schema requires 'values'"
  | enumWithoutEntries => "'enum' schema requires 'entries'"
  | shapeNotMapping => "'shape' must be a mapping"
  | referenceUnknown name _ => "Unknown schema reference: " ++ name.text
  | definitionsNotMapping _ => "'definitions' must be a mapping"
  | fileFormat suffix _ => "Unsupported file format: " ++ suffix
  | fileYaml path => "Failed to parse YAML file " ++ path
  | fileJson path reason => "Failed to parse JSON file " ++ path ++ ": " ++ reason
  | fileUnreadable path => "Failed to read schema file " ++ path
  | fileNotMapping path => "Schema file must contain a mapping: " ++ path

/-- Texts as a list value. -/
def texts (ss : List String) : Value := .list (ss.map .str)

/-- What a report tells about a cause beside its wording. -/
def context : DefinitionError → List (String × Value)
  | localeNotCallable locale => [("locale", .str locale.written)]
  | localeUnknown name available => [("locale", name), ("available", .list available)]
  | kindTaken kind table | kindNotRegistered kind table =>
    [("kind", kind), ("registry", .str table)]
  | noEvaluator kind available => [("kind", kind), ("available_kinds", .list available)]
  | noOwnEvaluator kind className => [("kind", kind), ("class", .str className)]
  | kindTagMissing className => [("class", .str className)]
  | lengthBound check bound => [("check", .str check), ("value", bound)]
  | lowerBound _ => [("check", .str "greater_than")]
  | upperBound _ => [("check", .str "less_than")]
  | divisor value => [("check", .str "multiple_of"), ("value", value)]
  | overwriteUnknown _ =>
    [("check", .str "overwrite"), ("available", texts ["to_lower", "to_upper", "trim"])]
  | literalEmpty | literalWithoutValues => [("type", .str "literal")]
  | enumEmpty | enumWithoutEntries => [("type", .str "enum")]
  | enumEntriesUnknown _ entries => [("entries", .list entries)]
  | formatUnknown name =>
    [("format", name),
      ("available", texts ((StringFormat.all.map StringFormat.name).mergeSort (· ≤ ·)))]
  | unionEmpty => [("type", .str "union")]
  | optionNotSchema index _ => [("index", .int index)]
  | discriminatorMissing d option | discriminatorOpen d option =>
    [("discriminator", d), ("option", .str option.written)]
  | discriminatorRepeated d value => [("discriminator", d), ("value", value)]
  | unmergeable path => [("path", .list path)]
  | sideNotSchema side => [("side", .str side)]
  | policyUnknown policy =>
    [("unknown_keys", policy), ("allowed", texts ["strip", "passthrough", "strict"])]
  | notSchema place _ => [("where", .str place)]
  | keysWithChecks keys checks => [("keys", .list keys), ("checks", .list checks)]
  | keysUnknown keys available => [("keys", .list keys), ("available_keys", .list available)]
  | transformNotCallable => [("type", .str "transform")]
  | lazyNotCallable => [("type", .str "lazy")]
  | checkFieldMissing check field => [("check", check), ("field", field)]
  | checkUnknown check => [("check", check)]
  | notMapping definition => [("definition", .str definition.written)]
  | childMissing kind field => [("type", kind), ("field", .str field)]
  | typeUnknown kind available => [("type", kind), ("available", texts available)]
  | functionOnly kind => [("type", kind)]
  | numberFormatUnknown format => [("format", format)]
  | shapeNotMapping => [("type", .str "object")]
  | referenceUnknown name available => [("name", name), ("available", .list available)]
  | definitionsNotMapping className => [("definitions", .str className)]
  | fileFormat _ path | fileYaml path | fileJson path _ | fileUnreadable path
  | fileNotMapping path => [("path", .str path)]

end DefinitionError

/-- A reason for which an operation ends without an answer. -/
inductive Fault
  | definition (cause : DefinitionError)
  /-- A schema or check of this kind has to be awaited. -/
  | asyncRequired (kind : Value)
  /-- Something other than a schema was to be registered. -/
  | notRegistrable (className registry : String)
  /-- Another schema holds the identifier. -/
  | duplicateId (id : Value)
  /-- The value is invalid: these are the final issues. -/
  | invalid (issues : List (Issue Value))
  /-- An operand or argument does not have the type that an operation needs. -/
  | unsupported
  /-- An operand has the right type but no admissible value. -/
  | badValue
  | missingKey (key : Value)
  | missingIndex
  | missingAttribute
  /-- A decimal quotient is too long for the working precision, or an operand is no number. -/
  | invalidOperation
  /-- A number is too large. -/
  | overflow
  | badPattern
  | badEncoding
  | missingModule
  /-- A pending value was awaited before. -/
  | alreadyAwaited
  /-- Schemas are nested, or refer to each other, without end in sight. -/
  | tooDeep

namespace Fault

/-- The wording of the faults that the library itself finds. -/
def message? : Fault → Option String
  | definition cause => some cause.message
  | asyncRequired kind =>
    some ("Encountered an asynchronous '" ++ kind.text ++ "' node during synchronous parse. "
      ++ "Use parse_async() or safe_parse_async() instead.")
  | notRegistrable className _ =>
    some ("Only schema nodes can be registered, got " ++ className)
  | duplicateId id => some ("ID '" ++ id.text ++ "' already exists in the registry")
  | invalid issues => some (toString issues.length ++ " validation issue(s)")
  | _ => none

/-- What a report of such a fault tells beside its wording. -/
def context : Fault → List (String × Value)
  | definition cause => cause.context
  | asyncRequired kind => [("kind", kind)]
  | notRegistrable _ registry => [("registry", .str registry)]
  | duplicateId id => [("id", id)]
  | invalid issues => [("issue_count", .int issues.length)]
  | _ => []

end Fault

end Assay
