import Assay.Vocabulary.Signature
import Assay.Schema.Construct

/-!
# Constructors by name

The names by which schemas and checks are made, with the arguments that each takes. There are
two for most kinds: the name of the class, which takes every part of a definition, and a shorter
one for everyday use.
-/

namespace Assay

open Construct

/-- How something is made from arguments. -/
structure Constructor where
  signature : Signature
  make : Arguments → Run Value

namespace Constructor

/-- A parameter without a default. -/
def need (name : String) : Parameter := ⟨name, none⟩

/-- A parameter that is null by default. -/
def may (name : String) : Parameter := ⟨name, some .null⟩

/-- A parameter that is off by default. -/
def off (name : String) : Parameter := ⟨name, some (.bool false)⟩

/-- The parameter for checks. -/
def checksParameter : Parameter := ⟨"checks", some (.tuple [])⟩

/-- The parameter for a path. -/
def pathParameter : Parameter := ⟨"path", some (.tuple [])⟩

/-- What the arguments say that every schema has. -/
def shared (args : Arguments) : Shared where
  checks := (args.values.lookup "checks").getD (.tuple [])
  error := args.get "error"
  extra := args.fields

/-- A schema made from arguments. -/
def schema (places names : List Parameter) (takesFields : Bool)
    (make : Arguments → Shared → Run (Schema Value)) : Constructor where
  signature := { places, names := names ++ [checksParameter, may "error"], takesFields }
  make args := Value.schema <$> make args (shared args)

/-- A schema made from arguments in everyday use: checks are attached later. -/
def plain (places names : List Parameter)
    (make : Arguments → Shared → Run (Schema Value)) : Constructor where
  signature := { places, names }
  make args := Value.schema <$> make args (shared args)

/-- A check made from arguments. -/
def check (places names : List Parameter) (rule : Arguments → Run (Rule Value)) :
    Constructor where
  signature := { places, names := names ++ [may "error", off "abort"] }
  make args := do
    return .check (← Construct.check (← rule args) (args.get "error") (args.get "abort"))

/-- A replacement of the value, which has neither message nor abort. -/
def overwriting (places names : List Parameter) (fn name : Arguments → Value) :
    Constructor where
  signature := { places, names }
  make args := do
    let rule ← Construct.overwrite (fn args) (name args)
    return .check (← Construct.check rule .null (.bool false))

/-- A schema of the base class, of a kind given by place or by name. -/
def base (form : Form Value (Schema Value)) : Constructor :=
  schema [may "kind"] [] true fun args sh =>
    Construct.make form { sh with extra := ("kind", args.get "kind") :: sh.extra }

/-- A named format by its class. -/
def formatClass (f : StringFormat) : Constructor where
  signature :=
    { names := [checksParameter, may "error", off "abort"], takesFields := true }
  make args := do
    if (args.fields.lookup "format").isSome then throw .unsupported
    let sh := shared args
    let coerce := (args.fields.lookup "coerce").getD (.bool false)
    let sh := { sh with extra := sh.extra.filter fun e => e.1 != "coerce" }
    return .schema (← Construct.format f coerce (args.get "abort") sh)

/-- A modifier by its class. -/
def modifier (form : Schema Value → Form Value (Schema Value)) : Constructor :=
  schema [need "inner"] [] true fun args sh => wrapper form (args.get "inner") sh

/-- A modifier with a value of its own, by its class. -/
def valued (name : String) (form : Schema Value → Value → Form Value (Schema Value)) :
    Constructor :=
  schema [need "inner", need name] [] false fun args sh =>
    wrapper (form · (args.get name)) (args.get "inner") sh

/-- A named format in everyday use. -/
def formatName (f : StringFormat) : Constructor :=
  plain [] [may "error"] fun _ sh => Construct.format f .null (.bool false) sh

/-- The arguments of a predicate. -/
def refinementOf (args : Arguments) : Run (Rule Value) :=
  refinement (args.get "fn") (args.get "path") (args.get "params")

/-- The classes of schemas. -/
def schemaClass? : String → Option Constructor
  | "Schema" => some (base .generic)
  | "StringSchema" => some (schema [] [off "coerce"] true fun a => string (a.get "coerce"))
  | "NumberSchema" => some (schema [] [off "coerce"] true fun a => number (a.get "coerce"))
  | "IntegerFormat" => some <|
    schema [] [off "coerce", off "abort"] false fun a => integer (a.get "coerce") (a.get "abort")
  | "BooleanSchema" => some (schema [] [off "coerce"] false fun a => boolean (a.get "coerce"))
  | "DateSchema" => some (schema [] [off "coerce"] false fun a => date (a.get "coerce"))
  | "NoneSchema" => some (base .null)
  | "AnySchema" => some (base .any)
  | "UnknownSchema" => some (base .unknown)
  | "NeverSchema" => some (base .never)
  | "LiteralSchema" => some (schema [need "values"] [] false fun a => literal (a.get "values"))
  | "EnumSchema" => some <|
    schema [need "entries"] [] false fun a => enumeration (a.get "entries")
  | "ObjectSchema" => some <|
    schema [need "shape"] [⟨"unknown_keys", some (.str "strip")⟩, may "catchall"] false fun a =>
      object (a.get "shape") (a.get "unknown_keys") (a.get "catchall")
  | "ArraySchema" => some (schema [need "element"] [] false fun a => array (a.get "element"))
  | "SetSchema" => some (schema [need "element"] [] false fun a => set (a.get "element"))
  | "TupleSchema" => some <|
    schema [need "items", may "rest"] [] false fun a => tuple (a.get "items") (a.get "rest")
  | "RecordSchema" => some <|
    schema [need "key_type", need "value_type"] [] false fun a =>
      record (a.get "key_type") (a.get "value_type")
  | "MapSchema" => some <|
    schema [need "key_type", need "value_type"] [] false fun a =>
      map (a.get "key_type") (a.get "value_type")
  | "UnionSchema" => some (schema [need "options"] [] true fun a => union (a.get "options"))
  | "DiscriminatedUnionSchema" => some <|
    schema [need "discriminator", need "options"] [] false fun a =>
      discriminatedUnion (a.get "discriminator") (a.get "options")
  | "IntersectionSchema" => some <|
    schema [need "left", need "right"] [] false fun a =>
      intersection (a.get "left") (a.get "right")
  | "OptionalSchema" => some (modifier .optional)
  | "NullableSchema" => some (modifier .nullable)
  | "ReadonlySchema" => some (modifier .readonly)
  | "PromiseSchema" => some (modifier .promise)
  | "DefaultSchema" => some (valued "default_value" .default)
  | "PrefaultSchema" => some (valued "default_value" .prefault)
  | "CatchSchema" => some (valued "catch_value" .catching)
  | "TransformSchema" => some (schema [need "fn"] [] false fun a => transform (a.get "fn"))
  | "PipeSchema" => some <|
    schema [need "source", need "target"] [] false fun a =>
      pipe (a.get "source") (a.get "target")
  | "LazySchema" => some <|
    schema [need "getter"] [may "name"] false fun a => lazy (a.get "getter") (a.get "name")
  | "CustomSchema" => some <|
    schema [may "fn"] [may "params"] false fun a => custom (a.get "fn") (a.get "params")
  | name => (StringFormat.all.find? (·.className == name)).map formatClass

/-- The classes of checks. -/
def checkClass? : String → Option Constructor
  | "MinLength" => some (check [need "bound"] [] fun a => lengthBound (.atLeast .length) (a.get "bound"))
  | "MaxLength" => some (check [need "bound"] [] fun a => lengthBound (.atMost .length) (a.get "bound"))
  | "LengthEquals" => some <|
    check [need "bound"] [] fun a => lengthBound (.exactly .length) (a.get "bound")
  | "MinSize" => some (check [need "bound"] [] fun a => lengthBound (.atLeast .size) (a.get "bound"))
  | "MaxSize" => some (check [need "bound"] [] fun a => lengthBound (.atMost .size) (a.get "bound"))
  | "SizeEquals" => some <|
    check [need "bound"] [] fun a => lengthBound (.exactly .size) (a.get "bound")
  | "GreaterThan" => some <|
    check [need "value", off "inclusive"] [] fun a =>
      greaterThan (a.get "value") (a.get "inclusive")
  | "LessThan" => some <|
    check [need "value", off "inclusive"] [] fun a => lessThan (a.get "value") (a.get "inclusive")
  | "MultipleOf" => some (check [need "value"] [] fun a => multipleOf (a.get "value"))
  | "Regex" => some <|
    check [need "pattern"] [⟨"format", some (.str "regex")⟩] fun a =>
      regex (a.get "pattern") (a.get "format")
  | "LowerCase" => some (check [] [] fun _ => pure .lowercase)
  | "UpperCase" => some (check [] [] fun _ => pure .uppercase)
  | "StartsWith" => some (check [need "prefix"] [] fun a => pure (.startsWith (a.get "prefix")))
  | "EndsWith" => some (check [need "suffix"] [] fun a => pure (.endsWith (a.get "suffix")))
  | "Includes" => some (check [need "includes"] [] fun a => pure (.includes (a.get "includes")))
  | "Overwrite" => some (overwriting [need "fn"] [may "name"] (·.get "fn") (·.get "name"))
  | "Refinement" => some (check [need "fn"] [pathParameter, may "params"] refinementOf)
  | "SuperRefinement" => some <|
    check [need "fn"] [] fun a => pure (.superRefinement (a.get "fn"))
  | _ => none

/-- The everyday names of schemas. -/
def schemaName? : String → Option Constructor
  | "string" => some (plain [] [off "coerce", may "error"] fun a => string (a.get "coerce"))
  | "number" => some (plain [] [off "coerce", may "error"] fun a => number (a.get "coerce"))
  | "integer" => some <|
    plain [] [off "coerce", may "error"] fun a => integer (a.get "coerce") (.bool false)
  | "boolean" => some (plain [] [off "coerce", may "error"] fun a => boolean (a.get "coerce"))
  | "date" => some (plain [] [off "coerce", may "error"] fun a => date (a.get "coerce"))
  | "none" => some (plain [] [may "error"] fun _ => Construct.make .null)
  | "any_" => some (plain [] [] fun _ => Construct.make .any)
  | "unknown" => some (plain [] [] fun _ => Construct.make .unknown)
  | "never" => some (plain [] [may "error"] fun _ => Construct.make .never)
  | "literal" => some
    { signature := { names := [may "error"], takesRest := true }
      make := fun a => Value.schema <$> literal (.tuple a.rest) (shared a) }
  | "enum_" => some (plain [need "entries"] [may "error"] fun a => enumeration (a.get "entries"))
  | "object_" => some <|
    plain [need "shape"] [may "catchall", may "error"] fun a =>
      object (a.get "shape") (.str "strip") (a.get "catchall")
  | "strict_object" => some <|
    plain [need "shape"] [may "error"] fun a => object (a.get "shape") (.str "strict") .null
  | "loose_object" => some <|
    plain [need "shape"] [may "error"] fun a => object (a.get "shape") (.str "passthrough") .null
  | "array" => some (plain [need "element"] [may "error"] fun a => array (a.get "element"))
  | "set_" => some (plain [need "element"] [may "error"] fun a => set (a.get "element"))
  | "tuple_" => some <|
    plain [need "items", may "rest"] [may "error"] fun a => tuple (a.get "items") (a.get "rest")
  | "record" => some <|
    plain [need "key_type", need "value_type"] [may "error"] fun a =>
      record (a.get "key_type") (a.get "value_type")
  | "mapping" => some <|
    plain [need "key_type", need "value_type"] [may "error"] fun a =>
      map (a.get "key_type") (a.get "value_type")
  | "union" => some (plain [need "options"] [may "error"] fun a => union (a.get "options"))
  | "discriminated_union" => some <|
    plain [need "discriminator", need "options"] [may "error"] fun a =>
      discriminatedUnion (a.get "discriminator") (a.get "options")
  | "intersection" => some <|
    plain [need "left", need "right"] [may "error"] fun a =>
      intersection (a.get "left") (a.get "right")
  | "optional" => some (plain [need "inner"] [] fun a => wrapper .optional (a.get "inner"))
  | "nullable" => some (plain [need "inner"] [] fun a => wrapper .nullable (a.get "inner"))
  | "promise" => some (plain [need "inner"] [] fun a => wrapper .promise (a.get "inner"))
  | "lazy" => some <|
    plain [need "getter"] [may "name"] fun a => lazy (a.get "getter") (a.get "name")
  | "transform" => some (plain [need "fn"] [] fun a => transform (a.get "fn"))
  | "pipe" => some <|
    plain [need "source", need "target"] [] fun a => pipe (a.get "source") (a.get "target")
  | "custom" => some <|
    plain [may "fn"] [may "error", may "params"] fun a => custom (a.get "fn") (a.get "params")
  | "instance_of" => some (plain [need "cls"] [may "error"] fun a => instanceOf (a.get "cls"))
  | "hex_" => some (formatName .hex)
  | name => (StringFormat.all.find? fun f => f.name == name && f != .hex).map formatName

/-- The everyday names of checks. -/
def checkName? : String → Option Constructor
  | "min_length" => some (check [need "value"] [] fun a => lengthBound (.atLeast .length) (a.get "value"))
  | "max_length" => some (check [need "value"] [] fun a => lengthBound (.atMost .length) (a.get "value"))
  | "length" => some (check [need "value"] [] fun a => lengthBound (.exactly .length) (a.get "value"))
  | "min_size" => some (check [need "value"] [] fun a => lengthBound (.atLeast .size) (a.get "value"))
  | "max_size" => some (check [need "value"] [] fun a => lengthBound (.atMost .size) (a.get "value"))
  | "size" => some (check [need "value"] [] fun a => lengthBound (.exactly .size) (a.get "value"))
  | "gt" => some (check [need "value"] [] fun a => greaterThan (a.get "value") (.bool false))
  | "gte" => some (check [need "value"] [] fun a => greaterThan (a.get "value") (.bool true))
  | "lt" => some (check [need "value"] [] fun a => lessThan (a.get "value") (.bool false))
  | "lte" => some (check [need "value"] [] fun a => lessThan (a.get "value") (.bool true))
  | "multiple_of" => some (check [need "value"] [] fun a => multipleOf (a.get "value"))
  | "regex" => some (check [need "pattern"] [] fun a => regex (a.get "pattern") (.str "regex"))
  | "lowercase" => some (check [] [] fun _ => pure .lowercase)
  | "uppercase" => some (check [] [] fun _ => pure .uppercase)
  | "starts_with" => some (check [need "prefix"] [] fun a => pure (.startsWith (a.get "prefix")))
  | "ends_with" => some (check [need "suffix"] [] fun a => pure (.endsWith (a.get "suffix")))
  | "includes" => some (check [need "text"] [] fun a => pure (.includes (a.get "text")))
  | "refine" => some (check [need "fn"] [pathParameter, may "params"] refinementOf)
  | "super_refine" => some <|
    check [need "fn"] [] fun a => pure (.superRefinement (a.get "fn"))
  | "overwrite" => some (overwriting [need "fn"] [] (·.get "fn") fun _ => .null)
  | "trim" => some (overwriting [] [] (fun _ => .str "trim") fun _ => .null)
  | "to_lower" => some (overwriting [] [] (fun _ => .str "to_lower") fun _ => .null)
  | "to_upper" => some (overwriting [] [] (fun _ => .str "to_upper") fun _ => .null)
  | _ => none

/-- The constructor of a name. -/
def ofName? (name : String) : Option Constructor :=
  ((schemaClass? name).or (checkClass? name)).or ((schemaName? name).or (checkName? name))

end Constructor

/-- Make a schema or check by the name of its constructor. -/
def constructByName (name : String) (args : List Value) (fields : List (String × Value)) :
    Run Value := do
  match Constructor.ofName? name with
  | none => throw .missingAttribute
  | some c => c.make (← Run.lift (c.signature.bind args fields))

end Assay
