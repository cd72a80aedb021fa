import Assay.Value.Basic

/-!
# Names of formats, forms, rules and issues

The words by which definitions, issues and messages refer to the parts of a schema: the tag of
a form (`Form.tag?`) or rule (`Rule.tag`), the code of an issue (`Detail.code`), the schema
vocabulary for the type of a value (`Value.describedType`), and the class names that renderings
show (`Value.className`).
-/

namespace Assay

namespace StringFormat

/-- Every named format. -/
def all : List StringFormat :=
  [.email, .url, .uuid, .ipv4, .ipv6, .cidrv4, .cidrv6, .isoDateTime, .isoDate, .isoTime,
    .base64, .hex, .hostname]

/-- The name that definitions use. -/
def name : StringFormat → String
  | email => "email"
  | url => "url"
  | uuid => "uuid"
  | ipv4 => "ipv4"
  | ipv6 => "ipv6"
  | cidrv4 => "cidrv4"
  | cidrv6 => "cidrv6"
  | isoDateTime => "iso_datetime"
  | isoDate => "iso_date"
  | isoTime => "iso_time"
  | base64 => "base64"
  | hex => "hex"
  | hostname => "hostname"

/-- The format of a name. -/
def ofName? (s : String) : Option StringFormat :=
  all.find? (·.name == s)

/-- The class name of a format's schemas. -/
def className : StringFormat → String
  | email => "EmailFormat"
  | url => "UrlFormat"
  | uuid => "UuidFormat"
  | ipv4 => "Ipv4Format"
  | ipv6 => "Ipv6Format"
  | cidrv4 => "Cidrv4Format"
  | cidrv6 => "Cidrv6Format"
  | isoDateTime => "IsoDateTimeFormat"
  | isoDate => "IsoDateFormat"
  | isoTime => "IsoTimeFormat"
  | base64 => "Base64Format"
  | hex => "HexFormat"
  | hostname => "HostnameFormat"

end StringFormat

namespace Form

variable {V S : Type}

/-- The tag of a form; a generic form has only the tag it is given. -/
def tag? : Form V S → Option String
  | string .. | format .. => some "string"
  | number .. | integer .. => some "number"
  | boolean .. => some "boolean"
  | date .. => some "date"
  | null => some "null"
  | any => some "any"
  | unknown => some "unknown"
  | never => some "never"
  | literal .. => some "literal"
  | enumeration .. => some "enum"
  | object .. => some "object"
  | array .. => some "array"
  | tuple .. => some "tuple"
  | record .. => some "record"
  | map .. => some "map"
  | set .. => some "set"
  | union .. | discriminatedUnion .. => some "union"
  | intersection .. => some "intersection"
  | optional .. => some "optional"
  | nullable .. => some "nullable"
  | default .. => some "default"
  | prefault .. => some "prefault"
  | catching .. => some "catch"
  | readonly .. => some "readonly"
  | promise .. => some "promise"
  | transform .. => some "transform"
  | pipe .. => some "pipe"
  | lazy .. => some "lazy"
  | custom .. => some "custom"
  | generic => none

/-- The class name of a form's schemas. -/
def className : Form V S → String
  | string .. => "StringSchema"
  | format f .. => f.className
  | number .. => "NumberSchema"
  | integer .. => "IntegerFormat"
  | boolean .. => "BooleanSchema"
  | date .. => "DateSchema"
  | null => "NoneSchema"
  | any => "AnySchema"
  | unknown => "UnknownSchema"
  | never => "NeverSchema"
  | literal .. => "LiteralSchema"
  | enumeration .. => "EnumSchema"
  | object .. => "ObjectSchema"
  | array .. => "ArraySchema"
  | tuple .. => "TupleSchema"
  | record .. => "RecordSchema"
  | map .. => "MapSchema"
  | set .. => "SetSchema"
  | union .. => "UnionSchema"
  | discriminatedUnion .. => "DiscriminatedUnionSchema"
  | intersection .. => "IntersectionSchema"
  | optional .. => "OptionalSchema"
  | nullable .. => "NullableSchema"
  | default .. => "DefaultSchema"
  | prefault .. => "PrefaultSchema"
  | catching .. => "CatchSchema"
  | readonly .. => "ReadonlySchema"
  | promise .. => "PromiseSchema"
  | transform .. => "TransformSchema"
  | pipe .. => "PipeSchema"
  | lazy .. => "LazySchema"
  | custom .. => "CustomSchema"
  | generic => "Schema"

/-- The tag under which a form is also a check: named formats are checks of their own. -/
def checkTag? : Form V S → Option String
  | format .. => some "string_format"
  | integer .. => some "number_format"
  | _ => none

end Form

namespace UnknownKeys

/-- The word for a policy. -/
def name : UnknownKeys → String
  | strip => "strip"
  | passthrough => "passthrough"
  | strict => "strict"

/-- The policy of a word. -/
def ofName? : String → Option UnknownKeys
  | "strip" => some strip
  | "passthrough" => some passthrough
  | "strict" => some strict
  | _ => none

end UnknownKeys

/-- The name of the quantity, by which a bound of it is given. -/
def Measure.parameter : Measure → String
  | .length => "length"
  | .size => "size"

namespace Rule

variable {V : Type}

/-- The tag of a rule. -/
def tag : Rule V → String
  | atLeast .length _ => "min_length"
  | atLeast .size _ => "min_size"
  | atMost .length _ => "max_length"
  | atMost .size _ => "max_size"
  | exactly .length _ => "length_equals"
  | exactly .size _ => "size_equals"
  | greaterThan .. => "greater_than"
  | lessThan .. => "less_than"
  | multipleOf _ => "multiple_of"
  | regex .. | lowercase | uppercase | startsWith _ | endsWith _ | includes _ => "string_format"
  | overwrite .. => "overwrite"
  | refinement .. | superRefinement _ => "custom"

/-- The class name of a rule's checks. -/
def className : Rule V → String
  | atLeast .length _ => "MinLength"
  | atLeast .size _ => "MinSize"
  | atMost .length _ => "MaxLength"
  | atMost .size _ => "MaxSize"
  | exactly .length _ => "LengthEquals"
  | exactly .size _ => "SizeEquals"
  | greaterThan .. => "GreaterThan"
  | lessThan .. => "LessThan"
  | multipleOf _ => "MultipleOf"
  | regex .. => "Regex"
  | lowercase => "LowerCase"
  | uppercase => "UpperCase"
  | startsWith _ => "StartsWith"
  | endsWith _ => "EndsWith"
  | includes _ => "Includes"
  | overwrite .. => "Overwrite"
  | refinement .. => "Refinement"
  | superRefinement _ => "SuperRefinement"

end Rule

namespace Detail

variable {V I : Type}

/-- The code of an issue. -/
def code : Detail V I → String
  | unspecified => "unknown"
  | invalidType .. => "invalid_type"
  | tooBig .. => "too_big"
  | tooSmall .. => "too_small"
  | invalidFormat .. => "invalid_format"
  | notMultipleOf _ => "not_multiple_of"
  | unrecognizedKeys _ => "unrecognized_keys"
  | invalidUnion .. => "invalid_union"
  | invalidKey .. => "invalid_key"
  | invalidElement .. => "invalid_element"
  | invalidValue _ => "invalid_value"
  | custom _ => "custom"

/-- The class name of an issue. -/
def className : Detail V I → String
  | unspecified => "Issue"
  | invalidType .. => "InvalidTypeIssue"
  | tooBig .. => "TooBigIssue"
  | tooSmall .. => "TooSmallIssue"
  | invalidFormat .. => "InvalidFormatIssue"
  | notMultipleOf _ => "NotMultipleOfIssue"
  | unrecognizedKeys _ => "UnrecognizedKeysIssue"
  | invalidUnion .. => "InvalidUnionIssue"
  | invalidKey .. => "InvalidKeyIssue"
  | invalidElement .. => "InvalidElementIssue"
  | invalidValue _ => "InvalidValueIssue"
  | custom _ => "CustomIssue"

end Detail

/-- The name of a built-in type. -/
def BuiltinType.name : BuiltinType → String
  | .int => "int"
  | .str => "str"
  | .float => "float"
  | .bool => "bool"
  | .list => "list"
  | .dict => "dict"
  | .tuple => "tuple"
  | .set => "set"
  | .bytes => "bytes"

/-- The name of a class. -/
def ClassRef.name {V : Type} : ClassRef V → String
  | .builtin t => t.name
  | .object name => name
  | .enumeration cls => cls.name

namespace Value

/-- The name of a value's class. -/
def className : Value → String
  | missing => "_Missing"
  | null => "NoneType"
  | bool _ => "bool"
  | int _ => "int"
  | float _ | nan _ => "float"
  | str _ => "str"
  | bytes _ isMutable => if isMutable then "bytearray" else "bytes"
  | date _ => "date"
  | moment _ => "datetime"
  | list _ => "list"
  | tuple _ => "tuple"
  | dict _ => "dict"
  | view _ => "mappingproxy"
  | set _ => "set"
  | frozenSet _ => "frozenset"
  | object _ name => name
  | cls (.enumeration _) => "EnumType"
  | cls _ => "type"
  | member c .. => c.name
  | pending .. => "coroutine"
  | callable _ | builtin _ => "function"
  | issue i => i.detail.className
  | check c => c.rule.className
  | schema s => s.form.className

/-- The type of a value in the vocabulary of schemas; values outside it go by their class. -/
def describedType (v : Value) : String :=
  match v with
  | missing => "missing"
  | null => "null"
  | bool _ => "boolean"
  | int _ => "number"
  | float x => if x.isFinite then "number" else "infinity"
  | nan _ => "nan"
  | str _ => "string"
  | bytes .. => "bytes"
  | date _ | moment _ => "date"
  | dict _ | view _ => "object"
  | list _ | tuple _ => "array"
  | set _ | frozenSet _ => "set"
  | _ => v.className

/-- The quantity that a length check bounds, by the type of the value. -/
def sizeOrigin : Value → String
  | str _ => "string"
  | bytes .. => "bytes"
  | dict _ | view _ => "map"
  | set _ | frozenSet _ => "set"
  | _ => "array"

/-- The quantity that an order check bounds, by the type of the value. -/
def boundOrigin : Value → String
  | date _ | moment _ => "date"
  | _ => "number"

/-- A finite number; the truth values are not numbers. -/
def isNumber : Value → Bool
  | int _ => true
  | float x => x.isFinite
  | _ => false

/-- A value that can be called. -/
def isCallable : Value → Bool
  | cls _ | callable _ | builtin _ => true
  | _ => false

/-- A value that is awaited before it is known. -/
def isPending : Value → Bool
  | pending .. => true
  | _ => false

/-- The text of a string value. -/
def str? : Value → Option String
  | str s => some s
  | _ => none

/-- The entries of a mapping. -/
def entries? : Value → Option Entries
  | dict es | view es => some es
  | _ => none

/-- The items of a list or tuple. -/
def items? : Value → Option (List Value)
  | list vs | tuple vs => some vs
  | _ => none

/-- The issue that a value is. -/
def issue? : Value → Option (Issue Value)
  | issue i => some i
  | _ => none

/-- The schema that a value is. -/
def schema? : Value → Option (Schema Value)
  | schema s => some s
  | _ => none

/-- Whether a value counts as true: nothing, zero and empty values do not. -/
def truthy : Value → Bool
  | missing | null => false
  | bool b => b
  | int n => n != 0
  | float x => !x.isZero
  | str s => !s.isEmpty
  | bytes data _ => !data.isEmpty
  | list vs | tuple vs | set vs | frozenSet vs => !vs.isEmpty
  | dict es | view es => !es.isEmpty
  | _ => true

/-- The number of characters, bytes, items or entries. -/
def length? : Value → Option Nat
  | str s => some s.length
  | bytes data _ => some data.length
  | list vs | tuple vs | set vs | frozenSet vs => some vs.length
  | dict es | view es => some es.length
  | cls (.enumeration c) => some c.members.length
  | _ => none

/-- The value has a length, or is a class whose values have one. -/
def claimsLength (v : Value) : Bool :=
  match v with
  | cls (.builtin .int) | cls (.builtin .float) | cls (.builtin .bool) => false
  | cls (.builtin _) => true
  | _ => v.length?.isSome

end Value

/-- The tag of a check, or of a schema that is one. -/
def Value.checkTag? : Value → Option Value
  | .check c => some (.str c.rule.tag)
  | .schema s => s.form.checkTag?.map fun tag => (s.extra.lookup "check").getD (.str tag)
  | _ => none

end Assay
