import Assay.Calendar.Moment
import Assay.Number.Binary64
import Assay.Pattern.Basic

/-!
# Values, schemas, checks and issues

The dynamic values that are validated, and the nodes that describe them. A value may itself be
a schema, a check, an issue or a callable, so the four kinds of object are written with a
parameter `V` for the values they hold, and `Value` closes the knot. Schemas are finite trees:
a recursive schema refers to itself only through a callable that is asked for it.

Objects with an identity of their own (schemas, checks, callables, opaque objects, pending
values, and NaNs, which differ from every number but are found again in a container that holds
them) carry a number that tells them apart.
-/

namespace Assay

/-- A function supplied from outside, by name and captured arguments. An asynchronous one
returns a pending value when called and computes when that is awaited. -/
structure Callable (V : Type) where
  ref : Nat
  name : String
  captured : List V
  isAsync : Bool
  deriving Inhabited

/-- A class of named members, in order of definition; later names of a value already named
are aliases. -/
structure EnumClass (V : Type) where
  ref : Nat
  name : String
  members : List (String × V)
  aliases : List (String × String)
  deriving Inhabited

/-- The built-in types that can stand as values. -/
inductive BuiltinType
  | int
  | str
  | float
  | bool
  | list
  | dict
  | tuple
  | set
  | bytes
  deriving DecidableEq, Inhabited

/-- A class standing as a value. -/
inductive ClassRef (V : Type)
  | builtin (type : BuiltinType)
  | object (name : String)
  | enumeration (cls : EnumClass V)
  deriving Inhabited

/-- What an issue says beyond its place. `I` stands for the issues that it nests. -/
inductive Detail (V I : Type)
  /-- Nothing beyond the place and the message. -/
  | unspecified
  | invalidType (expected received : V)
  | tooBig (origin maximum inclusive exact : V)
  | tooSmall (origin minimum inclusive exact : V)
  | invalidFormat (format pattern leading trailing includes : V)
  | notMultipleOf (divisor : V)
  | unrecognizedKeys (keys : V)
  /-- One group of issues for each option that was tried. -/
  | invalidUnion (errors : List (List I)) (note discriminator : V)
  | invalidKey (origin : V) (issues : List I)
  | invalidElement (origin key : V) (issues : List I)
  | invalidValue (values : V)
  | custom (params : V)
  deriving Inhabited

/-- One finding about a value. Before messages are resolved `message` is null and `source` is
the schema or check that reported the issue; `input` is missing unless it is to be shown. -/
structure Issue (V : Type) where
  path : List V
  message : V
  input : V
  source : V
  detail : Detail V (Issue V)

/-- How a callable is called. -/
inductive Call (V : Type)
  | nothing
  | value (v : V)
  /-- A value to put another in place of. -/
  | replacing (v : V)
  /-- An issue that needs a message. -/
  | wording (issue : Issue V)
  /-- A value and a sink for issues about it, which are attributed to `source`. -/
  | reporting (v source : V)
  /-- A value and the final issues of the validation that failed on it. -/
  | recovering (v : V) (issues : List (Issue V))
  /-- A schema and the value to evaluate against it. -/
  | evaluating (schema v : V)
  deriving Inhabited

/-- What a pending value waits for. -/
inductive Pending (V : Type)
  | promised (v : V)
  | calling (f : Callable V) (call : Call V)
  deriving Inhabited

/-- Functions that the library itself supplies. -/
inductive Builtin (V : Type)
  /-- Evaluation of a schema by its own form. -/
  | evaluateNode
  /-- The English messages. -/
  | english
  | trim
  | toLower
  | toUpper
  /-- Membership of a class. -/
  | instanceOf (cls : V)
  /-- The schema that a named definition of a set of definitions describes. -/
  | definition (definitions : Nat) (name : V)
  deriving Inhabited

/-- The string formats that have names. -/
inductive StringFormat
  | email
  | url
  | uuid
  | ipv4
  | ipv6
  | cidrv4
  | cidrv6
  | isoDateTime
  | isoDate
  | isoTime
  | base64
  | hex
  | hostname
  deriving DecidableEq, Inhabited

/-- The quantity that a length check bounds is called a length or a size. -/
inductive Measure
  | length
  | size
  deriving DecidableEq, Inhabited

/-- What a check requires of a value or does to it. -/
inductive Rule (V : Type)
  | atLeast (measure : Measure) (bound : Nat)
  | atMost (measure : Measure) (bound : Nat)
  | exactly (measure : Measure) (bound : Nat)
  | greaterThan (bound inclusive : V)
  | lessThan (bound inclusive : V)
  | multipleOf (divisor : V)
  | regex (pattern : Pattern) (text : String) (format : V)
  | lowercase
  | uppercase
  | startsWith (text : V)
  | endsWith (text : V)
  | includes (text : V)
  /-- Replace the value by what a function makes of it. -/
  | overwrite (fn name : V)
  /-- Require a predicate. -/
  | refinement (fn path params : V)
  /-- Let a callback report issues. -/
  | superRefinement (fn : V)
  deriving Inhabited

/-- A rule with the message provider for its issues; `abort` skips the checks after it when
it fails. -/
structure Check (V : Type) where
  id : Nat
  rule : Rule V
  error : V
  abort : V
  deriving Inhabited

/-- What an object does with keys that its shape does not name. -/
inductive UnknownKeys
  | strip
  | passthrough
  | strict
  deriving DecidableEq, Inhabited

/-- The form of a schema with the parts that are its own. `S` stands for the schemas that it
holds. Switches such as `coerce` are kept as given, so that a definition shows them as given. -/
inductive Form (V S : Type)
  | string (coerce : V)
  | format (format : StringFormat) (coerce abort : V)
  | number (coerce : V)
  | integer (coerce abort : V)
  | boolean (coerce : V)
  | date (coerce : V)
  | null
  | any
  | unknown
  | never
  | literal (values : List V)
  | enumeration (entries : List (V × V)) (cls : Option (EnumClass V))
  | object (shape : List (V × S)) (unknownKeys : UnknownKeys) (catchall : Option S)
  | array (element : S)
  | tuple (items : List S) (rest : Option S)
  | record (keyType valueType : S)
  | map (keyType valueType : S)
  | set (element : S)
  | union (options : List S)
  /-- A union that picks its option by the value of one field; the table gives each value's
  option by its index. -/
  | discriminatedUnion (options : List S) (discriminator : V) (table : List (V × Nat))
  | intersection (left right : S)
  | optional (inner : S)
  | nullable (inner : S)
  | default (inner : S) (value : V)
  | prefault (inner : S) (value : V)
  | catching (inner : S) (value : V)
  | readonly (inner : S)
  | promise (inner : S)
  | transform (fn : V)
  | pipe (source target : S)
  | lazy (getter name : V)
  | custom (fn params : V)
  /-- A form that is only known to the table of evaluators. -/
  | generic
  deriving Inhabited

/-- A schema: the kind that finds its evaluator, its form, further fields of its definition,
the checks that run after it, and the message provider for its own issues. -/
structure Schema (V : Type) where
  id : Nat
  kind : V
  form : Form V (Schema V)
  extra : List (String × V)
  checks : List V
  error : V

/-- A dynamic value. -/
inductive Value
  /-- No value at all: an absent key, an omitted input. -/
  | missing
  | null
  | bool (b : Bool)
  | int (n : Int)
  | float (x : Binary64)
  | nan (ref : Nat)
  | str (s : String)
  | bytes (data : List UInt8) (isMutable : Bool)
  | date (d : Date)
  | moment (t : Moment)
  | list (items : List Value)
  | tuple (items : List Value)
  | dict (entries : List (Value × Value))
  /-- A mapping that cannot be changed. -/
  | view (entries : List (Value × Value))
  | set (members : List Value)
  | frozenSet (members : List Value)
  | object (ref : Nat) (typeName : String)
  | cls (c : ClassRef Value)
  | member (cls : EnumClass Value) (name : String) (value : Value)
  | pending (ref : Nat) (source : Pending Value)
  | callable (f : Callable Value)
  | builtin (b : Builtin Value)
  | issue (i : Issue Value)
  | check (c : Check Value)
  | schema (s : Schema Value)

instance : Inhabited Value := ⟨.missing⟩

/-- The entries of a mapping in the order in which their keys were first added. -/
abbrev Entries := List (Value × Value)

instance : Inhabited (Issue Value) := ⟨⟨[], .null, .missing, .null, .unspecified⟩⟩
instance : Inhabited (Schema Value) := ⟨⟨0, .null, .any, [], [], .null⟩⟩

end Assay
