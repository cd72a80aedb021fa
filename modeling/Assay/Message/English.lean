import Assay.Schema.Definition

/-!
# English messages

The wording of issues in English (`English.message?`). Bounds are worded by what they bound:
sizes have units, other quantities are quoted as messages quote values.
-/

namespace Assay.English

/-- What a named format asks for. -/
def noun? : String → Option String
  | "regex" => some "input"
  | "email" => some "email address"
  | "url" => some "URL"
  | "uuid" => some "UUID"
  | "ipv4" => some "IPv4 address"
  | "ipv6" => some "IPv6 address"
  | "cidrv4" => some "IPv4 range"
  | "cidrv6" => some "IPv6 range"
  | "iso_datetime" => some "ISO datetime"
  | "iso_date" => some "ISO date"
  | "iso_time" => some "ISO time"
  | "base64" => some "base64-encoded string"
  | "hex" => some "hexadecimal string"
  | "hostname" => some "hostname"
  | _ => none

/-- The unit in which a size is counted. -/
def unit? : String → Option String
  | "string" => some "characters"
  | "bytes" => some "bytes"
  | "array" => some "items"
  | "set" => some "items"
  | "map" => some "entries"
  | _ => none

/-- The wording of a bound. `above` tells an upper bound from a lower one. -/
def bound (origin limit inclusive exact : Value) (above : Bool) : String :=
  let relation :=
    if exact.truthy then "exactly "
    else if above then if inclusive.truthy then "<=" else "<"
    else if inclusive.truthy then ">=" else ">"
  let size := if above then "big" else "small"
  let subject := if origin.truthy then origin.text else "value"
  let start := "Too " ++ size ++ ": expected " ++ subject
  match origin.str?.bind unit? with
  | some unit => start ++ " to have " ++ relation ++ limit.text ++ " " ++ unit
  | none => start ++ " to be " ++ relation ++ limit.inMessage

/-- The wording of an unmet format. -/
def unmetFormat (format pattern leading trailing includes : Value) : String :=
  match format with
  | .str "starts_with" => "Invalid string: must start with \"" ++ leading.text ++ "\""
  | .str "ends_with" => "Invalid string: must end with \"" ++ trailing.text ++ "\""
  | .str "includes" => "Invalid string: must include \"" ++ includes.text ++ "\""
  | .str "regex" => "Invalid string: must match pattern " ++ pattern.text
  | .str "lowercase" => "Invalid string: must be lowercase"
  | .str "uppercase" => "Invalid string: must be uppercase"
  | f => "Invalid " ++ ((f.str?.bind noun?).getD f.text)

/-- The wording of the values that were allowed. -/
def allowedValues : List Value → String
  | [v] => "Invalid input: expected " ++ v.inMessage
  | vs => "Invalid option: expected one of " ++ "|".intercalate (vs.map Value.inMessage)

/-- The wording of keys that a schema does not know. -/
def unknownKeys (keys : List Value) : String :=
  "Unrecognized key" ++ (if keys.length > 1 then "s" else "") ++ ": "
    ++ ", ".intercalate (keys.map fun k => "\"" ++ k.text ++ "\"")

/-- The fields that a wording goes through are lists, and those it looks up can be keys. -/
def wellFormed (d : Detail Value (Issue Value)) : Bool :=
  match d with
  | .tooBig origin .. | .tooSmall origin .. => origin.isHashable
  | .invalidFormat format .. => format.isHashable
  | .invalidValue vs => vs.items?.isSome
  | .unrecognizedKeys vs => vs.items?.isSome
  | _ => true

/-- The message for an issue; none for an unspecified one. -/
def message? (i : Issue Value) : Option String :=
  match i.detail with
  | .unspecified => none
  | .invalidType expected received =>
    let received := if received.truthy then received.text else i.input.describedType
    some ("Invalid input: expected " ++ expected.text ++ ", received " ++ received)
  | .tooBig origin limit inclusive exact => some (bound origin limit inclusive exact true)
  | .tooSmall origin limit inclusive exact => some (bound origin limit inclusive exact false)
  | .invalidFormat format pattern leading trailing includes =>
    some (unmetFormat format pattern leading trailing includes)
  | .notMultipleOf divisor => some ("Invalid number: must be a multiple of " ++ divisor.text)
  | .unrecognizedKeys keys => some (unknownKeys (keys.items?.getD []))
  | .invalidUnion .. => some "Invalid input"
  | .invalidKey origin _ => some ("Invalid key in " ++ origin.text)
  | .invalidElement origin .. => some ("Invalid value in " ++ origin.text)
  | .invalidValue values => some (allowedValues (values.items?.getD []))
  | .custom _ => some "Invalid input"

end Assay.English
