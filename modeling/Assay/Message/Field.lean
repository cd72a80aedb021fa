import Assay.Schema.Fault

/-!
# The fields of issues

An issue has the fields that every issue has and those of its detail (`Detail.fields`). Issues
are also made from fields by the name of their kind (`Issue.ofFields?`), where a field that is
not given takes its default.
-/

namespace Assay

/-- The fields that a detail adds, in order. -/
def Detail.fields : Detail Value (Issue Value) → List (String × Value)
  | .unspecified => []
  | .invalidType a b => [("expected", a), ("received", b)]
  | .tooBig a b c d => [("origin", a), ("maximum", b), ("inclusive", c), ("exact", d)]
  | .tooSmall a b c d => [("origin", a), ("minimum", b), ("inclusive", c), ("exact", d)]
  | .invalidFormat a b c d e =>
    [("format", a), ("pattern", b), ("prefix", c), ("suffix", d), ("includes", e)]
  | .notMultipleOf a => [("divisor", a)]
  | .unrecognizedKeys a => [("keys", a)]
  | .invalidUnion gs a b =>
    [("errors", .tuple (gs.map fun g => .tuple (g.map .issue))), ("note", a),
      ("discriminator", b)]
  | .invalidKey a is => [("origin", a), ("issues", .tuple (is.map .issue))]
  | .invalidElement a k is =>
    [("origin", a), ("key", k), ("issues", .tuple (is.map .issue))]
  | .invalidValue a => [("values", a)]
  | .custom a => [("params", a)]

namespace Issue

/-- The fields that every issue has beside its path, message, input and source. -/
def sharedFields (i : Issue Value) : List (String × Value) :=
  [("code", .str i.detail.code), ("path", .tuple i.path), ("message", i.message),
    ("input", i.input), ("source", i.source)]

/-- A field by name. -/
def field? (i : Issue Value) (name : String) : Option Value :=
  (i.sharedFields ++ i.detail.fields).lookup name

/-- The detail that an issue of a kind has when no field is given. -/
def blankDetail? : String → Option (Detail Value (Issue Value))
  | "Issue" => some .unspecified
  | "InvalidTypeIssue" => some (.invalidType (.str "unknown") (.str "unknown"))
  | "TooBigIssue" => some (.tooBig (.str "value") .null (.bool true) (.bool false))
  | "TooSmallIssue" => some (.tooSmall (.str "value") .null (.bool true) (.bool false))
  | "InvalidFormatIssue" => some (.invalidFormat (.str "regex") .null .null .null .null)
  | "NotMultipleOfIssue" => some (.notMultipleOf .null)
  | "UnrecognizedKeysIssue" => some (.unrecognizedKeys (.tuple []))
  | "InvalidUnionIssue" => some (.invalidUnion [] .null .null)
  | "InvalidKeyIssue" => some (.invalidKey (.str "record") [])
  | "InvalidElementIssue" => some (.invalidElement (.str "map") .null [])
  | "InvalidValueIssue" => some (.invalidValue (.tuple []))
  | "CustomIssue" => some (.custom (.dict []))
  | _ => none

/-- The issues that a sequence holds. -/
def listOf (v : Value) : Except Fault (List (Issue Value)) :=
  match v.items? with
  | none => .error .unsupported
  | some vs => vs.mapM fun w =>
    match w with
    | .issue i => .ok i
    | _ => .error .missingAttribute

/-- The groups of issues that a sequence of sequences holds. -/
def groupsOf (v : Value) : Except Fault (List (List (Issue Value))) :=
  match v.items? with
  | none => .error .unsupported
  | some vs => vs.mapM listOf

/-- A sequence as issues keep it. -/
def sequence : Value → Value
  | .list vs => .tuple vs
  | v => v

/-- A detail with the fields that are given in place of its own. -/
def withFields (fields : List (String × Value)) :
    Detail Value (Issue Value) → Except Fault (Detail Value (Issue Value)) :=
  let get (name : String) (own : Value) : Value := (fields.lookup name).getD own
  fun
  | .unspecified => .ok .unspecified
  | .invalidType a b => .ok (.invalidType (get "expected" a) (get "received" b))
  | .tooBig a b c d =>
    .ok (.tooBig (get "origin" a) (get "maximum" b) (get "inclusive" c) (get "exact" d))
  | .tooSmall a b c d =>
    .ok (.tooSmall (get "origin" a) (get "minimum" b) (get "inclusive" c) (get "exact" d))
  | .invalidFormat a b c d e =>
    .ok (.invalidFormat (get "format" a) (get "pattern" b) (get "prefix" c) (get "suffix" d)
      (get "includes" e))
  | .notMultipleOf a => .ok (.notMultipleOf (get "divisor" a))
  | .unrecognizedKeys a => .ok (.unrecognizedKeys (sequence (get "keys" a)))
  | .invalidUnion _ a b => do
    return .invalidUnion (← groupsOf (get "errors" (.tuple []))) (get "note" a)
      (get "discriminator" b)
  | .invalidKey a _ => do
    return .invalidKey (get "origin" a) (← listOf (get "issues" (.tuple [])))
  | .invalidElement a k _ => do
    return .invalidElement (get "origin" a) (get "key" k)
      (← listOf (get "issues" (.tuple [])))
  | .invalidValue a => .ok (.invalidValue (sequence (get "values" a)))
  | .custom a => .ok (.custom (get "params" a))

/-- An issue of a kind from fields by name. -/
def ofFields? (kind : String) (fields : List (String × Value)) : Except Fault (Issue Value) := do
  match blankDetail? kind with
  | none => throw .missingAttribute
  | some blank =>
    let names := ["path", "message", "input", "source"] ++ blank.fields.map (·.1)
    if fields.any fun f => !names.contains f.1 then throw .unsupported
    match ((fields.lookup "path").getD (.tuple [])).iterate? with
    | none => throw .unsupported
    | some path =>
      return {
        path
        message := (fields.lookup "message").getD .null
        input := (fields.lookup "input").getD .missing
        source := (fields.lookup "source").getD .null
        detail := ← withFields fields blank }

end Issue

end Assay
