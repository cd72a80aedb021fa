import Assay.Value.Text

/-!
# Definitions

Every schema and every check has a definition: its tag, the fields of its form or rule, its
checks and its message provider (`Schema.definition`, `Check.definition`). A description is the
part of a definition that plain data can hold (`Schema.describe`, `Check.describe`): nulls,
functions, an empty list of checks and an unset `abort` are left out, and every value is made
plain (`Value.plain`), nested schemas being replaced by their descriptions.
-/

namespace Assay

/-- Text entries as a mapping. -/
def Value.ofFields (fields : List (String × Value)) : Value :=
  .dict (fields.map fun f => (.str f.1, f.2))

/-- The fields of a rule by name. -/
def Rule.fields : Rule Value → List (String × Value)
  | .atLeast _ n => [("minimum", .int n)]
  | .atMost _ n => [("maximum", .int n)]
  | .exactly .length n => [("length", .int n)]
  | .exactly .size n => [("size", .int n)]
  | .greaterThan v inclusive | .lessThan v inclusive => [("value", v), ("inclusive", inclusive)]
  | .multipleOf d => [("value", d)]
  | .regex _ text format => [("format", format), ("pattern", .str text)]
  | .lowercase => [("format", .str "lowercase"), ("pattern", .str "^[^A-Z]*$")]
  | .uppercase => [("format", .str "uppercase"), ("pattern", .str "^[^a-z]*$")]
  | .startsWith t => [("format", .str "starts_with"), ("prefix", t)]
  | .endsWith t => [("format", .str "ends_with"), ("suffix", t)]
  | .includes t => [("format", .str "includes"), ("includes", t)]
  | .overwrite _ name => [("name", name)]
  | .refinement _ path params => [("path", path), ("params", params)]
  | .superRefinement _ => []

/-- The definition of a check: its tag, the fields of its rule, and what every check has. -/
def Check.definition (c : Check Value) : List (String × Value) :=
  ("check", .str c.rule.tag) :: c.rule.fields ++ [("error", c.error), ("abort", c.abort)]

/-- A schema that may be absent. -/
def Value.ofSchema? (s : Option (Schema Value)) : Value :=
  (s.map Value.schema).getD .null

/-- The fields of a form by name. -/
def Form.fields : Form Value (Schema Value) → List (String × Value)
  | .string coerce | .number coerce | .boolean coerce | .date coerce => [("coerce", coerce)]
  | .format f coerce abort => [("coerce", coerce), ("format", .str f.name), ("abort", abort)]
  | .integer coerce abort => [("coerce", coerce), ("format", .str "int"), ("abort", abort)]
  | .null | .any | .unknown | .never | .generic => []
  | .literal values => [("values", .tuple values)]
  | .enumeration entries _ => [("entries", .dict entries)]
  | .object shape policy catchall =>
    [("shape", .dict (shape.map fun e => (e.1, .schema e.2))),
      ("unknown_keys", .str policy.name), ("catchall", .ofSchema? catchall)]
  | .array e | .set e => [("element", .schema e)]
  | .tuple items rest =>
    [("items", .tuple (items.map .schema)), ("rest", .ofSchema? rest)]
  | .record k v | .map k v => [("key_type", .schema k), ("value_type", .schema v)]
  | .union options => [("options", .tuple (options.map .schema))]
  | .discriminatedUnion options d _ =>
    [("options", .tuple (options.map .schema)), ("discriminator", d)]
  | .intersection l r => [("left", .schema l), ("right", .schema r)]
  | .optional s | .nullable s | .readonly s | .promise s => [("inner", .schema s)]
  | .default s v | .prefault s v => [("inner", .schema s), ("default_value", v)]
  | .catching s v => [("inner", .schema s), ("catch_value", v)]
  | .transform fn => [("fn", fn)]
  | .pipe s t => [("source", .schema s), ("target", .schema t)]
  | .lazy getter name => [("getter", getter), ("name", name)]
  | .custom fn params => [("fn", fn), ("params", params)]

/-- The tag that a form has as a check, unless a further field of that name says otherwise. -/
def Form.checkFields (form : Form Value (Schema Value)) (extra : List (String × Value)) :
    List (String × Value) :=
  match form.checkTag? with
  | some tag => if (extra.lookup "check").isSome then [] else [("check", .str tag)]
  | none => []

/-- The definition of a schema: its kind, the fields of its form, further fields, and what
every schema has. -/
def Schema.definition (s : Schema Value) : List (String × Value) :=
  ("type", s.kind) :: s.form.fields ++ s.extra
    ++ [("checks", .tuple s.checks), ("error", s.error)] ++ s.form.checkFields s.extra

namespace Value

/-- A field that a description shows: null and functions are left out. -/
def isShown : Value → Bool
  | null => false
  | v => !v.isCallable

/-- A described field, if it is shown. -/
def shownField (name : String) (v described : Value) : List (Value × Value) :=
  if v.isShown && !(name == "abort" && v matches bool false) then [(str name, described)] else []

/-- A value in plain text when it has no plain form. -/
def fallbackText (v : Value) : String :=
  writtenBy (fun node => "<" ++ node.className ++ ">") v

mutual

/-- A value as plain data: null, truth values, numbers, texts, lists, and mappings with text
keys. Schemas, checks and issues become their descriptions, days and moments texts, and
everything else the text that is written for it. -/
def plain : Value → Value
  | schema s => describeSchema s
  | check c => describeCheck c
  | issue i => describeIssue i
  | dict es | view es => dict (Entries.ofList (plainEntries es))
  | list vs | tuple vs | set vs | frozenSet vs => list (plainAll vs)
  | null => null
  | bool b => bool b
  | int n => int n
  | float x => float x
  | nan r => nan r
  | str s => str s
  | date d => str d.toText
  | moment t => str (t.toText "T")
  | v => str (fallbackText v)
termination_by structural x => x

/-- Every value of a list as plain data. -/
def plainAll : List Value → List Value
  | [] => []
  | v :: vs => plain v :: plainAll vs
termination_by structural x => x

/-- Every entry of a mapping as plain data. -/
def plainEntries : List (Value × Value) → List (Value × Value)
  | [] => []
  | (k, v) :: es =>
    (str (textBy (fun node => "<" ++ node.className ++ ">") k), plain v) :: plainEntries es
termination_by structural x => x

/-- The described fields among further fields. -/
def plainExtra : List (String × Value) → List (Value × Value)
  | [] => []
  | (name, v) :: rest => shownField name v (plain v) ++ plainExtra rest
termination_by structural x => x

/-- The description of a check. -/
def describeCheck : Check Value → Value
  | ⟨_, rule, error, abort⟩ =>
    dict ((str "check", str rule.tag) :: describeRule rule
      ++ shownField "error" error (plain error) ++ shownField "abort" abort (plain abort))
termination_by structural x => x

/-- The described fields of a rule. -/
def describeRule : Rule Value → List (Value × Value)
  | .atLeast _ n => [(str "minimum", int n)]
  | .atMost _ n => [(str "maximum", int n)]
  | .exactly .length n => [(str "length", int n)]
  | .exactly .size n => [(str "size", int n)]
  | .greaterThan v i => shownField "value" v (plain v) ++ shownField "inclusive" i (plain i)
  | .lessThan v i => shownField "value" v (plain v) ++ shownField "inclusive" i (plain i)
  | .multipleOf d => shownField "value" d (plain d)
  | .regex _ text f => shownField "format" f (plain f) ++ [(str "pattern", str text)]
  | .lowercase => [(str "format", str "lowercase"), (str "pattern", str "^[^A-Z]*$")]
  | .uppercase => [(str "format", str "uppercase"), (str "pattern", str "^[^a-z]*$")]
  | .startsWith t => (str "format", str "starts_with") :: shownField "prefix" t (plain t)
  | .endsWith t => (str "format", str "ends_with") :: shownField "suffix" t (plain t)
  | .includes t => (str "format", str "includes") :: shownField "includes" t (plain t)
  | .overwrite _ name => shownField "name" name (plain name)
  | .refinement _ path params =>
    shownField "path" path (plain path) ++ shownField "params" params (plain params)
  | .superRefinement _ => []
termination_by structural x => x

/-- The description of a schema. -/
def describeSchema : Schema Value → Value
  | ⟨_, kind, form, extra, checks, error⟩ =>
    dict (Entries.ofList (shownField "type" kind (plain kind) ++ describeForm form
      ++ plainExtra extra
      ++ (if checks.isEmpty then [] else [(str "checks", list (plainAll checks))])
      ++ shownField "error" error (plain error)
      ++ (form.checkFields extra).map fun f => (str f.1, f.2)))
termination_by structural x => x

/-- The described fields of a form. -/
def describeForm : Form Value (Schema Value) → List (Value × Value)
  | .string c | .number c | .boolean c | .date c => shownField "coerce" c (plain c)
  | .format f c a =>
    shownField "coerce" c (plain c) ++ (str "format", str f.name) :: shownField "abort" a (plain a)
  | .integer c a =>
    shownField "coerce" c (plain c) ++ (str "format", str "int") :: shownField "abort" a (plain a)
  | .null | .any | .unknown | .never | .generic => []
  | .literal values => [(str "values", list (plainAll values))]
  | .enumeration entries _ => [(str "entries", dict (Entries.ofList (plainEntries entries)))]
  | .object shape policy catchall =>
    [(str "shape", dict (Entries.ofList (describeShape shape))),
      (str "unknown_keys", str policy.name)] ++ describeOption "catchall" catchall
  | .array e | .set e => [(str "element", describeSchema e)]
  | .tuple items rest =>
    (str "items", list (describeAll items)) :: describeOption "rest" rest
  | .record k v | .map k v =>
    [(str "key_type", describeSchema k), (str "value_type", describeSchema v)]
  | .union options => [(str "options", list (describeAll options))]
  | .discriminatedUnion options d _ =>
    (str "options", list (describeAll options)) :: shownField "discriminator" d (plain d)
  | .intersection l r => [(str "left", describeSchema l), (str "right", describeSchema r)]
  | .optional s | .nullable s | .readonly s | .promise s => [(str "inner", describeSchema s)]
  | .default s v | .prefault s v =>
    (str "inner", describeSchema s) :: shownField "default_value" v (plain v)
  | .catching s v => (str "inner", describeSchema s) :: shownField "catch_value" v (plain v)
  | .transform fn => shownField "fn" fn (plain fn)
  | .pipe s t => [(str "source", describeSchema s), (str "target", describeSchema t)]
  | .lazy getter name =>
    shownField "getter" getter (plain getter) ++ shownField "name" name (plain name)
  | .custom fn params =>
    shownField "fn" fn (plain fn) ++ shownField "params" params (plain params)
termination_by structural x => x

/-- The descriptions of a shape by key. -/
def describeShape : List (Value × Schema Value) → List (Value × Value)
  | [] => []
  | (k, s) :: rest =>
    (str (textBy (fun node => "<" ++ node.className ++ ">") k), describeSchema s)
      :: describeShape rest
termination_by structural x => x

/-- The descriptions of a list of schemas. -/
def describeAll : List (Schema Value) → List Value
  | [] => []
  | s :: rest => describeSchema s :: describeAll rest
termination_by structural x => x

/-- The field for a schema that may be absent. -/
def describeOption (name : String) : Option (Schema Value) → List (Value × Value)
  | none => []
  | some s => [(str name, describeSchema s)]
termination_by structural x => x

/-- The description of an issue: code, path, message, the input if it is to be shown, and the
fields of its detail. Path, message and input stand as they are. -/
def describeIssue : Issue Value → Value
  | ⟨path, message, input, _, detail⟩ =>
    dict ([(str "code", str detail.code), (str "path", list path), (str "message", message)]
      ++ (if input matches missing then [] else [(str "input", input)]) ++ describeDetail detail)
termination_by structural x => x

/-- The described fields of a detail. -/
def describeDetail : Detail Value (Issue Value) → List (Value × Value)
  | .unspecified => []
  | .invalidType a b => [(str "expected", plain a), (str "received", plain b)]
  | .tooBig a b c d =>
    [(str "origin", plain a), (str "maximum", plain b), (str "inclusive", plain c),
      (str "exact", plain d)]
  | .tooSmall a b c d =>
    [(str "origin", plain a), (str "minimum", plain b), (str "inclusive", plain c),
      (str "exact", plain d)]
  | .invalidFormat a b c d e =>
    [(str "format", plain a), (str "pattern", plain b), (str "prefix", plain c),
      (str "suffix", plain d), (str "includes", plain e)]
  | .notMultipleOf a => [(str "divisor", plain a)]
  | .unrecognizedKeys a => [(str "keys", plain a)]
  | .invalidUnion gs a b =>
    [(str "errors", list (describeGroups gs)), (str "note", plain a),
      (str "discriminator", plain b)]
  | .invalidKey a is => [(str "origin", plain a), (str "issues", list (describeIssues is))]
  | .invalidElement a k is =>
    [(str "origin", plain a), (str "key", plain k), (str "issues", list (describeIssues is))]
  | .invalidValue a => [(str "values", plain a)]
  | .custom a => [(str "params", plain a)]
termination_by structural x => x

/-- The descriptions of a list of issues. -/
def describeIssues : List (Issue Value) → List Value
  | [] => []
  | i :: is => describeIssue i :: describeIssues is
termination_by structural x => x

/-- The descriptions of groups of issues. -/
def describeGroups : List (List (Issue Value)) → List Value
  | [] => []
  | g :: gs => list (describeIssues g) :: describeGroups gs
termination_by structural x => x

end

end Value

/-- The description of a schema. -/
def Schema.describe (s : Schema Value) : Value := Value.describeSchema s

/-- The description of a check. -/
def Check.describe (c : Check Value) : Value := Value.describeCheck c

/-- The description of an issue. -/
def Issue.describe (i : Issue Value) : Value := Value.describeIssue i

/-- The description of any definition given as a mapping. -/
def Entries.describe (es : Entries) : Value :=
  .dict (es.flatMap fun e =>
    if !e.2.isShown || (e.1.equals (.str "checks") && !e.2.truthy)
      || (e.1.equals (.str "abort") && e.2 matches .bool false) then []
    else [(e.1, e.2.plain)])

namespace Value

/-- A schema or check written out, its nested values up to `depth` nodes deep. -/
def nodeWritten : Nat → Value → String
  | 0, node => node.className
  | depth + 1, schema s =>
    let shown := s.definition.filter fun f =>
      !(["type", "checks", "error"].contains f.1 || (f.2 matches null))
    let fields := shown.map fun f => f.1 ++ "=" ++ writtenBy (nodeWritten depth) f.2
    s.form.className ++ "(" ++ ", ".intercalate fields ++ ")"
  | _ + 1, check c => c.rule.className ++ "(" ++ fallbackText c.describe ++ ")"
  | _ + 1, node => node.className

/-- Nodes nested deeper than this are written by their class alone. -/
def writtenDepth : Nat := 1000

/-- A value written out. -/
def written (v : Value) : String := writtenBy (nodeWritten writtenDepth) v

/-- A value as a text of its own. -/
def text (v : Value) : String := textBy (nodeWritten writtenDepth) v

/-- A value as messages quote it: texts in double quotation marks, null and truth values in
lower case. -/
def inMessage : Value → String
  | str s => "\"" ++ s ++ "\""
  | null => "null"
  | bool b => if b then "true" else "false"
  | v => v.text

end Value

end Assay
