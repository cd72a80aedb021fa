import Assay.Vocabulary.Constructors
import Assay.Evaluate.Lazy

/-!
# Derived schemas

A schema is never changed: attaching a check, wrapping it or changing its shape makes a new one
(`Derive`). Each derivation has a name and takes arguments, and which ones a schema has depends
on its form (`method?`).
-/

namespace Assay

open Constructor Run

namespace Derive

/-- A copy with checks attached after those that are there. -/
def withChecks (s : Schema Value) (checks : List Value) : Run (Schema Value) :=
  Construct.copy s { s with checks := s.checks ++ checks }

/-- A copy with a check of a rule attached. -/
def withRule (s : Schema Value) (rule : Rule Value) (error : Value) : Run (Schema Value) := do
  withChecks s [.check (← Construct.check rule error (.bool false))]

/-- A copy with another policy for unknown keys and another catchall. -/
def withPolicy (s : Schema Value) (policy : UnknownKeys) (catchall : Option (Schema Value)) :
    Run (Schema Value) :=
  match s.form with
  | .object shape _ _ => Construct.copy s { s with form := .object shape policy catchall }
  | _ => throw .missingAttribute

/-- The keys of a shape. -/
def keysOf (shape : List (Value × Schema Value)) : List Value := shape.map (·.1)

/-- A shape as a value. -/
def shapeValue (shape : List (Value × Schema Value)) : Value :=
  .dict (shape.map fun e => (e.1, .schema e.2))

/-- An object schema of another shape. Checks that are attached may rely on the keys, so there
must be none. -/
def withShape (s : Schema Value) (shape : List (Value × Schema Value)) (newShape : Value)
    (policy : UnknownKeys) (catchall : Option (Schema Value)) : Run (Schema Value) := do
  if !s.checks.isEmpty then
    let kinds ← s.checks.mapM fun c => ofOption .missingAttribute c.checkTag?
    refuse (.keysWithChecks (keysOf shape) kinds)
  Construct.object newShape (.str policy.name) (.ofSchema? catchall) ⟨.tuple [], s.error, []⟩

/-- Keys that have to be in a shape. -/
def requireKeys (shape : List (Value × Schema Value)) (keys : List Value) : Run Unit := do
  if !Value.areHashable keys then throw .unsupported
  let unknown := keys.filter fun k => !shape.any fun e => e.1.isFound k
  if !unknown.isEmpty then refuse (.keysUnknown unknown (keysOf shape))

/-- The shape without the modifiers that make a schema optional. -/
def withoutOptional : Nat → Schema Value → Schema Value
  | 0, s => s
  | n + 1, s =>
    match s.form with
    | .optional inner => withoutOptional n inner
    | _ => s

/-- The shape with the named keys made optional where they are not already. -/
def partialShape (host : Host) (targets : List Value) :
    List (Value × Schema Value) → Run (List (Value × Value))
  | [] => pure []
  | (k, s) :: rest => do
    let s ← (if k.isIn targets then do
        if ← s.acceptsAbsent host s.budget then pure s else Construct.make (.optional s) {}
      else pure s)
    return (k, .schema s) :: (← partialShape host targets rest)

/-- The names of an enumeration that have to be there. -/
def requireNames (entries : List (Value × Value)) (names : List Value) : Run Unit := do
  if !Value.areHashable names then throw .unsupported
  let missing := names.filter fun n => !Entries.contains entries n
  if !missing.isEmpty then refuse (.enumEntriesUnknown missing (entries.map (·.1)))

end Derive

/-- A derivation with the arguments that it takes. -/
structure Method where
  signature : Signature
  run : Schema Value → Arguments → Run (Schema Value)

namespace Method

open Derive

/-- A derivation without arguments. -/
def simple (run : Schema Value → Run (Schema Value)) : Method := ⟨{}, fun s _ => run s⟩

/-- A derivation with one argument. -/
def unary (name : String) (run : Schema Value → Value → Run (Schema Value)) : Method :=
  ⟨{ places := [need name] }, fun s a => run s (a.get name)⟩

/-- A derivation with any number of arguments. -/
def variadic (run : Schema Value → List Value → Run (Schema Value)) : Method :=
  ⟨{ takesRest := true }, fun s a => run s a.rest⟩

/-- A check with an argument is attached. -/
def checking (name : String) (rule : Value → Run (Rule Value)) : Method :=
  ⟨{ places := [need name], names := [may "error"] },
    fun s a => do withRule s (← rule (a.get name)) (a.get "error")⟩

/-- A check without an argument is attached. -/
def checkingFixed (rule : Run (Rule Value)) : Method :=
  ⟨{ names := [may "error"] }, fun s a => do withRule s (← rule) (a.get "error")⟩

/-- A replacement is attached. -/
def overwriting (fn : Value) : Method :=
  simple fun s => do withRule s (← Construct.overwrite fn .null) .null

/-- The derivations that every schema has. -/
def common? : String → Option Method
  | "add_check" => some (variadic withChecks)
  | "with_error" => some (unary "error" fun s e => Construct.copy s { s with error := e })
  | "refine" => some
    ⟨{ places := [need "fn"], names := [may "error", off "abort", pathParameter, may "params"] },
      fun s a => do
        let c ← Construct.check (← refinementOf a) (a.get "error") (a.get "abort")
        withChecks s [.check c]⟩
  | "super_refine" => some
    ⟨{ places := [need "fn"], names := [may "error", off "abort"] },
      fun s a => do
        let c ← Construct.check (.superRefinement (a.get "fn")) (a.get "error") (a.get "abort")
        withChecks s [.check c]⟩
  | "overwrite" => some <|
    unary "fn" fun s fn => do withRule s (← Construct.overwrite fn .null) .null
  | "optional" => some (simple fun s => Construct.make (.optional s) {})
  | "nullable" => some (simple fun s => Construct.make (.nullable s) {})
  | "nullish" => some <|
    simple fun s => do Construct.make (.optional (← Construct.make (.nullable s) {})) {}
  | "default" => some (unary "value" fun s v => Construct.make (.default s v) {})
  | "prefault" => some (unary "value" fun s v => Construct.make (.prefault s v) {})
  | "catch" => some (unary "value" fun s v => Construct.make (.catching s v) {})
  | "readonly" => some (simple fun s => Construct.make (.readonly s) {})
  | "transform" => some <|
    unary "fn" fun s fn => do Construct.make (.pipe s (← Construct.transform fn {})) {}
  | "pipe" => some (unary "target" fun s t => Construct.pipe (.schema s) t {})
  | "array" => some (simple fun s => Construct.make (.array s) {})
  | "or_" | "__or__" => some <|
    unary "other" fun s o => Construct.union (.list [.schema s, o]) {}
  | "and_" | "__and__" => some <|
    unary "other" fun s o => Construct.intersection (.schema s) o {}
  | _ => none

/-- The derivations of string schemas. -/
def string? : String → Option Method
  | "min" => some (checking "length" (Construct.lengthBound (.atLeast .length)))
  | "max" => some (checking "length" (Construct.lengthBound (.atMost .length)))
  | "length" => some (checking "length" (Construct.lengthBound (.exactly .length)))
  | "nonempty" => some (checkingFixed (pure (.atLeast .length 1)))
  | "regex" => some (checking "pattern" fun p => Construct.regex p (.str "regex"))
  | "starts_with" => some (checking "prefix" fun t => pure (.startsWith t))
  | "ends_with" => some (checking "suffix" fun t => pure (.endsWith t))
  | "includes" => some (checking "text" fun t => pure (.includes t))
  | "lowercase" => some (checkingFixed (pure .lowercase))
  | "uppercase" => some (checkingFixed (pure .uppercase))
  | "with_format" => some
    ⟨{ places := [need "name"], names := [may "error"] },
      fun s a => do
        let sh : Construct.Shared := ⟨.tuple [], a.get "error", []⟩
        withChecks s [.schema (← Construct.namedFormat (a.get "name") (.bool false) sh)]⟩
  | "trim" => some (overwriting (.str "trim"))
  | "to_lower" => some (overwriting (.str "to_lower"))
  | "to_upper" => some (overwriting (.str "to_upper"))
  | _ => none

/-- The derivations of schemas with bounds. -/
def bounded? : String → Option Method
  | "gt" => some (checking "value" fun v => Construct.greaterThan v (.bool false))
  | "gte" | "min" => some (checking "value" fun v => Construct.greaterThan v (.bool true))
  | "lt" => some (checking "value" fun v => Construct.lessThan v (.bool false))
  | "lte" | "max" => some (checking "value" fun v => Construct.lessThan v (.bool true))
  | _ => none

/-- The derivations of number schemas. -/
def number? : String → Option Method
  | "positive" => some (checkingFixed (pure (.greaterThan (.int 0) (.bool false))))
  | "nonnegative" => some (checkingFixed (pure (.greaterThan (.int 0) (.bool true))))
  | "negative" => some (checkingFixed (pure (.lessThan (.int 0) (.bool false))))
  | "nonpositive" => some (checkingFixed (pure (.lessThan (.int 0) (.bool true))))
  | "multiple_of" => some (checking "value" Construct.multipleOf)
  | "integer" => some
    ⟨{ names := [may "error"] }, fun s a => do
      let sh : Construct.Shared := ⟨.tuple [], a.get "error", []⟩
      withChecks s [.schema (← Construct.integer .null (.bool false) sh)]⟩
  | name => bounded? name

/-- The derivations of enumerations with these entries. -/
def enumeration? (entries : List (Value × Value)) : String → Option Method
  | "extract" => some <| variadic fun s names => do
    requireNames entries names
    let kept := Entries.ofList (names.map fun n => (n, (Entries.find? entries n).getD .null))
    Construct.enumeration (.dict kept) ⟨.tuple [], s.error, []⟩
  | "exclude" => some <| variadic fun s names =>
    let kept := entries.filter fun e => !e.1.isIn names
    Construct.enumeration (.dict kept) ⟨.tuple [], s.error, []⟩
  | _ => none

/-- The derivations of object schemas with this shape, policy and catchall. -/
def object? (host : Host) (shape : List (Value × Schema Value)) (policy : UnknownKeys)
    (catchall : Option (Schema Value)) : String → Option Method
  | "strict" => some (simple fun s => withPolicy s .strict none)
  | "passthrough" => some (simple fun s => withPolicy s .passthrough none)
  | "strip" => some (simple fun s => withPolicy s .strip none)
  | "with_catchall" => some <| unary "schema" fun s c => do
    withPolicy s policy (some (← Construct.schemaAt "catchall" c))
  | "extend" => some <| unary "shape" fun s added => do
    let added ← ofOption .unsupported added.entries?
    let merged := Entries.ofList ((shape.map fun e => (e.1, Value.schema e.2)) ++ added)
    withShape s shape (.dict merged) policy catchall
  | "merge" => some <| unary "other" fun s other =>
    match other with
    | .schema ⟨_, _, .object added newPolicy newCatchall, _, _, _⟩ =>
      let merged := Entries.ofList ((shape ++ added).map fun e => (e.1, Value.schema e.2))
      withShape s shape (.dict merged) newPolicy newCatchall
    | _ => throw .missingAttribute
  | "pick" => some <| variadic fun s keys => do
    requireKeys shape keys
    let kept := keys.filterMap fun k =>
      (shape.find? fun e => e.1.isFound k).map fun e => (k, Value.schema e.2)
    withShape s shape (.dict (Entries.ofList kept)) policy catchall
  | "omit" => some <| variadic fun s keys => do
    requireKeys shape keys
    withShape s shape (shapeValue (shape.filter fun e => !e.1.isIn keys)) policy catchall
  | "partial" => some <| variadic fun s keys => do
    requireKeys shape keys
    let targets := if keys.isEmpty then keysOf shape else keys
    withShape s shape (.dict (← partialShape host targets shape)) policy catchall
  | "required" => some <| variadic fun s keys => do
    requireKeys shape keys
    let targets := if keys.isEmpty then keysOf shape else keys
    let unwrapped := shape.map fun e =>
      if e.1.isIn targets then (e.1, withoutOptional e.2.depth e.2) else e
    withShape s shape (shapeValue unwrapped) policy catchall
  | "keyof" => some <| simple fun _ => Construct.enumeration (.list (keysOf shape)) {}
  | _ => none

/-- The derivations of sized schemas, whose bounds are lengths or sizes. -/
def sized? (measure : Measure) : String → Option Method
  | "min" => some (checking measure.parameter (Construct.lengthBound (.atLeast measure)))
  | "max" => some (checking measure.parameter (Construct.lengthBound (.atMost measure)))
  | name =>
    if name == measure.parameter then
      some (checking measure.parameter (Construct.lengthBound (.exactly measure)))
    else none

/-- A sized schema that must not be empty. -/
def nonempty? (measure : Measure) : String → Option Method
  | "nonempty" => some (checkingFixed (pure (.atLeast measure 1)))
  | _ => none

/-- The inner schema of a modifier. -/
def unwrap? (inner : Schema Value) : String → Option Method
  | "unwrap" => some (simple fun _ => pure inner)
  | _ => none

/-- The derivations that the form of a schema adds. -/
def own? (host : Host) (form : Form Value (Schema Value)) (name : String) : Option Method :=
  match form with
  | .string _ | .format .. => string? name
  | .number _ | .integer .. => number? name
  | .date _ => bounded? name
  | .enumeration entries _ => enumeration? entries name
  | .object shape policy catchall => object? host shape policy catchall name
  | .array _ => (sized? .length name).or (nonempty? .length name)
  | .map .. => sized? .size name
  | .set _ => (sized? .size name).or (nonempty? .size name)
  | .optional i | .nullable i | .readonly i | .promise i => unwrap? i name
  | .default i _ | .prefault i _ | .catching i _ => unwrap? i name
  | _ => none

end Method

/-- The derivation of a name. -/
def method? (host : Host) (s : Schema Value) (name : String) : Option Method :=
  (Method.own? host s.form name).or (Method.common? name)

/-- Derive a schema by the name of the derivation. Nothing is derived from other values. -/
def deriveByName (host : Host) (v : Value) (name : String) (args : List Value)
    (fields : List (String × Value)) : Run Value := do
  match v with
  | .schema s =>
    match method? host s name with
    | none => throw .missingAttribute
    | some m => return .schema (← m.run s (← Run.lift (m.signature.bind args fields)))
  | _ => throw .missingAttribute

end Assay
