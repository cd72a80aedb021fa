import Assay.Evaluate.Check
import Assay.Evaluate.Items
import Assay.Evaluate.Lazy
import Assay.Evaluate.Merge
import Assay.Evaluate.Structure
import Assay.Message.Resolution

/-!
# Evaluating forms

What each form of schema does with a value (`evaluateForm`), given how nested schemas are
evaluated and whether they accept an absent value. Modifiers decide on the values that are
theirs and leave all others to the inner schema; a pipe goes on only from a valid result.
-/

namespace Assay

variable (host : Host) (ctx : Context)

/-- A copy of a default value. Views and pending values cannot be copied. -/
def copyDefault (v : Value) : Run Value := do
  match v with
  | .view _ | .pending .. => throw .unsupported
  | .object _ name => return .object (← Run.freshRef) name
  | .schema s => return .schema (← Construct.copy s s)
  | .check c => return .check { c with id := ← Run.freshRef }
  | v => return v

/-- The value that stands in for an absent one: a function is called, all else copied. -/
def defaultValue (v : Value) : Run Value := do
  if v.isCallable then return (← host.call v .nothing).value else copyDefault v

/-- The function takes an issue sink beside the value. -/
def wantsSink (fn : Value) : Bool :=
  match fn with
  | .callable f => 2 ≤ host.arity f
  | _ => false

/-- The results of keys, as far as they were evaluated. -/
def placedAt (keys : List Value) (results : List Result) : List Placed := keys.zip results

/-- Evaluate a transformation. -/
def evaluateTransform (s : Schema Value) (fn v : Value) : Run (Outcome Result) :=
  let call := if wantsSink host fn then .reporting v (.schema s) else .value v
  host.callAwaiting ctx s.kind fn call

/-- Evaluate a custom predicate. -/
def evaluateCustom (s : Schema Value) (fn params v : Value) : Run (Outcome Result) :=
  match fn with
  | .null => pure (.ready ⟨v, []⟩)
  | fn => do
    let verdict ← host.callAwaiting ctx s.kind fn (.value v)
    verdict.andThen fun r => do
      if r.value.truthy then return .ready ⟨v, []⟩
      return .ready (.failed s v (.custom (← issueParameters params)))

section

-- How a value is evaluated against a nested schema.
variable (recur : Schema Value → Value → Run (Outcome Result))

/-- Evaluate an object. -/
def evaluateObject (s : Schema Value) (shape : List (Value × Schema Value))
    (policy : UnknownKeys) (catchall : Option (Schema Value)) (v : Value) :
    Run (Outcome Result) := do
  match v.entries? with
  | none => return .ready (.wrongType s v "object")
  | some data =>
    let items := Structure.objectItems shape catchall data
    let results ← evaluateItems host recur ctx (items.map (·.2))
    return results.map fun rs =>
      Structure.object s ctx policy catchall.isSome v (Structure.unknownKeys shape data)
        (placedAt (items.map (·.1)) rs)

/-- Evaluate an array. -/
def evaluateArray (s element : Schema Value) (v : Value) : Run (Outcome Result) := do
  match v.items? with
  | none => return .ready (.wrongType s v "array")
  | some vs => return (← evaluateItems host recur ctx (vs.map fun w => (element, w))).map Structure.array

/-- How many leading positions of a tuple must be there: all but the last ones that accept an
absent value. The schemas are given from the last to the first. -/
def requiredPositions (acceptsAbsent : Schema Value → Run Bool) : List (Schema Value) → Run Nat
  | [] => pure 0
  | s :: before => do
    if ← acceptsAbsent s then requiredPositions acceptsAbsent before
    else return before.length + 1

/-- Evaluate a tuple. -/
def evaluateTuple (acceptsAbsent : Schema Value → Run Bool) (s : Schema Value)
    (items : List (Schema Value)) (rest : Option (Schema Value)) (v : Value) :
    Run (Outcome Result) := do
  match v.items? with
  | none => return .ready (.wrongType s v "tuple")
  | some vs =>
    let required ← requiredPositions acceptsAbsent items.reverse
    match Structure.tupleLength required items.length rest.isSome vs.length with
    | some detail => return .ready (.failed s v detail)
    | none =>
      let results ← evaluateItems host recur ctx (Structure.tupleItems rest items vs)
      return results.map (Structure.tuple vs.length)

/-- Evaluate a record. One whose key schema enumerates its values has exactly these keys. -/
def evaluateRecord (s keyType valueType : Schema Value) (v : Value) : Run (Outcome Result) := do
  match v.entries? with
  | none => return .ready (.wrongType s v "record")
  | some data =>
    match Construct.enumerated? keyType with
    | some allowed =>
      if !Value.areHashable allowed then throw .unsupported
      let results ← evaluateItems host recur ctx (Structure.enumeratedItems valueType data allowed)
      return results.map fun rs =>
        Structure.enumeratedRecord s ctx allowed v data (placedAt allowed rs)
    | none =>
      let results ← evaluateItems host recur ctx (Structure.entryItems keyType valueType data)
      results.andThen fun rs => do
        return .ready (← Run.lift
          (Structure.entries (Structure.recordReport s) (data.map (·.1)) rs ⟨v, []⟩ []))

/-- Evaluate a map. -/
def evaluateMap (s keyType valueType : Schema Value) (v : Value) : Run (Outcome Result) := do
  match v.entries? with
  | none => return .ready (.wrongType s v "map")
  | some data =>
    let results ← evaluateItems host recur ctx (Structure.entryItems keyType valueType data)
    results.andThen fun rs => do
      return .ready (← Run.lift
        (Structure.entries (Structure.mapReport s) (data.map (·.1)) rs ⟨v, []⟩ []))

/-- Evaluate a set. -/
def evaluateSet (s element : Schema Value) (v : Value) : Run (Outcome Result) :=
  match v with
  | .set vs | .frozenSet vs => do
    let members := (Value.listed vs).map fun w => (element, w)
    let results ← evaluateItems host recur ctx members
    results.andThen fun rs => do return .ready (← Run.lift (Structure.set rs))
  | v => pure (.ready (.wrongType s v "set"))

/-- The result of a union: the first option without issues, or the issues of all of them. -/
def unionResult (s : Schema Value) (v : Value) (results : List Result) : Result :=
  match results.find? Result.valid with
  | some r => ⟨r.value, []⟩
  | none => .failed s v (.invalidUnion (results.map (·.issues)) .null .null)

/-- Evaluate options up to the first that succeeds at once, unless one before it has to wait.
Answers with that result, or with the outcomes of all options. -/
def tryOptions (v : Value) (waiting : Bool) :
    List (Schema Value) → Run (Except Result (List (Outcome Result)))
  | [] => pure (.ok [])
  | s :: rest => do
    match ← recur s v with
    | .ready r =>
      if !waiting && r.valid then return .error r
      else return (← tryOptions v waiting rest).map (.ready r :: ·)
    | .later work => return (← tryOptions v true rest).map (.later work :: ·)

/-- Evaluate a union. -/
def evaluateUnion (s : Schema Value) (options : List (Schema Value)) (v : Value) :
    Run (Outcome Result) := do
  match ← tryOptions recur v false options with
  | .error r => return .ready ⟨r.value, []⟩
  | .ok outcomes => return (gather host outcomes).map (unionResult s v)

/-- The option that a table picks for a value. -/
def pickOption (options : List (Schema Value)) (table : List (Value × Nat)) (tag : Value) :
    Option (Schema Value) :=
  (table.find? fun e => tag.same e.1).bind fun e => options[e.2]?

/-- Evaluate a discriminated union. -/
def evaluateDiscriminated (s : Schema Value) (options : List (Schema Value))
    (discriminator : Value) (table : List (Value × Nat)) (v : Value) :
    Run (Outcome Result) := do
  match v.entries? with
  | none => return .ready (.wrongType s v "object")
  | some data =>
    let tag := (data.find? (← Construct.hashable discriminator)).getD .missing
    match pickOption options table tag with
    | some option => recur option v
    | none =>
      let detail := Detail.invalidUnion [] (.str "No matching discriminator") discriminator
      return .ready ⟨v, [⟨[discriminator], .null, tag, .schema s, detail⟩]⟩

/-- The result of an intersection. -/
def intersectionResult (v : Value) (results : List Result) : Except Fault Result :=
  let issues := results.flatMap (·.issues)
  match results with
  | [l, r] =>
    if issues.isEmpty then do return ⟨← mergeValues [] l.value r.value, []⟩
    else .ok ⟨v, issues⟩
  | _ => .ok ⟨v, issues⟩

/-- Evaluate an intersection. -/
def evaluateIntersection (left right : Schema Value) (v : Value) : Run (Outcome Result) := do
  let results ← evaluateItems host recur ctx [(left, v), (right, v)]
  results.andThen fun rs => do return .ready (← Run.lift (intersectionResult v rs))

/-- Evaluate a schema with a fallback for invalid values. -/
def evaluateCatching (inner : Schema Value) (fallback v : Value) : Run (Outcome Result) := do
  (← recur inner v).andThen fun r => do
    if r.valid then return .ready r
    if fallback.isCallable then
      let issues ← Resolution.finalizeActive host ctx r.issues
      return .ready ⟨(← host.call fallback (.recovering v issues)).value, []⟩
    return .ready ⟨fallback, []⟩

/-- Evaluate a schema for pending values. -/
def evaluatePromise (s inner : Schema Value) (v : Value) : Run (Outcome Result) :=
  match v with
  | .pending ref source =>
    if ctx.isAsync then
      return .later do (← recur inner (← host.await ref source)).settle
    else Host.giveUp ref s.kind
  | v => recur inner v

/-- Evaluate a value against the form of a schema. -/
def evaluateForm (acceptsAbsent : Schema Value → Run Bool) (s : Schema Value) (v : Value) :
    Run (Outcome Result) :=
  match s.form with
  | .string coerce => pure (.ready (Scalar.string s coerce.truthy v))
  | .format _ coerce _ => pure (.ready (Scalar.string s coerce.truthy v))
  | .number coerce | .integer coerce _ => pure (.ready (Scalar.number s coerce.truthy v))
  | .boolean coerce => pure (.ready (Scalar.boolean s coerce.truthy v))
  | .date coerce => pure (.ready (Scalar.date s coerce.truthy v))
  | .null => pure (.ready (Scalar.require (fun w => w matches .null) "null" s v))
  | .any | .unknown => pure (.ready ⟨v, []⟩)
  | .never => pure (.ready (.wrongType s v "never"))
  | .literal values => pure (.ready (Scalar.literal s values v))
  | .enumeration entries cls => pure (.ready (Scalar.enumeration s entries cls v))
  | .object shape policy catchall => evaluateObject host ctx recur s shape policy catchall v
  | .array element => evaluateArray host ctx recur s element v
  | .tuple items rest => evaluateTuple host ctx recur acceptsAbsent s items rest v
  | .record k w => evaluateRecord host ctx recur s k w v
  | .map k w => evaluateMap host ctx recur s k w v
  | .set element => evaluateSet host ctx recur s element v
  | .union options => evaluateUnion host recur s options v
  | .discriminatedUnion options d table => evaluateDiscriminated recur s options d table v
  | .intersection l r => evaluateIntersection host ctx recur l r v
  | .optional inner =>
    match v with
    | .missing => pure (.ready ⟨v, []⟩)
    | v => recur inner v
  | .nullable inner =>
    match v with
    | .null => pure (.ready ⟨v, []⟩)
    | v => recur inner v
  | .default inner d =>
    match v with
    | .missing => do return .ready ⟨← defaultValue host d, []⟩
    | v => recur inner v
  | .prefault inner d =>
    match v with
    | .missing => do recur inner (← defaultValue host d)
    | v => recur inner v
  | .catching inner fallback => evaluateCatching host ctx recur inner fallback v
  | .readonly inner => do
    return (← recur inner v).map fun r => if r.valid then ⟨r.value.freeze, []⟩ else r
  | .promise inner => evaluatePromise host ctx recur s inner v
  | .transform fn => evaluateTransform host ctx s fn v
  | .pipe source target => do
    (← recur source v).andThen fun r => if r.valid then recur target r.value else return .ready r
  | .lazy getter _ => do recur (← s.resolve host getter) v
  | .custom fn params => evaluateCustom host ctx s fn params v
  | .generic => Run.refuse (.noOwnEvaluator s.kind s.form.className)

end

end Assay
