import Assay.Format.Basic
import Assay.Function.Host
import Assay.Number.Remainder
import Assay.Pattern.Matcher
import Assay.Schema.Construct

/-!
# Running checks

A check inspects a value whose shape is already right; it answers with the value, perhaps
replaced, and the issues it finds (`Check.run`). Named formats are schemas and checks at once.
The checks of a schema run in order, all of them, unless one that fails is set to abort or the
parse stops early (`runChecks`).
-/

namespace Assay

open Run

/-! ## What rules require -/

/-- Two values as they are compared: a day stands for its midnight beside a moment. -/
def comparands (v bound : Value) : Value × Value :=
  match v, bound with
  | .moment t, .date d => (v, .moment (Moment.midnight d t.offset))
  | .date d, .moment t => (.moment (Moment.midnight d t.offset), bound)
  | _, _ => (v, bound)

/-- The decimal that a value writes. -/
def decimalOf (v : Value) : Option Numeral.Reading :=
  Numeral.decimalReading? v.text

/-- The value is a whole multiple of the divisor: integers by integers exactly, all else as the
decimals that they write. -/
def isMultiple (v divisor : Value) : Except Fault Bool :=
  match v.whole?, divisor with
  | some n, .int d => .ok (n % d == 0)
  | _, _ =>
    match decimalOf v, decimalOf divisor with
    | some (.decimal _ n e), some (.decimal _ m f) =>
      match Decimal.isMultiple? ⟨n, e⟩ ⟨m, f⟩ with
      | some b => .ok b
      | none => .error .invalidOperation
    | some .nan, _ => .ok false
    | _, _ => .error .invalidOperation

/-- A text is part of another. -/
def isPart (part : List Char) : List Char → Bool
  | [] => part.isEmpty
  | c :: cs => part.isPrefixOf (c :: cs) || isPart part cs

/-- A text satisfies a test on one text, or on one of several in a tuple. -/
def anyText (test : String → Bool) : Value → Except Fault Bool
  | .str s => .ok (test s)
  | .tuple vs =>
    vs.foldlM (fun found v =>
      if found then .ok true
      else match v with
        | .str s => .ok (test s)
        | _ => .error .unsupported) false
  | _ => .error .unsupported

/-- The requirement of a rule on texts, if it is one. -/
def Rule.textTest? : Rule Value → Option (String → Except Fault Bool)
  | .regex p _ _ => some fun s => .ok (p.occursIn s)
  | .lowercase => some fun s => .ok (!s.any fun c => 'A' ≤ c && c ≤ 'Z')
  | .uppercase => some fun s => .ok (!s.any fun c => 'a' ≤ c && c ≤ 'z')
  | .startsWith t => some fun s => anyText (fun p => p.toList.isPrefixOf s.toList) t
  | .endsWith t => some fun s => anyText (fun p => p.toList.isSuffixOf s.toList) t
  | .includes t => some fun s =>
    match t with
    | .str part => .ok (isPart part.toList s.toList)
    | _ => .error .unsupported
  | _ => none

/-- What an issue of a rule on texts says. -/
def Rule.textDetail : Rule Value → Detail Value (Issue Value)
  | .regex _ text format => .invalidFormat format (.str text) .null .null .null
  | .lowercase => .invalidFormat (.str "lowercase") (.str "^[^A-Z]*$") .null .null .null
  | .uppercase => .invalidFormat (.str "uppercase") (.str "^[^a-z]*$") .null .null .null
  | .startsWith t => .invalidFormat (.str "starts_with") .null t .null .null
  | .endsWith t => .invalidFormat (.str "ends_with") .null .null t .null
  | .includes t => .invalidFormat (.str "includes") .null .null .null t
  | _ => .unspecified

/-- What an issue of a length rule says about a length, if the length breaks the rule. -/
def Rule.lengthDetail? (rule : Rule Value) (origin : Value) (n : Nat) :
    Option (Detail Value (Issue Value)) :=
  match rule with
  | .atLeast _ m =>
    if n < m then some (.tooSmall origin (.int m) (.bool true) (.bool false)) else none
  | .atMost _ m =>
    if m < n then some (.tooBig origin (.int m) (.bool true) (.bool false)) else none
  | .exactly _ m =>
    if m < n then some (.tooBig origin (.int m) (.bool true) (.bool true))
    else if n < m then some (.tooSmall origin (.int m) (.bool true) (.bool true))
    else none
  | _ => none

/-! ## One check -/

/-- The value with an issue about it, if there is one to report. -/
def Result.of (v source : Value) (detail : Option (Detail Value (Issue Value))) : Result :=
  ⟨v, (detail.map fun d => (⟨[], .null, v, source, d⟩ : Issue Value)).toList⟩

/-- The outcome of a rule that calls no function. -/
def Rule.verdict (rule : Rule Value) (v : Value) :
    Except Fault (Option (Detail Value (Issue Value))) :=
  match rule with
  | .atLeast .. | .atMost .. | .exactly .. =>
    if v.claimsLength then
      match v.length? with
      | some n => .ok (rule.lengthDetail? (.str v.sizeOrigin) n)
      | none => .error .unsupported
    else .ok none
  | .greaterThan bound inclusive =>
    let (left, right) := comparands v bound
    match right.before? inclusive.truthy left with
    | some true => .ok none
    | some false => .ok (some (.tooSmall (.str v.boundOrigin) bound inclusive (.bool false)))
    | none => .error .unsupported
  | .lessThan bound inclusive =>
    let (left, right) := comparands v bound
    match left.before? inclusive.truthy right with
    | some true => .ok none
    | some false => .ok (some (.tooBig (.str v.boundOrigin) bound inclusive (.bool false)))
    | none => .error .unsupported
  | .multipleOf divisor => do
    return if ← isMultiple v divisor then none else some (.notMultipleOf divisor)
  | _ =>
    match v, rule.textTest? with
    | .str s, some test => do return if ← test s then none else some rule.textDetail
    | _, _ => .ok none

/-- The parameters of a custom issue. -/
def issueParameters (params : Value) : Run Value :=
  if params.truthy then Run.lift (ClassRef.toDict params) else pure (.dict [])

namespace Check

variable (host : Host) (ctx : Context)

/-- Run a check on a value. -/
def run (c : Check Value) (v : Value) : Run (Outcome Result) :=
  match c.rule with
  | .overwrite fn _ => do return .ready ⟨(← host.call fn (.replacing v)).value, []⟩
  | .refinement fn path params => do
    let verdict ← host.callAwaiting ctx (.str c.rule.tag) fn (.value v)
    verdict.andThen fun r => do
      if r.value.truthy then return .ready ⟨v, []⟩
      let params ← issueParameters params
      return .ready ⟨v, [⟨path.items?.getD [], .null, v, .check c, .custom params⟩]⟩
  | .superRefinement fn => do
    let done ← host.callAwaiting ctx (.str c.rule.tag) fn (.reporting v (.check c))
    return done.map fun r => ⟨v, r.issues⟩
  | rule => do return .ready (Result.of v (.check c) (← Run.lift (rule.verdict v)))

end Check

/-! ## The checks of a schema -/

/-- What a named format requires of a value as a check. -/
def Form.verdict (form : Form Value (Schema Value)) (v : Value) :
    Option (Detail Value (Issue Value)) :=
  match form, v with
  | .format f .., .str s =>
    if f.accepts s then none
    else some (.invalidFormat (.str f.name) ((f.pattern?.map .str).getD .null) .null .null .null)
  | .format .., _ => none
  | .integer .., v =>
    if v.whole?.isSome then none else some (.invalidType (.str "int") (.str v.describedType))
  | _, _ => none

/-- A check, or a schema that is one, is set to abort. -/
def Value.aborts : Value → Bool
  | .check c => c.abort.truthy
  | .schema s =>
    match s.form with
    | .format _ _ abort | .integer _ abort => abort.truthy
    | _ => false
  | _ => false

/-- The checks to run for a schema, which come after itself if it is one. -/
def Schema.allChecks (s : Schema Value) : List Value :=
  if s.form.checkTag?.isSome then .schema s :: s.checks else s.checks

section

variable (host : Host) (ctx : Context)

/-- Run what stands in a list of checks. -/
def runCheck (check v : Value) : Run (Outcome Result) :=
  match check with
  | .check c => c.run host ctx v
  | .schema s =>
    if s.form.checkTag?.isSome then pure (.ready (Result.of v (.schema s) (s.form.verdict v)))
    else throw .missingAttribute
  | _ => throw .missingAttribute

/-- The checks that follow are skipped. -/
def halts (check : Value) (outcome : Result) : Bool :=
  !outcome.valid && (check.aborts || ctx.abortEarly)

/-- Run checks one after the other on the value that the earlier ones left. -/
def runChecksFrom : List Value → Result → Run (Outcome Result)
  | [], r => pure (.ready r)
  | check :: rest, r => do
    match ← runCheck host ctx check r.value with
    | .ready outcome =>
      if halts ctx check outcome then return .ready (r.merge outcome)
      else runChecksFrom rest (r.merge outcome)
    | .later work =>
      if ctx.isAsync then
        return .later do
          let outcome ← work
          if halts ctx check outcome then return r.merge outcome
          else (← runChecksFrom rest (r.merge outcome)).settle
      else throw (.asyncRequired (check.checkTag?.getD .null))

/-- Run the checks of a schema, unless its evaluation has found issues. -/
def runChecks (s : Schema Value) (r : Result) : Run (Outcome Result) :=
  if r.valid then runChecksFrom host ctx s.allChecks r else pure (.ready r)

end

end Assay
