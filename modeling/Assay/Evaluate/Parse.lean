import Assay.Evaluate.Form

/-!
# Parsing

A value is evaluated against a schema by the evaluator of its kind, and then by its checks if
no issue was found (`evaluate`). A parse evaluates a value and words the issues found
(`safeParse`); the strict variant ends with a fault when there are any (`parse`).
-/

namespace Assay

variable (host : Host)

/-- Run the checks of a schema on the outcome of its evaluation. -/
def checkOutcome (ctx : Context) (s : Schema Value) : Outcome Result → Run (Outcome Result)
  | .ready r => runChecks host ctx s r
  | .later work =>
    if ctx.isAsync then return .later do (← runChecks host ctx s (← work)).settle
    else throw (.asyncRequired s.kind)

/-- Evaluate a value against a schema, at most `fuel` levels deep. -/
def evaluate (ctx : Context) : Nat → Schema Value → Value → Run (Outcome Result)
  | 0, _, _ => throw .tooDeep
  | fuel + 1, s, v => do
    let evaluator ← Run.lift ((← get).kinds.evaluator? s.kind)
    let outcome ← (match evaluator with
      | .builtin .evaluateNode =>
        evaluateForm host ctx (evaluate ctx fuel) (Schema.acceptsAbsent host fuel) s v
      | evaluator => host.start evaluator (.evaluating (.schema s) v))
    checkOutcome host ctx s outcome

/-- What a parse comes to: the output value, or the final issues. -/
inductive Parsed
  | accepted (value : Value)
  | rejected (issues : List (Issue Value))
  deriving Inhabited

/-- Word the issues of a result. -/
def conclude (ctx : Context) (r : Result) : Run Parsed := do
  if r.valid then return .accepted r.value
  else return .rejected (← Resolution.finalizeActive host ctx r.issues)

/-- Validate a value. -/
def safeParse (ctx : Context) (s : Schema Value) (v : Value) : Run Parsed := do
  let outcome ← evaluate host ctx s.budget s v
  conclude host ctx (← outcome.settle)

/-- Validate a value; issues are a fault. -/
def parse (ctx : Context) (s : Schema Value) (v : Value) : Run Value := do
  match ← safeParse host ctx s v with
  | .accepted w => return w
  | .rejected issues => throw (.invalid issues)

end Assay
