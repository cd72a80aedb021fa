import Assay.Function.Host

/-!
# Evaluating several positions

A structural schema evaluates each of its positions. In a full parse all of them are evaluated
and those that have to wait are then awaited together, completing in whichever order, while
their results keep their positions (`gather`); a parse that stops early evaluates one after the
other up to the first that fails (`evaluateInOrder`).
-/

namespace Assay

/-- Wait for every outcome, in order. The first fault is that of the whole, but all the work is
done before. -/
def settleAll : List (Outcome Result) → Run (List Result)
  | [] => pure []
  | o :: os => do
    let first ← Run.attempt o.settle
    let others ← Run.attempt (settleAll os)
    match first, others with
    | .ok r, .ok rs => return r :: rs
    | .error fault, _ => throw fault
    | _, .error fault => throw fault

/-- The results that are there without waiting. -/
def readyAll : List (Outcome Result) → Option (List Result)
  | [] => some []
  | .ready r :: os => (readyAll os).map (r :: ·)
  | .later _ :: _ => none

/-- Results that came in an order of positions, put back in their positions. -/
def inPlace (count : Nat) (positions : List Nat) (results : List Result) : List Result :=
  (List.range count).filterMap fun i => List.lookup i (positions.zip results)

section

variable (host : Host)

/-- Wait for every outcome, in the order in which they complete. -/
def settleTogether (outcomes : List (Outcome Result)) : Run (List Result) := do
  let positions := (host.order (← get) outcomes.length).val
  let results ← settleAll (positions.filterMap (outcomes[·]?))
  return inPlace outcomes.length positions results

/-- The results of all outcomes, now if none has to wait. -/
def gather (outcomes : List (Outcome Result)) : Outcome (List Result) :=
  match readyAll outcomes with
  | some results => .ready results
  | none => .later (settleTogether host outcomes)

-- How one value is evaluated against one schema.
variable (recur : Schema Value → Value → Run (Outcome Result))

/-- Evaluate positions up to the first that fails. -/
def evaluateInOrder : List (Schema Value × Value) → Run (Outcome (List Result))
  | [] => pure (.ready [])
  | (s, v) :: rest => do
    match ← recur s v with
    | .ready r =>
      if r.valid then return (← evaluateInOrder rest).map (r :: ·) else return .ready [r]
    | .later work =>
      return .later do
        let r ← work
        if r.valid then return r :: (← (← evaluateInOrder rest).settle) else return [r]

/-- Evaluate every position. -/
def evaluateAll : List (Schema Value × Value) → Run (List (Outcome Result))
  | [] => pure []
  | (s, v) :: rest => do
    let o ← recur s v
    return o :: (← evaluateAll rest)

/-- Evaluate positions as the options of the parse ask. -/
def evaluateItems (ctx : Context) (items : List (Schema Value × Value)) :
    Run (Outcome (List Result)) :=
  if ctx.abortEarly then evaluateInOrder recur items
  else do return gather host (← evaluateAll recur items)

end

end Assay
