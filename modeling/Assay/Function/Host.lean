import Assay.Function.Class
import Assay.Function.Sink
import Assay.Message.English

/-!
# Supplied functions

The meaning of supplied functions is a parameter of every evaluation (`Host`): how many
arguments a function takes, whether its calls are logged, and what a call does. Calls of
asynchronous functions, and functions that answer with a pending value, leave work for later
(`Host.call`, `Host.callAwaiting`).
-/

namespace Assay

/-- The order in which pieces of work were started. -/
def inTurn (count : Nat) : { ps : List Nat // ps.Perm (List.range count) } :=
  ⟨List.range count, .refl _⟩

/-- The meaning of supplied functions. -/
structure Host where
  /-- The number of arguments that a function takes. -/
  arity : Callable Value → Nat
  /-- The call answers with a pending value and computes when that is awaited. -/
  isAsync : Callable Value → Call Value → Bool
  /-- The function words messages, and its calls are not logged. -/
  isProvider : Callable Value → Bool
  /-- What a call answers, with the issues that it reports. An evaluator answers with the value
  and the issues of the evaluation. -/
  run : Callable Value → Call Value → Run Result
  /-- The order in which pieces of work that are awaited together complete. -/
  order : Session → (count : Nat) → { ps : List Nat // ps.Perm (List.range count) } :=
    fun _ => inTurn

/-- The number of arguments of a call. -/
def Call.arity {V : Type} : Call V → Nat
  | nothing => 0
  | value _ | replacing _ | wording _ => 1
  | reporting .. | recovering .. => 2
  | evaluating .. => 3

/-- The first argument of a call, as the log shows it. -/
def Call.argument : Call Value → Value
  | nothing => .null
  | value v | replacing v | reporting v _ | recovering v _ | evaluating _ v => v
  | wording i => .issue i

/-- Call a function of the library itself. Evaluators and definitions are not called here. -/
def Builtin.call (b : Builtin Value) (call : Call Value) : Except Fault Value :=
  match b, call.single? with
  | .trim, some v => .ok (match v with | .str s => .str (Text.trim s) | w => w)
  | .toLower, some v => .ok (match v with | .str s => .str (Text.lower s) | w => w)
  | .toUpper, some v => .ok (match v with | .str s => .str (Text.upper s) | w => w)
  | .instanceOf (.cls c), some v => .ok (.bool (c.holds v))
  | .english, some (.issue i) =>
    if English.wellFormed i.detail then .ok (((English.message? i).map Value.str).getD .null)
    else .error .unsupported
  | .english, some _ => .error .missingAttribute
  | _, _ => .error .unsupported

namespace Host

variable (host : Host)

/-- Log a call, unless the function words messages. -/
def note (f : Callable Value) (call : Call Value) : Run Unit :=
  if host.isProvider f then pure ()
  else modify fun s => { s with calls := ⟨f.name, call.argument⟩ :: s.calls }

/-- Call a supplied function. A call with the wrong number of arguments is not logged. -/
def invoke (f : Callable Value) (call : Call Value) : Run (Outcome Result) :=
  if host.arity f != call.arity then throw .unsupported
  else do
    host.note f call
    if host.isAsync f call then return .later (host.run f call)
    else return .ready (← host.run f call)

/-- Wait for a pending value, which can be done once. -/
def await (ref : Nat) (source : Pending Value) : Run Value := do
  if (← get).spent.contains ref then throw .alreadyAwaited
  else
    modify fun s => { s with spent := ref :: s.spent }
    match source with
    | .promised v => return v
    | .calling f call => return (← host.run f call).value

/-- Refuse to wait for a pending value, which spends it. -/
def giveUp {α : Type} (ref : Nat) (kind : Value) : Run α := do
  modify fun s => { s with spent := ref :: s.spent }
  throw (.asyncRequired kind)

/-- Call any value. An asynchronous function leaves its work for later. -/
def start (fn : Value) (call : Call Value) : Run (Outcome Result) :=
  match fn with
  | .callable f => host.invoke f call
  | .builtin b => do return .ready ⟨← Run.lift (b.call call), []⟩
  | .cls c => do return .ready ⟨← c.call call, []⟩
  | _ => throw .unsupported

/-- Call any value and take its answer as it is, pending or not. -/
def call (fn : Value) (call : Call Value) : Run Result := do
  match ← host.start fn call, fn with
  | .ready r, _ => return r
  | .later _, .callable f => return ⟨.pending (← Run.freshRef) (.calling f call), []⟩
  | .later work, _ => work

/-- Call any value and wait for its answer if need be. A parse that must not wait ends with a
fault for the kind of schema or check that called. -/
def callAwaiting (ctx : Context) (kind fn : Value) (call : Call Value) :
    Run (Outcome Result) := do
  match ← host.start fn call with
  | .later work => if ctx.isAsync then return .later work else throw (.asyncRequired kind)
  | .ready r =>
    match r.value with
    | .pending ref source =>
      if ctx.isAsync then
        return .later do return { r with value := ← host.await ref source }
      else giveUp ref kind
    | _ => return .ready r

end Host

end Assay
