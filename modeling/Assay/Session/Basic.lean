import Assay.KindTable
import Assay.Registry

/-!
# Sessions

What lasts from one operation to the next: the calls that were made to supplied functions, the
log, the variables, the schemas that lazy schemas were resolved to, the sets of named
definitions, the tables of kinds, the configuration, the locales and the registries. An
operation is a `Run`: it reads and changes the session and may end with a fault, keeping the
changes made before it.

An evaluation may have to wait. Its `Outcome` is then not a result but the work that is left.
-/

namespace Assay

/-- A call of a supplied function with its first argument. -/
structure LoggedCall where
  name : String
  argument : Value
  deriving Inhabited

/-- The configured message providers. -/
structure Config where
  customError : Value := .null
  localeError : Value := .null
  deriving Inhabited

/-- A set of named definitions with the schemas that were built from them, each by the place of
its definition. A lenient set leaves out the checks that cannot be built. -/
structure DefinitionSet where
  definitions : Entries := []
  strict : Bool := true
  built : List (Nat × Schema Value) := []
  deriving Inhabited

/-- Where the messages of a locale come from. -/
inductive LocaleSource
  | english
  /-- A source that cannot be found. -/
  | unavailable
  deriving DecidableEq, Inhabited

/-- The state between operations. -/
structure Session where
  /-- The lane of the numbers that tell new objects apart. -/
  lane : Nat := 0
  /-- The next place in the lane. -/
  nextRef : Nat := 0
  /-- The calls made so far, the latest first. -/
  calls : List LoggedCall := []
  /-- The lines logged so far, the latest first. -/
  log : List String := []
  /-- The next answer of each counting function. -/
  counters : List (Nat × Nat) := []
  /-- The variables, the oldest first. -/
  bindings : List (String × Value) := []
  /-- The classes of named members by name, the latest first. -/
  classes : List (String × EnumClass Value) := []
  /-- The schema that each lazy schema was resolved to. -/
  resolved : List (Nat × Schema Value) := []
  definitionSets : List (Nat × DefinitionSet) := []
  kinds : KindTable := .initial
  config : Config := {}
  locales : List (Value × LocaleSource) := [(.str "en", .english)]
  registries : List (String × Registry) := []
  kindTables : List (String × KindTable) := []
  /-- The pending values that were awaited or given up. -/
  spent : List Nat := []
  deriving Inhabited

/-- An operation on a session. -/
abbrev Run := ExceptT Fault (StateM Session)

/-- A result, or the work that is left until there is one. -/
inductive Outcome (α : Type)
  | ready (a : α)
  | later (work : Run α)

namespace Outcome

variable {α β : Type}

/-- Wait for an outcome. -/
def settle : Outcome α → Run α
  | ready a => pure a
  | later work => work

/-- Go on from an outcome, now or once it is there. -/
def andThen (o : Outcome α) (next : α → Run (Outcome β)) : Run (Outcome β) :=
  match o with
  | ready a => next a
  | later work => pure (later do (← next (← work)).settle)

/-- Change the result of an outcome. -/
def map (f : α → β) : Outcome α → Outcome β
  | ready a => ready (f a)
  | later work => later (f <$> work)

end Outcome

/-- The value that an evaluation has reached and the issues it has found. -/
structure Result where
  value : Value
  issues : List (Issue Value) := []
  deriving Inhabited

namespace Result

/-- There are no issues. -/
def valid (r : Result) : Bool := r.issues.isEmpty

/-- Add an issue. -/
def report (r : Result) (i : Issue Value) : Result :=
  { r with issues := r.issues ++ [i] }

end Result

/-- The same issue further down: its path starts with the keys. -/
def Issue.under (keys : List Value) (i : Issue Value) : Issue Value :=
  { i with path := keys ++ i.path }

namespace Result

/-- Take over the issues found at a place inside the value. -/
def absorb (r : Result) (keys : List Value) (child : Result) : Result :=
  { r with issues := r.issues ++ child.issues.map (Issue.under keys) }

/-- Take over the value of a later result, and its issues after one's own. -/
def merge (r later : Result) : Result :=
  ⟨later.value, r.issues ++ later.issues⟩

end Result

/-- The options of one parse. -/
structure Context where
  /-- The message provider of this call. -/
  error : Value := .null
  /-- Issues show the offending input. -/
  reportInput : Bool := false
  /-- Each schema stops at its first issue. -/
  abortEarly : Bool := false
  /-- Pending values may be awaited. -/
  isAsync : Bool := false
  deriving Inhabited

namespace Run

/-- End with a fault of a definition. -/
def refuse {α : Type} (cause : DefinitionError) : Run α :=
  throw (.definition cause)

/-- The number at a place in a lane. Different places, and places in different lanes, have
different numbers. -/
def numberIn (lane place : Nat) : Nat :=
  if lane < place then place * place + lane else lane * lane + lane + place

/-- A new number that tells an object apart. -/
def freshRef : Run Nat :=
  modifyGet fun s => (numberIn s.lane s.nextRef, { s with nextRef := s.nextRef + 1 })

/-- Give out the numbers of an operation in a lane of its own, from the start, so that they do
not depend on what was numbered before. -/
def inLane {α : Type} (lane : Nat) (x : Run α) : Run α :=
  ExceptT.mk do
    let before ← (get : StateM Session Session)
    set { before with lane := lane, nextRef := 0 }
    let answer ← x.run
    modify fun after => { after with lane := before.lane, nextRef := before.nextRef }
    return answer

/-- Note a line in the log. -/
def logLine (level text : String) : Run Unit :=
  modify fun s => { s with log := (level ++ ": " ++ text) :: s.log }

/-- The answer of an operation that may lack one. -/
def ofOption {α : Type} (fault : Fault) : Option α → Run α
  | some a => pure a
  | none => throw fault

/-- The answer of a pure operation that may fail. -/
def lift {α : Type} : Except Fault α → Run α
  | .ok a => pure a
  | .error e => throw e

/-- A fault as a value, for operations that go on after it. -/
def attempt {α : Type} (x : Run α) : Run (Except Fault α) :=
  ExceptT.mk ((fun r => .ok r) <$> x.run)

end Run

end Assay
