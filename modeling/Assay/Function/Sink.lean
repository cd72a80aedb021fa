import Assay.Session.Basic

/-!
# Issue sinks

A callback that may report issues is handed a sink. It adds an issue as it is, attributing it to
the schema or check that called if it has no source yet, or has a custom issue made from a
message, a path and further parameters.
-/

namespace Assay

/-- A place to report issues about a value. -/
structure Sink where
  value : Value
  source : Value
  issues : List (Issue Value) := []
  deriving Inhabited

namespace Sink

/-- Add an issue; one without a source is the sink's. -/
def addIssue (s : Sink) (i : Issue Value) : Sink :=
  let i := if i.source matches .null then { i with source := s.source } else i
  { s with issues := s.issues ++ [i] }

/-- The parameters that have a meaning of their own. -/
def ownParameters : List String := ["issue", "message", "path"]

/-- Add an issue by parameters: a given one, or a custom one with a message and path. -/
def addParameters (s : Sink) (parameters : Entries) : Except Fault Sink := do
  if parameters.any fun e => e.1.str?.isNone || e.1.str? == some "self" then throw .unsupported
  match (parameters.get? "issue").getD .null with
  | .issue i => return s.addIssue i
  | .null =>
    match ((parameters.get? "path").getD (.tuple [])).iterate? with
    | none => throw .unsupported
    | some path =>
      let further := parameters.filter fun e => !ownParameters.contains (e.1.str?.getD "")
      let message := (parameters.get? "message").getD .null
      return { s with issues := s.issues ++ [⟨path, message, s.value, s.source, .custom (.dict further)⟩] }
  | _ => throw .missingAttribute

/-- Add an issue given as an issue or by parameters. -/
def add (s : Sink) : Value → Except Fault Sink
  | .issue i => .ok (s.addIssue i)
  | .dict parameters | .view parameters => s.addParameters parameters
  | _ => .error .unsupported

/-- Add issues one after the other. -/
def addAll (s : Sink) (items : List Value) : Except Fault Sink :=
  items.foldlM add s

end Sink

end Assay
