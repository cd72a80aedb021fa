import Assay.Function.Host

/-!
# Resolution of messages

An issue gets its message from the first provider that offers one: the provider of the schema
or check that reported it, the one of the parse call, the configured one, and the locale
(`Resolution.message`). A provider is a text, or a function of the issue that answers with a
text, a mapping with a message, or null to decline. Finalizing issues words them, at every depth
of nesting, and changes nothing else but to drop their sources and, unless they are to be
reported, their inputs (`Resolution.finalize`).
-/

namespace Assay.Resolution

variable (host : Host)

/-- The message when every provider declines. -/
def fallback : String := "Invalid input"

/-- The message that an answer of a provider offers. -/
def offered (answer : Value) : Option String :=
  match answer with
  | .null => none
  | .str s => some s
  | .dict es | .view es =>
    match (Entries.get? es "message").getD .null with
    | .null => none
    | v => some v.text
  | v => some v.text

/-- Ask a provider for the message of an issue. -/
def consult (provider : Value) (i : Issue Value) : Run (Option String) :=
  match provider with
  | .null => pure none
  | .str s => pure (some s)
  | _ => do return offered (← host.call provider (.wording i)).value

/-- The message provider of the schema or check that reported an issue. -/
def sourceError (i : Issue Value) : Value :=
  match i.source with
  | .schema s => s.error
  | .check c => c.error
  | _ => .null

/-- The first message that one of the providers offers. -/
def firstOffer (i : Issue Value) : List Value → Run String
  | [] => pure fallback
  | p :: ps => do
    match ← consult host p i with
    | some s => return s
    | none => firstOffer i ps

/-- The message of an issue. -/
def message (ctx : Context) (config : Config) (i : Issue Value) : Run String :=
  firstOffer host i [sourceError i, ctx.error, config.customError, config.localeError]

mutual

/-- Word an issue and the issues that it nests. -/
def finalizeOne (ctx : Context) (config : Config) : Issue Value → Run (Issue Value)
  | ⟨path, text, input, source, detail⟩ => do
    let text ← (match text with
      | .null => Value.str <$> message host ctx config ⟨path, .null, input, source, detail⟩
      | given => pure given)
    let detail ← finalizeDetail ctx config detail
    return ⟨path, text, if ctx.reportInput then input else .missing, .null, detail⟩
termination_by structural x => x

/-- Word the issues that a detail nests. -/
def finalizeDetail (ctx : Context) (config : Config) :
    Detail Value (Issue Value) → Run (Detail Value (Issue Value))
  | .invalidUnion groups note discriminator => do
    return .invalidUnion (← finalizeGroups ctx config groups) note discriminator
  | .invalidKey origin issues => do
    return .invalidKey origin (← finalize ctx config issues)
  | .invalidElement origin key issues => do
    return .invalidElement origin key (← finalize ctx config issues)
  | detail => pure detail
termination_by structural x => x

/-- Word every issue of a list. -/
def finalize (ctx : Context) (config : Config) :
    List (Issue Value) → Run (List (Issue Value))
  | [] => pure []
  | i :: is => do
    let first ← finalizeOne ctx config i
    return first :: (← finalize ctx config is)
termination_by structural x => x

/-- Word every issue of every group. -/
def finalizeGroups (ctx : Context) (config : Config) :
    List (List (Issue Value)) → Run (List (List (Issue Value)))
  | [] => pure []
  | g :: gs => do
    let first ← finalize ctx config g
    return first :: (← finalizeGroups ctx config gs)
termination_by structural x => x

end

/-- Word issues with the active configuration. -/
def finalizeActive (ctx : Context) (issues : List (Issue Value)) :
    Run (List (Issue Value)) := do
  finalize host ctx (← get).config issues

end Assay.Resolution
