import Assay.Session.Basic

/-!
# What a session still holds

A registry forgets a schema once nothing else holds it. Held is what the variables, the
settings, the tables of kinds and the metadata in registries reach, through the parts of values
(`Value.held`), through the schemas that lazy schemas were resolved to, and through the schemas
built from named definitions (`Session.reach`). A forgotten entry may have been the last to hold
another schema, so `Session.sweep` goes on until nothing more is forgotten.
-/

namespace Assay

/-- Something that a value holds: a schema, or a set of named definitions. -/
inductive Holding
  | schema (id : Nat)
  | definitions (id : Nat)
  deriving DecidableEq

namespace Value

mutual

/-- What a value holds. -/
def held : Value → List Holding
  | list vs | tuple vs | set vs | frozenSet vs => heldAll vs
  | dict es | view es => heldEntries es
  | cls c => heldClass c
  | member c _ v => heldMembers c ++ held v
  | pending _ p => heldPending p
  | callable f => heldCallable f
  | builtin b => heldBuiltin b
  | issue i => heldIssue i
  | check c => heldCheck c
  | schema s => heldSchema s
  | _ => []
termination_by structural x => x

/-- What values hold. -/
def heldAll : List Value → List Holding
  | [] => []
  | v :: vs => held v ++ heldAll vs
termination_by structural x => x

/-- What the keys and values of entries hold. -/
def heldEntries : List (Value × Value) → List Holding
  | [] => []
  | (k, v) :: es => held k ++ held v ++ heldEntries es
termination_by structural x => x

/-- What values with names hold. -/
def heldNamed : List (String × Value) → List Holding
  | [] => []
  | (_, v) :: es => held v ++ heldNamed es
termination_by structural x => x

/-- What a class of named members holds. -/
def heldMembers : EnumClass Value → List Holding
  | ⟨_, _, members, _⟩ => heldNamed members
termination_by structural x => x

/-- What a class holds. -/
def heldClass : ClassRef Value → List Holding
  | .enumeration c => heldMembers c
  | _ => []
termination_by structural x => x

/-- What a function holds. -/
def heldCallable : Callable Value → List Holding
  | ⟨_, _, captured, _⟩ => heldAll captured
termination_by structural x => x

/-- What a function of the library holds. -/
def heldBuiltin : Builtin Value → List Holding
  | .instanceOf c => held c
  | .definition id name => .definitions id :: held name
  | _ => []
termination_by structural x => x

/-- What a pending value holds. -/
def heldPending : Pending Value → List Holding
  | .promised v => held v
  | .calling f call => heldCallable f ++ heldCall call
termination_by structural x => x

/-- What the arguments of a call hold. -/
def heldCall : Call Value → List Holding
  | .nothing => []
  | .value v | .replacing v => held v
  | .wording i => heldIssue i
  | .reporting v source => held v ++ held source
  | .recovering v issues => held v ++ heldIssues issues
  | .evaluating s v => held s ++ held v
termination_by structural x => x

/-- What an issue holds. -/
def heldIssue : Issue Value → List Holding
  | ⟨path, message, input, source, detail⟩ =>
    heldAll path ++ held message ++ held input ++ held source ++ heldDetail detail
termination_by structural x => x

/-- What the detail of an issue holds. -/
def heldDetail : Detail Value (Issue Value) → List Holding
  | .unspecified => []
  | .invalidType a b => held a ++ held b
  | .tooBig a b c d | .tooSmall a b c d => held a ++ held b ++ held c ++ held d
  | .invalidFormat a b c d e => held a ++ held b ++ held c ++ held d ++ held e
  | .notMultipleOf a | .unrecognizedKeys a | .invalidValue a | .custom a => held a
  | .invalidUnion gs a b => heldGroups gs ++ held a ++ held b
  | .invalidKey a is => held a ++ heldIssues is
  | .invalidElement a k is => held a ++ held k ++ heldIssues is
termination_by structural x => x

/-- What issues hold. -/
def heldIssues : List (Issue Value) → List Holding
  | [] => []
  | i :: is => heldIssue i ++ heldIssues is
termination_by structural x => x

/-- What groups of issues hold. -/
def heldGroups : List (List (Issue Value)) → List Holding
  | [] => []
  | g :: gs => heldIssues g ++ heldGroups gs
termination_by structural x => x

/-- What a check holds. -/
def heldCheck : Check Value → List Holding
  | ⟨_, rule, error, abort⟩ => heldRule rule ++ held error ++ held abort
termination_by structural x => x

/-- What a rule holds. -/
def heldRule : Rule Value → List Holding
  | .greaterThan a b | .lessThan a b => held a ++ held b
  | .multipleOf a | .regex _ _ a | .startsWith a | .endsWith a | .includes a
  | .superRefinement a => held a
  | .overwrite a b => held a ++ held b
  | .refinement a b c => held a ++ held b ++ held c
  | _ => []
termination_by structural x => x

/-- What a schema holds, itself among it. -/
def heldSchema : Schema Value → List Holding
  | ⟨id, kind, form, extra, checks, error⟩ =>
    .schema id :: held kind ++ heldForm form ++ heldNamed extra ++ heldAll checks ++ held error
termination_by structural x => x

/-- What a form holds. -/
def heldForm : Form Value (Schema Value) → List Holding
  | .string a | .number a | .boolean a | .date a => held a
  | .format _ a b | .integer a b => held a ++ held b
  | .literal values => heldAll values
  | .enumeration entries none => heldEntries entries
  | .enumeration entries (some c) => heldEntries entries ++ heldMembers c
  | .object shape _ catchall => heldShape shape ++ heldOption catchall
  | .array s | .set s | .optional s | .nullable s | .readonly s | .promise s => heldSchema s
  | .tuple items rest => heldSchemas items ++ heldOption rest
  | .record s t | .map s t | .intersection s t | .pipe s t => heldSchema s ++ heldSchema t
  | .union options => heldSchemas options
  | .discriminatedUnion options d _ => heldSchemas options ++ held d
  | .default s v | .prefault s v | .catching s v => heldSchema s ++ held v
  | .transform a => held a
  | .lazy a b | .custom a b => held a ++ held b
  | .null | .any | .unknown | .never | .generic => []
termination_by structural x => x

/-- What the schemas of a shape hold. -/
def heldShape : List (Value × Schema Value) → List Holding
  | [] => []
  | (k, s) :: rest => held k ++ heldSchema s ++ heldShape rest
termination_by structural x => x

/-- What schemas hold. -/
def heldSchemas : List (Schema Value) → List Holding
  | [] => []
  | s :: ss => heldSchema s ++ heldSchemas ss
termination_by structural x => x

/-- What a schema that may be absent holds. -/
def heldOption : Option (Schema Value) → List Holding
  | none => []
  | some s => heldSchema s
termination_by structural x => x

end

end Value

namespace Session

/-- What the entries of a set of definitions and the schemas built from them hold. -/
def heldBySet (set : DefinitionSet) : List Holding :=
  Value.heldEntries set.definitions ++ Value.heldSchemas (set.built.map (·.2))

/-- What holdings hold in turn that they do not hold as parts. -/
def heldBeyond (s : Session) (found : List Holding) : List Holding :=
  (s.resolved.flatMap fun e =>
      if found.contains (.schema e.1) then Value.heldSchema e.2 else [])
    ++ (s.definitionSets.flatMap fun e =>
      if found.contains (.definitions e.1) then heldBySet e.2 else [])

/-- All that is reached from holdings in a number of turns. -/
def reachFrom (s : Session) : Nat → List Holding → List Holding
  | 0, found => found
  | n + 1, found => reachFrom s n (found ++ s.heldBeyond found).eraseDups

/-- The values from which a session reaches others. -/
def roots (s : Session) : List Value :=
  s.bindings.map (·.2) ++ [s.config.customError, s.config.localeError]
    ++ (s.kinds :: s.kindTables.map (·.2)).flatMap (fun t => t.evaluators.map (·.2))
    ++ s.registries.flatMap fun r => r.2.registrations.map fun e => .dict e.metadata

/-- All that a session holds. Each turn reaches through one more resolved schema or set. -/
def reach (s : Session) : List Holding :=
  s.reachFrom (s.resolved.length + s.definitionSets.length) (Value.heldAll s.roots).eraseDups

/-- The number of registrations. -/
def registered (s : Session) : Nat :=
  s.registries.foldl (fun n r => n + r.2.count) 0

/-- Forget, in every registry, the schemas that are no longer alive. -/
def keepLive (live : Nat → Bool) (s : Session) : Session :=
  { s with registries := s.registries.map fun r => (r.1, r.2.keepLive live) }

/-- Forget the registrations of schemas that are no longer held, in a number of turns. -/
def sweepFor : Nat → Session → Session
  | 0, s => s
  | n + 1, s =>
    let held := s.reach
    let swept := s.keepLive fun id => held.contains (.schema id)
    if swept.registered == s.registered then swept else sweepFor n swept

/-- Forget the registrations of schemas that are no longer held. -/
def sweep (s : Session) : Session := sweepFor (s.registered + 1) s

end Session

end Assay
