import Assay.Evaluate.Scalar

/-!
# Assembling structures

A structural schema evaluates the positions of a value and then assembles their results: the
issues of each position are placed under its key or index, and the outputs of those without
issues make up the output. The functions here are the assembly; which positions there are, and
how they are evaluated, is up to the caller.
-/

namespace Assay

/-- A position of a value with its result. -/
abbrev Placed := Value × Result

namespace Structure

/-- The issues of the positions, each under its key. -/
def issuesUnder (placed : List Placed) : List (Issue Value) :=
  placed.flatMap fun p => p.2.issues.map (Issue.under [p.1])

/-- The outputs of the positions that have one. -/
def outputs (placed : List Placed) : Entries :=
  placed.filterMap fun p =>
    if p.2.valid && !(p.2.value matches .missing) then some (p.1, p.2.value) else none

/-! ## Objects -/

/-- The keys of a mapping that a shape does not name. -/
def unknownKeys (shape : List (Value × Schema Value)) (data : Entries) : Entries :=
  data.filter fun e => !shape.any fun f => f.1.isFound e.1

/-- The positions of an object: the keys of its shape, then, for a catchall, the other ones. -/
def objectItems (shape : List (Value × Schema Value)) (catchall : Option (Schema Value))
    (data : Entries) : List (Value × Schema Value × Value) :=
  let named := shape.map fun f => (f.1, f.2, (data.find? f.1).getD .missing)
  match catchall with
  | none => named
  | some c => named ++ (unknownKeys shape data).map fun e => (e.1, c, e.2)

/-- The result of an object. -/
def object (s : Schema Value) (ctx : Context) (policy : UnknownKeys) (hasCatchall : Bool)
    (v : Value) (unknown : Entries) (placed : List Placed) : Result :=
  let issues := issuesUnder placed
  if ctx.abortEarly && !issues.isEmpty then ⟨v, issues⟩
  else
    let output := outputs placed
    if hasCatchall || unknown.isEmpty then ⟨.dict output, issues⟩
    else match policy with
      | .strip => ⟨.dict output, issues⟩
      | .passthrough => ⟨.dict (output ++ unknown), issues⟩
      | .strict =>
        let keys := Value.tuple (unknown.map (·.1))
        ⟨.dict output, issues ++ [⟨[], .null, v, .schema s, .unrecognizedKeys keys⟩]⟩

/-! ## Sequences -/

/-- Results with the indices of their positions, from `index` on. -/
def indexed (index : Nat) : List Result → List Placed
  | [] => []
  | r :: rs => (.int index, r) :: indexed (index + 1) rs

/-- The result of an array. -/
def array (results : List Result) : Result :=
  ⟨.list (results.map (·.value)), issuesUnder (indexed 0 results)⟩

/-- The outputs of a tuple, from position `index` on: those of positions without issues, but an
absent one only where the input has something. -/
def tupleOutputs (present index : Nat) : List Result → List Value
  | [] => []
  | r :: rs =>
    let rest := tupleOutputs present (index + 1) rs
    if r.valid && (index < present || !(r.value matches .missing)) then r.value :: rest else rest

/-- The result of a tuple. -/
def tuple (present : Nat) (results : List Result) : Result :=
  ⟨.tuple (tupleOutputs present 0 results), issuesUnder (indexed 0 results)⟩

/-- The length issue of a tuple, if its length is not admissible. -/
def tupleLength (required size : Nat) (hasRest : Bool) (length : Nat) :
    Option (Detail Value (Issue Value)) :=
  let exact := Value.bool (required == size)
  if length < required then some (.tooSmall (.str "array") (.int required) (.bool true) exact)
  else if !hasRest && size < length then
    some (.tooBig (.str "array") (.int size) (.bool true) exact)
  else none

/-- The positions of a tuple with their inputs, absent beyond the end of the input. -/
def tupleItems (rest : Option (Schema Value)) :
    List (Schema Value) → List Value → List (Schema Value × Value)
  | [], vs =>
    match rest with
    | some s => vs.map fun v => (s, v)
    | none => []
  | s :: ss, [] => (s, .missing) :: tupleItems rest ss []
  | s :: ss, v :: vs => (s, v) :: tupleItems rest ss vs

/-! ## Records and maps -/

/-- Add an entry with a computed key. -/
def insertComputed (output : Entries) (key value : Value) : Except Fault Entries :=
  if key.isHashable then .ok (output.insert key value) else .error .unsupported

/-- The positions of a record or map: each key, then its value. -/
def entryItems (keyType valueType : Schema Value) (data : Entries) :
    List (Schema Value × Value) :=
  data.flatMap fun e => [(keyType, e.1), (valueType, e.2)]

/-- How the issues of a key or of a value are reported at their key. -/
structure EntryReport where
  key : Value → Result → List (Issue Value)
  value : Value → Result → List (Issue Value)

/-- A record wraps the issues of a key and places those of a value under the key. -/
def recordReport (s : Schema Value) : EntryReport where
  key k r := [⟨[k], .null, k, .schema s, .invalidKey (.str "record") r.issues⟩]
  value k r := r.issues.map (Issue.under [k])

/-- A map wraps the issues of keys and of values. -/
def mapReport (s : Schema Value) : EntryReport where
  key k r := [⟨[k], .null, k, .schema s, .invalidKey (.str "map") r.issues⟩]
  value k r := [⟨[k], .null, r.value, .schema s, .invalidElement (.str "map") k r.issues⟩]

/-- The issues reported for the result of a key. -/
def EntryReport.ofKey (report : EntryReport) (k : Value) (kr : Result) : List (Issue Value) :=
  if kr.valid then [] else report.key k kr

/-- The issues reported for the result of a value. -/
def EntryReport.ofValue (report : EntryReport) (k : Value) (vr : Result) : List (Issue Value) :=
  if vr.valid then [] else report.value k vr

/-- Add the outputs of an entry, if it has both. -/
def addOutputs (output : Entries) (kr vr : Result) : Except Fault Entries :=
  if kr.valid && vr.valid then insertComputed output kr.value vr.value else .ok output

/-- Assemble the results for the keys and values of entries, as far as they were evaluated. -/
def entries (report : EntryReport) : List Value → List Result → Result → Entries →
    Except Fault Result
  | k :: ks, kr :: vr :: rest, acc, output => do
    let found := report.ofKey k kr ++ report.ofValue k vr
    let output ← addOutputs output kr vr
    entries report ks rest { acc with issues := acc.issues ++ found } output
  | k :: _, [kr], acc, output => .ok ⟨.dict output, acc.issues ++ report.ofKey k kr⟩
  | _, _, acc, output => .ok ⟨.dict output, acc.issues⟩

/-- The positions of a record with enumerated keys. -/
def enumeratedItems (valueType : Schema Value) (data : Entries) (allowed : List Value) :
    List (Schema Value × Value) :=
  allowed.map fun k => (valueType, (data.find? k).getD .missing)

/-- The outputs of a record with enumerated keys; equal keys are one. -/
def enumeratedOutputs (placed : List Placed) : Entries :=
  Entries.ofList (outputs placed)

/-- The result of a record with enumerated keys. -/
def enumeratedRecord (s : Schema Value) (ctx : Context) (allowed : List Value) (v : Value)
    (data : Entries) (placed : List Placed) : Result :=
  let issues := issuesUnder placed
  let unknown := (data.map (·.1)).filter fun k => !k.isIn allowed
  let issues :=
    if unknown.isEmpty || (ctx.abortEarly && !issues.isEmpty) then issues
    else issues ++ [⟨[], .null, v, .schema s, .unrecognizedKeys (.tuple unknown)⟩]
  ⟨.dict (enumeratedOutputs placed), issues⟩

/-! ## Sets -/

/-- The result of a set. -/
def set (results : List Result) : Except Fault Result :=
  let members := (results.filter Result.valid).map (·.value)
  if Value.areHashable members then
    .ok ⟨.set (Value.membersOf members), results.flatMap (·.issues)⟩
  else .error .unsupported

end Structure

/-- A value that cannot be changed: mappings become views, lists tuples, sets frozen sets. -/
def Value.freeze : Value → Value
  | .dict es => .view es
  | .list vs => .tuple vs
  | .set vs => .frozenSet vs
  | v => v

end Assay
