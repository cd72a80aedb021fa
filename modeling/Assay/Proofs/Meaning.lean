import Assay.Evaluate.Parse
import Assay.Proofs.Triple
import Mathlib.Data.List.Forall2

/-!
# The meaning of an evaluation

What a value comes to against a schema when every question to a session is answered as in one
session `σ` (`meaning`): the questions are the calls of functions, the schemas that lazy schemas
stand for, and the wording of issues. Nothing is waited for and no session is changed, so a
meaning is a result or a fault, and evaluations can be compared by comparing their meanings.

A meaning follows an evaluation step by step, with one choice left open: a union is read up to
its first valid option, or `thorough`ly, with all its options. A thorough reading finds out
whether any option raises a fault.
-/

namespace Assay

/-- What is there without waiting. -/
def Outcome.now? {α : Type} : Outcome α → Option α
  | .ready a => some a
  | .later _ => none

namespace Meaning

/-! ## Several positions -/

section

variable (recur : Schema Value → Value → Except Fault Result)

/-- Every position. -/
def each : List (Schema Value × Value) → Except Fault (List Result)
  | [] => .ok []
  | (s, v) :: rest => do
    let r ← recur s v
    return r :: (← each rest)

/-- The positions up to the first that fails. -/
def inOrder : List (Schema Value × Value) → Except Fault (List Result)
  | [] => .ok []
  | (s, v) :: rest => do
    let r ← recur s v
    if r.valid then return r :: (← inOrder rest) else return [r]

/-- The positions that the options of the parse ask for. -/
def items (ctx : Context) (ps : List (Schema Value × Value)) : Except Fault (List Result) :=
  if ctx.abortEarly then inOrder recur ps else each recur ps

/-- The options of a union, up to the first valid one unless all are read. -/
def options (thorough : Bool) (v : Value) : List (Schema Value) → Except Fault (List Result)
  | [] => .ok []
  | s :: rest => do
    let r ← recur s v
    if r.valid && !thorough then return [r] else return r :: (← options thorough v rest)

end

section

variable (host : Host) (σ : Session) (ctx : Context) (thorough : Bool)

/-! ## Functions and checks -/

/-- The answer of a function that must not have to be waited for. -/
def promptly (kind fn : Value) (call : Call Value) : Except Fault Result := do
  match (← (host.start fn call).answer σ).now? with
  | some r => if r.value.isPending then throw (.asyncRequired kind) else return r
  | none => throw (.asyncRequired kind)

/-- What stands in a list of checks. -/
def check (c v : Value) : Except Fault Result :=
  match c with
  | .check c =>
    match c.rule with
    | .overwrite fn _ => do return ⟨(← (host.call fn (.replacing v)).answer σ).value, []⟩
    | .refinement fn path params => do
      let r ← promptly host σ (.str c.rule.tag) fn (.value v)
      if r.value.truthy then return ⟨v, []⟩
      let params ← (issueParameters params).answer σ
      return ⟨v, [⟨path.items?.getD [], .null, v, .check c, .custom params⟩]⟩
    | .superRefinement fn => do
      let r ← promptly host σ (.str c.rule.tag) fn (.reporting v (.check c))
      return ⟨v, r.issues⟩
    | rule => do return Result.of v (.check c) (← rule.verdict v)
  | .schema s =>
    if s.form.checkTag?.isSome then return Result.of v (.schema s) (s.form.verdict v)
    else throw .missingAttribute
  | _ => throw .missingAttribute

/-- Checks one after the other, on the value that the earlier ones left. -/
def checksFrom : List Value → Result → Except Fault Result
  | [], r => .ok r
  | c :: rest, r => do
    let outcome ← check host σ c r.value
    if halts ctx c outcome then return r.merge outcome else checksFrom rest (r.merge outcome)

/-- The checks of a schema, unless its form has found issues. -/
def checks (s : Schema Value) (r : Result) : Except Fault Result :=
  if r.valid then checksFrom host σ ctx s.allChecks r else .ok r

/-! ## Forms -/

/-- A fallback for an invalid result. -/
def caught (fallback v : Value) (r : Result) : Except Fault Result := do
  if r.valid then return r
  if fallback.isCallable then
    let issues ← (Resolution.finalizeActive host ctx r.issues).answer σ
    return ⟨(← (host.call fallback (.recovering v issues)).answer σ).value, []⟩
  return ⟨fallback, []⟩

/-- A custom predicate. -/
def custom (s : Schema Value) (fn params v : Value) : Except Fault Result :=
  match fn with
  | .null => .ok ⟨v, []⟩
  | fn => do
    let r ← promptly host σ s.kind fn (.value v)
    if r.value.truthy then return ⟨v, []⟩
    return .failed s v (.custom (← (issueParameters params).answer σ))

section

-- How a value is read against a nested schema.
variable (recur : Schema Value → Value → Except Fault Result)

/-- An object. -/
def object (s : Schema Value) (shape : List (Value × Schema Value)) (policy : UnknownKeys)
    (catchall : Option (Schema Value)) (v : Value) : Except Fault Result :=
  match v.entries? with
  | none => .ok (.wrongType s v "object")
  | some data => do
    let places := Structure.objectItems shape catchall data
    let rs ← items recur ctx (places.map (·.2))
    return Structure.object s ctx policy catchall.isSome v (Structure.unknownKeys shape data)
      (placedAt (places.map (·.1)) rs)

/-- An array. -/
def array (s element : Schema Value) (v : Value) : Except Fault Result :=
  match v.items? with
  | none => .ok (.wrongType s v "array")
  | some vs => do return Structure.array (← items recur ctx (vs.map fun w => (element, w)))

/-- A tuple, given how many leading positions must be there. -/
def tuple (required : Except Fault Nat) (s : Schema Value) (schemas : List (Schema Value))
    (rest : Option (Schema Value)) (v : Value) : Except Fault Result :=
  match v.items? with
  | none => .ok (.wrongType s v "tuple")
  | some vs => do
    match Structure.tupleLength (← required) schemas.length rest.isSome vs.length with
    | some detail => return .failed s v detail
    | none => return Structure.tuple vs.length (← items recur ctx (Structure.tupleItems rest schemas vs))

/-- A record. -/
def record (s keyType valueType : Schema Value) (v : Value) : Except Fault Result :=
  match v.entries? with
  | none => .ok (.wrongType s v "record")
  | some data =>
    match Construct.enumerated? keyType with
    | some allowed => do
      if !Value.areHashable allowed then throw .unsupported
      let rs ← items recur ctx (Structure.enumeratedItems valueType data allowed)
      return Structure.enumeratedRecord s ctx allowed v data (placedAt allowed rs)
    | none => do
      let rs ← items recur ctx (Structure.entryItems keyType valueType data)
      Structure.entries (Structure.recordReport s) (data.map (·.1)) rs ⟨v, []⟩ []

/-- A map. -/
def map (s keyType valueType : Schema Value) (v : Value) : Except Fault Result :=
  match v.entries? with
  | none => .ok (.wrongType s v "map")
  | some data => do
    let rs ← items recur ctx (Structure.entryItems keyType valueType data)
    Structure.entries (Structure.mapReport s) (data.map (·.1)) rs ⟨v, []⟩ []

/-- A set. -/
def set (s element : Schema Value) (v : Value) : Except Fault Result :=
  match v with
  | .set vs | .frozenSet vs => do
    Structure.set (← items recur ctx ((Value.listed vs).map fun w => (element, w)))
  | v => .ok (.wrongType s v "set")

/-- A discriminated union. -/
def discriminated (s : Schema Value) (schemas : List (Schema Value)) (discriminator : Value)
    (table : List (Value × Nat)) (v : Value) : Except Fault Result :=
  match v.entries? with
  | none => .ok (.wrongType s v "object")
  | some data => do
    let tag := (data.find? (← (Construct.hashable discriminator).answer σ)).getD .missing
    match pickOption schemas table tag with
    | some option => recur option v
    | none =>
      let detail := Detail.invalidUnion [] (.str "No matching discriminator") discriminator
      return ⟨v, [⟨[discriminator], .null, tag, .schema s, detail⟩]⟩

/-- A value against the form of a schema. -/
def form (fuel : Nat) (s : Schema Value) (v : Value) : Except Fault Result :=
  match s.form with
  | .string coerce => .ok (Scalar.string s coerce.truthy v)
  | .format _ coerce _ => .ok (Scalar.string s coerce.truthy v)
  | .number coerce | .integer coerce _ => .ok (Scalar.number s coerce.truthy v)
  | .boolean coerce => .ok (Scalar.boolean s coerce.truthy v)
  | .date coerce => .ok (Scalar.date s coerce.truthy v)
  | .null => .ok (Scalar.require (fun w => w matches .null) "null" s v)
  | .any | .unknown => .ok ⟨v, []⟩
  | .never => .ok (.wrongType s v "never")
  | .literal values => .ok (Scalar.literal s values v)
  | .enumeration entries cls => .ok (Scalar.enumeration s entries cls v)
  | .object shape policy catchall => object ctx recur s shape policy catchall v
  | .array element => array ctx recur s element v
  | .tuple schemas rest =>
    tuple ctx recur ((requiredPositions (Schema.acceptsAbsent host fuel) schemas.reverse).answer σ)
      s schemas rest v
  | .record k w => record ctx recur s k w v
  | .map k w => map ctx recur s k w v
  | .set element => set ctx recur s element v
  | .union schemas => do return unionResult s v (← options recur thorough v schemas)
  | .discriminatedUnion schemas d table => discriminated σ recur s schemas d table v
  | .intersection l r => do intersectionResult v (← items recur ctx [(l, v), (r, v)])
  | .optional inner =>
    match v with
    | .missing => .ok ⟨v, []⟩
    | v => recur inner v
  | .nullable inner =>
    match v with
    | .null => .ok ⟨v, []⟩
    | v => recur inner v
  | .default inner d =>
    match v with
    | .missing => do return ⟨← (defaultValue host d).answer σ, []⟩
    | v => recur inner v
  | .prefault inner d =>
    match v with
    | .missing => do recur inner (← (defaultValue host d).answer σ)
    | v => recur inner v
  | .catching inner fallback => do caught host σ ctx fallback v (← recur inner v)
  | .readonly inner => do
    let r ← recur inner v
    return if r.valid then ⟨r.value.freeze, []⟩ else r
  | .promise inner =>
    match v with
    | .pending .. => .error (.asyncRequired s.kind)
    | v => recur inner v
  | .transform fn =>
    promptly host σ s.kind fn (if wantsSink host fn then .reporting v (.schema s) else .value v)
  | .pipe source target => do
    let r ← recur source v
    if r.valid then recur target r.value else return r
  | .lazy getter _ => do recur (← (s.resolve host getter).answer σ) v
  | .custom fn params => custom host σ s fn params v
  | .generic => .error (.definition (.noOwnEvaluator s.kind s.form.className))

end

/-- An evaluator of a further kind, which must not have to be waited for. -/
def evaluator (fn : Value) (s : Schema Value) (v : Value) : Except Fault Result := do
  match (← (host.start fn (.evaluating (.schema s) v)).answer σ).now? with
  | some r => return r
  | none => throw (.asyncRequired s.kind)

end

end Meaning

/-- What a value comes to against a schema, read at most `fuel` levels deep. -/
def meaning (host : Host) (σ : Session) (ctx : Context) (thorough : Bool) :
    Nat → Schema Value → Value → Except Fault Result
  | 0, _, _ => .error .tooDeep
  | fuel + 1, s, v => do
    let r ← (match ← σ.kinds.evaluator? s.kind with
      | .builtin .evaluateNode =>
        Meaning.form host σ ctx thorough (meaning host σ ctx thorough fuel) fuel s v
      | fn => Meaning.evaluator host σ fn s v)
    Meaning.checks host σ ctx s r

namespace Meaning

/-! ## What is read -/

section

variable {recur : Schema Value → Value → Except Fault Result} {ctx : Context} {thorough : Bool}
  {rs : List Result}

theorem inOrder_prefix {ps : List (Schema Value × Value)} (h : inOrder recur ps = .ok rs) :
    ∃ qs, qs <+: ps ∧ List.Forall₂ (fun p r => recur p.1 p.2 = .ok r) qs rs := by
  induction ps generalizing rs with
  | nil =>
    cases h
    exact ⟨[], List.prefix_refl _, .nil⟩
  | cons p ps ih =>
    obtain ⟨r, hr, h⟩ := bind_eq_ok.1 h
    split at h
    · obtain ⟨rest, hrest, h⟩ := bind_eq_ok.1 h
      cases h
      obtain ⟨qs, hqs, hread⟩ := ih hrest
      exact ⟨p :: qs, List.cons_prefix_cons.2 ⟨rfl, hqs⟩, .cons hr hread⟩
    · cases h
      exact ⟨[p], List.cons_prefix_cons.2 ⟨rfl, List.nil_prefix⟩, .cons hr .nil⟩

theorem each_all {ps : List (Schema Value × Value)} (h : each recur ps = .ok rs) :
    List.Forall₂ (fun p r => recur p.1 p.2 = .ok r) ps rs := by
  induction ps generalizing rs with
  | nil =>
    cases h
    exact .nil
  | cons p ps ih =>
    obtain ⟨r, hr, h⟩ := bind_eq_ok.1 h
    obtain ⟨rest, hrest, h⟩ := bind_eq_ok.1 h
    cases h
    exact .cons hr (ih hrest)

/-- The results are those of the first positions, in turn. -/
theorem items_prefix {ps : List (Schema Value × Value)} (h : items recur ctx ps = .ok rs) :
    ∃ qs, qs <+: ps ∧ List.Forall₂ (fun p r => recur p.1 p.2 = .ok r) qs rs := by
  unfold items at h
  split at h
  · exact inOrder_prefix h
  · exact ⟨ps, List.prefix_refl _, each_all h⟩

/-- Every result is that of a position. -/
theorem of_mem_items {ps : List (Schema Value × Value)} (h : items recur ctx ps = .ok rs) :
    ∀ r ∈ rs, ∃ p ∈ ps, recur p.1 p.2 = .ok r := by
  obtain ⟨qs, hqs, hread⟩ := items_prefix h
  replace hqs := hqs.subset
  clear h
  induction hread with
  | nil => exact nofun
  | cons hr _ ih =>
    obtain ⟨hp, hqs⟩ := List.cons_subset.1 hqs
    exact List.forall_mem_cons.2 ⟨⟨_, hp, hr⟩, ih hqs⟩

theorem items_length_le {ps : List (Schema Value × Value)} (h : items recur ctx ps = .ok rs) :
    rs.length ≤ ps.length := by
  obtain ⟨qs, hqs, hread⟩ := items_prefix h
  exact hread.length_eq ▸ hqs.length_le

theorem of_mem_options {v : Value} {schemas : List (Schema Value)}
    (h : options recur thorough v schemas = .ok rs) :
    ∀ r ∈ rs, ∃ t ∈ schemas, recur t v = .ok r := by
  induction schemas generalizing rs with
  | nil =>
    cases h
    exact nofun
  | cons t schemas ih =>
    obtain ⟨q, hq, h⟩ := bind_eq_ok.1 h
    have hfirst : ∃ u ∈ t :: schemas, recur u v = .ok q := ⟨t, List.mem_cons_self .., hq⟩
    split at h
    · cases h
      exact List.forall_mem_singleton.2 hfirst
    · obtain ⟨rest, hrest, h⟩ := bind_eq_ok.1 h
      cases h
      refine List.forall_mem_cons.2 ⟨hfirst, fun r hr => ?_⟩
      obtain ⟨u, hu, hrecur⟩ := ih hrest r hr
      exact ⟨u, List.mem_cons_of_mem _ hu, hrecur⟩

/-- The options of a union all have a result if each has. -/
theorem options_ok {v : Value} {schemas : List (Schema Value)}
    (h : ∀ t ∈ schemas, ∃ r, recur t v = .ok r) :
    ∃ rs, options recur thorough v schemas = .ok rs := by
  induction schemas with
  | nil => exact ⟨[], rfl⟩
  | cons t schemas ih =>
    obtain ⟨⟨r, hr⟩, hts⟩ := List.forall_mem_cons.1 h
    obtain ⟨rs, hrs⟩ := ih hts
    rw [options, hr]
    dsimp only [bind, Except.bind]
    rw [hrs]
    split <;> exact ⟨_, rfl⟩

end

/-- Issues that were found before stay in front. -/
theorem checksFrom_issues {host : Host} {σ : Session} {ctx : Context} {cs : List Value}
    {acc r : Result} (h : checksFrom host σ ctx cs acc = .ok r) :
    ∃ more, r.issues = acc.issues ++ more := by
  induction cs generalizing acc with
  | nil =>
    cases h
    exact ⟨[], (List.append_nil _).symm⟩
  | cons c cs ih =>
    obtain ⟨outcome, -, h⟩ := bind_eq_ok.1 h
    split at h
    · cases h
      exact ⟨_, rfl⟩
    · obtain ⟨more, hmore⟩ := ih h
      exact ⟨_, hmore.trans (List.append_assoc ..)⟩

end Meaning

end Assay
