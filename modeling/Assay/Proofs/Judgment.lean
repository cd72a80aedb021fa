import Assay.Proofs.Suspends

/-!
# Judgments on evaluations

A judgment relates an operation to a meaning. Judgments with the rules of `Judgment`, one for each
way in which evaluations are put together, relate the evaluation of every settled schema to its
meaning (`Judgment.evaluate`). The functions may be those of another host than the meaning's, as
long as it is one with the same functions.
-/

namespace Assay

/-- The rules of a judgment on evaluations with `host'` and on meanings with `host`. -/
structure Judgment (host host' : Host) (σ : Session) (ctx : Context) (b total : Bool)
    (I : Session → Prop) (J : ⦃α : Type⦄ → Run (Outcome α) → Except Fault α → Prop) : Prop where
  ready : ∀ ⦃α : Type⦄ (a : α), J (pure (.ready a)) (.ok a)
  throw : ∀ ⦃α : Type⦄ (e : Fault), J (throw e : Run (Outcome α)) (.error e)
  bind : ∀ ⦃α β : Type⦄ {y : Run β} {e : Except Fault β} {f : β → Run (Outcome α)}
    {k : β → Except Fault α}, y.Gives I e → (∀ a, e = .ok a → J (f a) (k a)) →
    J (y >>= f) (e >>= k)
  map : ∀ ⦃α β : Type⦄ {x : Run (Outcome α)} {m : Except Fault α} (f : α → β), J x m →
    J (do return (← x).map f) (m >>= fun a => .ok (f a))
  andThen : ∀ ⦃α β : Type⦄ {x : Run (Outcome α)} {m : Except Fault α} {f : α → Run (Outcome β)}
    {k : α → Except Fault β}, J x m → (∀ a, J (f a) (k a)) →
    J (do (← x).andThen f) (m >>= k)
  items : ∀ {recur : Schema Value → Value → Run (Outcome Result)}
    {m : Schema Value → Value → Except Fault Result} (ps : List (Schema Value × Value)),
    (∀ p ∈ ps, J (recur p.1 p.2) (m p.1 p.2)) →
    J (evaluateItems host' recur (ctx.mayWait b) ps) (Meaning.items m ctx ps)
  union : ∀ {recur : Schema Value → Value → Run (Outcome Result)}
    {m : Schema Value → Value → Except Fault Result} {v : Value} (s : Schema Value)
    (schemas : List (Schema Value)), (∀ o ∈ schemas, J (recur o v) (m o v)) →
    J (evaluateUnion host' recur s schemas v)
      (Meaning.options m total v schemas >>= fun rs => .ok (unionResult s v rs))
  /-- A pending value that has to be awaited has no meaning. -/
  pending : ∀ {recur : Schema Value → Value → Run (Outcome Result)}
    {m : Schema Value → Value → Except Fault Result} (s inner : Schema Value) (ref : Nat)
    (source : Pending Value), (∀ w, J (recur inner w) (m inner w)) →
    J (evaluatePromise host' (ctx.mayWait b) recur s inner (.pending ref source))
      (.error (.asyncRequired s.kind))
  call : ∀ {fn : Value}, host.Reliable I fn → ∀ (kind : Value) (call : Call Value),
    J (host'.callAwaiting (ctx.mayWait b) kind fn call) (Meaning.promptly host σ kind fn call)
  checks : ∀ {cs : List Value},
    (∀ c ∈ cs, ∀ v, J (runCheck host' (ctx.mayWait b) c v) (Meaning.check host σ c v)) →
    ∀ r, J (runChecksFrom host' (ctx.mayWait b) cs r) (Meaning.checksFrom host σ ctx cs r)
  checked : ∀ {x : Run (Outcome Result)} {m : Except Fault Result} {s : Schema Value}, J x m →
    (∀ r, J (runChecks host' (ctx.mayWait b) s r) (Meaning.checks host σ ctx s r)) →
    J (x >>= checkOutcome host' (ctx.mayWait b) s) (m >>= Meaning.checks host σ ctx s)
  evaluator : ∀ {fn : Value}, host.Reliable I fn → ∀ {s : Schema Value} (v : Value),
    (∀ r, J (runChecks host' (ctx.mayWait b) s r) (Meaning.checks host σ ctx s r)) →
    J (host'.start fn (.evaluating (.schema s) v) >>= checkOutcome host' (ctx.mayWait b) s)
      (Meaning.evaluator host σ fn s v >>= Meaning.checks host σ ctx s)

namespace Judgment

variable {host host' : Host} {σ : Session} {ctx : Context} {b total : Bool} {I : Session → Prop}
  {J : ⦃α : Type⦄ → Run (Outcome α) → Except Fault α → Prop} {pool : Schema Value → Prop}

/-- A pure computation on a result. -/
theorem lift (j : Judgment host host' σ ctx b total I J) {α β : Type} {x : Run (Outcome α)}
    {m : Except Fault α} {f : α → Except Fault β} (hx : J x m) :
    J (do (← x).andThen fun a => do return .ready (← Run.lift (f a)) : Run (Outcome β))
      (m >>= f) := by
  refine j.andThen hx fun a => ?_
  cases f a with
  | error e => exact j.throw e
  | ok b => exact j.ready b

/-! ## Checks -/

theorem runCheck (j : Judgment host host' σ ctx b total I J) (hhosts : host.Agrees host')
    (hσ : I σ) {c : Value}
    (hc : ∀ fn ∈ c.checkCalls?, host.Reliable I fn) (v : Value) :
    J (Assay.runCheck host' (ctx.mayWait b) c v) (Meaning.check host σ c v) := by
  cases c with
  | check c =>
    have hrule : ∀ rule : Rule Value,
        J (do return .ready (Result.of v (.check c) (← Run.lift (rule.verdict v))) :
          Run (Outcome Result))
          (rule.verdict v >>= fun d => .ok (Result.of v (.check c) d)) :=
      fun rule => j.bind .lift fun d _ => j.ready _
    dsimp only [Assay.runCheck, Meaning.check, Check.run]
    unfold Value.checkCalls? Rule.function? at hc
    cases hform : c.rule with
    | overwrite fn name =>
      have hfn := (hc fn (by simp [hform])).taken (.replacing v) rfl
      dsimp only
      rw [hhosts.call _ _ rfl]
      exact j.bind (hfn.gives hσ) fun _ _ => j.ready _
    | refinement fn path params =>
      refine j.andThen (j.call (hc fn (by simp [hform])) _ _) fun r => ?_
      split
      · exact j.ready _
      · exact j.bind ((issueParameters_fixed params).gives hσ) fun _ _ => j.ready _
    | superRefinement fn => exact j.map _ (j.call (hc fn (by simp [hform])) _ _)
    | _ => exact hrule _
  | schema s =>
    dsimp only [Assay.runCheck, Meaning.check]
    split
    · exact j.ready _
    · exact j.throw _
  | _ => exact j.throw _

theorem checkCalls_reliable (h : Settled host σ I pool) {s : Schema Value} (hs : pool s) :
    ∀ c ∈ s.allChecks, ∀ fn ∈ c.checkCalls?, host.Reliable I fn := by
  intro c hc fn hfn
  have hmem : c ∈ s.checks → fn ∈ s.functions := fun hc =>
    List.mem_append_right _ (List.mem_filterMap.2 ⟨c, hc, hfn⟩)
  unfold Schema.allChecks at hc
  split at hc
  · rcases List.mem_cons.1 hc with rfl | hc
    · cases hfn
    · exact h.functions s hs fn (hmem hc)
  · exact h.functions s hs fn (hmem hc)

theorem runChecks (j : Judgment host host' σ ctx b total I J) (hhosts : host.Agrees host')
    (h : Settled host σ I pool) {s : Schema Value} (hs : pool s) (r : Result) :
    J (Assay.runChecks host' (ctx.mayWait b) s r) (Meaning.checks host σ ctx s r) := by
  unfold Assay.runChecks Meaning.checks
  split
  · exact j.checks (fun c hc => j.runCheck hhosts h.here
      (checkCalls_reliable h hs c hc)) r
  · exact j.ready r

/-! ## Forms -/

section

variable {recur : Schema Value → Value → Run (Outcome Result)}
  {m : Schema Value → Value → Except Fault Result} {s : Schema Value} {v : Value}

/-- The judgment holds of nested schemas of the family. -/
def Nested (J : ⦃α : Type⦄ → Run (Outcome α) → Except Fault α → Prop)
    (pool : Schema Value → Prop) (recur : Schema Value → Value → Run (Outcome Result))
    (m : Schema Value → Value → Except Fault Result) : Prop :=
  ∀ t, pool t → ∀ w, J (recur t w) (m t w)

theorem object (j : Judgment host host' σ ctx b total I J) (hrec : Nested J pool recur m)
    (shape : List (Value × Schema Value)) (policy : UnknownKeys)
    (catchall : Option (Schema Value)) (hparts : ∀ t ∈ shape.map (·.2) ++ catchall.toList, pool t) :
    J (evaluateObject host' (ctx.mayWait b) recur s shape policy catchall v)
      (Meaning.object ctx m s shape policy catchall v) := by
  unfold evaluateObject Meaning.object
  cases v.entries? with
  | none => exact j.ready _
  | some data =>
    exact j.map _ (j.items _ fun p hp =>
      hrec _ (hparts _ (objectItems_parts shape catchall data p hp)) _)

theorem array (j : Judgment host host' σ ctx b total I J) (hrec : Nested J pool recur m)
    {element : Schema Value} (helement : pool element) :
    J (evaluateArray host' (ctx.mayWait b) recur s element v)
      (Meaning.array ctx m s element v) := by
  unfold evaluateArray Meaning.array
  cases v.items? with
  | none => exact j.ready _
  | some vs =>
    refine j.map _ (j.items _ fun p hp => ?_)
    obtain ⟨w, -, rfl⟩ := List.mem_map.1 hp
    exact hrec _ helement _

theorem tuple (j : Judgment host host' σ ctx b total I J) (hrec : Nested J pool recur m)
    {acceptsAbsent : Schema Value → Run Bool} (schemas : List (Schema Value))
    (rest : Option (Schema Value)) (hσ : I σ)
    (habsent : ∀ t ∈ schemas, (acceptsAbsent t).Fixed I)
    (hparts : ∀ t ∈ schemas ++ rest.toList, pool t) :
    J (evaluateTuple host' (ctx.mayWait b) recur acceptsAbsent s schemas rest v)
      (Meaning.tuple ctx m ((requiredPositions acceptsAbsent schemas.reverse).answer σ) s schemas
        rest v) := by
  unfold evaluateTuple Meaning.tuple
  cases v.items? with
  | none => exact j.ready _
  | some vs =>
    have hrequired := Settled.requiredPositions_fixed schemas.reverse
      fun t ht => habsent t (List.mem_reverse.1 ht)
    refine j.bind (hrequired.gives hσ) fun required _ => ?_
    cases Structure.tupleLength required schemas.length rest.isSome vs.length with
    | some detail => exact j.ready _
    | none =>
      exact j.map _ (j.items _ fun p hp =>
        hrec _ (hparts _ (tupleItems_parts rest schemas vs p hp)) _)

theorem entryItems (j : Judgment host host' σ ctx b total I J) (hrec : Nested J pool recur m)
    {keyType valueType : Schema Value} (hkey : pool keyType) (hvalue : pool valueType)
    (data : Entries) :
    J (evaluateItems host' recur (ctx.mayWait b) (Structure.entryItems keyType valueType data))
      (Meaning.items m ctx (Structure.entryItems keyType valueType data)) := by
  refine j.items _ fun p hp => ?_
  rcases entryItems_parts keyType valueType data p hp with hp | hp
  · exact hrec _ (hp ▸ hkey) _
  · exact hrec _ (hp ▸ hvalue) _

theorem record (j : Judgment host host' σ ctx b total I J) (hrec : Nested J pool recur m)
    {keyType valueType : Schema Value} (hkey : pool keyType) (hvalue : pool valueType) :
    J (evaluateRecord host' (ctx.mayWait b) recur s keyType valueType v)
      (Meaning.record ctx m s keyType valueType v) := by
  unfold evaluateRecord Meaning.record
  cases v.entries? with
  | none => exact j.ready _
  | some data =>
    cases Construct.enumerated? keyType with
    | none => exact j.lift (j.entryItems hrec hkey hvalue _)
    | some allowed =>
      cases hhashable : Value.areHashable allowed with
      | false =>
        simp only [hhashable]
        exact j.throw _
      | true =>
        simp only [hhashable]
        refine j.map _ (j.items _ fun p hp => ?_)
        obtain ⟨k, -, rfl⟩ := List.mem_map.1 hp
        exact hrec _ hvalue _

theorem map' (j : Judgment host host' σ ctx b total I J) (hrec : Nested J pool recur m)
    {keyType valueType : Schema Value} (hkey : pool keyType) (hvalue : pool valueType) :
    J (evaluateMap host' (ctx.mayWait b) recur s keyType valueType v)
      (Meaning.map ctx m s keyType valueType v) := by
  unfold evaluateMap Meaning.map
  cases v.entries? with
  | none => exact j.ready _
  | some data => exact j.lift (j.entryItems hrec hkey hvalue _)

theorem set (j : Judgment host host' σ ctx b total I J) (hrec : Nested J pool recur m)
    {element : Schema Value} (helement : pool element) :
    J (evaluateSet host' (ctx.mayWait b) recur s element v)
      (Meaning.set ctx m s element v) := by
  have hmembers : ∀ vs : List Value,
      J (evaluateItems host' recur (ctx.mayWait b) (vs.map fun w => (element, w)))
        (Meaning.items m ctx (vs.map fun w => (element, w))) := by
    refine fun vs => j.items _ fun p hp => ?_
    obtain ⟨w, -, rfl⟩ := List.mem_map.1 hp
    exact hrec _ helement _
  cases v with
  | set vs | frozenSet vs => exact j.lift (hmembers _)
  | _ => exact j.ready _

theorem discriminated (j : Judgment host host' σ ctx b total I J) (hrec : Nested J pool recur m)
    (hσ : I σ) (schemas : List (Schema Value)) (discriminator : Value)
    (table : List (Value × Nat)) (hparts : ∀ t ∈ schemas, pool t) :
    J (evaluateDiscriminated recur s schemas discriminator table v)
      (Meaning.discriminated σ m s schemas discriminator table v) := by
  unfold evaluateDiscriminated Meaning.discriminated
  cases v.entries? with
  | none => exact j.ready _
  | some data =>
    refine j.bind ((hashable_fixed discriminator).gives hσ) fun d _ => ?_
    dsimp only
    cases hpick : pickOption schemas table ((data.find? d).getD .missing) with
    | some t => exact hrec _ (hparts _ (pickOption_mem hpick)) _
    | none => exact j.ready _

theorem intersection (j : Judgment host host' σ ctx b total I J) (hrec : Nested J pool recur m)
    {left right : Schema Value} (hleft : pool left) (hright : pool right) :
    J (evaluateIntersection host' (ctx.mayWait b) recur left right v)
      (Meaning.items m ctx [(left, v), (right, v)] >>= fun rs => intersectionResult v rs) := by
  refine j.lift (j.items _ fun p hp => ?_)
  rcases List.mem_cons.1 hp with rfl | hp
  · exact hrec _ hleft _
  · obtain rfl := List.mem_singleton.1 hp
    exact hrec _ hright _

theorem catching (j : Judgment host host' σ ctx b total I J) (hhosts : host.Agrees host')
    (h : Settled host σ I pool) (hrec : Nested J pool recur m) {inner : Schema Value}
    {fallback : Value} (hinner : pool inner) (hfallback : host.Reliable I fallback)
    (hwords : fallback.isCallable = true →
      ∀ issues, (Resolution.finalizeActive host ctx issues).Fixed I) :
    J (evaluateCatching host' (ctx.mayWait b) recur inner fallback v)
      (m inner v >>= fun r => Meaning.caught host σ ctx fallback v r) := by
  refine j.andThen (hrec inner hinner v) fun r => ?_
  unfold Meaning.caught
  split
  · exact j.ready _
  · split
    · rename_i hcallable
      rw [hhosts.finalizeActive_eq]
      refine j.bind ((hwords hcallable r.issues).gives h.here) fun issues _ => ?_
      rw [hhosts.call _ _ rfl]
      have hcall := hfallback.taken (.recovering v issues) rfl
      exact j.bind (hcall.gives h.here) fun _ _ => j.ready _
    · exact j.ready _

theorem custom (j : Judgment host host' σ ctx b total I J) (hσ : I σ) {fn : Value}
    (hfn : host.Reliable I fn) (params : Value) :
    J (evaluateCustom host' (ctx.mayWait b) s fn params v)
      (Meaning.custom host σ s fn params v) := by
  have hcustom : J (do
      let verdict ← host'.callAwaiting (ctx.mayWait b) s.kind fn (.value v)
      verdict.andThen fun r => do
        if r.value.truthy then return .ready ⟨v, []⟩
        return .ready (.failed s v (.custom (← issueParameters params))) :
        Run (Outcome Result)) (do
      let r ← Meaning.promptly host σ s.kind fn (.value v)
      if r.value.truthy then return ⟨v, []⟩
      return .failed s v (.custom (← (issueParameters params).answer σ))) := by
    refine j.andThen (j.call hfn _ _) fun r => ?_
    split
    · exact j.ready _
    · exact j.bind ((issueParameters_fixed params).gives hσ) fun _ _ => j.ready _
  cases fn with
  | null => exact j.ready _
  | _ => exact hcustom

/-- The judgment holds of a form of the family. -/
theorem form (j : Judgment host host' σ ctx b total I J) (hhosts : host.Agrees host')
    (h : Settled host σ I pool) (hrec : Nested J pool recur m) (fuel : Nat) (hs : pool s) :
    J (evaluateForm host' (ctx.mayWait b) recur (Schema.acceptsAbsent host' fuel) s v)
      (Meaning.form host σ ctx total m fuel s v) := by
  have hparts := h.parts s hs
  have hfunctions := h.functions s hs
  unfold Schema.functions at hfunctions
  have hdefaults := h.defaults s hs
  rw [hhosts.acceptsAbsent_eq]
  unfold evaluateForm Meaning.form
  simp only [hhosts.defaultValue_eq, hhosts.resolve_eq]
  cases hform : s.form with
  | object shape policy catchall =>
    rw [hform] at hparts
    exact j.object hrec shape policy catchall hparts
  | array element => exact j.array hrec (hparts _ (by simp [hform, Form.parts]))
  | tuple schemas rest =>
    rw [hform] at hparts
    exact j.tuple hrec schemas rest h.here (fun t ht =>
      h.acceptsAbsent_fixed fuel t (hparts t (List.mem_append_left _ ht))) hparts
  | record k w =>
    exact j.record hrec (hparts k (by simp [hform, Form.parts]))
      (hparts w (by simp [hform, Form.parts]))
  | map k w =>
    exact j.map' hrec (hparts k (by simp [hform, Form.parts]))
      (hparts w (by simp [hform, Form.parts]))
  | set element => exact j.set hrec (hparts _ (by simp [hform, Form.parts]))
  | union schemas =>
    exact j.union s schemas fun o ho =>
      hrec o (hparts o (by simpa [hform, Form.parts] using ho)) v
  | discriminatedUnion schemas d table =>
    rw [hform] at hparts
    exact j.discriminated hrec h.here schemas d table hparts
  | intersection l r =>
    exact j.intersection hrec (hparts l (by simp [hform, Form.parts]))
      (hparts r (by simp [hform, Form.parts]))
  | optional inner | nullable inner =>
    have hinner := hrec inner (hparts _ (by simp [hform, Form.parts])) v
    cases v <;> first | exact j.ready _ | exact hinner
  | default inner d =>
    have hinner := hrec inner (hparts _ (by simp [hform, Form.parts])) v
    have hdefault := (hdefaults d (by simp [hform, Form.default?])).gives h.here
    cases v <;> first | exact j.bind hdefault fun _ _ => j.ready _ | exact hinner
  | prefault inner d =>
    have hinner := hrec inner (hparts _ (by simp [hform, Form.parts]))
    have hdefault := (hdefaults d (by simp [hform, Form.default?])).gives h.here
    cases v <;> first | exact j.bind hdefault fun _ _ => hinner _ | exact hinner _
  | catching inner fallback =>
    exact j.catching hhosts h hrec (hparts _ (by simp [hform, Form.parts]))
      (hfunctions _ (by simp [hform, Form.calls?]))
      (fun hcallable => h.wording s hs inner fallback hform hcallable ctx)
  | readonly inner => exact j.map _ (hrec inner (hparts _ (by simp [hform, Form.parts])) v)
  | promise inner =>
    have hinner := hrec inner (hparts _ (by simp [hform, Form.parts]))
    cases v with
    | pending ref source => exact j.pending s inner ref source hinner
    | _ => exact hinner _
  | transform fn =>
    dsimp only [evaluateTransform]
    rw [hhosts.wantsSink_eq]
    exact j.call (hfunctions _ (by simp [hform, Form.calls?])) _ _
  | pipe source target =>
    refine j.andThen (hrec source (hparts _ (by simp [hform, Form.parts])) v) fun r => ?_
    split
    · exact hrec target (hparts _ (by simp [hform, Form.parts])) _
    · exact j.ready _
  | lazy getter name =>
    exact j.bind ((h.lazies s hs getter name hform).gives h.here) fun t ht =>
      hrec t (h.resolved s hs getter name t hform ht) v
  | custom fn params =>
    exact j.custom h.here (hfunctions _ (by simp [hform, Form.calls?])) params
  | generic => exact j.throw _
  | _ => exact j.ready _

end

/-- The judgment holds of every schema of a settled family. -/
theorem evaluate (j : Judgment host host' σ ctx b total I J) (hhosts : host.Agrees host')
    (h : Settled host σ I pool) (fuel : Nat) :
    Nested J pool (Assay.evaluate host' (ctx.mayWait b) fuel)
      (meaning host σ ctx total fuel) := by
  induction fuel with
  | zero => exact fun s _ v => j.throw _
  | succ fuel ih =>
    intro s hs v
    have hchecks := j.runChecks hhosts h hs
    have hkinds : (do Run.lift ((← get).kinds.evaluator? s.kind) : Run Value).Gives I
        (σ.kinds.evaluator? s.kind) :=
      .reading fun τ hτ => h.kinds τ hτ ▸ Run.Gives.lift
    unfold Assay.evaluate meaning
    refine bind_assoc (m := Run) get _ _ ▸ j.bind hkinds fun fn hfn => ?_
    have hreliable := h.evaluators s hs fn hfn
    have hform := j.checked (j.form (v := v) hhosts h ih fuel hs) hchecks
    have hevaluator := j.evaluator hreliable v hchecks
    cases fn with
    | builtin f =>
      cases f with
      | evaluateNode => exact hform
      | _ => exact hevaluator
    | _ => exact hevaluator

end Judgment

end Assay
