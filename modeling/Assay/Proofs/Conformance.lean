import Assay.Proofs.Acceptance
import Assay.Vocabulary.Attributes

/-!
# Conformance

What it is for an output to conform to a schema (`Conforms`): it has the shape that the form of
the schema asks for, with parts that conform to the schemas of the parts (`Shaped`), and it has
come through the checks, each of which accepts the value that it sees or replaces it (`Checked`).
No evaluation is mentioned: functions are asked, in a session `σ`, but no value is read against a
schema.

The output of a tuple is the one that does not simply follow its schemas. Where the input has a
value the output has one at the same place; beyond the end of the input the absent outputs are
left out, so those after them move up (`Trailing`).
-/

namespace Assay

/-! ## Checks -/

section

variable (host : Host) (σ : Session)

/-- The check has nothing against the value. -/
inductive Holds : Value → Value → Prop
  | rule {c : Check Value} {v : Value} : c.rule.function? = none → c.rule.verdict v = .ok none →
      Holds (.check c) v
  | format {s : Schema Value} {v : Value} : s.form.checkTag?.isSome = true →
      s.form.verdict v = none → Holds (.schema s) v
  | refinement {c : Check Value} {fn path params v : Value} {r : Result} :
      c.rule = .refinement fn path params →
      Meaning.promptly host σ (.str c.rule.tag) fn (.value v) = .ok r → r.value.truthy = true →
      Holds (.check c) v
  | superRefinement {c : Check Value} {fn v : Value} {r : Result} : c.rule = .superRefinement fn →
      Meaning.promptly host σ (.str c.rule.tag) fn (.reporting v (.check c)) = .ok r →
      r.issues = [] → Holds (.check c) v

/-- The first value becomes the second on its way through the checks. -/
inductive Checked : List Value → Value → Value → Prop
  | done {v : Value} : Checked [] v v
  | holds {c v w : Value} {cs : List Value} : Holds host σ c v → Checked cs v w →
      Checked (c :: cs) v w
  | replaced {c : Check Value} {fn name v w : Value} {r : Result} {cs : List Value} :
      c.rule = .overwrite fn name → (host.call fn (.replacing v)).answer σ = .ok r →
      Checked cs r.value w → Checked (.check c :: cs) v w

end

/-! ## Tuples -/

section

variable (conforms : Schema Value → Value → Prop)

/-- Positions beyond the end of the input: what is absent is left out. -/
inductive Trailing : List (Schema Value) → List Value → Prop
  | done : Trailing [] []
  | given {s : Schema Value} {w : Value} {ss : List (Schema Value)} {ws : List Value} :
      conforms s w → Trailing ss ws → Trailing (s :: ss) (w :: ws)
  | absent {s : Schema Value} {ss : List (Schema Value)} {ws : List Value} :
      conforms s .missing → Trailing ss ws → Trailing (s :: ss) ws

/-- Positions place by place, as far as the input goes, and those beyond its end. -/
inductive InPlaces : List (Schema Value) → List Value → Prop
  | here {s : Schema Value} {w : Value} {ss : List (Schema Value)} {ws : List Value} :
      conforms s w → InPlaces ss ws → InPlaces (s :: ss) (w :: ws)
  | beyond {ss : List (Schema Value)} {ws : List Value} : Trailing conforms ss ws → InPlaces ss ws

variable {conforms} {ss : List (Schema Value)} {ws : List Value}

theorem Trailing.length_le (h : Trailing conforms ss ws) : ws.length ≤ ss.length := by
  induction h with
  | done => exact Nat.le_refl _
  | given _ _ ih => exact Nat.succ_le_succ ih
  | absent _ _ ih => exact Nat.le_succ_of_le ih

/-- A tuple is no longer than its schema. -/
theorem InPlaces.length_le (h : InPlaces conforms ss ws) : ws.length ≤ ss.length := by
  induction h with
  | here _ _ ih => exact Nat.succ_le_succ ih
  | beyond h => exact h.length_le

end

/-! ## Schemas -/

section

variable (host : Host) (σ : Session)

mutual

/-- The value is an output that the schema allows. -/
inductive Conforms : Schema Value → Value → Prop
  | own {s : Schema Value} {u w : Value} :
      σ.kinds.evaluator? s.kind = .ok (.builtin .evaluateNode) → Shaped s s.form u →
      Checked host σ s.allChecks u w → Conforms s w
  /-- Another evaluator is registered for the kind of the schema, and answers as it will. -/
  | foreign {s : Schema Value} {fn v u w : Value} :
      σ.kinds.evaluator? s.kind = .ok fn → fn ≠ .builtin .evaluateNode →
      Meaning.evaluator host σ fn s v = .ok (.ok u) → Checked host σ s.allChecks u w →
      Conforms s w

/-- The value has the shape that a form asks for. -/
inductive Shaped : Schema Value → Form Value (Schema Value) → Value → Prop
  | string {s : Schema Value} {coerce : Value} {t : String} : Shaped s (.string coerce) (.str t)
  | format {s : Schema Value} {f : StringFormat} {coerce abort : Value} {t : String} :
      Shaped s (.format f coerce abort) (.str t)
  | number {s : Schema Value} {coerce u : Value} : u.isNumber = true →
      Shaped s (.number coerce) u
  | integer {s : Schema Value} {coerce abort u : Value} : u.isNumber = true →
      Shaped s (.integer coerce abort) u
  | boolean {s : Schema Value} {coerce : Value} {b : Bool} : Shaped s (.boolean coerce) (.bool b)
  | date {s : Schema Value} {coerce : Value} {d : Date} : Shaped s (.date coerce) (.date d)
  | moment {s : Schema Value} {coerce : Value} {t : Moment} : Shaped s (.date coerce) (.moment t)
  | null {s : Schema Value} : Shaped s .null .null
  | any {s : Schema Value} {u : Value} : Shaped s .any u
  | unknown {s : Schema Value} {u : Value} : Shaped s .unknown u
  | literal {s : Schema Value} {values : List Value} {x u : Value} : x ∈ values →
      u.same x = true → Shaped s (.literal values) u
  | listed {s : Schema Value} {entries : List (Value × Value)} {e : Value × Value} {u : Value} :
      e ∈ entries → u.same e.2 = true → Shaped s (.enumeration entries none) u
  | member {s : Schema Value} {entries : List (Value × Value)} {c d : EnumClass Value}
      {name : String} {x : Value} : d.ref = c.ref →
      Shaped s (.enumeration entries (some c)) (.member d name x)
  | object {s : Schema Value} {shape : List (Value × Schema Value)} {policy : UnknownKeys}
      {catchall : Option (Schema Value)} {es : Entries} :
      (∀ e ∈ es, Admitted shape policy catchall e) →
      (∀ f ∈ shape, es.find? f.1 = none → Conforms f.2 .missing) →
      Shaped s (.object shape policy catchall) (.dict es)
  | array {s element : Schema Value} {ws : List Value} : (∀ w ∈ ws, Conforms element w) →
      Shaped s (.array element) (.list ws)
  | tuple {s : Schema Value} {items : List (Schema Value)} {rest : Option (Schema Value)}
      {ws : List Value} : InPlaces Conforms items ws → Shaped s (.tuple items rest) (.tuple ws)
  | tupleWithRest {s rest : Schema Value} {items : List (Schema Value)} {ws more : List Value} :
      List.Forall₂ Conforms items ws → (∀ w ∈ more, Conforms rest w) →
      Shaped s (.tuple items (some rest)) (.tuple (ws ++ more))
  | record {s k v : Schema Value} {es : Entries} : Construct.enumerated? k = none →
      (∀ e ∈ es, Conforms k e.1) → (∀ e ∈ es, Conforms v e.2) → Shaped s (.record k v) (.dict es)
  /-- The keys of a record are listed: there are no others, and none is absent for no reason. -/
  | enumeratedRecord {s k v : Schema Value} {allowed : List Value} {es : Entries} :
      Construct.enumerated? k = some allowed → (∀ e ∈ es, e.1 ∈ allowed) →
      (∀ e ∈ es, Conforms v e.2) →
      (∀ x ∈ allowed, es.find? x = none → Conforms v .missing) → Shaped s (.record k v) (.dict es)
  | map {s k v : Schema Value} {es : Entries} : (∀ e ∈ es, Conforms k e.1) →
      (∀ e ∈ es, Conforms v e.2) → Shaped s (.map k v) (.dict es)
  | set {s element : Schema Value} {ws : List Value} : (∀ w ∈ ws, Conforms element w) →
      Shaped s (.set element) (.set ws)
  | union {s o : Schema Value} {options : List (Schema Value)} {u : Value} : o ∈ options →
      Conforms o u → Shaped s (.union options) u
  | discriminatedUnion {s o : Schema Value} {options : List (Schema Value)} {d u : Value}
      {table : List (Value × Nat)} : o ∈ options → Conforms o u →
      Shaped s (.discriminatedUnion options d table) u
  | intersection {s l r : Schema Value} {a b u : Value} : Conforms l a → Conforms r b →
      mergeValues [] a b = .ok u → Shaped s (.intersection l r) u
  | optionalAbsent {s inner : Schema Value} : Shaped s (.optional inner) .missing
  | optional {s inner : Schema Value} {u : Value} : Conforms inner u → Shaped s (.optional inner) u
  | nullableNull {s inner : Schema Value} : Shaped s (.nullable inner) .null
  | nullable {s inner : Schema Value} {u : Value} : Conforms inner u → Shaped s (.nullable inner) u
  | defaultAbsent {s inner : Schema Value} {d u : Value} : (defaultValue host d).answer σ = .ok u →
      Shaped s (.default inner d) u
  | default {s inner : Schema Value} {d u : Value} : Conforms inner u →
      Shaped s (.default inner d) u
  | prefault {s inner : Schema Value} {d u : Value} : Conforms inner u →
      Shaped s (.prefault inner d) u
  | catching {s inner : Schema Value} {fallback u : Value} : Conforms inner u →
      Shaped s (.catching inner fallback) u
  | caught {s inner : Schema Value} {fallback : Value} : fallback.isCallable = false →
      Shaped s (.catching inner fallback) fallback
  | caughtCalling {s inner : Schema Value} {fallback v : Value} {issues : List (Issue Value)}
      {r : Result} : fallback.isCallable = true →
      (host.call fallback (.recovering v issues)).answer σ = .ok r →
      Shaped s (.catching inner fallback) r.value
  | readonly {s inner : Schema Value} {u : Value} : Conforms inner u →
      Shaped s (.readonly inner) u.freeze
  | promise {s inner : Schema Value} {u : Value} : Conforms inner u → Shaped s (.promise inner) u
  | transform {s : Schema Value} {fn u : Value} {call : Call Value} :
      Meaning.promptly host σ s.kind fn call = .ok (.ok u) → Shaped s (.transform fn) u
  | pipe {s source target : Schema Value} {u : Value} : Conforms target u →
      Shaped s (.pipe source target) u
  | lazy {s t : Schema Value} {getter name u : Value} : (s.resolve host getter).answer σ = .ok t →
      Conforms t u → Shaped s (.lazy getter name) u
  | anything {s : Schema Value} {params u : Value} : Shaped s (.custom .null params) u
  | custom {s : Schema Value} {fn params u : Value} {r : Result} :
      Meaning.promptly host σ s.kind fn (.value u) = .ok r → r.value.truthy = true →
      Shaped s (.custom fn params) u

/-- The entry may be in the output of an object. -/
inductive Admitted : List (Value × Schema Value) → UnknownKeys → Option (Schema Value) →
    Value × Value → Prop
  | named {shape : List (Value × Schema Value)} {policy : UnknownKeys}
      {catchall : Option (Schema Value)} {f : Value × Schema Value} {w : Value} : f ∈ shape →
      Conforms f.2 w → Admitted shape policy catchall (f.1, w)
  | caught {shape : List (Value × Schema Value)} {policy : UnknownKeys} {c : Schema Value}
      {k w : Value} : (shape.any fun f => f.1.isFound k) = false → Conforms c w →
      Admitted shape policy (some c) (k, w)
  | passed {shape : List (Value × Schema Value)} {k w : Value} :
      (shape.any fun f => f.1.isFound k) = false → Admitted shape .passthrough none (k, w)

end

end

/-! ## Checks that replace nothing -/

/-- The check replaces the value. -/
def Value.replaces : Value → Bool
  | .check c => (c.rule matches .overwrite ..)
  | _ => false

variable {host : Host} {σ : Session} {cs : List Value} {u w : Value}

theorem Value.replaces_of_overwrite {c : Check Value} {fn name : Value}
    (h : c.rule = .overwrite fn name) : (Value.check c).replaces = true := by
  simp only [Value.replaces, h]

theorem Checked.eq_of_keeping (h : Checked host σ cs u w) (hcs : ∀ c ∈ cs, c.replaces = false) :
    u = w := by
  induction h with
  | done => rfl
  | holds _ _ ih => exact ih fun c hc => hcs c (List.mem_cons_of_mem _ hc)
  | replaced hrule _ _ _ =>
    have hc := hcs _ (List.mem_cons_self ..)
    rw [Value.replaces_of_overwrite hrule] at hc
    cases hc

/-- The checks that come after all replacements hold of the output itself. -/
theorem Checked.holds_after (h : Checked host σ cs u w) {before after : List Value}
    (hcs : cs = before ++ after) (hafter : ∀ c ∈ after, c.replaces = false) :
    ∀ c ∈ after, Holds host σ c w := by
  induction h generalizing before after with
  | done =>
    obtain ⟨-, rfl⟩ := List.append_eq_nil_iff.1 hcs.symm
    exact fun c hc => nomatch hc
  | @holds c v w cs hc h ih =>
    cases before with
    | nil =>
      subst hcs
      have hcs := fun d hd => hafter d (List.mem_cons_of_mem _ hd)
      refine List.forall_mem_cons.2 ⟨?_, ih (List.nil_append _).symm hcs⟩
      exact h.eq_of_keeping hcs ▸ hc
    | cons d before => exact ih (List.cons.inj hcs).2 hafter
  | @replaced c fn name v w r cs hrule hr h ih =>
    cases before with
    | nil =>
      subst hcs
      have hc := hafter _ (List.mem_cons_self ..)
      rw [Value.replaces_of_overwrite hrule] at hc
      cases hc
    | cons d before => exact ih (List.cons.inj hcs).2 hafter

/-! ## Running the checks -/

variable {ctx : Context}

theorem Result.of_eq_ok {v source x : Value} {detail : Option (Detail Value (Issue Value))} :
    Result.of v source detail = .ok x ↔ detail = none ∧ x = v := by
  cases detail with
  | none => simp [Result.of, eq_comm]
  | some d => simp [Result.of]

/-- A check that accepts a value holds of it, or replaces it. -/
theorem check_holds {c u x : Value} (h : Meaning.check host σ c u = .ok (.ok x)) :
    (Holds host σ c u ∧ x = u) ∨ ∃ d fn name r, c = .check d ∧ d.rule = .overwrite fn name ∧
      (host.call fn (.replacing u)).answer σ = .ok r ∧ x = r.value := by
  unfold Meaning.check at h
  split at h
  · rename_i c
    split at h
    · rename_i fn name hrule
      obtain ⟨r, hr, h⟩ := bind_eq_ok.1 h
      obtain rfl : r.value = x := congrArg Result.value (Except.ok.inj h)
      exact .inr ⟨c, fn, name, r, rfl, hrule, hr, rfl⟩
    · rename_i fn path params hrule
      obtain ⟨r, hr, h⟩ := bind_eq_ok.1 h
      split at h
      · obtain rfl : u = x := congrArg Result.value (Except.ok.inj h)
        exact .inl ⟨.refinement hrule hr ‹_›, rfl⟩
      · obtain ⟨_, -, h⟩ := bind_eq_ok.1 h
        cases h
    · rename_i fn hrule
      obtain ⟨r, hr, h⟩ := bind_eq_ok.1 h
      obtain ⟨hu, hissues⟩ := Result.mk.inj (Except.ok.inj h)
      exact .inl ⟨.superRefinement hrule hr hissues, hu.symm⟩
    · rename_i hoverwrite hrefinement hsuper
      obtain ⟨detail, hdetail, h⟩ := bind_eq_ok.1 h
      obtain ⟨rfl, rfl⟩ := Result.of_eq_ok.1 (Except.ok.inj h)
      refine .inl ⟨.rule ?_ hdetail, rfl⟩
      unfold Rule.function?
      split
      · exact absurd ‹_› (hoverwrite _ _)
      · exact absurd ‹_› (hrefinement _ _ _)
      · exact absurd ‹_› (hsuper _)
      · rfl
  · split at h
    · obtain ⟨hverdict, rfl⟩ := Result.of_eq_ok.1 (Except.ok.inj h)
      exact .inl ⟨.format ‹_› hverdict, rfl⟩
    · cases h
  · cases h

/-- Running checks that accept is the way through them. -/
theorem checksFrom_checked {cs : List Value} {u w : Value}
    (h : Meaning.checksFrom host σ ctx cs (.ok u) = .ok (.ok w)) : Checked host σ cs u w := by
  induction cs generalizing u with
  | nil =>
    cases h
    exact .done
  | cons c cs ih =>
    obtain ⟨x, hx, hrest⟩ := checksFrom_accepts.1 h
    rcases check_holds hx with ⟨hc, rfl⟩ | ⟨d, fn, name, r, rfl, hrule, hr, rfl⟩
    · exact .holds hc (ih hrest)
    · exact .replaced hrule hr (ih hrest)

theorem check_of_holds {c u : Value} (h : Holds host σ c u) :
    Meaning.check host σ c u = .ok (.ok u) := by
  cases h with
  | @rule c v hrule hverdict =>
    unfold Meaning.check
    cases hform : c.rule <;> simp_all [Rule.function?, Result.of]
  | format htag hverdict =>
    simp only [Meaning.check, htag, if_true, hverdict]
    rfl
  | @refinement c fn path params v r hrule hr htruthy =>
    rw [hrule] at hr
    simp only [Meaning.check, hrule]
    refine bind_eq_ok.2 ⟨r, hr, ?_⟩
    rw [if_pos htruthy]
    rfl
  | @superRefinement c fn v r hrule hr hissues =>
    rw [hrule] at hr
    simp only [Meaning.check, hrule]
    exact bind_eq_ok.2 ⟨r, hr, by rw [hissues]; rfl⟩

/-- Checks that replace nothing accept a value, as it is, exactly if they all hold of it. -/
theorem checksFrom_keeping {cs : List Value} (hcs : ∀ c ∈ cs, c.replaces = false) {u w : Value} :
    Meaning.checksFrom host σ ctx cs (.ok u) = .ok (.ok w) ↔
      w = u ∧ ∀ c ∈ cs, Holds host σ c u := by
  induction cs with
  | nil => simp [Meaning.checksFrom, eq_comm]
  | cons c cs ih =>
    obtain ⟨hc, hcs⟩ := List.forall_mem_cons.1 hcs
    rw [checksFrom_accepts, List.forall_mem_cons]
    constructor
    · rintro ⟨x, hx, h⟩
      rcases check_holds hx with ⟨hholds, rfl⟩ | ⟨d, fn, name, r, rfl, hrule, -⟩
      · obtain ⟨rfl, hall⟩ := (ih hcs).1 h
        exact ⟨rfl, hholds, hall⟩
      · rw [Value.replaces_of_overwrite hrule] at hc
        cases hc
    · rintro ⟨rfl, hholds, hall⟩
      exact ⟨w, check_of_holds hholds, (ih hcs).2 ⟨rfl, hall⟩⟩

end Assay
