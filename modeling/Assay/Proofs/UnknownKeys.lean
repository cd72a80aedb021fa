import Assay.Proofs.Assembling
import Assay.Proofs.Keeping

/-!
# What objects make of unknown keys

Variants of an object have the same shape, and differ in what they make of the keys that it does
not name. In a full parse all of them make the same of the keys of the shape. What a variant makes
of the unknown keys comes after that (`policies_agree`): its output goes on with the entries that
it keeps, and its issues with those that it reports.
-/

namespace Assay

open Run Structure

variable {host : Host} {σ : Session} {ctx : Context}

/-! ## Words for issues in parts -/

/-- What a parse answers that comes to the output and has found the issues. -/
def Parsed.of (w : Value) (found : List (Issue Value)) : Parsed :=
  if found.isEmpty then .accepted w else .rejected found

namespace Resolution

/-- In the session the second issues are the first ones with words. -/
def Words (host : Host) (σ : Session) (ctx : Context) (is js : List (Issue Value)) : Prop :=
  (finalize host ctx σ.config is).answer σ = .ok js

theorem finalize_append (config : Config) (is js : List (Issue Value)) :
    finalize host ctx config (is ++ js) = (do
      let first ← finalize host ctx config is
      let rest ← finalize host ctx config js
      return first ++ rest) := by
  induction is with
  | nil => simp [finalize]
  | cons i is ih => simp [finalize, ih]

namespace Words

variable {is is' js js' : List (Issue Value)}

theorem nil : Words host σ ctx [] [] := rfl

theorem append {I : Session → Prop} (hfixed : FixedProviders host I) (hσ : I σ)
    (h : Words host σ ctx is js) (h' : Words host σ ctx is' js') :
    Words host σ ctx (is ++ is') (js ++ js') := by
  have hfirst : (finalize host ctx σ.config is).Fixed I := finalize_fixed hfixed σ.config is
  have hrest : (finalize host ctx σ.config is').Fixed I := finalize_fixed hfixed σ.config is'
  unfold Words at h h' ⊢
  rw [finalize_append, hfirst.bind_answer hσ fun _ _ => hrest.bind fun _ => .pure, h]
  show Run.answer (finalize host ctx σ.config is' >>= fun rest => pure (js ++ rest)) σ = _
  rw [hrest.bind_answer hσ fun _ _ => .pure, h']
  rfl

/-- Words change nothing else. -/
theorem unworded (h : Words host σ ctx is js) :
    unwordedAll ctx.reportInput js = unwordedAll ctx.reportInput is := by
  have hproviders : Providers host fun _ => True := fun _ _ _ _ => ⟨trivial, trivial⟩
  have halways : (finalize host ctx σ.config is).Always (fun _ => True) _ :=
    finalize_always hproviders σ.config is
  have hkept := (halways σ trivial).2
  rw [show ((finalize host ctx σ.config is).exec σ).1 = .ok js from h] at hkept
  exact hkept

theorem isEmpty_eq (h : Words host σ ctx is js) : js.isEmpty = is.isEmpty := by
  have hunworded := h.unworded
  rw [unwordedAll_eq_map, unwordedAll_eq_map] at hunworded
  rw [← List.isEmpty_map, hunworded, List.isEmpty_map]

/-- An issue has its words from an issue that is otherwise like it. -/
theorem exists_unworded (h : Words host σ ctx is js) {j : Issue Value} (hj : j ∈ js) :
    ∃ i ∈ is, j.unworded ctx.reportInput = i.unworded ctx.reportInput := by
  have hunworded := h.unworded
  rw [unwordedAll_eq_map, unwordedAll_eq_map] at hunworded
  have hmem : j.unworded ctx.reportInput ∈ js.map (Issue.unworded ctx.reportInput) :=
    List.mem_map_of_mem hj
  rw [hunworded] at hmem
  obtain ⟨i, hi, heq⟩ := List.mem_map.1 hmem
  exact ⟨i, hi, heq.symm⟩

theorem conclude {r : Result} (h : Words host σ ctx r.issues js) :
    (Assay.conclude host ctx r).answer σ = .ok (.of r.value js) := by
  have hof : Parsed.of r.value js = if r.valid then .accepted r.value else .rejected js := by
    unfold Parsed.of
    rw [h.isEmpty_eq]
    rfl
  rw [hof]
  by_cases hvalid : r.valid = true
  · rw [if_pos hvalid, conclude_valid hvalid]
    rfl
  · rw [if_neg hvalid, conclude_invalid hvalid h]

end Words

end Resolution

open Resolution

theorem Issue.path_unworded (b : Bool) (i : Issue Value) : (i.unworded b).path = i.path := by
  obtain ⟨path, message, input, source, detail⟩ := i
  rfl

/-- The issues of a steady schema get words. -/
theorem Schema.IsSteady.words {s : Schema Value} (hs : s.IsSteady host σ)
    (hctx : ctx.Answers host σ) {is : List (Issue Value)}
    (h : ∀ i ∈ is, i.Sourced (Value.SourceAnswers host σ)) :
    ∃ js, Words host σ ctx is js := by
  have hhere := hs.pure.settled.here
  obtain ⟨js, hjs⟩ := finalize_answers (hctx.messages hs.pure.wording_fixed hhere) is
    (allSourced_iff.2 h)
  exact ⟨js, hjs.answer hhere⟩

/-- The parse answers what is made of the output of the form and its issues with words. -/
theorem Schema.IsSteady.parse_of {s : Schema Value} {v w : Value} {is js : List (Issue Value)}
    (hs : s.IsSteady host σ) (hctx : ctx.Answers host σ) (h : s.ComesTo host σ ctx v ⟨w, is⟩)
    (hwords : Words host σ ctx is js) :
    (safeParse host (ctx.mayWait false) s v).answer σ = .ok (.of w js) := by
  obtain ⟨p, hp, hconclude⟩ := hs.parse hctx h
  rw [hp, ← hconclude, hwords.conclude]

/-! ## Policies -/

/-- The unknown entries that an object keeps. -/
def UnknownKeys.kept (unknown : Entries) : UnknownKeys → Entries
  | .passthrough => unknown
  | _ => []

/-- What an object reports about unknown entries. -/
def UnknownKeys.reported (s : Schema Value) (v : Value) (unknown : Entries) :
    UnknownKeys → List (Issue Value)
  | .strict =>
    if unknown.isEmpty then []
    else [⟨[], .null, v, .schema s, .unrecognizedKeys (.tuple (unknown.map (·.1)))⟩]
  | _ => []

variable {s : Schema Value} {policy : UnknownKeys} {v : Value} {placed : List Placed}

/-- In a full parse what the policy makes of unknown entries follows what there is of the shape. -/
theorem object_full (hfull : ctx.abortEarly = false) (unknown : Entries) :
    object s ctx policy false v unknown placed =
      ⟨.dict (outputs placed ++ policy.kept unknown),
        issuesUnder placed ++ policy.reported s v unknown⟩ := by
  unfold object
  rw [hfull]
  by_cases hunknown : unknown = []
  · subst hunknown
    cases policy <;> simp [UnknownKeys.kept, UnknownKeys.reported]
  · cases policy <;> simp [UnknownKeys.kept, UnknownKeys.reported, hunknown]

/-- With a catchall all keys have positions. -/
theorem object_caught (hfull : ctx.abortEarly = false) (unknown : Entries) :
    object s ctx policy true v unknown placed = ⟨.dict (outputs placed), issuesUnder placed⟩ := by
  unfold object
  simp [hfull]

/-! ## Positions of the shape and others -/

section

variable {recur : Schema Value → Value → Except Fault Result} {ps qs : List (Schema Value × Value)}
  {rs : List Result}

theorem items_full (hfull : ctx.abortEarly = false) :
    Meaning.items recur ctx ps = Meaning.each recur ps := by
  unfold Meaning.items
  rw [hfull]
  rfl

/-- The results of positions in two parts, with one for each position of the first part. -/
theorem each_append (h : Meaning.each recur (ps ++ qs) = .ok rs) :
    ∃ rs₁ rs₂, Meaning.each recur ps = .ok rs₁ ∧ Meaning.each recur qs = .ok rs₂ ∧
      rs = rs₁ ++ rs₂ ∧ rs₁.length = ps.length := by
  induction ps generalizing rs with
  | nil => exact ⟨[], rs, rfl, h, rfl, rfl⟩
  | cons p ps ih =>
    obtain ⟨r, hr, h⟩ := bind_eq_ok.1 h
    obtain ⟨rest, hrest, h⟩ := bind_eq_ok.1 h
    cases h
    obtain ⟨rs₁, rs₂, hfirst, hsecond, rfl, hlength⟩ := ih hrest
    refine ⟨r :: rs₁, rs₂, ?_, hsecond, rfl, by simp [hlength]⟩
    simp [Meaning.each, hr, hfirst, bind, Except.bind, pure, Except.pure]

end

/-- A catchall has positions after those of the shape. -/
theorem objectItems_some (shape : List (Value × Schema Value)) (c : Schema Value)
    (data : Entries) :
    objectItems shape (some c) data =
      objectItems shape none data ++ (unknownKeys shape data).map fun e => (e.1, c, e.2) :=
  rfl

theorem objectItems_keys (shape : List (Value × Schema Value)) (data : Entries) :
    (objectItems shape none data).map (·.1) = shape.map (·.1) := by
  simp [objectItems, Function.comp_def]

/-- The issues of positions are found below their keys. -/
theorem path_of_words {keys : List Value} {rs : List Result} {js : List (Issue Value)}
    (h : Words host σ ctx (issuesUnder (placedAt keys rs)) js) :
    ∀ j ∈ js, ∃ k ∈ keys, ∃ path, j.path = k :: path := by
  intro j hj
  obtain ⟨i, hi, hunworded⟩ := h.exists_unworded hj
  obtain ⟨p, hp, hi⟩ := List.mem_flatMap.1 hi
  obtain ⟨i', -, rfl⟩ := List.mem_map.1 hi
  refine ⟨p.1, (List.of_mem_zip hp).1, i'.path, ?_⟩
  rw [← Issue.path_unworded ctx.reportInput j, hunworded, Issue.path_unworded]
  rfl

theorem issuesUnder_append (placed placed' : List Placed) :
    issuesUnder (placed ++ placed') = issuesUnder placed ++ issuesUnder placed' :=
  List.flatMap_append

theorem outputs_append (placed placed' : List Placed) :
    outputs (placed ++ placed') = outputs placed ++ outputs placed' :=
  List.filterMap_append

/-- Entries that have a value are the outputs of their own values at their keys. -/
theorem outputs_unchanged {unknown : Entries} (hpresent : ∀ e ∈ unknown, e.2 ≠ .missing) :
    outputs (placedAt (unknown.map (·.1)) ((unknown.map (·.2)).map .ok)) = unknown := by
  rw [outputs_ok, List.zip_map', List.map_id']
  refine List.filter_eq_self.2 fun e he => ?_
  exact (List.mem_filter.1 (Entries.mem_present.2 ⟨he, hpresent e he⟩)).2

/-! ## Variants of an object -/

section

variable {shape : List (Value × Schema Value)} {data : Entries}

/-- In a full parse an object comes to what its shape does, and what its policy makes of unknown
entries. -/
theorem Schema.IsSteady.object_full (hs : s.IsSteady host σ) (hfull : ctx.abortEarly = false)
    (hform : s.form = .object shape policy none) (hdata : v.entries? = some data)
    (hreads : ∀ p ∈ objectItems shape none data, p.2.1.Reads host σ ctx p.2.2) {rs : List Result}
    (hrs : Meaning.items (Meaning.alone host σ ctx) ctx
      ((objectItems shape none data).map (·.2)) = .ok rs) :
    s.ComesTo host σ ctx v
      ⟨.dict (outputs (placedAt (shape.map (·.1)) rs) ++ policy.kept (unknownKeys shape data)),
        issuesUnder (placedAt (shape.map (·.1)) rs) ++
          policy.reported s v (unknownKeys shape data)⟩ := by
  obtain ⟨rs', hrs', -, h⟩ := hs.object hform hdata hreads
  obtain rfl : rs' = rs := Except.ok.inj (hrs'.symm.trans hrs)
  rw [objectItems_keys, Option.isSome_none, Assay.object_full hfull] at h
  exact h

/-- In a full parse an object with a catchall comes to what its shape does, and to what the catchall
makes of unknown entries. -/
theorem Schema.IsSteady.object_caught (hs : s.IsSteady host σ) (hfull : ctx.abortEarly = false)
    {c : Schema Value} (hform : s.form = .object shape policy (some c))
    (hdata : v.entries? = some data)
    (hreads : ∀ p ∈ objectItems shape (some c) data, p.2.1.Reads host σ ctx p.2.2) :
    ∃ rs rs', Meaning.items (Meaning.alone host σ ctx) ctx
        ((objectItems shape none data).map (·.2)) = .ok rs ∧
      Meaning.each (Meaning.alone host σ ctx)
        ((unknownKeys shape data).map fun e => (c, e.2)) = .ok rs' ∧
      s.ComesTo host σ ctx v
        ⟨.dict (outputs (placedAt (shape.map (·.1)) rs) ++
            outputs (placedAt ((unknownKeys shape data).map (·.1)) rs')),
          issuesUnder (placedAt (shape.map (·.1)) rs) ++
            issuesUnder (placedAt ((unknownKeys shape data).map (·.1)) rs')⟩ := by
  obtain ⟨all, hall, -, h⟩ := hs.object hform hdata hreads
  rw [items_full hfull, objectItems_some, List.map_append, List.map_map] at hall
  obtain ⟨rs, rs', hrs, hrs', rfl, hlength⟩ := each_append hall
  refine ⟨rs, rs', (items_full hfull).trans hrs, hrs', ?_⟩
  -- There is a result for each key of the shape, so the others are those of unknown keys.
  have hplaced : placedAt ((objectItems shape (some c) data).map (·.1)) (rs ++ rs') =
      placedAt (shape.map (·.1)) rs ++ placedAt ((unknownKeys shape data).map (·.1)) rs' := by
    rw [objectItems_some, List.map_append, objectItems_keys, List.map_map]
    apply List.zip_append
    simpa [objectItems] using hlength.symm
  rw [hplaced, Option.isSome_some, Assay.object_caught hfull, outputs_append,
    issuesUnder_append] at h
  exact h

end

/-- Objects of one shape: one that leaves out unknown keys, one that lets them pass, one that
reports them, and one that reads what they hold against a catchall. -/
structure Variants (host : Host) (σ : Session) (shape : List (Value × Schema Value))
    (c stripping passing refusing catching : Schema Value) : Prop where
  strip : stripping.form = .object shape .strip none
  passthrough : passing.form = .object shape .passthrough none
  strict : refusing.form = .object shape .strict none
  catchall : ∃ policy, catching.form = .object shape policy (some c)
  steady : ∀ s ∈ [stripping, passing, refusing, catching], s.IsSteady host σ

/-- The issue that a strict object has for its unknown keys, if there are any: one at the object
itself, which lists them. -/
def ListsUnknown (unknown : Entries) (is : List (Issue Value)) : Prop :=
  (unknown = [] → is = []) ∧
  (unknown ≠ [] → ∃ i, is = [i] ∧ i.path = [] ∧
    i.detail = .unrecognizedKeys (.tuple (unknown.map (·.1))))

theorem listsUnknown_of_words {unknown : Entries} {is : List (Issue Value)}
    (h : Words host σ ctx (UnknownKeys.strict.reported s v unknown) is) :
    ListsUnknown unknown is := by
  have hunworded := h.unworded
  unfold UnknownKeys.reported at hunworded
  refine ⟨fun hnone => ?_, fun hsome => ?_⟩
  · subst hnone
    exact List.isEmpty_iff.1 (h.isEmpty_eq.trans rfl)
  · rw [if_neg (by simpa using hsome), unwordedAll_eq_map] at hunworded
    obtain ⟨i, rfl, hi⟩ := List.map_eq_singleton_iff.1 hunworded
    obtain ⟨path, message, input, source, detail⟩ := i
    simp only [Issue.unworded, Issue.mk.injEq] at hi
    obtain ⟨hpath, -, -, -, hdetail⟩ := hi
    refine ⟨_, rfl, hpath, ?_⟩
    cases detail <;> first | exact hdetail | cases hdetail

/-- A catchall that accepts anything keeps the unknown entries and finds nothing. -/
theorem unknown_unchanged {c : Schema Value} (hform : c.form = .any)
    (hown : σ.kinds.evaluator? c.kind = .ok (.builtin .evaluateNode)) (hbare : c.allChecks = [])
    {unknown : Entries} (hpresent : ∀ e ∈ unknown, e.2 ≠ .missing) {rs : List Result}
    (hrs : Meaning.each (Meaning.alone host σ ctx) (unknown.map fun e => (c, e.2)) = .ok rs) :
    outputs (placedAt (unknown.map (·.1)) rs) = unknown ∧
      issuesUnder (placedAt (unknown.map (·.1)) rs) = [] := by
  have hresults : rs = (unknown.map (·.2)).map .ok := by
    clear hpresent
    induction unknown generalizing rs with
    | nil =>
      cases hrs
      rfl
    | cons e unknown ih =>
      obtain ⟨r, hr, hrs⟩ := bind_eq_ok.1 hrs
      obtain ⟨rest, hrest, hrs⟩ := bind_eq_ok.1 hrs
      cases hrs
      rw [alone_any hform hown hbare] at hr
      cases hr
      rw [ih hrest]
      rfl
  subst hresults
  exact ⟨outputs_unchanged hpresent, issuesUnder_ok _ _⟩

/-- The parses of the variants of an object, given the entries and the issues that the keys of the
shape come to. What a variant makes of unknown keys follows these: nothing, the unknown entries as
they are, one issue if there are any, or what the catchall reads and what it finds, which is the
unknown entries and nothing if it accepts anything. -/
structure Variants.AgreeOnShape (host : Host) (σ : Session) (ctx : Context)
    (shape : List (Value × Schema Value)) (v : Value) (unknown : Entries)
    (c stripping passing refusing catching : Schema Value) (es : Entries)
    (found : List (Issue Value)) : Prop where
  strip : (safeParse host (ctx.mayWait false) stripping v).answer σ = .ok (.of (.dict es) found)
  passthrough : (safeParse host (ctx.mayWait false) passing v).answer σ =
    .ok (.of (.dict (es ++ unknown)) found)
  strict : ∃ unrecognized, ListsUnknown unknown unrecognized ∧
    (safeParse host (ctx.mayWait false) refusing v).answer σ =
      .ok (.of (.dict es) (found ++ unrecognized))
  catchall : ∃ read more, (safeParse host (ctx.mayWait false) catching v).answer σ =
      .ok (.of (.dict (es ++ read)) (found ++ more)) ∧
    (∀ i ∈ more, ∃ k ∈ unknown.map (·.1), ∃ path, i.path = k :: path) ∧
    (c.form = .any → σ.kinds.evaluator? c.kind = .ok (.builtin .evaluateNode) →
      c.allChecks = [] → (∀ e ∈ unknown, e.2 ≠ .missing) → read = unknown ∧ more = [])
  named : ∀ i ∈ found, ∃ k ∈ shape.map (·.1), ∃ path, i.path = k :: path
  once : unknown.Distinct

namespace Variants

open Stock (hostThat)
open Samples

/-- An amount under one key. -/
def account : List (Value × Schema Value) := [(.str "a", amount)]

def accountWith (policy : UnknownKeys) (c : Option (Schema Value)) : Schema Value :=
  bare "object" (.object account policy c)

theorem accountWith_isSteady (policy : UnknownKeys) {c : Option (Schema Value)}
    (hc : c = none ∨ c = some anything) :
    (accountWith policy c).IsSteady (hostThat false) {} := by
  refine bare_isSteady rfl ⟨rfl, rfl⟩ fun t ht => ?_
  rcases hc with rfl | rfl
  · exact .inl (List.mem_singleton.1 ht)
  · rcases List.mem_pair.1 ht with rfl | rfl
    · exact .inl rfl
    · exact .inr (.inr rfl)

/-- No amount where there should be one, and one where nothing is said about it. -/
def holdings : Entries := [(.str "a", .null), (.str "b", .int 1)]

theorem reads_holdings : ∀ p ∈ objectItems account (some anything) holdings,
    p.2.1.Reads (hostThat false) {} {} p.2.2 := by
  intro p hp
  rcases List.mem_pair.1 hp with rfl | rfl
  · exact reads_amount _ (List.mem_cons_of_mem _ List.mem_cons_self)
  · exact reads_any rfl rfl rfl _

end Variants

end Assay
