import Assay.Proofs.Abreast
import Assay.Proofs.Purity
import Mathlib.Data.List.Perm.Subperm
import Mathlib.Logic.Relation

/-!
# Guarded recursion

Lazy schemas make schemas refer to each other in cycles. When every cycle leads through a position
of a structure, evaluating a value ends: on the way around the cycle the value becomes less deep
(`SchemaGraph`). How many levels suffice is bounded by the depth of the value and the number of
schemas in the graph, and levels beyond do not change what an evaluation does
(`guarded_evaluation`). The same goes for the question whether an absent value is accepted, which
needs no more levels than there are schemas (`guarded_absence`).
-/

namespace Assay

open Run

/-! ## Graphs of schemas -/

/-- The first schema hands its value on to the second as it is. -/
inductive Schema.HandsOn (host : Host) (I : Session → Prop) (s : Schema Value) :
    Schema Value → Prop
  | onward {t : Schema Value} : t ∈ s.form.onward → HandsOn host I s t
  | lazily {t : Schema Value} {getter name : Value} : s.form = .lazy getter name →
      (s.resolve host getter).Gives I (.ok t) → HandsOn host I s t

/-- A finite graph of schemas with total functions, whose lazy schemas stand for the same schemas
at each use. Every cycle leads through a position of a structure: handing a value on as it is never
leads back. -/
structure SchemaGraph (host : Host) (I : Session → Prop) (nodes : List (Schema Value)) : Prop where
  bookkeeping : Bookkeeping I
  functions : host.Ample I
  defaults : ∀ s ∈ nodes, ∀ d, s.form.default? = some d → (defaultValue host d).Ample I
  direct : ∀ s ∈ nodes, s.form.isDirect = true
  parts : ∀ s ∈ nodes, ∀ t ∈ s.form.parts, t ∈ nodes
  lazies : ∀ s ∈ nodes, ∀ getter name, s.form = .lazy getter name →
    ∃ e, (s.resolve host getter).Gives I e ∧ Ample e ∧ ∀ t, e = .ok t → t ∈ nodes
  guarded : ∀ s ∈ nodes, ¬ Relation.TransGen (Schema.HandsOn host I) s s

variable {host : Host} {I : Session → Prop} {nodes : List (Schema Value)}

/-- The schemas that a value was handed on by, without a position of a structure between, to reach
a schema of the graph. -/
structure Trail (host : Host) (I : Session → Prop) (nodes trail : List (Schema Value))
    (s : Schema Value) : Prop where
  here : s ∈ nodes
  nodup : trail.Nodup
  subset : ∀ u ∈ trail, u ∈ nodes
  leads : ∀ u ∈ trail, Relation.TransGen (Schema.HandsOn host I) u s

namespace SchemaGraph

variable (g : SchemaGraph host I nodes) {trail : List (Schema Value)} {s t : Schema Value}
include g

omit g in
theorem start (hs : s ∈ nodes) : Trail host I nodes [] s := ⟨hs, .nil, nofun, nofun⟩

/-- No schema comes twice on a trail. -/
theorem nodup_cons (h : Trail host I nodes trail s) : (s :: trail).Nodup :=
  List.nodup_cons.2 ⟨fun hs => g.guarded s h.here (h.leads s hs), h.nodup⟩

theorem extend (h : Trail host I nodes trail s) (ht : t ∈ nodes) (hst : s.HandsOn host I t) :
    Trail host I nodes (s :: trail) t where
  here := ht
  nodup := g.nodup_cons h
  subset := List.forall_mem_cons.2 ⟨h.here, h.subset⟩
  leads := List.forall_mem_cons.2 ⟨.single hst, fun u hu => (h.leads u hu).tail hst⟩

/-- A trail is shorter than the graph is large. -/
theorem length_lt (h : Trail host I nodes trail s) : trail.length < nodes.length :=
  (List.subperm_of_subset (g.nodup_cons h)
    (List.forall_mem_cons.2 ⟨h.here, h.subset⟩)).length_le

theorem onward_mem (hs : s ∈ nodes) (ht : t ∈ s.form.onward) : t ∈ nodes :=
  g.parts s hs t (Form.onward_subset_parts _ ht)

/-- What is started with a value that is not less deep is handed on. -/
theorem onward_of_passes {v w : Value} (hs : s ∈ nodes) (h : s.form.Passes v t w) :
    t ∈ nodes ∧ (w.depth < v.depth ∨ w = v ∧ s.HandsOn host I t) := by
  cases h with
  | inward ht hw => exact ⟨g.parts s hs t ht, .inl hw⟩
  | onward ht => exact ⟨g.onward_mem hs ht, .inr ⟨rfl, .onward ht⟩⟩
  | anew hdirect => exact absurd (g.direct s hs) (by rw [hdirect]; decide)

/-- What stands behind a lazy schema is evaluated in lockstep when the schema that it stands for
is. -/
theorem lazily_lockstep {β : Type} {R : β → β → Prop} {f f' : Schema Value → Run β} (hs : s ∈ nodes)
    {getter name : Value} (hform : s.form = .lazy getter name)
    (h : ∀ t ∈ nodes, s.HandsOn host I t → (f t).Lockstep (.alone I) R (f' t)) :
    (s.resolve host getter >>= f).Lockstep (.alone I) R (s.resolve host getter >>= f') := by
  obtain ⟨e, hgives, he, hnodes⟩ := g.lazies s hs getter name hform
  exact .afterGives hgives he fun t ht =>
    h t (hnodes t ht) (.lazily hform (by rwa [ht] at hgives))

/-- Whether a schema accepts an absent value is asked along trails only. -/
theorem acceptsAbsent_lockstep {fuel fuel' : Nat} (h : Trail host I nodes trail s)
    (hfuel : nodes.length ≤ fuel + trail.length) (hfuel' : nodes.length ≤ fuel' + trail.length) :
    (s.acceptsAbsent host fuel).Lockstep (.alone I) Eq (s.acceptsAbsent host fuel') := by
  induction fuel generalizing fuel' trail s with
  | zero => exact absurd (g.length_lt h) (by omega)
  | succ fuel ih =>
    obtain _ | fuel' := fuel'
    · exact absurd (g.length_lt h) (by omega)
    have hstep (t : Schema Value) (ht : t ∈ nodes) (hst : s.HandsOn host I t) :
        (t.acceptsAbsent host fuel).Lockstep (.alone I) Eq (t.acceptsAbsent host fuel') :=
      ih (g.extend h ht hst) (by rw [List.length_cons]; omega) (by rw [List.length_cons]; omega)
    refine Assay.acceptsAbsent_lockstep (v := .null) (fun t ht => ?_) fun getter name hform =>
      g.lazily_lockstep h.here hform hstep
    obtain ⟨htnodes, hless | ⟨-, hst⟩⟩ := g.onward_of_passes h.here ht
    · exact absurd hless (Nat.lt_irrefl _)
    · exact hstep t htnodes hst

/-! ## Whole evaluations -/

/-- The levels that suffice for a value in a graph: as many as the graph has schemas, once for each
level of the value and once more. -/
def levels (nodes : List (Schema Value)) (v : Value) : Nat :=
  (v.depth + 1) * nodes.length

/-- The measure of an evaluation goes down lexicographically: either the value becomes less deep, or
it is handed on along the trail. -/
theorem evaluate_abreast {ctx : Context} {v : Value} {fuel fuel' : Nat}
    (h : Trail host I nodes trail s) (hfuel : levels nodes v ≤ fuel + trail.length)
    (hfuel' : levels nodes v ≤ fuel' + trail.length) :
    (evaluate host ctx fuel s v).Abreast (.alone I) (evaluate host ctx fuel' s v) := by
  have hlt := g.length_lt h
  have hlevels : v.depth * nodes.length + nodes.length = levels nodes v := (Nat.succ_mul ..).symm
  induction fuel generalizing fuel' trail s v with
  | zero => omega
  | succ fuel ih =>
    obtain _ | fuel' := fuel'
    · omega
    have hon (t : Schema Value) (ht : t ∈ nodes) (hst : s.HandsOn host I t) :
        (evaluate host ctx fuel t v).Abreast (.alone I) (evaluate host ctx fuel' t v) := by
      have hextend := g.extend h ht hst
      exact ih hextend (by rw [List.length_cons]; omega) (by rw [List.length_cons]; omega)
        (g.length_lt hextend) hlevels
    have hrec (t : Schema Value) (w : Value) (ht : s.form.Passes v t w) :
        (evaluate host ctx fuel t w).Abreast (.alone I) (evaluate host ctx fuel' t w) := by
      obtain ⟨htnodes, hw | ⟨rfl, hst⟩⟩ := g.onward_of_passes h.here ht
      · have hstart : Trail host I nodes [] t := start htnodes
        have hless : levels nodes w ≤ v.depth * nodes.length := Nat.mul_le_mul_right _ hw
        exact ih hstart (by rw [List.length_nil]; omega) (by rw [List.length_nil]; omega)
          (g.length_lt hstart) (Nat.succ_mul ..).symm
      · exact hon t htnodes hst
    have habsent (hpos : 0 < v.depth) (t : Schema Value) (ht : t ∈ s.form.parts) :
        (t.acceptsAbsent host fuel).Lockstep (.alone I) Eq (t.acceptsAbsent host fuel') := by
      have hwhole : nodes.length ≤ v.depth * nodes.length := Nat.le_mul_of_pos_left _ hpos
      exact g.acceptsAbsent_lockstep (start (g.parts s h.here t ht))
        (by rw [List.length_nil]; omega) (by rw [List.length_nil]; omega)
    have hp := Pace.alone_bookkeeping g.bookkeeping
    exact Assay.evaluate_abreast hp g.functions.steady (evaluateForm_abreast hp g.functions.steady
      (fun d hd => .of_ample (g.defaults s h.here d hd)) hrec
      (fun getter name hform => g.lazily_lockstep h.here hform hon) habsent)

end SchemaGraph

/-- In a graph whose cycles lead through positions of structures evaluations end: there are levels
enough for every schema, value and parse, which depend on the depth of the value and the size of the
graph only, and with more an evaluation does the same. For the question whether an absent value is
accepted there are enough with as many levels as there are schemas. -/
theorem guarded_recursion_ends (g : SchemaGraph host I nodes) {s : Schema Value} (hs : s ∈ nodes)
    {τ : Session} (hτ : I τ) :
    (∀ (ctx : Context) (v : Value) (fuel : Nat), (v.depth + 1) * nodes.length ≤ fuel →
      (evaluate host ctx fuel s v >>= Outcome.settle).answer τ ≠ .error .tooDeep ∧
        (evaluate host ctx fuel s v >>= Outcome.settle).exec τ =
          (evaluate host ctx ((v.depth + 1) * nodes.length) s v >>= Outcome.settle).exec τ) ∧
    ∀ fuel, nodes.length ≤ fuel →
      (s.acceptsAbsent host fuel).answer τ ≠ .error .tooDeep ∧
        (s.acceptsAbsent host fuel).exec τ = (s.acceptsAbsent host nodes.length).exec τ := by
  have hstart : Trail host I nodes [] s := SchemaGraph.start hs
  refine ⟨fun ctx v fuel hfuel => ?_, fun fuel hfuel => ?_⟩
  · have habreast : (evaluate host ctx fuel s v).Abreast (.alone I)
        (evaluate host ctx ((v.depth + 1) * nodes.length) s v) :=
      g.evaluate_abreast hstart hfuel (Nat.le_refl _)
    have hsettled := habreast.bind fun _ _ ho => ho.settle
    exact ⟨(hsettled.ample τ hτ).2, hsettled.exec_eq hτ⟩
  · have habsent := g.acceptsAbsent_lockstep hstart hfuel (Nat.le_refl _)
    exact ⟨(habsent.ample τ hτ).2, habsent.exec_eq hτ⟩

/-! ## Graphs of pure schemas -/

/-- What a schema with pure functions reaches makes up a graph, if it is finite. -/
theorem Schema.IsPure.schemaGraph {σ : Session} {s : Schema Value} (h : s.IsPure host σ)
    (hhost : ∀ f call τ, Ample ((host.run f call).answer τ))
    (hnodes : ∀ t, t ∈ nodes ↔ s.Reaches host σ t)
    (hdirect : ∀ t ∈ nodes, t.form.isDirect = true)
    (hlazies : ∀ t ∈ nodes, ∀ getter name, t.form = .lazy getter name →
      Ample ((t.resolve host getter).answer σ))
    (hguarded : ∀ t ∈ nodes, ¬ Relation.TransGen (Schema.HandsOn host (σ.Like host s)) t t) :
    SchemaGraph host (σ.Like host s) nodes where
  bookkeeping := h.bookkeeping
  functions f call τ hτ := ⟨(h.keeps f call τ hτ).1, hhost f call τ⟩
  defaults t ht d hd := by
    have hfunctions : host.Ample (σ.Like host s) :=
      fun f call τ hτ => ⟨(h.keeps f call τ hτ).1, hhost f call τ⟩
    have hcopy := h.defaults t ((hnodes t).1 ht) d hd
    unfold defaultValue
    split
    · have hp := Pace.alone_bookkeeping h.bookkeeping
      exact (Host.call_steady hp hfunctions.steady _ _).ample.bind fun _ => .pure
    · cases d <;> first
        | exact Run.Ample.pure
        | exact Run.Ample.throw nofun
        | exact nomatch hcopy
  direct := hdirect
  parts t ht u hu := (hnodes u).2 (.part ((hnodes t).1 ht) hu)
  lazies t ht getter name hform :=
    ⟨_, h.resolve_gives ((hnodes t).1 ht) hform, hlazies t ht getter name hform,
      fun u hu => (hnodes u).2 (.lazily ((hnodes t).1 ht) hform hu)⟩
  guarded := hguarded

/-! ## An instance -/

namespace Chain

/-- A link of a chain may have a next one. -/
def link : Value :=
  .dict [(.str "type", .str "object"), (.str "shape", .dict [(.str "next",
    .dict [(.str "type", .str "optional"), (.str "inner",
      .dict [(.str "type", .str "ref"), (.str "name", .str "link")])])])]

/-- A session that knows the definition. -/
def session : Session := { definitionSets := [(1, { definitions := [(.str "link", link)] })] }

/-- A reference to the definition. -/
def ref (id : Nat) : Schema Value :=
  ⟨id, .str "lazy", .lazy (.builtin (.definition 1 (.str "link"))) (.str "link"), [], [], .null⟩

def next : Schema Value := ⟨13, .str "optional", .optional (ref 12), [], [], .null⟩

def built : Schema Value :=
  ⟨14, .str "object", .object [(.str "next", next)] .strip none, [], [], .null⟩

/-- A host without functions of its own. -/
def silent : Host where
  arity _ := 0
  isAsync _ _ := false
  isProvider _ := false
  run _ _ := pure ⟨.null, []⟩

def links : List (Schema Value) := [ref 0, built, next, ref 12]

theorem mem_cases {t : Schema Value} (h : t ∈ links) :
    t = ref 0 ∨ t = built ∨ t = next ∨ t = ref 12 := by
  simpa only [links, List.mem_cons, List.not_mem_nil, or_false] using h

theorem mem_of_cases {t : Schema Value} (h : t = ref 0 ∨ t = built ∨ t = next ∨ t = ref 12) :
    t ∈ links := by
  simpa only [links, List.mem_cons, List.not_mem_nil, or_false] using h

theorem resolve_ref (id : Nat) (getter : Value)
    (hgetter : getter = .builtin (.definition 1 (.str "link"))) :
    ((ref id).resolve silent getter).answer session = .ok built := by
  rw [hgetter]
  rfl

theorem mem_links (t : Schema Value) : t ∈ links ↔ (ref 0).Reaches silent session t := by
  constructor
  · intro ht
    have hbuilt : (ref 0).Reaches silent session built := .lazily .self rfl (resolve_ref 0 _ rfl)
    have hnext : (ref 0).Reaches silent session next := .part hbuilt (List.mem_singleton_self _)
    rcases mem_cases ht with rfl | rfl | rfl | rfl
    · exact .self
    · exact hbuilt
    · exact hnext
    · exact .part hnext (List.mem_singleton_self _)
  · intro ht
    induction ht with
    | self => exact List.mem_cons_self
    | part _ hu ih =>
      rcases mem_cases ih with rfl | rfl | rfl | rfl
      · cases hu
      · exact mem_of_cases (.inr (.inr (.inl (List.mem_singleton.1 hu))))
      · exact mem_of_cases (.inr (.inr (.inr (List.mem_singleton.1 hu))))
      · cases hu
    | lazily _ hform hu ih =>
      rcases mem_cases ih with rfl | rfl | rfl | rfl
      · rw [resolve_ref 0 _ (Form.lazy.inj hform).1.symm] at hu
        exact mem_of_cases (.inr (.inl (Except.ok.inj hu).symm))
      · cases hform
      · cases hform
      · rw [resolve_ref 12 _ (Form.lazy.inj hform).1.symm] at hu
        exact mem_of_cases (.inr (.inl (Except.ok.inj hu).symm))

theorem isPure : (ref 0).IsPure silent session where
  functions t ht fn hfn := by
    have hmem := (mem_links t).2 ht
    rcases mem_cases hmem with rfl | rfl | rfl | rfl
    · rw [List.mem_singleton.1 hfn]; trivial
    · cases hfn
    · cases hfn
    · rw [List.mem_singleton.1 hfn]; trivial
  evaluators t ht fn hfn := by
    have hmem := (mem_links t).2 ht
    rcases mem_cases hmem with rfl | rfl | rfl | rfl <;> cases hfn <;> trivial
  providers _ _ _ _ := rfl
  defaults t ht d hd := by
    have hmem := (mem_links t).2 ht
    rcases mem_cases hmem with rfl | rfl | rfl | rfl <;> cases hd
  lazies t u getter name getter' name' ht hu hform hform' _ := by
    have hgetter {t : Schema Value} {getter name : Value} (ht : (ref 0).Reaches silent session t)
        (hform : t.form = .lazy getter name) : getter = .builtin (.definition 1 (.str "link")) := by
      have hmem := (mem_links t).2 ht
      rcases mem_cases hmem with rfl | rfl | rfl | rfl <;> cases hform <;> rfl
    rw [hgetter ht hform, hgetter hu hform']
  settings _ _ _ := ⟨rfl, rfl, rfl⟩
  prompt _ _ _ := rfl

/-- How far a link hands its value on: a reference to the definition, which evaluates only what is
nested in the value. -/
def rank (t : Schema Value) : Nat :=
  match t.form with
  | .optional _ => 2
  | .lazy .. => 1
  | _ => 0

theorem rank_lt {t u : Schema Value} (ht : t ∈ links)
    (h : t.HandsOn silent (session.Like silent (ref 0)) u) : rank u < rank t ∧ u ∈ links := by
  cases h with
  | onward hu =>
    rcases mem_cases ht with rfl | rfl | rfl | rfl
    · cases hu
    · cases hu
    · rw [List.mem_singleton.1 hu]
      exact ⟨by decide, by simp [links]⟩
    · cases hu
  | lazily hform hgives =>
    have hanswer := hgives.answer (Session.Like.refl silent session (ref 0))
    rcases mem_cases ht with rfl | rfl | rfl | rfl
    · rw [resolve_ref 0 _ (Form.lazy.inj hform).1.symm] at hanswer
      rw [← Except.ok.inj hanswer]
      exact ⟨by decide, by simp [links]⟩
    · cases hform
    · cases hform
    · rw [resolve_ref 12 _ (Form.lazy.inj hform).1.symm] at hanswer
      rw [← Except.ok.inj hanswer]
      exact ⟨by decide, by simp [links]⟩

theorem rank_lt_of_transGen {t u : Schema Value} (ht : t ∈ links)
    (h : Relation.TransGen (Schema.HandsOn silent (session.Like silent (ref 0))) t u) :
    rank u < rank t ∧ u ∈ links := by
  induction h with
  | single h => exact rank_lt ht h
  | tail _ h ih =>
    obtain ⟨hlt, hu⟩ := rank_lt ih.2 h
    exact ⟨Nat.lt_trans hlt ih.1, hu⟩

theorem schemaGraph : SchemaGraph silent (session.Like silent (ref 0)) links := by
  refine isPure.schemaGraph (fun _ _ _ => .ok) mem_links ?_ ?_ fun t ht h =>
    Nat.lt_irrefl _ (rank_lt_of_transGen ht h).1
  · intro t ht
    rcases mem_cases ht with rfl | rfl | rfl | rfl <;> rfl
  · intro t ht getter name hform
    rcases mem_cases ht with rfl | rfl | rfl | rfl
    · rw [resolve_ref 0 _ (Form.lazy.inj hform).1.symm]
      exact .ok
    · cases hform
    · cases hform
    · rw [resolve_ref 12 _ (Form.lazy.inj hform).1.symm]
      exact .ok

end Chain

open Chain in
/-- A chain of two links needs no more than twelve levels: four schemas, and a depth of two. -/
theorem guarded_recursion_ends_chain :
    SchemaGraph silent (session.Like silent (ref 0)) links ∧
      (evaluate silent {} 12 (ref 0) (.dict [(.str "next", .dict [])]) >>=
        Outcome.settle).answer session = .ok ⟨.dict [(.str "next", .dict [])], []⟩ ∧
      (evaluate silent {} 2000 (ref 0) (.dict [(.str "next", .dict [])]) >>=
        Outcome.settle).exec session =
        (evaluate silent {} 12 (ref 0) (.dict [(.str "next", .dict [])]) >>=
          Outcome.settle).exec session :=
  ⟨schemaGraph, rfl, ((guarded_recursion_ends schemaGraph (s := ref 0) (by simp [links])
    (Session.Like.refl silent session (ref 0))).1 {} _ 2000 (by decide)).2⟩

end Assay
