import Assay.Proofs.LenientBuilds
import Assay.Proofs.Memory

/-!
# Parses after a lenient build

References to named definitions are resolved by later parses, so the leniency of a build shows in
the session that it leaves. Nothing that a parse comes to tells sessions apart that are the same but
for a lenient set of definitions and the strict set of the pruned ones (`Pace.pruning.walks`). A
lenient build and a strict build of the pruned definition therefore come to the same, in what they
refuse and in what is parsed afterwards (`lenient_build_is_pruned`).
-/

namespace Assay

open Run

variable {host : Host}

/-! ## Sessions that go together -/

namespace Pace.pruning

theorem copy_steady (old new : Schema Value) : (Construct.copy old new).Steady .pruning := by
  refine Run.Builds.freshRef.steady.next fun ref => .reading ?_
  rintro σ _ ⟨hsets⟩
  dsimp only
  split
  · refine .changing ?_ (.pure rfl)
    rintro σ _ ⟨hsets⟩
    exact .intro hsets
  · exact .pure rfl

theorem getterAnswer_steady (hhost : host.Steady .pruning) (getter : Value) :
    (getterAnswer host getter).Steady .pruning := by
  unfold getterAnswer
  split
  · exact .map (resolveDefinition_steady _ _)
  · exact .bind (Host.call_steady bookkeeping hhost _ _) fun _ => .pure

/-- A lazy schema stands for the same in both sessions. -/
theorem resolve_steady (hhost : host.Steady .pruning) (s : Schema Value) (getter : Value) :
    (s.resolve host getter).Steady .pruning := by
  refine .reading ?_
  rintro σ _ ⟨hsets⟩
  dsimp only
  split
  · exact .pure rfl
  · refine (getterAnswer_steady hhost getter).next fun v =>
      (Construct.schemaAt_builds _ v).steady.next fun inner => .changing ?_ (.pure rfl)
    rintro σ _ ⟨hsets⟩
    exact .intro hsets

/-- No evaluation tells the sessions apart. -/
theorem walks (hhost : host.Steady .pruning) : Pace.pruning.Walks host fun _ => True where
  bookkeeping := bookkeeping
  functions := hhost
  deep := trivial
  defaults := defaultValue_steady bookkeeping hhost fun s => copy_steady s s
  parts _ _ _ _ := trivial
  lazies s _ getter _ _ := (bind_pure (s.resolve host getter)) ▸
    (resolve_steady hhost s getter).next fun _ => .pure ⟨rfl, trivial⟩

/-- Calls one after the other, each of which may resolve references. -/
theorem runAll_steady (hhost : host.Steady .pruning) (cs : List ParseCall) :
    (runAll host cs).Steady .pruning := by
  induction cs with
  | nil => exact .pure
  | cons c cs ih =>
    refine ((walks hhost).call_steady trivial).attempt.bind fun e f hmatches => ?_
    rw [hmatches.eq]
    exact ih.next fun rest => Lockstep.pure rfl

end Pace.pruning

/-! ## Builds that come to the same -/

/-- Builds come to the same: both end with one fault, or both end with schemas of one description,
and in the sessions that they leave a parse of any value comes to the same, and so do parses one
after the other. -/
inductive BuiltAlike (host : Host) :
    Except Fault (Schema Value) × Session → Except Fault (Schema Value) × Session → Prop
  | refused {e : Fault} {σ τ : Session} : BuiltAlike host (.error e, σ) (.error e, τ)
  | built {s t : Schema Value} {σ τ : Session} :
      s.describe = t.describe →
      (∀ ctx v, (safeParse host ctx s v).answer σ = (safeParse host ctx t v).answer τ) →
      (∀ calls : List ParseCall,
        (runAll host (calls.map ({ · with schema := s }))).answer σ =
          (runAll host (calls.map ({ · with schema := t }))).answer τ) →
      BuiltAlike host (.ok s, σ) (.ok t, τ)

/-- The same answer, and sessions that go together. -/
theorem BuiltAlike.of_together (hhost : host.Steady .pruning)
    {built built' : Except Fault (Schema Value) × Session} (hanswer : built.1 = built'.1)
    (hafter : built.2.Prunes built'.2) : BuiltAlike host built built' := by
  obtain ⟨e | s, σ⟩ := built <;> obtain ⟨f | t, τ⟩ := built' <;> cases hanswer
  · exact .refused
  · have hwalks := Pace.pruning.walks hhost
    exact .built rfl (fun ctx v => (hwalks.safeParse_steady trivial v).answer_eq hafter)
      fun calls => (Pace.pruning.runAll_steady hhost _).answer_eq hafter

/-- A lenient build is a strict build of the definition without the checks that are refused, at
every place of it and of the named definitions, as long as supplied functions do not tell whether a
set of definitions is lenient. -/
theorem lenient_build_is_pruned (hhost : host.Steady .pruning) (definition : Value) (σ : Session) :
    BuiltAlike host ((buildSchema definition false).exec σ)
      ((buildSchema definition.prunedDefinition true).exec σ) := by
  obtain ⟨hafter, hmatches⟩ := buildSchema_lockstep definition σ σ (.refl σ)
  exact .of_together hhost hmatches.eq hafter

/-! ## An instance -/

/-- Stock functions see counts and variables only. -/
theorem Stock.host_prunes : Stock.host.Steady .pruning where
  run f call := by
    have hlift {α : Type} (e : Except Fault α) : (Run.lift e).Steady .pruning := by
      cases e with
      | error e => exact .throw fun _ => trivial
      | ok a => exact .pure
    cases call with
    | nothing =>
      refine Steady.bind ?_ fun v => .pure
      unfold Stock.produce
      split
      · refine .reading ?_
        rintro σ _ ⟨hsets⟩
        refine .changing ?_ (.pure rfl)
        rintro σ _ ⟨hsets⟩
        exact .intro hsets
      · refine .reading ?_
        rintro σ _ ⟨hsets⟩
        exact Steady.ofOption fun _ => trivial
      · exact .pure
    | reporting v source => exact hlift _
    | evaluating s v => exact .pure
    | _ => exact (hlift _).bind fun _ => .pure
  order _ _ _ := rfl

namespace Labels

/-- The check that a text has two characters at least. -/
def long : Value := .dict [(.str "check", .str "min_length"), (.str "minimum", .int 2)]

/-- A check of a tag that there is not. -/
def unheard : Value := .dict [(.str "check", .str "unheard_of")]

/-- The definition of lists of labels, with these checks of labels. -/
def labels (checks : List Value) : Value :=
  .dict [(.str "type", .str "array"),
    (.str "element", .dict [(.str "type", .str "ref"), (.str "name", .str "label")]),
    (.str "definitions", .dict [(.str "label",
      .dict [(.str "type", .str "string"), (.str "checks", .list checks)])])]

end Labels

open Labels in
/-- The check of the named definition that cannot be built is gone. -/
theorem lenient_build_is_pruned_labels :
    (labels [unheard, long]).prunedDefinition = labels [long] ∧
      BuiltAlike Stock.host ((buildSchema (labels [unheard, long]) false).exec {})
        ((buildSchema (labels [long]) true).exec {}) := by
  have hpruned : (labels [unheard, long]).prunedDefinition = labels [long] := by rfl
  exact ⟨hpruned, hpruned ▸ lenient_build_is_pruned Stock.host_prunes _ {}⟩

end Assay
