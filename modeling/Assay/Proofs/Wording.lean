import Assay.Evaluate.Parse
import Assay.Proofs.Triple

/-!
# What wording leaves alone

Finalizing issues gives them messages and drops their sources. Everything else about an issue,
at every depth of nesting, is its `Issue.unworded` part, and finalizing keeps that part
(`Resolution.finalize_always`), in whatever way the message providers answer.
-/

namespace Assay

/-! ## The part without words -/

mutual

/-- An issue without its message and its source, and without its input unless `keepInput`. -/
def Issue.unworded (keepInput : Bool) : Issue Value → Issue Value
  | ⟨path, _, input, _, detail⟩ =>
    ⟨path, .null, if keepInput then input else .missing, .null, unwordedDetail keepInput detail⟩
termination_by structural x => x

/-- A detail with its issues unworded. -/
def unwordedDetail (keepInput : Bool) :
    Detail Value (Issue Value) → Detail Value (Issue Value)
  | .invalidUnion groups note discriminator =>
    .invalidUnion (unwordedGroups keepInput groups) note discriminator
  | .invalidKey origin issues => .invalidKey origin (unwordedAll keepInput issues)
  | .invalidElement origin key issues => .invalidElement origin key (unwordedAll keepInput issues)
  | detail => detail
termination_by structural x => x

/-- A list of issues unworded. -/
def unwordedAll (keepInput : Bool) : List (Issue Value) → List (Issue Value)
  | [] => []
  | i :: is => Issue.unworded keepInput i :: unwordedAll keepInput is
termination_by structural x => x

/-- Groups of issues unworded. -/
def unwordedGroups (keepInput : Bool) : List (List (Issue Value)) → List (List (Issue Value))
  | [] => []
  | g :: gs => unwordedAll keepInput g :: unwordedGroups keepInput gs
termination_by structural x => x

end

theorem unwordedAll_eq_map (keepInput : Bool) (is : List (Issue Value)) :
    unwordedAll keepInput is = is.map (Issue.unworded keepInput) := by
  induction is with
  | nil => rfl
  | cons i is ih => rw [unwordedAll, ih, List.map_cons]

namespace Resolution

variable {host : Host} {ctx : Context} {I : Session → Prop}

/-! ## Messages -/

/-- Providers may answer what they will, as long as asking them keeps the invariant. -/
def Providers (host : Host) (I : Session → Prop) : Prop :=
  ∀ provider i, (host.call provider (.wording i)).Always I fun _ => True

theorem consult_always (h : Providers host I) (provider : Value) (i : Issue Value) :
    (consult host provider i).Always I fun _ => True := by
  cases provider <;> first
    | exact .pure trivial
    | exact (h _ i).bind (fun _ _ => .pure trivial) fun _ _ => trivial

theorem firstOffer_always (h : Providers host I) (i : Issue Value) (ps : List Value) :
    (firstOffer host i ps).Always I fun _ => True := by
  induction ps with
  | nil => exact .pure trivial
  | cons p ps ih =>
    refine (consult_always h p i).bind (fun o _ => ?_) fun _ _ => trivial
    cases o with
    | none => exact ih
    | some s => exact .pure trivial

/-! ## Issues -/

/-- What finalizing answers has the same unworded part as what it was given. -/
def Kept {α : Type} (unworded : α → α) (a : α) : Except Fault α → Prop
  | .ok b => unworded b = unworded a
  | .error _ => True

mutual

theorem finalizeOne_always (h : Providers host I) (config : Config) : (i : Issue Value) →
    (finalizeOne host ctx config i).Always I (Kept (Issue.unworded ctx.reportInput) i)
  | ⟨path, text, input, source, detail⟩ => by
    have hdetail := finalizeDetail_always h config detail
    have hrest : ∀ w, (do
        let detail ← finalizeDetail host ctx config detail
        return (⟨path, w, if ctx.reportInput then input else .missing, .null, detail⟩ :
          Issue Value)).Always I
        (Kept (Issue.unworded ctx.reportInput) ⟨path, text, input, source, detail⟩) := by
      intro w
      refine hdetail.bind (fun d hd => .pure ?_) fun _ _ => trivial
      simp only [Kept, Issue.unworded, Issue.mk.injEq, true_and]
      exact ⟨by split <;> rfl, hd⟩
    unfold finalizeOne
    split
    · refine Run.Always.bind (Q := fun _ => True) ?_ (fun w _ => hrest w) fun _ _ => trivial
      exact (firstOffer_always h _ _).map (fun _ _ => trivial) fun _ _ => trivial
    · exact hrest _
termination_by structural x => x

theorem finalizeDetail_always (h : Providers host I) (config : Config) :
    (d : Detail Value (Issue Value)) →
    (finalizeDetail host ctx config d).Always I (Kept (unwordedDetail ctx.reportInput) d)
  | .invalidUnion groups note discriminator => by
    refine (finalizeGroups_always h config groups).bind (fun gs hgs => .pure ?_) fun _ _ => trivial
    simpa [Kept, unwordedDetail] using hgs
  | .invalidKey origin issues => by
    refine (finalize_always h config issues).bind (fun is his => .pure ?_) fun _ _ => trivial
    simpa [Kept, unwordedDetail] using his
  | .invalidElement origin key issues => by
    refine (finalize_always h config issues).bind (fun is his => .pure ?_) fun _ _ => trivial
    simpa [Kept, unwordedDetail] using his
  | .unspecified => .pure rfl
  | .invalidType .. => .pure rfl
  | .tooBig .. => .pure rfl
  | .tooSmall .. => .pure rfl
  | .invalidFormat .. => .pure rfl
  | .notMultipleOf .. => .pure rfl
  | .unrecognizedKeys .. => .pure rfl
  | .invalidValue .. => .pure rfl
  | .custom .. => .pure rfl
termination_by structural x => x

/-- Finalizing a list of issues keeps its unworded part. -/
theorem finalize_always (h : Providers host I) (config : Config) : (is : List (Issue Value)) →
    (finalize host ctx config is).Always I (Kept (unwordedAll ctx.reportInput) is)
  | [] => .pure rfl
  | i :: is => by
    refine (finalizeOne_always h config i).bind (fun j hj => ?_) fun _ _ => trivial
    refine (finalize_always h config is).bind (fun js hjs => .pure ?_) fun _ _ => trivial
    simp only [Kept, unwordedAll] at *
    rw [hj, hjs]
termination_by structural x => x

theorem finalizeGroups_always (h : Providers host I) (config : Config) :
    (gs : List (List (Issue Value))) →
    (finalizeGroups host ctx config gs).Always I (Kept (unwordedGroups ctx.reportInput) gs)
  | [] => .pure rfl
  | g :: gs => by
    refine (finalize_always h config g).bind (fun k hk => ?_) fun _ _ => trivial
    refine (finalizeGroups_always h config gs).bind (fun ks hks => .pure ?_) fun _ _ => trivial
    simp only [Kept, unwordedGroups] at *
    rw [hk, hks]
termination_by structural x => x

end

theorem finalizeActive_always (h : Providers host I) (is : List (Issue Value)) :
    (finalizeActive host ctx is).Always I (Kept (unwordedAll ctx.reportInput) is) :=
  .reading fun σ _ => finalize_always h σ.config is

/-! ## Words that do not vary -/

/-- Providers answer each issue alike in all sessions of the invariant. -/
def FixedProviders (host : Host) (I : Session → Prop) : Prop :=
  ∀ provider i, (host.call provider (.wording i)).Fixed I

theorem consult_fixed (h : FixedProviders host I) (provider : Value) (i : Issue Value) :
    (consult host provider i).Fixed I := by
  cases provider <;> first
    | exact .pure
    | exact (h _ i).bind fun _ => .pure

theorem firstOffer_fixed (h : FixedProviders host I) (i : Issue Value) (ps : List Value) :
    (firstOffer host i ps).Fixed I := by
  induction ps with
  | nil => exact .pure
  | cons p ps ih =>
    refine (consult_fixed h p i).bind fun o => ?_
    cases o with
    | none => exact ih
    | some s => exact .pure

mutual

theorem finalizeOne_fixed (h : FixedProviders host I) (config : Config) : (i : Issue Value) →
    (finalizeOne host ctx config i).Fixed I
  | ⟨path, text, input, source, detail⟩ => by
    have hdetail := finalizeDetail_fixed h config detail
    unfold finalizeOne
    split
    · exact (firstOffer_fixed h _ _).map.bind fun w => hdetail.bind fun d => .pure
    · exact Run.Fixed.bind .pure fun w => hdetail.bind fun d => .pure
termination_by structural x => x

theorem finalizeDetail_fixed (h : FixedProviders host I) (config : Config) :
    (d : Detail Value (Issue Value)) → (finalizeDetail host ctx config d).Fixed I
  | .invalidUnion groups .. => (finalizeGroups_fixed h config groups).bind fun _ => .pure
  | .invalidKey _ issues => (finalize_fixed h config issues).bind fun _ => .pure
  | .invalidElement _ _ issues => (finalize_fixed h config issues).bind fun _ => .pure
  | .unspecified => .pure
  | .invalidType .. => .pure
  | .tooBig .. => .pure
  | .tooSmall .. => .pure
  | .invalidFormat .. => .pure
  | .notMultipleOf .. => .pure
  | .unrecognizedKeys .. => .pure
  | .invalidValue .. => .pure
  | .custom .. => .pure
termination_by structural x => x

/-- A list of issues gets the same words in all sessions of the invariant. -/
theorem finalize_fixed (h : FixedProviders host I) (config : Config) :
    (is : List (Issue Value)) → (finalize host ctx config is).Fixed I
  | [] => .pure
  | i :: is => (finalizeOne_fixed h config i).bind fun _ =>
      (finalize_fixed h config is).bind fun _ => .pure
termination_by structural x => x

theorem finalizeGroups_fixed (h : FixedProviders host I) (config : Config) :
    (gs : List (List (Issue Value))) → (finalizeGroups host ctx config gs).Fixed I
  | [] => .pure
  | g :: gs => (finalize_fixed h config g).bind fun _ =>
      (finalizeGroups_fixed h config gs).bind fun _ => .pure
termination_by structural x => x

end

theorem finalizeActive_fixed (h : FixedProviders host I) {config : Config}
    (hconfig : ∀ σ, I σ → σ.config = config) (is : List (Issue Value)) :
    (finalizeActive host ctx is).Fixed I := by
  obtain ⟨e, he⟩ : (finalize host ctx config is).Fixed I := finalize_fixed h config is
  refine ⟨e, .reading fun σ hσ => ?_⟩
  rw [hconfig σ hσ]
  exact he

end Resolution

/-- A parse that is concluded accepts a valid result, and rejects another with issues that have
its unworded part. -/
theorem conclude_always {host : Host} {ctx : Context} {I : Session → Prop}
    (h : Resolution.Providers host I) (r : Result) :
    (conclude host ctx r).Always I fun
      | .ok (.accepted w) => r.valid = true ∧ w = r.value
      | .ok (.rejected issues) => r.valid = false ∧
          unwordedAll ctx.reportInput issues = unwordedAll ctx.reportInput r.issues
      | .error _ => True := by
  unfold conclude
  by_cases hr : r.valid
  · rw [if_pos hr]
    exact .pure ⟨hr, rfl⟩
  · rw [if_neg hr]
    refine (Resolution.finalizeActive_always h r.issues).bind (fun is his => .pure ?_)
      fun _ _ => trivial
    exact ⟨Bool.eq_false_iff.2 hr, his⟩

theorem conclude_answer {host : Host} {ctx : Context} {σ : Session} {r : Result} {p : Parsed}
    (hp : (conclude host ctx r).answer σ = .ok p) :
    match p with
    | .accepted w => r.valid = true ∧ w = r.value
    | .rejected issues => r.valid = false ∧
        unwordedAll ctx.reportInput issues = unwordedAll ctx.reportInput r.issues := by
  have hproviders : Resolution.Providers host fun _ => True := fun _ _ _ _ => ⟨trivial, trivial⟩
  have halways : (conclude host ctx r).Always (fun _ => True) _ := conclude_always hproviders r
  have h := (halways σ trivial).2
  rw [show ((conclude host ctx r).exec σ).1 = .ok p from hp] at h
  cases p <;> exact h

end Assay
