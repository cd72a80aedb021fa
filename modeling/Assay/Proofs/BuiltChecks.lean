import Assay.Proofs.Twofold

/-!
# Checks from definitions

Building a check asks nothing of a session but one number (`Run.TakesNumber`), and the number is not
shown. Whether a definition describes a check, and what its description shows, is therefore the same
in every session (`Value.Renders`), and so is whether it is refused.
-/

namespace Assay

open Run

variable {α β : Type}

/-- The operation takes one number, or ends with a fault, whatever the session. What it makes of the
number satisfies `P`. -/
def Run.TakesNumber (P : (Nat → α) → Prop) (x : Run α) : Prop :=
  ∃ e : Except Fault (Nat → α), x = (Run.lift e >>= fun f => f <$> Run.freshRef) ∧
    ∀ f, e = .ok f → P f

namespace Run.TakesNumber

variable {P : (Nat → α) → Prop} {x : Run α}

theorem throw {e : Fault} : (MonadExcept.throw e : Run α).TakesNumber P := ⟨.error e, rfl, nofun⟩

theorem fresh {f : Nat → α} (h : P f) : (f <$> Run.freshRef).TakesNumber P :=
  ⟨.ok f, rfl, by rintro _ ⟨⟩; exact h⟩

/-- After an operation that asks nothing of a session. -/
theorem after {Q : β → Prop} {z : Run β} {f : β → Run α} (hz : z.Still Q)
    (hf : ∀ b, (f b).TakesNumber P) : (z >>= f).TakesNumber P := by
  obtain ⟨e, rfl, -⟩ := hz
  cases e with
  | error e => exact throw
  | ok b => exact hf b

theorem mono {Q : (Nat → α) → Prop} (hx : x.TakesNumber P) (h : ∀ f, P f → Q f) :
    x.TakesNumber Q := by
  obtain ⟨e, he, hP⟩ := hx
  exact ⟨e, he, fun f hf => h f (hP f hf)⟩

theorem map {Q : (Nat → β) → Prop} {g : α → β} (hx : x.TakesNumber P)
    (hg : ∀ f, P f → Q (g ∘ f)) : (g <$> x).TakesNumber Q := by
  obtain ⟨e, rfl, he⟩ := hx
  cases e with
  | error e => exact throw
  | ok f => exact fresh (hg f (he f rfl))

/-- The answer of any session, but for the number. -/
theorem exec_eq (hx : x.TakesNumber P) : ∃ e : Except Fault (Nat → α), (∀ f, e = .ok f → P f) ∧
    ∀ σ, x.exec σ = match e with
      | .ok f => (.ok (f (numberIn σ.lane σ.nextRef)), { σ with nextRef := σ.nextRef + 1 })
      | .error e => (.error e, σ) := by
  obtain ⟨e, rfl, he⟩ := hx
  refine ⟨e, he, fun σ => ?_⟩
  cases e with
  | error e => rfl
  | ok f => rfl

end Run.TakesNumber

/-! ## Constructors -/

/-- What is made of a number has the same plain form whatever the number. -/
def ShowsNoNumber (f : Nat → Value) : Prop := ∀ m n, (f m).plain = (f n).plain

namespace Construct

theorem check_takesNumber (rule : Rule Value) (error abort : Value) :
    (Value.check <$> check rule error abort).TakesNumber ShowsNoNumber := by
  have hcheck : Value.check <$> check rule error abort =
      (fun n => Value.check ⟨n, rule, error, abort⟩) <$> freshRef := rfl
  rw [hcheck]
  exact .fresh fun _ _ => rfl

/-- A schema without checks is made of its form, its message provider and a number. -/
theorem make_takesNumber {form : Form Value (Schema Value)} {tag : String}
    (htag : form.tag? = some tag) (error : Value) :
    (make form ⟨.tuple [], error, []⟩).TakesNumber
      fun f => f = fun n => ⟨n, .str tag, form, [], [], error⟩ := by
  have hmake : make form ⟨.tuple [], error, []⟩ =
      (fun n => (⟨n, .str tag, form, [], [], error⟩ : Schema Value)) <$> freshRef := by
    unfold make
    rw [htag]
    rfl
  rw [hmake]
  exact .fresh rfl

/-- A format of a name. -/
theorem namedFormat_takesNumber (name abort error : Value) :
    (namedFormat name abort ⟨.tuple [], error, []⟩).TakesNumber fun f => ∃ form : StringFormat,
      f = fun n => ⟨n, .str "string", .format form .null abort, [], [], error⟩ := by
  refine .after (hashable_still name) fun n => ?_
  split
  · next form _ => exact (make_takesNumber rfl error).mono fun f hf => ⟨form, hf⟩
  · exact .throw

end Construct

/-! ## Checks -/

namespace OfDefinition

theorem stringCheck_takesNumber (d : Entries) (tag error abort : Value) :
    (stringCheck d tag error abort).TakesNumber ShowsNoNumber := by
  have hmake (rule : Rule Value) := Construct.check_takesNumber rule error abort
  unfold stringCheck
  dsimp only
  split
  · exact .after (required_still _ _ _) fun _ => .after (Construct.regex_still _ _) hmake
  · exact hmake _
  · exact hmake _
  · exact .after (required_still _ _ _) fun _ => hmake _
  · exact .after (required_still _ _ _) fun _ => hmake _
  · exact .after (required_still _ _ _) fun _ => hmake _
  · rw [← map_eq_pure_bind]
    refine (Construct.namedFormat_takesNumber _ _ _).map ?_
    rintro _ ⟨form, rfl⟩ m n
    rfl

theorem checkOfTag_takesNumber (d : Entries) (tag : String) :
    (checkOfTag d tag).TakesNumber ShowsNoNumber := by
  have hmake (rule : Rule Value) :=
    Construct.check_takesNumber rule (field d "error") (flag d "abort")
  unfold checkOfTag
  dsimp only
  split
  · next hlength =>
    exact .after (required_still _ _ _) fun _ =>
      .after (Construct.lengthBound_still (lengthRule_isDefined hlength) _) hmake
  · exact .after (required_still _ _ _) fun _ => .after (Construct.greaterThan_still _ _) hmake
  · exact .after (required_still _ _ _) fun _ => .after (Construct.lessThan_still _ _) hmake
  · exact .after (required_still _ _ _) fun _ => .after (Construct.multipleOf_still _) hmake
  · exact stringCheck_takesNumber _ _ _ _
  · rw [← map_eq_pure_bind]
    refine (Construct.make_takesNumber rfl _).map ?_
    rintro _ rfl m n
    rfl
  · split
    · refine .after (Construct.overwrite_still _ _) fun rule => ?_
      rw [← map_eq_pure_bind]
      exact Construct.check_takesNumber rule .null (.bool false)
    · exact .throw
  · exact .throw

end OfDefinition

theorem buildCheck_takesNumber (definition : Value) :
    (buildCheck definition).TakesNumber ShowsNoNumber := by
  unfold buildCheck
  split
  · refine .after (Construct.hashable_still _) fun tag => ?_
    split
    · exact OfDefinition.checkOfTag_takesNumber _ _
    · exact .throw
  · exact .throw

/-! ## In every session -/

/-- In every session the definition describes a check with this description. -/
def Value.Renders (definition shown : Value) : Prop :=
  ∀ σ, ((buildCheck definition).answer σ).map Value.plain = .ok shown

theorem renders_of_answer {definition check : Value} {σ : Session}
    (h : (buildCheck definition).answer σ = .ok check) : definition.Renders check.plain := by
  obtain ⟨e, hshows, hexec⟩ := (buildCheck_takesNumber definition).exec_eq
  intro τ
  unfold answer at h ⊢
  rw [hexec] at h ⊢
  cases e with
  | error e => cases h
  | ok f =>
    cases h
    exact congrArg Except.ok (hshows f rfl _ _)

/-- What a check definition ends with in one session it ends with in all of them, and leaves them as
they are. -/
theorem buildCheck_exec_error {definition : Value} {σ : Session} {fault : Fault}
    (h : (buildCheck definition).answer σ = .error fault) (τ : Session) :
    (buildCheck definition).exec τ = (.error fault, τ) := by
  obtain ⟨e, -, hexec⟩ := (buildCheck_takesNumber definition).exec_eq
  unfold answer at h
  rw [hexec] at h ⊢
  cases e with
  | error e =>
    cases h
    rfl
  | ok f => cases h

end Assay
