import Assay.Proofs.Meaning

/-!
# Readings with more levels

A meaning reads a schema at most a number of levels deep. What it comes to within fewer levels it
comes to within more (`meaning_mono`), so how many levels a parse is allowed does not matter as
long as it comes to a result. The levels are used by the nested readings and by the question
whether a schema accepts an absent value; for each construct it is enough that the nested
readings extend one another.
-/

namespace Assay

open Run

/-- The second comes to what the first comes to, unless that is a fault. -/
def Extends {α : Type} (m m' : Except Fault α) : Prop := ∀ a, m = .ok a → m' = .ok a

namespace Extends

variable {α β : Type} {m m' : Except Fault α}

theorem refl : Extends m m := fun _ h => h

theorem error {e : Fault} : Extends (.error e) m := fun _ h => nomatch h

theorem bind {f f' : α → Except Fault β} (h : Extends m m') (hf : ∀ a, Extends (f a) (f' a)) :
    Extends (m >>= f) (m' >>= f') := by
  intro b hb
  obtain ⟨a, ha, hb⟩ := bind_eq_ok.1 hb
  exact bind_eq_ok.2 ⟨a, h a ha, hf a b hb⟩

/-- What is done with a result does not depend on levels. -/
theorem next {f : α → Except Fault β} (h : Extends m m') : Extends (m >>= f) (m' >>= f) :=
  h.bind fun _ => refl

end Extends

/-! ## Operations on a session -/

/-- The second operation does what the first does, unless that ends with a fault. -/
def Run.Extends {α : Type} (x y : Run α) : Prop :=
  ∀ σ a τ, x.exec σ = (.ok a, τ) → y.exec σ = (.ok a, τ)

namespace Run.Extends

variable {α β : Type} {x y : Run α}

theorem refl : Run.Extends x x := fun _ _ _ h => h

theorem throw {e : Fault} : Run.Extends (MonadExcept.throw e) y := fun _ _ _ h => nomatch h

theorem bind {f g : α → Run β} (h : Run.Extends x y) (hf : ∀ a, Run.Extends (f a) (g a)) :
    Run.Extends (x >>= f) (y >>= g) := by
  intro σ b τ hb
  rw [exec_bind] at hb ⊢
  split at hb
  · rename_i a σ' ha
    rw [h σ a σ' ha]
    exact hf a σ' b τ hb
  · cases hb

theorem answer (h : Run.Extends x y) (σ : Session) : Assay.Extends (x.answer σ) (y.answer σ) := by
  intro a ha
  unfold Run.answer at ha ⊢
  rw [h σ a (x.exec σ).2 (Prod.ext ha rfl)]

end Run.Extends

theorem anySchema_extends {test test' : Schema Value → Run Bool}
    (h : ∀ s, Run.Extends (test s) (test' s)) (schemas : List (Schema Value)) :
    Run.Extends (anySchema test schemas) (anySchema test' schemas) := by
  induction schemas with
  | nil => exact .refl
  | cons s rest ih =>
    refine .bind (h s) fun b => ?_
    cases b with
    | true => exact .refl
    | false => exact ih

theorem requiredPositions_extends {test test' : Schema Value → Run Bool}
    (h : ∀ s, Run.Extends (test s) (test' s)) (schemas : List (Schema Value)) :
    Run.Extends (requiredPositions test schemas) (requiredPositions test' schemas) := by
  induction schemas with
  | nil => exact .refl
  | cons s rest ih =>
    refine .bind (h s) fun b => ?_
    cases b with
    | true => exact ih
    | false => exact .refl

variable {host : Host} {σ : Session} {ctx : Context} {thorough : Bool}

theorem acceptsAbsent_extends (fuel : Nat) (s : Schema Value) :
    Run.Extends (Schema.acceptsAbsent host fuel s) (Schema.acceptsAbsent host (fuel + 1) s) := by
  induction fuel generalizing s with
  | zero => exact .throw
  | succ fuel ih =>
    unfold Schema.acceptsAbsent
    cases s.form with
    | nullable inner => exact ih inner
    | catching inner _ => exact ih inner
    | readonly inner => exact ih inner
    | pipe source _ => exact ih source
    | union options => exact anySchema_extends ih options
    | discriminatedUnion options _ _ => exact anySchema_extends ih options
    | lazy getter _ => exact .bind .refl ih
    | _ => exact .refl

/-! ## Several positions -/

section

variable {recur recur' : Schema Value → Value → Except Fault Result}
  (h : ∀ s v, Extends (recur s v) (recur' s v))

include h

theorem each_extends (ps : List (Schema Value × Value)) :
    Extends (Meaning.each recur ps) (Meaning.each recur' ps) := by
  induction ps with
  | nil => exact .refl
  | cons p ps ih => exact .bind (h p.1 p.2) fun _ => .next ih

theorem inOrder_extends (ps : List (Schema Value × Value)) :
    Extends (Meaning.inOrder recur ps) (Meaning.inOrder recur' ps) := by
  induction ps with
  | nil => exact .refl
  | cons p ps ih =>
    refine .bind (h p.1 p.2) fun r => ?_
    split
    · exact .next ih
    · exact .refl

theorem items_extends (ps : List (Schema Value × Value)) :
    Extends (Meaning.items recur ctx ps) (Meaning.items recur' ctx ps) := by
  unfold Meaning.items
  split
  · exact inOrder_extends h ps
  · exact each_extends h ps

theorem options_extends (v : Value) (schemas : List (Schema Value)) :
    Extends (Meaning.options recur thorough v schemas)
      (Meaning.options recur' thorough v schemas) := by
  induction schemas with
  | nil => exact .refl
  | cons s rest ih =>
    refine .bind (h s v) fun r => ?_
    split
    · exact .refl
    · exact .next ih

/-! ## Forms -/

theorem tuple_extends {required required' : Except Fault Nat} (hrequired : Extends required required')
    (s : Schema Value) (schemas : List (Schema Value)) (rest : Option (Schema Value)) (v : Value) :
    Extends (Meaning.tuple ctx recur required s schemas rest v)
      (Meaning.tuple ctx recur' required' s schemas rest v) := by
  unfold Meaning.tuple
  split
  · exact .refl
  · refine .bind hrequired fun n => ?_
    split
    · exact .refl
    · exact .next (items_extends h _)

theorem record_extends (s keyType valueType : Schema Value) (v : Value) :
    Extends (Meaning.record ctx recur s keyType valueType v)
      (Meaning.record ctx recur' s keyType valueType v) := by
  unfold Meaning.record
  split
  · exact .refl
  · split
    · split
      · exact .error
      · exact .next (items_extends h _)
    · exact .next (items_extends h _)

theorem discriminated_extends (s : Schema Value) (schemas : List (Schema Value))
    (discriminator : Value) (table : List (Value × Nat)) (v : Value) :
    Extends (Meaning.discriminated σ recur s schemas discriminator table v)
      (Meaning.discriminated σ recur' s schemas discriminator table v) := by
  unfold Meaning.discriminated
  split
  · exact .refl
  · refine .bind .refl fun key => ?_
    dsimp only
    split
    · exact h _ v
    · exact .refl

theorem form_extends (fuel : Nat) (s : Schema Value) (v : Value) :
    Extends (Meaning.form host σ ctx thorough recur fuel s v)
      (Meaning.form host σ ctx thorough recur' (fuel + 1) s v) := by
  unfold Meaning.form
  cases s.form with
  | object shape policy catchall =>
    dsimp only
    unfold Meaning.object
    split
    · exact .refl
    · exact .next (items_extends h _)
  | array element =>
    dsimp only
    unfold Meaning.array
    split
    · exact .refl
    · exact .next (items_extends h _)
  | tuple schemas rest =>
    exact tuple_extends h
      ((requiredPositions_extends (acceptsAbsent_extends fuel) _).answer σ) s schemas rest v
  | record k w => exact record_extends h s k w v
  | map k w =>
    dsimp only
    unfold Meaning.map
    split
    · exact .refl
    · exact .next (items_extends h _)
  | set element =>
    dsimp only
    unfold Meaning.set
    split
    case h_3 => exact .refl
    all_goals exact .next (items_extends h _)
  | union schemas => exact .next (options_extends h v schemas)
  | discriminatedUnion schemas d table => exact discriminated_extends h s schemas d table v
  | intersection l r => exact .next (items_extends h _)
  | optional inner =>
    dsimp only
    split
    · exact .refl
    · exact h inner v
  | nullable inner =>
    dsimp only
    split
    · exact .refl
    · exact h inner v
  | default inner d =>
    dsimp only
    split
    · exact .refl
    · exact h inner v
  | prefault inner d =>
    dsimp only
    split
    · exact .bind .refl fun w => h inner w
    · exact h inner v
  | catching inner fallback => exact .next (h inner v)
  | readonly inner => exact .next (h inner v)
  | promise inner =>
    dsimp only
    split
    · exact .refl
    · exact h inner v
  | pipe source target =>
    refine .bind (h source v) fun r => ?_
    split
    · exact h target r.value
    · exact .refl
  | lazy getter name => exact .bind .refl fun t => h t v
  | _ => exact .refl

end

/-- One more level. -/
theorem meaning_extends (fuel : Nat) (s : Schema Value) (v : Value) :
    Extends (meaning host σ ctx thorough fuel s v)
      (meaning host σ ctx thorough (fuel + 1) s v) := by
  induction fuel generalizing s v with
  | zero => exact .error
  | succ fuel ih =>
    rw [meaning, meaning]
    refine .bind .refl fun fn => .next ?_
    split
    · exact form_extends ih fuel s v
    · exact .refl

/-- A result that is come to within some levels is come to within more. -/
theorem meaning_mono {fuel fuel' : Nat} (h : fuel ≤ fuel') {s : Schema Value} {v : Value}
    {r : Result} (hr : meaning host σ ctx thorough fuel s v = .ok r) :
    meaning host σ ctx thorough fuel' s v = .ok r := by
  induction h with
  | refl => exact hr
  | step _ ih => exact meaning_extends _ s v r ih

end Assay
