import Assay.Proofs.BuiltChecks

/-!
# Answers without a warning

A field that a definition should not have is left out with a warning in the log
(`Session.ignorings`). Building never takes a warning back, so an operation that comes to an answer
without a further one can be taken apart: no part of it warned (`Run.Quietly`). Constructors do not
write the log, and each is told by what it makes.
-/

namespace Assay

open Run

variable {α β : Type}

/-- The line warns of fields that were left out. -/
def warnsOfFields (line : String) : Bool :=
  "WARNING: Ignoring unknown keys".toList.isPrefixOf line.toList

/-- How many lines of the log warn of fields that were left out. -/
def Session.ignorings (σ : Session) : Nat := σ.log.countP warnsOfFields

/-- The operation leaves the warnings in the log, and an answer that comes without a further one
satisfies `P`. -/
def Run.Quietly (P : α → Prop) (x : Run α) : Prop :=
  ∀ σ, σ.ignorings ≤ (x.exec σ).2.ignorings ∧
    ∀ a, x.answer σ = .ok a → (x.exec σ).2.ignorings = σ.ignorings → P a

namespace Run.Quietly

variable {P Q : α → Prop} {S : β → Prop} {x : Run α}

theorem pure {a : α} (h : P a) : (Pure.pure a : Run α).Quietly P :=
  fun _ => ⟨Nat.le_refl _, by rintro _ ⟨⟩ -; exact h⟩

theorem throw {e : Fault} : (MonadExcept.throw e : Run α).Quietly P :=
  fun _ => ⟨Nat.le_refl _, nofun⟩

theorem refuse {cause : DefinitionError} : (Run.refuse cause : Run α).Quietly P := throw

theorem still (h : x.Still P) : x.Quietly P := by
  obtain ⟨e, rfl, he⟩ := h
  cases e with
  | ok a => exact pure (he a rfl)
  | error e => exact throw

theorem freshRef : Run.freshRef.Quietly fun _ => True :=
  fun _ => ⟨Nat.le_refl _, fun _ _ _ => trivial⟩

/-- A line that is noted is not a warning, if there is no further one. -/
theorem logLine (level text : String) :
    (Run.logLine level text).Quietly fun _ => warnsOfFields (level ++ ": " ++ text) = false := by
  intro σ
  have hcount : ((Run.logLine level text).exec σ).2.ignorings =
      σ.ignorings + if warnsOfFields (level ++ ": " ++ text) then 1 else 0 := List.countP_cons
  rw [hcount]
  refine ⟨Nat.le_add_right .., fun _ _ hquiet => ?_⟩
  cases hwarns : warnsOfFields (level ++ ": " ++ text) with
  | false => rfl
  | true =>
    rw [hwarns] at hquiet
    exact absurd hquiet (Nat.succ_ne_self _)

theorem mono (hx : x.Quietly P) (h : ∀ a, P a → Q a) : x.Quietly Q :=
  fun σ => ⟨(hx σ).1, fun a ha hquiet => h a ((hx σ).2 a ha hquiet)⟩

/-- What holds of every answer. -/
theorem of_answer (hx : x.Quietly P) (h : ∀ σ a, x.answer σ = .ok a → Q a) : x.Quietly Q :=
  fun σ => ⟨(hx σ).1, fun a ha _ => h σ a ha⟩

/-- The rule of sequence: if the whole is quiet, then so is the first operation. -/
theorem bind {f : α → Run β} (hx : x.Quietly P) (hf : ∀ a, (f a).Quietly fun b => P a → S b) :
    (x >>= f).Quietly S := by
  intro σ
  obtain ⟨hfirst, hquiet⟩ := hx σ
  unfold answer at hquiet ⊢
  rw [exec_bind]
  rcases hσ : x.exec σ with ⟨e | a, τ⟩ <;> rw [hσ] at hfirst hquiet
  · exact ⟨hfirst, nofun⟩
  · obtain ⟨hsecond, hnext⟩ := hf a τ
    refine ⟨Nat.le_trans hfirst hsecond, fun b hb hwhole => ?_⟩
    dsimp only at hfirst hquiet hsecond hwhole
    exact hnext b hb (by omega) (hquiet a rfl (by omega))

/-- After an operation of which nothing more is asked. -/
theorem next {f : α → Run β} (hx : x.Quietly P) (hf : ∀ a, (f a).Quietly S) :
    (x >>= f).Quietly S :=
  hx.bind fun a => (hf a).mono fun _ hb _ => hb

theorem map {f : α → β} (hx : x.Quietly P) (hf : ∀ a, P a → S (f a)) : (f <$> x).Quietly S := by
  rw [map_eq_pure_bind]
  exact hx.bind fun a => pure (hf a)

theorem attempt (hx : x.Quietly P) :
    (Run.attempt x).Quietly fun e => ∀ a, e = .ok a → P a := by
  intro σ
  refine ⟨(hx σ).1, ?_⟩
  rintro _ ⟨⟩ hquiet a ha
  exact (hx σ).2 a ha hquiet

/-- An operation that starts by reading the session. -/
theorem reading {f : Session → Run α} (h : ∀ σ, (f σ).Quietly P) : (get >>= f).Quietly P :=
  fun σ => h σ σ

/-- An operation that starts by changing what is not the log. -/
theorem changing {g : Session → Session} {y : Unit → Run α} (hg : ∀ σ, (g σ).log = σ.log)
    (h : (y ()).Quietly P) : (modify g >>= y).Quietly P := by
  intro σ
  have hsame : (g σ).ignorings = σ.ignorings := congrArg (List.countP warnsOfFields) (hg σ)
  rw [← hsame]
  exact h (g σ)

theorem takesNumber {R : (Nat → α) → Prop} (hx : x.TakesNumber R) :
    x.Quietly fun a => ∃ f n, R f ∧ a = f n := by
  obtain ⟨e, rfl, he⟩ := hx
  cases e with
  | error e => exact throw
  | ok f => exact freshRef.map fun n _ => ⟨f, n, he f rfl, rfl⟩

theorem mapM {R : α → β → Prop} {f : α → Run β} (hf : ∀ a, (f a).Quietly (R a)) (as : List α) :
    (as.mapM f).Quietly (List.Forall₂ R as) := by
  induction as with
  | nil => exact pure .nil
  | cons a as ih =>
    rw [List.mapM_cons]
    exact (hf a).bind fun b => ih.bind fun bs => pure fun hbs hb => .cons hb hbs

end Run.Quietly

/-! ## Constructors -/

/-- The schema consists of a form and its tag. -/
def Schema.IsBare (form : Form Value (Schema Value)) (s : Schema Value) : Prop :=
  ∃ id tag, s = ⟨id, .str tag, form, [], [], .null⟩

namespace Construct

theorem make_quietly {form : Form Value (Schema Value)} {tag : String}
    (htag : form.tag? = some tag) : (make form {}).Quietly (Schema.IsBare form) := by
  refine (Quietly.takesNumber (make_takesNumber htag .null)).mono ?_
  rintro _ ⟨_, n, rfl, rfl⟩
  exact ⟨n, tag, rfl⟩

theorem hashable_quietly (v : Value) : (hashable v).Quietly (· = v) :=
  .still (hashable_still v)

theorem items_quietly (v : Value) : (items v).Quietly fun vs => v.iterate? = some vs :=
  .still (.ofOption fun _ h => h)

theorem namedFormat_quietly (name abort : Value) : (namedFormat name abort {}).Quietly
    fun s => ∃ f : StringFormat, s.IsBare (.format f .null abort) := by
  refine (Quietly.takesNumber (namedFormat_takesNumber name abort .null)).mono ?_
  rintro _ ⟨_, n, ⟨f, rfl⟩, rfl⟩
  exact ⟨f, n, "string", rfl⟩

theorem literal_quietly (values : Value) :
    (literal values {}).Quietly fun s => ∃ form, s.IsBare form := by
  unfold literal
  dsimp only
  split
  · exact .refuse
  · exact (make_quietly rfl).mono fun _ hs => ⟨_, hs⟩

theorem enumeration_quietly (entries : Value) :
    (enumeration entries {}).Quietly fun s => ∃ form, s.IsBare form := by
  unfold enumeration
  refine Quietly.next (P := fun _ => True) ?_ fun ⟨es, cls⟩ => ?_
  · split
    · exact .pure trivial
    · exact .pure trivial
    · exact .pure trivial
    · exact (items_quietly _).next fun _ => .pure trivial
  · dsimp only
    split
    · exact .refuse
    · exact (make_quietly rfl).mono fun _ hs => ⟨_, hs⟩

theorem lazy_quietly (getter name : Value) :
    (lazy getter name {}).Quietly fun s => ∃ form, s.IsBare form := by
  unfold lazy
  split
  · exact (make_quietly rfl).mono fun _ hs => ⟨_, hs⟩
  · exact .refuse

/-! The table of a discriminated union is made without a word. -/

theorem discriminatorValues_quietly (option : Schema Value) (discriminator : Value) :
    (discriminatorValues option discriminator).Quietly fun _ => True := by
  unfold discriminatorValues
  split
  · split
    · exact .pure trivial
    · exact .refuse
  · refine (hashable_quietly _).next fun key => ?_
    split
    · exact .refuse
    · split
      · exact .pure trivial
      · exact .refuse
  · exact .refuse

theorem addValues_quietly (discriminator : Value) (index : Nat) (vs : List Value)
    (table : List (Value × Nat)) :
    (addValues discriminator index vs table).Quietly fun _ => True := by
  induction vs generalizing table with
  | nil => exact .pure trivial
  | cons v vs ih =>
    unfold addValues
    split
    · exact .refuse
    · exact ih _

theorem tableFrom_quietly (discriminator : Value) (index : Nat) (options : List (Schema Value))
    (table : List (Value × Nat)) :
    (tableFrom discriminator index options table).Quietly fun _ => True := by
  induction options generalizing index table with
  | nil => exact .pure trivial
  | cons o options ih =>
    exact (discriminatorValues_quietly _ _).next fun _ =>
      (addValues_quietly _ _ _ _).next fun _ => ih _ _

end Construct

/-! ## Definitions -/

namespace OfDefinition

/-- The tag knows all the fields. -/
def Knows (tag : String) (d : Entries) : Prop :=
  ∀ e ∈ d, ∃ name, e.1 = .str name ∧ name ∈ commonFields ++ ownFields tag

theorem warnsOfFields_unknown (tag rest : String) :
    warnsOfFields ("WARNING" ++ ": " ++
      ("Ignoring unknown keys for '" ++ tag ++ "' schema: " ++ rest)) = true := by
  unfold warnsOfFields
  rw [List.isPrefixOf_iff_prefix]
  simp only [String.toList_append, List.append_assoc]
  exact ⟨_, rfl⟩

theorem insertSorted?_length {v : Value} {vs ws : List Value}
    (h : Value.insertSorted? v vs = some ws) : ws.length = vs.length + 1 := by
  induction vs generalizing ws with
  | nil =>
    cases h
    rfl
  | cons w vs ih =>
    obtain ⟨before, -, h⟩ := Option.bind_eq_some_iff.1 h
    cases before with
    | true =>
      cases h
      rfl
    | false =>
      obtain ⟨rest, hrest, h⟩ := Option.bind_eq_some_iff.1 h
      cases h
      rw [List.length_cons, ih hrest, List.length_cons]

theorem foldlM_insertSorted?_length {vs acc ws : List Value}
    (h : vs.foldlM (fun acc v => Value.insertSorted? v acc) acc = some ws) :
    ws.length = acc.length + vs.length := by
  induction vs generalizing acc with
  | nil =>
    cases h
    rfl
  | cons v vs ih =>
    rw [List.foldlM_cons] at h
    obtain ⟨more, hmore, h⟩ := Option.bind_eq_some_iff.1 h
    rw [ih h, insertSorted?_length hmore, List.length_cons]
    omega

/-- Sorting loses nothing. -/
theorem sorted?_length {vs ws : List Value} (h : Value.sorted? vs = some ws) :
    ws.length = vs.length :=
  (foldlM_insertSorted?_length h).trans (Nat.zero_add _)

/-- Without a warning the tag knows all the fields. -/
theorem warnUnknown_quietly (d : Entries) (tag : String) :
    (warnUnknown d tag).Quietly fun _ => Knows tag d := by
  unfold warnUnknown
  refine (Quietly.still (.ofOption fun _ h => h)).bind fun ignored => ?_
  split
  · refine (Quietly.logLine _ _).mono fun _ hwarns _ => ?_
    rw [warnsOfFields_unknown] at hwarns
    cases hwarns
  · next hempty =>
    refine .pure fun hsorted e he => ?_
    have hnone : ignored = [] := by simpa using hempty
    have hlength := sorted?_length hsorted
    rw [hnone, List.length_nil, List.length_map] at hlength
    have hknown := List.filter_eq_nil_iff.1 (List.eq_nil_of_length_eq_zero hlength.symm) e he
    rw [Bool.not_eq_true, Bool.not_eq_false', Option.any_eq_true] at hknown
    obtain ⟨name, hname, hmem⟩ := hknown
    exact ⟨name, Value.str?_eq_some.1 hname, List.contains_iff_mem.1 hmem⟩

/-- In a strict build every check that is listed is made. -/
theorem checks_quietly (definitions : List Value) : (checks true definitions).Quietly
    fun cs => List.Forall₂ (fun v c => v.Renders c.plain) definitions cs := by
  induction definitions with
  | nil => exact .pure .nil
  | cons definition rest ih =>
    have hcheck : (buildCheck definition).Quietly fun c => definition.Renders c.plain :=
      (Quietly.takesNumber (buildCheck_takesNumber definition)).of_answer fun _ _ =>
        renders_of_answer
    refine hcheck.attempt.bind fun e => ?_
    split
    · exact ih.bind fun cs => .pure fun hcs hc => .cons (hc _ rfl) hcs
    · exact .refuse
    · exact .throw

end OfDefinition

end Assay
