import Assay.Proofs.Creating

/-!
# What malformed checks end with

Constructors refuse what they are given with a definition error and fail in no other way, except
where they look a value up or go through it before they know that this can be done: a name must be a
possible key, a list must be one, a pattern must read as a pattern. A check definition is therefore
refused with a definition error, or built, exactly if it can be read so far
(`malformed_checks_refused`).
-/

namespace Assay

/-- The operation ends with no fault but a definition error. -/
def Run.Refuses {α : Type} (x : Run α) : Prop :=
  ∀ σ fault, x.answer σ = .error fault → ∃ cause, fault = .definition cause

namespace Run.Refuses

variable {α β : Type} {x : Run α}

/-! ## Rules -/

theorem pure {a : α} : (Pure.pure a : Run α).Refuses := by
  intro σ fault h
  cases h

theorem refuse {cause : DefinitionError} : (Run.refuse cause : Run α).Refuses := by
  intro σ fault h
  cases h
  exact ⟨cause, rfl⟩

/-- Nothing is done after a refusal. -/
theorem refuse_bind {cause : DefinitionError} {f : α → Run β} :
    (Run.refuse cause >>= f).Refuses := by
  intro σ fault h
  cases h
  exact ⟨cause, rfl⟩

theorem ofOption {fault : Fault} {o : Option α} (h : o.isSome = true) :
    (Run.ofOption fault o).Refuses := by
  obtain ⟨a, rfl⟩ := Option.isSome_iff_exists.1 h
  exact pure

theorem freshRef : Run.freshRef.Refuses := by
  intro σ fault h
  cases h

theorem logLine {level text : String} : (Run.logLine level text).Refuses := by
  intro σ fault h
  cases h

theorem bind {f : α → Run β} (hx : x.Refuses) (hf : ∀ a, (f a).Refuses) : (x >>= f).Refuses := by
  intro σ fault h
  rw [answer, exec_bind] at h
  rcases hσ : x.exec σ with ⟨e | a, τ⟩ <;> rw [hσ] at h
  · cases h
    exact hx σ fault (congrArg Prod.fst hσ)
  · exact hf a τ fault h

theorem map {f : α → β} (hx : x.Refuses) : (f <$> x).Refuses := by
  rw [map_eq_pure_bind]
  exact hx.bind fun _ => pure

/-- An operation that starts by reading the session. -/
theorem reading {f : Session → Run α} (h : ∀ σ, (f σ).Refuses) : (get >>= f).Refuses :=
  fun σ => h σ σ

/-- An operation that starts by changing the session. -/
theorem changing {g : Session → Session} {y : Unit → Run α} (h : (y ()).Refuses) :
    (modify g >>= y).Refuses :=
  fun σ => h (g σ)

/-- After a fault that is caught there are an answer and a definition error to go on from. -/
theorem attempt {f : Except Fault α → Run β} (hx : x.Refuses) (hok : ∀ a, (f (.ok a)).Refuses)
    (herror : ∀ cause, (f (.error (.definition cause))).Refuses) :
    (Run.attempt x >>= f).Refuses := by
  intro σ fault h
  have hexec : (Run.attempt x).exec σ = (.ok (x.exec σ).1, (x.exec σ).2) := rfl
  rw [answer, exec_bind, hexec] at h
  rcases hσ : x.exec σ with ⟨e | a, τ⟩ <;> rw [hσ] at h
  · obtain ⟨cause, rfl⟩ := hx σ e (congrArg Prod.fst hσ)
    exact herror cause τ fault h
  · exact hok a τ fault h

theorem mapM {f : α → Run β} {as : List α} (hf : ∀ a ∈ as, (f a).Refuses) :
    (as.mapM f).Refuses := by
  induction as with
  | nil => exact pure
  | cons a as ih =>
    obtain ⟨ha, has⟩ := List.forall_mem_cons.1 hf
    rw [List.mapM_cons]
    exact ha.bind fun _ => (ih has).bind fun _ => pure

end Run.Refuses

open Run.Refuses

/-! ## Constructors -/

namespace Construct

variable {v : Value}

theorem items_refuses (h : v.iterate?.isSome = true) : (items v).Refuses := ofOption h

theorem hashable_refuses (h : v.isHashable = true) : (hashable v).Refuses := by
  unfold hashable
  rw [if_pos h]
  exact pure

theorem make_refuses (form : Form Value (Schema Value)) {shared : Shared}
    (h : shared.checks.iterate?.isSome = true) : (make form shared).Refuses := by
  refine (items_refuses h).bind fun checks => ?_
  dsimp only
  split
  · exact refuse
  · exact freshRef.bind fun _ => pure

/-- A schema that is made from a form alone. -/
theorem make_plain_refuses (form : Form Value (Schema Value)) : (make form {}).Refuses :=
  make_refuses form rfl

theorem schemaAt_refuses (place : String) (v : Value) : (schemaAt place v).Refuses := by
  unfold schemaAt
  split
  · exact pure
  · exact refuse

theorem schemaAt?_refuses (place : String) (v : Value) : (schemaAt? place v).Refuses := by
  unfold schemaAt?
  split
  · exact pure
  · exact (schemaAt_refuses place v).map

theorem namedFormat_refuses {shared : Shared} (hname : v.isHashable = true)
    (h : shared.checks.iterate?.isSome = true) (abort : Value) :
    (namedFormat v abort shared).Refuses := by
  refine (hashable_refuses hname).bind fun n => ?_
  split
  · exact make_refuses _ h
  · exact refuse

theorem literal_refuses (values : Value) : (literal values {}).Refuses := by
  unfold literal
  dsimp only
  split
  · exact refuse
  · exact make_plain_refuses _

theorem enumeration_refuses (h : v.iterate?.isSome = true) : (enumeration v {}).Refuses := by
  refine Run.Refuses.bind ?_ fun (es, cls) => ?_
  · split
    · exact pure
    · exact pure
    · exact pure
    · exact (items_refuses h).bind fun _ => pure
  · dsimp only
    split
    · exact refuse
    · exact make_plain_refuses _

theorem shapeOf_refuses (es : List (Value × Value)) : (shapeOf es).Refuses := by
  induction es with
  | nil => exact pure
  | cons e es ih => exact (schemaAt_refuses _ _).bind fun _ => ih.bind fun _ => pure

theorem object_refuses (shape : Entries) (policy catchall : Value) :
    (object (.dict shape) policy catchall {}).Refuses := by
  unfold object
  split
  · exact refuse
  · exact (ofOption rfl).bind fun _ => (shapeOf_refuses _).bind fun _ =>
      (schemaAt?_refuses _ _).bind fun _ => make_plain_refuses _

theorem positions_refuses (index : Nat) (vs : List Value) : (positions index vs).Refuses := by
  induction vs generalizing index with
  | nil => exact pure
  | cons v vs ih => exact (schemaAt_refuses _ _).bind fun _ => (ih _).bind fun _ => pure

theorem tuple_refuses (schemas : List Value) (rest : Value) :
    (tuple (.list schemas) rest {}).Refuses :=
  (items_refuses rfl).bind fun _ => (positions_refuses _ _).bind fun _ =>
    (schemaAt?_refuses _ _).bind fun _ => make_plain_refuses _

/-- A schema that is made around one part. -/
theorem around_refuses (place : String) (v : Value)
    (form : Schema Value → Form Value (Schema Value)) :
    (do make (form (← schemaAt place v)) {} : Run (Schema Value)).Refuses :=
  (schemaAt_refuses _ _).bind fun _ => make_plain_refuses _

/-- A schema that is made around two parts. -/
theorem between_refuses (place place' : String) (v v' : Value)
    (form : Schema Value → Schema Value → Form Value (Schema Value)) :
    (do
      let s ← schemaAt place v
      let t ← schemaAt place' v'
      make (form s t) {} : Run (Schema Value)).Refuses :=
  (schemaAt_refuses _ _).bind fun _ => (schemaAt_refuses _ _).bind fun _ => make_plain_refuses _

theorem optionsFrom_refuses (index : Nat) (vs : List Value) : (optionsFrom index vs).Refuses := by
  induction vs generalizing index with
  | nil => exact pure
  | cons v vs ih =>
    unfold optionsFrom
    split
    · exact (ih _).bind fun _ => pure
    · exact refuse

theorem optionsOf_refuses (options : List Value) : (optionsOf (.list options)).Refuses := by
  refine (items_refuses rfl).bind fun vs => ?_
  split
  · exact refuse
  · exact optionsFrom_refuses _ _

theorem discriminatorValues_refuses (option : Schema Value) (h : v.isHashable = true) :
    (discriminatorValues option v).Refuses := by
  unfold discriminatorValues
  split
  · split
    · exact pure
    · exact refuse
  · refine (hashable_refuses h).bind fun key => ?_
    split
    · exact refuse
    · split
      · exact pure
      · exact refuse
  · exact refuse

theorem addValues_refuses (discriminator : Value) (index : Nat) (vs : List Value)
    (table : List (Value × Nat)) : (addValues discriminator index vs table).Refuses := by
  induction vs generalizing table with
  | nil => exact pure
  | cons v vs ih =>
    unfold addValues
    split
    · exact refuse
    · exact ih _

theorem tableFrom_refuses (h : v.isHashable = true) (index : Nat) (options : List (Schema Value))
    (table : List (Value × Nat)) : (tableFrom v index options table).Refuses := by
  induction options generalizing index table with
  | nil => exact pure
  | cons o options ih =>
    exact (discriminatorValues_refuses o h).bind fun _ => (addValues_refuses _ _ _ _).bind fun _ =>
      ih _ _

theorem discriminatedUnion_refuses (h : v.isHashable = true) (options : List Value) :
    (discriminatedUnion v (.list options) {}).Refuses :=
  (optionsOf_refuses options).bind fun _ => (items_refuses rfl).bind fun _ =>
    (tableFrom_refuses h _ _ _).bind fun _ => make_plain_refuses _

theorem side_refuses (name : String) (v : Value) : (side name v).Refuses := by
  unfold side
  split
  · exact pure
  · exact refuse

theorem lazy_refuses (getter name : Value) : (lazy getter name {}).Refuses := by
  unfold lazy
  split
  · exact make_plain_refuses _
  · exact refuse

theorem check_refuses (rule : Rule Value) (error abort : Value) :
    (check rule error abort).Refuses :=
  freshRef.bind fun _ => pure

theorem lengthBound_refuses (rule : Nat → Rule Value) (bound : Value) :
    (lengthBound rule bound).Refuses := by
  unfold lengthBound
  split
  · split
    · exact refuse
    · exact pure
  · exact refuse

theorem greaterThan_refuses (bound inclusive : Value) : (greaterThan bound inclusive).Refuses := by
  unfold greaterThan
  split
  · exact refuse
  · exact refuse
  · exact pure

theorem lessThan_refuses (bound inclusive : Value) : (lessThan bound inclusive).Refuses := by
  unfold lessThan
  split
  · exact refuse
  · exact refuse
  · exact pure

theorem multipleOf_refuses (divisor : Value) : (multipleOf divisor).Refuses := by
  unfold multipleOf
  split
  · exact pure
  · exact refuse

theorem overwrite_refuses (fn name : Value) : (overwrite fn name).Refuses := by
  unfold overwrite
  split
  · exact pure
  · exact pure
  · exact pure
  · exact refuse
  · exact pure

/-- The value is a text that reads as a pattern. -/
def IsPattern (v : Value) : Prop := ∃ s p, v = .str s ∧ Pattern.ofText s = .ok p

theorem regex_refuses (h : IsPattern v) (format : Value) : (regex v format).Refuses := by
  obtain ⟨s, p, rfl, hp⟩ := h
  unfold regex
  dsimp only
  rw [hp]
  exact pure

end Construct

/-! ## Checks -/

namespace OfDefinition

/-- The fields of a check definition can be read: its tag is a possible key, and so is the name of a
string format, whose pattern is one. -/
structure ReadableCheck (d : Entries) : Prop where
  tag : (field d "check").isHashable = true
  format : field d "check" = .str "string_format" → (field d "format").isHashable = true
  pattern : field d "check" = .str "string_format" → field d "format" = .str "regex" →
    ∀ v, d.get? "pattern" = some v → Construct.IsPattern v

variable {d : Entries}

/-- A field that must be there, and what is done with it. -/
theorem required_refuses {α : Type} {tag : Value} {name : String} {f : Value → Run α}
    (h : ∀ v, d.get? name = some v → (f v).Refuses) : (required d tag name >>= f).Refuses := by
  unfold required
  cases hv : d.get? name with
  | none => exact refuse_bind
  | some v => exact h v hv

theorem stringCheck_refuses (hformat : (field d "format").isHashable = true)
    (hpattern : field d "format" = .str "regex" →
      ∀ v, d.get? "pattern" = some v → Construct.IsPattern v) (tag error abort : Value) :
    (stringCheck d tag error abort).Refuses := by
  have hmake : ∀ rule, (Value.check <$> Construct.check rule error abort).Refuses := fun rule =>
    (Construct.check_refuses rule error abort).map
  unfold stringCheck
  dsimp only
  split
  · rename_i hregex
    exact required_refuses fun v hv =>
      (Construct.regex_refuses (hpattern hregex v hv) _).bind hmake
  · exact hmake _
  · exact hmake _
  · exact required_refuses fun _ _ => hmake _
  · exact required_refuses fun _ _ => hmake _
  · exact required_refuses fun _ _ => hmake _
  · exact (Construct.namedFormat_refuses hformat rfl _).bind fun _ => pure

theorem checkOfTag_refuses {tag : String} (h : ReadableCheck d)
    (htag : field d "check" = .str tag) : (checkOfTag d tag).Refuses := by
  have hmake : ∀ rule, (Value.check <$> Construct.check rule (field d "error")
      (flag d "abort")).Refuses := fun rule => (Construct.check_refuses rule _ _).map
  unfold checkOfTag
  dsimp only
  split
  · exact required_refuses fun _ _ => (Construct.lengthBound_refuses _ _).bind hmake
  · exact required_refuses fun _ _ => (Construct.greaterThan_refuses _ _).bind hmake
  · exact required_refuses fun _ _ => (Construct.lessThan_refuses _ _).bind hmake
  · exact required_refuses fun _ _ => (Construct.multipleOf_refuses _).bind hmake
  · exact stringCheck_refuses (h.format htag) (h.pattern htag) _ _ _
  · exact (Construct.make_refuses _ rfl).bind fun _ => pure
  · split
    · exact (Construct.overwrite_refuses _ _).bind fun _ =>
        (Construct.check_refuses _ _ _).bind fun _ => pure
    · exact refuse
  · exact refuse

theorem check_refuses (h : ReadableCheck d) : (check d).Refuses := by
  unfold check Construct.hashable
  rw [if_pos h.tag, pure_bind]
  split
  · exact checkOfTag_refuses h ‹_›
  · exact refuse

/-- A check definition that is refused with anything but a definition error cannot be read. -/
theorem readableCheck_of_refuses (h : (check d).Refuses) : ReadableCheck d := by
  have hcheck (hformat : field d "check" = .str "string_format") :
      (check d).answer {} =
        (stringCheck d (.str "string_format") (field d "error") (flag d "abort")).answer {} := by
    unfold check
    rw [hformat]
    rfl
  -- A field that cannot be read leads to a fault of another kind.
  refine ⟨?_, fun hformat => ?_, fun hformat hregex v hv => ?_⟩
  · refine Bool.eq_true_of_not_eq_false fun hnot => ?_
    have hfault : (check d).answer {} = .error .unsupported := by
      unfold check Construct.hashable
      rw [hnot]
      rfl
    cases (h {} _ hfault).choose_spec
  · refine Bool.eq_true_of_not_eq_false fun hnot => ?_
    have hfault : (check d).answer {} = .error .unsupported := by
      have hnamed : ∀ s, field d "format" ≠ .str s := fun s hs => by
        rw [hs] at hnot
        cases hnot
      rw [hcheck hformat]
      unfold stringCheck
      dsimp only
      split <;> first | exact absurd ‹_› (hnamed _) | skip
      unfold Construct.namedFormat Construct.hashable
      rw [hnot]
      rfl
    cases (h {} _ hfault).choose_spec
  · have hpattern : (check d).answer {} = (Construct.regex v (.str "regex") >>= fun rule =>
        Value.check <$> Construct.check rule (field d "error") (flag d "abort")).answer {} := by
      rw [hcheck hformat]
      unfold stringCheck required
      rw [hregex, hv]
      rfl
    have hfault (hnot : ∀ s, v ≠ .str s) : (check d).answer {} = .error .missingAttribute := by
      rw [hpattern]
      cases v <;> first | rfl | exact absurd rfl (hnot _)
    cases v with
    | str s =>
      cases hp : Pattern.ofText s with
      | ok p => exact ⟨s, p, rfl, hp⟩
      | error e =>
        unfold Construct.regex at hpattern
        dsimp only at hpattern
        rw [hp] at hpattern
        cases (h {} _ hpattern).choose_spec
    | _ => cases (h {} _ (hfault nofun)).choose_spec

end OfDefinition

open OfDefinition

/-- A malformed check definition is refused with a definition error whenever it can be read, and
only then. -/
theorem malformed_checks_refused (d : Entries) :
    (buildCheck (.dict d)).Refuses ↔ ReadableCheck d :=
  ⟨readableCheck_of_refuses, check_refuses⟩

end Assay
