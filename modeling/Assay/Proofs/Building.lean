import Assay.Evaluate.Lazy
import Assay.Proofs.Triple

/-!
# Building from definitions

Building a schema reads the table of kinds, gives out numbers and writes the log, and does nothing
else to a session (`Run.Builds`). A named definition is built in a lane of its own, so what it is
built to depends only on the definitions of its set and on the kinds (`buildPlace_builds`).
-/

namespace Assay

/-- The sessions have the same kinds and give out the same numbers next. -/
structure Numbered (σ τ : Session) : Prop where
  kinds : τ.kinds = σ.kinds
  lane : τ.lane = σ.lane
  nextRef : τ.nextRef = σ.nextRef

/-- The operation only gives out further numbers and writes the log, and answers alike in sessions
that number alike. -/
structure Run.Builds {α : Type} (x : Run α) : Prop where
  frame : ∀ σ, ∃ n l, (x.exec σ).2 = { σ with nextRef := n, log := l }
  advances : ∀ σ, σ.nextRef ≤ (x.exec σ).2.nextRef
  same : ∀ σ τ, Numbered σ τ →
    (x.exec τ).1 = (x.exec σ).1 ∧ (x.exec τ).2.nextRef = (x.exec σ).2.nextRef

namespace Run.Builds

variable {α β : Type} {x : Run α}

/-! ## Rules -/

theorem pure {a : α} : (Pure.pure a : Run α).Builds :=
  ⟨fun σ => ⟨σ.nextRef, σ.log, rfl⟩, fun _ => Nat.le_refl _, fun _ _ h => ⟨rfl, h.nextRef⟩⟩

theorem throw {e : Fault} : (MonadExcept.throw e : Run α).Builds :=
  ⟨fun σ => ⟨σ.nextRef, σ.log, rfl⟩, fun _ => Nat.le_refl _, fun _ _ h => ⟨rfl, h.nextRef⟩⟩

theorem refuse {cause : DefinitionError} : (Run.refuse cause : Run α).Builds := throw

theorem ofOption {fault : Fault} {o : Option α} : (Run.ofOption fault o).Builds := by
  cases o with
  | none => exact throw
  | some a => exact pure

theorem freshRef : Run.freshRef.Builds := by
  refine ⟨fun σ => ⟨σ.nextRef + 1, σ.log, rfl⟩, fun _ => Nat.le_succ _, fun σ τ h => ?_⟩
  simp [h.lane, h.nextRef]

theorem logLine {level text : String} : (Run.logLine level text).Builds :=
  ⟨fun σ => ⟨σ.nextRef, _, rfl⟩, fun _ => Nat.le_refl _, fun _ _ h => ⟨rfl, h.nextRef⟩⟩

/-- The frame keeps sessions numbered alike. -/
theorem numbered (hx : x.Builds) {σ τ : Session} (h : Numbered σ τ) :
    Numbered (x.exec σ).2 (x.exec τ).2 := by
  obtain ⟨n, l, hσ⟩ := hx.frame σ
  obtain ⟨n', l', hτ⟩ := hx.frame τ
  refine ⟨?_, ?_, (hx.same σ τ h).2⟩
  · rw [hσ, hτ]
    exact h.kinds
  · rw [hσ, hτ]
    exact h.lane

theorem bind {f : α → Run β} (hx : x.Builds) (hf : ∀ a, (f a).Builds) : (x >>= f).Builds where
  frame σ := by
    obtain ⟨n, l, hσ⟩ := hx.frame σ
    rw [exec_bind]
    rcases h : x.exec σ with ⟨e | a, σ'⟩ <;> rw [h] at hσ <;> cases hσ
    · exact ⟨n, l, rfl⟩
    · obtain ⟨n', l', h'⟩ := (hf a).frame { σ with nextRef := n, log := l }
      exact ⟨n', l', h'⟩
  advances σ := by
    have hfirst := hx.advances σ
    rw [exec_bind]
    rcases h : x.exec σ with ⟨e | a, σ'⟩ <;> rw [h] at hfirst
    · exact hfirst
    · exact Nat.le_trans hfirst ((hf a).advances σ')
  same σ τ h := by
    have hnumbered := hx.numbered h
    obtain ⟨hanswer, hnext⟩ := hx.same σ τ h
    rw [exec_bind, exec_bind]
    rcases hσ : x.exec σ with ⟨e | a, σ'⟩ <;> rcases hτ : x.exec τ with ⟨e' | a', τ'⟩ <;>
      rw [hσ, hτ] at hanswer hnumbered hnext <;> cases hanswer
    · exact ⟨rfl, hnext⟩
    · exact (hf a).same σ' τ' hnumbered

theorem map {f : α → β} (hx : x.Builds) : (f <$> x).Builds := by
  rw [map_eq_pure_bind]
  exact hx.bind fun _ => pure

theorem attempt (hx : x.Builds) : (Run.attempt x).Builds where
  frame := hx.frame
  advances := hx.advances
  same σ τ h := ⟨congrArg Except.ok (hx.same σ τ h).1, (hx.same σ τ h).2⟩

/-- An operation that starts by reading the kinds. -/
theorem reading {f : Session → Run α} (hsame : ∀ σ τ, τ.kinds = σ.kinds → f τ = f σ)
    (hf : ∀ σ, (f σ).Builds) : (get >>= f).Builds where
  frame σ := (hf σ).frame σ
  advances σ := (hf σ).advances σ
  same σ τ h := by
    rw [exec_bind, exec_bind]
    dsimp only [exec_get]
    rw [hsame σ τ h.kinds]
    exact (hf σ).same σ τ h

end Run.Builds

open Run.Builds

/-! ## Schemas and checks -/

namespace Construct

theorem items_builds (v : Value) : (items v).Builds := ofOption

theorem hashable_builds (v : Value) : (hashable v).Builds := by
  unfold hashable
  split
  · exact pure
  · exact throw

theorem make_builds (form : Form Value (Schema Value)) (shared : Shared) :
    (make form shared).Builds := by
  refine (items_builds _).bind fun checks => ?_
  dsimp only
  split
  · exact refuse
  · exact freshRef.bind fun _ => pure

theorem schemaAt_builds (place : String) (v : Value) : (schemaAt place v).Builds := by
  unfold schemaAt
  split
  · exact pure
  · exact refuse

theorem schemaAt?_builds (place : String) (v : Value) : (schemaAt? place v).Builds := by
  unfold schemaAt?
  split
  · exact pure
  · exact (schemaAt_builds place v).map

theorem namedFormat_builds (name abort : Value) (shared : Shared) :
    (namedFormat name abort shared).Builds := by
  refine (hashable_builds name).bind fun n => ?_
  split
  · exact make_builds _ _
  · exact refuse

theorem literal_builds (values : Value) (shared : Shared) : (literal values shared).Builds := by
  unfold literal
  dsimp only
  split
  · exact refuse
  · exact make_builds _ _

theorem enumeration_builds (entries : Value) (shared : Shared) :
    (enumeration entries shared).Builds := by
  refine Run.Builds.bind ?_ fun (es, cls) => ?_
  · split
    · exact pure
    · exact pure
    · exact pure
    · exact (items_builds _).bind fun _ => pure
  · dsimp only
    split
    · exact refuse
    · exact make_builds _ _

theorem shapeOf_builds (es : List (Value × Value)) : (shapeOf es).Builds := by
  induction es with
  | nil => exact pure
  | cons e es ih => exact (schemaAt_builds _ _).bind fun _ => ih.bind fun _ => pure

theorem object_builds (shape policy catchall : Value) (shared : Shared) :
    (object shape policy catchall shared).Builds := by
  unfold object
  split
  · exact refuse
  · exact ofOption.bind fun _ => (shapeOf_builds _).bind fun _ =>
      (schemaAt?_builds _ _).bind fun _ => make_builds _ _

theorem array_builds (element : Value) (shared : Shared) : (array element shared).Builds :=
  (schemaAt_builds _ _).bind fun _ => make_builds _ _

theorem set_builds (element : Value) (shared : Shared) : (set element shared).Builds :=
  (schemaAt_builds _ _).bind fun _ => make_builds _ _

theorem positions_builds (index : Nat) (vs : List Value) : (positions index vs).Builds := by
  induction vs generalizing index with
  | nil => exact pure
  | cons v vs ih => exact (schemaAt_builds _ _).bind fun _ => (ih _).bind fun _ => pure

theorem tuple_builds (schemas rest : Value) (shared : Shared) :
    (tuple schemas rest shared).Builds :=
  (items_builds _).bind fun _ => (positions_builds _ _).bind fun _ =>
    (schemaAt?_builds _ _).bind fun _ => make_builds _ _

theorem record_builds (keyType valueType : Value) (shared : Shared) :
    (record keyType valueType shared).Builds :=
  (schemaAt_builds _ _).bind fun _ => (schemaAt_builds _ _).bind fun _ => make_builds _ _

theorem map_builds (keyType valueType : Value) (shared : Shared) :
    (map keyType valueType shared).Builds :=
  (schemaAt_builds _ _).bind fun _ => (schemaAt_builds _ _).bind fun _ => make_builds _ _

theorem optionsFrom_builds (index : Nat) (vs : List Value) : (optionsFrom index vs).Builds := by
  induction vs generalizing index with
  | nil => exact pure
  | cons v vs ih =>
    unfold optionsFrom
    split
    · exact (ih _).bind fun _ => pure
    · exact refuse

theorem optionsOf_builds (options : Value) : (optionsOf options).Builds := by
  refine (items_builds _).bind fun vs => ?_
  split
  · exact refuse
  · exact optionsFrom_builds _ _

theorem union_builds (options : Value) (shared : Shared) : (union options shared).Builds :=
  (optionsOf_builds _).bind fun _ => make_builds _ _

theorem discriminatorValues_builds (option : Schema Value) (discriminator : Value) :
    (discriminatorValues option discriminator).Builds := by
  unfold discriminatorValues
  split
  · split
    · exact pure
    · exact refuse
  · refine (hashable_builds _).bind fun key => ?_
    split
    · exact refuse
    · split
      · exact pure
      · exact refuse
  · exact refuse

theorem addValues_builds (discriminator : Value) (index : Nat) (vs : List Value)
    (table : List (Value × Nat)) : (addValues discriminator index vs table).Builds := by
  induction vs generalizing table with
  | nil => exact pure
  | cons v vs ih =>
    unfold addValues
    split
    · exact refuse
    · exact ih _

theorem tableFrom_builds (discriminator : Value) (index : Nat) (options : List (Schema Value))
    (table : List (Value × Nat)) : (tableFrom discriminator index options table).Builds := by
  induction options generalizing index table with
  | nil => exact pure
  | cons o options ih =>
    exact (discriminatorValues_builds _ _).bind fun _ => (addValues_builds _ _ _ _).bind fun _ =>
      ih _ _

theorem discriminatedUnion_builds (discriminator options : Value) (shared : Shared) :
    (discriminatedUnion discriminator options shared).Builds :=
  (optionsOf_builds _).bind fun _ => (items_builds _).bind fun _ =>
    (tableFrom_builds _ _ _ _).bind fun _ => make_builds _ _

theorem side_builds (name : String) (v : Value) : (side name v).Builds := by
  unfold side
  split
  · exact pure
  · exact refuse

theorem intersection_builds (left right : Value) (shared : Shared) :
    (intersection left right shared).Builds :=
  (side_builds _ _).bind fun _ => (side_builds _ _).bind fun _ => make_builds _ _

theorem wrapper_builds (form : Schema Value → Form Value (Schema Value)) (inner : Value)
    (shared : Shared) : (wrapper form inner shared).Builds :=
  (schemaAt_builds _ _).bind fun _ => make_builds _ _

theorem pipe_builds (source target : Value) (shared : Shared) :
    (pipe source target shared).Builds :=
  (schemaAt_builds _ _).bind fun _ => (schemaAt_builds _ _).bind fun _ => make_builds _ _

theorem lazy_builds (getter name : Value) (shared : Shared) : (lazy getter name shared).Builds := by
  unfold lazy
  split
  · exact make_builds _ _
  · exact refuse

theorem check_builds (rule : Rule Value) (error abort : Value) : (check rule error abort).Builds :=
  freshRef.bind fun _ => pure

theorem lengthBound_builds (rule : Nat → Rule Value) (bound : Value) :
    (lengthBound rule bound).Builds := by
  unfold lengthBound
  split
  · split
    · exact refuse
    · exact pure
  · exact refuse

theorem greaterThan_builds (bound inclusive : Value) : (greaterThan bound inclusive).Builds := by
  unfold greaterThan
  split
  · exact refuse
  · exact refuse
  · exact pure

theorem lessThan_builds (bound inclusive : Value) : (lessThan bound inclusive).Builds := by
  unfold lessThan
  split
  · exact refuse
  · exact refuse
  · exact pure

theorem multipleOf_builds (divisor : Value) : (multipleOf divisor).Builds := by
  unfold multipleOf
  split
  · exact pure
  · exact refuse

theorem regex_builds (pattern format : Value) : (regex pattern format).Builds := by
  unfold regex
  split
  · split
    · exact pure
    · exact throw
  · exact throw

theorem overwrite_builds (fn name : Value) : (overwrite fn name).Builds := by
  unfold overwrite
  split
  · exact pure
  · exact pure
  · exact pure
  · exact refuse
  · exact pure

end Construct

/-! ## Definitions -/

namespace OfDefinition

theorem required_builds (d : Entries) (tag : Value) (name : String) :
    (required d tag name).Builds := by
  unfold required
  split
  · exact pure
  · exact refuse

theorem stringCheck_builds (d : Entries) (tag error abort : Value) :
    (stringCheck d tag error abort).Builds := by
  have hmake : ∀ rule, (Value.check <$> Construct.check rule error abort).Builds := fun rule =>
    (Construct.check_builds rule error abort).map
  unfold stringCheck
  dsimp only
  split
  · exact (required_builds _ _ _).bind fun _ => (Construct.regex_builds _ _).bind hmake
  · exact hmake _
  · exact hmake _
  · exact (required_builds _ _ _).bind fun _ => hmake _
  · exact (required_builds _ _ _).bind fun _ => hmake _
  · exact (required_builds _ _ _).bind fun _ => hmake _
  · exact (Construct.namedFormat_builds _ _ _).bind fun _ => pure

theorem checkOfTag_builds (d : Entries) (tag : String) : (checkOfTag d tag).Builds := by
  have hmake : ∀ rule, (Value.check <$> Construct.check rule (field d "error")
      (flag d "abort")).Builds := fun rule => (Construct.check_builds rule _ _).map
  unfold checkOfTag
  dsimp only
  split
  · exact (required_builds _ _ _).bind fun _ => (Construct.lengthBound_builds _ _).bind hmake
  · exact (required_builds _ _ _).bind fun _ => (Construct.greaterThan_builds _ _).bind hmake
  · exact (required_builds _ _ _).bind fun _ => (Construct.lessThan_builds _ _).bind hmake
  · exact (required_builds _ _ _).bind fun _ => (Construct.multipleOf_builds _).bind hmake
  · exact stringCheck_builds _ _ _ _
  · exact (Construct.make_builds _ _).bind fun _ => pure
  · split
    · exact (Construct.overwrite_builds _ _).bind fun _ =>
        (Construct.check_builds _ _ _).bind fun _ => pure
    · exact refuse
  · exact refuse

theorem buildCheck_builds (definition : Value) : (buildCheck definition).Builds := by
  unfold buildCheck
  split
  · refine (Construct.hashable_builds _).bind fun tag => ?_
    split
    · exact checkOfTag_builds _ _
    · exact refuse
  · exact throw

theorem warnUnknown_builds (d : Entries) (tag : String) : (warnUnknown d tag).Builds := by
  refine ofOption.bind fun ignored => ?_
  split
  · exact logLine
  · exact pure

theorem checks_builds (strict : Bool) (definitions : List Value) :
    (checks strict definitions).Builds := by
  induction definitions with
  | nil => exact pure
  | cons definition rest ih =>
    refine (buildCheck_builds definition).attempt.bind fun e => ?_
    split
    · exact ih.bind fun _ => pure
    · split
      · exact refuse
      · exact logLine.bind fun _ => ih
    · exact throw

theorem checksOf_builds (strict : Bool) (d : Entries) : (checksOf strict d).Builds := by
  unfold checksOf
  dsimp only
  split
  · exact (Construct.items_builds _).bind fun _ => checks_builds _ _
  · exact pure.bind fun _ => checks_builds _ _

theorem mapM_builds {α β : Type} {f : α → Run β} (hf : ∀ a, (f a).Builds) (as : List α) :
    (as.mapM f).Builds := by
  induction as with
  | nil => exact pure
  | cons a as ih =>
    rw [List.mapM_cons]
    exact (hf a).bind fun _ => ih.bind fun _ => pure

theorem generic_builds (scope : Scope) (d : Entries) : (generic scope d).Builds := by
  unfold generic
  dsimp only
  split
  · refine .reading (fun σ τ h => by rw [h]) fun σ => ?_
    have hrest := fun (f : Value × Value → Run (String × Value)) (hf : ∀ e, (f e).Builds)
        (kind : Value) => (checksOf_builds scope.strict d).bind fun checks =>
      (mapM_builds hf (d.filter fun e => !(e.1.str?.any commonFields.contains))).bind
        fun extra => Construct.make_builds .generic
          ⟨.list checks, field d "error", ("kind", kind) :: extra⟩
    split
    · refine refuse.bind fun _ => hrest _ (fun e => ?_) _
      split <;> first | exact throw | exact pure
    · refine hrest _ (fun e => ?_) _
      split <;> first | exact throw | exact pure
  · exact refuse

section

variable {build : Value → Run (Schema Value)}

theorem child_builds (hb : ∀ v, (build v).Builds) (d : Entries) (name : String) :
    (child build d name).Builds := by
  unfold child
  split
  · exact (hb _).map
  · exact refuse

theorem child?_builds (hb : ∀ v, (build v).Builds) (v : Value) : (child? build v).Builds := by
  unfold child?
  split
  · exact pure
  · exact (hb _).map

theorem children_builds (hb : ∀ v, (build v).Builds) (vs : List Value) :
    (children build vs).Builds := by
  induction vs with
  | nil => exact pure
  | cons v vs ih => exact (hb v).bind fun _ => ih.bind fun _ => pure

theorem shape_builds (hb : ∀ v, (build v).Builds) (es : List (Value × Value)) :
    (shape build es).Builds := by
  induction es with
  | nil => exact pure
  | cons e es ih => exact (hb e.2).bind fun _ => ih.bind fun _ => pure

theorem listed_builds (d : Entries) (name : String) : (listed d name).Builds := by
  unfold listed
  dsimp only
  split
  · exact Construct.items_builds _
  · exact pure

theorem scalar_builds (d : Entries) (tag : String) : (scalar d tag).Builds := by
  unfold scalar
  dsimp only
  split
  · split
    · exact Construct.namedFormat_builds _ _ _
    · exact Construct.make_builds _ _
  · split
    · exact Construct.make_builds _ _
    · split
      · exact refuse
      · exact Construct.make_builds _ _

theorem enumerated_builds (d : Entries) (tag : String) : (enumerated d tag).Builds := by
  unfold enumerated
  split
  · split
    · exact (Construct.items_builds _).bind fun _ => Construct.literal_builds _ _
    · exact Construct.literal_builds _ _
    · exact refuse
  · split
    · exact refuse
    · exact Construct.enumeration_builds _ _

theorem reference_builds (scope : Scope) (d : Entries) : (reference scope d).Builds := by
  refine (Construct.hashable_builds _).bind fun name => ?_
  split
  · exact Construct.lazy_builds _ _ _
  · exact ofOption.bind fun _ => refuse

theorem object_builds (hb : ∀ v, (build v).Builds) (d : Entries) : (object build d).Builds := by
  unfold object
  dsimp only
  split
  · exact refuse
  · exact (shape_builds hb _).bind fun _ => (child?_builds hb _).bind fun _ =>
      Construct.object_builds _ _ _ _

theorem union_builds (hb : ∀ v, (build v).Builds) (d : Entries) : (union build d).Builds := by
  refine (listed_builds d "options").bind fun vs => (children_builds hb vs).bind fun options => ?_
  dsimp only
  split
  · exact Construct.discriminatedUnion_builds _ _ _
  · exact Construct.union_builds _ _

theorem form_builds (hb : ∀ v, (build v).Builds) (scope : Scope) (d : Entries) (tag : String) :
    (form build scope d tag).Builds := by
  have hchild := child_builds hb d
  unfold form
  dsimp only
  split
  · exact scalar_builds _ _
  · exact scalar_builds _ _
  · exact Construct.make_builds _ _
  · exact Construct.make_builds _ _
  · exact Construct.make_builds _ _
  · exact Construct.make_builds _ _
  · exact Construct.make_builds _ _
  · exact Construct.make_builds _ _
  · exact enumerated_builds _ _
  · exact enumerated_builds _ _
  · exact object_builds hb _
  · exact (hchild _).bind fun _ => Construct.array_builds _ _
  · exact (listed_builds _ _).bind fun _ => (children_builds hb _).bind fun _ =>
      (child?_builds hb _).bind fun _ => Construct.tuple_builds _ _ _
  · exact (hchild _).bind fun _ => (hchild _).bind fun _ => Construct.record_builds _ _ _
  · exact (hchild _).bind fun _ => (hchild _).bind fun _ => Construct.map_builds _ _ _
  · exact (hchild _).bind fun _ => Construct.set_builds _ _
  · exact union_builds hb _
  · exact (hchild _).bind fun _ => (hchild _).bind fun _ => Construct.intersection_builds _ _ _
  · exact (hchild _).bind fun _ => Construct.wrapper_builds _ _ _
  · exact (hchild _).bind fun _ => Construct.wrapper_builds _ _ _
  · exact (hchild _).bind fun _ => Construct.wrapper_builds _ _ _
  · exact (hchild _).bind fun _ => Construct.wrapper_builds _ _ _
  · exact (hchild _).bind fun _ => Construct.wrapper_builds _ _ _
  · exact (hchild _).bind fun _ => Construct.wrapper_builds _ _ _
  · exact (hchild _).bind fun _ => Construct.wrapper_builds _ _ _
  · exact (hchild _).bind fun _ => (hchild _).bind fun _ => Construct.pipe_builds _ _ _
  · exact reference_builds _ _
  · exact reference_builds _ _
  · exact refuse

end

/-- The schema with the message provider of its definition, and then with a number of its own. -/
def withError (error : Value) (s : Schema Value) : Run (Schema Value) :=
  match error with
  | .str e => do return { s with id := ← Run.freshRef, error := .str e }
  | _ => return s

/-- Checks are attached first, and then the message provider. -/
theorem attach_eq (scope : Scope) (d : Entries) (s : Schema Value) :
    attach scope d s = checksOf scope.strict d >>= fun checks =>
      if checks.isEmpty then withError (field d "error") s
      else Run.freshRef >>= fun id =>
        withError (field d "error") { s with id := id, checks := s.checks ++ checks } := by
  refine bind_congr fun checks => ?_
  dsimp only
  split <;> rfl

theorem withError_builds (error : Value) (s : Schema Value) : (withError error s).Builds := by
  unfold withError
  split
  · exact freshRef.bind fun _ => pure
  · exact pure

theorem attach_builds (scope : Scope) (d : Entries) (s : Schema Value) :
    (attach scope d s).Builds := by
  rw [attach_eq]
  refine (checksOf_builds _ _).bind fun checks => ?_
  split
  · exact withError_builds _ _
  · exact freshRef.bind fun _ => withError_builds _ _

/-- Building from a definition only gives out numbers and writes the log. -/
theorem build_builds (scope : Scope) (depth : Nat) (definition : Value) :
    (build scope depth definition).Builds := by
  induction depth generalizing definition with
  | zero =>
    unfold build
    split
    · exact refuse
    · exact throw
  | succ depth ih =>
    unfold build
    split
    · exact refuse
    · refine (Construct.hashable_builds _).bind fun tag => ?_
      split
      · split
        · exact (warnUnknown_builds _ _).bind fun _ => (form_builds ih _ _ _).bind fun _ =>
            attach_builds _ _ _
        · exact generic_builds _ _
      · exact generic_builds _ _

end OfDefinition

/-! ## Named definitions -/

/-- A named definition is built in a lane of its own: its answer depends on the kinds only, and
only the log is changed. -/
theorem buildPlace_exec (id : Nat) (set : DefinitionSet) (place : Nat) {σ τ : Session}
    (hkinds : τ.kinds = σ.kinds) :
    (buildPlace id set place).answer τ = (buildPlace id set place).answer σ ∧
      ∃ l, ((buildPlace id set place).exec τ).2 = { τ with log := l } := by
  unfold buildPlace
  dsimp only
  generalize ((set.definitions[place]?).map (·.2)).getD Value.null = definition
  have hb := OfDefinition.build_builds ⟨id, set.definitions, set.strict⟩ definition.depth definition
  have hnumbered : Numbered { σ with lane := Run.numberIn id place + 1, nextRef := 0 }
      { τ with lane := Run.numberIn id place + 1, nextRef := 0 } := ⟨hkinds, rfl, rfl⟩
  refine ⟨(hb.same _ _ hnumbered).1, ?_⟩
  obtain ⟨n, l, hframe⟩ := hb.frame { τ with lane := Run.numberIn id place + 1, nextRef := 0 }
  refine ⟨l, ?_⟩
  rw [Run.exec_inLane, hframe]

end Assay
