import Assay.Proofs.Lockstep
import Assay.Proofs.Malformed
import Assay.Proofs.Pruning
import Assay.Proofs.SideBySide

/-!
# Lenient builds

A lenient build of a definition goes in lockstep with a strict build of the pruned definition
(`buildSchema_lockstep`). Sessions that go together are the same but for the lines of the log and
the sets of definitions, of which the lenient ones are matched by strict ones with pruned
definitions (`Session.Prunes`). Refused checks are skipped on the one side without giving out a
number (`OfDefinition.checks_lockstep`), and everything else is the same on both sides.
-/

namespace Assay

open Run

/-! ## Sessions that go together -/

/-- The sets are the same, or the one is lenient, and the other one strict with pruned definitions.
The same definitions were built. -/
inductive DefinitionSet.Prunes : DefinitionSet → DefinitionSet → Prop
  | same {set : DefinitionSet} : Prunes set set
  | lenient {definitions : Entries} {built : List (Nat × Schema Value)} :
      Prunes ⟨definitions, false, built⟩ ⟨Value.prunedEntries definitions, true, built⟩

/-- The sets of definitions of the sessions match, and the sessions are the same but for these and
for the lines of the log. -/
inductive Session.Prunes : Session → Session → Prop
  | intro {σ : Session} {log : List String} {sets : List (Nat × DefinitionSet)} :
      List.Forall₂ (fun e f => e.1 = f.1 ∧ e.2.Prunes f.2) σ.definitionSets sets →
      Prunes σ { σ with log := log, definitionSets := sets }

theorem Session.Prunes.refl (σ : Session) : σ.Prunes σ :=
  .intro (List.forall₂_same.2 fun _ _ => ⟨rfl, .same⟩)

/-- Sessions that are the same but for a lenient set and the strict set that matches it. -/
def Pace.pruning : Pace := ⟨Session.Prunes, True⟩

namespace Pace.pruning

theorem bookkeeping : Pace.pruning.Bookkeeping where
  kinds _ _ h := by cases h; rfl
  config _ _ h := by cases h; rfl
  spent _ _ h := by cases h; rfl
  numbers _ _ h := by cases h; rfl
  noting _ _ _ h := by
    cases h with
    | intro hsets => exact .intro hsets
  numbering _ _ h := by
    cases h with
    | intro hsets => exact .intro hsets
  spending _ _ _ h := by
    cases h with
    | intro hsets => exact .intro hsets

theorem inLane {α : Type} {R : α → α → Prop} {x y : Run α} (h : x.Lockstep .pruning R y)
    (lane : Nat) : (Run.inLane lane x).Lockstep .pruning R (Run.inLane lane y) := by
  rintro σ _ ⟨hsets⟩
  obtain ⟨hafter, hmatches⟩ := h { σ with lane := lane, nextRef := 0 } _ (.intro hsets)
  rw [exec_inLane, exec_inLane]
  refine ⟨?_, hmatches⟩
  generalize (x.exec { σ with lane := lane, nextRef := 0 }).2 = σ' at hafter
  generalize (y.exec _).2 = τ' at hafter
  cases hafter with
  | intro hsets => exact .intro hsets

end Pace.pruning

/-- What only gives out numbers and writes the log does not tell the sessions apart. -/
theorem Run.Builds.steady {α : Type} {x : Run α} (hx : x.Builds) : x.Steady .pruning := by
  rintro σ _ ⟨hsets⟩
  rename_i log sets
  obtain ⟨n, l, hσ⟩ := hx.frame σ
  obtain ⟨n', l', hτ⟩ := hx.frame { σ with log := log, definitionSets := sets }
  obtain ⟨hanswer, hnext⟩ := hx.same σ { σ with log := log, definitionSets := sets } ⟨rfl, rfl, rfl⟩
  rw [hσ, hτ] at hnext ⊢
  obtain rfl : n' = n := hnext
  refine ⟨.intro hsets, ?_⟩
  rw [hanswer]
  cases (x.exec σ).1 with
  | error e => exact ⟨rfl, fun _ => trivial⟩
  | ok a => exact rfl

theorem Value.depth_of_entries? {v : Value} {d : Entries} (h : v.entries? = some d) :
    v.depth = depthEntries d + 1 := by
  cases v with
  | dict es | view es =>
    cases h
    rfl
  | _ => cases h

namespace OfDefinition

open Value (depthEntries prunedEntries prunedFields)

/-! ## Checks -/

/-- A lenient build skips what is refused. -/
theorem checks_skip {c : Value} (hc : c.isRefused = true) (cs : List Value) (σ : Session) :
    ∃ l, (checks false (c :: cs)).exec σ = (checks false cs).exec { σ with log := l } := by
  obtain ⟨cause, hexec⟩ := Value.isRefused_iff.1 hc σ
  have hattempt : (attempt (buildCheck c)).exec σ = (.ok (.error (.definition cause)), σ) :=
    congrArg (fun r => (Except.ok r.1, r.2)) hexec
  rw [checks, exec_bind, hattempt]
  exact ⟨_, rfl⟩

theorem checks_lockstep (cs : List Value) :
    (checks false cs).Lockstep .pruning Eq (checks true (cs.filter (!·.isRefused))) := by
  induction cs with
  | nil => exact .pure rfl
  | cons c cs ih =>
    cases hc : c.isRefused with
    | true =>
      rw [List.filter_cons_of_neg (by simp [hc])]
      rintro σ _ ⟨hsets⟩
      obtain ⟨l, hskip⟩ := checks_skip hc cs σ
      rw [hskip]
      exact ih _ _ (.intro hsets)
    | false =>
      rw [List.filter_cons_of_pos (by simp [hc])]
      have hattempt : (attempt (buildCheck c)).Lockstep .pruning
          (fun e f => e = f ∧ ∀ cause, e ≠ .error (.definition cause))
          (attempt (buildCheck c)) := by
        intro σ τ h
        obtain ⟨hafter, hmatches⟩ := (buildCheck_builds c).steady σ τ h
        exact ⟨hafter, hmatches.eq, Value.not_refused hc σ⟩
      refine hattempt.bind ?_
      rintro e _ ⟨rfl, he⟩
      split
      · exact ih.map fun _ _ h => congrArg _ h
      · next cause => exact absurd rfl (he cause)
      · exact .throw fun _ => trivial

section

variable {id : Nat} {definitions d : Entries} {tag : Value}

/-- What is left of a list of checks is gone through as if the refused ones were left out then. -/
theorem items_withoutRefused (v : Value) :
    (if v.withoutRefused.truthy then Construct.items v.withoutRefused else pure []) =
      List.filter (!·.isRefused) <$> if v.truthy then Construct.items v else pure [] := by
  have hitems : Construct.items v.withoutRefused =
      List.filter (!·.isRefused) <$> Construct.items v := by
    unfold Construct.items
    rw [Value.iterate?_withoutRefused]
    cases v.iterate? <;> rfl
  cases hleft : v.withoutRefused.truthy with
  | true => rw [if_pos rfl, Value.truthy_of_withoutRefused hleft, if_pos rfl, hitems]
  | false =>
    rw [if_neg Bool.false_ne_true]
    split
    · next hv =>
      rw [← hitems, Construct.items, Value.iterate?_of_emptied hv hleft]
      rfl
    · rfl

theorem checksOf_eq (strict : Bool) (d : Entries) : checksOf strict d =
    (if (field d "checks").truthy then Construct.items (field d "checks") else pure []) >>=
      checks strict := by
  unfold checksOf
  dsimp only
  split <;> rfl

/-- The checks of a definition and of the pruned one. -/
theorem checksOf_lockstep :
    (checksOf false d).Lockstep .pruning Eq (checksOf true (prunedFields tag d)) := by
  have hchecks : field (prunedFields tag d) "checks" = (field d "checks").withoutRefused :=
    field_prunedFields
  have hitems : (if (field d "checks").truthy then Construct.items (field d "checks")
      else pure []).Builds := by
    split
    · exact Construct.items_builds _
    · exact .pure
  rw [checksOf_eq, checksOf_eq, hchecks, items_withoutRefused, map_eq_pure_bind, bind_assoc]
  exact .after hitems.steady fun cs => checks_lockstep cs

/-! ## Nested definitions -/

variable {build build' : Value → Run (Schema Value)}

/-- Definitions at most this deep, and the pruned ones, are built in lockstep. -/
def InStep (depth depth' : Nat) (build build' : Value → Run (Schema Value)) : Prop :=
  ∀ v : Value, v.depth ≤ depth → v.pruned.depth ≤ depth' →
    (build v).Lockstep .pruning Eq (build' v.pruned)

section

variable {tag name : String}
  (hbuild : InStep (depthEntries d) (depthEntries (prunedFields (.str tag) d))
    build build')
include hbuild

theorem child_lockstep (hname : name ∈ childFields tag) : (child build d name).Lockstep .pruning Eq
    (child build' (prunedFields (.str tag) d) name) := by
  have hget : Entries.get? (prunedFields (.str tag) d) name =
      (d.get? name).map Value.pruned := by
    rw [get?_prunedFields, nesting_child hname]
    rfl
  unfold child
  rw [field_prunedFields_type]
  cases hv : d.get? name with
  | none =>
    rw [hget, hv]
    exact .throw fun _ => trivial
  | some v =>
    rw [hv] at hget
    have hbuilt := hbuild v (depth_get?_le hv) (depth_get?_le hget)
    rw [hget]
    exact hbuilt.map fun _ _ h => congrArg _ h

theorem child?_lockstep (hname : name ∈ childFields tag) :
    (child? build (field d name)).Lockstep .pruning Eq
      (child? build' (field (prunedFields (.str tag) d) name)) := by
  have hfield : field (prunedFields (.str tag) d) name = (field d name).pruned := by
    rw [field_prunedFields, nesting_child hname]
    rfl
  have hdepth := depth_field_le (d := prunedFields (.str tag) d) name
  rw [hfield] at hdepth ⊢
  have hbuilt := (hbuild _ (depth_field_le name) hdepth).map (S := Eq)
    fun _ _ h => congrArg Value.schema h
  cases hv : field d name with
  | null => exact .pure rfl
  | _ =>
    rw [hv] at hbuilt
    exact hbuilt

end

theorem children_lockstep {vs : List Value}
    (h : ∀ v ∈ vs, (build v).Lockstep .pruning Eq (build' v.pruned)) :
    (children build vs).Lockstep .pruning Eq (children build' (vs.map Value.pruned)) := by
  induction vs with
  | nil => exact .pure rfl
  | cons v vs ih =>
    obtain ⟨hv, hvs⟩ := List.forall_mem_cons.1 h
    exact hv.next fun s => (ih hvs).map fun _ _ h => congrArg _ h

theorem shape_lockstep {es : List (Value × Value)}
    (h : ∀ e ∈ es, (build e.2).Lockstep .pruning Eq (build' e.2.pruned)) :
    (shape build es).Lockstep .pruning Eq (shape build' (prunedEntries es)) := by
  induction es with
  | nil => exact .pure rfl
  | cons e es ih =>
    obtain ⟨he, hes⟩ := List.forall_mem_cons.1 h
    exact he.next fun s => (ih hes).map fun _ _ h => congrArg _ h

/-- The definitions of a field that holds a list of them. -/
theorem listed_lockstep {tag name : String} (hname : nesting (.str tag) name = .items) :
    (listed d name).Lockstep .pruning (fun vs ws => ws = vs.map Value.pruned ∧ ∀ v ∈ vs,
        v.depth ≤ depthEntries d ∧
        v.pruned.depth ≤ depthEntries (prunedFields (.str tag) d))
      (listed (prunedFields (.str tag) d) name) := by
  have hfield : field (prunedFields (.str tag) d) name = (field d name).prunedItems := by
    rw [field_prunedFields, hname]
    rfl
  have hdepth := depth_field_le (d := prunedFields (.str tag) d) name
  rw [hfield] at hdepth
  have hiterate := Value.iterate?_prunedItems (field d name)
  unfold listed
  dsimp only
  rw [hfield, Value.truthy_prunedItems]
  split
  · unfold Construct.items
    cases hvs : (field d name).iterate? with
    | none =>
      rw [hiterate, hvs]
      exact .throw fun _ => trivial
    | some vs =>
      rw [hvs] at hiterate
      rw [hiterate]
      refine .pure ⟨rfl, fun v hv => ⟨?_, ?_⟩⟩
      · exact Nat.le_trans (Value.depth_iterate?_le hvs hv) (depth_field_le name)
      · exact Nat.le_trans (Value.depth_iterate?_le hiterate (List.mem_map_of_mem hv)) hdepth
  · exact .pure ⟨rfl, List.forall_mem_nil _⟩

/-- The schemas of the definitions of a field that holds a list of them. -/
theorem listed_children_lockstep {tag : String} (name : String)
    {f g : List Value → Run (Schema Value)} (hname : nesting (.str tag) name = .items)
    (hbuild : InStep (depthEntries d) (depthEntries (prunedFields (.str tag) d))
      build build') (hfg : ∀ ss, (f ss).Lockstep .pruning Eq (g ss)) :
    (listed d name >>= fun vs => children build vs >>= f).Lockstep .pruning Eq
      (listed (prunedFields (.str tag) d) name >>= fun vs => children build' vs >>= g) := by
  refine (listed_lockstep hname).bind ?_
  rintro vs _ ⟨rfl, hdepth⟩
  exact (children_lockstep fun v hv => hbuild v (hdepth v hv).1 (hdepth v hv).2).next hfg

/-! ## Forms -/

/-- Forms that nest no definitions are the same. -/
theorem scalar_prunedFields (tag : String) (h : tag = "string" ∨ tag = "number") :
    scalar (prunedFields (.str tag) d) tag = scalar d tag := by
  have hfield {name : String} (hname : nesting (.str tag) name = .nothing) :
      field (prunedFields (.str tag) d) name = field d name :=
    field_prunedFields_nothing hname
  unfold scalar flag
  rcases h with rfl | rfl <;> rw [hfield rfl, hfield rfl, hfield rfl]

theorem enumerated_prunedFields (tag : String) (h : tag = "literal" ∨ tag = "enum") :
    enumerated (prunedFields (.str tag) d) tag = enumerated d tag := by
  have hget {name : String} (hname : nesting (.str tag) name = .nothing) :
      Entries.get? (prunedFields (.str tag) d) name = d.get? name :=
    get?_prunedFields_nothing hname
  unfold enumerated field
  rcases h with rfl | rfl <;> rw [hget rfl, hget rfl, hget rfl]

/-- A named definition is there on both sides, or on none. -/
theorem reference_prunedFields {tag : Value} :
    reference ⟨id, prunedEntries definitions, true⟩ (prunedFields tag d) =
      reference ⟨id, definitions, false⟩ d := by
  unfold reference
  rw [field_prunedFields_name]
  dsimp only
  simp only [contains_prunedEntries, keys_prunedEntries]

/-- The entries of a shape are no deeper than the definition. -/
theorem shape_depth {es : List (Value × Value)} (h : (field d "shape").entries? = some es)
    {e : Value × Value} (he : e ∈ es) : e.2.depth ≤ depthEntries d :=
  Nat.le_trans (Nat.le_of_lt (Value.depth_entry_lt h e he).2) (depth_field_le "shape")

theorem object_lockstep
    (hbuild : InStep (depthEntries d)
      (depthEntries (prunedFields (.str "object") d)) build build') :
    (object build d).Lockstep .pruning Eq
      (object build' (prunedFields (.str "object") d)) := by
  have hshape : field (prunedFields (.str "object") d) "shape" =
      (field d "shape").prunedShape := field_prunedFields
  have hpolicy : Entries.get? (prunedFields (.str "object") d) "unknown_keys" =
      d.get? "unknown_keys" := get?_prunedFields_nothing rfl
  have hentries := Value.entries?_prunedShape (field d "shape")
  have hgiven : (if (field d "shape").truthy then (field d "shape").prunedShape.entries?
        else some []) =
      (if (field d "shape").truthy then (field d "shape").entries? else some []).map
        prunedEntries := by
    split
    · exact hentries
    · rfl
  unfold object
  dsimp only
  rw [hpolicy, hshape, Value.truthy_prunedShape, hgiven]
  generalize ho : (if (field d "shape").truthy then (field d "shape").entries? else some []) = o
  cases o with
  | none => exact .throw fun _ => trivial
  | some es =>
    have hall : ∀ e ∈ es, (build e.2).Lockstep .pruning Eq (build' e.2.pruned) := by
      split at ho
      · rw [ho, ← hshape] at hentries
        intro e he
        have hmem : (e.1, e.2.pruned) ∈ prunedEntries es := by
          rw [Value.prunedEntries_eq_map]
          exact List.mem_map_of_mem he
        exact hbuild e.2 (shape_depth ho he) (shape_depth hentries hmem)
      · cases ho
        nofun
    exact (shape_lockstep hall).next fun shape => (child?_lockstep hbuild (by decide)).next
      fun catchall => (Construct.object_builds _ _ _ _).steady

theorem union_lockstep
    (hbuild : InStep (depthEntries d)
      (depthEntries (prunedFields (.str "union") d)) build build') :
    (union build d).Lockstep .pruning Eq (union build' (prunedFields (.str "union") d)) := by
  have hfield : field (prunedFields (.str "union") d) "discriminator" =
      field d "discriminator" := field_prunedFields_nothing rfl
  unfold union
  rw [hfield]
  refine listed_children_lockstep _ rfl hbuild fun options => ?_
  dsimp only
  split
  · exact (Construct.discriminatedUnion_builds _ _ _).steady
  · exact (Construct.union_builds _ _).steady

/-- Forms of a tag. -/
theorem form_lockstep {tag : String}
    (hbuild : InStep (depthEntries d)
      (depthEntries (prunedFields (.str tag) d)) build build') :
    (form build ⟨id, definitions, false⟩ d tag).Lockstep .pruning Eq
      (form build' ⟨id, prunedEntries definitions, true⟩
        (prunedFields (.str tag) d) tag) := by
  have hchild {name : String} {f : Value → Run (Schema Value)} (hname : name ∈ childFields tag)
      (hf : ∀ s, (f s).Builds) : (child build d name >>= f).Lockstep .pruning Eq
        (child build' (prunedFields (.str tag) d) name >>= f) :=
    (child_lockstep hbuild hname).next fun s => (hf s).steady
  have hchildren {name other : String} {f : Value → Value → Run (Schema Value)}
      (hname : name ∈ childFields tag) (hother : other ∈ childFields tag)
      (hf : ∀ s t, (f s t).Builds) :
      (child build d name >>= fun s => child build d other >>= f s).Lockstep .pruning Eq
        (child build' (prunedFields (.str tag) d) name >>= fun s =>
          child build' (prunedFields (.str tag) d) other >>= f s) :=
    (child_lockstep hbuild hname).next fun s => hchild hother (hf s)
  have hfield {name : String} (hname : nesting (.str tag) name = .nothing) :
      field (prunedFields (.str tag) d) name = field d name :=
    field_prunedFields_nothing hname
  have hflag (hnothing : nesting (.str tag) "coerce" = .nothing) :
      flag (prunedFields (.str tag) d) "coerce" = flag d "coerce" := by
    unfold flag
    rw [field_prunedFields_nothing hnothing]
  unfold form
  dsimp only
  split
  · rw [scalar_prunedFields _ (.inl rfl)]
    exact (scalar_builds d _).steady
  · rw [scalar_prunedFields _ (.inr rfl)]
    exact (scalar_builds d _).steady
  · rw [hflag rfl]
    exact (Construct.make_builds _ _).steady
  · rw [hflag rfl]
    exact (Construct.make_builds _ _).steady
  · exact (Construct.make_builds _ _).steady
  · exact (Construct.make_builds _ _).steady
  · exact (Construct.make_builds _ _).steady
  · exact (Construct.make_builds _ _).steady
  · rw [enumerated_prunedFields _ (.inl rfl)]
    exact (enumerated_builds d _).steady
  · rw [enumerated_prunedFields _ (.inr rfl)]
    exact (enumerated_builds d _).steady
  · exact object_lockstep hbuild
  · exact hchild (by decide) fun _ => Construct.array_builds _ _
  · exact listed_children_lockstep "items" rfl hbuild fun items =>
      (child?_lockstep hbuild (by decide)).next fun rest => (Construct.tuple_builds _ _ _).steady
  · exact hchildren (by decide) (by decide) fun _ _ => Construct.record_builds _ _ _
  · exact hchildren (by decide) (by decide) fun _ _ => Construct.map_builds _ _ _
  · exact hchild (by decide) fun _ => Construct.set_builds _ _
  · exact union_lockstep hbuild
  · exact hchildren (by decide) (by decide) fun _ _ => Construct.intersection_builds _ _ _
  · exact hchild (by decide) fun _ => Construct.wrapper_builds _ _ _
  · exact hchild (by decide) fun _ => Construct.wrapper_builds _ _ _
  · exact hchild (by decide) fun _ => Construct.wrapper_builds _ _ _
  · exact hchild (by decide) fun _ => Construct.wrapper_builds _ _ _
  · rw [hfield rfl]
    exact hchild (by decide) fun _ => Construct.wrapper_builds _ _ _
  · rw [hfield rfl]
    exact hchild (by decide) fun _ => Construct.wrapper_builds _ _ _
  · rw [hfield rfl]
    exact hchild (by decide) fun _ => Construct.wrapper_builds _ _ _
  · exact hchildren (by decide) (by decide) fun _ _ => Construct.pipe_builds _ _ _
  · rw [reference_prunedFields]
    exact (reference_builds _ d).steady
  · rw [reference_prunedFields]
    exact (reference_builds _ d).steady
  · exact .throw fun _ => trivial

/-- What is attached to a schema. -/
theorem attach_lockstep {tag : Value} (s : Schema Value) :
    (attach ⟨id, definitions, false⟩ d s).Lockstep .pruning Eq
      (attach ⟨id, prunedEntries definitions, true⟩ (prunedFields tag d) s) := by
  rw [attach_eq, attach_eq, field_prunedFields_error]
  refine checksOf_lockstep.next fun checks => ?_
  split
  · exact (withError_builds _ _).steady
  · exact (Run.Builds.freshRef.bind fun _ => withError_builds _ _).steady

/-- Fields that not every definition has are the same for a tag that nests no definitions. -/
theorem filter_prunedFields {tag : Value} (htag : ∀ name, name ∉ commonFields →
    nesting tag name = .nothing) :
    ((prunedFields tag d).filter fun e => !(e.1.str?.any commonFields.contains)) =
      d.filter fun e => !(e.1.str?.any commonFields.contains) := by
  rw [Value.prunedFields_eq_map, List.filter_map]
  refine (List.map_congr_left (g := id) fun e he => ?_).trans (List.map_id _)
  have hcommon := (List.mem_filter.1 he).2
  obtain ⟨key, v⟩ := e
  cases key with
  | str name =>
    have hname : name ∉ commonFields := by simpa [Value.str?] using hcommon
    show (Value.str name, v.prunedAs (nesting tag name)) = _
    rw [htag name hname]
    rfl
  | _ => rfl

/-- Kinds without a form of their own. -/
theorem generic_lockstep {tag : Value}
    (htag : ∀ name, name ∉ commonFields → nesting tag name = .nothing) :
    (generic ⟨id, definitions, false⟩ d).Lockstep .pruning Eq
      (generic ⟨id, prunedEntries definitions, true⟩ (prunedFields tag d)) := by
  unfold generic
  dsimp only
  rw [field_prunedFields_type, field_prunedFields_error, filter_prunedFields htag]
  split
  · next kind hkind =>
    rw [hkind]
    have hmake (f : Value × Value → Run (String × Value)) (hf : ∀ e, (f e).Builds) :
        (checksOf false d >>= fun checks =>
          (d.filter fun e => !(e.1.str?.any commonFields.contains)).mapM f >>= fun extra =>
            Construct.make .generic
              ⟨.list checks, field d "error", ("kind", .str kind) :: extra⟩).Lockstep .pruning Eq
        (checksOf true (prunedFields tag d) >>= fun checks =>
          (d.filter fun e => !(e.1.str?.any commonFields.contains)).mapM f >>= fun extra =>
            Construct.make .generic
              ⟨.list checks, field d "error", ("kind", .str kind) :: extra⟩) :=
      checksOf_lockstep.next fun checks =>
        ((mapM_builds hf _).bind fun extra => Construct.make_builds _ _).steady
    refine .reading fun σ τ h => ?_
    rw [Pace.pruning.bookkeeping.kinds σ τ h]
    split
    · refine Run.Builds.refuse.steady.next fun _ => hmake _ fun e => ?_
      split <;> first | exact .throw | exact .pure
    · refine hmake _ fun e => ?_
      split <;> first | exact .throw | exact .pure
  · exact .throw fun _ => trivial

/-! ## Definitions -/

/-- Definitions of one tag. -/
theorem tagged_lockstep {tag : String}
    (hbuild : InStep (depthEntries d) (depthEntries (prunedFields (.str tag) d))
      build build') :
    (warnUnknown d tag >>= fun _ => form build ⟨id, definitions, false⟩ d tag >>=
        attach ⟨id, definitions, false⟩ d).Lockstep .pruning Eq
    (warnUnknown (prunedFields (.str tag) d) tag >>= fun _ =>
      form build' ⟨id, prunedEntries definitions, true⟩ (prunedFields (.str tag) d) tag >>=
        attach ⟨id, prunedEntries definitions, true⟩ (prunedFields (.str tag) d)) := by
  rw [warnUnknown_eq keys_prunedFields]
  exact (warnUnknown_builds d tag).steady.next fun _ => (form_lockstep hbuild).next attach_lockstep

end

theorem build_of_atom {scope : Scope} {depth : Nat} {v : Value} (h : v.entries? = none) :
    build scope depth v = refuse (.notMapping v) := by
  cases depth <;> rw [build, h]

/-- What is no mapping is not pruned, and no schema is built of it. -/
theorem build_atom_lockstep {scope scope' : Scope} {depth depth' : Nat} {v : Value}
    (h : v.entries? = none) :
    (build scope depth v).Lockstep .pruning Eq (build scope' depth' v.pruned) := by
  rw [Value.pruned_of_atom h, build_of_atom h, build_of_atom h]
  exact .throw fun _ => trivial

/-- A lenient build goes in lockstep with a strict build of the pruned definition. -/
theorem build_lockstep (id : Nat) (definitions : Entries) (depth depth' : Nat) :
    InStep depth depth' (build ⟨id, definitions, false⟩ depth)
      (build ⟨id, prunedEntries definitions, true⟩ depth') := by
  -- Pruning takes levels away, so the depths of the two builds go down independently.
  induction depth generalizing depth' with
  | zero =>
    intro v hv _
    cases hd : v.entries? with
    | none => exact build_atom_lockstep hd
    | some d => exact absurd (Value.depth_of_entries? hd) (by omega)
  | succ depth ih =>
    intro v hv hv'
    cases hd : v.entries? with
    | none => exact build_atom_lockstep hd
    | some d =>
      have hd' := Value.entries?_pruned hd
      have hdepth := Value.depth_of_entries? hd
      have hdepth' := Value.depth_of_entries? hd'
      cases depth' with
      | zero => omega
      | succ depth' =>
        have hbuild : InStep (depthEntries d)
            (depthEntries (prunedFields (field d "type") d))
            (build ⟨id, definitions, false⟩ depth)
            (build ⟨id, prunedEntries definitions, true⟩ depth') :=
          fun w hw hw' => ih depth' w (by omega) (by omega)
        rw [build, build, hd, hd']
        dsimp only
        rw [field_prunedFields_type]
        unfold Construct.hashable
        split
        · rw [pure_bind, pure_bind]
          split
          · next tag htag =>
            rw [htag] at hbuild ⊢
            split
            · exact tagged_lockstep hbuild
            · next hunknown =>
              refine generic_lockstep fun name hname => nesting_of_unknown ?_ hname
              rintro other hmem ⟨⟩
              exact hunknown (List.contains_iff_mem.2 hmem)
          · next hother =>
            refine generic_lockstep fun name hname => nesting_of_unknown ?_ hname
            exact fun other _ hmem => hother other hmem
        · exact .throw fun _ => trivial

theorem createSchema_lockstep (c : Entries) :
    (createSchema c false).Lockstep .pruning Eq (createSchema (prunedConfig c) true) := by
  obtain ⟨line, heq⟩ := createSchema_eq c false
  obtain ⟨line', heq'⟩ := createSchema_eq (prunedConfig c) true
  rw [heq, heq', tableOf?_prunedConfig, mainOf_prunedConfig, field_prunedConfig_definitions,
    Value.className_prunedShape]
  cases tableOf? c with
  | none => exact .throw fun _ => trivial
  | some definitions =>
    have hlog : (logLine "INFO" line).Lockstep .pruning Eq (logLine "INFO" line') := by
      rintro σ _ ⟨hsets⟩
      exact ⟨.intro hsets, rfl⟩
    refine hlog.next fun _ => Run.Builds.freshRef.steady.next fun id => .changing ?_ ?_
    · rintro σ _ ⟨hsets⟩
      exact .intro (.cons ⟨rfl, .lenient⟩ hsets)
    · exact build_lockstep id definitions _ _ _ (Nat.le_refl _) (Nat.le_refl _)

end OfDefinition

open OfDefinition

/-- A schema is built from a mapping whose keys can be names of arguments. -/
theorem buildSchema_eq {definition : Value} {c : Entries}
    (h : ClassRef.toDict definition = .ok (.dict c)) (strict : Bool) :
    buildSchema definition strict =
      if ((c.map (·.1)).any fun k => k.str?.isNone || k.str? == some "self") then
        throw .unsupported
      else createSchema c strict := by
  unfold buildSchema
  rw [h, List.any_map]
  show (if (c.any fun e => e.1.str?.isNone || e.1.str? == some "self") then throw .unsupported
    else createSchema c strict : Run (Schema Value)) = _
  rfl

/-- A lenient build comes to what a strict build of the pruned definition comes to. -/
theorem buildSchema_lockstep (definition : Value) :
    (buildSchema definition false).Lockstep .pruning Eq
      (buildSchema definition.prunedDefinition true) := by
  unfold Value.prunedDefinition
  split
  · next c hc =>
    have hpruned : ClassRef.toDict (.dict (prunedConfig c)) = .ok (.dict (prunedConfig c)) := rfl
    rw [buildSchema_eq hc, buildSchema_eq hpruned, keys_prunedConfig]
    split
    · exact .throw fun _ => trivial
    · exact createSchema_lockstep c
  · next hother =>
    unfold buildSchema
    cases hdict : ClassRef.toDict definition with
    | error fault => exact .throw fun _ => trivial
    | ok v =>
      cases v with
      | dict c => exact absurd hdict (hother c)
      | _ => exact .throw fun _ => trivial

/-! ## Named definitions -/

/-- What a definition was built to is remembered on both sides. -/
theorem Session.Prunes.remember {σ τ : Session} (h : σ.Prunes τ) (id place : Nat)
    (s : Schema Value) : (σ.remember id place s).Prunes (τ.remember id place s) := by
  obtain ⟨hsets⟩ := h
  refine .intro ?_
  unfold Session.remember
  dsimp only
  rw [List.forall₂_map_left_iff, List.forall₂_map_right_iff]
  refine hsets.imp ?_
  rintro ⟨n, set⟩ ⟨_, set'⟩ ⟨rfl, hset⟩
  split
  · refine ⟨rfl, ?_⟩
    cases hset with
    | same => exact .same
    | lenient => exact .lenient
  · exact ⟨rfl, hset⟩

theorem DefinitionSet.Prunes.built_eq {set set' : DefinitionSet} (h : set.Prunes set') :
    set'.built = set.built := by
  cases h <;> rfl

theorem DefinitionSet.Prunes.place?_eq {set set' : DefinitionSet} (h : set.Prunes set')
    (name : Value) : set'.place? name = set.place? name := by
  cases h with
  | same => rfl
  | @lenient definitions built =>
    unfold place?
    dsimp only
    rw [Value.prunedEntries_eq_map, List.findIdx?_map]
    rfl

/-- What a named definition is built to. -/
theorem buildPlace_lockstep {set set' : DefinitionSet} (h : set.Prunes set') (id place : Nat) :
    (buildPlace id set place).Lockstep .pruning Eq (buildPlace id set' place) := by
  refine Pace.pruning.inLane ?_ _
  cases h with
  | same => exact (build_builds _ _ _).steady
  | @lenient definitions built =>
    have hget : (((Value.prunedEntries definitions)[place]?).map Prod.snd).getD Value.null =
        (((definitions[place]?).map Prod.snd).getD Value.null).pruned := by
      rw [Value.prunedEntries_eq_map, List.getElem?_map]
      cases definitions[place]? <;> rfl
    dsimp only
    rw [hget]
    exact build_lockstep id definitions _ _ _ (Nat.le_refl _) (Nat.le_refl _)

/-- The sets of a number match. -/
theorem lookup_prunes {sets sets' : List (Nat × DefinitionSet)}
    (h : List.Forall₂ (fun e f => e.1 = f.1 ∧ e.2.Prunes f.2) sets sets') (id : Nat) :
    Option.Rel DefinitionSet.Prunes (sets.lookup id) (sets'.lookup id) := by
  induction h with
  | nil => exact .none
  | @cons e f _ _ hef _ ih =>
    obtain ⟨hid, hset⟩ := hef
    rw [List.lookup_cons, List.lookup_cons, ← hid]
    split
    · exact .some hset
    · exact ih

theorem resolveDefinition_steady (id : Nat) (name : Value) :
    (resolveDefinition id name).Steady .pruning := by
  refine .reading ?_
  rintro σ _ ⟨hsets⟩
  have hlookup := lookup_prunes hsets id
  dsimp only
  generalize List.lookup id σ.definitionSets = o at hlookup
  generalize List.lookup id _ = o' at hlookup
  cases hlookup with
  | none => exact .throw fun _ => trivial
  | @some set set' hset =>
    dsimp only
    rw [hset.place?_eq]
    split
    · exact .throw fun _ => trivial
    · next place _ =>
      rw [hset.built_eq]
      split
      · exact .pure rfl
      · exact (buildPlace_lockstep hset id place).next fun s =>
          .changing (fun _ _ h => h.remember id place s) (.pure rfl)

end Assay
