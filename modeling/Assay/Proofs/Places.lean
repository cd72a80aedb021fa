import Assay.Proofs.Building
import Assay.Proofs.Inlining
import Assay.Proofs.Parts
import Assay.Proofs.RoundTrip
import Mathlib.Data.Nat.Pairing

/-!
# The numbers of built schemas

Each number that is given out while a schema is built goes to one schema, so numbers tell apart what
the schema encloses (`Schema.Spans`, `OfDefinition.build_isBuilt`). The places of the numbers of two
parts lie one after the other, and the number of a whole comes after those of its parts.
-/

namespace Assay

open Run

/-! ## Numbers of a lane -/

/-- Places of lanes have numbers of their own. -/
theorem Run.numberIn_inj {lane lane' place place' : Nat}
    (h : numberIn lane place = numberIn lane' place') : lane = lane' ∧ place = place' :=
  Nat.pair_eq_pair.1 h

namespace Schema

/-- A schema encloses itself and what its parts enclose. -/
inductive Encloses : Schema Value → Schema Value → Prop
  | self {s} : Encloses s s
  | part {s t u} : t ∈ s.form.parts → Encloses t u → Encloses s u

theorem Encloses.snoc {s t u : Schema Value} (h : s.Encloses t) (hu : u ∈ t.form.parts) :
    s.Encloses u := by
  induction h with
  | self => exact .part hu .self
  | part hp _ ih => exact .part hp (ih hu)

/-- What the schemas enclose has numbers of a lane, from one place on up to another, and numbers
tell it apart. -/
structure Spans (lane start stop : Nat) (ss : List (Schema Value)) : Prop where
  places : ∀ s ∈ ss, ∀ t, s.Encloses t → ∃ n, start ≤ n ∧ n < stop ∧ t.id = numberIn lane n
  apart : ∀ s ∈ ss, ∀ s' ∈ ss, ∀ t u, s.Encloses t → s'.Encloses u → t.id = u.id → t = u

namespace Spans

variable {lane i j k : Nat} {ss ts : List (Schema Value)} {s : Schema Value}

theorem nil : Spans lane i j [] := ⟨nofun, nofun⟩

theorem mono {i' j' : Nat} (h : Spans lane i j ss) (hi : i' ≤ i) (hj : j ≤ j') :
    Spans lane i' j' ss where
  places s hs t ht := by
    obtain ⟨n, hn, hn', hid⟩ := h.places s hs t ht
    exact ⟨n, Nat.le_trans hi hn, Nat.lt_of_lt_of_le hn' hj, hid⟩
  apart := h.apart

/-- What was numbered before is apart from what was numbered after it. -/
theorem append (h : Spans lane i j ss) (h' : Spans lane j k ts) (hij : i ≤ j) (hjk : j ≤ k) :
    Spans lane i k (ss ++ ts) where
  places s hs := by
    obtain hs | hs := List.mem_append.1 hs
    · exact (h.mono (Nat.le_refl i) hjk).places s hs
    · exact (h'.mono hij (Nat.le_refl k)).places s hs
  apart s hs s' hs' t u ht hu hid := by
    have hnever {s s' t u : Schema Value} (hs : s ∈ ss) (hs' : s' ∈ ts) (ht : s.Encloses t)
        (hu : s'.Encloses u) (hid : t.id = u.id) : t = u := by
      obtain ⟨n, -, hn, htn⟩ := h.places s hs t ht
      obtain ⟨n', hn', -, hun⟩ := h'.places s' hs' u hu
      have := (numberIn_inj (htn.symm.trans (hid.trans hun))).2
      omega
    obtain hs | hs := List.mem_append.1 hs <;> obtain hs' | hs' := List.mem_append.1 hs'
    · exact h.apart s hs s' hs' t u ht hu hid
    · exact hnever hs hs' ht hu hid
    · exact (hnever hs' hs hu ht hid.symm).symm
    · exact h'.apart s hs s' hs' t u ht hu hid

/-- The parts of a schema. -/
theorem parts (h : Spans lane i j [s]) : Spans lane i j s.form.parts where
  places _ ht u hu := h.places s List.mem_cons_self u (.part ht hu)
  apart _ ht _ ht' u u' hu hu' :=
    h.apart s List.mem_cons_self s List.mem_cons_self u u' (.part ht hu) (.part ht' hu')

/-- A schema that was numbered after its parts. -/
theorem node {n : Nat} (h : Spans lane i j s.form.parts) (hid : s.id = numberIn lane n)
    (hn : j ≤ n) (hij : i ≤ j) : Spans lane i (n + 1) [s] where
  places s' hs' t ht := by
    obtain rfl := List.mem_singleton.1 hs'
    cases ht with
    | self => exact ⟨n, Nat.le_trans hij hn, Nat.lt_succ_self n, hid⟩
    | part ht hu => exact (h.mono (Nat.le_refl i) (Nat.le_succ_of_le hn)).places _ ht _ hu
  apart s' hs' s'' hs'' t u ht hu htu := by
    have hnever {t u : Schema Value} (ht : t ∈ s.form.parts) (hu : t.Encloses u) (hsu : s.id = u.id) :
        False := by
      obtain ⟨m, -, hm, hum⟩ := h.places t ht u hu
      have := (numberIn_inj (hid.symm.trans (hsu.trans hum))).2
      omega
    obtain rfl := List.mem_singleton.1 hs'
    obtain rfl := List.mem_singleton.1 hs''
    cases ht with
    | self =>
      cases hu with
      | self => rfl
      | part hp hu => exact (hnever hp hu htu).elim
    | part hp ht =>
      cases hu with
      | self => exact (hnever hp ht htu.symm).elim
      | part hp' hu => exact h.apart _ hp _ hp' t u ht hu htu

end Spans

end Schema

/-! ## Operations -/

section

variable {α β : Type}

/-- Started at a place of a lane, an operation that answers stays in the lane, goes on to another
place, and its answer satisfies `P` of that place. -/
def Run.From (lane start : Nat) (P : Nat → α → Prop) (x : Run α) : Prop :=
  ∀ σ τ a, σ.lane = lane → σ.nextRef = start → x.exec σ = (.ok a, τ) →
    τ.lane = lane ∧ start ≤ τ.nextRef ∧ P τ.nextRef a

namespace Run.From

variable {lane i : Nat} {P : Nat → α → Prop} {Q : Nat → β → Prop} {x : Run α}

theorem pure {a : α} (h : P i a) : (Pure.pure a : Run α).From lane i P := by
  rintro σ _ _ rfl rfl ⟨⟩
  exact ⟨rfl, Nat.le_refl _, h⟩

theorem throw {e : Fault} : (MonadExcept.throw e : Run α).From lane i P := nofun

theorem refuse {cause : DefinitionError} : (Run.refuse cause : Run α).From lane i P := nofun

theorem freshRef : Run.freshRef.From lane i fun j a => j = i + 1 ∧ a = numberIn lane i := by
  rintro σ _ _ rfl rfl ⟨⟩
  exact ⟨rfl, Nat.le_succ _, rfl, rfl⟩

theorem of_builds (h : x.Builds) : x.From lane i fun _ _ => True := by
  rintro σ τ a rfl rfl hx
  obtain ⟨n, l, hframe⟩ := h.frame σ
  have hadvances := h.advances σ
  rw [hx] at hframe hadvances
  obtain rfl : τ = { σ with nextRef := n, log := l } := hframe
  exact ⟨rfl, hadvances, trivial⟩

theorem of_yields {P : α → Prop} (hx : x.Builds) (h : x.Yields P) :
    x.From lane i fun _ a => P a := by
  intro σ τ a hlane hi hexec
  obtain ⟨b, hb, hP⟩ := h.answer σ
  obtain rfl := Except.ok.inj (hb.symm.trans (congrArg Prod.fst hexec))
  obtain ⟨hlane, hle, -⟩ := of_builds hx σ τ b hlane hi hexec
  exact ⟨hlane, hle, hP⟩

theorem mono {P' : Nat → α → Prop} (h : x.From lane i P) (hP : ∀ j a, P j a → P' j a) :
    x.From lane i P' := by
  intro σ τ a hlane hi hx
  obtain ⟨hlane, hle, hPa⟩ := h σ τ a hlane hi hx
  exact ⟨hlane, hle, hP _ _ hPa⟩

/-- The second operation starts where the first one stopped. -/
theorem bind {f : α → Run β} (h : x.From lane i P)
    (hf : ∀ j a, i ≤ j → P j a → (f a).From lane j Q) : (x >>= f).From lane i Q := by
  intro σ τ b hlane hi hb
  obtain ⟨a, ρ, ha, hb⟩ := bind_exec_ok.1 hb
  obtain ⟨hlane, hij, hP⟩ := h σ ρ a hlane hi ha
  obtain ⟨hlane, hjk, hQ⟩ := hf _ a hij hP ρ τ b hlane rfl hb
  exact ⟨hlane, Nat.le_trans hij hjk, hQ⟩

theorem reading {f : Session → Run α} (h : ∀ σ, (f σ).From lane i P) :
    (get >>= f).From lane i P :=
  fun σ => h σ σ

theorem map {f : α → β} (h : x.From lane i P) (hf : ∀ j a, P j a → Q j (f a)) :
    (f <$> x).From lane i Q := by
  rw [map_eq_pure_bind]
  exact h.bind fun j a _ ha => pure (hf j a ha)

end Run.From

end

/-! ## Constructors -/

namespace OfDefinition

open Construct Schema

/-- A schema that was built: numbers from a place on tell apart what it encloses, and it lists values
if the definition does. -/
structure IsBuilt (lists : Bool) (lane start stop : Nat) (s : Schema Value) : Prop where
  spans : Spans lane start stop [s]
  lists : (enumerated? s).isSome = lists

variable {lists : Bool} {lane i j : Nat}

theorem hashable_same (v : Value) : (hashable v).From lane i fun j w => w = v ∧ j = i := by
  unfold hashable
  split
  · exact .pure ⟨rfl, rfl⟩
  · exact .throw

theorem IsBuilt.before {i' : Nat} {s : Schema Value} (h : IsBuilt lists lane i j s) (hi : i' ≤ i) :
    IsBuilt lists lane i' j s :=
  ⟨h.spans.mono hi (Nat.le_refl j), h.lists⟩

/-- Schemas are made of parts that were built. -/
theorem make_isBuilt {form : Form Value (Schema Value)} {ss : List (Schema Value)}
    (h : Spans lane i j ss) (hij : i ≤ j) (hparts : form.parts = ss)
    (hlists : (enumerated? ⟨0, .null, form, [], [], .null⟩).isSome = lists) (shared : Shared) :
    (make form shared).From lane j (IsBuilt lists lane i) := by
  subst hparts
  refine (From.of_builds (items_builds _)).bind fun k checks hjk _ => ?_
  dsimp only
  split
  · exact .refuse
  · refine From.freshRef.bind fun l id _ ⟨hl, hid⟩ => .pure ⟨?_, hlists⟩
    exact hl ▸ Spans.node h hid hjk hij

/-- Schemas of a form without parts. -/
theorem make_bare {form : Form Value (Schema Value)} (hij : i ≤ j) (hparts : form.parts = [])
    (hlists : (enumerated? ⟨0, .null, form, [], [], .null⟩).isSome = lists) (shared : Shared) :
    (make form shared).From lane j (IsBuilt lists lane i) :=
  make_isBuilt .nil hij hparts hlists shared

theorem scalar_isBuilt (d : Entries) (tag : String) :
    (scalar d tag).From lane i (IsBuilt false lane i) := by
  have hi := Nat.le_refl i
  unfold scalar
  dsimp only
  split
  · split
    · refine (From.of_builds (hashable_builds _)).bind fun j name hij _ => ?_
      split
      · exact make_bare hij rfl rfl _
      · exact .refuse
    · exact make_bare hi rfl rfl _
  · split
    · exact make_bare hi rfl rfl _
    · split
      · exact .refuse
      · exact make_bare hi rfl rfl _

theorem literal_isBuilt (values : Value) (hij : i ≤ j) :
    (literal values {}).From lane j (IsBuilt true lane i) := by
  unfold literal
  dsimp only
  split
  · exact .refuse
  · exact make_bare hij rfl rfl _

theorem enumerated_isBuilt (d : Entries) (tag : String) :
    (enumerated d tag).From lane i (IsBuilt true lane i) := by
  have hi := Nat.le_refl i
  unfold enumerated
  split
  · split
    · exact (From.of_builds (items_builds _)).bind fun _ _ hij _ => literal_isBuilt _ hij
    · exact literal_isBuilt _ hi
    · exact .refuse
  · split
    · exact .refuse
    · refine From.bind (P := fun _ _ => True) (.of_builds ?_) fun j entries hij _ => ?_
      · split
        · exact .pure
        · exact .pure
        · exact .pure
        · exact (items_builds _).bind fun _ => .pure
      · dsimp only
        split
        · exact .refuse
        · exact make_bare hij rfl rfl _

theorem reference_isBuilt (scope : Scope) (d : Entries) :
    (reference scope d).From lane i (IsBuilt false lane i) := by
  refine (From.of_builds (hashable_builds _)).bind fun j name hij _ => ?_
  split
  · have hparts : (.lazy (.builtin (.definition scope.id name)) name :
        Form Value (Schema Value)).parts = [] := rfl
    exact make_bare hij hparts rfl _
  · exact (From.of_builds .ofOption).bind fun _ _ _ _ => .refuse

/-! ## Parts -/

section

variable {build : Value → Run (Schema Value)}
  (hbuild : ∀ lane i x, (build x).From lane i fun j s => Spans lane i j [s])
include hbuild

theorem child_spans (d : Entries) (name : String) : (child build d name).From lane i fun j v =>
    ∃ s, v = .schema s ∧ Spans lane i j [s] := by
  unfold child
  split
  · exact (hbuild _ _ _).map fun _ s hs => ⟨s, rfl, hs⟩
  · exact .refuse

theorem child?_spans (v : Value) : (child? build v).From lane i fun j v =>
    ∃ s, v = .ofSchema? s ∧ Spans lane i j s.toList := by
  unfold child?
  split
  · exact .pure ⟨none, rfl, .nil⟩
  · exact (hbuild _ _ _).map fun _ s hs => ⟨some s, rfl, hs⟩

theorem children_spans (vs : List Value) : (children build vs).From lane i fun j ws =>
    ∃ ss : List (Schema Value), ws = ss.map .schema ∧ Spans lane i j ss := by
  induction vs generalizing i with
  | nil => exact .pure ⟨[], rfl, .nil⟩
  | cons v vs ih =>
    refine (hbuild _ _ v).bind fun j s hij hs => ih.bind ?_
    rintro k _ hjk ⟨ss, rfl, hss⟩
    exact .pure ⟨s :: ss, rfl, hs.append hss hij hjk⟩

theorem shape_spans (es : Entries) : (shape build es).From lane i fun j fs =>
    ∃ gs : List (Value × Schema Value), fs = gs.map (fun g => (g.1, .schema g.2)) ∧
      Spans lane i j (gs.map (·.2)) := by
  induction es generalizing i with
  | nil => exact .pure ⟨[], rfl, .nil⟩
  | cons e es ih =>
    refine (hbuild _ _ e.2).bind fun j s hij hs => ih.bind ?_
    rintro k _ hjk ⟨gs, rfl, hgs⟩
    exact .pure ⟨(e.1, s) :: gs, rfl, hs.append hgs hij hjk⟩

/-! ## Forms -/

theorem object_isBuilt (d : Entries) :
    (object build d).From lane i (IsBuilt false lane i) := by
  unfold object
  dsimp only
  split
  · exact .refuse
  · refine (shape_spans hbuild _).bind ?_
    rintro j _ hij ⟨gs, rfl, hgs⟩
    refine (child?_spans hbuild _).bind ?_
    rintro k _ hjk ⟨s, rfl, hs⟩
    cases hpolicy : ((d.get? "unknown_keys").getD (.str "strip")).str?.bind UnknownKeys.ofName? with
    | none =>
      unfold Construct.object
      rw [hpolicy]
      exact .refuse
    | some p =>
      rw [object_eq hpolicy]
      exact make_isBuilt (hgs.append hs hij hjk) (Nat.le_trans hij hjk) rfl rfl _

theorem tuple_isBuilt (scope : Scope) (d : Entries) :
    (form build scope d "tuple").From lane i (IsBuilt false lane i) := by
  refine (From.of_builds (listed_builds _ _)).bind fun j vs hij _ => ?_
  refine (children_spans hbuild vs).bind ?_
  rintro k _ hjk ⟨ss, rfl, hss⟩
  refine (child?_spans hbuild _).bind ?_
  rintro l _ hkl ⟨s, rfl, hs⟩
  rw [tuple_eq]
  have hparts := (hss.append hs hjk hkl).mono hij (Nat.le_refl l)
  exact make_isBuilt hparts (Nat.le_trans hij (Nat.le_trans hjk hkl)) rfl rfl _

theorem union_isBuilt (d : Entries) : (union build d).From lane i (IsBuilt false lane i) := by
  refine (From.of_builds (listed_builds _ _)).bind fun j vs hij _ => ?_
  refine (children_spans hbuild vs).bind ?_
  rintro k _ hjk ⟨ss, rfl, hss⟩
  have hparts := hss.mono hij (Nat.le_refl k)
  have hik := Nat.le_trans hij hjk
  dsimp only
  cases ss with
  | nil => split <;> exact .refuse
  | cons s ss =>
    split
    · rw [discriminatedUnion_eq (List.cons_ne_nil _ _)]
      refine (From.of_builds (tableFrom_builds _ _ _ _)).bind fun l table hkl _ => ?_
      exact make_isBuilt (hparts.mono (Nat.le_refl i) hkl) (Nat.le_trans hik hkl) rfl rfl _
    · rw [union_eq (List.cons_ne_nil _ _)]
      exact make_isBuilt hparts hik rfl rfl _

/-- Forms around one part. -/
theorem around_isBuilt {f : Value → Run (Schema Value)} (d : Entries) (name : String)
    (form : Schema Value → Form Value (Schema Value))
    (hf : ∀ s, f (.schema s) = make (form s) {}) (hparts : ∀ s, (form s).parts = [s])
    (hlists : ∀ s, (enumerated? ⟨0, .null, form s, [], [], .null⟩).isSome = lists) :
    (child build d name >>= f).From lane i (IsBuilt lists lane i) := by
  refine (child_spans hbuild d name).bind ?_
  rintro j _ hij ⟨s, rfl, hs⟩
  rw [hf]
  exact make_isBuilt hs hij (hparts s) (hlists s) _

/-- Forms around two parts. -/
theorem between_isBuilt {f : Value → Value → Run (Schema Value)} (d : Entries) (name name' : String)
    (form : Schema Value → Schema Value → Form Value (Schema Value))
    (hf : ∀ s t, f (.schema s) (.schema t) = make (form s t) {})
    (hparts : ∀ s t, (form s t).parts = [s, t])
    (hlists : ∀ s t, (enumerated? ⟨0, .null, form s t, [], [], .null⟩).isSome = lists) :
    (child build d name >>= fun v => child build d name' >>= f v).From lane i
      (IsBuilt lists lane i) := by
  refine (child_spans hbuild d name).bind ?_
  rintro j _ hij ⟨s, rfl, hs⟩
  refine (child_spans hbuild d name').bind ?_
  rintro k _ hjk ⟨t, rfl, ht⟩
  rw [hf]
  exact make_isBuilt (hs.append ht hij hjk) (Nat.le_trans hij hjk) (hparts s t) (hlists s t) _

theorem form_isBuilt (scope : Scope) (d : Entries) (tag : String) :
    (form build scope d tag).From lane i (IsBuilt (listing tag) lane i) := by
  have hi := Nat.le_refl i
  have htuple : (form build scope d "tuple").From lane i (IsBuilt false lane i) :=
    tuple_isBuilt hbuild scope d
  unfold form at htuple ⊢
  dsimp only at htuple ⊢
  split
  · exact scalar_isBuilt _ _
  · exact scalar_isBuilt _ _
  · exact make_bare hi rfl rfl _
  · exact make_bare hi rfl rfl _
  · exact make_bare hi rfl rfl _
  · exact make_bare hi rfl rfl _
  · exact make_bare hi rfl rfl _
  · exact make_bare hi rfl rfl _
  · exact enumerated_isBuilt _ _
  · exact enumerated_isBuilt _ _
  · exact object_isBuilt hbuild _
  · exact around_isBuilt hbuild d _ Form.array (fun _ => rfl) (fun _ => rfl) fun _ => rfl
  · exact htuple
  · exact between_isBuilt hbuild d _ _ Form.record (fun _ _ => rfl) (fun _ _ => rfl) fun _ _ => rfl
  · exact between_isBuilt hbuild d _ _ Form.map (fun _ _ => rfl) (fun _ _ => rfl) fun _ _ => rfl
  · exact around_isBuilt hbuild d _ Form.set (fun _ => rfl) (fun _ => rfl) fun _ => rfl
  · exact union_isBuilt hbuild _
  · exact between_isBuilt hbuild d _ _ Form.intersection (fun _ _ => rfl) (fun _ _ => rfl) fun _ _ => rfl
  · exact around_isBuilt hbuild d _ Form.optional (fun _ => rfl) (fun _ => rfl) fun _ => rfl
  · exact around_isBuilt hbuild d _ Form.nullable (fun _ => rfl) (fun _ => rfl) fun _ => rfl
  · exact around_isBuilt hbuild d _ Form.readonly (fun _ => rfl) (fun _ => rfl) fun _ => rfl
  · exact around_isBuilt hbuild d _ Form.promise (fun _ => rfl) (fun _ => rfl) fun _ => rfl
  · exact around_isBuilt hbuild d _ (Form.default · (field d "default_value")) (fun _ => rfl)
      (fun _ => rfl) fun _ => rfl
  · exact around_isBuilt hbuild d _ (Form.prefault · (field d "default_value")) (fun _ => rfl)
      (fun _ => rfl) fun _ => rfl
  · exact around_isBuilt hbuild d _ (Form.catching · (field d "catch_value")) (fun _ => rfl)
      (fun _ => rfl) fun _ => rfl
  · exact between_isBuilt hbuild d _ _ Form.pipe (fun _ _ => rfl) (fun _ _ => rfl) fun _ _ => rfl
  · exact reference_isBuilt _ _
  · exact reference_isBuilt _ _
  · exact .refuse

end

/-! ## Definitions -/

/-- A schema with a number of its own. -/
theorem IsBuilt.renumbered {s t : Schema Value} (h : IsBuilt lists lane i j s) (hij : i ≤ j)
    {n : Nat} (hn : j ≤ n) (hid : t.id = numberIn lane n) (hform : t.form = s.form) :
    IsBuilt lists lane i (n + 1) t := by
  refine ⟨.node (hform ▸ h.spans.parts) hid hn hij, ?_⟩
  rw [← h.lists]
  unfold enumerated?
  rw [hform]

theorem withError_isBuilt (error : Value) {s : Schema Value} (hij : i ≤ j)
    (h : IsBuilt lists lane i j s) : (withError error s).From lane j (IsBuilt lists lane i) := by
  unfold withError
  split
  · refine From.freshRef.bind ?_
    rintro _ id _ ⟨hm, hid⟩
    exact .pure (hm ▸ h.renumbered hij (Nat.le_refl j) hid rfl)
  · exact .pure h

theorem attach_isBuilt (scope : Scope) (d : Entries) {s : Schema Value}
    (h : IsBuilt lists lane i j s) (hij : i ≤ j) :
    (attach scope d s).From lane j (IsBuilt lists lane i) := by
  rw [attach_eq]
  refine (From.of_builds (checksOf_builds _ _)).bind fun k checks hjk _ => ?_
  have hik := Nat.le_trans hij hjk
  have hk : IsBuilt lists lane i k s := ⟨h.spans.mono (Nat.le_refl i) hjk, h.lists⟩
  split
  · exact withError_isBuilt _ hik hk
  · refine From.freshRef.bind ?_
    rintro l id hkl ⟨hl, hid⟩
    exact withError_isBuilt _ (Nat.le_trans hik hkl)
      (hl ▸ hk.renumbered hik (Nat.le_refl k) hid rfl)

theorem generic_isBuilt (scope : Scope) (d : Entries) :
    (generic scope d).From lane i (IsBuilt false lane i) := by
  have hrest (f : Value × Value → Run (String × Value)) (hf : ∀ e, (f e).Builds) (es : Entries)
      (kind : Value) : (checksOf scope.strict d >>= fun checks => es.mapM f >>= fun extra =>
        make .generic ⟨.list checks, field d "error", ("kind", kind) :: extra⟩).From lane i
          (IsBuilt false lane i) :=
    (From.of_builds (checksOf_builds _ _)).bind fun _ _ hij _ =>
      (From.of_builds (mapM_builds hf es)).bind fun _ _ hjk _ =>
        make_bare (Nat.le_trans hij hjk) rfl rfl _
  unfold generic
  dsimp only
  split
  · refine .reading fun σ => ?_
    split
    · exact .bind (P := fun _ _ => False) .refuse nofun
    · refine hrest _ (fun e => ?_) _ _
      split <;> first | exact .throw | exact .pure
  · exact .refuse

/-- Numbers tell apart what a schema encloses that is built from a definition, and it lists values if
the definition does. -/
theorem build_isBuilt (scope : Scope) (depth : Nat) (definition : Value) :
    (build scope depth definition).From lane i (IsBuilt (enumerates definition) lane i) := by
  induction depth generalizing lane i definition with
  | zero =>
    unfold build
    split
    · exact .refuse
    · exact .throw
  | succ depth ih =>
    have hbuild (lane i : Nat) (x : Value) : (build scope depth x).From lane i fun j s =>
        Spans lane i j [s] := (ih x).mono fun _ _ hs => hs.spans
    unfold build enumerates
    split
    · exact .refuse
    · next d hd =>
      rw [hd, Option.any_some]
      refine (hashable_same _).bind ?_
      rintro _ _ - ⟨rfl, rfl⟩
      split
      · next tag htag =>
        have htype : (field d "type").str?.any listing = listing tag := by
          rw [htag]
          rfl
        rw [htype]
        split
        · refine (From.of_builds (warnUnknown_builds _ _)).bind fun j _ hij _ => ?_
          refine (form_isBuilt hbuild scope d tag).bind fun k s hjk hs => ?_
          exact attach_isBuilt scope d (hs.before hij) (Nat.le_trans hij hjk)
        · next hunknown =>
          have hlisting : listing tag = false := by
            have hlisted : ∀ tag ∈ ["literal", "enum"], tags.contains tag = true := by decide
            refine Bool.eq_false_iff.2 fun hlisting => hunknown (hlisted tag ?_)
            simpa [listing] using hlisting
          exact hlisting ▸ generic_isBuilt scope d
      · next hnone =>
        have htype : (field d "type").str?.any listing = false := by
          cases hv : field d "type" <;> first | rfl | exact absurd hv (hnone _)
        exact htype ▸ generic_isBuilt scope d

theorem build_lists {scope : Scope} {depth : Nat} {definition : Value} {σ : Session}
    {s : Schema Value} (h : (build scope depth definition).answer σ = .ok s) :
    (enumerated? s).isSome = enumerates definition :=
  (build_isBuilt scope depth definition σ _ s rfl rfl (Prod.ext h rfl)).2.2.lists

end OfDefinition

end Assay
