import Assay.Proofs.Equality
import Mathlib.Data.List.Forall2

/-!
# Equality of values is an equivalence

A value that is found for a second one is found for all that the second is found for
(`Value.isFound_trans`), and the second is found for the first (`Value.isFound_symm`). Numbers of
all types compare as one quantity, lists place by place. For mappings and sets the comparison
looks from the first into the second and counts, so symmetry needs that the keys of the first
are distinct, at every depth: that is what a value guarantees by being well-formed
(`Value.wellFormed`). Equality that tells truth values from numbers (`Value.same`) is transitive
and symmetric for the same reasons.
-/

namespace Assay

/-! ## Numbers -/

namespace Binary64

theorem natAbs_units (x : Binary64) : x.units.natAbs = x.magnitude := by
  unfold units
  split <;> simp

theorem mul_two_pow_lt {m k n : Nat} (hm : m < Nat.pow 2 53) (hk : 53 + k ≤ n) :
    m * Nat.pow 2 k < Nat.pow 2 n := by
  have hpos : 0 < Nat.pow 2 k := Nat.two_pow_pos k
  calc m * Nat.pow 2 k < Nat.pow 2 53 * Nat.pow 2 k := Nat.mul_lt_mul_of_pos_right hm hpos
    _ = Nat.pow 2 (53 + k) := (Nat.pow_add 2 53 k).symm
    _ ≤ Nat.pow 2 n := Nat.pow_le_pow_right (by decide) hk

/-- A finite number is smaller than the infinite ones. -/
theorem magnitude_lt (n m : Bool) (e : Fin 2047) (f : Fin fractionCount) :
    (finite n e f).magnitude < (infinite m).magnitude := by
  have hsignificand : significand e f < Nat.pow 2 53 := by
    have hf := f.isLt
    have htwo : Nat.pow 2 53 = fractionCount + fractionCount := rfl
    unfold significand
    split <;> omega
  have hshift : 53 + shift e ≤ 2098 := by
    unfold shift
    omega
  rw [magnitude, magnitude]
  exact mul_two_pow_lt hsignificand hshift

/-- Equal numbers are both finite or both infinite. -/
theorem isFinite_congr {x y : Binary64} (h : x.units = y.units) : x.isFinite = y.isFinite := by
  have hmagnitude : x.magnitude = y.magnitude := by
    rw [← natAbs_units, ← natAbs_units, h]
  cases x with
  | finite n e f =>
    cases y with
    | finite m e' f' => rfl
    | infinite m => exact absurd hmagnitude (Nat.ne_of_lt (magnitude_lt n m e f))
  | infinite n =>
    cases y with
    | finite m e f => exact absurd hmagnitude.symm (Nat.ne_of_lt (magnitude_lt m n e f))
    | infinite m => rfl

end Binary64

namespace Value

/-- A number in units, with a note whether it is finite. -/
def quantity? : Value → Option (Bool × Int)
  | bool b => some (true, b.toInt * Binary64.unitsPerOne)
  | int n => some (true, n * Binary64.unitsPerOne)
  | float x => some (x.isFinite, x.units)
  | _ => none

theorem unitsPerOne_ne_zero : (Binary64.unitsPerOne : Int) ≠ 0 := by
  have hpos : 0 < Binary64.unitsPerOne := Nat.two_pow_pos _
  exact Int.natCast_ne_zero.2 (Nat.ne_of_gt hpos)

theorem quantity?_of_not_float {v : Value} (h : ∀ x, v = float x → False) :
    v.quantity? = v.units?.map fun n => (true, n) := by
  cases v with
  | float x => exact (h x rfl).elim
  | _ => rfl

theorem units?_of_not_float {v : Value} (h : ∀ x, v = float x → False) :
    v.units? = v.whole?.map fun n => n * (Binary64.unitsPerOne : Int) := by
  cases v with
  | float x => exact (h x rfl).elim
  | _ => rfl

/-- Numbers are equal when they are one quantity. -/
theorem numberEquals_iff {v w : Value} :
    numberEquals v w = true ↔ v.quantity?.isSome = true ∧ v.quantity? = w.quantity? := by
  unfold numberEquals
  split
  · rename_i x y
    have hfinite : x.units = y.units → x.isFinite = y.isFinite := Binary64.isFinite_congr
    simpa [quantity?, Binary64.eq] using hfinite
  · rename_i x hw
    rw [quantity?_of_not_float hw]
    cases w.units? with
    | none => simp [quantity?]
    | some n => simp only [quantity?, Option.map_some, Option.isSome_some, true_and,
        Bool.and_eq_true, beq_iff_eq, Option.some.injEq, Prod.mk.injEq, @eq_comm _ n]
  · rename_i y hv
    rw [quantity?_of_not_float hv]
    cases v.units? with
    | none => simp [quantity?]
    | some n => simp only [quantity?, Option.map_some, Option.isSome_some, true_and,
        Bool.and_eq_true, beq_iff_eq, Option.some.injEq, Prod.mk.injEq, @eq_comm _ true]
  · rename_i hv hw _
    have hne := unitsPerOne_ne_zero
    rw [quantity?_of_not_float hv, quantity?_of_not_float hw, units?_of_not_float hv,
      units?_of_not_float hw]
    generalize (Binary64.unitsPerOne : Int) = u at hne
    cases v.whole? <;> cases w.whole? <;> simp [Int.mul_eq_mul_right_iff hne]

/-! ## Containers -/

theorem areFound_iff {vs ws : List Value} :
    areFound vs ws = true ↔ List.Forall₂ (fun v w => isFound v w = true) vs ws := by
  induction vs generalizing ws with
  | nil => cases ws <;> simp [areFound]
  | cons v vs ih => cases ws <;> simp [areFound, ih]

theorem membersFound_iff {vs ws : List Value} :
    membersFound vs ws = true ↔ ∀ v ∈ vs, ∃ w ∈ ws, isFound v w = true := by
  induction vs with
  | nil => simp [membersFound]
  | cons v vs ih => simp [membersFound, ih]

theorem entriesFound_iff {es fs : List (Value × Value)} :
    entriesFound es fs = true ↔
      ∀ e ∈ es, ∃ f ∈ fs, isFound e.1 f.1 = true ∧ isFound e.2 f.2 = true := by
  induction es with
  | nil => simp [entriesFound]
  | cons e es ih =>
    obtain ⟨k, v⟩ := e
    simp [entriesFound, ih]

theorem issuesFound_iff {is js : List (Issue Value)} :
    issuesFound is js = true ↔ List.Forall₂ (fun i j => issueFound i j = true) is js := by
  induction is generalizing js with
  | nil => cases js <;> simp [issuesFound]
  | cons i is ih => cases js <;> simp [issuesFound, ih]

theorem groupsFound_iff {gs hs : List (List (Issue Value))} :
    groupsFound gs hs = true ↔ List.Forall₂ (fun g h => issuesFound g h = true) gs hs := by
  induction gs generalizing hs with
  | nil => cases hs <;> simp [groupsFound]
  | cons g gs ih => cases hs <;> simp [groupsFound, ih]

/-- What two values must have in common to be one member: the types among which a value is
compared. -/
def family : Value → Nat
  | missing => 0
  | null => 1
  | bool _ | int _ | float _ => 2
  | nan _ => 3
  | str _ => 4
  | bytes .. => 5
  | date _ => 6
  | moment _ => 7
  | list _ => 8
  | tuple _ => 9
  | dict _ | view _ => 10
  | set _ | frozenSet _ => 11
  | object .. => 12
  | cls _ => 13
  | member .. => 14
  | pending .. => 15
  | callable _ => 16
  | builtin _ => 17
  | issue _ => 18
  | check _ => 19
  | schema _ => 20

theorem quantity?_isSome {v : Value} (h : v.quantity?.isSome = true) : v.family = 2 := by
  cases v <;> first | rfl | cases h

theorem numberEquals_family {v w : Value} (h : numberEquals v w = true) :
    v.family = 2 ∧ w.family = 2 := by
  obtain ⟨hv, hvw⟩ := numberEquals_iff.1 h
  exact ⟨quantity?_isSome hv, quantity?_isSome (hvw ▸ hv)⟩

/-- Values of different families are never one member. -/
theorem family_eq {v w : Value} (h : isFound v w = true) : v.family = w.family := by
  unfold isFound at h
  split at h
  all_goals first
    | rfl
    | exact (numberEquals_family h).1.trans (numberEquals_family h).2.symm

/-- A text is found only by the same text. -/
theorem isFound_text {v : Value} {s : String} : v.isFound (.str s) = true ↔ v = .str s := by
  constructor
  · intro h
    cases v with
    | str a => exact congrArg str (beq_iff_eq.1 h)
    | _ => cases family_eq h
  · rintro rfl
    exact isFound_refl _

theorem isFound_eq_false {v w : Value} (h : v.family ≠ w.family) : isFound v w = false := by
  cases hfound : isFound v w with
  | false => rfl
  | true => exact absurd (family_eq hfound) h

theorem isFound_number {v w : Value} (h : v.family = 2) : isFound v w = numberEquals v w := by
  cases v with
  | bool _ | int _ | float _ => cases w <;> rfl
  | _ => cases h

/-! ## Well-formed values -/

mutual

/-- Mappings have distinct keys and sets distinct members, at every depth that counts for
equality. -/
def wellFormed : Value → Bool
  | list vs | tuple vs => allWellFormed vs
  | dict es | view es => decide (Entries.Distinct es) && entriesWellFormed es
  | set vs | frozenSet vs =>
    decide (vs.Pairwise fun v w => isFound v w = false) && allWellFormed vs
  | builtin b => builtinWellFormed b
  | issue i => issueWellFormed i
  | _ => true
termination_by structural x => x

/-- The parts of a built-in function are well-formed. -/
def builtinWellFormed : Builtin Value → Bool
  | .instanceOf c => wellFormed c
  | .definition _ name => wellFormed name
  | _ => true
termination_by structural x => x

/-- All the values are well-formed. -/
def allWellFormed : List Value → Bool
  | [] => true
  | v :: vs => wellFormed v && allWellFormed vs
termination_by structural x => x

/-- All the keys and their values are well-formed. -/
def entriesWellFormed : List (Value × Value) → Bool
  | [] => true
  | (k, v) :: es => wellFormed k && wellFormed v && entriesWellFormed es
termination_by structural x => x

/-- The parts of an issue that count for equality are well-formed. -/
def issueWellFormed : Issue Value → Bool
  | ⟨path, message, _, _, detail⟩ =>
    allWellFormed path && wellFormed message && detailWellFormed detail
termination_by structural x => x

/-- The fields of a detail are well-formed. -/
def detailWellFormed : Detail Value (Issue Value) → Bool
  | .unspecified | .custom _ => true
  | .invalidType a b => wellFormed a && wellFormed b
  | .tooBig a b c d | .tooSmall a b c d =>
    wellFormed a && wellFormed b && wellFormed c && wellFormed d
  | .invalidFormat a b c d e =>
    wellFormed a && wellFormed b && wellFormed c && wellFormed d && wellFormed e
  | .notMultipleOf a | .unrecognizedKeys a | .invalidValue a => wellFormed a
  | .invalidUnion gs a b => groupsWellFormed gs && wellFormed a && wellFormed b
  | .invalidKey a is => wellFormed a && issuesWellFormed is
  | .invalidElement a k is => wellFormed a && wellFormed k && issuesWellFormed is
termination_by structural x => x

/-- All the issues are well-formed. -/
def issuesWellFormed : List (Issue Value) → Bool
  | [] => true
  | i :: is => issueWellFormed i && issuesWellFormed is
termination_by structural x => x

/-- All the issues of all the groups are well-formed. -/
def groupsWellFormed : List (List (Issue Value)) → Bool
  | [] => true
  | g :: gs => issuesWellFormed g && groupsWellFormed gs
termination_by structural x => x

end

/-! ## Symmetry and transitivity -/

/-- Being found is transitive from a value on, and symmetric if that is well-formed. -/
structure Regular {α : Type} (found : α → α → Bool) (formed : α → Bool) (a : α) : Prop where
  trans : ∀ b c, found a b = true → found b c = true → found a c = true
  symm : formed a = true → ∀ b, found a b = true → found b a = true

/-- Values that are found for one another are found for the same values. -/
theorem isFound_congr_of_atom {v w : Value}
    (hv : v.family ∉ [8, 9, 10, 11, 17, 18]) (h : isFound v w = true) (u : Value) :
    isFound v u = isFound w u := by
  have hfamily := family_eq h
  by_cases hu : v.family = u.family
  · by_cases hnumber : v.family = 2
    · rw [isFound_number hnumber, isFound_number (hfamily ▸ hnumber)]
      rw [isFound_number hnumber] at h
      rw [Bool.eq_iff_iff, numberEquals_iff, numberEquals_iff, (numberEquals_iff.1 h).2]
    · cases v with
      | bool _ | int _ | float _ => exact absurd rfl hnumber
      | list _ | tuple _ | dict _ | view _ | set _ | frozenSet _ | builtin _ | issue _ =>
        simp [family] at hv
      | cls c =>
        cases w <;> cases hfamily
        cases u <;> cases hu
        rename_i d e
        cases c <;> cases d <;> simp [isFound, numberEquals, whole?] at h <;> cases e <;>
          simp [isFound, numberEquals, whole?, h]
      | _ =>
        cases w <;> cases hfamily
        all_goals cases u <;> cases hu
        all_goals simp_all [isFound, Moment.eq, Moment.comparable]
  · rw [isFound_eq_false hu, isFound_eq_false (hfamily ▸ hu)]

theorem Regular.of_atom {v : Value} (hv : v.family ∉ [8, 9, 10, 11, 17, 18]) :
    Regular isFound wellFormed v where
  trans w u h h' := by rwa [isFound_congr_of_atom hv h]
  symm _ w h := by rw [← isFound_congr_of_atom hv h, isFound_refl]

/-- Lists that are compared place by place. -/
theorem Regular.forall₂ {α : Type} {found : α → α → Bool} {formed : α → Bool} {as : List α}
    {lists : List α → List α → Bool} {allFormed : List α → Bool}
    (hlists : ∀ {bs cs}, lists bs cs = true ↔ List.Forall₂ (fun b c => found b c = true) bs cs)
    (hformed : allFormed as = true → ∀ a ∈ as, formed a = true)
    (h : ∀ a ∈ as, Regular found formed a) : Regular lists allFormed as where
  trans bs cs hab hbc := by
    rw [hlists] at hab hbc ⊢
    clear hformed
    induction hab generalizing cs with
    | nil => exact hbc
    | @cons a b as bs hab _ ih =>
      cases hbc with
      | cons hbc hrest =>
        exact .cons ((h a (List.mem_cons_self ..)).trans _ _ hab hbc)
          (ih (fun a ha => h a (List.mem_cons_of_mem _ ha)) _ hrest)
  symm hall bs hab := by
    replace hformed := hformed hall
    rw [hlists] at hab ⊢
    clear hall
    induction hab with
    | nil => exact .nil
    | @cons a b as bs hab _ ih =>
      exact .cons ((h a (List.mem_cons_self ..)).symm (hformed a (List.mem_cons_self ..)) _ hab)
        (ih (fun a ha => h a (List.mem_cons_of_mem _ ha))
          fun a ha => hformed a (List.mem_cons_of_mem _ ha))

/-- If no two members of a list go to one place of a list of the same length, then every place is
taken. -/
theorem exists_of_length_eq {α β : Type} {rel : α → β → Prop} {as : List α} {bs : List β}
    (hlength : as.length = bs.length) (htotal : ∀ a ∈ as, ∃ b ∈ bs, rel a b)
    (hapart : as.Pairwise fun a a' => ∀ b, rel a b → ¬rel a' b) {b : β} (hb : b ∈ bs) :
    ∃ a ∈ as, rel a b := by
  induction as generalizing bs with
  | nil =>
    obtain rfl : bs = [] := List.length_eq_zero_iff.1 hlength.symm
    cases hb
  | cons a as ih =>
    obtain ⟨c, hc, hac⟩ := htotal a (List.mem_cons_self ..)
    obtain ⟨l, r, rfl⟩ := List.append_of_mem hc
    obtain ⟨ha, has⟩ := List.pairwise_cons.1 hapart
    rcases Classical.em (b = c) with rfl | hbc
    · exact ⟨a, List.mem_cons_self .., hac⟩
    · have hb' : b ∈ l ++ r := by simpa [hbc] using hb
      obtain ⟨a', ha', hrel⟩ := ih (by simp at hlength ⊢; omega)
        (fun a' ha' => by
          obtain ⟨d, hd, had⟩ := htotal a' (List.mem_cons_of_mem _ ha')
          rcases Classical.em (d = c) with rfl | hdc
          · exact absurd had (ha a' ha' d hac)
          · exact ⟨d, by simpa [hdc] using hd, had⟩) has hb'
      exact ⟨a', List.mem_cons_of_mem _ ha', hrel⟩

theorem allWellFormed_iff {vs : List Value} :
    allWellFormed vs = true ↔ ∀ v ∈ vs, v.wellFormed = true := by
  induction vs with
  | nil => simp [allWellFormed]
  | cons v vs ih => simp [allWellFormed, ih]

theorem entriesWellFormed_iff {es : List (Value × Value)} : entriesWellFormed es = true ↔
    ∀ e ∈ es, e.1.wellFormed = true ∧ e.2.wellFormed = true := by
  induction es with
  | nil => simp [entriesWellFormed]
  | cons e es ih =>
    obtain ⟨k, v⟩ := e
    simp [entriesWellFormed, ih]

theorem issuesWellFormed_iff {is : List (Issue Value)} :
    issuesWellFormed is = true ↔ ∀ i ∈ is, issueWellFormed i = true := by
  induction is with
  | nil => simp [issuesWellFormed]
  | cons i is ih => simp [issuesWellFormed, ih]

theorem groupsWellFormed_iff {gs : List (List (Issue Value))} :
    groupsWellFormed gs = true ↔ ∀ g ∈ gs, issuesWellFormed g = true := by
  induction gs with
  | nil => simp [groupsWellFormed]
  | cons g gs ih => simp [groupsWellFormed, ih]

/-- The members of two sets. -/
theorem members_trans {vs ws us : List Value} (h : ∀ v ∈ vs, Regular isFound wellFormed v)
    (hvw : membersFound vs ws = true) (hwu : membersFound ws us = true) :
    membersFound vs us = true := by
  rw [membersFound_iff] at hvw hwu ⊢
  intro v hv
  obtain ⟨w, hw, hvw⟩ := hvw v hv
  obtain ⟨u, hu, hwu⟩ := hwu w hw
  exact ⟨u, hu, (h v hv).trans w u hvw hwu⟩

theorem members_symm {vs ws : List Value} (h : ∀ v ∈ vs, Regular isFound wellFormed v)
    (hformed : ∀ v ∈ vs, v.wellFormed = true)
    (hapart : vs.Pairwise fun v v' => isFound v v' = false) (hlength : vs.length = ws.length)
    (hvw : membersFound vs ws = true) : membersFound ws vs = true := by
  rw [membersFound_iff] at hvw ⊢
  have hplaces : vs.Pairwise fun v v' => ∀ w, isFound v w = true → ¬isFound v' w = true := by
    refine hapart.imp_of_mem fun {v v'} hv hv' hne w hw hw' => ?_
    have := (h v hv).trans w v' hw ((h v' hv').symm (hformed v' hv') w hw')
    simp [hne] at this
  intro w hw
  obtain ⟨v, hv, hfound⟩ := exists_of_length_eq hlength hvw hplaces hw
  exact ⟨v, hv, (h v hv).symm (hformed v hv) w hfound⟩

/-- The entries of two mappings. -/
theorem entries_trans {es fs gs : List (Value × Value)}
    (h : ∀ e ∈ es, Regular isFound wellFormed e.1 ∧ Regular isFound wellFormed e.2)
    (hef : entriesFound es fs = true) (hfg : entriesFound fs gs = true) :
    entriesFound es gs = true := by
  rw [entriesFound_iff] at hef hfg ⊢
  intro e he
  obtain ⟨f, hf, hk, hv⟩ := hef e he
  obtain ⟨g, hg, hk', hv'⟩ := hfg f hf
  exact ⟨g, hg, (h e he).1.trans _ _ hk hk', (h e he).2.trans _ _ hv hv'⟩

theorem entries_symm {es fs : List (Value × Value)}
    (h : ∀ e ∈ es, Regular isFound wellFormed e.1 ∧ Regular isFound wellFormed e.2)
    (hformed : ∀ e ∈ es, e.1.wellFormed = true ∧ e.2.wellFormed = true)
    (hapart : Entries.Distinct es) (hlength : es.length = fs.length)
    (hef : entriesFound es fs = true) : entriesFound fs es = true := by
  rw [entriesFound_iff] at hef ⊢
  have hplaces : es.Pairwise fun e e' => ∀ f : Value × Value,
      (isFound e.1 f.1 = true ∧ isFound e.2 f.2 = true) →
        ¬(isFound e'.1 f.1 = true ∧ isFound e'.2 f.2 = true) := by
    refine List.Pairwise.imp_of_mem (fun {e e'} he he' hne f hf hf' => ?_) hapart
    have := (h e he).1.trans _ _ hf.1 ((h e' he').1.symm (hformed e' he').1 _ hf'.1)
    simp [hne] at this
  intro f hf
  obtain ⟨e, he, hk, hv⟩ := exists_of_length_eq hlength hef hplaces hf
  exact ⟨e, he, (h e he).1.symm (hformed e he).1 _ hk, (h e he).2.symm (hformed e he).2 _ hv⟩

/-- A mapping is found for the mappings of as many entries among which its own are found. -/
theorem isFound_mapping {v w : Value} {es : Entries} (hv : v.entries? = some es) :
    isFound v w = true ↔
      ∃ fs, w.entries? = some fs ∧ es.length = fs.length ∧ entriesFound es fs = true := by
  cases v with
  | dict _ | view _ =>
    cases hv
    by_cases hfamily : (dict es).family = w.family
    · cases w <;> cases hfamily <;> simp [isFound, entries?]
    · have hw : w.entries? = none := by
        cases w with
        | dict _ | view _ => exact absurd rfl hfamily
        | _ => rfl
      simp [isFound_eq_false (v := dict es) hfamily, isFound_eq_false (v := view es) hfamily, hw]
  | _ => cases hv

/-- The members of a set. -/
def members? : Value → Option (List Value)
  | set vs | frozenSet vs => some vs
  | _ => none

/-- A set is found for the sets of as many members among which its own are found. -/
theorem isFound_set {v w : Value} {vs : List Value} (hv : v.members? = some vs) :
    isFound v w = true ↔
      ∃ ws, w.members? = some ws ∧ vs.length = ws.length ∧ membersFound vs ws = true := by
  cases v with
  | set _ | frozenSet _ =>
    cases hv
    by_cases hfamily : (set vs).family = w.family
    · cases w <;> cases hfamily <;> simp [isFound, members?]
    · have hw : w.members? = none := by
        cases w with
        | set _ | frozenSet _ => exact absurd rfl hfamily
        | _ => rfl
      simp [isFound_eq_false (v := set vs) hfamily, isFound_eq_false (v := frozenSet vs) hfamily,
        hw]
  | _ => cases hv

theorem Regular.mapping {v : Value} {es : Entries} (hv : v.entries? = some es)
    (hformed : v.wellFormed = (decide (Entries.Distinct es) && entriesWellFormed es))
    (h : ∀ e ∈ es, Regular isFound wellFormed e.1 ∧ Regular isFound wellFormed e.2) :
    Regular isFound wellFormed v where
  trans w u hvw hwu := by
    obtain ⟨fs, hw, hlength, hef⟩ := (isFound_mapping hv).1 hvw
    obtain ⟨gs, hu, hlength', hfg⟩ := (isFound_mapping hw).1 hwu
    exact (isFound_mapping hv).2 ⟨gs, hu, hlength.trans hlength', entries_trans h hef hfg⟩
  symm hall w hvw := by
    obtain ⟨fs, hw, hlength, hef⟩ := (isFound_mapping hv).1 hvw
    rw [hformed, Bool.and_eq_true, decide_eq_true_iff, entriesWellFormed_iff] at hall
    exact (isFound_mapping hw).2
      ⟨es, hv, hlength.symm, entries_symm h hall.2 hall.1 hlength hef⟩

theorem Regular.members {v : Value} {vs : List Value} (hv : v.members? = some vs)
    (hformed : v.wellFormed =
      (decide (vs.Pairwise fun v w => isFound v w = false) && allWellFormed vs))
    (h : ∀ v ∈ vs, Regular isFound wellFormed v) : Regular isFound wellFormed v where
  trans w u hvw hwu := by
    obtain ⟨ws, hw, hlength, hmembers⟩ := (isFound_set hv).1 hvw
    obtain ⟨us, hu, hlength', hmembers'⟩ := (isFound_set hw).1 hwu
    exact (isFound_set hv).2
      ⟨us, hu, hlength.trans hlength', members_trans h hmembers hmembers'⟩
  symm hall w hvw := by
    obtain ⟨ws, hw, hlength, hmembers⟩ := (isFound_set hv).1 hvw
    rw [hformed, Bool.and_eq_true, decide_eq_true_iff, allWellFormed_iff] at hall
    exact (isFound_set hw).2
      ⟨vs, hv, hlength.symm, members_symm h hall.2 hall.1 hlength hmembers⟩

/-- What is compared with what is made in the same way alone, as the parts are. -/
theorem Regular.of_part {α β : Type} {found : α → α → Bool} {formed : α → Bool}
    (outer : β → β → Bool) (outerFormed : β → Bool) (make : α → β) {a : α}
    (hfound : ∀ b c, outer (make b) (make c) = found b c)
    (hother : ∀ b y, outer (make b) y = true → ∃ c, y = make c)
    (hformed : outerFormed (make a) = formed a) (h : Regular found formed a) :
    Regular outer outerFormed (make a) where
  trans y z hy hz := by
    obtain ⟨b, rfl⟩ := hother a y hy
    obtain ⟨c, rfl⟩ := hother b z hz
    rw [hfound] at hy hz ⊢
    exact h.trans b c hy hz
  symm hall y hy := by
    obtain ⟨b, rfl⟩ := hother a y hy
    rw [hfound] at hy ⊢
    exact h.symm (hformed ▸ hall) b hy

/-- What is compared part by part. -/
theorem Regular.and {α β : Type} {found : α → α → Bool} {formed : α → Bool}
    {found' : β → β → Bool} {formed' : β → Bool} {a : α} {b : β} (ha : Regular found formed a)
    (hb : Regular found' formed' b) :
    Regular (fun p q : α × β => found p.1 q.1 && found' p.2 q.2)
      (fun p => formed p.1 && formed' p.2) (a, b) where
  trans p q hp hq := by
    simp only [Bool.and_eq_true] at hp hq ⊢
    exact ⟨ha.trans _ _ hp.1 hq.1, hb.trans _ _ hp.2 hq.2⟩
  symm hall p hp := by
    simp only [Bool.and_eq_true] at hall hp ⊢
    exact ⟨ha.symm hall.1 _ hp.1, hb.symm hall.2 _ hp.2⟩

/-- What is compared by its constructor alone. -/
theorem Regular.of_constant {β : Type} {outer : β → β → Bool} {outerFormed : β → Bool} {y : β}
    (hrefl : outer y y = true) (hother : ∀ z, outer y z = true → ∀ x, outer z x = outer y x) :
    Regular outer outerFormed y where
  trans z x hz hx := by rwa [hother z hz] at hx
  symm _ z hz := by rw [hother z hz, hrefl]

mutual

/-- Being found is an equivalence on well-formed values. -/
theorem isFound_regular : (v : Value) → Regular isFound wellFormed v
  | list vs =>
    .of_part isFound wellFormed list (fun _ _ => rfl) (fun b w h => by
      have hfamily := family_eq h
      cases w <;> cases hfamily
      exact ⟨_, rfl⟩) rfl (.forall₂ areFound_iff allWellFormed_iff.1 (each_regular vs))
  | tuple vs =>
    .of_part isFound wellFormed tuple (fun _ _ => rfl) (fun b w h => by
      have hfamily := family_eq h
      cases w <;> cases hfamily
      exact ⟨_, rfl⟩) rfl (.forall₂ areFound_iff allWellFormed_iff.1 (each_regular vs))
  | dict es => .mapping rfl rfl (eachEntry_regular es)
  | view es => .mapping rfl rfl (eachEntry_regular es)
  | set vs => .members rfl rfl (each_regular vs)
  | frozenSet vs => .members rfl rfl (each_regular vs)
  | builtin b =>
    .of_part isFound wellFormed builtin (fun _ _ => rfl) (fun b w h => by
      have hfamily := family_eq h
      cases w <;> cases hfamily
      exact ⟨_, rfl⟩) rfl (sameBuiltin_regular b)
  | issue i =>
    .of_part isFound wellFormed issue (fun _ _ => rfl) (fun b w h => by
      have hfamily := family_eq h
      cases w <;> cases hfamily
      exact ⟨_, rfl⟩) rfl (issueFound_regular i)
  | missing | null | bool _ | int _ | float _ | nan _ | str _ | bytes _ _ | date _ | moment _
  | object _ _ | cls _ | member _ _ _ | pending _ _ | callable _ | check _ | schema _ =>
    .of_atom (by simp [family])
termination_by structural x => x

theorem sameBuiltin_regular : (b : Builtin Value) → Regular sameBuiltin builtinWellFormed b
  | .instanceOf c =>
    .of_part sameBuiltin builtinWellFormed Builtin.instanceOf (fun _ _ => rfl)
      (fun _ b h => by cases b <;> first | cases h | exact ⟨_, rfl⟩) rfl (isFound_regular c)
  | .definition n a => by
    have h := isFound_regular a
    constructor
    · intro b d hb hd
      cases b <;> simp [sameBuiltin] at hb
      cases d <;> simp [sameBuiltin] at hd ⊢
      exact ⟨hb.1.trans hd.1, h.trans _ _ hb.2 hd.2⟩
    · intro hc b hb
      cases b <;> simp [sameBuiltin] at hb ⊢
      exact ⟨hb.1.symm, h.symm hc _ hb.2⟩
  | .evaluateNode | .english | .trim | .toLower | .toUpper =>
    .of_constant rfl fun b h x => by
      cases b <;> cases h
      rfl
termination_by structural x => x

theorem each_regular : (vs : List Value) → ∀ v ∈ vs, Regular isFound wellFormed v
  | [] => by simp
  | v :: vs => List.forall_mem_cons.2 ⟨isFound_regular v, each_regular vs⟩
termination_by structural x => x

theorem eachEntry_regular : (es : List (Value × Value)) →
    ∀ e ∈ es, Regular isFound wellFormed e.1 ∧ Regular isFound wellFormed e.2
  | [] => by simp
  | (k, v) :: es =>
    List.forall_mem_cons.2 ⟨⟨isFound_regular k, isFound_regular v⟩, eachEntry_regular es⟩
termination_by structural x => x

theorem issueFound_regular : (i : Issue Value) → Regular issueFound issueWellFormed i
  | ⟨path, message, input, source, detail⟩ => by
    have hpath : Regular areFound allWellFormed path :=
      .forall₂ areFound_iff allWellFormed_iff.1 (each_regular path)
    have hparts := (hpath.and (isFound_regular message)).and (detailFound_regular detail)
    constructor
    · rintro ⟨p, m, _, _, d⟩ ⟨q, n, _, _, e⟩ h h'
      exact hparts.trans ((p, m), d) ((q, n), e) h h'
    · rintro hall ⟨p, m, _, _, d⟩ h
      exact hparts.symm hall ((p, m), d) h
termination_by structural x => x

theorem detailFound_regular :
    (d : Detail Value (Issue Value)) → Regular detailFound detailWellFormed d
  | .unspecified =>
    .of_constant rfl fun d h x => by
      cases d <;> cases h
      rfl
  | .custom _ =>
    .of_constant rfl fun d h x => by
      cases d with
      | custom _ => cases x <;> rfl
      | _ => cases h
  | .notMultipleOf a =>
    .of_part detailFound detailWellFormed Detail.notMultipleOf (fun _ _ => rfl)
      (fun _ d h => by cases d <;> first | cases h | exact ⟨_, rfl⟩) rfl (isFound_regular a)
  | .unrecognizedKeys a =>
    .of_part detailFound detailWellFormed Detail.unrecognizedKeys (fun _ _ => rfl)
      (fun _ d h => by cases d <;> first | cases h | exact ⟨_, rfl⟩) rfl (isFound_regular a)
  | .invalidValue a =>
    .of_part detailFound detailWellFormed Detail.invalidValue (fun _ _ => rfl)
      (fun _ d h => by cases d <;> first | cases h | exact ⟨_, rfl⟩) rfl (isFound_regular a)
  | .invalidType a b =>
    .of_part detailFound detailWellFormed
      (fun p : Value × Value => Detail.invalidType p.1 p.2)
      (fun _ _ => rfl)
      (fun _ d h => by cases d <;> first | exact ⟨(_, _), rfl⟩ | cases h) rfl
      ((isFound_regular a).and (isFound_regular b))
  | .tooBig a b c d =>
    .of_part detailFound detailWellFormed
      (fun p : ((Value × Value) × Value) × Value => Detail.tooBig p.1.1.1 p.1.1.2 p.1.2 p.2)
      (fun _ _ => rfl)
      (fun _ d h => by cases d <;> first | exact ⟨(((_, _), _), _), rfl⟩ | cases h) rfl
      ((((isFound_regular a).and (isFound_regular b)).and (isFound_regular c)).and
        (isFound_regular d))
  | .tooSmall a b c d =>
    .of_part detailFound detailWellFormed
      (fun p : ((Value × Value) × Value) × Value => Detail.tooSmall p.1.1.1 p.1.1.2 p.1.2 p.2)
      (fun _ _ => rfl)
      (fun _ d h => by cases d <;> first | exact ⟨(((_, _), _), _), rfl⟩ | cases h) rfl
      ((((isFound_regular a).and (isFound_regular b)).and (isFound_regular c)).and
        (isFound_regular d))
  | .invalidFormat a b c d e =>
    .of_part detailFound detailWellFormed
      (fun p : (((Value × Value) × Value) × Value) × Value =>
        Detail.invalidFormat p.1.1.1.1 p.1.1.1.2 p.1.1.2 p.1.2 p.2)
      (fun _ _ => rfl)
      (fun _ d h => by cases d <;> first | exact ⟨((((_, _), _), _), _), rfl⟩ | cases h) rfl
      (((((isFound_regular a).and (isFound_regular b)).and (isFound_regular c)).and
        (isFound_regular d)).and (isFound_regular e))
  | .invalidUnion gs a b =>
    .of_part detailFound detailWellFormed
      (fun p : (List (List (Issue Value)) × Value) × Value => Detail.invalidUnion p.1.1 p.1.2 p.2)
      (fun _ _ => rfl)
      (fun _ d h => by cases d <;> first | exact ⟨((_, _), _), rfl⟩ | cases h) rfl
      (((Regular.forall₂ groupsFound_iff groupsWellFormed_iff.1 (eachGroup_regular gs)).and
        (isFound_regular a)).and (isFound_regular b))
  | .invalidKey a is =>
    .of_part detailFound detailWellFormed
      (fun p : Value × List (Issue Value) => Detail.invalidKey p.1 p.2)
      (fun _ _ => rfl)
      (fun _ d h => by cases d <;> first | exact ⟨(_, _), rfl⟩ | cases h) rfl
      ((isFound_regular a).and
        (.forall₂ issuesFound_iff issuesWellFormed_iff.1 (eachIssue_regular is)))
  | .invalidElement a k is =>
    .of_part detailFound detailWellFormed
      (fun p : (Value × Value) × List (Issue Value) => Detail.invalidElement p.1.1 p.1.2 p.2)
      (fun _ _ => rfl)
      (fun _ d h => by cases d <;> first | exact ⟨((_, _), _), rfl⟩ | cases h) rfl
      (((isFound_regular a).and (isFound_regular k)).and
        (.forall₂ issuesFound_iff issuesWellFormed_iff.1 (eachIssue_regular is)))
termination_by structural x => x

theorem eachIssue_regular : (is : List (Issue Value)) →
    ∀ i ∈ is, Regular issueFound issueWellFormed i
  | [] => by simp
  | i :: is => List.forall_mem_cons.2 ⟨issueFound_regular i, eachIssue_regular is⟩
termination_by structural x => x

theorem eachGroup_regular : (gs : List (List (Issue Value))) →
    ∀ g ∈ gs, Regular issuesFound issuesWellFormed g
  | [] => by simp
  | g :: gs => List.forall_mem_cons.2
    ⟨.forall₂ issuesFound_iff issuesWellFormed_iff.1 (eachIssue_regular g), eachGroup_regular gs⟩
termination_by structural x => x

end

/-- What a value is found for is found again for the same. -/
theorem isFound_trans {v w u : Value} (hvw : isFound v w = true) (hwu : isFound w u = true) :
    isFound v u = true :=
  (isFound_regular v).trans w u hvw hwu

theorem isFound_symm {v w : Value} (hv : v.wellFormed = true) (h : isFound v w = true) :
    isFound w v = true :=
  (isFound_regular v).symm hv w h

theorem isFound_comm {v w : Value} (hv : v.wellFormed = true) (hw : w.wellFormed = true) :
    isFound v w = isFound w v :=
  Bool.eq_iff_iff.2 ⟨isFound_symm hv, isFound_symm hw⟩

/-- Equal values are found for the same values. -/
theorem isFound_congr_left {v w : Value} (hv : v.wellFormed = true) (h : isFound v w = true)
    (u : Value) : isFound v u = isFound w u :=
  Bool.eq_iff_iff.2 ⟨isFound_trans (isFound_symm hv h), isFound_trans h⟩

/-- The same values are found for equal values. -/
theorem isFound_congr_right {v w : Value} (hv : v.wellFormed = true) (h : isFound v w = true)
    (u : Value) : isFound u v = isFound u w :=
  Bool.eq_iff_iff.2
    ⟨fun hu => isFound_trans hu h, fun hu => isFound_trans hu (isFound_symm hv h)⟩

/-! ## Equality that tells truth values from numbers -/

/-- Whether a value is a truth value. -/
def isTruth : Value → Bool
  | bool _ => true
  | _ => false

/-- Whether a value is a NaN. -/
def isNan : Value → Bool
  | nan _ => true
  | _ => false

theorem equals_iff {v w : Value} :
    equals v w = true ↔ isFound v w = true ∧ v.isNan = false := by
  cases v <;> simp [equals, isNan]

/-- The same are values that are found for one another and are both truth values or both not. -/
theorem same_iff {v w : Value} :
    same v w = true ↔ isFound v w = true ∧ v.isTruth = w.isTruth ∧ v.isNan = false := by
  unfold same
  split
  · rename_i a b
    cases a <;> cases b <;> decide
  · simp [isTruth]
  · simp [isTruth]
  · simp [isFound, isTruth, isNan]
  · rename_i hw
    have hfound : isFound null w = false := by
      refine isFound_eq_false fun hfamily => ?_
      cases w <;> first | exact hw rfl | cases hfamily
    simp [hfound]
  · rename_i hv
    have hfound : isFound v null = false := by
      refine isFound_eq_false fun hfamily => ?_
      cases v <;> first | exact hv rfl | cases hfamily
    simp [hfound]
  · have htruth (u : Value) (hu : ∀ b, u = bool b → False) : u.isTruth = false := by
      cases u with
      | bool b => exact (hu b rfl).elim
      | _ => rfl
    rw [equals_iff, htruth v ‹_›, htruth w ‹_›]
    simp

theorem same_trans {v w u : Value} (hvw : same v w = true) (hwu : same w u = true) :
    same v u = true := by
  rw [same_iff] at hvw hwu ⊢
  exact ⟨isFound_trans hvw.1 hwu.1, hvw.2.1.trans hwu.2.1, hvw.2.2⟩

theorem same_symm {v w : Value} (hv : v.wellFormed = true) (h : same v w = true) :
    same w v = true := by
  rw [same_iff] at h ⊢
  have hnan : w.isNan = v.isNan := by
    have hfamily := family_eq h.1
    cases v <;> cases w <;> first | rfl | cases hfamily
  exact ⟨isFound_symm hv h.1, h.2.1.symm, hnan.trans h.2.2⟩

end Value
end Assay
