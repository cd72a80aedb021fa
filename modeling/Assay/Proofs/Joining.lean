import Assay.Proofs.Merging
import Mathlib.Data.Option.Basic

/-!
# A merge is a join (`merged?_join`)

Trees of nulls, whole numbers, texts, lists and mappings of texts (`Value.IsTree`) are ordered by
what they hold (`Value.Within`): a mapping is within those that have its keys and more, with
values that its own are within; lists are compared place by place. The merge of two trees is the
least tree that both are within, and two trees that do not merge are within no tree at all
(`merged?_least`). What is least for given trees does not depend on their order or nesting, so a
merge is idempotent, commutative and associative, whether it succeeds or fails.
-/

namespace Assay

namespace Value

variable {u v w : Value} {us vs ws : List Value} {es fs : Entries} {k x y : Value}

/-! ## Trees -/

/-- Nulls, whole numbers and texts have no parts. -/
def isLeaf : Value → Bool
  | null | int _ | str _ => true
  | _ => false

/-- Trees of leaves, lists, tuples and mappings of different texts. -/
inductive IsTree : Value → Prop
  | leaf {v : Value} : v.isLeaf = true → IsTree v
  | items {v : Value} {vs : List Value} : v.items? = some vs → (∀ x ∈ vs, IsTree x) → IsTree v
  | entries {v : Value} {es : Entries} : v.entries? = some es → es.Distinct →
    (∀ e ∈ es, ∃ name, e.1 = .str name) → (∀ e ∈ es, IsTree e.2) → IsTree v

theorem items?_of_isLeaf (h : v.isLeaf = true) : v.items? = none := by
  cases v <;> first | rfl | cases h

theorem entries?_of_isLeaf (h : v.isLeaf = true) : v.entries? = none := by
  cases v <;> first | rfl | cases h

theorem entries?_of_items (h : v.items? = some vs) : v.entries? = none := by
  cases v <;> first | rfl | cases h

theorem IsTree.of_items (h : v.IsTree) (hv : v.items? = some vs) : ∀ x ∈ vs, x.IsTree := by
  cases h with
  | leaf hleaf => cases (items?_of_isLeaf hleaf).symm.trans hv
  | items hv' hvs =>
    obtain rfl := Option.some.inj (hv'.symm.trans hv)
    exact hvs
  | entries hes => cases (entries?_of_items hv).symm.trans hes

theorem IsTree.of_entries (h : v.IsTree) (hv : v.entries? = some es) :
    (∀ e ∈ es, ∃ name, e.1 = .str name) ∧ ∀ e ∈ es, e.2.IsTree := by
  cases h with
  | leaf hleaf => cases (entries?_of_isLeaf hleaf).symm.trans hv
  | items hvs => cases (entries?_of_items hvs).symm.trans hv
  | entries hv' _ hkeys hes =>
    obtain rfl := Option.some.inj (hv'.symm.trans hv)
    exact ⟨hkeys, hes⟩

theorem IsTree.of_find? (h : v.IsTree) (hv : v.entries? = some es) (hx : es.find? k = some x) :
    x.IsTree := by
  obtain ⟨i, hi, -⟩ := Entries.exists_of_find? hx
  exact (h.of_entries hv).2 _ hi

theorem IsTree.of_getElem? (h : v.IsTree) (hv : v.items? = some vs) {i : Nat}
    (hx : vs[i]? = some x) : x.IsTree :=
  h.of_items hv x (List.mem_of_getElem? hx)

theorem IsTree.wellFormed (h : v.IsTree) : v.wellFormed = true := by
  induction h with
  | @leaf v hleaf => cases v <;> first | rfl | cases hleaf
  | @items v vs hv _ ih =>
    cases v <;> cases hv <;> exact allWellFormed_iff.2 ih
  | @entries v es hv hdistinct hkeys _ ih =>
    have hes : entriesWellFormed es = true := entriesWellFormed_iff.2 fun e he => by
      obtain ⟨name, hname⟩ := hkeys e he
      exact ⟨by rw [hname]; rfl, ih e he⟩
    cases v <;> cases hv <;>
      exact Bool.and_eq_true_iff.2 ⟨decide_eq_true hdistinct, hes⟩

/-! ## The order -/

/-- A tree is within another: leaves within themselves, lists place by place, mappings in those
that have their keys, with values that their own are within. -/
inductive Within : Value → Value → Prop
  | leaf {v : Value} : v.isLeaf = true → Within v v
  | items {v w : Value} {vs ws : List Value} : v.items? = some vs → w.items? = some ws →
    vs.length = ws.length →
    (∀ (i : Nat) (x y : Value), vs[i]? = some x → ws[i]? = some y → Within x y) → Within v w
  | entries {v w : Value} {es fs : Entries} : v.entries? = some es → w.entries? = some fs →
    (∀ k, (es.find? k).isSome → (fs.find? k).isSome) →
    (∀ k x y, es.find? k = some x → fs.find? k = some y → Within x y) → Within v w

/-- Trees are alike that differ in the order of their mappings alone, and in which of their lists
are tuples. -/
inductive SameTree : Value → Value → Prop
  | leaf {v : Value} : v.isLeaf = true → SameTree v v
  | items {v w : Value} {vs ws : List Value} : v.items? = some vs → w.items? = some ws →
    vs.length = ws.length →
    (∀ (i : Nat) (x y : Value), vs[i]? = some x → ws[i]? = some y → SameTree x y) → SameTree v w
  | entries {v w : Value} {es fs : Entries} : v.entries? = some es → w.entries? = some fs →
    (∀ k, (es.find? k).isSome ↔ (fs.find? k).isSome) →
    (∀ k x y, es.find? k = some x → fs.find? k = some y → SameTree x y) → SameTree v w

theorem Within.eq_of_leaf (h : Within v w) (hleaf : v.isLeaf = true ∨ w.isLeaf = true) :
    v = w := by
  cases h with
  | leaf => rfl
  | items hv hw =>
    rcases hleaf with hleaf | hleaf
    · cases (items?_of_isLeaf hleaf).symm.trans hv
    · cases (items?_of_isLeaf hleaf).symm.trans hw
  | entries hv hw =>
    rcases hleaf with hleaf | hleaf
    · cases (entries?_of_isLeaf hleaf).symm.trans hv
    · cases (entries?_of_isLeaf hleaf).symm.trans hw

/-- What a list is within is a list of the same length. -/
theorem Within.of_items (h : Within v w) (hv : v.items? = some vs) :
    ∃ ws, w.items? = some ws ∧ vs.length = ws.length ∧
      ∀ (i : Nat) (x y : Value), vs[i]? = some x → ws[i]? = some y → Within x y := by
  cases h with
  | leaf hleaf => cases (items?_of_isLeaf hleaf).symm.trans hv
  | items hv' hw hlength heach =>
    obtain rfl := Option.some.inj (hv'.symm.trans hv)
    exact ⟨_, hw, hlength, heach⟩
  | entries hv' => cases (entries?_of_items hv).symm.trans hv'

/-- What a mapping is within is a mapping that has its keys. -/
theorem Within.of_entries (h : Within v w) (hv : v.entries? = some es) :
    ∃ fs, w.entries? = some fs ∧ (∀ k, (es.find? k).isSome → (fs.find? k).isSome) ∧
      ∀ k x y, es.find? k = some x → fs.find? k = some y → Within x y := by
  cases h with
  | leaf hleaf => cases (entries?_of_isLeaf hleaf).symm.trans hv
  | items hv' => cases (entries?_of_items hv').symm.trans hv
  | entries hv' hw hkeys heach =>
    obtain rfl := Option.some.inj (hv'.symm.trans hv)
    exact ⟨_, hw, hkeys, heach⟩

/-- Lists alone are within lists. -/
theorem Within.exists_items (h : Within v w) (hw : w.items? = some ws) :
    ∃ vs, v.items? = some vs := by
  cases h with
  | leaf => exact ⟨ws, hw⟩
  | items hv => exact ⟨_, hv⟩
  | entries _ hw' => cases (entries?_of_items hw).symm.trans hw'

/-- Mappings alone are within mappings. -/
theorem Within.exists_entries (h : Within v w) (hw : w.entries? = some fs) :
    ∃ es, v.entries? = some es := by
  cases h with
  | leaf => exact ⟨fs, hw⟩
  | items _ hw' => cases (entries?_of_items hw').symm.trans hw
  | entries hv => exact ⟨_, hv⟩

theorem Within.refl (h : v.IsTree) : Within v v := by
  induction h with
  | leaf hleaf => exact .leaf hleaf
  | items hv _ ih =>
    refine .items hv hv rfl fun i x y hx hy => ?_
    obtain rfl := Option.some.inj (hx.symm.trans hy)
    exact ih x (List.mem_of_getElem? hx)
  | entries hv _ _ _ ih =>
    refine .entries hv hv (fun _ => id) fun k x y hx hy => ?_
    obtain rfl := Option.some.inj (hx.symm.trans hy)
    obtain ⟨i, hi, -⟩ := Entries.exists_of_find? hx
    exact ih _ hi

theorem Within.trans (huv : Within u v) (hvw : Within v w) : Within u w := by
  -- What the first tree has at a place or key, the second has there, too.
  induction huv generalizing w with
  | leaf _ => exact hvw
  | @items u v us vs hu hv hlength _ ih =>
    obtain ⟨ws, hw, hlength', heach⟩ := hvw.of_items hv
    refine .items hu hw (hlength.trans hlength') fun i x z hx hz => ?_
    have hi : i < vs.length := hlength ▸ (List.getElem?_eq_some_iff.1 hx).1
    exact ih i x vs[i] hx (List.getElem?_eq_getElem hi)
      (heach i vs[i] z (List.getElem?_eq_getElem hi) hz)
  | @entries u v es fs hu hv hkeys _ ih =>
    obtain ⟨gs, hw, hkeys', heach⟩ := hvw.of_entries hv
    refine .entries hu hw (fun k hk => hkeys' k (hkeys k hk)) fun k x z hx hz => ?_
    obtain ⟨y, hy⟩ := Option.isSome_iff_exists.1 (hkeys k (by rw [hx]; rfl))
    exact ih k x y hx hy (heach k y z hy hz)

/-- Trees that are within one another are alike. -/
theorem Within.antisymm (hvw : Within v w) (hwv : Within w v) : SameTree v w := by
  induction hvw with
  | leaf hleaf => exact .leaf hleaf
  | @items v w vs ws hv hw hlength _ ih =>
    obtain ⟨vs', hv', -, heach⟩ := hwv.of_items hw
    obtain rfl := Option.some.inj (hv.symm.trans hv')
    exact .items hv hw hlength fun i x y hx hy => ih i x y hx hy (heach i y x hy hx)
  | @entries v w es fs hv hw hkeys _ ih =>
    obtain ⟨es', hv', hkeys', heach⟩ := hwv.of_entries hw
    obtain rfl := Option.some.inj (hv.symm.trans hv')
    exact .entries hv hw (fun k => ⟨hkeys k, hkeys' k⟩)
      fun k x y hx hy => ih k x y hx hy (heach k y x hy hx)

theorem IsTree.exists_int (h : v.IsTree) (hfamily : v.family = 2) : ∃ n, v = .int n := by
  cases v with
  | int n => exact ⟨n, rfl⟩
  | bool _ | float _ => cases h with | leaf h | items h | entries h => cases h
  | _ => cases hfamily

theorem IsTree.eq_of_isLeaf (hw : w.IsTree) (hleaf : v.isLeaf = true) (h : v.isFound w = true) :
    v = w := by
  have hfamily := family_eq h
  cases v with
  | null =>
    cases w <;> cases hfamily
    rfl
  | int n =>
    obtain ⟨m, rfl⟩ := hw.exists_int hfamily.symm
    simpa [isFound, numberEquals, whole?] using h
  | str s =>
    cases w <;> cases hfamily
    simpa [isFound] using h
  | _ => cases hleaf

/-- Equal trees are within one another. -/
theorem within_of_isFound (hv : v.IsTree) (hw : w.IsTree) (h : v.isFound w = true) :
    Within v w := by
  induction hv generalizing w with
  | leaf hleaf => exact hw.eq_of_isLeaf hleaf h ▸ .leaf hleaf
  | @items v vs hv _ ih =>
    have heach : ∃ ws, w.items? = some ws ∧ List.Forall₂ (fun x y => isFound x y = true) vs ws := by
      have hfamily := family_eq h
      cases v <;> cases hv <;> cases w <;> cases hfamily <;> exact ⟨_, rfl, areFound_iff.1 h⟩
    obtain ⟨ws, hws, heach⟩ := heach
    refine .items hv hws heach.length_eq fun i x y hx hy => ?_
    obtain ⟨hi, rfl⟩ := List.getElem?_eq_some_iff.1 hx
    obtain ⟨hj, rfl⟩ := List.getElem?_eq_some_iff.1 hy
    exact ih _ (List.getElem_mem hi) (hw.of_items hws _ (List.getElem_mem hj)) (heach.get hi hj)
  | @entries v es hv hdistinct hkeys hes ih =>
    obtain ⟨fs, hfs, -, -⟩ := (isFound_mapping hv).1 h
    have hfind {k x : Value} (hx : es.find? k = some x) :
        ∃ y, fs.find? k = some y ∧ x.isFound y = true :=
      find?_of_isFound h (IsTree.entries hv hdistinct hkeys hes).wellFormed hw.wellFormed hv hfs hx
    refine .entries hv hfs (fun k hk => ?_) fun k x y hx hy => ?_
    · obtain ⟨x, hx⟩ := Option.isSome_iff_exists.1 hk
      obtain ⟨y, hy, -⟩ := hfind hx
      rw [hy, Option.isSome_some]
    · obtain ⟨y', hy', hxy⟩ := hfind hx
      obtain rfl := Option.some.inj (hy.symm.trans hy')
      obtain ⟨i, hi, -⟩ := Entries.exists_of_find? hx
      exact ih _ hi (hw.of_find? hfs hy) hxy

/-! ## The least tree of several -/

/-- A tree that all of the given ones are within. -/
def Bounds (vs : List Value) (u : Value) : Prop :=
  u.IsTree ∧ ∀ v ∈ vs, Within v u

/-- What is least among the trees of a kind, or nothing if there are none. -/
inductive LeastOf (P : Value → Prop) : Option Value → Prop
  | some {m : Value} : P m → (∀ u, P u → Within m u) → LeastOf P (some m)
  | none : (∀ u, ¬P u) → LeastOf P none

theorem bounds_pair : Bounds [v, w] u ↔ u.IsTree ∧ Within v u ∧ Within w u := by
  simp [Bounds]

theorem LeastOf.bound {P : Value → Prop} {m : Value} (h : LeastOf P (Option.some m)) : P m := by
  cases h with | some hm _ => exact hm

theorem LeastOf.within {P : Value → Prop} {m : Value} (h : LeastOf P (Option.some m)) (hu : P u) :
    Within m u := by
  cases h with | some _ hleast => exact hleast u hu

/-- There is one least tree. -/
theorem LeastOf.sameTree {P : Value → Prop} {m n : Option Value} (hm : LeastOf P m)
    (hn : LeastOf P n) : Option.Rel SameTree m n := by
  cases hm with
  | some hm hleast =>
    cases hn with
    | some hn hleast' => exact .some ((hleast _ hn).antisymm (hleast' _ hm))
    | none hnone => exact absurd hm (hnone _)
  | none hnone =>
    cases hn with
    | some hn _ => exact absurd hn (hnone _)
    | none _ => exact .none

theorem LeastOf.congr {P Q : Value → Prop} {m : Option Value} (h : ∀ u, P u ↔ Q u)
    (hm : LeastOf P m) : LeastOf Q m := by
  rwa [← funext fun u => propext (h u)]

/-- The trees that the least one is within are those that the given ones are within. -/
theorem LeastOf.bounds_iff {m : Value} (h : LeastOf (Bounds vs) (Option.some m)) :
    Bounds vs u ↔ u.IsTree ∧ Within m u := by
  constructor
  · intro hu
    exact ⟨hu.1, h.within hu⟩
  · rintro ⟨hu, hmu⟩
    exact ⟨hu, fun v hv => (h.bound.2 v hv).trans hmu⟩

/-! ## Merges are least -/

theorem merged?_least_of_one (hv : v.IsTree) (hw : w.IsTree) (hone : v.isOne w = true) :
    LeastOf (Bounds [v, w]) (v.merged? w) := by
  rw [merged?_of_isOne hone]
  have hwv : w.isFound v = true := isFound_symm hv.wellFormed (isOne_iff.1 hone).1
  exact .some (bounds_pair.2 ⟨hv, .refl hv, within_of_isFound hw hv hwv⟩)
    fun u hu => (bounds_pair.1 hu).2.1

/-- A leaf is within itself alone, and merges with itself alone. -/
theorem merged?_least_of_leaf (hone : v.isOne w = false) (hw : w.isLeaf = true) :
    LeastOf (Bounds [v, w]) (v.merged? w) := by
  have hentries := entries?_of_isLeaf hw
  have hitems := items?_of_isLeaf hw
  rw [merged?_apart hone (.inr hentries) fun _ _ _ hvs => by cases hitems.symm.trans hvs]
  refine .none fun u hu => ?_
  obtain ⟨-, hvu, hwu⟩ := bounds_pair.1 hu
  obtain rfl : w = u := hwu.eq_of_leaf (.inl hw)
  obtain rfl : v = w := hvu.eq_of_leaf (.inr hw)
  simp [isOne_iff.2 ⟨isFound_refl v, rfl⟩] at hone

/-- A tree that two lists are within is a list of trees that their items are within. -/
theorem Bounds.of_items (hv : v.items? = some vs) (hw : w.items? = some ws)
    (hu : Bounds [v, w] u) : ∃ us, u.items? = some us ∧ us.length = vs.length ∧
      us.length = ws.length ∧ ∀ (i : Nat) (x y z : Value), vs[i]? = some x → ws[i]? = some y →
        us[i]? = some z → Bounds [x, y] z := by
  obtain ⟨hutree, hvu, hwu⟩ := bounds_pair.1 hu
  obtain ⟨us, hus, hlength, hleft⟩ := hvu.of_items hv
  obtain ⟨us', hus', hlength', hright⟩ := hwu.of_items hw
  obtain rfl := Option.some.inj (hus.symm.trans hus')
  refine ⟨us, hus, hlength.symm, hlength'.symm, fun i x y z hx hy hz => bounds_pair.2 ⟨?_, ?_, ?_⟩⟩
  · exact hutree.of_getElem? hus hz
  · exact hleft i x z hx hz
  · exact hright i y z hy hz

/-- Lists of one length. -/
theorem merged?_least_of_items (hone : v.isOne w = false) (hv : v.items? = some vs)
    (hw : w.items? = some ws) (hlength : vs.length = ws.length)
    (ih : ∀ (i : Nat) (x y : Value), vs[i]? = some x → ws[i]? = some y →
      LeastOf (Bounds [x, y]) (x.merged? y)) :
    LeastOf (Bounds [v, w]) (v.merged? w) := by
  have hmerges := mergesByPlaces_of_not_isOne hone hv hw hlength
  cases hm : v.merged? w with
  | none =>
    refine .none fun u hu => ?_
    obtain ⟨us, hus, hlen, -, heach⟩ := hu.of_items hv hw
    rw [hm] at hmerges
    -- A place that does not merge has no tree that both its values are within.
    have hsome : (none : Option Value).isSome := hmerges.succeeds.2 fun i x y hx hy => by
      have hi : i < us.length := hlen ▸ (List.getElem?_eq_some_iff.1 hx).1
      have hbound := heach i x y us[i] hx hy (List.getElem?_eq_getElem hi)
      cases hxy : x.merged? y with
      | some m => rfl
      | none =>
        cases hxy ▸ ih i x y hx hy with
        | none hnone => exact absurd hbound (hnone _)
    cases hsome
  | some m =>
    obtain ⟨ms, hms, hlen, heach⟩ := hmerges.holds m hm
    have hplace : ∀ (i : Nat) (z : Value), ms[i]? = some z →
        ∃ x y, vs[i]? = some x ∧ ws[i]? = some y ∧ LeastOf (Bounds [x, y]) (some z) := by
      intro i z hz
      have hi : i < vs.length := hlen ▸ (List.getElem?_eq_some_iff.1 hz).1
      have hx : vs[i]? = some vs[i] := List.getElem?_eq_getElem hi
      have hy : ws[i]? = some ws[i] := List.getElem?_eq_getElem (hlength ▸ hi)
      refine ⟨vs[i], ws[i], hx, hy, ?_⟩
      rw [← hz, heach i _ _ hx hy]
      exact ih i _ _ hx hy
    refine .some (bounds_pair.2 ⟨.items hms fun z hz => ?_, ?_, ?_⟩) fun u hu => ?_
    · obtain ⟨i, hi⟩ := List.getElem?_of_mem hz
      obtain ⟨x, y, -, -, hleast⟩ := hplace i z hi
      exact hleast.bound.1
    · refine .items hv hms hlen.symm fun i x z hx hz => ?_
      obtain ⟨x', y, hx', -, hleast⟩ := hplace i z hz
      obtain rfl := Option.some.inj (hx.symm.trans hx')
      exact (bounds_pair.1 hleast.bound).2.1
    · refine .items hw hms (hlen.trans hlength).symm fun i y z hy hz => ?_
      obtain ⟨x, y', -, hy', hleast⟩ := hplace i z hz
      obtain rfl := Option.some.inj (hy.symm.trans hy')
      exact (bounds_pair.1 hleast.bound).2.2
    · obtain ⟨us, hus, hulen, -, hbound⟩ := hu.of_items hv hw
      refine .items hms hus (hlen.trans hulen.symm) fun i z t hz ht => ?_
      obtain ⟨x, y, hx, hy, hleast⟩ := hplace i z hz
      exact hleast.within (hbound i x y t hx hy ht)

/-- What two mappings hold for a key. -/
def sides (es fs : Entries) (k : Value) : List Value :=
  (es.find? k).toList ++ (fs.find? k).toList

theorem bounds_sides : Bounds (sides es fs k) u ↔ u.IsTree ∧
    (∀ x, es.find? k = some x → Within x u) ∧ ∀ y, fs.find? k = some y → Within y u := by
  simp [Bounds, sides, or_imp, forall_and]

/-- A tree that two mappings are within is a mapping with their keys, and trees that their values
are within. -/
theorem Bounds.of_entries (hv : v.entries? = some es) (hw : w.entries? = some fs)
    (hu : Bounds [v, w] u) : ∃ gs, u.entries? = some gs ∧
      (∀ k, (es.find? k).isSome ∨ (fs.find? k).isSome → (gs.find? k).isSome) ∧
      ∀ k z, gs.find? k = some z → Bounds (sides es fs k) z := by
  obtain ⟨hutree, hvu, hwu⟩ := bounds_pair.1 hu
  obtain ⟨gs, hgs, hkeys, hleft⟩ := hvu.of_entries hv
  obtain ⟨gs', hgs', hkeys', hright⟩ := hwu.of_entries hw
  obtain rfl := Option.some.inj (hgs.symm.trans hgs')
  refine ⟨gs, hgs, fun k hk => hk.elim (hkeys k) (hkeys' k), fun k z hz => ?_⟩
  exact bounds_sides.2 ⟨hutree.of_find? hgs hz, fun x hx => hleft k x z hx hz,
    fun y hy => hright k y z hy hz⟩

/-- What a merge holds for a key is the least tree of what the two sides hold for it. -/
theorem least_of_merges {ms : Entries} (hes : ∀ k x, es.find? k = some x → x.IsTree)
    (hfs : ∀ k x, fs.find? k = some x → x.IsTree) (h : es.Merges fs ms)
    (ih : ∀ k x y, es.find? k = some x → fs.find? k = some y →
      LeastOf (Bounds [x, y]) (x.merged? y)) {z : Value} (hz : ms.find? k = some z) :
    LeastOf (Bounds (sides es fs k)) (some z) := by
  have hself (x : Value) (hx : x.IsTree) : LeastOf (Bounds [x]) (some x) :=
    .some ⟨hx, by simpa using .refl hx⟩ fun u hu => hu.2 x (List.mem_singleton_self x)
  cases hx : es.find? k with
  | none =>
    rw [sides, hx]
    rw [h.onlyRight k hx] at hz
    rw [hz]
    exact hself z (hfs k z hz)
  | some x =>
    cases hy : fs.find? k with
    | none =>
      rw [h.onlyLeft k hy] at hz
      rw [sides, hz, hy]
      exact hself z (hes k z hz)
    | some y =>
      rw [h.shared k x y hx hy] at hz
      rw [sides, hx, hy, ← hz]
      exact ih k x y hx hy

/-- Mappings. -/
theorem merged?_least_of_entries (hone : v.isOne w = false) (hvtree : v.IsTree) (hwtree : w.IsTree)
    (hv : v.entries? = some es) (hw : w.entries? = some fs)
    (ih : ∀ k x y, es.find? k = some x → fs.find? k = some y →
      LeastOf (Bounds [x, y]) (x.merged? y)) :
    LeastOf (Bounds [v, w]) (v.merged? w) := by
  have hmerges := mergesByKeys_of_not_isOne hone hvtree.wellFormed hwtree.wellFormed hv hw
  cases hm : v.merged? w with
  | none =>
    refine .none fun u hu => ?_
    obtain ⟨gs, -, hkeys, hgs⟩ := hu.of_entries hv hw
    rw [hm] at hmerges
    -- A shared key that does not merge has no tree that both its values are within.
    have hsome : (none : Option Value).isSome := hmerges.succeeds.2 fun k x y hx hy => by
      obtain ⟨z, hz⟩ := Option.isSome_iff_exists.1 (hkeys k (.inl (by rw [hx]; rfl)))
      have hbound : Bounds [x, y] z := by simpa [sides, hx, hy] using hgs k z hz
      cases hxy : x.merged? y with
      | some m => rfl
      | none =>
        cases hxy ▸ ih k x y hx hy with
        | none hnone => exact absurd hbound (hnone _)
    cases hsome
  | some m =>
    obtain ⟨ms, hms, hdistinct, hholds⟩ := hmerges.holds m hm
    have hleast {k z : Value} (hz : ms.find? k = some z) :
        LeastOf (Bounds (sides es fs k)) (some z) :=
      least_of_merges (fun k x hx => hvtree.of_find? hv hx) (fun k y hy => hwtree.of_find? hw hy)
        hholds ih hz
    have htext {gs : Entries} {k : Value} (hgs : ∀ e ∈ gs, ∃ name, e.1 = .str name)
        (hk : (gs.find? k).isSome) : ∃ name, k = .str name := by
      obtain ⟨x, hx⟩ := Option.isSome_iff_exists.1 hk
      obtain ⟨i, hi, hik⟩ := Entries.exists_of_find? hx
      obtain ⟨name, rfl⟩ : ∃ name, i = .str name := hgs _ hi
      have hfamily := family_eq hik
      cases k <;> cases hfamily
      exact ⟨_, rfl⟩
    refine .some (bounds_pair.2 ⟨.entries hms hdistinct ?_ ?_, ?_, ?_⟩) fun u hu => ?_
    · intro e he
      have hfound : (ms.find? e.1).isSome := by rw [Entries.find?_of_mem hdistinct he]; rfl
      exact ((hholds.keys e.1).1 hfound).elim (htext (hvtree.of_entries hv).1)
        (htext (hwtree.of_entries hw).1)
    · exact fun e he => (hleast (Entries.find?_of_mem hdistinct he)).bound.1
    · exact .entries hv hms (fun k hk => (hholds.keys k).2 (.inl hk))
        fun k x z hx hz => (bounds_sides.1 (hleast hz).bound).2.1 x hx
    · exact .entries hw hms (fun k hk => (hholds.keys k).2 (.inr hk))
        fun k y z hy hz => (bounds_sides.1 (hleast hz).bound).2.2 y hy
    · obtain ⟨gs, hgs, hkeys, hbound⟩ := hu.of_entries hv hw
      exact .entries hms hgs (fun k hk => hkeys k ((hholds.keys k).1 hk))
        fun k z t hz ht => (hleast hz).within (hbound k t ht)

/-- The merge of two trees is the least tree that both are within, and trees that do not merge are
within no tree. -/
theorem merged?_least (hv : v.IsTree) (hw : w.IsTree) :
    LeastOf (Bounds [v, w]) (v.merged? w) := by
  -- On the right tree, as a merge goes down it and looks up what the left tree has there.
  induction hw generalizing v with
  | @leaf w hleaf =>
    cases hone : v.isOne w with
    | true => exact merged?_least_of_one hv (.leaf hleaf) hone
    | false => exact merged?_least_of_leaf hone hleaf
  | @items w ws hw hws ih =>
    cases hone : v.isOne w with
    | true => exact merged?_least_of_one hv (.items hw hws) hone
    | false =>
      by_cases hlist : ∃ vs, v.items? = some vs ∧ vs.length = ws.length
      · obtain ⟨vs, hvs, hlength⟩ := hlist
        refine merged?_least_of_items hone hvs hw hlength fun i x y hx hy => ?_
        exact ih y (List.mem_of_getElem? hy) (hv.of_getElem? hvs hx)
      · have happart : ∀ vs us, v.items? = some vs → w.items? = some us → vs.length ≠ us.length := by
          intro vs us hvs hus hlength
          obtain rfl := Option.some.inj (hw.symm.trans hus)
          exact hlist ⟨vs, hvs, hlength⟩
        rw [merged?_apart hone (.inr (entries?_of_items hw)) happart]
        refine .none fun u hu => ?_
        obtain ⟨-, hvu, hwu⟩ := bounds_pair.1 hu
        obtain ⟨us, hus, -⟩ := hwu.of_items hw
        obtain ⟨vs, hvs⟩ := hvu.exists_items hus
        obtain ⟨us, -, hlength, hlength', -⟩ := hu.of_items hvs hw
        exact happart vs ws hvs hw (hlength.symm.trans hlength')
  | @entries w fs hw hdistinct hkeys hfs ih =>
    have hwtree : w.IsTree := .entries hw hdistinct hkeys hfs
    cases hone : v.isOne w with
    | true => exact merged?_least_of_one hv hwtree hone
    | false =>
      cases hes : v.entries? with
      | some es =>
        refine merged?_least_of_entries hone hv hwtree hes hw fun k x y hx hy => ?_
        obtain ⟨i, hi, -⟩ := Entries.exists_of_find? hy
        exact ih _ hi (hv.of_find? hes hx)
      | none =>
        rw [merged?_apart hone (.inl hes) fun _ _ _ hvs => by
          cases (entries?_of_items hvs).symm.trans hw]
        refine .none fun u hu => ?_
        obtain ⟨-, hvu, hwu⟩ := bounds_pair.1 hu
        obtain ⟨gs, hgs, -⟩ := hwu.of_entries hw
        obtain ⟨es, hv'⟩ := hvu.exists_entries hgs
        cases hes.symm.trans hv'

/-! ## The laws -/

variable {a b c : Value}

/-- What is least step by step, if it is at each step. -/
theorem LeastOf.bind {Q : Value → Prop} {n : Option Value} {f : Value → Option Value}
    (h : LeastOf (Bounds vs) n) (hbounds : ∀ u, Q u → Bounds vs u)
    (hf : ∀ m, LeastOf (Bounds vs) (Option.some m) → LeastOf Q (f m)) :
    LeastOf Q (n.bind f) := by
  cases n with
  | none =>
    cases h with
    | none hnone => exact .none fun u hu => hnone u (hbounds u hu)
  | some m => exact hf m h

/-- Merging from the left, the least tree of three. -/
theorem merged?_least_left (ha : a.IsTree) (hb : b.IsTree) (hc : c.IsTree) :
    LeastOf (Bounds [a, b, c]) ((a.merged? b).bind fun m => m.merged? c) := by
  refine (merged?_least ha hb).bind (fun u hu => ?_) fun m hm => ?_
  · exact ⟨hu.1, fun v hv => hu.2 v (List.mem_append_left [c] hv)⟩
  · refine (merged?_least hm.bound.1 hc).congr fun u => ?_
    rw [bounds_pair, ← and_assoc, ← hm.bounds_iff, bounds_pair]
    simp [Bounds, and_assoc]

/-- Merging from the right, the same. -/
theorem merged?_least_right (ha : a.IsTree) (hb : b.IsTree) (hc : c.IsTree) :
    LeastOf (Bounds [a, b, c]) ((b.merged? c).bind fun m => a.merged? m) := by
  refine (merged?_least hb hc).bind (fun u hu => ?_) fun m hm => ?_
  · exact ⟨hu.1, fun v hv => hu.2 v (List.mem_cons_of_mem a hv)⟩
  · refine (merged?_least ha hm.bound.1).congr fun u => ?_
    rw [bounds_pair, and_left_comm, ← hm.bounds_iff, bounds_pair]
    simp [Bounds, and_left_comm]

/-- A merge is a partial join: of a tree with itself it is the tree, its order and nesting do not
matter for whether it succeeds and what it gives, and it gives what its parts can be merged with
again. -/
theorem merged?_join (ha : a.IsTree) (hb : b.IsTree) (hc : c.IsTree) :
    a.merged? a = some a ∧
      Option.Rel SameTree (a.merged? b) (b.merged? a) ∧
      Option.Rel SameTree ((a.merged? b).bind fun m => m.merged? c)
        ((b.merged? c).bind fun m => a.merged? m) ∧
      ∀ m, a.merged? b = some m → Option.Rel SameTree (a.merged? m) (some m) := by
  refine ⟨?_, ?_, ?_, fun m hm => ?_⟩
  · exact merged?_of_isOne (isOne_iff.2 ⟨isFound_refl a, rfl⟩)
  · have hswap : LeastOf (Bounds [a, b]) (b.merged? a) :=
      (merged?_least hb ha).congr fun u => by rw [bounds_pair, bounds_pair, and_comm (b := Within a u)]
    exact (merged?_least ha hb).sameTree hswap
  · exact (merged?_least_left ha hb hc).sameTree (merged?_least_right ha hb hc)
  · have hleast : LeastOf (Bounds [a, b]) (some m) := hm ▸ merged?_least ha hb
    obtain ⟨hmtree, ham, -⟩ := bounds_pair.1 hleast.bound
    have hself : LeastOf (Bounds [a, m]) (some m) :=
      .some (bounds_pair.2 ⟨hmtree, ham, .refl hmtree⟩) fun u hu => (bounds_pair.1 hu).2.2
    exact (merged?_least ha hmtree).sameTree hself

/-- Three mappings whose keys overlap in pairs, with a list on one side that is a tuple on the
other. -/
theorem merged?_join_overlapping :
    let a := Value.dict [(.str "x", .list [.int 1, .null])]
    let b := Value.dict [(.str "y", .str "s"), (.str "x", .tuple [.int 1, .null])]
    let c := Value.dict [(.str "z", .dict []), (.str "y", .str "s")]
    (a.IsTree ∧ b.IsTree ∧ c.IsTree) ∧
      Option.Rel SameTree ((a.merged? b).bind fun m => m.merged? c)
        ((b.merged? c).bind fun m => a.merged? m) ∧
      ((a.merged? b).bind fun m => m.merged? c).isSome := by
  intro a b c
  have hpair {v : Value} (hv : v.items? = some [.int 1, .null]) : v.IsTree :=
    .items hv (by simpa using ⟨.leaf rfl, .leaf rfl⟩)
  have ha : a.IsTree := .entries rfl (by decide) (by simp) (by simpa using hpair rfl)
  have hb : b.IsTree := .entries rfl (by decide) (by simp) (by simpa using ⟨.leaf rfl, hpair rfl⟩)
  have hc : c.IsTree := .entries rfl (by decide) (by simp) <| by
    simpa using ⟨.entries rfl (by decide) nofun nofun, .leaf rfl⟩
  exact ⟨⟨ha, hb, hc⟩, (merged?_join ha hb hc).2.2.1, by rfl⟩

end Value

end Assay
