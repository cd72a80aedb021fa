import Assay.Message.Report
import Assay.Proofs.Describing
import Assay.Proofs.Equivalence
import Assay.Proofs.Finalizing

/-!
# What a message tree shows

A tree is grown by one message at a time, along paths that arrive in any order. What it shows is
observed by walking (`MessageTree.errorsAt`): placing a message adds it at its path, opens the
places on the way, and changes nothing else (`MessageTree.place_shows`). So a tree that is grown
from a list of leaves shows at each path the messages of the leaves there, in order
(`MessageTree.placeAll_shows`), and this holds of the nested mappings that it is handed out as
(`Report.tree_places_messages`).
-/

namespace Assay

/-- A key of a plain path: the name of a property or the position of an item. -/
inductive PathKey
  | name (s : String)
  | position (n : Nat)
  deriving DecidableEq

/-- The key as paths hold it. -/
def PathKey.value : PathKey → Value
  | name s => .str s
  | position n => .int n

namespace MessageTree

/-! ## Walking a tree -/

/-- The messages at the root of a tree. -/
def errors : MessageTree → List Value
  | node errors .. => errors

/-- The tree under a key, if there is a place for it. -/
def child? : MessageTree → PathKey → Option MessageTree
  | node _ _ properties _, .name s =>
    (properties.find? fun p => p.1.isFound (.str s)).map (·.2)
  | node _ items _ _, .position n => items[n]?.bind id

/-- The tree at a path. -/
def at? : MessageTree → List PathKey → Option MessageTree
  | t, [] => some t
  | t, k :: p => (t.child? k).bind (at? · p)

/-- The messages at a path, if there is a place for it. -/
def errorsAt (t : MessageTree) (p : List PathKey) : Option (List Value) :=
  (t.at? p).map errors

/-- The tree with another one under a key. -/
def setChild : MessageTree → PathKey → MessageTree → MessageTree
  | node errors items properties first, .name s, c =>
    node errors items (setProperty (.str s) c properties) first
  | node errors items properties first, .position n, c =>
    node errors (setItem items n c) properties
      (if items.isEmpty then properties.isEmpty else first)

section

variable {t c : MessageTree} {k l : PathKey}

theorem errorsAt_nil : t.errorsAt [] = some t.errors := rfl

theorem errorsAt_cons (p : List PathKey) :
    t.errorsAt (k :: p) = (t.child? k).bind (·.errorsAt p) := by
  simp only [errorsAt, at?, Option.map_bind]
  rfl

theorem errorsAt_empty (p : List PathKey) :
    empty.errorsAt p = if p = [] then some [] else none := by
  cases p with
  | nil => rfl
  | cons k p =>
    rw [errorsAt_cons, if_neg (List.cons_ne_nil k p)]
    cases k <;> rfl

theorem errors_setChild : (t.setChild k c).errors = t.errors := by
  cases t
  cases k <;> rfl

/-! ## Items and properties -/

theorem find?_setProperty_self (s : String) (c : MessageTree)
    (properties : List (Value × MessageTree)) :
    ((setProperty (.str s) c properties).find? fun p => p.1.isFound (.str s)).map (·.2)
      = some c := by
  induction properties with
  | nil => simp [setProperty, Value.isFound_refl]
  | cons p rest ih =>
    rw [setProperty]
    split
    · next h => simp [h]
    · next h => simpa [h] using ih

theorem find?_setProperty_of_ne {s u : String} (h : s ≠ u) (c : MessageTree)
    (properties : List (Value × MessageTree)) :
    ((setProperty (.str s) c properties).find? fun p => p.1.isFound (.str u)).map (·.2)
      = (properties.find? fun p => p.1.isFound (.str u)).map (·.2) := by
  induction properties with
  | nil => simp [setProperty, Value.isFound, h]
  | cons p rest ih =>
    rw [setProperty]
    split
    · next hp =>
      have hu : p.1.isFound (.str u) = false := by
        rw [Value.isFound_text.1 hp]
        simpa [Value.isFound] using h
      simp [hu]
    · next hp =>
      rw [List.find?_cons, List.find?_cons]
      cases p.1.isFound (.str u) with
      | true => rfl
      | false => exact ih

theorem getElem?_setItem_self (items : List (Option MessageTree)) (n : Nat) (c : MessageTree) :
    (setItem items n c)[n]? = some (some c) := by
  rw [setItem, List.getElem?_set_self]
  simp only [List.length_append, List.length_replicate]
  omega

/-- The positions up to which items are extended stay empty. -/
theorem getElem?_setItem_of_ne {n j : Nat} (h : n ≠ j) (items : List (Option MessageTree))
    (c : MessageTree) : (setItem items n c)[j]?.bind id = items[j]?.bind id := by
  rw [setItem, List.getElem?_set_ne h]
  rcases Nat.lt_or_ge j items.length with hj | hj
  · rw [List.getElem?_append_left hj]
  · rw [List.getElem?_append_right hj, List.getElem?_eq_none hj, List.getElem?_replicate]
    split <;> rfl

theorem child?_setChild_self : (t.setChild k c).child? k = some c := by
  cases t
  cases k with
  | name s => exact find?_setProperty_self s c _
  | position n => simp [setChild, child?, getElem?_setItem_self]

theorem child?_setChild_of_ne (h : k ≠ l) : (t.setChild k c).child? l = t.child? l := by
  cases t
  cases k with
  | name s =>
    cases l with
    | name u => exact find?_setProperty_of_ne (fun hs => h (congrArg _ hs)) c _
    | position m => rfl
  | position n =>
    cases l with
    | name u => rfl
    | position m => exact getElem?_setItem_of_ne (fun hn => h (congrArg _ hn)) _ c

/-! ## Placing messages -/

theorem place_nil (message : Value) : ∃ t', t.place [] message = .ok t' ∧
    t'.errors = t.errors ++ [message] ∧ ∀ k, t'.child? k = t.child? k := by
  cases t
  exact ⟨_, rfl, rfl, fun k => by cases k <;> rfl⟩

theorem place_cons (path : List Value) (message : Value) :
    t.place (k.value :: path) message
      = (((t.child? k).getD empty).place path message).map (t.setChild k) := by
  cases t with
  | node errors items properties first =>
    cases k with
    | name s =>
      simp only [PathKey.value, place, Path.position?, Value.isHashable, child?, Bool.not_true,
        Bool.false_eq_true, if_false]
      rfl
    | position n =>
      have hindex : index? items.length (n : Int) = some n := by simp [index?]
      simp only [PathKey.value, place, Path.position?, hindex, child?]
      rfl

/-- A message is added at its path, the places on the way to it are opened, and everything else
stays as it is. -/
theorem place_shows (q : List PathKey) (message : Value) : ∀ t : MessageTree,
    ∃ t', t.place (q.map PathKey.value) message = .ok t' ∧ ∀ p, t'.errorsAt p =
      if p <+: q then some ((t.errorsAt p).getD [] ++ if p = q then [message] else [])
      else t.errorsAt p := by
  induction q with
  | nil =>
    intro t
    obtain ⟨t', ht', herrors, hchild⟩ := t.place_nil message
    refine ⟨t', ht', fun p => ?_⟩
    cases p with
    | nil => simp [errorsAt_nil, herrors]
    | cons k p => simp [errorsAt_cons, hchild]
  | cons k q ih =>
    intro t
    obtain ⟨c, hc, hshows⟩ := ih ((t.child? k).getD empty)
    refine ⟨t.setChild k c, by rw [List.map_cons, place_cons, hc]; rfl, fun p => ?_⟩
    cases p with
    | nil => simp [errorsAt_nil, errors_setChild]
    | cons l p =>
      rw [errorsAt_cons, errorsAt_cons]
      by_cases hkl : k = l
      · subst hkl
        rw [child?_setChild_self, Option.bind_some, hshows p]
        -- A new place shows nothing but what is placed in it.
        cases t.child? k with
        | some d => simp
        | none => by_cases hp : p = [] <;> simp [errorsAt_empty, hp]
      · rw [child?_setChild_of_ne hkl, if_neg]
        rintro ⟨rest, hrest⟩
        exact hkl (List.cons.inj hrest).1.symm

/-- What a list has at a path, in order. -/
def itemsAt {α : Type} (leaves : List (List PathKey × α)) (p : List PathKey) : List α :=
  (leaves.filter (·.1 = p)).map (·.2)

theorem itemsAt_eq_nil {α : Type} {leaves : List (List PathKey × α)} {p : List PathKey}
    (h : ¬ ∃ l ∈ leaves, p <+: l.1) : itemsAt leaves p = [] := by
  rw [itemsAt, List.map_eq_nil_iff, List.filter_eq_nil_iff]
  intro l hl heq
  exact h ⟨l, hl, of_decide_eq_true heq ▸ List.prefix_refl l.1⟩

/-- Grown from a list of leaves a tree shows the messages of the leaves at their paths, in order,
after those that it showed before. -/
theorem placeAll_shows (leaves : List (List PathKey × Value)) : ∀ t : MessageTree,
    ∃ t', (leaves.foldlM (fun t l => t.place (l.1.map PathKey.value) l.2) t
        : Except Fault MessageTree) = .ok t' ∧ ∀ p, t'.errorsAt p =
      if ∃ l ∈ leaves, p <+: l.1 then some ((t.errorsAt p).getD [] ++ itemsAt leaves p)
      else t.errorsAt p := by
  induction leaves with
  | nil => exact fun t => ⟨t, rfl, fun p => by simp⟩
  | cons l leaves ih =>
    intro t
    obtain ⟨u, hu, hplaced⟩ := place_shows l.1 l.2 t
    obtain ⟨t', ht', hgrown⟩ := ih u
    refine ⟨t', by rw [List.foldlM_cons, hu]; exact ht', fun p => ?_⟩
    rw [hgrown p, hplaced p]
    have hitems : itemsAt (l :: leaves) p
        = (if p = l.1 then [l.2] else []) ++ itemsAt leaves p := by
      by_cases heq : l.1 = p
      · simp [itemsAt, heq]
      · simp [itemsAt, heq, Ne.symm heq]
    simp only [List.exists_mem_cons_iff, hitems]
    by_cases hl : p <+: l.1
    · rw [if_pos hl, if_pos (Or.inl hl), Option.getD_some, List.append_assoc]
      split
      · rfl
      · next hnone => rw [itemsAt_eq_nil hnone, List.append_nil]
    · have hne : p ≠ l.1 := fun h => hl (h ▸ List.prefix_refl _)
      rw [if_neg hl, if_neg hne, List.nil_append]
      exact if_congr (or_iff_right hl).symm rfl rfl

end

/-! ## The tree as nested mappings -/

theorem getElem?_itemValues (items : List (Option MessageTree)) (n : Nat) :
    (itemValues items)[n]? = items[n]?.map fun o => (o.map toValue).getD .null := by
  induction items generalizing n with
  | nil => rfl
  | cons o rest ih =>
    cases n with
    | zero => cases o <;> rfl
    | succ n => cases o <;> exact ih n

theorem find?_propertyValues (properties : List (Value × MessageTree)) (s : String) :
    Entries.get? (propertyValues properties) s
      = (properties.find? fun p => p.1.isFound (.str s)).map (·.2.toValue) := by
  induction properties with
  | nil => rfl
  | cons p rest ih =>
    obtain ⟨k, t⟩ := p
    unfold Entries.get? Entries.find? at ih ⊢
    rw [propertyValues, List.find?_cons, List.find?_cons]
    cases k.isFound (.str s) with
    | true => rfl
    | false => exact ih

end MessageTree

namespace Report

/-- What a place of a shown tree has under a heading. -/
def part? (place : Value) (heading : String) : Option Value :=
  place.entries?.bind (·.get? heading)

/-- A place of a shown tree, for which null stands where there is none. -/
def place? : Value → Option Value
  | .null => none
  | place => some place

/-- The place under a key of a shown tree: a name is looked up among its properties, a position
among its items. -/
def below? (tree : Value) : PathKey → Option Value
  | .name s => do (← (← part? tree "properties").entries?).get? s
  | .position n => do (← (← part? tree "items").items?)[n]? >>= place?

/-- Walk a shown tree along a path. -/
def walk? : Value → List PathKey → Option Value
  | tree, [] => some tree
  | tree, k :: p => (below? tree k).bind (walk? · p)

section

variable (errors : List Value) (items : List (Option MessageTree))
  (properties : List (Value × MessageTree)) (first : Bool)

theorem part?_errors :
    part? (MessageTree.node errors items properties first).toValue "errors"
      = some (.list errors) := by
  simp [part?, MessageTree.toValue, Value.entries?]

theorem part?_items :
    part? (MessageTree.node errors items properties first).toValue "items"
      = if items.isEmpty then none else some (.list (MessageTree.itemValues items)) := by
  cases hi : items.isEmpty <;> cases hp : properties.isEmpty <;> cases first <;>
    simp [part?, MessageTree.toValue, Value.entries?, hi, hp]

theorem part?_properties :
    part? (MessageTree.node errors items properties first).toValue "properties"
      = if properties.isEmpty then none
        else some (.dict (MessageTree.propertyValues properties)) := by
  cases hi : items.isEmpty <;> cases hp : properties.isEmpty <;> cases first <;>
    simp [part?, MessageTree.toValue, Value.entries?, hi, hp]

end

theorem below?_toValue (t : MessageTree) (k : PathKey) :
    below? t.toValue k = (t.child? k).map MessageTree.toValue := by
  obtain ⟨errors, items, properties, first⟩ := t
  cases k with
  | name s =>
    rw [below?, part?_properties]
    cases properties with
    | nil => rfl
    | cons p rest =>
      exact (MessageTree.find?_propertyValues (p :: rest) s).trans (Option.map_map ..).symm
  | position n =>
    rw [below?, part?_items]
    cases items with
    | nil => rfl
    | cons o rest =>
      show (MessageTree.itemValues (o :: rest))[n]?.bind place? = _
      rw [MessageTree.getElem?_itemValues, MessageTree.child?]
      rcases (o :: rest)[n]? with _ | _ | t
      · rfl
      · rfl
      · cases t
        rfl

theorem walk?_toValue (t : MessageTree) (p : List PathKey) :
    walk? t.toValue p = (t.at? p).map MessageTree.toValue := by
  induction p generalizing t with
  | nil => rfl
  | cons k p ih =>
    rw [walk?, below?_toValue, MessageTree.at?]
    cases t.child? k with
    | none => rfl
    | some c => exact ih c

end Report

/-! ## Leaves -/

/-- The issue wraps no others: it has neither groups nor issues of its own. -/
def Issue.isLeaf (i : Issue Value) : Bool :=
  match i.detail with
  | .invalidUnion errors _ _ => errors.isEmpty
  | .invalidKey _ issues | .invalidElement _ _ issues => issues.isEmpty
  | _ => true

/-- The leaves of a list of issues below a path, in the order of traversal, each with its path from
the root: the paths of the issues that wrap it, one after the other, and its own. -/
inductive Issue.Leaves : List PathKey → List (Issue Value) →
    List (List PathKey × Issue Value) → Prop
  | nil {start : List PathKey} : Leaves start [] []
  | leaf {start keys : List PathKey} {i : Issue Value} {is : List (Issue Value)}
      {leaves : List (List PathKey × Issue Value)} : i.isLeaf = true →
      i.path = keys.map PathKey.value → Leaves start is leaves →
      Leaves start (i :: is) ((start ++ keys, i) :: leaves)
  | wrapping {start keys : List PathKey} {i : Issue Value} {is : List (Issue Value)}
      {inner leaves : List (List PathKey × Issue Value)} : i.isLeaf = false →
      i.path = keys.map PathKey.value → Leaves (start ++ keys) i.detail.groups.flatten inner →
      Leaves start is leaves → Leaves start (i :: is) (inner ++ leaves)

/-- The issue has a plain path and a message. -/
structure Issue.IsPlain (i : Issue Value) : Prop where
  path : ∃ keys : List PathKey, i.path = keys.map PathKey.value
  message : ∃ s, i.message = .str s

namespace Issue

theorem IsPlain.shownMessage_eq {i : Issue Value} (h : i.IsPlain) :
    i.shownMessage = i.message := by
  obtain ⟨s, hs⟩ := h.message
  rw [shownMessage, hs]
  by_cases he : s = "" <;> simp [Value.truthy, he]

theorem Leaves.append {start : List PathKey} {is js : List (Issue Value)}
    {ls ms : List (List PathKey × Issue Value)} (h : Leaves start is ls)
    (hjs : Leaves start js ms) : Leaves start (is ++ js) (ls ++ ms) := by
  induction h with
  | nil => exact hjs
  | leaf hleaf hpath _ ih => exact .leaf hleaf hpath (ih hjs)
  | wrapping hleaf hpath hinner _ _ ih =>
    rw [List.append_assoc]
    exact .wrapping hleaf hpath hinner (ih hjs)

theorem Within.of_flatten {i : Issue Value} {gs : List (List (Issue Value))}
    (h : i.Within gs.flatten) : ∃ g ∈ gs, i.Within g := by
  cases h with
  | here hi =>
    obtain ⟨g, hg, hig⟩ := List.mem_flatten.1 hi
    exact ⟨g, hg, .here hig⟩
  | nested hj hg hi =>
    obtain ⟨g, hgs, hjg⟩ := List.mem_flatten.1 hj
    exact ⟨g, hgs, .nested hjg hg hi⟩

mutual

theorem leaves_of : (i : Issue Value) → (∀ j : Issue Value, j.Within [i] → j.IsPlain) →
    ∀ start, ∃ ls, Leaves start [i] ls
  | ⟨path, message, input, source, detail⟩, h, start => by
    obtain ⟨keys, hkeys⟩ := (h _ (.here (List.mem_singleton.2 rfl))).path
    obtain ⟨inner, hinner⟩ := detailLeaves_of detail (fun j hj => by
      obtain ⟨g, hg, hjg⟩ := hj.of_flatten
      exact h j (.nested (List.mem_singleton.2 rfl) hg hjg)) (start ++ keys)
    cases hleaf : Issue.isLeaf ⟨path, message, input, source, detail⟩ with
    | true => exact ⟨_, .leaf hleaf hkeys .nil⟩
    | false => exact ⟨_, .wrapping hleaf hkeys hinner .nil⟩
termination_by structural i => i

theorem detailLeaves_of : (d : Detail Value (Issue Value)) →
    (∀ j : Issue Value, j.Within d.groups.flatten → j.IsPlain) →
    ∀ start, ∃ ls, Leaves start d.groups.flatten ls
  | .invalidUnion groups _ _, h, start => groupLeaves_of groups h start
  | .invalidKey _ issues, h, start => by
    obtain ⟨ls, hls⟩ := allLeaves_of issues (fun j hj => h j (by simpa [Detail.groups] using hj)) start
    exact ⟨ls, by simpa [Detail.groups] using hls⟩
  | .invalidElement _ _ issues, h, start => by
    obtain ⟨ls, hls⟩ := allLeaves_of issues (fun j hj => h j (by simpa [Detail.groups] using hj)) start
    exact ⟨ls, by simpa [Detail.groups] using hls⟩
  | .unspecified, _, _ | .invalidType .., _, _ | .tooBig .., _, _ | .tooSmall .., _, _
  | .invalidFormat .., _, _ | .notMultipleOf _, _, _ | .unrecognizedKeys _, _, _
  | .invalidValue _, _, _ | .custom _, _, _ => ⟨[], .nil⟩
termination_by structural d => d

theorem allLeaves_of : (is : List (Issue Value)) →
    (∀ j : Issue Value, j.Within is → j.IsPlain) → ∀ start, ∃ ls, Leaves start is ls
  | [], _, _ => ⟨[], .nil⟩
  | i :: is, h, start => by
    obtain ⟨ls, hls⟩ := leaves_of i (fun j hj => h j (hj.mono fun k hk => by simp_all)) start
    obtain ⟨ms, hms⟩ := allLeaves_of is (fun j hj => h j (hj.mono fun k hk => .tail _ hk)) start
    exact ⟨ls ++ ms, hls.append hms⟩
termination_by structural is => is

theorem groupLeaves_of : (gs : List (List (Issue Value))) →
    (∀ j : Issue Value, j.Within gs.flatten → j.IsPlain) →
    ∀ start, ∃ ls, Leaves start gs.flatten ls
  | [], _, _ => ⟨[], .nil⟩
  | g :: gs, h, start => by
    obtain ⟨ls, hls⟩ := allLeaves_of g
      (fun j hj => h j (hj.mono fun k hk => List.mem_append_left _ hk)) start
    obtain ⟨ms, hms⟩ := groupLeaves_of gs
      (fun j hj => h j (hj.mono fun k hk => List.mem_append_right _ hk)) start
    exact ⟨ls ++ ms, hls.append hms⟩
termination_by structural gs => gs

end

/-- A leaf is one of the issues or nested in them. -/
theorem Leaves.within {start : List PathKey} {is : List (Issue Value)}
    {ls : List (List PathKey × Issue Value)} (h : Leaves start is ls) :
    ∀ l ∈ ls, l.2.Within is := by
  induction h with
  | nil => exact nofun
  | leaf _ _ _ ih =>
    rintro l (_ | hl)
    · exact .here List.mem_cons_self
    · exact (ih l (by assumption)).mono fun _ => .tail _
  | wrapping _ _ _ _ hinner ih =>
    intro l hl
    rcases List.mem_append.1 hl with hl | hl
    · obtain ⟨g, hg, hlg⟩ := (hinner l hl).of_flatten
      exact .nested List.mem_cons_self hg hlg
    · exact (ih l hl).mono fun _ => .tail _

end Issue

namespace Report

theorem allLeaves_append (start : List Value) (is js : List (Issue Value)) :
    allLeaves start (is ++ js) = allLeaves start is ++ allLeaves start js := by
  induction is with
  | nil => rfl
  | cons i is ih => rw [List.cons_append, allLeaves, allLeaves, ih, List.append_assoc]

theorem groupLeaves_eq (start : List Value) (gs : List (List (Issue Value))) :
    groupLeaves start gs = allLeaves start gs.flatten := by
  induction gs with
  | nil => rfl
  | cons g gs ih => rw [groupLeaves, ih, List.flatten_cons, allLeaves_append]

theorem leaves_of_isLeaf {i : Issue Value} (h : i.isLeaf = true) (start : List Value) :
    leaves start i = [(start ++ i.path, i.shownMessage)] := by
  obtain ⟨path, message, input, source, detail⟩ := i
  cases detail <;> simp_all [leaves, detailLeaves, Issue.isLeaf, Issue.shownMessage]

theorem leaves_of_wrapping {i : Issue Value} (h : i.isLeaf = false) (start : List Value) :
    leaves start i = allLeaves (start ++ i.path) i.detail.groups.flatten := by
  obtain ⟨path, message, input, source, detail⟩ := i
  cases detail <;>
    simp_all [leaves, detailLeaves, Issue.isLeaf, groupLeaves_eq, Detail.groups]

theorem allLeaves_of_leaves {start : List PathKey} {is : List (Issue Value)}
    {ls : List (List PathKey × Issue Value)} (h : Issue.Leaves start is ls) :
    allLeaves (start.map PathKey.value) is
      = ls.map fun l => (l.1.map PathKey.value, l.2.shownMessage) := by
  induction h with
  | nil => rfl
  | leaf hleaf hpath _ ih =>
    rw [allLeaves, leaves_of_isLeaf hleaf, hpath, ih, List.map_cons, List.map_append,
      List.singleton_append]
  | wrapping hleaf hpath _ _ hinner hrest =>
    rw [allLeaves, leaves_of_wrapping hleaf, hpath, ← List.map_append, hinner, hrest,
      List.map_append]

/-- What a tree that is grown from nothing shows. -/
theorem treeOf_shows {issues : List (Issue Value)} {leaves : List (List PathKey × Issue Value)}
    (h : Issue.Leaves [] issues leaves) : ∃ t, treeOf issues = .ok t ∧ ∀ p, t.errorsAt p =
      if p = [] ∨ ∃ l ∈ leaves, p <+: l.1 then
        some ((leaves.filter (·.1 = p)).map (·.2.shownMessage))
      else none := by
  obtain ⟨t, ht, hshows⟩ := MessageTree.placeAll_shows
    (leaves.map fun l => (l.1, l.2.shownMessage)) .empty
  have hitems : ∀ p, MessageTree.itemsAt (leaves.map fun l => (l.1, l.2.shownMessage)) p
      = (leaves.filter (·.1 = p)).map (·.2.shownMessage) := fun p => by
    rw [MessageTree.itemsAt, List.filter_map, List.map_map]
    rfl
  refine ⟨t, ?_, fun p => ?_⟩
  · rw [treeOf, show ([] : List Value) = ([] : List PathKey).map PathKey.value from rfl,
      allLeaves_of_leaves h]
    simpa only [List.foldlM_map] using ht
  · rw [hshows p, hitems, MessageTree.errorsAt_empty]
    simp only [List.mem_map, exists_exists_and_eq_and]
    by_cases hp : p = []
    · subst hp
      simp only [if_true, true_or, Option.getD_some, List.nil_append]
      split
      · rfl
      · next hnone =>
        cases leaves with
        | nil => rfl
        | cons l leaves => exact absurd ⟨l, List.mem_cons_self, List.nil_prefix⟩ hnone
    · rw [if_neg hp, Option.getD_none, List.nil_append]
      exact if_congr (or_iff_right hp).symm rfl rfl

/-- The tree of final issues shows every message at the path of its leaf and loses none: walking
it along a path comes to a place that lists the messages of the leaves there, in the order of
traversal, and fails only below the root where no leaf lies at the path or below it. -/
theorem tree_places_messages {issues : List (Issue Value)}
    (h : ∀ i : Issue Value, i.Within issues → i.IsPlain) :
    ∃ shown leaves, tree issues = .ok shown ∧ Issue.Leaves [] issues leaves ∧
      ∀ p : List PathKey,
        (walk? shown p = none ↔ p ≠ [] ∧ ∀ l ∈ leaves, ¬ p <+: l.1) ∧
        ∀ place, walk? shown p = some place → part? place "errors"
          = some (.list ((leaves.filter (·.1 = p)).map (·.2.message))) := by
  obtain ⟨leaves, hleaves⟩ := Issue.allLeaves_of issues h []
  obtain ⟨t, ht, hshows⟩ := treeOf_shows hleaves
  have hmessages : ∀ p, (leaves.filter (·.1 = p)).map (·.2.shownMessage)
      = (leaves.filter (·.1 = p)).map (·.2.message) := fun p =>
    List.map_congr_left fun l hl =>
      (h l.2 (hleaves.within l (List.mem_filter.1 hl).1)).shownMessage_eq
  refine ⟨t.toValue, leaves, by rw [tree, ht]; rfl, hleaves, fun p => ?_⟩
  have hp := hshows p
  rw [MessageTree.errorsAt, hmessages] at hp
  rw [walk?_toValue]
  constructor
  · rw [Option.map_eq_none_iff, ← Option.map_eq_none_iff (f := MessageTree.errors), hp]
    simp only [ite_eq_right_iff, reduceCtorEq, imp_false, not_or, not_exists, not_and]
  · intro place hplace
    obtain ⟨u, hu, rfl⟩ := Option.map_eq_some_iff.1 hplace
    rw [hu, Option.map_some] at hp
    cases u
    rw [part?_errors]
    split at hp
    · exact congrArg _ (congrArg Value.list (Option.some.inj hp))
    · cases hp

/-! ## An instance -/

namespace Mixed

theorem singleton_isPlain {j : Issue Value} (h : j.IsPlain)
    (hinner : ∀ g ∈ j.detail.groups, ∀ i : Issue Value, i.Within g → i.IsPlain)
    (i : Issue Value) (hi : i.Within [j]) : i.IsPlain := by
  cases hi with
  | here hi => exact List.mem_singleton.1 hi ▸ h
  | nested hk hg hi =>
    obtain rfl := List.mem_singleton.1 hk
    exact hinner _ hg i hi

/-- An issue that wraps no others. -/
def wrong (path : List Value) (message : String) : Issue Value :=
  ⟨path, .str message, .missing, .null, .custom (.dict [])⟩

/-- A union of which one option fails at an item and the other at a key, and an issue at the
root. -/
def mixed : List (Issue Value) :=
  [⟨[.str "a"], .str "none fits", .missing, .null, .invalidUnion
      [[wrong [.int 1] "item"],
        [⟨[.str "k"], .str "key", .missing, .null, .invalidKey (.str "record") [wrong [] "short"]⟩]]
      .null .null⟩,
    wrong [] "root"]

theorem wrong_isPlain (keys : List PathKey) (message : String) (i : Issue Value)
    (hi : i.Within [wrong (keys.map PathKey.value) message]) : i.IsPlain :=
  singleton_isPlain ⟨⟨keys, rfl⟩, _, rfl⟩ (fun _ hg => absurd hg List.not_mem_nil) i hi

theorem mixed_isPlain (i : Issue Value) (h : i.Within mixed) : i.IsPlain := by
  cases h with
  | here hi =>
    rcases List.mem_pair.1 hi with rfl | rfl
    · exact ⟨⟨[.name "a"], rfl⟩, _, rfl⟩
    · exact ⟨⟨[], rfl⟩, _, rfl⟩
  | nested hj hg hi =>
    rcases List.mem_pair.1 hj with rfl | rfl
    · rcases List.mem_pair.1 hg with rfl | rfl
      · exact wrong_isPlain [.position 1] _ i hi
      · refine singleton_isPlain ⟨⟨[.name "k"], rfl⟩, _, rfl⟩ (fun g hg j hj => ?_) i hi
        obtain rfl := List.mem_singleton.1 hg
        exact wrong_isPlain [] _ j hj
    · cases hg

end Mixed

open Mixed in
/-- The messages of both options are shown, and nothing at the place before the item. -/
theorem tree_places_messages_mixed :
    (∀ i : Issue Value, i.Within mixed → i.IsPlain) ∧
      ∃ shown leaves, tree mixed = .ok shown ∧ Issue.Leaves [] mixed leaves ∧
        walk? shown [.name "a", .position 0] = none ∧
        ∀ p : List PathKey,
          (walk? shown p = none ↔ p ≠ [] ∧ ∀ l ∈ leaves, ¬ p <+: l.1) ∧
          ∀ place, walk? shown p = some place → part? place "errors"
            = some (.list ((leaves.filter (·.1 = p)).map (·.2.message))) := by
  obtain ⟨shown, leaves, hshown, hleaves, hall⟩ := tree_places_messages mixed_isPlain
  refine ⟨mixed_isPlain, shown, leaves, hshown, hleaves, ?_, hall⟩
  cases hshown
  rfl

end Report

end Assay
