import Assay.Proofs.Keeping
import Assay.Proofs.MessageTrees

/-!
# Displaying issues

Issues can be shown in every way when the keys of their paths are texts, truth values and positions
from zero on, at every depth (`Value.IsShown`): a tree looks up positions in a list, and only such
keys are written as places. A schema that keeps to these keys reports only such issues of a value
that has no others, so what it rejects can be displayed (`failures_are_displayed`).
-/

namespace Assay

/-- The keys that every display of issues shows: names and positions, for which truth values
stand too. -/
def Value.IsShown : Value → Prop
  | .str _ | .bool _ => True
  | .int n => 0 ≤ n
  | _ => False

/-- Mappings with keys that can be shown. -/
def Keying.showing : Keying := ⟨Value.IsShown, fun _ => True, Int.natCast_nonneg⟩

namespace Value

theorem IsShown.cases {k : Value} (h : k.IsShown) :
    (∃ n, Path.position? k = some n ∧ 0 ≤ n) ∨ ∃ s, k = .str s := by
  cases k with
  | str s => exact .inr ⟨s, rfl⟩
  | bool b => exact .inl ⟨b.toInt, rfl, by cases b <;> decide⟩
  | int n => exact .inl ⟨n, rfl, h⟩
  | _ => cases h

theorem IsShown.isHashable {k : Value} (h : k.IsShown) : k.isHashable = true := by
  cases k <;> first | rfl | cases h

end Value

/-! ## Trees -/

namespace MessageTree

/-- A message can be placed along a path that can be shown. -/
theorem place_answers {path : List Value} (h : ∀ k ∈ path, k.IsShown) (message : Value) :
    ∀ t : MessageTree, ∃ t', t.place path message = .ok t' := by
  induction path with
  | nil =>
    rintro ⟨errors, items, properties, itemsFirst⟩
    exact ⟨_, rfl⟩
  | cons k path ih =>
    obtain ⟨hk, hpath⟩ := List.forall_mem_cons.1 h
    rintro ⟨errors, items, properties, itemsFirst⟩
    unfold place
    -- A position has a place in the list, which is made longer if need be; a name, in the mapping.
    rcases hk.cases with ⟨n, hn, hpos⟩ | ⟨s, rfl⟩
    · have hindex : index? items.length n = some n.toNat := if_pos hpos
      obtain ⟨child, hchild⟩ := ih hpath ((items[n.toNat]?.bind id).getD empty)
      simp only [hn, hindex, hchild]
      exact ⟨_, rfl⟩
    · obtain ⟨child, hchild⟩ :=
        ih hpath (((properties.find? fun p => p.1.isFound (.str s)).map (·.2)).getD empty)
      simp only [Path.position?, Value.isHashable, Bool.not_true, Bool.false_eq_true, if_false,
        hchild]
      exact ⟨_, rfl⟩

end MessageTree

namespace Report

theorem mem_allLeaves {start : List Value} {is : List (Issue Value)} {l : Leaf} :
    l ∈ allLeaves start is ↔ ∃ i ∈ is, l ∈ leaves start i := by
  induction is with
  | nil => simp [allLeaves]
  | cons i is ih => simp [allLeaves, ih]

/-- The paths of innermost issues are put together from paths on the way to them. -/
theorem leaves_along {P : Value → Prop} {i : Issue Value} (h : i.Along P) :
    ∀ start, (∀ k ∈ start, P k) → ∀ l ∈ leaves start i, ∀ k ∈ l.1, P k := by
  induction h with
  | @intro i hpath _ ih =>
    intro start hstart l hl
    have hall : ∀ k ∈ start ++ i.path, P k := List.forall_mem_append.2 ⟨hstart, hpath⟩
    cases hleaf : i.isLeaf with
    | true =>
      rw [leaves_of_isLeaf hleaf] at hl
      obtain rfl := List.mem_singleton.1 hl
      exact hall
    | false =>
      rw [leaves_of_wrapping hleaf] at hl
      obtain ⟨j, hj, hl⟩ := mem_allLeaves.1 hl
      obtain ⟨g, hg, hj⟩ := List.mem_flatten.1 hj
      exact ih g hg j hj _ hall l hl

variable {issues : List (Issue Value)}

/-- A fold whose steps all answer. -/
theorem foldlM_answers {α β : Type} {f : β → α → Except Fault β} {as : List α}
    (h : ∀ a ∈ as, ∀ b, ∃ b', f b a = .ok b') (b : β) : ∃ b', as.foldlM f b = .ok b' := by
  induction as generalizing b with
  | nil => exact ⟨b, rfl⟩
  | cons a as ih =>
    obtain ⟨ha, has⟩ := List.forall_mem_cons.1 h
    obtain ⟨b', hb'⟩ := ha b
    rw [List.foldlM_cons, hb']
    exact ih has b'

theorem tree_answers (h : ∀ i ∈ issues, i.Along Value.IsShown) : ∃ t, tree issues = .ok t := by
  have hplace : ∀ l ∈ allLeaves [] issues, ∀ t : MessageTree, ∃ t', t.place l.1 l.2 = .ok t' := by
    intro l hl
    obtain ⟨i, hi, hl⟩ := mem_allLeaves.1 hl
    exact MessageTree.place_answers (leaves_along (h i hi) [] (List.forall_mem_nil _) l hl) l.2
  obtain ⟨t, ht⟩ := foldlM_answers hplace MessageTree.empty
  unfold tree treeOf
  rw [ht]
  exact ⟨_, rfl⟩

/-- Only the first keys of paths matter, which can be keys of a mapping. -/
theorem flatten_answers (h : ∀ i ∈ issues, i.Along Value.IsShown) :
    ∃ v, flatten issues = .ok v := by
  have hadd : ∀ i ∈ issues, ∀ f : Flattened, ∃ f', f.add i = .ok f' := by
    intro i hi f
    have hpath := (h i hi).path
    unfold Flattened.add
    cases hkeys : i.path with
    | nil => exact ⟨_, rfl⟩
    | cons k keys =>
      have hk := (hpath k (by simp [hkeys])).isHashable
      simp only [hk, if_true]
      exact ⟨_, rfl⟩
  obtain ⟨f, hf⟩ := foldlM_answers hadd {}
  unfold flatten
  rw [hf]
  exact ⟨_, rfl⟩

theorem keyText?_isSome {k : Value} (h : k.IsShown) (isFirst : Bool) :
    (Path.keyText? isFirst k).isSome = true := by
  cases k with
  | str s =>
    unfold Path.keyText?
    dsimp only
    split <;> rfl
  | bool b => rfl
  | int n => rfl
  | _ => cases h

theorem textFrom?_isSome {path : List Value} (h : ∀ k ∈ path, k.IsShown) (isFirst : Bool) :
    (Path.textFrom? isFirst path).isSome = true := by
  induction path generalizing isFirst with
  | nil => rfl
  | cons k path ih =>
    obtain ⟨hk, hpath⟩ := List.forall_mem_cons.1 h
    obtain ⟨first, hfirst⟩ := Option.isSome_iff_exists.1 (keyText?_isSome hk isFirst)
    obtain ⟨rest, hrest⟩ := Option.isSome_iff_exists.1 (ih hpath false)
    rw [Path.textFrom?, hfirst, hrest]
    rfl

theorem prettify_answers (h : ∀ i ∈ issues, i.Along Value.IsShown) :
    ∃ text, prettify issues = .ok text := by
  have hlines : ∀ i ∈ issues, ∃ ls, lines i = .ok ls := by
    intro i hi
    obtain ⟨place, hplace⟩ :=
      Option.isSome_iff_exists.1 (textFrom?_isSome (h i hi).path true)
    unfold lines Path.text?
    rw [hplace]
    dsimp only
    split <;> exact ⟨_, rfl⟩
  have hall (is : List (Issue Value)) (his : ∀ i ∈ is, i ∈ issues) :
      ∃ lss, is.mapM lines = .ok lss := by
    induction is with
    | nil => exact ⟨[], rfl⟩
    | cons i is ih =>
      obtain ⟨hi, his⟩ := List.forall_mem_cons.1 his
      obtain ⟨ls, hls⟩ := hlines i hi
      obtain ⟨lss, hlss⟩ := ih his
      rw [List.mapM_cons, hls, hlss]
      exact ⟨_, rfl⟩
  -- Sorting keeps the issues.
  obtain ⟨lss, hlss⟩ := hall (issues.mergeSort fun a b => a.path.length ≤ b.path.length)
    fun i hi => List.mem_mergeSort.1 hi
  unfold prettify
  dsimp only
  rw [hlss]
  exact ⟨_, rfl⟩

end Report

/-! ## Failed parses -/

variable {host : Host} {σ : Session} {ctx : Context}

/-- The issues of a failed parse lie along keys of a class that the schema keeps to. -/
theorem failures_along {K : Keying} {s : Schema Value} (hpure : s.IsPure host σ)
    (hkeeps : s.KeepsTo host σ ctx K) {v : Value} (hv : v.Keyed K) {issues : List (Issue Value)}
    (h : (safeParse host (ctx.mayWait false) s v).answer σ = .ok (.rejected issues)) :
    ∀ i ∈ issues, i.Along K.key := by
  have hsettled := hpure.settled
  rw [(safeParse_gives hsettled (hpure.words_fixed _) .self v).answer hsettled.here] at h
  obtain ⟨r, hr, h⟩ := bind_eq_ok.1 h
  have hissues := (meaning_keyed hkeeps s.budget s .self v r hv hr).issues
  exact .of_unwordedAll hissues (conclude_answer h).2

/-- What a parse rejects can be displayed, as a summary, as a tree and as text, if the mappings of
the value have no keys but texts, truth values and integers from zero on, and the schema keeps to
such keys. -/
theorem failures_are_displayed {s : Schema Value} (hpure : s.IsPure host σ)
    (hkeeps : s.KeepsTo host σ ctx .showing) {v : Value} (hv : v.Keyed .showing)
    {issues : List (Issue Value)}
    (h : (safeParse host (ctx.mayWait false) s v).answer σ = .ok (.rejected issues)) :
    (∃ w, Report.flatten issues = .ok w) ∧ (∃ w, Report.tree issues = .ok w) ∧
      ∃ text, Report.prettify issues = .ok text := by
  have hshown : ∀ i ∈ issues, i.Along Value.IsShown := failures_along hpure hkeeps hv h
  exact ⟨Report.flatten_answers hshown, Report.tree_answers hshown,
    Report.prettify_answers hshown⟩

/-! ## A record of amounts -/

namespace Amounts

open Stock (hostThat)

def anything : Schema Value := ⟨1, .str "any", .any, [], [], .null⟩

def amount : Schema Value := ⟨2, .str "number", .number .null, [], [], .null⟩

/-- Numbers under keys of any kind. -/
def amounts : Schema Value := ⟨0, .str "record", .record anything amount, [], [], .null⟩

theorem reached_cases {t : Schema Value} (h : amounts.Reaches (hostThat false) {} t) :
    t = amounts ∨ t = anything ∨ t = amount := by
  induction h with
  | self => exact .inl rfl
  | @part t u _ hu ih =>
    rcases ih with rfl | rfl | rfl
    · have hu : u ∈ [anything, amount] := hu
      exact .inr (List.mem_pair.1 hu)
    · cases hu
    · cases hu
  | lazily _ hform _ ih => rcases ih with rfl | rfl | rfl <;> cases hform

theorem isOwn {t : Schema Value} (h : t = amounts ∨ t = anything ∨ t = amount) :
    t.IsOwn {} := by
  intro fn hfn
  rcases h with rfl | rfl | rfl <;> cases hfn <;> rfl

theorem isPure : amounts.IsPure (hostThat false) {} := by
  refine Stock.isPure_of_silent fun t ht => ?_
  have hcases := reached_cases ht
  exact ⟨by rcases hcases with rfl | rfl | rfl <;> rfl, isOwn hcases⟩

/-- Keys are taken as they are, whatever is asked of them. -/
theorem keepsTo (K : Keying) : amounts.KeepsTo (hostThat false) {} {} K where
  own t ht := isOwn (reached_cases ht)
  checks t ht := by rcases reached_cases ht with rfl | rfl | rfl <;> exact nofun
  transforms t ht := by rcases reached_cases ht with rfl | rfl | rfl <;> exact nofun
  named t ht := by rcases reached_cases ht with rfl | rfl | rfl <;> exact nofun
  keys t ht k x hform := by
    rcases reached_cases ht with rfl | rfl | rfl
    · obtain rfl : anything = k := by rcases hform with h | h <;> cases h; rfl
      exact .of_handsOn (isOwn (.inr (.inl rfl))) nofun rfl nofun
    · rcases hform with h | h <;> cases h
    · rcases hform with h | h <;> cases h
  members t ht := by rcases reached_cases ht with rfl | rfl | rfl <;> exact nofun
  standins t ht := by rcases reached_cases ht with rfl | rfl | rfl <;> exact nofun
  fallbacks t ht := by rcases reached_cases ht with rfl | rfl | rfl <;> exact nofun

/-- A text where a number should be. -/
def misplaced (key : Value) : Value := .dict [(key, .str "x")]

theorem misplaced_keyed {K : Keying} {key : Value} (hkey : K.key key) (hinKey : key.Keyed K) :
    (misplaced key).Keyed K :=
  Value.keyed_of_entries rfl
    (List.forall_mem_singleton.2 ⟨hkey, hinKey, Value.keyed_of_inner_eq_nil trivial rfl⟩)

end Amounts

open Amounts Stock in
/-- Under a name the text is rejected with an issue that can be displayed. -/
theorem failures_are_displayed_amounts :
    ∃ issues, (safeParse (hostThat false) (Context.mayWait {} false) amounts
        (misplaced (.str "a"))).answer {} = .ok (.rejected issues) ∧
      (∃ w, Report.flatten issues = .ok w) ∧ (∃ w, Report.tree issues = .ok w) ∧
        ∃ text, Report.prettify issues = .ok text :=
  have hkeyed : (misplaced (.str "a")).Keyed .showing :=
    misplaced_keyed trivial (Value.keyed_of_inner_eq_nil trivial rfl)
  ⟨_, rfl, failures_are_displayed isPure (keepsTo .showing) hkeyed rfl⟩

open Amounts Stock in
/-- Under a negative integer the tree looks for a position that there is not. -/
theorem failure_not_displayed :
    ∃ issues, (safeParse (hostThat false) (Context.mayWait {} false) amounts
        (misplaced (.int (-1)))).answer {} = .ok (.rejected issues) ∧
      Report.tree issues = .error .missingIndex :=
  ⟨_, rfl, rfl⟩

end Assay
