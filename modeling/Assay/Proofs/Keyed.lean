import Assay.Proofs.Equivalence
import Assay.Proofs.Finalizing
import Assay.Proofs.Rereading

/-!
# Keys of a kind

A class of keys (`Keying`) says which values there may be as keys of mappings and as members of
sets. A value is keyed when all its keys and members are of the class, at every depth
(`Value.Keyed`), and an issue when all keys of its path are, and those of the issues that it nests
(`Issue.Along`). Structures put keyed results together to keyed results (`Result.Keyed`), as long
as the keys that they use are of the class.
-/

namespace Assay

/-- Which values may be keys of mappings, and which members of sets. Positions are keys of paths,
so they are among the keys. -/
structure Keying where
  key : Value → Prop
  member : Value → Prop
  index : ∀ n : Nat, key (.int n)

variable {K : Keying}

/-! ## Values -/

namespace Value

/-- The values that a value holds. -/
def inner : Value → List Value
  | dict es | view es => es.map (·.1) ++ es.map (·.2)
  | list vs | tuple vs | set vs | frozenSet vs => vs
  | _ => []

/-- The keys of a mapping, and the members of a set, are of the class. -/
def HasKeys (K : Keying) : Value → Prop
  | dict es | view es => ∀ e ∈ es, K.key e.1
  | set vs | frozenSet vs => ∀ w ∈ vs, K.member w
  | _ => True

/-- The keys and members in a value are of the class, at every depth. -/
inductive Keyed (K : Keying) : Value → Prop
  | intro {v : Value} : v.HasKeys K → (∀ w ∈ v.inner, Keyed K w) → Keyed K v

end Value

/-- An entry with a key of the class, both keyed. -/
structure Keying.Entry (K : Keying) (k v : Value) : Prop where
  key : K.key k
  inKey : k.Keyed K
  inValue : v.Keyed K

namespace Value

variable {v w : Value} {vs : List Value} {es : Entries}

theorem Keyed.entries (h : v.Keyed K) (hv : v.entries? = some es) : ∀ e ∈ es, K.Entry e.1 e.2 := by
  obtain ⟨hkeys, hinner⟩ := h
  cases v <;> cases hv <;> exact fun e he => ⟨hkeys e he,
    hinner _ (List.mem_append_left _ (List.mem_map_of_mem he)),
    hinner _ (List.mem_append_right _ (List.mem_map_of_mem he))⟩

theorem Keyed.items (h : v.Keyed K) (hv : v.items? = some vs) : ∀ w ∈ vs, w.Keyed K := by
  obtain ⟨-, hinner⟩ := h
  cases v <;> cases hv <;> exact hinner

theorem Keyed.members (h : v.Keyed K) (hv : v.members? = some vs) :
    ∀ w ∈ vs, K.member w ∧ w.Keyed K := by
  obtain ⟨hkeys, hinner⟩ := h
  cases v <;> cases hv <;> exact fun w hw => ⟨hkeys w hw, hinner w hw⟩

theorem keyed_of_entries (hv : v.entries? = some es) (h : ∀ e ∈ es, K.Entry e.1 e.2) :
    v.Keyed K := by
  have hinner : ∀ w ∈ es.map (·.1) ++ es.map (·.2), w.Keyed K := by
    intro w hw
    rcases List.mem_append.1 hw with hw | hw
    · obtain ⟨e, he, rfl⟩ := List.mem_map.1 hw
      exact (h e he).inKey
    · obtain ⟨e, he, rfl⟩ := List.mem_map.1 hw
      exact (h e he).inValue
  cases v <;> cases hv <;> exact .intro (fun e he => (h e he).key) hinner

theorem keyed_of_items (hv : v.items? = some vs) (h : ∀ w ∈ vs, w.Keyed K) : v.Keyed K := by
  cases v <;> cases hv <;> exact .intro trivial h

theorem keyed_of_members (hv : v.members? = some vs) (h : ∀ w ∈ vs, K.member w ∧ w.Keyed K) :
    v.Keyed K := by
  cases v <;> cases hv <;> exact .intro (fun w hw => (h w hw).1) fun w hw => (h w hw).2

/-- A value that holds no others. -/
theorem keyed_of_inner_eq_nil (hkeys : v.HasKeys K) (h : v.inner = []) : v.Keyed K :=
  .intro hkeys fun w hw => by
    rw [h] at hw
    cases hw

@[simp] theorem keyed_missing : Value.missing.Keyed K := keyed_of_inner_eq_nil trivial rfl

/-- Frozen values hold what they held. -/
theorem Keyed.freeze (h : v.Keyed K) : v.freeze.Keyed K := by
  cases v with
  | dict es => exact keyed_of_entries rfl (h.entries rfl)
  | list vs => exact keyed_of_items rfl (h.items rfl)
  | set vs => exact keyed_of_members rfl (h.members rfl)
  | _ => exact h

/-- What a mapping has under a key, if it has anything. -/
theorem keyed_find? (h : ∀ e ∈ es, K.Entry e.1 e.2) (k : Value) :
    ((es.find? k).getD .missing).Keyed K := by
  unfold Entries.find?
  cases hfind : List.find? (fun e => e.1.isFound k) es with
  | none => exact keyed_missing
  | some e => exact (h e (List.mem_of_find?_eq_some hfind)).inValue

/-- Entries that are put together, equal keys as one. -/
theorem keyed_ofList (h : ∀ e ∈ es, K.Entry e.1 e.2) :
    ∀ e ∈ Entries.ofList es, K.Entry e.1 e.2 :=
  Entries.forall_ofList h fun _ _ _ _ hi hj _ => ⟨hi.key, hi.inKey, hj.inValue⟩

theorem keyed_insert {k : Value} (h : ∀ e ∈ es, K.Entry e.1 e.2) (hk : K.Entry k v) :
    ∀ e ∈ es.insert k v, K.Entry e.1 e.2 :=
  Entries.forall_insert h hk fun e he _ => ⟨(h e he).key, (h e he).inKey, hk.inValue⟩

theorem keyed_sequenceLike (h : ∀ w ∈ vs, w.Keyed K) : (v.sequenceLike vs).Keyed K := by
  cases v <;> exact keyed_of_items rfl h

end Value

open Value

/-! ## Merged values -/

theorem map_eq_ok {α β : Type} {x : Except Fault α} {f : α → β} {b : β} :
    f <$> x = .ok b ↔ ∃ a, x = .ok a ∧ f a = b := by
  cases x with
  | error e => exact ⟨nofun, nofun⟩
  | ok a => exact ⟨fun h => ⟨a, rfl, Except.ok.inj h⟩, by rintro ⟨_, ⟨⟩, rfl⟩; rfl⟩

mutual

/-- Merging keyed values makes a keyed one. -/
theorem mergeValues_keyed {path : List Value} {left m : Value} (hleft : left.Keyed K) :
    (right : Value) → right.Keyed K → mergeValues path left right = .ok m → m.Keyed K
  | .dict es, hright, h | .view es, hright, h => by
    -- Equal values merge to the left one. Mappings merge entry by entry, into a copy of the left.
    unfold mergeValues at h
    split at h
    · cases h
      exact hleft
    · split at h
      · rename_i ls hls
        obtain ⟨ms, hms, rfl⟩ := map_eq_ok.1 h
        exact keyed_of_entries rfl (mergeEntries_keyed (hleft.entries hls) (hleft.entries hls) es
          (hright.entries rfl) hms)
      · cases h
  | .list vs, hright, h | .tuple vs, hright, h => by
    unfold mergeValues at h
    split at h
    · cases h
      exact hleft
    · split at h
      · rename_i ws hws
        split at h
        · obtain ⟨ms, hms, rfl⟩ := map_eq_ok.1 h
          exact keyed_sequenceLike (mergeItems_keyed ws (hleft.items hws) vs (hright.items rfl) hms)
        · cases h
      · cases h
  | .missing, _, h | .null, _, h | .bool _, _, h | .int _, _, h | .float _, _, h | .nan _, _, h
  | .str _, _, h | .bytes .., _, h | .set _, _, h | .frozenSet _, _, h | .date _, _, h
  | .moment _, _, h | .member .., _, h | .object .., _, h | .cls _, _, h | .callable _, _, h
  | .builtin _, _, h | .schema _, _, h | .check _, _, h | .issue _, _, h | .pending .., _, h => by
    unfold mergeValues at h
    split at h
    · cases h
      exact hleft
    · cases h
termination_by structural x => x

theorem mergeEntries_keyed {path : List Value} {left merged ms : Entries}
    (hleft : ∀ e ∈ left, K.Entry e.1 e.2) (hmerged : ∀ e ∈ merged, K.Entry e.1 e.2) :
    (right : List (Value × Value)) → (∀ e ∈ right, K.Entry e.1 e.2) →
    mergeEntries path left merged right = .ok ms → ∀ e ∈ ms, K.Entry e.1 e.2
  | [], _, h => by
    cases h
    exact hmerged
  | (k, v) :: rest, hright, h => by
    obtain ⟨hk, hrest⟩ := List.forall_mem_cons.1 hright
    unfold mergeEntries at h
    split at h
    · rename_i w hw
      obtain ⟨m, hm, h⟩ := bind_eq_ok.1 h
      -- The key is there already: it stays, with what the two values merge to.
      have hfound : w.Keyed K := by
        have hget := keyed_find? hleft k
        rwa [hw] at hget
      have hentry : K.Entry k m := ⟨hk.key, hk.inKey, mergeValues_keyed hfound v hk.inValue hm⟩
      exact mergeEntries_keyed hleft (keyed_insert hmerged hentry) rest hrest h
    · exact mergeEntries_keyed hleft (keyed_insert hmerged hk) rest hrest h
termination_by structural x => x

theorem mergeItems_keyed {path : List Value} {index : Nat} {ms : List Value} :
    (left : List Value) → (∀ w ∈ left, w.Keyed K) → (right : List Value) →
    (∀ w ∈ right, w.Keyed K) → mergeItems path index left right = .ok ms → ∀ w ∈ ms, w.Keyed K
  | [], _, _, _, h => by
    unfold mergeItems at h
    cases h
    exact nofun
  | _ :: _, _, [], _, h => by
    cases h
    exact nofun
  | w :: ws, hleft, v :: vs, hright, h => by
    obtain ⟨hw, hws⟩ := List.forall_mem_cons.1 hleft
    obtain ⟨hv, hvs⟩ := List.forall_mem_cons.1 hright
    unfold mergeItems at h
    obtain ⟨first, hfirst, h⟩ := bind_eq_ok.1 h
    obtain ⟨rest, hrest, h⟩ := bind_eq_ok.1 h
    cases h
    exact List.forall_mem_cons.2
      ⟨mergeValues_keyed hw v hv hfirst, mergeItems_keyed ws hws vs hvs hrest⟩
termination_by structural _ _ right => right

end

/-! ## Issues -/

/-- The keys of the path are of the class, and those of the issues that are nested. -/
inductive Issue.Along (P : Value → Prop) : Issue Value → Prop
  | intro {i : Issue Value} : (∀ k ∈ i.path, P k) →
      (∀ g ∈ i.detail.groups, ∀ j ∈ g, Along P j) → Along P i

namespace Issue.Along

variable {P : Value → Prop} {i : Issue Value}

theorem path (h : i.Along P) : ∀ k ∈ i.path, P k := by
  obtain ⟨hpath, -⟩ := h
  exact hpath

theorem nested (h : i.Along P) : ∀ g ∈ i.detail.groups, ∀ j ∈ g, j.Along P := by
  obtain ⟨-, hnested⟩ := h
  exact hnested

theorem groups_of_isFlat {d : Detail Value (Issue Value)} (h : d.isFlat = true) :
    d.groups = [] := by
  cases d <;> first | rfl | cases h

/-- An issue about the value itself. -/
theorem here {message input source : Value} {d : Detail Value (Issue Value)}
    (h : ∀ g ∈ d.groups, ∀ j ∈ g, j.Along P) : Issue.Along P ⟨[], message, input, source, d⟩ :=
  .intro nofun h

theorem under (h : i.Along P) {k : Value} (hk : P k) : (i.under [k]).Along P :=
  .intro (List.forall_mem_cons.2 ⟨hk, h.path⟩) h.nested

theorem groups_unworded (keepInput : Bool) (d : Detail Value (Issue Value)) :
    (unwordedDetail keepInput d).groups = d.groups.map (unwordedAll keepInput) := by
  have hgroups (gs : List (List (Issue Value))) :
      unwordedGroups keepInput gs = gs.map (unwordedAll keepInput) := by
    induction gs with
    | nil => rfl
    | cons g gs ih => rw [unwordedGroups, ih, List.map_cons]
  cases d with
  | invalidUnion groups note discriminator => exact hgroups groups
  | _ => rfl

/-- Words and inputs do not matter. -/
theorem unworded (h : i.Along P) (keepInput : Bool) : (i.unworded keepInput).Along P := by
  induction h with
  | @intro i hpath _ ih =>
    obtain ⟨path, message, input, source, detail⟩ := i
    refine .intro hpath fun g hg j hj => ?_
    rw [show (Issue.unworded keepInput ⟨path, message, input, source, detail⟩).detail.groups =
      detail.groups.map (unwordedAll keepInput) from groups_unworded keepInput detail] at hg
    obtain ⟨g', hg', rfl⟩ := List.mem_map.1 hg
    rw [unwordedAll_eq_map] at hj
    obtain ⟨j', hj', rfl⟩ := List.mem_map.1 hj
    exact ih g' hg' j' hj'

theorem of_unworded {keepInput : Bool} {j : Issue Value} (h : j.Along P) :
    ∀ i : Issue Value, i.unworded keepInput = j → i.Along P := by
  induction h with
  | intro hpath _ ih =>
    rintro ⟨path, message, input, source, detail⟩ rfl
    refine .intro hpath fun g hg k hk => ?_
    have hmem : unwordedAll keepInput g ∈ (Issue.unworded keepInput
        ⟨path, message, input, source, detail⟩).detail.groups := by
      rw [show (Issue.unworded keepInput ⟨path, message, input, source, detail⟩).detail.groups =
        detail.groups.map (unwordedAll keepInput) from groups_unworded keepInput detail]
      exact List.mem_map_of_mem hg
    refine ih _ hmem (k.unworded keepInput) ?_ k rfl
    rw [unwordedAll_eq_map]
    exact List.mem_map_of_mem hk

/-- Issues that differ in words only. -/
theorem of_unwordedAll {keepInput : Bool} {is js : List (Issue Value)} (h : ∀ i ∈ is, i.Along P)
    (heq : unwordedAll keepInput js = unwordedAll keepInput is) : ∀ j ∈ js, j.Along P := by
  intro j hj
  rw [unwordedAll_eq_map, unwordedAll_eq_map] at heq
  have hmem := heq ▸ List.mem_map_of_mem (f := Issue.unworded keepInput) hj
  obtain ⟨i, hi, hij⟩ := List.mem_map.1 hmem
  exact ((h i hi).unworded keepInput).of_unworded j hij.symm

end Issue.Along

/-! ## Results -/

/-- The output is keyed if there are no issues, and the issues lie along keys of the class. -/
structure Result.Keyed (K : Keying) (r : Result) : Prop where
  output : r.valid = true → r.value.Keyed K
  issues : ∀ i ∈ r.issues, i.Along K.key

namespace Result.Keyed

variable {v w : Value} {r : Result}

theorem ok (h : w.Keyed K) : (Result.ok w).Keyed K := ⟨fun _ => h, nofun⟩

/-- A result with issues. -/
theorem of_issues {is : List (Issue Value)} (hne : is ≠ []) (h : ∀ i ∈ is, i.Along K.key) :
    Result.Keyed K ⟨v, is⟩ :=
  ⟨fun hvalid => absurd (Result.valid_iff.1 hvalid) hne, h⟩

theorem failed {s : Schema Value} {d : Detail Value (Issue Value)}
    (h : ∀ g ∈ d.groups, ∀ j ∈ g, j.Along K.key) : (Result.failed s v d).Keyed K :=
  of_issues (List.cons_ne_nil _ _) (List.forall_mem_singleton.2 (.here h))

theorem wrongType {s : Schema Value} {expected : String} :
    (Result.wrongType s v expected).Keyed K :=
  failed nofun

end Result.Keyed

namespace Structure

variable {s : Schema Value} {ctx : Context} {rs : List Result} {keys : List Value} {v : Value}

/-- The issues of positions at keys of the class. -/
theorem issuesUnder_along (hkeys : ∀ k ∈ keys, K.key k) (h : ∀ r ∈ rs, r.Keyed K) :
    ∀ i ∈ issuesUnder (placedAt keys rs), i.Along K.key := by
  intro i hi
  obtain ⟨⟨k, r⟩, hr, hi⟩ := List.mem_flatMap.1 hi
  obtain ⟨j, hj, rfl⟩ := List.mem_map.1 hi
  obtain ⟨hk, hr⟩ := List.of_mem_zip hr
  exact ((h r hr).issues j hj).under (hkeys k hk)

/-- Positions without issues have keyed outputs. -/
theorem outputs_keyed (hkeys : ∀ k ∈ keys, K.key k ∧ k.Keyed K) (h : ∀ r ∈ rs, r.Keyed K) :
    ∀ e ∈ outputs (placedAt keys rs), K.Entry e.1 e.2 := by
  intro e he
  obtain ⟨⟨k, r⟩, hr, houtput⟩ := List.mem_filterMap.1 he
  obtain ⟨hk, hr⟩ := List.of_mem_zip hr
  obtain ⟨hvalid, houtput⟩ := Option.ite_none_right_eq_some.1 houtput
  obtain rfl := Option.some.inj houtput
  exact ⟨(hkeys k hk).1, (hkeys k hk).2, (h r hr).output (Bool.and_eq_true_iff.1 hvalid).1⟩

theorem indexed_along (h : ∀ r ∈ rs, r.Keyed K) :
    ∀ i ∈ issuesUnder (indexed 0 rs), i.Along K.key := by
  rw [indexed_eq_placedAt rs 0 _ (Nat.le_refl _)]
  refine issuesUnder_along (fun k hk => ?_) h
  obtain ⟨n, -, rfl⟩ := List.mem_map.1 hk
  exact K.index _

theorem object_keyed (hkeys : ∀ k ∈ keys, K.key k ∧ k.Keyed K) (h : ∀ r ∈ rs, r.Keyed K)
    (policy : UnknownKeys) (hasCatchall : Bool) {unknown : Entries}
    (hunknown : ∀ e ∈ unknown, K.Entry e.1 e.2) :
    (object s ctx policy hasCatchall v unknown (placedAt keys rs)).Keyed K := by
  have hissues := issuesUnder_along (fun k hk => (hkeys k hk).1) h
  have houtputs := outputs_keyed hkeys h
  unfold object
  dsimp only
  split
  · rename_i hstop
    refine .of_issues (fun hnil => ?_) hissues
    rw [hnil] at hstop
    simp at hstop
  · split
    · exact ⟨fun _ => keyed_of_entries rfl houtputs, hissues⟩
    · cases policy with
      | strip => exact ⟨fun _ => keyed_of_entries rfl houtputs, hissues⟩
      | passthrough =>
        have hall := List.forall_mem_append.2 ⟨houtputs, hunknown⟩
        exact ⟨fun _ => keyed_of_entries rfl hall, hissues⟩
      | strict =>
        exact ⟨fun _ => keyed_of_entries rfl houtputs,
          List.forall_mem_append.2 ⟨hissues, List.forall_mem_singleton.2 (.here nofun)⟩⟩

theorem array_keyed (h : ∀ r ∈ rs, r.Keyed K) : (array rs).Keyed K := by
  refine ⟨fun hvalid => keyed_of_items rfl fun w hw => ?_, indexed_along h⟩
  obtain ⟨r, hr, rfl⟩ := List.mem_map.1 hw
  exact (h r hr).output (valid_of_indexed (Result.valid_iff.1 hvalid) r hr)

theorem tuple_keyed (h : ∀ r ∈ rs, r.Keyed K) (present : Nat) : (tuple present rs).Keyed K := by
  have houtputs (index : Nat) : ∀ w ∈ tupleOutputs present index rs, w.Keyed K := by
    induction rs generalizing index with
    | nil => exact nofun
    | cons r rs ih =>
      obtain ⟨hr, hrs⟩ := List.forall_mem_cons.1 h
      unfold tupleOutputs
      dsimp only
      split_ifs with hhere
      · have hvalid := (Bool.and_eq_true_iff.1 hhere).1
        exact List.forall_mem_cons.2 ⟨hr.output hvalid, ih hrs _⟩
      · exact ih hrs _
  exact ⟨fun _ => keyed_of_items rfl (houtputs 0), indexed_along h⟩

theorem enumeratedRecord_keyed (hkeys : ∀ k ∈ keys, K.key k ∧ k.Keyed K)
    (h : ∀ r ∈ rs, r.Keyed K) (data : Entries) :
    (enumeratedRecord s ctx keys v data (placedAt keys rs)).Keyed K := by
  have hissues := issuesUnder_along (fun k hk => (hkeys k hk).1) h
  have houtputs := keyed_ofList (outputs_keyed hkeys h)
  unfold enumeratedRecord
  dsimp only
  split
  · exact ⟨fun _ => keyed_of_entries rfl houtputs, hissues⟩
  · exact ⟨fun _ => keyed_of_entries rfl houtputs,
      List.forall_mem_append.2 ⟨hissues, List.forall_mem_singleton.2 (.here nofun)⟩⟩

/-- What is reported about entries lies along their keys. -/
structure EntryReport.Along (K : Keying) (report : EntryReport) : Prop where
  key : ∀ k r, K.key k → r.Keyed K → ∀ i ∈ report.key k r, i.Along K.key
  value : ∀ k r, K.key k → r.Keyed K → ∀ i ∈ report.value k r, i.Along K.key

/-- An issue about a key of the class, or about what is under it, with the issues found. -/
theorem at_key_along {k input source : Value} {d : Detail Value (Issue Value)} {r : Result}
    (hk : K.key k) (hr : r.Keyed K) (hd : d.groups = [r.issues]) :
    ∀ i ∈ [(⟨[k], .null, input, source, d⟩ : Issue Value)], i.Along K.key := by
  refine List.forall_mem_singleton.2 (.intro (List.forall_mem_singleton.2 hk) ?_)
  show ∀ g ∈ d.groups, ∀ j ∈ g, j.Along K.key
  rw [hd]
  exact List.forall_mem_singleton.2 hr.issues

theorem recordReport_along : EntryReport.Along K (recordReport s) where
  key _ _ hk hr := at_key_along hk hr rfl
  value k r hk hr := by
    intro i hi
    obtain ⟨j, hj, rfl⟩ := List.mem_map.1 hi
    exact (hr.issues j hj).under hk

theorem mapReport_along : EntryReport.Along K (mapReport s) where
  key _ _ hk hr := at_key_along hk hr rfl
  value _ _ hk hr := at_key_along hk hr rfl

/-- The results for keys and for values, in turn, as far as there are any. -/
inductive InTurn (P Q : Result → Prop) : List Result → Prop
  | none : InTurn P Q []
  | key {kr} : P kr → InTurn P Q [kr]
  | entry {kr vr rest} : P kr → Q vr → InTurn P Q rest → InTurn P Q (kr :: vr :: rest)

/-- The result of a key is keyed, and its output can be a key of the class. -/
structure KeepsKey (K : Keying) (r : Result) : Prop where
  keyed : r.Keyed K
  output : r.valid = true → K.key r.value

theorem entries_keyed {report : EntryReport} (hreport : EntryReport.Along K report)
    (hkeys : ∀ k ∈ keys, K.key k) (h : InTurn (KeepsKey K) (Result.Keyed K) rs) {acc r : Result}
    {output : Entries} (hacc : ∀ i ∈ acc.issues, i.Along K.key)
    (houtput : ∀ e ∈ output, K.Entry e.1 e.2)
    (hr : entries report keys rs acc output = .ok r) : r.Keyed K := by
  have hofKey {k : Value} {q : Result} (hk : K.key k) (hq : q.Keyed K) :
      ∀ i ∈ report.ofKey k q, i.Along K.key := by
    unfold EntryReport.ofKey
    split
    · exact nofun
    · exact hreport.key k q hk hq
  have hofValue {k : Value} {q : Result} (hk : K.key k) (hq : q.Keyed K) :
      ∀ i ∈ report.ofValue k q, i.Along K.key := by
    unfold EntryReport.ofValue
    split
    · exact nofun
    · exact hreport.value k q hk hq
  have hdone {is : List (Issue Value)} {output : Entries} (his : ∀ i ∈ is, i.Along K.key)
      (houtput : ∀ e ∈ output, K.Entry e.1 e.2) : Result.Keyed K ⟨.dict output, is⟩ :=
    ⟨fun _ => keyed_of_entries rfl houtput, his⟩
  -- The results go on until the keys are used up, or end with the result of a key alone.
  induction h generalizing keys acc output with
  | none =>
    obtain rfl : ⟨.dict output, acc.issues⟩ = r := by
      cases keys <;> simpa [entries] using hr
    exact hdone hacc houtput
  | @key kr hkr =>
    cases keys with
    | nil =>
      obtain rfl : ⟨.dict output, acc.issues⟩ = r := by simpa [entries] using hr
      exact hdone hacc houtput
    | cons k keys =>
      obtain rfl : ⟨.dict output, acc.issues ++ report.ofKey k kr⟩ = r := by
        simpa [entries] using hr
      exact hdone (List.forall_mem_append.2 ⟨hacc, hofKey (hkeys k (by simp)) hkr.keyed⟩) houtput
  | @entry kr vr rest hkr hvr _ ih =>
    cases keys with
    | nil =>
      obtain rfl : ⟨.dict output, acc.issues⟩ = r := by simpa [entries] using hr
      exact hdone hacc houtput
    | cons k keys =>
      obtain ⟨hk, hkeys⟩ := List.forall_mem_cons.1 hkeys
      obtain ⟨output', hadded, hr⟩ := bind_eq_ok.1 hr
      refine ih hkeys (List.forall_mem_append.2 ⟨hacc, List.forall_mem_append.2
        ⟨hofKey hk hkr.keyed, hofValue hk hvr⟩⟩) ?_ hr
      unfold addOutputs insertComputed at hadded
      split at hadded
      · rename_i hboth
        obtain ⟨hkvalid, hvvalid⟩ := Bool.and_eq_true_iff.1 hboth
        split at hadded
        · cases hadded
          have hinKey := hkr.keyed.output hkvalid
          exact keyed_insert houtput ⟨hkr.output hkvalid, hinKey, hvr.output hvvalid⟩
        · cases hadded
      · cases hadded
        exact houtput

theorem set_keyed {r : Result} (h : ∀ q ∈ rs, q.Keyed K)
    (hkept : ∀ q ∈ rs, q.valid = true → K.member q.value) (hr : set rs = .ok r) : r.Keyed K := by
  unfold set at hr
  dsimp only at hr
  split at hr
  · cases hr
    refine ⟨fun _ => keyed_of_members rfl fun w hw => ?_, fun i hi => ?_⟩
    · obtain ⟨q, hq, rfl⟩ := List.mem_map.1 (mem_of_membersOf hw)
      obtain ⟨hmem, hvalid⟩ := List.mem_filter.1 hq
      exact ⟨hkept q hmem hvalid, (h q hmem).output hvalid⟩
    · obtain ⟨q, hq, hi⟩ := List.mem_flatMap.1 hi
      exact (h q hq).issues i hi
  · cases hr

end Structure

end Assay
