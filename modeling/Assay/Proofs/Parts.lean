import Assay.Evaluate.Form

/-!
# The parts of schemas

The schemas that a form holds (`Form.parts`). Each lies less deep than the whole
(`Schema.depth_part_lt`), which proofs about all schemas go by. What a lazy schema refers to is not a
part of it. The positions at which a structure evaluates schemas hold its parts.
-/

namespace Assay

/-- The schemas that a form holds. -/
def Form.parts {V S : Type} : Form V S → List S
  | object shape _ catchall => shape.map (·.2) ++ catchall.toList
  | array e | set e => [e]
  | tuple items rest => items ++ rest.toList
  | record k v | map k v => [k, v]
  | union options | discriminatedUnion options _ _ => options
  | intersection l r => [l, r]
  | optional s | nullable s | readonly s | promise s => [s]
  | default s _ | prefault s _ | catching s _ => [s]
  | pipe s t => [s, t]
  | _ => []

namespace Schema

theorem depth_le_depthAll {s : Schema Value} {ss : List (Schema Value)} (h : s ∈ ss) :
    s.depth ≤ depthAll ss := by
  induction ss with
  | nil => cases h
  | cons t ss ih =>
    rw [depthAll]
    rcases List.mem_cons.1 h with rfl | h
    · exact Nat.le_max_left ..
    · exact Nat.le_trans (ih h) (Nat.le_max_right ..)

theorem depth_le_depthShape {s : Schema Value} {shape : List (Value × Schema Value)}
    (h : s ∈ shape.map (·.2)) : s.depth ≤ depthShape shape := by
  induction shape with
  | nil => cases h
  | cons e shape ih =>
    rw [depthShape]
    rcases List.mem_cons.1 h with rfl | h
    · exact Nat.le_max_left ..
    · exact Nat.le_trans (ih h) (Nat.le_max_right ..)

theorem depth_le_depthOption {s : Schema Value} {o : Option (Schema Value)}
    (h : s ∈ o.toList) : s.depth ≤ depthOption o := by
  cases o with
  | none => cases h
  | some t =>
    obtain rfl : s = t := by simpa using h
    exact Nat.le_refl _

/-- A part lies less deep than the whole. -/
theorem depth_part_lt {s t : Schema Value} (h : t ∈ s.form.parts) : t.depth < s.depth := by
  obtain ⟨id, kind, form, extra, checks, error⟩ := s
  rw [depth, Nat.lt_succ_iff]
  cases form with
  | object shape policy catchall =>
    rw [depthForm]
    rcases List.mem_append.1 h with h | h
    · exact Nat.le_trans (depth_le_depthShape h) (Nat.le_max_left ..)
    · exact Nat.le_trans (depth_le_depthOption h) (Nat.le_max_right ..)
  | tuple items rest =>
    rw [depthForm]
    rcases List.mem_append.1 h with h | h
    · exact Nat.le_trans (depth_le_depthAll h) (Nat.le_max_left ..)
    · exact Nat.le_trans (depth_le_depthOption h) (Nat.le_max_right ..)
  | union options => exact depth_le_depthAll h
  | discriminatedUnion options d table => exact depth_le_depthAll h
  | record k v | map k v | intersection k v | pipe k v =>
    rw [depthForm]
    obtain rfl | rfl : t = k ∨ t = v := by simpa [Form.parts] using h
    · exact Nat.le_max_left ..
    · exact Nat.le_max_right ..
  | _ => simp_all [Form.parts, depthForm]

end Schema

/-! ## The positions of structures -/

theorem objectItems_parts (shape : List (Value × Schema Value))
    (catchall : Option (Schema Value)) (data : Entries) :
    ∀ p ∈ (Structure.objectItems shape catchall data).map (·.2),
      p.1 ∈ shape.map (·.2) ++ catchall.toList := by
  intro p hp
  unfold Structure.objectItems at hp
  cases catchall with
  | none =>
    obtain ⟨f, hf, rfl⟩ : ∃ f ∈ shape, (f.2, (data.find? f.1).getD .missing) = p := by
      simpa using hp
    exact List.mem_append_left _ (List.mem_map_of_mem hf)
  | some c =>
    rw [List.map_append, List.map_map, List.map_map] at hp
    rcases List.mem_append.1 hp with hp | hp
    · obtain ⟨f, hf, rfl⟩ := List.mem_map.1 hp
      exact List.mem_append_left _ (List.mem_map_of_mem hf)
    · obtain ⟨e, -, rfl⟩ := List.mem_map.1 hp
      exact List.mem_append_right _ (List.mem_singleton.2 rfl)

theorem tupleItems_parts (rest : Option (Schema Value)) (schemas : List (Schema Value))
    (vs : List Value) :
    ∀ p ∈ Structure.tupleItems rest schemas vs, p.1 ∈ schemas ++ rest.toList := by
  induction schemas generalizing vs with
  | nil =>
    intro p hp
    cases rest with
    | none => simp [Structure.tupleItems] at hp
    | some t =>
      obtain ⟨w, -, rfl⟩ := List.mem_map.1 hp
      simp
  | cons t schemas ih =>
    intro p hp
    cases vs with
    | nil =>
      rcases List.mem_cons.1 hp with rfl | hp
      · simp
      · exact List.mem_cons_of_mem _ (ih [] p hp)
    | cons w vs =>
      rcases List.mem_cons.1 hp with rfl | hp
      · simp
      · exact List.mem_cons_of_mem _ (ih vs p hp)

theorem entryItems_parts (keyType valueType : Schema Value) (data : Entries) :
    ∀ p ∈ Structure.entryItems keyType valueType data, p.1 = keyType ∨ p.1 = valueType := by
  intro p hp
  obtain ⟨e, -, hp⟩ := List.mem_flatMap.1 hp
  rcases List.mem_cons.1 hp with rfl | hp
  · exact .inl rfl
  · obtain rfl := List.mem_singleton.1 hp
    exact .inr rfl

theorem pickOption_mem {options : List (Schema Value)} {table : List (Value × Nat)}
    {tag : Value} {option : Schema Value} (h : pickOption options table tag = some option) :
    option ∈ options := by
  obtain ⟨e, -, he⟩ := Option.bind_eq_some_iff.1 h
  exact List.mem_of_getElem? he

end Assay
