import Assay.Session.Reach
import Assay.Session.Registering
import Assay.Proofs.Equivalence
import Assay.Proofs.Triple
import Mathlib.Data.List.Nodup

/-!
# Identifiers of registered schemas

A registry keeps two tables: the registrations, which forget a schema when it dies, and the
identifiers, which stay behind with nobody to hold them. `Registry.Linked` says how the two
belong together: a schema that is alive and holds an identifier is registered with it, and a
schema that is registered with an identifier holds it. Each operation keeps that
(`Registry.Linked.add`, `Registry.Linked.remove`, `Registry.Linked.keepLive`), so it is true in
every session that any sequence of operations and deaths leads to (`Reached.linked`). What the
registry answers there follows from it (`identifiers_belong_to_registered`): an identifier leads
to the one live schema whose metadata carries it, and only an identifier that another live schema
carries is refused.
-/

namespace Assay

/-! ## Tables of identifiers -/

/-- In a table with distinct keys a key is found by every value that equals it. -/
theorem find?_of_isFound {β : Type} {table : List (Value × β)}
    (hapart : table.Pairwise fun e f => e.1.isFound f.1 = false)
    (hformed : ∀ e ∈ table, e.1.wellFormed = true) {e : Value × β} (he : e ∈ table) {i : Value}
    (hi : e.1.isFound i = true) : table.find? (fun f => f.1.isFound i) = some e := by
  induction table with
  | nil => cases he
  | cons f table ih =>
    rw [List.pairwise_cons] at hapart
    rcases List.mem_cons.1 he with rfl | he
    · simp [hi]
    · have hsymm := Value.isFound_symm (hformed e (List.mem_cons_of_mem _ he)) hi
      have hne : f.1.isFound i = false := by
        cases hf : f.1.isFound i with
        | false => rfl
        | true => simpa [hapart.1 e he] using Value.isFound_trans hf hsymm
      rw [List.find?_cons_of_neg (by simp [hne])]
      exact ih hapart.2 (fun e he => hformed e (List.mem_cons_of_mem _ he)) he

namespace Registry

variable {id : Value} {s : Schema Value} {holders : List (Value × Option (Schema Value))}

/-- A new holder adds no key that is there already. -/
theorem map_fst_hold : (hold id s holders).map (·.1) =
    if holders.any (fun h => h.1.isFound id) then holders.map (·.1)
    else holders.map (·.1) ++ [id] := by
  induction holders with
  | nil => rfl
  | cons h rest ih =>
    unfold hold
    cases hh : h.1.isFound id with
    | true => simp [hh]
    | false =>
      simp only [Bool.false_eq_true, if_false, List.map_cons, ih, List.any_cons, hh,
        Bool.false_or]
      split <;> rfl

theorem mem_hold {h : Value × Option (Schema Value)} (hh : h ∈ hold id s holders) :
    h ∈ holders ∨ (h.2 = some s ∧ h.1.isFound id = true) := by
  induction holders with
  | nil =>
    rw [hold, List.mem_singleton] at hh
    subst hh
    exact .inr ⟨rfl, Value.isFound_refl id⟩
  | cons g rest ih =>
    unfold hold at hh
    split at hh
    · rename_i hg
      rcases List.mem_cons.1 hh with rfl | hh
      · exact .inr ⟨rfl, hg⟩
      · exact .inl (List.mem_cons_of_mem _ hh)
    · rcases List.mem_cons.1 hh with rfl | hh
      · exact .inl (List.mem_cons_self ..)
      · exact (ih hh).imp_left (List.mem_cons_of_mem _)

/-- The identifier is then held by the schema. -/
theorem held_hold (id : Value) (s : Schema Value) (holders : List (Value × Option (Schema Value))) :
    ∃ key, (key, some s) ∈ hold id s holders ∧ key.isFound id = true := by
  induction holders with
  | nil => exact ⟨id, List.mem_singleton.2 rfl, Value.isFound_refl id⟩
  | cons g rest ih =>
    unfold hold
    split
    · exact ⟨g.1, List.mem_cons_self .., ‹_›⟩
    · obtain ⟨key, hkey, hid⟩ := ih
      exact ⟨key, List.mem_cons_of_mem _ hkey, hid⟩

/-- Who holds another identifier goes on holding it. -/
theorem mem_hold_of_mem {h : Value × Option (Schema Value)} (hh : h ∈ holders)
    (hid : h.1.isFound id = false) : h ∈ hold id s holders := by
  induction holders with
  | nil => cases hh
  | cons g rest ih =>
    unfold hold
    rcases List.mem_cons.1 hh with rfl | hh
    · simp [hid]
    · split
      · exact List.mem_cons_of_mem _ hh
      · exact List.mem_cons_of_mem _ (ih hh)

/-! ## Registrations -/

variable {new : Registration} {registrations : List Registration}

theorem map_id_put : (put new registrations).map (·.schema.id) =
    if new.schema.id ∈ registrations.map (·.schema.id) then registrations.map (·.schema.id)
    else registrations.map (·.schema.id) ++ [new.schema.id] := by
  induction registrations with
  | nil => rfl
  | cons old rest ih =>
    unfold put
    by_cases hold : old.schema.id = new.schema.id
    · simp [hold]
    · have hne : ¬new.schema.id = old.schema.id := fun h => hold h.symm
      simp only [beq_eq_false_iff_ne.2 hold, Bool.false_eq_true, if_false, List.map_cons, ih,
        List.mem_cons, hne, false_or]
      split <;> rfl

/-- A schema is registered with what was attached to it last. -/
theorem mem_put (honce : (registrations.map (·.schema.id)).Nodup) {e : Registration} :
    e ∈ put new registrations ↔
      e = new ∨ (e ∈ registrations ∧ e.schema.id ≠ new.schema.id) := by
  induction registrations with
  | nil => simp [put]
  | cons old rest ih =>
    obtain ⟨hnot, honce⟩ := List.nodup_cons.1 honce
    unfold put
    by_cases hold : old.schema.id = new.schema.id
    · have hrest : ∀ e ∈ rest, e.schema.id ≠ new.schema.id := fun e he h =>
        hnot (List.mem_map.2 ⟨e, he, h.trans hold.symm⟩)
      simp only [hold, beq_self_eq_true, if_true, List.mem_cons]
      constructor
      · rintro (rfl | he)
        · exact .inl rfl
        · exact .inr ⟨.inr he, hrest e he⟩
      · rintro (rfl | ⟨rfl | he, hne⟩)
        · exact .inl rfl
        · exact absurd hold hne
        · exact .inr he
    · simp only [beq_eq_false_iff_ne.2 hold, Bool.false_eq_true, if_false, List.mem_cons,
        ih honce]
      constructor
      · rintro (rfl | rfl | ⟨he, hne⟩)
        · exact .inr ⟨.inl rfl, hold⟩
        · exact .inl rfl
        · exact .inr ⟨.inr he, hne⟩
      · rintro (rfl | ⟨rfl | he, hne⟩)
        · exact .inr (.inl rfl)
        · exact .inl rfl
        · exact .inr (.inr ⟨he, hne⟩)

/-! ## Additions -/

theorem release_registrations (r : Registry) (s : Schema Value) :
    (r.release s).registrations = r.registrations := by
  unfold release
  split <;> rfl

/-- What an addition does: it needs an identifier that no other schema holds, or none. -/
theorem add?_eq_ok {r r' : Registry} {metadata : Entries} (h : r.add? s metadata = .ok r') :
    r'.registrations = put ⟨s, metadata⟩ r.registrations ∧
      ((Registration.id? ⟨s, metadata⟩ = none ∧ r'.holders = (r.release s).holders) ∨
        ∃ i, Registration.id? ⟨s, metadata⟩ = some i ∧
          (r.holder? i).filter (·.id != s.id) = none ∧
          r'.holders = hold i s (r.release s).holders) := by
  unfold add? at h
  cases hid : Registration.id? ⟨s, metadata⟩ with
  | none =>
    simp only [hid, Except.ok.injEq, release_registrations] at h
    subst h
    exact ⟨rfl, .inl ⟨rfl, rfl⟩⟩
  | some i =>
    simp only [hid] at h
    split at h
    · cases h
    · split at h
      · cases h
      · simp only [Except.ok.injEq, release_registrations] at h
        subst h
        exact ⟨rfl, .inr ⟨i, rfl, ‹_›, rfl⟩⟩

/-- An identifier that another schema holds is refused, any other is taken. -/
theorem add?_of_id {r : Registry} {metadata : Entries} {i : Value}
    (hid : Registration.id? ⟨s, metadata⟩ = some i) (hi : i.isHashable = true) :
    if (r.holder? i).any (·.id != s.id) then r.add? s metadata = .error (.duplicateId i)
    else ∃ r', r.add? s metadata = .ok r' := by
  unfold add?
  simp only [hid, hi, Bool.not_true, Bool.false_eq_true, if_false]
  cases r.holder? i with
  | none => exact ⟨_, rfl⟩
  | some t => cases ht : t.id != s.id <;> simp [Option.filter_some, ht]

/-- Only the schema itself is registered beside those that were. -/
theorem mem_of_add {r r' : Registry} {metadata : Entries}
    (honce : (r.registrations.map (·.schema.id)).Nodup) (h : r.add? s metadata = .ok r')
    {e : Registration} (he : e ∈ r'.registrations) :
    e.schema = s ∨ e ∈ r.registrations := by
  rw [(add?_eq_ok h).1, mem_put honce] at he
  exact he.imp (fun h => by rw [h]) And.left

/-! ## The two tables together -/

/-- The two tables of a registry belong together. -/
structure Linked (r : Registry) : Prop where
  /-- No schema is registered twice. -/
  once : (r.registrations.map (·.schema.id)).Nodup
  /-- No identifier stands in the table twice. -/
  apart : (r.holders.map (·.1)).Pairwise fun i j => i.isFound j = false
  formed : ∀ h ∈ r.holders, h.1.wellFormed = true
  /-- Who holds an identifier is registered with it. -/
  carried : ∀ key s, (key, some s) ∈ r.holders →
    ∃ e ∈ r.registrations, e.schema.id = s.id ∧ ∃ i, e.id? = some i ∧ key.isFound i = true
  /-- Who is registered with an identifier holds it. -/
  held : ∀ e ∈ r.registrations, ∀ i, e.id? = some i →
    i.wellFormed = true ∧
      ∃ key s, (key, some s) ∈ r.holders ∧ key.isFound i = true ∧ s.id = e.schema.id

namespace Linked

variable {r : Registry}

theorem empty (name : String) : Linked { name := name } where
  once := List.nodup_nil
  apart := List.Pairwise.nil
  formed _ h := nomatch h
  carried _ _ h := nomatch h
  held _ h := nomatch h

theorem find? (hr : r.Linked) {h : Value × Option (Schema Value)} (hh : h ∈ r.holders) {i : Value}
    (hi : h.1.isFound i = true) : r.holders.find? (fun h => h.1.isFound i) = some h :=
  find?_of_isFound (List.pairwise_map.1 hr.apart) hr.formed hh hi

/-- Equal identifiers have one holder. -/
theorem holder_unique (hr : r.Linked) {k k' : Value} {s s' : Schema Value} {i : Value}
    (hk : (k, some s) ∈ r.holders) (hi : k.isFound i = true) (hk' : (k', some s') ∈ r.holders)
    (hi' : k'.isFound i = true) : s = s' := by
  have h := (hr.find? hk hi).symm.trans (hr.find? hk' hi')
  simp only [Option.some.injEq, Prod.mk.injEq] at h
  exact h.2

theorem registration?_of_mem (hr : r.Linked) {e : Registration} (he : e ∈ r.registrations) :
    r.registration? e.schema = some e := by
  obtain ⟨f, hf⟩ : ∃ f, r.registration? e.schema = some f :=
    Option.isSome_iff_exists.1 (List.find?_isSome.2 ⟨e, he, beq_self_eq_true _⟩)
  have hid : f.schema.id = e.schema.id := by simpa using List.find?_some hf
  rw [hf, List.inj_on_of_nodup_map hr.once (List.mem_of_find?_eq_some hf) he hid]

/-- The schema that holds an identifier is the one that is registered with it. -/
theorem holder?_eq_some (hr : r.Linked) {i : Value} {n : Nat} :
    (∃ s, r.holder? i = some s ∧ s.id = n) ↔
      ∃ e ∈ r.registrations, e.schema.id = n ∧ ∃ j, e.id? = some j ∧ j.isFound i = true := by
  constructor
  · rintro ⟨s, hs, rfl⟩
    obtain ⟨⟨key, o⟩, hfind, ho⟩ := Option.bind_eq_some_iff.1 hs
    cases ho
    have hmem := List.mem_of_find?_eq_some hfind
    have hkey : key.isFound i = true := by simpa using List.find?_some hfind
    obtain ⟨e, he, hid, j, hj, hkj⟩ := hr.carried _ _ hmem
    exact ⟨e, he, hid, j, hj,
      Value.isFound_trans (Value.isFound_symm (hr.formed _ hmem) hkj) hkey⟩
  · rintro ⟨e, he, rfl, j, hj, hji⟩
    obtain ⟨-, key, s, hmem, hkey, hid⟩ := hr.held e he j hj
    refine ⟨s, ?_, hid⟩
    rw [holder?, hr.find? hmem (Value.isFound_trans hkey hji)]
    rfl

/-! ## What the operations keep -/

/-- The identifiers that are left when a schema gives up its own. -/
theorem release_holders (r : Registry) (s : Schema Value) :
    ∃ left : Value → Bool, (r.release s).holders = r.holders.filter (fun h => left h.1) ∧
      ∀ key, left key = false ↔ ∃ e i, r.registration? s = some e ∧ e.id? = some i ∧
        key.isFound i = true := by
  unfold release
  cases h : (r.registration? s).bind Registration.id? with
  | none =>
    refine ⟨fun _ => true, (List.filter_true _).symm, fun key => ?_⟩
    simp only [Bool.true_eq_false, false_iff]
    rintro ⟨e, i, he, hi, -⟩
    simp [he, hi] at h
  | some i =>
    obtain ⟨e, he, hi⟩ := Option.bind_eq_some_iff.1 h
    refine ⟨fun key => !key.isFound i, rfl, fun key => ?_⟩
    simp [he, hi]

theorem remove_registrations (r : Registry) (s : Schema Value) :
    (r.remove s).registrations = r.registrations.filter (·.schema.id != s.id) := by
  rw [Registry.remove, release_registrations]

/-- A schema that is no longer registered holds nothing. -/
theorem remove (hr : r.Linked) (s : Schema Value) : (r.remove s).Linked := by
  obtain ⟨left, hleft, hgone⟩ := release_holders r s
  have hsub : (r.remove s).holders = r.holders.filter (fun h => left h.1) := hleft
  have hrest := remove_registrations r s
  constructor
  · rw [hrest]
    exact hr.once.sublist (List.filter_sublist.map _)
  · rw [hsub]
    exact hr.apart.sublist (List.filter_sublist.map _)
  · intro h hh
    rw [hsub] at hh
    exact hr.formed h (List.mem_of_mem_filter hh)
  · intro key t hkey
    rw [hsub, List.mem_filter] at hkey
    obtain ⟨e, he, hid, i, hi, hki⟩ := hr.carried key t hkey.1
    refine ⟨e, ?_, hid, i, hi, hki⟩
    rw [hrest, List.mem_filter, bne_iff_ne]
    -- Otherwise the schema would be registered with this identifier and have given it up.
    refine ⟨he, fun hes => ?_⟩
    have hreg : r.registration? s = some e := by
      have h := hr.registration?_of_mem he
      rwa [registration?, hes] at h
    have hkept : left key = true := hkey.2
    simp [(hgone key).2 ⟨e, i, hreg, hi, hki⟩] at hkept
  · intro e he i hi
    rw [hrest, List.mem_filter, bne_iff_ne] at he
    obtain ⟨hformed, key, t, hkey, hki, hid⟩ := hr.held e he.1 i hi
    refine ⟨hformed, key, t, ?_, hki, hid⟩
    rw [hsub, List.mem_filter]
    refine ⟨hkey, (Bool.not_eq_false _).mp fun hleft => ?_⟩
    obtain ⟨f, j, hf, hj, hkj⟩ := (hgone key).1 hleft
    have hfid : f.schema.id = s.id := by simpa using List.find?_some hf
    obtain ⟨-, key', t', hkey', hkj', hid'⟩ := hr.held f (List.mem_of_find?_eq_some hf) j hj
    obtain rfl := hr.holder_unique hkey hkj hkey' hkj'
    exact he.2 (hid.symm.trans (hid'.trans hfid))

/-- A schema that is not registered comes to be so, with an identifier that nobody holds. -/
theorem put (hr : r.Linked) {r' : Registry} {e : Registration}
    (hall : ∀ f, f ∈ r'.registrations ↔ f = e ∨ f ∈ r.registrations)
    (honce : (r'.registrations.map (·.schema.id)).Nodup) (hid : e.id? = none)
    (hsame : r'.holders = r.holders) : r'.Linked where
  once := honce
  apart := hsame ▸ hr.apart
  formed := hsame ▸ hr.formed
  carried key s hkey := by
    rw [hsame] at hkey
    obtain ⟨f, hf, h⟩ := hr.carried key s hkey
    exact ⟨f, (hall f).2 (.inr hf), h⟩
  held f hf i hi := by
    rcases (hall f).1 hf with rfl | hf
    · rw [hid] at hi
      cases hi
    · rw [hsame]
      exact hr.held f hf i hi

/-- As `Linked.put`, of a schema that comes with an identifier. -/
theorem hold (hr : r.Linked) {r' : Registry} {e : Registration} {i : Value}
    (hall : ∀ f, f ∈ r'.registrations ↔ f = e ∨ f ∈ r.registrations)
    (honce : (r'.registrations.map (·.schema.id)).Nodup) (hid : e.id? = some i)
    (hi : i.wellFormed = true) (hfree : r.holder? i = none)
    (hholders : r'.holders = Registry.hold i e.schema r.holders) : r'.Linked where
  once := honce
  apart := by
    rw [hholders, map_fst_hold]
    split
    · exact hr.apart
    · rename_i hnone
      refine List.pairwise_append.2 ⟨hr.apart, List.pairwise_singleton _ _, ?_⟩
      intro key hkey j hj
      obtain ⟨h, hh, rfl⟩ := List.mem_map.1 hkey
      rw [List.mem_singleton] at hj
      subst hj
      simp only [List.any_eq_true, not_exists, not_and, Bool.not_eq_true] at hnone
      exact hnone h hh
  formed h hh := by
    have hkeys : h.1 ∈ r'.holders.map (·.1) := List.mem_map_of_mem hh
    rw [hholders, map_fst_hold] at hkeys
    have hold : ∀ key ∈ r.holders.map (·.1), key.wellFormed = true := by
      intro key hkey
      obtain ⟨h, hh, rfl⟩ := List.mem_map.1 hkey
      exact hr.formed h hh
    split at hkeys
    · exact hold _ hkeys
    · rcases List.mem_append.1 hkeys with hkeys | hkeys
      · exact hold _ hkeys
      · rw [List.mem_singleton.1 hkeys]
        exact hi
  carried key s hkey := by
    rw [hholders] at hkey
    rcases mem_hold hkey with hkey | ⟨hs, hkey⟩
    · obtain ⟨f, hf, h⟩ := hr.carried key s hkey
      exact ⟨f, (hall f).2 (.inr hf), h⟩
    · cases hs
      exact ⟨e, (hall e).2 (.inl rfl), rfl, i, hid, hkey⟩
  held f hf j hj := by
    rw [hholders]
    rcases (hall f).1 hf with rfl | hf
    · rw [hid] at hj
      cases hj
      obtain ⟨key, hkey, hki⟩ := held_hold i f.schema r.holders
      exact ⟨hi, key, f.schema, hkey, hki, rfl⟩
    · obtain ⟨hformed, key, s, hkey, hkj, hs⟩ := hr.held f hf j hj
      refine ⟨hformed, key, s, mem_hold_of_mem hkey ?_, hkj, hs⟩
      cases hki : key.isFound i with
      | false => rfl
      | true =>
        rw [holder?, hr.find? hkey hki] at hfree
        cases hfree

/-- An identifier that no other schema holds is free once the schema is gone. -/
theorem holder?_remove (hr : r.Linked) {s : Schema Value} {i : Value}
    (h : (r.holder? i).filter (·.id != s.id) = none) : (r.remove s).holder? i = none := by
  cases ht : (r.remove s).holder? i with
  | none => rfl
  | some t =>
    obtain ⟨e, he, -, j, hj, hji⟩ := (hr.remove s).holder?_eq_some.1 ⟨t, ht, rfl⟩
    rw [remove_registrations, List.mem_filter, bne_iff_ne] at he
    obtain ⟨u, hu, hid⟩ := hr.holder?_eq_some.2 ⟨e, he.1, rfl, j, hj, hji⟩
    rw [hu, Option.filter_some, hid, if_pos (bne_iff_ne.2 he.2)] at h
    cases h

theorem add (hr : r.Linked) {s : Schema Value} {metadata : Entries}
    (hformed : ∀ i, Registration.id? ⟨s, metadata⟩ = some i → i.wellFormed = true)
    {r' : Registry} (h : r.add? s metadata = .ok r') : r'.Linked := by
  obtain ⟨hput, hadd⟩ := add?_eq_ok h
  have hrest := hr.remove s
  -- The schema comes back to the registry that it was removed from, in its old place.
  have hall (f : Registration) :
      f ∈ r'.registrations ↔ f = ⟨s, metadata⟩ ∨ f ∈ (r.remove s).registrations := by
    rw [hput, mem_put hr.once, remove_registrations, List.mem_filter, bne_iff_ne]
  have honce : (r'.registrations.map (·.schema.id)).Nodup := by
    rw [hput, map_id_put]
    split
    · exact hr.once
    · rename_i hnew
      exact List.nodup_append.2 ⟨hr.once, by simp, by
        rintro a ha b hb rfl
        exact hnew (List.mem_singleton.1 hb ▸ ha)⟩
  rcases hadd with ⟨hid, hholders⟩ | ⟨i, hid, hfree, hholders⟩
  · exact hrest.put hall honce hid hholders
  · exact hrest.hold hall honce hid (hformed i hid) (hr.holder?_remove hfree) hholders

/-- The dead hold nothing and are not registered. -/
theorem keepLive (hr : r.Linked) (live : Nat → Bool) : (r.keepLive live).Linked where
  once := hr.once.sublist (List.filter_sublist.map _)
  apart := by
    simp only [Registry.keepLive, List.map_map]
    exact hr.apart
  formed h hh := by
    obtain ⟨g, hg, rfl⟩ := List.mem_map.1 hh
    exact hr.formed g hg
  carried key s hkey := by
    obtain ⟨⟨k, o⟩, hg, hk⟩ := List.mem_map.1 hkey
    obtain ⟨rfl, ho⟩ := Prod.mk.inj hk
    obtain ⟨rfl, hlive⟩ := Option.filter_eq_some_iff.1 ho
    obtain ⟨e, he, hid, h⟩ := hr.carried k s hg
    exact ⟨e, List.mem_filter.2 ⟨he, by simpa [hid] using hlive⟩, hid, h⟩
  held e he i hi := by
    obtain ⟨he, hlive⟩ := List.mem_filter.1 he
    obtain ⟨hformed, key, s, hkey, hki, hs⟩ := hr.held e he i hi
    refine ⟨hformed, key, s, List.mem_map.2 ⟨(key, some s), hkey, ?_⟩, hki, hs⟩
    simp [Option.filter_some, hs, hlive]

end Linked

end Registry

/-! ## Runs -/

/-- The registry of a name in a session. -/
def Session.registry (σ : Session) (name : String) : Registry :=
  (σ.registries.lookup name).getD
    { name := if name.isEmpty then Registering.defaultName else name }

namespace Registering

open Run

variable {name : String} {σ : Session}

theorem registry_exec : (registry name).exec σ = (.ok (σ.registry name), σ) := rfl

theorem registry_setRegistry (r : Registry) :
    ((setRegistry name r).exec σ).2.registry name = r := by
  show ((((name, r) :: _ : List (String × Registry)).lookup name).getD _) = r
  simp

/-- The mapping that metadata stand for. -/
def attached (metadata : Value) : Except Fault Value :=
  if metadata.truthy then ClassRef.toDict metadata else .ok (.dict [])

theorem attached_lift (metadata : Value) :
    (if metadata.truthy then Run.lift (ClassRef.toDict metadata) else pure (.dict []))
      = Run.lift (attached metadata) := by
  unfold attached
  split <;> rfl

/-- Adding a schema changes the registry if that has no fault. -/
theorem add_exec {metadata : Value} {es : Entries} (h : attached metadata = .ok (.dict es))
    (s : Schema Value) :
    (add name (.schema s) metadata).exec σ = match (σ.registry name).add? s es with
      | .ok r => (.ok (.schema s), ((setRegistry name r).exec σ).2)
      | .error fault => (.error fault, σ) := by
  simp only [add, attached_lift, exec_bind, registry_exec, exec_lift, h]
  cases (σ.registry name).add? s es <;> rfl

/-- What is not a schema is refused, and so are metadata that are not a mapping. -/
theorem add_refused {node metadata : Value}
    (h : ∀ s es, node = .schema s → attached metadata ≠ .ok (.dict es)) :
    ∃ fault, (add name node metadata).exec σ = (.error fault, σ) := by
  cases node with
  | schema s =>
    simp only [add, attached_lift, exec_bind, registry_exec, exec_lift]
    cases hv : attached metadata with
    | error fault => exact ⟨fault, rfl⟩
    | ok v =>
      cases v with
      | dict es => exact absurd hv (h s es rfl)
      | _ => exact ⟨_, rfl⟩
  | _ => exact ⟨_, rfl⟩

/-- An addition that fails leaves the session as it is. -/
theorem add_fault {node metadata : Value} {fault : Fault}
    (h : (add name node metadata).answer σ = .error fault) :
    (add name node metadata).exec σ = (.error fault, σ) := by
  rcases Classical.em (∃ s es, node = .schema s ∧ attached metadata = .ok (.dict es)) with
    ⟨s, es, rfl, hes⟩ | hnot
  · unfold answer at h
    rw [add_exec hes] at h ⊢
    cases hr : (σ.registry name).add? s es with
    | error e =>
      rw [hr] at h
      cases h
      rfl
    | ok r =>
      rw [hr] at h
      cases h
  · obtain ⟨e, he⟩ : ∃ fault, (add name node metadata).exec σ = (.error fault, σ) :=
      add_refused fun s es hs hes => hnot ⟨s, es, hs, hes⟩
    rw [answer, he] at h
    cases h
    exact he

theorem has_exec (s : Schema Value) :
    (has name (.schema s)).exec σ = (.ok ((σ.registry name).has s), σ) := rfl

theorem metadata_exec (s : Schema Value) : (Registering.metadata name (.schema s)).exec σ
    = (.ok (((σ.registry name).get? s |>.map .dict).getD .null), σ) := rfl

theorem count_exec : (count name).exec σ = (.ok (σ.registry name).count, σ) := rfl

theorem byId_exec {i : Value} (hi : i.isHashable = true) :
    (byId name i).exec σ = (.ok (.ofSchema? ((σ.registry name).holder? i)), σ) := by
  simp only [byId, hi]
  rfl

/-- The identifier that comes with metadata. -/
def identifier? (metadata : Value) : Option Value :=
  match attached metadata with
  | .ok (.dict es) => Registration.id? ⟨default, es⟩
  | _ => none

/-! ## What a session keeps -/

/-- The tables of a registry belong together, and none but the living are registered. -/
def Sound (name : String) (alive : Nat → Bool) (σ : Session) : Prop :=
  (σ.registry name).Linked ∧ ∀ e ∈ (σ.registry name).registrations, alive e.schema.id = true

variable {alive : Nat → Bool}

theorem sound_setRegistry {r : Registry} (hr : r.Linked)
    (halive : ∀ e ∈ r.registrations, alive e.schema.id = true) :
    Sound name alive ((setRegistry name r).exec σ).2 := by
  rw [Sound, registry_setRegistry]
  exact ⟨hr, halive⟩

theorem add_keeps {node metadata : Value} (hnode : ∀ s, node = .schema s → alive s.id = true)
    (hid : ∀ i, identifier? metadata = some i → i.wellFormed = true) :
    (add name node metadata).Keeps (Sound name alive) := by
  refine fun σ hσ => ⟨?_, trivial⟩
  cases hanswer : (add name node metadata).answer σ with
  | error fault =>
    rw [add_fault hanswer]
    exact hσ
  | ok v =>
    rcases Classical.em (∃ s es, node = .schema s ∧ attached metadata = .ok (.dict es)) with
      ⟨s, es, rfl, hes⟩ | hnot
    · rw [add_exec hes]
      cases hr : (σ.registry name).add? s es with
      | error fault => exact hσ
      | ok r =>
        refine sound_setRegistry (hσ.1.add (fun i hi => hid i ?_) hr) ?_
        · rw [identifier?, hes]
          exact hi
        · intro e he
          rcases Registry.mem_of_add hσ.1.once hr he with hs | he
          · rw [hs]
            exact hnode s rfl
          · exact hσ.2 e he
    · obtain ⟨fault, hfault⟩ : ∃ fault, (add name node metadata).exec σ = (.error fault, σ) :=
        add_refused fun s es hs hes => hnot ⟨s, es, hs, hes⟩
      rw [hfault]
      exact hσ

theorem has_keeps (node : Value) {I : Session → Prop} : (has name node).Keeps I := by
  cases node with
  | schema s => exact fun σ hσ => ⟨hσ, trivial⟩
  | _ =>
    simp only [has]
    split
    · exact .bind .throw fun _ => .pure
    · exact .pure

theorem remove_keeps (node : Value) : (remove name node).Keeps (Sound name alive) := by
  unfold remove
  refine .bind (has_keeps node) fun known => ?_
  cases known with
  | false => exact .pure
  | true =>
    cases node with
    | schema s =>
      refine fun σ hσ => ⟨sound_setRegistry (hσ.1.remove s) fun e he => hσ.2 e ?_, trivial⟩
      rw [Registry.Linked.remove_registrations] at he
      exact List.mem_of_mem_filter he
    | _ => exact .pure

theorem clear_keeps : (clear name).Keeps (Sound name alive) := by
  refine fun σ hσ => ⟨?_, trivial⟩
  exact sound_setRegistry (.empty ..) fun e he => nomatch he

/-- The sessions that additions, removals and deaths lead to, with the schemas that are still
alive there. A schema that has died cannot be added, and whatever else happens leaves the
registry alone. -/
inductive Reached (name : String) : Session → (Nat → Bool) → Prop
  | empty {σ : Session} (h : σ.registries.lookup name = none) : Reached name σ fun _ => true
  | add {σ : Session} {alive : Nat → Bool} {node metadata : Value} (h : Reached name σ alive)
    (hnode : ∀ s, node = .schema s → alive s.id = true)
    (hid : ∀ i, identifier? metadata = some i → i.wellFormed = true) :
    Reached name ((add name node metadata).exec σ).2 alive
  | remove {σ : Session} {alive : Nat → Bool} {node : Value} (h : Reached name σ alive) :
    Reached name ((remove name node).exec σ).2 alive
  | clear {σ : Session} {alive : Nat → Bool} (h : Reached name σ alive) :
    Reached name ((clear name).exec σ).2 alive
  | deaths {σ : Session} {alive : Nat → Bool} (live : Nat → Bool) (h : Reached name σ alive) :
    Reached name (σ.keepLive live) fun n => alive n && live n
  | elsewhere {σ τ : Session} {alive : Nat → Bool} (h : Reached name σ alive)
    (hsame : τ.registry name = σ.registry name) : Reached name τ alive

theorem registry_keepLive (σ : Session) (live : Nat → Bool) :
    (σ.keepLive live).registry name = (σ.registry name).keepLive live := by
  have hlookup (rs : List (String × Registry)) :
      (rs.map fun r => (r.1, r.2.keepLive live)).lookup name
        = (rs.lookup name).map (·.keepLive live) := by
    induction rs with
    | nil => rfl
    | cons r rest ih =>
      obtain ⟨other, r⟩ := r
      simp only [List.map_cons, List.lookup_cons, ih]
      split <;> rfl
  unfold Session.registry Session.keepLive
  rw [hlookup]
  cases σ.registries.lookup name <;> rfl

theorem sound_keepLive (hσ : Sound name alive σ) (live : Nat → Bool) :
    Sound name (fun n => alive n && live n) (σ.keepLive live) := by
  rw [Sound, registry_keepLive]
  refine ⟨hσ.1.keepLive live, fun e he => ?_⟩
  obtain ⟨he, hlive⟩ := List.mem_filter.1 he
  simp [hσ.2 e he, hlive]

theorem Reached.sound (h : Reached name σ alive) : Sound name alive σ := by
  induction h with
  | @empty σ h =>
    rw [Sound, Session.registry, h]
    exact ⟨.empty _, fun e he => nomatch he⟩
  | add h hnode hid ih => exact (add_keeps hnode hid _ ih).1
  | remove h ih => exact (remove_keeps _ _ ih).1
  | clear h ih => exact (clear_keeps _ ih).1
  | deaths live h ih => exact sound_keepLive ih live
  | elsewhere h hsame ih =>
    rw [Sound, hsame]
    exact ih

/-- Forgetting the schemas that a session no longer holds is a sequence of deaths. -/
theorem Reached.sweep (h : Reached name σ alive) :
    ∃ alive', Reached name σ.sweep alive' := by
  have hturns (n : Nat) : ∀ {σ alive}, Reached name σ alive →
      ∃ alive', Reached name (Session.sweepFor n σ) alive' := by
    induction n with
    | zero => exact fun h => ⟨_, h⟩
    | succ n ih =>
      intro σ alive h
      unfold Session.sweepFor
      simp only
      split
      · exact ⟨_, h.deaths _⟩
      · exact ih (h.deaths _)
  exact hturns _ h

/-! ## What the registry answers -/

/-- The schema is registered. -/
def IsRegistered (name : String) (σ : Session) (n : Schema Value) : Prop :=
  (has name (.schema n)).answer σ = .ok true

/-- The metadata of the schema carry the identifier. -/
def Carries (name : String) (σ : Session) (n : Schema Value) (i : Value) : Prop :=
  ∃ es j, (Registering.metadata name (.schema n)).answer σ = .ok (.dict es) ∧
    Registration.id? ⟨n, es⟩ = some j ∧ j.isFound i = true

theorem isRegistered_iff {n : Schema Value} : IsRegistered name σ n ↔
    ∃ e ∈ (σ.registry name).registrations, e.schema.id = n.id := by
  simp [IsRegistered, answer, has_exec, Registry.has, Registry.registration?, List.find?_isSome]

theorem carries_iff (hσ : (σ.registry name).Linked) {n : Schema Value} {i : Value} :
    Carries name σ n i ↔ ∃ e ∈ (σ.registry name).registrations, e.schema.id = n.id ∧
      ∃ j, e.id? = some j ∧ j.isFound i = true := by
  constructor
  · rintro ⟨es, j, hes, hj, hji⟩
    rw [answer, metadata_exec] at hes
    cases hreg : (σ.registry name).registration? n with
    | none => simp [Registry.get?, hreg] at hes
    | some e =>
      simp [Registry.get?, hreg] at hes
      subst hes
      exact ⟨e, List.mem_of_find?_eq_some hreg, by simpa using List.find?_some hreg, j, hj, hji⟩
  · rintro ⟨e, he, hid, j, hj, hji⟩
    refine ⟨e.metadata, j, ?_, hj, hji⟩
    have hreg := hσ.registration?_of_mem he
    simp only [Registry.registration?, hid] at hreg
    simp [answer, metadata_exec, Registry.get?, Registry.registration?, hreg]

/-- What adding a schema with an identifier comes to. -/
theorem add_answer {n : Schema Value} {metadata i : Value} (hid : identifier? metadata = some i)
    (hi : i.isHashable = true) : (add name (.schema n) metadata).answer σ =
      if ((σ.registry name).holder? i).any (·.id != n.id) then .error (.duplicateId i)
      else .ok (.schema n) := by
  unfold identifier? at hid
  split at hid
  · rename_i es hes
    have hid : Registration.id? ⟨n, es⟩ = some i := hid
    have h := Registry.add?_of_id (r := σ.registry name) hid hi
    rw [answer, add_exec hes]
    split at h
    · rw [h, if_pos ‹_›]
    · obtain ⟨r, hr⟩ := h
      rw [hr, if_neg ‹_›]
  · cases hid

/-- What holds of the answers of a registry. -/
structure Coherent (name : String) (σ : Session) (alive : Nat → Bool) : Prop where
  /-- An identifier leads to the schema that is registered with it. -/
  byId : ∀ (i : Value) (n : Schema Value), i.isHashable = true →
    ((∃ v, (Registering.byId name i).answer σ = .ok v ∧ v.isIdentical (.schema n) = true) ↔
      IsRegistered name σ n ∧ Carries name σ n i)
  /-- None but the living are registered. -/
  alive : ∀ n, IsRegistered name σ n → alive n.id = true
  /-- Two registered schemas never carry the same identifier. -/
  unique : ∀ m n i, Carries name σ m i → Carries name σ n i → m.id = n.id
  /-- The registered schemas are counted. -/
  count : ∃ nodes : List Nat, nodes.Nodup ∧ (∀ n, n.id ∈ nodes ↔ IsRegistered name σ n) ∧
    (Registering.count name).answer σ = .ok nodes.length
  /-- An identifier is refused exactly if another registered schema carries it. -/
  refused : ∀ n metadata i, identifier? metadata = some i → i.isHashable = true →
    ((add name (.schema n) metadata).answer σ = .error (.duplicateId i) ↔
      ∃ m, m.id ≠ n.id ∧ IsRegistered name σ m ∧ Carries name σ m i)
  /-- And taken otherwise. -/
  taken : ∀ n metadata i, identifier? metadata = some i → i.isHashable = true →
    ((add name (.schema n) metadata).answer σ = .ok (.schema n) ↔
      ¬∃ m, m.id ≠ n.id ∧ IsRegistered name σ m ∧ Carries name σ m i)
  /-- An addition that fails changes nothing. -/
  unchanged : ∀ node metadata fault, (add name node metadata).answer σ = .error fault →
    ((add name node metadata).exec σ).2 = σ

/-- In every session that additions, removals and deaths lead to, an identifier belongs to the
one registered schema that carries it. -/
theorem identifiers_belong_to_registered (h : Reached name σ alive) : Coherent name σ alive := by
  obtain ⟨hlinked, halive⟩ := h.sound
  have hregistered {n : Schema Value} {i : Value} (hn : Carries name σ n i) :
      IsRegistered name σ n := by
    obtain ⟨e, he, hid, -⟩ := (carries_iff hlinked).1 hn
    exact isRegistered_iff.2 ⟨e, he, hid⟩
  have hholder {n : Schema Value} {i : Value} :
      (∃ s, (σ.registry name).holder? i = some s ∧ s.id = n.id) ↔ Carries name σ n i :=
    hlinked.holder?_eq_some.trans (carries_iff hlinked).symm
  have hother {n : Schema Value} {i : Value} :
      ((σ.registry name).holder? i).any (·.id != n.id) = true ↔
        ∃ m, m.id ≠ n.id ∧ IsRegistered name σ m ∧ Carries name σ m i := by
    simp only [Option.any_eq_true, bne_iff_ne]
    constructor
    · rintro ⟨s, hs, hne⟩
      have hcarries := hholder.1 ⟨s, hs, rfl⟩
      exact ⟨s, hne, hregistered hcarries, hcarries⟩
    · rintro ⟨m, hne, -, hcarries⟩
      obtain ⟨s, hs, hid⟩ := hholder.2 hcarries
      exact ⟨s, hs, hid ▸ hne⟩
  constructor
  · intro i n hi
    rw [and_iff_right_of_imp hregistered, ← hholder]
    simp only [answer, byId_exec hi, Except.ok.injEq, exists_eq_left']
    cases (σ.registry name).holder? i <;>
      simp [Value.ofSchema?, Value.isIdentical, Value.isFound, Value.numberEquals, Value.whole?]
  · intro n hn
    obtain ⟨e, he, hid⟩ := isRegistered_iff.1 hn
    exact hid ▸ halive e he
  · intro m n i hm hn
    obtain ⟨s, hs, hsm⟩ := hholder.2 hm
    obtain ⟨t, ht, htn⟩ := hholder.2 hn
    rw [hs, Option.some.injEq] at ht
    rw [← hsm, ← htn, ht]
  · refine ⟨(σ.registry name).registrations.map (·.schema.id), hlinked.once, fun n => ?_, ?_⟩
    · rw [isRegistered_iff, List.mem_map]
    · rw [answer, count_exec, Registry.count, List.length_map]
  · intro n metadata i hid hi
    rw [add_answer hid hi, ← hother]
    split <;> simp_all
  · intro n metadata i hid hi
    rw [add_answer hid hi, ← hother]
    split <;> simp_all
  · intro node metadata fault h
    rw [add_fault h]

/-- A schema of strings with a number of its own. -/
def stringSchema (id : Nat) : Schema Value :=
  ⟨id, .str "string", .string (.bool false), [], [], .null⟩

/-- One schema dies with its identifier, and another one takes that over. -/
def inherited : Session :=
  let metadata := .dict [(.str "id", .str "name")]
  let dead := ((add "docs" (.schema (stringSchema 1)) metadata).exec {}).2.keepLive (· != 1)
  ((add "docs" (.schema (stringSchema 2)) metadata).exec dead).2

theorem identifiers_belong_to_registered_inherited :
    Reached "docs" inherited (fun n => true && n != 1) ∧
      Coherent "docs" inherited (fun n => true && n != 1) ∧
      (Registering.byId "docs" (.str "name")).answer inherited
        = .ok (.schema (stringSchema 2)) := by
  have hid : ∀ i, identifier? (.dict [(.str "id", .str "name")]) = some i →
      i.wellFormed = true := by
    rintro i ⟨⟩
    rfl
  have h : Reached "docs" inherited (fun n => true && n != 1) :=
    .add (.deaths _ (.add (.empty rfl) (by rintro s ⟨⟩; rfl) hid)) (by rintro s ⟨⟩; rfl) hid
  exact ⟨h, identifiers_belong_to_registered h, rfl⟩

end Registering
end Assay
