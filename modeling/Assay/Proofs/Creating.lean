import Assay.Proofs.Scoped

/-!
# Definitions with named definitions

A definition comes with named ones (`OfDefinition.tableOf?`); what is left of it is the main one
(`OfDefinition.mainOf`). The schema that is created from it is at home in the session in which it is
created (`OfDefinition.createSchema_created`). When one bare reference is replaced by the definition that
it refers to (`OfDefinition.Replaces`), the main definitions and the named ones are related.
-/

namespace Assay

open Run

/-! ## Plain entries -/

namespace Entries

variable {es : Entries} {name other : String}

/-- Dropping the entry of another name. -/
theorem get?_erase (hne : other ≠ name) :
    Entries.get? (es.erase (.str other)) name = es.get? name := by
  induction es with
  | nil => rfl
  | cons f es ih =>
    unfold Entries.get? Entries.find? Entries.erase at ih ⊢
    rw [List.filter_cons]
    by_cases hother : f.1.isFound (.str other) = true
    · have hname : f.1.isFound (.str name) = false := by
        rw [Value.isFound_text.1 hother]
        exact beq_eq_false_iff_ne.2 hne
      rw [if_neg (by simp [hother]), ih, List.find?_cons, hname]
    · rw [if_pos (by simpa using hother), List.find?_cons, List.find?_cons]
      split
      · rfl
      · exact ih

/-- Dropping an entry beside another one. -/
theorem erase_beside {before after : Entries} {v : Value} (hne : other ≠ name) :
    (before ++ (.str name, v) :: after).erase (.str other) =
      before.erase (.str other) ++ (.str name, v) :: after.erase (.str other) := by
  unfold Entries.erase
  rw [List.filter_append, List.filter_cons, if_pos (by simpa [Value.isFound] using hne.symm)]

/-- Dropping the entry of a name. -/
theorem erase_at {before after : Entries} {v : Value} :
    (before ++ (.str name, v) :: after).erase (.str name) =
      before.erase (.str name) ++ after.erase (.str name) := by
  unfold Entries.erase
  rw [List.filter_append, List.filter_cons, if_neg (by simp [Value.isFound_refl])]

/-- No entry before another one has its name. -/
theorem get?_before {before after : Entries} {v : Value}
    (h : (Value.dict (before ++ (.str name, v) :: after)).isJson = true) :
    before.get? name = none := by
  obtain ⟨hes, hnames⟩ := Value.isJson_dict.1 h
  rw [List.map_append, List.nodup_append] at hnames
  unfold Entries.get?
  rw [find?_eq_none]
  intro f hf
  obtain ⟨k, hk⟩ := (hes f (List.mem_append_left _ hf)).1
  have hne := hnames.2.2 f.1 (List.mem_map_of_mem hf) (.str name) List.mem_cons_self
  rw [hk] at hne ⊢
  exact beq_eq_false_iff_ne.2 fun heq => hne (congrArg Value.str heq)

end Entries

namespace OfDefinition

/-! ## Related definitions are plain -/

variable {table : Entries} {tag name : String} {v v' x x' : Value}

theorem Position.isJson (h : Position x x' tag name v v') (hv : v.isJson = true)
    (hx' : x'.isJson = true) : v'.isJson = true := by
  cases h with
  | child => exact hx'
  | item =>
    rw [Value.isJson_list] at hv ⊢
    intro w hw
    obtain hw | hw := List.mem_append.1 hw
    · exact hv w (List.mem_append_left _ hw)
    · obtain rfl | hw := List.mem_cons.1 hw
      · exact hx'
      · exact hv w (List.mem_append_right _ (List.mem_cons_of_mem _ hw))
  | shape => exact Value.isJson_replace hv hx'

theorem Position.isJson_inner (h : Position x x' tag name v v') (hv : v.isJson = true) :
    x.isJson = true := by
  cases h with
  | child => exact hv
  | item => exact Value.isJson_list.1 hv x (by simp)
  | shape => exact ((Value.isJson_dict.1 hv).1 _ (List.mem_append_right _ List.mem_cons_self)).2

/-- A plain definition stays plain when a reference is replaced by a plain definition. -/
theorem Inlines.isJson (htable : (Value.dict table).isJson = true) (h : Inlines table x x')
    (hx : x.isJson = true) : x'.isJson = true := by
  induction h with
  | reference _ hfind =>
    obtain ⟨f, hf, hvalue⟩ := Option.map_eq_some_iff.1 hfind
    exact hvalue ▸ ((Value.isJson_dict.1 htable).1 f (List.mem_of_find?_eq_some hf)).2
  | inside _ hposition _ _ ih =>
    have hv := ((Value.isJson_dict.1 hx).1 _ (List.mem_append_right _ List.mem_cons_self)).2
    exact Value.isJson_replace hx (hposition.isJson hv (ih (hposition.isJson_inner hv)))

/-! ## Creating schemas -/

/-- The definitions that a definition comes with. -/
def tableOf? (c : Entries) : Option Entries :=
  let given := field c "definitions"
  if given.truthy then given.entries? else some []

/-- The main definition of one that comes with others. Without a tag but with a name it refers to
the definition of that name. -/
def mainOf (c : Entries) : Entries :=
  let config := c.erase (.str "definitions")
  let tag := field config "type"
  let name := field config "name"
  if tag.equals (.str "ref") || tag.equals (.str "lazy") then config
  else if (config.get? "type").isNone && !(name matches .null) then
    [(.str "type", .str "ref"), (.str "name", name)]
  else config.erase (.str "name")

/-- A schema is created from the main definition, after the named ones were noted. -/
theorem createSchema_eq (c : Entries) (strict : Bool) : ∃ line, createSchema c strict =
    (match tableOf? c with
    | none => refuse (.definitionsNotMapping (field c "definitions").className)
    | some table => do
      logLine "INFO" line
      let id ← freshRef
      modify fun s => { s with definitionSets := (id, ⟨table, strict, []⟩) :: s.definitionSets }
      build ⟨id, table, strict⟩ (Value.dict (mainOf c)).depth (.dict (mainOf c))) := by
  exact ⟨_, rfl⟩

theorem createSchema_of_buildSchema {c : Entries} {strict : Bool} {σ τ : Session}
    {s : Schema Value} (h : (buildSchema (.dict c) strict).exec σ = (.ok s, τ)) :
    (createSchema c strict).exec σ = (.ok s, τ) := by
  have hbuild : (if (c.any fun e => e.1.str?.isNone || e.1.str? == some "self") then
      throw .unsupported else createSchema c strict : Run (Schema Value)).exec σ = (.ok s, τ) := h
  split at hbuild
  · cases hbuild
  · exact hbuild

/-- The session numbers in the main lane, and it remembers no lazy schema under a number that is
still to be given out. -/
structure Ready (σ : Session) : Prop where
  lane : σ.lane = 0
  main : ∀ n, σ.nextRef ≤ n → σ.resolved.lookup (numberIn 0 n) = none
  named : ∀ n, σ.nextRef ≤ n → ∀ place i,
    σ.resolved.lookup (numberIn (numberIn (numberIn 0 n) place + 1) i) = none

/-- The schema is created in the session `σ` from the main definition of the entries, with the named
definitions of the scope, and leaves the session `τ`. -/
structure Created (c : Entries) (σ : Session) (scope : Scope) (s : Schema Value) (τ : Session) :
    Prop where
  table : tableOf? c = some scope.definitions
  home : Homed τ scope s
  built : ∃ ρ, ρ.kinds = τ.kinds ∧
    (build scope (Value.dict (mainOf c)).depth (.dict (mainOf c))).answer ρ = .ok s
  id : scope.id = numberIn 0 σ.nextRef
  after : σ.nextRef < τ.nextRef
  frame : τ = { σ with
    nextRef := τ.nextRef
    log := τ.log
    definitionSets := (scope.id, ⟨scope.definitions, scope.strict, []⟩) :: σ.definitionSets }

theorem tableOf?_isJson {c table : Entries} (hc : (Value.dict c).isJson = true)
    (h : tableOf? c = some table) : (Value.dict table).isJson = true := by
  have hfield := Value.isJson_field hc "definitions"
  unfold tableOf? at h
  dsimp only at h
  split at h
  · cases hv : field c "definitions" with
    | dict es =>
      rw [hv] at h hfield
      cases h
      exact hfield
    | view es =>
      rw [hv] at hfield
      cases hfield
    | _ =>
      rw [hv] at h
      cases h
  · cases h
    rfl

theorem mainOf_isJson {c : Entries} (hc : (Value.dict c).isJson = true) :
    (Value.dict (mainOf c)).isJson = true := by
  have hrest : (Value.dict (c.erase (.str "definitions"))).isJson = true :=
    Value.isJson_filter hc _
  have hite (p : Prop) [Decidable p] {d e : Entries} (hd : (Value.dict d).isJson = true)
      (he : (Value.dict e).isJson = true) : (Value.dict (if p then d else e)).isJson = true := by
    split
    · exact hd
    · exact he
  refine hite _ hrest (hite _ (Value.isJson_dict.2 ⟨?_, ?_⟩) (Value.isJson_filter hrest _))
  · have hname := Value.isJson_field hrest "name"
    exact List.forall_mem_cons.2 ⟨⟨⟨_, rfl⟩, rfl⟩, List.forall_mem_singleton.2 ⟨⟨_, rfl⟩, hname⟩⟩
  · simp

/-- A created schema is at home. -/
theorem createSchema_created {c : Entries} (hc : (Value.dict c).isJson = true) {strict : Bool}
    {σ τ : Session} (hσ : Ready σ) {s : Schema Value}
    (h : (createSchema c strict).exec σ = (.ok s, τ)) :
    ∃ scope : Scope, scope.strict = strict ∧ Created c σ scope s τ := by
  obtain ⟨line, heq⟩ := createSchema_eq c strict
  rw [heq] at h
  cases htable : tableOf? c with
  | none =>
    rw [htable] at h
    cases h
  | some table =>
    rw [htable] at h
    let scope : Scope := ⟨numberIn σ.lane σ.nextRef, table, strict⟩
    let ρ : Session := { σ with
      nextRef := σ.nextRef + 1
      log := ("INFO" ++ ": " ++ line) :: σ.log
      definitionSets := (scope.id, ⟨table, strict, []⟩) :: σ.definitionSets }
    have hbuild : (build scope (Value.dict (mainOf c)).depth (.dict (mainOf c))).exec ρ =
        (.ok s, τ) := h
    have hbuilds := build_builds scope (Value.dict (mainOf c)).depth (.dict (mainOf c))
    obtain ⟨n, l, hframe⟩ := hbuilds.frame ρ
    have hadvances := hbuilds.advances ρ
    rw [hbuild] at hframe hadvances
    obtain rfl : τ = { ρ with nextRef := n, log := l } := hframe
    have hanswer := congrArg Prod.fst hbuild
    have hscope : scope.IsJson := tableOf?_isJson hc htable
    obtain ⟨-, -, hbuilt⟩ := build_isBuilt scope _ _ ρ _ s hσ.lane rfl hbuild
    have hid : scope.id = numberIn 0 σ.nextRef := by rw [← hσ.lane]
    refine ⟨scope, rfl, htable, ⟨?_, hscope, ?_, ?_, ?_⟩, ⟨ρ, rfl, hanswer⟩, hid, hadvances, rfl⟩
    · show List.lookup scope.id ((scope.id, _) :: σ.definitionSets) = _
      rw [List.lookup_cons, beq_self_eq_true]
    · show SelfTwin ρ.kinds scope s
      exact selfTwin_of_build hscope (mainOf_isJson hc) hanswer
    · exact ⟨_, _, hbuilt.spans, fun n hn => hσ.main n (Nat.le_of_succ_le hn)⟩
    · intro place i
      rw [hid]
      exact hσ.named σ.nextRef (Nat.le_refl _) place i

/-- A schema stays at home while further schemas are created. -/
theorem Homed.later {scope : Scope} {s : Schema Value} {τ υ : Session} (h : Homed τ scope s)
    (hdefinitions : υ.definitionSets.lookup scope.id = τ.definitionSets.lookup scope.id)
    (hkinds : υ.kinds = τ.kinds) (hresolved : υ.resolved = τ.resolved) : Homed υ scope s where
  definitions := hdefinitions.trans h.definitions
  json := h.json
  twin := hkinds ▸ h.twin
  spans := hresolved ▸ h.spans
  unresolved := hresolved ▸ h.unresolved

theorem Ready.later {c : Entries} {scope : Scope} {s : Schema Value} {σ τ : Session} (h : Ready σ)
    (hs : Created c σ scope s τ) : Ready τ := by
  have hresolved : τ.resolved = σ.resolved := by rw [hs.frame]
  have hlane : τ.lane = σ.lane := by rw [hs.frame]
  refine ⟨hlane.trans h.lane, fun n hn => ?_, fun n hn => ?_⟩
  · rw [hresolved]
    exact h.main n (Nat.le_trans (Nat.le_of_lt hs.after) hn)
  · rw [hresolved]
    exact h.named n (Nat.le_trans (Nat.le_of_lt hs.after) hn)

/-- A schema that is created next does not disturb the one before. -/
theorem Created.home_later {c c' : Entries} {scope scope' : Scope} {s t : Schema Value}
    {σ τ υ : Session} (hs : Created c σ scope s τ) (ht : Created c' τ scope' t υ) :
    Homed υ scope s := by
  refine hs.home.later ?_ (by rw [ht.frame]) (by rw [ht.frame])
  have hne : scope.id ≠ scope'.id := by
    intro hid
    have := (numberIn_inj (hs.id.symm.trans (hid.trans ht.id))).2
    exact absurd hs.after (by omega)
  rw [ht.frame]
  show List.lookup scope.id ((scope'.id, _) :: τ.definitionSets) = _
  rw [List.lookup_cons, show (scope.id == scope'.id) = false from beq_eq_false_iff_ne.2 hne]

/-! ## Replacing a reference -/

/-- One bare reference of a definition is replaced by the definition that it refers to, at any depth
of the main definition or of a named one. -/
inductive Replaces : Entries → Entries → Prop
  | main {before after table : Entries} {tag name : String} {v v' x x' : Value} :
      tableOf? (before ++ (.str name, v) :: after) = some table → Inlines table x x' →
      Position x x' tag name v v' → field (before ++ (.str name, v) :: after) "type" = .str tag →
      (tag = "record" → name = "key_type" → enumerates x' = true → enumerates x = true) →
      Replaces (before ++ (.str name, v) :: after) (before ++ (.str name, v') :: after)
  | named {before after earlier later : Entries} {key x x' : Value} :
      Inlines (earlier ++ (key, x) :: later) x x' →
      Replaces (before ++ (.str "definitions", .dict (earlier ++ (key, x) :: later)) :: after)
        (before ++ (.str "definitions", .dict (earlier ++ (key, x') :: later)) :: after)

/-- A reference nests no definitions, and no field that nests one is among those of the main
definition that are left out. -/
theorem apart_of_nested (h : name ∈ childFields tag ∨ name ∈ listFields tag) :
    (tag ≠ "ref" ∧ tag ≠ "lazy") ∧ name ≠ "definitions" ∧ name ≠ "name" := by
  have hchild : ∀ name ∈ childFields tag,
      (tag ≠ "ref" ∧ tag ≠ "lazy") ∧ name ≠ "definitions" ∧ name ≠ "name" := by
    unfold childFields
    split <;> simp
  have hlist : ∀ name ∈ listFields tag,
      (tag ≠ "ref" ∧ tag ≠ "lazy") ∧ name ≠ "definitions" ∧ name ≠ "name" := by
    unfold listFields
    split <;> simp
  exact h.elim (hchild name) (hlist name)

theorem Position.apart (h : Position x x' tag name v v') :
    (tag ≠ "ref" ∧ tag ≠ "lazy") ∧ name ≠ "definitions" ∧ name ≠ "name" := by
  cases h with
  | child hname => exact apart_of_nested (.inl hname)
  | item hname => exact apart_of_nested (.inr hname)
  | shape => decide

theorem mainOf_of_tag {c : Entries} (htype : field c "type" = .str tag)
    (htag : tag ≠ "ref" ∧ tag ≠ "lazy") :
    mainOf c = (c.erase (.str "definitions")).erase (.str "name") := by
  have hget : Entries.get? (c.erase (.str "definitions")) "type" = c.get? "type" :=
    Entries.get?_erase (by decide)
  have hfield : field (c.erase (.str "definitions")) "type" = .str tag := by
    rw [← htype, field, hget, field]
  have hsome : (Entries.get? (c.erase (.str "definitions")) "type").isNone = false := by
    unfold field at hfield
    cases hv : Entries.get? (c.erase (.str "definitions")) "type" with
    | none =>
      rw [hv] at hfield
      cases hfield
    | some w => rfl
  have hreference : ((Value.str tag).equals (.str "ref") || (Value.str tag).equals (.str "lazy"))
      = false := Bool.or_eq_false_iff.2 ⟨beq_eq_false_iff_ne.2 htag.1, beq_eq_false_iff_ne.2 htag.2⟩
  unfold mainOf
  dsimp only
  rw [hfield, hreference, hsome]
  rfl

theorem mainOf_isTagged {c : Entries} (htype : field c "type" = .str tag) :
    field ((c.erase (.str "definitions")).erase (.str "name")) "type" = .str tag := by
  unfold field at htype ⊢
  rw [Entries.get?_erase (by decide), Entries.get?_erase (by decide), htype]

/-- Named definitions of which one is replaced by a related one. -/
theorem find?_akin {earlier later : Entries} {key : Value}
    (htable : (Value.dict (earlier ++ (key, x) :: later)).isJson = true)
    (hx : Akin (earlier ++ (key, x) :: later) x x') (name : Value) :
    Option.Rel (Akin (earlier ++ (key, x) :: later))
      (Entries.find? (earlier ++ (key, x) :: later) name)
      (Entries.find? (earlier ++ (key, x') :: later) name) := by
  have hsame : ∀ f ∈ earlier ++ (key, x) :: later, Akin (earlier ++ (key, x) :: later) f.2 f.2 :=
    fun f hf => .refl ((Value.isJson_dict.1 htable).1 f hf).2
  have hrefl (o : Option (Value × Value)) (ho : ∀ f ∈ o, f ∈ earlier ++ (key, x) :: later) :
      Option.Rel (Akin (earlier ++ (key, x) :: later)) (o.map (·.2)) (o.map (·.2)) := by
    cases o with
    | none => exact .none
    | some f => exact .some (hsame f (ho f rfl))
  unfold Entries.find?
  rw [List.find?_append, List.find?_append, List.find?_cons, List.find?_cons]
  cases hearlier : List.find? (fun f => f.1.isFound name) earlier with
  | some f =>
    exact hrefl (some f) fun g hg => List.mem_append_left _
      (Option.some.inj hg ▸ List.mem_of_find?_eq_some hearlier)
  | none =>
    cases key.isFound name with
    | true => exact .some hx
    | false =>
      exact hrefl _ fun g hg => List.mem_append_right _
        (List.mem_cons_of_mem _ (List.mem_of_find?_eq_some hg))

theorem Replaces.isJson {c c' : Entries} (h : Replaces c c') (hc : (Value.dict c).isJson = true) :
    (Value.dict c').isJson = true := by
  cases h with
  | main htable hinlines hposition =>
    have hv := ((Value.isJson_dict.1 hc).1 _ (List.mem_append_right _ List.mem_cons_self)).2
    exact Value.isJson_replace hc (hposition.isJson hv
      (hinlines.isJson (tableOf?_isJson hc htable) (hposition.isJson_inner hv)))
  | named hinlines =>
    have htable := ((Value.isJson_dict.1 hc).1 _ (List.mem_append_right _ List.mem_cons_self)).2
    have hx := ((Value.isJson_dict.1 htable).1 _ (List.mem_append_right _ List.mem_cons_self)).2
    exact Value.isJson_replace hc (Value.isJson_replace htable (hinlines.isJson htable hx))

/-- The main definitions are related, and so are the named ones. -/
theorem Replaces.akin {c c' table table' : Entries} (h : Replaces c c')
    (hc : (Value.dict c).isJson = true) (htable : tableOf? c = some table)
    (htable' : tableOf? c' = some table') :
    (∀ name, Option.Rel (Akin table) (table.find? name) (table'.find? name)) ∧
      Akin table (.dict (mainOf c)) (.dict (mainOf c')) := by
  have hc' := h.isJson hc
  cases h with
  | @main before after _ tag name v v' x x' hdefinitions hinlines hposition htype hkeys =>
    obtain rfl := Option.some.inj (htable.symm.trans hdefinitions)
    obtain ⟨htag, hname, hname'⟩ := hposition.apart
    have hget {other : String} (hne : name ≠ other) :
        field (before ++ (.str name, v') :: after) other =
          field (before ++ (.str name, v) :: after) other := by
      unfold field
      rw [Entries.get?_append, Entries.get?_append, Entries.get?_cons, Entries.get?_cons,
        if_neg hne, if_neg hne]
    obtain rfl : table' = table := by
      unfold tableOf? at htable htable'
      rw [hget hname, htable] at htable'
      exact (Option.some.inj htable').symm
    have htype' : field (before ++ (.str name, v') :: after) "type" = .str tag := by
      rw [← htype]
      refine hget fun hname => hposition.not_common ?_
      rw [hname]
      decide
    have hscope : Scope.IsJson ⟨0, table', true⟩ := tableOf?_isJson hc htable
    refine ⟨hscope.akin.definitions, ?_, mainOf_isJson hc, mainOf_isJson hc'⟩
    have htagged := mainOf_isTagged htype
    rw [mainOf_of_tag htype htag, mainOf_of_tag htype' htag]
    rw [Entries.erase_beside hname.symm, Entries.erase_beside hname'.symm] at htagged ⊢
    rw [Entries.erase_beside hname.symm, Entries.erase_beside hname'.symm]
    exact .inr (.inside hinlines hposition htagged hkeys)
  | @named before after earlier later key x x' hinlines =>
    have hfield {y : Value} (hc : (Value.dict (before ++ (.str "definitions",
        .dict (earlier ++ (key, y) :: later)) :: after)).isJson = true) :
        tableOf? (before ++ (.str "definitions", .dict (earlier ++ (key, y) :: later)) :: after) =
          some (earlier ++ (key, y) :: later) := by
      have hnone := Entries.get?_before hc
      unfold tableOf? field
      rw [Entries.get?_append, hnone, Option.none_or, Entries.get?_cons, if_pos rfl]
      cases earlier <;> rfl
    obtain rfl := Option.some.inj ((hfield hc).symm.trans htable)
    obtain rfl := Option.some.inj ((hfield hc').symm.trans htable')
    have hplain := tableOf?_isJson hc htable
    have hx := ((Value.isJson_dict.1 hplain).1 _ (List.mem_append_right _ List.mem_cons_self)).2
    refine ⟨find?_akin hplain ⟨.inr hinlines, hx, hinlines.isJson hplain hx⟩, ?_⟩
    have hmain : mainOf (before ++ (.str "definitions", .dict (earlier ++ (key, x') :: later)) ::
        after) = mainOf (before ++ (.str "definitions", .dict (earlier ++ (key, x) :: later)) ::
          after) := by
      unfold mainOf
      rw [Entries.erase_at, Entries.erase_at]
    rw [hmain]
    exact .refl (mainOf_isJson hc)

end OfDefinition

end Assay
