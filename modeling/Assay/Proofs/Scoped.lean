import Assay.Proofs.Purity
import Assay.Proofs.SideBySide
import Assay.Proofs.Sources

/-!
# Schemas of a scope

A schema that is built from a plain definition calls functions of the library only, and its lazy
schemas refer to definitions of its scope (`OfDefinition.Formed`). So does whatever it reaches in a
session that has the scope's definitions (`OfDefinition.Homed`), and numbers tell apart what it
reaches. Hence it is pure wherever message providers and evaluators of further kinds are
(`OfDefinition.Homed.isPure`).
-/

namespace Assay

open Run

/-! ## Forms that match -/

namespace Form.Matches

variable {R R' : Schema Value → Schema Value → Prop} {form form' : Form Value (Schema Value)}

/-- The parts match, one by one. -/
theorem parts (h : form.Matches R form') : List.Forall₂ R form.parts form'.parts := by
  have hoption {o o' : Option (Schema Value)} (ho : Option.Rel R o o') :
      List.Forall₂ R o.toList o'.toList := by
    cases ho with
    | none => exact .nil
    | some h => exact .cons h .nil
  cases h with
  | simple hsimple => cases form <;> first | exact .nil | exact absurd hsimple Bool.false_ne_true
  | object hshape hcatchall =>
    exact List.rel_append (List.forall₂_map_left_iff.2 (List.forall₂_map_right_iff.2
      (hshape.imp fun _ _ hef => hef.2))) (hoption hcatchall)
  | tuple hss hrest => exact List.rel_append hss (hoption hrest)
  | union hss | discriminatedUnion hss => exact hss
  | record hk hx => exact .cons hk (.cons hx .nil)
  | map hk hx | intersection hk hx | pipe hk hx => exact .cons hk (.cons hx .nil)
  | array hs | set hs | optional hs | nullable hs | default hs | prefault hs | catching _ hs
  | readonly hs | promise hs => exact .cons hs .nil

/-- A form that matches another one calls no function, except for a plain value in place of one. -/
theorem not_callable (h : form.Matches R form')
    (hdefault : ∀ d, form.default? = some d → d.isJson = true) {fn : Value}
    (hfn : form.calls? = some fn) : fn.isCallable = false := by
  cases h with
  | simple hsimple => cases form <;> first | exact absurd hsimple Bool.false_ne_true | cases hfn
  | default | prefault => exact Value.isCallable_of_isJson (hdefault fn hfn)
  | catching hcallable =>
    cases hfn
    exact hcallable
  | _ => cases hfn

/-- Only forms of further kinds have no tag. -/
theorem generic_of_tag? (h : form.Matches R form') (htag : form.tag? = none) : form = .generic := by
  cases h with
  | simple => cases form <;> first | rfl | cases htag
  | _ => cases htag

theorem not_lazy (h : form.Matches R form') {getter name : Value} : form ≠ .lazy getter name := by
  rintro rfl
  cases h
  contradiction

theorem not_transform (h : form.Matches R form') {fn : Value} : form ≠ .transform fn := by
  rintro rfl
  cases h
  contradiction

end Form.Matches

namespace OfDefinition

/-! ## Formed schemas -/

/-- The schema calls functions of the library only, and if it is lazy it refers to a definition of
the scope. -/
structure Formed (scope : Scope) (t : Schema Value) : Prop where
  own : ∀ tag, t.form.tag? = some tag → t.kind = .str tag
  further : t.form.tag? = none → t.form = .generic
  calls : ∀ fn, t.form.calls? = some fn → (∃ b, fn = .builtin b) ∨ fn.isCallable = false
  defaults : ∀ d, t.form.default? = some d → d.isJson = true
  lazies : ∀ getter name, t.form = .lazy getter name → getter = .builtin (.definition scope.id name)
  transforms : ∀ fn, t.form ≠ .transform fn
  message : t.error.isJson = true
  checks : ∀ c ∈ t.checks, c.IsDefinedCheck

variable {K : KindTable} {scope : Scope} {t : Schema Value}

theorem formed_of_refers {name : Value} (hform : RefersTo scope name t)
    (hkind : t.kind = .str "lazy") (hmessage : t.error.isJson = true)
    (hchecks : ∀ c ∈ t.checks, c.IsDefinedCheck) : Formed scope t := by
  unfold RefersTo at hform
  refine ⟨?_, ?_, ?_, ?_, ?_, ?_, hmessage, hchecks⟩
  all_goals rw [hform]
  · rintro tag ⟨⟩
    exact hkind
  · exact nofun
  · rintro fn ⟨⟩
    exact .inl ⟨_, rfl⟩
  · exact nofun
  · rintro getter name' ⟨⟩
    rfl
  · exact nofun

theorem Siblings.checks_defined {s t : Schema Value} (h : Siblings s t) :
    ∀ c ∈ s.checks, c.IsDefinedCheck := by
  intro c hc
  obtain ⟨i, hi, rfl⟩ := List.getElem_of_mem hc
  exact (h.checks.get hi (h.checks.length_eq ▸ hi)).left

/-- The first one of a pair is formed. -/
theorem Paired.formed {scope' : Scope} {R : Schema Value → Schema Value → Prop} {s : Schema Value}
    (h : Paired K scope scope' R s t) : Formed scope s := by
  cases h with
  | parts hsiblings hform =>
    exact ⟨hsiblings.own, hform.generic_of_tag?,
      fun fn hfn => .inr (hform.not_callable hsiblings.defaults hfn), hsiblings.defaults,
      fun _ _ hlazy => absurd hlazy hform.not_lazy, fun _ => hform.not_transform,
      hsiblings.message, hsiblings.checks_defined⟩
  | references hsiblings hs _ =>
    refine formed_of_refers hs (hsiblings.own _ ?_) hsiblings.message hsiblings.checks_defined
    rw [show s.form = _ from hs]
    rfl
  | unfolds hs _ _ _ =>
    subst hs
    exact formed_of_refers rfl rfl rfl nofun

/-- A schema that is its own twin. -/
def SelfTwin (K : KindTable) (scope : Scope) (t : Schema Value) : Prop :=
  ∃ depth, Twins K scope scope depth t t

theorem SelfTwin.formed (h : SelfTwin K scope t) : Formed scope t := by
  obtain ⟨_ | depth, h⟩ := h
  · exact h.elim
  · exact Paired.formed h

theorem SelfTwin.parts (h : SelfTwin K scope t) : ∀ p ∈ t.form.parts, SelfTwin K scope p := by
  obtain ⟨_ | depth, h⟩ := h
  · exact h.elim
  · intro p hp
    cases h with
    | parts _ hform => exact ⟨depth, List.forall₂_same.1 hform.parts p hp⟩
    | references _ hs _ =>
      rw [show t.form = _ from hs] at hp
      cases hp
    | unfolds hs _ _ _ =>
      rw [congrArg Schema.form hs] at hp
      cases hp

/-- The definitions of the scope are plain. -/
def Scope.IsJson (scope : Scope) : Prop := (Value.dict scope.definitions).isJson = true

theorem Scope.IsJson.find? (h : scope.IsJson) {name x : Value}
    (hx : scope.definitions.find? name = some x) : x.isJson = true := by
  obtain ⟨f, hf, rfl⟩ := Option.map_eq_some_iff.1 hx
  exact ((Value.isJson_dict.1 h).1 f (List.mem_of_find?_eq_some hf)).2

theorem Scope.IsJson.akin (h : scope.IsJson) : scope.Akin scope := by
  refine ⟨rfl, fun name => ?_⟩
  cases hx : scope.definitions.find? name with
  | none => exact .none
  | some x => exact .some (.refl (h.find? hx))

theorem selfTwin_of_build (hscope : scope.IsJson) {depth : Nat} {x : Value} (hx : x.isJson = true)
    {σ : Session} (h : (build scope depth x).answer σ = .ok t) : SelfTwin σ.kinds scope t := by
  have htwofold := build_twofold (K := σ.kinds) hscope.akin depth depth x x (.refl hx) σ σ rfl rfl
  rw [h] at htwofold
  exact ⟨depth, htwofold.1⟩

/-! ## What schemas of a scope reach -/

/-- The definition at a place of a scope. -/
def Scope.at (scope : Scope) (place : Nat) : Value :=
  ((scope.definitions[place]?).map (·.2)).getD .null

theorem Scope.IsJson.at (h : scope.IsJson) (place : Nat) : (scope.at place).isJson = true := by
  unfold Scope.at
  cases hf : scope.definitions[place]? with
  | none => rfl
  | some f => exact ((Value.isJson_dict.1 h).1 f (List.mem_of_getElem? hf)).2

/-- A session in the lane of a named definition. -/
def Scope.lane (scope : Scope) (place : Nat) (υ : Session) : Session :=
  { υ with lane := numberIn scope.id place + 1, nextRef := 0 }

/-- A schema that was built from a definition: the main one, in the main lane, or a named one, in
the lane of its place. -/
inductive Root (υ : Session) (scope : Scope) (s : Schema Value) : Nat → Schema Value → Prop
  | main : Root υ scope s 0 s
  | named {place r} : (build scope (scope.at place).depth (scope.at place)).answer
      (scope.lane place υ) = .ok r → Root υ scope s (numberIn scope.id place + 1) r

/-- The session has the definitions of the scope, of which none was built, and remembers none of the
lazy schemas that the schema may reach. -/
structure Homed (υ : Session) (scope : Scope) (s : Schema Value) : Prop where
  definitions : υ.definitionSets.lookup scope.id = some ⟨scope.definitions, scope.strict, []⟩
  json : scope.IsJson
  twin : SelfTwin υ.kinds scope s
  spans : ∃ i j, Schema.Spans 0 i j [s] ∧ ∀ n, i ≤ n → υ.resolved.lookup (numberIn 0 n) = none
  unresolved : ∀ place n,
    υ.resolved.lookup (numberIn (numberIn scope.id place + 1) n) = none

variable {υ : Session} {s r : Schema Value} {lane : Nat}

theorem Root.unique {r' : Schema Value} (h : Root υ scope s lane r) (h' : Root υ scope s lane r') :
    r = r' := by
  cases h with
  | main =>
    generalize hlane : 0 = lane at h'
    cases h' with
    | main => rfl
    | named => cases hlane
  | @named place _ hr =>
    generalize hlane : numberIn scope.id place + 1 = lane at h'
    cases h' with
    | main => cases hlane
    | @named place' _ hr' =>
      obtain ⟨-, rfl⟩ := numberIn_inj (Nat.succ.inj hlane)
      exact Except.ok.inj (hr.symm.trans hr')

namespace Homed

variable {host : Host} (h : Homed υ scope s)
include h

theorem root_spans (hr : Root υ scope s lane r) : ∃ i j, Schema.Spans lane i j [r] ∧
    ∀ n, i ≤ n → υ.resolved.lookup (numberIn lane n) = none := by
  cases hr with
  | main => exact h.spans
  | @named place _ hr =>
    obtain ⟨-, -, hbuilt⟩ := build_isBuilt scope _ _ _ _ r rfl rfl (Prod.ext hr rfl)
    exact ⟨0, _, hbuilt.spans, fun n _ => h.unresolved place n⟩

theorem root_twin (hr : Root υ scope s lane r) : SelfTwin υ.kinds scope r := by
  cases hr with
  | main => exact h.twin
  | @named place _ hr =>
    show SelfTwin (scope.lane place υ).kinds scope r
    exact selfTwin_of_build h.json (h.json.at place) hr

theorem unresolved_of_encloses (hr : Root υ scope s lane r) (ht : r.Encloses t) :
    υ.resolved.lookup t.id = none := by
  obtain ⟨i, j, hspans, hfree⟩ := h.root_spans hr
  obtain ⟨n, hn, -, hid⟩ := hspans.places r List.mem_cons_self t ht
  exact hid ▸ hfree n hn

/-- What a reference of the scope stands for is built from the definition of its name. -/
theorem resolve (hfree : υ.resolved.lookup t.id = none) {name : Value} {u : Schema Value}
    (hu : (t.resolve host (.builtin (.definition scope.id name))).answer υ = .ok u) :
    ∃ place, scope.definitions.find? name = some (scope.at place) ∧
      (build scope (scope.at place).depth (scope.at place)).answer (scope.lane place υ) = .ok u := by
  rw [Schema.resolve_answer, hfree] at hu
  obtain ⟨v, hv, hu⟩ := bind_eq_ok.1 hu
  replace hv : (Value.schema <$> resolveDefinition scope.id name).answer υ = .ok v := hv
  rw [answer_map, resolveDefinition_answer, h.definitions] at hv
  dsimp only at hv
  unfold DefinitionSet.place? at hv
  cases hplace : List.findIdx? (fun e => e.1.isFound name) scope.definitions with
  | none =>
    rw [hplace] at hv
    cases hv
  | some place =>
    rw [hplace] at hv
    obtain ⟨hlt, hfound, hbefore⟩ := List.findIdx?_eq_some_iff_getElem.1 hplace
    have hat : scope.at place = scope.definitions[place].2 := by
      unfold Scope.at
      rw [List.getElem?_eq_getElem hlt]
      rfl
    refine ⟨place, ?_, ?_⟩
    · refine Option.map_eq_some_iff.2 ⟨scope.definitions[place], ?_, hat.symm⟩
      exact List.find?_eq_some_iff_getElem.2 ⟨hfound, place, hlt, rfl, fun j hj => by
        simpa using hbefore j hj⟩
    · have hanswer : (buildPlace scope.id ⟨scope.definitions, scope.strict, []⟩ place).answer υ =
          (build scope (scope.at place).depth (scope.at place)).answer (scope.lane place υ) := rfl
      rw [map_eq_bind_ok] at hv
      obtain ⟨w, hw, hwv⟩ := bind_eq_ok.1 hv
      obtain rfl := Except.ok.inj hwv
      cases hu
      rw [← hanswer]
      exact hw

/-- Whatever is reached is enclosed by a schema that was built from a definition, and is its own
twin. -/
theorem reaches (ht : s.Reaches host υ t) :
    SelfTwin υ.kinds scope t ∧ ∃ lane r, Root υ scope s lane r ∧ r.Encloses t := by
  induction ht with
  | self => exact ⟨h.twin, 0, s, .main, .self⟩
  | @part t u _ hu ih =>
    obtain ⟨htwin, lane, r, hr, ht⟩ := ih
    exact ⟨htwin.parts u hu, lane, r, hr, ht.snoc hu⟩
  | @lazily t u getter name _ hform hu ih =>
    obtain ⟨htwin, lane, r, hr, ht⟩ := ih
    obtain rfl := htwin.formed.lazies getter name hform
    obtain ⟨place, -, hbuilt⟩ := h.resolve (h.unresolved_of_encloses hr ht) hu
    exact ⟨h.root_twin (.named hbuilt), _, u, .named hbuilt, .self⟩

theorem unresolved_of_reaches (ht : s.Reaches host υ t) : υ.resolved.lookup t.id = none :=
  have ⟨_, _, _, hr, hheld⟩ := h.reaches ht
  h.unresolved_of_encloses hr hheld

/-- Numbers tell apart what is reached. -/
theorem apart {u : Schema Value} (ht : s.Reaches host υ t) (hu : s.Reaches host υ u)
    (hid : t.id = u.id) : t = u := by
  obtain ⟨-, lane, r, hr, ht⟩ := h.reaches ht
  obtain ⟨-, lane', r', hr', hu⟩ := h.reaches hu
  obtain ⟨i, j, hspans, -⟩ := h.root_spans hr
  obtain ⟨i', j', hspans', -⟩ := h.root_spans hr'
  obtain ⟨n, -, -, htn⟩ := hspans.places r List.mem_cons_self t ht
  obtain ⟨n', -, -, hun⟩ := hspans'.places r' List.mem_cons_self u hu
  obtain ⟨rfl, -⟩ := numberIn_inj (htn.symm.trans (hid.trans hun))
  obtain rfl := hr.unique hr'
  exact hspans.apart r List.mem_cons_self r List.mem_cons_self t u ht hu hid

end Homed

/-! ## Purity -/

/-- What message providers are to see of the schema or check that reports an issue: of a schema its
kind, its further fields and its message, of a check all but its number. -/
def seen : Value → Value
  | .schema s => .schema ⟨0, s.kind, .generic, s.extra, [], s.error⟩
  | v => v.unnumbered

/-- Message providers and evaluators of further kinds are pure. Neither tells apart who reports an
issue, or which node is evaluated, beyond what is to be seen. Whatever functions there are besides,
they change no settings. -/
structure Impartial (host : Host) (σ : Session) (ctx : Context) : Prop where
  own : σ.HasOwnKinds
  evaluators : ∀ kind fn, σ.kinds.evaluator? kind = .ok fn → host.IsPure σ fn
  unnumbered : ∀ s t fn, s.Alike t → σ.kinds.evaluator? s.kind = .ok fn →
    fn ≠ .builtin .evaluateNode → ∀ v, Accord True (Result.Same seen)
      (Meaning.evaluator host σ fn s v) (Meaning.evaluator host σ fn t v)
  sources : ∀ s fn, σ.kinds.evaluator? s.kind = .ok fn → fn ≠ .builtin .evaluateNode →
    ∀ v, Sources Resolution.HasMessage (Meaning.evaluator host σ fn s v)
  providers : ∀ f i τ, τ.settings = σ.settings →
    (host.run f (.wording i)).exec τ = ((host.run f (.wording i)).answer σ, τ)
  words : ∀ p ∈ [ctx.error, σ.config.customError, σ.config.localeError], ∀ i,
    (Resolution.consult host p i).answer σ = (Resolution.consult host p (i.masked seen)).answer σ
  settings : ∀ f call τ, ((host.run f call).exec τ).2.settings = τ.settings ∧
    ((host.run f call).exec τ).2.resolved = τ.resolved ∧
    ((host.run f call).exec τ).2.definitionSets = τ.definitionSets
  prompt : host.Prompt

theorem Formed.functions_pure {host : Host} {σ : Session} (h : Formed scope t) :
    ∀ fn ∈ t.functions, host.IsPure σ fn := by
  have hpure {fn : Value} (hfn : (∃ b, fn = .builtin b) ∨ fn.isCallable = false) :
      host.IsPure σ fn := by
    obtain ⟨b, rfl⟩ | hfn := hfn
    · trivial
    · cases fn <;> trivial
  intro fn hfn
  obtain hfn | hfn := List.mem_append.1 hfn
  · exact hpure (h.calls fn (Option.mem_toList.1 hfn))
  · obtain ⟨c, hc, hfn⟩ := List.mem_filterMap.1 hfn
    cases c with
    | check d =>
      exact hpure (((h.checks _ hc).rule d rfl).calls fn hfn |>.imp_right Value.isCallable_of_isJson)
    | _ => cases hfn

/-- A schema that was built is pure where providers and evaluators are impartial. -/
theorem Homed.isPure {host : Host} {ctx : Context} (h : Homed υ scope s)
    (hhost : Impartial host υ ctx) : s.IsPure host υ where
  functions t ht := (h.reaches ht).1.formed.functions_pure
  evaluators t _ fn hfn := hhost.evaluators _ fn hfn
  providers := hhost.providers
  defaults t ht d hd := by
    have hjson := (h.reaches ht).1.formed.defaults d hd
    cases d <;> first | rfl | cases hjson
  lazies t u getter name getter' name' ht hu hform hform' hid := by
    obtain rfl := h.apart ht hu hid
    rw [hform] at hform'
    cases hform'
    rfl
  settings := hhost.settings
  prompt := hhost.prompt

end OfDefinition

end Assay
