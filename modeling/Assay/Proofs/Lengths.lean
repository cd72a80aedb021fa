import Assay.Proofs.Alignment
import Mathlib.Order.Bounds.Basic

/-!
# Lengths of tuples

The lengths that a tuple admits are those of which it reports nothing itself (`Schema.Admits`). They
go from the number of positions that must be there on, up to the number of all positions unless a
rest takes what follows (`admits_iff`). Its length issues describe them
(`tuple_lengths_described`): whatever is not admitted is reported, with the least or the greatest
length that is. A length is called exact when the least one admitted is that of all positions. This
is the only one admitted where there is no rest, and the first of many where there is
(`tuple_length_not_exact`).
-/

namespace Assay

open Run Structure

variable {host : Host} {σ τ : Session} {ctx : Context} {s : Schema Value}
  {items : List (Schema Value)} {rest : Option (Schema Value)}

/-- The issue is about a length that is too small or too big. -/
def Detail.isLength {V I : Type} : Detail V I → Bool
  | .tooSmall .. | .tooBig .. => true
  | _ => false

/-- A length is called exact in the issue. -/
def Detail.exact? : Detail Value (Issue Value) → Option Bool
  | .tooSmall _ _ _ (.bool b) | .tooBig _ _ _ (.bool b) => some b
  | _ => none

/-- An array is shorter than it may be. -/
abbrev Detail.shorterThan (minimum : Nat) (exact : Bool) : Detail Value (Issue Value) :=
  .tooSmall (.str "array") (.int minimum) (.bool true) (.bool exact)

/-- An array is longer than it may be. -/
abbrev Detail.longerThan (maximum : Nat) (exact : Bool) : Detail Value (Issue Value) :=
  .tooBig (.str "array") (.int maximum) (.bool true) (.bool exact)

/-- What the form of a schema comes to, before the checks of the schema. -/
def Schema.formed (host : Host) (ctx : Context) (s : Schema Value) (v : Value) : Run Result := do
  let levels := s.depth + 1999
  (← evaluateForm host ctx (evaluate host ctx levels) (Schema.acceptsAbsent host levels) s v).settle

/-- The schema itself, and not a check or a part of it, reports a length of the value. -/
def Schema.ReportsLength (host : Host) (σ : Session) (ctx : Context) (s : Schema Value) (v : Value)
    (d : Detail Value (Issue Value)) : Prop :=
  d.isLength = true ∧ ∃ r, (s.formed host ctx v).answer σ = .ok r ∧
    ∃ i ∈ r.issues, i.path = [] ∧ i.detail = d

/-- The schema itself has nothing to say of the length of a list so long. -/
def Schema.Admits (host : Host) (σ : Session) (ctx : Context) (s : Schema Value) (n : Nat) : Prop :=
  ∀ v vs, v.items? = some vs → vs.length = n → ∀ d, ¬ s.ReportsLength host σ ctx v d

/-- The lengths of which a schema reports nothing. -/
abbrev Schema.admitted (host : Host) (σ : Session) (ctx : Context) (s : Schema Value) : Set Nat :=
  {n | s.Admits host σ ctx n}

/-- The length issues of a schema with so many positions, and perhaps a rest, describe the lengths
that it admits. -/
structure Schema.DescribesLengths (host : Host) (σ : Session) (ctx : Context) (s : Schema Value)
    (positions : Nat) (hasRest : Bool) : Prop where
  least : ∃ n, IsLeast (s.admitted host σ ctx) n
  upward : hasRest = true → ∀ m n, m ≤ n → s.Admits host σ ctx m → s.Admits host σ ctx n
  reported : ∀ v vs, v.items? = some vs →
    ((∃ d, s.ReportsLength host σ ctx v d) ↔ ¬ s.Admits host σ ctx vs.length)
  shorter : ∀ v vs n, v.items? = some vs → IsLeast (s.admitted host σ ctx) n →
    ((∃ exact, s.ReportsLength host σ ctx v (.shorterThan n exact)) ↔ vs.length < n)
  longer : ∀ v vs n, v.items? = some vs → IsGreatest (s.admitted host σ ctx) n →
    ((∃ exact, s.ReportsLength host σ ctx v (.longerThan n exact)) ↔ n < vs.length)
  /-- Nothing else is reported of a length. -/
  described : ∀ v vs d, v.items? = some vs → s.ReportsLength host σ ctx v d → ∃ n exact,
    IsLeast (s.admitted host σ ctx) n ∧ d = .shorterThan n exact ∨
    IsGreatest (s.admitted host σ ctx) n ∧ d = .longerThan n exact
  exact : ∀ v vs d b, v.items? = some vs → s.ReportsLength host σ ctx v d → d.exact? = some b →
    (b = true ↔ IsLeast (s.admitted host σ ctx) positions)
  only : hasRest = false → ∀ v vs d b, v.items? = some vs → s.ReportsLength host σ ctx v d →
    d.exact? = some b → (b = true ↔ ∃! n, s.Admits host σ ctx n)
  /-- A parse finds nothing beside the length. -/
  alone : σ.kinds.evaluator? s.kind = .ok (.builtin .evaluateNode) → ∀ v vs d,
    v.items? = some vs → s.ReportsLength host σ ctx v d →
    (evaluate host ctx s.budget s v).answer σ = .ok (.ready (.failed s v d))

/-! ## What is reported -/

theorem requiredPositions_le {acceptsAbsent : Schema Value → Run Bool}
    {schemas : List (Schema Value)} {n : Nat}
    (h : (requiredPositions acceptsAbsent schemas).exec σ = (.ok n, τ)) : n ≤ schemas.length := by
  induction schemas generalizing σ with
  | nil =>
    cases h
    exact Nat.le_refl 0
  | cons t schemas ih =>
    obtain ⟨b, ρ, -, h⟩ := bind_exec_ok.1 h
    cases b with
    | true => exact Nat.le_succ_of_le (ih h)
    | false =>
      cases h
      exact Nat.le_refl _

/-- The issues of the positions of a tuple are under their indices. -/
theorem indexed_path_ne_nil {index : Nat} {rs : List Result} {i : Issue Value}
    (h : i ∈ issuesUnder (indexed index rs)) : i.path ≠ [] := by
  obtain ⟨p, -, hi⟩ := List.mem_flatMap.1 h
  obtain ⟨j, -, rfl⟩ := List.mem_map.1 hi
  exact List.cons_ne_nil p.1 j.path

/-- The length issue of a tuple, if it has one. -/
theorem tupleLength_eq_some {required size length : Nat} {hasRest : Bool}
    {d : Detail Value (Issue Value)} : tupleLength required size hasRest length = some d ↔
      length < required ∧ d = .shorterThan required (required == size) ∨
      required ≤ length ∧ hasRest = false ∧ size < length ∧
        d = .longerThan size (required == size) := by
  unfold tupleLength
  dsimp only
  split
  · rename_i hshort
    simp [hshort, Nat.not_le.2 hshort, eq_comm]
  · rename_i hlong
    split
    · rename_i hover
      simp only [Bool.and_eq_true, Bool.not_eq_true', decide_eq_true_eq] at hover
      simp [hlong, hover, Nat.le_of_not_lt hlong, eq_comm]
    · rename_i hfits
      simp only [Bool.and_eq_true, Bool.not_eq_true', decide_eq_true_eq, not_and] at hfits
      simp only [reduceCtorEq, hlong, false_and, false_or, false_iff]
      rintro ⟨-, hnone, hover, -⟩
      exact hfits hnone hover

theorem tupleLength_eq_none {required size length : Nat} {hasRest : Bool} :
    tupleLength required size hasRest length = none ↔
      required ≤ length ∧ (hasRest = false → length ≤ size) := by
  rw [Option.eq_none_iff_forall_ne_some]
  simp only [ne_eq, tupleLength_eq_some]
  constructor
  · intro h
    have hrequired : required ≤ length := Nat.le_of_not_lt fun hlt => h _ (.inl ⟨hlt, rfl⟩)
    exact ⟨hrequired, fun hnone => Nat.le_of_not_lt fun hlt => h _ (.inr ⟨hrequired, hnone, hlt, rfl⟩)⟩
  · rintro ⟨hrequired, hfits⟩ d (⟨hlt, -⟩ | ⟨-, hnone, hlt, -⟩)
    · exact Nat.not_le.2 hlt hrequired
    · exact Nat.not_le.2 hlt (hfits hnone)

/-- A tuple of a length that it does not admit comes to the issue about it. -/
theorem evaluateTuple_failed {recur : Schema Value → Value → Run (Outcome Result)}
    {acceptsAbsent : Schema Value → Run Bool} {v : Value} {vs : List Value}
    (hvs : v.items? = some vs) {n : Nat} {d : Detail Value (Issue Value)}
    (hn : (requiredPositions acceptsAbsent items.reverse).exec σ = (.ok n, τ))
    (hd : tupleLength n items.length rest.isSome vs.length = some d) :
    (evaluateTuple host ctx recur acceptsAbsent s items rest v).exec σ
      = (.ok (.ready (.failed s v d)), τ) := by
  simp only [evaluateTuple, hvs]
  rw [exec_bind, hn]
  dsimp only
  rw [hd]
  rfl

section

variable (hform : s.form = .tuple items rest)

/-- How many leading positions of a tuple must be there. -/
abbrev Schema.required (host : Host) (s : Schema Value) (items : List (Schema Value)) : Run Nat :=
  requiredPositions (Schema.acceptsAbsent host (s.depth + 1999)) items.reverse

include hform

/-- A tuple of a length that it admits comes to what its positions come to. -/
theorem formed_tuple {v : Value} {vs : List Value} (hvs : v.items? = some vs) {n : Nat}
    {ρ : Session} (hn : (s.required host items).exec σ = (.ok n, ρ))
    (hnone : tupleLength n items.length rest.isSome vs.length = none) {r : Result}
    (hr : (s.formed host ctx v).answer σ = .ok r) : ∃ rs, r = Structure.tuple vs.length rs := by
  unfold Schema.formed answer at hr
  simp only [evaluateForm, hform, evaluateTuple, hvs, bind_assoc] at hr
  rw [exec_bind, hn] at hr
  dsimp only at hr
  rw [hnone] at hr
  obtain ⟨o, ρ', ho, hr⟩ := bind_exec_ok.1 (Prod.ext hr rfl)
  obtain ⟨found, ρ'', -, ho⟩ := bind_exec_ok.1 ho
  cases ho
  cases found with
  | ready rs =>
    cases hr
    exact ⟨rs, rfl⟩
  | later work =>
    have hmap : (work.exec ρ').1.map (tuple vs.length) = .ok r :=
      (congrArg Prod.fst (exec_map (tuple vs.length) work ρ')).symm.trans (congrArg Prod.fst hr)
    obtain ⟨rs, -, hrs⟩ := bind_eq_ok.1 ((map_eq_bind_ok _ _).symm.trans hmap)
    exact ⟨rs, (Except.ok.inj hrs).symm⟩

theorem reportsLength_iff {v : Value} {vs : List Value} (hvs : v.items? = some vs)
    {d : Detail Value (Issue Value)} : s.ReportsLength host σ ctx v d ↔
      ∃ n, (s.required host items).answer σ = .ok n ∧
        tupleLength n items.length rest.isSome vs.length = some d := by
  rcases hn : (s.required host items).exec σ with ⟨e | n, ρ⟩
  · -- Where the positions are not counted there is a fault.
    have hfault : (s.formed host ctx v).answer σ = .error e := by
      unfold Schema.formed answer
      simp only [evaluateForm, hform, evaluateTuple, hvs, bind_assoc]
      rw [exec_bind, hn]
    constructor
    · rintro ⟨-, r, hr, -⟩
      cases hfault.symm.trans hr
    · rintro ⟨n, hanswer, -⟩
      rw [answer, hn] at hanswer
      cases hanswer
  · have hanswer : (s.required host items).answer σ = .ok n := congrArg Prod.fst hn
    have hfailed {d : Detail Value (Issue Value)}
        (hd : tupleLength n items.length rest.isSome vs.length = some d) :
        (s.formed host ctx v).answer σ = .ok (.failed s v d) := by
      unfold Schema.formed answer
      simp only [evaluateForm, hform]
      rw [exec_bind, evaluateTuple_failed hvs hn hd]
      rfl
    rw [hanswer]
    constructor
    · rintro ⟨-, r, hr, i, hi, hpath, rfl⟩
      refine ⟨n, rfl, ?_⟩
      cases htuple : tupleLength n items.length rest.isSome vs.length with
      | some d =>
        cases (hfailed htuple).symm.trans hr
        rw [List.mem_singleton.1 hi]
      | none =>
        obtain ⟨rs, rfl⟩ := formed_tuple hform hvs hn htuple hr
        exact absurd hpath (indexed_path_ne_nil hi)
    · rintro ⟨n', ⟨⟩, htuple⟩
      have hlength : d.isLength = true := by
        rcases tupleLength_eq_some.1 htuple with ⟨-, rfl⟩ | ⟨-, -, -, rfl⟩ <;> rfl
      exact ⟨hlength, _, hfailed htuple, _, List.mem_singleton_self _, rfl, rfl⟩

/-- A tuple admits lengths from that of the positions that must be there on, up to that of all its
positions unless there is a rest. -/
theorem admits_iff {n : Nat} (hn : (s.required host items).answer σ = .ok n) (m : Nat) :
    s.Admits host σ ctx m ↔ n ≤ m ∧ (rest.isSome = false → m ≤ items.length) := by
  have hlength : s.Admits host σ ctx m ↔ tupleLength n items.length rest.isSome m = none := by
    constructor
    · intro hadmits
      refine Option.eq_none_iff_forall_ne_some.2 fun d hd => ?_
      exact hadmits (.list (List.replicate m .null)) _ rfl (List.length_replicate ..) d
        ((reportsLength_iff hform rfl).2 ⟨n, hn, by rwa [List.length_replicate]⟩)
    · rintro hnone v vs hvs rfl d hd
      obtain ⟨n', hn', htuple⟩ := (reportsLength_iff hform hvs).1 hd
      cases hn.symm.trans hn'
      cases hnone.symm.trans htuple
  rw [hlength, tupleLength_eq_none]

/-- Where the positions that must be there cannot be counted, nothing is reported. -/
theorem not_reportsLength {e : Fault} (he : (s.required host items).answer σ = .error e)
    {v : Value} {vs : List Value} (hvs : v.items? = some vs) (d : Detail Value (Issue Value)) :
    ¬ s.ReportsLength host σ ctx v d := by
  rw [reportsLength_iff hform hvs, he]
  rintro ⟨n, hn, -⟩
  cases hn

theorem describesLengths_of_fault {e : Fault}
    (he : (s.required host items).answer σ = .error e) :
    s.DescribesLengths host σ ctx items.length rest.isSome := by
  have hnever (v : Value) (vs : List Value) (hvs : v.items? = some vs)
      (d : Detail Value (Issue Value)) : ¬ s.ReportsLength host σ ctx v d :=
    not_reportsLength hform he hvs d
  have hadmits : ∀ n, s.Admits host σ ctx n := fun n v vs hvs _ d => hnever v vs hvs d
  constructor
  case least => exact ⟨0, hadmits 0, fun n _ => Nat.zero_le n⟩
  case upward => exact fun _ _ n _ _ => hadmits n
  case reported =>
    intro v vs hvs
    exact iff_of_false (fun ⟨d, hd⟩ => hnever v vs hvs d hd) (not_not_intro (hadmits _))
  case shorter =>
    intro v vs n hvs hn
    refine iff_of_false (fun ⟨exact, hd⟩ => hnever v vs hvs _ hd) fun hlt => ?_
    exact Nat.not_lt_zero _ (Nat.lt_of_lt_of_le hlt (hn.2 (hadmits 0)))
  case longer =>
    intro v vs n _ hn
    exact absurd (hn.2 (hadmits (n + 1))) (Nat.not_succ_le_self n)
  case described => exact fun v vs d hvs hd => absurd hd (hnever v vs hvs d)
  case exact => exact fun v vs d _ hvs hd => absurd hd (hnever v vs hvs d)
  case only => exact fun _ v vs d _ hvs hd => absurd hd (hnever v vs hvs d)
  case alone => exact fun _ v vs d hvs hd => absurd hd (hnever v vs hvs d)

/-- Once the positions that must be there are counted, the lengths admitted are those between. -/
theorem describesLengths_of_count {n : Nat} {ρ : Session}
    (hn : (s.required host items).exec σ = (.ok n, ρ)) :
    s.DescribesLengths host σ ctx items.length rest.isSome := by
  have hanswer : (s.required host items).answer σ = .ok n := congrArg Prod.fst hn
  have hle : n ≤ items.length := by
    simpa using requiredPositions_le hn
  have hadmits (m : Nat) : s.Admits host σ ctx m ↔
      n ≤ m ∧ (rest.isSome = false → m ≤ items.length) :=
    admits_iff hform hanswer m
  have hreports {v : Value} {vs : List Value} (hvs : v.items? = some vs)
      {d : Detail Value (Issue Value)} : s.ReportsLength host σ ctx v d ↔
        tupleLength n items.length rest.isSome vs.length = some d := by
    rw [reportsLength_iff hform hvs, hanswer]
    exact ⟨fun ⟨_, h, hd⟩ => Except.ok.inj h ▸ hd, fun hd => ⟨n, rfl, hd⟩⟩
  have hleast : IsLeast (s.admitted host σ ctx) n :=
    ⟨(hadmits n).2 ⟨Nat.le_refl n, fun _ => hle⟩, fun m hm => ((hadmits m).1 hm).1⟩
  have hgreatest (hnone : rest.isSome = false) :
      IsGreatest (s.admitted host σ ctx) items.length :=
    ⟨(hadmits _).2 ⟨hle, fun _ => Nat.le_refl _⟩, fun m hm => ((hadmits m).1 hm).2 hnone⟩
  have hflag {v : Value} {vs : List Value} {d : Detail Value (Issue Value)} {b : Bool}
      (hvs : v.items? = some vs) (hd : s.ReportsLength host σ ctx v d)
      (hb : d.exact? = some b) : b = true ↔ n = items.length := by
    rcases tupleLength_eq_some.1 ((hreports hvs).1 hd) with ⟨-, rfl⟩ | ⟨-, -, -, rfl⟩ <;>
      cases hb <;> exact beq_iff_eq
  constructor
  case least => exact ⟨n, hleast⟩
  case upward =>
    intro hrest m m' hmm' hm
    exact (hadmits m').2 ⟨Nat.le_trans ((hadmits m).1 hm).1 hmm', fun hnone => by
      rw [hnone] at hrest
      cases hrest⟩
  case reported =>
    intro v vs hvs
    rw [hadmits, ← tupleLength_eq_none, ← ne_eq, Option.ne_none_iff_exists']
    exact exists_congr fun d => hreports hvs
  case shorter =>
    intro v vs m hvs hm
    obtain rfl := hm.unique hleast
    simp only [hreports hvs, tupleLength_eq_some]
    constructor
    · rintro ⟨exact, ⟨hlt, -⟩ | ⟨-, -, -, h⟩⟩
      · exact hlt
      · cases h
    · exact fun hlt => ⟨_, .inl ⟨hlt, rfl⟩⟩
  case longer =>
    intro v vs m hvs hm
    simp only [hreports hvs, tupleLength_eq_some]
    -- There is a greatest length only where there is no rest.
    have hnone : rest.isSome = false := by
      refine Bool.eq_false_iff.2 fun hrest => ?_
      have hnext : s.Admits host σ ctx (m + 1) :=
        (hadmits _).2 ⟨Nat.le_succ_of_le ((hadmits m).1 hm.1).1, fun hnone => by
          rw [hnone] at hrest
          cases hrest⟩
      exact Nat.not_succ_le_self m (hm.2 hnext)
    obtain rfl := hm.unique (hgreatest hnone)
    constructor
    · rintro ⟨exact, ⟨-, h⟩ | ⟨-, -, hlt, -⟩⟩
      · cases h
      · exact hlt
    · exact fun hlt => ⟨_, .inr ⟨by omega, hnone, hlt, rfl⟩⟩
  case described =>
    intro v vs d hvs hd
    rcases tupleLength_eq_some.1 ((hreports hvs).1 hd) with ⟨-, rfl⟩ | ⟨-, hnone, -, rfl⟩
    · exact ⟨n, _, .inl ⟨hleast, rfl⟩⟩
    · exact ⟨items.length, _, .inr ⟨hgreatest hnone, rfl⟩⟩
  case exact =>
    intro v vs d b hvs hd hb
    rw [hflag hvs hd hb]
    exact ⟨fun h => h ▸ hleast, fun h => hleast.unique h⟩
  case only =>
    intro hnone v vs d b hvs hd hb
    rw [hflag hvs hd hb]
    constructor
    · intro h
      refine ⟨n, hleast.1, fun m hm => ?_⟩
      exact Nat.le_antisymm (h ▸ (hgreatest hnone).2 hm) (hleast.2 hm)
    · exact fun h => h.unique hleast.1 (hgreatest hnone).1
  case alone =>
    intro hown v vs d hvs hd
    have hfailed : (evaluate host ctx s.budget s v).exec σ = (.ok (.ready (.failed s v d)), ρ) := by
      rw [show s.budget = s.depth + 1999 + 1 from rfl, evaluate_exec hown, exec_bind]
      simp only [evaluateForm, hform]
      rw [evaluateTuple_failed hvs hn ((hreports hvs).1 hd)]
      rfl
    exact congrArg Prod.fst hfailed

/-- The length issues of a tuple describe the lengths that it admits. What they call exact is the
least of these where it is the number of all positions, which is the only one without a rest. -/
theorem tuple_lengths_described : s.DescribesLengths host σ ctx items.length rest.isSome := by
  rcases hn : (s.required host items).exec σ with ⟨e | n, ρ⟩
  · exact describesLengths_of_fault hform (congrArg Prod.fst hn)
  · exact describesLengths_of_count hform hn

end

namespace Trailing

/-- A text at least. -/
def texts : Schema Value :=
  ⟨0, .str "tuple", .tuple [text] (some text), [], [], .null⟩

end Trailing

open Trailing Stock in
/-- Of two positions the second may be absent: nothing is shorter than one text, which is not called
exact since two are admitted as well. -/
theorem tuple_lengths_described_pair :
    (pair text perhaps).ReportsLength (hostThat false) {} {} (.list []) (.shorterThan 1 false) ∧
      ¬ (pair text perhaps).Admits (hostThat false) {} {} 0 ∧
      ¬ ∃! n, (pair text perhaps).Admits (hostThat false) {} {} n := by
  have hform : (pair text perhaps).form = .tuple [text, perhaps] none := rfl
  have hdescribed : (pair text perhaps).DescribesLengths (hostThat false) {} {} 2 false :=
    tuple_lengths_described hform
  have hreported : (pair text perhaps).ReportsLength (hostThat false) {} {} (.list [])
      (.shorterThan 1 false) :=
    ⟨rfl, _, rfl, _, List.mem_singleton_self _, rfl, rfl⟩
  have hexact := hdescribed.only rfl (.list []) [] _ false rfl hreported rfl
  exact ⟨hreported, (hdescribed.reported (.list []) [] rfl).1 ⟨_, hreported⟩,
    fun hone => Bool.false_ne_true (hexact.2 hone)⟩

open Trailing Stock in
/-- With a rest one text is called exact though two are admitted as well. -/
theorem tuple_length_not_exact :
    texts.ReportsLength (hostThat false) {} {} (.list []) (.shorterThan 1 true) ∧
      texts.Admits (hostThat false) {} {} 1 ∧ texts.Admits (hostThat false) {} {} 2 :=
  ⟨⟨rfl, _, rfl, _, List.mem_singleton_self _, rfl, rfl⟩,
    (admits_iff (n := 1) rfl rfl 1).2 ⟨by decide, nofun⟩,
    (admits_iff (n := 1) rfl rfl 2).2 ⟨by decide, nofun⟩⟩

end Assay
