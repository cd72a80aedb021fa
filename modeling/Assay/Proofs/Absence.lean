import Assay.Proofs.Abreast
import Assay.Proofs.Alignment
import Assay.Proofs.Assembling
import Assay.Proofs.Lengths
import Mathlib.Data.List.Induction

/-!
# Absent values

Whether a schema accepts an absent value is told without evaluating it (`Schema.DeclaresAbsent`).
The schemas here are evaluated without functions that were given to the library
(`Schema.IsFunctionFree`): nothing that they are asked depends on the session, and how many levels
they may be read is of no account once there are more than they are deep
(`Settled.meaning_levels`). So what they declare and what they accept of an absent value are two
plain facts, which need not agree.

A tuple may leave out trailing positions that declare it. Where the others are accepted, the tuple
is accepted exactly if every position that is left out declares it and accepts an absent value
(`omitted_positions_accept`). One that accepts without declaring it cannot be left out
(`undeclared_position_required`).
-/

namespace Assay

open Run Structure

variable {host : Host} {σ τ : Session} {ctx : Context} {I : Session → Prop} {s : Schema Value}

/-! ## Schemas without functions -/

/-- A function that was given to the library, or a class in place of one. -/
def Value.isSupplied : Value → Bool
  | .callable _ | .cls _ => true
  | _ => false

/-- The schema itself calls no function that was given to the library: it is evaluated by its form
and is not lazy, and what stands in for an absent or an invalid value is a value, which is its own
copy where it stands in for an absent one. -/
structure Schema.CallsNoneGiven (σ : Session) (s : Schema Value) : Prop where
  own : σ.kinds.evaluator? s.kind = .ok (.builtin .evaluateNode)
  functions : ∀ fn ∈ s.functions, fn.isSupplied = false
  not_lazy : ∀ getter name, s.form ≠ .lazy getter name
  standin : ∀ d, s.form.default? = some d → d.isCallable = false ∧ d.isCopiedAnew = false
  fallback : ∀ inner fallback, s.form = .catching inner fallback → fallback.isCallable = false

/-- Nothing that the schema is made of calls a function that was given to the library. -/
def Schema.IsFunctionFree (host : Host) (σ : Session) (s : Schema Value) : Prop :=
  ∀ t, s.Reaches host σ t → t.CallsNoneGiven σ

/-- The library's own functions, and values that are none, answer alike in all sessions. -/
theorem Host.Reliable.of_library {fn : Value} (h : fn.isSupplied = false) :
    host.Reliable I fn where
  answers call := by cases fn <;> trivial
  taken call _ := by
    unfold Host.call Host.start
    cases fn with
    | callable f | cls c => cases h
    | builtin b =>
      simp only [bind_assoc, pure_bind]
      exact Run.Fixed.lift.bind fun _ => .pure
    | _ => exact .throw

/-- The sessions in which kinds are evaluated as in `σ`. -/
def Session.AlikeIn (σ τ : Session) : Prop := τ.kinds = σ.kinds

theorem Schema.Reaches.trans {t u : Schema Value} (ht : s.Reaches host σ t)
    (hu : t.Reaches host σ u) : s.Reaches host σ u := by
  induction hu with
  | self => exact ht
  | part _ hu ih => exact .part ih hu
  | lazily _ hform hu ih => exact .lazily ih hform hu

/-- A schema that is not lazy reaches itself and what its parts reach. -/
theorem Schema.Reaches.part_cases {u : Schema Value}
    (hnever : ∀ getter name, s.form ≠ .lazy getter name) (hu : s.Reaches host σ u) :
    u = s ∨ ∃ t ∈ s.form.parts, t.Reaches host σ u := by
  induction hu with
  | self => exact .inl rfl
  | @part t u _ hu ih =>
    rcases ih with rfl | ⟨r, hr, ht⟩
    · exact .inr ⟨u, hu, .self⟩
    · exact .inr ⟨r, hr, .part ht hu⟩
  | lazily _ hform hu ih =>
    rcases ih with rfl | ⟨r, hr, ht⟩
    · exact absurd hform (hnever _ _)
    · exact .inr ⟨r, hr, .lazily ht hform hu⟩

/-- A schema that calls nothing calls nothing that was given. -/
theorem Schema.CallsNoneGiven.of_silent
    (hown : σ.kinds.evaluator? s.kind = .ok (.builtin .evaluateNode)) (h : s.functions = []) :
    s.CallsNoneGiven σ := by
  have hcalls : s.form.calls? = none := by
    simpa [Schema.functions, Option.toList_eq_nil_iff] using (List.append_eq_nil_iff.1 h).1
  constructor
  case own => exact hown
  case functions =>
    rw [h]
    exact List.forall_mem_nil _
  all_goals cases hform : s.form <;> simp_all [Form.calls?, Form.default?]

theorem Schema.CallsNoneGiven.standin_fixed (h : s.CallsNoneGiven σ) {d : Value}
    (hd : s.form.default? = some d) : (defaultValue host d).Fixed I := by
  obtain ⟨hcallable, hcopy⟩ := h.standin d hd
  unfold defaultValue
  rw [if_neg (Bool.eq_false_iff.1 hcallable)]
  cases d <;> first
    | exact Run.Fixed.pure
    | exact Run.Fixed.throw
    | exact nomatch hcopy

namespace Schema.IsFunctionFree

theorem self (h : s.IsFunctionFree host σ) : s.CallsNoneGiven σ := h s .self

theorem lazies (h : s.IsFunctionFree host σ) :
    ∀ t, s.Reaches host σ t → ∀ getter name, t.form ≠ .lazy getter name :=
  fun t ht => (h t ht).not_lazy

theorem part {t : Schema Value} (h : s.IsFunctionFree host σ) (ht : t ∈ s.form.parts) :
    t.IsFunctionFree host σ :=
  fun u hu => h u (.trans (.part .self ht) hu)

theorem of_parts (hself : s.CallsNoneGiven σ)
    (hparts : ∀ t ∈ s.form.parts, t.IsFunctionFree host σ) : s.IsFunctionFree host σ := by
  intro u hu
  rcases hu.part_cases hself.not_lazy with rfl | ⟨t, ht, hu⟩
  · exact hself
  · exact hparts t ht u hu

/-- A schema without functions is settled wherever kinds are evaluated alike. -/
theorem settled (h : s.IsFunctionFree host σ) :
    Settled host σ σ.AlikeIn (s.Reaches host σ) where
  here := rfl
  bookkeeping := ⟨fun _ _ h => h, fun _ _ h => h, fun _ _ h => h⟩
  kinds _ hτ := hτ
  parts _ ht _ hu := .part ht hu
  functions t ht fn hfn := .of_library ((h t ht).functions fn hfn)
  evaluators t ht fn hfn := by
    rw [(h t ht).own] at hfn
    cases hfn
    exact .of_library rfl
  defaults t ht d hd := (h t ht).standin_fixed hd
  lazies t ht getter name hform := absurd hform (h.lazies t ht getter name)
  resolved t ht getter name _ hform := absurd hform (h.lazies t ht getter name)
  wording t ht inner fallback hform hcallable := by
    rw [(h t ht).fallback inner fallback hform] at hcallable
    cases hcallable

end Schema.IsFunctionFree

/-! ## Levels -/

/-- Each session goes with itself, whatever operations do in it. -/
def Pace.same : Pace := ⟨Eq, True⟩

theorem Run.Steady.same {α : Type} (x : Run α) : x.Steady .same := by
  rintro ρ _ rfl
  refine ⟨rfl, ?_⟩
  cases (x.exec ρ).1 with
  | error e => exact ⟨rfl, fun _ => trivial⟩
  | ok a => exact rfl

theorem Pace.same_bookkeeping : Pace.same.Bookkeeping where
  kinds _ _ h := by rw [h]
  config _ _ h := by rw [h]
  spent _ _ h := by rw [h]
  numbers _ _ h := by rw [h]
  noting _ _ _ h := by rw [h]; rfl
  numbering _ _ h := by rw [h]; rfl
  spending _ _ _ h := by rw [h]; rfl

theorem Host.steady_same (host : Host) : host.Steady .same where
  run _ _ := .same _
  order _ _ h := by rw [h]

section

variable (hlazies : ∀ t, s.Reaches host σ t → ∀ getter name, t.form ≠ .lazy getter name)
include hlazies

/-- Without lazy schemas it does not matter how many levels there are beyond the depth. -/
theorem acceptsAbsent_levels {fuel fuel' : Nat} {t : Schema Value} (ht : s.Reaches host σ t)
    (hfuel : t.depth < fuel) (hfuel' : t.depth < fuel') :
    (t.acceptsAbsent host fuel).Lockstep .same Eq (t.acceptsAbsent host fuel') := by
  induction fuel generalizing fuel' t with
  | zero => cases hfuel
  | succ fuel ih =>
    obtain _ | fuel' := fuel'
    · cases hfuel'
    refine acceptsAbsent_lockstep (v := .null) (fun u hu => ?_) fun getter name hform =>
      absurd hform (hlazies t ht getter name)
    have hdepth := Schema.depth_part_lt hu.mem_parts
    exact ih (.part ht hu.mem_parts) (by omega) (by omega)

theorem evaluate_levels {fuel fuel' : Nat} {t : Schema Value} (ht : s.Reaches host σ t)
    (hfuel : t.depth < fuel) (hfuel' : t.depth < fuel') (v : Value) :
    (evaluate host ctx fuel t v).Abreast .same (evaluate host ctx fuel' t v) := by
  induction fuel generalizing fuel' t v with
  | zero => cases hfuel
  | succ fuel ih =>
    obtain _ | fuel' := fuel'
    · cases hfuel'
    have hpart {u : Schema Value} (hu : u ∈ t.form.parts) : u.depth < fuel ∧ u.depth < fuel' := by
      have hdepth := Schema.depth_part_lt hu
      omega
    refine evaluate_abreast Pace.same_bookkeeping host.steady_same
      (evaluateForm_abreast Pace.same_bookkeeping host.steady_same (fun _ _ => .same _)
        (fun u w hu => ?_) (fun getter name hform => absurd hform (hlazies t ht getter name))
        fun _ u hu => ?_)
    · have hu := hu.mem_parts
      exact ih (.part ht hu) (hpart hu).1 (hpart hu).2 w
    · exact acceptsAbsent_levels hlazies (.part ht hu) (hpart hu).1 (hpart hu).2

end

/-- A schema without lazy ones means the same with any levels beyond its depth. -/
theorem Settled.meaning_levels {pool : Schema Value → Prop} (h : Settled host σ I pool)
    (hs : pool s) (hlazies : ∀ t, s.Reaches host σ t → ∀ getter name, t.form ≠ .lazy getter name)
    {fuel fuel' : Nat} (hfuel : s.depth < fuel) (hfuel' : s.depth < fuel') (v : Value) :
    meaning host σ ctx false fuel s v = meaning host σ ctx false fuel' s v := by
  have hanswers {n : Nat} : (evaluate host (ctx.mayWait false) n s v).answer σ =
      (meaning host σ ctx false n s v).map .ready :=
    (evaluate_promptly h n hs v).answer h.here
  have habreast : (evaluate host (ctx.mayWait false) fuel s v).Abreast .same
      (evaluate host (ctx.mayWait false) fuel' s v) :=
    evaluate_levels hlazies .self hfuel hfuel' v
  have hmatches := (habreast σ σ rfl).2
  rw [show ((evaluate host (ctx.mayWait false) fuel s v).exec σ).1 = _ from hanswers,
    show ((evaluate host (ctx.mayWait false) fuel' s v).exec σ).1 = _ from hanswers] at hmatches
  cases hx : meaning host σ ctx false fuel s v <;>
    cases hy : meaning host σ ctx false fuel' s v <;> rw [hx, hy] at hmatches
  · rw [hmatches.1]
  · exact hmatches.elim
  · exact hmatches.elim
  · exact congrArg Except.ok hmatches

theorem Schema.IsFunctionFree.meaning_alone (h : s.IsFunctionFree host σ) {fuel : Nat}
    (hfuel : s.depth < fuel) (v : Value) :
    meaning host σ ctx false fuel s v = Meaning.alone host σ ctx s v :=
  h.settled.meaning_levels .self h.lazies hfuel (Nat.lt_add_of_pos_right (by decide)) v

/-! ## What is declared and what is accepted -/

/-- The schema tells that it accepts an absent value. -/
def Schema.DeclaresAbsent (host : Host) (σ : Session) (s : Schema Value) : Prop :=
  (s.acceptsAbsent host s.budget).answer σ = .ok true

/-- A parse that must not wait accepts the value with the output. -/
def Schema.AcceptsAs (host : Host) (σ : Session) (ctx : Context) (s : Schema Value) (v w : Value) :
    Prop :=
  (safeParse host (ctx.mayWait false) s v).answer σ = .ok (.accepted w)

/-- What is accepted is what the schema means on its own. -/
theorem Settled.acceptsAs_iff {pool : Schema Value → Prop} (h : Settled host σ I pool)
    (hs : pool s) {v w : Value} :
    s.AcceptsAs host σ ctx v w ↔ Meaning.alone host σ ctx s v = .ok (.ok w) := by
  have hanswer : (evaluate host (ctx.mayWait false) s.budget s v).answer σ =
      (Meaning.alone host σ ctx s v).map .ready :=
    (evaluate_promptly h s.budget hs v).answer h.here
  constructor
  · intro haccepted
    obtain ⟨ρ, hevaluate⟩ := evaluate_of_accepted haccepted
    rw [answer, hevaluate] at hanswer
    cases halone : Meaning.alone host σ ctx s v with
    | error e =>
      rw [halone] at hanswer
      cases hanswer
    | ok r =>
      rw [halone] at hanswer
      cases hanswer
      rfl
  · intro halone
    rw [halone] at hanswer
    have hevaluate : (evaluate host (ctx.mayWait false) s.budget s v).exec σ = (.ok (.ready (.ok w)),
        ((evaluate host (ctx.mayWait false) s.budget s v).exec σ).2) := Prod.ext hanswer rfl
    unfold Schema.AcceptsAs safeParse answer
    rw [exec_bind, hevaluate]
    rfl

namespace Schema.IsFunctionFree

theorem acceptsAs_iff (h : s.IsFunctionFree host σ) {v w : Value} :
    s.AcceptsAs host σ ctx v w ↔ Meaning.alone host σ ctx s v = .ok (.ok w) :=
  h.settled.acceptsAs_iff .self

/-- Whether an absent value is accepted is answered alike in all sessions. -/
theorem acceptsAbsent_gives (h : s.IsFunctionFree host σ) {fuel : Nat} (hfuel : s.depth < fuel) :
    ∃ b, (s.acceptsAbsent host fuel).Gives I (.ok b) ∧ (b = true ↔ s.DeclaresAbsent host σ) := by
  have hbudget : s.depth < s.budget := Nat.lt_add_of_pos_right (by decide)
  obtain ⟨b, hb⟩ := Assay.acceptsAbsent_gives (I := fun _ => True) h.lazies fuel s .self hfuel
  obtain ⟨b', hb'⟩ := Assay.acceptsAbsent_gives (I := I) h.lazies fuel s .self hfuel
  refine ⟨b, fun ρ hρ => ⟨(hb' ρ hρ).1, (hb ρ trivial).2⟩, ?_⟩
  have hsame : (s.acceptsAbsent host fuel).answer σ = (s.acceptsAbsent host s.budget).answer σ :=
    (acceptsAbsent_levels h.lazies .self hfuel hbudget).answer_eq rfl
  rw [DeclaresAbsent, ← hsame, hb.answer trivial, Except.ok.injEq]

end Schema.IsFunctionFree

/-! ## Positions that may be left out -/

/-- How many positions must be there: so many that all after them declare that they accept an
absent value, and no fewer. -/
theorem requiredPositions_counts {acceptsAbsent : Schema Value → Run Bool}
    {declares : Schema Value → Prop} {schemas : List (Schema Value)}
    (h : ∀ t ∈ schemas, ∃ b, (acceptsAbsent t).Gives I (.ok b) ∧ (b = true ↔ declares t)) :
    ∃ n, (requiredPositions acceptsAbsent schemas.reverse).Gives I (.ok n) ∧
      ∀ m, n ≤ m ↔ ∀ t ∈ schemas.drop m, declares t := by
  induction schemas using List.reverseRecOn with
  | nil => exact ⟨0, .pure, by simp⟩
  | append_singleton before t ih =>
    obtain ⟨n, hn, hcounts⟩ := ih fun u hu => h u (List.mem_append_left _ hu)
    obtain ⟨b, hb, hdeclares⟩ := h t (List.mem_append_right _ (List.mem_singleton_self t))
    rw [List.reverse_append, List.reverse_singleton, List.singleton_append]
    have hlast {m : Nat} : (∀ u ∈ (before ++ [t]).drop m, declares u) ↔
        (∀ u ∈ before.drop m, declares u) ∧ (m ≤ before.length → declares t) := by
      rw [List.drop_append, List.forall_mem_append]
      refine and_congr_right fun _ => ?_
      by_cases hm : m ≤ before.length
      · simp [Nat.sub_eq_zero_of_le hm, hm]
      · rw [List.drop_of_length_le (by simp; omega)]
        simp [hm]
    cases b with
    | true =>
      refine ⟨n, hb.next_ok hn, fun m => ?_⟩
      rw [hlast, hcounts m]
      exact (and_iff_left fun _ => hdeclares.1 rfl).symm
    | false =>
      have hall : (pure (before.reverse.length + 1) : Run Nat).Gives I (.ok (before.length + 1)) := by
        rw [List.length_reverse]
        exact .pure
      refine ⟨before.length + 1, hb.next_ok hall, fun m => ?_⟩
      · have hnot : ¬ declares t := fun ht => Bool.false_ne_true (hdeclares.2 ht)
        rw [hlast]
        constructor
        · intro hm
          refine ⟨?_, fun hle => absurd hm (by omega)⟩
          rw [List.drop_of_length_le (by omega)]
          exact nofun
        · rintro ⟨-, hle⟩
          exact Nat.lt_of_not_le fun hm => hnot (hle hm)

/-- The positions of a tuple that is shorter than it may be: those that are there, and those that
are left out. -/
theorem tupleItems_of_length_le {rest : Option (Schema Value)} {schemas : List (Schema Value)}
    {vs : List Value} (h : vs.length ≤ schemas.length) : tupleItems rest schemas vs =
      schemas.zip vs ++ (schemas.drop vs.length).map fun t => (t, .missing) := by
  induction schemas generalizing vs with
  | nil =>
    obtain rfl := List.eq_nil_of_length_eq_zero (Nat.le_zero.1 h)
    cases rest <;> rfl
  | cons t schemas ih =>
    cases vs with
    | nil =>
      rw [tupleItems, ih (Nat.zero_le _)]
      simp
    | cons w vs =>
      rw [tupleItems, ih (Nat.le_of_succ_le_succ h)]
      rfl

/-- There is a list of what the items are related to where each is related to something. -/
theorem exists_forall₂_iff {α β : Type} {R : α → β → Prop} {xs : List α} :
    (∃ ys, List.Forall₂ R xs ys) ↔ ∀ x ∈ xs, ∃ y, R x y := by
  induction xs with
  | nil => exact iff_of_true ⟨[], .nil⟩ nofun
  | cons x xs ih =>
    rw [List.forall_mem_cons, ← ih]
    constructor
    · rintro ⟨_, hxs⟩
      cases hxs with
      | cons hy hys => exact ⟨⟨_, hy⟩, _, hys⟩
    · rintro ⟨⟨y, hy⟩, ys, hys⟩
      exact ⟨y :: ys, .cons hy hys⟩

/-- A schema that is read by its form accepts what its form and then its checks accept. -/
theorem alone_accepts (hown : σ.kinds.evaluator? s.kind = .ok (.builtin .evaluateNode))
    {v w : Value} : Meaning.alone host σ ctx s v = .ok (.ok w) ↔
      ∃ u, Meaning.form host σ ctx false (meaning host σ ctx false (s.depth + 1999))
          (s.depth + 1999) s v = .ok (.ok u) ∧
        Meaning.checksFrom host σ ctx s.allChecks (.ok u) = .ok (.ok w) := by
  constructor
  · refine meaning_accepts fun fn hfn => ?_
    rw [hown] at hfn
    exact (Except.ok.inj hfn).symm
  · rintro ⟨u, hu, hw⟩
    show meaning host σ ctx false (s.depth + 1999 + 1) s v = _
    rw [meaning, hown]
    exact bind_eq_ok.2 ⟨_, rfl, bind_eq_ok.2 ⟨.ok u, hu, checks_accepts.2 ⟨u, rfl, hw⟩⟩⟩

theorem Schema.allChecks_of_untagged (h : s.form.checkTag? = none) : s.allChecks = s.checks := by
  rw [Schema.allChecks, h]
  rfl

/-- The positions are accepted with the outputs, each on its own. -/
abbrev AcceptsEach (host : Host) (σ : Session) (ctx : Context)
    (ps : List (Schema Value × Value)) (ws : List Value) : Prop :=
  List.Forall₂ (fun p w => p.1.AcceptsAs host σ ctx p.2 w) ps ws

/-- Positions come to one output each. -/
theorem AcceptsEach.unique {ps : List (Schema Value × Value)} {ws ws' : List Value}
    (h : AcceptsEach host σ ctx ps ws) (h' : AcceptsEach host σ ctx ps ws') : ws = ws' := by
  refine List.right_unique_forall₂' (fun p w w' hw hw' => ?_) h h'
  cases Except.ok.inj (hw.symm.trans hw')
  rfl

/-- The positions of a schema are accepted as part of it exactly if each is on its own. -/
theorem Schema.IsFunctionFree.accepts_iff (h : s.IsFunctionFree host σ)
    {ps : List (Schema Value × Value)} (hparts : ∀ p ∈ ps, p.1 ∈ s.form.parts) {ws : List Value} :
    Meaning.Accepts (meaning host σ ctx false (s.depth + 1999)) ps ws ↔
      AcceptsEach host σ ctx ps ws := by
  unfold Meaning.Accepts AcceptsEach
  rw [List.forall₂_iff_zip, List.forall₂_iff_zip]
  refine and_congr_right fun _ => forall₂_congr fun p w => forall_congr' fun hp => ?_
  have hpart := hparts p (List.of_mem_zip hp).1
  have hdepth := Schema.depth_part_lt hpart
  rw [(h.part hpart).acceptsAs_iff, (h.part hpart).meaning_alone (by omega)]

section

variable {items : List (Schema Value)} {rest : Option (Schema Value)} {v : Value} {vs : List Value}

/-- A tuple of which positions are left out accepts, before its checks, what all declare that are
left out and each position accepts. -/
theorem Schema.IsFunctionFree.tuple_accepts (hfree : s.IsFunctionFree host σ)
    (hform : s.form = .tuple items rest) (hvs : v.items? = some vs)
    (hshort : vs.length < items.length) {u : Value} :
    Meaning.form host σ ctx false (meaning host σ ctx false (s.depth + 1999)) (s.depth + 1999) s v
        = .ok (.ok u) ↔
      (∀ t ∈ items.drop vs.length, t.DeclaresAbsent host σ) ∧
        ∃ ws, AcceptsEach host σ ctx (tupleItems rest items vs) ws ∧
          u = .tuple (Meaning.tupleOutput vs.length ws) := by
  have hparts : ∀ p ∈ tupleItems rest items vs, p.1 ∈ s.form.parts := by
    rw [hform]
    exact tupleItems_parts rest items vs
  have hcounted : ∃ n, (s.required host items).Gives (fun ρ => ρ = σ) (.ok n) ∧
      ∀ m, n ≤ m ↔ ∀ t ∈ items.drop m, t.DeclaresAbsent host σ := by
    refine requiredPositions_counts fun t ht => ?_
    have hpart : t ∈ s.form.parts := by
      rw [hform]
      exact List.mem_append_left _ ht
    have hdepth := Schema.depth_part_lt hpart
    exact (hfree.part hpart).acceptsAbsent_gives (by omega)
  obtain ⟨n, hn, hcounts⟩ := hcounted
  have hfits : tupleLength n items.length rest.isSome vs.length = none ↔ n ≤ vs.length := by
    rw [tupleLength_eq_none]
    exact and_iff_left fun _ => Nat.le_of_lt hshort
  simp only [Meaning.form, hform]
  rw [Meaning.tuple_accepts, ← hcounts]
  constructor
  · rintro ⟨vs', n', ws, hvs', hn', hlength, hws, rfl⟩
    cases hvs.symm.trans hvs'
    cases (hn.answer rfl).symm.trans hn'
    exact ⟨hfits.1 hlength, ws, (hfree.accepts_iff hparts).1 hws, rfl⟩
  · rintro ⟨hle, ws, hws, rfl⟩
    exact ⟨vs, n, ws, hvs, hn.answer rfl, hfits.2 hle, (hfree.accepts_iff hparts).2 hws, rfl⟩

/-- A tuple without functions may be shorter than its positions exactly by those that declare that
they accept an absent value and do. This takes the positions that are there to be accepted, and what
is put together from all of them to pass the checks of the tuple, if it has any. -/
theorem omitted_positions_accept (hfree : s.IsFunctionFree host σ)
    (hform : s.form = .tuple items rest) (hvs : v.items? = some vs)
    (hshort : vs.length < items.length)
    (hpresent : ∀ p ∈ items.zip vs, ∃ w, p.1.AcceptsAs host σ ctx p.2 w) :
    (∃ w, s.AcceptsAs host σ ctx v w) ↔
      (∀ t ∈ items.drop vs.length, t.DeclaresAbsent host σ ∧
        ∃ w, t.AcceptsAs host σ ctx .missing w) ∧
      ∀ ws, AcceptsEach host σ ctx (tupleItems rest items vs) ws →
        ∃ w, Meaning.checksFrom host σ ctx s.checks
          (.ok (.tuple (Meaning.tupleOutput vs.length ws))) = .ok (.ok w) := by
  have hchecks : s.allChecks = s.checks := Schema.allChecks_of_untagged (by rw [hform]; rfl)
  have hsplit : tupleItems rest items vs =
      items.zip vs ++ (items.drop vs.length).map fun t => (t, .missing) :=
    tupleItems_of_length_le (Nat.le_of_lt hshort)
  have haccepts (w : Value) : s.AcceptsAs host σ ctx v w ↔
      (∀ t ∈ items.drop vs.length, t.DeclaresAbsent host σ) ∧
        ∃ ws, AcceptsEach host σ ctx (tupleItems rest items vs) ws ∧
          Meaning.checksFrom host σ ctx s.checks
            (.ok (.tuple (Meaning.tupleOutput vs.length ws))) = .ok (.ok w) := by
    rw [hfree.acceptsAs_iff, alone_accepts hfree.self.own, hchecks]
    simp only [hfree.tuple_accepts hform hvs hshort]
    constructor
    · rintro ⟨u, ⟨hdeclare, ws, hws, rfl⟩, hw⟩
      exact ⟨hdeclare, ws, hws, hw⟩
    · rintro ⟨hdeclare, ws, hws, hw⟩
      exact ⟨_, ⟨hdeclare, ws, hws, rfl⟩, hw⟩
  simp only [haccepts]
  constructor
  · rintro ⟨w, hdeclare, ws, hws, hw⟩
    refine ⟨fun t ht => ⟨hdeclare t ht, ?_⟩, fun ws' hws' => ⟨w, hws.unique hws' ▸ hw⟩⟩
    refine exists_forall₂_iff.1 ⟨ws, hws⟩ (t, .missing) ?_
    rw [hsplit]
    exact List.mem_append_right _ (List.mem_map_of_mem ht)
  · rintro ⟨homitted, hpass⟩
    obtain ⟨ws, hws⟩ : ∃ ws, AcceptsEach host σ ctx (tupleItems rest items vs) ws := by
      refine exists_forall₂_iff.2 fun p hp => ?_
      rw [hsplit] at hp
      rcases List.mem_append.1 hp with hp | hp
      · exact hpresent p hp
      · obtain ⟨t, ht, rfl⟩ := List.mem_map.1 hp
        exact (homitted t ht).2
    obtain ⟨w, hw⟩ := hpass ws hws
    exact ⟨w, fun t ht => (homitted t ht).1, ws, hws, hw⟩

end

namespace Trailing

open Stock (hostThat)

variable {host : Host}

theorem text_isFunctionFree : text.IsFunctionFree host {} :=
  .of_parts (.of_silent rfl rfl) nofun

theorem perhaps_isFunctionFree : perhaps.IsFunctionFree host {} :=
  .of_parts (.of_silent rfl rfl) (List.forall_mem_singleton.2 text_isFunctionFree)

theorem pair_isFunctionFree : (pair text perhaps).IsFunctionFree host {} :=
  .of_parts (.of_silent rfl rfl)
    (List.forall_mem_cons.2 ⟨text_isFunctionFree, List.forall_mem_singleton.2 perhaps_isFunctionFree⟩)

end Trailing

open Trailing Stock in
/-- A text that may be absent is left out. -/
theorem omitted_positions_accept_pair :
    ∃ w, (pair text perhaps).AcceptsAs (hostThat false) {} {} (.list [.str "a"]) w := by
  have hform : (pair text perhaps).form = .tuple [text, perhaps] none := rfl
  have hvs : Value.items? (.list [.str "a"]) = some [.str "a"] := rfl
  have hpresent : ∀ p ∈ [text, perhaps].zip [.str "a"],
      ∃ w, p.1.AcceptsAs (hostThat false) {} {} p.2 w :=
    List.forall_mem_singleton.2 ⟨.str "a", rfl⟩
  refine (omitted_positions_accept pair_isFunctionFree hform hvs (by decide) hpresent).2 ⟨?_, ?_⟩
  · exact List.forall_mem_singleton.2 ⟨rfl, .missing, rfl⟩
  · exact fun ws _ => ⟨_, rfl⟩

open Samples Stock in
/-- Anything may be absent, but a tuple does not let it be left out. -/
theorem undeclared_position_required :
    (∃ w, anything.AcceptsAs (hostThat false) {} {} .missing w) ∧
      ¬ ∃ w, (bare "tuple" (.tuple [anything] none)).AcceptsAs (hostThat false) {} {} (.list []) w := by
  refine ⟨⟨.missing, rfl⟩, ?_⟩
  rintro ⟨w, hw⟩
  cases hw

end Assay
