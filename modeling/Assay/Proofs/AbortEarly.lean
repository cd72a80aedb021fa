import Assay.Proofs.Abridging
import Assay.Proofs.Adequacy
import Assay.Proofs.Sources
import Assay.Proofs.StockFunctions

/-!
# Stopping at the first issue

A parse that stops at the first issue and one that goes on are read side by side. Where the full
one has a meaning, the meaning of the early one is an abridgment of it (`meaning_cuts`): the same
output, or one issue with the outline of the first (`abort_early_reports_first`).
-/

namespace Assay

variable {host : Host} {σ : Session} {ctx : Context} {thorough : Bool}

/-! ## Positions -/

section

variable {full early : Schema Value → Value → Except Fault Result}

/-- The positions up to the first that fails. -/
theorem inOrder_shortens {ps : List (Schema Value × Value)}
    (h : ∀ p ∈ ps, Cuts (full p.1 p.2) (early p.1 p.2)) {rs : List Result}
    (hrs : Meaning.each full ps = .ok rs) :
    rs.length = ps.length ∧ ∃ as, Meaning.inOrder early ps = .ok as ∧ Shortens rs as := by
  induction ps generalizing rs with
  | nil =>
    cases hrs
    exact ⟨rfl, [], rfl, .nil⟩
  | cons p ps ih =>
    obtain ⟨r, hr, hrs⟩ := bind_eq_ok.1 hrs
    obtain ⟨rest, hrest, hrs⟩ := bind_eq_ok.1 hrs
    cases hrs
    obtain ⟨a, ha, habridges⟩ := h p (List.mem_cons_self ..) r hr
    obtain ⟨hlength, as, has, hshort⟩ := ih (fun q hq => h q (List.mem_cons_of_mem _ hq)) hrest
    refine ⟨by simp [hlength], ?_⟩
    rw [Meaning.inOrder, ha]
    cases hvalid : r.valid with
    | true =>
      obtain rfl := habridges.eq_of_valid hvalid
      refine ⟨a :: as, ?_, .valid hvalid hshort⟩
      simp [has, hvalid, bind, Except.bind, pure, Except.pure]
    | false =>
      have ha' : a.valid = false := habridges.valid_eq.trans hvalid
      exact ⟨[a], by simp [ha', bind, Except.bind, pure, Except.pure], .failed hvalid habridges⟩

/-- Going on from the positions. -/
theorem items_cuts {ps : List (Schema Value × Value)}
    (h : ∀ p ∈ ps, Cuts (full p.1 p.2) (early p.1 p.2)) {f g : List Result → Except Fault Result}
    (hfg : ∀ rs as, rs.length = ps.length → Shortens rs as → Cuts (f rs) (g as)) :
    Cuts (Meaning.items full (ctx.stopping false) ps >>= f)
      (Meaning.items early (ctx.stopping true) ps >>= g) := by
  intro r hr
  obtain ⟨rs, hrs, hr⟩ := bind_eq_ok.1 hr
  obtain ⟨hlength, as, has, hshort⟩ := inOrder_shortens h hrs
  obtain ⟨a, ha, habridges⟩ := hfg rs as hlength hshort r hr
  exact ⟨a, bind_eq_ok.2 ⟨as, has, ha⟩, habridges⟩

/-- The options of a union. -/
theorem options_cuts {schemas : List (Schema Value)} {v : Value}
    (h : ∀ t ∈ schemas, Cuts (full t v) (early t v)) {rs : List Result}
    (hrs : Meaning.options full thorough v schemas = .ok rs) :
    ∃ as, Meaning.options early thorough v schemas = .ok as ∧
      List.Forall₂ Result.AbridgesTo rs as := by
  induction schemas generalizing rs with
  | nil =>
    cases hrs
    exact ⟨[], rfl, .nil⟩
  | cons t schemas ih =>
    obtain ⟨r, hr, hrs⟩ := bind_eq_ok.1 hrs
    obtain ⟨a, ha, habridges⟩ := h t (List.mem_cons_self ..) r hr
    rw [Meaning.options, ha]
    dsimp only [bind, Except.bind]
    rw [habridges.valid_eq]
    split at hrs
    · rename_i hstop
      cases hrs
      exact ⟨[a], by rw [if_pos hstop]; rfl, .cons habridges .nil⟩
    · rename_i hstop
      obtain ⟨rest, hrest, hrs⟩ := bind_eq_ok.1 hrs
      cases hrs
      obtain ⟨as, has, hall⟩ := ih (fun u hu => h u (List.mem_cons_of_mem _ hu)) hrest
      exact ⟨a :: as, by rw [if_neg hstop, has]; rfl, .cons habridges hall⟩

end

/-! ## Checks -/

/-- Checks one after the other: the early reading halts at the first that fails. -/
theorem checksFrom_cuts {cs : List Value}
    (hcs : ∀ c, .check c ∈ cs → ∀ fn, c.rule ≠ .superRefinement fn) (v : Value) :
    Cuts (Meaning.checksFrom host σ (ctx.stopping false) cs ⟨v, []⟩)
      (Meaning.checksFrom host σ (ctx.stopping true) cs ⟨v, []⟩) := by
  induction cs generalizing v with
  | nil => exact .of_result (.ok v)
  | cons c cs ih =>
    refine Cuts.bind fun outcome houtcome => ?_
    have hbrief : outcome.AbridgesTo outcome :=
      (check_atomic (fun d hd => hcs d (hd ▸ List.mem_cons_self ..)) houtcome).abridges
    obtain ⟨w, is⟩ := outcome
    dsimp only [Result.merge, List.nil_append]
    by_cases his : is = []
    · subst his
      exact ih (fun d hd => hcs d (List.mem_cons_of_mem _ hd)) w
    · have hstop : halts (ctx.stopping true) c ⟨w, is⟩ = true := by
        simp [halts, Context.stopping, Result.valid, his]
      rw [if_pos hstop]
      split
      · exact .of_result hbrief
      · intro r hr
        obtain ⟨more, hmore⟩ := Meaning.checksFrom_issues hr
        refine ⟨_, rfl, .of_issues ?_ fun hnil => ?_⟩
        · rw [hmore, outlineFirst_append his]
          exact hbrief.1
        · exact absurd (List.append_eq_nil_iff.1 (hmore.symm.trans hnil)).1 his

theorem checks_cuts {s : Schema Value}
    (hs : ∀ c, .check c ∈ s.checks → ∀ fn, c.rule ≠ .superRefinement fn)
    {full early : Except Fault Result} (h : Cuts full early) :
    Cuts (full >>= Meaning.checks host σ (ctx.stopping false) s)
      (early >>= Meaning.checks host σ (ctx.stopping true) s) := by
  refine h.next (fun r hr => ?_) fun r a hr ha => ?_
  · obtain ⟨v, is⟩ := r
    obtain rfl : is = [] := Result.valid_iff.1 hr
    rw [Meaning.checks, Meaning.checks, if_pos hr, if_pos hr]
    refine checksFrom_cuts (fun c hc => hs c ?_) v
    unfold Schema.allChecks at hc
    split at hc
    · simpa using hc
    · exact hc
  · rw [Meaning.checks, Meaning.checks, if_neg (by simp [hr]),
      if_neg (by simp [ha.valid_eq.trans hr])]
    exact .of_result ha

/-! ## Forms -/

section

variable {s : Schema Value} {v : Value} {full early : Schema Value → Value → Except Fault Result}

theorem object_cuts {shape : List (Value × Schema Value)} {policy : UnknownKeys}
    {catchall : Option (Schema Value)}
    (h : ∀ t ∈ shape.map (·.2) ++ catchall.toList, ∀ w, Cuts (full t w) (early t w)) :
    Cuts (Meaning.object (ctx.stopping false) full s shape policy catchall v)
      (Meaning.object (ctx.stopping true) early s shape policy catchall v) := by
  unfold Meaning.object
  cases v.entries? with
  | none => exact .of_result (Result.Atomic.wrongType s v _).abridges
  | some data =>
    refine items_cuts (fun p hp => h p.1 (objectItems_parts shape catchall data p hp) p.2)
      fun rs as hlength hshort => .of_result (object_abridges hshort ?_ s policy _ v _)
    simpa using Nat.le_of_eq hlength

theorem array_cuts {element : Schema Value} (h : ∀ w, Cuts (full element w) (early element w)) :
    Cuts (Meaning.array (ctx.stopping false) full s element v)
      (Meaning.array (ctx.stopping true) early s element v) := by
  unfold Meaning.array
  cases v.items? with
  | none => exact .of_result (Result.Atomic.wrongType s v _).abridges
  | some vs =>
    refine items_cuts (fun p hp => ?_) fun rs as _ hshort => .of_result (array_abridges hshort)
    obtain ⟨w, -, rfl⟩ := List.mem_map.1 hp
    exact h w

theorem tuple_cuts {required : Except Fault Nat} {schemas : List (Schema Value)}
    {rest : Option (Schema Value)}
    (h : ∀ t ∈ schemas ++ rest.toList, ∀ w, Cuts (full t w) (early t w)) :
    Cuts (Meaning.tuple (ctx.stopping false) full required s schemas rest v)
      (Meaning.tuple (ctx.stopping true) early required s schemas rest v) := by
  unfold Meaning.tuple
  cases v.items? with
  | none => exact .of_result (Result.Atomic.wrongType s v _).abridges
  | some vs =>
    refine .bind fun n _ => ?_
    cases hlength : Structure.tupleLength n schemas.length rest.isSome vs.length with
    | some detail => exact .of_result (Result.Atomic.failed s v (tupleLength_flat hlength)).abridges
    | none =>
      exact items_cuts (fun p hp => h p.1 (tupleItems_parts rest schemas vs p hp) p.2)
        fun rs as _ hshort => .of_result (tuple_abridges hshort vs.length)

theorem record_cuts {keyType valueType : Schema Value}
    (hkey : ∀ w, Cuts (full keyType w) (early keyType w))
    (hvalue : ∀ w, Cuts (full valueType w) (early valueType w)) :
    Cuts (Meaning.record (ctx.stopping false) full s keyType valueType v)
      (Meaning.record (ctx.stopping true) early s keyType valueType v) := by
  unfold Meaning.record
  cases v.entries? with
  | none => exact .of_result (Result.Atomic.wrongType s v _).abridges
  | some data =>
    dsimp only
    split
    · rename_i allowed _
      split
      · exact .error
      · refine items_cuts (fun p hp => ?_) fun rs as hlength hshort =>
          .of_result (enumeratedRecord_abridges hshort ?_ s v data)
        · obtain ⟨k, -, rfl⟩ := List.mem_map.1 hp
          exact hvalue _
        · simpa [Structure.enumeratedItems] using Nat.le_of_eq hlength
    · refine items_cuts (fun p hp => ?_) fun rs as _ hshort =>
        entries_cuts (recordReport_abridges s) _ hshort rfl []
      rcases entryItems_parts keyType valueType data p hp with h | h <;> rw [h]
      · exact hkey _
      · exact hvalue _

theorem map_cuts {keyType valueType : Schema Value}
    (hkey : ∀ w, Cuts (full keyType w) (early keyType w))
    (hvalue : ∀ w, Cuts (full valueType w) (early valueType w)) :
    Cuts (Meaning.map (ctx.stopping false) full s keyType valueType v)
      (Meaning.map (ctx.stopping true) early s keyType valueType v) := by
  unfold Meaning.map
  cases v.entries? with
  | none => exact .of_result (Result.Atomic.wrongType s v _).abridges
  | some data =>
    refine items_cuts (fun p hp => ?_) fun rs as _ hshort =>
      entries_cuts (mapReport_abridges s) _ hshort rfl []
    rcases entryItems_parts keyType valueType data p hp with h | h <;> rw [h]
    · exact hkey _
    · exact hvalue _

theorem set_cuts {element : Schema Value} (h : ∀ w, Cuts (full element w) (early element w)) :
    Cuts (Meaning.set (ctx.stopping false) full s element v)
      (Meaning.set (ctx.stopping true) early s element v) := by
  unfold Meaning.set
  split
  case h_3 => exact .of_result (Result.Atomic.wrongType s _ _).abridges
  all_goals
    refine items_cuts (fun p hp => ?_) fun rs as _ hshort => setResult_cuts hshort
    obtain ⟨w, -, rfl⟩ := List.mem_map.1 hp
    exact h w

theorem union_cuts {schemas : List (Schema Value)}
    (h : ∀ t ∈ schemas, ∀ w, Cuts (full t w) (early t w)) :
    Cuts (do return unionResult s v (← Meaning.options full thorough v schemas))
      (do return unionResult s v (← Meaning.options early thorough v schemas)) := by
  intro r hr
  obtain ⟨rs, hrs, hr⟩ := bind_eq_ok.1 hr
  cases hr
  obtain ⟨as, has, hall⟩ := options_cuts (fun t ht => h t ht v) hrs
  exact ⟨_, by rw [has]; rfl, unionResult_abridges hall s v⟩

theorem discriminated_cuts {schemas : List (Schema Value)} {discriminator : Value}
    {table : List (Value × Nat)} (h : ∀ t ∈ schemas, ∀ w, Cuts (full t w) (early t w)) :
    Cuts (Meaning.discriminated σ full s schemas discriminator table v)
      (Meaning.discriminated σ early s schemas discriminator table v) := by
  unfold Meaning.discriminated
  cases v.entries? with
  | none => exact .of_result (Result.Atomic.wrongType s v _).abridges
  | some data =>
    refine .bind fun k _ => ?_
    dsimp only
    cases hoption : pickOption schemas table ((data.find? k).getD .missing) with
    | some option => exact h option (pickOption_mem hoption) v
    | none => exact .of_result (.of_issues rfl fun hr => nomatch hr)

theorem caught_cuts {fallback : Value} (hfallback : fallback.isCallable = false)
    {m n : Except Fault Result} (h : Cuts m n) :
    Cuts (m >>= Meaning.caught host σ (ctx.stopping false) fallback v)
      (n >>= Meaning.caught host σ (ctx.stopping true) fallback v) := by
  refine h.next (fun r hr => ?_) fun r a hr ha => ?_
  · obtain ⟨w, is⟩ := r
    obtain rfl : is = [] := Result.valid_iff.1 hr
    rw [Meaning.caught, Meaning.caught, if_pos hr]
    exact .of_result (.ok w)
  · have hra : a.valid = false := ha.valid_eq.trans hr
    simp only [Meaning.caught, hr, hra, hfallback, Bool.false_eq_true, if_false]
    exact .of_result (.ok fallback)

/-- The form of a schema, when what the schema holds and stands for is cut. -/
theorem form_cuts {s₀ : Schema Value} (hplain : s₀.IsPlain host σ) (hs : s₀.Reaches host σ s)
    (h : ∀ t, s₀.Reaches host σ t → ∀ w, Cuts (full t w) (early t w)) (fuel : Nat) :
    Cuts (Meaning.form host σ (ctx.stopping false) thorough full fuel s v)
      (Meaning.form host σ (ctx.stopping true) thorough early fuel s v) := by
  have hparts : ∀ t ∈ s.form.parts, ∀ w, Cuts (full t w) (early t w) :=
    fun t ht => h t (.part hs ht)
  unfold Meaning.form
  cases hform : s.form with
  | string coerce => exact .of_result (require_atomic ..).abridges
  | format f coerce abort => exact .of_result (require_atomic ..).abridges
  | number coerce => exact .of_result (number_atomic ..).abridges
  | integer coerce abort => exact .of_result (number_atomic ..).abridges
  | boolean coerce => exact .of_result (require_atomic ..).abridges
  | date coerce => exact .of_result (date_atomic ..).abridges
  | null => exact .of_result (require_atomic ..).abridges
  | any => exact .of_result (.ok v)
  | unknown => exact .of_result (.ok v)
  | never => exact .of_result (Result.Atomic.wrongType s v _).abridges
  | literal values => exact .of_result (literal_atomic ..).abridges
  | enumeration entries cls => exact .of_result (enumeration_atomic ..).abridges
  | object shape policy catchall => exact object_cuts fun t ht => hparts t (by rwa [hform])
  | array element => exact array_cuts (hparts element (by simp [hform, Form.parts]))
  | tuple schemas rest => exact tuple_cuts fun t ht => hparts t (by rwa [hform])
  | record k w =>
    exact record_cuts (hparts k (by simp [hform, Form.parts])) (hparts w (by simp [hform, Form.parts]))
  | map k w =>
    exact map_cuts (hparts k (by simp [hform, Form.parts])) (hparts w (by simp [hform, Form.parts]))
  | set element => exact set_cuts (hparts element (by simp [hform, Form.parts]))
  | union schemas => exact union_cuts fun t ht => hparts t (by rwa [hform])
  | discriminatedUnion schemas d table =>
    exact discriminated_cuts fun t ht => hparts t (by rwa [hform])
  | intersection l r =>
    refine items_cuts (fun p hp => ?_) fun rs as _ hshort => intersection_cuts hshort v
    rcases List.mem_pair.1 hp with rfl | rfl
    · exact hparts l (by simp [hform, Form.parts]) v
    · exact hparts r (by simp [hform, Form.parts]) v
  | optional inner =>
    have hinner := hparts inner (by simp [hform, Form.parts])
    dsimp only
    split
    · exact .of_result (.ok _)
    · exact hinner v
  | nullable inner =>
    have hinner := hparts inner (by simp [hform, Form.parts])
    dsimp only
    split
    · exact .of_result (.ok _)
    · exact hinner v
  | default inner d =>
    have hinner := hparts inner (by simp [hform, Form.parts])
    dsimp only
    split
    · exact .bind fun w _ => .of_result (.ok w)
    · exact hinner v
  | prefault inner d =>
    have hinner := hparts inner (by simp [hform, Form.parts])
    dsimp only
    split
    · exact .bind fun w _ => hinner w
    · exact hinner v
  | catching inner fallback =>
    exact caught_cuts (hplain.fallbacks s hs inner fallback hform)
      (hparts inner (by simp [hform, Form.parts]) v)
  | readonly inner =>
    refine (hparts inner (by simp [hform, Form.parts]) v).next (fun r hr => ?_) fun r a hr ha => ?_
    · rw [if_pos hr]
      exact .of_result (.ok _)
    · rw [if_neg (by simp [hr]), if_neg (by simp [ha.valid_eq.trans hr])]
      exact .of_result ha
  | promise inner =>
    have hinner := hparts inner (by simp [hform, Form.parts])
    dsimp only
    split
    · exact .error
    · exact hinner v
  | transform fn => exact .of_atomic (.schema s) fun r => promptly_atomic _ (hplain.transforms s hs fn hform _)
  | pipe source target =>
    refine (hparts source (by simp [hform, Form.parts]) v).next (fun r hr => ?_) fun r a hr ha => ?_
    · rw [if_pos hr, if_pos hr]
      exact hparts target (by simp [hform, Form.parts]) r.value
    · rw [if_neg (by simp [hr]), if_neg (by simp [ha.valid_eq.trans hr])]
      exact .of_result ha
  | lazy getter name => exact .bind fun t ht => h t (.lazily hs hform ht) v
  | custom fn params => exact .of_atomic (.schema s) fun r => custom_atomic
  | generic => exact .error

end

/-- The early meaning of a plain schema is an abridgment of its full meaning. -/
theorem meaning_cuts {s₀ : Schema Value} (hplain : s₀.IsPlain host σ) (fuel : Nat) :
    ∀ s, s₀.Reaches host σ s → ∀ v,
      Cuts (meaning host σ (ctx.stopping false) thorough fuel s v)
        (meaning host σ (ctx.stopping true) thorough fuel s v) := by
  induction fuel with
  | zero => exact fun s _ v => .error
  | succ fuel ih =>
    intro s hs v
    rw [meaning, meaning]
    refine .bind fun fn hfn => ?_
    obtain rfl := hplain.evaluators s hs fn hfn
    exact checks_cuts (hplain.checks s hs) (form_cuts hplain hs ih fuel)

/-! ## Parses -/

/-- Both parses accept the value with the same output, or both reject it, the second with one
issue that has the outline of the first issue of the first. -/
def Parsed.AbridgesTo : Parsed → Parsed → Prop
  | .accepted w, .accepted w' => w' = w
  | .rejected is, .rejected js =>
    ∃ i rest j, is = i :: rest ∧ js = [j] ∧ j.unworded false = i.outline
  | _, _ => False

/-- Words do not change outlines. -/
theorem outlineFirst_congr {b : Bool} {is js : List (Issue Value)}
    (h : unwordedAll b is = unwordedAll b js) : outlineFirst is = outlineFirst js := by
  rw [← outlineFirst_unworded (b := b) is, h, outlineFirst_unworded]

theorem unwordedAll_congr {b : Bool} {is js : List (Issue Value)}
    (h : unwordedAll b is = unwordedAll b js) : unwordedAll false is = unwordedAll false js := by
  rw [← unwordedAll_unworded (b := b) is, h, unwordedAll_unworded]

/-- Concluding a result and its abridgment. -/
theorem conclude_abridges {ctx ctx' : Context} {τ : Session} {r a : Result} {p q : Parsed}
    (h : r.AbridgesTo a) (hp : (conclude host ctx r).answer σ = .ok p)
    (hq : (conclude host ctx' a).answer τ = .ok q) : p.AbridgesTo q := by
  have hfull := conclude_answer hp
  have hearly := conclude_answer hq
  cases p with
  | accepted w =>
    obtain ⟨hr, rfl⟩ := hfull
    obtain rfl := h.eq_of_valid hr
    cases q with
    | accepted w' => exact hearly.2
    | rejected js => exact absurd hr (by simp [hearly.1])
  | rejected is =>
    obtain ⟨hr, his⟩ := hfull
    cases q with
    | accepted w' => exact absurd hearly.1 (by simp [h.valid_eq, hr])
    | rejected js =>
      have houtline : unwordedAll false js = outlineFirst is := by
        rw [unwordedAll_congr hearly.2, h.1, outlineFirst_congr his]
      have hne : is ≠ [] := by
        rintro rfl
        exact Result.invalid_iff.1 hr (List.map_eq_nil_iff.1 (unwordedAll_eq_map _ _ ▸ his.symm))
      obtain ⟨i, rest, rfl⟩ := List.exists_cons_of_ne_nil hne
      obtain ⟨j, js, rfl⟩ := List.exists_cons_of_ne_nil (unwordedAll_ne_nil houtline hne)
      obtain ⟨hj, hjs⟩ := List.cons.inj houtline
      exact ⟨i, rest, j, rfl, by rw [unwordedAll_eq_nil hjs], hj⟩

variable {τ : Session} {s : Schema Value} {v : Value} {p : Parsed}

/-- A parse that stops at the first issue accepts what the full parse accepts, with the same
output, and else reports one issue: the first of the full parse, with each group of nested issues
cut down to its first, and so on inside. If message providers answer it does come to that. -/
theorem abort_early_reports_first (hpure : s.IsPure host σ) (hplain : s.IsPlain host σ)
    (hfull : (safeParse host ((ctx.stopping false).mayWait false) s v).answer σ = .ok p)
    (hτ : σ.Like host s τ) :
    (∀ q, (safeParse host ((ctx.stopping true).mayWait false) s v).answer τ = .ok q →
      p.AbridgesTo q) ∧
    ((∃ w, p = .accepted w) ∨ s.Answers host σ ctx →
      ∃ q, (safeParse host ((ctx.stopping true).mayWait false) s v).answer τ = .ok q) := by
  have hsettled := hpure.settled
  have hanswer : ∀ b, (safeParse host ((ctx.stopping b).mayWait false) s v).answer τ =
      Meaning.parsed host σ (ctx.stopping b) false s v :=
    fun b => (safeParse_gives hsettled (hpure.words_fixed _) .self v).answer hτ
  rw [(safeParse_gives hsettled (hpure.words_fixed _) .self v).answer hsettled.here] at hfull
  rw [hanswer]
  obtain ⟨r, hr, hp⟩ := bind_eq_ok.1 hfull
  obtain ⟨a, ha, habridges⟩ := meaning_cuts hplain s.budget s .self v r hr
  have hparsed : Meaning.parsed host σ (ctx.stopping true) false s v =
      (conclude host (ctx.stopping true) a).answer σ := by
    rw [Meaning.parsed, ha]
    rfl
  rw [hparsed]
  refine ⟨fun q hq => conclude_abridges habridges hp hq, ?_⟩
  rintro (⟨w, rfl⟩ | hanswers)
  · have hvalid : r.valid = true := (conclude_answer hp).1
    rw [conclude_valid (habridges.valid_eq.trans hvalid)]
    exact ⟨_, rfl⟩
  · have hanswers' : s.Answers host σ (ctx.stopping true) :=
      ⟨hanswers.schemas, hanswers.checks, hanswers.parse, hanswers.config, hanswers.locale⟩
    refine hanswers'.context.conclude hpure (meaning_sourced hplain (fun t ht => ?_) s.budget s .self v a ha)
    exact ⟨hanswers.schemas t ht, hanswers.checks t ht⟩

/-! ## Texts with two faults -/

namespace Faulty

open Stock (hostThat)

/-- Texts of three characters at least that start with an a. -/
def text : Schema Value :=
  ⟨0, .str "string", .string .null, [],
    [.check ⟨1, .atLeast .length 3, .null, .null⟩, .check ⟨2, .startsWith (.str "a"), .null, .null⟩],
    .null⟩

/-- Such a text, as the one option of a union. -/
def option : Schema Value := ⟨3, .str "union", .union [text], [], [], .null⟩

/-- Two such texts. -/
def pair : Schema Value := ⟨4, .str "tuple", .tuple [option, text] none, [], [], .null⟩

/-- Texts that are too short and start with another letter. -/
def value : Value := .list [.str "b", .str "c"]

theorem reached_cases {t : Schema Value} (h : pair.Reaches (hostThat false) {} t) :
    t = pair ∨ t = option ∨ t = text := by
  induction h with
  | self => exact .inl rfl
  | @part t u _ hu ih =>
    rcases ih with rfl | rfl | rfl
    · have hu : u ∈ [option, text] := hu
      exact .inr (List.mem_pair.1 hu)
    · exact .inr (.inr (List.mem_singleton.1 hu))
    · cases hu
  | lazily _ hform _ ih => rcases ih with rfl | rfl | rfl <;> cases hform

theorem pair_isPure : pair.IsPure (hostThat false) {} where
  functions t ht fn hfn := by rcases reached_cases ht with rfl | rfl | rfl <;> cases hfn
  evaluators t ht fn hfn := by
    rcases reached_cases ht with rfl | rfl | rfl <;> (cases hfn; trivial)
  providers f i τ _ := Stock.wording_exec f i {} τ
  defaults t ht d hd := by rcases reached_cases ht with rfl | rfl | rfl <;> cases hd
  lazies t u getter name getter' name' ht _ hform := by
    rcases reached_cases ht with rfl | rfl | rfl <;> cases hform
  settings := Stock.host_settings
  prompt _ _ _ := rfl

theorem pair_isPlain : pair.IsPlain (hostThat false) {} where
  evaluators t ht fn hfn := by
    rcases reached_cases ht with rfl | rfl | rfl <;> (cases hfn; rfl)
  checks t ht c hc fn hrule := by
    rcases reached_cases ht with rfl | rfl | rfl
    · cases hc
    · cases hc
    · have hc : Value.check c ∈ text.checks := hc
      simp only [text, List.mem_cons, Value.check.injEq, List.not_mem_nil, or_false] at hc
      rcases hc with rfl | rfl <;> cases hrule
  transforms t ht fn hform := by rcases reached_cases ht with rfl | rfl | rfl <;> cases hform
  fallbacks t ht inner fallback hform := by
    rcases reached_cases ht with rfl | rfl | rfl <;> cases hform

end Faulty

open Faulty Stock in
/-- The full parse finds the two faults of both texts, the first two inside the issue of the
union; of these the other parse reports one, inside the issue of the union. -/
theorem abort_early_reports_first_pair : ∃ is js,
    (safeParse (hostThat false) ((Context.stopping {} false).mayWait false) pair value).answer {} =
        .ok (.rejected is) ∧
      (safeParse (hostThat false) ((Context.stopping {} true).mayWait false) pair value).answer {} =
        .ok (.rejected js) ∧
      is.length = 3 ∧ (Parsed.rejected is).AbridgesTo (.rejected js) :=
  ⟨_, _, rfl, rfl, rfl,
    (@abort_early_reports_first (hostThat false) {} {} {} pair value _ pair_isPure pair_isPlain rfl
      (.refl ..)).1 _ rfl⟩

end Assay
