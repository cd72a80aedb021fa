import Assay.Proofs.Assembling
import Assay.Proofs.Keeping

/-!
# Structures that specialize each other

Some structures are special cases of others: an object with certain keys and no others is a record
with these keys listed, an array is a tuple of a rest alone, an object of a catchall alone is a
record with any keys, and a record is a map that reports issues in another way (`Specializes`).
Although each is put together on its own, their parses agree, whether they stop early or not
(`specialized_agree`): both accept or both reject, and the outputs and the issues of one are given
by those of the other. The object of a catchall leaves out entries without an output, which the
record keeps (`record_keeps_absent`).
-/

namespace Assay

open Run Structure

variable {host : Host} {σ : Session} {ctx : Context}

/-! ## Agreement -/

/-- Both results are valid, with outputs in the relation, or neither is. But for their messages and
sources the issues of the second are made of those of the first. -/
structure Result.Agrees (keepInput : Bool) (outputs : Value → Value → Prop)
    (issues : List (Issue Value) → List (Issue Value)) (r q : Result) : Prop where
  valid : r.valid = q.valid
  outputs : r.valid = true → outputs r.value q.value
  issues : unwordedAll keepInput q.issues = unwordedAll keepInput (issues r.issues)

/-- Both parses accept, with outputs in the relation, or both reject, the second one with issues
that are made of those of the first, whatever their messages. -/
def Parsed.Agrees (keepInput : Bool) (outputs : Value → Value → Prop)
    (issues : List (Issue Value) → List (Issue Value)) : Parsed → Parsed → Prop
  | .accepted w, .accepted u => outputs w u
  | .rejected is, .rejected js => unwordedAll keepInput js = unwordedAll keepInput (issues is)
  | _, _ => False

/-- What the issues are made into does not depend on messages and sources. -/
def IgnoresWords (issues : List (Issue Value) → List (Issue Value)) : Prop :=
  ∀ b is js, unwordedAll b is = unwordedAll b js →
    unwordedAll b (issues is) = unwordedAll b (issues js)

/-- What is concluded from results that agree are parses that agree. -/
theorem Result.Agrees.conclude {outputs : Value → Value → Prop}
    {issues : List (Issue Value) → List (Issue Value)} (hwords : IgnoresWords issues) {r q : Result}
    (h : r.Agrees ctx.reportInput outputs issues q) {p p' : Parsed}
    (hp : (Assay.conclude host ctx r).answer σ = .ok p)
    (hp' : (Assay.conclude host ctx q).answer σ = .ok p') :
    p.Agrees ctx.reportInput outputs issues p' := by
  have hr := conclude_answer hp
  have hq := conclude_answer hp'
  cases p with
  | accepted w =>
    obtain ⟨hvalid, rfl⟩ := hr
    cases p' with
    | accepted u =>
      obtain ⟨-, rfl⟩ := hq
      exact h.outputs hvalid
    | rejected js =>
      rw [h.valid, hq.1] at hvalid
      cases hvalid
  | rejected is =>
    cases p' with
    | accepted u =>
      have hinvalid := hr.1
      rw [h.valid, hq.1] at hinvalid
      cases hinvalid
    | rejected js =>
      show unwordedAll ctx.reportInput js = unwordedAll ctx.reportInput (issues is)
      rw [hq.2, h.issues]
      exact hwords _ _ _ hr.2.symm

/-! ## Keys -/

/-- What stands at keys that differ has keys that differ. -/
theorem zip_apart {β : Type} {keys : List Value} (h : keys.Pairwise fun k l => k.isFound l = false)
    (bs : List β) : (keys.zip bs).Pairwise fun p q => p.1.isFound q.1 = false := by
  induction keys generalizing bs with
  | nil => exact .nil
  | cons k keys ih =>
    cases bs with
    | nil => exact .nil
    | cons b bs =>
      obtain ⟨hk, hkeys⟩ := List.pairwise_cons.1 h
      refine List.pairwise_cons.2 ⟨?_, ih hkeys bs⟩
      intro p hp
      exact hk p.1 (List.of_mem_zip hp).1

theorem outputs_distinct {keys : List Value}
    (h : keys.Pairwise fun k l => k.isFound l = false) (rs : List Result) :
    (outputs (placedAt keys rs)).Distinct := by
  refine List.Pairwise.filterMap _ ?_ (zip_apart h rs)
  intro p q hpq e he f hf
  obtain ⟨-, he⟩ := Option.ite_none_right_eq_some.1 he
  obtain ⟨-, hf⟩ := Option.ite_none_right_eq_some.1 hf
  cases he
  cases hf
  exact hpq

theorem texts_apart {names : List String} (h : names.Nodup) :
    (names.map Value.str).Pairwise fun k l => k.isFound l = false := by
  refine List.pairwise_map.2 (h.imp ?_)
  intro n m hnm
  simpa [Value.isFound] using hnm

/-! ## Listed keys -/

/-- The keys that a shape does not name are those that are not listed. -/
theorem unknownKeys_listed (keys : List Value) (value : Schema Value) (data : Entries) :
    (unknownKeys (keys.map fun k => (k, value)) data).map (·.1) =
      (data.map (·.1)).filter fun k => !k.isIn keys := by
  unfold unknownKeys
  rw [List.filter_map]
  congr 1
  apply List.filter_congr
  intro e _
  simp [Value.isIn, List.any_map, Function.comp_def]

/-- A record with listed keys, and an object with these keys that allows no others. -/
theorem enumeratedRecord_agrees {s t value : Schema Value} {keys : List Value}
    (hkeys : keys.Pairwise fun k l => k.isFound l = false) (v : Value) (data : Entries)
    (rs : List Result) :
    (enumeratedRecord s ctx keys v data (placedAt keys rs)).Agrees ctx.reportInput Eq id
      (object t ctx .strict false v (unknownKeys (keys.map fun k => (k, value)) data)
        (placedAt keys rs)) := by
  unfold enumeratedRecord object enumeratedOutputs
  rw [← unknownKeys_listed keys value data, Entries.ofList_of_distinct (outputs_distinct hkeys rs)]
  generalize unknownKeys (keys.map fun k => (k, value)) data = unknown
  generalize issuesUnder (placedAt keys rs) = found
  dsimp only
  rw [List.isEmpty_map, Bool.false_or]
  by_cases hstop : (ctx.abortEarly && !found.isEmpty) = true
  · -- Issues were found, and nothing is said about unknown keys.
    rw [if_pos hstop, if_pos (by rw [hstop, Bool.or_true])]
    refine ⟨rfl, fun hvalid => ?_, rfl⟩
    have hempty : found.isEmpty = true := hvalid
    simp [hempty] at hstop
  · rw [if_neg hstop]
    by_cases hunknown : unknown.isEmpty = true
    · rw [if_pos (by rw [hunknown, Bool.true_or]), if_pos hunknown]
      exact ⟨rfl, fun _ => rfl, rfl⟩
    · rw [if_neg (by simp [hunknown, hstop]), if_neg hunknown]
      refine ⟨?_, fun _ => rfl, ?_⟩
      · cases found <;> rfl
      · simp [unwordedAll_eq_map, Issue.unworded]

/-! ## Sequences -/

/-- An array, and a tuple of a rest alone. -/
theorem array_agrees {present : Nat} {rs : List Result} (h : rs.length ≤ present) (b : Bool) :
    (Structure.array rs).Agrees b (fun w u => ∃ ws, w = .list ws ∧ u = .tuple ws) id
      (Structure.tuple present rs) := by
  refine ⟨rfl, fun hvalid => ?_, rfl⟩
  have hnone : issuesUnder (indexed 0 rs) = [] := Result.valid_iff.1 hvalid
  obtain ⟨ws, rfl⟩ : ∃ ws : List Value, rs = ws.map .ok :=
    ⟨_, Result.eq_map_ok (valid_of_indexed hnone)⟩
  refine ⟨ws, ?_, ?_⟩
  · simp [Structure.array, Function.comp_def]
  · rw [Meaning.tuple_ok, Meaning.tupleOutput_of_length_le (by simpa using h)]

/-! ## Entries under keys that are left as they are -/

section

variable {recur : Schema Value → Value → Except Fault Result} {key value : Schema Value}
  {data : Entries}

/-- The results of keys that are accepted as they are, and of values, in turn. -/
def amongKeys (keys : List Value) (rs : List Result) : List Result :=
  (placedAt keys rs).flatMap fun p => [.ok p.1, p.2]

theorem each_amongKeys (hkey : ∀ k, recur key k = .ok (.ok k)) {rs : List Result}
    (h : Meaning.each recur (data.map fun e => (value, e.2)) = .ok rs) :
    Meaning.each recur (entryItems key value data) = .ok (amongKeys (data.map (·.1)) rs) := by
  induction data generalizing rs with
  | nil =>
    cases h
    rfl
  | cons e data ih =>
    obtain ⟨r, hr, h⟩ := bind_eq_ok.1 h
    obtain ⟨rest, hrest, h⟩ := bind_eq_ok.1 h
    cases h
    show Meaning.each recur ((key, e.1) :: (value, e.2) :: entryItems key value data) =
      .ok (.ok e.1 :: r :: amongKeys (data.map (·.1)) rest)
    simp only [Meaning.each, hkey, hr, ih hrest]
    rfl

theorem inOrder_amongKeys (hkey : ∀ k, recur key k = .ok (.ok k)) {rs : List Result}
    (h : Meaning.inOrder recur (data.map fun e => (value, e.2)) = .ok rs) :
    Meaning.inOrder recur (entryItems key value data) = .ok (amongKeys (data.map (·.1)) rs) := by
  induction data generalizing rs with
  | nil =>
    cases h
    rfl
  | cons e data ih =>
    obtain ⟨r, hr, h⟩ := bind_eq_ok.1 h
    have hkept : (Result.ok e.1).valid = true := rfl
    show Meaning.inOrder recur ((key, e.1) :: (value, e.2) :: entryItems key value data) = _
    simp only [Meaning.inOrder, hkey, hr, bind, Except.bind, hkept, if_true]
    by_cases hvalid : r.valid = true
    · rw [if_pos hvalid] at h
      obtain ⟨rest, hrest, h⟩ := bind_eq_ok.1 h
      cases h
      rw [if_pos hvalid, ih hrest]
      rfl
    · rw [if_neg hvalid] at h
      cases h
      rw [if_neg hvalid]
      simp [amongKeys, placedAt, pure, Except.pure]

/-- Where keys are accepted as they are, the values come to the same among the keys. -/
theorem items_amongKeys (hkey : ∀ k, recur key k = .ok (.ok k)) {rs : List Result}
    (h : Meaning.items recur ctx (data.map fun e => (value, e.2)) = .ok rs) :
    Meaning.items recur ctx (entryItems key value data) = .ok (amongKeys (data.map (·.1)) rs) := by
  unfold Meaning.items at h ⊢
  by_cases hstop : ctx.abortEarly = true
  · rw [if_pos hstop] at h ⊢
    exact inOrder_amongKeys hkey h
  · rw [if_neg hstop] at h ⊢
    exact each_amongKeys hkey h

end

/-- A record reports the issues of values at their keys. -/
theorem entries_amongKeys {s : Schema Value} {keys : List Value}
    (hkeys : ∀ k ∈ keys, k.isHashable = true) (rs : List Result) (acc : Result)
    (output : Entries) : ∃ es,
      entries (recordReport s) keys (amongKeys keys rs) acc output =
        .ok ⟨.dict es, acc.issues ++ issuesUnder (placedAt keys rs)⟩ ∧
      ∀ ws : List Value, rs = ws.map .ok →
        es = (keys.zip ws).foldl (fun out e => Entries.insert out e.1 e.2) output := by
  induction keys generalizing rs acc output with
  | nil =>
    refine ⟨output, ?_, fun ws _ => rfl⟩
    simp [placedAt, entries, issuesUnder]
  | cons k keys ih =>
    cases rs with
    | nil =>
      refine ⟨output, ?_, ?_⟩
      · simp [amongKeys, placedAt, entries, issuesUnder]
      · intro ws hws
        obtain rfl : ws = [] := List.map_eq_nil_iff.1 hws.symm
        rfl
    | cons r rs =>
      obtain ⟨hk, hkeys⟩ := List.forall_mem_cons.1 hkeys
      have hadded : addOutputs output (.ok k) r =
          .ok (if r.valid then Entries.insert output k r.value else output) := by
        unfold addOutputs insertComputed
        rw [if_pos hk]
        cases r.valid <;> rfl
      obtain ⟨es, hes, hfold⟩ := ih hkeys rs
        { acc with issues := acc.issues ++ ((recordReport s).ofKey k (.ok k) ++
          (recordReport s).ofValue k r) }
        (if r.valid then Entries.insert output k r.value else output)
      refine ⟨es, ?_, ?_⟩
      · show entries (recordReport s) (k :: keys) (.ok k :: r :: amongKeys keys rs) acc output = _
        rw [entries, hadded]
        refine hes.trans ?_
        have hfound : (recordReport s).ofValue k r = r.issues.map (Issue.under [k]) := by
          unfold EntryReport.ofValue
          by_cases hvalid : r.valid = true
          · rw [if_pos hvalid, Result.valid_iff.1 hvalid]
            rfl
          · rw [if_neg hvalid]
            rfl
        simp [hfound, EntryReport.ofKey, Result.valid, issuesUnder, placedAt]
      · rintro ws hws
        cases ws with
        | nil => cases hws
        | cons w ws =>
          obtain ⟨rfl, hrs⟩ := List.cons.inj hws
          exact hfold ws hrs

/-- The second mapping has the entries of the first that have a value. -/
def LeavesOutAbsent (w u : Value) : Prop :=
  ∃ es : Entries, w = .dict es ∧ u = .dict es.present

/-- A record with keys that are left as they are, and an object of a catchall alone. -/
theorem record_agrees {s t : Schema Value} {keys : List Value}
    (hapart : keys.Pairwise fun k l => k.isFound l = false)
    (hkeys : ∀ k ∈ keys, k.isHashable = true) {policy : UnknownKeys} (v : Value)
    (unknown : Entries) {rs : List Result} (hlength : rs.length ≤ keys.length) : ∃ r,
      entries (recordReport s) keys (amongKeys keys rs) ⟨v, []⟩ [] = .ok r ∧
      r.Agrees ctx.reportInput LeavesOutAbsent id
        (object t ctx policy true v unknown (placedAt keys rs)) := by
  obtain ⟨es, hes, hfold⟩ := entries_amongKeys (s := s) hkeys rs ⟨v, []⟩ []
  -- No keys are unknown to an object with a catchall.
  have hobject : (object t ctx policy true v unknown (placedAt keys rs)).issues
      = issuesUnder (placedAt keys rs) := by
    unfold object
    dsimp only
    split <;> rfl
  refine ⟨_, hes, ?_, fun hvalid => ?_, ?_⟩
  · unfold Result.valid
    rw [hobject]
    rfl
  · have hnone : issuesUnder (placedAt keys rs) = [] := Result.valid_iff.1 hvalid
    obtain ⟨ws, rfl⟩ : ∃ ws : List Value, rs = ws.map .ok :=
      ⟨_, Result.eq_map_ok (valid_of_issuesUnder hlength hnone)⟩
    refine ⟨keys.zip ws, ?_, ?_⟩
    · show Value.dict es = .dict (keys.zip ws)
      rw [hfold ws rfl]
      exact congrArg Value.dict (Entries.ofList_of_distinct (zip_apart hapart ws))
    · unfold object
      rw [hnone, outputs_ok]
      simp
  · rw [hobject]
    rfl

/-! ## Maps and records -/

/-- What a record reports where a map reports the issue: instead of one issue that wraps those of
a value these issues under the key, and of a key that it is one of a record. -/
def Issue.ofRecord : Issue Value → List (Issue Value)
  | ⟨path, _, _, _, .invalidElement _ _ issues⟩ => issues.map (Issue.under path)
  | ⟨path, message, input, source, .invalidKey _ issues⟩ =>
    [⟨path, message, input, source, .invalidKey (.str "record") issues⟩]
  | i => [i]

theorem unwordedAll_ofRecord (b : Bool) (is : List (Issue Value)) :
    unwordedAll b (is.flatMap Issue.ofRecord) = (unwordedAll b is).flatMap Issue.ofRecord := by
  have hone (i : Issue Value) : unwordedAll b i.ofRecord = (i.unworded b).ofRecord := by
    obtain ⟨path, message, input, source, detail⟩ := i
    cases detail with
    | invalidElement origin key issues => exact unwordedAll_under path issues
    | _ => rfl
  induction is with
  | nil => rfl
  | cons i is ih =>
    rw [List.flatMap_cons, unwordedAll, List.flatMap_cons, ← ih, ← hone]
    simp [unwordedAll_eq_map]

theorem ignoresWords_ofRecord : IgnoresWords fun is => is.flatMap Issue.ofRecord := by
  intro b is js h
  rw [unwordedAll_ofRecord, unwordedAll_ofRecord, h]

/-- What the record has found is made of what the map has found. -/
structure FoundAlike (b : Bool) (is js : List (Issue Value)) : Prop where
  none : is = [] ↔ js = []
  issues : unwordedAll b js = unwordedAll b (is.flatMap Issue.ofRecord)

theorem FoundAlike.nil {b : Bool} : FoundAlike b [] [] := ⟨Iff.rfl, rfl⟩

theorem FoundAlike.append {b : Bool} {is is' js js' : List (Issue Value)} (h : FoundAlike b is js)
    (h' : FoundAlike b is' js') : FoundAlike b (is ++ is') (js ++ js') := by
  refine ⟨?_, ?_⟩
  · rw [List.append_eq_nil_iff, List.append_eq_nil_iff, h.none, h'.none]
  · have hissues := h.issues
    have hissues' := h'.issues
    rw [unwordedAll_eq_map, unwordedAll_eq_map] at hissues hissues' ⊢
    rw [List.map_append, List.flatMap_append, List.map_append, hissues, hissues']

section

variable {s t : Schema Value} {b : Bool}

theorem ofKey_alike (k : Value) (kr : Result) :
    FoundAlike b ((mapReport s).ofKey k kr) ((recordReport t).ofKey k kr) := by
  unfold EntryReport.ofKey
  by_cases hvalid : kr.valid = true
  · rw [if_pos hvalid, if_pos hvalid]
    exact .nil
  · rw [if_neg hvalid, if_neg hvalid]
    exact ⟨by simp [mapReport, recordReport], rfl⟩

theorem ofValue_alike (k : Value) (vr : Result) :
    FoundAlike b ((mapReport s).ofValue k vr) ((recordReport t).ofValue k vr) := by
  unfold EntryReport.ofValue
  by_cases hvalid : vr.valid = true
  · rw [if_pos hvalid, if_pos hvalid]
    exact .nil
  · rw [if_neg hvalid, if_neg hvalid]
    have hsome : vr.issues ≠ [] := fun hnone => hvalid (Result.valid_iff.2 hnone)
    refine ⟨by simp [mapReport, recordReport, hsome], ?_⟩
    simp [mapReport, recordReport, Issue.ofRecord]

/-- A map and a record of the same results have the same output, if the outputs of keys can be
keys. -/
theorem entries_alike {rs : List Result}
    (h : InTurn (fun kr => kr.valid = true → kr.value.isHashable = true) (fun _ => True) rs)
    (keys : List Value) (v : Value) {is js : List (Issue Value)} (hfound : FoundAlike b is js)
    (output : Entries) : ∃ r q, entries (mapReport s) keys rs ⟨v, is⟩ output = .ok r ∧
      entries (recordReport t) keys rs ⟨v, js⟩ output = .ok q ∧
      FoundAlike b r.issues q.issues ∧ q.value = r.value := by
  induction h generalizing keys is js output with
  | none => cases keys <;> exact ⟨_, _, rfl, rfl, hfound, rfl⟩
  | @key kr _ =>
    cases keys with
    | nil => exact ⟨_, _, rfl, rfl, hfound, rfl⟩
    | cons k keys => exact ⟨_, _, rfl, rfl, hfound.append (ofKey_alike k kr), rfl⟩
  | @entry kr vr rest hkr _ _ ih =>
    cases keys with
    | nil => exact ⟨_, _, rfl, rfl, hfound, rfl⟩
    | cons k keys =>
      have hadded : ∃ output', addOutputs output kr vr = .ok output' := by
        unfold addOutputs insertComputed
        by_cases hboth : (kr.valid && vr.valid) = true
        · rw [if_pos hboth, if_pos (hkr (Bool.and_eq_true_iff.1 hboth).1)]
          exact ⟨_, rfl⟩
        · rw [if_neg hboth]
          exact ⟨_, rfl⟩
      obtain ⟨output', hadded⟩ := hadded
      have hkey : FoundAlike b ((mapReport s).ofKey k kr) ((recordReport t).ofKey k kr) :=
        ofKey_alike k kr
      obtain ⟨r, q, hr, hq, halike, hvalue⟩ :=
        ih keys (hfound.append (hkey.append (ofValue_alike k vr))) output'
      refine ⟨r, q, ?_, ?_, halike, hvalue⟩
      · rw [entries, hadded]
        exact hr
      · rw [entries, hadded]
        exact hq

end

/-! ## Parses -/

/-- The second schema is a special case of the first when it comes to this value, which has the
entries or items in question: its outputs and its issues are given by those of the first. All
values against which parts are read can be read. -/
inductive Specializes (host : Host) (σ : Session) (ctx : Context) (v : Value) :
    Schema Value → Schema Value → (Value → Value → Prop) →
      (List (Issue Value) → List (Issue Value)) → Prop
  /-- A record with texts as listed keys, and an object with these keys that allows no others. -/
  | listed {s t key value : Schema Value} {names : List String} {data : Entries}
      (hs : s.form = .record key value)
      (ht : t.form = .object (names.map fun n => (.str n, value)) .strict none)
      (hkey : Construct.enumerated? key = some (names.map .str)) (hnames : names.Nodup)
      (hdata : v.entries? = some data)
      (hreads : ∀ p ∈ enumeratedItems value data (names.map .str), p.1.Reads host σ ctx p.2) :
      Specializes host σ ctx v s t Eq id
  /-- An array, and a tuple of a rest alone. -/
  | sequence {s t element : Schema Value} {vs : List Value} (hs : s.form = .array element)
      (ht : t.form = .tuple [] (some element)) (hvs : v.items? = some vs)
      (hreads : ∀ w ∈ vs, element.Reads host σ ctx w) :
      Specializes host σ ctx v s t (fun w u => ∃ ws, w = .list ws ∧ u = .tuple ws) id
  /-- A record with any keys, and an object of a catchall alone. -/
  | unlisted {s t key value : Schema Value} {policy : UnknownKeys} {data : Entries}
      (hs : s.form = .record key value) (ht : t.form = .object [] policy (some value))
      (hkey : key.form = .any)
      (hown : σ.kinds.evaluator? key.kind = .ok (.builtin .evaluateNode))
      (hbare : key.allChecks = []) (hdata : v.entries? = some data) (hdistinct : data.Distinct)
      (hkeys : ∀ e ∈ data, e.1.isHashable = true)
      (hreads : ∀ e ∈ data, value.Reads host σ ctx e.2) :
      Specializes host σ ctx v s t LeavesOutAbsent id
  /-- A map, and a record with a schema of keys that lists none and whose outputs can be keys. -/
  | keyed {s t key value : Schema Value} {data : Entries} (hs : s.form = .map key value)
      (ht : t.form = .record key value) (hkey : Construct.enumerated? key = none)
      (hdata : v.entries? = some data)
      (hreads : ∀ p ∈ entryItems key value data, p.1.Reads host σ ctx p.2)
      (hkeys : ∀ e ∈ data, ∀ r, Meaning.alone host σ ctx key e.1 = .ok r → r.valid = true →
        r.value.isHashable = true) :
      Specializes host σ ctx v s t Eq fun is => is.flatMap Issue.ofRecord

/-- The forms of two schemas come to results that agree. -/
def ComeToAlike (host : Host) (σ : Session) (ctx : Context) (v : Value) (s t : Schema Value)
    (outputs : Value → Value → Prop) (issues : List (Issue Value) → List (Issue Value)) : Prop :=
  ∃ r q, s.ComesTo host σ ctx v r ∧ t.ComesTo host σ ctx v q ∧
    r.Agrees ctx.reportInput outputs issues q

section

variable {s t key value : Schema Value} {v : Value} {data : Entries} (hs : s.IsSteady host σ)
  (ht : t.IsSteady host σ)

include hs ht

theorem listed_alike {keys : List Value} (hrecord : s.form = .record key value)
    (hobject : t.form = .object (keys.map fun k => (k, value)) .strict none)
    (hkey : Construct.enumerated? key = some keys)
    (hapart : keys.Pairwise fun k l => k.isFound l = false)
    (hhashable : Value.areHashable keys = true) (hdata : v.entries? = some data)
    (hreads : ∀ p ∈ enumeratedItems value data keys, p.1.Reads host σ ctx p.2) :
    ComeToAlike host σ ctx v s t Eq id := by
  have hplaces : objectItems (keys.map fun k => (k, value)) none data =
      keys.map fun k => (k, value, (data.find? k).getD .missing) := by
    simp [objectItems, Function.comp_def]
  have hpositions : (objectItems (keys.map fun k => (k, value)) none data).map (·.2) =
      enumeratedItems value data keys := by
    simp [hplaces, enumeratedItems, Function.comp_def]
  have hnamed : (objectItems (keys.map fun k => (k, value)) none data).map (·.1) = keys := by
    simp [hplaces, Function.comp_def]
  have hreads' : ∀ p ∈ objectItems (keys.map fun k => (k, value)) none data,
      p.2.1.Reads host σ ctx p.2.2 := by
    intro p hp
    apply hreads p.2
    rw [← hpositions]
    exact List.mem_map_of_mem hp
  obtain ⟨rs, hrs, hr⟩ := hs.listedRecord hrecord hkey hhashable hdata hreads
  obtain ⟨rs', hrs', -, hq⟩ := ht.object hobject hdata hreads'
  rw [hpositions] at hrs'
  rw [hnamed] at hq
  obtain rfl : rs' = rs := Except.ok.inj (hrs'.symm.trans hrs)
  exact ⟨_, _, hr, hq, enumeratedRecord_agrees hapart v data rs'⟩

theorem sequence_alike {element : Schema Value} {vs : List Value} (harray : s.form = .array element)
    (htuple : t.form = .tuple [] (some element)) (hvs : v.items? = some vs)
    (hreads : ∀ w ∈ vs, element.Reads host σ ctx w) :
    ComeToAlike host σ ctx v s t (fun w u => ∃ ws, w = .list ws ∧ u = .tuple ws) id := by
  obtain ⟨rs, hrs, hr⟩ := hs.array harray hvs hreads
  obtain ⟨rs', hrs', hq⟩ := ht.rest htuple hvs hreads
  obtain rfl : rs' = rs := Except.ok.inj (hrs'.symm.trans hrs)
  have hlength := Meaning.items_length_le hrs
  rw [List.length_map] at hlength
  exact ⟨_, _, hr, hq, array_agrees hlength _⟩

theorem unlisted_alike {policy : UnknownKeys} (hrecord : s.form = .record key value)
    (hobject : t.form = .object [] policy (some value)) (hkey : key.form = .any)
    (hown : σ.kinds.evaluator? key.kind = .ok (.builtin .evaluateNode))
    (hbare : key.allChecks = []) (hdata : v.entries? = some data) (hdistinct : data.Distinct)
    (hkeys : ∀ e ∈ data, e.1.isHashable = true)
    (hreads : ∀ e ∈ data, value.Reads host σ ctx e.2) :
    ComeToAlike host σ ctx v s t LeavesOutAbsent id := by
  -- Without a shape all keys are unknown.
  have hplaces : objectItems [] (some value) data = data.map fun e => (e.1, value, e.2) := by
    simp [objectItems, unknownKeys]
  have hpositions : (objectItems [] (some value) data).map (·.2) =
      data.map fun e => (value, e.2) := by
    simp [hplaces, Function.comp_def]
  have hnamed : (objectItems [] (some value) data).map (·.1) = data.map (·.1) := by
    simp [hplaces, Function.comp_def]
  have hopen : Construct.enumerated? key = none := by
    unfold Construct.enumerated?
    rw [hkey]
  have hreadsEntries : ∀ p ∈ entryItems key value data, p.1.Reads host σ ctx p.2 := by
    intro p hp
    obtain ⟨e, he, hp⟩ := List.mem_flatMap.1 hp
    rcases List.mem_pair.1 hp with rfl | rfl
    · exact reads_any hkey hown hbare e.1
    · exact hreads e he
  have hreadsPlaces : ∀ p ∈ objectItems [] (some value) data, p.2.1.Reads host σ ctx p.2.2 := by
    intro p hp
    rw [hplaces] at hp
    obtain ⟨e, he, rfl⟩ := List.mem_map.1 hp
    exact hreads e he
  obtain ⟨rs, hrs, hr⟩ := hs.record hrecord hopen hdata hreadsEntries
  obtain ⟨rs', hrs', -, hq⟩ := ht.object hobject hdata hreadsPlaces
  rw [hpositions] at hrs'
  rw [hnamed] at hq
  obtain rfl : amongKeys (data.map (·.1)) rs' = rs :=
    Except.ok.inj ((items_amongKeys (alone_any hkey hown hbare) hrs').symm.trans hrs)
  have hlength := Meaning.items_length_le hrs'
  rw [List.length_map] at hlength
  obtain ⟨r, hentries, hagree⟩ := record_agrees (List.pairwise_map.2 hdistinct)
    (List.forall_mem_map.2 hkeys) v _ (by simpa using hlength)
  exact ⟨r, _, hr r hentries, hq, hagree⟩

theorem keyed_alike (hmap : s.form = .map key value) (hrecord : t.form = .record key value)
    (hkey : Construct.enumerated? key = none) (hdata : v.entries? = some data)
    (hreads : ∀ p ∈ entryItems key value data, p.1.Reads host σ ctx p.2)
    (hkeys : ∀ e ∈ data, ∀ r, Meaning.alone host σ ctx key e.1 = .ok r → r.valid = true →
      r.value.isHashable = true) :
    ComeToAlike host σ ctx v s t Eq fun is => is.flatMap Issue.ofRecord := by
  obtain ⟨rs, hrs, hr⟩ := hs.map hmap hdata hreads
  obtain ⟨rs', hrs', hq⟩ := ht.record hrecord hkey hdata hreads
  obtain rfl : rs' = rs := Except.ok.inj (hrs'.symm.trans hrs)
  have hturn := Meaning.entryItems_inTurn hkeys (fun _ _ _ _ => trivial) hrs
  obtain ⟨r, q, hr', hq', halike, hvalue⟩ := entries_alike hturn _ v .nil []
  refine ⟨r, q, hr r hr', hq q hq', ?_, fun _ => hvalue.symm, halike.issues⟩
  rw [Bool.eq_iff_iff, Result.valid_iff, Result.valid_iff]
  exact halike.none

end

theorem areHashable_texts (names : List String) :
    Value.areHashable (names.map .str) = true := by
  induction names with
  | nil => rfl
  | cons n names ih => exact ih

/-- Schemas that are made of a list of distinct texts list these texts. -/
theorem enumerated_of_texts {names : List String} (hnames : names.Nodup) {error : Value}
    {key : Schema Value} {τ : Session}
    (h : (Construct.literal (.list (names.map .str)) { error := error }).answer τ = .ok key ∨
      (Construct.enumeration (.list (names.map .str)) { error := error }).answer τ = .ok key) :
    Construct.enumerated? key = some (names.map .str) := by
  rcases h with h | h
  · have h : (if (names.map Value.str).isEmpty then refuse .literalEmpty
        else Construct.make (.literal (names.map Value.str)) { error := error }).exec τ
          = (.ok key, _) := Prod.ext h rfl
    split at h
    · cases h
    · rw [Construct.enumerated?, (make_ok rfl h).1]
  · obtain ⟨⟨entries, cls⟩, ρ, hentries, h⟩ := bind_exec_ok.1 (Prod.ext h rfl)
    obtain ⟨values, ρ', hvalues, hentries⟩ := bind_exec_ok.1 hentries
    cases hvalues
    cases hentries
    -- Distinct texts name themselves.
    have hlisted : (names.map Value.str).map (fun v => (Value.str v.text, v)) =
        (names.map Value.str).map fun v => (v, v) := by
      simp [Value.text, Value.textBy]
    have hdistinct : Entries.Distinct ((names.map Value.str).map fun v => (v, v)) :=
      List.pairwise_map.2 (texts_apart hnames)
    rw [hlisted, Entries.ofList_of_distinct hdistinct] at h
    dsimp only at h
    split at h
    · cases h
    · rw [Construct.enumerated?, (make_ok rfl h).1]
      simp

namespace Specializes

variable {s t : Schema Value} {v : Value} {outputs : Value → Value → Prop}
  {issues : List (Issue Value) → List (Issue Value)}

theorem ignoresWords (h : Specializes host σ ctx v s t outputs issues) : IgnoresWords issues := by
  cases h with
  | keyed => exact ignoresWords_ofRecord
  | _ => exact fun _ _ _ h => h

theorem alike (h : Specializes host σ ctx v s t outputs issues) (hs : s.IsSteady host σ)
    (ht : t.IsSteady host σ) : ComeToAlike host σ ctx v s t outputs issues := by
  cases h with
  | listed hrecord hobject hkey hnames hdata hreads =>
    refine listed_alike hs ht hrecord ?_ hkey (texts_apart hnames) (areHashable_texts _) hdata
      hreads
    rw [List.map_map]
    exact hobject
  | sequence harray htuple hvs hreads => exact sequence_alike hs ht harray htuple hvs hreads
  | unlisted hrecord hobject hkey hown hbare hdata hdistinct hkeys hreads =>
    exact unlisted_alike hs ht hrecord hobject hkey hown hbare hdata hdistinct hkeys hreads
  | keyed hmap hrecord hkey hdata hreads hkeys =>
    exact keyed_alike hs ht hmap hrecord hkey hdata hreads hkeys

end Specializes

namespace Special

open Stock (hostThat)
open Samples

/-- An amount, and nothing where there is none. -/
def lenient : Schema Value := ⟨4, .str "catch", .catching amount .missing, [], [], .null⟩

/-- Records of amounts. -/
def record (key : Schema Value) : Schema Value := bare "record" (.record key amount)

theorem record_isSteady {key : Schema Value} (hkey : key = letter ∨ key = anything) :
    (record key).IsSteady (hostThat false) {} := by
  refine bare_isSteady rfl ⟨rfl, rfl⟩ fun t ht => ?_
  rcases List.mem_pair.1 ht with rfl | rfl
  · exact .inr hkey
  · exact .inl rfl

def holdings : Entries := [(.str "a", .int 1), (.str "b", .null)]

theorem reads_holdings : ∀ e ∈ holdings, amount.Reads (hostThat false) {} {} e.2 := by
  intro e he
  apply reads_amount
  rcases List.mem_pair.1 he with rfl | rfl
  · exact List.mem_cons_self
  · exact List.mem_cons_of_mem _ List.mem_cons_self

theorem reads_entries :
    ∀ p ∈ entryItems anything amount holdings, p.1.Reads (hostThat false) {} {} p.2 := by
  intro p hp
  obtain ⟨e, he, hp⟩ := List.mem_flatMap.1 hp
  rcases List.mem_pair.1 hp with rfl | rfl
  · exact reads_any rfl rfl rfl e.1
  · exact reads_holdings e he

/-- The keys are texts, which anything accepts. -/
theorem keys_hashable : ∀ e ∈ holdings, ∀ r,
    Meaning.alone (hostThat false) {} {} anything e.1 = .ok r → r.valid = true →
      r.value.isHashable = true := by
  intro e he r hr _
  rw [alone_any rfl rfl rfl] at hr
  cases hr
  rcases List.mem_pair.1 he with rfl | rfl <;> rfl

/-- What a parse comes to in a new session. -/
def parsed (s : Schema Value) (v : Value) : Except Fault Parsed :=
  (safeParse (hostThat false) (Context.mayWait {} false) s v).answer {}

/-- The parses of two schemas agree. -/
def ParsesAgree (s t : Schema Value) (v : Value) (outputs : Value → Value → Prop)
    (issues : List (Issue Value) → List (Issue Value)) : Prop :=
  ∃ p q, parsed s v = .ok p ∧ parsed t v = .ok q ∧ p.Agrees false outputs issues q

end Special

end Assay
