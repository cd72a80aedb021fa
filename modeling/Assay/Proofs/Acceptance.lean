import Assay.Proofs.Abridging
import Assay.Proofs.Adequacy

/-!
# What is accepted

A meaning without issues says what became of every part of the value. There is one statement for
each structure: it accepts a value with an output exactly if its positions are accepted with
outputs of their own (`Meaning.Accepts`) and the output is put together from these. The checks of
a schema run only then.
-/

namespace Assay

open Structure

/-- An output without issues. -/
abbrev Result.ok (w : Value) : Result := ⟨w, []⟩

theorem Result.eq_ok {r : Result} (h : r.valid = true) : r = .ok r.value := by
  obtain ⟨w, is⟩ := r
  obtain rfl : is = [] := Result.valid_iff.1 h
  rfl

/-- Results without issues are outputs. -/
theorem Result.eq_map_ok {rs : List Result} (h : ∀ r ∈ rs, r.valid = true) :
    rs = (rs.map (·.value)).map .ok := by
  rw [List.map_map]
  exact (List.map_id'' (fun _ => rfl) rs).symm.trans
    (List.map_congr_left fun r hr => Result.eq_ok (h r hr))

namespace Meaning

/-! ## Positions -/

section

variable {recur : Schema Value → Value → Except Fault Result} {ctx : Context}

/-- The positions are accepted with the outputs. -/
def Accepts (recur : Schema Value → Value → Except Fault Result)
    (ps : List (Schema Value × Value)) (ws : List Value) : Prop :=
  List.Forall₂ (fun p w => recur p.1 p.2 = .ok (.ok w)) ps ws

theorem Accepts.of_mem {ps : List (Schema Value × Value)} {ws : List Value}
    (h : Accepts recur ps ws) {p : Schema Value × Value} (hp : p ∈ ps) :
    ∃ w ∈ ws, recur p.1 p.2 = .ok (.ok w) := by
  induction h with
  | nil => cases hp
  | @cons q w ps ws hq _ ih =>
    rcases List.mem_cons.1 hp with rfl | hp
    · exact ⟨w, List.mem_cons_self .., hq⟩
    · obtain ⟨w', hw', h⟩ := ih hp
      exact ⟨w', List.mem_cons_of_mem _ hw', h⟩

theorem Accepts.of_mem_output {ps : List (Schema Value × Value)} {ws : List Value}
    (h : Accepts recur ps ws) {w : Value} (hw : w ∈ ws) :
    ∃ p ∈ ps, recur p.1 p.2 = .ok (.ok w) := by
  induction h with
  | nil => cases hw
  | @cons p w' ps ws hp _ ih =>
    rcases List.mem_cons.1 hw with rfl | hw
    · exact ⟨p, List.mem_cons_self .., hp⟩
    · obtain ⟨q, hq, h⟩ := ih hw
      exact ⟨q, List.mem_cons_of_mem _ hq, h⟩

/-- An output that stands at a key is what the position with the key was accepted with. -/
theorem Accepts.of_mem_zip {places : List (Value × Schema Value × Value)} {ws : List Value}
    (h : Accepts recur (places.map (·.2)) ws) {e : Value × Value}
    (he : e ∈ (places.map (·.1)).zip ws) :
    ∃ p ∈ places, p.1 = e.1 ∧ recur p.2.1 p.2.2 = .ok (.ok e.2) := by
  induction places generalizing ws with
  | nil => cases he
  | cons p places ih =>
    cases h with
    | cons hp h =>
      rcases List.mem_cons.1 he with rfl | he
      · exact ⟨p, List.mem_cons_self .., rfl, hp⟩
      · obtain ⟨q, hq, hkey, hrecur⟩ := ih h he
        exact ⟨q, List.mem_cons_of_mem _ hq, hkey, hrecur⟩

/-- Every position has an output, which stands at its key. -/
theorem Accepts.mem_zip {places : List (Value × Schema Value × Value)} {ws : List Value}
    (h : Accepts recur (places.map (·.2)) ws) {p : Value × Schema Value × Value}
    (hp : p ∈ places) :
    ∃ w, (p.1, w) ∈ (places.map (·.1)).zip ws ∧ recur p.2.1 p.2.2 = .ok (.ok w) := by
  induction places generalizing ws with
  | nil => cases hp
  | cons q places ih =>
    cases h with
    | @cons _ w _ ws hq h =>
      rcases List.mem_cons.1 hp with rfl | hp
      · exact ⟨w, List.mem_cons_self .., hq⟩
      · obtain ⟨w', hw', hrecur⟩ := ih h hp
        exact ⟨w', List.mem_cons_of_mem _ hw', hrecur⟩

theorem each_accepts {ps : List (Schema Value × Value)} {ws : List Value}
    (h : Accepts recur ps ws) : each recur ps = .ok (ws.map .ok) := by
  induction h with
  | nil => rfl
  | cons hp _ ih =>
    rw [each, hp, ih]
    rfl

theorem inOrder_accepts {ps : List (Schema Value × Value)} {ws : List Value}
    (h : Accepts recur ps ws) : inOrder recur ps = .ok (ws.map .ok) := by
  induction h with
  | nil => rfl
  | cons hp _ ih =>
    rw [inOrder, hp, ih]
    rfl

theorem items_accepts {ps : List (Schema Value × Value)} {ws : List Value}
    (h : Accepts recur ps ws) : items recur ctx ps = .ok (ws.map .ok) := by
  unfold items
  split
  · exact inOrder_accepts h
  · exact each_accepts h

theorem accepts_of_each {ps : List (Schema Value × Value)} {rs : List Result}
    (h : each recur ps = .ok rs) (hvalid : ∀ r ∈ rs, r.valid = true) :
    Accepts recur ps (rs.map (·.value)) := by
  induction ps generalizing rs with
  | nil =>
    cases h
    exact .nil
  | cons p ps ih =>
    obtain ⟨r, hr, h⟩ := bind_eq_ok.1 h
    obtain ⟨rest, hrest, h⟩ := bind_eq_ok.1 h
    cases h
    obtain ⟨hvalid, hvalids⟩ := List.forall_mem_cons.1 hvalid
    exact .cons (hr.trans (congrArg _ (Result.eq_ok hvalid))) (ih hrest hvalids)

theorem accepts_of_inOrder {ps : List (Schema Value × Value)} {rs : List Result}
    (h : inOrder recur ps = .ok rs) (hvalid : ∀ r ∈ rs, r.valid = true) :
    Accepts recur ps (rs.map (·.value)) := by
  induction ps generalizing rs with
  | nil =>
    cases h
    exact .nil
  | cons p ps ih =>
    obtain ⟨r, hr, h⟩ := bind_eq_ok.1 h
    split at h
    · obtain ⟨rest, hrest, h⟩ := bind_eq_ok.1 h
      cases h
      obtain ⟨hvalid, hvalids⟩ := List.forall_mem_cons.1 hvalid
      exact .cons (hr.trans (congrArg _ (Result.eq_ok hvalid))) (ih hrest hvalids)
    · rename_i hinvalid
      cases h
      exact absurd (hvalid r (List.mem_singleton.2 rfl)) hinvalid

/-- Where no position has an issue, all were read and accepted. -/
theorem accepts_of_items {ps : List (Schema Value × Value)} {rs : List Result}
    (h : items recur ctx ps = .ok rs) (hvalid : ∀ r ∈ rs, r.valid = true) :
    ∃ ws, rs = ws.map .ok ∧ Accepts recur ps ws := by
  refine ⟨rs.map (·.value), Result.eq_map_ok hvalid, ?_⟩
  unfold items at h
  split at h
  · exact accepts_of_inOrder h hvalid
  · exact accepts_of_each h hvalid

end

end Meaning

/-- The entries that have a value. -/
def Entries.present (es : Entries) : Entries := es.filter fun e => !(e.2 matches .missing)

theorem Entries.mem_present {es : Entries} {e : Value × Value} :
    e ∈ es.present ↔ e ∈ es ∧ e.2 ≠ .missing := by
  unfold present
  rw [List.mem_filter]
  cases e.2 <;> simp

namespace Structure

theorem outputs_ok (keys ws : List Value) :
    outputs (placedAt keys (ws.map .ok)) = Entries.present (keys.zip ws) := by
  unfold outputs placedAt Entries.present
  induction keys generalizing ws with
  | nil => rfl
  | cons k keys ih =>
    cases ws with
    | nil => rfl
    | cons w ws =>
      simp only [List.map_cons, List.zip_cons_cons, List.filterMap_cons, List.filter_cons, ih]
      cases w <;> rfl

theorem issuesUnder_ok (keys ws : List Value) :
    issuesUnder (placedAt keys (ws.map .ok)) = [] := by
  unfold issuesUnder placedAt
  induction keys generalizing ws with
  | nil => rfl
  | cons k keys ih =>
    cases ws with
    | nil => rfl
    | cons w ws =>
      simp only [List.map_cons, List.zip_cons_cons, List.flatMap_cons, ih]
      rfl

/-- Every key of the shape has its position. -/
theorem objectItems_named {shape : List (Value × Schema Value)} {f : Value × Schema Value}
    (hf : f ∈ shape) {catchall : Option (Schema Value)} {data : Entries} :
    (f.1, f.2, (data.find? f.1).getD .missing) ∈ objectItems shape catchall data := by
  have hnamed := List.mem_map_of_mem
    (f := fun f : Value × Schema Value => (f.1, f.2, (data.find? f.1).getD .missing)) hf
  unfold objectItems
  cases catchall with
  | none => exact hnamed
  | some c => exact List.mem_append_left _ hnamed

end Structure

namespace Meaning

variable {recur : Schema Value → Value → Except Fault Result} {ctx : Context}
  {s : Schema Value} {v w : Value}

/-! ## Objects -/

/-- The entries of an object's output: the keys with an output, and the unknown ones if these
pass through. -/
def objectOutput (shape : List (Value × Schema Value)) (policy : UnknownKeys)
    (catchall : Option (Schema Value)) (data : Entries) (ws : List Value) : Entries :=
  Entries.present (((objectItems shape catchall data).map (·.1)).zip ws) ++
    if catchall.isNone && policy == .passthrough then unknownKeys shape data else []

/-- The issues of the positions are reported, and unknown keys if these are not allowed. -/
theorem object_issues (s : Schema Value) (ctx : Context) (v : Value) (policy : UnknownKeys)
    (hasCatchall : Bool) (unknown : Entries) (placed : List Placed) : ∃ more,
    (Structure.object s ctx policy hasCatchall v unknown placed).issues
      = issuesUnder placed ++ more ∧
    (policy = .strict → hasCatchall = false → unknown ≠ [] → issuesUnder placed = [] →
      more ≠ []) := by
  unfold Structure.object
  dsimp only
  split
  · rename_i hstop
    refine ⟨[], (List.append_nil _).symm, fun _ _ _ hnil => ?_⟩
    simp [hnil] at hstop
  · split
    · rename_i hknown
      refine ⟨[], (List.append_nil _).symm, fun _ hcatchall hunknown _ => ?_⟩
      simp [hcatchall, hunknown] at hknown
    · cases policy with
      | strip => exact ⟨[], (List.append_nil _).symm, nofun⟩
      | passthrough => exact ⟨[], (List.append_nil _).symm, nofun⟩
      | strict => exact ⟨_, rfl, by simp⟩

theorem object_ok {shape : List (Value × Schema Value)} {policy : UnknownKeys}
    {catchall : Option (Schema Value)} {data : Entries} (ws : List Value)
    (hstrict : policy = .strict → catchall = none → unknownKeys shape data = []) :
    Structure.object s ctx policy catchall.isSome v (unknownKeys shape data)
        (placedAt ((objectItems shape catchall data).map (·.1)) (ws.map .ok))
      = .ok (.dict (objectOutput shape policy catchall data ws)) := by
  simp only [Structure.object, issuesUnder_ok, outputs_ok, List.isEmpty_nil, Bool.not_true,
    Bool.and_false, Bool.false_eq_true, if_false, objectOutput]
  cases catchall with
  | some c => simp
  | none =>
    cases hunknown : unknownKeys shape data with
    | nil => simp
    | cons e rest =>
      cases policy with
      | strip => simp
      | passthrough => simp
      | strict => simp [hstrict rfl rfl] at hunknown

theorem object_accepts {shape : List (Value × Schema Value)} {policy : UnknownKeys}
    {catchall : Option (Schema Value)} :
    object ctx recur s shape policy catchall v = .ok (.ok w) ↔
      ∃ data ws, v.entries? = some data ∧
        Accepts recur ((objectItems shape catchall data).map (·.2)) ws ∧
        (policy = .strict → catchall = none → unknownKeys shape data = []) ∧
        w = .dict (objectOutput shape policy catchall data ws) := by
  unfold object
  constructor
  · intro h
    cases hv : v.entries? with
    | none =>
      rw [hv] at h
      cases h
    | some data =>
      rw [hv] at h
      obtain ⟨rs, hrs, h⟩ := bind_eq_ok.1 h
      have hobject := Except.ok.inj h
      obtain ⟨more, hissues, hmore⟩ := object_issues s ctx v policy catchall.isSome
        (unknownKeys shape data) (placedAt ((objectItems shape catchall data).map (·.1)) rs)
      rw [hobject] at hissues
      obtain ⟨hnil, hmorenil⟩ := List.append_eq_nil_iff.1 hissues.symm
      have hstrict : policy = .strict → catchall = none → unknownKeys shape data = [] :=
        fun hpolicy hcatchall => by
          refine Classical.byContradiction fun hunknown => ?_
          exact hmore hpolicy (by rw [hcatchall]; rfl) hunknown hnil hmorenil
      obtain ⟨ws, rfl, hws⟩ := accepts_of_items hrs
        (valid_of_issuesUnder (by simpa using items_length_le hrs) hnil)
      rw [object_ok ws hstrict] at hobject
      exact ⟨data, ws, rfl, hws, hstrict, (congrArg Result.value hobject).symm⟩
  · rintro ⟨data, ws, hv, hws, hstrict, rfl⟩
    rw [hv]
    exact bind_eq_ok.2 ⟨_, items_accepts hws, congrArg _ (object_ok ws hstrict)⟩

/-! ## Sequences -/

theorem issuesIndexed_ok (index : Nat) (ws : List Value) :
    issuesUnder (indexed index (ws.map .ok)) = [] := by
  rw [indexed_eq_placedAt _ _ _ (Nat.le_refl _)]
  exact issuesUnder_ok _ _

/-- An array accepts a sequence with the outputs of its items. -/
theorem array_accepts {element : Schema Value} :
    array ctx recur s element v = .ok (.ok w) ↔ ∃ vs ws, v.items? = some vs ∧
      Accepts recur (vs.map fun x => (element, x)) ws ∧ w = .list ws := by
  have harray (ws : List Value) : Structure.array (ws.map .ok) = .ok (.list ws) := by
    simp only [Structure.array, issuesIndexed_ok, List.map_map]
    exact congrArg (fun vs => Result.ok (.list vs)) (List.map_id' ws)
  unfold array
  constructor
  · intro h
    cases hv : v.items? with
    | none =>
      rw [hv] at h
      cases h
    | some vs =>
      rw [hv] at h
      obtain ⟨rs, hrs, h⟩ := bind_eq_ok.1 h
      have h := Except.ok.inj h
      obtain ⟨ws, rfl, hws⟩ := accepts_of_items hrs (valid_of_indexed (congrArg Result.issues h))
      rw [harray] at h
      exact ⟨vs, ws, rfl, hws, (congrArg Result.value h).symm⟩
  · rintro ⟨vs, ws, hv, hws, rfl⟩
    rw [hv]
    exact bind_eq_ok.2 ⟨_, items_accepts hws, congrArg _ (harray ws)⟩

/-- The items of a tuple's output, of which the first ones are there in the input: of the others
the absent ones are left out. -/
def tupleOutput (present : Nat) (ws : List Value) : List Value :=
  ws.take present ++ (ws.drop present).filter fun w => !(w matches .missing)

theorem tupleOutputs_ok (present index : Nat) (ws : List Value) :
    tupleOutputs present index (ws.map .ok) = tupleOutput (present - index) ws := by
  induction ws generalizing index with
  | nil => simp [tupleOutputs, tupleOutput]
  | cons w ws ih =>
    rw [List.map_cons, tupleOutputs, ih]
    by_cases hindex : index < present
    · rw [show present - index = present - (index + 1) + 1 by omega]
      simp [tupleOutput, hindex, Result.valid]
    · rw [show present - index = 0 by omega, show present - (index + 1) = 0 by omega]
      cases w <;> simp [tupleOutput, hindex, Result.valid]

/-- Where the input goes on to the end nothing is left out. -/
theorem tupleOutput_of_length_le {present : Nat} {ws : List Value} (h : ws.length ≤ present) :
    tupleOutput present ws = ws := by
  rw [tupleOutput, List.take_of_length_le h, List.drop_of_length_le h, List.filter_nil,
    List.append_nil]

theorem length_tupleItems {rest : Schema Value} {schemas : List (Schema Value)} {vs : List Value}
    (h : schemas.length ≤ vs.length) :
    (tupleItems (some rest) schemas vs).length = vs.length := by
  induction schemas generalizing vs with
  | nil => exact List.length_map _
  | cons s schemas ih =>
    cases vs with
    | nil => cases h
    | cons v vs => exact congrArg (· + 1) (ih (Nat.le_of_succ_le_succ h))

theorem tuple_ok (present : Nat) (ws : List Value) :
    Structure.tuple present (ws.map .ok) = .ok (.tuple (tupleOutput present ws)) := by
  rw [Structure.tuple, issuesIndexed_ok, tupleOutputs_ok, Nat.sub_zero]

/-- A tuple accepts a sequence of an admissible length with the outputs of its positions. -/
theorem tuple_accepts {required : Except Fault Nat} {schemas : List (Schema Value)}
    {rest : Option (Schema Value)} :
    tuple ctx recur required s schemas rest v = .ok (.ok w) ↔ ∃ vs n ws, v.items? = some vs ∧
      required = .ok n ∧ tupleLength n schemas.length rest.isSome vs.length = none ∧
      Accepts recur (tupleItems rest schemas vs) ws ∧ w = .tuple (tupleOutput vs.length ws) := by
  unfold tuple
  constructor
  · intro h
    cases hv : v.items? with
    | none =>
      rw [hv] at h
      cases h
    | some vs =>
      rw [hv] at h
      obtain ⟨n, hn, h⟩ := bind_eq_ok.1 h
      split at h
      · cases h
      · rename_i hlength
        obtain ⟨rs, hrs, h⟩ := bind_eq_ok.1 h
        have h := Except.ok.inj h
        obtain ⟨ws, rfl, hws⟩ := accepts_of_items hrs (valid_of_indexed (congrArg Result.issues h))
        rw [tuple_ok] at h
        exact ⟨vs, n, ws, rfl, hn, hlength, hws, (congrArg Result.value h).symm⟩
  · rintro ⟨vs, n, ws, hv, hn, hlength, hws, rfl⟩
    rw [hv]
    refine bind_eq_ok.2 ⟨n, hn, ?_⟩
    simp only [hlength]
    exact bind_eq_ok.2 ⟨_, items_accepts hws, congrArg _ (tuple_ok _ ws)⟩

/-! ## Records and maps -/

/-- The entries are accepted, key by key and value by value. -/
def AcceptsEntries (recur : Schema Value → Value → Except Fault Result)
    (k x : Schema Value) (data es : Entries) : Prop :=
  List.Forall₂ (fun d e => recur k d.1 = .ok (.ok e.1) ∧ recur x d.2 = .ok (.ok e.2)) data es

/-- Keys and values in turn. -/
def alternating (es : Entries) : List Value := es.flatMap fun e => [e.1, e.2]

theorem accepts_entryItems {k x : Schema Value} {data : Entries} {ws : List Value} :
    Accepts recur (entryItems k x data) ws ↔
      ∃ es, AcceptsEntries recur k x data es ∧ ws = alternating es := by
  constructor
  · intro h
    induction data generalizing ws with
    | nil =>
      cases h
      exact ⟨[], .nil, rfl⟩
    | cons d data ih =>
      cases h with
      | cons hk h =>
        cases h with
        | cons hx h =>
          obtain ⟨es, hes, rfl⟩ := ih h
          exact ⟨(_, _) :: es, .cons ⟨hk, hx⟩ hes, rfl⟩
  · rintro ⟨es, h, rfl⟩
    induction h with
    | nil => exact .nil
    | cons he _ ih => exact .cons he.1 (.cons he.2 ih)

theorem valid_of_entries {report : EntryReport} (hreport : EntryReport.Abridges report)
    {keys : List Value} {rs : List Result} {acc r : Result} {output : Entries}
    (h : Structure.entries report keys rs acc output = .ok r)
    (hlength : rs.length ≤ 2 * keys.length) (hr : r.issues = []) :
    ∀ q ∈ rs, q.valid = true := by
  induction keys generalizing rs acc output with
  | nil =>
    obtain rfl := List.eq_nil_of_length_eq_zero (Nat.le_zero.1 hlength)
    exact fun q hq => nomatch hq
  | cons k keys ih =>
    match rs with
    | [] => exact fun q hq => nomatch hq
    | [kr] =>
      obtain rfl : ⟨.dict output, acc.issues ++ report.ofKey k kr⟩ = r := by
        simpa [Structure.entries] using h
      rintro q hq
      obtain rfl := List.mem_singleton.1 hq
      refine Classical.byContradiction fun hinvalid => ?_
      rw [EntryReport.ofKey, if_neg hinvalid] at hr
      exact hreport.key_ne_nil k q (Bool.eq_false_iff.2 hinvalid) (List.append_eq_nil_iff.1 hr).2
    | kr :: vr :: rest =>
      obtain ⟨output', -, h⟩ := bind_eq_ok.1 h
      obtain ⟨more, hmore⟩ := entries_issues h
      obtain ⟨hfound, -⟩ := List.append_eq_nil_iff.1 (hmore.symm.trans hr)
      obtain ⟨hkey, hvalue⟩ := List.append_eq_nil_iff.1 (List.append_eq_nil_iff.1 hfound).2
      refine List.forall_mem_cons.2 ⟨?_, List.forall_mem_cons.2 ⟨?_, ih h ?_⟩⟩
      · refine Classical.byContradiction fun hinvalid => ?_
        rw [EntryReport.ofKey, if_neg hinvalid] at hkey
        exact hreport.key_ne_nil k kr (Bool.eq_false_iff.2 hinvalid) hkey
      · refine Classical.byContradiction fun hinvalid => ?_
        rw [EntryReport.ofValue, if_neg hinvalid] at hvalue
        exact hreport.value_ne_nil k vr (Bool.eq_false_iff.2 hinvalid) hvalue
      · simp only [List.length_cons] at hlength
        omega

/-- Accepted entries are put into the output one after the other, as long as their keys can be
keys. -/
theorem entries_ok (report : EntryReport) {keys : List Value} {es : Entries}
    (hkeys : keys.length = es.length) {acc : Result} (hacc : acc.issues = []) (output : Entries) :
    Structure.entries report keys ((alternating es).map .ok) acc output =
      if es.all fun e => e.1.isHashable then
        .ok (.ok (.dict (es.foldl (fun out e => Entries.insert out e.1 e.2) output)))
      else .error .unsupported := by
  induction keys generalizing es acc output with
  | nil =>
    obtain rfl := List.eq_nil_of_length_eq_zero hkeys.symm
    simp [Structure.entries, hacc]
  | cons k keys ih =>
    cases es with
    | nil => cases hkeys
    | cons e es =>
      have hstep : Structure.addOutputs output (.ok e.1) (.ok e.2) =
          if e.1.isHashable then .ok (Entries.insert output e.1 e.2) else .error .unsupported := rfl
      have hfound : ({ acc with issues := acc.issues ++
          (report.ofKey k (.ok e.1) ++ report.ofValue k (.ok e.2)) } : Result).issues = [] := by
        simp [hacc, EntryReport.ofKey, EntryReport.ofValue, Result.valid]
      have halternating : (alternating (e :: es)).map Result.ok =
          .ok e.1 :: .ok e.2 :: (alternating es).map .ok := rfl
      rw [halternating, Structure.entries, hstep, List.all_cons]
      cases e.1.isHashable with
      | false => rfl
      | true => exact ih (Nat.succ.inj hkeys) hfound _

theorem AcceptsEntries.length_eq {k x : Schema Value} {data es : Entries}
    (h : AcceptsEntries recur k x data es) : data.length = es.length :=
  List.Forall₂.length_eq h

/-- What a record with open keys and a map make of the entries of a mapping. -/
theorem entries_accepts {report : EntryReport} (hreport : EntryReport.Abridges report)
    {k x : Schema Value} {data : Entries} :
    (items recur ctx (entryItems k x data) >>= fun rs =>
      Structure.entries report (data.map fun e => e.1) rs ⟨v, []⟩ []) = .ok (.ok w) ↔
    ∃ es, AcceptsEntries recur k x data es ∧ (∀ e ∈ es, e.1.isHashable = true) ∧
      w = .dict (Entries.ofList es) := by
  constructor
  · intro h
    obtain ⟨rs, hrs, h⟩ := bind_eq_ok.1 h
    have hlength : rs.length ≤ 2 * (data.map fun e => e.1).length := by
      refine Nat.le_trans (items_length_le hrs) (Nat.le_of_eq ?_)
      simp [entryItems, Nat.mul_comm]
    obtain ⟨ws, rfl, hws⟩ := accepts_of_items hrs (valid_of_entries hreport h hlength rfl)
    obtain ⟨es, hes, rfl⟩ := accepts_entryItems.1 hws
    rw [entries_ok report (by simpa using hes.length_eq) rfl] at h
    split at h
    · rename_i hall
      exact ⟨es, hes, fun e he => List.all_eq_true.1 hall e he,
        (congrArg Result.value (Except.ok.inj h)).symm⟩
    · cases h
  · rintro ⟨es, hes, hall, rfl⟩
    refine bind_eq_ok.2 ⟨_, items_accepts (accepts_entryItems.2 ⟨es, hes, rfl⟩), ?_⟩
    rw [entries_ok report (by simpa using hes.length_eq) rfl,
      if_pos (List.all_eq_true.2 fun e he => hall e he)]
    rfl

theorem map_accepts {k x : Schema Value} :
    map ctx recur s k x v = .ok (.ok w) ↔ ∃ data es, v.entries? = some data ∧
      AcceptsEntries recur k x data es ∧ (∀ e ∈ es, e.1.isHashable = true) ∧
      w = .dict (Entries.ofList es) := by
  unfold map
  cases hv : v.entries? with
  | none => simp [Result.wrongType, Result.failed]
  | some data =>
    refine (entries_accepts (mapReport_abridges s)).trans ⟨?_, ?_⟩
    · rintro ⟨es, h⟩
      exact ⟨data, es, rfl, h⟩
    · rintro ⟨_, es, hdata, h⟩
      cases hdata
      exact ⟨es, h⟩

/-- A record with open keys. -/
theorem record_accepts {k x : Schema Value} (hk : Construct.enumerated? k = none) :
    record ctx recur s k x v = .ok (.ok w) ↔ ∃ data es, v.entries? = some data ∧
      AcceptsEntries recur k x data es ∧ (∀ e ∈ es, e.1.isHashable = true) ∧
      w = .dict (Entries.ofList es) := by
  unfold record
  cases hv : v.entries? with
  | none => simp [Result.wrongType, Result.failed]
  | some data =>
    simp only [hk]
    refine (entries_accepts (recordReport_abridges s)).trans ⟨?_, ?_⟩
    · rintro ⟨es, h⟩
      exact ⟨data, es, rfl, h⟩
    · rintro ⟨_, es, hdata, h⟩
      cases hdata
      exact ⟨es, h⟩

theorem enumeratedRecord_issues {allowed : List Value} {data : Entries} {placed : List Placed}
    (h : (Structure.enumeratedRecord s ctx allowed v data placed).issues = []) :
    issuesUnder placed = [] ∧ (data.map (·.1)).filter (fun k => !k.isIn allowed) = [] := by
  unfold Structure.enumeratedRecord at h
  dsimp only at h
  split at h
  · rename_i hstop
    exact ⟨h, by simpa [h] using hstop⟩
  · exact absurd (List.append_eq_nil_iff.1 h).2 (List.cons_ne_nil _ _)

/-- A record with listed keys. -/
theorem enumeratedRecord_accepts {k x : Schema Value} {allowed : List Value}
    (hk : Construct.enumerated? k = some allowed) :
    record ctx recur s k x v = .ok (.ok w) ↔ Value.areHashable allowed = true ∧
      ∃ data ws, v.entries? = some data ∧ Accepts recur (enumeratedItems x data allowed) ws ∧
        (∀ e ∈ data, e.1.isIn allowed = true) ∧
        w = .dict (Entries.ofList (Entries.present (allowed.zip ws))) := by
  have hok {data : Entries} (ws : List Value)
      (hdata : (data.map (·.1)).filter (fun k => !k.isIn allowed) = []) :
      Structure.enumeratedRecord s ctx allowed v data (placedAt allowed (ws.map .ok)) =
        .ok (.dict (Entries.ofList (Entries.present (allowed.zip ws)))) := by
    simp only [Structure.enumeratedRecord, issuesUnder_ok, hdata, List.isEmpty_nil, Bool.true_or,
      if_true, enumeratedOutputs, outputs_ok]
  unfold record
  constructor
  · intro h
    cases hv : v.entries? with
    | none =>
      rw [hv] at h
      cases h
    | some data =>
      simp only [hv, hk] at h
      split at h
      · cases h
      · rename_i hhashable
        obtain ⟨rs, hrs, h⟩ := bind_eq_ok.1 h
        have h := Except.ok.inj h
        obtain ⟨hissues, hdata⟩ := enumeratedRecord_issues (congrArg Result.issues h)
        obtain ⟨ws, rfl, hws⟩ := accepts_of_items hrs
          (valid_of_issuesUnder (by simpa [enumeratedItems] using items_length_le hrs) hissues)
        rw [hok ws hdata] at h
        exact ⟨by simpa using hhashable, data, ws, rfl, hws, by simpa using hdata,
          (congrArg Result.value h).symm⟩
  · rintro ⟨hhashable, data, ws, hv, hws, hdata, rfl⟩
    rw [hv]
    simp only [hk, hhashable, Bool.not_true, Bool.false_eq_true, if_false]
    exact bind_eq_ok.2 ⟨_, items_accepts hws, congrArg _ (hok ws (by simpa using hdata))⟩

/-! ## Sets -/

theorem set_ok (ws : List Value) : Structure.set (ws.map .ok) =
    if Value.areHashable ws then .ok (.ok (.set (Value.membersOf ws)))
    else .error .unsupported := by
  have hvalues : ((ws.map Result.ok).filter Result.valid).map (·.value) = ws := by
    rw [List.filter_eq_self.2 fun r hr => ?_, List.map_map]
    · exact List.map_id' ws
    · obtain ⟨w, -, rfl⟩ := List.mem_map.1 hr
      rfl
  have hissues : (ws.map Result.ok).flatMap (·.issues) = [] := by
    simp
  simp only [Structure.set, hvalues, hissues]

/-- What a set makes of its members. -/
theorem members_accepts {ps : List (Schema Value × Value)} :
    (items recur ctx ps >>= Structure.set) = .ok (.ok w) ↔ ∃ ws, Accepts recur ps ws ∧
      Value.areHashable ws = true ∧ w = .set (Value.membersOf ws) := by
  constructor
  · intro h
    obtain ⟨rs, hrs, h⟩ := bind_eq_ok.1 h
    have hvalid : ∀ r ∈ rs, r.valid = true := by
      unfold Structure.set at h
      dsimp only at h
      split at h
      · intro r hr
        have hnil := List.flatMap_eq_nil_iff.1 (congrArg Result.issues (Except.ok.inj h)) r hr
        exact Result.valid_iff.2 hnil
      · cases h
    obtain ⟨ws, rfl, hws⟩ := accepts_of_items hrs hvalid
    rw [set_ok] at h
    split at h
    · exact ⟨ws, hws, ‹_›, (congrArg Result.value (Except.ok.inj h)).symm⟩
    · cases h
  · rintro ⟨ws, hws, hhashable, rfl⟩
    exact bind_eq_ok.2 ⟨_, items_accepts hws, by rw [set_ok, if_pos hhashable]⟩

/-- A set accepts a set with the outputs of its members. -/
theorem set_accepts {element : Schema Value} :
    set ctx recur s element v = .ok (.ok w) ↔ ∃ vs ws, (v = .set vs ∨ v = .frozenSet vs) ∧
      Accepts recur ((Value.listed vs).map fun x => (element, x)) ws ∧
      Value.areHashable ws = true ∧ w = .set (Value.membersOf ws) := by
  have hmembers (vs : List Value) :=
    @members_accepts recur ctx w ((Value.listed vs).map fun x => (element, x))
  constructor
  · intro h
    unfold set at h
    split at h
    · exact ⟨_, _, .inl rfl, ((hmembers _).1 h).choose_spec⟩
    · exact ⟨_, _, .inr rfl, ((hmembers _).1 h).choose_spec⟩
    · cases h
  · rintro ⟨vs, ws, rfl | rfl, h⟩
    · exact (hmembers vs).2 ⟨ws, h⟩
    · exact (hmembers vs).2 ⟨ws, h⟩

/-! ## Unions -/

/-- The first result without issues is the result of an option. -/
theorem option_of_valid {schemas : List (Schema Value)} {thorough : Bool} {rs : List Result}
    (h : options recur thorough v schemas = .ok rs) {r : Result}
    (hr : rs.find? Result.valid = some r) : ∃ o ∈ schemas, recur o v = .ok r ∧ r.valid = true := by
  obtain ⟨o, ho, hread⟩ := of_mem_options h r (List.mem_of_find?_eq_some hr)
  exact ⟨o, ho, hread, List.find?_some hr⟩

/-- What a union accepts one of its options accepts. -/
theorem union_accepted {schemas : List (Schema Value)} {thorough : Bool}
    (h : (do return unionResult s v (← options recur thorough v schemas)) = .ok (.ok w)) :
    ∃ o ∈ schemas, recur o v = .ok (.ok w) := by
  obtain ⟨rs, hrs, h⟩ := bind_eq_ok.1 h
  have h := Except.ok.inj h
  unfold unionResult at h
  split at h
  · rename_i r hr
    obtain ⟨o, ho, hrecur, hvalid⟩ := option_of_valid hrs hr
    rw [Result.eq_ok hvalid, congrArg Result.value h] at hrecur
    exact ⟨o, ho, hrecur⟩
  · cases h

/-- An intersection merges what its sides accept. -/
theorem intersection_accepted {l r : Schema Value}
    (h : (do intersectionResult v (← items recur ctx [(l, v), (r, v)])) = .ok (.ok w)) :
    ∃ a b, recur l v = .ok (.ok a) ∧ recur r v = .ok (.ok b) ∧ mergeValues [] a b = .ok w := by
  obtain ⟨rs, hrs, h⟩ := bind_eq_ok.1 h
  have hnil : rs.flatMap (·.issues) = [] := by
    refine Classical.byContradiction fun hne => ?_
    have hfailed : intersectionResult v rs = .ok ⟨v, rs.flatMap (·.issues)⟩ := by
      unfold intersectionResult
      split
      · rw [if_neg (by simpa using hne)]
      · rfl
    exact hne (congrArg Result.issues (Except.ok.inj (hfailed.symm.trans h)))
  obtain ⟨ws, rfl, hws⟩ := accepts_of_items hrs
    fun r hr => Result.valid_iff.2 (List.flatMap_eq_nil_iff.1 hnil r hr)
  match ws, hws with
  | [a, b], .cons ha (.cons hb .nil) =>
    obtain ⟨m, hm, h⟩ := bind_eq_ok.1 h
    obtain rfl : m = w := congrArg Result.value (Except.ok.inj h)
    exact ⟨a, b, ha, hb, hm⟩

/-! ## Modifiers -/

/-- A readonly schema freezes what its inner one accepts. -/
theorem readonly_accepts {t : Schema Value} {w : Value} :
    (do
      let r ← recur t v
      return if r.valid then ⟨r.value.freeze, []⟩ else r : Except Fault Result) = .ok (.ok w) ↔
      ∃ x, recur t v = .ok (.ok x) ∧ w = x.freeze := by
  constructor
  · intro h
    obtain ⟨r, hr, h⟩ := bind_eq_ok.1 h
    have h := Except.ok.inj h
    split at h
    · rename_i hvalid
      exact ⟨r.value, hr.trans (congrArg _ (Result.eq_ok hvalid)), (congrArg Result.value h).symm⟩
    · rename_i hinvalid
      subst h
      exact absurd rfl hinvalid
  · rintro ⟨x, hx, rfl⟩
    exact bind_eq_ok.2 ⟨_, hx, rfl⟩

end Meaning

/-! ## Schemas -/

variable {host : Host} {σ : Session} {ctx : Context} {thorough : Bool}

/-- The schema is evaluated by its own form: no other evaluator is registered for its kind. -/
def Schema.IsOwn (σ : Session) (s : Schema Value) : Prop :=
  ∀ fn, σ.kinds.evaluator? s.kind = .ok fn → fn = .builtin .evaluateNode

/-- The checks of a schema run on what its form has accepted. -/
theorem checks_accepts {s : Schema Value} {r : Result} {w : Value} :
    Meaning.checks host σ ctx s r = .ok (.ok w) ↔
      ∃ u, r = .ok u ∧ Meaning.checksFrom host σ ctx s.allChecks (.ok u) = .ok (.ok w) := by
  unfold Meaning.checks
  constructor
  · intro h
    split at h
    · rename_i hr
      exact ⟨r.value, Result.eq_ok hr, Result.eq_ok hr ▸ h⟩
    · rename_i hr
      obtain rfl : r = .ok w := Except.ok.inj h
      exact absurd rfl hr
  · rintro ⟨u, rfl, h⟩
    exact h

/-- The checks accept a value if the first one accepts it and the others what it leaves. -/
theorem checksFrom_accepts {c : Value} {cs : List Value} {u w : Value} :
    Meaning.checksFrom host σ ctx (c :: cs) (.ok u) = .ok (.ok w) ↔
      ∃ x, Meaning.check host σ c u = .ok (.ok x) ∧
        Meaning.checksFrom host σ ctx cs (.ok x) = .ok (.ok w) := by
  rw [Meaning.checksFrom]
  constructor
  · intro h
    obtain ⟨outcome, houtcome, h⟩ := bind_eq_ok.1 h
    have hvalid : outcome.valid = true := by
      split at h
      · exact Result.valid_iff.2 (congrArg Result.issues (Except.ok.inj h))
      · obtain ⟨more, hmore⟩ := Meaning.checksFrom_issues h
        exact Result.valid_iff.2 (List.append_eq_nil_iff.1 hmore.symm).1
    have hhalts : halts ctx c outcome = false := by simp [halts, hvalid]
    rw [hhalts, Result.eq_ok hvalid] at h
    exact ⟨outcome.value, Result.eq_ok hvalid ▸ houtcome, h⟩
  · rintro ⟨x, hx, h⟩
    rw [hx]
    exact h

/-- A schema of a form accepts what the form and then the checks accept. -/
theorem meaning_accepts {fuel : Nat} {s : Schema Value} {v w : Value} (hs : s.IsOwn σ)
    (h : meaning host σ ctx thorough (fuel + 1) s v = .ok (.ok w)) :
    ∃ u, Meaning.form host σ ctx thorough (meaning host σ ctx thorough fuel) fuel s v
        = .ok (.ok u) ∧
      Meaning.checksFrom host σ ctx s.allChecks (.ok u) = .ok (.ok w) := by
  obtain ⟨fn, hfn, h⟩ := bind_eq_ok.1 h
  obtain rfl := hs fn hfn
  obtain ⟨r, hr, h⟩ := bind_eq_ok.1 h
  obtain ⟨u, rfl, hu⟩ := checks_accepts.1 h
  exact ⟨u, hr, hu⟩

theorem checks_nil {s : Schema Value} (hchecks : s.allChecks = []) (r : Result) :
    Meaning.checks host σ ctx s r = .ok r := by
  unfold Meaning.checks
  rw [hchecks]
  split <;> rfl

/-- A schema without checks is read as its form. -/
theorem meaning_of_form {fuel : Nat} {s : Schema Value} {v : Value}
    (hkind : σ.kinds.evaluator? s.kind = .ok (.builtin .evaluateNode))
    (hchecks : s.allChecks = []) : meaning host σ ctx thorough (fuel + 1) s v
      = Meaning.form host σ ctx thorough (meaning host σ ctx thorough fuel) fuel s v := by
  rw [meaning, hkind]
  simp only [bind, Except.bind]
  cases Meaning.form host σ ctx thorough (meaning host σ ctx thorough fuel) fuel s v with
  | error e => rfl
  | ok r => exact checks_nil hchecks r

theorem conclude_accepted {r : Result} {w : Value} :
    (conclude host ctx r).answer σ = .ok (.accepted w) ↔ r = .ok w := by
  constructor
  · intro h
    obtain ⟨hvalid, rfl⟩ := conclude_answer h
    exact Result.eq_ok hvalid
  · rintro rfl
    rfl

/-- A parse accepts a value with what the schema accepts it with. -/
theorem parsed_accepted {s : Schema Value} {v w : Value} :
    Meaning.parsed host σ ctx thorough s v = .ok (.accepted w) ↔
      meaning host σ ctx thorough s.budget s v = .ok (.ok w) := by
  unfold Meaning.parsed
  rw [bind_eq_ok]
  constructor
  · rintro ⟨r, hr, hw⟩
    rw [hr, conclude_accepted.1 hw]
  · exact fun h => ⟨_, h, conclude_accepted.2 rfl⟩

end Assay
