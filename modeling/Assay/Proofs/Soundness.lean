import Assay.Proofs.Conformance
import Assay.Proofs.Containers
import Assay.Proofs.StockFunctions

/-!
# Outputs conform

What a schema accepts a value with conforms to it (`outputs_conform`). Each form gives its output
the shape that it asks for as soon as nested schemas are met by outputs that conform
(`form_shaped`), and running the checks is the way through them (`checksFrom_checked`); the rest is
an induction on the levels of an evaluation.
-/

namespace Assay

open Structure

variable {host : Host} {σ : Session} {ctx : Context} {thorough : Bool}

/-! ## Scalars -/

theorem require_ok {test : Value → Bool} {expected : String} {s : Schema Value} {v u : Value} :
    Scalar.require test expected s v = .ok u ↔ test v = true ∧ u = v := by
  unfold Scalar.require
  split
  · rename_i h
    simp [h, eq_comm]
  · rename_i h
    simp [h, Result.wrongType, Result.failed]

theorem string_ok {s : Schema Value} {coerce : Bool} {v u : Value}
    (h : Scalar.string s coerce v = .ok u) : ∃ t, u = .str t := by
  obtain ⟨htest, rfl⟩ := require_ok.1 h
  generalize (if coerce then Scalar.coerceString v else v) = x at htest ⊢
  cases x <;> first | exact ⟨_, rfl⟩ | cases htest

theorem number_ok {s : Schema Value} {coerce : Bool} {v u : Value}
    (h : Scalar.number s coerce v = .ok u) : u.isNumber = true := by
  unfold Scalar.number at h
  split at h
  · obtain ⟨htest, rfl⟩ := require_ok.1 h
    exact htest
  · cases h

theorem boolean_ok {s : Schema Value} {coerce : Bool} {v u : Value}
    (h : Scalar.boolean s coerce v = .ok u) : ∃ b, u = .bool b := by
  obtain ⟨htest, rfl⟩ := require_ok.1 h
  generalize (if coerce then Scalar.coerceBoolean v else v) = x at htest ⊢
  cases x <;> first | exact ⟨_, rfl⟩ | cases htest

theorem date_ok {s : Schema Value} {coerce : Bool} {v u : Value}
    (h : Scalar.date s coerce v = .ok u) : (∃ d, u = .date d) ∨ ∃ t, u = .moment t := by
  unfold Scalar.date at h
  split at h
  · rename_i x _
    obtain ⟨htest, rfl⟩ := require_ok.1 h
    cases u <;> first | exact .inl ⟨_, rfl⟩ | exact .inr ⟨_, rfl⟩ | cases htest
  · cases h

theorem literal_ok {s : Schema Value} {values : List Value} {v u : Value}
    (h : Scalar.literal s values v = .ok u) : values.any v.same = true ∧ u = v := by
  unfold Scalar.literal at h
  split at h
  · exact ⟨‹_›, (congrArg Result.value h).symm⟩
  · cases h

theorem listed_ok {s : Schema Value} {entries : List (Value × Value)} {v u : Value}
    (h : Scalar.enumeration s entries none v = .ok u) :
    (entries.map (·.2)).any v.same = true ∧ u = v := by
  unfold Scalar.enumeration at h
  dsimp only at h
  split at h
  · exact ⟨‹_›, (congrArg Result.value h).symm⟩
  · cases h

/-- A class of members accepts a value with a member. -/
theorem member_ok {s : Schema Value} {entries : List (Value × Value)} {c : EnumClass Value}
    {v u : Value} (h : Scalar.enumeration s entries (some c) v = .ok u) :
    ∃ d name x, d.ref = c.ref ∧ u = .member d name x := by
  unfold Scalar.enumeration at h
  dsimp only at h
  split at h
  · rename_i m hm
    obtain rfl : m = u := congrArg Result.value h
    have hfound {m} {found : Option (String × Value)}
        (hm : (found.map fun m => Value.member c m.1 m.2) = some m) :
        ∃ d name x, d.ref = c.ref ∧ m = .member d name x := by
      obtain ⟨n, -, rfl⟩ := Option.map_eq_some_iff.1 hm
      exact ⟨c, _, _, rfl, rfl⟩
    unfold Scalar.memberOf? at hm
    split at hm
    · split at hm
      · rename_i hd
        cases hm
        exact ⟨_, _, _, by simpa using hd, rfl⟩
      · exact hfound hm
    · exact hfound hm
  · cases h

/-! ## Forms -/

section

-- How a value is read against a nested schema: what is accepted conforms.
variable {recur : Schema Value → Value → Except Fault Result}
  (hrec : ∀ t v w, recur t v = .ok (.ok w) → Conforms host σ t w)

include hrec

/-- The entries of an object's output are named by the shape or unknown, and its absent ones may
be absent. -/
theorem object_shaped {s : Schema Value} {shape : List (Value × Schema Value)}
    {policy : UnknownKeys} {catchall : Option (Schema Value)} {v u : Value}
    (h : Meaning.object ctx recur s shape policy catchall v = .ok (.ok u)) :
    Shaped host σ s (.object shape policy catchall) u := by
  obtain ⟨data, ws, -, hws, -, rfl⟩ := Meaning.object_accepts.1 h
  have hunknown {e : Value × Value} (he : e ∈ unknownKeys shape data) :
      (shape.any fun f => f.1.isFound e.1) = false := by
    simpa using (List.mem_filter.1 he).2
  refine .object (fun e he => ?_) fun f hf hnone => ?_
  · rcases List.mem_append.1 he with hpresent | hpassed
    · obtain ⟨p, hp, hkey, hrecur⟩ := hws.of_mem_zip (Entries.mem_present.1 hpresent).1
      obtain ⟨k, w⟩ := e
      obtain rfl : p.1 = k := hkey
      have hconforms := hrec _ _ _ hrecur
      have hnamed {named : Value × Schema Value × Value}
          (hp : named ∈ shape.map fun f => (f.1, f.2, (data.find? f.1).getD .missing))
          (hconforms : Conforms host σ named.2.1 w) :
          Admitted host σ shape policy catchall (named.1, w) := by
        obtain ⟨f, hf, rfl⟩ := List.mem_map.1 hp
        exact .named hf hconforms
      unfold objectItems at hp
      cases catchall with
      | none => exact hnamed hp hconforms
      | some c =>
        rcases List.mem_append.1 hp with hp | hp
        · exact hnamed hp hconforms
        · obtain ⟨d, hd, rfl⟩ := List.mem_map.1 hp
          exact .caught (hunknown hd) hconforms
    · split at hpassed
      · rename_i hpasses
        rw [Bool.and_eq_true, Option.isNone_iff_eq_none, beq_iff_eq] at hpasses
        obtain ⟨rfl, rfl⟩ := hpasses
        exact .passed (hunknown hpassed)
      · cases hpassed
  · obtain ⟨w, hw, hrecur⟩ := hws.mem_zip (objectItems_named hf)
    by_cases hmissing : w = .missing
    · exact hmissing ▸ hrec _ _ _ hrecur
    · -- A present output would be found.
      have hmem := List.mem_append_left
        (if catchall.isNone && policy == .passthrough then unknownKeys shape data else [])
        (Entries.mem_present.2 ⟨hw, hmissing⟩)
      have := Entries.find?_eq_none.1 hnone _ hmem
      rw [Value.isFound_refl] at this
      cases this

/-- The outputs of a tuple's positions stand in place as far as the input goes. -/
theorem inPlaces_of_accepts {schemas : List (Schema Value)} {rest : Option (Schema Value)}
    {vs ws : List Value} (hlength : vs.length ≤ schemas.length)
    (h : Meaning.Accepts recur (tupleItems rest schemas vs) ws) :
    InPlaces (Conforms host σ) schemas (Meaning.tupleOutput vs.length ws) := by
  induction schemas generalizing vs ws with
  | nil =>
    obtain rfl := List.eq_nil_of_length_eq_zero (Nat.le_zero.1 hlength)
    obtain rfl : ws = [] := by cases rest <;> cases h <;> rfl
    exact .beyond .done
  | cons s schemas ih =>
    cases vs with
    | cons v vs =>
      cases h with
      | cons hw h => exact .here (hrec _ _ _ hw) (ih (Nat.le_of_succ_le_succ hlength) h)
    | nil =>
      refine .beyond ?_
      generalize hss : s :: schemas = ss at h
      clear hss ih hlength
      induction ss generalizing ws with
      | nil =>
        obtain rfl : ws = [] := by cases rest <;> cases h <;> rfl
        exact .done
      | cons s ss ih =>
        cases h with
        | @cons _ w _ ws hw h =>
          have hconforms := hrec _ _ _ hw
          by_cases hmissing : w = .missing
          · subst hmissing
            have hrest := ih h
            exact .absent hconforms hrest
          · have houtput : Meaning.tupleOutput 0 (w :: ws) = w :: Meaning.tupleOutput 0 ws := by
              cases w <;> first | rfl | exact absurd rfl hmissing
            exact houtput ▸ .given hconforms (ih h)

/-- With more items than schemas all positions are there. -/
theorem rest_of_accepts {schemas : List (Schema Value)} {rest : Schema Value} {vs ws : List Value}
    (hlength : schemas.length ≤ vs.length)
    (h : Meaning.Accepts recur (tupleItems (some rest) schemas vs) ws) : ∃ here more,
      ws = here ++ more ∧ List.Forall₂ (Conforms host σ) schemas here ∧
        ∀ w ∈ more, Conforms host σ rest w := by
  induction schemas generalizing vs ws with
  | nil =>
    refine ⟨[], ws, rfl, .nil, fun w hw => ?_⟩
    obtain ⟨p, hp, hrecur⟩ := h.of_mem_output hw
    obtain ⟨v, -, rfl⟩ := List.mem_map.1 hp
    exact hrec _ _ _ hrecur
  | cons s schemas ih =>
    cases vs with
    | nil => cases hlength
    | cons v vs =>
      cases h with
      | @cons _ w _ ws hw h =>
        obtain ⟨here, more, rfl, hhere, hmore⟩ := ih (Nat.le_of_succ_le_succ hlength) h
        exact ⟨w :: here, more, rfl, .cons (hrec _ _ _ hw) hhere, hmore⟩

theorem tuple_shaped {s : Schema Value} {required : Except Fault Nat}
    {schemas : List (Schema Value)} {rest : Option (Schema Value)} {v u : Value}
    (h : Meaning.tuple ctx recur required s schemas rest v = .ok (.ok u)) :
    Shaped host σ s (.tuple schemas rest) u := by
  obtain ⟨vs, n, ws, -, -, hlength, hws, rfl⟩ := Meaning.tuple_accepts.1 h
  by_cases hshort : vs.length ≤ schemas.length
  · exact .tuple (inPlaces_of_accepts hrec hshort hws)
  · have hlong : schemas.length < vs.length := Nat.lt_of_not_le hshort
    cases rest with
    | none =>
      unfold tupleLength at hlength
      dsimp only at hlength
      split at hlength
      · cases hlength
      · rw [if_pos (by simpa using hlong)] at hlength
        cases hlength
    | some rest =>
      have hle := Nat.le_of_lt hlong
      have hall : ws.length = vs.length :=
        (List.Forall₂.length_eq hws).symm.trans (Meaning.length_tupleItems hle)
      obtain ⟨here, more, rfl, hhere, hmore⟩ := rest_of_accepts hrec hle hws
      rw [Meaning.tupleOutput_of_length_le (Nat.le_of_eq hall)]
      exact .tupleWithRest hhere hmore

/-- Accepted entries have outputs that conform, also when equal keys are merged. -/
theorem entries_conform {k x : Schema Value} {data es : Entries}
    (h : Meaning.AcceptsEntries recur k x data es) :
    ∀ e ∈ Entries.ofList es, Conforms host σ k e.1 ∧ Conforms host σ x e.2 := by
  refine Entries.forall_ofList (P := fun i w => Conforms host σ k i ∧ Conforms host σ x w)
    (fun e he => ?_) fun _ _ _ _ hi hj _ => ⟨hi.1, hj.2⟩
  induction h with
  | nil => cases he
  | cons hd _ ih =>
    rcases List.mem_cons.1 he with rfl | he
    · exact ⟨hrec _ _ _ hd.1, hrec _ _ _ hd.2⟩
    · exact ih he

theorem record_shaped {s k x : Schema Value} {v u : Value}
    (h : Meaning.record ctx recur s k x v = .ok (.ok u)) : Shaped host σ s (.record k x) u := by
  cases hk : Construct.enumerated? k with
  | none =>
    obtain ⟨data, es, -, hes, -, rfl⟩ := (Meaning.record_accepts hk).1 h
    have hconforms := entries_conform hrec hes
    exact .record hk (fun e he => (hconforms e he).1) fun e he => (hconforms e he).2
  | some allowed =>
    obtain ⟨-, data, ws, -, hws, -, rfl⟩ := (Meaning.enumeratedRecord_accepts hk).1 h
    have hplaces : enumeratedItems x data allowed =
        (allowed.map fun k => (k, x, (data.find? k).getD .missing)).map (·.2) := by
      simp [enumeratedItems]
    have hkeys : (allowed.map fun k => (k, x, (data.find? k).getD Value.missing)).map (·.1) =
        allowed := by
      rw [List.map_map]
      exact List.map_id' allowed
    rw [hplaces] at hws
    have hconforms : ∀ e ∈ Entries.ofList (Entries.present (allowed.zip ws)),
        e.1 ∈ allowed ∧ Conforms host σ x e.2 := by
      refine Entries.forall_ofList (P := fun i w => i ∈ allowed ∧ Conforms host σ x w)
        (fun e he => ?_) fun _ _ _ _ hi hj _ => ⟨hi.1, hj.2⟩
      have hzip := (Entries.mem_present.1 he).1
      rw [← hkeys] at hzip
      obtain ⟨p, hp, hkey, hrecur⟩ := hws.of_mem_zip hzip
      obtain ⟨k, hk, rfl⟩ := List.mem_map.1 hp
      exact ⟨hkey ▸ hk, hrec _ _ _ hrecur⟩
    refine .enumeratedRecord hk (fun e he => (hconforms e he).1) (fun e he => (hconforms e he).2)
      fun k hk hnone => ?_
    obtain ⟨w, hw, hrecur⟩ := hws.mem_zip (List.mem_map_of_mem hk)
    by_cases hmissing : w = .missing
    · exact hmissing ▸ hrec _ _ _ hrecur
    · rw [hkeys] at hw
      exact absurd hnone (Entries.find?_ofList_ne_none (Entries.mem_present.2 ⟨hw, hmissing⟩))

/-- Each form gives its output the shape that it asks for. -/
theorem form_shaped {fuel : Nat} {s : Schema Value} {v u : Value}
    (h : Meaning.form host σ ctx thorough recur fuel s v = .ok (.ok u)) :
    Shaped host σ s s.form u := by
  cases hform : s.form <;> simp only [Meaning.form, hform] at h
  case string coerce =>
    obtain ⟨t, rfl⟩ := string_ok (Except.ok.inj h)
    exact .string
  case format f coerce abort =>
    obtain ⟨t, rfl⟩ := string_ok (Except.ok.inj h)
    exact .format
  case number coerce => exact .number (number_ok (Except.ok.inj h))
  case integer coerce abort => exact .integer (number_ok (Except.ok.inj h))
  case boolean coerce =>
    obtain ⟨b, rfl⟩ := boolean_ok (Except.ok.inj h)
    exact .boolean
  case date coerce =>
    rcases date_ok (Except.ok.inj h) with ⟨d, rfl⟩ | ⟨t, rfl⟩
    · exact .date
    · exact .moment
  case null =>
    obtain ⟨htest, rfl⟩ := require_ok.1 (Except.ok.inj h)
    cases u <;> first | exact .null | cases htest
  case any => exact .any
  case unknown => exact .unknown
  case never => cases h
  case literal values =>
    obtain ⟨hvalues, rfl⟩ := literal_ok (Except.ok.inj h)
    obtain ⟨x, hx, hsame⟩ := List.any_eq_true.1 hvalues
    exact .literal hx hsame
  case enumeration entries cls =>
    cases cls with
    | none =>
      obtain ⟨hvalues, rfl⟩ := listed_ok (Except.ok.inj h)
      obtain ⟨x, hx, hsame⟩ := List.any_eq_true.1 hvalues
      obtain ⟨e, he, rfl⟩ := List.mem_map.1 hx
      exact .listed he hsame
    | some c =>
      obtain ⟨d, name, x, hd, rfl⟩ := member_ok (Except.ok.inj h)
      exact .member hd
  case object shape policy catchall => exact object_shaped hrec h
  case array element =>
    obtain ⟨vs, ws, -, hws, rfl⟩ := Meaning.array_accepts.1 h
    refine .array fun w hw => ?_
    obtain ⟨p, hp, hrecur⟩ := hws.of_mem_output hw
    obtain ⟨v, -, rfl⟩ := List.mem_map.1 hp
    exact hrec _ _ _ hrecur
  case tuple schemas rest => exact tuple_shaped hrec h
  case record k x => exact record_shaped hrec h
  case map k x =>
    obtain ⟨data, es, -, hes, -, rfl⟩ := Meaning.map_accepts.1 h
    have hconforms := entries_conform hrec hes
    exact .map (fun e he => (hconforms e he).1) fun e he => (hconforms e he).2
  case set element =>
    obtain ⟨vs, ws, -, hws, -, rfl⟩ := Meaning.set_accepts.1 h
    refine .set fun w hw => ?_
    obtain ⟨p, hp, hrecur⟩ := hws.of_mem_output (Value.mem_of_membersOf hw)
    obtain ⟨v, -, rfl⟩ := List.mem_map.1 hp
    exact hrec _ _ _ hrecur
  case union options =>
    obtain ⟨o, ho, hrecur⟩ := Meaning.union_accepted h
    exact .union ho (hrec _ _ _ hrecur)
  case discriminatedUnion options d table =>
    unfold Meaning.discriminated at h
    split at h
    · cases h
    · obtain ⟨tag, -, h⟩ := bind_eq_ok.1 h
      dsimp only at h
      split at h
      · rename_i o ho
        exact .discriminatedUnion (pickOption_mem ho) (hrec _ _ _ h)
      · cases h
  case intersection l r =>
    obtain ⟨a, b, ha, hb, hmerge⟩ := Meaning.intersection_accepted h
    exact .intersection (hrec _ _ _ ha) (hrec _ _ _ hb) hmerge
  case optional inner =>
    split at h
    · cases h
      exact .optionalAbsent
    · exact .optional (hrec _ _ _ h)
  case nullable inner =>
    split at h
    · cases h
      exact .nullableNull
    · exact .nullable (hrec _ _ _ h)
  case default inner d =>
    split at h
    · obtain ⟨w, hw, h⟩ := bind_eq_ok.1 h
      cases h
      exact .defaultAbsent hw
    · exact .default (hrec _ _ _ h)
  case prefault inner d =>
    split at h
    · obtain ⟨w, hw, h⟩ := bind_eq_ok.1 h
      exact .prefault (hrec _ _ _ h)
    · exact .prefault (hrec _ _ _ h)
  case catching inner fallback =>
    obtain ⟨r, hr, h⟩ := bind_eq_ok.1 h
    unfold Meaning.caught at h
    split at h
    · obtain rfl := Except.ok.inj h
      exact .catching (hrec _ _ _ hr)
    · split at h
      · rename_i hcallable
        obtain ⟨issues, -, h⟩ := bind_eq_ok.1 h
        obtain ⟨answer, hanswer, h⟩ := bind_eq_ok.1 h
        obtain rfl : answer.value = u := congrArg Result.value (Except.ok.inj h)
        exact .caughtCalling hcallable hanswer
      · rename_i hcallable
        obtain rfl : fallback = u := congrArg Result.value (Except.ok.inj h)
        exact .caught (Bool.eq_false_iff.2 hcallable)
  case readonly inner =>
    obtain ⟨x, hx, rfl⟩ := Meaning.readonly_accepts.1 h
    exact .readonly (hrec _ _ _ hx)
  case promise inner =>
    split at h
    · cases h
    · exact .promise (hrec _ _ _ h)
  case transform fn => exact .transform h
  case pipe source target =>
    obtain ⟨r, hr, h⟩ := bind_eq_ok.1 h
    split at h
    · exact .pipe (hrec _ _ _ h)
    · obtain rfl := Except.ok.inj h
      exact absurd rfl ‹_›
  case lazy getter name =>
    obtain ⟨t, ht, h⟩ := bind_eq_ok.1 h
    exact .lazy ht (hrec _ _ _ h)
  case custom fn params =>
    unfold Meaning.custom at h
    split at h
    · exact .anything
    · obtain ⟨r, hr, h⟩ := bind_eq_ok.1 h
      split at h
      · obtain rfl : v = u := congrArg Result.value (Except.ok.inj h)
        exact .custom hr ‹_›
      · obtain ⟨_, -, h⟩ := bind_eq_ok.1 h
        cases h
  case generic => cases h

end

/-! ## Schemas -/

/-- What a schema accepts a value with conforms to it. -/
theorem meaning_conforms (fuel : Nat) (s : Schema Value) (v w : Value)
    (h : meaning host σ ctx thorough fuel s v = .ok (.ok w)) : Conforms host σ s w := by
  induction fuel generalizing s v w with
  | zero => cases h
  | succ fuel ih =>
    obtain ⟨fn, hfn, h⟩ := bind_eq_ok.1 h
    obtain ⟨r, hr, h⟩ := bind_eq_ok.1 h
    obtain ⟨u, rfl, hchecks⟩ := checks_accepts.1 h
    have hchecked := checksFrom_checked hchecks
    split at hr
    · exact .own hfn (form_shaped ih hr) hchecked
    · exact .foreign hfn ‹_› hr hchecked

namespace Shifting

open Stock (hostThat)

/-- A class with a member for absent values. -/
def cls : EnumClass Value := ⟨0, "E", [("X", .missing)], []⟩

def number : Schema Value := ⟨4, .str "number", .number .null, [], [], .null⟩

/-- A number, or nothing. -/
def optional : Schema Value := ⟨1, .str "optional", .optional number, [], [], .null⟩

def member : Schema Value :=
  ⟨2, .str "enum", .enumeration [(.str "X", .missing)] (some cls), [], [], .null⟩

/-- The member, also for an absent value, or a number. -/
def option : Schema Value := ⟨3, .str "union", .union [member, optional], [], [], .null⟩

/-- Two positions that need not be there. -/
def pair : Schema Value := ⟨0, .str "tuple", .tuple [optional, option] none, [], [], .null⟩

theorem reached_cases {t : Schema Value} (h : pair.Reaches (hostThat false) {} t) :
    t = pair ∨ t = optional ∨ t = option ∨ t = member ∨ t = number := by
  induction h with
  | self => exact .inl rfl
  | @part t u _ hu ih =>
    rcases ih with rfl | rfl | rfl | rfl | rfl
    · have hu : u ∈ [optional, option] := hu
      rcases List.mem_pair.1 hu with rfl | rfl <;> simp
    · have hu : u = number := List.mem_singleton.1 hu
      simp [hu]
    · have hu : u ∈ [member, optional] := hu
      rcases List.mem_pair.1 hu with rfl | rfl <;> simp
    · cases hu
    · cases hu
  | lazily _ hform _ ih => rcases ih with rfl | rfl | rfl | rfl | rfl <;> cases hform

theorem pair_isPure : pair.IsPure (hostThat false) {} := by
  refine Stock.isPure_of_silent fun t ht => ?_
  rcases reached_cases ht with rfl | rfl | rfl | rfl | rfl <;>
    exact ⟨rfl, fun fn hfn => by cases hfn; rfl⟩

/-- The member is no number. -/
theorem not_optional : ¬ Conforms (hostThat false) {} optional (.member cls "X" .missing) := by
  intro h
  cases h with
  | own _ hshaped hchecked =>
    cases hchecked
    cases hshaped with
    | optional h =>
      cases h with
      | own _ hshaped hchecked =>
        cases hchecked
        cases hshaped with
        | number h => cases h
      | foreign hfn hne _ _ =>
        cases hfn
        exact hne rfl
  | foreign hfn hne _ _ =>
    cases hfn
    exact hne rfl

end Shifting

end Assay
