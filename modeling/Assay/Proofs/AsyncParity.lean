import Assay.Proofs.Adequacy
import Assay.Proofs.Purity
import Assay.Proofs.StockFunctions
import Assay.Proofs.Suspension

/-!
# Asynchronous functions do not change the outcome

Functions whose answers are awaited may be made asynchronous, any of them, and may complete in any
order (`Host.Suspends`). When the functions of a schema are pure, the parse that waits for them
comes to what the parse that does not wait came to (`async_parity`).

That needs functions to be pure which are never awaited, too: a union whose options have to be
waited for tries all of them, and so may call the factory of a default value that it would not
have called otherwise (`async_parity_needs_pure_defaults`).
-/

namespace Assay

open Run

/-- Nothing that the schema may call for the value raises a fault, the options of a union behind
its first valid one included. -/
def Schema.IsQuiet (host : Host) (σ : Session) (ctx : Context) (s : Schema Value) (v : Value) :
    Prop :=
  ∃ r, meaning host σ ctx true s.budget s v = .ok r

section

variable {host host' : Host} {σ τ : Session} {I : Session → Prop} {pool : Schema Value → Prop}
  {ctx : Context} {s : Schema Value} {v : Value} {p : Parsed}

/-- In a settled family, a parse that may wait comes to nothing but what its meaning comes to, and
it does come to that if nothing raises a fault. -/
theorem safeParse_follows (hhosts : host.Suspends host') (hprompt : host.Prompt)
    (hkeeps : host.Keeps I) (h : Settled host σ I pool)
    (hwords : ∀ issues, (Resolution.finalizeActive host ctx issues).Fixed I) (hs : pool s)
    (hp : Meaning.parsed host σ ctx false s v = .ok p) :
    (safeParse host' (ctx.mayWait true) s v).Always I fun e =>
      (∀ q, e = .ok q → q = p) ∧ (s.IsQuiet host σ ctx v → e = .ok p) := by
  obtain ⟨r, hr, hconclude⟩ := bind_eq_ok.1 hp
  have hconclude' : (conclude host' (ctx.mayWait true) r).Gives I (.ok p) := by
    rw [(hhosts.agrees hprompt).conclude_eq, ← hconclude]
    exact (conclude_fixed hwords r).gives h.here
  -- The prompt reading says what is reached, the thorough one that something is.
  have hnow : (evaluate host' (ctx.mayWait true) s.budget s v).Follows false I
      (meaning host σ ctx false s.budget s v) :=
    evaluate_follows hhosts hprompt hkeeps h s.budget hs v
  have hall : (evaluate host' (ctx.mayWait true) s.budget s v).Follows true I
      (meaning host σ ctx true s.budget s v) :=
    evaluate_follows hhosts hprompt hkeeps h s.budget hs v
  have hparse : safeParse host' (ctx.mayWait true) s v =
      (do (← evaluate host' (ctx.mayWait true) s.budget s v).settle) >>=
        conclude host' (ctx.mayWait true) := by
    rw [safeParse, bind_assoc]
  rw [hparse]
  refine (hnow.and hall).settle.bind (fun r' hr' => ?_) fun f hf => ?_
  · obtain ⟨w, hvalue, -⟩ := hr'
    obtain rfl : r' = r := hvalue r hr
    exact hconclude'.mono fun e he => ⟨fun q hq => by cases he.symm.trans hq; rfl, fun _ => he⟩
  · obtain ⟨w, -, herror⟩ := hf
    exact ⟨fun q hq => (nomatch hq), fun ⟨r', hr'⟩ => nomatch herror r' hr'⟩

/-- Whatever functions are made asynchronous, a parse that waits for them, from a session that is
as the one before for all that pure functions can see, reaches no other outcome than the parse
that does not wait, whichever options it has, and in whichever order awaited functions complete.
If nothing that may be called raises a fault then it reaches that outcome. -/
theorem async_parity (hpure : s.IsPure host σ) (hhosts : host.Suspends host')
    (hsync : (safeParse host (ctx.mayWait false) s v).answer σ = .ok p) (hτ : σ.Like host s τ) :
    (∀ q, (safeParse host' (ctx.mayWait true) s v).answer τ = .ok q → q = p) ∧
      (s.IsQuiet host σ ctx v →
        (safeParse host' (ctx.mayWait true) s v).answer τ = .ok p) := by
  have hparsed : Meaning.parsed host σ ctx false s v = .ok p := by
    rw [← (safeParse_gives hpure.settled (hpure.words_fixed ctx) .self v).answer hpure.settled.here, hsync]
  exact (safeParse_follows hhosts hpure.prompt hpure.keeps hpure.settled (hpure.words_fixed ctx)
    .self hparsed τ hτ).2

end

/-! ## A default value behind a union -/

namespace Shared

open Stock (hostThat)

/-- A synchronous function of the stock. -/
def supplied (name : String) (captured : List Value) : Value := .callable ⟨0, name, captured, false⟩

def anything : Schema Value := ⟨0, .str "any", .any, [], [], .null⟩

/-- Anything, and what the factory makes in place of an absent value. -/
def made (factory : Value) : Schema Value :=
  ⟨1, .str "default", .default anything factory, [], [], .null⟩

/-- Anything, as its predicate accepts all. -/
def accepted : Schema Value :=
  let check : Check Value :=
    ⟨2, .refinement (supplied "const" [.bool true]) .null .null, .null, .null⟩
  ⟨3, .str "any", .any, [], [.check check], .null⟩

/-- Objects with something made. -/
def holder (factory : Value) : Schema Value :=
  ⟨4, .str "object", .object [(.str "x", made factory)] .strip none, [], [], .null⟩

/-- Anything, the second option being an object with something made. -/
def either (factory : Value) : Schema Value :=
  ⟨5, .str "union", .union [accepted, holder factory], [], [], .null⟩

/-- Such a value followed by something made. -/
def pair (factory : Value) : Schema Value :=
  ⟨6, .str "tuple", .tuple [either factory, made factory] none, [], [], .null⟩

/-- A pair without a second item. -/
def value : Value := .list [.dict []]

variable {factory : Value}

theorem reached_cases {t : Schema Value} (h : (pair factory).Reaches (hostThat false) {} t) :
    t = pair factory ∨ t = either factory ∨ t = holder factory ∨ t = accepted ∨
      t = made factory ∨ t = anything := by
  induction h with
  | self => exact .inl rfl
  | @part t u _ hu ih =>
    rcases ih with rfl | rfl | rfl | rfl | rfl | rfl
    · have hu : u ∈ [either factory, made factory] := hu
      rcases List.mem_pair.1 hu with rfl | rfl <;> simp
    · have hu : u ∈ [accepted, holder factory] := hu
      rcases List.mem_pair.1 hu with rfl | rfl <;> simp
    · have hu : u = made factory := List.mem_singleton.1 hu
      simp [hu]
    · cases hu
    · have hu : u = anything := List.mem_singleton.1 hu
      simp [hu]
    · cases hu
  | lazily _ hform _ ih => rcases ih with rfl | rfl | rfl | rfl | rfl | rfl <;> cases hform

/-- With a factory that does not count all functions of the schema are pure. -/
theorem pair_isPure {name : String} {captured : List Value} (hname : name ≠ "counter") :
    (pair (supplied name captured)).IsPure (hostThat false) {} where
  functions t ht fn hfn := by
    have hpure : ∀ name captured, name ≠ "counter" →
        (hostThat false).IsPure {} (supplied name captured) :=
      fun _ _ hname => Stock.isPure hname {}
    rcases reached_cases ht with rfl | rfl | rfl | rfl | rfl | rfl
    · cases hfn
    · cases hfn
    · cases hfn
    · rw [show fn = supplied "const" [.bool true] from List.mem_singleton.1 hfn]
      exact hpure _ _ (by decide)
    · rw [show fn = supplied name captured from List.mem_singleton.1 hfn]
      exact hpure _ _ hname
    · cases hfn
  evaluators t ht fn hfn := by
    rcases reached_cases ht with rfl | rfl | rfl | rfl | rfl | rfl <;> (cases hfn; trivial)
  providers f i τ _ := Stock.wording_exec f i {} τ
  defaults t ht d hd := by
    rcases reached_cases ht with rfl | rfl | rfl | rfl | rfl | rfl <;> cases hd
    rfl
  lazies t u getter name getter' name' ht _ hform := by
    rcases reached_cases ht with rfl | rfl | rfl | rfl | rfl | rfl <;> cases hform
  settings := Stock.host_settings
  prompt _ _ _ := rfl

end Shared

open Shared Stock in
/-- A pure factory: the option that is tried in vain does no harm. -/
theorem async_parity_pair :
    (safeParse (hostThat true) (Context.mayWait {} true) (pair (supplied "value" [.int 7]))
      value).answer {} = .ok (.accepted (.tuple [.dict [], .int 7])) :=
  (async_parity (pair_isPure (by decide)) suspends rfl (.refl ..)).2 ⟨_, rfl⟩

open Shared Stock in
/-- A factory that counts: the predicate is pure and nothing raises a fault, but the union tries
its second option only when the first has to be waited for. -/
theorem async_parity_needs_pure_defaults :
    (hostThat false).IsPure {} (supplied "const" [.bool true]) ∧
      (hostThat false).Suspends (hostThat true) ∧
      (pair (supplied "counter" [])).IsQuiet (hostThat false) {} {} value ∧
      (safeParse (hostThat false) (Context.mayWait {} false) (pair (supplied "counter" []))
        value).answer {} = .ok (.accepted (.tuple [.dict [], .int 0])) ∧
      (safeParse (hostThat true) (Context.mayWait {} true) (pair (supplied "counter" []))
        value).answer {} = .ok (.accepted (.tuple [.dict [], .int 1])) :=
  ⟨isPure (by decide) {}, suspends, ⟨_, rfl⟩, rfl, rfl⟩

end Assay
