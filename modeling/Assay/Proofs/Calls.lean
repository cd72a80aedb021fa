import Assay.Evaluate.Lazy
import Assay.Proofs.Triple

/-!
# Triples of calls

Calling a function notes the call, and perhaps gives out a number or spends a pending value. An
invariant that does not look at these (`Bookkeeping`) is kept by a call when the function itself
keeps it, and what the call comes to is what the function does (`Host.start_brings`).
-/

namespace Assay

/-- The invariant does not look at the calls made, the numbers given out and the pending values
awaited. -/
structure Bookkeeping (I : Session → Prop) : Prop where
  calls : ∀ σ c, I σ → I { σ with calls := c :: σ.calls }
  refs : ∀ σ n, I σ → I { σ with nextRef := n }
  spent : ∀ σ r, I σ → I { σ with spent := r :: σ.spent }

/-- Whatever a supplied function does, it keeps the invariant. -/
def Host.Keeps (host : Host) (I : Session → Prop) : Prop :=
  ∀ f call, (host.run f call).Keeps I

variable {host : Host} {I : Session → Prop}

/-! ## Classes -/

namespace Bookkeeping

theorem freshRef (hI : Bookkeeping I) : Run.freshRef.Keeps I :=
  fun σ hσ => ⟨hI.refs σ _ hσ, trivial⟩

theorem start (hI : Bookkeeping I) (c : ClassRef Value) : c.start.Keeps I := by
  cases c with
  | builtin t => cases t <;> exact .pure
  | object name => exact hI.freshRef.bind fun _ => .pure
  | enumeration c => exact .throw

theorem floatOf (hI : Bookkeeping I) (s : String) : (ClassRef.floatOf s).Keeps I := by
  unfold ClassRef.floatOf
  split
  · exact .pure
  · exact .pure
  · exact hI.freshRef.bind fun _ => .pure
  · exact .throw

theorem toFloat (hI : Bookkeeping I) (v : Value) : (ClassRef.toFloat v).Keeps I := by
  unfold ClassRef.toFloat
  split
  · exact .pure
  · exact .pure
  · exact hI.floatOf _
  · exact hI.floatOf _
  · split
    · dsimp only
      split
      · exact .pure
      · exact .throw
    · exact .throw

theorem toInt (v : Value) : (ClassRef.toInt v).Keeps I := by
  unfold ClassRef.toInt
  split
  · exact .pure
  · exact .pure
  · split
    · exact .pure
    · exact .throw
  · exact .throw
  · exact .ofOption
  · exact .ofOption
  · exact .throw

theorem convert (hI : Bookkeeping I) (c : ClassRef Value) (v : Value) :
    (c.convert v).Keeps I := by
  unfold ClassRef.convert
  split
  · exact toInt v
  · exact .pure
  · exact hI.toFloat v
  · exact .pure
  · exact .ofOption
  · exact .ofOption
  · split
    · split
      · exact .pure
      · exact .throw
    · exact .throw
  · exact .lift
  · exact .lift
  · exact .throw
  · split
    · split
      · exact .pure
      · exact .throw
    · split
      · exact .pure
      · exact .throw

theorem callClass (hI : Bookkeeping I) (c : ClassRef Value) (call : Call Value) :
    (c.call call).Keeps I := by
  unfold ClassRef.call
  split
  · exact hI.start c
  · exact hI.convert c _
  · exact .throw

end Bookkeeping

/-! ## Functions -/

namespace Host

variable {Q : Except Fault (Timed Result) → Prop} {fn : Value} {call : Call Value}

theorem note_always (hI : Bookkeeping I) (f : Callable Value) (call : Call Value) :
    (host.note f call).Always I fun e => e = .ok () := by
  unfold note
  split
  · exact .pure rfl
  · exact fun σ hσ => ⟨hI.calls σ _ hσ, rfl⟩

/-- Calling a supplied function, with the right number of arguments or not. -/
theorem invoke_brings (hI : Bookkeeping I) {f : Callable Value}
    (harity : host.arity f ≠ call.arity → Q (.error .unsupported))
    (hrun : host.arity f = call.arity →
      (host.run f call).Always I fun e => Q (e.map (⟨·, host.isAsync f call⟩))) :
    (host.invoke f call).Brings I Q := by
  unfold invoke
  split
  · rename_i h
    exact .throw (harity (by simpa using h))
  · rename_i h
    have hr := hrun (by simpa using h)
    refine .bind (note_always hI f call) (fun _ _ => ?_) fun _ h => nomatch h
    cases hasync : host.isAsync f call with
    | true =>
      simp only [hasync] at hr
      exact .later hr
    | false =>
      simp only [hasync] at hr
      exact hr.map (fun _ hQ => hQ) fun _ hQ => hQ

/-- Calling any value: what it comes to is what the function does. -/
theorem start_brings (hI : Bookkeeping I) (hother : Q (.error .unsupported))
    (hcallable : ∀ f, fn = .callable f → host.arity f = call.arity →
      (host.run f call).Always I fun e => Q (e.map (⟨·, host.isAsync f call⟩)))
    (hbuiltin : ∀ b, fn = .builtin b → Q ((b.call call).map (⟨⟨·, []⟩, false⟩)))
    (hclass : ∀ c, fn = .cls c → (c.call call).Always I fun e => Q (e.map (⟨⟨·, []⟩, false⟩))) :
    (host.start fn call).Brings I Q := by
  unfold start
  split
  · exact invoke_brings hI (fun _ => hother) (hcallable _ rfl)
  · rename_i b
    refine Run.Always.bind (Run.Always.lift (Q := fun e => e = b.call call) rfl) ?_ ?_
    · intro v hv
      have := hbuiltin b rfl
      rw [← hv] at this
      exact .pure this
    · intro e he
      have := hbuiltin b rfl
      rw [← he] at this
      exact this
  · exact (hclass _ rfl).bind (fun _ hQ => .pure hQ) fun _ hQ => hQ
  · exact .throw hother

/-- Calling any value keeps what all functions keep. -/
theorem start_keeps (hI : Bookkeeping I) (h : host.Keeps I) :
    (host.start fn call).Brings I fun _ => True :=
  start_brings hI trivial (fun f _ _ => h f call) (fun _ _ => trivial)
    fun c _ => hI.callClass c call

theorem call_keeps (hI : Bookkeeping I) (h : host.Keeps I) : (host.call fn call).Keeps I := by
  have hstart : (host.start fn call).Brings I fun _ => True := start_keeps hI h
  refine Run.Always.bind hstart (fun o ho => ?_) fun _ _ => trivial
  split
  · exact Run.Keeps.pure
  · exact hI.freshRef.bind fun _ => .pure
  · exact Outcome.brings_later.1 ho

end Host

end Assay
