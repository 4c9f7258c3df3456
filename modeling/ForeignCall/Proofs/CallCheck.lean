import ForeignCall.Proofs.Stopping
import ForeignCall.Upcall
import Mathlib.Data.List.Forall2

/-!
# What the checks of a call say

* `CallingSequence.Matches`: arguments in the number and with the carriers that a sequence takes.  A check
  that succeeds also shows that segments cover their layouts;
* `Upcall.checkResult_eq`: once the layout of the result has a size, an upcall checks its result in one go.
-/

namespace ForeignCall

namespace CallingSequence

variable {s : CallingSequence} {v : Value} {b : Binding} {vs args : List Value} {bs : List Binding} {i : Nat}

/-- The value has the carrier of the binding, and a segment covers its layout. -/
structure Covers (v : Value) (b : Binding) : Prop where
  carrier : v.carrier? = some b.carrier
  length : ∀ segment, v = .segment segment → ∃ size, b.layout.byteSize = .ok size ∧ size ≤ segment.length

/-- Arguments in the number and with the carriers that the sequence takes. -/
def Matches (s : CallingSequence) (args : List Value) : Prop :=
  args.map Value.carrier? = s.arguments.map fun b => some b.carrier

theorem checkArgument_eq_ok (h : checkArgument i v b = .ok ()) : Covers v b := by
  unfold checkArgument at h
  split at h
  · simp at h
  · next hcarrier =>
    refine ⟨by simpa using hcarrier, ?_⟩
    rintro segment rfl
    obtain ⟨size, hsize, h⟩ := bind_eq_ok.1 h
    split at h
    · simp at h
    · next hlength => exact ⟨size, lift_fault_eq_ok.1 hsize, by omega⟩

theorem checkEach_eq_ok (hlength : vs.length = bs.length) (h : checkEach i vs bs = .ok ()) :
    List.Forall₂ Covers vs bs := by
  induction vs generalizing bs i with
  | nil =>
    cases bs with
    | nil => exact .nil
    | cons b bs => cases hlength
  | cons v vs ih =>
    cases bs with
    | nil => cases hlength
    | cons b bs =>
      obtain ⟨⟨⟩, hv, h⟩ := bind_eq_ok.1 h
      exact .cons (checkArgument_eq_ok hv) (ih (by simpa using hlength) h)

theorem checkArguments_eq_ok (h : s.checkArguments args = .ok ()) : List.Forall₂ Covers args s.arguments := by
  unfold checkArguments at h
  split at h
  · simp at h
  · next hlength => exact checkEach_eq_ok (by simpa using hlength) h

theorem matches_of_checkArguments (h : s.checkArguments args = .ok ()) : s.Matches args := by
  have hcovers := checkArguments_eq_ok h
  clear h
  unfold Matches
  generalize s.arguments = bs at hcovers ⊢
  induction hcovers with
  | nil => rfl
  | cons hv _ ih => rw [List.map_cons, List.map_cons, hv.carrier, ih]

end CallingSequence

/-- Once the layout of the result has a size, an upcall checks its result in one go. -/
theorem Upcall.checkResult_eq {s : CallingSequence} {length : Nat}
    (hlength : s.resultLength = .ok length) (v : Value) :
    checkResult s v = (ForeignCall.checkResult s.resultCarrier length v).mapError .error := by
  unfold checkResult ForeignCall.checkResult
  rw [hlength]
  cases checkResultCarrier s.resultCarrier v with
  | error e => rfl
  | ok _ =>
    have hlift : (liftM (Fault.ofOverflow (.ok length)) : Except (Halt Fault CallError) Nat) = .ok length := rfl
    dsimp only
    rw [hlift, ok_bind, ok_bind]
    cases checkResultLength length v <;> rfl

end ForeignCall
