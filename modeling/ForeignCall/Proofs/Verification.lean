import ForeignCall.Proofs.Stopping
import ForeignCall.Verification

/-!
# Inverting the verification of a program

A run of the verifier over a program is a run over its first step and then over the rest.  The laws for
single steps say which operands an accepted step has found and what it leaves.
-/

namespace ForeignCall.Verification

variable {effect : List Shape → Step → Check (List Shape)} {i : Nat} {step : Step} {p : Program}
  {stack next : List Shape} {kind : Primitive} {storage : Storage}

@[simp] theorem run_nil : run effect i [] stack = .ok next ↔ stack = next := by
  simp [run]

theorem run_cons : run effect i (step :: p) stack = .ok next ↔
    ∃ middle, effect stack step = .ok middle ∧ run effect (i + 1) p middle = .ok next := by
  rw [run]
  cases h : effect stack step with
  | ok middle => simp
  | error e => cases e <;> simp

/-! ### Operands -/

theorem pop_eq_ok {top : Shape} : pop stack = .ok (top, next) ↔ stack = top :: next := by
  cases stack <;> simp [pop]

theorem popScalar_eq_ok : popScalar kind stack = .ok next ↔ stack = .scalar kind :: next := by
  cases stack with
  | nil => simp [popScalar, pop, bind, Except.bind, Halt.fail]
  | cons top rest => by_cases h : top = .scalar kind <;> simp [popScalar, pop, bind, Except.bind, h]

theorem popAddress_eq_ok : popAddress stack = .ok next ↔ stack = .address :: next := by
  cases stack with
  | nil => simp [popAddress, pop, bind, Except.bind, Halt.fail]
  | cons top rest => by_cases h : top = .address <;> simp [popAddress, pop, bind, Except.bind, h]

theorem popSegment_eq_ok {length : Nat} :
    popSegment stack = .ok (length, next) ↔ stack = .segment length :: next := by
  cases stack with
  | nil => simp [popSegment, pop, bind, Except.bind, Halt.fail]
  | cons top rest => cases top <;> simp [popSegment, pop, bind, Except.bind]

/-! ### Checks -/

theorem checkField_eq_ok {length offset : Nat} : checkField length offset kind = .ok () ↔
    offset + kind.byteSize < wordLimit ∧ offset + kind.byteSize ≤ length := by
  unfold checkField
  rw [bind_eq_ok]
  constructor
  · rintro ⟨last, hlast, h⟩
    obtain ⟨hlimit, rfl⟩ := checkedAdd_eq_ok.1 (lift_fault_eq_ok.1 hlast)
    split at h
    · exact ⟨hlimit, by assumption⟩
    · simp at h
  · rintro ⟨hlimit, hle⟩
    refine ⟨_, lift_fault_eq_ok.2 (checkedAdd_eq_ok.2 ⟨hlimit, rfl⟩), ?_⟩
    rw [if_pos hle]
    rfl

theorem checkWidth_move_eq_ok :
    checkWidth (.move storage kind) = .ok () ↔ kind.byteSize ≤ storage.byteSize := by
  by_cases h : kind.byteSize ≤ storage.byteSize <;> simp [checkWidth, h]

/-! ### Single steps -/

theorem unboxStep_dup {top : Shape} : unboxStep (top :: stack) .dup = .ok (top :: top :: stack) := rfl

theorem unboxStep_move (h : kind.byteSize ≤ storage.byteSize) :
    unboxStep (.scalar kind :: stack) (.move storage kind) = .ok stack :=
  bind_eq_ok.2 ⟨(), checkWidth_move_eq_ok.2 h, popScalar_eq_ok.2 rfl⟩

theorem unboxStep_field {length offset : Nat} (hlimit : offset + kind.byteSize < wordLimit)
    (h : offset + kind.byteSize ≤ length) :
    unboxStep (.segment length :: stack) (.field offset kind) = .ok (.scalar kind :: stack) :=
  bind_eq_ok.2
    ⟨(), rfl, bind_eq_ok.2 ⟨_, popSegment_eq_ok.2 rfl, bind_eq_ok.2 ⟨(), checkField_eq_ok.2 ⟨hlimit, h⟩, rfl⟩⟩⟩

theorem unboxStep_copy {length size alignment : Nat} (h : size ≤ length) :
    unboxStep (.segment length :: stack) (.copy size alignment) = .ok (.segment size :: stack) :=
  bind_eq_ok.2 ⟨(), rfl, bind_eq_ok.2 ⟨_, popSegment_eq_ok.2 rfl, if_pos h⟩⟩

theorem unboxStep_boxAddress : unboxStep (.address :: stack) .boxAddress = .ok (.scalar .i64 :: stack) :=
  bind_eq_ok.2 ⟨(), rfl, bind_eq_ok.2 ⟨_, popAddress_eq_ok.2 rfl, rfl⟩⟩

theorem unboxStep_baseAddress {length : Nat} :
    unboxStep (.segment length :: stack) .baseAddress = .ok (.address :: stack) :=
  bind_eq_ok.2 ⟨(), rfl, bind_eq_ok.2 ⟨_, popSegment_eq_ok.2 rfl, rfl⟩⟩

theorem boxStep_dup {top : Shape} : boxStep (top :: stack) .dup = .ok (top :: top :: stack) := rfl

theorem boxStep_allocate {size alignment : Nat} :
    boxStep stack (.allocate size alignment) = .ok (.segment size :: stack) := rfl

theorem boxStep_move (h : kind.byteSize ≤ storage.byteSize) :
    boxStep stack (.move storage kind) = .ok (.scalar kind :: stack) :=
  bind_eq_ok.2 ⟨(), checkWidth_move_eq_ok.2 h, rfl⟩

theorem boxStep_field {length offset : Nat} (hlimit : offset + kind.byteSize < wordLimit)
    (h : offset + kind.byteSize ≤ length) :
    boxStep (.scalar kind :: .segment length :: stack) (.field offset kind)
      = .ok (.segment length :: stack) := by
  refine bind_eq_ok.2
    ⟨(), rfl, bind_eq_ok.2 ⟨_, popScalar_eq_ok.2 rfl, bind_eq_ok.2 ⟨_, popSegment_eq_ok.2 rfl, ?_⟩⟩⟩
  exact bind_eq_ok.2 ⟨(), checkField_eq_ok.2 ⟨hlimit, h⟩, rfl⟩

theorem boxStep_copy {size alignment : Nat} :
    boxStep (.address :: stack) (.copy size alignment) = .ok (.segment size :: stack) :=
  bind_eq_ok.2 ⟨(), rfl, bind_eq_ok.2 ⟨_, popAddress_eq_ok.2 rfl, rfl⟩⟩

theorem boxStep_boxAddress : boxStep (.scalar .i64 :: stack) .boxAddress = .ok (.address :: stack) :=
  bind_eq_ok.2 ⟨(), rfl, bind_eq_ok.2 ⟨_, popScalar_eq_ok.2 rfl, rfl⟩⟩

theorem boxStep_baseAddress {length : Nat} :
    boxStep (.segment length :: stack) .baseAddress = .ok (.address :: stack) :=
  bind_eq_ok.2 ⟨(), rfl, bind_eq_ok.2 ⟨_, popSegment_eq_ok.2 rfl, rfl⟩⟩

/-- What an accepted unboxing step does to the stack. -/
theorem unboxStep_eq_ok (h : unboxStep stack step = .ok next) :
    match step with
    | .move _ kind => stack = .scalar kind :: next
    | .field offset kind => ∃ length rest, stack = .segment length :: rest ∧ offset + kind.byteSize ≤ length ∧
        next = .scalar kind :: rest
    | .copy size _ => ∃ length rest, stack = .segment length :: rest ∧ size ≤ length ∧
        next = .segment size :: rest
    | .allocate size _ => next = .segment size :: stack
    | .boxAddress => ∃ rest, stack = .address :: rest ∧ next = .scalar .i64 :: rest
    | .baseAddress => ∃ length rest, stack = .segment length :: rest ∧ next = .address :: rest
    | .dup => ∃ top rest, stack = top :: rest ∧ next = top :: top :: rest := by
  obtain ⟨-, -, h⟩ := bind_eq_ok.1 h
  cases step with
  | move storage kind => exact popScalar_eq_ok.1 h
  | field offset kind =>
    obtain ⟨⟨length, rest⟩, hpop, h⟩ := bind_eq_ok.1 h
    obtain ⟨⟨⟩, hcheck, h⟩ := bind_eq_ok.1 h
    exact ⟨length, rest, popSegment_eq_ok.1 hpop, (checkField_eq_ok.1 hcheck).2, (pure_eq_ok.1 h).symm⟩
  | copy size alignment =>
    obtain ⟨⟨length, rest⟩, hpop, h⟩ := bind_eq_ok.1 h
    dsimp only at h
    split at h
    · exact ⟨length, rest, popSegment_eq_ok.1 hpop, by assumption, (pure_eq_ok.1 h).symm⟩
    · simp at h
  | allocate size alignment => exact (pure_eq_ok.1 h).symm
  | boxAddress =>
    obtain ⟨rest, hpop, h⟩ := bind_eq_ok.1 h
    exact ⟨rest, popAddress_eq_ok.1 hpop, (pure_eq_ok.1 h).symm⟩
  | baseAddress =>
    obtain ⟨⟨length, rest⟩, hpop, h⟩ := bind_eq_ok.1 h
    exact ⟨length, rest, popSegment_eq_ok.1 hpop, (pure_eq_ok.1 h).symm⟩
  | dup =>
    obtain ⟨⟨top, rest⟩, hpop, h⟩ := bind_eq_ok.1 h
    exact ⟨top, rest, pop_eq_ok.1 hpop, (pure_eq_ok.1 h).symm⟩

/-- What an accepted boxing step does to the stack. -/
theorem boxStep_eq_ok (h : boxStep stack step = .ok next) :
    match step with
    | .move _ kind => next = .scalar kind :: stack
    | .field offset kind => ∃ length rest, stack = .scalar kind :: .segment length :: rest ∧
        offset + kind.byteSize ≤ length ∧ next = .segment length :: rest
    | .copy size _ => ∃ rest, stack = .address :: rest ∧ next = .segment size :: rest
    | .allocate size _ => next = .segment size :: stack
    | .boxAddress => ∃ rest, stack = .scalar .i64 :: rest ∧ next = .address :: rest
    | .baseAddress => ∃ length rest, stack = .segment length :: rest ∧ next = .address :: rest
    | .dup => ∃ top rest, stack = top :: rest ∧ next = top :: top :: rest := by
  obtain ⟨-, -, h⟩ := bind_eq_ok.1 h
  cases step with
  | move storage kind => exact (pure_eq_ok.1 h).symm
  | field offset kind =>
    obtain ⟨middle, hpop, h⟩ := bind_eq_ok.1 h
    obtain ⟨⟨length, rest⟩, hpop', h⟩ := bind_eq_ok.1 h
    obtain ⟨⟨⟩, hcheck, h⟩ := bind_eq_ok.1 h
    refine ⟨length, rest, ?_, (checkField_eq_ok.1 hcheck).2, (pure_eq_ok.1 h).symm⟩
    rw [popScalar_eq_ok.1 hpop, popSegment_eq_ok.1 hpop']
  | copy size alignment =>
    obtain ⟨rest, hpop, h⟩ := bind_eq_ok.1 h
    exact ⟨rest, popAddress_eq_ok.1 hpop, (pure_eq_ok.1 h).symm⟩
  | allocate size alignment => exact (pure_eq_ok.1 h).symm
  | boxAddress =>
    obtain ⟨rest, hpop, h⟩ := bind_eq_ok.1 h
    exact ⟨rest, popScalar_eq_ok.1 hpop, (pure_eq_ok.1 h).symm⟩
  | baseAddress =>
    obtain ⟨⟨length, rest⟩, hpop, h⟩ := bind_eq_ok.1 h
    exact ⟨length, rest, popSegment_eq_ok.1 hpop, (pure_eq_ok.1 h).symm⟩
  | dup =>
    obtain ⟨⟨top, rest⟩, hpop, h⟩ := bind_eq_ok.1 h
    exact ⟨top, rest, pop_eq_ok.1 hpop, (pure_eq_ok.1 h).symm⟩

end ForeignCall.Verification

namespace ForeignCall

open Verification

variable {p : Program} {c : Carrier} {l : Layout}

theorem Shape.carrier_ofCarrier {s : Shape} (h : Shape.ofCarrier l c = .ok s) : s.carrier = c := by
  cases c with
  | segment =>
    obtain ⟨n, -, h⟩ := bind_eq_ok.1 h
    rw [← pure_eq_ok.1 h]
    rfl
  | _ =>
    cases h
    rfl

/-- An accepted unboxing program takes one value of the carrier and leaves nothing. -/
theorem verifyUnbox_eq_ok (h : verifyUnbox p c l = .ok ()) :
    ∃ s, Shape.ofCarrier l c = .ok s ∧ run unboxStep 0 p [s] = .ok [] := by
  obtain ⟨s, hs, h⟩ := bind_eq_ok.1 h
  obtain ⟨stack, hrun, h⟩ := bind_eq_ok.1 h
  cases stack with
  | nil => exact ⟨s, lift_fault_eq_ok.1 hs, hrun⟩
  | cons top rest => simp at h

/-- An accepted boxing program leaves one value of the carrier, which covers the layout if it is a segment. -/
theorem verifyBox_eq_ok (h : verifyBox p c l = .ok ()) :
    ∃ s, run boxStep 0 p [] = .ok [s] ∧ s.carrier = c ∧ ∀ n, s = .segment n → ∃ size, l.byteSize = .ok size ∧
      size ≤ n := by
  obtain ⟨stack, hrun, h⟩ := bind_eq_ok.1 h
  match stack, h with
  | [.segment length], h =>
    dsimp only at h
    split at h
    · next hc =>
      obtain ⟨size, hsize, h⟩ := bind_eq_ok.1 h
      split at h
      · next hle =>
        refine ⟨_, hrun, hc.symm, fun n hn => ⟨size, lift_fault_eq_ok.1 hsize, ?_⟩⟩
        cases hn
        exact hle
      · simp at h
    · simp at h
  | [.scalar kind], h =>
    dsimp only at h
    split at h
    · exact ⟨_, hrun, by assumption, by simp⟩
    · simp at h
  | [.address], h =>
    dsimp only at h
    split at h
    · exact ⟨_, hrun, by assumption, by simp⟩
    · simp at h
  | [], h => simp at h
  | _ :: _ :: _, h => simp at h

end ForeignCall
