import ForeignCall.Proofs.Verification

/-!
# Where verification overflows

The only size that the verifier computes by itself is the end of a field.  An offset close to the limit of
sizes takes that sum out of range, and verification stops with an overflow instead of a defect.

* `Verification.run_eq_fault`: a run faults at the first step that faults;
* `Verification.Overruns`: a program reaches a field, with its operands on the stack, whose end is out of
  range;
* `verification_overflows_iff`: on layouts that have a size, these programs and no others make verification
  overflow.
-/

namespace ForeignCall

namespace Verification

variable {effect : List Shape → Step → Check (List Shape)} {i : Nat} {step : Step} {p : Program}
  {stack : List Shape} {kind : Primitive} {o : Overflow}

theorem run_eq_fault : run effect i p stack = .error (.fault o) ↔
    ∃ before step after middle, p = before ++ step :: after ∧ run effect i before stack = .ok middle ∧
      effect middle step = .error (.fault o) := by
  induction p generalizing i stack with
  | nil => simp [run]
  | cons first p ih =>
    rw [run]
    constructor
    · intro h
      cases hfirst : effect stack first with
      | ok next =>
        rw [hfirst] at h
        obtain ⟨before, step, after, middle, rfl, hrun, hstep⟩ := ih.1 h
        exact ⟨first :: before, step, after, middle, rfl, run_cons.2 ⟨next, hfirst, hrun⟩, hstep⟩
      | error e =>
        rw [hfirst] at h
        cases e with
        | fault o' =>
          cases h
          exact ⟨[], first, p, stack, rfl, rfl, hfirst⟩
        | error reason => cases h
    · rintro ⟨before, step, after, middle, hp, hrun, hstep⟩
      cases before with
      | nil =>
        cases hp
        obtain rfl := run_nil.1 hrun
        rw [hstep]
      | cons head before =>
        cases hp
        obtain ⟨next, hfirst, hrun⟩ := run_cons.1 hrun
        rw [hfirst]
        exact ih.2 ⟨before, step, after, middle, rfl, hrun, hstep⟩

/-! ### Operands and checks -/

theorem pop_ne_fault : pop stack ≠ .error (.fault o) := by
  cases stack <;> simp [pop, Halt.fail]

theorem popScalar_ne_fault : popScalar kind stack ≠ .error (.fault o) := by
  intro h
  obtain h | ⟨⟨top, rest⟩, -, h⟩ := bind_eq_error.1 h
  · exact pop_ne_fault h
  · dsimp only at h
    split at h <;> cases h

theorem popAddress_ne_fault : popAddress stack ≠ .error (.fault o) := by
  intro h
  obtain h | ⟨⟨top, rest⟩, -, h⟩ := bind_eq_error.1 h
  · exact pop_ne_fault h
  · dsimp only at h
    split at h <;> cases h

theorem popSegment_ne_fault : popSegment stack ≠ .error (.fault o) := by
  intro h
  obtain h | ⟨⟨top, rest⟩, -, h⟩ := bind_eq_error.1 h
  · exact pop_ne_fault h
  · dsimp only at h
    split at h <;> cases h

theorem checkWidth_ne_fault : checkWidth step ≠ .error (.fault o) := by
  intro h
  cases step with
  | move storage kind =>
    dsimp only [checkWidth] at h
    split at h <;> cases h
  | _ => cases h

theorem checkedAdd_eq_error {a b : Nat} : checkedAdd a b = .error o ↔ o = .add ∧ wordLimit ≤ a + b := by
  unfold checkedAdd
  split
  · simp
    omega
  · simp [eq_comm]
    omega

theorem lift_eq_fault {φ ε α : Type} {x : Except φ α} {e : φ} :
    (liftM x : Except (Halt φ ε) α) = .error (.fault e) ↔ x = .error e := by
  cases x with
  | ok a => exact ⟨nofun, nofun⟩
  | error f => exact ⟨fun h => by cases h; rfl, fun h => by cases h; rfl⟩

/-- Only a sum that leaves the range of sizes makes the check of a field fault. -/
theorem checkField_eq_fault {length offset : Nat} : checkField length offset kind = .error (.fault o) ↔
    o = .add ∧ wordLimit ≤ offset + kind.byteSize := by
  unfold checkField
  rw [bind_eq_error, lift_eq_fault, checkedAdd_eq_error]
  refine or_iff_left ?_
  rintro ⟨last, -, h⟩
  split at h <;> cases h

/-! ### Single steps -/

/-- An unboxing step faults iff it is a field of a segment, and the end of the field is out of range. -/
theorem unboxStep_eq_fault : unboxStep stack step = .error (.fault o) ↔ o = .add ∧ ∃ offset kind length rest,
    step = .field offset kind ∧ stack = .segment length :: rest ∧ wordLimit ≤ offset + kind.byteSize := by
  constructor
  · intro h
    obtain h | ⟨-, -, h⟩ := bind_eq_error.1 h
    · exact absurd h checkWidth_ne_fault
    cases step with
    | move storage kind => exact absurd h popScalar_ne_fault
    | field offset kind =>
      obtain h | ⟨⟨length, rest⟩, hpop, h⟩ := bind_eq_error.1 h
      · exact absurd h popSegment_ne_fault
      obtain h | ⟨-, -, h⟩ := bind_eq_error.1 h
      · obtain ⟨ho, hlimit⟩ := checkField_eq_fault.1 h
        exact ⟨ho, offset, kind, length, rest, rfl, popSegment_eq_ok.1 hpop, hlimit⟩
      · cases h
    | copy size alignment =>
      obtain h | ⟨⟨top, rest⟩, -, h⟩ := bind_eq_error.1 h
      · exact absurd h popSegment_ne_fault
      · dsimp only at h
        split at h <;> cases h
    | allocate size alignment => cases h
    | boxAddress =>
      obtain h | ⟨rest, -, h⟩ := bind_eq_error.1 h
      · exact absurd h popAddress_ne_fault
      · cases h
    | baseAddress =>
      obtain h | ⟨⟨top, rest⟩, -, h⟩ := bind_eq_error.1 h
      · exact absurd h popSegment_ne_fault
      · cases h
    | dup =>
      obtain h | ⟨⟨top, rest⟩, -, h⟩ := bind_eq_error.1 h
      · exact absurd h pop_ne_fault
      · cases h
  · rintro ⟨rfl, offset, kind, length, rest, rfl, rfl, hlimit⟩
    refine bind_eq_error.2 (.inr ⟨(), rfl, bind_eq_error.2 (.inr ⟨_, popSegment_eq_ok.2 rfl, ?_⟩)⟩)
    exact bind_eq_error.2 (.inl (checkField_eq_fault.2 ⟨rfl, hlimit⟩))

/-- A boxing step faults iff it is a field of a segment, its value is there, and the end of the field is out
of range. -/
theorem boxStep_eq_fault : boxStep stack step = .error (.fault o) ↔ o = .add ∧ ∃ offset kind length rest,
    step = .field offset kind ∧ stack = .scalar kind :: .segment length :: rest ∧
      wordLimit ≤ offset + kind.byteSize := by
  constructor
  · intro h
    obtain h | ⟨-, -, h⟩ := bind_eq_error.1 h
    · exact absurd h checkWidth_ne_fault
    cases step with
    | move storage kind => cases h
    | field offset kind =>
      obtain h | ⟨middle, hpop, h⟩ := bind_eq_error.1 h
      · exact absurd h popScalar_ne_fault
      obtain h | ⟨⟨length, rest⟩, hpop', h⟩ := bind_eq_error.1 h
      · exact absurd h popSegment_ne_fault
      obtain h | ⟨-, -, h⟩ := bind_eq_error.1 h
      · obtain ⟨ho, hlimit⟩ := checkField_eq_fault.1 h
        refine ⟨ho, offset, kind, length, rest, rfl, ?_, hlimit⟩
        rw [popScalar_eq_ok.1 hpop, popSegment_eq_ok.1 hpop']
      · cases h
    | copy size alignment =>
      obtain h | ⟨rest, -, h⟩ := bind_eq_error.1 h
      · exact absurd h popAddress_ne_fault
      · cases h
    | allocate size alignment => cases h
    | boxAddress =>
      obtain h | ⟨rest, -, h⟩ := bind_eq_error.1 h
      · exact absurd h popScalar_ne_fault
      · cases h
    | baseAddress =>
      obtain h | ⟨⟨top, rest⟩, -, h⟩ := bind_eq_error.1 h
      · exact absurd h popSegment_ne_fault
      · cases h
    | dup =>
      obtain h | ⟨⟨top, rest⟩, -, h⟩ := bind_eq_error.1 h
      · exact absurd h pop_ne_fault
      · cases h
  · rintro ⟨rfl, offset, kind, length, rest, rfl, rfl, hlimit⟩
    refine bind_eq_error.2 (.inr ⟨(), rfl, bind_eq_error.2 (.inr ⟨_, popScalar_eq_ok.2 rfl, ?_⟩)⟩)
    refine bind_eq_error.2 (.inr ⟨_, popSegment_eq_ok.2 rfl, ?_⟩)
    exact bind_eq_error.2 (.inl (checkField_eq_fault.2 ⟨rfl, hlimit⟩))

/-- Verification that comes with `start` on its stack reaches a field whose end is out of the range of
sizes, and finds the operands of the access above the rest of the stack. -/
def Overruns (effect : List Shape → Step → Check (List Shape))
    (operands : Primitive → Nat → List Shape) (p : Program) (start : List Shape) : Prop :=
  ∃ before offset kind after length rest, p = before ++ .field offset kind :: after ∧
    run effect 0 before start = .ok (operands kind length ++ rest) ∧ wordLimit ≤ offset + kind.byteSize

/-- Unboxing loads the field of the segment on top. -/
abbrev UnboxOverruns (p : Program) (start : List Shape) : Prop :=
  Overruns unboxStep (fun _ length => [.segment length]) p start

/-- Boxing stores the scalar on top in the segment under it. -/
abbrev BoxOverruns (p : Program) (start : List Shape) : Prop :=
  Overruns boxStep (fun kind length => [.scalar kind, .segment length]) p start

theorem runUnbox_eq_fault : run unboxStep 0 p stack = .error (.fault o) ↔ o = .add ∧ UnboxOverruns p stack := by
  rw [run_eq_fault]
  constructor
  · rintro ⟨before, step, after, middle, rfl, hrun, hstep⟩
    obtain ⟨rfl, offset, kind, length, rest, rfl, rfl, hlimit⟩ := unboxStep_eq_fault.1 hstep
    exact ⟨rfl, before, offset, kind, after, length, rest, rfl, hrun, hlimit⟩
  · rintro ⟨rfl, before, offset, kind, after, length, rest, rfl, hrun, hlimit⟩
    exact ⟨before, _, after, _, rfl, hrun,
      unboxStep_eq_fault.2 ⟨rfl, offset, kind, length, rest, rfl, rfl, hlimit⟩⟩

theorem runBox_eq_fault : run boxStep 0 p stack = .error (.fault o) ↔ o = .add ∧ BoxOverruns p stack := by
  rw [run_eq_fault]
  constructor
  · rintro ⟨before, step, after, middle, rfl, hrun, hstep⟩
    obtain ⟨rfl, offset, kind, length, rest, rfl, rfl, hlimit⟩ := boxStep_eq_fault.1 hstep
    exact ⟨rfl, before, offset, kind, after, length, rest, rfl, hrun, hlimit⟩
  · rintro ⟨rfl, before, offset, kind, after, length, rest, rfl, hrun, hlimit⟩
    exact ⟨before, _, after, _, rfl, hrun,
      boxStep_eq_fault.2 ⟨rfl, offset, kind, length, rest, rfl, rfl, hlimit⟩⟩

end Verification

open Verification

variable {p : Program} {c : Carrier} {l : Layout} {size : Nat} {o : Overflow}

theorem Shape.exists_ofCarrier (c : Carrier) (hsize : l.byteSize = .ok size) :
    ∃ s, Shape.ofCarrier l c = .ok s := by
  cases c with
  | primitive kind => exact ⟨_, rfl⟩
  | address => exact ⟨_, rfl⟩
  | segment => exact ⟨_, bind_eq_ok.2 ⟨size, hsize, rfl⟩⟩

theorem verifyUnbox_eq_fault {s : Shape} (hs : Shape.ofCarrier l c = .ok s) :
    verifyUnbox p c l = .error (.fault o) ↔ o = .add ∧ UnboxOverruns p [s] := by
  rw [← runUnbox_eq_fault, verifyUnbox, hs]
  change (run unboxStep 0 p [s] >>= _) = _ ↔ _
  rw [bind_eq_error]
  refine or_iff_left ?_
  rintro ⟨stack, -, h⟩
  split at h <;> cases h

theorem verifyBox_eq_fault (hsize : l.byteSize = .ok size) :
    verifyBox p c l = .error (.fault o) ↔ o = .add ∧ BoxOverruns p [] := by
  rw [← runBox_eq_fault, verifyBox, bind_eq_error]
  refine or_iff_left ?_
  rintro ⟨stack, -, h⟩
  dsimp only at h
  rw [hsize] at h
  split at h
  · split at h
    · change (if _ then _ else _) = _ at h
      split at h <;> cases h
    · cases h
  · split at h <;> cases h
  · cases h

theorem Halt.ok_or_error {φ ε α : Type} {x : Except (Halt φ ε) α} (h : ∀ e, x ≠ .error (.fault e)) :
    (∃ a, x = .ok a) ∨ ∃ e, x = .error (.error e) := by
  match x with
  | .ok a => exact .inl ⟨a, rfl⟩
  | .error (.error e) => exact .inr ⟨e, rfl⟩
  | .error (.fault e) => exact absurd rfl (h e)

/-! ### Outcomes -/

/-- **Verification overflows exactly at a field whose end is out of range.**  On a layout that has a size, a
program that reaches such a field stops verification with an overflow; every other program is accepted or
gets a defect. -/
theorem verification_overflows_iff (p : Program) (c : Carrier) (l : Layout) (size : Nat)
    (hsize : l.byteSize = .ok size) :
    (∃ s, Shape.ofCarrier l c = .ok s ∧
      (UnboxOverruns p [s] → verifyUnbox p c l = .error (.fault .add)) ∧
      (¬ UnboxOverruns p [s] → verifyUnbox p c l = .ok () ∨
        ∃ defect, verifyUnbox p c l = .error (.error defect))) ∧
    (BoxOverruns p [] → verifyBox p c l = .error (.fault .add)) ∧
    (¬ BoxOverruns p [] → verifyBox p c l = .ok () ∨ ∃ defect, verifyBox p c l = .error (.error defect)) := by
  obtain ⟨s, hs⟩ := Shape.exists_ofCarrier c hsize
  refine ⟨⟨s, hs, fun h => (verifyUnbox_eq_fault hs).2 ⟨rfl, h⟩, fun h => ?_⟩,
    fun h => (verifyBox_eq_fault hsize).2 ⟨rfl, h⟩, fun h => ?_⟩
  · obtain ⟨⟨⟩, hok⟩ | herror := Halt.ok_or_error fun o ho => h ((verifyUnbox_eq_fault hs).1 ho).2
    · exact .inl hok
    · exact .inr herror
  · obtain ⟨⟨⟩, hok⟩ | herror := Halt.ok_or_error fun o ho => h ((verifyBox_eq_fault hsize).1 ho).2
    · exact .inl hok
    · exact .inr herror

/-- The last offset of all is out of range for any field.  Unboxing comes to it; boxing finds no value to
store there. -/
theorem verification_overflows_iff_last_offset :
    let l : Layout := .struct [.value .i64, .value .i64]
    let p : Program := [.field 0xffffffffffffffff .i64, .move (.slot .integerArg 0 8) .i64]
    l.byteSize = .ok 16 ∧ verifyUnbox p .segment l = .error (.fault .add) ∧
      (verifyBox p .segment l = .ok () ∨ ∃ defect, verifyBox p .segment l = .error (.error defect)) := by
  intro l p
  have hsize : l.byteSize = .ok 16 := by cbv
  obtain ⟨⟨s, hs, hunbox, -⟩, -, hbox⟩ := verification_overflows_iff p .segment l 16 hsize
  refine ⟨hsize, hunbox ?_, hbox ?_⟩
  · obtain rfl : s = .segment 16 := ok_unique hs (by cbv)
    exact ⟨[], _, .i64, _, 16, [], rfl, rfl, by decide⟩
  · rintro ⟨before, offset, kind, after, length, rest, hp, hrun, -⟩
    cases before with
    | nil => cases hrun
    | cons step before =>
      obtain ⟨rfl, -⟩ := List.cons.inj hp
      obtain ⟨middle, hstep, -⟩ := run_cons.1 hrun
      cases hstep

/-- Verification is not free of overflows, also for layouts that have a size. -/
theorem verification_can_overflow : ∃ (p : Program) (c : Carrier) (l : Layout),
    (∃ size, l.byteSize = .ok size) ∧ verifyUnbox p c l = .error (.fault .add) :=
  ⟨[.field 0xffffffffffffffff .i64, .move (.slot .integerArg 0 8) .i64], .segment,
    .struct [.value .i64, .value .i64], ⟨16, by cbv⟩, by cbv⟩

end ForeignCall
