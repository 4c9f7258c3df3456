import ForeignCall.Proofs.Verified.Unboxing

/-!
# Defects that boxing detects

Boxing checks its operands once more when it runs.  It lets two defects pass that verification rejects: a
storage too narrow for its scalar, and a scalar stored in a field of another kind.

* `Interpreter.boxStep_detects`: a step that runs to its end is accepted, or has one of these two defects;
  `Interpreter.runBox_detects` is the induction over a program;
* `box_detects_defects`: a program rejected for its stack faults on every machine, unless kinds are mixed;
* `box_mixes_kinds`: a program that mixes kinds, and gives a value.
-/

namespace ForeignCall

/-- A step does not find what it needs: nothing on the stack, the wrong operand, or a segment too short for
a field. -/
def Reason.ConcernsStack : Reason → Prop
  | .underflow | .operand _ _ | .fieldOutside _ _ _ => True
  | _ => False

/-- A scalar of one kind stands where a field of another kind is stored. -/
def Defect.MixesKinds (d : Defect) : Prop :=
  ∃ offset kind found, d.step = some (.field offset kind) ∧
    d.reason = .operand (.primitive kind) (.scalar found)

/-- The defects that boxing lets pass. -/
inductive Reason.Passes : Step → Reason → Prop
  | narrow (storage : Storage) (kind : Primitive) :
      Passes (.move storage kind) (.slotTooNarrow kind storage.byteSize)
  | mixed (offset : Nat) (kind found : Primitive) :
    Passes (.field offset kind) (.operand (.primitive kind) (.scalar found))

variable {σ : Type} {m n : Machine σ} {p : Program} {step : Step} {shapes next : List Shape}
  {stack stack' : List Value} {c : Carrier} {l : Layout} {i : Nat} {defect : Defect}

namespace Verification

theorem boxStep_move_narrow {storage : Storage} {kind : Primitive} (h : ¬ kind.byteSize ≤ storage.byteSize) :
    boxStep shapes (.move storage kind) = .error (.error (.slotTooNarrow kind storage.byteSize)) := by
  show ((if _ then _ else _) >>= _) = _
  rw [if_neg h]
  rfl

theorem boxStep_field_mixed {offset : Nat} {kind found : Primitive} (h : found ≠ kind) :
    boxStep (.scalar found :: shapes) (.field offset kind) =
      .error (.error (.operand (.primitive kind) (.scalar found))) := by
  have hne : Shape.scalar found ≠ .scalar kind := fun heq => h (Shape.scalar.inj heq)
  show (popScalar kind (.scalar found :: shapes) >>= _) = _
  unfold popScalar
  show ((if _ then _ else _) >>= _) = _
  rw [if_neg hne]
  rfl

theorem run_cons_error {effect : List Shape → Step → Check (List Shape)} {reason : Reason}
    (h : effect shapes step = .error (.error reason)) :
    run effect i (step :: p) shapes = .error (.error ⟨i, some step, reason⟩) := by
  rw [run, h]
  rfl

theorem run_cons_of_ok {effect : List Shape → Step → Check (List Shape)} (h : effect shapes step = .ok next) :
    run effect i (step :: p) shapes = run effect (i + 1) p next := by
  rw [run, h]

end Verification

open Verification

namespace Interpreter

/-- **A step that runs to its end is accepted**, unless its defect is one that boxing lets pass. -/
theorem boxStep_detects (hstack : List.Forall₂ (Shape.Admits Segment.Measures) shapes stack)
    (h : boxStep step stack m = .ok stack' n) :
    (∃ next, Verification.boxStep shapes step = .ok next ∧
      List.Forall₂ (Shape.Admits Segment.Measures) next stack') ∨
      ∃ reason, Verification.boxStep shapes step = .error (.error reason) ∧ reason.Passes step := by
  cases step with
  | move storage kind =>
    obtain ⟨w, _, -, h⟩ := Engine.bind_eq_ok.1 h
    cases h
    by_cases hwidth : kind.byteSize ≤ storage.byteSize
    · exact .inl ⟨_, Verification.boxStep_move hwidth, .cons (kind.primitive?_decode _) hstack⟩
    · exact .inr ⟨_, boxStep_move_narrow hwidth, .narrow storage kind⟩
  | field offset kind =>
    obtain ⟨⟨v, rest⟩, _, hpop, h⟩ := Engine.bind_eq_ok.1 h
    obtain ⟨⟨s, rest'⟩, _, hpop', h⟩ := Engine.bind_eq_ok.1 h
    obtain ⟨⟨⟩, _, hset, h⟩ := Engine.bind_eq_ok.1 h
    cases h
    obtain rfl := pop_eq_ok.1 (Engine.lift_eq_ok.1 hpop).1
    obtain rfl := popSegment_eq_ok.1 (Engine.lift_eq_ok.1 hpop').1
    obtain ⟨found, hv, hle⟩ := Engine.of_setField_eq_ok hset
    obtain ⟨shape, _, hshape, htail, rfl⟩ := List.forall₂_cons_right_iff.1 hstack
    obtain ⟨shape', shapes, hshape', hrest, rfl⟩ := List.forall₂_cons_right_iff.1 htail
    obtain rfl := hshape.eq_scalar hv
    obtain ⟨length, rfl, hlength, hlimit⟩ := hshape'.eq_segment
    by_cases hkind : found = kind
    · subst hkind
      exact .inl ⟨_, Verification.boxStep_field (by omega) (by omega), .cons hshape' hrest⟩
    · exact .inr ⟨_, boxStep_field_mixed hkind, .mixed offset kind found⟩
  | copy size alignment =>
    obtain ⟨⟨a, rest⟩, _, hpop, h⟩ := Engine.bind_eq_ok.1 h
    obtain ⟨target, _, hallocate, h⟩ := Engine.bind_eq_ok.1 h
    obtain ⟨⟨⟩, _, -, h⟩ := Engine.bind_eq_ok.1 h
    cases h
    obtain rfl := popAddress_eq_ok.1 (Engine.lift_eq_ok.1 hpop).1
    obtain ⟨shape, shapes, hshape, hrest, rfl⟩ := List.forall₂_cons_right_iff.1 hstack
    obtain rfl := hshape.eq_address
    exact .inl ⟨_, Verification.boxStep_copy,
      .cons ⟨target, rfl, Engine.allocateScratch_length hallocate⟩ hrest⟩
  | allocate size alignment =>
    obtain ⟨target, _, hallocate, h⟩ := Engine.bind_eq_ok.1 h
    cases h
    exact .inl ⟨_, rfl, .cons ⟨target, rfl, Engine.allocateScratch_length hallocate⟩ hstack⟩
  | boxAddress =>
    obtain ⟨⟨x, rest⟩, _, hpop, h⟩ := Engine.bind_eq_ok.1 h
    cases h
    obtain rfl := popAddressBits_eq_ok.1 (Engine.lift_eq_ok.1 hpop).1
    obtain ⟨shape, shapes, hshape, hrest, rfl⟩ := List.forall₂_cons_right_iff.1 hstack
    obtain rfl := hshape.eq_scalar rfl
    exact .inl ⟨_, Verification.boxStep_boxAddress, .cons ⟨x, rfl⟩ hrest⟩
  | baseAddress =>
    obtain ⟨⟨s, rest⟩, _, hpop, h⟩ := Engine.bind_eq_ok.1 h
    cases h
    obtain rfl := popSegment_eq_ok.1 (Engine.lift_eq_ok.1 hpop).1
    obtain ⟨shape, shapes, hshape, hrest, rfl⟩ := List.forall₂_cons_right_iff.1 hstack
    obtain ⟨length, rfl, -⟩ := hshape.eq_segment
    exact .inl ⟨_, Verification.boxStep_baseAddress, .cons ⟨_, rfl⟩ hrest⟩
  | dup =>
    obtain ⟨v, rest, rfl, rfl⟩ := dup_eq_ok.1 (Engine.lift_eq_ok.1 h).1
    obtain ⟨shape, shapes, hshape, hrest, rfl⟩ := List.forall₂_cons_right_iff.1 hstack
    exact .inl ⟨_, Verification.boxStep_dup, .cons hshape (.cons hshape hrest)⟩

/-- A program that runs to its end is accepted, unless its first defect is one that boxing lets pass. -/
theorem runBox_detects (hstack : List.Forall₂ (Shape.Admits Segment.Measures) shapes stack)
    (h : run .boxStep boxStep p stack m = .ok stack' n) :
    (∃ next, Verification.run Verification.boxStep i p shapes = .ok next) ∨
      ∃ j step reason, Verification.run Verification.boxStep i p shapes
        = .error (.error ⟨j, some step, reason⟩) ∧
        reason.Passes step := by
  induction p generalizing i shapes stack m with
  | nil => exact .inl ⟨shapes, rfl⟩
  | cons step p ih =>
    obtain ⟨⟨⟩, _, -, h⟩ := Engine.bind_eq_ok.1 h
    obtain ⟨middle, _, hstep, h⟩ := Engine.bind_eq_ok.1 h
    obtain ⟨shapes', hstep', hmiddle⟩ | ⟨reason, hstep', hpasses⟩ := boxStep_detects hstack hstep
    · rw [run_cons_of_ok hstep']
      exact ih hmiddle h
    · exact .inr ⟨i, step, reason, run_cons_error hstep', hpasses⟩

end Interpreter

theorem run_of_verifyBox_error (h : verifyBox p c l = .error (.error defect))
    (hstack : defect.reason.ConcernsStack) :
    Verification.run Verification.boxStep 0 p [] = .error (.error defect) := by
  unfold verifyBox at h
  cases hrun : Verification.run Verification.boxStep 0 p [] with
  | error e =>
    rw [hrun] at h
    cases h
    rfl
  | ok stack =>
    rw [hrun, ok_bind] at h
    dsimp only at h
    split at h
    · split at h
      · cases hsize : l.byteSize with
        | error o =>
          rw [hsize] at h
          cases h
        | ok size =>
          rw [hsize] at h
          replace h : (if _ then _ else _) = _ := h
          split at h <;> cases h
          exact hstack.elim
      · cases h
        exact hstack.elim
    · split at h <;> cases h
      exact hstack.elim
    · cases h
      exact hstack.elim

/-- **Boxing detects every defect of the stack**, except a scalar of the wrong kind: a program that
verification rejects for one gives no value on any machine. -/
theorem box_detects_defects (p : Program) (c : Carrier) (l : Layout) (defect : Defect)
    (h : verifyBox p c l = .error (.error defect)) (hstack : defect.reason.ConcernsStack)
    (hkinds : ¬ defect.MixesKinds) (m : Machine σ) : ∃ f n, Engine.box p m = .error f n := by
  have hrejected := run_of_verifyBox_error h hstack
  cases hbox : Engine.box p m with
  | error f n => exact ⟨f, n, rfl⟩
  | ok v n =>
    obtain ⟨stack, _, hrun, -⟩ := Engine.bind_eq_ok.1 hbox
    obtain ⟨next, haccepted⟩ | ⟨j, step, reason, hpassed, hpasses⟩ :=
      Interpreter.runBox_detects (i := 0) .nil hrun
    · cases hrejected.symm.trans haccepted
    · cases hrejected.symm.trans hpassed
      cases hpasses with
      | narrow storage kind => exact hstack.elim
      | mixed offset kind found => exact absurd ⟨offset, kind, found, rfl, rfl⟩ hkinds

/-- A field that begins inside the segment and ends outside. -/
theorem box_detects_defects_outside :
    let l : Layout := .struct [.value .i32, .value .i32]
    let p : Program := [.allocate 8 4, .move (.slot .integerRet 0 8) .i32, .field 6 .i32]
    let frame : FrameLayout :=
      ⟨[⟨0, 6, 8⟩, ⟨48, 8, 8⟩, ⟨112, 0, 8⟩, ⟨112, 0, 8⟩, ⟨112, 2, 8⟩, ⟨128, 2, 8⟩, ⟨144, 2, 16⟩], 176⟩
    let m : Machine Unit :=
      ⟨⟨frame, Array.replicate frame.wordCount 7, Array.size_replicate⟩, .empty, .new 64, #[], ()⟩
    ∃ defect, verifyBox p .segment l = .error (.error defect) ∧ defect.reason = .fieldOutside .i32 6 8 ∧
      ∃ f n, Engine.box p m = .error f n := by
  intro l p frame m
  have hrejected : verifyBox p .segment l
      = .error (.error ⟨2, some (.field 6 .i32), .fieldOutside .i32 6 8⟩) := by cbv
  refine ⟨_, hrejected, rfl, box_detects_defects p .segment l _ hrejected trivial ?_ m⟩
  rintro ⟨offset, kind, found, -, h⟩
  cases h

/-- A word of eight bytes stands where a field of four is stored.  Verification rejects the program, but
boxing stores all eight bytes and gives the segment. -/
theorem box_mixes_kinds : ∃ (p : Program) (c : Carrier) (l : Layout) (defect : Defect)
    (m : Machine Unit) (s : Segment) (n : Machine Unit),
    verifyBox p c l = .error (.error defect) ∧ defect.reason.ConcernsStack ∧
      (∀ t ∈ p.storages, m.frame.layout.Has t) ∧ Engine.box p m = .ok (.segment s) n := by
  let l : Layout := .struct [.value .i32, .value .i32]
  let p : Program := [.allocate 8 8, .move (.slot .integerRet 0 8) .i64, .field 0 .i32]
  let frame : FrameLayout :=
    ⟨[⟨0, 6, 8⟩, ⟨48, 8, 8⟩, ⟨112, 0, 8⟩, ⟨112, 0, 8⟩, ⟨112, 2, 8⟩, ⟨128, 2, 8⟩, ⟨144, 2, 16⟩], 176⟩
  let m : Machine Unit :=
    ⟨⟨frame, Array.replicate frame.wordCount 7, Array.size_replicate⟩, .empty, .new 64, #[], ()⟩
  have hrejected : verifyBox p .segment l =
      .error (.error ⟨2, some (.field 0 .i32), .operand (.primitive .i32) (.scalar .i64)⟩) := by cbv
  have hhas : ∀ t ∈ p.storages, m.frame.layout.Has t := by
    intro t ht
    obtain rfl : t = .slot .integerRet 0 8 := by simpa [p, Program.storages, Step.storage?, eq_comm] using ht
    exact ⟨112, rfl, by decide⟩
  obtain ⟨v, hv, hsegment⟩ := exists_ok_of_any (x := (Engine.observe (Engine.box p) m).1)
    (p := fun v => v.carrier? = some .segment) (by decide +kernel)
  obtain ⟨n, hrun⟩ := Engine.exists_of_observe hv
  obtain ⟨s, rfl⟩ := Value.carrier?_eq_segment.1 (of_decide_eq_true hsegment)
  exact ⟨p, .segment, l, _, m, s, n, hrejected, trivial, hhas, hrun⟩

end ForeignCall
