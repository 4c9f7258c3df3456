import ForeignCall.Proofs.Transport.Marshalling
import ForeignCall.Proofs.Verified.Shapes

/-!
# Verified unboxing

* `Interpreter.unboxStep_leadsTo`: a step that verification accepts finds its operands, and leaves values of
  the verified shapes; `Interpreter.runUnbox_leadsTo` is the induction over a program;
* `Interpreter.unboxStep_accepted`: a step that runs to its end is accepted where verification knows the
  exact lengths, so that a rejected program faults;
* `verifyUnbox_exact`: verification accepts exactly the programs that run to their end.
-/

namespace ForeignCall

variable {σ : Type} {m n : Machine σ} {F : Fault → Prop} {p : Program} {step : Step} {shapes next : List Shape}
  {stack stack' : List Value} {requests : List (Nat × Nat)} {v : Value} {c : Carrier} {l : Layout} {i : Nat}

/-! ### Soundness -/

/-- The segment can be used in the memory, and is at least as long as verification says. -/
def Segment.Spans (m : Memory) (s : Segment) (length : Nat) : Prop := s.Valid m ∧ length ≤ s.length

theorem Marshals.spans {s : Segment} {length : Nat} (h : Marshals m n) (hs : s.Spans m.memory length) :
    s.Spans n.memory length :=
  ⟨⟨(h.isAlive s).trans hs.1.alive, hs.1.end_le⟩, hs.2⟩

namespace Interpreter

/-- **A step that is accepted finds its operands.**  It leaves values of the verified shapes and moves
nothing but into its storage. -/
theorem unboxStep_leadsTo (h : Verification.unboxStep shapes step = .ok next) (hm : m.Ready)
    (hhas : ∀ s ∈ step.storage?, m.frame.layout.Has s)
    (hserves : m.scratch.Serves F m.memory (step.request?.toList ++ requests))
    (hstack : List.Forall₂ (Shape.Admits (Segment.Spans m.memory)) shapes stack) :
    LeadsTo F (unboxStep step stack) m fun stack' n =>
      List.Forall₂ (Shape.Admits (Segment.Spans n.memory)) next stack' ∧
      MovesInto step.storage?.toList m n ∧ n.scratch.Serves F n.memory requests := by
  have heffect := Verification.unboxStep_eq_ok h
  have hstays : MovesInto [] m m := (Marshals.refl hm).movesInto rfl
  cases step with
  | move storage kind =>
    obtain rfl : shapes = .scalar kind :: next := heffect
    obtain ⟨v, stack, hv, hrest, rfl⟩ := List.forall₂_cons_left_iff.1 hstack
    obtain ⟨w, hw⟩ := Primitive.exists_encode hv
    obtain ⟨o, ho, hlt⟩ := hhas storage rfl
    refine .bind (.of_ok (Engine.lift_eq_ok.2 ⟨popSlotBits_eq_ok.2 ⟨v, rfl, hv, hw⟩, rfl⟩) ?_)
    refine .bind (.of_ok (Engine.writeStorage_eq ho hlt) (.pure ?_))
    exact ⟨hrest, (Writes.setWord ho).movesInto hm, hserves⟩
  | field offset kind =>
    obtain ⟨length, shapes, rfl, hle, rfl⟩ := heffect
    obtain ⟨_, stack, ⟨s, rfl, hs⟩, hrest, rfl⟩ := List.forall₂_cons_left_iff.1 hstack
    refine .bind (.of_ok (Engine.lift_eq_ok.2 ⟨popSegment_eq_ok.2 rfl, rfl⟩) ?_)
    refine .bind (.of_ok (Engine.getField_eq hs.1 (Nat.le_trans hle hs.2)) (.pure ?_))
    exact ⟨.cons Memory.primitive?_field hrest, hstays, hserves⟩
  | copy size alignment =>
    obtain ⟨length, shapes, rfl, hle, rfl⟩ := heffect
    obtain ⟨_, stack, ⟨s, rfl, hs⟩, hrest, rfl⟩ := List.forall₂_cons_left_iff.1 hstack
    refine .bind
      (.of_ok (Engine.lift_eq_ok.2 ⟨popSegment_eq_ok.2 rfl, rfl⟩) (.andThen (.allocateScratch hm hserves) ?_))
    rintro t k ⟨hframe, hworld, hgranted, -, hserves⟩
    have halive : s.isAlive k.memory = true :=
      (Segment.isAlive_congr hgranted.evolves.released s).trans hs.1.alive
    have hlength : size ≤ t.length := Nat.le_of_eq hgranted.length.symm
    refine .bind (.of_ok (Engine.takeSegment_eq halive (Nat.le_trans hle hs.2)) ?_)
    refine .bind (.of_ok (Engine.copySegment_eq hgranted.alive halive hlength) (.pure ?_))
    have hfills := Fills.copy (m := k) s.address.toNat hlength
    have hmarshals := hfills.marshals hworld hgranted
    refine ⟨.cons ⟨t, rfl, hfills.valid hgranted.valid, hlength⟩ (hrest.imp fun _ _ h => h.mono fun _ _ =>
      hmarshals.spans), hmarshals.movesInto hframe, hserves.congr rfl⟩
  | allocate size alignment =>
    obtain rfl : next = .segment size :: shapes := heffect
    refine .andThen (.allocateScratch hm hserves) ?_
    rintro t k ⟨hframe, hworld, hgranted, -, hserves⟩
    have hmarshals := (Fills.refl t k).marshals hworld hgranted
    refine .pure ⟨.cons ⟨t, rfl, hgranted.valid, Nat.le_of_eq hgranted.length.symm⟩
      (hstack.imp fun _ _ h => h.mono fun _ _ => hmarshals.spans), hmarshals.movesInto hframe, hserves⟩
  | boxAddress =>
    obtain ⟨shapes, rfl, rfl⟩ := heffect
    obtain ⟨_, stack, ⟨a, rfl⟩, hrest, rfl⟩ := List.forall₂_cons_left_iff.1 hstack
    refine .bind (.of_ok (Engine.lift_eq_ok.2 ⟨popAddress_eq_ok.2 rfl, rfl⟩) (.pure ?_))
    exact ⟨.cons rfl hrest, hstays, hserves⟩
  | baseAddress =>
    obtain ⟨length, shapes, rfl, rfl⟩ := heffect
    obtain ⟨_, stack, ⟨s, rfl, hs⟩, hrest, rfl⟩ := List.forall₂_cons_left_iff.1 hstack
    refine .bind (.of_ok (Engine.lift_eq_ok.2 ⟨popSegment_eq_ok.2 rfl, rfl⟩) (.pure ?_))
    exact ⟨.cons ⟨_, rfl⟩ hrest, hstays, hserves⟩
  | dup =>
    obtain ⟨top, shapes, rfl, rfl⟩ := heffect
    obtain ⟨v, stack, hv, hrest, rfl⟩ := List.forall₂_cons_left_iff.1 hstack
    refine .of_ok (Engine.lift_eq_ok.2 ⟨dup_eq_ok.2 ⟨v, stack, rfl, rfl⟩, rfl⟩) ?_
    exact ⟨.cons hv (.cons hv hrest), hstays, hserves⟩

theorem runUnbox_leadsTo (h : Verification.run Verification.unboxStep i p shapes = .ok next) (hm : m.Ready)
    (hhas : ∀ s ∈ p.storages, m.frame.layout.Has s)
    (hserves : m.scratch.Serves F m.memory (p.requests ++ requests))
    (hstack : List.Forall₂ (Shape.Admits (Segment.Spans m.memory)) shapes stack) :
    LeadsTo F (run .unboxStep unboxStep p stack) m fun stack' n =>
      List.Forall₂ (Shape.Admits (Segment.Spans n.memory)) next stack' ∧ MovesInto p.storages m n ∧
        n.scratch.Serves F n.memory requests := by
  induction p generalizing i shapes stack m with
  | nil =>
    obtain rfl := Verification.run_nil.1 h
    exact .pure ⟨hstack, (Marshals.refl hm).movesInto rfl, hserves⟩
  | cons step p ih =>
    obtain ⟨middle, hstep, hrun⟩ := Verification.run_cons.1 h
    rw [Program.storages_cons] at hhas ⊢
    rw [Program.requests_cons, List.append_assoc] at hserves
    refine .record (.andThen (unboxStep_leadsTo hstep hm (fun s hs => hhas s ?_) hserves hstack) ?_)
    · exact List.mem_append_left _ (by simpa using hs)
    rintro stack' k ⟨hstack', hmoves, hserves'⟩
    replace hmoves := hmoves.record
    refine (ih hrun hmoves.marshals.ready (fun s hs => ?_) hserves' hstack').mono ?_
    · rw [hmoves.layout]
      exact hhas s (by simp [hs])
    · rintro last n ⟨hlast, hrest, hserves''⟩
      exact ⟨hlast, hmoves.trans hrest, hserves''⟩

end Interpreter

/-- An accepted program takes any value of its carrier apart, and leaves the arena to serve what comes next. -/
theorem verifyUnbox_serves (h : verifyUnbox p c l = .ok ()) (hm : m.Ready)
    (hhas : ∀ s ∈ p.storages, m.frame.layout.Has s)
    (hserves : m.scratch.Serves F m.memory (p.requests ++ requests)) (hv : v.carrier? = some c)
    (hsegment : ∀ s, v = .segment s → s.Valid m.memory ∧ ∃ size, l.byteSize = .ok size ∧ size ≤ s.length) :
    LeadsTo F (Interpreter.run .unboxStep Interpreter.unboxStep p [v]) m fun stack n =>
      stack = [] ∧ MovesInto p.storages m n ∧ n.scratch.Serves F n.memory requests := by
  obtain ⟨shape, hshape, hrun⟩ := verifyUnbox_eq_ok h
  obtain ⟨shape', hshape', hadmits⟩ : ∃ shape, Shape.ofCarrier l c = .ok shape ∧
    shape.Admits (Segment.Spans m.memory) v :=
    Shape.exists_admits hv fun s hs => by
      obtain ⟨hvalid, size, hsize, hle⟩ := hsegment s hs
      exact ⟨size, hsize, hvalid, hle⟩
  obtain rfl : shape = shape' := ok_unique hshape hshape'
  refine (Interpreter.runUnbox_leadsTo hrun hm hhas hserves (.cons hadmits .nil)).mono ?_
  rintro stack n ⟨hstack, hmoves, hserves'⟩
  exact ⟨List.forall₂_nil_left_iff.1 hstack, hmoves, hserves'⟩

/-- **An accepted program takes any value of its carrier apart**, and moves nothing but into its storages. -/
theorem verifyUnbox_leadsTo (h : verifyUnbox p c l = .ok ()) (hm : m.Ready)
    (hhas : ∀ s ∈ p.storages, m.frame.layout.Has s) (hserves : m.scratch.Serves F m.memory p.requests)
    (hv : v.carrier? = some c)
    (hsegment : ∀ s, v = .segment s → s.Valid m.memory ∧ ∃ size, l.byteSize = .ok size ∧ size ≤ s.length) :
    LeadsTo F (Interpreter.run .unboxStep Interpreter.unboxStep p [v]) m fun stack n =>
      stack = [] ∧ MovesInto p.storages m n := by
  rw [← List.append_nil p.requests] at hserves
  exact (verifyUnbox_serves h hm hhas hserves hv hsegment).mono fun _ _ ⟨hstack, hmoves, _⟩ => ⟨hstack, hmoves⟩

/-! ### Completeness -/

/-- The segment has exactly the length that verification says. -/
def Segment.Measures (s : Segment) (length : Nat) : Prop := s.length = length ∧ length < wordLimit

namespace Interpreter

/-- **A step that runs to its end is accepted** where verification knows the exact length of every segment. -/
theorem unboxStep_accepted
    (hwidth : ∀ storage kind, step = .move storage kind → kind.byteSize ≤ storage.byteSize)
    (hstack : List.Forall₂ (Shape.Admits Segment.Measures) shapes stack)
    (h : unboxStep step stack m = .ok stack' n) :
    ∃ next, Verification.unboxStep shapes step = .ok next ∧
      List.Forall₂ (Shape.Admits Segment.Measures) next stack' := by
  cases step with
  | move storage kind =>
    obtain ⟨⟨w, rest⟩, _, hpop, h⟩ := Engine.bind_eq_ok.1 h
    obtain ⟨⟨⟩, _, -, h⟩ := Engine.bind_eq_ok.1 h
    cases h
    obtain ⟨v, rfl, hv, -⟩ := popSlotBits_eq_ok.1 (Engine.lift_eq_ok.1 hpop).1
    obtain ⟨shape, shapes, hshape, hrest, rfl⟩ := List.forall₂_cons_right_iff.1 hstack
    obtain rfl := hshape.eq_scalar hv
    exact ⟨shapes, Verification.unboxStep_move (hwidth storage kind rfl), hrest⟩
  | field offset kind =>
    obtain ⟨⟨s, rest⟩, _, hpop, h⟩ := Engine.bind_eq_ok.1 h
    obtain ⟨v, _, hget, h⟩ := Engine.bind_eq_ok.1 h
    cases h
    obtain rfl := popSegment_eq_ok.1 (Engine.lift_eq_ok.1 hpop).1
    obtain ⟨shape, shapes, hshape, hrest, rfl⟩ := List.forall₂_cons_right_iff.1 hstack
    obtain ⟨length, rfl, hlength, hlimit⟩ := hshape.eq_segment
    obtain ⟨hle, hv⟩ := Segment.of_get_eq_ok (Engine.lift_eq_ok.1 hget).1
    exact ⟨_, Verification.unboxStep_field (by omega) (by omega), .cons hv hrest⟩
  | copy size alignment =>
    obtain ⟨⟨s, rest⟩, _, hpop, h⟩ := Engine.bind_eq_ok.1 h
    obtain ⟨target, _, hallocate, h⟩ := Engine.bind_eq_ok.1 h
    obtain ⟨source, _, htake, h⟩ := Engine.bind_eq_ok.1 h
    obtain ⟨⟨⟩, _, -, h⟩ := Engine.bind_eq_ok.1 h
    cases h
    obtain rfl := popSegment_eq_ok.1 (Engine.lift_eq_ok.1 hpop).1
    obtain ⟨shape, shapes, hshape, hrest, rfl⟩ := List.forall₂_cons_right_iff.1 hstack
    obtain ⟨length, rfl, hlength, -⟩ := hshape.eq_segment
    have hle := Segment.of_take_eq_ok (Engine.lift_eq_ok.1 htake).1
    exact ⟨_, Verification.unboxStep_copy (by omega),
      .cons ⟨target, rfl, Engine.allocateScratch_length hallocate⟩ hrest⟩
  | allocate size alignment =>
    obtain ⟨target, _, hallocate, h⟩ := Engine.bind_eq_ok.1 h
    cases h
    exact ⟨_, rfl, .cons ⟨target, rfl, Engine.allocateScratch_length hallocate⟩ hstack⟩
  | boxAddress =>
    obtain ⟨⟨a, rest⟩, _, hpop, h⟩ := Engine.bind_eq_ok.1 h
    cases h
    obtain rfl := popAddress_eq_ok.1 (Engine.lift_eq_ok.1 hpop).1
    obtain ⟨shape, shapes, hshape, hrest, rfl⟩ := List.forall₂_cons_right_iff.1 hstack
    obtain rfl := hshape.eq_address
    exact ⟨_, Verification.unboxStep_boxAddress, .cons rfl hrest⟩
  | baseAddress =>
    obtain ⟨⟨s, rest⟩, _, hpop, h⟩ := Engine.bind_eq_ok.1 h
    cases h
    obtain rfl := popSegment_eq_ok.1 (Engine.lift_eq_ok.1 hpop).1
    obtain ⟨shape, shapes, hshape, hrest, rfl⟩ := List.forall₂_cons_right_iff.1 hstack
    obtain ⟨length, rfl, -⟩ := hshape.eq_segment
    exact ⟨_, Verification.unboxStep_baseAddress, .cons ⟨_, rfl⟩ hrest⟩
  | dup =>
    obtain ⟨v, rest, rfl, rfl⟩ := dup_eq_ok.1 (Engine.lift_eq_ok.1 h).1
    obtain ⟨shape, shapes, hshape, hrest, rfl⟩ := List.forall₂_cons_right_iff.1 hstack
    exact ⟨_, Verification.unboxStep_dup, .cons hshape (.cons hshape hrest)⟩

theorem runUnbox_accepted (hwidth : ∀ storage kind, .move storage kind ∈ p → kind.byteSize ≤ storage.byteSize)
    (hstack : List.Forall₂ (Shape.Admits Segment.Measures) shapes stack)
    (h : run .unboxStep unboxStep p stack m = .ok stack' n) :
    ∃ next, Verification.run Verification.unboxStep i p shapes = .ok next ∧
      List.Forall₂ (Shape.Admits Segment.Measures) next stack' := by
  induction p generalizing i shapes stack m with
  | nil =>
    cases h
    exact ⟨shapes, rfl, hstack⟩
  | cons step p ih =>
    obtain ⟨⟨⟩, _, -, h⟩ := Engine.bind_eq_ok.1 h
    obtain ⟨middle, _, hstep, h⟩ := Engine.bind_eq_ok.1 h
    obtain ⟨shapes', hstep', hmiddle⟩ :=
      unboxStep_accepted (fun s k heq => hwidth s k (by simp [heq])) hstack hstep
    obtain ⟨next, hrun, hnext⟩ := ih (fun s k hmem => hwidth s k (by simp [hmem])) hmiddle h
    exact ⟨next, Verification.run_cons.2 ⟨shapes', hstep', hrun⟩, hnext⟩

end Interpreter

/-- A program that takes a value apart, leaving nothing, is accepted if the segment has exactly the length
of the layout. -/
theorem verifyUnbox_of_unbox
    (hwidth : ∀ storage kind, .move storage kind ∈ p → kind.byteSize ≤ storage.byteSize)
    (hv : v.carrier? = some c)
    (hsegment : ∀ s, v = .segment s → l.byteSize = .ok s.length ∧ s.length < wordLimit)
    (h : Engine.unbox v p m = .ok () n) : verifyUnbox p c l = .ok () := by
  obtain ⟨stack, _, hrun, hfinish⟩ := Engine.bind_eq_ok.1 h
  have hempty : stack = [] := by
    have hfinish := (Engine.lift_eq_ok.1 hfinish).1
    unfold Interpreter.finishUnbox at hfinish
    split at hfinish
    · next h => simpa using h
    · cases hfinish
  subst hempty
  obtain ⟨shape, hshape, hadmits⟩ : ∃ shape, Shape.ofCarrier l c = .ok shape ∧
    shape.Admits Segment.Measures v :=
    Shape.exists_admits hv fun s hs => ⟨s.length, (hsegment s hs).1, rfl, (hsegment s hs).2⟩
  obtain ⟨next, hverified, hnext⟩ := Interpreter.runUnbox_accepted (i := 0) hwidth (.cons hadmits .nil) hrun
  obtain rfl := List.forall₂_nil_right_iff.1 hnext
  refine bind_eq_ok.2 ⟨shape, lift_fault_eq_ok.2 hshape, bind_eq_ok.2 ⟨[], hverified, rfl⟩⟩

/-! ### Exactness -/

/-- **Verification of unboxing is exact.**  An accepted program takes every value of its carrier apart,
whose segment may be longer than the layout says, and leaves nothing on the stack.  A rejected one faults on
every value of the carrier whose segment has exactly that length. -/
theorem verifyUnbox_exact (p : Program) (c : Carrier) (l : Layout)
    (hwidth : ∀ storage kind, .move storage kind ∈ p → kind.byteSize ≤ storage.byteSize) (m : Machine σ)
    (hm : m.Ready) (hhas : ∀ s ∈ p.storages, m.frame.layout.Has s)
    (hserves : m.scratch.Serves (fun _ => False) m.memory p.requests) (v : Value) (hv : v.carrier? = some c) :
    (verifyUnbox p c l = .ok () →
      (∀ s, v = .segment s → s.Valid m.memory ∧ ∃ size, l.byteSize = .ok size ∧ size ≤ s.length) →
      ∃ n, Interpreter.run .unboxStep Interpreter.unboxStep p [v] m = .ok [] n ∧
        Engine.unbox v p m = .ok () n) ∧
    (verifyUnbox p c l ≠ .ok () →
      (∀ s, v = .segment s → l.byteSize = .ok s.length ∧ s.length < wordLimit) →
      ∃ f n, Engine.unbox v p m = .error f n) := by
  constructor
  · intro haccepted hsegment
    obtain ⟨_, n, hrun, rfl, -⟩ := (verifyUnbox_leadsTo haccepted hm hhas hserves hv hsegment).exists_ok
    exact ⟨n, hrun, Engine.bind_eq_ok.2 ⟨[], n, hrun, rfl⟩⟩
  · intro hrejected hsegment
    cases hrun : Engine.unbox v p m with
    | ok u n => exact absurd (verifyUnbox_of_unbox hwidth hv hsegment hrun) hrejected
    | error f n => exact ⟨f, n, rfl⟩

/-- Two fields of a copy of a segment, the second of which lies inside the copy or reaches beyond its end. -/
theorem verifyUnbox_exact_fields :
    let l : Layout := .struct [.value .i32, .value .i32]
    let s : Segment := .global 4096 8
    let program (offset : Nat) : Program :=
      [.copy 8 4, .dup, .field 0 .i32, .move (.slot .integerArg 0 8) .i32, .field offset .i32,
        .move (.slot .integerArg 1 8) .i32]
    let frame : FrameLayout :=
      ⟨[⟨0, 6, 8⟩, ⟨48, 8, 8⟩, ⟨112, 0, 8⟩, ⟨112, 0, 8⟩, ⟨112, 2, 8⟩, ⟨128, 2, 8⟩, ⟨144, 2, 16⟩], 176⟩
    let m : Machine Unit :=
      ⟨⟨frame, Array.replicate frame.wordCount 0, Array.size_replicate⟩, .empty, .new 64, #[], ()⟩
    verifyUnbox (program 4) .segment l = .ok () ∧ (∃ n, Engine.unbox (.segment s) (program 4) m = .ok () n) ∧
      verifyUnbox (program 6) .segment l ≠ .ok () ∧
        ∃ f n, Engine.unbox (.segment s) (program 6) m = .error f n := by
  intro l s program frame m
  have haccepted : verifyUnbox (program 4) .segment l = .ok () := by cbv
  have hrejected : verifyUnbox (program 6) .segment l ≠ .ok () := by
    have hfalse : (verifyUnbox (program 6) .segment l).isOk = false := by cbv
    intro h
    rw [h] at hfalse
    cases hfalse
  have hm : m.Ready := Scratch.new_sound ⟨by decide, by simp [m, Memory.empty]⟩ 64
  have hwidth (offset : Nat) : ∀ storage kind, .move storage kind ∈ program offset →
      kind.byteSize ≤ storage.byteSize := by
    intro storage kind h
    simp only [program, List.mem_cons, List.not_mem_nil, reduceCtorEq, Step.move.injEq, or_false, false_or] at h
    obtain ⟨rfl, rfl⟩ | ⟨rfl, rfl⟩ := h <;> decide
  have hhas (offset : Nat) : ∀ t ∈ (program offset).storages, m.frame.layout.Has t := by
    intro t ht
    obtain rfl | rfl : t = .slot .integerArg 0 8 ∨ t = .slot .integerArg 1 8 := by
      simpa [program, Program.storages, Step.storage?, eq_comm] using ht
    · exact ⟨0, rfl, by decide⟩
    · exact ⟨8, rfl, by decide⟩
  have hserves (offset : Nat) : m.scratch.Serves (fun _ => False) m.memory (program offset).requests := by
    obtain ⟨r, hr, -⟩ := exists_ok_of_any (x := m.scratch.allocate m.memory 8 4) (p := fun _ => true) (by cbv)
    show m.scratch.Serves (fun _ => False) m.memory [(8, 4)]
    unfold Scratch.Serves
    rw [hr]
    trivial
  have hsize : l.byteSize = .ok 8 := by cbv
  refine ⟨haccepted, ?_, hrejected, ?_⟩
  · obtain ⟨n, -, hunbox⟩ :=
      (verifyUnbox_exact _ .segment l (hwidth 4) m hm (hhas 4) (hserves 4) (.segment s) rfl).1 haccepted
      fun t ht => by cases ht; exact ⟨⟨rfl, by decide⟩, 8, hsize, Nat.le_refl _⟩
    exact ⟨n, hunbox⟩
  · exact (verifyUnbox_exact _ .segment l (hwidth 6) m hm (hhas 6) (hserves 6) (.segment s) rfl).2 hrejected
      fun t ht => by cases ht; exact ⟨hsize, by decide⟩

end ForeignCall
