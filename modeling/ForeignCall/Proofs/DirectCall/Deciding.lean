import ForeignCall.Proofs.Arrangement.ScratchSize
import ForeignCall.Proofs.DirectCall.Agreement
import Mathlib.Algebra.Order.BigOperators.Group.List
import Mathlib.Algebra.Order.Group.Nat

/-!
# Eligibility decides compilation

The check of a sequence counts moves and looks at single steps in any order; compiling asks for a move at a
fixed end and for few other steps.  On programs that passed the verifier the two ask for the same.

* `Eligibility.checkProgram_eq_ok`, `checkEligible_eq_ok`: what passes the check (`Program.IsDirect`,
  `Binding.IsDirect`);
* `DirectUnboxing`, `DirectBoxing`: the shapes of programs that can be compiled.  A program that is verified
  and passes the check has one of them, since the verifier follows the single value through it;
* `compile_decided`: compiling a sequence of a builder succeeds iff the sequence passes the check, and fails
  with the report of the check otherwise.
-/

namespace ForeignCall

open Verification Eligibility

variable {s : CallingSequence} {c : Convention} {settings : Settings} {l : FrameLayout}
  {layout : Layout} {carrier : Carrier} {position : ProgramPosition} {step : Step} {p : Program}
  {stack : List Shape} {shape : Shape} {kind : Primitive} {size i n : Nat}

/-! ### What passes the check -/

/-- The step needs no scratch memory, and moves directly if it moves. -/
def Step.IsDirect (size : Nat) : Step → Prop
  | .move storage _ => storage.isDirect size = true
  | .field _ _ | .baseAddress | .boxAddress => True
  | .copy _ _ | .allocate _ _ | .dup => False

/-- The program has a single move, which is direct for a value of `size` bytes, and asks for no scratch
memory. -/
structure Program.IsDirect (size : Nat) (p : Program) : Prop where
  steps : ∀ step ∈ p, step.IsDirect size
  moves : (Program.storages p).length = 1

/-- The program is direct for the layout that it moves. -/
def Binding.IsDirect (b : Binding) : Prop := ∃ size, b.layout.byteSize = .ok size ∧ b.program.IsDirect size

namespace Eligibility

theorem countMoves_eq_ok : countMoves position size p = .ok n ↔
    (∀ step ∈ p, step.IsDirect size) ∧ (Program.storages p).length = n := by
  induction p generalizing n with
  | nil => simp [countMoves, Program.storages]
  | cons step p ih =>
    rw [List.forall_mem_cons]
    cases step with
    | move storage kind =>
      rw [countMoves, Step.IsDirect, Program.storages, List.filterMap_cons, Step.storage?]
      split
      · next hdirect =>
        rw [bind_eq_ok]
        simp [ih, Program.storages, and_assoc, hdirect]
      · next hdirect => simp [hdirect]
    | field _ _ | baseAddress | boxAddress =>
      rw [countMoves, ih, Step.IsDirect, true_and]
      rfl
    | copy _ _ | allocate _ _ | dup => simp [countMoves, Step.IsDirect]

theorem checkProgram_eq_ok : checkProgram position size p = .ok () ↔ p.IsDirect size := by
  unfold checkProgram
  rw [bind_eq_ok]
  constructor
  · rintro ⟨count, hcount, h⟩
    split at h
    · next hone =>
      obtain ⟨hsteps, hmoves⟩ := countMoves_eq_ok.1 hcount
      exact ⟨hsteps, hmoves.trans hone⟩
    · cases h
  · rintro ⟨hsteps, hmoves⟩
    exact ⟨1, countMoves_eq_ok.2 ⟨hsteps, hmoves⟩, rfl⟩

theorem report_eq_ok {α : Type} {x : Except Ineligible α} {a : α} :
    Eligibility.report x = .ok a ↔ x = .ok a := by
  cases x <;> simp [Eligibility.report]

theorem checkArguments_eq_ok {bs : List Binding} :
    checkArguments i (bs.map (·.program)) (bs.map (·.layout)) = .ok () ↔ ∀ b ∈ bs, b.IsDirect := by
  induction bs generalizing i with
  | nil => simp [checkArguments]
  | cons b bs ih =>
    rw [List.forall_mem_cons, List.map_cons, List.map_cons, checkArguments, bind_eq_ok]
    constructor
    · rintro ⟨size, hsize, h⟩
      obtain ⟨⟨⟩, hprogram, hrest⟩ := bind_eq_ok.1 h
      exact ⟨⟨size, lift_fault_eq_ok.1 hsize, checkProgram_eq_ok.1 (report_eq_ok.1 hprogram)⟩, ih.1 hrest⟩
    · rintro ⟨⟨size, hsize, hprogram⟩, hrest⟩
      exact ⟨size, lift_fault_eq_ok.2 hsize,
        bind_eq_ok.2 ⟨(), report_eq_ok.2 (checkProgram_eq_ok.2 hprogram), ih.2 hrest⟩⟩

end Eligibility

/-- **What passes the check**: few arguments, no result in memory, and programs that are direct. -/
theorem checkEligible_eq_ok : checkEligible s c settings = .ok () ↔
    settings.allowsDirect s.direction = true ∧ s.indirect = none ∧
      s.arguments.length ≤ c.maxDirectArguments s.direction ∧ (∀ b ∈ s.arguments, b.IsDirect) ∧
        ∀ b ∈ s.result, b.IsDirect := by
  unfold checkEligible
  cases hallowed : settings.allowsDirect s.direction with
  | false => simp
  | true =>
    cases hindirect : s.indirect with
    | some indirect => simp [CallingSequence.isIndirect, hindirect]
    | none =>
      have hlayout : s.descriptor.result = s.result.map (·.layout) := by
        simp [CallingSequence.descriptor, hindirect]
      have harguments : checkArguments 0 s.argumentPrograms s.descriptor.args = .ok () ↔
          ∀ b ∈ s.arguments, b.IsDirect := by
        rw [s.argumentPrograms_eq hindirect]
        exact checkArguments_eq_ok
      have hlength : s.argumentPrograms.length = s.arguments.length := by simp [s.argumentPrograms_eq hindirect]
      rw [if_neg (by simp), if_neg (by simp [CallingSequence.isIndirect, hindirect]), hlength]
      split
      · next hcount => simp [Nat.not_le.2 hcount]
      · next hcount =>
        simp only [bind_eq_ok, exists_const, harguments, hlayout, true_and, Nat.le_of_not_lt hcount]
        refine and_congr_right fun _ => ?_
        cases hresult : s.result with
        | none => simp
        | some b =>
          have hprogram : s.resultProgram = b.program := by simp [CallingSequence.resultProgram, hresult]
          simp only [Option.map_some, bind_eq_ok, lift_fault_eq_ok, Eligibility.report_eq_ok,
            checkProgram_eq_ok, hprogram, Option.mem_some_iff, forall_eq', Binding.IsDirect]

/-- A call with more arguments than that is not compiled. -/
theorem DirectDowncall.compile_of_many (h : c.maxDirectArguments s.direction < s.argumentPrograms.length) :
    ∃ reason, compile s l c settings = .error (.error reason) := by
  have hcheck : ∃ reason, checkEligible s c settings = .error (.error reason) := by
    unfold checkEligible
    by_cases hallowed : settings.allowsDirect s.direction = false
    · exact ⟨_, if_pos hallowed⟩
    rw [if_neg hallowed]
    by_cases hindirect : s.isIndirect = true
    · exact ⟨_, if_pos hindirect⟩
    rw [if_neg hindirect]
    exact ⟨_, if_pos h⟩
  obtain ⟨reason, hcheck⟩ := hcheck
  refine ⟨reason, ?_⟩
  unfold compile
  rw [hcheck]
  rfl

/-! ### Shapes of programs -/

/-- The unboxing programs that can be compiled: they move a scalar, an address, a field of a segment, or the
address of a segment. -/
inductive DirectUnboxing : Program → Prop
  | scalar (storage : Storage) (kind : Primitive) : DirectUnboxing [.move storage kind]
  | address (storage : Storage) : DirectUnboxing [.boxAddress, .move storage .i64]
  | field (offset : Nat) (kind : Primitive) (storage : Storage) :
      DirectUnboxing [.field offset kind, .move storage kind]
  | baseAddress (storage : Storage) : DirectUnboxing [.baseAddress, .boxAddress, .move storage .i64]

/-- The boxing programs that can be compiled: they fetch a scalar or an address. -/
inductive DirectBoxing : Program → Prop
  | scalar (storage : Storage) (kind : Primitive) : DirectBoxing [.move storage kind]
  | address (storage : Storage) : DirectBoxing [.move storage .i64, .boxAddress]

/-- A program of the side, as it can be compiled. -/
def DirectProgram (unboxes : Bool) (p : Program) : Prop := if unboxes then DirectUnboxing p else DirectBoxing p

theorem unboxStep_nil_ne (hdirect : step.IsDirect size) : unboxStep [] step ≠ .ok stack := by
  intro h
  have heffect := unboxStep_eq_ok h
  cases step with
  | move storage kind => cases heffect
  | field _ _ | baseAddress =>
    obtain ⟨_, _, hstack, -⟩ := heffect
    cases hstack
  | boxAddress =>
    obtain ⟨_, hstack, -⟩ := heffect
    cases hstack
  | copy _ _ | allocate _ _ | dup => exact hdirect

/-- A direct step finds its operand in the only value on the stack, and leaves at most one. -/
theorem unboxStep_direct (hdirect : step.IsDirect size) (h : unboxStep [shape] step = .ok stack) :
    (∃ storage kind, step = .move storage kind ∧ shape = .scalar kind ∧ stack = []) ∨
      (∃ offset kind length, step = .field offset kind ∧ shape = .segment length ∧ stack = [.scalar kind]) ∨
      (∃ length, step = .baseAddress ∧ shape = .segment length ∧ stack = [.address]) ∨
      (step = .boxAddress ∧ shape = .address ∧ stack = [.scalar .i64]) := by
  have heffect := unboxStep_eq_ok h
  cases step with
  | move storage kind =>
    cases heffect
    exact .inl ⟨storage, kind, rfl, rfl, rfl⟩
  | field offset kind =>
    obtain ⟨length, rest, hstack, -, rfl⟩ := heffect
    cases hstack
    exact .inr (.inl ⟨offset, kind, length, rfl, rfl, rfl⟩)
  | baseAddress =>
    obtain ⟨length, rest, hstack, rfl⟩ := heffect
    cases hstack
    exact .inr (.inr (.inl ⟨length, rfl, rfl, rfl⟩))
  | boxAddress =>
    obtain ⟨rest, hstack, rfl⟩ := heffect
    cases hstack
    exact .inr (.inr (.inr ⟨rfl, rfl, rfl⟩))
  | copy _ _ | allocate _ _ | dup => exact hdirect.elim

theorem direct_of_scalar (hsteps : ∀ step ∈ p, step.IsDirect size)
    (h : run unboxStep i p [.scalar kind] = .ok []) :
    ∃ storage, p = [.move storage kind] := by
  cases p with
  | nil => cases run_nil.1 h
  | cons step rest =>
    obtain ⟨hstep, hrest⟩ := List.forall_mem_cons.1 hsteps
    obtain ⟨next, heffect, hrun⟩ := run_cons.1 h
    obtain ⟨storage, _, rfl, hshape, rfl⟩ | ⟨_, _, _, -, hshape, -⟩ | ⟨_, -, hshape, -⟩ | ⟨-, hshape, -⟩ :=
      unboxStep_direct hstep heffect
    · cases hshape
      cases rest with
      | nil => exact ⟨storage, rfl⟩
      | cons step rest =>
        obtain ⟨_, hnext, -⟩ := run_cons.1 hrun
        exact absurd hnext (unboxStep_nil_ne (List.forall_mem_cons.1 hrest).1)
    all_goals cases hshape

theorem direct_of_address (hsteps : ∀ step ∈ p, step.IsDirect size)
    (h : run unboxStep i p [.address] = .ok []) :
    ∃ storage, p = [.boxAddress, .move storage .i64] := by
  cases p with
  | nil => cases run_nil.1 h
  | cons step rest =>
    obtain ⟨hstep, hrest⟩ := List.forall_mem_cons.1 hsteps
    obtain ⟨next, heffect, hrun⟩ := run_cons.1 h
    obtain ⟨_, _, -, hshape, -⟩ | ⟨_, _, _, -, hshape, -⟩ | ⟨_, -, hshape, -⟩ | ⟨rfl, -, rfl⟩ :=
      unboxStep_direct hstep heffect
    case inr.inr.inr =>
      obtain ⟨storage, rfl⟩ := direct_of_scalar hrest hrun
      exact ⟨storage, rfl⟩
    all_goals cases hshape

/-- **A verified unboxing program of direct steps has one of four shapes.** -/
theorem directUnboxing (hv : verifyUnbox p carrier layout = .ok ()) (hsteps : ∀ step ∈ p, step.IsDirect size) :
    DirectUnboxing p := by
  obtain ⟨shape, -, h⟩ := verifyUnbox_eq_ok hv
  cases p with
  | nil => cases run_nil.1 h
  | cons step rest =>
    obtain ⟨hstep, hrest⟩ := List.forall_mem_cons.1 hsteps
    obtain ⟨next, heffect, hrun⟩ := run_cons.1 h
    obtain ⟨_, kind, -, rfl, -⟩ | ⟨offset, kind, _, rfl, -, rfl⟩ | ⟨_, rfl, -, rfl⟩ | ⟨-, rfl, -⟩ :=
      unboxStep_direct hstep heffect
    · obtain ⟨storage, hp⟩ := direct_of_scalar hsteps h
      exact hp ▸ .scalar storage kind
    · obtain ⟨storage, rfl⟩ := direct_of_scalar hrest hrun
      exact .field offset kind storage
    · obtain ⟨storage, rfl⟩ := direct_of_address hrest hrun
      exact .baseAddress storage
    · obtain ⟨storage, hp⟩ := direct_of_address hsteps h
      exact hp ▸ .address storage

/-- Without a segment, the only direct step other than a move turns bits into an address. -/
theorem boxStep_direct (hdirect : step.IsDirect size) (hmove : step.storage? = none)
    (hshape : ∀ length, shape ≠ .segment length) (h : boxStep [shape] step = .ok stack) :
    step = .boxAddress ∧ shape = .scalar .i64 ∧ stack = [.address] := by
  have heffect := boxStep_eq_ok h
  cases step with
  | move storage kind => cases hmove
  | field offset kind =>
    obtain ⟨_, _, hstack, -⟩ := heffect
    cases hstack
  | baseAddress =>
    obtain ⟨length, _, hstack, -⟩ := heffect
    cases hstack
    exact absurd rfl (hshape length)
  | boxAddress =>
    obtain ⟨_, hstack, rfl⟩ := heffect
    cases hstack
    exact ⟨rfl, rfl, rfl⟩
  | copy _ _ | allocate _ _ | dup => exact hdirect.elim

theorem direct_of_bits (hsteps : ∀ step ∈ p, step.IsDirect size) (hmoves : Program.storages p = [])
    (h : run boxStep i p [.scalar kind] = .ok [shape]) : p = [] ∨ p = [.boxAddress] ∧ kind = .i64 := by
  cases p with
  | nil => exact .inl rfl
  | cons step rest =>
    obtain ⟨hstep, hrest⟩ := List.forall_mem_cons.1 hsteps
    obtain ⟨hmove, hmoves⟩ := List.append_eq_nil_iff.1 (Program.storages_cons step rest ▸ hmoves)
    obtain ⟨next, heffect, hrun⟩ := run_cons.1 h
    obtain ⟨rfl, hkind, rfl⟩ := boxStep_direct hstep (Option.toList_eq_nil_iff.1 hmove) (by simp) heffect
    cases hkind
    cases rest with
    | nil => exact .inr ⟨rfl, rfl⟩
    | cons step rest =>
      obtain ⟨hmove, -⟩ := List.append_eq_nil_iff.1 (Program.storages_cons step rest ▸ hmoves)
      obtain ⟨_, heffect, -⟩ := run_cons.1 hrun
      obtain ⟨-, hshape, -⟩ :=
        boxStep_direct (List.forall_mem_cons.1 hrest).1 (Option.toList_eq_nil_iff.1 hmove) (by simp) heffect
      cases hshape

/-- **A verified boxing program of direct steps with one move has one of two shapes.** -/
theorem directBoxing (hv : verifyBox p carrier layout = .ok ()) (hp : p.IsDirect size) : DirectBoxing p := by
  obtain ⟨shape, h, -⟩ := verifyBox_eq_ok hv
  obtain ⟨hsteps, hmoves⟩ := hp
  cases p with
  | nil => cases hmoves
  | cons step rest =>
    obtain ⟨hstep, hrest⟩ := List.forall_mem_cons.1 hsteps
    obtain ⟨next, hfirst, hrun⟩ := run_cons.1 h
    have heffect := boxStep_eq_ok hfirst
    cases step with
    | move storage kind =>
      obtain rfl : next = [.scalar kind] := heffect
      have hmoves : Program.storages rest = [] := List.length_eq_zero_iff.1 (Nat.succ.inj hmoves)
      obtain rfl | ⟨rfl, rfl⟩ := direct_of_bits hrest hmoves hrun
      · exact .scalar storage kind
      · exact .address storage
    | field _ _ | baseAddress =>
      obtain ⟨_, _, hstack, -⟩ := heffect
      cases hstack
    | boxAddress =>
      obtain ⟨_, hstack, -⟩ := heffect
      cases hstack
    | copy _ _ | allocate _ _ | dup => exact hstep.elim

theorem Program.IsDirect.scratch (hp : p.IsDirect size) : p.scratch = 0 := by
  have hsteps := hp.steps
  clear hp
  induction p with
  | nil => rfl
  | cons step rest ih =>
    obtain ⟨hstep, hrest⟩ := List.forall_mem_cons.1 hsteps
    have hzero : step.scratchSize = 0 := by
      cases step with
      | copy _ _ | allocate _ _ => exact hstep.elim
      | _ => rfl
    rw [scratch_cons, hzero, ih hrest]

/-! ### Compiling -/

/-- The storages of the program are part of the frame. -/
def Program.Resolves (l : FrameLayout) (p : Program) : Prop :=
  ∀ storage ∈ p.storages, (l.offset? storage).isSome

theorem FrameLayout.exists_offset {storage : Storage} (h : (l.offset? storage).isSome) :
    ∃ o, l.offset storage = .ok o := by
  obtain ⟨o, ho⟩ := Option.isSome_iff_exists.1 h
  exact ⟨o, by rw [offset, ho]⟩

theorem DirectUnboxing.exists_sink (hp : DirectUnboxing p) (hl : p.Resolves l) (position : ProgramPosition) :
    ∃ k, DirectCall.sink l position p = .ok k := by
  have hmove (storage : Storage) (h : storage ∈ Program.storages p) : ∃ o, l.offset storage = .ok o :=
    FrameLayout.exists_offset (hl storage h)
  cases hp with
  | scalar storage _ | address storage | field _ _ storage | baseAddress storage =>
    obtain ⟨o, ho⟩ := hmove storage (by simp [Program.storages, Step.storage?])
    exact ⟨_, bind_eq_ok.2 ⟨o, lift_fault_eq_ok.2 ho, rfl⟩⟩

theorem DirectBoxing.exists_source (hp : DirectBoxing p) (hl : p.Resolves l) (position : ProgramPosition) :
    ∃ k, DirectCall.source l position p = .ok k := by
  have hmove (storage : Storage) (h : storage ∈ Program.storages p) : ∃ o, l.offset storage = .ok o :=
    FrameLayout.exists_offset (hl storage h)
  cases hp with
  | scalar storage _ | address storage =>
    obtain ⟨o, ho⟩ := hmove storage (by simp [Program.storages, Step.storage?])
    exact ⟨_, bind_eq_ok.2 ⟨o, lift_fault_eq_ok.2 ho, rfl⟩⟩

theorem DirectCall.exists_arguments {α : Type} {compile : ProgramPosition → Program → Compiling α}
    {bs : List Binding} (h : ∀ b ∈ bs, ∀ position, ∃ a, compile position b.program = .ok a) :
    ∃ as, arguments compile i (bs.map (·.program)) = .ok as := by
  induction bs generalizing i with
  | nil => exact ⟨[], rfl⟩
  | cons b bs ih =>
    obtain ⟨hb, hbs⟩ := List.forall_mem_cons.1 h
    obtain ⟨a, ha⟩ := hb (.argument i)
    obtain ⟨as, has⟩ := ih (i := i + 1) hbs
    exact ⟨a :: as, bind_eq_ok.2 ⟨a, ha, bind_eq_ok.2 ⟨as, has, rfl⟩⟩⟩

theorem DirectCall.exists_result? {α : Type} {compile : ProgramPosition → Program → Compiling α}
    (h : ∀ b ∈ s.result, ∀ position, ∃ a, compile position b.program = .ok a) :
    ∃ a?, result? compile s = .ok a? := by
  unfold result?
  split
  · next hprogram =>
    cases hresult : s.result with
    | none => simp [CallingSequence.hasResultProgram, CallingSequence.resultProgram, hresult] at hprogram
    | some b =>
      obtain ⟨a, ha⟩ := h b hresult .result
      have hb : s.resultProgram = b.program := by simp [CallingSequence.resultProgram, hresult]
      exact ⟨some a, bind_eq_ok.2 ⟨a, hb ▸ ha, rfl⟩⟩
  · exact ⟨none, rfl⟩

theorem map_bind_check {ε α : Type} {x : Except ε Unit} {f : Unit → Except ε α}
    (h : x = .ok () → ∃ a, f () = .ok a) :
    (x >>= f).map (fun _ => ()) = x := by
  cases x with
  | error e => rfl
  | ok u =>
    obtain ⟨a, ha⟩ := h rfl
    rw [ok_bind, ha]
    rfl

/-! ### Eligible sequences -/

/-- What is known of a sequence of a builder that passes the check. -/
structure CallingSequence.Direct (s : CallingSequence) : Prop where
  indirect : s.indirect = none
  arguments : ∀ b ∈ s.arguments, DirectProgram s.direction.unboxesArguments b.program
  result : ∀ b ∈ s.result, DirectProgram s.direction.unboxesResult b.program
  scratchSize : s.scratchSize = 0

theorem directProgram_of_check {unboxes asArgument : Bool} {b : Binding}
    (hcheck : SequenceBuilder.check s.direction unboxes asArgument b = .ok ()) (hb : b.IsDirect) :
    DirectProgram unboxes b.program := by
  obtain ⟨size, -, hp⟩ := hb
  cases unboxes with
  | true => exact directUnboxing (SequenceBuilder.verifyUnbox_of_check hcheck) hp.steps
  | false => exact directBoxing (SequenceBuilder.verifyBox_of_check hcheck) hp

theorem CallingSequence.scratch_steps_eq_zero (hindirect : s.indirect = none)
    (harguments : ∀ b ∈ s.arguments, b.IsDirect) (hresult : ∀ b ∈ s.result, b.IsDirect) :
    Program.scratch s.steps = 0 := by
  have hprograms : (s.argumentPrograms.map Program.scratch).sum = 0 := by
    rw [s.argumentPrograms_eq hindirect, List.sum_eq_zero_iff]
    intro n hn
    simp only [List.map_map, List.mem_map, Function.comp_apply] at hn
    obtain ⟨b, hb, rfl⟩ := hn
    obtain ⟨size, -, hp⟩ := harguments b hb
    exact hp.scratch
  rw [steps, Program.scratch_append, Program.scratch_flatten, hprograms, Nat.zero_add]
  unfold resultProgram
  split
  · next b hb =>
    obtain ⟨size, -, hp⟩ := hresult b hb
    exact hp.scratch
  · rfl

theorem CallingSequence.Built.direct (hs : s.Built) (h : checkEligible s c settings = .ok ()) : s.Direct := by
  obtain ⟨-, hindirect, -, harguments, hresult⟩ := checkEligible_eq_ok.1 h
  refine ⟨hindirect, fun b hb => directProgram_of_check (hs.verified.arguments b hb) (harguments b hb),
    fun b hb => directProgram_of_check (hs.verified.result b hb) (hresult b hb), ?_⟩
  obtain ⟨builder, -, hbuild⟩ := hs
  obtain ⟨-, -, -, -, hsize⟩ := SequenceBuilder.build_eq_ok hbuild
  rw [SequenceBuilder.scratchSize_eq, s.scratch_steps_eq_zero hindirect harguments hresult] at hsize
  exact (Except.ok.inj hsize).symm

theorem CallingSequence.exists_resultLength (hindirect : s.indirect = none)
    (hresult : ∀ b ∈ s.result, b.IsDirect) :
    ∃ length, s.resultLength = .ok length := by
  cases h : s.result with
  | none => exact ⟨0, by simp [resultLength, descriptor, hindirect, h]⟩
  | some b =>
    obtain ⟨size, hsize, -⟩ := hresult b h
    exact ⟨size, by simp [resultLength, descriptor, hindirect, h, hsize]⟩

theorem CallingSequence.resolves_of_storages (hl : ∀ storage ∈ s.storages, (l.offset? storage).isSome)
    (hindirect : s.indirect = none) :
    (∀ b ∈ s.arguments, b.program.Resolves l) ∧ ∀ b ∈ s.result, b.program.Resolves l := by
  have hsteps : Program.Resolves l s.steps := fun storage h => hl storage (Storage.mem_sortedSet.2 h)
  constructor
  · intro b hb storage hstorage
    refine hsteps storage ?_
    rw [steps, Program.storages_append, Program.storages_flatten, s.argumentPrograms_eq hindirect]
    exact List.mem_append_left _ (List.mem_flatMap.2 ⟨_, List.mem_map_of_mem hb, hstorage⟩)
  · intro b hb storage hstorage
    refine hsteps storage ?_
    rw [steps, Program.storages_append]
    have hprogram : s.resultProgram = b.program := by simp [resultProgram, Option.mem_def.1 hb]
    exact List.mem_append_right _ (hprogram ▸ hstorage)

/-- **Eligibility decides compilation.**  If a frame has all storages of a sequence that a builder put
together, compiling the sequence succeeds iff the check does, and fails with the report of the check
otherwise.  The programs of an eligible sequence have few shapes, and it needs no scratch memory. -/
theorem compile_decided (hs : s.Built) (hl : ∀ storage ∈ s.storages, (l.offset? storage).isSome)
    (c : Convention) (settings : Settings) :
    (s.direction = .downcall →
        (DirectDowncall.compile s l c settings).map (fun _ => ())
          = Halt.ofOverflow (checkEligible s c settings)) ∧
      (s.direction = .upcall →
        (DirectUpcall.compile s l c settings).map (fun _ => ())
          = Halt.ofOverflow (checkEligible s c settings)) ∧
      (checkEligible s c settings = .ok () → s.Direct) := by
  refine ⟨fun hdirection => map_bind_check fun h => ?_, fun hdirection => map_bind_check fun h => ?_, hs.direct⟩
  all_goals
    have heligible := Halt.ofOverflow_eq_ok.1 h
    obtain ⟨hindirect, harguments, hresult, -⟩ := hs.direct heligible
    obtain ⟨hresolves, hresolves'⟩ := s.resolves_of_storages hl hindirect
    rw [hdirection] at harguments hresult
    rw [s.argumentPrograms_eq hindirect]
  · obtain ⟨sinks, hsinks⟩ := DirectCall.exists_arguments (i := 0) fun b hb =>
      DirectUnboxing.exists_sink (harguments b hb) (hresolves b hb)
    obtain ⟨source?, hsource⟩ := DirectCall.exists_result? fun b hb =>
      DirectBoxing.exists_source (hresult b hb) (hresolves' b hb)
    exact ⟨_, bind_eq_ok.2 ⟨sinks, hsinks, bind_eq_ok.2 ⟨source?, hsource, rfl⟩⟩⟩
  · obtain ⟨sources, hsources⟩ := DirectCall.exists_arguments (i := 0) fun b hb =>
      DirectBoxing.exists_source (harguments b hb) (hresolves b hb)
    obtain ⟨sink?, hsink⟩ := DirectCall.exists_result? fun b hb =>
      DirectUnboxing.exists_sink (hresult b hb) (hresolves' b hb)
    obtain ⟨length, hlength⟩ := s.exists_resultLength hindirect (checkEligible_eq_ok.1 heligible).2.2.2.2
    exact ⟨_, bind_eq_ok.2 ⟨sources, hsources, bind_eq_ok.2 ⟨sink?, hsink,
      bind_eq_ok.2 ⟨length, lift_fault_eq_ok.2 (Fault.ofOverflow_eq_ok.2 hlength), rfl⟩⟩⟩⟩

/-- A segment is passed by the address of its memory, and an address comes back: the sequence compiles. -/
theorem compile_decided_address :
    let argument : Binding :=
      ⟨.segment, .value .i64, [.baseAddress, .boxAddress, .move (.slot .integerArg 0 8) .i64]⟩
    let result : Binding := ⟨.address, .address, [.move (.slot .integerRet 0 8) .i64, .boxAddress]⟩
    let s : CallingSequence := ⟨.downcall, [argument], some result, none, 0⟩
    let l : FrameLayout :=
      ⟨[⟨0, 6, 8⟩, ⟨48, 8, 8⟩, ⟨112, 0, 8⟩, ⟨112, 0, 8⟩, ⟨112, 2, 8⟩, ⟨128, 2, 8⟩, ⟨144, 2, 16⟩], 176⟩
    s.Built ∧ (∀ storage ∈ s.storages, (l.offset? storage).isSome) ∧
      checkEligible s .sysV .everything = .ok () ∧
      (DirectDowncall.compile s l .sysV .everything).map (fun _ => ()) = .ok () ∧ s.Direct := by
  intro argument result s l
  have hbuilt : s.Built :=
    ⟨⟨.downcall, [argument], some result, none⟩,
      .setResult (b := result) (.addArgument (b := argument) (.new .downcall) rfl) rfl, rfl⟩
  have hresolves : ∀ storage ∈ s.storages, (l.offset? storage).isSome := by
    intro storage h
    revert storage
    simp only [CallingSequence.storages, Storage.mem_sortedSet]
    decide
  obtain ⟨hdowncall, -, hdirect⟩ := compile_decided hbuilt hresolves .sysV .everything
  exact ⟨hbuilt, hresolves, rfl, hdowncall rfl, hdirect rfl⟩

end ForeignCall
