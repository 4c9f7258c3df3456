import ForeignCall.Proofs.Arrangement.Decision
import ForeignCall.Proofs.Arrangement.Locations

/-!
# Builders under any run of requests

* `SequenceBuilder.Request`: one call of a function of the builder, `SequenceBuilder.apply` makes it;
* `SequenceBuilder.answer_eq_ok`: a request succeeds iff it passes the check of its side and role and the
  builder has not taken its only result before.  It then adds just what it is for
  (`SequenceBuilder.apply_eq`);
* `SequenceBuilder.after`: the builder that is left by a run of requests of which the failed ones are passed
  over, and `SequenceBuilder.after_eq`, what it holds: the result and the in-memory result do not depend on
  where they were given;
* `SequenceBuilder.Assembles`: how a sequence is put together from the bindings of a builder.
-/

namespace ForeignCall

namespace SequenceBuilder

/-- One call of a function of the builder. -/
inductive Request where
  | argument (b : Binding)
  | result (b : Binding)
  | indirect (l : Layout) (pointer : Program)
  deriving DecidableEq

namespace Request

def argument? : Request → Option Binding
  | .argument b => some b
  | _ => none

def result? : Request → Option Binding
  | .result b => some b
  | _ => none

def indirect? : Request → Option (Program × Layout)
  | .indirect l pointer => some (pointer, l)
  | _ => none

/-- The check that the builder makes of the program of a request. -/
def check (direction : Direction) : Request → Except Fault Unit
  | .argument b => SequenceBuilder.check direction direction.unboxesArguments true b
  | .result b => SequenceBuilder.check direction direction.unboxesResult false b
  | .indirect _ pointer =>
    SequenceBuilder.check direction direction.unboxesArguments true ⟨.address, .address, pointer⟩

def passes (direction : Direction) (r : Request) : Bool := (r.check direction).isOk

/-- Whether two requests are for the same thing, of which a builder holds one. -/
def competes : Request → Request → Bool
  | .result _, .result _ | .indirect _ _, .indirect _ _ => true
  | _, _ => false

end Request

/-- Make a call of a function of the builder. -/
def apply (s : SequenceBuilder) : Request → Except (Halt Fault BindingError) SequenceBuilder
  | .argument b => liftM (s.addArgument b)
  | .result b => s.setResult b
  | .indirect l pointer => liftM (s.markIndirect l pointer)

/-- The builder after a run of requests.  A request that fails is passed over. -/
def after (s : SequenceBuilder) (requests : List Request) : SequenceBuilder :=
  requests.foldl (fun s r => (s.apply r).toOption.getD s) s

/-- Whether the builder has room for what a request is for. -/
def hasRoom (s : SequenceBuilder) : Request → Bool
  | .argument _ => true
  | .result _ => s.result.isNone
  | .indirect _ _ => s.indirect.isNone

/-- Why there is no room, which there always is for an argument. -/
def Request.refusal : Request → Halt Fault BindingError
  | .argument _ | .indirect _ _ => .fault .resultMarkedTwice
  | .result _ => .error .resultAlreadySet

/-- What the builder answers to a request: it looks for room first and then checks the program. -/
def answer (s : SequenceBuilder) (r : Request) : Except (Halt Fault BindingError) Unit :=
  if s.hasRoom r then Halt.ofFault (r.check s.direction) else .error r.refusal

/-- The builder with what a request is for. -/
def extend (s : SequenceBuilder) : Request → SequenceBuilder
  | .argument b => { s with arguments := s.arguments ++ [b] }
  | .result b => { s with result := some b }
  | .indirect l pointer => { s with indirect := some (pointer, l) }

variable {s : SequenceBuilder} {r : Request} {requests : List Request} {direction : Direction}

theorem Request.passes_iff : r.passes direction = true ↔ r.check direction = .ok () := by
  unfold passes
  cases r.check direction <;> simp [Except.isOk, Except.toBool]

/-! ### Single requests -/

theorem answer_eq_ok : s.answer r = .ok () ↔ s.hasRoom r = true ∧ r.passes s.direction = true := by
  rw [Request.passes_iff, answer]
  by_cases h : s.hasRoom r <;> simp [h]

/-- A request adds just what it is for, or fails with the answer of the builder. -/
theorem apply_eq (s : SequenceBuilder) (r : Request) : s.apply r = (s.answer r).map fun _ => s.extend r := by
  cases r with
  | argument b =>
    show Halt.ofFault (s.addArgument b) = (Halt.ofFault (check _ _ _ b)).map _
    unfold addArgument
    cases check s.direction s.direction.unboxesArguments true b <;> rfl
  | result b =>
    unfold apply setResult answer hasRoom Request.check
    cases s.result with
    | some _ => rfl
    | none => cases h : check s.direction s.direction.unboxesResult false b <;> simp [h] <;> rfl
  | indirect l pointer =>
    unfold apply markIndirect answer hasRoom Request.check
    cases s.indirect with
    | some _ => rfl
    | none =>
      cases h : check s.direction s.direction.unboxesArguments true ⟨.address, .address, pointer⟩ <;>
        simp [h] <;> rfl

theorem apply_getD : (s.apply r).toOption.getD s =
    if s.hasRoom r = true ∧ r.passes s.direction = true then s.extend r else s := by
  by_cases h : s.answer r = .ok ()
  · rw [if_pos (answer_eq_ok.1 h), apply_eq, h]
    rfl
  · rw [if_neg (mt answer_eq_ok.2 h), apply_eq]
    cases hanswer : s.answer r with
    | ok u => exact absurd hanswer h
    | error e => rfl

/-! ### Runs of requests -/

/-- The requests of a run that pass the check. -/
def Request.passing (direction : Direction) (requests : List Request) : List Request :=
  requests.filter (Request.passes direction)

theorem after_cons : s.after (r :: requests) = ((s.apply r).toOption.getD s).after requests := rfl

/-- What a builder holds after a run: the arguments that pass in their order, and the first result and
in-memory result that pass unless it has held one before. -/
theorem after_eq (s : SequenceBuilder) (requests : List Request) :
    let passing := Request.passing s.direction requests
    s.after requests = ⟨s.direction, s.arguments ++ passing.filterMap Request.argument?,
      s.result.or (passing.findSome? Request.result?),
        s.indirect.or (passing.findSome? Request.indirect?)⟩ := by
  induction requests generalizing s with
  | nil => simp [after, Request.passing]
  | cons r requests ih =>
    rw [after_cons, apply_getD]
    by_cases hpasses : r.passes s.direction = true
    · have hpassing : Request.passing s.direction (r :: requests) = r :: Request.passing s.direction requests :=
        List.filter_cons_of_pos hpasses
      rw [hpassing]
      cases r with
      | argument b =>
        simp [hasRoom, hpasses, extend, ih, List.findSome?_cons, Request.argument?, Request.result?,
          Request.indirect?]
      | result b =>
        cases h : s.result <;> simp [hasRoom, hpasses, h, extend, ih, List.filterMap_cons, List.findSome?_cons,
          Request.argument?, Request.result?, Request.indirect?]
      | indirect l pointer =>
        cases h : s.indirect <;> simp [hasRoom, hpasses, h, extend, ih, List.filterMap_cons,
          List.findSome?_cons, Request.argument?, Request.result?, Request.indirect?]
    · rw [if_neg fun h => hpasses h.2, ih, Request.passing, Request.passing, List.filter_cons_of_neg hpasses]

theorem after_new (direction : Direction) (requests : List Request) :
    let passing := Request.passing direction requests
    (new direction).after requests =
      ⟨direction, passing.filterMap Request.argument?, passing.findSome? Request.result?,
        passing.findSome? Request.indirect?⟩ := after_eq (new direction) requests

/-- There is room for a request iff no request of the same kind has passed before. -/
theorem hasRoom_after_new : ((new direction).after requests).hasRoom r = true ↔
    ∀ earlier ∈ Request.passing direction requests, r.competes earlier = false := by
  rw [after_new]
  cases r with
  | argument b => simp [hasRoom, Request.competes]
  | result b =>
    rw [hasRoom, Option.isNone_iff_eq_none, List.findSome?_eq_none_iff]
    refine forall₂_congr fun earlier _ => ?_
    cases earlier <;> simp [Request.result?, Request.competes]
  | indirect l pointer =>
    rw [hasRoom, Option.isNone_iff_eq_none, List.findSome?_eq_none_iff]
    refine forall₂_congr fun earlier _ => ?_
    cases earlier <;> simp [Request.indirect?, Request.competes]

theorem reachable_after (h : s.Reachable) (requests : List Request) : (s.after requests).Reachable := by
  induction requests generalizing s with
  | nil => exact h
  | cons r requests ih =>
    rw [after_cons]
    cases happly : s.apply r with
    | error e => exact ih h
    | ok s' =>
      refine ih ?_
      cases r with
      | argument b => exact h.addArgument (lift_fault_eq_ok.1 happly)
      | result b => exact h.setResult happly
      | indirect l pointer => exact h.markIndirect (lift_fault_eq_ok.1 happly)

/-! ### Building -/

/-- The bindings of all arguments; the address of an in-memory result comes first. -/
def argumentBindings (s : SequenceBuilder) : List Binding :=
  (s.indirect.map fun i => (⟨.address, .address, i.1⟩ : Binding)).toList ++ s.arguments

/-- The steps of all programs. -/
def steps (s : SequenceBuilder) : List Step :=
  (s.argumentBindings.map (·.program)).flatten ++ (s.result.map (·.program)).getD []

/-- The sizes that a builder computes are sizes: the one of an in-memory result, and the scratch memory of all
programs. -/
structure Measurable (s : SequenceBuilder) : Prop where
  indirect : ∀ i ∈ s.indirect, ∃ size, i.2.byteSize = .ok size
  scratch : Program.scratch s.steps < wordLimit

/-- How a sequence is put together from the bindings of a builder. -/
structure Assembles (s : SequenceBuilder) (sequence : CallingSequence) : Prop where
  direction : sequence.direction = s.direction
  argumentPrograms : sequence.argumentPrograms = s.argumentBindings.map (·.program)
  params : sequence.signature.params = s.argumentBindings.map (·.carrier)
  args : sequence.descriptor.args = s.arguments.map (·.layout)
  arity : sequence.signature.params.length = sequence.argumentPrograms.length ∧
    sequence.argumentPrograms.length = sequence.descriptor.args.length + if s.indirect.isSome then 1 else 0
  resultProgram : sequence.resultProgram = (s.result.map (·.program)).getD []
  resultCarrier : sequence.signature.result = s.result.map (·.carrier)
  /-- An in-memory result takes the place of what the result storages carry. -/
  resultLayout : sequence.descriptor.result = (s.indirect.map (·.2)).or (s.result.map (·.layout))
  indirectSize : ∀ i ∈ s.indirect, i.2.byteSize = .ok sequence.indirectSize
  scratchSize : sequence.scratchSize = Program.scratch (sequence.argumentPrograms.flatten ++
    sequence.resultProgram)

/-- Every program of a builder is accepted by the verifier of its side and moves through storages of its
role. -/
structure Sound (s : SequenceBuilder) : Prop where
  arguments : ∀ b ∈ s.argumentBindings,
    (if s.direction.unboxesArguments then verifyUnbox else verifyBox) b.program b.carrier b.layout = .ok () ∧
      ∀ storage ∈ Program.storages b.program, storage.kind.isArgument = true
  result : ∀ b ∈ s.result,
    (if s.direction.unboxesResult then verifyUnbox else verifyBox) b.program b.carrier b.layout = .ok () ∧
      ∀ storage ∈ Program.storages b.program, storage.kind.isArgument = false

theorem verify_of_check {unboxes asArgument : Bool} {b : Binding}
    (h : SequenceBuilder.check direction unboxes asArgument b = .ok ()) :
    (if unboxes then verifyUnbox else verifyBox) b.program b.carrier b.layout = .ok () ∧
      ∀ storage ∈ Program.storages b.program, storage.kind.isArgument = asArgument := by
  refine ⟨?_, SequenceBuilder.isArgument_of_check h⟩
  cases unboxes with
  | true => exact verifyUnbox_of_check h
  | false => exact verifyBox_of_check h

theorem Verified.sound (h : s.Verified) : s.Sound := by
  refine ⟨fun b hb => ?_, fun b hb => verify_of_check (h.result b hb)⟩
  rcases List.mem_append.1 hb with hb | hb
  · obtain ⟨⟨p, l⟩, hp, rfl⟩ := Option.map_eq_some_iff.1 (Option.mem_toList.1 hb)
    exact verify_of_check (h.pointer p l hp)
  · exact verify_of_check (h.arguments b hb)

theorem assembles_of_build {sequence : CallingSequence} (h : s.build = .ok sequence) :
    s.Assembles sequence := by
  obtain ⟨hdirection, harguments, hresult, hindirect, hscratch⟩ := build_eq_ok h
  obtain ⟨hmarked, hsize⟩ := indirectResult?_eq_ok hindirect
  have hprograms : sequence.argumentPrograms = s.argumentBindings.map (·.program) := by
    rw [CallingSequence.argumentPrograms, CallingSequence.pointerProgram?, CallingSequence.userPrograms,
      argumentBindings, hmarked, harguments]
    cases sequence.indirect <;> simp
  have hparams : sequence.signature.params = s.argumentBindings.map (·.carrier) := by
    rw [CallingSequence.signature, argumentBindings, hmarked, harguments]
    cases sequence.indirect <;> simp
  have hprogram : sequence.resultProgram = (s.result.map (·.program)).getD [] := by
    rw [CallingSequence.resultProgram, hresult]
    cases s.result <;> rfl
  refine ⟨hdirection, hprograms, hparams, congrArg _ harguments, ⟨?_, ?_⟩, hprogram,
    congrArg (Option.map Binding.carrier) hresult, ?_, ?_, ?_⟩
  · rw [hparams, hprograms, List.length_map, List.length_map]
  · rw [hprograms, List.length_map, argumentBindings, CallingSequence.descriptor, harguments,
      List.length_append, List.length_map]
    cases s.indirect <;> simp [Nat.add_comm]
  · rw [CallingSequence.descriptor, hmarked, hresult]
    cases sequence.indirect <;> rfl
  · intro i hi
    rw [hmarked, Option.mem_def, Option.map_eq_some_iff] at hi
    obtain ⟨j, hj, rfl⟩ := hi
    rw [CallingSequence.indirectSize, hj]
    exact hsize j hj
  · rw [scratchSize_eq] at hscratch
    split at hscratch
    · exact (Except.ok.inj hscratch).symm
    · cases hscratch

theorem exists_build : (∃ sequence, s.build = .ok sequence) ↔ s.Measurable := by
  have hsteps (indirect : Option IndirectResult) (hmarked : s.indirect = indirect.map fun i =>
    (i.pointer, i.layout)) :
      CallingSequence.steps ⟨s.direction, s.arguments, s.result, indirect, 0⟩ = s.steps := by
    unfold CallingSequence.steps steps
    congr 1
    · rw [CallingSequence.argumentPrograms, CallingSequence.pointerProgram?, CallingSequence.userPrograms,
        argumentBindings, hmarked]
      cases indirect <;> simp
    · rw [CallingSequence.resultProgram]
      cases s.result <;> rfl
  constructor
  · rintro ⟨sequence, h⟩
    obtain ⟨-, -, -, hindirect, -⟩ := build_eq_ok h
    obtain ⟨hmarked, hsize⟩ := indirectResult?_eq_ok hindirect
    refine ⟨fun i hi => ⟨_, (assembles_of_build h).indirectSize i hi⟩, ?_⟩
    rw [build_eq hindirect, hsteps _ hmarked] at h
    split at h
    · assumption
    · cases h
  · rintro ⟨hindirect, hscratch⟩
    obtain ⟨indirect, hsome⟩ : ∃ indirect, s.indirectResult? = .ok indirect := by
      unfold indirectResult?
      cases h : s.indirect with
      | none => exact ⟨_, rfl⟩
      | some i =>
        obtain ⟨size, hsize⟩ := hindirect i h
        exact ⟨_, bind_eq_ok.2 ⟨size, hsize, rfl⟩⟩
    refine ⟨_, (build_eq hsome).trans (if_pos ?_)⟩
    rw [hsteps _ (indirectResult?_eq_ok hsome).1]
    exact hscratch

end SequenceBuilder

end ForeignCall
