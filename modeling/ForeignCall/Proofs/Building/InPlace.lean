import ForeignCall.Proofs.Building.Requests

/-!
# A builder that is updated in place

* `SequenceBuilder.Columns`: a builder as parallel columns — the signature, the programs and the layouts —
  each of which every function updates on its own, in place.  What is left when a function stops is what it
  has written until then;
* `SequenceBuilder.perform_columns`: in place or not, a request gives the same, and one that fails has
  written nothing;
* `CallingSequence.Columns`: a sequence as parallel columns, which `SequenceBuilder.Columns.build` stitches
  together;
* `SequenceBuilder.build_after`: what a run of requests builds, whatever their order and whichever fail.
-/

namespace ForeignCall

def Signature.pushParam (s : Signature) (c : Carrier) : Signature := { s with params := s.params ++ [c] }

def Signature.setResult (s : Signature) (c : Carrier) : Signature := { s with result := some c }

theorem Signature.foldl_pushParam (s : Signature) (cs : List Carrier) :
    cs.foldl pushParam s = { s with params := s.params ++ cs } := by
  induction cs generalizing s with
  | nil => simp
  | cons c cs ih =>
    rw [List.foldl_cons, ih]
    simp [pushParam]

/-- A sequence as parallel columns. -/
structure CallingSequence.Columns where
  direction : Direction
  signature : Signature
  descriptor : Descriptor
  argumentPrograms : List Program
  resultProgram : Program
  isIndirect : Bool
  indirectSize : Nat
  scratchSize : Nat

def CallingSequence.columns (s : CallingSequence) : Columns :=
  ⟨s.direction, s.signature, s.descriptor, s.argumentPrograms, s.resultProgram, s.isIndirect, s.indirectSize,
    s.scratchSize⟩

namespace SequenceBuilder

/-- A builder as parallel columns. -/
structure Columns where
  direction : Direction
  signature : Signature
  programs : List Program
  layouts : List Layout
  resultProgram : Option Program
  resultLayout : Option Layout
  indirect : Option (Program × Layout)

def columns (s : SequenceBuilder) : Columns :=
  ⟨s.direction, ⟨s.arguments.map (·.carrier), s.result.map (·.carrier)⟩, s.arguments.map (·.program),
    s.arguments.map (·.layout), s.result.map (·.program), s.result.map (·.layout), s.indirect⟩

namespace Columns

/-- A function that updates columns in place.  Where it stops, the columns stay as they are. -/
abbrev Update := EStateM (Halt Fault BindingError) Columns Unit

/-! ### The functions of the builder, in place -/

def ensure : Except Fault Unit → Update
  | .ok () => pure ()
  | .error f => throw (.fault f)

def addArgument (b : Binding) : Update := do
  let direction := (← get).direction
  ensure (check direction direction.unboxesArguments true b)
  modify fun s => { s with signature := s.signature.pushParam b.carrier }
  modify fun s => { s with programs := s.programs ++ [b.program] }
  modify fun s => { s with layouts := s.layouts ++ [b.layout] }

def setResult (b : Binding) : Update := do
  if (← get).resultProgram.isSome then throw (.error .resultAlreadySet)
  else
    let direction := (← get).direction
    ensure (check direction direction.unboxesResult false b)
    modify fun s => { s with signature := s.signature.setResult b.carrier }
    modify fun s => { s with resultProgram := some b.program }
    modify fun s => { s with resultLayout := some b.layout }

def markIndirect (l : Layout) (pointer : Program) : Update := do
  if (← get).indirect.isSome then throw (.fault .resultMarkedTwice)
  else
    let direction := (← get).direction
    ensure (check direction direction.unboxesArguments true ⟨.address, .address, pointer⟩)
    modify fun s => { s with indirect := some (pointer, l) }

def perform : Request → Update
  | .argument b => addArgument b
  | .result b => setResult b
  | .indirect l pointer => markIndirect l pointer

/-- The columns after a run of requests, with all that the failed ones have written. -/
def after (s : Columns) (requests : List Request) : Columns :=
  requests.foldl (fun s r => match perform r s with | .ok () s' | .error _ s' => s') s

/-- What stands before the columns: the signature and the programs so far, the layout of the result and the
size of its buffer. -/
structure Front where
  signature : Signature
  programs : List Program
  resultLayout : Option Layout
  indirectSize : Nat

/-- The address of an in-memory result comes first, and its layout takes the place of the one of the result. -/
def front (s : Columns) : Except Overflow Front :=
  let signature : Signature := ⟨[], none⟩
  match s.indirect with
  | some (pointer, l) => return ⟨signature.pushParam .address, [pointer], some l, ← l.byteSize⟩
  | none => return ⟨signature, [], s.resultLayout, 0⟩

/-- Put the columns behind it. -/
def stitch (s : Columns) (front : Front) : Except Overflow CallingSequence.Columns := do
  let signature := s.signature.params.foldl Signature.pushParam front.signature
  let signature := match s.signature.result with
    | some c => signature.setResult c
    | none => signature
  let programs := front.programs ++ s.programs
  let resultProgram := s.resultProgram.getD []
  return ⟨s.direction, signature, ⟨s.layouts, front.resultLayout⟩, programs, resultProgram, s.indirect.isSome,
    front.indirectSize, ← scratchSize (programs.flatten ++ resultProgram)⟩

def build (s : Columns) : Except Overflow CallingSequence.Columns := do s.stitch (← s.front)

end Columns

variable {s : SequenceBuilder} {r : Request}

/-! ### The columns of a builder -/

theorem Columns.ensure_bind (c : Columns) (x : Except Fault Unit) (rest : Unit → Update) :
    (ensure x >>= rest) c = match x with
      | .ok () => rest () c
      | .error f => .error (.fault f) c := by
  cases x <;> rfl

theorem columns_argument (s : SequenceBuilder) (b : Binding) : (s.extend (.argument b)).columns =
    { s.columns with
      signature := s.columns.signature.pushParam b.carrier
      programs := s.columns.programs ++ [b.program]
      layouts := s.columns.layouts ++ [b.layout] } := by
  simp [columns, extend, Signature.pushParam]

/-- **In place, a request writes what it is for, or fails and has written nothing.** -/
theorem perform_columns (s : SequenceBuilder) (r : Request) :
    Columns.perform r s.columns = match s.answer r with
    | .ok () => .ok () (s.extend r).columns
    | .error e => .error e s.columns := by
  cases r with
  | argument b =>
    have hanswer : s.answer (.argument b)
        = Halt.ofFault (check s.direction s.direction.unboxesArguments true b) := rfl
    refine (Columns.ensure_bind s.columns (check s.direction s.direction.unboxesArguments true b) _).trans ?_
    rw [hanswer, columns_argument]
    cases check s.direction s.direction.unboxesArguments true b <;> rfl
  | result b =>
    obtain ⟨direction, arguments, result, indirect⟩ := s
    cases result with
    | some old => rfl
    | none =>
      have hanswer : answer ⟨direction, arguments, none, indirect⟩ (.result b)
        = Halt.ofFault (check direction direction.unboxesResult false b) := rfl
      refine (Columns.ensure_bind _ (check direction direction.unboxesResult false b) _).trans ?_
      rw [hanswer]
      cases check direction direction.unboxesResult false b <;> rfl
  | indirect l pointer =>
    obtain ⟨direction, arguments, result, indirect⟩ := s
    cases indirect with
    | some old => rfl
    | none =>
      let b : Binding := ⟨.address, .address, pointer⟩
      have hanswer : answer ⟨direction, arguments, result, none⟩ (.indirect l pointer)
        = Halt.ofFault (check direction direction.unboxesArguments true b) := rfl
      refine (Columns.ensure_bind _ (check direction direction.unboxesArguments true b) _).trans ?_
      rw [hanswer]
      cases check direction direction.unboxesArguments true b <;> rfl

/-- A run of requests in place, some of which may fail on their way, leaves the columns of the builder that
is left. -/
theorem after_columns (s : SequenceBuilder) (requests : List Request) :
    s.columns.after requests = (s.after requests).columns := by
  induction requests generalizing s with
  | nil => rfl
  | cons r requests ih =>
    rw [after_cons, ← ih, apply_eq]
    unfold Columns.after
    rw [List.foldl_cons, perform_columns]
    cases s.answer r <;> rfl

/-- What stands before the columns of a builder with an in-memory result or none. -/
def front (s : SequenceBuilder) (indirect : Option IndirectResult) : Columns.Front :=
  let sequence : CallingSequence := ⟨s.direction, [], s.result, indirect, 0⟩
  ⟨⟨indirect.toList.map fun _ => .address, none⟩, sequence.pointerProgram?.toList, sequence.descriptor.result,
    sequence.indirectSize⟩

theorem front_columns (s : SequenceBuilder) : s.columns.front = s.indirectResult?.map s.front := by
  unfold Columns.front indirectResult? columns
  cases s.indirect with
  | none => rfl
  | some i =>
    dsimp only
    cases i.2.byteSize <;> rfl

theorem stitch_columns {indirect : Option IndirectResult}
    (h : s.indirect = indirect.map fun i => (i.pointer, i.layout)) :
    let sequence : CallingSequence := ⟨s.direction, s.arguments, s.result, indirect, 0⟩
    s.columns.stitch (s.front indirect) =
      (scratchSize sequence.steps).map fun n =>
        ({ sequence with scratchSize := n } : CallingSequence).columns := by
  obtain ⟨direction, arguments, result, marked⟩ := s
  obtain rfl : marked = _ := h
  let programs := (indirect.map (·.pointer)).toList ++ arguments.map (·.program)
  let resultProgram : Program := (result.map (·.program)).getD []
  have hsteps : CallingSequence.steps ⟨direction, arguments, result, indirect, 0⟩ = programs.flatten ++
      resultProgram := by
    cases result <;> rfl
  intro sequence
  rw [hsteps]
  unfold Columns.stitch
  rw [Signature.foldl_pushParam]
  show (scratchSize (programs.flatten ++ resultProgram) >>= _) = _
  cases scratchSize (programs.flatten ++ resultProgram) with
  | error o => rfl
  | ok n => cases result <;> cases indirect <;> rfl

/-- **The columns of a builder are stitched together to the columns of what it builds.** -/
theorem build_columns (s : SequenceBuilder) : s.columns.build = s.build.map CallingSequence.columns := by
  unfold Columns.build build
  rw [front_columns]
  cases hindirect : s.indirectResult? with
  | error o => rfl
  | ok indirect =>
    refine (stitch_columns (indirectResult?_eq_ok hindirect).1).trans ?_
    rw [ok_bind]
    dsimp only
    cases scratchSize (CallingSequence.steps ⟨s.direction, s.arguments, s.result, indirect, 0⟩) <;> rfl

/-! ### What a run of requests builds -/

/-- **The sequence of a run of requests is determined by the requests that pass their checks.**  Requests
that fail are passed over, in place or not, and leave every column as it was.  The builder holds the
arguments that pass in their order, the first result that passes and the first in-memory result that passes,
wherever they stand among the arguments; a further request succeeds iff it passes and no request before has
taken its room.  The sequence is built iff its sizes are sizes: the address of an in-memory result comes
first, the arguments follow in their order, each with its carrier, and every program is accepted by the
verifier of its side and moves through storages of its role. -/
theorem build_after (direction : Direction) (requests : List Request) :
    let s := (new direction).after requests
    let passing := Request.passing direction requests
    s = ⟨direction, passing.filterMap Request.argument?, passing.findSome? Request.result?,
      passing.findSome? Request.indirect?⟩ ∧
    (new direction).columns.after requests = s.columns ∧
    (∀ r : Request,
      if r.passes direction ∧ ∀ earlier ∈ passing, r.competes earlier = false then
        s.apply r = .ok (s.extend r) ∧ s.columns.perform r = .ok () (s.extend r).columns
      else ∃ e, s.apply r = .error e ∧ s.columns.perform r = .error e s.columns) ∧
    s.columns.build = s.build.map CallingSequence.columns ∧
    ((∃ sequence, s.build = .ok sequence) ↔ s.Measurable) ∧
    ∀ sequence, s.build = .ok sequence → s.Assembles sequence ∧ s.Sound := by
  intro s passing
  have hs := after_new direction requests
  refine ⟨hs, after_columns _ _, fun r => ?_, build_columns s, exists_build, fun sequence hbuild =>
    ⟨assembles_of_build hbuild, ?_⟩⟩
  · have haccepted : (r.passes direction = true ∧ ∀ earlier ∈ passing, r.competes earlier = false) ↔
        s.answer r = .ok () := by
      rw [answer_eq_ok, hasRoom_after_new, and_comm, congrArg SequenceBuilder.direction hs]
    simp only [haccepted, perform_columns, apply_eq]
    cases s.answer r with
    | ok u => simp [Except.map]
    | error e => simp [Except.map]
  · exact (reachable_after (.new direction) requests).verified.sound

/-- A result that moves through an argument register and a second result fail, and the address of an
in-memory result comes first although it was given last. -/
example :
    let rdi := Storage.slot .integerArg 0 8
    let rsi := Storage.slot .integerArg 1 8
    let rax := Storage.slot .integerRet 0 8
    let number (s : Storage) : Binding := ⟨.primitive .i64, .value .i64, [.move s .i64]⟩
    let s := (new .downcall).after [.argument (number rsi), .result (number rsi), .result (number rax),
      .result (number rax), .indirect (.padding 24) [.boxAddress, .move rdi .i64]]
    s.arguments = [number rsi] ∧ s.result = some (number rax) ∧
      s.build.toOption.map (·.argumentPrograms) = some [[.boxAddress, .move rdi .i64], [.move rsi .i64]] := by
  decide

end SequenceBuilder

end ForeignCall
