import ForeignCall.Fault

/-!
# Calling sequences

A `CallingSequence` is the plan of one native call shape: a binding program for each argument, one for the
result, and one for the address of a result that is delivered in memory.  `SequenceBuilder` puts one
together; each program is verified when it is added, and may move only through storages of its role.
-/

namespace ForeignCall

/-- A managed value of a call: what carries it, its layout and the program that moves it. -/
structure Binding where
  carrier : Carrier
  layout : Layout
  program : Program
  deriving DecidableEq

/-- A result that is delivered in memory: the program that moves the address of its buffer, and the shape
and size of the buffer. -/
structure IndirectResult where
  pointer : Program
  layout : Layout
  size : Nat
  deriving DecidableEq

/-- The plan of one native call shape. -/
structure CallingSequence where
  direction : Direction
  /-- The arguments that the caller sees, in order. -/
  arguments : List Binding
  /-- What the result storages carry: the result itself, or the address of an in-memory result. -/
  result : Option Binding
  indirect : Option IndirectResult
  /-- Bytes of scratch memory that all programs together ask for. -/
  scratchSize : Nat
  deriving DecidableEq

namespace CallingSequence

def pointerProgram? (s : CallingSequence) : Option Program := s.indirect.map (·.pointer)

def userPrograms (s : CallingSequence) : List Program := s.arguments.map (·.program)

/-- All argument programs; the one of a result address comes first. -/
def argumentPrograms (s : CallingSequence) : List Program := s.pointerProgram?.toList ++ s.userPrograms

/-- The result program; it has no steps when nothing comes back. -/
def resultProgram (s : CallingSequence) : Program :=
  match s.result with
  | some b => b.program
  | none => []

def hasResultProgram (s : CallingSequence) : Bool := !s.resultProgram.isEmpty

def isIndirect (s : CallingSequence) : Bool := s.indirect.isSome

/-- The size of an in-memory result, zero for any other. -/
def indirectSize (s : CallingSequence) : Nat :=
  match s.indirect with
  | some i => i.size
  | none => 0

/-- The carriers of all arguments and of the result storages. -/
def signature (s : CallingSequence) : Signature :=
  { params := s.indirect.toList.map (fun _ => Carrier.address) ++ s.arguments.map (·.carrier)
    result := s.result.map (·.carrier) }

def descriptor (s : CallingSequence) : Descriptor :=
  { args := s.arguments.map (·.layout)
    result := match s.indirect with
      | some i => some i.layout
      | none => s.result.map (·.layout) }

/-- What the call gives back: a segment for an in-memory result, otherwise what the result storages carry. -/
def resultCarrier (s : CallingSequence) : Option Carrier :=
  if s.isIndirect then some .segment else s.signature.result

def steps (s : CallingSequence) : List Step := s.argumentPrograms.flatten ++ s.resultProgram

/-- Every storage that the sequence moves through, in order. -/
def storages (s : CallingSequence) : List Storage := Storage.sortedSet (Program.storages s.steps)

/-- One line for the signature, one for each argument program, and one for the result. -/
def text (s : CallingSequence) : String :=
  let argumentLine (entry : Program × Nat) : String :=
    let tag := if s.isIndirect && entry.2 == 0 then " (imr)" else ""
    "  arg " ++ toString entry.2 ++ tag ++ ": " ++ entry.1.text
  let resultLine := "  ret: " ++ s.resultProgram.text
    ++ (if s.isIndirect then " imr " ++ toString s.indirectSize else "")
    ++ (if 0 < s.scratchSize then " scratch " ++ toString s.scratchSize else "")
  "\n".intercalate
    ((s.direction.text ++ " " ++ s.signature.text) :: s.argumentPrograms.zipIdx.map argumentLine ++ [resultLine])

end CallingSequence

/-- An error of putting a sequence together. -/
inductive BindingError where
  | resultAlreadySet
  | rejected (defect : Defect)
  deriving DecidableEq

def BindingError.text : BindingError → String
  | .resultAlreadySet => "return bindings were already set"
  | .rejected defect => defect.text

/-- A calling sequence under construction. -/
structure SequenceBuilder where
  direction : Direction
  /-- The arguments so far, in order. -/
  arguments : List Binding
  result : Option Binding
  /-- The pointer program and the layout of an in-memory result. -/
  indirect : Option (Program × Layout)
  deriving DecidableEq

namespace SequenceBuilder

def new (direction : Direction) : SequenceBuilder := ⟨direction, [], none, none⟩

/-- A program has to pass the verifier of its side and to use storages of its role. -/
def check (direction : Direction) (unboxes asArgument : Bool) (b : Binding) : Except Fault Unit :=
  match (if unboxes then verifyUnbox else verifyBox) b.program b.carrier b.layout with
  | .error (.fault o) => .error (.overflow o)
  | .error (.error defect) => .error (.malformedProgram direction b.program defect)
  | .ok () =>
    match b.program.storages.find? fun s => s.kind.isArgument != asArgument with
    | some s => .error (.wrongRole s asArgument)
    | none => .ok ()

def addArgument (s : SequenceBuilder) (b : Binding) : Except Fault SequenceBuilder := do
  check s.direction s.direction.unboxesArguments true b
  return { s with arguments := s.arguments ++ [b] }

/-- Set the result, which can be done once. -/
def setResult (s : SequenceBuilder) (b : Binding) : Except (Halt Fault BindingError) SequenceBuilder := do
  if s.result.isSome then Halt.fail .resultAlreadySet
  else
    check s.direction s.direction.unboxesResult false b
    return { s with result := some b }

/-- Deliver a result of the given layout in memory.  The program moves the address of its buffer and becomes
the first argument program. -/
def markIndirect (s : SequenceBuilder) (l : Layout) (pointer : Program) : Except Fault SequenceBuilder := do
  if s.indirect.isSome then throw .resultMarkedTwice
  else
    check s.direction s.direction.unboxesArguments true ⟨.address, .address, pointer⟩
    return { s with indirect := some (pointer, l) }

def scratchSize (steps : List Step) : Except Overflow Nat :=
  steps.foldlM (fun total step => checkedAdd total step.scratchSize) 0

/-- The in-memory result with the size of its buffer. -/
def indirectResult? (s : SequenceBuilder) : Except Overflow (Option IndirectResult) := do
  match s.indirect with
  | some (pointer, l) => return some ⟨pointer, l, ← l.byteSize⟩
  | none => return none

def build (s : SequenceBuilder) : Except Overflow CallingSequence := do
  let indirect ← s.indirectResult?
  let sequence : CallingSequence := ⟨s.direction, s.arguments, s.result, indirect, 0⟩
  return { sequence with scratchSize := (← scratchSize sequence.steps) }

end SequenceBuilder

end ForeignCall
