import ForeignCall.Registry
import ForeignCall.Script.Expression

/-!
# Scripted native functions and targets

* `NativeScript`, `TargetScript`: a native function and the target of an upcall, as data;
* `World`: the code outside of a call: the registry that native functions call back into, the names that
  scripts use, the segments that targets have kept, and a trace of everything that ran;
* `NativeScript.run`, `TargetScript.run`: run a script.
-/

namespace ForeignCall

/-- One action of a native function. -/
inductive NativeAction where
  | set (slot : FrameSlot) (value : Expression)
  /-- Write a field of memory. -/
  | store (kind : Primitive) (base : Expression) (offset : Nat) (value : Expression)
  | fail (message : String)
  /-- Call through an entry point: fill slots of its frame, then copy slots back. -/
  | call (entry : Expression) (passed : SlotValues) (returned : List (FrameSlot × FrameSlot))

/-- A native function. -/
structure NativeScript where
  name : String
  body : List NativeAction

/-- What a target gives back. -/
inductive TargetResult where
  | nothing
  | fail (message : String)
  | argument (index : Nat)
  | scalar (kind : Primitive) (bits : Expression)
  | address (bits : Expression)
  | segment (size alignment : Nat) (fields : List (Nat × Primitive × Expression))
  | value (r : Recipe)

/-- A write to a field of a segment argument. -/
structure Poke where
  argument : Nat
  offset : Nat
  kind : Primitive
  bits : Expression

/-- The target of an upcall. -/
structure TargetScript where
  name : String
  /-- Whether the segment arguments are kept. -/
  keepsSegments : Bool
  pokes : List Poke
  result : TargetResult

/-- A value with the bytes that it showed at some time, if it was a segment that was alive. -/
structure Snapshot where
  value : Value
  bytes : Option (List Byte)

def Value.snapshot (v : Value) (m : Memory) : Snapshot :=
  match v with
  | .segment s => ⟨v, (s.bytes m).toOption⟩
  | _ => ⟨v, none⟩

/-- A script that ran: a native function with its frame, or a target with its arguments. -/
inductive TraceEvent where
  | native (name : String) (frame : Frame)
  | target (name : String) (args : List Snapshot)

/-- The code outside of a call. -/
structure World where
  registry : Registry NativeScript TargetScript
  names : Names
  trace : Array TraceEvent
  /-- The segments that targets have kept, in order. -/
  kept : List Segment
  /-- The sequence of the downcall that is running. -/
  calling : Option CallingSequence

namespace World

def empty : World := ⟨Registry.empty, Names.empty, #[], [], none⟩

end World

/-! ### Memory of a call -/

/-- Of steps before a move, the latest first: all from the latest on that changes what the move gets. -/
def effective (before : List Step) : List Step :=
  before.dropWhile fun
    | .move _ _ | .dup => true
    | _ => false

/-- If a move passes the address of memory, as the steps before it say, the size of that memory.  The steps
stand latest first. -/
def passedSize? (before : List Step) : Option Nat :=
  match effective before with
  | .boxAddress :: earlier =>
    match effective earlier with
    | .baseAddress :: rest =>
      let copied := rest.findSome? fun
        | .copy size _ | .allocate size _ => some size
        | _ => none
      some (copied.getD 0)
    | _ => none
  | _ => none

/-- The storages of moves that pass the address of memory, with the sizes of that memory. -/
def passedMemory (before : List Step) : Program → List (Storage × Nat)
  | [] => []
  | step :: rest =>
    match step, passedSize? before with
    | .move storage _, some size => (storage, size) :: passedMemory (step :: before) rest
    | _, _ => passedMemory (step :: before) rest

/-- Name memory at an address that lies in no region. -/
def Names.addMemory (names : Names) (name : String) (a : Word) (size : Nat) : Names :=
  if (names.regions.region? a.toNat).isSome then names else names.addRegion name (Segment.global a size)

namespace Script

abbrev Action := Engine World

def modifyNames (f : Names → Names) : Action Unit :=
  modify fun m => { m with world := { m.world with names := f m.world.names } }

def traceEvent (e : TraceEvent) : Action Unit :=
  modify fun m => { m with world := { m.world with trace := m.world.trace.push e } }

def nameMemory (name : String) : List (Storage × Nat) → Action Unit
  | [] => return ()
  | (storage, size) :: rest => do
    let a ← Engine.readStorage storage
    modifyNames (·.addMemory name a size)
    nameMemory name rest

/-- Name the copies that a call passes by reference, the first program being that of argument `index`. -/
def nameCopies (index : Nat) : List Program → Action Unit
  | [] => return ()
  | p :: ps => do
    nameMemory ("ref" ++ toString index) (passedMemory [] p)
    nameCopies (index + 1) ps

def nameCallMemory (s : CallingSequence) : Action Unit := do
  match s.indirect with
  | some i => nameMemory "imr" ((Program.storages i.pointer).map fun storage => (storage, i.size))
  | none => pure ()
  nameCopies 0 s.userPrograms

end Script

/-! ### Targets -/

namespace TargetScript

open Script

def runPokes (names : Names) (args : List Value) : List Poke → Action Unit
  | [] => return ()
  | p :: rest => do
    let s ← segmentAt args p.argument
    let w ← p.bits.eval names args
    Engine.setField s p.offset (p.kind.decode w)
    runPokes names args rest

def runFields (names : Names) (args : List Value) (s : Segment) : List (Nat × Primitive × Expression) → Action Unit
  | [] => return ()
  | (offset, kind, e) :: rest => do
    let w ← e.eval names args
    Engine.setField s offset (kind.decode w)
    runFields names args s rest

def runResult (names : Names) (args : List Value) : TargetResult → Action (Except String Value)
  | .nothing => return .ok .void
  | .fail message => return .error message
  | .argument index => return .ok (← argumentAt args index)
  | .scalar kind bits => return .ok (kind.decode (← bits.eval names args))
  | .address bits => return .ok (.address (← bits.eval names args))
  | .segment size alignment fields => do
    let s ← Engine.allocateOwned size alignment
    runFields names args s fields
    return .ok (.segment s)
  | .value r => return .ok (← r.make names)

def run (t : TargetScript) (args : List Value) : Action (Except String Value) := do
  let m ← get
  traceEvent (.target t.name (args.map (·.snapshot m.memory)))
  if t.keepsSegments then
    modify fun m => { m with world := { m.world with kept := m.world.kept ++ args.filterMap Value.asSegment? } }
  let names := m.world.names
  runPokes names args t.pokes
  runResult names args t.result

end TargetScript

/-! ### Native functions -/

namespace NativeScript

open Script

/-- Copy slots of another frame to the frame of the machine, in order. -/
def copyBack (inner : Frame) : List (FrameSlot × FrameSlot) → Action Unit
  | [] => return ()
  | (outer, slot) :: rest => do
    Engine.writeSlot outer (← inner.readSlot slot)
    copyBack inner rest

def runCall (names : Names) (entry : Word) (passed : SlotValues) (returned : List (FrameSlot × FrameSlot)) :
    Action (Except NativeError Unit) := do
  let registry := (← get).world.registry
  match ← Engine.outcome (registry.upcallFrame entry) with
  | .error e => return .error e
  | .ok frame =>
    let frame ← fillSlots names frame passed
    let (result, frame) ← Engine.withFrame frame (registry.callUpcall TargetScript.run entry)
    match result with
    | .error e => return .error e
    | .ok () =>
      copyBack frame returned
      return .ok ()

def runAction (names : Names) : NativeAction → Action (Except NativeError Unit)
  | .set slot value => do
    Engine.writeSlot slot (← value.eval names [])
    return .ok ()
  | .store kind base offset value => do
    let a ← base.eval names []
    let w ← value.eval names []
    Engine.setField (fieldView a kind offset) offset (kind.decode w)
    return .ok ()
  | .fail message => return .error ⟨message⟩
  | .call entry passed returned => do
    let a ← entry.eval names []
    runCall names a passed returned

def runActions (names : Names) : List NativeAction → Action (Except NativeError Unit)
  | [] => return .ok ()
  | action :: rest => do
    match ← runAction names action with
    | .error e => return .error e
    | .ok () => runActions names rest

def run (s : NativeScript) : Action (Except NativeError Unit) := do
  match (← get).world.calling with
  | some sequence => nameCallMemory sequence
  | none => pure ()
  let m ← get
  traceEvent (.native s.name m.frame)
  runActions m.world.names s.body

end NativeScript

end ForeignCall
