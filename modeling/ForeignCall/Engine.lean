import ForeignCall.CallLog
import ForeignCall.Scratch
import ForeignCall.Slot

/-!
# The engine that runs calls

* `Machine σ`: everything a call can touch — its frame, memory, its scratch arena, the log, and the state
  `σ` of the code outside;
* `Engine σ`: computations on a machine.  A fault leaves the machine as it was when the fault arose;
* `Engine.withScratch`: run with a fresh scratch arena, which is closed on every way out;
* `Engine.native`, `Engine.managed`: run code from outside, which sees memory and its own state, and native
  code also the frame, but neither the scratch arena nor the log of the call.
-/

namespace ForeignCall

/-- The state of a running call. -/
structure Machine (σ : Type) where
  frame : Frame
  memory : Memory
  scratch : Scratch
  log : Array LogEvent
  world : σ

/-- Computations on a machine that can fault. -/
abbrev Engine (σ : Type) := EStateM Fault (Machine σ)

/-- A native function at work on the frame of its call. -/
abbrev Native (σ : Type) := Engine σ (Except NativeError Unit)

/-- A managed function that native code calls.  It receives the boxed arguments and gives the result, `void`
if it has none, or an error message. -/
abbrev Target (σ : Type) := List Value → Engine σ (Except String Value)

namespace Engine

variable {σ α : Type}

/-- A computation that does not touch the machine. -/
def lift : Except Fault α → Engine σ α
  | .ok a => fun m => .ok a m
  | .error f => fun m => .error f m

instance : MonadLift (Except Fault) (Engine σ) := ⟨lift⟩

/-- The errors of a computation become part of its result. -/
def outcome {ε : Type} : Except (Halt Fault ε) α → Engine σ (Except ε α)
  | .ok a => pure (.ok a)
  | .error (.error e) => pure (.error e)
  | .error (.fault f) => throw f

def record (e : LogEvent) : Engine σ Unit := modify fun m => { m with log := m.log.push e }

/-! ### Frame and memory -/

def readStorage (s : Storage) : Engine σ Word := do (← get).frame.read s

def readWord (offset : Nat) : Engine σ Word := do (← get).frame.readWord offset

def writeWord (offset : Nat) (w : Word) : Engine σ Unit := do
  (← get).frame.checkWord offset
  modify fun m => { m with frame := m.frame.setWord offset w }

def writeStorage (s : Storage) (w : Word) : Engine σ Unit := do
  let offset ← (← get).frame.layout.offset s
  writeWord offset w

def getField (s : Segment) (kind : Primitive) (offset : Nat) : Engine σ Value := do
  s.get (← get).memory kind offset

def setField (s : Segment) (offset : Nat) (v : Value) : Engine σ Unit := do
  let memory ← s.set (← get).memory offset v
  modify fun m => { m with memory := memory }

def takeSegment (s : Segment) (length : Nat) : Engine σ Segment := do s.take (← get).memory length

def copySegment (target source : Segment) : Engine σ Unit := do
  let memory ← target.copyFrom (← get).memory source
  modify fun m => { m with memory := memory }

/-- Fresh zeroed memory that lives as long as the segment. -/
def allocateOwned (size alignment : Nat) : Engine σ Segment := do
  let (s, memory) ← Segment.allocate (← get).memory size alignment
  modify fun m => { m with memory := memory }
  return s

def toOwned (s : Segment) : Engine σ Segment := do
  let (copy, memory) ← s.toOwned (← get).memory
  modify fun m => { m with memory := memory }
  return copy

/-! ### Scratch memory -/

/-- Record that a chunk has to be added, if so. -/
def recordChunk (size alignment : Nat) : Engine σ Unit := do
  match (← get).scratch.missingChunk? size (max alignment 1) with
  | .ok (some n) => record (.newChunk n)
  | _ => return ()

/-- Zeroed memory that lives until the end of the call. -/
def allocateScratch (size alignment : Nat) : Engine σ Segment := do
  if (← get).scratch.isOpen then recordChunk size alignment
  let m ← get
  let (s, scratch, memory) ← m.scratch.allocate m.memory size alignment
  modify fun m => { m with scratch := scratch, memory := memory }
  record (.allocate size (max alignment 1))
  return s

def closeScratch (m : Machine σ) : Machine σ :=
  let (scratch, memory) := m.scratch.close m.memory
  let log := if m.scratch.isOpen then m.log.push (.release m.scratch.allocated m.scratch.chunks.length) else m.log
  { m with scratch := scratch, memory := memory, log := log }

/-- Run with a fresh scratch arena whose first chunk has at least the given size.  The arena is closed when
the body is done, also by a fault, and the arena of before comes back. -/
def withScratch (firstChunkSize : Nat) (body : Engine σ α) : Engine σ α := fun m =>
  match body { m with scratch := Scratch.new firstChunkSize } with
  | .ok a n => .ok a { closeScratch n with scratch := m.scratch }
  | .error f n => .error f { closeScratch n with scratch := m.scratch }

/-! ### Code from outside -/

/-- Run native code.  It works on the frame and sees neither scratch arena nor log. -/
def native (body : Engine σ α) : Engine σ α := fun m =>
  match body { m with scratch := Scratch.closed, log := #[] } with
  | .ok a n => .ok a { n with scratch := m.scratch, log := m.log ++ n.log }
  | .error f n => .error f { n with scratch := m.scratch, log := m.log ++ n.log }

/-- Run managed code.  It sees neither frame nor scratch arena nor log. -/
def managed (body : Engine σ α) : Engine σ α := fun m =>
  match body { m with frame := Frame.empty, scratch := Scratch.closed, log := #[] } with
  | .ok a n => .ok a { n with frame := m.frame, scratch := m.scratch, log := m.log ++ n.log }
  | .error f n => .error f { n with frame := m.frame, scratch := m.scratch, log := m.log ++ n.log }

/-- Run with another frame and give it back; the frame of before comes back. -/
def withFrame (frame : Frame) (body : Engine σ α) : Engine σ (α × Frame) := fun m =>
  match body { m with frame := frame } with
  | .ok a n => .ok (a, n.frame) { n with frame := m.frame }
  | .error f n => .error f { n with frame := m.frame }

end Engine

end ForeignCall
