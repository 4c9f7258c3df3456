import ForeignCall.Linker
import ForeignCall.Script.Spelling
import ForeignCall.Script.World

/-!
# Sessions

A `Session` drives linkers, handles and entry points by name, with scripts as the code outside.  Each step
of a session may name memory for the time of the step; `Session.endStep` forgets those names, and what was
recorded.

* `Acting`: the computations of a session.  What was done before a fault stays;
* `Session.unboxNamed`: unbox a value and name the scratch memory whose address it passes;
* `Session.invoke`, `Session.call`: call a native function, or call through an entry point.
-/

namespace ForeignCall

/-- Linkers, handles and entry points by name. -/
structure Session where
  machine : Machine World
  /-- The regions that stay when a step ends. -/
  lasting : Regions
  symbols : List (String × Symbol)
  /-- Linkers with the numbers that they were given when they were made. -/
  linkers : List (String × Nat × Linker)
  linkerCount : Nat
  handles : List (String × DowncallHandle NativeScript)
  stubs : List (String × UpcallStub TargetScript)
  frames : List (String × Frame)
  /-- Scratch arenas by name. -/
  arenas : List (String × Scratch)
  /-- The chunks of arenas, with the first addresses that were handed out of them. -/
  firstAddresses : List (Scope × Word)
  /-- The number of values unboxed into the frame of the machine. -/
  unboxed : Nat
  /-- The sequences that were asked for, in order, with the numbers of their linkers. -/
  sequences : List (Nat × SharedSequence)

/-- A name that nothing was given. -/
structure UnknownName where
  name : String
  deriving DecidableEq

/-- Computations of a session. -/
abbrev Acting := EStateM (Halt Fault UnknownName) Session

namespace Session

def newMachine : Machine World := ⟨Frame.empty, Memory.empty, Scratch.closed, #[], World.empty⟩

def new : Session :=
  { machine := newMachine, lasting := [], symbols := [], linkers := [], linkerCount := 0, handles := [], stubs := []
    frames := [], arenas := [], firstAddresses := [], unboxed := 0, sequences := [] }

def ofFrame (frame : Frame) (firstChunkSize : Nat) : Session :=
  { new with machine := { newMachine with frame := frame, scratch := Scratch.new firstChunkSize } }

/-- Forget the names and records of a step. -/
def endStep (s : Session) : Session :=
  let world := s.machine.world
  let names := { world.names with regions := s.lasting }
  { s with machine := { s.machine with log := #[], world := { world with names := names, trace := #[] } } }

variable {α : Type}

/-! ### Running on the machine -/

/-- Run on the machine and catch a fault. -/
def attempt (body : Engine World α) : Acting (Except Fault α) := fun s =>
  match body s.machine with
  | .ok a m => .ok (.ok a) { s with machine := m }
  | .error f m => .ok (.error f) { s with machine := m }

def engine (body : Engine World α) : Acting α := do
  match ← attempt body with
  | .ok a => return a
  | .error f => throw (.fault f)

def orFault : Except Fault α → Acting α
  | .ok a => return a
  | .error f => throw (.fault f)

/-- Run with a frame, catch a fault, and give the frame back. -/
def attemptIn (frame : Frame) (body : Engine World α) : Acting (Except Fault α × Frame) := fun s =>
  match body { s.machine with frame := frame } with
  | .ok a m => .ok (.ok a, m.frame) { s with machine := { m with frame := s.machine.frame } }
  | .error f m => .ok (.error f, m.frame) { s with machine := { m with frame := s.machine.frame } }

def named (name : String) (entries : List (String × α)) : Acting α :=
  match entries.lookup name with
  | some a => return a
  | none => throw (.error ⟨name⟩)

def names : Acting Names := return (← get).machine.world.names

def modifyWorld (f : World → World) : Acting Unit :=
  modify fun s => { s with machine := { s.machine with world := f s.machine.world } }

/-- Name a segment, and its memory until the end of the session. -/
def addLasting (name : String) (segment : Segment) : Acting Unit := do
  modify fun s => { s with lasting := s.lasting.name name segment }
  modifyWorld fun w => { w with names := (w.names.addRegion name segment).addSegment name segment }

/-! ### Memory -/

def make (r : Recipe) : Acting Value := do engine (r.make (← names))

/-- Make a value, which is named if it is a segment. -/
def makeNamed (name : String) (r : Recipe) : Acting Value := do
  let v ← make r
  match v with
  | .segment s => addLasting name s
  | _ => pure ()
  return v

def addBuffer (name : String) (r : Recipe) : Acting Unit := do
  let _ ← makeNamed name r

def segment (name : String) : Acting Segment := do named name (← names).segments

/-- Name a segment without naming its memory. -/
def nameSegment (id : String) (s : Segment) : Acting Segment := do
  modifyWorld fun w => { w with names := w.names.addSegment id s }
  return s

def nameMemory (id : String) (s : Segment) : Acting Segment := do
  addLasting id s
  return s

def allocate (id : String) (size alignment : Nat) : Acting Segment := do
  nameMemory id (← engine (Engine.allocateOwned size alignment))

def addGlobal (id : String) (a : Word) (length : Nat) : Acting Segment := nameSegment id (Segment.global a length)

def addView (id name : String) (offset length : Nat) : Acting Segment := do
  let a ← orFault (Fault.ofOverflow (advance (← segment name).address offset))
  addGlobal id a length

def addTake (id name : String) (length : Nat) : Acting Segment := do
  nameSegment id (← engine (Engine.takeSegment (← segment name) length))

def addOwned (id name : String) : Acting Segment := do nameMemory id (← engine (Engine.toOwned (← segment name)))

def getField (name : String) (kind : Primitive) (offset : Nat) : Acting Value := do
  engine (Engine.getField (← segment name) kind offset)

def setField (name : String) (offset : Nat) (r : Recipe) : Acting Unit := do
  let v ← make r
  engine (Engine.setField (← segment name) offset v)

def copy (target source : String) : Acting Unit := do
  engine (Engine.copySegment (← segment target) (← segment source))

def bytes (name : String) : Acting (List Byte) := do
  let s ← segment name
  orFault (s.bytes (← get).machine.memory)

def sameView (a b : String) : Acting Bool := do return (← segment a).sameView (← segment b)

/-! ### Scratch arenas -/

def addArena (id : String) (firstChunkSize : Nat) : Acting Scratch := do
  let arena := Scratch.new firstChunkSize
  modify fun s => { s with arenas := (id, arena) :: s.arenas }
  return arena

def arena (id : String) : Acting Scratch := do named id (← get).arenas

/-- Run with a scratch arena, and keep what became of it. -/
def inArena (id : String) (body : Engine World α) : Acting α := do
  let arena ← Session.arena id
  let before := (← get).machine.scratch
  modify fun s => { s with machine := { s.machine with scratch := arena } }
  let outcome ← attempt body
  modify fun s =>
    { s with arenas := (id, s.machine.scratch) :: s.arenas, machine := { s.machine with scratch := before } }
  orFault outcome

def closeArena (id : String) : Acting Scratch := do
  inArena id (modify Engine.closeScratch)
  arena id

/-- Scratch memory, its distance from the first memory of its chunk, and the arena afterwards. -/
def allocateIn (arenaId id : String) (size alignment : Nat) : Acting (Segment × Nat × Scratch) := do
  let s ← inArena arenaId (Engine.allocateScratch size alignment)
  addLasting id s
  let first := ((← get).firstAddresses.lookup s.scope).getD s.address
  modify fun session => { session with firstAddresses := (s.scope, first) :: session.firstAddresses }
  return (s, s.address.toNat - first.toNat, ← arena arenaId)

/-! ### Programs -/

/-- Unbox steps, and name the memory whose address they pass.  The steps before stand latest first. -/
def unboxNaming (name : String) (before : List Step) : Program → List Value → Engine World (List Value)
  | [], stack => return stack
  | step :: rest, stack => do
    let stack ← Interpreter.run .unboxStep Interpreter.unboxStep [step] stack
    Script.nameMemory name (passedMemory before [step])
    unboxNaming name (step :: before) rest stack

/-- Unbox a value and name the scratch memory whose address it passes. -/
def unboxNamed (name : String) (v : Value) (p : Program) : Engine World Unit := do
  Interpreter.finishUnbox (← unboxNaming name [] p [v])

/-- Unbox a value into the frame of the machine.  The memory that the `n`-th such step passes, from zero, is
named `s` and `n`. -/
def unbox (r : Recipe) (p : Program) : Acting Unit := do
  let count := (← get).unboxed
  modify fun s => { s with unboxed := count + 1 }
  let v ← make r
  engine (unboxNamed ("s" ++ toString count) v p)

def box (p : Program) : Acting Value := engine (Engine.box p)

def setFrame (slots : SlotValues) : Acting Unit := do engine (setSlots (← names) slots)

/-! ### Native functions -/

def define (id name : String) (body : List NativeAction) : Acting Symbol := do
  let (symbol, registry) := (← get).machine.world.registry.define name ⟨name, body⟩
  modifyWorld fun w => { w with registry := registry }
  modify fun s => { s with symbols := (id, symbol) :: s.symbols }
  return symbol

/-- Name a symbol that need not be defined. -/
def addSymbol (id : String) (symbol : Symbol) : Acting Unit :=
  modify fun s => { s with symbols := (id, symbol) :: s.symbols }

/-- Name the symbol of a place, which need not be defined. -/
def addSymbolAt (id name : String) (p : Place) : Acting Symbol := do
  let symbol : Symbol := ⟨name, p.address (← names)⟩
  addSymbol id symbol
  return symbol

def lookup (id name : String) : Acting (Except LinkError Symbol) := do
  match (← get).machine.world.registry.lookup name with
  | .error e => return .error e
  | .ok symbol =>
    addSymbol id symbol
    return .ok symbol

/-! ### Linking -/

def addLinker (id : String) (c : Convention) (settings : Settings) : Acting Linker := do
  let linker := Linker.new c settings
  modify fun s => { s with linkers := (id, s.linkerCount, linker) :: s.linkers, linkerCount := s.linkerCount + 1 }
  return linker

/-- The linker of a name, and its number. -/
def linker (id : String) : Acting (Nat × Linker) := do named id (← get).linkers

def link (id : String) (body : Linking NativeScript TargetScript α) : Acting (Except LinkError α) := do
  let (number, linker) ← Session.linker id
  let m := (← get).machine
  let keep (state : Linkage NativeScript TargetScript) : Acting Unit := do
    modify fun s =>
      { s with
        linkers := (id, number, state.linker) :: s.linkers
        machine := { s.machine with log := state.log } }
    modifyWorld fun w => { w with registry := state.registry }
  match body ⟨linker, m.world.registry, m.log⟩ with
  | .ok a state =>
    keep state
    return .ok a
  | .error (.error e) state =>
    keep state
    return .error e
  | .error (.fault f) state =>
    keep state
    throw (.fault f)

/-- A sequence that was asked for, and the first earlier one that is the same object, or equal. -/
structure SequenceAnswer where
  sequence : CallingSequence
  same : Option Nat
  equal : Option Nat

def sequence (id : String) (d : Descriptor) (direction : Direction) : Acting (Except LinkError SequenceAnswer) := do
  let (number, _) ← linker id
  match ← link id (Linking.sequence d direction) with
  | .error e => return .error e
  | .ok shared =>
    let earlier := (← get).sequences
    modify fun s => { s with sequences := s.sequences ++ [(number, shared)] }
    return .ok
      { sequence := shared.sequence
        same := earlier.findIdx? fun (n, other) => n == number && other.serial == shared.serial
        equal := earlier.findIdx? fun (_, other) => other.sequence == shared.sequence }

def cachedSequences (id : String) : Acting Nat := return (← linker id).2.cachedSequences

def addHandle (id linkerId symbolId : String) (d : Descriptor) :
    Acting (Except LinkError (DowncallHandle NativeScript)) := do
  let symbol ← named symbolId (← get).symbols
  match ← link linkerId (Linking.downcall symbol d) with
  | .error e => return .error e
  | .ok handle =>
    modify fun s => { s with handles := (id, handle) :: s.handles }
    return .ok handle

/-- Give a target an entry point, under the convention of its linker. -/
def addStub (id linkerId : String) (target : TargetScript) (d : Descriptor) :
    Acting (Except LinkError (UpcallStub TargetScript × Convention)) := do
  match ← link linkerId (Linking.upcall target d) with
  | .error e => return .error e
  | .ok stub =>
    modify fun s => { s with stubs := (id, stub) :: s.stubs }
    modifyWorld fun w => { w with names := w.names.addEntry id stub.entry }
    return .ok (stub, (← linker linkerId).2.convention)

/-! ### Downcalls -/

/-- Which way a handle is called. -/
inductive CallMode where
  | linked
  | interpreted
  /-- With a frame that nobody sees. -/
  | fresh

def runHandle (mode : CallMode) (h : DowncallHandle NativeScript) (args : List Value) :
    Engine World (Except CallError Value) :=
  match mode with
  | .linked => h.invoke NativeScript.run args
  | .interpreted => h.interpret NativeScript.run args
  | .fresh => h.invokeFresh NativeScript.run args

/-- A call that was made: its outcome and its frame afterwards. -/
structure CallRun (ε : Type) (α : Type) where
  outcome : Except Fault (Except ε α)
  frame : Frame

/-- A downcall that was made, with its arguments. -/
structure Invocation extends CallRun CallError Value where
  args : List Value

/-- Name segments that lie in no region, the first of which is argument `index`. -/
def nameArguments (index : Nat) (names : Names) : List Value → Names
  | [] => names
  | .segment s :: rest =>
    nameArguments (index + 1) (names.addMemory ("arg" ++ toString index) s.address s.length) rest
  | _ :: rest => nameArguments (index + 1) names rest

def addFrame (id handleId : String) : Acting Frame := do
  let handle ← named handleId (← get).handles
  let frame ← orFault handle.newFrame
  modify fun s => { s with frames := (id, frame) :: s.frames }
  return frame

/-- The frame of a call: a kept one, or a new one. -/
def callFrame (h : DowncallHandle NativeScript) (mode : CallMode) (kept : Option String) : Acting Frame := do
  match mode, kept with
  | .fresh, _ => return Frame.empty
  | _, some id => named id (← get).frames
  | _, none => orFault h.newFrame

/-- Keep what became of a kept frame.  A call with a frame that nobody sees leaves it as it was. -/
def keepFrame (mode : CallMode) (kept : Option String) (frame : Frame) : Acting Unit := do
  match mode, kept with
  | .fresh, _ | _, none => return ()
  | _, some id => modify fun s => { s with frames := (id, frame) :: s.frames }

/-- Keep the segment that a call gave under a name. -/
def saveResult (saved : Option String) (outcome : Except Fault (Except CallError Value)) : Acting Unit := do
  match saved, outcome with
  | some id, .ok (.ok (.segment segment)) =>
    modify fun s => { s with lasting := s.lasting.name id segment }
    modifyWorld fun w => { w with names := w.names.addSegment id segment }
  | _, _ => return ()

def invoke (handleId : String) (mode : CallMode) (args : List Recipe) (kept saved : Option String) :
    Acting Invocation := do
  let handle ← named handleId (← get).handles
  let args ← engine (Recipe.makeAll (← names) args)
  let frame ← callFrame handle mode kept
  modifyWorld fun w => { w with names := nameArguments 0 w.names args, calling := some handle.sequence }
  let (outcome, frame) ← attemptIn frame (runHandle mode handle args)
  modifyWorld fun w => { w with calling := none }
  keepFrame mode kept frame
  saveResult saved outcome
  return ⟨⟨outcome, frame⟩, args⟩

/-! ### Upcalls -/

/-- What is called: an entry point that was given out, or any address. -/
inductive CallTarget where
  | stub (id : String)
  | place (p : Place)

/-- Why an upcall failed: as native code sees it, or as the handler reports it. -/
inductive UpcallFailure where
  | native (e : NativeError)
  | handler (e : CallError)

/-- The address to call, and the handler if it is known. -/
def callEntry : CallTarget → Acting (Word × Option (UpcallHandler TargetScript))
  | .stub id => do
    let stub ← named id (← get).stubs
    return (stub.entry, some stub.handler)
  | .place p => return (p.address (← names), none)

/-- Run a handler, or call through an entry point where there is none. -/
def runUpcall (handler : Option (UpcallHandler TargetScript)) (entry : Word) :
    Engine World (Except UpcallFailure Unit) := do
  match handler with
  | some h => return (← h.invoke TargetScript.run).mapError .handler
  | none => return (← (← get).world.registry.callUpcall TargetScript.run entry).mapError .native

/-- Call through an entry point, or its handler at once, with slots set before. -/
def call (target : CallTarget) (set : SlotValues) (atOnce : Bool) :
    Acting (Except NativeError (CallRun UpcallFailure Unit)) := do
  let (entry, handler) ← callEntry target
  match (← get).machine.world.registry.upcallFrame entry with
  | .error (.fault f) => throw (.fault f)
  | .error (.error e) => return .error e
  | .ok frame =>
    let names ← names
    let (filled, frame) ← attemptIn frame (setSlots names set)
    orFault filled
    let (outcome, frame) ← attemptIn frame (runUpcall (if atOnce then handler else none) entry)
    return .ok ⟨outcome, frame⟩

/-! ### Compiled calls -/

/-- Run a compiled downcall with a script as its native function. -/
def runDowncall (d : DirectDowncall) (l : FrameLayout) (script : NativeScript) (args : List Recipe) :
    Acting (CallRun NativeError Value) := do
  let args ← engine (Recipe.makeAll (← names) args)
  modifyWorld fun w => { w with names := nameArguments 0 w.names args }
  let frame ← orFault (Frame.new l)
  let (outcome, frame) ← attemptIn frame (d.invoke script.run args)
  return ⟨outcome, frame⟩

/-- Set slots and run a compiled upcall with a script as its target. -/
def runUpcallPlan (d : DirectUpcall) (l : FrameLayout) (script : TargetScript) (slots : SlotValues) :
    Acting (CallRun CallError Unit) := do
  let frame ← orFault (Frame.new l)
  let names ← names
  let (outcome, frame) ← attemptIn frame do
    setSlots names slots
    d.invoke script.run
  return ⟨outcome, frame⟩

def upcallCount : Acting Nat := return (← get).machine.world.registry.upcallCount

end Session

end ForeignCall
