import ForeignCall.CallCheck
import ForeignCall.Engine

/-!
# Calls compiled into direct moves

A program that is simple enough becomes a `Sink`, which moves a value to a fixed word of the frame, or a
`Source`, which fetches one from there.  `DirectDowncall` and `DirectUpcall` are whole calls made of them.
They need no scratch memory and no stack of values, and do what interpreting the programs does.

* `DirectDowncall.compile`, `DirectUpcall.compile`: compile an eligible sequence for a frame layout;
* `DirectDowncall.invoke`, `DirectUpcall.invoke`: run a compiled call.
-/

namespace ForeignCall

/-- A step that turns a value into another on its way to the frame. -/
inductive Filter where
  | field (offset : Nat) (kind : Primitive)
  | baseAddress
  | addressBits
  deriving DecidableEq

/-- Values take the filters in order and then go to the word at an offset, encoded as a kind. -/
structure Sink where
  filters : List Filter
  offset : Nat
  kind : Primitive
  deriving DecidableEq

/-- Values come from the word at an offset, decoded as a kind.  Then bits are turned into an address as often as
`addresses` says. -/
structure Source where
  offset : Nat
  kind : Primitive
  addresses : Nat
  deriving DecidableEq

/-- A downcall made of moves. -/
structure DirectDowncall where
  arguments : List Sink
  result : Option Source
  deriving DecidableEq

/-- An upcall made of moves, with what its target has to return. -/
structure DirectUpcall where
  arguments : List Source
  result : Option Sink
  expected : Option Carrier
  length : Nat
  deriving DecidableEq

namespace DirectCall

/-- Compilations, which can find a program that cannot be compiled. -/
abbrev Compiling := Except (Halt Fault Ineligible)

/-! ### Compiling programs -/

def filter (position : ProgramPosition) : Step → Except Ineligible Filter
  | .field offset kind => .ok (.field offset kind)
  | .baseAddress => .ok .baseAddress
  | .boxAddress => .ok .addressBits
  | step => .error (.step position step)

/-- The filters of some steps.  The last step that has none is reported. -/
def filters (position : ProgramPosition) : Program → Except Ineligible (List Filter)
  | [] => .ok []
  | step :: rest => do
    let later ← filters position rest
    return (← filter position step) :: later

/-- The number of address steps, if all steps are. -/
def addresses (position : ProgramPosition) : Program → Except Ineligible Nat
  | [] => .ok 0
  | .boxAddress :: rest => return (← addresses position rest) + 1
  | step :: _ => .error (.step position step)

/-- What cannot be compiled is an error of the whole. -/
def report {α : Type} : Except Ineligible α → Compiling α
  | .ok a => .ok a
  | .error reason => Halt.fail reason

/-- Compile an unboxing program: filters and a final move. -/
def sink (l : FrameLayout) (position : ProgramPosition) (p : Program) : Compiling Sink := do
  match p.getLast? with
  | none => Halt.fail (.moveCount position 0)
  | some (.move storage kind) =>
    let offset ← l.offset storage
    return ⟨← report (filters position p.dropLast), offset, kind⟩
  | some step => Halt.fail (.step position step)

/-- Compile a boxing program: a first move and address steps. -/
def source (l : FrameLayout) (position : ProgramPosition) (p : Program) : Compiling Source := do
  match p with
  | [] => Halt.fail (.moveCount position 0)
  | .move storage kind :: rest =>
    let offset ← l.offset storage
    return ⟨offset, kind, ← report (addresses position rest)⟩
  | step :: _ => Halt.fail (.step position step)

/-- Compile argument programs, the first of which stands at `index`. -/
def arguments {α : Type} (compile : ProgramPosition → Program → Compiling α) (index : Nat) :
    List Program → Compiling (List α)
  | [] => return []
  | p :: ps => do
    let a ← compile (.argument index) p
    return a :: (← arguments compile (index + 1) ps)

/-- Compile the result program if there is one. -/
def result? {α : Type} (compile : ProgramPosition → Program → Compiling α) (s : CallingSequence) :
    Compiling (Option α) := do
  if s.hasResultProgram then return some (← compile .result s.resultProgram) else return none

end DirectCall

def DirectDowncall.compile (s : CallingSequence) (l : FrameLayout) (c : Convention) (settings : Settings) :
    DirectCall.Compiling DirectDowncall := do
  checkEligible s c settings
  let arguments ← DirectCall.arguments (DirectCall.sink l) 0 s.argumentPrograms
  return ⟨arguments, ← DirectCall.result? (DirectCall.source l) s⟩

def DirectUpcall.compile (s : CallingSequence) (l : FrameLayout) (c : Convention) (settings : Settings) :
    DirectCall.Compiling DirectUpcall := do
  checkEligible s c settings
  let arguments ← DirectCall.arguments (DirectCall.source l) 0 s.argumentPrograms
  let result ← DirectCall.result? (DirectCall.sink l) s
  let length ← Fault.ofOverflow s.resultLength
  return ⟨arguments, result, s.signature.result, length⟩

/-! ### Running compiled calls -/

variable {σ : Type}

def Filter.apply : Filter → Value → Engine σ Value
  | .field offset kind, .segment s => Engine.getField s kind offset
  | .baseAddress, .segment s => return .address s.address
  | .addressBits, .address a => return .i64 a
  | .field _ _, found | .baseAddress, found => throw (.wrongFilterOperand .segment found)
  | .addressBits, found => throw (.wrongFilterOperand .address found)

def Filter.applyAll : List Filter → Value → Engine σ Value
  | [], v => return v
  | f :: fs, v => do applyAll fs (← f.apply v)

def Sink.put (s : Sink) (v : Value) : Engine σ Unit := do
  let v ← Filter.applyAll s.filters v
  Engine.writeWord s.offset (← s.kind.encode v)

/-- Turn bits into an address the given number of times. -/
def Source.toAddress : Nat → Value → Except Fault Value
  | 0, v => .ok v
  | n + 1, .i64 x => toAddress n (.address x)
  | _ + 1, found => .error (.wrongFilterOperand (.primitive .i64) found)

def Source.get (s : Source) : Engine σ Value := do
  Source.toAddress s.addresses (s.kind.decode (← Engine.readWord s.offset))

def Sink.putAll : List Sink → List Value → Engine σ Unit
  | s :: ss, v :: vs => do
    s.put v
    putAll ss vs
  | _, _ => return ()

def Source.getAll : List Source → Engine σ (List Value)
  | [] => return []
  | s :: ss => do
    let v ← s.get
    return v :: (← getAll ss)

/-- Fetch a result from the frame, `void` if there is none. -/
def Source.getResult : Option Source → Engine σ Value
  | some s => s.get
  | none => return .void

/-- Move a result to the frame, if it has a place there. -/
def Sink.putResult : Option Sink → Value → Engine σ Unit
  | some s, v => s.put v
  | none, _ => return ()

def DirectDowncall.invoke (d : DirectDowncall) (native : Native σ) (args : List Value) :
    Engine σ (Except NativeError Value) := do
  Sink.putAll d.arguments args
  match ← Engine.native native with
  | .error e => return .error e
  | .ok () => return .ok (← Source.getResult d.result)

def DirectUpcall.invoke (d : DirectUpcall) (target : Target σ) : Engine σ (Except CallError Unit) := do
  let args ← Source.getAll d.arguments
  match ← Engine.managed (target args) with
  | .error message => return .error (.target message)
  | .ok v =>
    match checkResult d.expected d.length v with
    | .error e => return .error e
    | .ok () =>
      Sink.putResult d.result v
      return .ok ()

end ForeignCall
