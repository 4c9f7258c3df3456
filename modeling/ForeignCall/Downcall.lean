import ForeignCall.DirectCall
import ForeignCall.Interpreter
import ForeignCall.Text.Quoted

/-!
# Downcalls

A `DowncallHandle` is a linked native function.  `DowncallHandle.invoke` checks the arguments before
anything else happens and then runs the compiled form of the call, if there is one, or interprets its
sequence; `DowncallHandle.interpret` always interprets.  Both work on the frame of the machine and leave it
as the native side saw it on return.
-/

namespace ForeignCall

/-- A native function as it was registered.  The code is data of any type `φ`, which the caller knows how to
run. -/
structure NativeFunction (φ : Type) where
  name : String
  code : φ

/-- Run a native function; a failure is recorded. -/
def NativeFunction.call {φ σ : Type} (run : φ → Native σ) (f : NativeFunction φ) :
    Engine σ (Except NativeError Unit) := do
  match ← run f.code with
  | .error e =>
    Engine.record (.nativeFailed f.name e)
    return .error e
  | .ok () => return .ok ()

/-- A linked native function. -/
structure DowncallHandle (φ : Type) where
  name : String
  sequence : CallingSequence
  layout : FrameLayout
  native : NativeFunction φ
  /-- The compiled form of the call. -/
  direct : Option DirectDowncall
  /-- Whether the function has to return the address of its result buffer. -/
  returnsResultAddress : Bool

namespace Downcall

variable {σ : Type}

/-- Reserve the buffer of an in-memory result and pass its address.  The buffer outlives the scratch memory
of the call since it is handed back as the result. -/
def passResultBuffer (s : CallingSequence) : Engine σ (Option Segment) := do
  match s.indirect with
  | none => return none
  | some i =>
    let buffer ← Engine.allocateOwned i.size i.layout.alignment
    Engine.unbox (.address buffer.address) i.pointer
    return some buffer

def passArguments : List Value → List Program → Engine σ Unit
  | v :: vs, p :: ps => do
    Engine.unbox v p
    passArguments vs ps
  | _, _ => return ()

/-- A segment in scratch memory is copied so that it survives the call. -/
def detach : Value → Engine σ Value
  | .segment s => return .segment (← Engine.toOwned s)
  | v => return v

/-- Take the result of a call.  A function that has to return the address of its result buffer and does not
is an error. -/
def takeResult (name : String) (s : CallingSequence) (returnsAddress : Bool) (buffer : Option Segment) :
    Engine σ (Except NativeError Value) := do
  let returned ← Engine.box s.resultProgram
  match buffer with
  | some b =>
    if returnsAddress && returned.asAddress? != some b.address then
      return .error ⟨name ++ " returned " ++ returned.text ++ " instead of its result buffer " ++ wordText b.address⟩
    else return .ok (.segment b)
  | none => return .ok (← detach returned)

def interpret (name : String) (s : CallingSequence) (returnsAddress : Bool) (native : Native σ) (args : List Value) :
    Engine σ (Except NativeError Value) :=
  Engine.withScratch s.scratchSize do
    let buffer ← passResultBuffer s
    passArguments args s.userPrograms
    Engine.record (.downcall name)
    match ← Engine.native native with
    | .error e => return .error e
    | .ok () => takeResult name s returnsAddress buffer

end Downcall

namespace DowncallHandle

variable {φ σ : Type}

def isDirect (h : DowncallHandle φ) : Bool := h.direct.isSome

def inspect (h : DowncallHandle φ) : String :=
  "DowncallHandle \x7b name: " ++ quoted h.name ++ ", signature: " ++ h.sequence.signature.inspect
    ++ ", specialized: " ++ toString h.isDirect ++ " \x7d"

def newFrame (h : DowncallHandle φ) : Except Fault Frame := Frame.new h.layout

/-- Check the arguments, then call. -/
def checked (h : DowncallHandle φ) (args : List Value) (call : Engine σ (Except NativeError Value)) :
    Engine σ (Except CallError Value) := do
  match ← Engine.outcome (Halt.ofOverflow (h.sequence.checkArguments args)) with
  | .error e => return .error e
  | .ok () => return (← call).mapError .native

/-- Interpret the call, also if it is compiled. -/
def interpret (run : φ → Native σ) (h : DowncallHandle φ) (args : List Value) : Engine σ (Except CallError Value) :=
  h.checked args (Downcall.interpret h.name h.sequence h.returnsResultAddress (h.native.call run) args)

def invoke (run : φ → Native σ) (h : DowncallHandle φ) (args : List Value) : Engine σ (Except CallError Value) :=
  match h.direct with
  | some d => h.checked args (d.invoke (h.native.call run) args)
  | none => h.interpret run args

/-- Call the function with a fresh frame, which nobody sees afterwards. -/
def invokeFresh (run : φ → Native σ) (h : DowncallHandle φ) (args : List Value) :
    Engine σ (Except CallError Value) := do
  let frame ← Engine.lift h.newFrame
  return (← Engine.withFrame frame (h.invoke run args)).1

end DowncallHandle

end ForeignCall
