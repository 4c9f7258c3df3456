import ForeignCall.DirectCall
import ForeignCall.Interpreter

/-!
# Upcalls

An `UpcallHandler` runs a managed target against a frame that native code has filled.
`UpcallHandler.invoke` runs the compiled form of the call, if there is one, or interprets its sequence: it
boxes the arguments, calls the target, checks what it returns and delivers that to the result storages or to
the caller's result buffer.
-/

namespace ForeignCall

/-- A managed function behind an entry point.  The target is data of any type `τ`, which the caller knows how to
run. -/
structure UpcallHandler (τ : Type) where
  sequence : CallingSequence
  layout : FrameLayout
  target : τ
  /-- The compiled form of the call. -/
  direct : Option DirectUpcall

namespace Upcall

variable {σ : Type}

/-- The buffer that the caller reserved for an in-memory result. -/
def takeResultBuffer (s : CallingSequence) : Engine σ (Option Segment) := do
  match s.indirect with
  | none => return none
  | some i =>
    match ← Engine.box i.pointer with
    | .address a => return some (Segment.global a i.size)
    | found => throw (.wrongResultPointer found)

def takeArguments : List Program → Engine σ (List Value)
  | [] => return []
  | p :: ps => do
    let v ← Engine.box p
    return v :: (← takeArguments ps)

/-- A result has to be what the sequence returns. -/
def checkResult (s : CallingSequence) (v : Value) : Except (Halt Fault CallError) Unit := do
  match checkResultCarrier s.resultCarrier v with
  | .error e => Halt.fail e
  | .ok () =>
    let length ← Fault.ofOverflow s.resultLength
    match checkResultLength length v with
    | .error e => Halt.fail e
    | .ok () => return ()

/-- Move a value through the result program, if there is one. -/
def passResult (s : CallingSequence) (v : Value) : Engine σ Unit :=
  if s.hasResultProgram then Engine.unbox v s.resultProgram else return ()

/-- Deliver a result, in memory if there is a buffer. -/
def deliver (s : CallingSequence) (buffer : Option Segment) (v : Value) : Engine σ Unit := do
  match buffer, v with
  | none, v => passResult s v
  | some b, .segment returned =>
    Engine.copySegment b (← Engine.takeSegment returned b.length)
    passResult s (.address b.address)
  | some _, _ => throw .unreachable

def interpret (s : CallingSequence) (target : Target σ) : Engine σ (Except CallError Unit) :=
  Engine.withScratch s.scratchSize do
    let buffer ← takeResultBuffer s
    let args ← takeArguments s.userPrograms
    Engine.record (.upcall args.length)
    match ← Engine.managed (target args) with
    | .error message => return .error (.target message)
    | .ok v =>
      match ← Engine.outcome (checkResult s v) with
      | .error e => return .error e
      | .ok () =>
        deliver s buffer v
        return .ok ()

end Upcall

namespace UpcallHandler

variable {τ σ : Type}

def isDirect (h : UpcallHandler τ) : Bool := h.direct.isSome

def inspect (h : UpcallHandler τ) : String :=
  "UpcallHandler \x7b signature: " ++ h.sequence.signature.inspect ++ ", specialized: " ++ toString h.isDirect
    ++ " \x7d"

def newFrame (h : UpcallHandler τ) : Except Fault Frame := Frame.new h.layout

/-- Interpret the call, also if it is compiled. -/
def interpret (run : τ → Target σ) (h : UpcallHandler τ) : Engine σ (Except CallError Unit) :=
  Upcall.interpret h.sequence (run h.target)

def invoke (run : τ → Target σ) (h : UpcallHandler τ) : Engine σ (Except CallError Unit) :=
  match h.direct with
  | some d => d.invoke (run h.target)
  | none => h.interpret run

end UpcallHandler

end ForeignCall
