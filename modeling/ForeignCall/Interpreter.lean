import ForeignCall.Engine

/-!
# Interpreting binding programs

* `Engine.unbox`: take a value apart into storages, as a program says;
* `Engine.box`: put a value together from storages, as a program says.

Both run the steps on a stack of values whose head is its top.  Every program that passes verification runs
to its end; a step that finds no operand or the wrong one is a fault.
-/

namespace ForeignCall

namespace Interpreter

variable {σ : Type}

/-! ### Operands -/

def pop (step : Step) : List Value → Except Fault (Value × List Value)
  | [] => .error (.stackUnderflow step)
  | top :: rest => .ok (top, rest)

def popSegment (step : Step) (stack : List Value) : Except Fault (Segment × List Value) := do
  match ← pop step stack with
  | (.segment s, rest) => return (s, rest)
  | (found, _) => throw (.wrongOperand step .segment found)

def popAddress (step : Step) (stack : List Value) : Except Fault (Word × List Value) := do
  match ← pop step stack with
  | (.address a, rest) => return (a, rest)
  | (found, _) => throw (.wrongOperand step .address found)

def popAddressBits (step : Step) (stack : List Value) : Except Fault (Word × List Value) := do
  match ← pop step stack with
  | (.i64 x, rest) => return (x, rest)
  | (found, _) => throw (.wrongOperand step (.primitive .i64) found)

/-- Pop a scalar of the given kind and give the word that carries it. -/
def popSlotBits (step : Step) (kind : Primitive) (stack : List Value) : Except Fault (Word × List Value) := do
  let (v, rest) ← pop step stack
  if v.primitive? = some kind then return (← v.slotBits, rest) else throw (.wrongKind step)

def dup (step : Step) (stack : List Value) : Except Fault (List Value) := do
  let (top, rest) ← pop step stack
  return top :: top :: rest

/-! ### Steps -/

def unboxStep (step : Step) (stack : List Value) : Engine σ (List Value) := do
  match step with
  | .move storage kind =>
    let (w, rest) ← popSlotBits step kind stack
    Engine.writeStorage storage w
    return rest
  | .field offset kind =>
    let (s, rest) ← popSegment step stack
    return (← Engine.getField s kind offset) :: rest
  | .copy size alignment =>
    let (s, rest) ← popSegment step stack
    let target ← Engine.allocateScratch size alignment
    Engine.copySegment target (← Engine.takeSegment s size)
    return .segment target :: rest
  | .allocate size alignment => return .segment (← Engine.allocateScratch size alignment) :: stack
  | .boxAddress =>
    let (a, rest) ← popAddress step stack
    return .i64 a :: rest
  | .baseAddress =>
    let (s, rest) ← popSegment step stack
    return .address s.address :: rest
  | .dup => dup step stack

def boxStep (step : Step) (stack : List Value) : Engine σ (List Value) := do
  match step with
  | .move storage kind => return kind.decode (← Engine.readStorage storage) :: stack
  | .field offset _ =>
    let (v, rest) ← pop step stack
    let (s, rest) ← popSegment step rest
    Engine.setField s offset v
    return .segment s :: rest
  | .copy size alignment =>
    let (a, rest) ← popAddress step stack
    let target ← Engine.allocateScratch size alignment
    Engine.copySegment target (Segment.global a size)
    return .segment target :: rest
  | .allocate size alignment => return .segment (← Engine.allocateScratch size alignment) :: stack
  | .boxAddress =>
    let (a, rest) ← popAddressBits step stack
    return .address a :: rest
  | .baseAddress =>
    let (s, rest) ← popSegment step stack
    return .address s.address :: rest
  | .dup => dup step stack

/-- Run steps from first to last; each is recorded before it runs. -/
def run (event : Step → LogEvent) (effect : Step → List Value → Engine σ (List Value)) :
    Program → List Value → Engine σ (List Value)
  | [], stack => return stack
  | step :: rest, stack => do
    Engine.record (event step)
    run event effect rest (← effect step stack)

/-- Unboxing has to consume everything. -/
def finishUnbox (stack : List Value) : Except Fault Unit :=
  if stack.isEmpty then .ok () else .error (.unboxLeftover stack.length)

/-- Boxing has to leave one value, or nothing for `void`. -/
def finishBox : List Value → Except Fault Value
  | [] => .ok .void
  | [v] => .ok v
  | _ :: rest => .error (.boxLeftover rest.length)

end Interpreter

namespace Engine

variable {σ : Type}

def unbox (v : Value) (p : Program) : Engine σ Unit := do
  Interpreter.finishUnbox (← Interpreter.run .unboxStep Interpreter.unboxStep p [v])

/-- Rebuild a value from the storages of a program; a program without steps gives `void`. -/
def box (p : Program) : Engine σ Value := do
  Interpreter.finishBox (← Interpreter.run .boxStep Interpreter.boxStep p [])

end Engine

end ForeignCall
