import ForeignCall.Halt
import ForeignCall.Program

/-!
# Verification of binding programs

A program is run on *shapes* instead of values: the kind of a scalar, an address, or a segment of known
length.

* `verifyUnbox` accepts a program that consumes exactly one value of a carrier and leaves nothing behind;
* `verifyBox` accepts a program that produces exactly one value of a carrier out of nothing.

A rejected program gets a `Defect`: the step at fault, or none when only the final stack is wrong, and the
reason. Lengths are checked sizes, so verification itself can overflow.
-/

namespace ForeignCall

/-- What verification knows about a value on the stack. -/
inductive Shape where
  | scalar (kind : Primitive)
  | address
  | segment (length : Nat)
  deriving DecidableEq

namespace Shape

/-- The shape of a value of a carrier whose memory has the given layout. -/
def ofCarrier (l : Layout) : Carrier → Except Overflow Shape
  | .primitive p => .ok (.scalar p)
  | .address => .ok .address
  | .segment => return .segment (← l.byteSize)

def carrier : Shape → Carrier
  | .scalar p => .primitive p
  | .address => .address
  | .segment _ => .segment

def text : Shape → String
  | .scalar p => p.text
  | .address => "address"
  | .segment n => "segment[" ++ toString n ++ "]"

end Shape

/-- Why a program is rejected. -/
inductive Reason where
  | underflow
  | operand (expected : Carrier) (found : Shape)
  | fieldOutside (kind : Primitive) (offset length : Nat)
  | copyTooLong (size length : Nat)
  | slotTooNarrow (kind : Primitive) (width : Nat)
  | leftover (count : Nat)
  | resultTooSmall (length : Nat) (layout : Layout)
  | wrongResult (found : Shape) (expected : Carrier)
  | resultCount (count : Nat)
  deriving DecidableEq

def Reason.text : Reason → String
  | .underflow => "stack underflow"
  | .operand expected found => "expected " ++ expected.text ++ ", found " ++ found.text
  | .fieldOutside kind offset length =>
    "field " ++ kind.text ++ " at +" ++ toString offset ++ " exceeds segment of " ++ toString length ++ " bytes"
  | .copyTooLong size length =>
    "copy of " ++ toString size ++ " bytes from segment of " ++ toString length
  | .slotTooNarrow kind width => kind.text ++ " does not fit " ++ toString width ++ " byte storage"
  | .leftover count => toString count ++ " value(s) left on the stack"
  | .resultTooSmall length layout =>
    "result segment of " ++ toString length ++ " bytes is smaller than " ++ layout.text
  | .wrongResult found expected => "produces " ++ found.text ++ ", expected " ++ expected.text
  | .resultCount count => "expected one result, stack holds " ++ toString count

/-- A rejected program: the position of the step at fault, or the length of the program when its final stack
is wrong. -/
structure Defect where
  position : Nat
  step : Option Step
  reason : Reason
  deriving DecidableEq

def Defect.text (d : Defect) : String :=
  match d.step with
  | some step => "invalid step " ++ toString d.position ++ " (" ++ step.text ++ "): " ++ d.reason.text
  | none => "invalid program end at " ++ toString d.position ++ ": " ++ d.reason.text

namespace Verification

/-- A check that can overflow or find a reason to reject. -/
abbrev Check := Except (Halt Overflow Reason)

/-! ### Operands -/

def pop : List Shape → Check (Shape × List Shape)
  | [] => Halt.fail .underflow
  | top :: rest => .ok (top, rest)

def popScalar (kind : Primitive) (stack : List Shape) : Check (List Shape) := do
  let (top, rest) ← pop stack
  if top = .scalar kind then return rest else Halt.fail (.operand (.primitive kind) top)

def popAddress (stack : List Shape) : Check (List Shape) := do
  let (top, rest) ← pop stack
  if top = .address then return rest else Halt.fail (.operand .address top)

def popSegment (stack : List Shape) : Check (Nat × List Shape) := do
  let (top, rest) ← pop stack
  match top with
  | .segment length => return (length, rest)
  | other => Halt.fail (.operand .segment other)

/-- A field has to end within its segment. -/
def checkField (length offset : Nat) (kind : Primitive) : Check Unit := do
  let last ← checkedAdd offset kind.byteSize
  if last ≤ length then return () else Halt.fail (.fieldOutside kind offset length)

/-- A scalar has to fit the storage that it moves through. -/
def checkWidth : Step → Check Unit
  | .move storage kind =>
    if kind.byteSize ≤ storage.byteSize then return () else Halt.fail (.slotTooNarrow kind storage.byteSize)
  | _ => return ()

/-! ### Steps on shapes -/

def unboxStep (stack : List Shape) (step : Step) : Check (List Shape) := do
  checkWidth step
  match step with
  | .move _ kind => popScalar kind stack
  | .field offset kind =>
    let (length, rest) ← popSegment stack
    checkField length offset kind
    return .scalar kind :: rest
  | .copy size _ =>
    let (length, rest) ← popSegment stack
    if size ≤ length then return .segment size :: rest else Halt.fail (.copyTooLong size length)
  | .allocate size _ => return .segment size :: stack
  | .boxAddress =>
    let rest ← popAddress stack
    return .scalar .i64 :: rest
  | .baseAddress =>
    let (_, rest) ← popSegment stack
    return .address :: rest
  | .dup =>
    let (top, rest) ← pop stack
    return top :: top :: rest

def boxStep (stack : List Shape) (step : Step) : Check (List Shape) := do
  checkWidth step
  match step with
  | .move _ kind => return .scalar kind :: stack
  | .field offset kind =>
    let rest ← popScalar kind stack
    let (length, rest) ← popSegment rest
    checkField length offset kind
    return .segment length :: rest
  | .copy size _ =>
    let rest ← popAddress stack
    return .segment size :: rest
  | .allocate size _ => return .segment size :: stack
  | .boxAddress =>
    let rest ← popScalar .i64 stack
    return .address :: rest
  | .baseAddress =>
    let (_, rest) ← popSegment stack
    return .address :: rest
  | .dup =>
    let (top, rest) ← pop stack
    return top :: top :: rest

/-- Run the steps of a program, the first of which stands at `position`. -/
def run (effect : List Shape → Step → Check (List Shape)) (position : Nat) :
    Program → List Shape → Except (Halt Overflow Defect) (List Shape)
  | [], stack => .ok stack
  | step :: rest, stack =>
    match effect stack step with
    | .ok next => run effect (position + 1) rest next
    | .error (.fault o) => .error (.fault o)
    | .error (.error reason) => Halt.fail ⟨position, some step, reason⟩

end Verification

open Verification in
/-- Accept a program that consumes one value of the carrier, described by the layout, and leaves the stack
empty. -/
def verifyUnbox (p : Program) (carrier : Carrier) (l : Layout) : Except (Halt Overflow Defect) Unit := do
  let shape ← Shape.ofCarrier l carrier
  let stack ← run unboxStep 0 p [shape]
  if stack.isEmpty then return () else Halt.fail ⟨p.length, none, .leftover stack.length⟩

open Verification in
/-- Accept a program that produces one value of the carrier, with memory for the layout, from an empty stack. -/
def verifyBox (p : Program) (carrier : Carrier) (l : Layout) : Except (Halt Overflow Defect) Unit := do
  let stack ← run boxStep 0 p []
  let reject (reason : Reason) := Halt.fail ⟨p.length, none, reason⟩
  match stack with
  | [.segment length] =>
    if carrier = .segment then
      let size ← l.byteSize
      if size ≤ length then return () else reject (.resultTooSmall length l)
    else reject (.wrongResult (.segment length) carrier)
  | [result] => if result.carrier = carrier then return () else reject (.wrongResult result carrier)
  | stack => reject (.resultCount stack.length)

end ForeignCall
