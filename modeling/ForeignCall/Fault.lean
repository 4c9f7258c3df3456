import ForeignCall.Value
import ForeignCall.Verification

/-!
# Faults

A fault is a broken invariant: a marshalling step that found the wrong operand, an access outside a segment
or to memory that is gone, a storage outside the frame.  No caller handles one; each has one report,
`Fault.text`.
-/

namespace ForeignCall

/-- Which side of a call the code at hand is on. -/
inductive Direction where
  /-- Managed code calls native code. -/
  | downcall
  /-- Native code calls managed code. -/
  | upcall
  deriving DecidableEq

namespace Direction

/-- Whether argument programs take values apart. -/
def unboxesArguments : Direction → Bool
  | .downcall => true
  | .upcall => false

/-- Whether the result program takes a value apart. -/
def unboxesResult : Direction → Bool
  | .downcall => false
  | .upcall => true

def text : Direction → String
  | .downcall => "downcall"
  | .upcall => "upcall"

end Direction

/-- A broken invariant. -/
inductive Fault where
  | overflow (operation : Overflow)
  /- Memory -/
  | scopeClosed (address : Word)
  | outsideSegment (size offset length : Nat)
  | notStorable (found : Value)
  | invalidBuffer (size alignment : Nat)
  | outOfMemory (size : Nat)
  | scratchClosed
  | chunkTooSmall
  /- Scalars in slots -/
  | noSlotEncoding (found : Value)
  | wrongScalar (expected : Primitive) (found : Value)
  /- Slots and frames -/
  | noSuchSlot (convention : String) (kind : StorageClass) (index : Nat)
  | outsideFrame (storage : Storage)
  | outsideWords (length index : Nat)
  | frameTooLarge
  /- Programs at run time -/
  | stackUnderflow (step : Step)
  | wrongOperand (step : Step) (expected : Carrier) (found : Value)
  | wrongKind (step : Step)
  | unboxLeftover (count : Nat)
  | boxLeftover (count : Nat)
  | wrongFilterOperand (expected : Carrier) (found : Value)
  | wrongResultPointer (found : Value)
  /- Programs being put together -/
  | malformedProgram (direction : Direction) (program : Program) (defect : Defect)
  | wrongRole (storage : Storage) (asArgument : Bool)
  | resultMarkedTwice
  | unreachable
  deriving DecidableEq

namespace Fault

def text : Fault → String
  | .overflow operation => operation.text
  | .scopeClosed address => "access to segment " ++ wordText address ++ " after its scope was closed"
  | .outsideSegment size offset length =>
    "access of " ++ toString size ++ " bytes at +" ++ toString offset ++ " is outside segment of "
      ++ toString length ++ " bytes"
  | .notStorable found => "cannot store " ++ found.inspect ++ " into a segment field"
  | .invalidBuffer size alignment => "invalid buffer layout " ++ toString size ++ "/" ++ toString alignment
  | .outOfMemory size => "memory allocation of " ++ toString size ++ " bytes failed"
  | .scratchClosed => "allocation from a closed binding context"
  | .chunkTooSmall => "internal error: entered unreachable code: fresh chunk too small"
  | .noSlotEncoding found => found.inspect ++ " has no slot encoding"
  | .wrongScalar expected found => "expected " ++ expected.text ++ " value, found " ++ found.inspect
  | .noSuchSlot convention kind index =>
    convention ++ " has no " ++ kind.text ++ " slot " ++ toString index
  | .outsideFrame storage => storage.text ++ " is not part of this frame layout"
  | .outsideWords length index =>
    "index out of bounds: the len is " ++ toString length ++ " but the index is " ++ toString index
  | .frameTooLarge => "capacity overflow"
  | .stackUnderflow step => step.text ++ ": value stack underflow"
  | .wrongOperand step expected found =>
    step.text ++ ": expected " ++ expected.text ++ ", found " ++ found.inspect
  | .wrongKind step => step.text ++ ": wrong value kind"
  | .unboxLeftover count => "unbox left " ++ toString count ++ " value(s) on the stack"
  | .boxLeftover count => "box left " ++ toString count ++ " extra value(s) on the stack"
  | .wrongFilterOperand expected found => "expected " ++ expected.text ++ ", found " ++ found.inspect
  | .wrongResultPointer found => "result pointer boxed as " ++ found.inspect
  | .malformedProgram direction program defect =>
    "malformed " ++ direction.text ++ " program " ++ program.text ++ ": " ++ defect.text
  | .wrongRole storage asArgument =>
    storage.text ++ " used in a" ++ (if asArgument then "n argument" else " return") ++ " program"
  | .resultMarkedTwice => "indirect result already marked"
  | .unreachable => "internal error: entered unreachable code"

end Fault

/-- A checked size that overflows is a fault. -/
def Fault.ofOverflow {α : Type} : Except Overflow α → Except Fault α
  | .ok a => .ok a
  | .error o => .error (.overflow o)

instance : MonadLift (Except Overflow) (Except Fault) := ⟨Fault.ofOverflow⟩

/-- A checked size that overflows is a fault of a computation that can also err. -/
def Halt.ofOverflow {ε α : Type} : Except (Halt Overflow ε) α → Except (Halt Fault ε) α
  | .ok a => .ok a
  | .error (.fault o) => .error (.fault (.overflow o))
  | .error (.error e) => .error (.error e)

instance {ε : Type} : MonadLift (Except (Halt Overflow ε)) (Except (Halt Fault ε)) := ⟨Halt.ofOverflow⟩

end ForeignCall
