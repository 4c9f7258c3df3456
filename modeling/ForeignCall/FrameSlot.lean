import ForeignCall.Engine

/-!
# Slots of a frame by accessor

A `FrameSlot` names a slot of a frame the way native code does: by the class of a register or stack slot, or
by a typed accessor.  `Frame.readSlot` and `Frame.writeSlot` go through the accessors of `Frame`,
`Engine.readSlot` and `Engine.writeSlot` to the frame of a machine.
-/

namespace ForeignCall

/-- How a slot is accessed. -/
inductive Accessor where
  | word (kind : StorageClass)
  | f64Arg
  | f32Arg
  | pointerArg
  | f64Ret
  | f32Ret
  deriving DecidableEq

namespace Accessor

def all : List Accessor := StorageClass.all.map .word ++ [.f64Arg, .f32Arg, .pointerArg, .f64Ret, .f32Ret]

def text : Accessor → String
  | .word kind => kind.text
  | .f64Arg => "f64_arg"
  | .f32Arg => "f32_arg"
  | .pointerArg => "ptr_arg"
  | .f64Ret => "f64_ret"
  | .f32Ret => "f32_ret"

end Accessor

/-- A slot: its accessor and index.  There is one register for the address of an in-memory result and one
result for each floating-point accessor, whatever the index. -/
structure FrameSlot where
  accessor : Accessor
  index : Nat
  deriving DecidableEq

namespace Frame

/-- The slot of an x87 result, which has no accessor of its own. -/
def x87Slot (index : Nat) : Storage := Storage.slot .x87Ret index (Convention.slotWidth .x87Ret)

/-- The word of a slot; a single is zero-extended. -/
def readSlot (f : Frame) (s : FrameSlot) : Except Fault Word :=
  match s.accessor with
  | .word .integerArg => f.intArg s.index
  | .word .vectorArg => f.vectorArg s.index
  | .word .stack => f.stackArg s.index
  | .word .indirectResult => f.resultAddress
  | .word .integerRet => f.intRet s.index
  | .word .vectorRet => f.vectorRet s.index
  | .word .x87Ret => f.read (x87Slot s.index)
  | .f64Arg => f.f64Arg s.index
  | .f32Arg => return (← f.f32Arg s.index).setWidth 64
  | .pointerArg => f.pointerArg s.index
  | .f64Ret => f.vectorRet 0
  | .f32Ret => return ((← f.vectorRet 0).setWidth 32).setWidth 64

/-- Replace the word of a slot; a single keeps its low half. -/
def writeSlot (f : Frame) (s : FrameSlot) (w : Word) : Except Fault Frame :=
  match s.accessor with
  | .word .integerArg => f.setIntArg s.index w
  | .word .vectorArg => f.setVectorArg s.index w
  | .word .stack => f.setStackArg s.index w
  | .word .indirectResult => f.setResultAddress w
  | .word .integerRet => f.setIntRet s.index w
  | .word .vectorRet => f.setVectorRet s.index w
  | .word .x87Ret => f.write (x87Slot s.index) w
  | .f64Arg => f.setVectorArg s.index w
  | .f32Arg => f.setVectorArg s.index ((w.setWidth 32).setWidth 64)
  | .pointerArg => f.setIntArg s.index w
  | .f64Ret => f.setF64Ret w
  | .f32Ret => f.setF32Ret (w.setWidth 32)

/-- The slots that do not hold zero, with their words. -/
def contents (f : Frame) : List (Storage × Word) :=
  f.slots.filterMap fun s =>
    match f.read s with
    | .ok w => if w = 0 then none else some (s, w)
    | .error _ => none

end Frame

namespace Engine

variable {σ : Type}

def readSlot (s : FrameSlot) : Engine σ Word := do (← get).frame.readSlot s

def writeSlot (s : FrameSlot) (w : Word) : Engine σ Unit := do
  let frame ← (← get).frame.writeSlot s w
  modify fun m => { m with frame := frame }

end Engine

end ForeignCall
