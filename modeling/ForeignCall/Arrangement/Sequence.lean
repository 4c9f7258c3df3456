import ForeignCall.Arrangement.AArch64
import ForeignCall.Arrangement.SysV

/-!
# The calling sequence of a function shape

`arrange` assigns storages to the result and then to the arguments of a descriptor, in order, and puts the
programs together.  The result comes first since the address of an in-memory result may take an argument
register.
-/

namespace ForeignCall

namespace Convention

def place : Convention → Layout → Cursor → Arranging (Placement × Cursor)
  | .sysV => SysV.place
  | .aarch64 => AArch64.place

/-- The storages of a result in registers; nothing if it is returned in memory. -/
def placeResult? : Convention → Layout → Arranging (Option Placement)
  | .sysV => SysV.placeResult?
  | .aarch64 => AArch64.placeResult?

def resultPointer : Convention → Cursor → Arranging (Storage × Cursor)
  | .sysV => SysV.resultPointer
  | .aarch64 => AArch64.resultPointer

end Convention

namespace Arrangement

/-- An error of the builder is an error of linking. -/
def ofBinding {α : Type} : Except (Halt Fault BindingError) α → Arranging α
  | .ok a => .ok a
  | .error (.fault f) => .error (.fault f)
  | .error (.error e) => .error (.error (.binding e))

/-- Deliver a result in memory.  Where the callee hands the address back, it comes in the first integer result
register. -/
def indirectResult (c : Convention) (l : Layout) (cursor : Cursor) (b : SequenceBuilder) :
    Arranging (SequenceBuilder × Cursor) := do
  let (pointer, cursor) ← c.resultPointer cursor
  let b ← b.markIndirect l (scalarProgram .address pointer b.direction.unboxesArguments)
  if c.returnsResultAddress then
    let register ← c.storage .integerRet 0
    let b ← ofBinding (b.setResult
      ⟨.address, .address, scalarProgram .address register b.direction.unboxesResult⟩)
    return (b, cursor)
  else return (b, cursor)

def result (c : Convention) (d : Descriptor) (b : SequenceBuilder) : Arranging (SequenceBuilder × Cursor) := do
  let cursor := Cursor.arguments c
  match d.result with
  | none => return (b, cursor)
  | some l =>
    match ← c.placeResult? l with
    | some placement =>
      let program ← placement.program l b.direction.unboxesResult
      return (← ofBinding (b.setResult ⟨l.carrier, l, program⟩), cursor)
    | none => indirectResult c l cursor b

def arguments (c : Convention) (cursor : Cursor) (b : SequenceBuilder) : List Layout → Arranging SequenceBuilder
  | [] => return b
  | l :: ls => do
    let (placement, cursor) ← c.place l cursor
    let program ← placement.program l b.direction.unboxesArguments
    let b ← b.addArgument ⟨l.carrier, l, program⟩
    arguments c cursor b ls

end Arrangement

/-- The calling sequence of a function shape under a convention. -/
def arrange (c : Convention) (d : Descriptor) (direction : Direction) : Arranging CallingSequence := do
  let (b, cursor) ← Arrangement.result c d (SequenceBuilder.new direction)
  let b ← Arrangement.arguments c cursor b d.args
  b.build

end ForeignCall
