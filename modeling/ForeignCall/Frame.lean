import ForeignCall.Convention

/-!
# Call frames

A frame is the flat image of the registers and stack slots of one call, an array of words.

* `FrameLayout`: where the slots of each class lie.  Classes follow each other in their order; registers are
  always present in full, and the stack area covers the slots that a call uses;
* `Frame.read`, `Frame.write`: the word of a storage, which has to be part of the layout;
* `Frame.intArg`, `Frame.setIntArg` and their kin: the slots by class and index.
-/

namespace ForeignCall

/-- The slots of one class in a frame: the offset of the first, their number and their width in bytes. -/
structure Area where
  base : Nat
  count : Nat
  width : Nat
  deriving DecidableEq

/-- The areas of a frame in the order of the classes, and the bytes of the whole frame. -/
structure FrameLayout where
  areas : List Area
  size : Nat
  deriving DecidableEq

namespace FrameLayout

/-- Lay out the slots of some classes from `offset` on; the second component is the end. -/
def layOut (count : StorageClass → Nat) (offset : Nat) : List StorageClass → Except Overflow (List Area × Nat)
  | [] => .ok ([], offset)
  | kind :: kinds => do
    let bytes ← checkedMul (count kind) (Convention.slotWidth kind)
    let next ← checkedAdd offset bytes
    let (rest, last) ← layOut count next kinds
    return (⟨offset, count kind, Convention.slotWidth kind⟩ :: rest, last)

/-- The frame of a convention with the given number of stack slots. -/
def withStackSlots (c : Convention) (stackSlots : Nat) : Except Overflow FrameLayout := do
  let count := fun kind => if kind = StorageClass.stack then stackSlots else c.slotCount kind
  let (areas, size) ← layOut count 0 StorageClass.all
  return ⟨areas, size⟩

/-- The number of stack slots up to the last one among some storages. -/
def stackSlots (storages : List Storage) : Nat :=
  storages.foldl (fun n s => if s.kind = .stack then max n (s.index.toNat + 1) else n) 0

/-- The least frame of a convention that has the stack slots among some storages. -/
def covering (c : Convention) (storages : List Storage) : Except Overflow FrameLayout :=
  withStackSlots c (stackSlots storages)

def area (l : FrameLayout) (kind : StorageClass) : Area := l.areas.getD kind.index ⟨0, 0, 0⟩

def slotCount (l : FrameLayout) (kind : StorageClass) : Nat := (l.area kind).count

/-- The byte offset of a storage, if it is part of the frame. -/
def offset? (l : FrameLayout) (s : Storage) : Option Nat :=
  let a := l.area s.kind
  if s.index.toNat < a.count then some (a.base + s.index.toNat * a.width) else none

/-- The byte offset of a storage that has to be part of the frame. -/
def offset (l : FrameLayout) (s : Storage) : Except Fault Nat :=
  match l.offset? s with
  | some o => .ok o
  | none => .error (.outsideFrame s)

/-- The areas that have slots, and the size of the frame. -/
def text (l : FrameLayout) : String :=
  let areaText (kind : StorageClass) : Option String :=
    let a := l.area kind
    if a.count = 0 then none else some (kind.text ++ ": +" ++ toString a.base ++ " x" ++ toString a.count)
  "\x7b" ++ ", ".intercalate (StorageClass.all.filterMap areaText) ++ "\x7d " ++ toString l.size ++ " bytes"

end FrameLayout

def wordSize : Nat := 8

def FrameLayout.wordCount (l : FrameLayout) : Nat := (l.size + (wordSize - 1)) / wordSize

/-- The registers and stack slots of one call. -/
structure Frame where
  layout : FrameLayout
  words : Array Word
  size_words : words.size = layout.wordCount
  deriving DecidableEq

namespace Frame

/-- No frame has as many bytes: two to the power of 63. -/
def maxSize : Nat := 0x8000000000000000

def new (l : FrameLayout) : Except Fault Frame :=
  if l.wordCount * wordSize < maxSize then .ok ⟨l, Array.replicate l.wordCount 0, Array.size_replicate⟩
  else .error .frameTooLarge

def empty : Frame := ⟨⟨[], 0⟩, #[], rfl⟩

def clear (f : Frame) : Frame :=
  { f with words := f.words.map fun _ => 0, size_words := Array.size_map.trans f.size_words }

/-- The word that holds the byte at `offset`. -/
def readWord (f : Frame) (offset : Nat) : Except Fault Word :=
  match f.words[offset / wordSize]? with
  | some w => .ok w
  | none => .error (.outsideWords f.words.size (offset / wordSize))

/-- The byte at `offset` has to lie in a word of the frame. -/
def checkWord (f : Frame) (offset : Nat) : Except Fault Unit :=
  if offset / wordSize < f.words.size then .ok () else .error (.outsideWords f.words.size (offset / wordSize))

/-- Replace the word that holds the byte at `offset`, if there is one. -/
def setWord (f : Frame) (offset : Nat) (w : Word) : Frame :=
  { f with
    words := f.words.setIfInBounds (offset / wordSize) w
    size_words := Array.size_setIfInBounds.trans f.size_words }

/-- Replace the word that holds the byte at `offset`. -/
def writeWord (f : Frame) (offset : Nat) (w : Word) : Except Fault Frame := do
  f.checkWord offset
  return f.setWord offset w

def read (f : Frame) (s : Storage) : Except Fault Word := do f.readWord (← f.layout.offset s)

def write (f : Frame) (s : Storage) (w : Word) : Except Fault Frame := do f.writeWord (← f.layout.offset s) w

/-! ### Slots by class and index -/

def get (f : Frame) (kind : StorageClass) (index : Nat) : Except Fault Word :=
  f.read (Storage.slot kind index wordSize)

def put (f : Frame) (kind : StorageClass) (index : Nat) (w : Word) : Except Fault Frame :=
  f.write (Storage.slot kind index wordSize) w

def intArg (f : Frame) (index : Nat) : Except Fault (BitVec 64) := f.get .integerArg index

def setIntArg (f : Frame) (index : Nat) (x : BitVec 64) : Except Fault Frame := f.put .integerArg index x

def vectorArg (f : Frame) (index : Nat) : Except Fault Word := f.get .vectorArg index

def setVectorArg (f : Frame) (index : Nat) (w : Word) : Except Fault Frame := f.put .vectorArg index w

def f64Arg (f : Frame) (index : Nat) : Except Fault (BitVec 64) := f.vectorArg index

/-- The single in the low half of a vector argument. -/
def f32Arg (f : Frame) (index : Nat) : Except Fault (BitVec 32) := return (← f.vectorArg index).setWidth 32

def stackArg (f : Frame) (index : Nat) : Except Fault Word := f.get .stack index

def setStackArg (f : Frame) (index : Nat) (w : Word) : Except Fault Frame := f.put .stack index w

def pointerArg (f : Frame) (index : Nat) : Except Fault Word := f.get .integerArg index

/-- The address in the dedicated register of an in-memory result. -/
def resultAddress (f : Frame) : Except Fault Word := f.get .indirectResult 0

def setResultAddress (f : Frame) (a : Word) : Except Fault Frame := f.put .indirectResult 0 a

def intRet (f : Frame) (index : Nat) : Except Fault (BitVec 64) := f.get .integerRet index

def setIntRet (f : Frame) (index : Nat) (x : BitVec 64) : Except Fault Frame := f.put .integerRet index x

def vectorRet (f : Frame) (index : Nat) : Except Fault Word := f.get .vectorRet index

def setVectorRet (f : Frame) (index : Nat) (w : Word) : Except Fault Frame := f.put .vectorRet index w

def setF64Ret (f : Frame) (bits : BitVec 64) : Except Fault Frame := f.setVectorRet 0 bits

def setF32Ret (f : Frame) (bits : BitVec 32) : Except Fault Frame := f.setVectorRet 0 (bits.setWidth 64)

def slots (f : Frame) : List Storage :=
  StorageClass.all.flatMap fun kind =>
    (List.range (f.layout.slotCount kind)).map fun i => Storage.slot kind i (Convention.slotWidth kind)

end Frame

end ForeignCall
