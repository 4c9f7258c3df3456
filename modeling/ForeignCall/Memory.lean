import ForeignCall.Fault

/-!
# Memory and segments

* `Memory`: the bytes at every address, the first address that no allocation has reached, and the scratch
  chunks that were given back.  Addresses are never handed out twice;
* `Memory.load`, `Memory.store`, `Memory.field`, `Memory.copy`: little-endian numbers, scalars and ranges of
  bytes;
* `Memory.reserve`: fresh zeroed memory;
* `Segment.get`, `Segment.set`, `Segment.copyFrom`, `Segment.take`, `Segment.bytes`, `Segment.toOwned`:
  access through a bounded view.  Each first checks that the segment is alive and the range lies inside it,
  and faults without any effect otherwise.
-/

namespace ForeignCall

/-- The bytes of the address space and the state of its allocation. -/
structure Memory where
  bytes : Nat → Byte
  /-- The first address that no allocation has reached. -/
  top : Nat
  /-- The bases of the scratch chunks that were given back. -/
  released : List Nat

namespace Memory

/-- Allocation starts here. -/
def firstAddress : Nat := 0x555500000000

/-- Allocation stays below this address. -/
def addressLimit : Nat := 0x7f0000000000

def empty : Memory := ⟨fun _ => 0, firstAddress, []⟩

/-- The little-endian number in the `n` bytes from `a` on. -/
def load (m : Memory) (a : Nat) : Nat → Nat
  | 0 => 0
  | n + 1 => (m.bytes a).toNat + 256 * load m (a + 1) n

/-- The scalar of a kind that starts at `a`. -/
def field (m : Memory) (kind : Primitive) (a : Nat) : Value :=
  match kind with
  | .bool => .bool (m.bytes a != 0)
  | .i8 => .i8 (m.bytes a)
  | .i16 => .i16 (BitVec.ofNat 16 (m.load a 2))
  | .char => .char (BitVec.ofNat 16 (m.load a 2))
  | .i32 => .i32 (BitVec.ofNat 32 (m.load a 4))
  | .i64 => .i64 (BitVec.ofNat 64 (m.load a 8))
  | .f32 => .f32 (BitVec.ofNat 32 (m.load a 4))
  | .f64 => .f64 (BitVec.ofNat 64 (m.load a 8))

/-- The `n` bytes from `a` on. -/
def range (m : Memory) (a n : Nat) : List Byte := (List.range n).map fun i => m.bytes (a + i)

/-- Write the low `n` bytes of a number, little-endian, from `a` on. -/
def store (m : Memory) (a n value : Nat) : Memory :=
  { m with bytes := fun b =>
      if a ≤ b ∧ b < a + n then BitVec.ofNat 8 (value >>> (8 * (b - a))) else m.bytes b }

/-- Write the `n` bytes from `source` on to `target`; the ranges may overlap. -/
def copy (m : Memory) (target source n : Nat) : Memory :=
  { m with bytes := fun b =>
      if target ≤ b ∧ b < target + n then m.bytes (source + (b - target)) else m.bytes b }

/-- Clear the `n` bytes from `a` on. -/
def clear (m : Memory) (a n : Nat) : Memory :=
  { m with bytes := fun b => if a ≤ b ∧ b < a + n then 0 else m.bytes b }

/-- The largest size of one buffer, two to the power of 63. -/
def maxBufferSize : Nat := 0x8000000000000000

/-- The number of bytes reserved for a buffer of the given size: no buffer is empty. -/
def bufferCapacity (size : Nat) : Nat := max size 1

/-- A fresh zeroed buffer: its address, a multiple of the alignment, and the memory that holds it.  The
alignment has to be a power of two, and the size rounded up to it has to be below `maxBufferSize`.  The byte
after the buffer stays free, so that the end of one buffer is never the start of another. -/
def reserve (m : Memory) (size alignment : Nat) : Except Fault (Nat × Memory) :=
  let capacity := bufferCapacity size
  let unit := max alignment 1
  if unit &&& (unit - 1) ≠ 0 ∨ maxBufferSize < capacity + unit then .error (.invalidBuffer size alignment)
  else
    let base := (m.top + unit - 1) / unit * unit
    if base + capacity ≤ addressLimit then
      .ok (base, { m.clear base capacity with top := base + capacity + 1 })
    else .error (.outOfMemory capacity)

def release (m : Memory) (chunks : List Nat) : Memory := { m with released := chunks ++ m.released }

end Memory

/-- The address `n` bytes further on. -/
def advance (a : Word) (n : Nat) : Except Overflow Word := return BitVec.ofNat 64 (← checkedAdd a.toNat n)

namespace Segment

/-- A view of foreign memory. -/
def global (address : Word) (length : Nat) : Segment := ⟨address, length, .global⟩

/-- Fresh zeroed memory that lives as long as the segment. -/
def allocate (m : Memory) (size alignment : Nat) : Except Fault (Segment × Memory) := do
  let (base, m) ← m.reserve size alignment
  return (⟨BitVec.ofNat 64 base, size, .owned⟩, m)

/-- Scratch memory dies with its chunk; all other memory stays. -/
def isAlive (s : Segment) (m : Memory) : Bool :=
  match s.scope with
  | .scratch chunk => !m.released.contains chunk
  | .global | .owned => true

/-- An access to `size` bytes at `offset` needs a segment that is alive and holds them. -/
def check (s : Segment) (m : Memory) (offset size : Nat) : Except Fault Unit :=
  if s.isAlive m = false then .error (.scopeClosed s.address)
  else if s.length < offset + size then .error (.outsideSegment size offset s.length)
  else .ok ()

/-- The address of the byte at `offset`. -/
def position (s : Segment) (offset : Nat) : Except Fault Nat := return (← advance s.address offset).toNat

/-- The field of the given kind at `offset`. -/
def get (s : Segment) (m : Memory) (kind : Primitive) (offset : Nat) : Except Fault Value := do
  s.check m offset kind.byteSize
  return m.field kind (← s.position offset)

/-- The bytes of a scalar in memory, as a little-endian number. -/
def fieldBits : Value → Nat
  | .bool b => if b then 1 else 0
  | .i8 x => x.toNat
  | .i16 x | .char x => x.toNat
  | .i32 x | .f32 x => x.toNat
  | .i64 x | .f64 x => x.toNat
  | .address _ | .segment _ | .void => 0

/-- Write a scalar at `offset`. -/
def set (s : Segment) (m : Memory) (offset : Nat) (v : Value) : Except Fault Memory := do
  let some kind := v.primitive? | throw (.notStorable v)
  s.check m offset kind.byteSize
  let a ← s.position offset
  return m.store a kind.byteSize (fieldBits v)

/-- Copy all of `other` to the start of the segment. -/
def copyFrom (s : Segment) (m : Memory) (other : Segment) : Except Fault Memory := do
  other.check m 0 other.length
  s.check m 0 other.length
  return m.copy s.address.toNat other.address.toNat other.length

/-- The view of the first `length` bytes. -/
def take (s : Segment) (m : Memory) (length : Nat) : Except Fault Segment := do
  s.check m 0 length
  return { s with length := length }

def bytes (s : Segment) (m : Memory) : Except Fault (List Byte) := do
  s.check m 0 s.length
  return m.range s.address.toNat s.length

/-- The alignment of memory that a segment is copied to. -/
def ownedAlignment : Nat := 16

def toOwned (s : Segment) (m : Memory) : Except Fault (Segment × Memory) := do
  let (copy, m) ← allocate m s.length ownedAlignment
  let m ← copy.copyFrom m s
  return (copy, m)

end Segment

end ForeignCall
