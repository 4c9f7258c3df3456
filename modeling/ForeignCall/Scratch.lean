import ForeignCall.Memory

/-!
# Scratch memory of one call

A call takes its temporary memory from a `Scratch` arena: a list of chunks, of which the latest is filled
from its start.  `Scratch.allocate` hands out zeroed segments; `Scratch.close` gives all chunks back at
once, after which every segment that was handed out is dead.
-/

namespace ForeignCall

/-- A buffer whose first `used` bytes were handed out. -/
structure Chunk where
  base : Nat
  capacity : Nat
  used : Nat
  deriving DecidableEq

namespace Chunk

/-- Scratch chunks start at multiples of this. -/
def alignment : Nat := 16

/-- No chunk is smaller. -/
def minSize : Nat := 256

/-- Hand out `size` bytes at the next aligned address: their offset and the chunk afterwards, or nothing if
they do not fit. -/
def bump? (c : Chunk) (size alignment : Nat) : Except Fault (Option (Nat × Chunk)) := do
  let cursor ← checkedAdd c.base c.used
  let aligned ← alignUp cursor alignment
  let start ← checkedSub aligned c.base
  return if start + size ≤ c.capacity then some (start, { c with used := start + size }) else none

end Chunk

/-- The scratch arena of one call. -/
structure Scratch where
  /-- The chunks, the latest first. -/
  chunks : List Chunk
  isOpen : Bool
  /-- The least size of the first chunk. -/
  firstChunkSize : Nat
  /-- Bytes handed out so far, without the gaps between them. -/
  allocated : Nat
  deriving DecidableEq

namespace Scratch

/-- An open arena that has reserved nothing. -/
def new (firstChunkSize : Nat) : Scratch := ⟨[], true, firstChunkSize, 0⟩

/-- An arena that cannot be used. -/
def closed : Scratch := ⟨[], false, 0, 0⟩

/-- The size of a chunk added for `size` bytes at `alignment`: room for them at any address, and twice the
size of the chunk before. -/
def newChunkSize (s : Scratch) (size alignment : Nat) : Except Fault Nat := do
  let wanted ← checkedAdd size alignment
  match s.chunks with
  | [] => return max (max s.firstChunkSize wanted) Chunk.minSize
  | last :: _ => return max (max (← checkedMul last.capacity 2) wanted) Chunk.minSize

/-- Hand out bytes of the latest chunk: their offset in it and the chunks afterwards. -/
def bumpLatest? (s : Scratch) (size alignment : Nat) : Except Fault (Option (Nat × Chunk × List Chunk)) :=
  match s.chunks with
  | [] => .ok none
  | last :: older => do
    match ← last.bump? size alignment with
    | some (start, chunk) => return some (start, chunk, older)
    | none => return none

/-- The size of the chunk that has to be added before `size` bytes can be handed out. -/
def missingChunk? (s : Scratch) (size alignment : Nat) : Except Fault (Option Nat) := do
  match ← s.bumpLatest? size alignment with
  | some _ => return none
  | none => return some (← s.newChunkSize size alignment)

/-- Record that `size` bytes at `start` of the latest chunk were handed out. -/
def grant (s : Scratch) (size start : Nat) (chunk : Chunk) (older : List Chunk) :
    Except Fault (Segment × Scratch) := do
  let allocated ← checkedAdd s.allocated size
  return (⟨BitVec.ofNat 64 (chunk.base + start), size, .scratch chunk.base⟩,
    { s with chunks := chunk :: older, allocated := allocated })

/-- Zeroed memory that lives until the arena is closed. -/
def allocate (s : Scratch) (m : Memory) (size alignment : Nat) : Except Fault (Segment × Scratch × Memory) := do
  if s.isOpen = false then throw .scratchClosed
  let unit := max alignment 1
  match ← s.bumpLatest? size unit with
  | some (start, chunk, older) =>
    let (segment, s) ← s.grant size start chunk older
    return (segment, s, m)
  | none =>
    let capacity ← s.newChunkSize size unit
    let (base, m) ← m.reserve capacity Chunk.alignment
    let some (start, chunk) ← Chunk.bump? ⟨base, Memory.bufferCapacity capacity, 0⟩ size unit
      | throw .chunkTooSmall
    let (segment, s) ← s.grant size start chunk s.chunks
    return (segment, s, m)

/-- Give all chunks back.  A closed arena stays as it is. -/
def close (s : Scratch) (m : Memory) : Scratch × Memory :=
  if s.isOpen then ({ s with chunks := [], isOpen := false }, m.release (s.chunks.map Chunk.base)) else (s, m)

end Scratch

end ForeignCall
