import ForeignCall.CallError

/-!
# Arranging a call

The steps that both conventions share when they assign storages to the pieces of a call:

* `Cursor`: the registers and stack slots of one side that are still free;
* `Piece`: a scalar part of an aggregate and the storage that carries it;
* `Placement`: the storages that carry a value, and `Placement.program`: the program that moves it, in
  either direction.
-/

namespace ForeignCall

/-- A computation that assigns storages: it can fault, and refuse a layout. -/
abbrev Arranging := Except (Halt Fault LinkError)

def refuse {α : Type} (cause : Unsupported) : Arranging α := Halt.fail (.unsupported cause)

/-! ### Free storages -/

/-- How many integer registers, vector registers and stack slots of one side have been given out. -/
structure Cursor where
  convention : Convention
  integerClass : StorageClass
  vectorClass : StorageClass
  integers : Nat
  vectors : Nat
  stack : Nat

namespace Cursor

def arguments (c : Convention) : Cursor := ⟨c, .integerArg, .vectorArg, 0, 0, 0⟩

def results (c : Convention) : Cursor := ⟨c, .integerRet, .vectorRet, 0, 0, 0⟩

def freeIntegers (c : Cursor) : Nat := c.convention.slotCount c.integerClass - c.integers

def freeVectors (c : Cursor) : Nat := c.convention.slotCount c.vectorClass - c.vectors

/-- The next integer register, if one is left. -/
def integer? (c : Cursor) : Arranging (Option Storage × Cursor) := do
  if 0 < c.freeIntegers then
    return (some (← c.convention.storage c.integerClass c.integers), { c with integers := c.integers + 1 })
  else return (none, c)

/-- The next vector register, if one is left. -/
def vector? (c : Cursor) : Arranging (Option Storage × Cursor) := do
  if 0 < c.freeVectors then
    return (some (← c.convention.storage c.vectorClass c.vectors), { c with vectors := c.vectors + 1 })
  else return (none, c)

def stackSlot (c : Cursor) : Storage × Cursor :=
  (Convention.stackSlot c.stack, { c with stack := c.stack + 1 })

/-- Leave no integer register free. -/
def exhaustIntegers (c : Cursor) : Cursor := { c with integers := c.convention.slotCount c.integerClass }

/-- Leave no vector register free. -/
def exhaustVectors (c : Cursor) : Cursor := { c with vectors := c.convention.slotCount c.vectorClass }

/-- A register that may be missing, or else the next stack slot. -/
def orStack : Option Storage × Cursor → Storage × Cursor
  | (some s, c) => (s, c)
  | (none, c) => c.stackSlot

def integer (c : Cursor) : Arranging (Storage × Cursor) := return orStack (← c.integer?)

/-- The register for a scalar of a kind, or else the next stack slot. -/
def scalar (c : Cursor) (kind : Primitive) : Arranging (Storage × Cursor) := do
  if kind.isFloat then return orStack (← c.vector?) else c.integer

end Cursor

/-! ### Pieces of aggregates -/

/-- A scalar part of an aggregate and the storage that carries it. -/
structure Piece where
  offset : Nat
  kind : Primitive
  storage : Storage
  deriving DecidableEq

/-- The offsets and sizes of the 8-byte pieces of `size` bytes; the last one may be shorter. -/
def eightbytes (size : Nat) : List (Nat × Nat) :=
  (List.range ((size + 7) / 8)).map fun i => (i * 8, min (size - i * 8) 8)

def integerKind (l : Layout) (size : Nat) : Arranging Primitive :=
  match Primitive.integralOfSize? size with
  | some kind => .ok kind
  | none => refuse (.integerPiece l size)

def floatKind (l : Layout) (size : Nat) : Arranging Primitive :=
  match Primitive.floatOfSize? size with
  | some kind => .ok kind
  | none => refuse (.floatPiece l size)

/-- Pieces in consecutive stack slots. -/
def stackPiecesFrom (l : Layout) (c : Cursor) : List (Nat × Nat) → Arranging (List Piece × Cursor)
  | [] => return ([], c)
  | (offset, size) :: rest => do
    let kind ← integerKind l size
    let (storage, c) := c.stackSlot
    let (pieces, c) ← stackPiecesFrom l c rest
    return (⟨offset, kind, storage⟩ :: pieces, c)

/-- An aggregate in consecutive stack slots. -/
def stackPieces (l : Layout) (c : Cursor) : Arranging (List Piece × Cursor) := do
  stackPiecesFrom l c (eightbytes (← l.byteSize))

/-- Pieces in consecutive integer registers, of which there are enough. -/
def integerPiecesFrom (l : Layout) (c : Cursor) : List (Nat × Nat) → Arranging (List Piece × Cursor)
  | [] => return ([], c)
  | (offset, size) :: rest => do
    let kind ← integerKind l size
    let (some storage, c) ← c.integer? | throw (.fault .unreachable)
    let (pieces, c) ← integerPiecesFrom l c rest
    return (⟨offset, kind, storage⟩ :: pieces, c)

/-- An aggregate in consecutive integer registers, of which there are enough. -/
def integerPieces (l : Layout) (c : Cursor) : Arranging (List Piece × Cursor) := do
  integerPiecesFrom l c (eightbytes (← l.byteSize))

/-- An aggregate without bytes cannot be passed. -/
def checkNotEmpty (l : Layout) : Arranging Unit := do
  if (← l.byteSize) = 0 then refuse (.emptyAggregate l) else return ()

/-- Aggregates of more bytes do not travel in registers, with the exception of short arrays of floating-point
numbers. -/
def maxRegisterAggregate : Nat := 16

/-! ### Programs -/

def scalarProgram (l : Layout) (s : Storage) (unboxes : Bool) : Program :=
  match l with
  | .value kind => [.move s kind]
  | _ => if unboxes then [.boxAddress, .move s .i64] else [.move s .i64, .boxAddress]

/-- Take pieces out of a segment; the last piece consumes it. -/
def takeApart : List Piece → Program
  | [] => []
  | [p] => [.field p.offset p.kind, .move p.storage p.kind]
  | p :: ps => .dup :: .field p.offset p.kind :: .move p.storage p.kind :: takeApart ps

/-- Write pieces into a segment. -/
def putTogether (pieces : List Piece) : Program :=
  pieces.flatMap fun p => [.move p.storage p.kind, .field p.offset p.kind]

def aggregateProgram (l : Layout) (pieces : List Piece) (unboxes : Bool) : Except Overflow Program := do
  if unboxes then return takeApart pieces
  else return (← Step.allocateFor l) :: putTogether pieces

/-- An aggregate that is passed as the address of a private copy. -/
def referenceProgram (l : Layout) (s : Storage) (unboxes : Bool) : Except Overflow Program := do
  let copy ← Step.copyOf l
  return if unboxes then [copy, .baseAddress, .boxAddress, .move s .i64] else [.move s .i64, .boxAddress, copy]

/-- How storages carry a value: a scalar or an address in one, an aggregate in pieces, or an aggregate as
the address of a private copy. -/
inductive Placement where
  | whole (storage : Storage)
  | pieces (pieces : List Piece)
  | reference (storage : Storage)
  deriving DecidableEq

namespace Placement

/-- The storages of a placement, in order. -/
def storages : Placement → List Storage
  | .whole s | .reference s => [s]
  | .pieces ps => ps.map Piece.storage

/-- The program that moves a value of the layout to or from its storages. -/
def program (l : Layout) (unboxes : Bool) : Placement → Except Overflow Program
  | .whole s => return scalarProgram l s unboxes
  | .pieces ps => aggregateProgram l ps unboxes
  | .reference s => referenceProgram l s unboxes

end Placement

end ForeignCall
