import ForeignCall.Arrangement.Basic

/-!
# The x86-64 System V convention

An aggregate of at most 16 bytes is cut into eightbytes.  An eightbyte that holds floating-point numbers
only travels in a vector register, any other in an integer register; if there are not enough registers for
all of them, the aggregate goes to the stack and uses none.  Larger aggregates go to the stack, and as
results to memory.
-/

namespace ForeignCall.SysV

/-- How an eightbyte travels. -/
inductive EightbyteClass where
  | integer
  | sse
  deriving DecidableEq

/-- Eightbytes with floating-point numbers only, and at least one, travel in vector registers. -/
def classOf (fields : List ScalarField) (offset : Nat) : EightbyteClass :=
  let inside := fields.filter fun f => offset ≤ f.offset && f.offset < offset + 8
  if !inside.isEmpty && inside.all fun f => f.kind.isFloat then .sse else .integer

/-- The eightbytes of an aggregate with their offsets, sizes and classes; nothing if it travels in memory. -/
def classify (l : Layout) : Arranging (Option (List (Nat × Nat × EightbyteClass))) := do
  checkNotEmpty l
  let size ← l.byteSize
  if maxRegisterAggregate < size then return none
  else
    let fields ← l.scalars
    if fields.any fun f => f.offset % f.kind.byteSize ≠ 0 then return none
    else return some ((eightbytes size).map fun (offset, size) => (offset, size, classOf fields offset))

def pieceKind (l : Layout) (size : Nat) : EightbyteClass → Arranging Primitive
  | .integer => integerKind l size
  | .sse => floatKind l size

def register? (c : Cursor) : EightbyteClass → Arranging (Option Storage × Cursor)
  | .integer => c.integer?
  | .sse => c.vector?

/-- Eightbytes in registers, of which there are enough. -/
def registerPieces (l : Layout) (c : Cursor) :
    List (Nat × Nat × EightbyteClass) → Arranging (List Piece × Cursor)
  | [] => return ([], c)
  | (offset, size, kind) :: rest => do
    let (storage?, c) ← register? c kind
    let moved ← pieceKind l size kind
    let some storage := storage? | throw (.fault .unreachable)
    let (pieces, c) ← registerPieces l c rest
    return (⟨offset, moved, storage⟩ :: pieces, c)

def argumentPieces (l : Layout) (c : Cursor) : Arranging (List Piece × Cursor) := do
  match ← classify l with
  | some classes =>
    let integers := (classes.filter fun e => e.2.2 == .integer).length
    let vectors := classes.length - integers
    if integers ≤ c.freeIntegers ∧ vectors ≤ c.freeVectors then registerPieces l c classes
    else stackPieces l c
  | none => stackPieces l c

def place (l : Layout) (c : Cursor) : Arranging (Placement × Cursor) := do
  match l with
  | .value kind =>
    let (storage, c) ← c.scalar kind
    return (.whole storage, c)
  | .address =>
    let (storage, c) ← c.integer
    return (.whole storage, c)
  | _ =>
    let (pieces, c) ← argumentPieces l c
    return (.pieces pieces, c)

/-- The storages of a result in registers; nothing if it is returned in memory. -/
def placeResult? (l : Layout) : Arranging (Option Placement) := do
  let c := Cursor.results .sysV
  match l with
  | .value kind =>
    let (storage, _) ← c.scalar kind
    return some (.whole storage)
  | .address => return some (.whole (← Convention.sysV.storage .integerRet 0))
  | _ =>
    match ← classify l with
    | none => return none
    | some classes =>
      let (pieces, _) ← registerPieces l c classes
      return some (.pieces pieces)

/-- The address of an in-memory result takes the first integer register. -/
def resultPointer (c : Cursor) : Arranging (Storage × Cursor) := do
  let (some storage, c) ← c.integer? | throw (.fault .unreachable)
  return (storage, c)

end ForeignCall.SysV
