import ForeignCall.Arrangement.Basic

/-!
# The AArch64 AAPCS64 convention

Up to four floating-point members of one kind travel in vector registers of their own.  Any other aggregate
of at most 16 bytes travels in integer registers, a larger one as the address of a private copy.  An
aggregate that does not fit into the registers left goes to the stack and leaves no register of its class
free.
-/

namespace ForeignCall.AArch64

/-- Aggregates with more members are not homogeneous. -/
def maxHomogeneousMembers : Nat := 4

/-- The kind and the leaves of a homogeneous floating-point aggregate: up to four members of one kind,
without gaps. -/
def homogeneous? (l : Layout) : Arranging (Option (Primitive × List ScalarField)) := do
  match ← l.scalars with
  | [] => return none
  | first :: rest =>
    let fields := first :: rest
    if first.kind.isFloat && fields.length ≤ maxHomogeneousMembers && fields.all fun f => f.kind == first.kind then
      let bytes ← checkedMul fields.length first.kind.byteSize
      let size ← l.byteSize
      return if bytes = size then some (first.kind, fields) else none
    else return none

/-- One vector register for each leaf, of which there are enough. -/
def vectorPieces (kind : Primitive) (c : Cursor) : List ScalarField → Arranging (List Piece × Cursor)
  | [] => return ([], c)
  | field :: fields => do
    match ← c.vector? with
    | (some storage, c) =>
      let (pieces, c) ← vectorPieces kind c fields
      return (⟨field.offset, kind, storage⟩ :: pieces, c)
    | (none, c) => return ([], c)

def placeAggregate (l : Layout) (c : Cursor) : Arranging (Placement × Cursor) := do
  checkNotEmpty l
  match ← homogeneous? l with
  | some (kind, fields) =>
    let (pieces, c) ←
      if fields.length ≤ c.freeVectors then vectorPieces kind c fields else stackPieces l c.exhaustVectors
    return (.pieces pieces, c)
  | none =>
    let size ← l.byteSize
    if maxRegisterAggregate < size then
      let (storage, c) ← c.integer
      return (.reference storage, c)
    else
      let (pieces, c) ←
        if (size + 7) / 8 ≤ c.freeIntegers then integerPieces l c else stackPieces l c.exhaustIntegers
      return (.pieces pieces, c)

def place (l : Layout) (c : Cursor) : Arranging (Placement × Cursor) := do
  match l with
  | .value kind =>
    let (storage, c) ← c.scalar kind
    return (.whole storage, c)
  | .address =>
    let (storage, c) ← c.integer
    return (.whole storage, c)
  | _ => placeAggregate l c

/-- The pieces of a homogeneous result: the `i`-th leaf in the `i`-th vector register from `index` on. -/
def vectorResultPieces (kind : Primitive) (index : Nat) : List ScalarField → Arranging (List Piece)
  | [] => return []
  | field :: fields => do
    let storage ← Convention.aarch64.storage .vectorRet index
    return ⟨field.offset, kind, storage⟩ :: (← vectorResultPieces kind (index + 1) fields)

/-- The storages of a result in registers; nothing if it is returned in memory. -/
def placeResult? (l : Layout) : Arranging (Option Placement) := do
  let c := Cursor.results .aarch64
  match l with
  | .value kind =>
    let (storage, _) ← c.scalar kind
    return some (.whole storage)
  | .address => return some (.whole (← Convention.aarch64.storage .integerRet 0))
  | _ =>
    checkNotEmpty l
    match ← homogeneous? l with
    | some (kind, fields) => return some (.pieces (← vectorResultPieces kind 0 fields))
    | none =>
      if maxRegisterAggregate < (← l.byteSize) then return none
      else
        let (pieces, _) ← integerPieces l c
        return some (.pieces pieces)

/-- The address of an in-memory result has a register of its own. -/
def resultPointer (c : Cursor) : Arranging (Storage × Cursor) :=
  match Convention.aarch64.indirectResult? with
  | some storage => return (storage, c)
  | none => refuse (.noResultRegister .aarch64)

end ForeignCall.AArch64
