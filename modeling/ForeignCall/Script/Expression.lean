import ForeignCall.FrameSlot
import ForeignCall.Script.Region

/-!
# Expressions of scripts

Scripts describe native functions and managed targets as data.

* `Place`: an address, given as a number or by name;
* `Expression`: words computed from constants, memory, the frame of a native function, or the arguments of a
  target;
* `Recipe`: a value, which may be a fresh segment with given contents.
-/

namespace ForeignCall

/-- The names that a script can use: regions of memory, segments, and the entry points of upcalls. -/
structure Names where
  regions : Regions
  segments : List (String × Segment)
  entries : List (String × Word)

namespace Names

def empty : Names := ⟨[], [], []⟩

def addRegion (names : Names) (name : String) (s : Segment) : Names :=
  { names with regions := names.regions.name name s }

def addSegment (names : Names) (name : String) (s : Segment) : Names :=
  { names with segments := (name, s) :: names.segments }

def addEntry (names : Names) (name : String) (entry : Word) : Names :=
  { names with entries := (name, entry) :: names.entries }

end Names

/-- An address. -/
inductive Place where
  | absolute (a : Word)
  /-- Bytes past the start of a region. -/
  | inRegion (name : String) (offset : Nat)
  /-- The entry point of an upcall. -/
  | entry (name : String)
  deriving DecidableEq

/-- The address of a place; an unknown name stands for the null address. -/
def Place.address (names : Names) : Place → Word
  | .absolute a => a
  | .inRegion name offset => ((names.regions.address? name).getD 0) + BitVec.ofNat 64 offset
  | .entry name => (names.entries.lookup name).getD 0

/-- Words that wrap around at 64 bits. -/
inductive Expression where
  | place (p : Place)
  | add (a b : Expression)
  | mul (a b : Expression)
  | xor (a b : Expression)
  | rotateLeft (a : Expression) (count : Nat)
  /-- The slot encoding of a field in memory. -/
  | load (kind : Primitive) (base : Expression) (offset : Nat)
  /-- A slot of the frame. -/
  | slot (s : FrameSlot)
  /-- The slot encoding of an argument, or its address. -/
  | argument (index : Nat)
  /-- The slot encoding of a field of a segment argument. -/
  | argumentField (index : Nat) (kind : Primitive) (offset : Nat)
  deriving DecidableEq

/-- The foreign memory from `a` on that ends with a field. -/
def fieldView (a : Word) (kind : Primitive) (offset : Nat) : Segment := Segment.global a (offset + kind.byteSize)

def argumentAt (args : List Value) (index : Nat) : Except Fault Value :=
  match args[index]? with
  | some v => .ok v
  | none => .error (.outsideWords args.length index)

def segmentAt (args : List Value) (index : Nat) : Except Fault Segment := do
  match ← argumentAt args index with
  | .segment s => return s
  | found => throw (.wrongFilterOperand .segment found)

namespace Expression

variable {σ : Type}

def eval (names : Names) (args : List Value) : Expression → Engine σ Word
  | .place p => return p.address names
  | .add a b => return (← eval names args a) + (← eval names args b)
  | .mul a b => return (← eval names args a) * (← eval names args b)
  | .xor a b => return (← eval names args a) ^^^ (← eval names args b)
  | .rotateLeft a count => return (← eval names args a).rotateLeft count
  | .load kind base offset => do
    let a ← eval names args base
    (← Engine.getField (fieldView a kind offset) kind offset).slotBits
  | .slot s => Engine.readSlot s
  | .argument index => do
    match ← argumentAt args index with
    | .address a => return a
    | v => v.slotBits
  | .argumentField index kind offset => do
    (← Engine.getField (← segmentAt args index) kind offset).slotBits

end Expression

/-- Slots that are set to the words of expressions. -/
abbrev SlotValues := List (FrameSlot × Expression)

/-- Fill slots of a frame in order.  The expressions see the frame of the machine. -/
def fillSlots {σ : Type} (names : Names) (frame : Frame) : SlotValues → Engine σ Frame
  | [] => return frame
  | (s, e) :: rest => do
    let w ← e.eval names []
    fillSlots names (← frame.writeSlot s w) rest

def setSlots {σ : Type} (names : Names) : SlotValues → Engine σ Unit
  | [] => return ()
  | (s, e) :: rest => do
    Engine.writeSlot s (← e.eval names [])
    setSlots names rest

/-! ### Values -/

/-- A value that needs no fresh memory. -/
inductive Datum where
  | plain (v : Value)
  | address (p : Place)
  | segment (name : String)

/-- The value of a datum; an unknown segment stands for `void`. -/
def Datum.value (names : Names) : Datum → Value
  | .plain v => v
  | .address p => .address (p.address names)
  | .segment name =>
    match names.segments.lookup name with
    | some s => .segment s
    | none => .void

/-- A value, with the contents of its memory if that is fresh. -/
inductive Recipe where
  | datum (d : Datum)
  | bytes (contents : List Byte) (alignment : Nat)
  | fields (size alignment : Nat) (contents : List (Nat × Datum))

/-- Write values at offsets of a segment, in order. -/
def setFields {σ : Type} (s : Segment) : List (Nat × Value) → Engine σ Unit
  | [] => return ()
  | (offset, v) :: rest => do
    Engine.setField s offset v
    setFields s rest

def Recipe.make {σ : Type} (names : Names) : Recipe → Engine σ Value
  | .datum d => return d.value names
  | .bytes contents alignment => do
    let s ← Engine.allocateOwned contents.length alignment
    setFields s (contents.zipIdx.map fun (b, i) => (i, .i8 b))
    return .segment s
  | .fields size alignment contents => do
    let s ← Engine.allocateOwned size alignment
    setFields s (contents.map fun (offset, d) => (offset, d.value names))
    return .segment s

def Recipe.makeAll {σ : Type} (names : Names) : List Recipe → Engine σ (List Value)
  | [] => return []
  | r :: rest => do
    let v ← r.make names
    return v :: (← makeAll names rest)

end ForeignCall
