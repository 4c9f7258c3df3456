import ForeignCall.Downcall
import ForeignCall.Upcall

/-!
# The registry of native functions

A `Registry` stands for the native side of the process: named functions at addresses, and the entry points
of upcalls. Addresses are handed out in order, never twice.

* `Registry.define`, `Registry.lookup`, `Registry.downcallStub`: native functions by name and by address;
* `Registry.addUpcall`, `Registry.upcallFrame`, `Registry.callUpcall`: entry points, and calling through
  them.
-/

namespace ForeignCall

/-- What is behind an entry point: the handler and the frame that it is called with. -/
structure UpcallEntry (τ : Type) where
  handler : UpcallHandler τ
  layout : FrameLayout
  /-- Whether callers pass the address of a result buffer. -/
  isIndirect : Bool
  /-- The bytes of that buffer. -/
  indirectSize : Nat

/-- The functions and entry points of a process. -/
structure Registry (φ τ : Type) where
  functions : List (Word × NativeFunction φ)
  names : List (String × Word)
  upcalls : List (Word × UpcallEntry τ)
  /-- The number of addresses handed out. -/
  count : Nat

namespace Registry

variable {φ τ σ : Type}

def empty : Registry φ τ := ⟨[], [], [], 0⟩

/-- The first address that is handed out. -/
def firstAddress : Nat := 0x7f0000001000

def addressStep : Nat := 0x10

def nextAddress (r : Registry φ τ) : Word := BitVec.ofNat 64 (firstAddress + r.count * addressStep)

/-! ### Native functions -/

/-- A list of pairs without those of a key. -/
def without {κ α : Type} [BEq κ] (key : κ) (entries : List (κ × α)) : List (κ × α) := entries.filter (·.1 != key)

/-- The functions that stay when a name is defined anew. -/
def remaining (r : Registry φ τ) (name : String) : List (Word × NativeFunction φ) :=
  match r.names.lookup name with
  | some old => without old r.functions
  | none => r.functions

/-- Define a function.  It takes the place of an earlier one of the same name, whose address is dead from
then on. -/
def define (r : Registry φ τ) (name : String) (code : φ) : Symbol × Registry φ τ :=
  let address := r.nextAddress
  (⟨name, address⟩,
    { r with
      functions := (address, ⟨name, code⟩) :: r.remaining name
      names := (name, address) :: without name r.names
      count := r.count + 1 })

def lookup (r : Registry φ τ) (name : String) : Except LinkError Symbol :=
  match r.names.lookup name with
  | some address => .ok ⟨name, address⟩
  | none => .error (.unknownSymbol name)

def function? (r : Registry φ τ) (address : Word) : Option (NativeFunction φ) := r.functions.lookup address

/-- The function at the address of a symbol, whatever name the symbol gives it. -/
def downcallStub (r : Registry φ τ) (symbol : Symbol) : Except LinkError (NativeFunction φ) :=
  match r.function? symbol.address with
  | some f => .ok f
  | none => .error (.unknownSymbol symbol.text)

/-! ### Entry points of upcalls -/

def addUpcall (r : Registry φ τ) (e : UpcallEntry τ) : Word × Registry φ τ :=
  let entry := r.nextAddress
  (entry, { r with upcalls := (entry, e) :: r.upcalls, count := r.count + 1 })

def upcallCount (r : Registry φ τ) : Nat := r.upcalls.length

def upcall (r : Registry φ τ) (entry : Word) : Except NativeError (UpcallEntry τ) :=
  match r.upcalls.lookup entry with
  | some e => .ok e
  | none => .error ⟨"no upcall entry at " ++ wordText entry⟩

def upcallFrame (r : Registry φ τ) (entry : Word) : Except (Halt Fault NativeError) Frame :=
  match r.upcall entry with
  | .error e => Halt.fail e
  | .ok e => Halt.ofFault (Frame.new e.layout)

/-- Whether the caller has passed the address of a result buffer where one is due. -/
def hasResultBuffer (e : UpcallEntry τ) : Engine σ Bool := do
  let pointer := e.handler.sequence.indirect.bind fun i => (Program.storages i.pointer).head?
  match if e.isIndirect then pointer else none with
  | some storage => return (← Engine.readStorage storage) != 0
  | none => return true

/-- Call through an entry point, with the arguments in the frame of the machine.  Errors of the call reach
native code as failures of its own. -/
def callUpcall (run : τ → Target σ) (r : Registry φ τ) (entry : Word) : Engine σ (Except NativeError Unit) := do
  match r.upcall entry with
  | .error e => return .error e
  | .ok e =>
    if ← hasResultBuffer e then return (← e.handler.invoke run).mapError fun e => ⟨e.text⟩
    else
      return .error
        ⟨"upcall at " ++ wordText entry ++ " needs a " ++ toString e.indirectSize ++ " byte result buffer"⟩

end Registry

end ForeignCall
