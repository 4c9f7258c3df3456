import ForeignCall.Fault

/-!
# Calling conventions

A `Convention` tells which slots of each class exist, how wide they are and what they are called, and how an
in-memory result is passed.  The stack has as many slots as a call needs.  `isDirect` and
`Convention.maxDirectArguments` bound the calls that can be compiled into direct moves.
-/

namespace ForeignCall

/-- The supported calling conventions. -/
inductive Convention where
  | sysV
  | aarch64
  deriving DecidableEq

namespace Convention

def text : Convention → String
  | .sysV => "x86_64-sysv"
  | .aarch64 => "aarch64-aapcs64"

/-- The registers of a class in order; the stack has none. -/
def registers : Convention → StorageClass → List String
  | .sysV, .integerArg => ["rdi", "rsi", "rdx", "rcx", "r8", "r9"]
  | .sysV, .vectorArg => ["xmm0", "xmm1", "xmm2", "xmm3", "xmm4", "xmm5", "xmm6", "xmm7"]
  | .sysV, .indirectResult => []
  | .sysV, .integerRet => ["rax", "rdx"]
  | .sysV, .vectorRet => ["xmm0", "xmm1"]
  | .sysV, .x87Ret => ["st0", "st1"]
  | .aarch64, .integerArg => ["x0", "x1", "x2", "x3", "x4", "x5", "x6", "x7"]
  | .aarch64, .vectorArg => ["v0", "v1", "v2", "v3", "v4", "v5", "v6", "v7"]
  | .aarch64, .indirectResult => ["x8"]
  | .aarch64, .integerRet => ["x0", "x1"]
  | .aarch64, .vectorRet => ["v0", "v1", "v2", "v3"]
  | .aarch64, .x87Ret => []
  | _, .stack => []

def slotCount (c : Convention) (kind : StorageClass) : Nat := (c.registers kind).length

theorem slotCount_le (c : Convention) (kind : StorageClass) : c.slotCount kind ≤ 8 := by
  cases c <;> cases kind <;> decide

def slotWidth : StorageClass → Nat
  | .x87Ret => 16
  | _ => 8

/-- The storage of a class at an index.  Any number of stack slots exists. -/
def storage (c : Convention) (kind : StorageClass) (index : Nat) : Except Fault Storage :=
  if kind = .stack ∨ index < c.slotCount kind then .ok (Storage.slot kind index (slotWidth kind))
  else .error (.noSuchSlot c.text kind index)

theorem storage_eq_ok {c : Convention} {kind : StorageClass} {index : Nat} {s : Storage}
    (h : c.storage kind index = .ok s) :
    s = Storage.slot kind index (slotWidth kind) ∧ (kind ≠ .stack → index < c.slotCount kind) := by
  unfold storage at h
  split at h
  · next hexists => exact ⟨(Except.ok.inj h).symm, hexists.resolve_left⟩
  · cases h

def stackSlot (index : Nat) : Storage := Storage.slot .stack index (slotWidth .stack)

/-- The dedicated register for the address of an in-memory result. -/
def indirectResult? (c : Convention) : Option Storage :=
  if 0 < c.slotCount .indirectResult then some (Storage.slot .indirectResult 0 (slotWidth .indirectResult))
  else none

/-- Whether the callee hands the address of an in-memory result back in the first integer result register. -/
def returnsResultAddress : Convention → Bool
  | .sysV => true
  | .aarch64 => false

/-- The register of a storage, `stack[n]` for a stack slot, or the storage itself where there is no register. -/
def registerName (c : Convention) (s : Storage) : String :=
  match s.kind with
  | .stack => "stack[" ++ toString s.index.toNat ++ "]"
  | .indirectResult => (c.registers .indirectResult).headD "imr"
  | kind => (c.registers kind).getD s.index.toNat s.text

/-- The most arguments of a call that is compiled into direct moves.  An upcall keeps one integer register
for its target. -/
def maxDirectArguments (c : Convention) : Direction → Nat
  | .downcall => c.slotCount .integerArg
  | .upcall => c.slotCount .integerArg - 1

end Convention

/-- The width of a vector slot that takes part in a direct call. -/
def directVectorWidth : Nat := 8

/-- Whether a value of `size` bytes that is bound through the storage can be moved directly. -/
def Storage.isDirect (s : Storage) (size : Nat) : Bool :=
  match s.kind with
  | .stack | .indirectResult | .x87Ret => false
  | .vectorArg | .vectorRet => s.byteSize == directVectorWidth && size ≤ directVectorWidth
  | .integerArg | .integerRet => size ≤ s.byteSize

end ForeignCall
