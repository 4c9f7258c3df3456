/-!
# Storages: where the pieces of a call travel

A `Storage` names one slot of a calling convention: its class, its index within the class and its width.
Two storages denote the same place iff class and index agree (`Storage.sameLocation`).
-/

namespace ForeignCall

/-- The classes of slots: argument registers, the stack, the register of an in-memory result, and
result registers. -/
inductive StorageClass where
  | integerArg | vectorArg | stack | indirectResult | integerRet | vectorRet | x87Ret
  deriving DecidableEq

namespace StorageClass

/-- Every class, in the order in which frames lay them out. -/
def all : List StorageClass :=
  [.integerArg, .vectorArg, .stack, .indirectResult, .integerRet, .vectorRet, .x87Ret]

/-- The place of a class in `all`. -/
def index : StorageClass → Nat
  | .integerArg => 0 | .vectorArg => 1 | .stack => 2 | .indirectResult => 3
  | .integerRet => 4 | .vectorRet => 5 | .x87Ret => 6

/-- Whether the caller fills the slots of the class. -/
def isArgument : StorageClass → Bool
  | .integerArg | .vectorArg | .stack | .indirectResult => true
  | .integerRet | .vectorRet | .x87Ret => false

/-- Whether the callee fills the slots of the class. -/
def isReturn (c : StorageClass) : Bool := !c.isArgument

def isInteger : StorageClass → Bool
  | .integerArg | .integerRet => true
  | _ => false

def isVector : StorageClass → Bool
  | .vectorArg | .vectorRet => true
  | _ => false

def text : StorageClass → String
  | .integerArg => "int_arg" | .vectorArg => "vec_arg" | .stack => "stack" | .indirectResult => "imr"
  | .integerRet => "int_ret" | .vectorRet => "vec_ret" | .x87Ret => "x87_ret"

end StorageClass

/-- One slot: class, index within the class and width in bytes.  Index and width are 16-bit numbers. -/
structure Storage where
  kind : StorageClass
  index : BitVec 16
  width : BitVec 16
  deriving DecidableEq

namespace Storage

/-- The slot of a class at an index, both reduced to the range of a storage. -/
def slot (kind : StorageClass) (index width : Nat) : Storage :=
  ⟨kind, BitVec.ofNat 16 index, BitVec.ofNat 16 width⟩

def byteSize (s : Storage) : Nat := s.width.toNat

/-- Two storages that name the same slot, whatever width they give it. -/
def sameLocation (a b : Storage) : Bool := a.kind == b.kind && a.index == b.index

/-- Storages are ordered by class, then index, then width. -/
def le (a b : Storage) : Bool :=
  if a.kind.index ≠ b.kind.index then a.kind.index < b.kind.index
  else if a.index ≠ b.index then a.index.toNat < b.index.toNat
  else a.width.toNat ≤ b.width.toNat

def sort (storages : List Storage) : List Storage := storages.mergeSort le

/-- A list without repetitions of neighbours. -/
def dropRepeats : List Storage → List Storage
  | [] => []
  | [s] => [s]
  | s :: t :: rest => if s = t then dropRepeats (t :: rest) else s :: dropRepeats (t :: rest)

/-- The set of the storages of a list, in order. -/
def sortedSet (storages : List Storage) : List Storage := dropRepeats (sort storages)

def text (s : Storage) : String := s.kind.text ++ "#" ++ toString s.index.toNat

/-! ### Laws -/

theorem sameLocation_eq_true {a b : Storage} : a.sameLocation b = true ↔ a.kind = b.kind ∧ a.index = b.index := by
  simp [sameLocation]

theorem toNat_index_slot {kind : StorageClass} {index width : Nat} (h : index < 65536) :
    (slot kind index width).index.toNat = index := by
  rw [slot, BitVec.toNat_ofNat]
  exact Nat.mod_eq_of_lt h

theorem mem_dropRepeats {s : Storage} : ∀ {storages : List Storage}, s ∈ dropRepeats storages ↔ s ∈ storages
  | [] => Iff.rfl
  | [t] => Iff.rfl
  | t :: u :: rest => by
    have ih := @mem_dropRepeats s (u :: rest)
    rw [dropRepeats]
    split
    · next h =>
      rw [ih, h]
      simp
    · rw [List.mem_cons, ih, List.mem_cons (b := t)]

theorem mem_sortedSet {s : Storage} {storages : List Storage} : s ∈ sortedSet storages ↔ s ∈ storages := by
  rw [sortedSet, mem_dropRepeats, sort, List.mem_mergeSort]

end Storage

end ForeignCall
