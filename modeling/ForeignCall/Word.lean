/-!
# Machine words and checked sizes

* `Word` and `Byte`: the units of registers and of memory;
* `checkedAdd`, `checkedSub`, `checkedMul`: arithmetic on sizes, offsets and counts, which live below
  `wordLimit` and report an `Overflow` instead of leaving that range;
* `alignUp`: the least multiple of a power of two that is not below a given size.
-/

namespace ForeignCall

/-- A 64-bit machine word: the contents of a register or stack slot, or an address. -/
abbrev Word := BitVec 64

abbrev Byte := BitVec 8

/-- Sizes, offsets and counts lie below this limit, two to the power of 64. -/
def wordLimit : Nat := 0x10000000000000000

/-- The operation whose result left the range of sizes. -/
inductive Overflow where
  | add | subtract | multiply
  deriving DecidableEq

def Overflow.text : Overflow → String
  | .add => "attempt to add with overflow"
  | .subtract => "attempt to subtract with overflow"
  | .multiply => "attempt to multiply with overflow"

def checkedAdd (a b : Nat) : Except Overflow Nat :=
  if a + b < wordLimit then .ok (a + b) else .error .add

/-- The difference of two sizes, which may not be negative. -/
def checkedSub (a b : Nat) : Except Overflow Nat :=
  if b ≤ a then .ok (a - b) else .error .subtract

def checkedMul (a b : Nat) : Except Overflow Nat :=
  if a * b < wordLimit then .ok (a * b) else .error .multiply

/-- The bits of `a` that are not set in `mask`. -/
def clearBits (a mask : Nat) : Nat := a - (a &&& mask)

/-- `size` rounded up to a multiple of `alignment`, a power of two: `alignment - 1` is added and its bits
are cleared.  For any other positive `alignment` the result still lies in
`[size, size + alignment - 1]`. -/
def alignUp (size alignment : Nat) : Except Overflow Nat := do
  let raised ← checkedAdd size alignment
  let last ← checkedSub raised 1
  let mask ← checkedSub alignment 1
  return clearBits last mask

/-- A number in lowercase hexadecimal after `0x`, without leading zeros. -/
def hexText (n : Nat) : String := "0x" ++ String.ofList (Nat.toDigits 16 n)

def wordText (w : Word) : String := hexText w.toNat

/-! ### Laws -/

theorem checkedAdd_eq_ok {a b c : Nat} : checkedAdd a b = .ok c ↔ a + b < wordLimit ∧ c = a + b := by
  by_cases h : a + b < wordLimit <;> simp [checkedAdd, h, eq_comm]

theorem checkedSub_eq_ok {a b c : Nat} : checkedSub a b = .ok c ↔ b ≤ a ∧ c = a - b := by
  by_cases h : b ≤ a <;> simp [checkedSub, h, eq_comm]

theorem checkedMul_eq_ok {a b c : Nat} : checkedMul a b = .ok c ↔ a * b < wordLimit ∧ c = a * b := by
  by_cases h : a * b < wordLimit <;> simp [checkedMul, h, eq_comm]

theorem toNat_ofNat_word {n : Nat} (h : n < wordLimit) : (BitVec.ofNat 64 n).toNat = n := by
  rw [BitVec.toNat_ofNat]
  exact Nat.mod_eq_of_lt h

theorem clearBits_le (a mask : Nat) : clearBits a mask ≤ a := Nat.sub_le _ _

theorem le_clearBits_add (a mask : Nat) : a ≤ clearBits a mask + mask := by
  have : a &&& mask ≤ mask := Nat.and_le_right
  unfold clearBits
  omega

theorem clearBits_pow (a k : Nat) : clearBits a (Nat.pow 2 k - 1) = a / Nat.pow 2 k * Nat.pow 2 k := by
  have h := Nat.div_add_mod a (Nat.pow 2 k)
  have mask : a &&& (Nat.pow 2 k - 1) = a % Nat.pow 2 k := Nat.and_two_pow_sub_one_eq_mod a k
  unfold clearBits
  rw [mask, Nat.mul_comm (a / Nat.pow 2 k)]
  omega

/-- Rounding up succeeds within the range of sizes, and adds less than the alignment. -/
theorem exists_alignUp {size alignment : Nat} (h : size + alignment < wordLimit) (hpos : 0 < alignment) :
    ∃ r, alignUp size alignment = .ok r ∧ size ≤ r ∧ r < size + alignment := by
  have hle := clearBits_le (size + alignment - 1) (alignment - 1)
  have hge := le_clearBits_add (size + alignment - 1) (alignment - 1)
  refine ⟨clearBits (size + alignment - 1) (alignment - 1), ?_, by omega, by omega⟩
  rw [alignUp, checkedAdd_eq_ok.2 ⟨h, rfl⟩]
  show (do
    let last ← checkedSub (size + alignment) 1
    let mask ← checkedSub alignment 1
    return clearBits last mask) = _
  rw [checkedSub_eq_ok.2 ⟨by omega, rfl⟩, checkedSub_eq_ok.2 ⟨hpos, rfl⟩]
  rfl

end ForeignCall
