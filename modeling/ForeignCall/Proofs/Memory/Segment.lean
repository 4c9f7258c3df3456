import ForeignCall.Memory
import ForeignCall.Proofs.Stopping
import Mathlib.Algebra.Ring.Nat

/-!
# Bytes and segments

* `Memory.byte_load`, `Memory.fieldBits_field`: a number that is loaded has the bytes it was loaded from, and so
  has a scalar other than a truth value;
* `Segment.Valid`: a segment that is alive and does not wrap around the end of the address space.  Within its
  bounds each access succeeds (`Segment.get_eq`, `Segment.set_eq`, `Segment.take_eq`, `Segment.copyFrom_eq`);
* `Segment.of_set_eq_ok`, `Segment.of_copyFrom_eq_ok`: all that a write can do.
-/

namespace ForeignCall

variable {m : Memory} {kind : Primitive} {a b i n : Nat}

namespace Memory

/-! ### Numbers and their bytes -/

theorem load_lt (m : Memory) (a n : Nat) : m.load a n < 256 ^ n := by
  induction n generalizing a with
  | zero => simp [load]
  | succ n ih =>
    have hbyte : (m.bytes a).toNat < 256 := (m.bytes a).isLt
    have hrest := ih (a + 1)
    rw [load, Nat.pow_succ]
    omega

theorem byte_load (m : Memory) (h : i < n) : BitVec.ofNat 8 (m.load a n >>> (8 * i)) = m.bytes (a + i) := by
  induction n generalizing a i with
  | zero => omega
  | succ n ih =>
    have hbyte : (m.bytes a).toNat < 256 := (m.bytes a).isLt
    rw [load]
    cases i with
    | zero =>
      apply BitVec.eq_of_toNat_eq
      simp only [BitVec.toNat_ofNat, Nat.mul_zero, Nat.shiftRight_zero, Nat.add_zero]
      omega
    | succ i =>
      have hshift : ((m.bytes a).toNat + 256 * m.load (a + 1) n) >>> 8 = m.load (a + 1) n := by
        rw [Nat.shiftRight_eq_div_pow]
        omega
      rw [show 8 * (i + 1) = 8 + 8 * i by omega, Nat.shiftRight_add, hshift, ih (by omega)]
      congr 1
      omega

theorem bytes_store (value : Nat) : (m.store a n value).bytes b =
    if a ≤ b ∧ b < a + n then BitVec.ofNat 8 (value >>> (8 * (b - a))) else m.bytes b := rfl

theorem bytes_copy :
    (m.copy a i n).bytes b = if a ≤ b ∧ b < a + n then m.bytes (i + (b - a)) else m.bytes b := rfl

theorem bytes_store_load {m' : Memory} (h : i < n) :
    (m'.store b n (m.load a n)).bytes (b + i) = m.bytes (a + i) := by
  rw [bytes_store, if_pos (by omega), show b + i - b = i by omega, byte_load m h]

/-! ### Scalars -/

@[simp] theorem primitive?_field : (m.field kind a).primitive? = some kind := by
  cases kind <;> rfl

theorem toNat_ofNat_load {width : Nat} (h : 256 ^ n = 2 ^ width) :
    (BitVec.ofNat width (m.load a n)).toNat = m.load a n := by
  rw [BitVec.toNat_ofNat, ← h]
  exact Nat.mod_eq_of_lt (load_lt m a n)

/-- A scalar other than a truth value is the number in its bytes. -/
theorem fieldBits_field (h : kind ≠ .bool) : Segment.fieldBits (m.field kind a) = m.load a kind.byteSize := by
  cases kind with
  | bool => exact absurd rfl h
  | i8 => simp [field, Segment.fieldBits, Primitive.byteSize, load]
  | i16 | char => exact toNat_ofNat_load (by decide)
  | i32 | f32 => exact toNat_ofNat_load (by decide)
  | i64 | f64 => exact toNat_ofNat_load (by decide)

theorem load_congr {m' : Memory} (h : ∀ i < n, m.bytes (a + i) = m'.bytes (a + i)) :
    m.load a n = m'.load a n := by
  induction n generalizing a with
  | zero => rfl
  | succ n ih =>
    have hrest := ih (a := a + 1) fun i hi => by
      rw [show a + 1 + i = a + (i + 1) by omega]
      exact h (i + 1) (by omega)
    rw [load, load, show m.bytes a = m'.bytes a from h 0 (by omega), hrest]

theorem field_congr {m' : Memory} (h : ∀ i < kind.byteSize, m.bytes (a + i) = m'.bytes (a + i)) :
    m.field kind a = m'.field kind a := by
  have h0 : m.bytes a = m'.bytes a := h 0 kind.byteSize_pos
  cases kind with
  | bool | i8 => simp only [field, h0]
  | i16 | char => simp only [field, load_congr (n := 2) h]
  | i32 | f32 => simp only [field, load_congr (n := 4) h]
  | i64 | f64 => simp only [field, load_congr (n := 8) h]

end Memory

/-! ### Access to segments -/

namespace Segment

variable {s t : Segment} {v : Value} {offset length : Nat}

/-- The segment is alive, and the address space does not end inside it. -/
structure Valid (s : Segment) (m : Memory) : Prop where
  alive : s.isAlive m = true
  end_le : s.address.toNat + s.length ≤ wordLimit

theorem isAlive_of_owned (h : s.scope = .owned) : s.isAlive m = true := by
  unfold isAlive
  rw [h]

theorem isAlive_iff_of_scratch {chunk : Nat} (h : s.scope = .scratch chunk) :
    s.isAlive m = true ↔ chunk ∉ m.released := by
  unfold isAlive
  rw [h]
  simp

theorem isAlive_congr {m' : Memory} (h : m'.released = m.released) (s : Segment) :
    s.isAlive m' = s.isAlive m := by
  unfold isAlive
  rw [h]

theorem check_eq_ok : s.check m offset n = .ok () ↔ s.isAlive m = true ∧ offset + n ≤ s.length := by
  unfold check
  cases s.isAlive m with
  | false => simp
  | true =>
    by_cases h : s.length < offset + n
    · simp [h]
    · simp [h]
      omega

theorem position_eq (h : s.address.toNat + offset < wordLimit) :
    s.position offset = .ok (s.address.toNat + offset) := by
  simp only [position, advance, checkedAdd, if_pos h]
  show Except.ok (BitVec.ofNat 64 (s.address.toNat + offset)).toNat = _
  rw [toNat_ofNat_word h]

theorem get_eq (h : s.Valid m) (hlength : offset + kind.byteSize ≤ s.length) :
    s.get m kind offset = .ok (m.field kind (s.address.toNat + offset)) := by
  have hpos := kind.byteSize_pos
  have hend := h.end_le
  rw [get, check_eq_ok.2 ⟨h.alive, hlength⟩, position_eq (by omega)]
  rfl

theorem of_get_eq_ok (h : s.get m kind offset = .ok v) :
    offset + kind.byteSize ≤ s.length ∧ v.primitive? = some kind := by
  obtain ⟨⟨⟩, hcheck, h⟩ := bind_eq_ok.1 h
  obtain ⟨a, -, h⟩ := bind_eq_ok.1 h
  cases h
  exact ⟨(check_eq_ok.1 hcheck).2, Memory.primitive?_field⟩

theorem position_eq_ok {a : Nat} :
    s.position offset = .ok a ↔ s.address.toNat + offset < wordLimit ∧ a = s.address.toNat + offset := by
  constructor
  · intro h
    obtain ⟨next, hadvance, h⟩ := bind_eq_ok.1 h
    obtain ⟨sum, hsum, hadvance⟩ := bind_eq_ok.1 (lift_overflow_eq_ok.1 hadvance)
    obtain ⟨hlimit, rfl⟩ := checkedAdd_eq_ok.1 hsum
    cases hadvance
    cases h
    exact ⟨hlimit, toNat_ofNat_word hlimit⟩
  · rintro ⟨hlimit, rfl⟩
    exact position_eq hlimit

/-- A value that is stored is a scalar.  Its field lies inside a segment that is alive, and gets its bytes. -/
theorem of_set_eq_ok {m' : Memory} (h : s.set m offset v = .ok m') :
    ∃ kind, v.primitive? = some kind ∧ (s.isAlive m = true ∧ s.address.toNat + offset < wordLimit) ∧
      offset + kind.byteSize ≤ s.length ∧
        m' = m.store (s.address.toNat + offset) kind.byteSize (fieldBits v) := by
  unfold set at h
  split at h
  · next kind hkind =>
    obtain ⟨⟨⟩, hcheck, h⟩ := bind_eq_ok.1 h
    obtain ⟨a, hposition, h⟩ := bind_eq_ok.1 h
    obtain ⟨halive, hlength⟩ := check_eq_ok.1 hcheck
    obtain ⟨hlimit, rfl⟩ := position_eq_ok.1 hposition
    exact ⟨kind, hkind, ⟨halive, hlimit⟩, hlength, (pure_eq_ok.1 h).symm⟩
  · cases h

theorem of_copyFrom_eq_ok {m' : Memory} (h : s.copyFrom m t = .ok m') :
    (s.isAlive m = true ∧ t.isAlive m = true) ∧ t.length ≤ s.length ∧
      m' = m.copy s.address.toNat t.address.toNat t.length := by
  obtain ⟨⟨⟩, hsource, h⟩ := bind_eq_ok.1 h
  obtain ⟨⟨⟩, htarget, h⟩ := bind_eq_ok.1 h
  obtain ⟨halive, hlength⟩ := check_eq_ok.1 htarget
  exact ⟨⟨halive, (check_eq_ok.1 hsource).1⟩, by omega, (pure_eq_ok.1 h).symm⟩

theorem of_take_eq_ok (h : s.take m n = .ok t) : n ≤ s.length := by
  obtain ⟨⟨⟩, hcheck, -⟩ := bind_eq_ok.1 h
  have := (check_eq_ok.1 hcheck).2
  omega

theorem set_eq (h : s.Valid m) (hv : v.primitive? = some kind) (hlength : offset + kind.byteSize ≤ s.length) :
    s.set m offset v = .ok (m.store (s.address.toNat + offset) kind.byteSize (fieldBits v)) := by
  have hpos := kind.byteSize_pos
  have hend := h.end_le
  rw [set, hv]
  show (do s.check m offset kind.byteSize; let a ← s.position offset; return _) = _
  rw [check_eq_ok.2 ⟨h.alive, hlength⟩, position_eq (by omega)]
  rfl

theorem take_eq (h : s.isAlive m = true) (hlength : n ≤ s.length) :
    s.take m n = .ok { s with length := n } := by
  rw [take, check_eq_ok.2 ⟨h, by omega⟩]
  rfl

theorem copyFrom_eq (hs : s.isAlive m = true) (ht : t.isAlive m = true) (hlength : t.length ≤ s.length) :
    s.copyFrom m t = .ok (m.copy s.address.toNat t.address.toNat t.length) := by
  rw [copyFrom, check_eq_ok.2 ⟨ht, by omega⟩, check_eq_ok.2 ⟨hs, by omega⟩]
  rfl

theorem bytes_eq (h : s.isAlive m = true) : s.bytes m = .ok (m.range s.address.toNat s.length) := by
  rw [bytes, check_eq_ok.2 ⟨h, by omega⟩]
  rfl

end Segment

end ForeignCall
