import ForeignCall.Proofs.Memory.Segment
import ForeignCall.Slot

/-!
# Scalars in slots and in memory

A scalar is carried by a word in a slot, and by a few bytes in memory.

* `byteOf`: the bytes of a word, the lowest first.  `setWidth_of_bytes`: low bytes are low bits;
* `Primitive.widen`: the word that a slot holds after the scalar in it was read and written back
  (`Primitive.slotBits_decode`).  It depends on the bytes of the kind alone (`Primitive.decode_congr`);
* `Primitive.fieldBits_eq`: memory gets the low bits of the word of a scalar;
* `Memory.field_eq_decode`: what memory holds is read like the word of its bytes.  `Memory.field_store`: a
  scalar that was stored is read back;
* `scalar_encodings_agree`: the two encodings are one.
-/

namespace ForeignCall

variable {m : Memory} {kind : Primitive} {v : Value} {w w' : Word} {a i n : Nat}

/-! ### Bytes of words -/

/-- The `i`-th byte of a word, the lowest first. -/
def byteOf (w : Word) (i : Nat) : Byte := w.extractLsb' (8 * i) 8

theorem byteOf_eq (w : Word) (i : Nat) : byteOf w i = BitVec.ofNat 8 (w.toNat >>> (8 * i)) := rfl

theorem setWidth_of_bytes (h : ∀ i < n, byteOf w i = byteOf w' i) :
    w.setWidth (8 * n) = w'.setWidth (8 * n) := by
  ext j hj
  have hbyte := congrArg (·.getLsbD (j % 8)) (h (j / 8) (by omega))
  have hbit : j % 8 < 8 := Nat.mod_lt _ (by decide)
  simp only [byteOf, BitVec.getLsbD_extractLsb', hbit, decide_true, Bool.true_and, Nat.div_add_mod] at hbyte
  simpa using hbyte

theorem byte_toNat_setWidth (w : Word) (h : i < n) :
    BitVec.ofNat 8 ((w.setWidth (8 * n)).toNat >>> (8 * i)) = byteOf w i := by
  apply BitVec.eq_of_getLsbD_eq
  intro j hj
  have hbit : 8 * i + j < 8 * n := by omega
  rw [BitVec.getLsbD_ofNat, Nat.testBit_shiftRight, BitVec.testBit_toNat, BitVec.getLsbD_setWidth, byteOf,
    BitVec.getLsbD_extractLsb', decide_eq_true hbit, Bool.true_and]

/-! ### Scalars in slots -/

namespace Primitive

/-- The scalar of the kind in the low bytes of a word, widened to a word: signed kinds are sign-extended,
all others zero-extended, and a truth value is 0 or 1. -/
def widen (kind : Primitive) (w : Word) : Word :=
  let low := w.setWidth (8 * kind.byteSize)
  if kind.isSigned then low.signExtend 64
  else if kind = .bool then if low = 0 then 0 else 1
  else low.setWidth 64

theorem slotBits_eq (h : v.primitive? = some kind) : v.slotBits = kind.encode v := by
  unfold Value.slotBits
  rw [h]

/-- **A word that is read as a scalar and written back** is widened from its low bytes. -/
theorem slotBits_decode (kind : Primitive) (w : Word) : (kind.decode w).slotBits = .ok (kind.widen w) := by
  rw [slotBits_eq (kind.primitive?_decode w)]
  cases kind with
  | bool =>
    show Except.ok (if (w.setWidth 8 != 0) = true then 1 else 0) = Except.ok (if w.setWidth 8 = 0 then 0 else 1)
    by_cases h : w.setWidth 8 = 0 <;> simp [h]
  | i64 | f64 => simp [decode, encode, widen, isSigned, byteSize]
  | _ => rfl

/-- Reading a slot looks at the bytes of the kind alone. -/
theorem decode_congr (h : ∀ i < kind.byteSize, byteOf w i = byteOf w' i) : kind.decode w = kind.decode w' := by
  have hlow := setWidth_of_bytes h
  cases kind with
  | bool => exact congrArg (fun x : BitVec 8 => Value.bool (x != 0)) hlow
  | i8 => exact congrArg Value.i8 hlow
  | i16 => exact congrArg Value.i16 hlow
  | char => exact congrArg Value.char hlow
  | i32 => exact congrArg Value.i32 hlow
  | f32 => exact congrArg Value.f32 hlow
  | i64 | f64 =>
    have heq : w = w' := by simpa [byteSize] using hlow
    rw [heq]

theorem decode_widen (kind : Primitive) (w : Word) : kind.decode (kind.widen w) = kind.decode w := by
  have h := kind.slotBits_decode w
  rw [slotBits_eq (kind.primitive?_decode w)] at h
  exact decode_encode h

/-- The bytes of a scalar in memory are the low bits of the word that carries it. -/
theorem fieldBits_eq (h : kind.encode v = .ok w) :
    Segment.fieldBits v = (w.setWidth (8 * kind.byteSize)).toNat := by
  cases kind <;> cases v <;> cases h
  case bool.bool.refl b => cases b <;> rfl
  case i8.i8.refl x => exact congrArg BitVec.toNat (setWidth_signExtend x (by decide)).symm
  case i16.i16.refl x => exact congrArg BitVec.toNat (setWidth_signExtend x (by decide)).symm
  case i32.i32.refl x => exact congrArg BitVec.toNat (setWidth_signExtend x (by decide)).symm
  all_goals simp [Segment.fieldBits, byteSize]

end Primitive

/-! ### Scalars in memory -/

namespace Memory

/-- The bytes of a number that is loaded, as a word: those above it are zero. -/
theorem byteOf_load (m : Memory) (a : Nat) (hn : n ≤ 8) (i : Nat) :
    byteOf (BitVec.ofNat 64 (m.load a n)) i = if i < n then m.bytes (a + i) else 0 := by
  have hlt : m.load a n < 256 ^ n := m.load_lt a n
  have hpow : 256 ^ n ≤ wordLimit := Nat.pow_le_pow_right (by decide : 0 < 256) hn
  rw [byteOf_eq, toNat_ofNat_word (by omega)]
  by_cases h : i < n
  · rw [if_pos h, byte_load m h]
  · have hzero : m.load a n >>> (8 * i) = 0 := by
      rw [Nat.shiftRight_eq_div_pow, Nat.pow_mul]
      exact Nat.div_eq_of_lt (Nat.lt_of_lt_of_le hlt (Nat.pow_le_pow_right (by decide) (by omega)))
    rw [if_neg h, hzero]
    rfl

/-- **A field is read like the word of its bytes.** -/
theorem field_eq_decode (m : Memory) (kind : Primitive) (a : Nat) :
    m.field kind a = kind.decode (BitVec.ofNat 64 (m.load a kind.byteSize)) := by
  cases kind with
  | bool | i8 => simp [field, Primitive.decode, Primitive.byteSize, load]
  | _ => simp [field, Primitive.decode, Primitive.byteSize, BitVec.setWidth_ofNat_of_le]

/-- A scalar that was stored is read back: its field and the word that carries it have the same low bytes. -/
theorem field_store (h : v.primitive? = some kind) :
    (m.store a kind.byteSize (Segment.fieldBits v)).field kind a = v := by
  obtain ⟨w, hw⟩ := Primitive.exists_encode h
  have hbytes (i : Nat) (hi : i < kind.byteSize) :
      byteOf (BitVec.ofNat 64 ((m.store a kind.byteSize (Segment.fieldBits v)).load a kind.byteSize)) i
        = byteOf w i := by
    rw [byteOf_load _ _ kind.byteSize_le, if_pos hi, bytes_store, if_pos (by omega), Nat.add_sub_cancel_left,
      Primitive.fieldBits_eq hw, byte_toNat_setWidth w hi]
  rw [field_eq_decode, Primitive.decode_congr hbytes, Primitive.decode_encode hw]

end Memory

/-- **Slots and memory hold the same scalars.**  A scalar has a word that gives it back bit for bit, and a
field that it is stored in gets just the low bytes of that word.  Any word that is read as a scalar and
written back becomes its low bytes, widened, and stays that.  A field is read like the word that has the
bytes of the field and zeros above them. -/
theorem scalar_encodings_agree (kind : Primitive) :
    (∀ v, v.primitive? = some kind → ∃ w, v.slotBits = .ok w ∧ kind.decode w = v ∧
      ∀ (s : Segment) m offset, s.Valid m → offset + kind.byteSize ≤ s.length →
        ∃ m', s.set m offset v = .ok m' ∧ ∀ a, m'.bytes a =
          if s.address.toNat + offset ≤ a ∧ a < s.address.toNat + offset + kind.byteSize
          then byteOf w (a - (s.address.toNat + offset)) else m.bytes a) ∧
    (∀ w, (kind.decode w).slotBits = .ok (kind.widen w) ∧
      (kind.decode (kind.widen w)).slotBits = .ok (kind.widen w) ∧
      ∀ w', (∀ i < kind.byteSize, byteOf w' i = byteOf w i) → kind.widen w' = kind.widen w) ∧
    ∀ (s : Segment) m offset, s.Valid m → offset + kind.byteSize ≤ s.length →
      ∃ w : Word, (∀ i, byteOf w i = if i < kind.byteSize then m.bytes (s.address.toNat + offset + i) else 0) ∧
        s.get m kind offset = .ok (kind.decode w) := by
  refine ⟨fun v hv => ?_, fun w => ⟨kind.slotBits_decode w, ?_, fun w' hbytes => ?_⟩,
    fun s m offset hs hlength => ?_⟩
  · obtain ⟨w, hw⟩ := Primitive.exists_encode hv
    refine ⟨w, (Primitive.slotBits_eq hv).trans hw, Primitive.decode_encode hw, fun s m offset hs hlength => ?_⟩
    refine ⟨_, Segment.set_eq hs hv hlength, fun a => ?_⟩
    rw [Memory.bytes_store, Primitive.fieldBits_eq hw]
    by_cases ha : s.address.toNat + offset ≤ a ∧ a < s.address.toNat + offset + kind.byteSize
    · rw [if_pos ha, if_pos ha, byte_toNat_setWidth w (by omega)]
    · rw [if_neg ha, if_neg ha]
  · rw [kind.decode_widen]
    exact kind.slotBits_decode w
  · have hsame := kind.slotBits_decode w'
    rw [Primitive.decode_congr hbytes, kind.slotBits_decode w] at hsame
    exact (Except.ok.inj hsame).symm
  · refine ⟨_, Memory.byteOf_load m _ kind.byteSize_le, ?_⟩
    rw [Segment.get_eq hs hlength, Memory.field_eq_decode]

/-- A signalling NaN with a payload keeps all its bits in a slot, and lies in memory with its lowest byte
first.  A slot that holds 2 in its lowest byte is true, and holds 1 when it is written back. -/
theorem scalar_encodings_agree_nan :
    let nan : Value := .f32 0xffa00001
    let s : Segment := .global 4096 8
    (∃ w m', nan.slotBits = .ok w ∧ Primitive.f32.decode w = nan ∧ s.set .empty 4 nan = .ok m' ∧
      m'.bytes 4100 = 0x01 ∧ m'.bytes 4103 = 0xff ∧ m'.bytes 4104 = 0) ∧
    (Primitive.bool.decode 0xab02).slotBits = .ok 1 := by
  intro nan s
  have hs : s.Valid .empty := ⟨rfl, by decide⟩
  obtain ⟨w, hw, hdecode, hset⟩ := (scalar_encodings_agree .f32).1 nan rfl
  obtain rfl : 0xffa00001 = w := Except.ok.inj hw
  obtain ⟨m', hm', hbytes⟩ := hset s .empty 4 hs (by decide)
  have hfirst : m'.bytes 4100 = 0x01 := by
    rw [hbytes, if_pos (by decide)]
    decide
  have hlast : m'.bytes 4103 = 0xff := by
    rw [hbytes, if_pos (by decide)]
    decide
  have hbehind : m'.bytes 4104 = 0 := by
    rw [hbytes, if_neg (by decide)]
    decide
  exact ⟨⟨_, m', rfl, hdecode, hm', hfirst, hlast, hbehind⟩, ((scalar_encodings_agree .bool).2.1 0xab02).1⟩

end ForeignCall
