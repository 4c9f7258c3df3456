import ForeignCall.Fault

/-!
# Scalars in 64-bit slots

Every scalar has one word that carries it in a register or stack slot: signed kinds are sign-extended, truth
values and characters zero-extended, and floating-point numbers occupy the low bits.  Reading a slot as a
kind looks at the low bytes alone.
-/

namespace ForeignCall

/-- The word that carries a scalar of the given kind; any other value is refused. -/
def Primitive.encode : Primitive → Value → Except Fault Word
  | .bool, .bool b => .ok (if b then 1 else 0)
  | .i8, .i8 x => .ok (x.signExtend 64)
  | .i16, .i16 x => .ok (x.signExtend 64)
  | .char, .char x => .ok (x.setWidth 64)
  | .i32, .i32 x => .ok (x.signExtend 64)
  | .i64, .i64 x => .ok x
  | .f32, .f32 bits => .ok (bits.setWidth 64)
  | .f64, .f64 bits => .ok bits
  | kind, v => .error (.wrongScalar kind v)

def Primitive.decode : Primitive → Word → Value
  | .bool, w => .bool (w.setWidth 8 != 0)
  | .i8, w => .i8 (w.setWidth 8)
  | .i16, w => .i16 (w.setWidth 16)
  | .char, w => .char (w.setWidth 16)
  | .i32, w => .i32 (w.setWidth 32)
  | .i64, w => .i64 w
  | .f32, w => .f32 (w.setWidth 32)
  | .f64, w => .f64 w

def Value.slotBits (v : Value) : Except Fault Word :=
  match v.primitive? with
  | some kind => kind.encode v
  | none => .error (.noSlotEncoding v)

theorem Primitive.primitive?_decode (kind : Primitive) (w : Word) : (kind.decode w).primitive? = some kind := by
  cases kind <;> rfl

/-- The low bits of a sign-extended number are the number. -/
theorem setWidth_signExtend {width : Nat} (x : BitVec width) (h : width ≤ 64) :
    (x.signExtend 64).setWidth width = x := by
  ext i hi
  rw [BitVec.getElem_setWidth, BitVec.getLsbD_signExtend, if_pos hi, decide_eq_true (by omega), Bool.true_and,
    BitVec.getLsbD_eq_getElem hi]

/-- Every scalar of a kind has a word. -/
theorem Primitive.exists_encode {kind : Primitive} {v : Value} (h : v.primitive? = some kind) :
    ∃ w, kind.encode v = .ok w := by
  cases v <;> cases h <;> exact ⟨_, rfl⟩

/-- The word that carries a scalar gives the scalar back. -/
theorem Primitive.decode_encode {kind : Primitive} {v : Value} {w : Word} (h : kind.encode v = .ok w) :
    kind.decode w = v := by
  cases kind <;> cases v <;> cases h
  case bool.bool.refl b => cases b <;> rfl
  all_goals simp [decode, setWidth_signExtend]

end ForeignCall
