import ForeignCall.Decimal
import ForeignCall.Primitive

/-!
# Managed values

* `Segment`: a bounded view of memory, with the scope that keeps the memory alive;
* `Value`: what managed code passes and receives.  Integers and floating-point numbers are bit patterns, so
  that no payload of a NaN is ever lost.
-/

namespace ForeignCall

/-- Who keeps the memory of a segment alive. -/
inductive Scope where
  /-- Foreign memory whose lifetime is not tracked. -/
  | global
  /-- Memory that lives as long as the segment. -/
  | owned
  /-- Scratch memory of one call, in the chunk that starts at `chunk`. -/
  | scratch (chunk : Nat)
  deriving DecidableEq

/-- The `length` bytes of memory from `address` on. -/
structure Segment where
  address : Word
  length : Nat
  scope : Scope
  deriving DecidableEq

namespace Segment

/-- Two segments are the same view if they cover the same bytes. -/
def sameView (a b : Segment) : Bool := a.address == b.address && a.length == b.length

def text (s : Segment) : String := "segment(" ++ wordText s.address ++ ", " ++ toString s.length ++ ")"

end Segment

/-- A value that crosses a call boundary; `void` stands for the result of a call without one. -/
inductive Value where
  | bool (b : Bool)
  | i8 (x : BitVec 8)
  | i16 (x : BitVec 16)
  | char (x : BitVec 16)
  | i32 (x : BitVec 32)
  | i64 (x : BitVec 64)
  | f32 (bits : BitVec 32)
  | f64 (bits : BitVec 64)
  | address (a : Word)
  | segment (s : Segment)
  | void
  deriving DecidableEq

namespace Value

def primitive? : Value → Option Primitive
  | .bool _ => some .bool
  | .i8 _ => some .i8
  | .i16 _ => some .i16
  | .char _ => some .char
  | .i32 _ => some .i32
  | .i64 _ => some .i64
  | .f32 _ => some .f32
  | .f64 _ => some .f64
  | .address _ | .segment _ | .void => none

/-- What carries the value across a call; nothing carries `void`. -/
def carrier? : Value → Option Carrier
  | .address _ => some .address
  | .segment _ => some .segment
  | .void => none
  | v => v.primitive?.map .primitive

def asI64? : Value → Option (BitVec 64)
  | .i64 x => some x
  | _ => none

def asF64? : Value → Option (BitVec 64)
  | .f64 bits => some bits
  | _ => none

def asAddress? : Value → Option Word
  | .address a => some a
  | _ => none

def asSegment? : Value → Option Segment
  | .segment s => some s
  | _ => none

/-! ### Text -/

def charCode (x : BitVec 16) : String :=
  let digits := Nat.toDigits 16 x.toNat
  String.ofList (List.replicate (4 - digits.length) '0' ++ digits)

def boolText (b : Bool) : String := if b then "true" else "false"

def text : Value → String
  | .bool b => boolText b
  | .i8 x => toString x.toInt
  | .i16 x => toString x.toInt
  | .char x => "'\\u\x7b" ++ charCode x ++ "\x7d'"
  | .i32 x => toString x.toInt
  | .i64 x => toString x.toInt
  | .f32 bits => FloatFormat.binary32.display bits.toNat ++ "f"
  | .f64 bits => FloatFormat.binary64.display bits.toNat
  | .address a => wordText a
  | .segment s => s.text
  | .void => "void"

/-- The text of a value that shows its kind, for reports of faults.  The view of a segment is left out. -/
def inspect : Value → String
  | .bool b => "Bool(" ++ boolText b ++ ")"
  | .i8 x => "I8(" ++ toString x.toInt ++ ")"
  | .i16 x => "I16(" ++ toString x.toInt ++ ")"
  | .char x => "Char(" ++ toString x.toNat ++ ")"
  | .i32 x => "I32(" ++ toString x.toInt ++ ")"
  | .i64 x => "I64(" ++ toString x.toInt ++ ")"
  | .f32 bits => "F32(" ++ FloatFormat.binary32.inspect bits.toNat ++ ")"
  | .f64 bits => "F64(" ++ FloatFormat.binary64.inspect bits.toNat ++ ")"
  | .address a => "Address(Address(" ++ toString a.toNat ++ "))"
  | .segment _ => "Segment(..)"
  | .void => "Void"

/-! ### Laws -/

variable {v : Value}

theorem carrier?_eq_primitive {kind : Primitive} :
    v.carrier? = some (.primitive kind) ↔ v.primitive? = some kind := by
  cases v <;> constructor <;> intro h <;> cases h <;> rfl

theorem carrier?_eq_address : v.carrier? = some .address ↔ ∃ a, v = .address a := by
  constructor
  · intro h
    cases v <;> cases h
    exact ⟨_, rfl⟩
  · rintro ⟨a, rfl⟩
    rfl

theorem carrier?_eq_segment : v.carrier? = some .segment ↔ ∃ s, v = .segment s := by
  constructor
  · intro h
    cases v <;> cases h
    exact ⟨_, rfl⟩
  · rintro ⟨s, rfl⟩
    rfl

end Value

end ForeignCall
