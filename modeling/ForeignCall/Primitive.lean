import ForeignCall.Word

/-!
# Kinds of scalar values and the carriers of a call

* `Primitive`: the eight kinds of scalars, with their sizes;
* `Carrier`: what crosses a call boundary — a scalar, an address or a segment of memory;
* `Signature`: the carriers that a call takes and gives back.
-/

namespace ForeignCall

/-- A kind of scalar value. -/
inductive Primitive where
  | bool | i8 | i16 | char | i32 | i64 | f32 | f64
  deriving DecidableEq

namespace Primitive

/-- Every kind, in order. -/
def all : List Primitive := [.bool, .i8, .i16, .char, .i32, .i64, .f32, .f64]

/-- The place of a kind in `all`. -/
def index : Primitive → Nat
  | .bool => 0 | .i8 => 1 | .i16 => 2 | .char => 3 | .i32 => 4 | .i64 => 5 | .f32 => 6 | .f64 => 7

def byteSize : Primitive → Nat
  | .bool | .i8 => 1
  | .i16 | .char => 2
  | .i32 | .f32 => 4
  | .i64 | .f64 => 8

def isFloat : Primitive → Bool
  | .f32 | .f64 => true
  | _ => false

def isSigned : Primitive → Bool
  | .i8 | .i16 | .i32 | .i64 => true
  | _ => false

/-- The integer kind of exactly `size` bytes. -/
def integralOfSize? : Nat → Option Primitive
  | 1 => some .i8
  | 2 => some .i16
  | 4 => some .i32
  | 8 => some .i64
  | _ => none

/-- The floating-point kind of exactly `size` bytes. -/
def floatOfSize? : Nat → Option Primitive
  | 4 => some .f32
  | 8 => some .f64
  | _ => none

def text : Primitive → String
  | .bool => "bool" | .i8 => "i8" | .i16 => "i16" | .char => "char"
  | .i32 => "i32" | .i64 => "i64" | .f32 => "f32" | .f64 => "f64"

/-- The name used in structural descriptions. -/
def inspect : Primitive → String
  | .bool => "Bool" | .i8 => "I8" | .i16 => "I16" | .char => "Char"
  | .i32 => "I32" | .i64 => "I64" | .f32 => "F32" | .f64 => "F64"

theorem byteSize_pos (p : Primitive) : 0 < p.byteSize := by cases p <;> decide

theorem byteSize_le (p : Primitive) : p.byteSize ≤ 8 := by cases p <;> decide

end Primitive

/-- What crosses a call boundary. -/
inductive Carrier where
  | primitive (kind : Primitive)
  | address
  | segment
  deriving DecidableEq

namespace Carrier

def text : Carrier → String
  | .primitive p => p.text
  | .address => "address"
  | .segment => "segment"

def inspect : Carrier → String
  | .primitive p => "Primitive(" ++ p.inspect ++ ")"
  | .address => "Address"
  | .segment => "Segment"

/-- The name of a carrier that may be absent; a call without a result gives `void`. -/
def textOrVoid : Option Carrier → String
  | some c => c.text
  | none => "void"

end Carrier

/-- The carriers that a call takes, in order, and the one that it gives back. -/
structure Signature where
  params : List Carrier
  result : Option Carrier
  deriving DecidableEq

namespace Signature

def text (s : Signature) : String :=
  "(" ++ ", ".intercalate (s.params.map Carrier.text) ++ ") -> " ++ Carrier.textOrVoid s.result

def inspect (s : Signature) : String :=
  let result := match s.result with
    | some c => "Some(" ++ c.inspect ++ ")"
    | none => "None"
  "Signature \x7b params: [" ++ ", ".intercalate (s.params.map Carrier.inspect) ++ "], ret: " ++ result
    ++ " \x7d"

end Signature

end ForeignCall
