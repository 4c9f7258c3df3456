import ForeignCall.Script.Expression

/-!
# How scripts spell things

* `hexNumber?`: `0x2a`, a number in lowercase hexadecimal digits;
* `Place.ofText?`: an address, as such a number, as `@region+offset`, or as `entry:name`;
* `FrameSlot.ofText?`: a slot, as `class#index`; an accessor that has one slot may go without the index;
* `bytesOfText?`, `bytesText`: bytes, two hexadecimal digits each.
-/

namespace ForeignCall

/-- The number that `0x` and hexadecimal digits spell. -/
def hexNumber? (text : String) : Option Nat :=
  (Regions.after? ['0', 'x'] text.toList).bind fun digits =>
    if digits.all Regions.isHexDigit then some (Regions.digitsValue 16 digits) else none

/-- The number that decimal digits spell; no digits spell zero. -/
def decimalNumber? (digits : List Char) : Option Nat :=
  if digits.all Char.isDigit then some (Regions.digitsValue 10 digits) else none

/-- The part of a text before the first `mark`, and the part after it. -/
def splitAt (mark : Char) (cs : List Char) : List Char × List Char :=
  (cs.takeWhile (· != mark), (cs.dropWhile (· != mark)).drop 1)

def Place.ofText? (text : String) : Option Place :=
  match text.toList with
  | '@' :: rest =>
    let (name, offset) := splitAt '+' rest
    (decimalNumber? offset).map (.inRegion (String.ofList name))
  | cs =>
    match Regions.after? "entry:".toList cs with
    | some name => some (.entry (String.ofList name))
    | none => (hexNumber? text).map fun n => .absolute (BitVec.ofNat 64 n)

def Accessor.ofText? (text : String) : Option Accessor := Accessor.all.find? fun a => a.text == text

def FrameSlot.ofText? (text : String) : Option FrameSlot := do
  let (name, index) := splitAt '#' text.toList
  return ⟨← Accessor.ofText? (String.ofList name), ← decimalNumber? index⟩

def bytesOfDigits? : List Char → Option (List Byte)
  | [] => some []
  | [_] => none
  | a :: b :: rest => do
    let byte := BitVec.ofNat 8 ((← Regions.hexDigit? a) * 16 + (← Regions.hexDigit? b))
    return byte :: (← bytesOfDigits? rest)

def bytesOfText? (text : String) : Option (List Byte) := bytesOfDigits? text.toList

def byteDigits (b : Byte) : List Char := [Nat.digitChar (b.toNat / 16), Nat.digitChar (b.toNat % 16)]

def bytesText (bytes : List Byte) : String := String.ofList (bytes.flatMap byteDigits)

end ForeignCall
