import ForeignCall.Text.CharRange

/-!
# Blank characters

`isBlank` is the property White_Space of Unicode 17.0: 25 characters.  `trim` takes them away at the ends of
a text.
-/

namespace ForeignCall

namespace Blank

def ranges : List CharRange :=
  [⟨0x9, 0xd⟩, ⟨0x20, 0x20⟩, ⟨0x85, 0x85⟩, ⟨0xa0, 0xa0⟩, ⟨0x1680, 0x1680⟩, ⟨0x2000, 0x200a⟩, ⟨0x2028, 0x2029⟩,
   ⟨0x202f, 0x202f⟩, ⟨0x205f, 0x205f⟩, ⟨0x3000, 0x3000⟩]

end Blank

def isBlank (c : Char) : Bool := CharRange.covers Blank.ranges c

def trim (cs : List Char) : List Char := ((cs.dropWhile isBlank).reverse.dropWhile isBlank).reverse

end ForeignCall
