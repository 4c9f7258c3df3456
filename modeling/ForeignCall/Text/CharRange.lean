/-!
# Ranges of characters

A class of characters is a list of closed ranges of code points.  `CharRange.covers` says whether it has a
character.  The tables of such ranges hold properties of Unicode 17.0.
-/

namespace ForeignCall

/-- A range of characters by code point, both ends included. -/
structure CharRange where
  first : Nat
  last : Nat

namespace CharRange

def contains (r : CharRange) (n : Nat) : Bool := r.first ≤ n && n ≤ r.last

def covers (ranges : List CharRange) (c : Char) : Bool := ranges.any (·.contains c.toNat)

end CharRange

end ForeignCall
