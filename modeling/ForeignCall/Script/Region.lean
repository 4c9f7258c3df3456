import ForeignCall.Fault

/-!
# Named regions of memory

Where memory lies is of no interest to a reader, so addresses inside memory with a name are written
`@name+offset`. `Regions.wordText` writes a word that way, `Regions.annotate` all the addresses in a report,
and `Regions.address?` finds the start of a region again.
-/

namespace ForeignCall

/-- A named range of addresses. -/
structure Region where
  name : String
  base : Nat
  length : Nat
  deriving DecidableEq

/-- Whether an address lies in the region.  A region without bytes holds its own start. -/
def Region.contains (r : Region) (a : Nat) : Bool := r.base ≤ a && a < r.base + max r.length 1

/-- Named regions, the latest first. -/
abbrev Regions := List Region

namespace Regions

def name (rs : Regions) (name : String) (s : Segment) : Regions := ⟨name, s.address.toNat, s.length⟩ :: rs

/-- The region that was named last among those that hold an address. -/
def region? (rs : Regions) (a : Nat) : Option Region := rs.find? (·.contains a)

/-- The address inside its region, if it is in one. -/
def position? (rs : Regions) (a : Nat) : Option String :=
  (rs.region? a).map fun r => "@" ++ r.name ++ "+" ++ toString (a - r.base)

/-- A word, written as an address of its region if it is in one. -/
def wordText (rs : Regions) (w : Word) : String := (rs.position? w.toNat).getD (ForeignCall.wordText w)

/-- The start of the region that was named last among those of a name. -/
def address? (rs : Regions) (name : String) : Option Word :=
  (rs.find? (·.name == name)).map fun r => BitVec.ofNat 64 r.base

/-! ### Reports -/

def hexDigit? (c : Char) : Option Nat :=
  if '0' ≤ c ∧ c ≤ '9' then some (c.toNat - '0'.toNat)
  else if 'a' ≤ c ∧ c ≤ 'f' then some (c.toNat - 'a'.toNat + 10)
  else none

def isHexDigit (c : Char) : Bool := (hexDigit? c).isSome

def digitsValue (base : Nat) (cs : List Char) : Nat := cs.foldl (fun n c => n * base + (hexDigit? c).getD 0) 0

def after? : List Char → List Char → Option (List Char)
  | [], cs => some cs
  | _ :: _, [] => none
  | p :: ps, c :: cs => if p = c then after? ps cs else none

/-- The report of an access to memory that is gone does not show where the memory was. -/
def goneAccess : List Char := "access to segment ".toList

/-- A debugging text of an address begins this way. -/
def addressMark : List Char := "Address(Address(".toList

/-- The next part of a report, written without addresses, and the rest of it. -/
def nextPart (rs : Regions) (cs : List Char) : List Char × List Char :=
  match after? goneAccess cs with
  | some rest =>
    match after? ['0', 'x'] rest with
    | some digits => (goneAccess ++ "ADDR".toList, digits.dropWhile isHexDigit)
    | none => (goneAccess, rest)
  | none =>
    match after? ['0', 'x'] cs with
    | some rest =>
      let digits := rest.takeWhile isHexDigit
      match rs.position? (digitsValue 16 digits) with
      | some text => if digits.isEmpty then (['0', 'x'], rest) else (text.toList, rest.dropWhile isHexDigit)
      | none => ('0' :: 'x' :: digits, rest.dropWhile isHexDigit)
    | none =>
      match after? addressMark cs with
      | some rest =>
        let digits := rest.takeWhile Char.isDigit
        match rs.position? (digitsValue 10 digits) with
        | some text =>
          if digits.isEmpty then (addressMark, rest) else (addressMark ++ text.toList, rest.dropWhile Char.isDigit)
        | none => (addressMark ++ digits, rest.dropWhile Char.isDigit)
      | none => (cs.take 1, cs.drop 1)

/-- All the parts of a report of at most `fuel` characters. -/
def parts (rs : Regions) : Nat → List Char → List Char
  | 0, cs => cs
  | _ + 1, [] => []
  | fuel + 1, cs =>
    let (part, rest) := rs.nextPart cs
    part ++ parts rs fuel rest

/-- A report in which every address inside a region is written as such. -/
def annotate (rs : Regions) (report : String) : String :=
  String.ofList (rs.parts report.length report.toList)

end Regions

end ForeignCall
