/-!
# Decimal text of binary floating-point numbers

* `FloatFormat`: the two interchange formats, given by the widths of fraction and exponent;
* `FloatFormat.classify`: the number that a bit pattern stands for, as sign, mantissa and power of two;
* `shortest`: the decimal with the fewest digits among those that read back as the same number, and of these the
  nearest to it; of two equally near ones the larger;
* `FloatFormat.display` writes a number without an exponent, `FloatFormat.inspect` marks integers with `.0` and
  uses an exponent for very large and very small numbers.
-/

namespace ForeignCall

/-- A binary interchange format: widths of the fraction and of the exponent in bits. -/
structure FloatFormat where
  fractionBits : Nat
  exponentBits : Nat

namespace FloatFormat

def binary32 : FloatFormat := ⟨23, 8⟩

def binary64 : FloatFormat := ⟨52, 11⟩

end FloatFormat

/-- What a bit pattern stands for, apart from its sign. -/
inductive Magnitude where
  | zero
  | infinite
  | notANumber
  /-- The number `mantissa * 2 ^ exponent`.  `narrow` tells that the next smaller number is only half as far
  away as the next larger one. -/
  | finite (mantissa : Nat) (exponent : Int) (narrow : Bool)

namespace FloatFormat

/-- The sign (set for negative numbers) and the magnitude of a bit pattern. -/
def classify (f : FloatFormat) (bits : Nat) : Bool × Magnitude :=
  let fraction := bits % Nat.pow 2 f.fractionBits
  let exponent := bits / Nat.pow 2 f.fractionBits % Nat.pow 2 f.exponentBits
  let negative := bits / Nat.pow 2 (f.fractionBits + f.exponentBits) % 2 == 1
  let bias : Int := Nat.pow 2 (f.exponentBits - 1) - 1
  let lowest : Int := 1 - bias - f.fractionBits
  let magnitude :=
    if exponent = Nat.pow 2 f.exponentBits - 1 then
      if fraction = 0 then Magnitude.infinite else Magnitude.notANumber
    else if exponent = 0 then
      if fraction = 0 then Magnitude.zero else .finite fraction lowest false
    else
      .finite (Nat.pow 2 f.fractionBits + fraction) (lowest + (exponent - 1 : Nat))
        (fraction == 0 && exponent != 1)
  (negative, magnitude)

end FloatFormat

/-! ### Shortest decimals -/

/-- A decimal number `digits * 10 ^ exponent`. -/
structure Decimal where
  digits : Nat
  exponent : Int

/-- The interval of reals that round to a number: its ends and the number itself are multiples of
`1 / denominator`.  The ends belong to it iff `closed`. -/
structure RoundingInterval where
  low : Nat
  value : Nat
  high : Nat
  denominator : Nat
  closed : Bool

namespace RoundingInterval

/-- The interval around `mantissa * 2 ^ exponent`.  Its ends lie half-way to the neighbouring numbers, and
belong to it iff the mantissa is even. -/
def around (mantissa : Nat) (exponent : Int) (narrow : Bool) : RoundingInterval :=
  let scale := Nat.pow 2 (exponent - 2).toNat
  { low := (4 * mantissa - (if narrow then 1 else 2)) * scale
    value := 4 * mantissa * scale
    high := (4 * mantissa + 2) * scale
    denominator := Nat.pow 2 (2 - exponent).toNat
    closed := mantissa % 2 == 0 }

/-- Whether `numerator / denominator` lies in the interval, for the interval's own denominator. -/
def contains (i : RoundingInterval) (numerator : Nat) : Bool :=
  if i.closed then i.low ≤ numerator && numerator ≤ i.high else i.low < numerator && numerator < i.high

/-- The interval in units of `10 ^ exponent`, where `up = 10 ^ -exponent` and `down = 10 ^ exponent` (one of
them is 1). -/
def rescale (i : RoundingInterval) (up down : Nat) : RoundingInterval :=
  { low := i.low * up, value := i.value * up, high := i.high * up
    denominator := i.denominator * down, closed := i.closed }

/-- The multiple of `10 ^ exponent` in the interval that is nearest to the number, the larger of two. -/
def nearestOnGrid? (i : RoundingInterval) (exponent : Int) : Option Decimal :=
  let j := i.rescale (Nat.pow 10 (-exponent).toNat) (Nat.pow 10 exponent.toNat)
  let below := j.value / j.denominator
  let above := below + 1
  let belowFits := j.contains (below * j.denominator)
  let aboveFits := j.contains (above * j.denominator)
  if belowFits && (!aboveFits || 2 * (j.value % j.denominator) < j.denominator) then some ⟨below, exponent⟩
  else if aboveFits then some ⟨above, exponent⟩
  else none

end RoundingInterval

/-- The powers of ten on which a decimal of a number of either format can end, from large to small. -/
def decimalExponents : List Int := (List.range 650).map fun (i : Nat) => 310 - (i : Int)

/-- The shortest decimal for `mantissa * 2 ^ exponent`: the nearest point of the coarsest decimal grid that
has a point in the number's rounding interval. -/
def shortest (mantissa : Nat) (exponent : Int) (narrow : Bool) : Decimal :=
  let interval := RoundingInterval.around mantissa exponent narrow
  (decimalExponents.findSome? interval.nearestOnGrid?).getD ⟨0, 0⟩

/-! ### Text -/

namespace Decimal

def digitChars (d : Decimal) : List Char := Nat.toDigits 10 d.digits

def leadingExponent (d : Decimal) : Int := d.exponent + d.digitChars.length - 1

/-- A decimal without an exponent.  An integer gets no point. -/
def positional (d : Decimal) : String :=
  let cs := d.digitChars
  if 0 ≤ d.exponent then String.ofList (cs ++ List.replicate d.exponent.toNat '0')
  else
    let places := (-d.exponent).toNat
    let padded := List.replicate (places + 1 - cs.length) '0' ++ cs
    String.ofList (padded.take (padded.length - places) ++ '.' :: padded.drop (padded.length - places))

def scientific (d : Decimal) : String :=
  let mantissa := match d.digitChars with
    | [] => []
    | [c] => [c]
    | c :: cs => c :: '.' :: cs
  String.ofList mantissa ++ "e" ++ toString d.leadingExponent

end Decimal

namespace FloatFormat

private def signed (negative : Bool) (text : String) : String := if negative then "-" ++ text else text

/-- The shortest text of a number, never with an exponent. -/
def display (f : FloatFormat) (bits : Nat) : String :=
  match f.classify bits with
  | (_, .notANumber) => "NaN"
  | (negative, .infinite) => signed negative "inf"
  | (negative, .zero) => signed negative "0"
  | (negative, .finite m e narrow) => signed negative (shortest m e narrow).positional

/-- The shortest text of a number that shows it to be a floating-point number: integers end in `.0`, and outside
`10^-4 ≤ x < 10^16` an exponent is written. -/
def inspect (f : FloatFormat) (bits : Nat) : String :=
  match f.classify bits with
  | (_, .notANumber) => "NaN"
  | (negative, .infinite) => signed negative "inf"
  | (negative, .zero) => signed negative "0.0"
  | (negative, .finite m e narrow) =>
    let d := shortest m e narrow
    let text :=
      if -4 ≤ d.leadingExponent ∧ d.leadingExponent < 16 then
        if 0 ≤ d.exponent then d.positional ++ ".0" else d.positional
      else d.scientific
    signed negative text

end FloatFormat

end ForeignCall
