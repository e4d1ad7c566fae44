import Fixity.Number.Binary

/-!
Contract: decimal notation of doubles.

Owns:
- the shortest decimal that reads back to a double, the nearest such one, the upper one of a tie;
- its layout: digits with a point where needed, never an exponent, no fraction on an integer;
- the reading of an unsigned decimal with an optional exponent, correctly rounded.

Does not own: signs written by the language itself, complex numbers.
-/

namespace Fixity

/-- The number `digits * 10 ^ exponent`. -/
structure Decimal where
  digits : Nat
  exponent : Int
deriving DecidableEq

namespace Decimal

/-- Whether `left * 2 ^ leftTwos * 5 ^ leftFives` is at most the like number on the right. -/
def scaledLe (left : Nat) (leftTwos leftFives : Int)
    (right : Nat) (rightTwos rightFives : Int) : Bool :=
  let twos := min leftTwos rightTwos
  let fives := min leftFives rightFives
  (left <<< (leftTwos - twos).toNat) * Nat.pow 5 (leftFives - fives).toNat
    ≤ (right <<< (rightTwos - twos).toNat) * Nat.pow 5 (rightFives - fives).toNat

/-- The reals that round to one positive double, in units of a quarter of its last place. -/
structure Interval where
  lower : Nat
  centre : Nat
  upper : Nat
  exponent : Int
  closed : Bool

/-- The reals nearer to `significand * 2 ^ exponent` than to any other double; the ends belong to an
even significand. Below a power of two the next double is half as far away. -/
def Interval.around (significand : Nat) (exponent : Int) : Interval :=
  let narrow := significand = 1 <<< 52 ∧ exponent > -1074
  ⟨4 * significand - (if narrow then 1 else 2), 4 * significand, 4 * significand + 2,
    exponent - 2, significand % 2 = 0⟩

/-- Whether `digits * 10 ^ tens` lies in an interval. -/
def Interval.holds (interval : Interval) (digits : Nat) (tens : Int) : Bool :=
  if interval.closed then
    scaledLe interval.lower interval.exponent 0 digits tens tens &&
      scaledLe digits tens tens interval.upper interval.exponent 0
  else
    !scaledLe digits tens tens interval.lower interval.exponent 0 &&
      !scaledLe interval.upper interval.exponent 0 digits tens tens

/-- The multiple of `10 ^ tens` at or below the centre of an interval, without its zeros. -/
def Interval.floorDigits (interval : Interval) (tens : Int) : Nat :=
  let numerator := (interval.centre <<< (interval.exponent - tens).toNat) * Nat.pow 5 (-tens).toNat
  let denominator := Nat.pow 5 tens.toNat <<< (tens - interval.exponent).toNat
  numerator / denominator

/-- Whether the centre is nearer to `digits` than to `digits + 1` times `10 ^ tens`. -/
def Interval.nearerBelow (interval : Interval) (digits : Nat) (tens : Int) : Bool :=
  !scaledLe (2 * digits + 1) tens tens (2 * interval.centre) interval.exponent 0

/-- The best decimal on the grid of multiples of `10 ^ tens`, if one reads back. -/
def Interval.onGrid? (interval : Interval) (tens : Int) : Option Decimal :=
  let below := interval.floorDigits tens
  let belowHolds := interval.holds below tens
  let aboveHolds := interval.holds (below + 1) tens
  if belowHolds && (!aboveHolds || interval.nearerBelow below tens) then
    some ⟨below, tens⟩
  else if aboveHolds then
    some ⟨below + 1, tens⟩
  else
    none

/-- The first hit on grids that get ten times finer at each try. -/
def Interval.coarsest (interval : Interval) : Nat → Int → Decimal
  | 0, tens => ⟨interval.floorDigits tens, tens⟩
  | tries + 1, tens =>
      match interval.onGrid? tens with
      | some decimal => decimal
      | none => interval.coarsest tries (tens - 1)

/-- The fewest digits that read back to `significand * 2 ^ exponent`, a positive double. -/
def shortest (significand : Nat) (exponent : Int) : Decimal :=
  let width : Int := (significand.log2 : Int) + 1 + exponent
  (Interval.around significand exponent).coarsest 24 (width * 30103 / 100000 + 2)

/-- Digits with the point in place. -/
def layout (decimal : Decimal) : String :=
  let digits := (toString decimal.digits).toList
  if 0 ≤ decimal.exponent then
    String.ofList (digits ++ List.replicate decimal.exponent.toNat '0')
  else
    let places := (-decimal.exponent).toNat
    let padded := List.replicate (places + 1 - digits.length) '0' ++ digits
    let whole := padded.length - places
    String.ofList (padded.take whole ++ '.' :: padded.drop whole)

/-- The text of a double; a negative zero shows its sign. -/
def write (value : Float) : String :=
  match Binary.read value with
  | .undefined => "NaN"
  | .infinite negative => if negative then "-inf" else "inf"
  | .finite number =>
      let magnitude :=
        if number.significand = 0 then "0"
        else (shortest number.significand number.exponent).layout
      if number.negative then "-" ++ magnitude else magnitude

/-- The nearest double. Exponents far outside the range of doubles give zero or infinity at once. -/
def toFloat (decimal : Decimal) : Float :=
  let width : Int := (decimal.digits.log2 : Int) * 30103 / 100000
  if decimal.digits = 0 then 0.0
  else if width + decimal.exponent > 400 then Binary.infinity false
  else if width + decimal.exponent < -400 then 0.0
  else Float.ofScientific decimal.digits (decimal.exponent < 0) decimal.exponent.natAbs

/-- The value of a row of decimal digits. -/
def natOfDigits (digits : List Char) : Nat :=
  digits.foldl (fun value digit => 10 * value + (digit.toNat - '0'.toNat)) 0

/-- The decimal written as whole digits, fraction digits and an exponent. -/
def ofParts (whole fraction : List Char) (exponent : Int) : Decimal :=
  ⟨natOfDigits (whole ++ fraction), exponent - fraction.length⟩

end Decimal

end Fixity
