/-!
Contract: doubles as exact binary numbers.

Owns:
- `Binary`, a sign, a significand and a power of two, and the reading of a double as one;
- `Binary.round`, the nearest double to an exact binary number, ties to the even significand;
- the operations whose exact result is rounded once: fused multiply-add, the remainder of
  truncated division and the length of a hypotenuse;
- integral parts, and the total order that puts the undefined number last.

Does not own: decimal notation, complex numbers.
-/

namespace Fixity

/-- The exact number `± significand * 2 ^ exponent`; zero keeps its sign. -/
structure Binary where
  negative : Bool
  significand : Nat
  exponent : Int
deriving DecidableEq

namespace Binary

/-- What the bits of a double stand for. -/
inductive Reading where
  | undefined
  | infinite (negative : Bool)
  | finite (number : Binary)
deriving DecidableEq

/-- The number of binary digits. -/
def bitWidth (value : Nat) : Nat :=
  if value = 0 then 0 else value.log2 + 1

/-- The number or the special value that a double holds. -/
def read (value : Float) : Reading :=
  let bits := value.toBits.toNat
  let negative := bits >>> 63 = 1
  let biased : Nat := (bits >>> 52) % (1 <<< 11)
  let fraction := bits % (1 <<< 52)
  if biased = 2047 then
    if fraction = 0 then .infinite negative else .undefined
  else if biased = 0 then
    .finite ⟨negative, fraction, -1074⟩
  else
    .finite ⟨negative, (1 <<< 52) + fraction, (biased : Int) - 1075⟩

/-- The integer nearest to `significand / 2 ^ places`, the even one of a tie. -/
def halfEven (significand places : Nat) : Nat :=
  let quotient := significand >>> places
  let twiceRemainder := 2 * (significand % (1 <<< places))
  if twiceRemainder > 1 <<< places ∨ (twiceRemainder = 1 <<< places ∧ quotient % 2 = 1) then
    quotient + 1
  else
    quotient

/-- The double with the given bits below its sign bit. -/
def signed (negative : Bool) (magnitudeBits : Nat) : Float :=
  Float.ofBits (UInt64.ofNat ((if negative then 1 <<< 63 else 0) + magnitudeBits))

/-- Positive or negative infinity. -/
def infinity (negative : Bool) : Float := signed negative (2047 <<< 52)

/-- The value that is no number. -/
def undefinedNumber : Float := 0.0 / 0.0

/-- Positive or negative zero. -/
def zero (negative : Bool) : Float := signed negative 0

/-- The nearest double, of two equally near ones the one with the even significand. -/
def round (number : Binary) : Float :=
  let lowest := max (number.exponent + bitWidth number.significand - 53) (-1074)
  let rounded :=
    if lowest ≤ number.exponent then
      number.significand <<< (number.exponent - lowest).toNat
    else
      halfEven number.significand (lowest - number.exponent).toNat
  if number.significand = 0 then
    zero number.negative
  else if rounded < 1 <<< 52 then
    signed number.negative rounded
  else
    let magnitude := ((lowest + 1075).toNat <<< 52) + (rounded - (1 <<< 52))
    if magnitude ≥ 2047 <<< 52 then infinity number.negative else signed number.negative magnitude

/-- The integer `± significand * 2 ^ (exponent - scale)`, exact when `scale ≤ exponent`. -/
def scaledTo (number : Binary) (scale : Int) : Int :=
  let magnitude : Nat := number.significand <<< (number.exponent - scale).toNat
  if number.negative then -(magnitude : Int) else magnitude

/-- The exact product. -/
def mul (left right : Binary) : Binary :=
  ⟨left.negative != right.negative, left.significand * right.significand,
    left.exponent + right.exponent⟩

/-- The exact sum; a sum that is zero is negative only if both terms are. -/
def add (left right : Binary) : Binary :=
  let scale := min left.exponent right.exponent
  let total := left.scaledTo scale + right.scaledTo scale
  ⟨if total = 0 then left.negative && right.negative else total < 0, total.natAbs, scale⟩

/-- The remainder of division truncated toward zero; it has the dividend's sign. -/
def rem (dividend divisor : Binary) : Binary :=
  let scale := min dividend.exponent divisor.exponent
  ⟨dividend.negative,
    (dividend.scaledTo scale).natAbs % (divisor.scaledTo scale).natAbs, scale⟩

/-- A binary number that rounds like the square root of `significand * 2 ^ exponent`. -/
def sqrtForRounding (significand : Nat) (exponent : Int) : Binary :=
  let odd := exponent % 2
  let widened := significand <<< (128 + odd.toNat)
  let root := widened.sqrt
  let sticky := if root * root = widened then 0 else 1
  ⟨false, 2 * root + sticky, (exponent - odd - 128) / 2 - 1⟩

/-- The part before the binary point. -/
def truncate (number : Binary) : Binary :=
  if 0 ≤ number.exponent then number
  else ⟨number.negative, number.significand >>> (-number.exponent).toNat, 0⟩

end Binary

/-! ## Operations on doubles -/

namespace Double

/-- The sum `factor * other + term`, rounded once. -/
def fusedMultiplyAdd (factor other term : Float) : Float :=
  match Binary.read factor, Binary.read other, Binary.read term with
  | .finite left, .finite right, .finite addend => ((left.mul right).add addend).round
  | .finite _, .finite _, _ => term
  | _, _, _ => factor * other + term

/-- The remainder of truncated division. -/
def remainder (dividend divisor : Float) : Float :=
  match Binary.read dividend, Binary.read divisor with
  | .finite left, .finite right =>
      if right.significand = 0 then Binary.undefinedNumber else (left.rem right).round
  | .finite _, .infinite _ => dividend
  | _, _ => Binary.undefinedNumber

/-- The length `√(side² + other²)`, rounded once; infinite as soon as one side is. -/
def hypotenuse (side other : Float) : Float :=
  match Binary.read side, Binary.read other with
  | .finite left, .finite right =>
      let sum := (left.mul left).add (right.mul right)
      (Binary.sqrtForRounding sum.significand sum.exponent).round
  | .infinite _, _ => Binary.infinity false
  | _, .infinite _ => Binary.infinity false
  | _, _ => Binary.undefinedNumber

/-- The integer next to the number on the way to zero. -/
def truncate (value : Float) : Float :=
  match Binary.read value with
  | .finite number => number.truncate.round
  | _ => value

/-- Whether the number has a part after the point; an infinite or undefined number has one. -/
def isFractional (value : Float) : Bool :=
  value - truncate value != 0.0

/-- The greatest integer that is not above the number. -/
def floor (value : Float) : Float :=
  let whole := truncate value
  if value < whole then whole - 1.0 else whole

/-- The least integer that is not below the number. -/
def ceiling (value : Float) : Float :=
  let whole := truncate value
  if whole < value then whole + 1.0 else whole

/-- The nearest integer, of two equally near ones the one further from zero. -/
def roundHalfAway (value : Float) : Float :=
  match Binary.read value with
  | .finite number =>
      if 0 ≤ number.exponent then value
      else
        let places := (-number.exponent).toNat
        Binary.round
          ⟨number.negative, (number.significand + (1 <<< (places - 1))) >>> places, 0⟩
  | _ => value

/-- The number halfway between two, computed without overflow. -/
def midpoint (left right : Float) : Float :=
  let greatest := Float.ofScientific 17976931348623157 false 292
  let leastNormal := Binary.round ⟨false, 1, -1022⟩
  let halfGreatest := greatest / 2.0
  let twiceLeast := leastNormal * 2.0
  if left.abs ≤ halfGreatest ∧ right.abs ≤ halfGreatest then (left + right) / 2.0
  else if left.abs < twiceLeast then left + right / 2.0
  else if right.abs < twiceLeast then left / 2.0 + right
  else left / 2.0 + right / 2.0

/-- Whether the sign bit is set; the undefined number counts as positive. -/
def isNegative (value : Float) : Bool :=
  match Binary.read value with
  | .undefined => false
  | .infinite negative => negative
  | .finite number => number.negative

/-- The first number's magnitude with the second one's sign. -/
def copySign (magnitude sign : Float) : Float :=
  if isNegative sign then -magnitude.abs else magnitude.abs

/-- The order in which all undefined numbers are equal and above every other number, and the two
zeros are equal. -/
def compare (left right : Float) : Ordering :=
  if left.isNaN then
    if right.isNaN then .eq else .gt
  else if right.isNaN then .lt
  else if left < right then .lt
  else if right < left then .gt
  else .eq

/-- Equality under `Double.compare`. -/
def same (left right : Float) : Bool :=
  compare left right = .eq

end Double

end Fixity
