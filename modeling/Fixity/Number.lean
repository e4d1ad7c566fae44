import Fixity.Error

/-!
Contract: the one numeric type of the language, complex numbers over doubles.

Owns:
- arithmetic, powers and roots, with the places where a product is fused into a sum;
- exact and tolerant equality, and the order used by comparisons;
- the display form;
- checked conversions of real numbers to counts and integers.

Does not own: the syntax of number literals, the choice of operation for an operator.
-/

namespace Fixity

/-- A complex number; reals are the numbers whose imaginary part is zero. -/
structure Number where
  real : Float
  imaginary : Float

namespace Number

/-- Components nearer to zero than this count as zero for display, equality and remainders. -/
def tiny : Float := 1e-10

/-- The additive identity and the only falsy value. -/
def zero : Number := ⟨0.0, 0.0⟩

/-- What comparisons answer for true. -/
def one : Number := ⟨1.0, 0.0⟩

instance : Inhabited Number := ⟨zero⟩

/-- A real number. -/
def ofReal (real : Float) : Number := ⟨real, 0.0⟩

/-- A count as a number. -/
def ofNat (count : Nat) : Number := ofReal (Float.ofNat count)

/-- One for true, zero for false. -/
def ofBool (truth : Bool) : Number := if truth then one else zero

def isReal (number : Number) : Bool := number.imaginary == 0.0

def isImaginary (number : Number) : Bool := number.real == 0.0

def isZero (number : Number) : Bool := number.isReal && number.isImaginary

def isNearlyReal (number : Number) : Bool := number.imaginary.abs < tiny

def isNearlyImaginary (number : Number) : Bool := number.real.abs < tiny

def isNearlyZero (number : Number) : Bool := number.isNearlyReal && number.isNearlyImaginary

/-- The display form; components near zero are left out. -/
def display (number : Number) : String :=
  if number.isNearlyZero then "0"
  else if number.isNearlyReal then Decimal.write number.real
  else if number.isNearlyImaginary then Decimal.write number.imaginary ++ "i"
  else if number.imaginary > 0.0 then
    Decimal.write number.real ++ " + " ++ Decimal.write number.imaginary ++ "i"
  else
    Decimal.write number.real ++ " - " ++ Decimal.write (-number.imaginary) ++ "i"

def add (left right : Number) : Number :=
  ⟨left.real + right.real, left.imaginary + right.imaginary⟩

def sub (left right : Number) : Number :=
  ⟨left.real - right.real, left.imaginary - right.imaginary⟩

/-- The product; in each component one of the two products is fused into the sum. -/
def mul (left right : Number) : Number :=
  ⟨Double.fusedMultiplyAdd left.real right.real (-(left.imaginary * right.imaginary)),
    Double.fusedMultiplyAdd left.real right.imaginary (left.imaginary * right.real)⟩

/-- The quotient; two reals divide as doubles, so division by zero is infinite. -/
def div (left right : Number) : Number :=
  if left.isReal && right.isReal then ofReal (left.real / right.real)
  else
    let norm :=
      Double.fusedMultiplyAdd right.real right.real (right.imaginary * right.imaginary)
    ⟨Double.fusedMultiplyAdd left.real right.real (left.imaginary * right.imaginary) / norm,
      Double.fusedMultiplyAdd left.imaginary right.real (-(left.real * right.imaginary)) / norm⟩

/-- The distance from the origin. -/
def abs (number : Number) : Float := Double.hypotenuse number.real number.imaginary

/-- The angle from the positive real axis. -/
def arg (number : Number) : Float := Float.atan2 number.imaginary number.real

/-- The number with a given length and angle. -/
def ofPolar (length phase : Float) : Number :=
  ⟨length * phase.cos, length * phase.sin⟩

/-- Powers. A real base and exponent use the real power, unless the base is not positive and the
exponent fractional, or the base is zero and the exponent negative. -/
def pow (base exponent : Number) : Outcome Number :=
  let realPower :=
    base.isReal && exponent.isReal &&
      !(base.real ≤ 0.0 && Double.isFractional exponent.real) &&
      !(base.real == 0.0 && exponent.real < 0.0)
  if realPower then .ok (ofReal (base.real.pow exponent.real))
  else if exponent.isZero then .ok one
  else if base.isZero then
    if exponent.imaginary != 0.0 || exponent.real < 0.0 then
      .error (.invalidArgument .zeroPower)
    else
      .ok zero
  else
    let modulus := base.abs
    let angle := base.arg
    let length := modulus.pow exponent.real
    let phase := angle * exponent.real
    if exponent.isReal then .ok (ofPolar length phase)
    else
      .ok (ofPolar (length / (angle * exponent.imaginary).exp)
        (phase + exponent.imaginary * modulus.log))

/-- The remainder of the real parts, if both numbers are real up to the tolerance. -/
def rem? (dividend divisor : Number) : Option Number :=
  if dividend.isNearlyReal && divisor.isNearlyReal then
    some (ofReal (Double.remainder dividend.real divisor.real))
  else
    none

/-- The principal square root; its imaginary part takes the sign of the operand's. -/
def sqrt (number : Number) : Number :=
  let length := number.abs
  ⟨(Double.midpoint length number.real).sqrt,
    Double.copySign ((length - number.real) / 2.0).sqrt number.imaginary⟩

/-- The exponential function. -/
def exp (number : Number) : Number := ofPolar number.real.exp number.imaginary

/-- Exact equality; the undefined component equals itself and the two zeros are equal. -/
def same (left right : Number) : Bool :=
  Double.same left.real right.real && Double.same left.imaginary right.imaginary

/-- Equality of each component up to the tolerance. -/
def nearlyEqual (left right : Number) : Bool :=
  left.same right || (left.sub right).isNearlyZero

/-- The order along the real axis of two reals, along the imaginary axis of two imaginary numbers,
by distance from the origin otherwise. -/
def compare (left right : Number) : Ordering :=
  if left.isNearlyReal && right.isNearlyReal then Double.compare left.real right.real
  else if left.isNearlyImaginary && right.isNearlyImaginary then
    Double.compare left.imaginary right.imaginary
  else Double.compare left.abs right.abs

end Number

/-! ## Counts and integers -/

namespace Double

/-- The largest integer up to which all integers are doubles. -/
def greatestSafe : Nat := (1 <<< 53) - 1

/-- The integer in front of the point, without its sign; zero for a number that is not finite. -/
def wholePart (value : Float) : Nat :=
  match Binary.read value with
  | .finite number => (number.truncate.scaledTo 0).natAbs
  | _ => 0

/-- The count a double stands for: a finite, integral, non-negative number of safe size. -/
def toCount (value : Float) (role : String) : Outcome Nat :=
  if !value.isFinite then .error (.typeError (.notFinite role value))
  else if isFractional value then .error (.typeError (.notInteger role value))
  else if value < 0.0 then .error (.invalidArgument (.negative role value))
  else if value > Float.ofNat greatestSafe then .error (.invalidArgument (.tooLarge role value))
  else .ok (wholePart value)

/-- The integer a double stands for: a finite, integral number of safe size. -/
def toInteger (value : Float) (role : String) : Outcome Int :=
  if !value.isFinite || isFractional value then .error (.typeError (.notInteger role value))
  else if value.abs > Float.ofNat greatestSafe then .error (.typeError (.outOfRange role value))
  else .ok (if value < 0.0 then -(wholePart value : Int) else wholePart value)

end Double

end Fixity
