import Fixity.Arithmetic

/-!
Contract: the native functions on numbers, which broadcast over lists.

Owns:
- the parts of complex numbers;
- the complex and the real functions and the demands on their arguments.
-/

namespace Fixity.Numeric

/-- A part of a number. -/
def partOf (part : NumberPart) (number : Number) : Float :=
  match part with
  | .real => number.real
  | .imaginary => number.imaginary
  | .magnitude => number.abs

/-- The value of a complex function. -/
def complexValue (function : ComplexFunction) (number : Number) : Number :=
  match function with
  | .sqrt => number.sqrt
  | .exp => number.exp

/-- The value of a real function. -/
def realValue (function : RealFunction) (value : Float) : Float :=
  match function with
  | .floor => Double.floor value
  | .ceil => Double.ceiling value
  | .round => Double.roundHalfAway value
  | .ln => value.log
  | .log10 => value.log10
  | .log2 => value.log2
  | .sin => value.sin
  | .cos => value.cos
  | .tan => value.tan
  | .asin => value.asin
  | .acos => value.acos
  | .atan => value.atan
  | .sinh => value.sinh
  | .cosh => value.cosh
  | .tanh => value.tanh

/-- The place of a function's only argument in messages. -/
def role (name : String) : String := "the argument of " ++ name

/-- A part of a number or of everything in a list. -/
def part (part : NumberPart) (argument : Value) : OnHeap Value :=
  OnHeap.broadcast
    (fun value => (value.asNumber (role part.name)).map fun number => .ofReal (partOf part number))
    argument

/-- A complex function of a number or of everything in a list. -/
def complex (function : ComplexFunction) (argument : Value) : OnHeap Value :=
  OnHeap.broadcast
    (fun value =>
      (value.asNumber (role function.name)).map fun number =>
        .number (complexValue function number))
    argument

/-- A real function of a number or of everything in a list. -/
def real (function : RealFunction) (argument : Value) : OnHeap Value :=
  OnHeap.broadcast
    (fun value =>
      (value.asReal (role function.name)).map fun real => .ofReal (realValue function real))
    argument

end Fixity.Numeric
