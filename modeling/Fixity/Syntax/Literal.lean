import Fixity.Number

/-!
Contract: number literals and names.

Owns:
- the characters of operators, names and digits;
- the grammar of number literals, `~?d+(.d*)?([eE][+-]?d+)?i?`, and of names,
  `[a-zA-Z_$][a-zA-Z0-9_$]*`;
- what a literal stands for.
-/

namespace Fixity.Syntax

/-- The glyph of a negative literal. -/
def negativeGlyph : Char := '~'

/-- Whether a character may stand in an operator. -/
def isOperatorChar (char : Char) : Bool :=
  char ∈ ['!', '#', '%', '&', '\'', '*', '+', '-', '.', '/', ':', '<', '=', '>', '?', '@', '^', '|']

/-- Whether a character may start a name. -/
def isNameStart (char : Char) : Bool := char.isAlpha || char = '_' || char = '$'

/-- Whether a character may continue a name. -/
def isNameChar (char : Char) : Bool := char.isAlphanum || char = '_' || char = '$'

/-- What a token stands for when it is no operator and no group. -/
inductive Literal where
  | number (value : Number)
  | name (spelling : String)

/-- The rest of a text after a given character, or the text itself with `false`. -/
def skipChar (expected : Char) : List Char → Bool × List Char
  | char :: rest => if char = expected then (true, rest) else (false, char :: rest)
  | [] => (false, [])

/-- The fraction digits at the head of a text that goes on after the whole digits. -/
def readFraction (text : List Char) : List Char × List Char :=
  match skipChar '.' text with
  | (true, rest) => rest.span Char.isDigit
  | (false, rest) => ([], rest)

/-- The exponent at the head of a text; none is the exponent zero. -/
def readExponent? (text : List Char) : Option (Int × List Char) :=
  match text with
  | [] => some (0, [])
  | mark :: rest =>
      if mark = 'e' ∨ mark = 'E' then
        let (negative, digits) :=
          match rest with
          | '-' :: digits => (true, digits)
          | '+' :: digits => (false, digits)
          | digits => (false, digits)
        let (power, rest) := digits.span Char.isDigit
        if power.isEmpty then none
        else
          let magnitude : Int := Decimal.natOfDigits power
          some (if negative then -magnitude else magnitude, rest)
      else
        some (0, text)

/-- The number that a whole token spells. -/
def readNumber? (token : List Char) : Option Number := do
  let (negative, rest) := skipChar negativeGlyph token
  let (whole, rest) := rest.span Char.isDigit
  if whole.isEmpty then none
  else
    let (fraction, rest) := readFraction rest
    let (exponent, rest) ← readExponent? rest
    let (imaginary, rest) := skipChar 'i' rest
    let magnitude := (Decimal.ofParts whole fraction exponent).toFloat
    let value := if negative then -magnitude else magnitude
    if rest.isEmpty then
      some (if imaginary then ⟨0.0, value⟩ else ⟨value, 0.0⟩)
    else
      none

/-- The name that a whole token spells. -/
def readName? (token : List Char) : Option String :=
  match token with
  | [] => none
  | first :: others =>
      if isNameStart first && others.all isNameChar then some (String.ofList token) else none

/-- What a token stands for, if all of it is one number or one name. -/
def classify (token : List Char) : Option Literal :=
  match readNumber? token with
  | some number => some (.number number)
  | none => (readName? token).map .name

end Fixity.Syntax
