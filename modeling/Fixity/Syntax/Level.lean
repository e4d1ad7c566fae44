import Fixity.Error
import Fixity.Syntax.Literal

/-!
Contract: the precedence levels that make up the grammar.

Owns:
- `Levels`, rows of operators from the tightest to the loosest binding one;
- the operators with a meaning of their own;
- the level of an operator, the characters operators are made of;
- `Levels.define`, the placing of an operator at a requested precedence.

Does not own: what operators do.
-/

namespace Fixity.Syntax

/-! ## Operators with a meaning of their own -/

/-- Binds a name or destructures into a list of names. -/
def bindToken : String := ":"

/-- Defines an operator that takes values. -/
def operatorBindToken : String := "<<"

/-- Defines an operator that takes syntax trees. -/
def macroBindToken : String := "<<<"

/-- Application in a scope of its own. -/
def applicationToken : String := "@"

/-- The glyph that follows `@` in applications without a scope of their own. -/
def scopeMarker : Char := '!'

/-- Defines a function of a fixed number of arguments. -/
def definitionToken : String := "->"

/-- Defines a function whose last parameter takes all further arguments. -/
def variadicToken : String := "=>"

/-- Supplies some arguments of a function. -/
def partialToken : String := "'"

/-- Chooses between two branches. -/
def conditionalToken : String := "?"

/-- Repeats while a condition holds. -/
def whileToken : String := "!!"

/-- Repeats with an initial step, a condition and an update. -/
def forToken : String := "#"

/-- The operators that can not be defined anew. -/
def reservedTokens : List String := [bindToken, operatorBindToken, macroBindToken]

/-- Whether a text is `@` with nothing but scope markers behind it. -/
def isApplication (token : String) : Bool :=
  match token.toList with
  | '@' :: markers => markers.all (· = scopeMarker)
  | _ => false

/-! ## Levels -/

/-- How a row of operators of one level groups. -/
inductive Associativity where
  | left
  | right
deriving DecidableEq

namespace Associativity

def name : Associativity → String
  | left => "left"
  | right => "right"

/-- The associativity that a text names. -/
def read (text : String) : Outcome Associativity :=
  if text = "left" then .ok left
  else if text = "right" then .ok right
  else .error (.invalidArgument (.associativity text))

end Associativity

/-- Operators that bind equally tight, in the order of their definition. -/
structure Level where
  operators : List String
  associativity : Associativity
deriving DecidableEq

/-- All levels, the tightest first. -/
abbrev Levels := List Level

/-- The levels before any definition. -/
def Levels.initial : Levels :=
  [⟨[partialToken], .left⟩,
    ⟨[applicationToken], .left⟩,
    ⟨["^"], .left⟩,
    ⟨["*", "/"], .left⟩,
    ⟨["%", "+", "-"], .left⟩,
    ⟨["=", "!=", "<", ">", "<=", ">="], .left⟩,
    ⟨[conditionalToken], .left⟩,
    ⟨[whileToken, forToken], .left⟩,
    ⟨[definitionToken, variadicToken], .right⟩,
    ⟨[bindToken, operatorBindToken, macroBindToken], .left⟩]

/-- A request to place an operator. A fractional precedence asks for a level of its own. -/
structure Definition where
  token : String
  precedence : Float
  associativity : Associativity
  /-- Whether a level that groups the other way is turned around. -/
  force : Bool

namespace Levels

/-- The index of the level in which a token is listed. -/
def indexOf? (levels : Levels) (token : String) : Option Nat :=
  levels.findIdx? (fun level => level.operators.contains token)

/-- The level of an operator; `@!`, `@!!` and so on stand beside `@` unless listed themselves. -/
def levelOf? (levels : Levels) (token : String) : Option Nat :=
  match levels.indexOf? token with
  | some index => some index
  | none => if isApplication token then levels.indexOf? applicationToken else none

/-- Whether a token is an operator. -/
def contains (levels : Levels) (token : String) : Bool := (levels.levelOf? token).isSome

/-- All listed operators. -/
def tokens (levels : Levels) : List String := levels.flatMap (·.operators)

/-- The characters of which operators are made, each of them once. -/
def characters (levels : Levels) : List Char :=
  (scopeMarker :: levels.tokens.flatMap (·.toList)).eraseDups

/-- These characters in ascending order. -/
def glyphs (levels : Levels) : List Char :=
  levels.characters.mergeSort (fun a b => decide (a ≤ b))

/-- The levels without an operator; a level that has no other goes as well. -/
def erase (levels : Levels) (token : String) : Levels :=
  (levels.map fun level => { level with operators := level.operators.filter (· ≠ token) }).filter
    fun level => !level.operators.isEmpty

/-- Lists a token last at the level with a given index. -/
def join (levels : Levels) (index : Nat) (definition : Definition) : Outcome Levels :=
  match levels[index]? with
  | none => .error (.invalidPrecedence (.noLevel index levels.length))
  | some level =>
      if level.associativity ≠ definition.associativity ∧ ¬ definition.force then
        .error (.associativityConflict index level.associativity.name
          definition.associativity.name)
      else
        .ok (levels.set index
          ⟨level.operators ++ [definition.token], definition.associativity⟩)

/-- Opens a level for a token right behind the level with a given index. -/
def openBehind (levels : Levels) (index : Nat) (definition : Definition) :
    Outcome Levels :=
  if index < levels.length then
    .ok (levels.insertIdx (index + 1) ⟨[definition.token], definition.associativity⟩)
  else
    .error (.invalidPrecedence (.noLevel index levels.length))

/-- The index in front of the point; indices end at `2 ^ 64 - 1`. -/
def indexAt (precedence : Float) : Nat := min (Double.wholePart precedence) ((1 <<< 64) - 1)

/-- Places an operator, which first leaves the level it had. -/
def define (levels : Levels) (definition : Definition) : Outcome Levels :=
  let token := definition.token
  let precedence := definition.precedence
  if token ∈ reservedTokens then .error (.invalidOperator (.reserved token))
  else if token.isEmpty || !token.toList.all isOperatorChar then
    .error (.invalidOperator (.notOperatorText token))
  else if !precedence.isFinite || precedence < 0.0 then
    .error (.invalidPrecedence (.unusable precedence))
  else if Double.isFractional precedence then
    (levels.erase token).openBehind (indexAt precedence) definition
  else
    (levels.erase token).join (indexAt precedence) definition

end Levels

end Fixity.Syntax
