import Fixity.Syntax.Node

/-!
Contract: the source form of syntax trees.

Owns:
- `Node.render`, the characters of a tree, in which every operand that is an operation stands in
  parentheses;
- `Node.display`, the same as a string.

Does not own: the display form of values.
-/

namespace Fixity.Node

/-- A real number as a literal; the language writes a minus sign as `~`. -/
def renderReal (value : Float) : List Char :=
  if value < 0.0 then '~' :: (Decimal.write (-value)).toList else (Decimal.write value).toList

/-- A number as a literal or, if both parts differ from zero, as a sum in parentheses. -/
def renderNumber (number : Number) : List Char :=
  if number.isReal then renderReal number.real
  else if number.isImaginary then renderReal number.imaginary ++ ['i']
  else
    '(' :: renderReal number.real ++ " + ".toList ++ renderReal number.imaginary ++ ['i', ')']

/-- Parentheses around the form of an operation, none around that of any other tree. -/
def enclose (node : Node) (form : List Char) : List Char :=
  match node with
  | .operation _ _ _ => '(' :: form ++ [')']
  | _ => form

mutual

/-- The characters of a tree. -/
def render : Node → List Char
  | .body statements => '(' :: renderAll [';', ' '] statements ++ [')']
  | .list elements => '[' :: renderAll [',', ' '] elements ++ [']']
  | .number value => renderNumber value
  | .text source _ => '\x7b' :: source.toList ++ ['\x7d']
  | .identifier name => name.toList
  | .operation operator left right =>
      enclose left (render left) ++ ' ' :: operator.toList ++ ' ' :: enclose right (render right)
  | .quoted inner => '\x60' :: '\x7b' :: render inner ++ ['\x7d']

/-- The characters of a row of trees with a separator between neighbours. -/
def renderAll (separator : List Char) : List Node → List Char
  | [] => []
  | [node] => render node
  | node :: next :: rest => render node ++ separator ++ renderAll separator (next :: rest)

end

/-- The source form of a tree. -/
def display (node : Node) : String := String.ofList node.render

end Fixity.Node
