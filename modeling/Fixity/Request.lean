import Fixity.State

/-!
Contract: the work that evaluation is made of.

Owns:
- `Request`, a tree or a source to evaluate in the current scope, or a callable to apply, in a scope
  of its own or in one that is there already;
- `Interpreter`, anything that carries out requests;
- `Host`, the functions that the surrounding program adds.
-/

namespace Fixity

/-- A piece of work. -/
inductive Request where
  | tree (node : Node)
  | source (text : String)
  /-- Applies a callable to arguments, in a new scope if it is written in the language. -/
  | application (callee : Value) (arguments : List Value)
  /-- Applies a callable to arguments in the scope a number of steps outward. -/
  | scopedApplication (steps : Nat) (callee : Value) (arguments : List Value)

/-- Carries out requests. -/
abbrev Interpreter := Request → Eval Value

namespace Interpreter

/-- The value of a tree in the current scope. -/
def eval (interpreter : Interpreter) (node : Node) : Eval Value := interpreter (.tree node)

/-- The value of a source in the current scope. -/
def evaluate (interpreter : Interpreter) (text : String) : Eval Value := interpreter (.source text)

/-- The result of applying a callable. -/
def apply (interpreter : Interpreter) (callee : Value) (arguments : List Value) : Eval Value :=
  interpreter (.application callee arguments)

/-- The result of applying a callable in the scope a number of steps outward. -/
def applyAround (interpreter : Interpreter) (steps : Nat) (callee : Value)
    (arguments : List Value) : Eval Value :=
  interpreter (.scopedApplication steps callee arguments)

end Interpreter

/-- What the functions of the surrounding program do, given their name and their arguments. -/
abbrev Host := String → Interpreter → List Value → Eval Value

end Fixity
