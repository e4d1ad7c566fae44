import Fixity.Syntax.Parser
import Fixity.Value.Walk

/-!
Contract: the native functions on syntax trees and on the parts of functions.

Owns:
- reading the parts of trees, always as copies;
- replacing parts in place; what is put into a tree is turned into a tree first;
- the parameters and the body of functions.
-/

namespace Fixity.Trees

open OnHeap

/-- Fails because a function needs another kind of tree. -/
def mismatch {α : Type} (builtin expected : String) (found : Node) : OnHeap α :=
  throw (.typeError (.wrongNode builtin expected found.kind.name))

/-- The end of the names of the functions on an operand. -/
def suffix : Side → String
  | .left => "left"
  | .right => "right"

/-- A copy of an operand of an operation. -/
def operand (side : Side) (node : Value) : OnHeap Value := do
  let builtin := "get" ++ suffix side
  match side, ← nodeOf node ("the argument of " ++ builtin) with
  | .left, .operation _ left _ => newNode left
  | .right, .operation _ _ right => newNode right
  | _, other => mismatch builtin "an operation" other

/-- Replaces an operand of an operation and answers the operation. -/
def setOperand (side : Side) (node operand : Value) : OnHeap Value := do
  let builtin := "set" ++ suffix side
  let handle ← node.asNode ("the first argument of " ++ builtin)
  let child ← lift operand
  match side, (← get).node handle with
  | .left, .operation operator _ right =>
      modifyNode handle fun _ => .operation operator child right
  | .right, .operation operator left _ =>
      modifyNode handle fun _ => .operation operator left child
  | _, other => mismatch builtin "an operation" other
  return node

/-- The operator of an operation. -/
def operator (node : Value) : OnHeap Value := do
  match ← nodeOf node "the argument of getop" with
  | .operation operator _ _ => newText operator
  | other => mismatch "getop" "an operation" other

/-- Replaces the operator of an operation and answers the operation. -/
def setOperator (node token : Value) : OnHeap Value := do
  let handle ← node.asNode "the first argument of setop"
  let token ← textOf token "the new operator"
  match (← get).node handle with
  | .operation _ left right => modifyNode handle fun _ => .operation token left right
  | other => mismatch "setop" "an operation" other
  return node

/-- The name of an identifier. -/
def name (node : Value) : OnHeap Value := do
  match ← nodeOf node "the argument of getname" with
  | .identifier name => newText name
  | other => mismatch "getname" "an identifier" other

/-- Renames an identifier and answers it. -/
def setName (node name : Value) : OnHeap Value := do
  let handle ← node.asNode "the first argument of setname"
  let name ← textOf name "the new name"
  match (← get).node handle with
  | .identifier _ => modifyNode handle fun _ => .identifier name
  | other => mismatch "setname" "an identifier" other
  return node

/-- The source of a text literal. -/
def source (node : Value) : OnHeap Value := do
  match ← nodeOf node "the argument of gettext" with
  | .text source _ => newText source
  | other => mismatch "gettext" "a text node" other

/-- Replaces the source of a text literal, read with the given levels, and answers the literal. -/
def setSource (levels : Syntax.Levels) (node text : Value) : OnHeap Value := do
  let handle ← node.asNode "the first argument of settext"
  let source ← textOf text "the new text"
  let segments ←
    ofOutcome ((Syntax.parseText levels source.toList).mapError RuntimeError.source)
  match (← get).node handle with
  | .text _ _ => modifyNode handle fun _ => .text source segments
  | other => mismatch "settext" "a text node" other
  return node

/-- Copies of the children of a list or an expression body. -/
def children (node : Value) : OnHeap Value := do
  let tree ← nodeOf node "the argument of getsubasts"
  match tree.children? with
  | some children => newListOf (← newNodes children)
  | none => mismatch "getsubasts" "a list or expression body" tree

/-- A copy of what a quoted tree quotes. -/
def quotation (node : Value) : OnHeap Value := do
  match ← nodeOf node "the argument of getast" with
  | .quoted inner => newNode inner
  | other => mismatch "getast" "a quoted node" other

/-- A copy of a function's body. -/
def body (function : Value) : OnHeap Value := do
  let handle ← function.asFunction "the argument of getbody"
  newNode ((← get).function handle).body

/-- Replaces a function's body and answers the function. -/
def setBody (function tree : Value) : OnHeap Value := do
  let handle ← function.asFunction "the first argument of setbody"
  let body ← lift tree
  modifyFunction handle fun content => { content with body := body }
  return function

/-- The names of a function's parameters. -/
def parameters (function : Value) : OnHeap Value := do
  let handle ← function.asFunction "the argument of getparams"
  newListOf (← newTexts ((← get).function handle).params)

/-- Whether a value passes a question about its type. -/
def passes (test : TypeTest) (value : Value) : OnHeap Bool := do
  match test, value with
  | .list, .list _ => return true
  | .number, .number _ => return true
  | .function, value => return value.isCallable
  | .text, .text _ => return true
  | .object, .object _ => return true
  | .node kind, .node handle => return ((← get).node handle).kind = kind
  | _, _ => return false

end Fixity.Trees
