import Fixity.Native.Collection
import Fixity.Request

/-!
Contract: the native functions that apply a callable to every item of a container.

Owns:
- the items such a function walks, taken once before the first application;
- mapping, filtering and folding, each stopping at the first failure.
-/

namespace Fixity.Folding

/-- The items of a list or a tree, or the characters of a text. -/
def items (value : Value) (role : String) : OnHeap (List Value) := do
  match value with
  | .text handle =>
      OnHeap.newTexts (((← get).text handle).toList.map fun char => char.toString)
  | other => Collection.elements other role

/-- Refuses a first argument that can not be applied. -/
def requireCallable (function : Value) (builtin : String) : Eval Unit :=
  if function.isCallable then pure ()
  else Eval.fail (.notCallable ("the first argument of " ++ builtin))

/-- The items of a second argument. -/
def itemsFor (builtin : String) (container : Value) : Eval (List Value) :=
  Eval.onHeap (items container ("the second argument of " ++ builtin))

/-- A new list of the results for every item. -/
def map (interpreter : Interpreter) (function container : Value) : Eval Value := do
  requireCallable function "map"
  let items ← itemsFor "map" container
  let results ← items.mapM fun item => interpreter.apply function [item]
  OnHeap.newListOf results

/-- The items for which the function answers something true; `passed` holds in reverse those found
already. -/
def kept (interpreter : Interpreter) (function : Value) (passed : List Value) :
    List Value → Eval (List Value)
  | [] => return passed.reverse
  | item :: rest => do
      let answer ← interpreter.apply function [item]
      kept interpreter function (if answer.isTruthy then item :: passed else passed) rest

/-- A new list of the items for which the function answers something true. -/
def filter (interpreter : Interpreter) (function container : Value) : Eval Value := do
  requireCallable function "filter"
  let items ← itemsFor "filter" container
  OnHeap.newListOf (← kept interpreter function [] items)

/-- Every accumulator of a fold from the left, the last one first. -/
def accumulators (interpreter : Interpreter) (function accumulator : Value)
    (earlier : List Value) : List Value → Eval (List Value)
  | [] => return accumulator :: earlier
  | item :: rest => do
      let next ← interpreter.apply function [accumulator, item]
      accumulators interpreter function next (accumulator :: earlier) rest

/-- The name of a fold. -/
def foldName (history : Bool) : String := if history then "accumulate" else "reduce"

/-- Folds from the left, starting from a given value or from the first item. Answers the last
accumulator or, as a history, the list of all of them. -/
def fold (interpreter : Interpreter) (history : Bool) (function container : Value)
    (start : Option Value) : Eval Value := do
  let builtin := foldName history
  requireCallable function builtin
  let items ← itemsFor builtin container
  let (first, rest) ←
    match start, items with
    | some first, items => pure (first, items)
    | none, first :: rest => pure (first, rest)
    | none, [] => Eval.fail (.invalidArgument (.emptyFold builtin))
  let results ← accumulators interpreter function first [] rest
  if history then OnHeap.newListOf results.reverse
  else return results.headD .zero

end Fixity.Folding
