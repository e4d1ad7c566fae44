import Fixity.Native.Collection
import Fixity.Request

/-!
Contract: the native functions that look at evaluation itself.

Owns:
- evaluation of texts and trees in the current scope;
- fresh names, deletion and listing of names;
- the view of the operator table;
- recovery from errors, and raising them.
-/

namespace Fixity.Reflection

/-- Evaluates a text as source; any other value stands for itself. -/
def evaluate (interpreter : Interpreter) (value : Value) : Eval Value := do
  match value with
  | .text handle => interpreter.evaluate ((← get).heap.text handle)
  | other => return other

/-- Evaluates a tree; any other value stands for itself. -/
def evaluateTree (interpreter : Interpreter) (value : Value) : Eval Value := do
  match value with
  | .node handle => interpreter.eval ((← get).heap.node handle)
  | other => return other

/-- The generated name with a given number. Names are numbered in 64 bits: behind the last of them
the numbers start again at zero. -/
def generatedName (number : Nat) : String := "$g" ++ toString (number % UInt64.size)

/-- The first number from a given one on whose generated name has no visible value, if there is one
within a number of tries. -/
def firstFree (scope : Scope) : (tries : Nat) → (number : Nat) → Option Nat
  | 0, _ => none
  | tries + 1, number =>
      if scope.isBound (generatedName number) then firstFree scope tries (number + 1)
      else some number

/-- An identifier whose name has no visible value and was not generated before. With more tries than
bindings, none is found only if all names that can be generated have a value. -/
def freshName : Eval Value := do
  let state ← get
  match firstFree state.scope (state.scope.bindings.size + 1) state.nextName with
  | some number =>
      modify fun state => { state with nextName := number + 1 }
      OnHeap.newNode (.identifier (generatedName number))
  | none => throw .exhausted

/-- The name that an identifier or a text stands for. -/
def nameOf (value : Value) : OnHeap String := do
  match value with
  | .node handle =>
      match ((← get).node handle).name? with
      | some name => return name
      | none => throw (.typeError .deletionNotIdentifier)
  | other => OnHeap.textOf other "a name to delete"

/-- Removes all values of the names. -/
def delete (names : List Value) : Eval Value := do
  let names ← Eval.onHeap (names.mapM nameOf)
  Eval.modifyScope fun scope => names.foldl Scope.remove scope
  return .ofBool true

/-- The names that have a visible value, ascending. -/
def visibleNames : Eval Value := do
  let names ← OnHeap.newTexts (← Eval.scope).names
  OnHeap.newListOf names

/-- A list of the operators of a level and its associativity. -/
def levelRow (level : Syntax.Level) : OnHeap Value := do
  let operators ← OnHeap.newListOf (← OnHeap.newTexts level.operators)
  OnHeap.newListOf [operators, ← OnHeap.newText level.associativity.name]

/-- All levels, the tightest first. -/
def levelTable : Eval Value := do
  let rows ← Eval.onHeap ((← Eval.levels).mapM levelRow)
  OnHeap.newListOf rows

/-- The index of an operator's level, or `-1`. -/
def priority (token : Value) : Eval Value := do
  let token ← OnHeap.textOf token "the operator"
  match (← Eval.levels).levelOf? token with
  | some level => return .ofNat level
  | none => return .ofReal (-1.0)

/-- Runs an action and, if it fails with an error of the language, another one. -/
def recovering (attempt fallback : Eval Value) : Eval Value := fun state =>
  match attempt state with
  | .error (.error _) state => fallback state
  | result => result

/-- Evaluates a tree and, if that fails, another one. The two are given one by one or in a list. -/
def tryCatch (interpreter : Interpreter) (arguments : List Value) : Eval Value := do
  let clauses ←
    match arguments with
    | [list] => Eval.onHeap (Collection.elements list "the clauses of trycatch")
    | clauses => pure clauses
  match clauses with
  | [attempt, fallback] =>
      let attempt ← attempt.asNode "the first clause of trycatch"
      let fallback ← fallback.asNode "the second clause of trycatch"
      recovering
        (do interpreter.eval ((← get).heap.node attempt))
        (do interpreter.eval ((← get).heap.node fallback))
  | clauses => Eval.fail (.argumentCount "2 clauses" clauses.length)

/-- Fails with the display form of a value. -/
def raise (value : Value) : Eval Value := do
  Eval.fail (.user ((← get).heap.display value))

end Fixity.Reflection
