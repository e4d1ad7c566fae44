import Fixity.Scope
import Fixity.Value.Heap

/-!
Contract: what evaluation reads and changes.

Owns:
- `State`, the heap, the scopes from the current one outward, and the counters;
- `Failure`, why evaluation can end without a value, and `Eval`, evaluation itself;
- the brackets that undo their change on success and on failure: calls, pushed names, the scope of
  a call, and the stay in an outer scope.

A failed evaluation keeps the changes it made.
-/

namespace Fixity

/-- Something the surrounding program has to do. -/
inductive Effect where
  | line (text : String)
  | pause (seconds : Float)

/-- Why evaluation ended without a value. Only errors are the language's own. -/
inductive Failure where
  | error (error : RuntimeError)
  /-- A cell was to be read in the middle of a change to it. -/
  | conflict
  /-- The surrounding program has not provided a file. -/
  | fileNeeded (path : String)
  /-- The bound on the number of steps was reached. -/
  | exhausted

/-- What evaluation reads and changes. -/
structure State where
  heap : Heap
  scope : Scope
  /-- The scopes around the current one, innermost first. -/
  outer : List Scope
  /-- The number of calls that are under way. -/
  depth : Nat
  /-- The number of the next generated name, all numbers counted that were tried so far. -/
  nextName : Nat
  effects : Array Effect

namespace State

/-- The state before anything was evaluated, in a given scope. -/
def initial (scope : Scope) (heap : Heap) : State := ⟨heap, scope, [], 0, 0, #[]⟩

instance : Inhabited State := ⟨initial .empty .empty⟩

end State

/-- Evaluation. Changes made before a failure stay. -/
abbrev Eval := EStateM Failure State

namespace Eval

variable {α : Type}

/-- Fails with an error of the language. -/
def fail (error : RuntimeError) : Eval α := throw (.error error)

/-- An outcome that does not depend on the state. -/
def ofOutcome (outcome : Outcome α) : Eval α := fun state =>
  match outcome with
  | .ok value => .ok value state
  | .error error => .error (.error error) state

instance : MonadLift Outcome Eval := ⟨ofOutcome⟩

/-- The result of reading source text. -/
def ofSyntax (result : Except SyntaxError α) : Eval α :=
  ofOutcome (result.mapError RuntimeError.source)

/-- A computation on the heap. -/
def onHeap (action : OnHeap α) : Eval α := fun state =>
  match state with
  | ⟨heap, scope, outer, depth, nextName, effects⟩ =>
      match action heap with
      | .ok value heap => .ok value ⟨heap, scope, outer, depth, nextName, effects⟩
      | .error error heap => .error (.error error) ⟨heap, scope, outer, depth, nextName, effects⟩

instance : MonadLift OnHeap Eval := ⟨onHeap⟩

/-- The current scope. -/
def scope : Eval Scope := return (← get).scope

/-- The levels of the current scope. -/
def levels : Eval Syntax.Levels := return (← scope).operators.levels

/-- Changes the current scope. -/
def modifyScope (change : Scope → Scope) : Eval Unit :=
  modify fun state => { state with scope := change state.scope }

/-- Hands an effect to the surrounding program. -/
def emit (effect : Effect) : Eval Unit :=
  modify fun state => { state with effects := state.effects.push effect }

/-! ## Brackets -/

/-- Runs an action and then a change of state, whether the action succeeds or fails. -/
def ensuring (action : Eval α) (leave : State → State) : Eval α := fun state =>
  match action state with
  | .ok value state => .ok value (leave state)
  | .error failure state => .error failure (leave state)

/-- The greatest number of calls under way at one time. -/
def maxDepth : Nat := 10000

/-- Counts a call, unless there are too many. -/
def enterCall : Eval Unit := do
  let depth := (← get).depth + 1
  if depth > maxDepth then fail (.recursionLimit maxDepth)
  else modify fun state => { state with depth := depth }

/-- Counts a call as finished. -/
def leaveCall (state : State) : State := { state with depth := state.depth - 1 }

/-- Runs an action as a call. -/
def asCall (action : Eval α) : Eval α := do
  enterCall
  ensuring action leaveCall

/-- Runs an action while values are pushed under names. -/
def withNames (named : List (String × Value)) (action : Eval α) : Eval α := do
  modifyScope fun scope => scope.pushAll named
  ensuring action fun state =>
    { state with scope := state.scope.popAll (named.map (·.1)) }

/-- Goes back to the scope around the current one. -/
def leaveScope (state : State) : State :=
  match state.outer with
  | [] => state
  | scope :: outer => { state with scope := scope, outer := outer }

/-- Runs an action in a new scope inside the current one. -/
def inChild (closure : Bindings) (action : Eval α) : Eval α := do
  modify fun state =>
    { state with scope := state.scope.child closure, outer := state.scope :: state.outer }
  ensuring action leaveScope

/-- Sets aside scopes from the current one outward, as far as there are any, and answers them, the
current one first, with the scopes that are left. -/
def ascend : (steps : Nat) → Scope → List Scope → List Scope × Scope × List Scope
  | steps + 1, scope, next :: outer =>
      let (aside, found, rest) := ascend steps next outer
      (scope :: aside, found, rest)
  | _, scope, outer => ([], scope, outer)

/-- Puts back scopes that were set aside. -/
def putBack (aside : List Scope) (state : State) : State :=
  match aside with
  | [] => state
  | scope :: others => { state with scope := scope, outer := others ++ state.scope :: state.outer }

/-- Runs an action in the scope a number of steps outward, or in the outermost one. -/
def inAncestor (steps : Nat) (action : Eval α) : Eval α := fun state =>
  let (aside, scope, outer) := ascend steps state.scope state.outer
  ensuring action (putBack aside) { state with scope := scope, outer := outer }

end Eval

end Fixity
