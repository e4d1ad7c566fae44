import Fixity.Evaluator

/-!
Contract: relations between the states before and after an action.

Owns:
- `Eval.after`, the state that an action leaves, and `Eval.Keeps`, the actions within a relation;
- `Frame`, the relations that contain every elementary change evaluation makes and that its brackets
  respect.

Does not own: the rules of evaluation themselves.
-/

namespace Fixity

namespace Eval

variable {α β : Type}

/-- The state that an action leaves, whether it succeeds or fails. -/
def after (action : Eval α) (state : State) : State :=
  match action state with
  | .ok _ state => state
  | .error _ state => state

theorem after_of_ok {action : Eval α} {state state' : State} {value : α}
    (ok : action state = .ok value state') : action.after state = state' := by
  unfold after
  rw [ok]

theorem after_of_error {action : Eval α} {state state' : State} {failure : Failure}
    (failed : action state = .error failure state') : action.after state = state' := by
  unfold after
  rw [failed]

theorem bind_of_ok {action : Eval α} {next : α → Eval β} {state state' : State} {value : α}
    (ok : action state = .ok value state') : (action >>= next) state = next value state' := by
  show EStateM.bind action next state = _
  unfold EStateM.bind
  rw [ok]

theorem bind_of_error {action : Eval α} {next : α → Eval β} {state state' : State}
    {failure : Failure} (failed : action state = .error failure state') :
    (action >>= next) state = .error failure state' := by
  show EStateM.bind action next state = _
  unfold EStateM.bind
  rw [failed]

theorem bind_eq_ok {first : Eval α} {next : α → Eval β} {state after : State} {value : β}
    (ok : (first >>= next) state = .ok value after) :
    ∃ intermediate middle, first state = .ok intermediate middle ∧
      next intermediate middle = .ok value after := by
  cases ran : first state with
  | error failure left => cases (bind_of_error ran).symm.trans ok
  | ok intermediate middle => exact ⟨intermediate, middle, rfl, (bind_of_ok ran).symm.trans ok⟩

theorem bind_eq_of_eq {first second : Eval α} {next : α → Eval β} {state state' : State}
    (same : first state = second state') : (first >>= next) state = (second >>= next) state' := by
  show EStateM.bind first next state = EStateM.bind second next state'
  unfold EStateM.bind
  rw [same]

/-- Actions go on alike if they do from every state that the first of them can reach. -/
theorem bind_congr_at {action : Eval α} {next next' : α → Eval β} {state : State}
    (alike : ∀ value state', action state = .ok value state' →
      next value state' = next' value state') :
    (action >>= next) state = (action >>= next') state := by
  show EStateM.bind action next state = EStateM.bind action next' state
  unfold EStateM.bind
  cases ran : action state with
  | ok value state' => exact alike value state' ran
  | error failure state' => rfl

theorem onHeap_of_ok {action : OnHeap α} {state : State} {value : α} {heap : Heap}
    (ok : action state.heap = .ok value heap) :
    Eval.onHeap action state = .ok value { state with heap := heap } := by
  unfold Eval.onHeap
  simp only [ok]

theorem onHeap_of_error {action : OnHeap α} {state : State} {error : RuntimeError} {heap : Heap}
    (failed : action state.heap = .error error heap) :
    Eval.onHeap action state = .error (.error error) { state with heap := heap } := by
  unfold Eval.onHeap
  simp only [failed]

theorem defineOperator_of_ok {definition : Syntax.Definition} {implementation : Implementation}
    {state : State} {scope : Scope}
    (ok : state.scope.define definition implementation = .ok scope) :
    defineOperator definition implementation state = .ok () { state with scope := scope } := by
  show (ofOutcome (state.scope.define definition implementation) >>= _) state = _
  rw [ok]
  rfl

theorem defineOperator_of_error {definition : Syntax.Definition} {implementation : Implementation}
    {state : State} {error : RuntimeError}
    (failed : state.scope.define definition implementation = .error error) :
    defineOperator definition implementation state = .error (.error error) state := by
  show (ofOutcome (state.scope.define definition implementation) >>= _) state = _
  rw [failed]
  rfl

theorem after_ensuring (action : Eval α) (leave : State → State) (state : State) :
    (ensuring action leave).after state = leave (action.after state) := by
  unfold after ensuring
  cases action state <;> rfl

/-! ## Brackets -/

private theorem enterCall_eq (state : State) :
    enterCall state =
      if state.depth + 1 > maxDepth then .error (.error (.recursionLimit maxDepth)) state
      else .ok () { state with depth := state.depth + 1 } := by
  show (if state.depth + 1 > maxDepth then Eval.fail (.recursionLimit maxDepth)
    else modify fun state' => { state' with depth := state.depth + 1 }) state = _
  split <;> rfl

theorem asCall_of_tooDeep {action : Eval α} {state : State}
    (tooDeep : state.depth + 1 > maxDepth) :
    asCall action state = .error (.error (.recursionLimit maxDepth)) state :=
  bind_of_error ((enterCall_eq state).trans (if_pos tooDeep))

theorem asCall_of_counted {action : Eval α} {state : State}
    (counted : ¬ state.depth + 1 > maxDepth) :
    asCall action state =
      ensuring action leaveCall { state with depth := state.depth + 1 } :=
  bind_of_ok ((enterCall_eq state).trans (if_neg counted))

theorem after_asCall (action : Eval α) (state : State) :
    (asCall action).after state =
      if state.depth + 1 > maxDepth then state
      else leaveCall (action.after { state with depth := state.depth + 1 }) := by
  split
  · next tooDeep => exact after_of_error (asCall_of_tooDeep tooDeep)
  · next counted =>
      rw [← after_ensuring action leaveCall]
      unfold Eval.after
      rw [asCall_of_counted counted]

theorem after_withNames (named : List (String × Value)) (action : Eval α) (state : State) :
    (withNames named action).after state =
      let left := action.after { state with scope := state.scope.pushAll named }
      { left with scope := left.scope.popAll (named.map (·.1)) } :=
  after_ensuring action _ _

theorem after_inChild (closure : Bindings) (action : Eval α) (state : State) :
    (inChild closure action).after state =
      leaveScope (action.after
        { state with scope := state.scope.child closure, outer := state.scope :: state.outer }) :=
  after_ensuring action leaveScope _

theorem after_inAncestor (steps : Nat) (action : Eval α) (state : State) :
    (inAncestor steps action).after state =
      let reached := ascend steps state.scope state.outer
      putBack reached.1 (action.after { state with scope := reached.2.1, outer := reached.2.2 }) :=
  after_ensuring action _ _

/-- Going outward takes the scopes apart and loses none of them. -/
theorem ascend_append (steps : Nat) (scope : Scope) (outer : List Scope) :
    (ascend steps scope outer).1 ++
      (ascend steps scope outer).2.1 :: (ascend steps scope outer).2.2 = scope :: outer := by
  induction steps generalizing scope outer with
  | zero => rfl
  | succ steps inductionHypothesis =>
      cases outer with
      | nil => rfl
      | cons next outer => exact congrArg (scope :: ·) (inductionHypothesis next outer)

theorem putBack_append (aside : List Scope) (state : State) :
    (putBack aside state).scope :: (putBack aside state).outer =
      aside ++ state.scope :: state.outer := by
  cases aside <;> rfl

/-- Every state is related to the one that the action leaves. -/
def Keeps (related : State → State → Prop) (action : Eval α) : Prop :=
  ∀ state, related state (action.after state)

end Eval

open Eval

/-- The interpreter stays within a relation, whatever it is asked for. -/
def Interpreter.Keeps (related : State → State → Prop) (interpreter : Interpreter) : Prop :=
  ∀ request, Eval.Keeps related (interpreter request)

/-- The functions of the surrounding program stay within a relation if the interpreter they are
given does. -/
def Host.Keeps (related : State → State → Prop) (host : Host) : Prop :=
  ∀ name interpreter arguments, Interpreter.Keeps related interpreter →
    Eval.Keeps related (host name interpreter arguments)

/-- A relation that allows every elementary change of the state. A bracket need only stay within it
from outside; what holds between its two ends may be another thing. -/
structure Frame (related : State → State → Prop) : Prop where
  refl : ∀ state, related state state
  trans : ∀ {first second third}, related first second → related second third →
    related first third
  heap : ∀ state heap, related state { state with heap := heap }
  effects : ∀ state effects, related state { state with effects := effects }
  nextName : ∀ state number, state.nextName ≤ number →
    related state { state with nextName := number }
  bind : ∀ state name value, related state { state with scope := state.scope.bind name value }
  remove : ∀ state name, related state { state with scope := state.scope.remove name }
  define : ∀ state definition implementation scope,
    state.scope.define definition implementation = .ok scope →
      related state { state with scope := scope }
  asCall : ∀ {α : Type} {action : Eval α}, Eval.Keeps related action →
    Eval.Keeps related (asCall action)
  withNames : ∀ {α : Type} {action : Eval α} named, Eval.Keeps related action →
    Eval.Keeps related (withNames named action)
  inChild : ∀ {α : Type} {action : Eval α} closure, Eval.Keeps related action →
    Eval.Keeps related (inChild closure action)
  inAncestor : ∀ {α : Type} {action : Eval α} steps, Eval.Keeps related action →
    Eval.Keeps related (inAncestor steps action)

end Fixity
