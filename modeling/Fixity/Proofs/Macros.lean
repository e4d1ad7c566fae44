import Fixity.Proofs.Generations
import Fixity.Proofs.Unseen
import Fixity.Proofs.Visibility

/-!
Contract: operators that take the trees of their operands.

Owns:
- `Eval.Stages`, rows of interpreters that carry out requests as evaluation does, except perhaps
  calls beyond the limit;
- `State.Macro`, an operator whose function takes two trees and knows `eval_ast`, as the standard
  library defines them, and `Macro.meaning`, the value of a name in its body;
- `Eval.Stages.run_operation` and `Eval.Stages.run_frame`: an operation with such an operator is its
  body between two brackets;
- `Eval.Stages.run_outside`: the body can evaluate the trees in the scope around it.
-/

namespace Fixity

open Eval

/-- The name of the native function that evaluates trees. -/
def evaluatorName : String := "eval_ast"

namespace Eval

/-- Interpreters, one for each bound, that do what evaluation does with every request but a call
that is one too many. -/
structure Stages (host : Host) (stage : Nat → Interpreter) : Prop where
  zero : ∀ request, stage 0 request = throw .exhausted
  succ : ∀ {bound request state}, ¬ (request.isCall state.heap ∧ maxDepth < state.depth + 1) →
    stage (bound + 1) request state = step host bound (stage bound) request state

theorem stages_run (host : Host) : Stages host (run host) := ⟨fun _ => rfl, fun _ => rfl⟩

theorem stages_limit (host : Host) (instead : Eval Value) :
    Stages host fun bound => (Watch.limit instead).run host bound () where
  zero _ := rfl
  succ {bound request state} within := by
    have allowed : ¬ (Watch.limit instead).forbidden () request state := fun forbidden =>
      within (by simpa [Watch.limit] using forbidden)
    rw [Watch.run_succ, if_neg allowed]

/-! ## Operations -/

section Operations

variable {interpreter : Interpreter} {bound : Nat} {operator : String} {left right : Node}
  {state : State} (free : operator ∉ Syntax.reservedTokens)
include free

private theorem operation_eq :
    operation interpreter bound operator left right state =
      (match state.scope.operators.implementations.get? operator with
      | some implementation => userOperation interpreter implementation left right
      | none => nativeOperation interpreter bound operator left right) state := by
  have names : operator ≠ Syntax.bindToken ∧ operator ≠ Syntax.operatorBindToken ∧
      operator ≠ Syntax.macroBindToken := by
    simpa [Syntax.reservedTokens] using free
  unfold operation
  rw [if_neg names.1, if_neg (by simp [names])]
  rfl

theorem operation_of_implemented {implementation : Implementation}
    (implemented : state.scope.operators.implementations.get? operator = some implementation) :
    operation interpreter bound operator left right state =
      userOperation interpreter implementation left right state := by
  rw [operation_eq free, implemented]

theorem operation_of_native
    (native : state.scope.operators.implementations.get? operator = none) :
    operation interpreter bound operator left right state =
      nativeOperation interpreter bound operator left right state := by
  rw [operation_eq free, native]

end Operations

namespace Stages

variable {host : Host} {stage : Nat → Interpreter} (stages : Stages host stage)
include stages

theorem tree (bound : Nat) (node : Node) :
    stage (bound + 1) (.tree node) = Eval.tree (stage bound) bound node := by
  funext state
  exact stages.succ (by simp [Request.isCall])

theorem conditional {bound : Nat} {condition whenTrue whenFalse : Node} {state : State}
    (native : state.scope.operators.implementations.get? Syntax.conditionalToken = none) :
    stage (bound + 1)
        (.tree (.operation Syntax.conditionalToken condition (.list [whenTrue, whenFalse])))
        state =
      (do
        if (← stage bound (.tree condition)).isTruthy then stage bound (.tree whenTrue)
        else stage bound (.tree whenFalse)) state := by
  rw [stages.tree]
  exact operation_of_native (by decide) native

theorem identifier {bound : Nat} {name : String} {value : Value} {state : State}
    (found : state.scope.lookup? name = some value) :
    stage (bound + 1) (.tree (.identifier name)) state = .ok value state := by
  rw [stages.tree]
  have current : Eval.scope state = .ok state.scope state := rfl
  refine (bind_of_ok current).trans ?_
  rw [found]
  rfl

theorem callable_builtin (bound : Nat) (operator : String) {name : String} {handle : Nat}
    {state : State} (found : state.scope.lookup? name = some (.builtin handle)) :
    callable (stage (bound + 1)) operator (.identifier name) state =
      .ok (.builtin handle) state :=
  bind_of_ok (stages.identifier found)

end Stages

end Eval

/-! ## Bodies of operators -/

namespace State

/-- The state inside a further scope. -/
def framed (frame : Scope) (state : State) : State :=
  { state with scope := frame, outer := state.scope :: state.outer }

/-- The state in which an operator is applied to the trees of its operands. -/
def operands (left right : Node) (state : State) : State :=
  { state with
    heap := { state.heap with nodes := (state.heap.nodes.push left).push right } }

/-- The state around the body of such an operator, one call further in. -/
def applying (left right : Node) (state : State) : State :=
  { state.operands left right with depth := state.depth + 1 }

/-- The state with a further list. -/
def listed (values : List Value) (state : State) : State :=
  { state with heap := { state.heap with lists := state.heap.lists.push values.toArray } }

theorem list_listed (values : List Value) (state : State) :
    ((state.listed values).heap.list state.heap.lists.size).toList = values := by
  show Array.toList (Array.getD _ _ _) = _
  rw [Array.getD_eq_getD_getElem?]
  unfold State.listed
  simp

/-- An operator that takes the trees of its operands, and that was defined where `eval_ast` was the
native function. The function behind it is bound to no name. -/
structure Macro (state : State) (token first second : String) (body : Node) where
  handle : Nat
  evaluator : Nat
  closure : Bindings
  hidden : List Value
  implemented :
    state.scope.operators.implementations.get? token = some ⟨.function handle, false⟩
  function : state.heap.function handle = ⟨[first, second], body, closure, false, []⟩
  captured : closure.get? evaluatorName = some (.builtin evaluator :: hidden)
  evaluates : (state.heap.builtin evaluator).action = .native .evalAst

namespace Macro

variable {state : State} {token first second : String} {body : Node}
  (operator : state.Macro token first second body)

/-- The application of the operator's function to the trees. -/
def application : Request :=
  .application (.function operator.handle)
    [.node state.heap.nodes.size, .node (state.heap.nodes.size + 1)]

theorem isCall_application (left right : Node) :
    operator.application.isCall (state.operands left right).heap := by
  show (state.heap.function operator.handle).accepts 2 = true
  rw [operator.function]
  rfl

/-- The names that an application of the operator pushes. -/
def named : List (String × Value) :=
  [(first, .node state.heap.nodes.size), (second, .node (state.heap.nodes.size + 1)),
    (selfName, .function operator.handle)]

/-- The scope of the body. -/
def frame : Scope := (state.scope.child operator.closure).pushAll operator.named

/-- What happens when the body is done. -/
def leave (state : State) : State :=
  leaveCall (leaveScope
    { state with scope := state.scope.popAll (operator.named.map (·.1)) })

theorem operators_frame : operator.frame.operators = state.scope.operators :=
  Scope.operators_pushAll _ _

/-- The value of a name in the body: the operator's function, the trees of the operands, what there
was at its definition, or what is around the operation. -/
def meaning (name : String) : Option Value :=
  if name = selfName then some (.function operator.handle)
  else if name = second then some (.node (state.heap.nodes.size + 1))
  else if name = first then some (.node state.heap.nodes.size)
  else
    match operator.closure.get? name with
    | some stack => stack.head?
    | none => state.scope.lookup? name

theorem lookup?_frame (name : String) : operator.frame.lookup? name = operator.meaning name := by
  unfold frame meaning
  rw [Scope.lookup?_pushAll, Scope.lookup?_child]
  show (List.lookup name [(selfName, _), (second, _), (first, _)]).or _ = _
  simp only [List.lookup_cons, List.lookup_nil]
  split_ifs with own last front
  · rw [beq_iff_eq.mpr own]
    rfl
  · rw [beq_false_of_ne own, beq_iff_eq.mpr last]
    rfl
  · rw [beq_false_of_ne own, beq_false_of_ne last, beq_iff_eq.mpr front]
    rfl
  · rw [beq_false_of_ne own, beq_false_of_ne last, beq_false_of_ne front]
    rfl

theorem lookup?_frame_evaluator (names : evaluatorName ≠ first ∧ evaluatorName ≠ second) :
    operator.frame.lookup? evaluatorName = some (.builtin operator.evaluator) := by
  have own : evaluatorName ≠ selfName := by decide
  rw [lookup?_frame, meaning, if_neg own, if_neg names.2, if_neg names.1, operator.captured]
  rfl

theorem lookup?_frame_second (names : second ≠ selfName) :
    operator.frame.lookup? second = some (.node (state.heap.nodes.size + 1)) := by
  rw [lookup?_frame, meaning, if_neg names, if_pos rfl]

theorem lookup?_frame_first (names : first ≠ second ∧ first ≠ selfName) :
    operator.frame.lookup? first = some (.node state.heap.nodes.size) := by
  rw [lookup?_frame, meaning, if_neg names.2, if_neg names.1, if_pos rfl]

end Macro

end State

namespace Eval.Stages

variable {host : Host} {stage : Nat → Interpreter} (stages : Stages host stage)
include stages

/-- An operation with such an operator is the application of its function. -/
theorem run_operation {state : State} {token first second : String} {body : Node}
    (operator : state.Macro token first second body) (free : token ∉ Syntax.reservedTokens)
    (bound : Nat) (left right : Node) :
    stage (bound + 1) (.tree (.operation token left right)) state =
      stage bound operator.application (state.operands left right) := by
  have operands : userOperation (stage bound) ⟨.function operator.handle, false⟩ left right
      state = stage bound operator.application (state.operands left right) := by
    show stage bound (.application (.function operator.handle)
      [.node state.heap.nodes.size, .node (state.heap.nodes.push left).size])
        (state.operands left right) = _
    rw [Array.size_push]
    rfl
  rw [stages.tree]
  exact (operation_of_implemented free operator.implemented).trans operands

/-- That application is the body between two brackets. -/
theorem run_frame {state : State} {token first second : String} {body : Node}
    (operator : state.Macro token first second body) (bound : Nat) (left right : Node)
    (room : state.depth + 1 ≤ maxDepth) :
    stage (bound + 1) operator.application (state.operands left right) =
      ensuring (stage bound (.tree body)) operator.leave
        ((state.applying left right).framed operator.frame) := by
  let applied := state.operands left right
  let arguments : List Value :=
    [.node state.heap.nodes.size, .node (state.heap.nodes.size + 1)]
  have counted : ¬ applied.depth + 1 > maxDepth := Nat.not_lt.mpr room
  rw [stages.succ fun beyond => counted beyond.2]
  show (do
    let function := state.heap.function operator.handle
    if function.accepts 2 then
      asCall (inChild function.closure
        (runBody (stage bound) (.function operator.handle) function arguments))
    else fail (.argumentCount function.arity 2) : Eval Value) applied = _
  rw [operator.function]
  have inside : runBody (stage bound) (.function operator.handle)
      ⟨[first, second], body, operator.closure, false, []⟩ arguments
      (State.inward operator.closure { applied with depth := applied.depth + 1 }) =
      ensuring (stage bound (.tree body))
        (fun state => { state with scope := state.scope.popAll (operator.named.map (·.1)) })
        ((state.applying left right).framed operator.frame) := rfl
  have child : inChild operator.closure (runBody (stage bound) (.function operator.handle)
      ⟨[first, second], body, operator.closure, false, []⟩ arguments)
      { applied with depth := applied.depth + 1 } = _ :=
    ensuring_of_eq inside leaveScope
  exact (asCall_of_counted counted).trans (ensuring_of_eq child leaveCall)

/-- `eval_ast @!! name` evaluates the tree that the name stands for in the scope around. -/
theorem run_outside (bound : Nat) {handle evaluator : Nat} {name : String} {frame : Scope}
    {state : State}
    (native : frame.operators.implementations.get? "@!!" = none)
    (known : frame.lookup? evaluatorName = some (.builtin evaluator))
    (named : frame.lookup? name = some (.node handle))
    (evaluates : (state.heap.builtin evaluator).action = .native .evalAst) :
    stage (bound + 2)
        (.tree (.operation "@!!" (.identifier evaluatorName) (.identifier name)))
        (state.framed frame) =
      ensuring (stage bound (.tree (state.heap.node handle))) (State.framed frame) state := by
  have callee : callable (stage (bound + 1)) "@!!" (.identifier evaluatorName)
      (state.framed frame) = .ok (.builtin evaluator) (state.framed frame) :=
    stages.callable_builtin bound "@!!" known
  have argument : stage (bound + 1) (.tree (.identifier name)) (state.framed frame) =
      .ok (.node handle) (state.framed frame) := stages.identifier named
  have applied : stage (bound + 1) (.scopedApplication 1 (.builtin evaluator) [.node handle])
      (state.framed frame) =
      ensuring (stage bound (.tree (state.heap.node handle))) (State.framed frame) state := by
    rw [stages.succ (by simp [Request.isCall])]
    have called : call host (stage bound) false (.builtin evaluator) [.node handle] state =
        stage bound (.tree (state.heap.node handle)) state := by
      show callBuiltin host (stage bound) (state.heap.builtin evaluator) [.node handle] state = _
      unfold callBuiltin
      rw [evaluates]
      rfl
    show ensuring (call host (stage bound) false (.builtin evaluator) [.node handle])
      (State.framed frame) state = _
    unfold ensuring
    rw [called]
  rw [stages.tree]
  refine (operation_of_native (by decide) native).trans ?_
  refine (bind_of_ok callee).trans ((bind_of_ok argument).trans ?_)
  exact applied

end Eval.Stages

end Fixity
