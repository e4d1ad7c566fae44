import Fixity.Proofs.Macros

/-!
Contract: the logical operators of the standard library.

Owns:
- `Branch`, what is left to do when the first operand is known;
- `State.ShortCircuits`, the states in which `&&` and `||` are those of the standard library;
- `State.Choice.run_unlimited`: an operation with an operator that chooses does what its conditional
  does in its place.

Does not own: that the standard library defines such operators.
-/

namespace Fixity

open Eval

/-! ## Branches -/

/-- What is left to do when the first operand is known: nothing, or a test of the second one. -/
inductive Branch where
  | answer (value : Number)
  | test (whenTrue whenFalse : Number)

namespace Branch

/-- The tree of a branch. -/
def tree (second : Node) : Branch → Node
  | answer value => .number value
  | test whenTrue whenFalse =>
      .operation Syntax.conditionalToken second (.list [.number whenTrue, .number whenFalse])

/-- The value of a branch, given what evaluates the second operand. -/
def run (second : Eval Value) : Branch → Eval Value
  | answer value => return .number value
  | test whenTrue whenFalse => do
      if (← second).isTruthy then return .number whenTrue else return .number whenFalse

end Branch

/-- The conditional that the branches make of two operands. -/
def Node.choice (first second : Node) (whenTrue whenFalse : Branch) : Node :=
  .operation Syntax.conditionalToken first
    (.list [whenTrue.tree second, whenFalse.tree second])

/-- The tree `eval_ast @!! name`. -/
def Node.outside (name : String) : Node :=
  .operation "@!!" (.identifier evaluatorName) (.identifier name)

/-- The value of such a conditional, given what evaluates the operands. -/
def Branch.choose (first second : Eval Value) (whenTrue whenFalse : Branch) : Eval Value := do
  if (← first).isTruthy then whenTrue.run second else whenFalse.run second

theorem Passage.Follows.branch {p : Passage} {first second : Eval Value}
    (follows : p.Follows first second) (branch : Branch) :
    p.Follows (branch.run first) (branch.run second) := by
  cases branch with
  | answer value => exact .pure rfl
  | test whenTrue whenFalse =>
      refine .bind follows fun answer => ?_
      rw [Insertion.renumber_value, Insertion.isTruthy_value]
      exact .ite (.pure rfl) (.pure rfl)

theorem Passage.Follows.choose {p : Passage} {first first' second second' : Eval Value}
    (follows : p.Follows first first') (follows' : p.Follows second second')
    (whenTrue whenFalse : Branch) :
    p.Follows (Branch.choose first second whenTrue whenFalse)
      (Branch.choose first' second' whenTrue whenFalse) := by
  refine .bind follows fun answer => ?_
  rw [Insertion.renumber_value, Insertion.isTruthy_value]
  exact .ite (follows'.branch whenTrue) (follows'.branch whenFalse)

namespace Eval.Stages

variable {host : Host} {stage : Nat → Interpreter} (stages : Stages host stage)
include stages

theorem number (bound : Nat) (value : Number) (state : State) :
    stage (bound + 1) (.tree (.number value)) state = .ok (.number value) state := by
  rw [stages.tree]
  rfl

/-! ## In the place of the operation -/

private theorem branch_inside {bound : Nat} {second : Node} {state : State} (branch : Branch)
    (native : state.scope.operators.implementations.get? Syntax.conditionalToken = none) :
    stage (bound + 1) (.tree (branch.tree second)) state =
      branch.run (stage bound (.tree second)) state := by
  cases branch with
  | answer value => exact stages.number bound value state
  | test whenTrue whenFalse =>
      refine (stages.conditional native).trans (bind_congr_at fun value reached ran => ?_)
      cases bound with
      | zero =>
          rw [stages.zero] at ran
          cases ran
      | succ bound =>
          split
          · exact stages.number bound whenTrue reached
          · exact stages.number bound whenFalse reached

/-- The conditional that is evaluated where the operands are. -/
theorem choice_inside {bound : Nat} {first second : Node} {whenTrue whenFalse : Branch}
    {state : State}
    (native : state.scope.operators.implementations.get? Syntax.conditionalToken = none)
    (remains : ∀ value reached, stage (bound + 1) (.tree first) state = .ok value reached →
      reached.scope.operators.implementations.get? Syntax.conditionalToken = none) :
    stage (bound + 2) (.tree (.choice first second whenTrue whenFalse)) state =
      Branch.choose (stage (bound + 1) (.tree first)) (stage bound (.tree second)) whenTrue
        whenFalse state := by
  refine (stages.conditional native).trans (bind_congr_at fun value reached ran => ?_)
  have native := remains value reached ran
  split
  · exact stages.branch_inside whenTrue native
  · exact stages.branch_inside whenFalse native

/-! ## In the body of an operator -/

section Framed

variable (bound : Nat) {evaluator : Nat} {frame : Scope}
  (native : frame.operators.implementations.get? Syntax.conditionalToken = none)
  (outward : frame.operators.implementations.get? "@!!" = none)
  (known : frame.lookup? evaluatorName = some (.builtin evaluator))
include native outward known

private theorem branch_framed {handle : Nat} {name : String} {second : Node} {state : State}
    (branch : Branch) (named : frame.lookup? name = some (.node handle))
    (evaluates : (state.heap.builtin evaluator).action = .native .evalAst)
    (found : state.heap.node handle = second) :
    stage (bound + 3) (.tree (branch.tree (.outside name))) (state.framed frame) =
      ensuring (branch.run (stage bound (.tree second))) (State.framed frame) state := by
  subst found
  cases branch with
  | answer value => exact stages.number (bound + 2) value _
  | test whenTrue whenFalse =>
      have condition := stages.run_outside bound outward known named evaluates
      refine (stages.conditional native).trans
        (bind_of_ensuring condition fun value reached _ => ?_)
      split
      · exact stages.number (bound + 1) whenTrue _
      · exact stages.number (bound + 1) whenFalse _

/-- The conditional that is evaluated in a frame, with the trees of the operands. -/
theorem choice_framed (whenTrue whenFalse : Branch) {handle handle' : Nat}
    {name name' : String} {first second : Node} {state : State}
    (named : frame.lookup? name = some (.node handle))
    (named' : frame.lookup? name' = some (.node handle'))
    (evaluates : (state.heap.builtin evaluator).action = .native .evalAst)
    (found : state.heap.node handle = first)
    (kept : ∀ value reached, stage (bound + 1) (.tree first) state = .ok value reached →
      (reached.heap.builtin evaluator).action = .native .evalAst ∧
        reached.heap.node handle' = second) :
    stage (bound + 4) (.tree (.choice (.outside name) (.outside name') whenTrue whenFalse))
        (state.framed frame) =
      ensuring (Branch.choose (stage (bound + 1) (.tree first)) (stage bound (.tree second))
        whenTrue whenFalse) (State.framed frame) state := by
  subst found
  have condition := stages.run_outside (bound + 1) outward known named evaluates
  refine (stages.conditional native).trans (bind_of_ensuring condition fun value reached ran => ?_)
  obtain ⟨evaluates, found⟩ := kept value reached ran
  split
  · exact stages.branch_framed bound native outward known whenTrue named' evaluates found
  · exact stages.branch_framed bound native outward known whenFalse named' evaluates found

end Framed

end Eval.Stages

/-! ## Operators that choose -/

namespace State

/-- An operator with the body of a choice between its operands, `a` and `b`. -/
abbrev Choice (state : State) (token : String) (whenTrue whenFalse : Branch) : Type :=
  state.Macro token "a" "b" (.choice (.outside "a") (.outside "b") whenTrue whenFalse)

namespace Choice

variable {host : Host} {state : State} {token : String} {whenTrue whenFalse : Branch}

/-- The operands of the operation, and some more calls under way. -/
def inserted (state : State) (left right : Node) (calls : Nat) : Insertion :=
  ⟨state.heap.nodes.size, [left, right], calls, false⟩

theorem applying_eq (housed : state.Housed) (left right : Node) :
    state.applying left right = (inserted state left right 1).state state := by
  have moved := housed.inserted [left, right] 1
  rw [inserted, moved]
  unfold applying
  congr 2

/-- The operands are found where they have come in, as long as no tree and no builtin is lost. -/
theorem found_inserted (left right : Node) (calls : Nat) {reached : State}
    (passes : state.heap.Later reached.heap) :
    ((inserted state left right calls).state reached).heap.node state.heap.nodes.size = left ∧
      ((inserted state left right calls).state reached).heap.node (state.heap.nodes.size + 1) =
        right := by
  have enters : (inserted state left right calls).enters reached.heap.nodes.size := passes.nodes
  have tree (index : Nat) (within : index < 2) :
      ((inserted state left right calls).nodes reached.heap.nodes)[state.heap.nodes.size + index]? =
        [left, right][index]? := Insertion.getElem?_inserted enters within
  have node (handle : Nat) {tree : Node}
      (found : ((inserted state left right calls).nodes reached.heap.nodes)[handle]? = some tree) :
      ((inserted state left right calls).state reached).heap.node handle = tree := by
    show Array.getD _ _ _ = _
    rw [Array.getD_eq_getD_getElem?]
    exact congrArg (Option.getD · _) found
  exact ⟨node _ (tree 0 (by decide)), node _ (tree 1 (by decide))⟩

section Runs

variable (operator : state.Choice token whenTrue whenFalse) (free : token ∉ Syntax.reservedTokens)
  (conditional : state.scope.operators.implementations.get? Syntax.conditionalToken = none)
  (outward : state.scope.operators.implementations.get? "@!!" = none)
  (housed : state.Housed) (left right : Node) (bound : Nat)
include operator free conditional outward housed

/-- Where evaluation under the insertion follows evaluation, the operation evaluates the operands
outside of the frame of the operator. -/
theorem run_inserted {stage : Nat → Interpreter} (stages : Stages host stage) {p : Passage}
    (inserts : p.insertion = inserted state left right 1)
    (follows : p.Follows (run host (bound + 1) (.tree left)) (stage (bound + 1) (.tree left)))
    (room : state.depth + 1 ≤ maxDepth) :
    stage (bound + 6) (.tree (.operation token left right)) state =
      ensuring (Branch.choose (stage (bound + 1) (.tree left)) (stage bound (.tree right)) whenTrue
        whenFalse) leaveCall (p.insertion.state state) := by
  have applying : state.applying left right = p.insertion.state state := by
    rw [inserts]
    exact applying_eq housed left right
  have steady {heap : Heap} : p.insertion.Steady state.heap heap := by
    rw [inserts]
    exact .inl (Nat.le_refl _)
  have found {reached : State} (passes : state.heap.Later reached.heap) :
      (p.insertion.heap reached.heap).node state.heap.nodes.size = left ∧
        (p.insertion.heap reached.heap).node (state.heap.nodes.size + 1) = right := by
    rw [inserts]
    exact found_inserted left right 1 passes
  have evaluates {reached : State} (passes : state.heap.Later reached.heap) :
      ((p.insertion.heap reached.heap).builtin operator.evaluator).action = .native .evalAst := by
    rw [Insertion.builtin_heap, passes.builtin_of_native operator.evaluates]
    exact congrArg p.insertion.action operator.evaluates
  have kept (value : Value) (reached : State)
      (ran : stage (bound + 1) (.tree left) (p.insertion.state state) = .ok value reached) :
      (reached.heap.builtin operator.evaluator).action = .native .evalAst ∧
        reached.heap.node (state.heap.nodes.size + 1) = right := by
    obtain ⟨_, reached, _, passes, _, rfl⟩ := (follows state).of_ok steady ran
    exact ⟨evaluates passes.heap, (found passes.heap).2⟩
  have frame : operator.frame.operators = state.scope.operators := operator.operators_frame
  have framed := stages.choice_framed bound (by rw [frame]; exact conditional)
    (by rw [frame]; exact outward) (operator.lookup?_frame_evaluator (by decide)) whenTrue whenFalse
    (operator.lookup?_frame_first (by decide)) (operator.lookup?_frame_second (by decide))
    (evaluates (.refl _)) (found (.refl _)).1 kept
  have around := (stages.run_operation operator free (bound + 5) left right).trans
    (stages.run_frame operator (bound + 4) left right room)
  rw [applying] at around
  exact around.trans (ensuring_of_eq framed operator.leave)

/-- Under a watch for the limit of calls, the operation gives up or does what the conditional
does. -/
theorem run_watched (oblivious : host.Oblivious)
    (remains : ∀ value reached, run host (bound + 1) (.tree left) state = .ok value reached →
      reached.scope.operators.implementations.get? Syntax.conditionalToken = none)
    {failure : Failure} (final : ∀ error, failure ≠ .error error) :
    let watched := (Watch.limit (throw failure)).run host (bound + 6) ()
      (.tree (.operation token left right)) state
    (∃ reached, watched = .error failure reached) ∨
      watched = (inserted state left right 0).result
        (run host (bound + 2) (.tree (.choice left right whenTrue whenFalse)) state) := by
  intro watched
  let watch : Watch Unit := .limit (throw failure)
  have stages : Stages host fun bound => watch.run host bound () := stages_limit host _
  let p : Passage := ⟨inserted state left right 1, (· = failure), fun error same =>
    final error same.symm⟩
  have agree (bound : Nat) : p.Agree (run host bound) (watch.run host bound ()) :=
    p.agree_run (Passage.guards_limit rfl) oblivious bound
  by_cases tooDeep : maxDepth < state.depth + 1
  · have entered : watched = watch.run host (bound + 4 + 1) () operator.application
        (state.operands left right) := stages.run_operation operator free (bound + 5) left right
    have stopped : watch.forbidden () operator.application (state.operands left right) := by
      show (_ && decide (maxDepth < state.depth + 1)) = true
      rw [operator.isCall_application left right, decide_eq_true tooDeep]
      rfl
    rw [Watch.run_succ, if_pos stopped] at entered
    exact .inl ⟨_, entered⟩
  · let choose (stage : Nat → Interpreter) : Eval Value :=
      Branch.choose (stage (bound + 1) (.tree left)) (stage bound (.tree right)) whenTrue whenFalse
    have first := agree (bound + 1) (.tree left)
    have follows : p.FollowsAt state (choose (run host))
        (choose fun bound => watch.run host bound ()) :=
      first.choose (agree bound (.tree right)) whenTrue whenFalse state
    have whole : watched = ensuring (choose fun bound => watch.run host bound ()) leaveCall
        (p.insertion.state state) :=
      run_inserted operator free conditional outward housed left right bound stages rfl first
        (Nat.le_of_not_lt tooDeep)
    have direct : run host (bound + 2) (.tree (.choice left right whenTrue whenFalse)) state =
        choose (run host) state := (stages_run host).choice_inside conditional remains
    rw [whole, direct]
    unfold ensuring
    obtain ⟨other, reached, gives, stopped⟩ | same := follows.2 (.inl (Nat.le_refl _))
    · have same : other = failure := gives
      rw [stopped, same]
      exact .inl ⟨_, rfl⟩
    · rw [same]
      cases choose (run host) state with
      | ok value reached => exact .inr rfl
      | error failure reached => exact .inr rfl

/-- Where the limit of calls is not reached, the operation does what the conditional does. -/
theorem run_unlimited (oblivious : host.Oblivious)
    (remains : ∀ value reached, run host (bound + 1) (.tree left) state = .ok value reached →
      reached.scope.operators.implementations.get? Syntax.conditionalToken = none)
    (unlimited : Unlimited host (bound + 6) (.tree (.operation token left right)) state) :
    run host (bound + 6) (.tree (.operation token left right)) state =
      (inserted state left right 0).result
        (run host (bound + 2) (.tree (.choice left right whenTrue whenFalse)) state) := by
  have watched {failure : Failure} (final : ∀ error, failure ≠ .error error) :=
    run_watched operator free conditional outward housed left right bound oblivious remains final
  simp only [unlimited (throw _)] at watched
  -- An evaluation that gives up in two different ways does not give up.
  have exhausts := watched (show ∀ error, Failure.exhausted ≠ .error error from nofun)
  have conflicts := watched (show ∀ error, Failure.conflict ≠ .error error from nofun)
  obtain ⟨_, exhausted⟩ | same := exhausts
  · obtain ⟨_, conflict⟩ | same := conflicts
    · cases exhausted.symm.trans conflict
    · exact same
  · exact same

end Runs

end Choice

/-- The logical operators are those of the standard library, with the numbers that it writes `1` and
`0`; conditionals and applications around the current scope are the native ones. -/
structure ShortCircuits (state : State) (one zero : Number) where
  conjunction : state.Choice "&&" (.test one zero) (.answer zero)
  disjunction : state.Choice "||" (.answer one) (.test one zero)
  conditional : state.scope.operators.implementations.get? Syntax.conditionalToken = none
  outward : state.scope.operators.implementations.get? "@!!" = none

end State

end Fixity
