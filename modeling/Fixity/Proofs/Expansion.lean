import Fixity.Proofs.Control
import Fixity.Proofs.MacroApplication

/-!
Contract: control structures as the trees that they stand for.

Owns:
- `Control.Expands`, the tree that each control structure makes of its clauses;
- `State.Controls`, the states in which the control structures are those of the standard library;
- `State.Controls.stage_expansion`: `name @- clauses` adds cells to the heap and evaluates that
  tree, unless it meets the limit on calls.

Does not own: what cells behind all others mean for an evaluation.
-/

namespace Fixity

open Eval

/-- Under a name, a control structure makes a tree of its clauses. -/
inductive Control.Expands : String → Node → Node → Prop
  | ifThen (condition body : Node) :
      Expands "if" (.list [condition, body])
        (.operation "?" condition (.list [body, .number .zero]))
  | ifelse (condition whenTrue whenFalse : Node) :
      Expands "ifelse" (.list [condition, whenTrue, whenFalse])
        (.operation "?" condition (.list [whenTrue, whenFalse]))
  | whileLoop (condition body : Node) :
      Expands "while" (.list [condition, body]) (.operation "!!" condition body)
  | forLoop (first condition update body : Node) :
      Expands "for" (.list [first, condition, update, body])
        (.operation "#" (.list [first, condition, update]) body)
  | cond (clauses : List (Node × Node)) :
      Expands "cond" (.list (clauses.map fun clause => .list [clause.1, clause.2]))
        (cascade clauses)

section Controls

variable {host : Host} {course : Course host} {name : String} {clauses tree : Node}

theorem Control.Equipped.delivers {operators : OperatorTable} {base : Heap}
    {library : String → Value} (equipped : Equipped operators base library)
    (expands : Expands name clauses tree) :
    Delivers course operators base (library name) [.tree clauses] (.tree tree) := by
  cases expands with
  | ifThen condition body => exact equipped.ifThen condition body
  | ifelse condition whenTrue whenFalse => exact equipped.ifelse condition [whenTrue, whenFalse]
  | whileLoop condition body => exact equipped.whileLoop condition body
  | forLoop first condition update body => exact equipped.forLoop first condition update body
  | cond clauses => exact equipped.cond clauses

/-- The tree that a name stands for is evaluated. -/
theorem Eval.Does.evaluated {state : State} {evaluator handle : Nat} {name : String}
    {wanted : Value → State → Prop} {limited : Heap → Prop}
    (native : state.scope.operators.implementations.get? "@" = none)
    (known : state.scope.lookup? evaluatorName = some (.builtin evaluator))
    (named : state.scope.lookup? name = some (.node handle))
    (evaluates : (state.heap.builtin evaluator).action = .native .evalAst)
    (does : Does course (state.heap.node handle) (state.listed [.node handle]) wanted limited) :
    Does course (.applied (.identifier evaluatorName) (.identifier name)) state wanted limited := by
  have later {least bound : Nat} (enough : least + 3 ≤ bound) : ∃ earlier, least ≤ earlier ∧
      course.stage bound (.tree (.applied (.identifier evaluatorName) (.identifier name))) state =
        course.stage earlier (.tree (state.heap.node handle)) (state.listed [.node handle]) := by
    obtain ⟨bound, rfl⟩ := Nat.exists_eq_add_of_le' (Nat.le_of_add_left_le enough)
    exact ⟨bound + 1, by omega, course.stages.evaluated native known evaluates bound named⟩
  cases does with
  | gives least value reached runs holds =>
      refine .gives (least + 3) value reached (fun bound enough => ?_) holds
      obtain ⟨earlier, enough, same⟩ := later enough
      exact same.trans (runs earlier enough)
  | stops least reached runs holds =>
      refine .stops (least + 3) reached (fun bound enough => ?_) holds
      obtain ⟨earlier, enough, same⟩ := later enough
      exact same.trans (runs earlier enough)

/-- The control structures, and the operator `@-` that applies them, are those of the standard
library, and their names mean them where the operator is used. -/
structure State.Controls (state : State) where
  library : String → Value
  equipped : Control.Equipped state.scope.operators state.heap library
  expanding : state.Macro "@-" "f" "g" .expanding
  outward : state.scope.operators.implementations.get? "@!!" = none
  named : ∀ name ∈ ["if", "ifelse", "while", "for", "cond"],
    expanding.meaning name = some (library name)

theorem State.getElem?_operands_second (left right : Node) (state : State) :
    (state.operands left right).heap.nodes[state.heap.nodes.size + 1]? = some right := by
  rw [← Array.size_push left]
  exact Array.getElem?_push_size

namespace State.Controls

variable {state : State} (controls : state.Controls)
include controls

/-- The state in which the body of `@-` starts. -/
private def inside (name : String) (clauses : Node) : State :=
  (state.applying (.identifier name) clauses).framed controls.expanding.frame

/-- What the left operand makes of the clauses. -/
private theorem does_handing (expands : Control.Expands name clauses tree) :
    Does course .handing (controls.inside name clauses)
      (Adds (controls.inside name clauses) (.tree tree)) fun _ => True := by
  let frame := controls.expanding.frame
  let inside := controls.inside name clauses
  obtain ⟨callee, operand⟩ := node_applying (.identifier name) clauses state
  have grows : state.heap.Grows inside.heap :=
    (Heap.Grows.push_node _ _).trans (.push_node _ _)
  have operators : frame.operators = state.scope.operators := controls.expanding.operators_frame
  have native : inside.scope.operators.implementations.get? "@" = none := by
    show frame.operators.implementations.get? "@" = none
    rw [operators]
    exact controls.equipped.native "@" (by decide)
  have delivers : Delivers course state.scope.operators state.heap (controls.library name)
      [.tree clauses] (.tree tree) := controls.equipped.delivers expands
  have known : frame.lookup? name = some (controls.library name) := by
    rw [controls.expanding.lookup?_frame]
    exact controls.named name (by cases expands <;> decide)
  refine .application native (.evaluated native
    (controls.expanding.lookup?_frame_evaluator (by decide))
    (controls.expanding.lookup?_frame_first (by decide)) controls.expanding.evaluates ?_)
  rw [show inside.heap.node state.heap.nodes.size = .identifier name from callee]
  refine .identifier known ⟨delivers.callable, .cons (.identifier
    (controls.expanding.lookup?_frame_second (by decide)) (.nil ?_))⟩
  let listed : State := inside.listed [.node state.heap.nodes.size]
  let again : State := listed.listed [.node (state.heap.nodes.size + 1)]
  have further : inside.heap.Grows again.heap :=
    (Heap.Grows.push_list _ _).trans (.push_list _ _)
  have given : again.heap.Provides (.tree clauses) (.node (state.heap.nodes.size + 1)) :=
    .tree (getElem?_operands_second (.identifier name) clauses state)
  refine (delivers.applies again [.node (state.heap.nodes.size + 1)] operators
    (grows.trans further) (.cons given .nil)).mono ?_
  exact fun _ _ adds => adds.trans further

/-- With room for another call, an operation with `@-` evaluates what the left operand makes of the
clauses. -/
private theorem stage_operation (room : state.depth + 1 ≤ maxDepth) {bound : Nat}
    (remains : ∀ value reached,
      course.stage bound (.tree .handing) (controls.inside name clauses) = .ok value reached →
        (reached.heap.builtin controls.expanding.evaluator).action = .native .evalAst) :
    course.stage (bound + 4) (.tree (.operation "@-" (.identifier name) clauses)) state =
      ensuring (expanded (course.stage bound) (course.stage bound (.tree .handing)))
        controls.expanding.leave (controls.inside name clauses) := by
  let operator := controls.expanding
  have outward : operator.frame.operators.implementations.get? "@!!" = none := by
    rw [operator.operators_frame]
    exact controls.outward
  have body : course.stage (bound + 2) (.tree .expanding) (controls.inside name clauses) =
      expanded (course.stage bound) (course.stage bound (.tree .handing))
        (controls.inside name clauses) :=
    course.stages.evaluated_outside outward (operator.lookup?_frame_evaluator (by decide)) remains
  have around := (course.stages.run_operation operator (by decide) (bound + 3) _ clauses).trans
    (course.stages.run_frame operator (bound + 2) (.identifier name) clauses room)
  refine around.trans ?_
  unfold ensuring
  rw [show course.stage (bound + 2) (.tree .expanding) ((state.applying (.identifier name)
    clauses).framed operator.frame) = _ from body]

/-- The tree that comes out is evaluated around the operation, one call further in. -/
private theorem ensuring_expanded {handle : Nat} {heap : Heap} {interpreter : Interpreter}
    {answering : Eval Value}
    (cell : heap.nodes[handle]? = some tree)
    (gives : answering (controls.inside name clauses) =
      .ok (.node handle) { controls.inside name clauses with heap := heap }) :
    ensuring (expanded interpreter answering) controls.expanding.leave
        (controls.inside name clauses) =
      ensuring (interpreter (.tree tree)) leaveCall
        { state with
          heap := { heap with lists := heap.lists.push #[.node handle] }
          depth := state.depth + 1 } := by
  let around : State :=
    { state with
      heap := { heap with lists := heap.lists.push #[.node handle] }
      depth := state.depth + 1 }
  have evaluated : Reflection.evaluateTree interpreter (.node handle) around =
      interpreter (.tree tree) around := by
    rw [← show heap.node handle = tree from OnHeap.getD_of_getElem? cell _]
    rfl
  have body : expanded interpreter answering (controls.inside name clauses) =
      ensuring (interpreter (.tree tree)) (State.framed controls.expanding.frame) around := by
    refine (bind_of_ok gives).trans ?_
    show ensuring _ (State.framed controls.expanding.frame) around = _
    unfold ensuring
    rw [evaluated]
  exact ensuring_of_eq body controls.expanding.leave

/-- An operation with `@-` adds cells and evaluates the tree that the left operand makes of the
clauses, one call further in, unless it meets the limit. The operands are the first of the trees
that are added, and they stay what they are. -/
theorem stage_expansion (expands : Control.Expands name clauses tree) :
    let operation : Request := .tree (.operation "@-" (.identifier name) clauses)
    ∃ least, (∀ bound, least ≤ bound →
        ∃ left, course.stage (bound + 4) operation state = .error course.failure left) ∨
      ∃ heap, (state.operands (.identifier name) clauses).heap.Grows heap ∧
        state.depth + 1 ≤ maxDepth ∧
        ∀ bound, least ≤ bound →
          course.stage (bound + 4) operation state =
            ensuring (course.stage bound (.tree tree)) leaveCall
              { state with heap := heap, depth := state.depth + 1 } := by
  intro operation
  let inside := controls.inside name clauses
  rcases Nat.lt_or_ge maxDepth (state.depth + 1) with tooDeep | room
  · refine ⟨0, .inl fun bound _ => ⟨state.operands (.identifier name) clauses, ?_⟩⟩
    have accepts := controls.expanding.isCall_application (.identifier name) clauses
    exact (course.stages.run_operation controls.expanding (by decide) (bound + 3) _ clauses).trans
      (course.beyond accepts tooDeep (bound + 2))
  · have does : Does course .handing inside (Adds inside (.tree tree)) fun _ => True :=
      controls.does_handing expands
    cases does with
    | gives least value reached runs holds =>
        obtain ⟨heap, rfl, grows, provides⟩ := holds
        cases provides with
        | @tree handle _ cell =>
            refine ⟨least, .inr ⟨_, grows.trans (.push_list heap #[.node handle]), room,
              fun bound enough => ?_⟩⟩
            refine (controls.stage_operation room fun value reached ran => ?_).trans
              (controls.ensuring_expanded cell (runs bound enough))
            cases (runs bound enough).symm.trans ran
            have later : inside.heap.Later heap := by
              refine ⟨?_, grows.builtins⟩
              rw [← Array.length_toList, ← Array.length_toList]
              exact grows.nodes.length_le
            have evaluates : (inside.heap.builtin controls.expanding.evaluator).action =
                .native .evalAst := controls.expanding.evaluates
            exact (congrArg Builtin.action (later.builtin_of_native evaluates)).trans evaluates
    | stops least reached runs =>
        refine ⟨least, .inl fun bound enough => ⟨controls.expanding.leave reached, ?_⟩⟩
        refine (controls.stage_operation room fun value other ran => ?_).trans ?_
        · cases (runs bound enough).symm.trans ran
        · unfold ensuring
          rw [show expanded (course.stage bound) (course.stage bound (.tree .handing)) inside = _
            from bind_of_error (runs bound enough)]

end State.Controls

end Controls

end Fixity
