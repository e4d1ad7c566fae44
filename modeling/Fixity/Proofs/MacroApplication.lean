import Fixity.Proofs.Bounds
import Fixity.Proofs.Macros

/-!
Contract: the standard library's application of functions to trees.

Owns:
- `State.MacroApplications`, the states in which `@:` and `@-` are those of the standard library;
- `State.MacroApplications.gives_iff`: the left operand is evaluated in the body of the operator, as
  the left side of an application.
-/

namespace Fixity

open Eval

/-! ## Trees -/

/-- The tree `callee @ [argument]`. -/
def Node.applied (callee argument : Node) : Node :=
  .operation "@" callee (.list [argument])

/-- The tree `(eval_ast @ [f]) @ [g]`. -/
def Node.handing : Node :=
  .applied (.applied (.identifier evaluatorName) (.identifier "f")) (.identifier "g")

/-- The tree `eval_ast @!! [(eval_ast @ [f]) @ [g]]`. -/
def Node.expanding : Node :=
  .operation "@!!" (.identifier evaluatorName) (.list [.handing])

namespace Eval

/-! ## Applications -/

/-- What `callee @ [argument]` does, its sides evaluated by different interpreters. -/
def handed (first second : Interpreter) (callee argument : Node) : Eval Value := do
  let callee ← callable first "@" callee
  let arguments ← argumentsOf (← second.eval (.list [argument]))
  second.apply callee arguments

/-- Evaluates an answer, and the tree that it is in the scope around. -/
def expanded (interpreter : Interpreter) (answering : Eval Value) : Eval Value := do
  let answer ← answering
  discard (liftM (OnHeap.newListOf [answer]) : Eval Value)
  inAncestor 1 (Reflection.evaluateTree interpreter answer)

theorem sooner_handed {first first' second second' : Interpreter}
    (agree : Comparison.sooner.Agree first first') (agree' : Comparison.sooner.Agree second second')
    (callee argument : Node) :
    Comparison.sooner.Holds (handed first second callee argument)
      (handed first' second' callee argument) := by
  have regular := Comparison.regular_sooner
  apply regular.holds_bind (regular.holds_callable agree "@" callee)
  intro callee
  apply regular.holds_bind (agree' _)
  intro value
  apply regular.holds_bind (regular.keeps_argumentsOf value)
  intro arguments
  exact agree' _

theorem sooner_expanded {first second : Interpreter} {answering answering' : Eval Value}
    {state : State} (agree : Comparison.sooner.Agree first second)
    (answers : Comparison.sooner.HoldsAt state answering answering') :
    Comparison.sooner.HoldsAt state (expanded first answering) (expanded second answering') := by
  have regular := Comparison.regular_sooner
  refine answers.bind regular trivial fun answer => ?_
  apply regular.holds_bind (regular.holds_map _ (regular.keeps_onHeap (.newListOf _)))
  intro _
  exact Comparison.nested_sooner.inAncestor 1 (regular.holds_evaluateTree agree answer)

end Eval

theorem Eval.argumentsOf_listed (values : List Value) (state : State) :
    argumentsOf (.list state.heap.lists.size) (state.listed values) =
      .ok values (state.listed values) := by
  show EStateM.Result.ok (Array.toList _) _ = _
  rw [State.list_listed]

namespace Eval.Stages

variable {host : Host} {stage : Nat → Interpreter} (stages : Stages host stage)
include stages

theorem list_single (bound : Nat) (node : Node) (state : State) :
    stage (bound + 1) (.tree (.list [node])) state =
      (do
        let value ← stage bound (.tree node)
        liftM (OnHeap.newListOf [value]) : Eval Value) state := by
  rw [stages.tree]
  show (do
    let values ← [node].mapM (stage bound).eval
    liftM (OnHeap.newListOf values) : Eval Value) state = _
  rw [List.mapM_cons, List.mapM_nil]
  simp only [bind_assoc, pure_bind]
  rfl

theorem applied {bound : Nat} {callee argument : Node} {state : State}
    (native : state.scope.operators.implementations.get? "@" = none) :
    stage (bound + 1) (.tree (.applied callee argument)) state =
      handed (stage bound) (stage bound) callee argument state := by
  rw [stages.tree]
  exact operation_of_native (by decide) native

/-- What is bound to a name, but can not be called, is refused on the left of `@`. -/
theorem applied_of_uncallable {bound : Nat} {name : String} {value : Value} {argument : Node}
    {state : State} (native : state.scope.operators.implementations.get? "@" = none)
    (found : state.scope.lookup? name = some value) (uncallable : value.isCallable = false) :
    stage (bound + 2) (.tree (.applied (.identifier name) argument)) state =
      .error (.error (.notCallable "the left operand of @")) state := by
  have ran : stage (bound + 1) (.tree (.identifier name)) state = .ok value state :=
    stages.identifier found
  have refused : callable (stage (bound + 1)) "@" (.identifier name) state =
      .error (.error (.notCallable "the left operand of @")) state := by
    refine (bind_of_ok ran).trans ?_
    rw [uncallable]
    rfl
  exact (stages.applied native).trans (bind_of_error refused)

section Bodies

variable {handle evaluator : Nat} {state : State}
  (native : state.scope.operators.implementations.get? "@" = none)
  (known : state.scope.lookup? evaluatorName = some (.builtin evaluator))
  (evaluates : (state.heap.builtin evaluator).action = .native .evalAst)
include native known evaluates

/-- `eval_ast @ [name]` evaluates the tree that the name stands for, with the list of it in the
heap. -/
theorem evaluated (bound : Nat) {name : String}
    (named : state.scope.lookup? name = some (.node handle)) :
    stage (bound + 3) (.tree (.applied (.identifier evaluatorName) (.identifier name))) state =
      stage (bound + 1) (.tree (state.heap.node handle)) (state.listed [.node handle]) := by
  have callee := stages.callable_builtin (bound + 1) "@" known
  have item : stage (bound + 1) (.tree (.identifier name)) state = .ok (.node handle) state :=
    stages.identifier named
  have argument : stage (bound + 2) (.tree (.list [.identifier name])) state =
      .ok (.list state.heap.lists.size) (state.listed [.node handle]) :=
    (stages.list_single (bound + 1) _ state).trans (bind_of_ok item)
  have arguments := argumentsOf_listed [.node handle] state
  have called : stage (bound + 2) (.application (.builtin evaluator) [.node handle])
      (state.listed [.node handle]) =
        stage (bound + 1) (.tree (state.heap.node handle)) (state.listed [.node handle]) := by
    rw [stages.succ (by simp [Request.isCall])]
    show callBuiltin host (stage (bound + 1)) (state.heap.builtin evaluator) [.node handle]
      (state.listed [.node handle]) = _
    unfold callBuiltin
    rw [evaluates]
    rfl
  rw [stages.applied native]
  refine (bind_of_ok callee).trans ((bind_of_ok argument).trans ((bind_of_ok arguments).trans ?_))
  exact called

/-- `(eval_ast @ [f]) @ [g]` is the application of the value of the tree that `f` stands for. -/
theorem handing (bound : Nat) (named : state.scope.lookup? "f" = some (.node handle)) :
    stage (bound + 4) (.tree .handing) state =
      handed (stage (bound + 1)) (stage (bound + 3)) (state.heap.node handle) (.identifier "g")
        (state.listed [.node handle]) := by
  have first := stages.evaluated native known evaluates bound named
  exact (stages.applied native).trans (bind_eq_of_eq (bind_eq_of_eq first))

end Bodies

/-- `eval_ast @!! [tree]` evaluates, in the scope around, the tree that is the value of `tree`. -/
theorem evaluated_outside {bound evaluator : Nat} {node : Node} {state : State}
    (native : state.scope.operators.implementations.get? "@!!" = none)
    (known : state.scope.lookup? evaluatorName = some (.builtin evaluator))
    (remains : ∀ value reached, stage bound (.tree node) state = .ok value reached →
      (reached.heap.builtin evaluator).action = .native .evalAst) :
    stage (bound + 2)
        (.tree (.operation "@!!" (.identifier evaluatorName) (.list [node]))) state =
      expanded (stage bound) (stage bound (.tree node)) state := by
  have callee := stages.callable_builtin bound "@!!" known
  rw [stages.tree]
  refine (operation_of_native (by decide) native).trans ((bind_of_ok callee).trans ?_)
  have argument := stages.list_single bound node state
  cases ran : stage bound (.tree node) state with
  | error failure left =>
      exact (bind_of_error (argument.trans (bind_of_error ran))).trans (bind_of_error ran).symm
  | ok value left =>
      have listed : stage (bound + 1) (.tree (.list [node])) state =
          .ok (.list left.heap.lists.size) (left.listed [value]) :=
        argument.trans (bind_of_ok ran)
      have arguments := argumentsOf_listed [value] left
      refine (bind_of_ok listed).trans ((bind_of_ok arguments).trans ?_)
      refine Eq.trans ?_ (bind_of_ok ran).symm
      have called : call host (stage bound) false (.builtin evaluator) [value]
          ((left.listed [value]).outward 1) =
            Reflection.evaluateTree (stage bound) value ((left.listed [value]).outward 1) := by
        show callBuiltin host (stage bound) (left.heap.builtin evaluator) [value] _ = _
        unfold callBuiltin
        rw [remains value left ran]
        rfl
      show stage (bound + 1) (.scopedApplication 1 (.builtin evaluator) [value])
        (left.listed [value]) = inAncestor 1 _ (left.listed [value])
      rw [stages.succ (by simp [Request.isCall])]
      show ensuring _ (putBack _) ((left.listed [value]).outward 1) = ensuring _ (putBack _) _
      unfold ensuring
      rw [called]
      rfl

end Eval.Stages

/-! ## Operations -/

namespace State

theorem node_applying (left right : Node) (state : State) :
    (state.applying left right).heap.node state.heap.nodes.size = left ∧
      (state.applying left right).heap.node (state.heap.nodes.size + 1) = right := by
  unfold Heap.node
  rw [Array.getD_eq_getD_getElem?, Array.getD_eq_getD_getElem?]
  have last : state.heap.nodes.size + 1 = (state.heap.nodes.push left).size :=
    (Array.size_push left).symm
  constructor
  · show Option.getD ((state.heap.nodes.push left).push right)[state.heap.nodes.size]? _ = left
    rw [Array.getElem?_push, if_neg (by omega), Array.getElem?_push_size]
    rfl
  · rw [last]
    exact congrArg (Option.getD · _) Array.getElem?_push_size

namespace Macro

variable {state : State} {token first second : String} {body : Node}

/-- The state in which the body starts, with the list in it that the first operand is evaluated
from. -/
def entry (operator : state.Macro token first second body) (left right : Node) : State :=
  ((state.applying left right).framed operator.frame).listed [.node state.heap.nodes.size]

/-- What is native around the operation is native in the body. -/
theorem native_entry (operator : state.Macro token first second body) {other : String}
    (native : state.scope.operators.implementations.get? other = none) (left right : Node) :
    (operator.entry left right).scope.operators.implementations.get? other = none := by
  show operator.frame.operators.implementations.get? other = none
  rw [operator.operators_frame]
  exact native

end Macro

/-- The operators that apply functions to trees are those of the standard library; applications in
and around the current scope are the native ones. -/
structure MacroApplications (state : State) where
  handing : state.Macro "@:" "f" "g" .handing
  expanding : state.Macro "@-" "f" "g" .expanding
  application : state.scope.operators.implementations.get? "@" = none
  outward : state.scope.operators.implementations.get? "@!!" = none

namespace MacroApplications

section Runs

variable {host : Host} {state : State} (bound : Nat) (callee operand : Node)

/-- Both operators start with the application of the value of the first operand. -/
private theorem run_body {token : String} {body : Node} (operator : state.Macro token "f" "g" body)
    (native : state.scope.operators.implementations.get? "@" = none) :
    run host (bound + 4) (.tree .handing) ((state.applying callee operand).framed operator.frame) =
      handed (run host (bound + 1)) (run host (bound + 3)) callee (.identifier "g")
        (operator.entry callee operand) := by
  have framed : ((state.applying callee operand).framed
      operator.frame).scope.operators.implementations.get? "@" = none := by
    show operator.frame.operators.implementations.get? "@" = none
    rw [operator.operators_frame]
    exact native
  have started : run host (bound + 4) (.tree .handing)
      ((state.applying callee operand).framed operator.frame) =
        handed (run host (bound + 1)) (run host (bound + 3))
          ((state.applying callee operand).heap.node state.heap.nodes.size) (.identifier "g")
          (operator.entry callee operand) :=
    (stages_run host).handing framed (operator.lookup?_frame_evaluator (by decide))
      operator.evaluates bound (operator.lookup?_frame_first (by decide))
  rwa [(node_applying callee operand state).1] at started

variable (operators : state.MacroApplications) (room : state.depth + 1 ≤ maxDepth)
include room

theorem run_handing :
    run host (bound + 6) (.tree (.operation "@:" callee operand)) state =
      leaving operators.handing.leave
        (handed (run host (bound + 1)) (run host (bound + 3)) callee (.identifier "g")
          (operators.handing.entry callee operand)) := by
  have around := ((stages_run host).run_operation operators.handing (by decide) (bound + 5) callee
    operand).trans ((stages_run host).run_frame operators.handing (bound + 4) callee operand room)
  rw [← run_body bound callee operand operators.handing operators.application]
  exact around.trans (ensuring_eq_leaving _ _ _)

theorem run_expanding (oblivious : host.Oblivious) :
    run host (bound + 8) (.tree (.operation "@-" callee operand)) state =
      leaving operators.expanding.leave
        (expanded (run host (bound + 4))
          (handed (run host (bound + 1)) (run host (bound + 3)) callee (.identifier "g"))
          (operators.expanding.entry callee operand)) := by
  let operator := operators.expanding
  let framed : State := (state.applying callee operand).framed operator.frame
  have around : run host (bound + 8) (.tree (.operation "@-" callee operand)) state =
      leaving operator.leave (run host (bound + 6) (.tree .expanding) framed) :=
    (((stages_run host).run_operation operator (by decide) (bound + 7) callee operand).trans
      ((stages_run host).run_frame operator (bound + 6) callee operand room)).trans
        (ensuring_eq_leaving _ _ _)
  have outward : framed.scope.operators.implementations.get? "@!!" = none := by
    show operator.frame.operators.implementations.get? "@!!" = none
    rw [operator.operators_frame]
    exact operators.outward
  have passes := Passage.reaches_run oblivious (bound + 4) (.tree .handing) framed
  have body : run host (bound + 6) (.tree .expanding) framed =
      expanded (run host (bound + 4)) (run host (bound + 4) (.tree .handing)) framed := by
    refine (stages_run host).evaluated_outside outward
      (operator.lookup?_frame_evaluator (by decide)) fun value reached ran => ?_
    rw [after_of_ok ran] at passes
    rw [passes.heap.builtin_of_native operator.evaluates]
    exact operator.evaluates
  rw [around, body]
  exact congrArg _ (bind_eq_of_eq
    (run_body bound callee operand operator operators.application))

end Runs

section Bodies

variable {host : Host} (tame : host.Tame) {callee argument : Node} {entry : State}
  (native : entry.scope.operators.implementations.get? "@" = none)
include tame native

/-- To evaluate the sides of an application within other bounds makes no difference. -/
private theorem sooner_applied (bound : Nat) :
    Comparison.sooner.HoldsAt entry
        (handed (run host (bound + 1)) (run host (bound + 3)) callee argument)
        (run host (bound + 4) (.tree (.applied callee argument))) ∧
      Comparison.sooner.HoldsAt entry (run host bound (.tree (.applied callee argument)))
        (handed (run host (bound + 1)) (run host (bound + 3)) callee argument) := by
  constructor
  · have same : run host (bound + 4) (.tree (.applied callee argument)) entry = _ :=
      (stages_run host).applied native
    unfold Comparison.HoldsAt
    rw [same]
    exact sooner_handed (run_sooner tame (by omega)) (run_sooner tame (Nat.le_refl _)) callee
      argument entry trivial
  · cases bound with
    | zero => exact .inl ⟨trivial, entry, rfl⟩
    | succ bound =>
        have same : run host (bound + 1) (.tree (.applied callee argument)) entry = _ :=
          (stages_run host).applied native
        unfold Comparison.HoldsAt
        rw [same]
        exact sooner_handed (run_sooner tame (by omega)) (run_sooner tame (by omega)) callee
          argument entry trivial

end Bodies

/-- The operators that apply a function to a tree evaluate their left operand in a frame of their
own. `callee @: operand` does there what `callee @ [g]` does, where `g` is bound to the tree of
`operand`; `callee @- operand` also evaluates the tree that comes out of this, where the operation
stands. A name in `callee` has the meaning that it has in the frame: `f`, `g` and `$` are not those
of the program, and names that were bound when the operator was defined have the value they had
then. -/
theorem gives_iff {host : Host} {state : State} (operators : state.MacroApplications)
    (tame : host.Tame) (oblivious : host.Oblivious) (room : state.depth + 1 ≤ maxDepth)
    (callee operand : Node) :
    let application : Request := .tree (.applied callee (.identifier "g"))
    let handing := operators.handing
    let expanding := operators.expanding
    (∀ result, Gives host (.tree (.operation "@:" callee operand)) state result ↔
      ∃ inner, Gives host application (handing.entry callee operand) inner ∧
        result = leaving handing.leave inner) ∧
    (∀ result, Gives host (.tree (.operation "@-" callee operand)) state result ↔
      ∃ inner, Comes (fun bound => expanded (run host bound) (run host bound application))
          (expanding.entry callee operand) inner ∧
        result = leaving expanding.leave inner) ∧
    (∀ name,
      (handing.entry callee operand).scope.lookup? name = handing.meaning name ∧
        (expanding.entry callee operand).scope.lookup? name = expanding.meaning name) ∧
    ∀ entry ∈ [handing.entry callee operand, expanding.entry callee operand],
      entry.heap.node state.heap.nodes.size = callee ∧
        entry.heap.node (state.heap.nodes.size + 1) = operand := by
  intro application handing expanding
  let inside (bound : Nat) : Eval Value :=
    handed (run host (bound + 1)) (run host (bound + 3)) callee (.identifier "g")
  refine ⟨fun result => ?_, fun result => ?_, fun name =>
    ⟨handing.lookup?_frame name, expanding.lookup?_frame name⟩, ?_⟩
  · have native := handing.native_entry operators.application callee operand
    have same (inner : EStateM.Result Failure State Value) :
        Comes inside (handing.entry callee operand) inner ↔
          Gives host application (handing.entry callee operand) inner :=
      comes_congr (fun bound => ⟨bound + 4, (sooner_applied tame native bound).1⟩)
        fun bound => ⟨bound, (sooner_applied tame native bound).2⟩
    have bracket := gives_leaving_iff tame fun bound =>
      run_handing bound callee operand operators room
    exact (bracket result).trans (exists_congr fun inner => and_congr_left' (same inner))
  · have native := expanding.native_entry operators.application callee operand
    have same (inner : EStateM.Result Failure State Value) :
        Comes (fun bound => expanded (run host (bound + 4)) (inside bound))
            (expanding.entry callee operand) inner ↔
          Comes (fun bound => expanded (run host bound) (run host bound application))
            (expanding.entry callee operand) inner :=
      comes_congr
        (fun bound => ⟨bound + 4, sooner_expanded (run_sooner tame (Nat.le_refl _))
          (sooner_applied tame native bound).1⟩)
        fun bound => ⟨bound, sooner_expanded (run_sooner tame (Nat.le_add_right bound 4))
          (sooner_applied tame native bound).2⟩
    have bracket := gives_leaving_iff tame fun bound =>
      run_expanding bound callee operand operators room oblivious
    exact (bracket result).trans (exists_congr fun inner => and_congr_left' (same inner))
  · have trees := node_applying callee operand state
    intro entry member
    rcases List.mem_pair.mp member with rfl | rfl
    · exact trees
    · exact trees

/-- A state with the two operators, in which `f` is bound to `eval_ast`. -/
def sample : State :=
  let closure : Bindings := ⟨[(evaluatorName, [.builtin 0])], by simp⟩
  let function (body : Node) : Function := ⟨["f", "g"], body, closure, false, []⟩
  let heap : Heap :=
    { Heap.empty with
      functions := #[function .handing, function .expanding]
      builtins := #[⟨evaluatorName, .native .evalAst⟩] }
  let operators : OperatorTable :=
    { OperatorTable.initial with
      implementations :=
        ⟨[("@-", ⟨.function 1, false⟩), ("@:", ⟨.function 0, false⟩)], by decide⟩ }
  .initial ⟨⟨[("f", [.builtin 0])], by simp⟩, operators⟩ heap

/-- The function `f` of the program is found on the left of `@`, but not on the left of `@:`. -/
theorem gives_iff_hidden :
    let host := CommandLine.host (CommandLine.listedFiles [])
    let operand : Node := .quoted (.body [])
    let refused : Failure := .error (.notCallable "the left operand of @")
    sample.depth + 1 ≤ maxDepth ∧
    (∃ after, Gives host (.tree (.applied (.identifier "f") (.quoted operand))) sample
      (.ok (.node 1) after)) ∧
    (∃ after, Gives host (.tree (.operation "@:" (.identifier "f") operand)) sample
      (.error refused after)) ∧
    ∃ after, Gives host (.tree (.operation "@-" (.identifier "f") operand)) sample
      (.error refused after) := by
  intro host operand refused
  have room : sample.depth + 1 ≤ maxDepth := by decide
  have operators : sample.MacroApplications :=
    ⟨⟨0, 0, _, [], rfl, rfl, rfl, rfl⟩, ⟨1, 0, _, [], rfl, rfl, rfl, rfl⟩, rfl, rfl⟩
  obtain ⟨handing, expanding, names, _⟩ := operators.gives_iff
    (Host.tame_commandLine (CommandLine.listedFiles []))
    (Host.oblivious_commandLine (CommandLine.listedFiles [])) room (.identifier "f") operand
  have application {entry : State} (bound : Nat)
      (native : entry.scope.operators.implementations.get? "@" = none)
      (found : entry.scope.lookup? "f" = some (.node 0)) :
      run host (bound + 2) (.tree (.applied (.identifier "f") (.identifier "g"))) entry =
        .error refused entry :=
    (stages_run host).applied_of_uncallable native found rfl
  have refuses := application 0 (operators.handing.native_entry rfl _ _) (names "f").1
  have refuses' := application 0 (operators.expanding.native_entry rfl _ _) (names "f").2
  have finished (error : RuntimeError) (after left : State) :
      (.error (.error error) after : EStateM.Result Failure State Value) ≠
        .error .exhausted left := nofun
  exact ⟨room, ⟨_, 5, rfl, nofun⟩, ⟨_, (handing _).mpr ⟨_, ⟨2, refuses, finished _ _⟩, rfl⟩⟩,
    ⟨_, (expanding _).mpr ⟨_, ⟨2, bind_of_error refuses', finished _ _⟩, rfl⟩⟩⟩

end MacroApplications

end State

end Fixity
