import Fixity.Proofs.Histories
import Fixity.Proofs.Indifference
import Fixity.Proofs.MacroApplication

/-!
Contract: operators whose functions see the values of the operands.

Owns:
- `State.Eager`, such an operator in a state, and `Eval.combined`, what an operation with it does;
- `Relocation.OneList`, at most one further list;
- `State.Eager.operation_gives`: the operation does what the application of the function to a list
  of the operands does, but for the list and for what the callee makes.

Both evaluate the operands from left to right, once each, and apply the function that the operator
had when the operation began. A function that has been accepted for an operator is never refused for
the number of its arguments.

Does not own: operators whose functions see the trees of the operands.
-/

namespace Fixity

open Eval

/-- In a state, a program has given an operator a function that sees the values of the operands. -/
structure State.Eager (state : State) (token : String) (function : Value) : Prop where
  free : token ∉ Syntax.reservedTokens
  implemented : state.scope.operators.implementations.get? token = some ⟨function, true⟩
  callable : function.isCallable

namespace Eval

/-- The values of two operands, the left one first. -/
def operandValues (interpreter : Interpreter) (left right : Node) : Eval (List Value) := do
  let first ← interpreter.eval left
  let second ← interpreter.eval right
  return [first, second]

/-- Applies a function to the values of two operands, the left one first. -/
def combined (interpreter : Interpreter) (function : Value) (left right : Node) : Eval Value := do
  let first ← interpreter.eval left
  let second ← interpreter.eval right
  interpreter.apply function [first, second]

theorem combined_eq (interpreter : Interpreter) (function : Value) (left right : Node) :
    combined interpreter function left right =
      operandValues interpreter left right >>= interpreter.apply function := by
  unfold combined operandValues
  simp only [bind_assoc, pure_bind]

theorem sooner_operandValues {first second : Interpreter}
    (agree : Comparison.sooner.Agree first second) (left right : Node) :
    Comparison.sooner.Holds (operandValues first left right) (operandValues second left right) := by
  have regular := Comparison.regular_sooner
  apply regular.holds_bind (agree _)
  intro value
  apply regular.holds_bind (agree _)
  intro value'
  exact regular.keeps_pure _

/-- Applies a function to the values of two operands that are evaluated by another interpreter. -/
def combinedBy (evaluating applying : Interpreter) (function : Value) (left right : Node) :
    Eval Value :=
  operandValues evaluating left right >>= applying.apply function

theorem sooner_combinedBy {evaluating evaluating' applying applying' : Interpreter}
    (agree : Comparison.sooner.Agree evaluating evaluating')
    (agree' : Comparison.sooner.Agree applying applying') (function : Value) (left right : Node) :
    Comparison.sooner.Holds (combinedBy evaluating applying function left right)
      (combinedBy evaluating' applying' function left right) :=
  Comparison.regular_sooner.holds_bind (sooner_operandValues agree left right) fun _ => agree' _

/-- Applies a function to values when a list of them has been made. -/
def applyListed (interpreter : Interpreter) (function : Value) (values : List Value) : Eval Value :=
  fun state => interpreter.apply function values (state.listed values)

namespace Stages

variable {host : Host} {stage : Nat → Interpreter} (stages : Stages host stage) {state : State}
  {function : Value} {left right : Node}
include stages

theorem eager {token : String} (eager : state.Eager token function) (bound : Nat) :
    stage (bound + 1) (.tree (.operation token left right)) state =
      combined (stage bound) function left right state := by
  rw [stages.tree]
  exact operation_of_implemented eager.free eager.implemented

/-- A list of two is made when the operands have been evaluated. -/
theorem list_operands (bound : Nat) :
    stage (bound + 1) (.tree (.list [left, right])) state =
      (operandValues (stage bound) left right >>= fun values =>
        liftM (OnHeap.newListOf values) : Eval Value) state := by
  rw [stages.tree]
  show ([left, right].mapM (stage bound).eval >>= fun values =>
    liftM (OnHeap.newListOf values) : Eval Value) state = _
  unfold operandValues
  simp only [List.mapM_cons, List.mapM_nil, bind_assoc, pure_bind]

/-- `callee @ [left, right]`, once the callee has been evaluated. -/
theorem application_operands {bound : Nat} {callee : Node} {after : State}
    (native : state.scope.operators.implementations.get? "@" = none)
    (callable : function.isCallable)
    (ran : stage (bound + 1) (.tree callee) state = .ok function after) :
    stage (bound + 2) (.tree (.operation "@" callee (.list [left, right]))) state =
      (operandValues (stage bound) left right >>= applyListed (stage (bound + 1)) function)
        after := by
  have accepted : Eval.callable (stage (bound + 1)) "@" callee state = .ok function after := by
    refine (bind_of_ok ran).trans ?_
    rw [callable]
    rfl
  rw [stages.tree]
  refine (operation_of_native (by decide) native).trans ((bind_of_ok accepted).trans ?_)
  have argument : stage (bound + 1) (.tree (.list [left, right])) after = _ :=
    stages.list_operands bound
  cases operands : operandValues (stage bound) left right after with
  | error failure reached =>
      exact (bind_of_error (argument.trans (bind_of_error operands))).trans
        (bind_of_error operands).symm
  | ok values reached =>
      have listed : stage (bound + 1) (.tree (.list [left, right])) after =
          .ok (.list reached.heap.lists.size) (reached.listed values) :=
        argument.trans (bind_of_ok operands)
      have arguments := argumentsOf_listed values reached
      refine (bind_of_ok listed).trans ((bind_of_ok arguments).trans ?_)
      show applyListed (stage (bound + 1)) function values reached = _
      exact (bind_of_ok operands).symm

end Stages

end Eval

/-! ## Further cells -/

theorem Transfer.Tracks.operandValues {t : Transfer} {first second : Interpreter}
    (agree : t.Agree first second) (left right : Node) {state : State} :
    t.Tracks state (Eval.operandValues first left right) (Eval.operandValues second left right) :=
  .bind (agree (.tree left) state trivial) fun _ reached _ held =>
    .bind (agree (.tree right) reached trivial) fun _ _ passes held' =>
      .pure rfl (Relocation.held_cons (Heap.Holds.later held passes.heap)
        (Relocation.held_cons held' fun _ member => absurd member List.not_mem_nil))

/-- At most one further list, behind the cells of a heap. -/
structure Relocation.OneList (added : Relocation) (heap : Heap) : Prop where
  behind : heap.extent ≤ added.start
  texts : added.texts.cells = []
  lists : added.lists.cells.length ≤ 1
  objects : added.objects.cells = []
  functions : added.functions.cells = []
  builtins : added.builtins.cells = []
  nodes : added.nodes.cells = []
  uncounted : added.calls = 0

namespace Relocation

theorem oneList_none {earlier heap : Heap} (within : earlier.Within heap) :
    (growth heap heap 0).OneList earlier where
  behind := within
  texts := List.drop_eq_nil_of_le (Nat.le_of_eq Array.length_toList)
  lists := by simp [growth]
  objects := List.drop_eq_nil_of_le (Nat.le_of_eq Array.length_toList)
  functions := List.drop_eq_nil_of_le (Nat.le_of_eq Array.length_toList)
  builtins := List.drop_eq_nil_of_le (Nat.le_of_eq Array.length_toList)
  nodes := List.drop_eq_nil_of_le (Nat.le_of_eq Array.length_toList)
  uncounted := rfl

theorem oneList_listed {earlier : Heap} {state : State} (within : earlier.Within state.heap)
    (values : List Value) :
    (growth state.heap (state.listed values).heap 0).OneList earlier where
  behind := within
  texts := List.drop_eq_nil_of_le (Nat.le_of_eq Array.length_toList)
  lists := by simp [growth, State.listed]
  objects := List.drop_eq_nil_of_le (Nat.le_of_eq Array.length_toList)
  functions := List.drop_eq_nil_of_le (Nat.le_of_eq Array.length_toList)
  builtins := List.drop_eq_nil_of_le (Nat.le_of_eq Array.length_toList)
  nodes := List.drop_eq_nil_of_le (Nat.le_of_eq Array.length_toList)
  uncounted := rfl

theorem stops_result {α : Type} [Relocates α] (r : Relocation)
    (inner : EStateM.Result Failure State α) :
    (∃ left, r.result inner = .error .exhausted left) ↔ ∃ left, inner = .error .exhausted left :=
  ⟨fun ⟨_, stopped⟩ => result_eq_exhausted stopped, fun ⟨left, stopped⟩ => ⟨r.state left, by
    rw [stopped]
    rfl⟩⟩

end Relocation

namespace State.Eager

variable {host : Host} {state : State} {token : String} {function : Value}
  (eager : state.Eager token function)

private theorem tracks_operands (t : Transfer) (uncounted : t.relocation.calls = 0)
    (unaware : host.Unaware) (bound : Nat) (reached : State) {left right : Node} :
    t.Tracks reached (operandValues (run host bound) left right)
      (operandValues (run host bound) left right) :=
  .operandValues (t.agree_uncounted uncounted unaware bound) left right

include eager in
/-- Cells that were added before the operands were evaluated do not matter to the function that is
applied to their values. -/
private theorem applied_beside (unaware : host.Unaware) (closed : state.Closed) (heap : Heap)
    (left right : Node) {bound : Nat} {values : List Value} {reached : State}
    (ran : operandValues (run host bound) left right state = .ok values reached) :
    let further : Relocation := .growth state.heap heap 0
    run host (bound + 1) (.application function (relocate further values))
        (further.state reached) =
      further.result (run host (bound + 1) (.application function values) reached) := by
  intro further
  obtain ⟨closedReached, passes⟩ := closed.of_tracks fun t uncounted =>
    tracks_operands t uncounted unaware bound state
  rw [after_of_ok ran] at closedReached passes
  have heldFunction : Held state.heap function := closed.scope.2 token _ eager.implemented
  have heldValues : Held reached.heap values := closed.held_of_tracks
    (fun t uncounted => tracks_operands t uncounted unaware bound state) ran
  have request : Held reached.heap (Request.application function values) :=
    ⟨heldFunction.later passes.heap, heldValues⟩
  have same := closedReached.run_relocated unaware (r := further) rfl passes.heap (bound + 1)
    request
  have unmoved : relocate further function = function :=
    Relocates.unmoved (.refl _) heldFunction
  rwa [show relocate further (Request.application function values) =
    .application function (relocate further values) from
      congrArg (Request.application · _) unmoved] at same

section Application

variable (tame : host.Tame) (unaware : host.Unaware) (closed : state.Closed)
  (native : state.scope.operators.implementations.get? "@" = none) {callee : Node} {heap : Heap}
  (evaluates : Eval.Gives host (.tree callee) state (.ok function { state with heap := heap }))
  (grows : state.heap.Grows heap) (left right : Node)
include eager tame unaware closed native evaluates grows

/-- Once its callee has been evaluated, the application evaluates the operands of the operation, and
they come to the same. -/
private theorem application_starts :
    ∃ earliest, ∀ bound, earliest ≤ bound →
      run host (bound + 2) (.tree (.operation "@" callee (.list [left, right]))) state =
        (operandValues (run host bound) left right >>= applyListed (run host (bound + 1)) function)
          { state with heap := heap } ∧
      operandValues (run host bound) left right { state with heap := heap } =
        (Relocation.growth state.heap heap 0).result
          (operandValues (run host bound) left right state) := by
  obtain ⟨earliest, called⟩ := Gives.eventually tame evaluates
  refine ⟨earliest, fun bound enough => ⟨?_, ?_⟩⟩
  · exact (stages_run host).application_operands native eager.callable
      (called (bound + 1) (Nat.le_succ_of_le enough))
  · have same := closed.relocated (r := .growth state.heap heap 0) (.refl _)
      (.operandValues (Transfer.agree_uncounted rfl unaware bound) left right)
    rwa [closed.grown grows 0] at same

/-- Once the operands have come to their values, or one of them has failed, the application goes on
as the operation does, but for what the callee has made and for the list of the operands. -/
private theorem application_through {operands : EStateM.Result Failure State (List Value)}
    (comes : Comes (fun bound => operandValues (run host bound) left right) state operands) :
    ∃ list : Relocation, list.OneList state.heap ∧ ∃ least, ∀ bound, least ≤ bound →
      run host (bound + 2) (.tree (.operation "@" callee (.list [left, right]))) state =
        list.result ((Relocation.growth state.heap heap 0).result
          (combinedBy (run host bound) (run host (bound + 1)) function left right state)) := by
  let further : Relocation := .growth state.heap heap 0
  let entry : State := { state with heap := heap }
  obtain ⟨earliest, starts⟩ := eager.application_starts tame unaware closed native evaluates grows
    left right
  obtain ⟨least, ends⟩ := comes.eventually fun _ _ le =>
    sooner_operandValues (run_sooner tame le) left right
  have closedEntry : entry.Closed := by
    obtain ⟨bound, ran, _⟩ := evaluates
    have reached := (closed.run unaware bound callee).1
    rwa [after_of_ok ran] at reached
  let most : Nat := max earliest least
  have evaluated {bound : Nat} (enough : most ≤ bound) :
      operandValues (run host bound) left right entry = further.result operands := by
    rw [(starts bound (Nat.le_trans (Nat.le_max_left _ _) enough)).2,
      ends bound (Nat.le_trans (Nat.le_max_right _ _) enough)]
  obtain ⟨closedAfter, passes⟩ := closedEntry.of_tracks fun t uncounted =>
    tracks_operands t uncounted unaware most entry
  rw [after_eq_ended, evaluated (Nat.le_refl _), Relocation.ended_result] at closedAfter passes
  have within : state.heap.Within (further.state (ended operands)).heap :=
    grows.within.trans passes.heap
  cases operands with
  | error failure reached =>
      refine ⟨.growth (further.state reached).heap (further.state reached).heap 0,
        Relocation.oneList_none within, most, fun bound enough => ?_⟩
      have fails := ends bound (Nat.le_trans (Nat.le_max_right _ _) enough)
      rw [(starts bound (Nat.le_trans (Nat.le_max_left _ _) enough)).1,
        bind_of_error (evaluated enough), combinedBy, bind_of_error fails]
      exact congrArg (EStateM.Result.error failure) (closedAfter.grown (.refl _) 0).symm
  | ok values reached =>
      let values' := relocate further values
      let reached' := further.state reached
      let list : Relocation := .growth reached'.heap (reached'.listed values').heap 0
      refine ⟨list, Relocation.oneList_listed within values', most, fun bound enough => ?_⟩
      have ran := ends bound (Nat.le_trans (Nat.le_max_right _ _) enough)
      rw [(starts bound (Nat.le_trans (Nat.le_max_left _ _) enough)).1,
        bind_of_ok (evaluated enough), combinedBy, bind_of_ok ran]
      have request : Held reached'.heap (Request.application function values') :=
        ⟨Heap.Holds.later (closed.scope.2 token _ eager.implemented) within,
          closedEntry.held_of_tracks (fun t uncounted => tracks_operands t uncounted unaware most
            entry) (evaluated (Nat.le_refl _))⟩
      have listed : run host (bound + 1) (.application function values')
            (reached'.listed values') =
          list.result (run host (bound + 1) (.application function values') reached') :=
        closedAfter.run_grown unaware (.push_list _ _) (bound + 1) request
      exact listed.trans
        (congrArg list.result (eager.applied_beside unaware closed heap left right ran))

/-- Whatever its operands come to, the application comes to what the operation comes to, but for
further cells. -/
private theorem application_gives :
    ∃ list : Relocation, list.OneList state.heap ∧ ∀ result,
      Eval.Gives host (.tree (.operation "@" callee (.list [left, right]))) state result ↔
        ∃ inner, Eval.Gives host (.tree (.operation token left right)) state inner ∧
          result = list.result ((Relocation.growth state.heap heap 0).result inner) := by
  let operands (bound : Nat) : Eval (List Value) := operandValues (run host bound) left right
  let inside (bound : Nat) : Eval Value :=
    combinedBy (run host bound) (run host (bound + 1)) function left right
  have operation (bound : Nat) : run host (bound + 1) (.tree (.operation token left right)) state =
      combinedBy (run host bound) (run host bound) function left right state := by
    rw [(stages_run host).eager eager bound, combined_eq]
    rfl
  have same (inner : EStateM.Result Failure State Value) :
      Comes inside state inner ↔
        Eval.Gives host (.tree (.operation token left right)) state inner := by
    refine comes_congr (fun bound => ⟨bound + 2, ?_⟩) fun bound => ⟨bound, ?_⟩
    · unfold Comparison.HoldsAt
      rw [operation (bound + 1)]
      exact sooner_combinedBy (run_sooner tame (Nat.le_succ _)) (run_sooner tame (Nat.le_refl _))
        function left right state trivial
    · cases bound with
      | zero => exact .inl ⟨trivial, state, rfl⟩
      | succ bound =>
          unfold Comparison.HoldsAt
          rw [operation bound]
          exact sooner_combinedBy (run_sooner tame (Nat.le_succ _)) (run_sooner tame (by omega))
            function left right state trivial
  by_cases comes : ∃ values, Comes operands state values
  · obtain ⟨values, comes⟩ := comes
    obtain ⟨list, one, least, through⟩ := eager.application_through tame unaware closed native
      evaluates grows left right comes
    refine ⟨list, one, fun result => ?_⟩
    have bracket := comes_through_iff (prolongs_run tame _)
      (fun _ _ le => sooner_combinedBy (run_sooner tame le) (run_sooner tame (Nat.succ_le_succ le))
        function left right)
      (fun inner => (list.stops_result _).trans (Relocation.stops_result _ inner)) through result
    exact bracket.trans (exists_congr fun inner => and_congr_left' (same inner))
  · refine ⟨_, Relocation.oneList_none grows.within, fun result => ⟨fun gives => ?_, ?_⟩⟩
    · obtain ⟨least, ends⟩ := Gives.eventually tame gives
      obtain ⟨earliest, starts⟩ := eager.application_starts tame unaware closed native evaluates
        grows left right
      obtain ⟨_, _, finished⟩ := gives
      refine absurd ⟨_, max least earliest, rfl, fun _ stopped => ?_⟩ comes
      obtain ⟨whole, follows⟩ := starts _ (Nat.le_max_right least earliest)
      have ran := ends (max least earliest + 2) (by omega)
      exact finished _ (ran.symm.trans (whole.trans (bind_of_error (follows.trans
        (congrArg _ stopped)))))
    · rintro ⟨inner, gives, _⟩
      exact absurd ((same inner).mpr gives).of_bind comes

end Application

end State.Eager

/-! ## The number of arguments -/

/-- How many arguments a function takes is among what it kept from its definition. -/
theorem Function.accepts_of_origin {first second : Function} (same : first.origin = second.origin)
    (count : Nat) : first.accepts count = second.accepts count := by
  obtain ⟨params, variadic, _⟩ := Origin.mk.inj same
  rw [accepts, accepts, params, variadic]

/-- A function that a definition has accepted for an operator takes two arguments. -/
theorem Eval.accepts_of_checked {operator : String} {handle : Nat} {state : State}
    (checked : checkImplementation operator (.function handle) state = .ok () state) :
    handle < state.heap.functions.size ∧ (state.heap.function handle).accepts 2 = true := by
  let function := state.heap.function handle
  have count : function.params.length = 2 ∨ function.variadic ∧ function.params.length = 1 := by
    by_contra other
    have refused : checkImplementation operator (.function handle) state =
        .error (.error (.argumentCount "2" function.params.length)) state := by
      show (if _ then _ else _ : Eval Unit) state = _
      rw [if_neg other]
      rfl
    exact nomatch checked.symm.trans refused
  constructor
  · by_contra absent
    have none : function.params = [] := by
      show Function.params (Array.getD _ _ _) = []
      rw [Array.getD_eq_getD_getElem?, Array.getElem?_eq_none (Nat.le_of_not_lt absent)]
      rfl
    simp [none] at count
  · show function.accepts 2 = true
    unfold Function.accepts
    obtain two | ⟨variadic, one⟩ := count
    · simp [two]
    · simp [variadic, one]

/-- A function that takes so many arguments is called with them. -/
theorem Eval.run_application {host : Host} {bound : Nat} {handle : Nat} {arguments : List Value}
    {state : State} (accepts : (state.heap.function handle).accepts arguments.length) :
    run host (bound + 1) (.application (.function handle) arguments) state =
      asCall (inChild (state.heap.function handle).closure
        (runBody (run host bound) (.function handle) (state.heap.function handle) arguments))
          state := by
  show (if _ then _ else _ : Eval Value) state = _
  rw [if_pos accepts]
  rfl

namespace State.Eager

/-- Once a function has been accepted for an operator, it is called whenever the operands have come
to their values. -/
private theorem accepted_called {host : Host} (modest : host.Modest) {state earlier : State}
    {history : History} {operator : String} {handle : Nat}
    (checked : checkImplementation operator (.function handle) earlier = .ok () earlier)
    (recorded : earlier.Recorded history state) {left right : Node} {first second : Value}
    {middle reached : State} (gives : Eval.Gives host (.tree left) state (.ok first middle))
    (gives' : Eval.Gives host (.tree right) middle (.ok second reached)) (bound : Nat) :
    let function := reached.heap.function handle
    run host (bound + 1) (.application (.function handle) [first, second]) reached =
      asCall (inChild function.closure
        (runBody (run host bound) (.function handle) function [first, second])) reached := by
  obtain ⟨held, accepts⟩ := accepts_of_checked checked
  obtain ⟨bound₁, ran, _⟩ := gives
  obtain ⟨bound₂, ran', _⟩ := gives'
  obtain ⟨events, runs⟩ := recorded.evaluated modest bound₁ (.tree left)
  rw [after_of_ok ran] at runs
  have recordedMiddle : earlier.Recorded (events ++ history) middle := .runs recorded runs
  obtain ⟨events', runs'⟩ := recordedMiddle.evaluated modest bound₂ (.tree right)
  rw [after_of_ok ran'] at runs'
  have recordedAfter : earlier.Recorded (events' ++ (events ++ history)) reached :=
    .runs recordedMiddle runs'
  apply run_application
  rw [Function.accepts_of_origin (recordedAfter.retains held).2]
  exact accepts

/-- An operation evaluates its operands from left to right, once each, and applies the function that
the operator had when it began. The application of this function to a list of the operands does the
same, but for the list and for cells that the callee has made, if those are all it has done. A
function that has been accepted for an operator is called whenever the operands have come to their
values, whatever has become of the function since. -/
theorem operation_gives {host : Host} (modest : host.Modest) (unaware : host.Unaware)
    {state : State} (closed : state.Closed) {token : String} {function : Value}
    (eager : state.Eager token function)
    (native : state.scope.operators.implementations.get? "@" = none) {callee : Node} {heap : Heap}
    (evaluates : Eval.Gives host (.tree callee) state (.ok function { state with heap := heap }))
    (grows : state.heap.Grows heap) (left right : Node) :
    (∀ result, Eval.Gives host (.tree (.operation token left right)) state result ↔
      Comes (fun bound => combined (run host bound) function left right) state result) ∧
    (∃ list : Relocation, list.OneList state.heap ∧ ∀ result,
      Eval.Gives host (.tree (.operation "@" callee (.list [left, right]))) state result ↔
        ∃ inner, Eval.Gives host (.tree (.operation token left right)) state inner ∧
          result = list.result ((Relocation.growth state.heap heap 0).result inner)) ∧
    ∀ {earlier : State} {history : History} {operator : String} {handle : Nat},
      function = .function handle →
      checkImplementation operator function earlier = .ok () earlier →
      earlier.Recorded history state →
      ∀ {first second : Value} {middle reached : State},
        Eval.Gives host (.tree left) state (.ok first middle) →
        Eval.Gives host (.tree right) middle (.ok second reached) →
        ∀ bound, run host (bound + 1) (.application function [first, second]) reached =
          asCall (inChild (reached.heap.function handle).closure
            (runBody (run host bound) function (reached.heap.function handle) [first, second]))
              reached := by
  refine ⟨fun result => ?_, eager.application_gives modest.tame unaware closed native evaluates
    grows left right, ?_⟩
  · exact gives_step_iff fun bound => (stages_run host).eager eager bound
  · rintro earlier history operator handle rfl checked recorded first second middle reached gives
      gives' bound
    exact accepted_called modest checked recorded gives gives' bound

/-- A state with such an operator, whose function takes the second of two values, and is bound to
`f`. -/
def sample : State :=
  let heap : Heap :=
    { Heap.empty with functions := #[⟨["first", "second"], .identifier "second", ∅, false, []⟩] }
  let operators : OperatorTable :=
    { OperatorTable.initial with implementations := ⟨[("+", ⟨.function 0, true⟩)], by simp⟩ }
  .initial ⟨⟨[("f", [.function 0])], by simp⟩, operators⟩ heap

private theorem sample_closed : sample.Closed where
  heap := by
    refine ⟨fun _ member => absurd member (Array.not_mem_empty _),
      fun _ member => absurd member (Array.not_mem_empty _), fun content member => ?_,
      fun _ member => absurd member (Array.not_mem_empty _)⟩
    rw [Array.mem_singleton.mp member]
    exact fun _ _ found => by cases found
  scope := by
    have function : sample.heap.Holds (.function 0) := Nat.one_pos
    constructor
    · intro name values found
      cases List.mem_singleton.mp ((Dict.get?_eq_some_iff _).mp found)
      exact Relocation.held_cons function fun _ member => absurd member List.not_mem_nil
    · intro token implementation found
      cases List.mem_singleton.mp ((Dict.get?_eq_some_iff _).mp found)
      exact function
  outer := fun _ member => by cases member

/-- `(f : 1) + f` and `f @ [f : 1, f]` bind `f` once, in the first operand, and give the value that
the second operand has then. -/
theorem operation_gives_sample :
    let host := CommandLine.host (CommandLine.listedFiles [])
    let one : Value := .number .one
    let named : Node := .identifier "f"
    let binding : Node := .operation ":" named (.number .one)
    let reached : State := { sample with scope := sample.scope.bind "f" one }
    sample.Closed ∧ sample.Eager "+" (.function 0) ∧ sample.heap.Grows sample.heap ∧
    sample.scope.operators.implementations.get? "@" = none ∧
    Eval.Gives host (.tree named) sample (.ok (.function 0) sample) ∧
    checkImplementation "+" (.function 0) sample = .ok () sample ∧ sample.Recorded [] sample ∧
    Eval.Gives host (.tree binding) sample (.ok one reached) ∧
    Eval.Gives host (.tree named) reached (.ok one reached) ∧
    (∃ after, Eval.Gives host (.tree (.operation "+" binding named)) sample (.ok one after) ∧
      after.scope.lookup? "f" = some one) ∧
    (∃ after, Eval.Gives host (.tree (.operation "@" named (.list [binding, named]))) sample
      (.ok one after) ∧ after.scope.lookup? "f" = some one) ∧
    ∀ bound, run host (bound + 1) (.application (.function 0) [one, one]) reached =
      asCall (inChild ∅ (runBody (run host bound) (.function 0) (reached.heap.function 0)
        [one, one])) reached := by
  intro host one named binding reached
  have eager : sample.Eager "+" (.function 0) := ⟨by decide, rfl, rfl⟩
  have evaluates : Eval.Gives host (.tree named) sample (.ok (.function 0) sample) :=
    ⟨1, rfl, nofun⟩
  have checked : checkImplementation "+" (.function 0) sample = .ok () sample := rfl
  have binds : Eval.Gives host (.tree binding) sample (.ok one reached) := ⟨2, rfl, nofun⟩
  have seen : Eval.Gives host (.tree named) reached (.ok one reached) := ⟨1, rfl, nofun⟩
  obtain ⟨_, ⟨list, _, through⟩, called⟩ := operation_gives
    (Host.modest_commandLine (CommandLine.listedFiles []))
    (Host.unaware_commandLine (CommandLine.listedFiles [])) sample_closed eager rfl evaluates
    (.refl _) binding named
  have whole : Eval.Gives host (.tree (.operation "+" binding named)) sample (.ok one _) :=
    ⟨4, rfl, nofun⟩
  have listed : Eval.Gives host (.tree (.operation "@" named (.list [binding, named]))) sample
      (.ok one _) := (through _).mpr ⟨_, whole, rfl⟩
  exact ⟨sample_closed, eager, .refl _, rfl, evaluates, checked, .start, binds, seen,
    ⟨_, whole, rfl⟩, ⟨_, listed, rfl⟩, called rfl checked .start binds seen⟩

end State.Eager

end Fixity
