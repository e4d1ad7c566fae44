import Fixity.Proofs.Bounds
import Fixity.Proofs.Macros
import Fixity.Proofs.Places
import Fixity.Proofs.Rows

/-!
Contract: the native functions that feed a callable the items of a container.

Owns:
- `RowKind.items`, the items of a container, and the cells that are made for them;
- `Eval.Feeds` and `Eval.Stops`, the application of a callable to one item after the other, until
  there are no more or one application fails;
- `Eval.gives_native_iff`: what the application of a native function comes to;
- `Folding.Walker`, the functions that do so, with what each makes of the answers;
- `Folding.gives_walk_iff`: what such a function comes to.

Does not own: what happens to the items while the callable is applied.
-/

namespace Fixity

/-! ## Items -/

namespace OnHeap

theorem newTexts_eq (contents : List String) (heap : Heap) :
    newTexts contents heap =
      .ok ((List.range' heap.texts.size contents.length).map .text)
        { heap with texts := heap.texts ++ contents.toArray } := by
  unfold newTexts
  induction contents generalizing heap with
  | nil => simp [EStateM.pure, pure]
  | cons content rest inductionHypothesis =>
      rw [List.mapM_cons]
      refine (bind_of_ok rfl).trans ((bind_of_ok (inductionHypothesis _)).trans ?_)
      simp [List.range'_succ, EStateM.pure, pure]

theorem newNodes_eq (trees : List Node) (heap : Heap) :
    newNodes trees heap =
      .ok ((List.range' heap.nodes.size trees.length).map .node)
        { heap with nodes := heap.nodes ++ trees.toArray } := by
  unfold newNodes
  induction trees generalizing heap with
  | nil => simp [EStateM.pure, pure]
  | cons tree rest inductionHypothesis =>
      rw [List.mapM_cons]
      refine (bind_of_ok rfl).trans ((bind_of_ok (inductionHypothesis _)).trans ?_)
      simp [List.range'_succ, EStateM.pure, pure]

end OnHeap

namespace RowKind

variable {α : Type} {heap : Heap}

/-- The heap with cells for the items of a row: a text for each character, a tree for each child.
What is in a list has its cells already. -/
def unpacked : RowKind α → List α → Heap → Heap
  | .list, _, heap => heap
  | .text, characters, heap =>
      { heap with texts := heap.texts ++ (characters.map Char.toString).toArray }
  | .listTree, trees, heap => { heap with nodes := heap.nodes ++ trees.toArray }
  | .bodyTree, trees, heap => { heap with nodes := heap.nodes ++ trees.toArray }

/-- The items of a row. -/
def items : RowKind α → List α → Heap → List Value
  | .list, values, _ => values
  | .text, characters, heap => (List.range' heap.texts.size characters.length).map .text
  | .listTree, trees, heap => (List.range' heap.nodes.size trees.length).map .node
  | .bodyTree, trees, heap => (List.range' heap.nodes.size trees.length).map .node

/-- The items of a container are those of the row that it is when they are asked for. -/
theorem items_of_row {kind : RowKind α} {container : Value} {entries : List α}
    (row : heap.IsRow kind container entries) (role : String) :
    Folding.items container role heap =
      .ok (kind.items entries heap) (kind.unpacked entries heap) := by
  have got : (get : OnHeap Heap) heap = .ok heap heap := rfl
  cases row with
  | @list handle elements cell =>
      refine (OnHeap.bind_of_ok got).trans ?_
      rw [Heap.list, OnHeap.getD_of_getElem? cell]
      rfl
  | @text handle content cell =>
      refine (OnHeap.bind_of_ok got).trans ?_
      rw [Heap.text, OnHeap.getD_of_getElem? cell, OnHeap.newTexts_eq, List.length_map]
      rfl
  | @listTree handle elements cell =>
      refine (OnHeap.bind_of_ok got).trans ?_
      rw [Heap.node, OnHeap.getD_of_getElem? cell]
      exact OnHeap.newNodes_eq elements heap
  | @bodyTree handle statements cell =>
      refine (OnHeap.bind_of_ok got).trans ?_
      rw [Heap.node, OnHeap.getD_of_getElem? cell]
      exact OnHeap.newNodes_eq statements heap

end RowKind

/-! ## One item after the other -/

namespace Eval

/-- Applies a callable to one item after the other and answers all results. The arguments can
depend on the last result. -/
def feed (interpreter : Interpreter) (function : Value)
    (arguments : (last item : Value) → List Value) (last : Value) : List Value → Eval (List Value)
  | [] => return []
  | item :: rest => do
      let answer ← interpreter.apply function (arguments last item)
      return answer :: (← feed interpreter function arguments answer rest)

/-- A callable is applied to one item after the other, each time in the state that the application
before has left, and each application has a result. -/
inductive Feeds (host : Host) (function : Value) (arguments : (last item : Value) → List Value) :
    State → Value → (items answers : List Value) → State → Prop
  | nil (state : State) (last : Value) : Feeds host function arguments state last [] [] state
  | cons {state middle after : State} {last item answer : Value} {rest answers : List Value}
      (gives : Gives host (.application function (arguments last item)) state
        (.ok answer middle))
      (onward : Feeds host function arguments middle answer rest answers after) :
      Feeds host function arguments state last (item :: rest) (answer :: answers) after

/-- A callable is applied to one item after the other until one application fails. -/
inductive Stops (host : Host) (function : Value) (arguments : (last item : Value) → List Value) :
    State → Value → (items : List Value) → Failure → State → Prop
  | here {state left : State} {last item : Value} {rest : List Value} {failure : Failure}
      (fails : Gives host (.application function (arguments last item)) state
        (.error failure left)) :
      Stops host function arguments state last (item :: rest) failure left
  | later {state middle left : State} {last item answer : Value} {rest : List Value}
      {failure : Failure}
      (gives : Gives host (.application function (arguments last item)) state
        (.ok answer middle))
      (onward : Stops host function arguments middle answer rest failure left) :
      Stops host function arguments state last (item :: rest) failure left

section Feeding

variable {host : Host} (tame : host.Tame) {function : Value}
  {arguments : (last item : Value) → List Value}

theorem Feeds.length_eq {state after : State} {last : Value} {items answers : List Value}
    (feeds : Feeds host function arguments state last items answers after) :
    answers.length = items.length := by
  induction feeds with
  | nil => rfl
  | cons _ _ inductionHypothesis => exact congrArg (· + 1) inductionHypothesis

include tame in
private theorem prolongs_feed (function : Value) (arguments : (last item : Value) → List Value)
    (last : Value) (items : List Value) :
    Prolongs fun bound => feed (run host bound) function arguments last items := by
  induction items generalizing last with
  | nil => exact prolongs_const _
  | cons item rest inductionHypothesis =>
      exact (prolongs_run tame _).bind fun answer =>
        (inductionHypothesis answer).bind fun answers => prolongs_const (pure (answer :: answers))

include tame in
/-- Feeding comes to the answers, or to the first failure. -/
theorem comes_feed_iff {state : State} {last : Value} {items : List Value}
    {result : EStateM.Result Failure State (List Value)} :
    Comes (fun bound => feed (run host bound) function arguments last items) state result ↔
      (∃ answers after, Feeds host function arguments state last items answers after ∧
        result = .ok answers after) ∨
      ∃ failure left, Stops host function arguments state last items failure left ∧
        result = .error failure left := by
  induction items generalizing state last result with
  | nil =>
      refine comes_pure_iff.trans ⟨fun same => .inl ⟨[], state, .nil _ _, same⟩, ?_⟩
      rintro (⟨_, _, ⟨⟩, rfl⟩ | ⟨_, _, ⟨⟩, _⟩)
      rfl
  | cons item rest inductionHypothesis =>
      have prolongs (answer : Value) := prolongs_feed tame function arguments answer rest
      have prolongs' (answer : Value) (answers : List Value) :=
        prolongs_const (Pure.pure (answer :: answers) : Eval (List Value))
      refine (comes_bind_iff (prolongs_run tame _) fun answer =>
        (prolongs answer).bind (prolongs' answer)).trans ?_
      -- what the rest comes to, behind the first answer
      have others (answer : Value) (middle : State) :
          Comes (fun bound => feed (run host bound) function arguments answer rest >>=
            fun answers => Pure.pure (answer :: answers)) middle result ↔ _ :=
        comes_bind_iff (prolongs answer) (prolongs' answer)
      simp only [others, inductionHypothesis, comes_pure_iff]
      constructor
      · rintro (⟨failure, left, fails, rfl⟩ | ⟨answer, middle, gives,
          ⟨failure, left, ⟨_, _, _, same⟩ | ⟨_, _, stops, same⟩, rfl⟩ |
          ⟨answers, after, ⟨_, _, feeds, same⟩ | ⟨_, _, _, same⟩, rfl⟩⟩)
        · exact .inr ⟨failure, left, .here fails, rfl⟩
        · cases same
        · cases same
          exact .inr ⟨failure, left, .later gives stops, rfl⟩
        · cases same
          exact .inl ⟨answer :: answers, after, .cons gives feeds, rfl⟩
        · cases same
      · rintro (⟨_, after, feeds, rfl⟩ | ⟨failure, left, stops, rfl⟩)
        · obtain ⟨⟩ | ⟨gives, feeds⟩ := feeds
          exact .inr ⟨_, _, gives, .inr ⟨_, after, .inl ⟨_, _, feeds, rfl⟩, rfl⟩⟩
        · obtain ⟨fails⟩ | ⟨gives, stops⟩ := stops
          · exact .inl ⟨failure, left, fails, rfl⟩
          · exact .inr ⟨_, _, gives, .inl ⟨failure, left, .inr ⟨_, _, stops, rfl⟩, rfl⟩⟩

end Feeding

/-! ## Applications of native functions -/

section Applications

variable {host : Host} {state : State} {handle : Nat} {native : Native} {arguments : List Value}
  {result : EStateM.Result Failure State Value}
  (action : (state.heap.builtin handle).action = .native native)

include action in
private theorem callBuiltin_of_native (host : Host) (interpreter : Interpreter) :
    callBuiltin host interpreter (state.heap.builtin handle) arguments =
      callNative interpreter native arguments := by
  unfold callBuiltin
  rw [action]

include action in
theorem gives_native_iff :
    Gives host (.application (.builtin handle) arguments) state result ↔
      Comes (fun bound => callNative (run host bound) native arguments) state result :=
  gives_step_iff fun bound =>
    congrFun (callBuiltin_of_native action host (run host bound)) state

include action in
/-- In a scope further out, a native function does there what it does. -/
theorem gives_native_around_iff (tame : host.Tame) (steps : Nat) :
    Gives host (.scopedApplication steps (.builtin handle) arguments) state result ↔
      ∃ inner, Comes (fun bound => callNative (run host bound) native arguments)
          (state.outward steps) inner ∧
        result = leaving (state.back steps) inner := by
  have bracket (bound : Nat) :
      run host (bound + 1) (.scopedApplication steps (.builtin handle) arguments) state =
        leaving (state.back steps)
          (callNative (run host bound) native arguments (state.outward steps)) :=
    (ensuring_eq_leaving _ _ _).trans (congrArg _ (congrFun
      (callBuiltin_of_native action host (run host bound)) (state.outward steps)))
  exact gives_leaving_iff tame bracket result

end Applications

end Eval

/-! ## Functions that walk a container -/

namespace Folding

open Eval

/-- What a fold begins with and what it goes on with: without a start it begins with the first item,
if there is one. -/
def beginning {α : Type} : (start : Option α) → (items : List α) → Option (α × List α)
  | some start, items => some (start, items)
  | none, first :: rest => some (first, rest)
  | none, [] => none

/-- The native functions that feed a callable the items of a container. A fold answers its last
accumulator or the history of them, and can be given a start. -/
inductive Walker where
  | map
  | filter
  | fold (history : Bool) (start : Option Value)

namespace Walker

def native : Walker → Native
  | map => .map
  | filter => .filter
  | fold history _ => .fold history

def name : Walker → String
  | map => "map"
  | filter => "filter"
  | fold history _ => foldName history

/-- The start that is given as an argument. -/
def start : Walker → Option Value
  | fold _ start => start
  | _ => none

/-- The arguments of the function itself. -/
def arguments (walker : Walker) (function container : Value) : List Value :=
  function :: container :: walker.start.toList

/-- What the callable is applied to. A fold puts the accumulator in front of each item. -/
def applied : Walker → (last item : Value) → List Value
  | fold _ _ => fun last item => [last, item]
  | _ => fun _ item => [item]

/-- The accumulator in front of all applications and the items that the callable is applied to.
Functions that are not folds have no use for an accumulator. -/
def begin : Walker → (items : List Value) → Option (Value × List Value)
  | fold _ start => beginning start
  | _ => fun items => some (.zero, items)

/-- The items for which the answer is something true. -/
def chosen (items answers : List Value) : List Value :=
  ((items.zip answers).filter fun pair => pair.2.isTruthy).map (·.1)

/-- What is made of the answers: a new list of them, of the items with a true one or of all
accumulators, or the last accumulator. -/
def finish (walker : Walker) (first : Value) (items answers : List Value) : Eval Value :=
  fun after =>
    let list (elements : List Value) : EStateM.Result Failure State Value :=
      .ok (.list after.heap.lists.size) (after.listed elements)
    match walker with
    | map => list answers
    | filter => list (chosen items answers)
    | fold true _ => list (first :: answers)
    | fold false _ => .ok ((first :: answers).getLast (List.cons_ne_nil _ _)) after

/-- Feeds the callable the items and makes something of the answers. -/
def walk (walker : Walker) (interpreter : Interpreter) (function : Value) (items : List Value) :
    Eval Value :=
  match walker.begin items with
  | none => fail (.invalidArgument (.emptyFold walker.name))
  | some (first, rest) => do
      walker.finish first rest (← feed interpreter function walker.applied first rest)

/-- The accumulator in front of all applications is given, or it is the first item. -/
theorem begin_eq_some {walker : Walker} {first : Value} {items fed : List Value}
    (begins : walker.begin items = some (first, fed)) :
    (items = fed ∧ (first = .zero ∨ walker.start = some first)) ∨ items = first :: fed := by
  cases walker with
  | map | filter =>
      cases begins
      exact .inl ⟨rfl, .inl rfl⟩
  | fold history start =>
      cases start with
      | some start =>
          cases begins
          exact .inl ⟨rfl, .inr rfl⟩
      | none =>
          cases items with
          | nil => cases begins
          | cons item rest =>
              cases begins
              exact .inr rfl

end Walker

/-! ### The loops of the functions -/

section Loops

variable (interpreter : Interpreter) (function : Value)

theorem mapM_eq_feed (last : Value) (items : List Value) :
    (items.mapM fun item => interpreter.apply function [item]) =
      feed interpreter function (fun _ item => [item]) last items := by
  induction items generalizing last with
  | nil => rfl
  | cons item rest inductionHypothesis =>
      rw [List.mapM_cons, feed]
      exact bind_congr fun answer => by rw [inductionHypothesis answer]

theorem kept_eq_feed (last : Value) (passed items : List Value) :
    kept interpreter function passed items =
      feed interpreter function (fun _ item => [item]) last items >>= fun answers =>
        pure (passed.reverse ++ Walker.chosen items answers) := by
  induction items generalizing last passed with
  | nil => simp [kept, feed, Walker.chosen]
  | cons item rest inductionHypothesis =>
      rw [kept, feed, bind_assoc]
      refine bind_congr fun answer => ?_
      rw [inductionHypothesis answer, bind_assoc]
      refine bind_congr fun answers => ?_
      rw [pure_bind]
      by_cases chosen : answer.isTruthy <;> simp [Walker.chosen, chosen]

theorem accumulators_eq_feed (accumulator : Value) (earlier items : List Value) :
    accumulators interpreter function accumulator earlier items =
      feed interpreter function (fun last item => [last, item]) accumulator items >>= fun answers =>
        pure ((accumulator :: answers).reverse ++ earlier) := by
  induction items generalizing accumulator earlier with
  | nil => simp [accumulators, feed]
  | cons item rest inductionHypothesis =>
      rw [accumulators, feed, bind_assoc]
      refine bind_congr fun answer => ?_
      rw [inductionHypothesis answer, bind_assoc]
      exact bind_congr fun answers => by simp

end Loops

/-! ### The functions -/

section Functions

variable {α : Type} {state : State} {function container : Value} {kind : RowKind α}
  {entries : List α}

/-- The state with the cells for the items of a row. -/
def taking (kind : RowKind α) (entries : List α) (state : State) : State :=
  { state with heap := kind.unpacked entries state.heap }

theorem itemsFor_of_row (row : state.heap.IsRow kind container entries) (builtin : String) :
    itemsFor builtin container state =
      .ok (kind.items entries state.heap) (taking kind entries state) :=
  onHeap_of_ok (RowKind.items_of_row row _)

theorem requireCallable_of_callable (callable : function.isCallable) (builtin : String) :
    requireCallable function builtin = pure () := if_pos callable

/-- A fold makes its result of its accumulators. -/
private theorem accumulators_finish (interpreter : Interpreter) (function : Value)
    (history : Bool) (start : Option Value) (first : Value) (rest : List Value) :
    (accumulators interpreter function first [] rest >>= fun results =>
      if history then (OnHeap.newListOf results.reverse : Eval Value)
      else return results.headD .zero) =
      feed interpreter function (Walker.fold history start).applied first rest >>= fun answers =>
        (Walker.fold history start).finish first rest answers := by
  rw [accumulators_eq_feed, bind_assoc]
  refine bind_congr fun answers => ?_
  rw [pure_bind]
  cases history with
  | true =>
      simp only [List.append_nil, List.reverse_reverse, if_true]
      rfl
  | false =>
      have last : ((first :: answers).reverse ++ []).headD .zero =
          (first :: answers).getLast (List.cons_ne_nil _ _) := by
        rw [List.append_nil, List.headD_eq_head?_getD, List.head?_reverse,
          List.getLast?_eq_some_getLast (List.cons_ne_nil _ _), Option.getD_some]
      simp only [Bool.false_eq_true, if_false, last]
      rfl

/-- Each function walks the items that the container holds when the function is called. -/
theorem callNative_eq_walk (callable : function.isCallable)
    (row : state.heap.IsRow kind container entries) (walker : Walker)
    (interpreter : Interpreter) :
    callNative interpreter walker.native (walker.arguments function container) state =
      walker.walk interpreter function (kind.items entries state.heap)
        (taking kind entries state) := by
  cases walker with
  | map =>
      show Folding.map interpreter function container state = _
      unfold Folding.map
      rw [requireCallable_of_callable callable, pure_bind]
      refine (bind_of_ok (itemsFor_of_row row _)).trans ?_
      rw [mapM_eq_feed interpreter function .zero]
      rfl
  | filter =>
      show Folding.filter interpreter function container state = _
      unfold Folding.filter
      rw [requireCallable_of_callable callable, pure_bind]
      refine (bind_of_ok (itemsFor_of_row row _)).trans ?_
      rw [kept_eq_feed interpreter function .zero, bind_assoc]
      simp only [pure_bind]
      rfl
  | fold history start =>
      have same : callNative interpreter (Walker.fold history start).native
          ((Walker.fold history start).arguments function container) state =
          Folding.fold interpreter history function container start state := by
        cases start <;> rfl
      rw [same]
      unfold Folding.fold
      dsimp only
      rw [requireCallable_of_callable callable, pure_bind]
      refine (bind_of_ok (itemsFor_of_row row _)).trans ?_
      cases start with
      | some start => exact congrFun (accumulators_finish interpreter function history _ _ _) _
      | none =>
          unfold Walker.walk
          cases kind.items entries state.heap with
          | nil => rfl
          | cons first rest =>
              exact congrFun (accumulators_finish interpreter function history none _ _) _

end Functions

/-! ### What they come to -/

section Results

variable {host : Host} (tame : host.Tame) {walker : Walker} {function container : Value}
  {items : List Value} {begun : State}

/-- What a walk of some items comes to: what is made of the answers, the first failure, or the
error of a fold that has nothing to start from. -/
def Walker.Walks (walker : Walker) (host : Host) (function : Value) (items : List Value)
    (begun : State) (result : EStateM.Result Failure State Value) : Prop :=
  match walker.begin items with
  | none => result = .error (.error (.invalidArgument (.emptyFold walker.name))) begun
  | some (first, rest) =>
      (∃ answers after, Feeds host function walker.applied begun first rest answers after ∧
        result = walker.finish first rest answers after) ∨
      ∃ failure left, Stops host function walker.applied begun first rest failure left ∧
        result = .error failure left

theorem Walker.walks_of_none (walker : Walker) {result : EStateM.Result Failure State Value}
    (begins : walker.begin items = none) :
    walker.Walks host function items begun result ↔
      result = .error (.error (.invalidArgument (.emptyFold walker.name))) begun := by
  unfold Walks
  rw [begins]

theorem Walker.walks_of_some (walker : Walker) {first : Value} {rest : List Value}
    {result : EStateM.Result Failure State Value}
    (begins : walker.begin items = some (first, rest)) :
    walker.Walks host function items begun result ↔
      (∃ answers after, Feeds host function walker.applied begun first rest answers after ∧
        result = walker.finish first rest answers after) ∨
      ∃ failure left, Stops host function walker.applied begun first rest failure left ∧
        result = .error failure left := by
  unfold Walks
  rw [begins]

theorem Walker.exists_finish (walker : Walker) (first : Value) (items answers : List Value)
    (after : State) :
    ∃ value reached, walker.finish first items answers after = .ok value reached := by
  cases walker with
  | map | filter => exact ⟨_, _, rfl⟩
  | fold history start => cases history <;> exact ⟨_, _, rfl⟩

include tame

theorem comes_walk_iff {result : EStateM.Result Failure State Value} :
    Comes (fun bound => walker.walk (run host bound) function items) begun result ↔
      walker.Walks host function items begun result := by
  unfold Walker.walk Walker.Walks
  cases walker.begin items with
  | none =>
      refine comes_const_iff.trans ⟨fun same => same.1.symm, ?_⟩
      rintro rfl
      exact ⟨rfl, nofun⟩
  | some pair =>
      obtain ⟨first, rest⟩ := pair
      dsimp only
      have finishes (answers : List Value) (after : State) :
          Comes (fun _ => walker.finish first rest answers) after result ↔
            result = walker.finish first rest answers after := by
        refine comes_const_iff.trans ⟨fun same => same.1.symm, ?_⟩
        rintro rfl
        obtain ⟨value, reached, same⟩ := walker.exists_finish first rest answers after
        exact ⟨rfl, fun left stopped => by cases same.symm.trans stopped⟩
      refine (comes_bind_iff (prolongs_feed tame function walker.applied first rest)
        fun answers => prolongs_const (walker.finish first rest answers)).trans ?_
      simp only [comes_feed_iff tame, finishes]
      constructor
      · rintro (⟨failure, left, ⟨_, _, _, same⟩ | ⟨_, _, stops, same⟩, rfl⟩ |
          ⟨answers, after, ⟨_, _, feeds, same⟩ | ⟨_, _, _, same⟩, rfl⟩) <;> cases same
        · exact .inr ⟨failure, left, stops, rfl⟩
        · exact .inl ⟨answers, after, feeds, rfl⟩
      · rintro (⟨answers, after, feeds, rfl⟩ | ⟨failure, left, stops, rfl⟩)
        · exact .inr ⟨answers, after, .inl ⟨_, _, feeds, rfl⟩, rfl⟩
        · exact .inl ⟨failure, left, .inr ⟨_, _, stops, rfl⟩, rfl⟩

variable (walker) {α : Type} {state : State} {kind : RowKind α} {entries : List α}
  (callable : function.isCallable) (row : state.heap.IsRow kind container entries)
include callable row

theorem comes_native_walk_iff {result : EStateM.Result Failure State Value} :
    Comes (fun bound =>
        callNative (run host bound) walker.native (walker.arguments function container)) state
        result ↔
      walker.Walks host function (kind.items entries state.heap) (taking kind entries state)
        result := by
  rw [← comes_walk_iff tame]
  unfold Comes
  simp only [callNative_eq_walk callable row]

variable {handle : Nat} (action : (state.heap.builtin handle).action = .native walker.native)
include action

/-- The application of such a function is a walk of the items that the container holds. -/
theorem gives_walk_iff (result : EStateM.Result Failure State Value) :
    Eval.Gives host (.application (.builtin handle) (walker.arguments function container)) state
        result ↔
      walker.Walks host function (kind.items entries state.heap) (taking kind entries state)
        result :=
  (gives_native_iff action).trans (comes_native_walk_iff tame walker callable row)

/-- In a scope further out, such a function walks the same items from there. -/
theorem gives_walk_around_iff (steps : Nat) (result : EStateM.Result Failure State Value) :
    Eval.Gives host
        (.scopedApplication steps (.builtin handle) (walker.arguments function container)) state
        result ↔
      ∃ inner, walker.Walks host function (kind.items entries state.heap)
          (taking kind entries (state.outward steps)) inner ∧
        result = leaving (state.back steps) inner := by
  have rowOutward : (state.outward steps).heap.IsRow kind container entries := row
  exact (gives_native_around_iff action tame steps).trans (exists_congr fun inner =>
    and_congr_left' (comes_native_walk_iff tame walker callable rowOutward))

end Results

end Folding

end Fixity
