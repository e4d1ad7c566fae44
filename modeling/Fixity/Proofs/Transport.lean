import Fixity.Proofs.Passages
import Fixity.Proofs.Preservation

/-!
Contract: the rules of evaluation under an insertion.

Owns:
- one lemma for each rule of evaluation: with interpreters that follow one another, the rule follows
  itself.

Does not own: the application of functions, which an insertion can bring to the limit, and whole
evaluations.
-/

namespace Fixity

instance : Renumbers Eval.Progress where
  renumber insertion
    | .finished last => .finished (insertion.value last)
    | .changed last rest => .changed (insertion.value last) rest

namespace Passage

namespace Follows

open Eval

variable {p : Passage} {first second : Interpreter}

/-! ## Native functions -/

section Native

theorem requireCallable (function : Value) (builtin : String) :
    p.Follows (Folding.requireCallable function builtin)
      (Folding.requireCallable (p.insertion.value function) builtin) := by
  unfold Folding.requireCallable
  rw [Insertion.isCallable_value]
  exact .ite (.pure rfl) (.fail rfl)

theorem itemsFor (builtin : String) (container : Value) :
    p.Follows (Folding.itemsFor builtin container)
      (Folding.itemsFor builtin (p.insertion.value container)) :=
  .onHeap (.folded _ _)

variable (agree : p.Agree first second)
include agree

theorem mapping (function container : Value) :
    p.Follows (Folding.map first function container)
      (Folding.map second (p.insertion.value function) (p.insertion.value container)) :=
  .bind (.requireCallable function _) fun _ => .bind (.itemsFor _ container) fun _ =>
    .bind (.mapM rfl fun item => agree (.application function [item])) fun _ =>
      .onHeap (.newListOf rfl)

theorem kept (function : Value) (passed items : List Value) :
    p.Follows (Folding.kept first function passed items)
      (Folding.kept second (p.insertion.value function) (passed.map p.insertion.value)
        (items.map p.insertion.value)) := by
  induction items generalizing passed with
  | nil => exact .pure (by simp)
  | cons item rest inductionHypothesis =>
      refine .bind (agree (.application function [item])) fun answer => ?_
      rw [Insertion.renumber_value, Insertion.isTruthy_value]
      split
      · exact inductionHypothesis (item :: passed)
      · exact inductionHypothesis passed

theorem filter (function container : Value) :
    p.Follows (Folding.filter first function container)
      (Folding.filter second (p.insertion.value function) (p.insertion.value container)) :=
  .bind (.requireCallable function _) fun _ => .bind (.itemsFor _ container) fun items =>
    .bind (.kept agree function [] items) fun _ => .onHeap (.newListOf rfl)

theorem accumulators (function accumulator : Value) (earlier items : List Value) :
    p.Follows (Folding.accumulators first function accumulator earlier items)
      (Folding.accumulators second (p.insertion.value function) (p.insertion.value accumulator)
        (earlier.map p.insertion.value) (items.map p.insertion.value)) := by
  induction items generalizing accumulator earlier with
  | nil => exact .pure rfl
  | cons item rest inductionHypothesis =>
      exact .bind (agree (.application function [accumulator, item])) fun next =>
        inductionHypothesis next (accumulator :: earlier)

theorem fold (history : Bool) (function container : Value) (start : Option Value) :
    p.Follows (Folding.fold first history function container start)
      (Folding.fold second history (p.insertion.value function) (p.insertion.value container)
        (start.map p.insertion.value)) := by
  refine .bind (.requireCallable function _) fun _ => .bind (.itemsFor _ container) fun items => ?_
  have results (entry : Value × List Value) : p.Follows
      (do
        let results ← Folding.accumulators first function entry.1 [] entry.2
        if history then OnHeap.newListOf results.reverse else return results.headD .zero)
      (do
        let results ← Folding.accumulators second (p.insertion.value function)
          (p.insertion.value entry.1) [] (entry.2.map p.insertion.value)
        if history then OnHeap.newListOf results.reverse else return results.headD .zero) := by
    refine .bind (.accumulators agree function entry.1 [] entry.2) fun results => .ite ?_ ?_
    · exact .onHeap (.newListOf (by simp))
    · exact .pure (by cases results <;> rfl)
  cases start with
  | some start => exact .bind (.pure rfl) results
  | none =>
      cases items with
      | nil => exact .bind (.fail rfl) results
      | cons item rest => exact .bind (.pure rfl) results

theorem evaluate (value : Value) :
    p.Follows (Reflection.evaluate first value)
      (Reflection.evaluate second (p.insertion.value value)) := by
  cases value with
  | text handle => exact .read fun state => agree (.source (state.heap.text handle)) state
  | _ => exact .pure rfl

/-- A tree is evaluated as it is at the time. -/
theorem evalNode (handle : Nat) :
    p.Follows (do first.eval ((← get).heap.node handle))
      (do second.eval ((← get).heap.node (p.insertion.handle handle))) := by
  refine .read fun state => ?_
  show p.FollowsAt state (first (.tree (state.heap.node handle)))
    (second (.tree ((p.insertion.heap state.heap).node (p.insertion.handle handle))))
  rw [Insertion.node_heap _ handle]
  exact agree _ state

theorem evaluateTree (value : Value) :
    p.Follows (Reflection.evaluateTree first value)
      (Reflection.evaluateTree second (p.insertion.value value)) := by
  cases value with
  | node handle => exact .evalNode agree handle
  | _ => exact .pure rfl

omit agree in
theorem firstFree_scope (insertion : Insertion) (scope : Scope) (tries number : Nat) :
    Reflection.firstFree (insertion.scope scope) tries number =
      Reflection.firstFree scope tries number := by
  induction tries generalizing number with
  | zero => rfl
  | succ tries inductionHypothesis =>
      unfold Reflection.firstFree
      rw [Insertion.isBound_scope, inductionHypothesis]

omit agree in
theorem freshName : p.Follows Reflection.freshName Reflection.freshName := by
  refine .read fun state => ?_
  have size : (p.insertion.state state).scope.bindings.size = state.scope.bindings.size :=
    Dict.size_map _ _
  rw [size, show (p.insertion.state state).scope = p.insertion.scope state.scope from rfl,
    show (p.insertion.state state).nextName = state.nextName from rfl, firstFree_scope]
  cases Reflection.firstFree state.scope (state.scope.bindings.size + 1) state.nextName with
  | some number => exact .bind ⟨⟨.refl _, rfl⟩, fun _ => .inr rfl⟩ fun _ => .onHeap (.newNode rfl)
  | none => exact Passage.Follows.throw .exhausted state

omit agree in
theorem delete (names : List Value) :
    p.Follows (Reflection.delete names)
      (Reflection.delete (names.map p.insertion.value)) := by
  refine .bind (.onHeap (.mapM rfl fun name => .nameOf name)) fun names =>
    .bind (.modifyScope fun scope => ?_) fun _ => .pure rfl
  rw [Insertion.renumber_plains]
  exact Insertion.foldl_scope scope Insertion.remove_scope names

omit agree in
theorem visibleNames : p.Follows Reflection.visibleNames Reflection.visibleNames :=
  .readScope fun scope => .bind (.onHeap (.newTexts (by simp))) fun _ => .onHeap (.newListOf rfl)

omit agree in
theorem levelTable : p.Follows Reflection.levelTable Reflection.levelTable :=
  .readLevels fun levels => .bind (.onHeap (.mapM (by simp) fun level => .levelRow level)) fun _ =>
    .onHeap (.newListOf rfl)

omit agree in
theorem priority (token : Value) :
    p.Follows (Reflection.priority token) (Reflection.priority (p.insertion.value token)) := by
  refine .bind (.onHeap (.textOf rfl _)) fun token => .readLevels fun levels => ?_
  rw [Insertion.renumber_plain]
  split
  · exact .pure rfl
  · exact .pure rfl

omit agree in
theorem recovering_of_other {attempt fallback : Eval Value} {state : State}
    (other : ∀ error left, attempt state ≠ .error (.error error) left) :
    Reflection.recovering attempt fallback state = attempt state := by
  unfold Reflection.recovering
  split
  · next error left ran => exact absurd ran (other error left)
  · rfl

omit agree in
/-- What gives up is not recovered from. -/
theorem gaveUp_recovering {attempt fallback : Eval Value} {state : State}
    (gaveUp : p.GaveUp (attempt state)) :
    p.GaveUp (Reflection.recovering attempt fallback state) := by
  obtain ⟨failure, left, gives, stopped⟩ := gaveUp
  refine ⟨failure, left, gives, (recovering_of_other fun error left' ran => ?_).trans stopped⟩
  cases stopped.symm.trans ran
  exact p.recoverable error gives

omit agree in
theorem recovering {attempt attempt' fallback fallback' : Eval Value}
    (tried : p.Follows attempt attempt') (otherwise : p.Follows fallback fallback') :
    p.Follows (Reflection.recovering attempt fallback)
      (Reflection.recovering attempt' fallback') := by
  intro state
  obtain ⟨earlier, same⟩ := tried state
  unfold FollowsAt Eval.after at *
  by_cases failed : ∃ error middle, attempt state = .error (.error error) middle
  · obtain ⟨error, middle, ran⟩ := failed
    rw [ran] at earlier same
    obtain ⟨later, same'⟩ := otherwise middle
    rw [recovering_of_error ran]
    refine ⟨earlier.trans later, fun steady => ?_⟩
    obtain ⟨before, afterwards⟩ := steady.of_later earlier.heap later.heap
    obtain gaveUp | same := same before
    · exact .inl (gaveUp_recovering gaveUp)
    · rw [recovering_of_error same]
      exact same' afterwards
  · have other : ∀ error left, attempt state ≠ .error (.error error) left :=
      fun error left ran => failed ⟨error, left, ran⟩
    rw [recovering_of_other other]
    refine ⟨earlier, fun steady => ?_⟩
    obtain gaveUp | same := same steady
    · exact .inl (gaveUp_recovering gaveUp)
    · refine .inr ((recovering_of_other fun error left ran => ?_).trans same)
      rw [same] at ran
      cases ended : attempt state with
      | ok value middle => rw [ended] at ran; cases ran
      | error failure middle =>
          rw [ended] at ran
          cases ran
          exact other error middle ended

omit agree in
/-- The handle of a tree is the one it has now. -/
theorem asNode {α : Type} [Renumbers α] {next next' : Nat → Eval α} (value : Value) (role : String)
    (continued : ∀ handle, p.Follows (next handle) (next' (p.insertion.handle handle))) :
    p.Follows ((liftM (value.asNode role) : Eval Nat) >>= next)
      ((liftM ((p.insertion.value value).asNode role) : Eval Nat) >>= next') := by
  cases value with
  | node handle => exact continued handle
  | _ => exact fun _ => followsAt_refl rfl rfl

theorem tryCatch (arguments : List Value) :
    p.Follows (Reflection.tryCatch first arguments)
      (Reflection.tryCatch second (arguments.map p.insertion.value)) := by
  unfold Reflection.tryCatch
  extract_lets next next'
  have continued (clauses : List Value) :
      p.Follows (next clauses) (next' (clauses.map p.insertion.value)) := by
    match clauses with
    | [attempt, fallback] =>
        exact .asNode attempt _ fun attempt => .asNode fallback _ fun fallback =>
          .recovering (.evalNode agree attempt) (.evalNode agree fallback)
    | [] => exact .fail rfl
    | [only] => exact .fail rfl
    | first :: second :: third :: rest => exact .fail (by simp)
  match arguments with
  | [list] => exact .bind (.onHeap (.elements _ _)) continued
  | [] => exact .bind (.pure rfl) continued
  | first :: second :: rest => exact .bind (.pure rfl) continued

omit agree in
theorem raise (value : Value) :
    p.Follows (Reflection.raise value) (Reflection.raise (p.insertion.value value)) := by
  refine .read fun state => Follows.fail ?_ state
  exact congrArg RuntimeError.user (Insertion.display_value _ value)

omit agree in
theorem changingObject (container key : Value) {action action' : OnHeap Value}
    (follows : action.Follows p.insertion action') :
    p.Follows (Eval.changingObject container key action)
      (Eval.changingObject (p.insertion.value container) (p.insertion.value key) action') := by
  cases container with
  | object handle =>
      refine .read fun state => ?_
      dsimp only
      rw [show (p.insertion.state state).heap = p.insertion.heap state.heap from rfl,
        Insertion.room_heap, Insertion.readsObject_value]
      exact Follows.ite (.throw _) (.onHeap follows) state
  | _ => exact .onHeap follows

theorem performNative (native : Native) (arguments : List Value)
    (accepts : native.arity.accepts arguments.length) :
    p.Follows (Eval.performNative first native arguments)
      (Eval.performNative second native (arguments.map p.insertion.value)) := by
  cases native with
  | get =>
      obtain ⟨container, index, rfl⟩ := Arity.two accepts
      exact .onHeap (.entry container index)
  | set =>
      obtain ⟨container, index, value, rfl⟩ := Arity.three accepts
      exact .changingObject container index (.write container index value)
  | push =>
      obtain ⟨container, value, rfl⟩ := Arity.two accepts
      exact .onHeap (.append container value)
  | pop =>
      obtain ⟨container, rfl⟩ := Arity.one accepts
      exact .onHeap (.removeLast container)
  | len =>
      obtain ⟨container, rfl⟩ := Arity.one accepts
      exact .onHeap (.size container)
  | slice =>
      obtain ⟨container, start, rfl⟩ | ⟨container, start, stop, rfl⟩ := Arity.twoOrThree accepts
      · exact .onHeap (.slice container start none)
      · exact .onHeap (.slice container start (some stop))
  | splice =>
      obtain ⟨container, start, count, inserted, rfl⟩ := Arity.threeOrMore accepts
      exact .onHeap (.splice container start count inserted)
  | concat =>
      exact .onHeap (.concatenate arguments)
  | dup =>
      obtain ⟨value, rfl⟩ := Arity.one accepts
      exact .onHeap (.duplicate value)
  | range =>
      obtain ⟨start, stop, rfl⟩ | ⟨start, stop, step, rfl⟩ := Arity.twoOrThree accepts
      · exact .onHeap (.range start stop none)
      · exact .onHeap (.range start stop (some step))
  | split =>
      obtain ⟨text, separator, rfl⟩ := Arity.two accepts
      exact .onHeap (.split text separator)
  | join =>
      obtain ⟨list, separator, rfl⟩ := Arity.two accepts
      exact .onHeap (.join list separator)
  | map =>
      obtain ⟨function, container, rfl⟩ := Arity.two accepts
      exact .mapping agree function container
  | filter =>
      obtain ⟨function, container, rfl⟩ := Arity.two accepts
      exact .filter agree function container
  | fold history =>
      obtain ⟨function, container, rfl⟩ | ⟨function, container, start, rfl⟩ :=
        Arity.twoOrThree accepts
      · exact .fold agree history function container none
      · exact .fold agree history function container (some start)
  | object =>
      cases Arity.empty accepts
      exact .onHeap (.newObject rfl)
  | keys =>
      obtain ⟨object, rfl⟩ := Arity.one accepts
      exact .onHeap (.keys object)
  | values =>
      obtain ⟨object, rfl⟩ := Arity.one accepts
      exact .onHeap (.values object)
  | items =>
      obtain ⟨object, rfl⟩ := Arity.one accepts
      exact .onHeap (.items object)
  | haskey =>
      obtain ⟨object, key, rfl⟩ := Arity.two accepts
      exact .onHeap (.has object key)
  | delkey =>
      obtain ⟨object, key, rfl⟩ := Arity.two accepts
      exact .changingObject object key (.delete object key)
  | part part =>
      obtain ⟨argument, rfl⟩ := Arity.one accepts
      exact .onHeap (.part argument part)
  | complex function =>
      obtain ⟨argument, rfl⟩ := Arity.one accepts
      exact .onHeap (.complex argument function)
  | real function =>
      obtain ⟨argument, rfl⟩ := Arity.one accepts
      exact .onHeap (.real argument function)
  | lower =>
      obtain ⟨text, rfl⟩ := Arity.one accepts
      exact .onHeap (.transform text _ _)
  | upper =>
      obtain ⟨text, rfl⟩ := Arity.one accepts
      exact .onHeap (.transform text _ _)
  | trim =>
      obtain ⟨text, rfl⟩ := Arity.one accepts
      exact .onHeap (.transform text _ _)
  | replace =>
      obtain ⟨text, pattern, replacement, rfl⟩ := Arity.three accepts
      exact .onHeap (.replace text pattern replacement)
  | startsWith =>
      obtain ⟨text, start, rfl⟩ := Arity.two accepts
      exact .onHeap (.startsWith text start)
  | endsWith =>
      obtain ⟨text, ending, rfl⟩ := Arity.two accepts
      exact .onHeap (.endsWith text ending)
  | str =>
      obtain ⟨value, rfl⟩ := Arity.one accepts
      exact .onHeap (.ofValue value)
  | getOperand side =>
      obtain ⟨node, rfl⟩ := Arity.one accepts
      exact .onHeap (.operand node side)
  | setOperand side =>
      obtain ⟨node, operand, rfl⟩ := Arity.two accepts
      exact .onHeap (.setOperand node operand side)
  | getop =>
      obtain ⟨node, rfl⟩ := Arity.one accepts
      exact .onHeap (.operator node)
  | setop =>
      obtain ⟨node, token, rfl⟩ := Arity.two accepts
      exact .onHeap (.setOperator node token)
  | getname =>
      obtain ⟨node, rfl⟩ := Arity.one accepts
      exact .onHeap (.name node)
  | setname =>
      obtain ⟨node, name, rfl⟩ := Arity.two accepts
      exact .onHeap (.setName node name)
  | gettext =>
      obtain ⟨node, rfl⟩ := Arity.one accepts
      exact .onHeap (.source node)
  | settext =>
      obtain ⟨node, text, rfl⟩ := Arity.two accepts
      exact .readLevels fun levels => .onHeap (.setSource node text levels)
  | getsubasts =>
      obtain ⟨node, rfl⟩ := Arity.one accepts
      exact .onHeap (.children node)
  | getast =>
      obtain ⟨node, rfl⟩ := Arity.one accepts
      exact .onHeap (.quotation node)
  | getbody =>
      obtain ⟨function, rfl⟩ := Arity.one accepts
      exact .onHeap (.body function)
  | setbody =>
      obtain ⟨function, tree, rfl⟩ := Arity.two accepts
      exact .onHeap (.setBody tree function)
  | getparams =>
      obtain ⟨function, rfl⟩ := Arity.one accepts
      exact .onHeap (.parameters function)
  | test test =>
      obtain ⟨value, rfl⟩ := Arity.one accepts
      exact .bind (.onHeap (.passes value test)) fun _ => .pure rfl
  | eval =>
      obtain ⟨value, rfl⟩ := Arity.one accepts
      exact .evaluate agree value
  | evalAst =>
      obtain ⟨value, rfl⟩ := Arity.one accepts
      exact .evaluateTree agree value
  | gensym =>
      cases Arity.empty accepts
      exact .freshName
  | del =>
      exact .delete arguments
  | defined =>
      cases Arity.empty accepts
      exact .visibleNames
  | ptable =>
      cases Arity.empty accepts
      exact .levelTable
  | opPriority =>
      obtain ⟨token, rfl⟩ := Arity.one accepts
      exact .priority token
  | trycatch =>
      exact .tryCatch agree arguments
  | throw =>
      obtain ⟨value, rfl⟩ := Arity.one accepts
      exact .raise value

theorem callNative (native : Native) (arguments : List Value) :
    p.Follows (Eval.callNative first native arguments)
      (Eval.callNative second native (arguments.map p.insertion.value)) := by
  unfold Eval.callNative
  rw [List.length_map]
  split
  · next accepts => exact .performNative agree native arguments accepts
  · exact .fail rfl

end Native

/-! ## Application -/

section Application

/-- What a rule reads of a list is what is there at the time. -/
theorem argumentsOf (value : Value) :
    p.Follows (Eval.argumentsOf value) (Eval.argumentsOf (p.insertion.value value)) := by
  cases value with
  | list handle =>
      refine .read fun state => Follows.pure ?_ state
      show ((p.insertion.heap state.heap).list handle).toList = _
      rw [Insertion.list_heap, Array.toList_map]
      rfl
  | _ => exact .pure rfl

theorem fillSlots (fixed : List (Option Value)) (supplied : List Value) :
    Eval.fillSlots (fixed.map (Option.map p.insertion.value)) (supplied.map p.insertion.value) =
      (Eval.fillSlots fixed supplied).map p.insertion.value := by
  induction fixed generalizing supplied with
  | nil => rfl
  | cons slot fixed inductionHypothesis =>
      cases slot with
      | some value => exact congrArg (p.insertion.value value :: ·) (inductionHypothesis supplied)
      | none =>
          cases supplied with
          | nil => exact congrArg (Value.zero :: ·) (inductionHypothesis [])
          | cons value rest =>
              exact congrArg (p.insertion.value value :: ·) (inductionHypothesis rest)

theorem slotCount (fixed : List (Option Value)) :
    Eval.slotCount (fixed.map (Option.map p.insertion.value)) = Eval.slotCount fixed := by
  unfold Eval.slotCount
  rw [List.countP_map]
  congr 1
  funext slot
  cases slot <;> rfl

variable (agree : p.Agree first second)
include agree

theorem runBody (callee : Value) (function : Function) (arguments : List Value) :
    p.Follows (Eval.runBody first callee function arguments)
      (Eval.runBody second (p.insertion.value callee) (p.insertion.function function)
        (arguments.map p.insertion.value)) :=
  .bind (.onHeap (.callNames callee function arguments)) fun _ =>
    .withNames rfl (agree (.tree function.body))

theorem callable (operator : String) (node : Node) :
    p.Follows (Eval.callable first operator node) (Eval.callable second operator node) := by
  refine .bind (agree (.tree node)) fun callee => ?_
  rw [Insertion.renumber_value, Insertion.isCallable_value]
  exact .ite (.pure rfl) (.fail rfl)

theorem application (operator : String) (left right : Node) :
    p.Follows (Eval.application first operator left right)
      (Eval.application second operator left right) := by
  refine .bind (.callable agree operator left) fun callee => .bind (agree (.tree right))
    fun right => .bind (.argumentsOf right) fun arguments => ?_
  split
  · exact agree (.application callee arguments)
  · next steps _ => exact agree (.scopedApplication steps callee arguments)

theorem partialApplication (left right : Node) :
    p.Follows (Eval.partialApplication first left right)
      (Eval.partialApplication second left right) := by
  refine .bind (.callable agree _ left) fun callee => .bind (.mapM (by simp) fun template => ?_)
    fun fixed => .read fun state => ?_
  · refine .ite (.pure rfl) ?_
    exact .bind (agree (.tree template)) fun value => .pure rfl
  · refine Follows.onHeap (.newBuiltin ?_) state
    have shown : (p.insertion.heap state.heap).display (p.insertion.value callee) =
        state.heap.display callee := Insertion.display_value _ callee
    unfold Insertion.builtin Insertion.action
    dsimp only
    exact congrArg (Builtin.mk · _) (congrArg (· ++ _ ++ _) shown)

end Application

/-! ## Binding and definition -/

section Definition

theorem assign (name : String) (value : Value) :
    p.Follows (Eval.assign name value) (Eval.assign name (p.insertion.value value)) := by
  have bound : p.Follows (Eval.modifyScope fun scope => scope.bind name value)
      (Eval.modifyScope fun scope => scope.bind name (p.insertion.value value)) :=
    .modifyScope fun scope => Insertion.bind_scope scope name value
  cases value with
  | function handle =>
      refine .bind (.onHeap (.modifyFunction fun function => ?_)) fun _ => bound
      unfold Function.anchor Insertion.function
      dsimp only
      split <;> rfl
  | _ => exact bound

theorem definition (operator : String) (head body : Node) :
    p.Follows (Eval.definition operator head body) (Eval.definition operator head body) := by
  unfold Eval.definition
  extract_lets next
  have continued (params : List String) :
      p.Follows (next params) (next (renumber p.insertion params)) := by
    rw [Insertion.renumber_plains]
    exact .readScope fun scope => .onHeap (.newFunction rfl)
  split
  · exact .bind (.pure rfl) continued
  · exact .bind (.ofOutcome (Insertion.outcome_plains _ _).symm) continued
  · exact .bind (.fail rfl) continued

variable (agree : p.Agree first second)

theorem binding (agree : p.Agree first second) (target value : Node) :
    p.Follows (Eval.binding first target value) (Eval.binding second target value) := by
  unfold Eval.binding
  split
  · exact .bind (agree (.tree value)) fun value => .bind (.assign _ value) fun _ => .pure rfl
  · refine .bind (.ofOutcome (Insertion.outcome_plains _ _).symm) fun names =>
      .bind (agree (.tree value)) fun value => ?_
    rw [Insertion.renumber_plains]
    refine .bind (.onHeap (.shares _ value)) fun values => .bind (.forM ?_ fun entry => ?_)
      fun _ => .pure rfl
    · exact List.zip_map_right
    · exact .assign entry.1 entry.2
  · exact .fail rfl

theorem checkImplementation (operator : String) (value : Value) :
    p.Follows (Eval.checkImplementation operator value)
      (Eval.checkImplementation operator (p.insertion.value value)) := by
  cases value with
  | builtin handle => exact .pure rfl
  | function handle =>
      refine .read fun state => ?_
      dsimp only
      rw [show (p.insertion.state state).heap = p.insertion.heap state.heap from rfl,
        Insertion.function_heap]
      exact Follows.ite (.pure rfl) (.fail rfl) state
  | _ => exact .fail rfl

theorem definitionParts (form : Value) :
    p.Follows (Eval.definitionParts form) (Eval.definitionParts (p.insertion.value form)) := by
  cases form with
  | list handle =>
      refine .read fun state => ?_
      rw [show (p.insertion.state state).heap = p.insertion.heap state.heap from rfl,
        Insertion.list_heap, Array.toList_map]
      refine (?_ : p.Follows _ _) state
      generalize (state.heap.list handle).toList = items
      match items with
      | [precedence, function] => exact .pure rfl
      | [precedence, associativity, function] => exact .pure rfl
      | [precedence, associativity, function, _, _] => exact .pure rfl
      | [] => exact .fail rfl
      | [_] => exact .fail rfl
      | [_, _, _, _] => exact .fail rfl
      | _ :: _ :: _ :: _ :: _ :: _ :: _ => exact .fail (by simp)
  | _ => exact .pure rfl

theorem operatorDefinition (agree : p.Agree first second) (operator : String) (left right : Node) :
    p.Follows (Eval.operatorDefinition first operator left right)
      (Eval.operatorDefinition second operator left right) := by
  refine .bind (agree (.tree left)) fun token => .bind (.onHeap (.textOf rfl _)) fun token =>
    .bind (agree (.tree right)) fun form => .bind (.definitionParts form) fun parts => ?_
  obtain ⟨precedence, associativity, function, force⟩ := parts
  refine .bind (.ofOutcome (by simp)) fun index => ?_
  have placed (associativity : Syntax.Associativity) : p.Follows
      (do
        Eval.checkImplementation operator function
        Eval.defineOperator ⟨token, index, associativity, force⟩
          ⟨function, operator == Syntax.operatorBindToken⟩
        return function)
      (do
        Eval.checkImplementation operator (p.insertion.value function)
        Eval.defineOperator ⟨token, index, associativity, force⟩
          ⟨p.insertion.value function, operator == Syntax.operatorBindToken⟩
        return p.insertion.value function) :=
    .bind (.checkImplementation operator function) fun _ => .bind (.defineOperator _ _) fun _ =>
      .pure rfl
  cases associativity with
  | none => exact .bind (.pure rfl) placed
  | some value =>
      exact .bind (.onHeap (.textOf rfl _)) fun text => .bind (.ofOutcome (by simp)) placed

theorem userOperation (agree : p.Agree first second) (implementation : Implementation)
    (left right : Node) :
    p.Follows (Eval.userOperation first implementation left right)
      (Eval.userOperation second (p.insertion.implementation implementation) left right) := by
  refine .ite ?_ ?_
  · exact .bind (agree (.tree left)) fun left => .bind (agree (.tree right)) fun right =>
      agree (.application implementation.function [left, right])
  · exact .bind (.onHeap (.newNode rfl)) fun left => .bind (.onHeap (.newNode rfl)) fun right =>
      agree (.application implementation.function [left, right])

end Definition

/-! ## Control -/

section Control

variable (agree : p.Agree first second)
include agree

theorem conditional (condition branches : Node) :
    p.Follows (Eval.conditional first condition branches)
      (Eval.conditional second condition branches) := by
  unfold Eval.conditional
  split
  · refine .bind (agree (.tree condition)) fun answer => ?_
    rw [Insertion.renumber_value, Insertion.isTruthy_value]
    exact .ite (agree (.tree _)) (agree (.tree _))
  · exact .fail rfl
  · exact .fail rfl

theorem repeatWhile (condition body : Node) (update : Option Node) (bound : Nat) (last : Value) :
    p.Follows (Eval.repeatWhile first condition body update bound last)
      (Eval.repeatWhile second condition body update bound (p.insertion.value last)) := by
  induction bound generalizing last with
  | zero => exact .throw .exhausted
  | succ bound inductionHypothesis =>
      unfold Eval.repeatWhile
      refine .bind (agree (.tree condition)) fun answer => ?_
      rw [Insertion.renumber_value, Insertion.isTruthy_value]
      refine .ite (.bind (agree (.tree body)) fun last => ?_) (.pure rfl)
      split
      · exact .bind (.discard (agree (.tree _))) fun _ => inductionHypothesis last
      · exact inductionHypothesis last

theorem forLoop (bound : Nat) (head body : Node) :
    p.Follows (Eval.forLoop first bound head body) (Eval.forLoop second bound head body) := by
  unfold Eval.forLoop
  split
  · exact .bind (.discard (agree (.tree _))) fun _ => .repeatWhile agree _ _ _ bound .zero
  · exact .fail rfl
  · exact .fail rfl

end Control

/-! ## Trees -/

section Trees

variable (agree : p.Agree first second)
include agree

theorem nativeOperation (bound : Nat) (operator : String) (left right : Node) :
    p.Follows (Eval.nativeOperation first bound operator left right)
      (Eval.nativeOperation second bound operator left right) := by
  unfold Eval.nativeOperation
  refine .ite (.definition operator left right) ?_
  refine .ite (.partialApplication agree left right) ?_
  refine .ite (.conditional agree left right) ?_
  refine .ite (.repeatWhile agree _ _ none bound .zero) ?_
  refine .ite (.forLoop agree bound left right) ?_
  refine .ite (.application agree operator left right) ?_
  split
  · exact .fail rfl
  · exact .bind (agree (.tree left)) fun left => .bind (agree (.tree right)) fun right =>
      .onHeap (.binary _ left right)

theorem operation (bound : Nat) (operator : String) (left right : Node) :
    p.Follows (Eval.operation first bound operator left right)
      (Eval.operation second bound operator left right) := by
  unfold Eval.operation
  refine .ite (.binding agree left right) (.ite (.operatorDefinition agree operator left right) ?_)
  refine .readScope fun scope => ?_
  have implementations : (p.insertion.scope scope).operators.implementations.get? operator =
      (scope.operators.implementations.get? operator).map p.insertion.implementation :=
    Dict.get?_map _ _ _
  rw [implementations]
  cases scope.operators.implementations.get? operator with
  | some implementation => exact .userOperation agree implementation left right
  | none => exact .nativeOperation agree bound operator left right

theorem splice (written : String) (segments : List Segment) :
    p.Follows (Eval.splice first written segments) (Eval.splice second written segments) := by
  induction segments generalizing written with
  | nil => exact .pure rfl
  | cons segment segments inductionHypothesis =>
      cases segment with
      | literal characters => exact inductionHypothesis (written ++ characters)
      | splice expression =>
          refine .bind (agree (.tree expression)) fun value => .read fun state => ?_
          have shown : (p.insertion.heap state.heap).display (p.insertion.value value) =
              state.heap.display value := Insertion.display_value _ value
          rw [Insertion.renumber_value]
          show p.FollowsAt state _
            (Eval.splice second (written ++ (p.insertion.heap state.heap).display _) segments)
          rw [shown]
          exact inductionHypothesis _ state

theorem sequence (last : Value) (statements : List Node) :
    p.Follows (Eval.sequence first last statements)
      (Eval.sequence second (p.insertion.value last) statements) := by
  induction statements generalizing last with
  | nil => exact .pure rfl
  | cons statement rest inductionHypothesis =>
      exact .bind (agree (.tree statement)) fun last => inductionHypothesis last

theorem tree (bound : Nat) (node : Node) :
    p.Follows (Eval.tree first bound node) (Eval.tree second bound node) := by
  cases node with
  | body statements => exact .sequence agree .zero statements
  | list elements =>
      exact .bind (.mapM (by simp) fun element => agree (.tree element)) fun _ =>
        .onHeap (.newListOf rfl)
  | number value => exact .pure rfl
  | text source segments => exact .bind (.splice agree "" segments) fun _ => .onHeap (.newText rfl)
  | identifier name =>
      refine .readScope fun scope => ?_
      rw [Insertion.lookup?_scope]
      cases scope.lookup? name with
      | some value => exact .pure rfl
      | none => exact .fail rfl
  | operation operator left right => exact .operation agree bound operator left right
  | quoted inner => exact .onHeap (.newNode rfl)

end Trees

/-! ## Sources -/

section Sources

variable (agree : p.Agree first second)
include agree

theorem statements (text : List Char) (generation : Nat) (last : Value)
    (divided : List Syntax.Statement) :
    p.Follows (Eval.statements first text generation last divided)
      (Eval.statements second text generation (p.insertion.value last) divided) := by
  induction divided generalizing last with
  | nil => exact .pure rfl
  | cons statement others inductionHypothesis =>
      refine .readLevels fun levels => .bind (.ofOutcome (by simp)) fun node =>
        .bind (agree (.tree node)) fun last => .readScope fun scope => ?_
      exact .ite (inductionHypothesis last) (.pure rfl)

theorem source (bound : Nat) (last : Value) (text : List Char) :
    p.Follows (Eval.source first bound last text)
      (Eval.source second bound (p.insertion.value last) text) := by
  induction bound generalizing last text with
  | zero => exact .pure rfl
  | succ bound inductionHypothesis =>
      refine .readScope fun scope => .bind (.ofOutcome (Insertion.outcome_plains _ _).symm)
        fun divided => ?_
      rw [Insertion.renumber_plains]
      refine .bind (.statements agree text _ last divided) fun progress => ?_
      cases progress with
      | finished last => exact .pure rfl
      | changed last rest => exact inductionHypothesis last rest

end Sources

end Follows

end Passage

end Fixity
