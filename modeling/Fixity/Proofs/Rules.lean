import Fixity.Proofs.Preservation
import Fixity.Proofs.Transfers

/-!
Contract: the rules of evaluation in states with further cells.

Owns:
- one lemma for each rule of evaluation: with interpreters that do the same with the further cells,
  the rule does.

Does not own: the application of functions, which further calls can bring to the limit, and whole
evaluations.
-/

namespace Fixity

instance : Relocates Eval.Progress where
  relocate r
    | .finished last => .finished (relocate r last)
    | .changed last rest => .changed (relocate r last) rest
  Held heap
    | .finished last => heap.Holds last
    | .changed last _ => heap.Holds last
  later := by
    intro heap heap' progress within held
    cases progress with
    | finished last => exact Heap.Holds.later held within
    | changed last rest => exact Heap.Holds.later held within
  unmoved := by
    intro r heap progress behind held
    cases progress with
    | finished last => exact congrArg Eval.Progress.finished (Relocates.unmoved behind held)
    | changed last rest =>
        exact congrArg (Eval.Progress.changed · rest) (Relocates.unmoved behind held)

namespace Transfer

namespace Tracks

open Eval

variable {t : Transfer} {state : State} {first second : Interpreter}

private theorem held_none {heap : Heap} : Held heap ([] : List Value) :=
  fun _ member => by cases member

private theorem held_one {heap : Heap} {value : Value} (held : heap.Holds value) :
    Held heap [value] :=
  Relocation.held_cons held held_none

private theorem held_two {heap : Heap} {value other : Value} (held : heap.Holds value)
    (heldToo : heap.Holds other) : Held heap [value, other] :=
  Relocation.held_cons held (held_one heldToo)

private theorem held_of_one {heap : Heap} {value : Value} (held : Held heap [value]) :
    heap.Holds value :=
  held value List.mem_cons_self

private theorem held_of_two {heap : Heap} {value other : Value} (held : Held heap [value, other]) :
    heap.Holds value ∧ heap.Holds other :=
  ⟨held value (by simp), held other (by simp)⟩

private theorem held_of_three {heap : Heap} {value other third : Value}
    (held : Held heap [value, other, third]) :
    heap.Holds value ∧ heap.Holds other ∧ heap.Holds third :=
  ⟨held value (by simp), held other (by simp), held third (by simp)⟩

/-! ## Native functions -/

section Native

theorem requireCallable (function : Value) (builtin : String) :
    t.Tracks state (Folding.requireCallable function builtin)
      (Folding.requireCallable (relocate t.relocation function) builtin) := by
  unfold Folding.requireCallable
  rw [Relocation.isCallable_relocate]
  exact .ite (.pure rfl trivial) (.fail rfl)

theorem itemsFor (builtin : String) {container : Value} (held : state.heap.Holds container) :
    t.Tracks state (Folding.itemsFor builtin container)
      (Folding.itemsFor builtin (relocate t.relocation container)) :=
  .onHeap (.folded held _)

variable (agree : t.Agree first second)
include agree

variable {function container : Value} (heldFunction : state.heap.Holds function)
  (heldContainer : state.heap.Holds container)

section

include heldFunction

theorem kept {passed items : List Value} (heldPassed : Held state.heap passed)
    (held : Held state.heap items) :
    t.Tracks state (Folding.kept first function passed items)
      (Folding.kept second (relocate t.relocation function) (relocate t.relocation passed)
        (relocate t.relocation items)) := by
  induction items generalizing passed state with
  | nil => exact .pure (by simp) fun item member =>
      heldPassed item (List.mem_reverse.mp member)
  | cons item rest inductionHypothesis =>
      obtain ⟨heldItem, others⟩ := List.forall_mem_cons.mp held
      refine .bind (agree (.application function [item]) state ⟨heldFunction, held_one heldItem⟩)
        fun answer reached passes _ => ?_
      have function := heldFunction.later passes.heap
      have passed := Relocates.later passes.heap heldPassed
      have rest : Held reached.heap rest := Relocates.later passes.heap others
      rw [Relocation.isTruthy_relocate]
      split
      · exact inductionHypothesis function
          (Relocation.held_cons (Relocates.later passes.heap heldItem) passed) rest
      · exact inductionHypothesis function passed rest

theorem accumulators {accumulator : Value} {earlier items : List Value}
    (heldAccumulator : state.heap.Holds accumulator) (heldEarlier : Held state.heap earlier)
    (held : Held state.heap items) :
    t.Tracks state (Folding.accumulators first function accumulator earlier items)
      (Folding.accumulators second (relocate t.relocation function)
        (relocate t.relocation accumulator) (relocate t.relocation earlier)
        (relocate t.relocation items)) := by
  induction items generalizing accumulator earlier state with
  | nil => exact .pure rfl (Relocation.held_cons heldAccumulator heldEarlier)
  | cons item rest inductionHypothesis =>
      obtain ⟨heldItem, others⟩ := List.forall_mem_cons.mp held
      refine .bind (agree (.application function [accumulator, item]) state
        ⟨heldFunction, held_two heldAccumulator heldItem⟩) fun next reached passes heldNext => ?_
      exact inductionHypothesis (heldFunction.later passes.heap) heldNext
        (Relocation.held_cons (heldAccumulator.later passes.heap)
          (Relocates.later passes.heap heldEarlier)) (Relocates.later passes.heap others)

include heldContainer

theorem mapping :
    t.Tracks state (Folding.map first function container)
      (Folding.map second (relocate t.relocation function) (relocate t.relocation container)) :=
  .bind (.requireCallable function _) fun _ _ passes _ =>
    .bind (.itemsFor _ (heldContainer.later passes.heap)) fun _ _ passes' heldItems =>
      .bind (.mapM rfl heldItems fun item _ reached further heldItem =>
        agree (.application function [item]) reached
          ⟨heldFunction.later ((passes.trans passes').trans further).heap, held_one heldItem⟩)
        fun _ _ _ held => .onHeap (.newListOf rfl held)

theorem filter :
    t.Tracks state (Folding.filter first function container)
      (Folding.filter second (relocate t.relocation function)
        (relocate t.relocation container)) :=
  .bind (.requireCallable function _) fun _ _ passes _ =>
    .bind (.itemsFor _ (heldContainer.later passes.heap)) fun _ _ passes' heldItems =>
      .bind (.kept agree (heldFunction.later (passes.trans passes').heap) held_none heldItems)
        fun _ _ _ held => .onHeap (.newListOf rfl held)

theorem fold (history : Bool) {start : Option Value} (heldStart : Held state.heap start) :
    t.Tracks state (Folding.fold first history function container start)
      (Folding.fold second history (relocate t.relocation function)
        (relocate t.relocation container) (relocate t.relocation start)) := by
  refine .bind (.requireCallable function _) fun _ _ passes _ =>
    .bind (.itemsFor _ (heldContainer.later passes.heap)) fun items walked passes' heldItems => ?_
  have heldFunction := heldFunction.later (passes.trans passes').heap
  have heldStart := Relocates.later (passes.trans passes').heap heldStart
  have results (entry : Value × List Value) (reached : State) (further : walked.Passes reached)
      (held : Held reached.heap entry) : t.Tracks reached
      (do
        let results ← Folding.accumulators first function entry.1 [] entry.2
        if history then OnHeap.newListOf results.reverse else return results.headD .zero)
      (do
        let results ← Folding.accumulators second (relocate t.relocation function)
          (relocate t.relocation entry.1) [] (relocate t.relocation entry.2)
        if history then OnHeap.newListOf results.reverse else return results.headD .zero) := by
    refine .bind (.accumulators agree (heldFunction.later further.heap) held.1 held_none held.2)
      fun results last _ heldResults => .ite ?_ ?_
    · exact .onHeap (.newListOf (by simp) fun item member =>
        heldResults item (List.mem_reverse.mp member))
    · exact .pure (OnHeap.Tracks.headD_relocate results) (OnHeap.Tracks.held_headD heldResults)
  cases start with
  | some start => exact .bind (.pure rfl ⟨heldStart start rfl, heldItems⟩) results
  | none =>
      cases items with
      | nil => exact .bind (.fail rfl) results
      | cons item rest => exact .bind (.pure rfl (List.forall_mem_cons.mp heldItems)) results

end

theorem evaluate {value : Value} (held : state.heap.Holds value) :
    t.Tracks state (Reflection.evaluate first value)
      (Reflection.evaluate second (relocate t.relocation value)) := by
  cases value with
  | text handle =>
      refine .read fun suits => ?_
      rw [show (t.relocation.state state).heap = t.relocation.heap state.heap from rfl,
        Relocation.text_heap suits.fits.starts]
      exact agree (.source (state.heap.text handle)) state trivial
  | _ => exact .pure rfl held

/-- A tree is evaluated as it is at the time. -/
theorem evalNode (handle : Nat) :
    t.Tracks state (do first.eval ((← get).heap.node handle))
      (do second.eval ((← get).heap.node (t.relocation.nodes.handle handle))) := by
  refine .read fun suits => ?_
  rw [show (t.relocation.state state).heap = t.relocation.heap state.heap from rfl,
    Relocation.node_heap suits.fits.starts]
  exact agree (.tree (state.heap.node handle)) state trivial

theorem evaluateTree {value : Value} (held : state.heap.Holds value) :
    t.Tracks state (Reflection.evaluateTree first value)
      (Reflection.evaluateTree second (relocate t.relocation value)) := by
  cases value with
  | node handle => exact .evalNode agree handle
  | _ => exact .pure rfl held

omit agree in
theorem firstFree_relocate (r : Relocation) (scope : Scope) (tries number : Nat) :
    Reflection.firstFree (relocate r scope) tries number =
      Reflection.firstFree scope tries number := by
  induction tries generalizing number with
  | zero => rfl
  | succ tries inductionHypothesis =>
      unfold Reflection.firstFree
      rw [Relocation.isBound_relocate, inductionHypothesis]

omit agree in
theorem freshName : t.Tracks state Reflection.freshName Reflection.freshName := by
  refine .read fun suits => ?_
  have size : (t.relocation.state state).scope.bindings.size = state.scope.bindings.size :=
    Dict.size_map _ _
  rw [size, show (t.relocation.state state).scope = relocate t.relocation state.scope from rfl,
    show (t.relocation.state state).nextName = state.nextName from rfl, firstFree_relocate]
  cases Reflection.firstFree state.scope (state.scope.bindings.size + 1) state.nextName with
  | some number =>
      refine .bind (fun suits => ?_) fun (_ : Unit) _ _ _ => .onHeap (.newNode rfl)
      have passes (number : Nat) : state.Passes { state with nextName := number } := ⟨.refl _, rfl⟩
      exact .ok (passes _) ⟨suits.fits, suits.scope, suits.outer⟩ trivial
  | none => exact .throw .exhausted

omit agree in
theorem delete {names : List Value} (held : Held state.heap names) :
    t.Tracks state (Reflection.delete names)
      (Reflection.delete (relocate t.relocation names)) := by
  refine .bind (.onHeap (.mapM rfl held fun name _ _ _ _ => .nameOf name)) fun names _ _ _ =>
    .bind (.modifyScope ?_ fun heldScope => ?_) fun _ _ _ _ => .pure rfl trivial
  · rw [Relocation.foldl_relocate _ _ (Relocation.remove_relocate _)]
    simp
  · exact Relocation.held_foldl heldScope (fun _ before => Relocation.held_remove before) names

omit agree in
theorem visibleNames : t.Tracks state Reflection.visibleNames Reflection.visibleNames := by
  refine .readScope fun _ => ?_
  rw [Relocation.names_relocate]
  exact .bind (.onHeap (.newTexts _)) fun _ _ _ held => .onHeap (.newListOf rfl held)

omit agree in
theorem levelTable : t.Tracks state Reflection.levelTable Reflection.levelTable :=
  .readLevels fun levels => .bind (.onHeap (.mapM (by simp) (fun _ _ => trivial)
    fun level _ _ _ _ => .levelRow level)) fun _ _ _ held => .onHeap (.newListOf rfl held)

omit agree in
theorem priority (token : Value) :
    t.Tracks state (Reflection.priority token)
      (Reflection.priority (relocate t.relocation token)) := by
  refine .bind (.onHeap (.text token _)) fun token _ _ _ => .readLevels fun levels => ?_
  rw [Relocation.relocate_plain]
  split
  · exact .pure rfl trivial
  · exact .pure rfl trivial

omit agree in
theorem recovering {attempt attempt' fallback fallback' : Eval Value}
    (tried : t.Tracks state attempt attempt')
    (otherwise : ∀ reached, state.Passes reached → t.Tracks reached fallback fallback') :
    t.Tracks state (Reflection.recovering attempt fallback)
      (Reflection.recovering attempt' fallback') := by
  intro suits
  have tracked := tried suits
  unfold Reflection.recovering
  generalize attempt state = result at tracked
  generalize attempt' (t.relocation.state state) = result' at tracked
  cases tracked with
  | ok passes suits held => exact .ok passes suits held
  | @error failure reached passes suits =>
      cases failure with
      | error error => exact (otherwise reached passes suits).since passes
      | _ => exact .error passes suits
  | @gaveUp _ failure _ gives =>
      -- Programs recover from errors of the language only, and none of those is a way to give up.
      cases failure with
      | error error => exact absurd gives (t.recoverable error)
      | _ => exact .gaveUp gives

omit agree in
/-- The handle of a tree is the one it has now. -/
theorem asNode {α : Type} [Relocates α] {next next' : Nat → Eval α} (value : Value)
    (role : String) (continued : ∀ handle,
      t.Tracks state (next handle) (next' (t.relocation.nodes.handle handle))) :
    t.Tracks state ((liftM (value.asNode role) : Eval Nat) >>= next)
      ((liftM ((relocate t.relocation value).asNode role) : Eval Nat) >>= next') := by
  cases value with
  | node handle => exact continued handle
  | _ => exact fun suits => .error (.refl _) suits

theorem tryCatch {arguments : List Value} (held : Held state.heap arguments) :
    t.Tracks state (Reflection.tryCatch first arguments)
      (Reflection.tryCatch second (relocate t.relocation arguments)) := by
  unfold Reflection.tryCatch
  extract_lets next next'
  have continued (clauses : List Value) (reached : State) :
      t.Tracks reached (next clauses) (next' (relocate t.relocation clauses)) := by
    match clauses with
    | [attempt, fallback] =>
        exact .asNode attempt _ fun attempt => .asNode fallback _ fun fallback =>
          .recovering (.evalNode agree attempt) fun _ _ => .evalNode agree fallback
    | [] => exact .fail rfl
    | [only] => exact .fail rfl
    | first :: second :: third :: rest => exact .fail (by simp)
  match arguments with
  | [list] =>
      exact .bind (.onHeap (.elements (held list List.mem_cons_self) _))
        fun clauses reached _ _ => continued clauses reached
  | [] => exact .bind (.pure rfl held) fun clauses reached _ _ => continued clauses reached
  | first :: second :: rest =>
      exact .bind (.pure rfl held) fun clauses reached _ _ => continued clauses reached

omit agree in
theorem raise {value : Value} (held : state.heap.Holds value) :
    t.Tracks state (Reflection.raise value)
      (Reflection.raise (relocate t.relocation value)) :=
  .read fun suits => .fail (congrArg RuntimeError.user (suits.fits.display held))

omit agree in
theorem changingObject (container : Value) {key : Value} (held : state.heap.Holds key)
    {action action' : OnHeap Value} (tracks : action.Tracks t.relocation state.heap action') :
    t.Tracks state (Eval.changingObject container key action)
      (Eval.changingObject (relocate t.relocation container) (relocate t.relocation key)
        action') := by
  cases container with
  | object handle =>
      refine .read fun suits => ?_
      dsimp only [Relocation.relocate_object]
      rw [show (t.relocation.state state).heap = t.relocation.heap state.heap from rfl,
        suits.fits.readsObject held]
      exact .ite (.throw _) (.onHeap tracks)
  | _ => exact .onHeap tracks

theorem performNative (native : Native) {arguments : List Value}
    (accepts : native.arity.accepts arguments.length) (held : Held state.heap arguments) :
    t.Tracks state (Eval.performNative first native arguments)
      (Eval.performNative second native (relocate t.relocation arguments)) := by
  cases native with
  | get =>
      obtain ⟨container, index, rfl⟩ := Arity.two accepts
      obtain ⟨heldContainer, heldIndex⟩ := held_of_two held
      exact .onHeap (.entry heldContainer heldIndex)
  | set =>
      obtain ⟨container, index, value, rfl⟩ := Arity.three accepts
      obtain ⟨_, heldIndex, heldValue⟩ := held_of_three held
      exact .changingObject container heldIndex (.write heldIndex heldValue)
  | push =>
      obtain ⟨container, value, rfl⟩ := Arity.two accepts
      exact .onHeap (.append (held_of_two held).2)
  | pop =>
      obtain ⟨container, rfl⟩ := Arity.one accepts
      exact .onHeap (.removeLast container)
  | len =>
      obtain ⟨container, rfl⟩ := Arity.one accepts
      exact .onHeap (.size (held_of_one held))
  | slice =>
      obtain ⟨container, start, rfl⟩ | ⟨container, start, stop, rfl⟩ := Arity.twoOrThree accepts
      · exact .onHeap (.slice container start none)
      · exact .onHeap (.slice container start (some stop))
  | splice =>
      obtain ⟨container, start, count, inserted, rfl⟩ := Arity.threeOrMore accepts
      exact .onHeap (.splice container start count fun item member =>
        held item (by simp [member]))
  | concat =>
      exact .onHeap (.concatenate arguments)
  | dup =>
      obtain ⟨value, rfl⟩ := Arity.one accepts
      exact .onHeap (.duplicate (held_of_one held))
  | range =>
      obtain ⟨start, stop, rfl⟩ | ⟨start, stop, step, rfl⟩ := Arity.twoOrThree accepts
      · exact .onHeap (.range start stop none)
      · exact .onHeap (.range start stop (some step))
  | split =>
      obtain ⟨text, separator, rfl⟩ := Arity.two accepts
      exact .onHeap (.split text separator)
  | join =>
      obtain ⟨list, separator, rfl⟩ := Arity.two accepts
      exact .onHeap (.join list separator)
  | map =>
      obtain ⟨function, container, rfl⟩ := Arity.two accepts
      obtain ⟨heldFunction, heldContainer⟩ := held_of_two held
      exact .mapping agree heldFunction heldContainer
  | filter =>
      obtain ⟨function, container, rfl⟩ := Arity.two accepts
      obtain ⟨heldFunction, heldContainer⟩ := held_of_two held
      exact .filter agree heldFunction heldContainer
  | fold history =>
      obtain ⟨function, container, rfl⟩ | ⟨function, container, start, rfl⟩ :=
        Arity.twoOrThree accepts
      · obtain ⟨heldFunction, heldContainer⟩ := held_of_two held
        have heldStart : Held state.heap (none : Option Value) := fun _ same => by cases same
        exact .fold agree heldFunction heldContainer history heldStart
      · obtain ⟨heldFunction, heldContainer, heldStart⟩ := held_of_three held
        have heldStart : Held state.heap (some start) :=
          fun _ same => Option.some_inj.mp same ▸ heldStart
        exact .fold agree heldFunction heldContainer history heldStart
  | object =>
      cases Arity.empty accepts
      exact .onHeap (.newObject rfl fun _ _ found => by cases found)
  | keys =>
      obtain ⟨object, rfl⟩ := Arity.one accepts
      exact .onHeap (.keys object)
  | values =>
      obtain ⟨object, rfl⟩ := Arity.one accepts
      exact .onHeap (.values object)
  | items =>
      obtain ⟨object, rfl⟩ := Arity.one accepts
      exact .onHeap (.items object)
  | haskey =>
      obtain ⟨object, key, rfl⟩ := Arity.two accepts
      exact .onHeap (.has object (held_of_two held).2)
  | delkey =>
      obtain ⟨object, key, rfl⟩ := Arity.two accepts
      have heldKey := (held_of_two held).2
      exact .changingObject object heldKey (.delete object heldKey)
  | part part =>
      obtain ⟨argument, rfl⟩ := Arity.one accepts
      exact .onHeap (.part (held_of_one held) part)
  | complex function =>
      obtain ⟨argument, rfl⟩ := Arity.one accepts
      exact .onHeap (.complex (held_of_one held) function)
  | real function =>
      obtain ⟨argument, rfl⟩ := Arity.one accepts
      exact .onHeap (.real (held_of_one held) function)
  | lower =>
      obtain ⟨text, rfl⟩ := Arity.one accepts
      exact .onHeap (.transform text _ _)
  | upper =>
      obtain ⟨text, rfl⟩ := Arity.one accepts
      exact .onHeap (.transform text _ _)
  | trim =>
      obtain ⟨text, rfl⟩ := Arity.one accepts
      exact .onHeap (.transform text _ _)
  | replace =>
      obtain ⟨text, pattern, replacement, rfl⟩ := Arity.three accepts
      exact .onHeap (.replace text pattern replacement)
  | startsWith =>
      obtain ⟨text, start, rfl⟩ := Arity.two accepts
      exact .onHeap (.startsWith text start)
  | endsWith =>
      obtain ⟨text, ending, rfl⟩ := Arity.two accepts
      exact .onHeap (.endsWith text ending)
  | str =>
      obtain ⟨value, rfl⟩ := Arity.one accepts
      exact .onHeap (.ofValue (held_of_one held))
  | getOperand side =>
      obtain ⟨node, rfl⟩ := Arity.one accepts
      exact .onHeap (.operand node side)
  | setOperand side =>
      obtain ⟨node, operand, rfl⟩ := Arity.two accepts
      obtain ⟨heldNode, heldOperand⟩ := held_of_two held
      exact .onHeap (.setOperand heldNode heldOperand side)
  | getop =>
      obtain ⟨node, rfl⟩ := Arity.one accepts
      exact .onHeap (.operator node)
  | setop =>
      obtain ⟨node, token, rfl⟩ := Arity.two accepts
      exact .onHeap (.setOperator (held_of_two held).1 token)
  | getname =>
      obtain ⟨node, rfl⟩ := Arity.one accepts
      exact .onHeap (.name node)
  | setname =>
      obtain ⟨node, name, rfl⟩ := Arity.two accepts
      exact .onHeap (.setName (held_of_two held).1 name)
  | gettext =>
      obtain ⟨node, rfl⟩ := Arity.one accepts
      exact .onHeap (.source node)
  | settext =>
      obtain ⟨node, text, rfl⟩ := Arity.two accepts
      exact .readLevels fun levels => .onHeap (.setSource (held_of_two held).1 text levels)
  | getsubasts =>
      obtain ⟨node, rfl⟩ := Arity.one accepts
      exact .onHeap (.children node)
  | getast =>
      obtain ⟨node, rfl⟩ := Arity.one accepts
      exact .onHeap (.quotation node)
  | getbody =>
      obtain ⟨function, rfl⟩ := Arity.one accepts
      exact .onHeap (.body function)
  | setbody =>
      obtain ⟨function, tree, rfl⟩ := Arity.two accepts
      obtain ⟨heldFunction, heldTree⟩ := held_of_two held
      exact .onHeap (.setBody heldFunction heldTree)
  | getparams =>
      obtain ⟨function, rfl⟩ := Arity.one accepts
      exact .onHeap (.parameters function)
  | test test =>
      obtain ⟨value, rfl⟩ := Arity.one accepts
      exact .bind (.onHeap (.passes test value)) fun _ _ _ _ => .pure rfl trivial
  | eval =>
      obtain ⟨value, rfl⟩ := Arity.one accepts
      exact .evaluate agree (held_of_one held)
  | evalAst =>
      obtain ⟨value, rfl⟩ := Arity.one accepts
      exact .evaluateTree agree (held_of_one held)
  | gensym =>
      cases Arity.empty accepts
      exact .freshName
  | del =>
      exact .delete held
  | defined =>
      cases Arity.empty accepts
      exact .visibleNames
  | ptable =>
      cases Arity.empty accepts
      exact .levelTable
  | opPriority =>
      obtain ⟨token, rfl⟩ := Arity.one accepts
      exact .priority token
  | trycatch =>
      exact .tryCatch agree held
  | throw =>
      obtain ⟨value, rfl⟩ := Arity.one accepts
      exact .raise (held_of_one held)

theorem callNative (native : Native) {arguments : List Value}
    (held : Held state.heap arguments) :
    t.Tracks state (Eval.callNative first native arguments)
      (Eval.callNative second native (relocate t.relocation arguments)) := by
  unfold Eval.callNative
  rw [Relocation.relocate_items, List.length_map]
  split
  · next accepts => exact .performNative agree native accepts held
  · exact .fail rfl

end Native

/-! ## Application -/

section Application

theorem eval (agree : t.Agree first second) (node : Node) :
    t.Tracks state (first.eval node) (second.eval node) :=
  agree (.tree node) state trivial

/-- What a rule reads of a list is what is there at the time. -/
theorem argumentsOf {value : Value} (held : state.heap.Holds value) :
    t.Tracks state (Eval.argumentsOf value) (Eval.argumentsOf (relocate t.relocation value)) := by
  cases value with
  | list handle =>
      refine .read fun suits => .pure ?_ (suits.fits.closed.elements handle)
      rw [show (t.relocation.state state).heap = t.relocation.heap state.heap from rfl,
        Relocation.list_heap suits.fits.starts]
      simp
  | _ => exact .pure rfl (held_one held)

section Slots

variable (fixed : List (Option Value)) {supplied : List Value}

theorem fillSlots_relocate (r : Relocation) (supplied : List Value) :
    Eval.fillSlots (relocate r fixed) (relocate r supplied) =
      relocate r (Eval.fillSlots fixed supplied) := by
  induction fixed generalizing supplied with
  | nil => rfl
  | cons slot fixed inductionHypothesis =>
      cases slot with
      | some value => exact congrArg (relocate r value :: ·) (inductionHypothesis supplied)
      | none =>
          cases supplied with
          | nil => exact congrArg (Value.zero :: ·) (inductionHypothesis [])
          | cons value rest => exact congrArg (relocate r value :: ·) (inductionHypothesis rest)

theorem slotCount_relocate (r : Relocation) :
    Eval.slotCount (relocate r fixed) = Eval.slotCount fixed := by
  unfold Eval.slotCount
  rw [Relocation.relocate_items, List.countP_map]
  congr 1
  funext slot
  cases slot <;> rfl

theorem held_fillSlots {heap : Heap} {fixed : List (Option Value)} (held : Held heap fixed)
    (heldSupplied : Held heap supplied) : Held heap (Eval.fillSlots fixed supplied) := by
  induction fixed generalizing supplied with
  | nil => exact heldSupplied
  | cons slot fixed inductionHypothesis =>
      obtain ⟨heldSlot, others⟩ := List.forall_mem_cons.mp held
      cases slot with
      | some value =>
          exact Relocation.held_cons (heldSlot value rfl) (inductionHypothesis others heldSupplied)
      | none =>
          exact Relocation.held_cons (OnHeap.Tracks.held_headD heldSupplied)
            (inductionHypothesis others fun item member =>
              heldSupplied item (List.mem_of_mem_tail member))

end Slots

variable (agree : t.Agree first second)
include agree

theorem runBody {callee : Value} (function : Function) {arguments : List Value}
    (held : state.heap.Holds callee) (heldArguments : Held state.heap arguments) :
    t.Tracks state (Eval.runBody first callee function arguments)
      (Eval.runBody second (relocate t.relocation callee) (relocate t.relocation function)
        (relocate t.relocation arguments)) :=
  .bind (.onHeap (.callNames held heldArguments)) fun _ _ _ heldNames =>
    .withNames rfl heldNames (.eval agree function.body)

theorem callable (operator : String) (node : Node) :
    t.Tracks state (Eval.callable first operator node) (Eval.callable second operator node) := by
  refine .bind (.eval agree node) fun callee _ _ held => ?_
  rw [Relocation.isCallable_relocate]
  exact .ite (.pure rfl held) (.fail rfl)

theorem application (operator : String) (left right : Node) :
    t.Tracks state (Eval.application first operator left right)
      (Eval.application second operator left right) := by
  refine .bind (.callable agree operator left) fun callee _ _ heldCallee =>
    .bind (.eval agree right) fun right _ passes heldRight =>
      .bind (.argumentsOf heldRight) fun arguments reached further heldArguments => ?_
  have held : reached.heap.Holds callee := heldCallee.later (passes.trans further).heap
  split
  · exact agree (.application callee arguments) reached ⟨held, heldArguments⟩
  · next steps _ =>
    exact agree (.scopedApplication steps callee arguments) reached ⟨held, heldArguments⟩

theorem partialApplication (left right : Node) :
    t.Tracks state (Eval.partialApplication first left right)
      (Eval.partialApplication second left right) := by
  refine .bind (.callable agree _ left) fun callee _ _ heldCallee =>
    .bind (.mapM (by simp) (fun _ _ => trivial) fun template _ _ _ _ => ?_)
      fun fixed reached passes heldFixed => .read fun suits => .onHeap ?_
  · refine .ite (.pure rfl fun _ same => by cases same) ?_
    exact .bind (.eval agree template) fun value _ _ held =>
      .pure rfl fun _ same => Option.some_inj.mp same ▸ held
  · have held : reached.heap.Holds callee := heldCallee.later passes.heap
    refine .newBuiltin ?_ ⟨held, heldFixed⟩
    exact congrArg (Builtin.mk · _) (congrArg (· ++ _ ++ _) (suits.fits.display held))

end Application

/-! ## Binding and definition -/

section Definition

theorem assign (name : String) {value : Value} (held : state.heap.Holds value) :
    t.Tracks state (Eval.assign name value)
      (Eval.assign name (relocate t.relocation value)) := by
  have bound {reached : State} (held : reached.heap.Holds value) : t.Tracks reached
      (Eval.modifyScope fun scope => scope.bind name value)
      (Eval.modifyScope fun scope => scope.bind name (relocate t.relocation value)) :=
    .modifyScope (Relocation.bind_relocate _ _ _ _) fun heldScope =>
      Relocation.held_bind heldScope held
  cases value with
  | function handle =>
      refine .bind (.onHeap (.modifyFunction handle (fun function => ?_) fun function before => ?_))
        fun _ _ passes _ => bound (held.later passes.heap)
      · unfold Function.anchor relocate Relocates.instFunction
        dsimp only
        split <;> rfl
      · unfold Function.anchor
        split <;> exact before
  | _ => exact bound held

theorem definition (operator : String) (head body : Node) :
    t.Tracks state (Eval.definition operator head body)
      (Eval.definition operator head body) := by
  unfold Eval.definition
  extract_lets next
  have continued (params : List String) (reached : State) :
      t.Tracks reached (next params) (next params) :=
    .readScope fun held => .onHeap (.newFunction rfl held.1)
  split
  · exact continued _ state
  · exact .outcome rfl fun params => continued params state
  · refine .bind (.fail rfl) fun params reached _ _ => ?_
    rw [Relocation.relocate_items, Relocation.map_plain]
    exact continued params reached

theorem binding (agree : t.Agree first second) (target value : Node) :
    t.Tracks state (Eval.binding first target value) (Eval.binding second target value) := by
  unfold Eval.binding
  split
  · exact .bind (.eval agree value) fun value _ _ held => .bind (.assign _ held)
      fun _ _ passes _ => .pure rfl (held.later passes.heap)
  · refine .outcome rfl fun names => .bind (.eval agree value) fun value _ _ held =>
      .bind (.onHeap (.shares _ held)) fun values _ passes heldValues =>
        .bind (.forM ?_ (?_ : Held _ (names.zip values)) fun entry _ _ _ heldEntry => ?_)
          fun _ _ passes' _ => .pure rfl (held.later (passes.trans passes').heap)
    · exact List.zip_map_right
    · exact fun entry member => ⟨trivial, heldValues entry.2 (List.of_mem_zip member).2⟩
    · exact .assign entry.1 heldEntry.2
  · exact .fail rfl

theorem checkImplementation (operator : String) (value : Value) :
    t.Tracks state (Eval.checkImplementation operator value)
      (Eval.checkImplementation operator (relocate t.relocation value)) := by
  cases value with
  | builtin handle => exact .pure rfl trivial
  | function handle =>
      refine .read fun suits => ?_
      dsimp only [Relocation.relocate_function]
      rw [show (t.relocation.state state).heap = t.relocation.heap state.heap from rfl,
        Relocation.function_heap suits.fits.starts]
      exact .ite (.pure rfl trivial) (.fail rfl)
  | _ => exact .fail rfl

theorem definitionParts {form : Value} (held : state.heap.Holds form) :
    t.Tracks state (Eval.definitionParts form)
      (Eval.definitionParts (relocate t.relocation form)) := by
  cases form with
  | list handle =>
      refine .read fun suits => ?_
      have heldItems := suits.fits.closed.elements handle
      rw [show (t.relocation.state state).heap = t.relocation.heap state.heap from rfl,
        Relocation.list_heap suits.fits.starts, Relocation.relocate_array, Array.toList_map]
      generalize (state.heap.list handle).toList = items at heldItems
      have heldAt {value : Value} (member : value ∈ items) : state.heap.Holds value :=
        heldItems value member
      match items with
      | [precedence, function] =>
          exact .pure rfl ⟨heldAt (by simp), fun _ same => (by cases same), heldAt (by simp),
            trivial⟩
      | [precedence, associativity, function] =>
          exact .pure rfl ⟨heldAt (by simp),
            fun _ same => Option.some_inj.mp same ▸ heldAt (by simp), heldAt (by simp), trivial⟩
      | [precedence, associativity, function, _, _] =>
          exact .pure rfl ⟨heldAt (by simp),
            fun _ same => Option.some_inj.mp same ▸ heldAt (by simp), heldAt (by simp), trivial⟩
      | [] => exact .fail rfl
      | [_] => exact .fail rfl
      | [_, _, _, _] => exact .fail rfl
      | _ :: _ :: _ :: _ :: _ :: _ :: _ => exact .fail (by simp)
  | _ => exact .pure rfl ⟨trivial, fun _ same => (by cases same), held, trivial⟩

theorem operatorDefinition (agree : t.Agree first second) (operator : String)
    (left right : Node) :
    t.Tracks state (Eval.operatorDefinition first operator left right)
      (Eval.operatorDefinition second operator left right) := by
  refine .bind (.eval agree left) fun token _ _ _ => .bind (.onHeap (.text token _))
    fun token _ _ _ => .bind (.eval agree right) fun form _ _ heldForm =>
      .bind (.definitionParts heldForm) fun parts reached _ heldParts => ?_
  obtain ⟨precedence, associativity, function, force⟩ := parts
  have held : reached.heap.Holds function := heldParts.2.2.1
  refine .outcome (by simp) fun index => ?_
  have placed (associativity : Syntax.Associativity) {later : State}
      (passes : reached.Passes later) : t.Tracks later
      (do
        Eval.checkImplementation operator function
        Eval.defineOperator ⟨token, index, associativity, force⟩
          ⟨function, operator == Syntax.operatorBindToken⟩
        return function)
      (do
        Eval.checkImplementation operator (relocate t.relocation function)
        Eval.defineOperator ⟨token, index, associativity, force⟩
          ⟨relocate t.relocation function, operator == Syntax.operatorBindToken⟩
        return relocate t.relocation function) :=
    .bind (.checkImplementation operator function) fun _ _ further _ =>
      .bind (.defineOperator _ (held.later (passes.trans further).heap)) fun _ _ beyond _ =>
        .pure rfl (held.later ((passes.trans further).trans beyond).heap)
  cases associativity with
  | none => exact placed _ (.refl _)
  | some value =>
      exact .bind (.onHeap (.text value _)) fun text _ passes _ =>
        .outcome (by simp) fun associativity => placed associativity passes

theorem userOperation (agree : t.Agree first second) {implementation : Implementation}
    (held : Held state.heap implementation) (left right : Node) :
    t.Tracks state (Eval.userOperation first implementation left right)
      (Eval.userOperation second (relocate t.relocation implementation) left right) := by
  have function {reached : State} (passes : state.Passes reached) :
      reached.heap.Holds implementation.function := Heap.Holds.later held passes.heap
  refine .ite ?_ ?_
  · exact .bind (.eval agree left) fun left _ passes heldLeft => .bind (.eval agree right)
      fun right reached further heldRight =>
        agree (.application implementation.function [left, right]) reached
          ⟨function (passes.trans further), held_two (heldLeft.later further.heap) heldRight⟩
  · exact .bind (.onHeap (.newNode rfl)) fun left _ passes heldLeft =>
      .bind (.onHeap (.newNode rfl)) fun right reached further heldRight =>
        agree (.application implementation.function [left, right]) reached
          ⟨function (passes.trans further), held_two (heldLeft.later further.heap) heldRight⟩

end Definition

/-! ## Control -/

section Control

variable (agree : t.Agree first second)
include agree

theorem conditional (condition branches : Node) :
    t.Tracks state (Eval.conditional first condition branches)
      (Eval.conditional second condition branches) := by
  unfold Eval.conditional
  split
  · refine .bind (.eval agree condition) fun answer _ _ _ => ?_
    rw [Relocation.isTruthy_relocate]
    exact .ite (.eval agree _) (.eval agree _)
  · exact .fail rfl
  · exact .fail rfl

theorem repeatWhile (condition body : Node) (update : Option Node) (bound : Nat) {last : Value}
    (held : state.heap.Holds last) :
    t.Tracks state (Eval.repeatWhile first condition body update bound last)
      (Eval.repeatWhile second condition body update bound (relocate t.relocation last)) := by
  induction bound generalizing last state with
  | zero => exact .throw .exhausted
  | succ bound inductionHypothesis =>
      unfold Eval.repeatWhile
      refine .bind (.eval agree condition) fun answer _ passes _ => ?_
      rw [Relocation.isTruthy_relocate]
      refine .ite (.bind (.eval agree body) fun last _ _ heldLast => ?_)
        (.pure rfl (held.later passes.heap))
      split
      · exact .bind (.discard (.eval agree _)) fun _ _ further _ =>
          inductionHypothesis (heldLast.later further.heap)
      · exact inductionHypothesis heldLast

theorem forLoop (bound : Nat) (head body : Node) :
    t.Tracks state (Eval.forLoop first bound head body)
      (Eval.forLoop second bound head body) := by
  unfold Eval.forLoop
  split
  · exact .bind (.discard (.eval agree _)) fun _ _ _ _ =>
      .repeatWhile agree _ _ _ bound (show Heap.Holds _ .zero from trivial)
  · exact .fail rfl
  · exact .fail rfl

end Control

/-! ## Trees -/

section Trees

variable (agree : t.Agree first second)
include agree

theorem nativeOperation (bound : Nat) (operator : String) (left right : Node) :
    t.Tracks state (Eval.nativeOperation first bound operator left right)
      (Eval.nativeOperation second bound operator left right) := by
  have zero : state.heap.Holds .zero := trivial
  unfold Eval.nativeOperation
  refine .ite (.definition operator left right) ?_
  refine .ite (.partialApplication agree left right) ?_
  refine .ite (.conditional agree left right) ?_
  refine .ite (.repeatWhile agree _ _ none bound zero) ?_
  refine .ite (.forLoop agree bound left right) ?_
  refine .ite (.application agree operator left right) ?_
  split
  · exact .fail rfl
  · exact .bind (.eval agree left) fun left _ _ heldLeft => .bind (.eval agree right)
      fun right _ passes heldRight => .onHeap (.binary _ (heldLeft.later passes.heap) heldRight)

theorem operation (bound : Nat) (operator : String) (left right : Node) :
    t.Tracks state (Eval.operation first bound operator left right)
      (Eval.operation second bound operator left right) := by
  unfold Eval.operation
  refine .ite (.binding agree left right) (.ite (.operatorDefinition agree operator left right) ?_)
  refine .readScope fun heldScope => ?_
  have implementations :
      (relocate t.relocation state.scope).operators.implementations.get? operator =
        (state.scope.operators.implementations.get? operator).map (relocate t.relocation) :=
    Dict.get?_map _ _ _
  rw [implementations]
  cases found : state.scope.operators.implementations.get? operator with
  | some implementation =>
      exact .userOperation agree (heldScope.2 operator implementation found) left right
  | none => exact .nativeOperation agree bound operator left right

theorem splice (written : String) (segments : List Segment) :
    t.Tracks state (Eval.splice first written segments)
      (Eval.splice second written segments) := by
  induction segments generalizing written state with
  | nil => exact .pure rfl trivial
  | cons segment segments inductionHypothesis =>
      cases segment with
      | literal characters => exact inductionHypothesis (written ++ characters)
      | splice expression =>
          refine .bind (.eval agree expression) fun value reached _ held => .read fun suits => ?_
          rw [show (t.relocation.state reached).heap = t.relocation.heap reached.heap from rfl,
            suits.fits.display held]
          exact inductionHypothesis _

theorem sequence {last : Value} (held : state.heap.Holds last) (statements : List Node) :
    t.Tracks state (Eval.sequence first last statements)
      (Eval.sequence second (relocate t.relocation last) statements) := by
  induction statements generalizing last state with
  | nil => exact .pure rfl held
  | cons statement rest inductionHypothesis =>
      exact .bind (.eval agree statement) fun last _ _ held => inductionHypothesis held

theorem tree (bound : Nat) (node : Node) :
    t.Tracks state (Eval.tree first bound node) (Eval.tree second bound node) := by
  cases node with
  | body statements =>
      have zero : state.heap.Holds .zero := trivial
      exact .sequence agree zero statements
  | list elements =>
      exact .bind (.mapM (by simp) (fun _ _ => trivial) fun element _ _ _ _ =>
        .eval agree element) fun _ _ _ held => .onHeap (.newListOf rfl held)
  | number value => exact .pure rfl trivial
  | text source segments =>
      exact .bind (.splice agree "" segments) fun _ _ _ _ => .onHeap (.newText rfl)
  | identifier name =>
      refine .readScope fun heldScope => ?_
      rw [Relocation.lookup?_relocate]
      cases found : state.scope.lookup? name with
      | some value => exact .pure rfl (Relocation.held_lookup? heldScope value found)
      | none => exact .fail rfl
  | operation operator left right => exact .operation agree bound operator left right
  | quoted inner => exact .onHeap (.newNode rfl)

end Trees

/-! ## Sources -/

section Sources

variable (agree : t.Agree first second)
include agree

theorem statements (text : List Char) (generation : Nat) {last : Value}
    (held : state.heap.Holds last) (divided : List Syntax.Statement) :
    t.Tracks state (Eval.statements first text generation last divided)
      (Eval.statements second text generation (relocate t.relocation last) divided) := by
  induction divided generalizing last state with
  | nil => exact .pure rfl held
  | cons statement others inductionHypothesis =>
      refine .readLevels fun levels => .outcome rfl fun node =>
        .bind (.eval agree node) fun last _ _ held => .readScope fun _ => ?_
      exact .ite (inductionHypothesis held) (.pure rfl held)

theorem source (bound : Nat) {last : Value} (held : state.heap.Holds last) (text : List Char) :
    t.Tracks state (Eval.source first bound last text)
      (Eval.source second bound (relocate t.relocation last) text) := by
  induction bound generalizing last text state with
  | zero => exact .pure rfl held
  | succ bound inductionHypothesis =>
      refine .readScope fun _ => .outcome rfl fun divided =>
        .bind (.statements agree text _ held divided) fun progress _ _ heldProgress => ?_
      cases progress with
      | finished last => exact .pure rfl heldProgress
      | changed last rest => exact inductionHypothesis heldProgress rest

end Sources

end Tracks

end Transfer

end Fixity
