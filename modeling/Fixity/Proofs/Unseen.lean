import Fixity.Library
import Fixity.Proofs.Depth
import Fixity.Proofs.Transport

/-!
Contract: whole evaluations under an insertion.

Owns:
- `Host.Oblivious`, the surrounding programs that can not tell an insertion, and that of the command
  line;
- `Passage.agree_run`: evaluation under an insertion, guarded by a watch, follows evaluation;
- `Passage.guards_limit`: a watch for the limit of calls guards every insertion;
- `State.Housed`: every handle of a tree has a tree, which evaluation keeps.
-/

namespace Fixity

/-- Functions of the surrounding program that can tell neither the handles of trees nor how many
calls are under way. -/
def Host.Oblivious (host : Host) : Prop :=
  ∀ (p : Passage) (first second : Interpreter), p.Agree first second →
    ∀ name arguments,
      p.Follows (host name first arguments)
        (host name second (arguments.map p.insertion.value))

namespace Passage

open Eval

/-- A watch that stops every call which is beyond the limit only because of the further ones, and
gives up instead. -/
structure Guards (watch : Watch Unit) (p : Passage) : Prop where
  stops : ∀ {request state}, watch.forbidden () request state → p.GaveUp (watch.instead state)
  counts : ∀ {request : Request} {state : State},
    ¬ watch.forbidden () (p.insertion.request request) (p.insertion.state state) →
      request.isCall state.heap → state.depth + 1 ≤ maxDepth →
        state.depth + p.insertion.calls + 1 ≤ maxDepth

variable {p : Passage} {host : Host} {first second : Interpreter}

section Rules

variable (agree : p.Agree first second)
include agree

theorem Follows.callBuiltin
    (oblivious : host.Oblivious) (builtin : Builtin) (arguments : List Value) :
    p.Follows (Eval.callBuiltin host first builtin arguments)
      (Eval.callBuiltin host second (p.insertion.builtin builtin)
        (arguments.map p.insertion.value)) := by
  obtain ⟨name, action⟩ := builtin
  cases action with
  | native native => exact .callNative agree native arguments
  | host name => exact oblivious p first second agree name arguments
  | supply callee fixed =>
      unfold Eval.callBuiltin
      dsimp only [Insertion.builtin, Insertion.action]
      rw [List.length_map, slotCount, fillSlots]
      exact .ite (.fail rfl) (agree (.application callee (Eval.fillSlots fixed arguments)))

theorem FollowsAt.call (oblivious : host.Oblivious) (fresh : Bool) (callee : Value)
    (arguments : List Value) {state : State}
    (counted : ∀ handle, callee = .function handle →
      (state.heap.function handle).accepts arguments.length → state.depth + 1 ≤ maxDepth →
        state.depth + p.insertion.calls + 1 ≤ maxDepth) :
    p.FollowsAt state (Eval.call host first fresh callee arguments)
      (Eval.call host second fresh (p.insertion.value callee)
        (arguments.map p.insertion.value)) := by
  cases callee with
  | builtin handle =>
      show p.FollowsAt state (Eval.callBuiltin host first (state.heap.builtin handle) arguments)
        (Eval.callBuiltin host second ((p.insertion.heap state.heap).builtin handle) _)
      rw [Insertion.builtin_heap]
      exact Follows.callBuiltin agree oblivious _ arguments state
  | function handle =>
      have called (function : Function)
          (within : function.accepts arguments.length → state.depth + 1 ≤ maxDepth →
            state.depth + p.insertion.calls + 1 ≤ maxDepth) :
          p.FollowsAt state
            (if function.accepts arguments.length then
              Eval.asCall
                (if fresh then
                  Eval.inChild function.closure
                    (Eval.runBody first (.function handle) function arguments)
                else Eval.runBody first (.function handle) function arguments)
            else Eval.fail (.argumentCount function.arity arguments.length))
            (if function.accepts arguments.length then
              Eval.asCall
                (if fresh then
                  Eval.inChild (p.insertion.function function).closure
                    (Eval.runBody second (.function handle) (p.insertion.function function)
                      (arguments.map p.insertion.value))
                else
                  Eval.runBody second (.function handle) (p.insertion.function function)
                    (arguments.map p.insertion.value))
            else Eval.fail (.argumentCount function.arity arguments.length)) := by
        have body := Follows.runBody agree (.function handle) function arguments
        split
        · next accepts =>
          exact .asCall (within accepts) (.ite (.inChild rfl body) body)
        · exact Follows.fail rfl state
      have found := called _ (counted handle rfl)
      show p.FollowsAt state _ (do
        let function := (p.insertion.heap state.heap).function handle
        if function.accepts (arguments.map p.insertion.value).length then
          Eval.asCall
            (if fresh then
              Eval.inChild function.closure
                (Eval.runBody second (.function handle) function
                  (arguments.map p.insertion.value))
            else
              Eval.runBody second (.function handle) function (arguments.map p.insertion.value))
        else Eval.fail (.argumentCount function.arity (arguments.map p.insertion.value).length))
      rw [Insertion.function_heap, List.length_map]
      exact found
  | _ => exact Follows.fail rfl state

end Rules

/-- One step of the interpreter, unless the further calls make one too many of it. -/
theorem FollowsAt.step (agree : p.Agree first second) (oblivious : host.Oblivious) (bound : Nat)
    {request : Request} {state : State}
    (counted : request.isCall state.heap → state.depth + 1 ≤ maxDepth →
      state.depth + p.insertion.calls + 1 ≤ maxDepth) :
    p.FollowsAt state (Eval.step host bound first request)
      (Eval.step host bound second (p.insertion.request request)) := by
  cases request with
  | tree node => exact Follows.tree agree bound node state
  | source text => exact Follows.source agree (text.length + 1) .zero text.toList state
  | application callee arguments =>
      refine FollowsAt.call agree oblivious true callee arguments ?_
      rintro handle rfl accepts
      exact counted accepts
  | scopedApplication steps callee arguments =>
      refine FollowsAt.inAncestor (FollowsAt.call agree oblivious false callee arguments ?_)
      rintro handle rfl accepts
      exact counted accepts

/-- Without further calls there is nothing to guard. -/
theorem agree_uncounted (uncounted : p.insertion.calls = 0) (oblivious : host.Oblivious)
    (bound : Nat) : p.Agree (run host bound) (run host bound) := by
  induction bound with
  | zero => exact fun request => .throw .exhausted
  | succ bound inductionHypothesis =>
      intro request state
      refine FollowsAt.step inductionHypothesis oblivious bound fun _ within => ?_
      rw [uncounted]
      exact within

/-- No evaluation loses a tree or a builtin, and calls are counted as before when it ends. -/
theorem reaches_run (oblivious : host.Oblivious) (bound : Nat) (request : Request)
    (state : State) : state.Reaches ((run host bound request).after state) :=
  let still : Passage := ⟨⟨0, [], 0, false⟩, fun _ => False, fun _ => id⟩
  have uncounted : still.insertion.calls = 0 := rfl
  (agree_uncounted uncounted oblivious bound request state).1

/-- Evaluation under an insertion and a watch that guards it follows evaluation. -/
theorem agree_run {watch : Watch Unit} (guards : p.Guards watch) (oblivious : host.Oblivious)
    (bound : Nat) : p.Agree (run host bound) (watch.run host bound ()) := by
  induction bound with
  | zero => exact fun request => .throw .exhausted
  | succ bound inductionHypothesis =>
      intro request state
      by_cases forbidden :
          watch.forbidden () (p.insertion.request request) (p.insertion.state state)
      · refine ⟨reaches_run oblivious (bound + 1) request state, fun _ => .inl ?_⟩
        rw [Watch.run_succ, if_pos forbidden]
        exact guards.stops forbidden
      · have watched : watch.run host (bound + 1) () (p.insertion.request request)
            (p.insertion.state state) =
              step host bound (watch.run host bound ()) (p.insertion.request request)
                (p.insertion.state state) := by
          rw [Watch.run_succ, if_neg forbidden]
        unfold FollowsAt
        rw [watched]
        exact FollowsAt.step inductionHypothesis oblivious bound (guards.counts forbidden)

end Passage

/-! ## The limit of calls -/

theorem Insertion.isCall_request (insertion : Insertion) (request : Request) (heap : Heap) :
    (insertion.request request).isCall (insertion.heap heap) = request.isCall heap := by
  have accepts (handle : Nat) (arguments : List Value) :
      ((insertion.heap heap).function handle).accepts (arguments.map insertion.value).length =
        (heap.function handle).accepts arguments.length := by
    rw [function_heap, List.length_map]
    rfl
  cases request with
  | application callee arguments =>
      cases callee with
      | function handle => exact accepts handle arguments
      | _ => rfl
  | scopedApplication steps callee arguments =>
      cases callee with
      | function handle => exact accepts handle arguments
      | _ => rfl
  | _ => rfl

/-- A watch for the limit guards every insertion, if it gives up as it may. -/
theorem Passage.guards_limit {p : Passage} {failure : Failure} (gives : p.givesUp failure) :
    p.Guards (Watch.limit (throw failure)) where
  stops _ := ⟨failure, _, gives, rfl⟩
  counts := by
    intro request state allowed calls _
    have calls' : (p.insertion.request request).isCall (p.insertion.state state).heap :=
      (p.insertion.isCall_request request state.heap).trans calls
    have within : ¬ Eval.maxDepth < state.depth + p.insertion.calls + 1 := fun tooDeep =>
      allowed (by
        show (_ && decide (Eval.maxDepth < state.depth + p.insertion.calls + 1)) = true
        rw [calls', decide_eq_true tooDeep]
        rfl)
    exact Nat.le_of_not_lt within

/-! ## States without dangling handles -/

/-- Every handle of a tree has a tree: to move up the handles that have none changes nothing. -/
def State.Housed (state : State) : Prop :=
  ∀ insertion : Insertion, insertion.late → insertion.calls = 0 →
    state.heap.nodes.size ≤ insertion.start → insertion.state state = state

namespace State.Housed

/-- What follows itself under every insertion leads from states without dangling handles to such
states, and to values without them. -/
theorem of_follows {α : Type} [Renumbers α] {action : Eval α} {state : State}
    (housed : state.Housed)
    (follows : ∀ p : Passage, p.insertion.calls = 0 → p.FollowsAt state action action) :
    (action.after state).Housed ∧
      ∀ value reached, action state = .ok value reached → ∀ insertion : Insertion,
        insertion.late → insertion.calls = 0 → reached.heap.nodes.size ≤ insertion.start →
          renumber insertion value = value := by
  have same (insertion : Insertion) (late : insertion.late) (uncounted : insertion.calls = 0)
      (beyond : (action.after state).heap.nodes.size ≤ insertion.start) :
      insertion.result (action state) = action state := by
    let p : Passage := ⟨insertion, fun _ => False, fun _ => id⟩
    obtain ⟨passes, followed⟩ := follows p uncounted
    have steady : insertion.Steady state.heap (action.after state).heap := by
      right
      unfold Insertion.enters
      rw [late]
      exact Nat.not_le_of_lt (Nat.lt_succ_of_le beyond)
    obtain ⟨_, _, gives, _⟩ | same := followed steady
    · exact gives.elim
    · have unmoved := housed insertion late uncounted (Nat.le_trans passes.heap.nodes beyond)
      have same : action (insertion.state state) = insertion.result (action state) := same
      rw [unmoved] at same
      exact same.symm
  constructor
  · intro insertion late uncounted beyond
    have same := same insertion late uncounted beyond
    cases ran : action state with
    | ok value reached =>
        rw [ran] at same
        rw [Eval.after_of_ok ran]
        injection same
    | error failure reached =>
        rw [ran] at same
        rw [Eval.after_of_error ran]
        injection same
  · intro value reached ran insertion late uncounted beyond
    have same := same insertion late uncounted (by rwa [Eval.after_of_ok ran])
    rw [ran] at same
    injection same

/-- The state in which a program starts. -/
theorem initial : (State.initial .empty .empty).Housed := by
  intro insertion late uncounted _
  have waits : ¬ insertion.enters (#[] : Array Node).size := by
    unfold Insertion.enters
    rw [late]
    exact Nat.not_succ_le_zero _
  have nodes : insertion.nodes #[] = #[] := Insertion.nodes_of_not_enters waits
  have bindings : insertion.bindings ∅ = ∅ := Dict.map_empty _
  have implementations : insertion.operators .initial = .initial :=
    congrArg (OperatorTable.mk _ · _) (Dict.map_empty _)
  simp [State.initial, Heap.empty, Scope.empty, Insertion.state, Insertion.heap, Insertion.scope,
    nodes, bindings, implementations, uncounted]

/-- Evaluation makes no dangling handles. -/
theorem run {host : Host} (oblivious : host.Oblivious) {state : State} (housed : state.Housed)
    (bound : Nat) {request : Request}
    (plain : ∀ insertion : Insertion, insertion.request request = request) :
    ((Eval.run host bound request).after state).Housed := by
  refine (housed.of_follows fun p uncounted => ?_).1
  have follows := p.agree_uncounted uncounted oblivious bound request state
  rwa [plain] at follows

/-- Trees that come in behind all others are found under the handles that follow, and nothing else
changes. -/
theorem inserted {state : State} (housed : state.Housed) (trees : List Node) (calls : Nat) :
    Insertion.state ⟨state.heap.nodes.size, trees, calls, false⟩ state =
      { state with
        heap := { state.heap with nodes := state.heap.nodes ++ trees.toArray }
        depth := state.depth + calls } := by
  let insertion : Insertion := ⟨state.heap.nodes.size, trees, calls, false⟩
  have unmoved := housed ⟨state.heap.nodes.size, trees, 0, true⟩ rfl rfl (Nat.le_refl _)
  have heap := congrArg State.heap unmoved
  have lists : (state.heap.lists.map fun items => items.map insertion.value) = state.heap.lists :=
    congrArg Heap.lists heap
  have objects : (state.heap.objects.map fun entries => entries.map insertion.value) =
      state.heap.objects :=
    congrArg Heap.objects heap
  have functions : state.heap.functions.map insertion.function = state.heap.functions :=
    congrArg Heap.functions heap
  have builtins : state.heap.builtins.map insertion.builtin = state.heap.builtins :=
    congrArg Heap.builtins heap
  have scope : insertion.scope state.scope = state.scope := congrArg State.scope unmoved
  have outer : state.outer.map insertion.scope = state.outer := congrArg State.outer unmoved
  have nodes : insertion.nodes state.heap.nodes = state.heap.nodes ++ trees.toArray := by
    have enters : insertion.enters state.heap.nodes.size := Nat.le_refl _
    rw [Insertion.nodes_of_enters enters,
      List.take_of_length_le (by simp [insertion]), List.drop_of_length_le (by simp [insertion])]
    simp [insertion]
  show insertion.state state = _
  unfold Insertion.state Insertion.heap
  rw [lists, objects, functions, builtins, scope, outer, nodes]

end State.Housed

/-! ## Surrounding programs -/

theorem Host.oblivious_commandLine (files : CommandLine.Files) :
    Oblivious (CommandLine.host files) := by
  intro p first second agree name arguments
  unfold CommandLine.host
  refine .ite (.read fun state => ?_) ?_
  · have shown : (arguments.map p.insertion.value).map (p.insertion.heap state.heap).display =
        arguments.map state.heap.display := by
      rw [List.map_map]
      exact List.map_congr_left fun value _ => Insertion.display_value _ value
    have last : (arguments.map p.insertion.value).getLastD .zero =
        p.insertion.value (arguments.getLastD .zero) := by
      rw [List.getLastD_eq_getLast?, List.getLastD_eq_getLast?, List.getLast?_map]
      cases arguments.getLast? <;> rfl
    dsimp only
    rw [show (p.insertion.state state).heap = p.insertion.heap state.heap from rfl, shown, last]
    have printed (text : String) (value : Value) : p.Follows
        (do Eval.emit (.line text); return value)
        (do Eval.emit (.line text); return p.insertion.value value) :=
      .bind (.emit _) fun _ => .pure rfl
    exact printed _ _ state
  · match arguments with
    | [argument] =>
        refine .ite ?_ ?_
        · refine .bind (.onHeap (.textOf rfl _)) fun path => ?_
          rw [Insertion.renumber_plain]
          split
          · exact agree (.source _)
          · exact .fail rfl
          · exact .throw _
        · exact .bind (.ofOutcome (by simp)) fun seconds => .bind (.ofOutcome (by simp))
            fun length => .bind (.emit _) fun _ => .pure rfl
    | [] => exact .fail rfl
    | _ :: _ :: _ => exact .fail (by simp)

theorem Host.oblivious_noHost : Oblivious Library.noHost := fun _ _ _ _ _ _ => .fail rfl

/-! ## The standard library -/

namespace Library

open OnHeap (Follows)
open Passage (agree_uncounted)

variable (insertion : Insertion)

theorem follows_register (scope : Scope) (name : String) (action : Action) :
    Follows insertion (register scope name action)
      (register (insertion.scope scope) name (insertion.action action)) :=
  .bind (.newBuiltin rfl) fun _ => .pure (Insertion.bind_scope scope name _).symm

theorem follows_nativeScope : Follows insertion nativeScope nativeScope := by
  have registered (entries : List (String × Native)) (scope : Scope) : Follows insertion
      (entries.foldlM (fun scope entry => register scope entry.1 (.native entry.2)) scope)
      (entries.foldlM (fun scope entry => register scope entry.1 (.native entry.2))
        (insertion.scope scope)) := by
    induction entries generalizing scope with
    | nil => exact .pure rfl
    | cons entry rest inductionHypothesis =>
        exact .bind (follows_register insertion scope entry.1 (.native entry.2))
          fun scope => inductionHypothesis scope
  have start : insertion.scope .empty = .empty := by
    unfold Insertion.scope Insertion.bindings Insertion.operators Scope.empty
    simp [OperatorTable.initial]
  have catalogue := registered Native.catalogue .empty
  rw [start] at catalogue
  refine .bind catalogue fun scope => .pure ?_
  show _ = insertion.scope _
  rw [Insertion.bind_scope, Insertion.bind_scope]
  rfl

/-- A program finds no dangling handles when it starts with the standard library. -/
theorem housed_useStandard : (useStandard.after (.initial .empty .empty)).Housed := by
  refine (State.Housed.initial.of_follows fun p uncounted => ?_).1
  have native : p.Follows useNative useNative :=
    .bind (.onHeap (follows_nativeScope p.insertion)) fun scope => .modifyScope fun _ => rfl
  have evaluated (interpreter : Interpreter) (agree : p.Agree interpreter interpreter)
      (text : String) : p.Follows
        (do useNative; discard (interpreter.evaluate text))
        (do useNative; discard (interpreter.evaluate text)) :=
    .bind native fun _ => .discard (agree (.source text))
  exact evaluated (Eval.interpreter noHost)
    (agree_uncounted uncounted Host.oblivious_noHost Eval.startBound) Prelude.source _

end Library

end Fixity
