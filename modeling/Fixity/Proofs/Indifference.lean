import Fixity.CommandLine
import Fixity.Proofs.Bounds
import Fixity.Proofs.Depth
import Fixity.Proofs.Rules

/-!
Contract: whole evaluations in states with further cells.

Owns:
- `Host.Unaware`, the surrounding programs that can not tell further cells, and that of the command
  line;
- `Transfer.agree_run`: with the further cells, and guarded by a watch, evaluation does what it does
  without them;
- `Transfer.guards_limit`: a watch for the limit of calls guards every relocation;
- `State.Closed`, the states without dangling handles: programs start in them, and evaluation leads
  from each of them to such a state;
- `Relocation.growth`, the cells by which one heap is longer than another: among those of a state
  that has the other heap, they come last and move none.
-/

namespace Fixity

/-- Functions of the surrounding program that can tell neither the handles of cells nor how many
calls are under way. -/
def Host.Unaware (host : Host) : Prop :=
  ∀ (t : Transfer) (first second : Interpreter), t.Agree first second →
    ∀ name arguments (state : State), Held state.heap arguments →
      t.Tracks state (host name first arguments)
        (host name second (relocate t.relocation arguments))

namespace Transfer

open Eval

/-- A watch that stops every call which is beyond the limit only because of the further ones, and
gives up instead. -/
structure Guards (watch : Watch Unit) (t : Transfer) : Prop where
  stops : ∀ {request state}, watch.forbidden () request state →
    ∃ failure left, t.givesUp failure ∧ watch.instead state = .error failure left
  counts : ∀ {request : Request} {state : State}, t.relocation.Suits state →
    ¬ watch.forbidden () (relocate t.relocation request) (t.relocation.state state) →
      request.isCall state.heap → state.depth + 1 ≤ maxDepth →
        state.depth + t.relocation.calls + 1 ≤ maxDepth

variable {t : Transfer} {host : Host} {first second : Interpreter} {state : State}

namespace Tracks

variable (agree : t.Agree first second) (unaware : host.Unaware) {arguments : List Value}
  (heldArguments : Held state.heap arguments)
include agree unaware heldArguments

theorem callBuiltin {builtin : Builtin} (held : Held state.heap builtin) :
    t.Tracks state (Eval.callBuiltin host first builtin arguments)
      (Eval.callBuiltin host second (relocate t.relocation builtin)
        (relocate t.relocation arguments)) := by
  obtain ⟨name, action⟩ := builtin
  cases action with
  | native native => exact .callNative agree native heldArguments
  | host name => exact unaware t first second agree name arguments state heldArguments
  | supply callee fixed =>
      show t.Tracks state
        (if arguments.length < Eval.slotCount fixed then _ else _)
        (if (relocate t.relocation arguments).length <
            Eval.slotCount (relocate t.relocation fixed) then
          Eval.fail (.argumentCount
            ("at least " ++ toString (Eval.slotCount (relocate t.relocation fixed)))
            (relocate t.relocation arguments).length)
        else second (.application (relocate t.relocation callee)
          (Eval.fillSlots (relocate t.relocation fixed) (relocate t.relocation arguments))))
      rw [slotCount_relocate, fillSlots_relocate, Relocation.relocate_items, List.length_map]
      exact .ite (.fail rfl) (agree (.application callee (Eval.fillSlots fixed arguments)) state
        ⟨held.1, held_fillSlots held.2 heldArguments⟩)

theorem call (fresh : Bool) {callee : Value} (held : state.heap.Holds callee)
    (counted : ∀ handle, callee = .function handle →
      (state.heap.function handle).accepts arguments.length → state.depth + 1 ≤ maxDepth →
        state.depth + t.relocation.calls + 1 ≤ maxDepth) :
    t.Tracks state (Eval.call host first fresh callee arguments)
      (Eval.call host second fresh (relocate t.relocation callee)
        (relocate t.relocation arguments)) := by
  cases callee with
  | builtin handle =>
      refine .read fun suits => ?_
      rw [show (t.relocation.state state).heap = t.relocation.heap state.heap from rfl,
        Relocation.builtin_heap suits.fits.starts]
      exact .callBuiltin agree unaware heldArguments (suits.fits.closed.builtin handle)
  | function handle =>
      refine .read fun suits => ?_
      have closure : Held state.heap (state.heap.function handle).closure :=
        suits.fits.closed.function handle
      have counted := counted handle rfl
      rw [show (t.relocation.state state).heap = t.relocation.heap state.heap from rfl]
      dsimp only [Relocation.relocate_function]
      rw [Relocation.function_heap suits.fits.starts, Relocation.relocate_items, List.length_map]
      generalize state.heap.function handle = function at counted closure
      show t.Tracks state
        (if function.accepts arguments.length then _ else _)
        (if function.accepts arguments.length then
          Eval.asCall
            (if fresh then
              Eval.inChild (relocate t.relocation function).closure
                (Eval.runBody second (.function (t.relocation.functions.handle handle))
                  (relocate t.relocation function) (relocate t.relocation arguments))
            else
              Eval.runBody second (.function (t.relocation.functions.handle handle))
                (relocate t.relocation function) (relocate t.relocation arguments))
        else Eval.fail (.argumentCount function.arity arguments.length))
      split
      · next accepts =>
        refine .asCall (counted accepts) (.ite ?_ ?_)
        · exact .inChild rfl closure (.runBody agree function held heldArguments)
        · exact .runBody agree function held heldArguments
      · exact .fail rfl
  | _ => exact .fail rfl

end Tracks

/-- One step of the interpreter, unless the further calls make one too many of it. -/
theorem Tracks.step (agree : t.Agree first second) (unaware : host.Unaware) (bound : Nat)
    {request : Request} (held : Held state.heap request)
    (counted : t.relocation.Suits state → request.isCall state.heap → state.depth + 1 ≤ maxDepth →
      state.depth + t.relocation.calls + 1 ≤ maxDepth) :
    t.Tracks state (Eval.step host bound first request)
      (Eval.step host bound second (relocate t.relocation request)) := by
  intro suits
  refine (?_ : t.Tracks state _ _) suits
  cases request with
  | tree node => exact .tree agree bound node
  | source text =>
      have zero : state.heap.Holds .zero := trivial
      exact .source agree (text.length + 1) zero text.toList
  | application callee arguments =>
      refine .call agree unaware held.2 true held.1 ?_
      rintro handle rfl accepts
      exact counted suits accepts
  | scopedApplication steps callee arguments =>
      have inside : t.Tracks (state.outward steps) (Eval.call host first false callee arguments)
          (Eval.call host second false (relocate t.relocation callee)
            (relocate t.relocation arguments)) := by
        have heldCallee : (state.outward steps).heap.Holds callee := held.1
        have heldArguments : Held (state.outward steps).heap arguments := held.2
        refine .call agree unaware heldArguments false heldCallee ?_
        rintro handle rfl accepts
        exact counted suits accepts
      exact .inAncestor inside

/-- Without further calls there is nothing to guard. -/
theorem agree_uncounted (uncounted : t.relocation.calls = 0) (unaware : host.Unaware)
    (bound : Nat) : t.Agree (run host bound) (run host bound) := by
  induction bound with
  | zero => exact fun _ _ _ => .throw .exhausted
  | succ bound inductionHypothesis =>
      intro request state held
      refine .step inductionHypothesis unaware bound held fun _ _ within => ?_
      rw [uncounted]
      exact within

/-- With further cells, and under a watch that guards them, evaluation does what it does without
them, or gives up. -/
theorem agree_run {watch : Watch Unit} (guards : t.Guards watch) (unaware : host.Unaware)
    (bound : Nat) : t.Agree (run host bound) (watch.run host bound ()) := by
  induction bound with
  | zero => exact fun _ _ _ => .throw .exhausted
  | succ bound inductionHypothesis =>
      intro request state held suits
      rw [Watch.run_succ]
      split
      · next forbidden =>
        obtain ⟨failure, left, gives, stopped⟩ := guards.stops forbidden
        rw [stopped]
        exact .gaveUp gives
      · next allowed =>
        exact Tracks.step inductionHypothesis unaware bound held
          (fun suits => guards.counts suits allowed) suits

end Transfer

/-! ## The limit of calls -/

theorem Relocation.isCall_relocate {r : Relocation} {heap : Heap} (starts : r.start ≤ heap.extent)
    (request : Request) : (relocate r request).isCall (r.heap heap) = request.isCall heap := by
  have accepts (handle : Nat) (arguments : List Value) :
      ((r.heap heap).function (r.functions.handle handle)).accepts
          (relocate r arguments).length =
        (heap.function handle).accepts arguments.length := by
    rw [function_heap starts, relocate_items, List.length_map]
    rfl
  cases request with
  | application callee arguments =>
      cases callee with
      | function handle => exact accepts handle arguments
      | _ => rfl
  | scopedApplication steps callee arguments =>
      cases callee with
      | function handle => exact accepts handle arguments
      | _ => rfl
  | _ => rfl

/-- A watch for the limit guards every relocation, if it gives up as it may. -/
theorem Transfer.guards_limit {t : Transfer} {failure : Failure} (gives : t.givesUp failure) :
    t.Guards (Watch.limit (throw failure)) where
  stops _ := ⟨failure, _, gives, rfl⟩
  counts := by
    intro request state suits allowed calls _
    have calls' : (relocate t.relocation request).isCall (t.relocation.state state).heap :=
      (Relocation.isCall_relocate suits.fits.starts request).trans calls
    have within : ¬ Eval.maxDepth < state.depth + t.relocation.calls + 1 := fun tooDeep =>
      allowed (by
        show (_ && decide (Eval.maxDepth < state.depth + t.relocation.calls + 1)) = true
        rw [calls', decide_eq_true tooDeep]
        rfl)
    exact Nat.le_of_not_lt within

/-! ## States without dangling handles -/

/-- No handle dangles. -/
structure State.Closed (state : State) : Prop where
  heap : state.heap.Closed
  scope : Held state.heap state.scope
  outer : Held state.heap state.outer

/-- No further cells at all. -/
def Relocation.still : Relocation where
  texts := ⟨0, []⟩
  lists := ⟨0, []⟩
  objects := ⟨0, []⟩
  functions := ⟨0, []⟩
  builtins := ⟨0, []⟩
  nodes := ⟨0, []⟩
  calls := 0

namespace State.Closed

variable {state : State}

theorem suits (closed : state.Closed) {r : Relocation} (starts : r.start ≤ state.heap.extent) :
    r.Suits state :=
  ⟨⟨closed.heap, starts⟩, closed.scope, closed.outer⟩

theorem of_suits {r : Relocation} (suits : r.Suits state) : state.Closed :=
  ⟨suits.fits.closed, suits.scope, suits.outer⟩

section Tracks

variable {α : Type} [Relocates α] {action : Eval α} (closed : state.Closed)
  (tracks : ∀ t : Transfer, t.relocation.calls = 0 → t.Tracks state action action)
include closed tracks

private theorem tracked_still :
    ∃ (t : Transfer) (result : EStateM.Result Failure State α), (∀ failure, ¬ t.givesUp failure) ∧
      t.Tracked state (action state) result := by
  have starts : Relocation.still.start ≤ state.heap.extent :=
    ⟨Nat.zero_le _, Nat.zero_le _, Nat.zero_le _, Nat.zero_le _, Nat.zero_le _, Nat.zero_le _⟩
  exact ⟨⟨.still, fun _ => False, fun _ => id⟩, _, fun _ => id, tracks _ rfl (closed.suits starts)⟩

/-- What does the same with further cells, if no call is counted besides, leads from states without
dangling handles to such states, and loses no cell. -/
theorem of_tracks : (action.after state).Closed ∧ state.Passes (action.after state) := by
  obtain ⟨t, result', never, tracked⟩ := closed.tracked_still tracks
  generalize ran : action state = result at tracked
  cases tracked with
  | ok passes suits held =>
      rw [Eval.after_of_ok ran]
      exact ⟨.of_suits suits, passes⟩
  | error passes suits =>
      rw [Eval.after_of_error ran]
      exact ⟨.of_suits suits, passes⟩
  | gaveUp gives => exact absurd gives (never _)

/-- The handles in its value do not dangle. -/
theorem held_of_tracks {value : α} {reached : State} (ran : action state = .ok value reached) :
    Held reached.heap value := by
  obtain ⟨t, result', never, tracked⟩ := closed.tracked_still tracks
  rw [ran] at tracked
  cases tracked with
  | ok passes suits held => exact held
  | gaveUp gives => exact absurd gives (never _)

end Tracks

/-- The state in which a program starts. -/
theorem initial : (State.initial .empty .empty).Closed where
  heap := ⟨fun _ member => absurd member (Array.not_mem_empty _),
    fun _ member => absurd member (Array.not_mem_empty _),
    fun _ member => absurd member (Array.not_mem_empty _),
    fun _ member => absurd member (Array.not_mem_empty _)⟩
  scope := ⟨fun _ _ found => (by cases found), fun _ _ found => (by cases found)⟩
  outer := fun _ member => by cases member

/-- Evaluation makes no dangling handles, loses no cell, and ends with as many calls under way as
before. -/
theorem run {host : Host} (unaware : host.Unaware) (closed : state.Closed) (bound : Nat)
    (node : Node) : ((Eval.run host bound (.tree node)).after state).Closed ∧
      state.Passes ((Eval.run host bound (.tree node)).after state) :=
  closed.of_tracks fun t uncounted =>
    t.agree_uncounted uncounted unaware bound (.tree node) state trivial

end State.Closed

/-! ## Cells behind all others -/

theorem Gap.widen_drop {α : Type} {cells later : Array α} (begins : cells.toList <+: later.toList) :
    Gap.widen ⟨cells.size, later.toList.drop cells.size⟩ cells = later := by
  obtain ⟨further, same⟩ := begins
  rw [widen_of_behind rfl]
  refine Array.toList_inj.mp ?_
  rw [Array.toList_append, ← same, List.drop_left' (Array.length_toList)]

namespace Relocation

/-- The cells by which one heap is longer than another, and calls that are under way besides. -/
def growth (heap later : Heap) (calls : Nat) : Relocation where
  texts := ⟨heap.texts.size, later.texts.toList.drop heap.texts.size⟩
  lists := ⟨heap.lists.size, later.lists.toList.drop heap.lists.size⟩
  objects := ⟨heap.objects.size, later.objects.toList.drop heap.objects.size⟩
  functions := ⟨heap.functions.size, later.functions.toList.drop heap.functions.size⟩
  builtins := ⟨heap.builtins.size, later.builtins.toList.drop heap.builtins.size⟩
  nodes := ⟨heap.nodes.size, later.nodes.toList.drop heap.nodes.size⟩
  calls := calls

/-- The result of an evaluation, where there are further cells. -/
def result {α : Type} [Relocates α] (r : Relocation) :
    EStateM.Result Failure State α → EStateM.Result Failure State α
  | .ok value state => .ok (relocate r value) (r.state state)
  | .error failure state => .error failure (r.state state)

theorem ended_result {α : Type} [Relocates α] (r : Relocation)
    (inner : EStateM.Result Failure State α) :
    Eval.ended (r.result inner) = r.state (Eval.ended inner) := by
  cases inner <;> rfl

theorem result_eq_exhausted {α : Type} [Relocates α] {r : Relocation}
    {inner : EStateM.Result Failure State α} {left : State}
    (stopped : r.result inner = .error .exhausted left) :
    ∃ left', inner = .error .exhausted left' := by
  cases inner with
  | ok value reached => cases stopped
  | error failure reached =>
      injection stopped with same
      exact ⟨reached, by rw [same]⟩

/-- What comes out of a call is the same, but one call less is under way. -/
theorem leaving_result_growth (heap later : Heap) (calls : Nat)
    (inner : EStateM.Result Failure State Value) :
    Eval.leaving Eval.leaveCall ((growth heap later (calls + 1)).result inner) =
      (growth heap later calls).result inner := by
  cases inner <;> rfl

theorem heap_growth {heap later : Heap} (closed : heap.Closed) (grows : heap.Grows later)
    (calls : Nat) : (growth heap later calls).heap heap = later := by
  have behind : heap.extent ≤ (growth heap later calls).start := .refl _
  unfold Relocation.heap
  rw [show heap.lists.map (relocate _) = heap.lists from Relocates.unmoved behind closed.lists,
    show heap.objects.map (relocate _) = heap.objects from
      Relocates.unmoved behind closed.objects,
    show heap.functions.map (relocate _) = heap.functions from
      Relocates.unmoved behind closed.functions,
    show heap.builtins.map (relocate _) = heap.builtins from
      Relocates.unmoved behind closed.builtins]
  unfold growth
  simp only [Gap.widen_drop grows.texts, Gap.widen_drop grows.lists, Gap.widen_drop grows.objects,
    Gap.widen_drop grows.functions, Gap.widen_drop grows.builtins, Gap.widen_drop grows.nodes]

end Relocation

/-- What is done with the further cells comes to the same result, or gives up. -/
theorem Transfer.Tracked.gaveUp_or_result {t : Transfer} {state : State} {α : Type} [Relocates α]
    {first second : EStateM.Result Failure State α} (tracked : Tracked t state first second) :
    (∃ failure left, t.givesUp failure ∧ second = .error failure left) ∨
      second = t.relocation.result first := by
  cases tracked with
  | ok passes suits held => exact .inr rfl
  | error passes suits => exact .inr rfl
  | gaveUp gives => exact .inl ⟨_, _, gives, rfl⟩

/-- What never gives up comes to the same result with the further cells. -/
theorem State.Closed.relocated {state : State} {α : Type} [Relocates α] {first second : Eval α}
    (closed : state.Closed) {r : Relocation} (starts : r.start ≤ state.heap.extent)
    (tracks : (Transfer.mk r (fun _ => False) fun _ => id).Tracks state first second) :
    second (r.state state) = r.result (first state) :=
  (tracks (closed.suits starts)).gaveUp_or_result.resolve_left fun ⟨_, _, gives, _⟩ => gives

/-- If no call is counted besides, evaluation does with further cells what it does without them. -/
theorem State.Closed.run_relocated {state : State} (closed : state.Closed) {host : Host}
    (unaware : host.Unaware) {r : Relocation} (uncounted : r.calls = 0)
    (starts : r.start ≤ state.heap.extent) (bound : Nat) {request : Request}
    (held : Held state.heap request) :
    Eval.run host bound (relocate r request) (r.state state) =
      r.result (Eval.run host bound request state) :=
  closed.relocated starts
    (Transfer.agree_uncounted (t := ⟨r, fun _ => False, fun _ => id⟩) uncounted unaware bound
      request state held)

theorem State.Closed.grown {state : State} (closed : state.Closed) {heap : Heap}
    (grows : state.heap.Grows heap) (calls : Nat) :
    (Relocation.growth state.heap heap calls).state state =
      { state with heap := heap, depth := state.depth + calls } := by
  have behind : state.heap.extent ≤ (Relocation.growth state.heap heap calls).start := .refl _
  unfold Relocation.state
  rw [Relocation.heap_growth closed.heap grows, Relocates.unmoved behind closed.scope,
    Relocates.unmoved behind closed.outer]
  rfl

/-- Cells behind all others make no difference to evaluation. -/
theorem State.Closed.run_grown {state : State} (closed : state.Closed) {host : Host}
    (unaware : host.Unaware) {heap : Heap} (grows : state.heap.Grows heap) (bound : Nat)
    {request : Request} (held : Held state.heap request) :
    Eval.run host bound request { state with heap := heap } =
      (Relocation.growth state.heap heap 0).result (Eval.run host bound request state) := by
  have same :=
    closed.run_relocated unaware (r := .growth state.heap heap 0) rfl (.refl _) bound held
  rwa [Relocates.unmoved (.refl _) held, closed.grown grows 0] at same

/-! ## Surrounding programs -/

theorem Host.unaware_commandLine (files : CommandLine.Files) :
    Unaware (CommandLine.host files) := by
  intro t first second agree name arguments state held
  unfold CommandLine.host
  refine .ite (.read fun suits => ?_) ?_
  · have shown : (relocate t.relocation arguments).map (t.relocation.heap state.heap).display =
        arguments.map state.heap.display := by
      rw [Relocation.relocate_items, List.map_map]
      exact List.map_congr_left fun value member => suits.fits.display (held value member)
    have last : (relocate t.relocation arguments).getLastD .zero =
        relocate t.relocation (arguments.getLastD .zero) := by
      rw [List.getLastD_eq_getLast?, List.getLastD_eq_getLast?, Relocation.relocate_items,
        List.getLast?_map]
      cases arguments.getLast? <;> rfl
    have heldLast : state.heap.Holds (arguments.getLastD .zero) := by
      rw [List.getLastD_eq_getLast?]
      cases found : arguments.getLast? with
      | none => trivial
      | some value => exact held value (List.mem_of_getLast? found)
    dsimp only
    rw [show (t.relocation.state state).heap = t.relocation.heap state.heap from rfl, shown, last]
    have printed (text : String) {value : Value} (held : state.heap.Holds value) :
        t.Tracks state
          (do Eval.emit (.line text); return value)
          (do Eval.emit (.line text); return relocate t.relocation value) :=
      .bind (.emit _) fun _ _ passes _ => .pure rfl (held.later passes.heap)
    exact printed _ heldLast
  · match arguments with
    | [argument] =>
        refine .ite ?_ ?_
        · refine .bind (.onHeap (.text argument _)) fun path _ _ _ => ?_
          rw [Relocation.relocate_plain]
          split
          · exact agree (.source _) _ trivial
          · exact .fail rfl
          · exact .throw _
        · exact .outcome (by simp) fun seconds => .outcome (by simp) fun length =>
            .bind (.emit _) fun _ _ _ _ => .pure rfl trivial
    | [] => exact .fail rfl
    | _ :: _ :: _ => exact .fail (by simp)

theorem Host.unaware_noHost : Unaware Library.noHost := fun _ _ _ _ _ _ _ _ => .fail rfl

/-! ## The standard library -/

namespace Library

open OnHeap (Tracks)

variable {r : Relocation} {heap : Heap}

theorem tracks_register {scope : Scope} (name : String) {action : Action}
    (held : Held heap scope) (heldAction : Held heap action) :
    Tracks r heap (register scope name action)
      (register (relocate r scope) name (relocate r action)) :=
  .bind (.newBuiltin rfl heldAction) fun _ _ within heldBuiltin =>
    .pure (Relocation.bind_relocate _ _ _ _).symm
      (Relocation.held_bind (Relocates.later within held) heldBuiltin)

theorem tracks_nativeScope : Tracks r heap nativeScope nativeScope := by
  have registered (entries : List (String × Native)) {heap : Heap} {scope : Scope}
      (held : Held heap scope) : Tracks r heap
        (entries.foldlM (fun scope entry => register scope entry.1 (.native entry.2)) scope)
        (entries.foldlM (fun scope entry => register scope entry.1 (.native entry.2))
          (relocate r scope)) := by
    induction entries generalizing scope heap with
    | nil => exact .pure rfl held
    | cons entry rest inductionHypothesis =>
        have native : Held heap (Action.native entry.2) := trivial
        exact .bind (tracks_register entry.1 held native)
          fun scope _ _ heldScope => inductionHypothesis heldScope
  have held : Held heap Scope.empty :=
    ⟨fun _ _ found => (by cases found), fun _ _ found => (by cases found)⟩
  refine .bind (registered Native.catalogue held) fun scope later _ heldScope => .pure ?_ ?_
  · rw [Relocation.bind_relocate, Relocation.bind_relocate]
    rfl
  · have number (real : Float) : later.Holds (.ofReal real) := trivial
    exact Relocation.held_bind (Relocation.held_bind heldScope (number _)) (number _)

/-- A program finds no dangling handles when it starts with the standard library. -/
theorem closed_useStandard : (useStandard.after (.initial .empty .empty)).Closed := by
  refine (State.Closed.initial.of_tracks fun t uncounted => ?_).1
  have evaluated (interpreter : Interpreter) (agree : t.Agree interpreter interpreter)
      (state : State) (text : String) : t.Tracks state
        (do useNative; discard (interpreter.evaluate text))
        (do useNative; discard (interpreter.evaluate text)) := by
    refine .bind (.bind (.onHeap tracks_nativeScope) fun scope _ _ held =>
      .modifyScope rfl fun _ => held) fun _ reached _ _ => ?_
    exact .discard (agree (.source text) reached trivial)
  exact evaluated (Eval.interpreter noHost)
    (t.agree_uncounted uncounted Host.unaware_noHost Eval.startBound) _ Prelude.source

end Library

end Fixity
