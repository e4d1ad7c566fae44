import Fixity.Proofs.Builtins
import Fixity.Proofs.Comparison

/-!
Contract: evaluation in states with further cells.

Owns:
- `Transfer`, a relocation and the failures with which evaluation in such a state may give up;
- `Transfer.Tracks`: in the state with the further cells one action does what another one does
  without them, or gives up; no cell is lost on the way, no handle comes to dangle, and calls are
  counted as before;
- the ways of putting actions together, and the brackets of evaluation, that keep this.

Does not own: the rules of evaluation.
-/

namespace Fixity

open Eval

instance : Relocates Request where
  relocate r
    | .application callee arguments => .application (relocate r callee) (relocate r arguments)
    | .scopedApplication steps callee arguments =>
        .scopedApplication steps (relocate r callee) (relocate r arguments)
    | other => other
  Held heap
    | .application callee arguments => Held heap callee ∧ Held heap arguments
    | .scopedApplication _ callee arguments => Held heap callee ∧ Held heap arguments
    | _ => True
  later := by
    intro heap heap' request within held
    cases request with
    | application callee arguments =>
        exact ⟨Relocates.later within held.1, Relocates.later within held.2⟩
    | scopedApplication steps callee arguments =>
        exact ⟨Relocates.later within held.1, Relocates.later within held.2⟩
    | _ => trivial
  unmoved := by
    intro r heap request behind held
    cases request with
    | application callee arguments =>
        exact congr (congrArg Request.application (Relocates.unmoved behind held.1))
          (Relocates.unmoved behind held.2)
    | scopedApplication steps callee arguments =>
        exact congr (congrArg (Request.scopedApplication steps)
          (Relocates.unmoved behind held.1)) (Relocates.unmoved behind held.2)
    | _ => rfl

/-- No cell is lost on the way, and as many calls are under way as before. -/
structure State.Passes (earlier later : State) : Prop where
  heap : earlier.heap.Within later.heap
  depth : later.depth = earlier.depth

theorem State.Passes.refl (state : State) : state.Passes state := ⟨.refl _, rfl⟩

theorem State.Passes.trans {first second third : State} (earlier : first.Passes second)
    (later : second.Passes third) : first.Passes third :=
  ⟨earlier.heap.trans later.heap, later.depth.trans earlier.depth⟩

/-- A relocation, and the failures with which evaluation under it may give up. -/
structure Transfer where
  relocation : Relocation
  givesUp : Failure → Prop
  /-- Programs can recover from errors of the language. -/
  recoverable : ∀ error, ¬ givesUp (.error error)

namespace Transfer

variable {t : Transfer} {state : State} {α β γ : Type} [Relocates α] [Relocates β]

/-- From a state on, two actions have come to the same result, the second one with the further
cells, or the second one has given up. -/
inductive Tracked (t : Transfer) (state : State) :
    EStateM.Result Failure State α → EStateM.Result Failure State α → Prop
  | ok {value : α} {reached : State} (passes : state.Passes reached)
      (suits : t.relocation.Suits reached) (held : Held reached.heap value) :
      Tracked t state (.ok value reached)
        (.ok (relocate t.relocation value) (t.relocation.state reached))
  | error {failure : Failure} {reached : State} (passes : state.Passes reached)
      (suits : t.relocation.Suits reached) :
      Tracked t state (.error failure reached) (.error failure (t.relocation.state reached))
  | gaveUp {result : EStateM.Result Failure State α} {failure : Failure} {left : State}
      (gives : t.givesUp failure) : Tracked t state result (.error failure left)

theorem Tracked.since {earlier : State} {result result' : EStateM.Result Failure State α}
    (passes : earlier.Passes state) (tracked : Tracked t state result result') :
    Tracked t earlier result result' := by
  cases tracked with
  | ok further suits held => exact .ok (passes.trans further) suits held
  | error further suits => exact .error (passes.trans further) suits
  | gaveUp gives => exact .gaveUp gives

/-- If a state can take the further cells, the second action does with them what the first one does
without, or gives up. -/
def Tracks (t : Transfer) (state : State) (first second : Eval α) : Prop :=
  t.relocation.Suits state → Tracked t state (first state) (second (t.relocation.state state))

/-- One interpreter does with the further cells what another one does without, whatever they are
asked for. -/
def Agree (t : Transfer) (first second : Interpreter) : Prop :=
  ∀ request state, Held state.heap request →
    t.Tracks state (first request) (second (relocate t.relocation request))

namespace Tracks

theorem pure {value value' : α} (same : value' = relocate t.relocation value)
    (held : Held state.heap value) : t.Tracks state (pure value) (pure value') := by
  subst same
  exact fun suits => .ok (.refl _) suits held

theorem throw (failure : Failure) :
    t.Tracks state (throw failure : Eval α) (throw failure) :=
  fun suits => .error (.refl _) suits

theorem fail {error error' : RuntimeError} (same : error' = error) :
    t.Tracks state (Eval.fail error : Eval α) (Eval.fail error') := by
  subst same
  exact throw _

theorem bind {first second : Eval α} {next next' : α → Eval β}
    (tracks : t.Tracks state first second)
    (continued : ∀ value reached, state.Passes reached → Held reached.heap value →
      t.Tracks reached (next value) (next' (relocate t.relocation value))) :
    t.Tracks state (first >>= next) (second >>= next') := by
  intro suits
  have tracked := tracks suits
  generalize ran : first state = result at tracked
  generalize ran' : second (t.relocation.state state) = result' at tracked
  cases tracked with
  | ok passes suits held =>
      rw [bind_of_ok ran, bind_of_ok ran']
      exact (continued _ _ passes held suits).since passes
  | error passes suits =>
      rw [bind_of_error ran, bind_of_error ran']
      exact .error passes suits
  | gaveUp gives =>
      rw [bind_of_error ran']
      exact .gaveUp gives

/-! ## Reading -/

/-- What comes after a look at the state may depend on it. -/
theorem read {next next' : State → Eval β}
    (continued : t.relocation.Suits state →
      t.Tracks state (next state) (next' (t.relocation.state state))) :
    t.Tracks state (get >>= next) (get >>= next') :=
  fun suits => continued suits suits

theorem readScope {next next' : Scope → Eval β}
    (continued : Held state.heap state.scope →
      t.Tracks state (next state.scope) (next' (relocate t.relocation state.scope))) :
    t.Tracks state (Eval.scope >>= next) (Eval.scope >>= next') :=
  fun suits => continued suits.scope suits

theorem readLevels {next next' : Syntax.Levels → Eval β}
    (continued : ∀ levels, t.Tracks state (next levels) (next' levels)) :
    t.Tracks state (levels >>= next) (levels >>= next') :=
  fun suits => continued state.scope.operators.levels suits

/-- What does not depend on the state is the same on both sides. -/
theorem outcome {outcome outcome' : Outcome γ} {next next' : γ → Eval β}
    (same : outcome' = outcome)
    (continued : ∀ content, t.Tracks state (next content) (next' content)) :
    t.Tracks state (Eval.ofOutcome outcome >>= next) (Eval.ofOutcome outcome' >>= next') := by
  subst same
  cases outcome' with
  | ok content => exact continued content
  | error error => exact fun suits => .error (.refl _) suits

theorem ite {condition : Prop} [Decidable condition] {first first' second second' : Eval α}
    (whenTrue : t.Tracks state first second) (whenFalse : t.Tracks state first' second') :
    t.Tracks state (if condition then first else first')
      (if condition then second else second') := by
  split
  · exact whenTrue
  · exact whenFalse

theorem discard {first second : Eval α} (tracks : t.Tracks state first second) :
    t.Tracks state (discard first) (discard second) := by
  unfold Functor.discard Functor.mapConst
  exact .bind tracks fun _ _ _ _ => .pure rfl trivial

theorem mapM {first second : α → Eval β} {items items' : List α}
    (same : items' = relocate t.relocation items) (held : Held state.heap items)
    (each : ∀ item ∈ items, ∀ reached, state.Passes reached → Held reached.heap item →
      t.Tracks reached (first item) (second (relocate t.relocation item))) :
    t.Tracks state (items.mapM first) (items'.mapM second) := by
  subst same
  induction items generalizing state with
  | nil => exact .pure rfl fun _ member => by cases member
  | cons item rest inductionHypothesis =>
      obtain ⟨here, others⟩ := List.forall_mem_cons.mp held
      rw [Relocation.relocate_items, List.mapM_cons, List.map_cons, List.mapM_cons]
      refine .bind (each item List.mem_cons_self state (.refl _) here)
        fun value later passes heldValue => .bind
          (inductionHypothesis (Relocates.later passes.heap others)
            fun other member further passes' => each other (List.mem_cons_of_mem _ member) further
              (passes.trans passes')) fun values further passes' heldValues => ?_
      exact .pure rfl
        (Relocation.held_cons (Relocates.later passes'.heap heldValue) heldValues)

theorem forM {first second : α → Eval Unit} {items items' : List α}
    (same : items' = relocate t.relocation items) (held : Held state.heap items)
    (each : ∀ item ∈ items, ∀ reached, state.Passes reached → Held reached.heap item →
      t.Tracks reached (first item) (second (relocate t.relocation item))) :
    t.Tracks state (items.forM first) (items'.forM second) := by
  subst same
  induction items generalizing state with
  | nil => exact .pure rfl trivial
  | cons item rest inductionHypothesis =>
      obtain ⟨here, others⟩ := List.forall_mem_cons.mp held
      exact .bind (each item List.mem_cons_self state (.refl _) here) fun _ _ passes _ =>
        inductionHypothesis (Relocates.later passes.heap others) fun other member further passes' =>
          each other (List.mem_cons_of_mem _ member) further (passes.trans passes')

/-! ## Elementary actions -/

theorem onHeap {action action' : OnHeap α}
    (tracks : action.Tracks t.relocation state.heap action') :
    t.Tracks state (Eval.onHeap action) (Eval.onHeap action') := by
  intro suits
  have tracked := tracks suits.fits
  generalize ran : action state.heap = result at tracked
  generalize ran' : action' (t.relocation.heap state.heap) = result' at tracked
  cases tracked with
  | @ok value later within fits held =>
      rw [onHeap_of_ok ran, onHeap_of_ok ran']
      have passes : state.Passes { state with heap := later } := ⟨within, rfl⟩
      exact .ok passes
        ⟨fits, Relocates.later within suits.scope, Relocates.later within suits.outer⟩ held
  | @error error later within fits =>
      rw [onHeap_of_error ran, onHeap_of_error ran']
      have passes : state.Passes { state with heap := later } := ⟨within, rfl⟩
      exact .error passes
        ⟨fits, Relocates.later within suits.scope, Relocates.later within suits.outer⟩

theorem modifyScope {change change' : Scope → Scope}
    (same : relocate t.relocation (change state.scope) =
      change' (relocate t.relocation state.scope))
    (keeps : Held state.heap state.scope → Held state.heap (change state.scope)) :
    t.Tracks state (modifyScope change) (modifyScope change') := by
  intro suits
  show Tracked t state (.ok () { state with scope := change state.scope })
    (.ok () { t.relocation.state state with scope := change' (relocate t.relocation state.scope) })
  rw [← same]
  have passes : state.Passes { state with scope := change state.scope } := ⟨.refl _, rfl⟩
  exact .ok passes ⟨suits.fits, keeps suits.scope, suits.outer⟩ trivial

theorem emit (effect : Effect) : t.Tracks state (emit effect) (emit effect) := by
  have passes : state.Passes { state with effects := state.effects.push effect } :=
    ⟨.refl _, rfl⟩
  exact fun suits => .ok passes ⟨suits.fits, suits.scope, suits.outer⟩ trivial

theorem defineOperator (definition : Syntax.Definition) {implementation : Implementation}
    (held : Held state.heap implementation) :
    t.Tracks state (defineOperator definition implementation)
      (defineOperator definition (relocate t.relocation implementation)) := by
  refine .readScope fun heldScope => ?_
  rw [Relocation.define_relocate]
  cases defines : state.scope.define definition implementation with
  | ok scope =>
      have heldToo := Relocation.held_define heldScope held defines
      show t.Tracks state (Eval.modifyScope fun _ => scope)
        (Eval.modifyScope fun _ => relocate t.relocation scope)
      exact .modifyScope rfl fun _ => heldToo
  | error error => exact .fail rfl

end Tracks

/-! ## Brackets -/

/-- What a bracket has to show: what is inside of it is the same with the further cells, and so is
its way out, which leaves the heap alone. -/
theorem Tracks.ensuring {first second whole whole' : Eval α} {entry : State}
    {leave leave' : State → State}
    (goesIn : whole state = Eval.ensuring first leave entry)
    (goesInToo : whole' (t.relocation.state state) =
      Eval.ensuring second leave' (t.relocation.state entry))
    (sameHeap : entry.heap = state.heap)
    (heldEntry : t.relocation.Suits state →
      Held state.heap entry.scope ∧ Held state.heap entry.outer)
    (tracks : t.Tracks entry first second)
    (after : ∀ reached, (leave reached).heap = reached.heap)
    (left : ∀ reached, t.relocation.Suits state → state.heap.Within reached.heap →
      reached.depth = entry.depth → t.relocation.Suits reached →
        leave' (t.relocation.state reached) = t.relocation.state (leave reached) ∧
          (leave reached).depth = state.depth ∧
            Held reached.heap (leave reached).scope ∧ Held reached.heap (leave reached).outer) :
    t.Tracks state whole whole' := by
  intro suits
  have tracked := tracks ⟨sameHeap ▸ suits.fits, sameHeap ▸ (heldEntry suits).1,
    sameHeap ▸ (heldEntry suits).2⟩
  have leaves (reached : State) (passes : entry.Passes reached)
      (inside : t.relocation.Suits reached) :
      leave' (t.relocation.state reached) = t.relocation.state (leave reached) ∧
        state.Passes (leave reached) ∧ t.relocation.Suits (leave reached) := by
    have within : state.heap.Within reached.heap := sameHeap ▸ passes.heap
    obtain ⟨same, depth, scope, outer⟩ := left reached suits within passes.depth inside
    have unchanged := after reached
    exact ⟨same, ⟨unchanged.symm ▸ within, depth⟩,
      ⟨unchanged.symm ▸ inside.fits, unchanged.symm ▸ scope, unchanged.symm ▸ outer⟩⟩
  rw [goesIn, goesInToo]
  unfold Eval.ensuring
  generalize first entry = result at tracked
  generalize second (t.relocation.state entry) = result' at tracked
  cases tracked with
  | @ok value reached passes inside held =>
      obtain ⟨same, leads, suited⟩ := leaves reached passes inside
      dsimp only
      rw [same]
      exact .ok leads suited ((after reached).symm ▸ held)
  | @error failure reached passes inside =>
      obtain ⟨same, leads, suited⟩ := leaves reached passes inside
      dsimp only
      rw [same]
      exact .error leads suited
  | gaveUp gives => exact .gaveUp gives

theorem Tracks.withNames {named named' : List (String × Value)} {first second : Eval α}
    (same : named' = relocate t.relocation named) (held : Held state.heap named)
    (tracks : t.Tracks { state with scope := state.scope.pushAll named } first second) :
    t.Tracks state (withNames named first) (withNames named' second) := by
  subst same
  let entry : State := { state with scope := state.scope.pushAll named }
  have goesIn : Eval.withNames (relocate t.relocation named) second (t.relocation.state state) =
      Eval.ensuring second
        (fun state => { state with
          scope := state.scope.popAll ((relocate t.relocation named).map (·.1)) })
        (t.relocation.state entry) := by
    unfold entry Relocation.state
    rw [Relocation.pushAll_relocate]
    rfl
  have names : (relocate t.relocation named).map (·.1) = named.map (·.1) := by
    simp [Function.comp_def]
  refine .ensuring rfl goesIn rfl (fun suits => ⟨Relocation.held_pushAll suits.scope held,
    suits.outer⟩) tracks (fun _ => rfl) fun reached _ _ depth suits => ⟨?_, depth,
      Relocation.held_popAll suits.scope _, suits.outer⟩
  unfold Relocation.state
  dsimp only
  rw [names, Relocation.popAll_relocate]

private theorem heap_afterScope (state : State) : (leaveScope state).heap = state.heap := by
  unfold leaveScope
  split <;> rfl

theorem Tracks.inChild {closure closure' : Bindings} {first second : Eval α}
    (same : closure' = relocate t.relocation closure) (held : Held state.heap closure)
    (tracks : t.Tracks (state.inward closure) first second) :
    t.Tracks state (inChild closure first) (inChild closure' second) := by
  subst same
  have goesIn : Eval.inChild (relocate t.relocation closure) second (t.relocation.state state) =
      Eval.ensuring second leaveScope (t.relocation.state (state.inward closure)) := by
    unfold State.inward Relocation.state
    rw [Relocation.child_relocate]
    rfl
  refine .ensuring rfl goesIn rfl (fun suits => ⟨Relocation.held_child suits.scope held,
    Relocation.held_cons suits.scope suits.outer⟩) tracks heap_afterScope
    fun reached _ _ depth suits => ?_
  have outside := suits.outer
  unfold leaveScope
  cases around : reached.outer with
  | nil =>
      have none : (t.relocation.state reached).outer = [] := congrArg (List.map _) around
      rw [none]
      exact ⟨rfl, depth, suits.scope, suits.outer⟩
  | cons scope outer =>
      have some : (t.relocation.state reached).outer =
          relocate t.relocation scope :: outer.map (relocate t.relocation) :=
        congrArg (List.map _) around
      rw [some]
      rw [around] at outside
      exact ⟨rfl, depth, List.forall_mem_cons.mp outside⟩

theorem ascend_relocate (r : Relocation) (steps : Nat) (scope : Scope) (outer : List Scope) :
    ascend steps (relocate r scope) (relocate r outer) =
      (relocate r (ascend steps scope outer).1, relocate r (ascend steps scope outer).2.1,
        relocate r (ascend steps scope outer).2.2) := by
  induction steps generalizing scope outer with
  | zero => rfl
  | succ steps inductionHypothesis =>
      cases outer with
      | nil => rfl
      | cons next outer =>
          unfold ascend
          rw [Relocation.relocate_items, List.map_cons]
          dsimp only
          rw [← Relocation.relocate_items, inductionHypothesis next outer]
          rfl

theorem held_ascend {heap : Heap} (steps : Nat) {scope : Scope} {outer : List Scope}
    (held : Held heap scope) (heldOuter : Held heap outer) :
    Held heap (ascend steps scope outer).1 ∧ Held heap (ascend steps scope outer).2.1 ∧
      Held heap (ascend steps scope outer).2.2 := by
  have stays : Held heap ([] : List Scope) := fun _ member => by cases member
  induction steps generalizing scope outer with
  | zero => exact ⟨stays, held, heldOuter⟩
  | succ steps inductionHypothesis =>
      cases outer with
      | nil => exact ⟨stays, held, heldOuter⟩
      | cons next outer =>
          obtain ⟨heldNext, others⟩ := List.forall_mem_cons.mp heldOuter
          obtain ⟨aside, found, rest⟩ := inductionHypothesis heldNext others
          exact ⟨Relocation.held_cons held aside, found, rest⟩

private theorem heap_afterAscent (aside : List Scope) (state : State) :
    (putBack aside state).heap = state.heap := by
  cases aside <;> rfl

theorem Tracks.inAncestor {steps : Nat} {first second : Eval α}
    (tracks : t.Tracks (state.outward steps) first second) :
    t.Tracks state (inAncestor steps first) (inAncestor steps second) := by
  have around := ascend_relocate t.relocation steps state.scope state.outer
  have goesIn : Eval.inAncestor steps second (t.relocation.state state) =
      Eval.ensuring second
        (putBack (relocate t.relocation (ascend steps state.scope state.outer).1))
        (t.relocation.state (state.outward steps)) := by
    unfold Eval.inAncestor Relocation.state
    dsimp only
    rw [around]
    rfl
  refine .ensuring rfl goesIn rfl (fun suits => (held_ascend steps suits.scope suits.outer).2)
    tracks (heap_afterAscent _) fun reached before within depth suits => ?_
  have aside := Relocates.later within (held_ascend steps before.scope before.outer).1
  cases found : (ascend steps state.scope state.outer).1 with
  | nil => exact ⟨rfl, depth, suits.scope, suits.outer⟩
  | cons scope others =>
      rw [found] at aside
      obtain ⟨inside, outside⟩ := List.forall_mem_cons.mp aside
      refine ⟨?_, depth, inside, Relocation.held_append outside
        (Relocation.held_cons suits.scope suits.outer)⟩
      unfold putBack Relocation.state
      simp

/-- Calls that are within the limit even with the further ones are counted alike. -/
theorem Tracks.asCall {first second : Eval α}
    (within : state.depth + 1 ≤ maxDepth → state.depth + t.relocation.calls + 1 ≤ maxDepth)
    (tracks : t.Tracks { state with depth := state.depth + 1 } first second) :
    t.Tracks state (asCall first) (asCall second) := by
  by_cases tooDeep : state.depth + 1 > maxDepth
  · have tooDeep' : (t.relocation.state state).depth + 1 > maxDepth := by
      show state.depth + t.relocation.calls + 1 > maxDepth
      omega
    intro suits
    rw [asCall_of_tooDeep tooDeep, asCall_of_tooDeep tooDeep']
    exact .error (.refl _) suits
  · have counted : ¬ (t.relocation.state state).depth + 1 > maxDepth := by
      show ¬ state.depth + t.relocation.calls + 1 > maxDepth
      omega
    let entry : State := { state with depth := state.depth + 1 }
    have goesIn : Eval.asCall second (t.relocation.state state) =
        Eval.ensuring second leaveCall (t.relocation.state entry) := by
      rw [asCall_of_counted counted]
      congr 1
      unfold entry Relocation.state
      congr 1
      dsimp only
      omega
    refine .ensuring (asCall_of_counted tooDeep) goesIn rfl
      (fun suits => ⟨suits.scope, suits.outer⟩) tracks (fun _ => rfl)
      fun reached _ _ depth suits => ⟨?_, ?_, suits.scope, suits.outer⟩
    · unfold leaveCall Relocation.state
      congr 1
      dsimp only at depth ⊢
      omega
    · show reached.depth - 1 = state.depth
      dsimp only at depth
      omega

end Transfer

end Fixity
