import Fixity.Proofs.Comparison
import Fixity.Proofs.Natives

/-!
Contract: evaluation under an insertion.

Owns:
- `Passage`, an insertion and the ways in which evaluation under it may give up;
- `Passage.Follows`: in the state with the insertion, one action does what another one does without
  it, or gives up; this keeps all trees, builtins and the counter of calls;
- the ways of putting actions together, and the brackets of evaluation, that keep this.

Does not own: the rules of evaluation.
-/

namespace Fixity

/-- No tree and no builtin is lost on the way, and as many calls are under way as before. -/
structure State.Reaches (earlier later : State) : Prop where
  heap : earlier.heap.Later later.heap
  depth : later.depth = earlier.depth

theorem State.Reaches.refl (state : State) : state.Reaches state := ⟨.refl _, rfl⟩

theorem State.Reaches.trans {first second third : State} (earlier : first.Reaches second)
    (later : second.Reaches third) : first.Reaches third :=
  ⟨earlier.heap.trans later.heap, later.depth.trans earlier.depth⟩

/-- An insertion, and the failures with which evaluation under it may give up. -/
structure Passage where
  insertion : Insertion
  givesUp : Failure → Prop
  /-- Programs can recover from errors of the language. -/
  recoverable : ∀ error, ¬ givesUp (.error error)

namespace Insertion

def request (insertion : Insertion) : Request → Request
  | .application callee arguments =>
      .application (insertion.value callee) (arguments.map insertion.value)
  | .scopedApplication steps callee arguments =>
      .scopedApplication steps (insertion.value callee) (arguments.map insertion.value)
  | other => other

/-- The result of an evaluation under an insertion. -/
def result {α : Type} [Renumbers α] (insertion : Insertion) :
    EStateM.Result Failure State α → EStateM.Result Failure State α
  | .ok value state => .ok (renumber insertion value) (insertion.state state)
  | .error failure state => .error failure (insertion.state state)

end Insertion

namespace Passage

open Eval

variable {p : Passage} {α β : Type} [Renumbers α] [Renumbers β]

def GaveUp (p : Passage) (result : EStateM.Result Failure State α) : Prop :=
  ∃ failure left, p.givesUp failure ∧ result = .error failure left

/-- From a state on, the first action loses no tree and no builtin, and counts calls as before. The
second one does with the insertion what the first one does without it, or gives up, unless it is
then that the further trees come in. -/
def FollowsAt (p : Passage) (state : State) (first second : Eval α) : Prop :=
  state.Reaches (first.after state) ∧
    (p.insertion.Steady state.heap (first.after state).heap →
      p.GaveUp (second (p.insertion.state state)) ∨
        second (p.insertion.state state) = p.insertion.result (first state))

/-- From every state on, one action follows another. -/
def Follows (p : Passage) (first second : Eval α) : Prop :=
  ∀ state, p.FollowsAt state first second

/-- One interpreter follows another, whatever they are asked for. -/
def Agree (p : Passage) (first second : Interpreter) : Prop :=
  ∀ request, p.Follows (first request) (second (p.insertion.request request))

theorem followsAt_refl {state : State} {first second : Eval α}
    (same : second (p.insertion.state state) = p.insertion.result (first state))
    (unchanged : first.after state = state) : p.FollowsAt state first second := by
  refine ⟨?_, fun _ => .inr same⟩
  rw [unchanged]
  exact .refl state

omit [Renumbers α] [Renumbers β] in
/-- What gives up is not caught by anything that comes after it. -/
theorem GaveUp.bind {second : Eval α} {state : State} (gaveUp : p.GaveUp (second state))
    (next : α → Eval β) : p.GaveUp ((second >>= next) state) := by
  obtain ⟨failure, left, gives, stopped⟩ := gaveUp
  exact ⟨failure, left, gives, bind_of_error stopped⟩

theorem FollowsAt.bind {state : State} {first second : Eval α} {next next' : α → Eval β}
    (follows : p.FollowsAt state first second)
    (continued : ∀ value, p.Follows (next value) (next' (renumber p.insertion value))) :
    p.FollowsAt state (first >>= next) (second >>= next') := by
  obtain ⟨earlier, same⟩ := follows
  unfold FollowsAt Eval.after
  cases ran : first state with
  | ok value middle =>
      rw [after_of_ok ran] at earlier same
      obtain ⟨later, same'⟩ := continued value middle
      rw [bind_of_ok ran]
      refine ⟨earlier.trans later, fun steady => ?_⟩
      obtain ⟨before, afterwards⟩ := steady.of_later earlier.heap later.heap
      obtain gaveUp | same := same before
      · exact .inl (gaveUp.bind next')
      · rw [ran] at same
        rw [bind_of_ok same]
        exact same' afterwards
  | error failure middle =>
      rw [after_of_error ran] at earlier same
      rw [bind_of_error ran]
      refine ⟨earlier, fun steady => ?_⟩
      obtain gaveUp | same := same steady
      · exact .inl (gaveUp.bind next')
      · rw [ran] at same
        exact .inr (bind_of_error same)

/-- Where the second action comes to an end, so does the first one. -/
theorem FollowsAt.of_ok {state reached : State} {first second : Eval α} {value : α}
    (follows : p.FollowsAt state first second)
    (steady : p.insertion.Steady state.heap (first.after state).heap)
    (ran : second (p.insertion.state state) = .ok value reached) :
    ∃ value' reached', first state = .ok value' reached' ∧ state.Reaches reached' ∧
      value = renumber p.insertion value' ∧ reached = p.insertion.state reached' := by
  obtain ⟨passes, followed⟩ := follows
  obtain ⟨_, _, _, stopped⟩ | same := followed steady
  · cases ran.symm.trans stopped
  · rw [ran] at same
    cases ran' : first state with
    | error failure left =>
        rw [ran'] at same
        cases same
    | ok value' reached' =>
        rw [ran'] at same
        rw [after_of_ok ran'] at passes
        injection same with value reached
        exact ⟨value', reached', rfl, passes, value, reached⟩

namespace Follows

theorem pure {value value' : α} (same : value' = renumber p.insertion value) :
    p.Follows (pure value) (pure value') :=
  fun _ => followsAt_refl (by rw [same]; rfl) rfl

theorem throw (failure : Failure) : p.Follows (throw failure : Eval α) (throw failure) :=
  fun _ => followsAt_refl rfl rfl

theorem fail {error error' : RuntimeError} (same : error' = error) :
    p.Follows (Eval.fail error : Eval α) (Eval.fail error') := by
  rw [same]
  exact throw _

theorem bind {first second : Eval α} {next next' : α → Eval β} (follows : p.Follows first second)
    (continued : ∀ value, p.Follows (next value) (next' (renumber p.insertion value))) :
    p.Follows (first >>= next) (second >>= next') :=
  fun state => (follows state).bind continued

/-- What comes after a look at the state may depend on it. -/
theorem read {next next' : State → Eval β}
    (continued : ∀ state, p.FollowsAt state (next state) (next' (p.insertion.state state))) :
    p.Follows (get >>= next) (get >>= next') :=
  fun state => continued state

theorem readScope {next next' : Scope → Eval β}
    (continued : ∀ scope, p.Follows (next scope) (next' (p.insertion.scope scope))) :
    p.Follows (Eval.scope >>= next) (Eval.scope >>= next') :=
  fun state => continued state.scope state

theorem readLevels {next next' : Syntax.Levels → Eval β}
    (continued : ∀ levels, p.Follows (next levels) (next' levels)) :
    p.Follows (levels >>= next) (levels >>= next') :=
  fun state => continued state.scope.operators.levels state

theorem ite {condition : Prop} [Decidable condition] {first first' second second' : Eval α}
    (whenTrue : p.Follows first second) (whenFalse : p.Follows first' second') :
    p.Follows (if condition then first else first') (if condition then second else second') := by
  split
  · exact whenTrue
  · exact whenFalse

theorem discard {first second : Eval α} (follows : p.Follows first second) :
    p.Follows (discard first) (discard second) := by
  unfold Functor.discard Functor.mapConst
  exact .bind follows fun _ => .pure rfl

theorem mapM {first second : α → Eval β} {items items' : List α}
    (same : items' = items.map (renumber p.insertion))
    (each : ∀ item, p.Follows (first item) (second (renumber p.insertion item))) :
    p.Follows (items.mapM first) (items'.mapM second) := by
  subst same
  induction items with
  | nil => exact .pure rfl
  | cons item rest inductionHypothesis =>
      rw [List.mapM_cons, List.map_cons, List.mapM_cons]
      exact .bind (each item) fun _ => .bind inductionHypothesis fun _ => .pure rfl

theorem forM {first second : α → Eval Unit} {items items' : List α}
    (same : items' = items.map (renumber p.insertion))
    (each : ∀ item, p.Follows (first item) (second (renumber p.insertion item))) :
    p.Follows (items.forM first) (items'.forM second) := by
  subst same
  induction items with
  | nil => exact .pure rfl
  | cons item rest inductionHypothesis =>
      exact .bind (each item) fun _ => inductionHypothesis

/-! ## Elementary actions -/

theorem ofOutcome {outcome outcome' : Outcome α}
    (same : outcome' = outcome.map (renumber p.insertion)) :
    p.Follows (ofOutcome outcome) (ofOutcome outcome') := by
  subst same
  cases outcome with
  | ok value => exact .pure rfl
  | error error => exact .fail rfl

theorem onHeap {action action' : OnHeap α} (follows : action.Follows p.insertion action') :
    p.Follows (Eval.onHeap action) (Eval.onHeap action') := by
  intro state
  obtain ⟨later, same⟩ := follows state.heap
  unfold FollowsAt
  rw [after_onHeap]
  refine ⟨⟨later, rfl⟩, fun steady => .inr ?_⟩
  have same := same steady
  unfold OnHeap.renumbered at same
  cases ran : action state.heap with
  | ok value heap =>
      rw [ran] at same
      rw [onHeap_of_ok ran]
      exact onHeap_of_ok same
  | error error heap =>
      rw [ran] at same
      rw [onHeap_of_error ran]
      exact onHeap_of_error same

theorem modifyScope {change change' : Scope → Scope}
    (same : ∀ scope, p.insertion.scope (change scope) = change' (p.insertion.scope scope)) :
    p.Follows (modifyScope change) (modifyScope change') := by
  refine fun state => ⟨⟨.refl _, rfl⟩, fun _ => .inr ?_⟩
  show EStateM.Result.ok () _ = EStateM.Result.ok () _
  unfold Insertion.state
  rw [same]

theorem emit (effect : Effect) : p.Follows (emit effect) (emit effect) :=
  fun _ => ⟨⟨.refl _, rfl⟩, fun _ => .inr rfl⟩

theorem defineOperator (definition : Syntax.Definition) (implementation : Implementation) :
    p.Follows (defineOperator definition implementation)
      (defineOperator definition (p.insertion.implementation implementation)) := by
  refine .readScope fun scope => .bind (.ofOutcome ?_) fun scope' => .modifyScope fun _ => rfl
  exact p.insertion.define_scope scope definition implementation

end Follows

/-! ## Brackets -/

/-- What a bracket has to show: what is inside of it follows from the state it goes in with, and its
way out is the same under the insertion. -/
theorem FollowsAt.ensuring {first second whole whole' : Eval α} {state entry : State}
    {leave leave' : State → State} (entered : p.FollowsAt entry first second)
    (before : entry.heap = state.heap)
    (goesIn : whole state = Eval.ensuring first leave entry)
    (goesInToo : whole' (p.insertion.state state) =
      Eval.ensuring second leave' (p.insertion.state entry))
    (after : ∀ reached, (leave reached).heap = reached.heap)
    (left : ∀ reached, entry.Reaches reached →
      leave' (p.insertion.state reached) = p.insertion.state (leave reached) ∧
        (leave reached).depth = state.depth) :
    p.FollowsAt state whole whole' := by
  obtain ⟨passes, same⟩ := entered
  obtain ⟨leaves, depth⟩ := left _ passes
  have ends : whole.after state = leave (first.after entry) := by
    rw [← after_ensuring first leave entry]
    unfold Eval.after
    rw [goesIn]
  unfold FollowsAt
  rw [ends, after]
  refine ⟨⟨?_, depth⟩, fun steady => ?_⟩
  · rw [after, ← before]
    exact passes.heap
  rw [← before] at steady
  obtain ⟨failure, early, gives, stopped⟩ | same := same steady
  · refine .inl ⟨failure, leave' early, gives, ?_⟩
    rw [goesInToo]
    unfold Eval.ensuring
    rw [stopped]
  · right
    rw [goesIn, goesInToo]
    unfold Eval.ensuring
    rw [same]
    cases ran : first entry with
    | ok value reached =>
        rw [after_of_ok ran] at leaves
        exact congrArg (EStateM.Result.ok _) leaves
    | error failure reached =>
        rw [after_of_error ran] at leaves
        exact congrArg (EStateM.Result.error failure) leaves

theorem Follows.withNames {named named' : List (String × Value)} {first second : Eval α}
    (same : named' = renumber p.insertion named) (follows : p.Follows first second) :
    p.Follows (withNames named first) (withNames named' second) := by
  subst same
  intro state
  let entry : State := { state with scope := state.scope.pushAll named }
  have goesIn : Eval.withNames (renumber p.insertion named) second (p.insertion.state state) =
      Eval.ensuring second
        (fun state => { state with
          scope := state.scope.popAll ((renumber p.insertion named).map (·.1)) })
        (p.insertion.state entry) := by
    unfold entry Insertion.state
    rw [Insertion.pushAll_scope]
    rfl
  have names : (renumber p.insertion named).map (·.1) = named.map (·.1) := by
    simp [Function.comp_def]
  refine (follows entry).ensuring rfl rfl goesIn (fun _ => rfl) fun reached passes =>
    ⟨?_, passes.depth⟩
  unfold Insertion.state
  dsimp only
  rw [names, Insertion.popAll_scope]

theorem heap_leaveScope (state : State) : (leaveScope state).heap = state.heap := by
  unfold leaveScope
  split <;> rfl

theorem Follows.inChild {closure closure' : Bindings} {first second : Eval α}
    (same : closure' = p.insertion.bindings closure) (follows : p.Follows first second) :
    p.Follows (inChild closure first) (inChild closure' second) := by
  subst same
  intro state
  have goesIn : Eval.inChild (p.insertion.bindings closure) second (p.insertion.state state) =
      Eval.ensuring second leaveScope (p.insertion.state (state.inward closure)) := by
    unfold State.inward Insertion.state
    rw [Insertion.child_scope]
    rfl
  refine (follows (state.inward closure)).ensuring rfl rfl goesIn heap_leaveScope
    fun reached passes => ?_
  unfold leaveScope
  cases around : reached.outer with
  | nil =>
      have none : (p.insertion.state reached).outer = [] := congrArg (List.map _) around
      rw [none]
      exact ⟨rfl, passes.depth⟩
  | cons scope outer =>
      have some : (p.insertion.state reached).outer =
          p.insertion.scope scope :: outer.map p.insertion.scope := congrArg (List.map _) around
      rw [some]
      exact ⟨rfl, passes.depth⟩

theorem ascend_scope (insertion : Insertion) (steps : Nat) (scope : Scope) (outer : List Scope) :
    ascend steps (insertion.scope scope) (outer.map insertion.scope) =
      ((ascend steps scope outer).1.map insertion.scope,
        insertion.scope (ascend steps scope outer).2.1,
        (ascend steps scope outer).2.2.map insertion.scope) := by
  induction steps generalizing scope outer with
  | zero => rfl
  | succ steps inductionHypothesis =>
      cases outer with
      | nil => rfl
      | cons next outer =>
          unfold ascend
          rw [List.map_cons]
          dsimp only
          rw [inductionHypothesis next outer]
          rfl

theorem heap_putBack (aside : List Scope) (state : State) :
    (putBack aside state).heap = state.heap := by
  cases aside <;> rfl

theorem FollowsAt.inAncestor {steps : Nat} {first second : Eval α} {state : State}
    (follows : p.FollowsAt (state.outward steps) first second) :
    p.FollowsAt state (inAncestor steps first) (inAncestor steps second) := by
  have around := ascend_scope p.insertion steps state.scope state.outer
  have goesIn : Eval.inAncestor steps second (p.insertion.state state) =
      Eval.ensuring second
        (putBack ((ascend steps state.scope state.outer).1.map p.insertion.scope))
        (p.insertion.state (state.outward steps)) := by
    unfold Eval.inAncestor Insertion.state
    dsimp only
    rw [around]
    rfl
  refine follows.ensuring rfl rfl goesIn (heap_putBack _) fun reached passes => ?_
  cases (ascend steps state.scope state.outer).1 with
  | nil => exact ⟨rfl, passes.depth⟩
  | cons scope others =>
      refine ⟨?_, passes.depth⟩
      unfold putBack Insertion.state
      simp

/-- Calls that are within the limit even with the further ones are counted alike. -/
theorem FollowsAt.asCall {first second : Eval α} {state : State}
    (within : state.depth + 1 ≤ maxDepth → state.depth + p.insertion.calls + 1 ≤ maxDepth)
    (follows : p.Follows first second) : p.FollowsAt state (asCall first) (asCall second) := by
  by_cases tooDeep : state.depth + 1 > maxDepth
  · have tooDeep' : (p.insertion.state state).depth + 1 > maxDepth := by
      show state.depth + p.insertion.calls + 1 > maxDepth
      omega
    have refused : Eval.asCall first state = .error (.error (.recursionLimit maxDepth)) state :=
      asCall_of_tooDeep tooDeep
    refine followsAt_refl ?_ (after_of_error refused)
    rw [refused]
    exact asCall_of_tooDeep tooDeep'
  · have counted : ¬ (p.insertion.state state).depth + 1 > maxDepth := by
      show ¬ state.depth + p.insertion.calls + 1 > maxDepth
      omega
    let entry : State := { state with depth := state.depth + 1 }
    have goesIn : Eval.asCall second (p.insertion.state state) =
        Eval.ensuring second leaveCall (p.insertion.state entry) := by
      rw [asCall_of_counted counted]
      congr 1
      unfold entry Insertion.state
      congr 1
      dsimp only
      omega
    refine (follows entry).ensuring rfl (asCall_of_counted tooDeep) goesIn (fun _ => rfl)
      fun reached passes => ?_
    have depth : reached.depth = state.depth + 1 := passes.depth
    refine ⟨?_, ?_⟩
    · unfold leaveCall Insertion.state
      congr 1
      dsimp only
      omega
    · show reached.depth - 1 = state.depth
      omega

end Passage

end Fixity
