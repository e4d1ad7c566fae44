import Fixity.Proofs.Watch

/-!
Contract: the count of the calls that are under way.

Owns:
- `Watch.depth`, which counts the applications of functions in progress on its own and forbids every
  request in a state whose counter says anything else, or too much;
- `Eval.run_depth`: this never happens; the counter is back where it started when an evaluation
  ends; and where the counter is at its limit, no function is applied;
- `Eval.Unlimited`, the evaluations that do not reach the limit, and `Eval.unlimited_of_bound`.
-/

namespace Fixity

open Eval

/-- The counter of a state counts the applications in progress, from a given start on, and is within
the limit unless it started beyond. -/
def Comparison.depth (start count : Nat) : Comparison where
  Valid state := state.depth = start + count ∧ state.depth ≤ max start maxDepth
  Related before after := after.depth = before.depth
  mayStop := False

/-- Counts applications in progress; whatever is to be done in a state whose counter differs from
that, or is beyond the limit, is replaced by something else. -/
def Watch.depth (start : Nat) (instead : Eval Value) : Watch Nat where
  forbidden count _ state := state.depth ≠ start + count ∨ max start maxDepth < state.depth
  applied count := count + 1
  outward count _ _ := count
  instead := instead

namespace Comparison

theorem depth_putBack (aside : List Scope) (state : State) :
    (putBack aside state).depth = state.depth := by
  cases aside <;> rfl

theorem depth_leaveScope (state : State) : (leaveScope state).depth = state.depth := by
  unfold leaveScope
  split <;> rfl

theorem depth_lawful (start count : Nat) : (depth start count).Lawful where
  refl _ := rfl
  trans earlier later := later.trans earlier
  valid := by
    intro before after ⟨counted, within⟩ (same : after.depth = before.depth)
    unfold depth
    dsimp only
    rw [same]
    exact ⟨counted, within⟩
  heap _ _ := rfl
  effects _ _ := rfl
  nextName _ _ := rfl
  bind _ _ _ := rfl
  define _ _ := rfl
  withNames named holds := by
    intro state valid
    exact holdsAt_withNames (holds _ valid) id fun _ same => same

theorem holdsAt_outward {start count steps : Nat} {first second : Eval Value} {state : State}
    (holds : (depth start count).HoldsAt (state.outward steps) first second) :
    (depth start count).HoldsAt state (inAncestor steps first) (inAncestor steps second) :=
  holdsAt_inAncestor holds id fun reached same => (depth_putBack _ reached).trans same

end Comparison

/-- The counter never differs from the number of applications in progress. -/
theorem Watch.depth_allows (start : Nat) (instead : Eval Value) :
    (Watch.depth start instead).Allows (Comparison.depth start) where
  lawful := Comparison.depth_lawful start
  stops := by
    intro count request state ⟨counted, within⟩ forbidden
    rcases of_decide_eq_true forbidden with differs | beyond
    · exact absurd counted differs
    · omega
  remove valid _ _ :=
    (Comparison.depth_lawful start _).regular.keeps_delete (fun _ _ => rfl) _ _ valid
  applied := by
    intro count state ⟨counted, within⟩ room
    show state.depth + 1 = start + (count + 1) ∧ state.depth + 1 ≤ max start maxDepth
    omega
  asCall := by
    intro count state first second valid entered
    apply Comparison.holdsAt_asCall rfl entered id
    intro reached (same : reached.depth = state.depth + 1)
    show reached.depth - 1 = state.depth
    omega
  inChild handle valid holds :=
    Comparison.holdsAt_inChild (holds _ valid) id
      fun reached same => (Comparison.depth_leaveScope reached).trans same
  outward valid _ := valid
  removeOutward there _ _ :=
    (Comparison.depth_lawful start _).regular.keeps_delete (fun _ _ => rfl) _ _ there
  inAncestor _ _ holds := Comparison.holdsAt_outward holds

namespace Eval

/-- Where the counter is at its limit, the application of a function fails and changes nothing. Too
few or too many arguments are found out first. -/
theorem call_of_limit (host : Host) (interpreter : Interpreter) (fresh : Bool) (handle : Nat)
    (arguments : List Value) {state : State} (limit : state.depth = maxDepth) :
    call host interpreter fresh (.function handle) arguments state =
      .error (.error
        (if (state.heap.function handle).accepts arguments.length then .recursionLimit maxDepth
        else .argumentCount (state.heap.function handle).arity arguments.length)) state := by
  show (if (state.heap.function handle).accepts arguments.length then asCall _
    else fail _ : Eval Value) state = _
  split
  · exact asCall_of_tooDeep (by omega)
  · rfl

/-- One call too many, but with too few arguments: nothing is said of the limit. -/
theorem argumentCount_of_limit :
    let identity : Function := ⟨["x"], .identifier "x", ∅, false, []⟩
    let heap : Heap := { Heap.empty with functions := #[identity] }
    let state : State := { State.initial .empty heap with depth := maxDepth }
    run Library.noHost 1 (.application (.function 0) []) state =
        .error (.error (.argumentCount "1" 0)) state ∧
      run Library.noHost 1 (.application (.function 0) []) state ≠
        .error (.error (.recursionLimit maxDepth)) state := by
  intro identity heap state
  have limit : state.depth = maxDepth := rfl
  have refused : run Library.noHost 1 (.application (.function 0) []) state =
      .error (.error (.argumentCount "1" 0)) state := by
    have unaccepted : ¬ identity.accepts 0 := by decide
    have arity : identity.arity = "1" := by decide
    have failed : run Library.noHost 1 (.application (.function 0) []) state =
        .error (.error (if identity.accepts 0 then .recursionLimit maxDepth
          else .argumentCount identity.arity 0)) state :=
      call_of_limit Library.noHost (run Library.noHost 0) true 0 [] limit
    rw [failed, if_neg unaccepted, arity]
  constructor
  · exact refused
  · rw [refused]
    intro same
    cases same

theorem inAncestor_of_unchanged {steps : Nat} {action : Eval Value} {failure : Failure}
    {state : State}
    (refused : action (state.outward steps) = .error failure (state.outward steps)) :
    inAncestor steps action state = .error failure state := by
  show ensuring action (putBack (ascend steps state.scope state.outer).1) (state.outward steps) = _
  unfold ensuring
  rw [refused]
  exact congrArg (EStateM.Result.error failure) (State.back_outward steps state)

theorem recovering_of_error {attempt fallback : Eval Value} {state failed : State}
    {error : RuntimeError} (ran : attempt state = .error (.error error) failed) :
    Reflection.recovering attempt fallback state = fallback failed := by
  unfold Reflection.recovering
  rw [ran]

/-- The counter of calls. What a watcher would do instead, where a request is made while the counter
is not that of the start and one more for each application in progress, or is beyond the limit, is
never done. However an evaluation ends, the counter is that of the start. Where it is at the limit,
the application of a function fails and changes nothing at all: it is one call too many, unless its
arguments are too few or too many already. And what `trycatch` goes on with after an error starts
with the counter that the failed clause started with. -/
theorem run_depth {host : Host} (tame : host.Tame) (bound : Nat) (request : Request)
    (state : State) :
    (∀ instead, (Watch.depth state.depth instead).run host bound 0 request state =
        run host bound request state) ∧
      ((run host bound request).after state).depth = state.depth ∧
      (state.depth = maxDepth → ∀ handle arguments steps,
        let function := state.heap.function handle
        let refusal : RuntimeError :=
          if function.accepts arguments.length then .recursionLimit maxDepth
          else .argumentCount function.arity arguments.length
        run host (bound + 1) (.application (.function handle) arguments) state =
            .error (.error refusal) state ∧
          run host (bound + 1) (.scopedApplication steps (.function handle) arguments) state =
            .error (.error refusal) state) ∧
      ∀ attempt fallback error failed,
        run host bound (.tree (state.heap.node attempt)) state = .error (.error error) failed →
          failed.depth = state.depth ∧
            Reflection.tryCatch (run host bound) [.node attempt, .node fallback] state =
              run host bound (.tree (failed.heap.node fallback)) failed := by
  have start : (Comparison.depth state.depth 0).Valid state := ⟨rfl, Nat.le_max_left _ _⟩
  have compared : ∀ instead request,
      (Comparison.depth state.depth 0).HoldsAt state
        ((Watch.depth state.depth instead).run host bound 0 request) (run host bound request) :=
    fun instead request =>
      (Watch.depth_allows state.depth instead).agree_run tame bound 0 request state start
  have same : ∀ instead request,
      (Watch.depth state.depth instead).run host bound 0 request state =
          run host bound request state ∧
        ((run host bound request).after state).depth = state.depth :=
    fun instead request => (compared instead request).resolve_left fun stopped => stopped.1
  refine ⟨fun instead => (same instead request).1, (same (pure .zero) request).2, ?_, ?_⟩
  · intro limit handle arguments steps
    constructor
    · exact call_of_limit host _ true handle arguments limit
    · have refused : call host (run host bound) false (.function handle) arguments
          (state.outward steps) = _ :=
        call_of_limit host _ false handle arguments limit
      exact inAncestor_of_unchanged refused
  · intro attempt fallback error failed ran
    constructor
    · have kept := (same (pure .zero) (.tree (state.heap.node attempt))).2
      rwa [after_of_error ran] at kept
    · exact recovering_of_error ran

/-- A call that is one too many, with the functions of the command line. -/
theorem run_depth_commandLine :
    let constant : Function := ⟨[], .number .zero, ∅, false, []⟩
    let heap : Heap := { Heap.empty with functions := #[constant] }
    let state : State := { State.initial .empty heap with depth := maxDepth }
    state.depth = maxDepth ∧
      run (CommandLine.host (CommandLine.listedFiles [])) 1 (.application (.function 0) []) state =
        .error (.error (.recursionLimit maxDepth)) state := by
  intro constant heap state
  have limit : state.depth = maxDepth := rfl
  have counted := run_depth (Host.tame_commandLine (CommandLine.listedFiles [])) 0
    (.application (.function 0) []) state
  exact ⟨limit, (counted.2.2.1 limit 0 [] 0).1⟩

end Eval

/-! ## The limit -/

/-- Whether the request is the application of a function written in the language to as many
arguments as it accepts. -/
def Request.isCall (heap : Heap) : Request → Bool
  | .application (.function handle) arguments =>
      (heap.function handle).accepts arguments.length
  | .scopedApplication _ (.function handle) arguments =>
      (heap.function handle).accepts arguments.length
  | _ => false

/-- Stops every call that is one too many. -/
def Watch.limit (instead : Eval Value) : Watch Unit where
  forbidden _ request state := request.isCall state.heap && Eval.maxDepth < state.depth + 1
  applied := id
  outward mark _ _ := mark
  instead := instead

/-- The limit of calls is not reached: it does not matter what is done where it would be. -/
def Eval.Unlimited (host : Host) (bound : Nat) (request : Request) (state : State) : Prop :=
  ∀ instead, (Watch.limit instead).run host bound () request state = run host bound request state

namespace Watch

/-- An evaluation whose bound is not greater than the number of calls that are left makes no call
that is one too many: each takes up some of the bound. -/
theorem agree_limit {host : Host} (tame : host.Tame) (instead : Eval Value) (start bound : Nat)
    {count : Nat} (room : start + count + bound ≤ maxDepth) :
    (Comparison.depth start count).Agree ((limit instead).run host bound ())
      (Eval.run host bound) := by
  have allows := depth_allows start instead
  have regular (count : Nat) := (allows.lawful count).regular
  have suits (count : Nat) : host.Suits (Comparison.depth start count) :=
    tame.suits (allows.lawful count)
  induction bound generalizing count with
  | zero => exact fun request => (regular count).keeps_throw .exhausted
  | succ bound inductionHypothesis =>
      intro request state valid
      have within : ¬ (limit instead).forbidden () request state := by
        have counted : state.depth = start + count := valid.1
        show ¬ (request.isCall state.heap && decide (maxDepth < state.depth + 1)) = true
        rw [decide_eq_false (by omega), Bool.and_false]
        exact Bool.false_ne_true
      have watched : (limit instead).run host (bound + 1) () request state =
          step host bound ((limit instead).run host bound ()) request state := by
        rw [run_succ, if_neg within]
      unfold Comparison.HoldsAt
      rw [watched]
      have same : (Comparison.depth start count).Agree ((limit instead).run host bound ())
          (Eval.run host bound) := inductionHypothesis (by omega)
      have further : (Comparison.depth start (count + 1)).Agree
          ((limit instead).run host bound ()) (Eval.run host bound) :=
        inductionHypothesis (by omega)
      let mark := (depth start instead).inside count request state
      have inside : (Comparison.depth start mark).Agree
          ((limit instead).run host bound ()) (Eval.run host bound) := by
        unfold mark
        unfold Watch.inside
        split <;> assumption
      have allowed : ¬ (depth start instead).forbidden count request state :=
        fun forbidden => (allows.stops valid forbidden).1
      cases request with
      | tree node => exact (regular count).holds_tree same (.refl bound) node state valid
      | source text =>
          exact (regular count).holds_source same (text.length + 1) .zero text.toList state valid
      | application callee arguments =>
          exact allows.toAdmits.holdsAt_application regular suits inside valid allowed
      | scopedApplication steps callee arguments =>
          exact allows.toAdmits.holdsAt_scopedApplication regular suits inside valid allowed

end Watch

/-- A bound that is not greater than the number of calls that are left keeps from the limit. -/
theorem Eval.unlimited_of_bound {host : Host} (tame : host.Tame) {bound : Nat} {state : State}
    (room : state.depth + bound ≤ maxDepth) (request : Request) :
    Unlimited host bound request state := by
  intro instead
  have start : (Comparison.depth state.depth 0).Valid state := ⟨rfl, Nat.le_max_left _ _⟩
  obtain ⟨⟨⟩, _⟩ | same := Watch.agree_limit tame instead state.depth bound room request state start
  exact same.1

end Fixity
