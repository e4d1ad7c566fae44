import Fixity.Proofs.Bounds
import Mathlib.Tactic.Choose

/-!
Contract: evaluation as a dialogue with the generator of names.

Owns:
- `Eval.runWith`, evaluation with any action in the place of `gensym`;
- `Dialogue`, questions put one after the other, each in a state, and what follows from the answers;
- `Dialogue.Counts`: only answers move the counter of generated names;
- `Eval.Consults`, the actions that are such dialogues whatever is put in the place of `gensym`, and
  the ways of putting actions together, and the brackets of evaluation, that keep this.

Does not own: the rules of evaluation.
-/

namespace Fixity

/-- Whether an application generates a name. -/
def Heap.generates (heap : Heap) : Value → List Value → Bool
  | .builtin handle, [] =>
      match (heap.builtin handle).action with
      | .native .gensym => true
      | _ => false
  | _, _ => false

namespace Eval

/-- Applies a callable, with any generator in the place of `gensym`. -/
def callWith (generator : Eval Value) (host : Host) (interpreter : Interpreter) (fresh : Bool)
    (callee : Value) (arguments : List Value) : Eval Value := fun state =>
  if state.heap.generates callee arguments then generator state
  else call host interpreter fresh callee arguments state

/-- Carries out a request with any generator in the place of `gensym`, given an interpreter for the
requests inside it. -/
def stepWith (generator : Eval Value) (host : Host) (bound : Nat) (interpreter : Interpreter) :
    Interpreter
  | .tree node => tree interpreter bound node
  | .source text => source interpreter (text.length + 1) .zero text.toList
  | .application callee arguments => callWith generator host interpreter true callee arguments
  | .scopedApplication steps callee arguments =>
      inAncestor steps (callWith generator host interpreter false callee arguments)

/-- Carries out a request within a bound, with any generator in the place of `gensym`. -/
def runWith (generator : Eval Value) (host : Host) : (bound : Nat) → Interpreter
  | 0, _ => throw .exhausted
  | bound + 1, request => stepWith generator host bound (runWith generator host bound) request

theorem callWith_freshName (host : Host) (interpreter : Interpreter) :
    callWith Reflection.freshName host interpreter = call host interpreter := by
  funext fresh callee arguments state
  unfold callWith
  split
  · next generates =>
    unfold Heap.generates at generates
    split at generates
    · next handle =>
      split at generates
      · next action =>
        show Reflection.freshName state =
          callBuiltin host interpreter (state.heap.builtin handle) [] state
        unfold callBuiltin
        rw [action]
        rfl
      · cases generates
    · cases generates
  · rfl

/-- With `gensym` itself in its place, evaluation is what it is. -/
theorem runWith_freshName (host : Host) (bound : Nat) :
    runWith Reflection.freshName host bound = run host bound := by
  induction bound with
  | zero => rfl
  | succ bound inductionHypothesis =>
      funext request
      show stepWith _ host bound (runWith _ host bound) request = step host bound _ request
      rw [inductionHypothesis]
      cases request with
      | application callee arguments =>
          show callWith _ host _ true callee arguments = _
          rw [callWith_freshName]
          rfl
      | scopedApplication steps callee arguments =>
          show inAncestor steps (callWith _ host _ false callee arguments) = _
          rw [callWith_freshName]
          rfl
      | _ => rfl

theorem ensuring_congr {α : Type} {first second : Eval α} {entry : State}
    (same : first entry = second entry) (leave : State → State) :
    ensuring first leave entry = ensuring second leave entry := by
  unfold ensuring
  rw [same]

/-- A generator that stands in the place of `gensym` answers each application of it. -/
theorem runWith_gensym (generator : Eval Value) (host : Host) (bound : Nat) {handle : Nat}
    {state : State} (gensym : (state.heap.builtin handle).action = .native .gensym) :
    runWith generator host (bound + 1) (.application (.builtin handle) []) state =
        generator state ∧
      ∀ steps, runWith generator host (bound + 1) (.scopedApplication steps (.builtin handle) [])
        state = inAncestor steps generator state := by
  have answered (entry : State) (same : entry.heap = state.heap) (fresh : Bool) :
      callWith generator host (runWith generator host bound) fresh (.builtin handle) [] entry =
        generator entry := by
    refine if_pos ?_
    unfold Heap.generates
    dsimp only
    rw [same, gensym]
  refine ⟨answered state rfl true, fun steps => ?_⟩
  exact ensuring_congr (answered (state.outward steps) rfl false) _

end Eval

/-! ## Dialogues -/

/-- Questions put one after the other, each in a state, and what follows from the answers. -/
inductive Dialogue (α : Type) where
  | ended (result : EStateM.Result Failure State α)
  | asks (state : State) (next : EStateM.Result Failure State Value → Dialogue α)

namespace Dialogue

variable {α β : Type}

/-- What a dialogue comes to if a generator answers. -/
def result (generator : Eval Value) : Dialogue α → EStateM.Result Failure State α
  | ended result => result
  | asks state next => (next (generator state)).result generator

/-- The states in which a generator is asked, in order. -/
def asked (generator : Eval Value) : Dialogue α → List State
  | ended _ => []
  | asks state next => state :: (next (generator state)).asked generator

/-- Goes on with another dialogue where one has ended. -/
def andThen (next : EStateM.Result Failure State α → Dialogue β) : Dialogue α → Dialogue β
  | ended result => next result
  | asks state later => asks state fun answer => (later answer).andThen next

/-- Each question finds the counter where the answer before left it, and so does the end. -/
def Counts : Nat → Dialogue α → Prop
  | number, ended result => (Eval.ended result).nextName = number
  | number, asks state next =>
      state.nextName = number ∧ ∀ answer, (next answer).Counts (Eval.ended answer).nextName

/-- From a state, an action that is told the generator is a dialogue with it, whatever the generator
is, and nothing else moves the counter. -/
def Tells (dialogue : Dialogue α) (action : Eval Value → Eval α) (state : State) : Prop :=
  (∀ generator, action generator state = dialogue.result generator) ∧
    dialogue.Counts state.nextName

theorem result_andThen (generator : Eval Value)
    (next : EStateM.Result Failure State α → Dialogue β) (dialogue : Dialogue α) :
    (dialogue.andThen next).result generator =
      (next (dialogue.result generator)).result generator := by
  induction dialogue with
  | ended result => rfl
  | asks state later inductionHypothesis => exact inductionHypothesis _

theorem Counts.andThen {next : EStateM.Result Failure State α → Dialogue β}
    {dialogue : Dialogue α} {number : Nat} (counts : dialogue.Counts number)
    (later : ∀ result, (next result).Counts (Eval.ended result).nextName) :
    (dialogue.andThen next).Counts number := by
  induction dialogue generalizing number with
  | ended result => exact counts ▸ later result
  | asks state _ inductionHypothesis =>
      exact ⟨counts.1, fun answer => inductionHypothesis answer (counts.2 answer)⟩

end Dialogue

namespace Eval

variable {α β : Type}

/-- From a state, an action that is told the generator is a dialogue with it. -/
def ConsultsAt (state : State) (action : Eval Value → Eval α) : Prop :=
  ∃ dialogue : Dialogue α, dialogue.Tells action state

/-- From every state, an action that is told the generator is a dialogue with it. -/
def Consults (action : Eval Value → Eval α) : Prop := ∀ state, ConsultsAt state action

/-- Where a result leads: a value goes on to an action, a failure stays. -/
def onward (next : α → Eval β) :
    EStateM.Result Failure State α → EStateM.Result Failure State β
  | .ok value reached => next value reached
  | .error failure reached => .error failure reached

/-- What is a dialogue from another state is one if it goes on to a dialogue wherever it ends. -/
theorem ConsultsAt.andThen {state entry : State} {first : Eval Value → Eval α}
    {action : Eval Value → Eval β} (consults : ConsultsAt entry first)
    (next : Eval Value → EStateM.Result Failure State α → EStateM.Result Failure State β)
    (counted : entry.nextName = state.nextName)
    (goesOn : ∀ generator, action generator state = next generator (first generator entry))
    (later : ∀ result, ∃ dialogue : Dialogue β,
      (∀ generator, next generator result = dialogue.result generator) ∧
        dialogue.Counts (ended result).nextName) :
    ConsultsAt state action := by
  obtain ⟨dialogue, same, counts⟩ := consults
  choose further goesOn' counts' using later
  refine ⟨dialogue.andThen further, fun generator => ?_, ?_⟩
  · rw [goesOn, same, goesOn', Dialogue.result_andThen]
  · rw [← counted]
    exact counts.andThen counts'

namespace ConsultsAt

theorem of_counted {state : State} {action : Eval α}
    (counted : (action.after state).nextName = state.nextName) :
    ConsultsAt state fun _ => action :=
  ⟨.ended (action state), fun _ => rfl, by rwa [after_eq_ended] at counted⟩

theorem bind {state : State} {first : Eval Value → Eval α} {next : α → Eval Value → Eval β}
    (consults : ConsultsAt state first) (later : ∀ value, Consults (next value)) :
    ConsultsAt state fun generator => first generator >>= fun value => next value generator := by
  refine consults.andThen (fun generator => onward fun value => next value generator) rfl
    (fun generator => ?_) fun result => ?_
  · cases ran : first generator state with
    | ok value reached => exact bind_of_ok ran
    | error failure reached => exact bind_of_error ran
  cases result with
  | ok value reached => exact later value reached
  | error failure reached => exact ⟨.ended (.error failure reached), fun _ => rfl, rfl⟩

/-- A bracket around a dialogue, if neither its way in nor its way out moves the counter. -/
theorem ensuring {state entry : State} {first action : Eval Value → Eval α}
    {leave : State → State} (consults : ConsultsAt entry first)
    (same : ∀ generator, action generator state = Eval.ensuring (first generator) leave entry)
    (entered : entry.nextName = state.nextName)
    (left : ∀ reached, (leave reached).nextName = reached.nextName) : ConsultsAt state action := by
  refine consults.andThen (fun _ => leaving leave) entered
    (fun generator => (same generator).trans (ensuring_eq_leaving _ _ _)) fun result => ?_
  refine ⟨.ended (leaving leave result), fun _ => rfl, ?_⟩
  cases result with
  | ok value reached => exact left reached
  | error failure reached => exact left reached

end ConsultsAt

namespace Consults

theorem of_counted {action : Eval α}
    (counted : ∀ state, (action.after state).nextName = state.nextName) :
    Consults fun _ => action :=
  fun state => .of_counted (counted state)

theorem pure (value : α) : Consults fun _ => (Pure.pure value : Eval α) :=
  .of_counted fun _ => rfl

theorem throw (failure : Failure) : Consults fun _ => (throw failure : Eval α) :=
  .of_counted fun _ => rfl

theorem fail (error : RuntimeError) : Consults fun _ => (Eval.fail error : Eval α) :=
  throw (.error error)

theorem bind {first : Eval Value → Eval α} {next : α → Eval Value → Eval β}
    (consults : Consults first) (later : ∀ value, Consults (next value)) :
    Consults fun generator => first generator >>= fun value => next value generator :=
  fun state => (consults state).bind later

/-- What comes after a look at the state may depend on it. -/
theorem read {next : State → Eval Value → Eval β}
    (later : ∀ state, ConsultsAt state (next state)) :
    Consults fun generator => get >>= fun state => next state generator :=
  fun state => later state

theorem readScope {next : Scope → Eval Value → Eval β} (later : ∀ scope, Consults (next scope)) :
    Consults fun generator => Eval.scope >>= fun scope => next scope generator :=
  fun state => later state.scope state

theorem readLevels {next : Syntax.Levels → Eval Value → Eval β}
    (later : ∀ levels, Consults (next levels)) :
    Consults fun generator => levels >>= fun levels => next levels generator :=
  fun state => later state.scope.operators.levels state

theorem ite {condition : Prop} [Decidable condition] {first second : Eval Value → Eval α}
    (whenTrue : Consults first) (whenFalse : Consults second) :
    Consults fun generator => if condition then first generator else second generator := by
  split
  · exact whenTrue
  · exact whenFalse

theorem discard {action : Eval Value → Eval α} (consults : Consults action) :
    Consults fun generator => Functor.discard (action generator) := by
  unfold Functor.discard Functor.mapConst
  exact .bind consults fun _ => .pure _

theorem mapM {action : Eval Value → α → Eval β} (items : List α)
    (each : ∀ item, Consults fun generator => action generator item) :
    Consults fun generator => items.mapM (action generator) := by
  induction items with
  | nil => exact .pure []
  | cons item rest inductionHypothesis =>
      simp only [List.mapM_cons]
      exact .bind (each item) fun value => .bind inductionHypothesis fun values =>
        .pure (value :: values)

theorem forM {action : Eval Value → α → Eval Unit} (items : List α)
    (each : ∀ item, Consults fun generator => action generator item) :
    Consults fun generator => items.forM (action generator) := by
  induction items with
  | nil => exact .pure ()
  | cons item rest inductionHypothesis => exact .bind (each item) fun _ => inductionHypothesis

/-! ## Elementary actions -/

theorem ofOutcome (outcome : Outcome α) : Consults fun _ => ofOutcome outcome := by
  cases outcome with
  | ok value => exact .pure value
  | error error => exact .fail error

theorem onHeap (action : OnHeap α) : Consults fun _ => Eval.onHeap action :=
  .of_counted fun state => by rw [after_onHeap]

theorem modifyScope (change : Scope → Scope) : Consults fun _ => modifyScope change :=
  .of_counted fun _ => rfl

theorem emit (effect : Effect) : Consults fun _ => emit effect :=
  .of_counted fun _ => rfl

theorem defineOperator (definition : Syntax.Definition) (implementation : Implementation) :
    Consults fun _ => defineOperator definition implementation :=
  .readScope fun _ => .bind (.ofOutcome _) fun _ => .modifyScope _

/-! ## Brackets -/

variable {action : Eval Value → Eval α} (consults : Consults action)
include consults

theorem withNames (named : List (String × Value)) :
    Consults fun generator => withNames named (action generator) := fun state =>
  (consults { state with scope := state.scope.pushAll named }).ensuring (fun _ => rfl) rfl
    fun _ => rfl

theorem asCall : Consults fun generator => asCall (action generator) := by
  intro state
  by_cases tooDeep : state.depth + 1 > maxDepth
  · refine ⟨.ended (.error (.error (.recursionLimit maxDepth)) state), fun _ => ?_, rfl⟩
    exact asCall_of_tooDeep tooDeep
  · exact (consults { state with depth := state.depth + 1 }).ensuring
      (fun _ => asCall_of_counted tooDeep) rfl fun _ => rfl

theorem inChild (closure : Bindings) :
    Consults fun generator => inChild closure (action generator) := by
  intro state
  refine (consults (state.inward closure)).ensuring (fun _ => rfl) rfl fun reached => ?_
  unfold leaveScope
  split <;> rfl

theorem inAncestor (steps : Nat) :
    Consults fun generator => inAncestor steps (action generator) := by
  intro state
  refine (consults (state.outward steps)).ensuring (fun _ => rfl) rfl fun reached => ?_
  show (state.back steps reached).nextName = reached.nextName
  unfold State.back putBack
  split <;> rfl

end Consults

end Eval

end Fixity
