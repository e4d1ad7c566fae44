import Fixity.Proofs.Bounds
import Fixity.Proofs.Exactness
import Fixity.Proofs.Macros

/-!
Contract: what evaluations come to, step by step.

Owns:
- `Eval.Settles`: once its bound is great enough, an evaluation gives a value as wanted, or it meets
  the limit on calls, and then leaves the heap as wanted;
- `Eval.Does` and `Eval.Applies`, the same of trees and of applications;
- one law for each kind of tree, among them `Eval.Does.forLoop`, which takes an invariant with the
  number of rounds left, and one law for applications, `Eval.Applies.function`.

Does not own: evaluations that fail in other ways.
-/

namespace Fixity

open Eval

/-! ## Visible values -/

/-- The bindings at a definition show a value under a name. -/
def Remembers (closure : Bindings) (name : String) (value : Value) : Prop :=
  (closure.get? name).bind List.head? = some value

namespace Scope

theorem lookup?_bind (scope : Scope) (name other : String) (value : Value) :
    (scope.bind other value).lookup? name =
      if name = other then some value else scope.lookup? name := by
  unfold lookup?
  rw [stack?_bind]
  by_cases same : name = other
  · rw [if_pos same.symm, if_pos same]
    rfl
  · rw [if_neg (Ne.symm same), if_neg same]

/-- In the scope of a call, what was visible at the definition hides what is around the call. -/
theorem lookup?_child_of_remembers {caller : Scope} {closure : Bindings} {name : String}
    {value : Value} (remembers : Remembers closure name value) :
    (caller.child closure).lookup? name = some value := by
  unfold Remembers at remembers
  rw [lookup?_child]
  cases known : closure.get? name with
  | none =>
      rw [known] at remembers
      cases remembers
  | some stack =>
      rw [known] at remembers
      exact remembers

end Scope

/-! ## Defined functions -/

namespace State

/-- The state with a further function, bound to a name that it knows. -/
def defined (name : String) (params : List String) (body : Node) (state : State) : State :=
  { state with
    heap := { state.heap with
      functions := state.heap.functions.push ⟨params, body, state.scope.bindings, false, [name]⟩ }
    scope := state.scope.bind name (.function state.heap.functions.size) }

private theorem modify_push {γ : Type} (cells : Array γ) (cell : γ) (change : γ → γ) :
    (cells.push cell).modify cells.size change = cells.push (change cell) := by
  apply Array.ext_getElem?
  intro place
  rw [Array.getElem?_modify, Array.getElem?_push, Array.getElem?_push]
  by_cases last : place = cells.size
  · rw [if_pos last.symm, if_pos last, if_pos last]
    rfl
  · rw [if_neg (Ne.symm last), if_neg last, if_neg last]

/-- A new function that is bound to a name knows it. -/
theorem assigned_captured (state : State) (params : List String) (body : Node) (variadic : Bool)
    (name : String) :
    (state.captured params body variadic).assigned name (.function state.heap.functions.size) =
      { state with
        heap := { state.heap with
          functions :=
            state.heap.functions.push ⟨params, body, state.scope.bindings, variadic, [name]⟩ }
        scope := state.scope.bind name (.function state.heap.functions.size) } := by
  unfold captured assigned Heap.anchored
  dsimp only
  rw [modify_push]
  rfl

variable (name : String) (params : List String) (body : Node) (state : State)

@[simp]
theorem size_functions_defined : (state.defined name params body).heap.functions.size =
    state.heap.functions.size + 1 := Array.size_push _

@[simp]
theorem operators_defined :
    (state.defined name params body).scope.operators = state.scope.operators := rfl

@[simp]
theorem builtin_defined (handle : Nat) :
    (state.defined name params body).heap.builtin handle = state.heap.builtin handle := rfl

theorem function_defined (handle : Nat) : (state.defined name params body).heap.function handle =
    if handle = state.heap.functions.size then ⟨params, body, state.scope.bindings, false, [name]⟩
    else state.heap.function handle := Heap.function_push _ _ _

theorem lookup?_defined (other : String) :
    (state.defined name params body).scope.lookup? other =
      if other = name then some (.function state.heap.functions.size)
      else state.scope.lookup? other := Scope.lookup?_bind _ _ _ _

end State

namespace Eval

/-- Interpreters, one for each bound, that evaluate as usual and stop with a certain failure where
the limit on calls is met. -/
structure Course (host : Host) where
  stage : Nat → Interpreter
  stages : Stages host stage
  failure : Failure
  beyond : ∀ {handle : Nat} {arguments : List Value} {state : State},
    (state.heap.function handle).accepts arguments.length → maxDepth < state.depth + 1 →
      ∀ bound, stage (bound + 1) (.application (.function handle) arguments) state =
        .error failure state

/-- Evaluation itself. -/
def Course.evaluation (host : Host) : Course host where
  stage := run host
  stages := stages_run host
  failure := .error (.recursionLimit maxDepth)
  beyond := application_of_tooDeep

variable {α β : Type} {host : Host} {course : Course host} {failure : Failure}

/-- Once its bound is great enough, an evaluation gives a value and a state as wanted, or it stops
with the failure and leaves a heap as wanted. -/
inductive Settles (failure : Failure) (stage : Nat → Eval α) (state : State)
    (wanted : α → State → Prop) (limited : Heap → Prop) : Prop where
  | gives (least : Nat) (value : α) (reached : State)
      (runs : ∀ bound, least ≤ bound → stage bound state = .ok value reached)
      (holds : wanted value reached)
  | stops (least : Nat) (reached : State)
      (runs : ∀ bound, least ≤ bound →
        stage bound state = .error failure reached)
      (holds : limited reached.heap)

namespace Settles

variable {stage other : Nat → Eval α} {state entry : State} {wanted wanted' : α → State → Prop}
  {limited : Heap → Prop}

theorem mono (settles : Settles failure stage state wanted limited)
    (weaker : ∀ value reached, wanted value reached → wanted' value reached) :
    Settles failure stage state wanted' limited := by
  cases settles with
  | gives least value reached runs holds =>
      exact .gives least value reached runs (weaker value reached holds)
  | stops least reached runs holds => exact .stops least reached runs holds

theorem mono_limited {limited' : Heap → Prop} (settles : Settles failure stage state wanted limited)
    (weaker : ∀ heap, limited heap → limited' heap) :
    Settles failure stage state wanted limited' := by
  cases settles with
  | gives least value reached runs holds => exact .gives least value reached runs holds
  | stops least reached runs holds =>
      exact .stops least reached runs (weaker reached.heap holds)

theorem of_ok {value : α} {reached : State} (least : Nat)
    (runs : ∀ bound, least ≤ bound → stage bound state = .ok value reached)
    (holds : wanted value reached) : Settles failure stage state wanted limited :=
  .gives least value reached runs holds

theorem of_eq (least : Nat) (same : ∀ bound, least ≤ bound → stage bound state = other bound entry)
    (settles : Settles failure other entry wanted limited) :
    Settles failure stage state wanted limited := by
  cases settles with
  | gives later value reached runs holds =>
      refine .gives (max least later) value reached (fun bound enough => ?_) holds
      rw [same bound (le_of_max_le_left enough), runs bound (le_of_max_le_right enough)]
  | stops later reached runs holds =>
      refine .stops (max least later) reached (fun bound enough => ?_) holds
      rw [same bound (le_of_max_le_left enough), runs bound (le_of_max_le_right enough)]

/-- The evaluation is another one from some bound on. -/
theorem of_stage (other : Nat → Eval α) (least : Nat)
    (same : ∀ bound, least ≤ bound → stage bound state = other bound state)
    (settles : Settles failure other state wanted limited) :
    Settles failure stage state wanted limited :=
  .of_eq least same settles

theorem pure {value : α} (holds : wanted value state) :
    Settles failure (fun _ => pure value) state wanted limited :=
  .of_ok 0 (fun _ _ => rfl) holds

theorem bind {next : Nat → α → Eval β} {wanted : β → State → Prop}
    (settles : Settles failure stage state
      (fun value reached => Settles failure (fun bound => next bound value) reached wanted limited)
      limited) :
    Settles failure (fun bound => stage bound >>= next bound) state wanted limited := by
  cases settles with
  | gives least value reached runs continues =>
      exact .of_eq least (fun bound enough => bind_of_ok (runs bound enough)) continues
  | stops least reached runs holds =>
      exact .stops least reached (fun bound enough => bind_of_error (runs bound enough)) holds

theorem mapM_cons {ι : Type} {action : Nat → ι → Eval α} {item : ι} {items : List ι}
    {wanted : List α → State → Prop}
    (settles : Settles failure (fun bound => action bound item) state
      (fun value reached => Settles failure (fun bound => items.mapM (action bound)) reached
        (fun values after => wanted (value :: values) after) limited) limited) :
    Settles failure (fun bound => (item :: items).mapM (action bound)) state wanted limited := by
  refine .of_eq 0 (fun bound _ => congrFun List.mapM_cons state) (.bind (settles.mono ?_))
  intro value reached others
  exact .bind (others.mono fun values after holds => .pure holds)

/-- A bracket that keeps the heap. -/
theorem ensuring {leave : State → State} (kept : ∀ state, (leave state).heap = state.heap)
    (settles : Settles failure stage entry (fun value reached => wanted value (leave reached))
      limited) :
    Settles failure (fun bound => ensuring (stage bound) leave) entry wanted limited := by
  cases settles with
  | gives least value reached runs holds =>
      refine .gives least value (leave reached) (fun bound enough => ?_) holds
      rw [ensuring_eq_leaving, runs bound enough]
      rfl
  | stops least reached runs holds =>
      refine .stops least (leave reached) (fun bound enough => ?_) (by rwa [kept])
      rw [ensuring_eq_leaving, runs bound enough]
      rfl

/-- The evaluation is another one, at a bound less by one. -/
theorem of_succ (same : ∀ bound, stage (bound + 1) state = other bound entry)
    (settles : Settles failure other entry wanted limited) :
    Settles failure stage state wanted limited := by
  cases settles with
  | gives least value reached runs holds =>
      refine .gives (least + 1) value reached (fun bound enough => ?_) holds
      obtain ⟨bound, rfl⟩ := Nat.exists_eq_add_of_le' (Nat.le_of_add_left_le enough)
      rw [same, runs bound (Nat.le_of_add_le_add_right enough)]
  | stops least reached runs holds =>
      refine .stops (least + 1) reached (fun bound enough => ?_) holds
      obtain ⟨bound, rfl⟩ := Nat.exists_eq_add_of_le' (Nat.le_of_add_left_le enough)
      rw [same, runs bound (Nat.le_of_add_le_add_right enough)]

theorem of_tree {node : Node} {wanted : Value → State → Prop}
    (settles : Settles course.failure (fun bound => tree (course.stage bound) bound node) state
      wanted limited) :
    Settles course.failure (fun bound => course.stage bound (.tree node)) state wanted limited :=
  .of_succ (fun bound => congrFun (course.stages.tree bound node) state) settles

end Settles

/-- What the evaluation of a tree comes to. -/
abbrev Does (course : Course host) (node : Node) (state : State) (wanted : Value → State → Prop)
    (limited : Heap → Prop) : Prop :=
  Settles course.failure (fun bound => course.stage bound (.tree node)) state wanted limited

/-- What the evaluation of trees one after the other comes to. -/
abbrev DoesAll (course : Course host) (nodes : List Node) (state : State)
    (wanted : List Value → State → Prop) (limited : Heap → Prop) : Prop :=
  Settles course.failure (fun bound => nodes.mapM (course.stage bound).eval) state wanted limited

/-- What the evaluation of statements after a first value comes to. -/
abbrev DoesStatements (course : Course host) (last : Value) (statements : List Node) (state : State)
    (wanted : Value → State → Prop) (limited : Heap → Prop) : Prop :=
  Settles course.failure (fun bound => sequence (course.stage bound) last statements) state wanted
    limited

/-- What an application in a scope of its own comes to. -/
abbrev Applies (course : Course host) (callee : Value) (arguments : List Value) (state : State)
    (wanted : Value → State → Prop) (limited : Heap → Prop) : Prop :=
  Settles course.failure (fun bound => course.stage bound (.application callee arguments)) state
    wanted limited

section Rows

variable {node : Node} {nodes : List Node} {last : Value} {state : State} {limited : Heap → Prop}

theorem DoesAll.nil {wanted : List Value → State → Prop} (holds : wanted [] state) :
    DoesAll course [] state wanted limited := .pure holds

theorem DoesAll.cons {wanted : List Value → State → Prop}
    (does : Does course node state
      (fun value reached => DoesAll course nodes reached
        (fun values after => wanted (value :: values) after) limited) limited) :
    DoesAll course (node :: nodes) state wanted limited := .mapM_cons does

theorem DoesStatements.nil {wanted : Value → State → Prop} (holds : wanted last state) :
    DoesStatements course last [] state wanted limited := .of_ok 0 (fun _ _ => rfl) holds

theorem DoesStatements.cons {wanted : Value → State → Prop}
    (does : Does course node state
      (fun value reached => DoesStatements course value nodes reached wanted limited) limited) :
    DoesStatements course last (node :: nodes) state wanted limited := .bind does

end Rows

namespace Does

variable {node left right : Node} {nodes : List Node} {state : State}
  {wanted : Value → State → Prop} {limited : Heap → Prop}

theorem number {value : Number} (holds : wanted (.number value) state) :
    Does course (.number value) state wanted limited :=
  .of_tree (.of_ok 0 (fun _ _ => rfl) holds)

theorem identifier {name : String} {value : Value} (found : state.scope.lookup? name = some value)
    (holds : wanted value state) : Does course (.identifier name) state wanted limited := by
  refine .of_ok 1 (fun bound enough => ?_) holds
  obtain ⟨bound, rfl⟩ := Nat.exists_eq_add_of_le' enough
  exact course.stages.identifier found

theorem list (does : DoesAll course nodes state
      (fun values reached =>
        wanted (.list reached.heap.lists.size) (reached.listed values)) limited) :
    Does course (.list nodes) state wanted limited :=
  .of_tree (.bind (does.mono fun _ _ holds => .of_ok 0 (fun _ _ => rfl) holds))

theorem body (does : DoesStatements course .zero nodes state wanted limited) :
    Does course (.body nodes) state wanted limited := .of_tree does

theorem quoted {inner : Node}
    (holds : wanted (.node state.heap.nodes.size)
      { state with heap := { state.heap with nodes := state.heap.nodes.push inner } }) :
    Does course (.quoted inner) state wanted limited :=
  .of_tree (.of_ok 0 (fun _ _ => rfl) holds)

/-- A text without expressions in it. -/
theorem text {source content : String}
    (holds : wanted (.text state.heap.texts.size)
      { state with heap := { state.heap with texts := state.heap.texts.push content } }) :
    Does course (.text source [.literal content]) state wanted limited := by
  refine .of_tree (.of_ok 0 (fun bound _ => @bind_of_ok _ _ _ _ _ _ content ?_) holds)
  show EStateM.Result.ok ("" ++ content) state = _
  rw [String.empty_append]

/-- A name is bound to the value of its operand. -/
theorem binding {name : String}
    (does : Does course node state (fun value reached => wanted value (reached.assigned name value))
      limited) :
    Does course (.operation Syntax.bindToken (.identifier name) node) state wanted limited := by
  refine .of_tree (.bind (does.mono fun value reached holds => ?_))
  exact .of_ok 0 (fun _ _ => bind_of_ok (assign_eq name value reached)) holds

/-! ## Operations -/

section Operations

variable {operator : String}

/-- An operation that the program has not defined anew. -/
private theorem native (free : operator ∉ Syntax.reservedTokens)
    (native : state.scope.operators.implementations.get? operator = none)
    (settles : Settles course.failure
      (fun bound => nativeOperation (course.stage bound) bound operator left right) state wanted
      limited) :
    Does course (.operation operator left right) state wanted limited :=
  .of_tree (.of_eq 0 (fun _ _ => operation_of_native free native) settles)

/-- A definition under a name makes a function that knows its name. -/
theorem define {name : String} {names : List String} {head : Node}
    (native : state.scope.operators.implementations.get? Syntax.definitionToken = none)
    (named : definition Syntax.definitionToken head node state =
      .ok (.function state.heap.functions.size) (state.captured names node false))
    (holds : wanted (.function state.heap.functions.size) (state.defined name names node)) :
    Does course (.operation Syntax.bindToken (.identifier name)
      (.operation Syntax.definitionToken head node)) state wanted limited := by
  have known : (state.captured names node false).assigned name
      (.function state.heap.functions.size) = state.defined name names node :=
    state.assigned_captured names node false name
  refine Does.binding (.of_ok 1 (fun bound enough => ?_) (known.symm ▸ holds))
  obtain ⟨bound, rfl⟩ := Nat.exists_eq_add_of_le' enough
  rw [course.stages.tree]
  exact (operation_of_native (by decide) native).trans named

theorem conditional {whenTrue whenFalse : Node}
    (native : state.scope.operators.implementations.get? Syntax.conditionalToken = none)
    (does : Does course node state
      (fun value reached =>
        if value.isTruthy then Does course whenTrue reached wanted limited
        else Does course whenFalse reached wanted limited) limited) :
    Does course (.operation Syntax.conditionalToken node (.list [whenTrue, whenFalse])) state wanted
      limited := by
  refine Does.native (by decide) native (.bind (does.mono fun value reached branches => ?_))
  cases truth : value.isTruthy with
  | true =>
      rw [truth, if_pos rfl] at branches
      exact branches
  | false =>
      rw [truth, if_neg (by decide)] at branches
      exact branches

theorem nativeOperation_token (interpreter : Interpreter) (bound : Nat)
    (operator : BinaryOperator) (left right : Node) :
    nativeOperation interpreter bound operator.token left right = (do
      let first ← interpreter.eval left
      let second ← interpreter.eval right
      OnHeap.binary operator first second) := by
  cases operator <;> rfl

theorem binary_numbers (operator : BinaryOperator) (first second : Number) (heap : Heap) :
    OnHeap.binary operator (.number first) (.number second) heap =
      OnHeap.ofOutcome ((Number.apply operator first second).map Value.number) heap := by
  show OnHeap.binaryWithin operator (heap.containers + 1 + 1) [] [] _ _ heap = _
  have compared (negate : Bool) :
      OnHeap.equality negate (.number first) (.number second) heap =
        .ok (.ofBool (first.nearlyEqual second != negate)) heap := rfl
  unfold OnHeap.binaryWithin
  by_cases equal : operator = .equal
  · rw [if_pos equal, compared, equal, Bool.bne_false]
    rfl
  by_cases unequal : operator = .notEqual
  · rw [if_neg equal, if_pos unequal, compared, unequal, Bool.bne_true]
    rfl
  rw [if_neg equal, if_neg unequal, if_neg (by simp [Value.text?])]
  show EStateM.bind (OnHeap.ofOutcome _) _ heap = _
  cases Number.apply operator first second <;> rfl

/-- An operator on two numbers. -/
theorem arithmetic {operator : BinaryOperator}
    (native : state.scope.operators.implementations.get? operator.token = none)
    (does : Does course left state
      (fun first reached => Does course right reached
        (fun second after => ∃ number number' result, first = .number number ∧
          second = .number number' ∧ Number.apply operator number number' = .ok result ∧
            wanted (.number result) after) limited) limited) :
    Does course (.operation operator.token left right) state wanted limited := by
  have free : operator.token ∉ Syntax.reservedTokens := by
    cases operator <;> decide
  refine Does.native free native ?_
  simp only [nativeOperation_token]
  refine .bind (does.mono fun first reached continues => .bind (continues.mono ?_))
  rintro _ after ⟨number, number', result, rfl, rfl, applied, holds⟩
  refine .of_ok 0 (fun _ _ => onHeap_of_ok ((binary_numbers _ _ _ _).trans ?_)) holds
  rw [applied]
  rfl

/-- An operator whose function takes the values of its operands. -/
theorem eager {function : Value} (free : operator ∉ Syntax.reservedTokens)
    (implemented : state.scope.operators.implementations.get? operator = some ⟨function, true⟩)
    (does : Does course left state
      (fun first reached => Does course right reached
        (fun second after => Applies course function [first, second] after wanted limited) limited)
      limited) :
    Does course (.operation operator left right) state wanted limited := by
  refine .of_tree (.of_eq 0 (fun bound _ => operation_of_implemented free implemented) ?_)
  exact .bind (does.mono fun first reached continues => .bind continues)

/-- An application to a row of arguments. -/
theorem application
    (native : state.scope.operators.implementations.get? "@" = none)
    (does : Does course left state
      (fun callee reached => callee.isCallable ∧ DoesAll course nodes reached
        (fun values after => Applies course callee values (after.listed values) wanted limited)
        limited) limited) :
    Does course (.operation "@" left (.list nodes)) state wanted limited := by
  refine Does.native (by decide) native (.bind (.bind (does.mono ?_)))
  rintro callee reached ⟨callable, continues⟩
  refine .of_stage (fun _ => Pure.pure callee) 0 (fun bound _ => ?_) (.pure ?_)
  · rw [if_pos callable]
  · refine .bind (Does.list (continues.mono fun values after applies => ?_))
    refine .bind (.of_ok 0 (fun _ _ => rfl) ?_)
    rw [State.list_listed]
    exact applies

private theorem partialApplication_name (interpreter : Interpreter) (left : Node) {name : String}
    (named : name ≠ slotName) :
    partialApplication interpreter left (.identifier name) = (do
      let callee ← callable interpreter Syntax.partialToken left
      let value ← interpreter.eval (.identifier name)
      let label := (← get).heap.display callee ++ Syntax.partialToken ++
        (Node.identifier name).display
      OnHeap.newBuiltin ⟨label, .supply callee [some value]⟩) := by
  have filled : ¬ ((Node.identifier name).name? == some slotName) = true := by
    simpa [Node.name?] using named
  unfold partialApplication
  simp only [List.mapM_cons, List.mapM_nil, if_neg filled, bind_assoc, pure_bind]

/-- A callable that is supplied with the value of a name. -/
theorem supply {name : String} (named : name ≠ slotName)
    (native : state.scope.operators.implementations.get? Syntax.partialToken = none)
    (does : Does course left state
      (fun callee reached => callee.isCallable ∧ Does course (.identifier name) reached
        (fun value after => ∀ label,
          wanted (.builtin after.heap.builtins.size)
            { after with heap := { after.heap with
              builtins := after.heap.builtins.push ⟨label, .supply callee [some value]⟩ } })
        limited) limited) :
    Does course (.operation Syntax.partialToken left (.identifier name)) state wanted limited := by
  refine Does.native (by decide) native ?_
  refine .of_eq 0 (fun bound _ => congrFun (partialApplication_name _ left named) state) ?_
  refine .bind (.bind (does.mono ?_))
  rintro callee reached ⟨callable, continues⟩
  refine .of_stage (fun _ => Pure.pure callee) 0 (fun bound _ => ?_) (.pure ?_)
  · rw [if_pos callable]
  · exact .bind (continues.mono fun value after holds => .of_ok 0 (fun _ _ => rfl) (holds _))

end Operations

end Does

/-! ## Loops -/

section Loops

variable {condition body update : Node} {state : State} {wanted : Value → State → Prop}
  {limited : Heap → Prop}

/-- One round of a loop that has used some of its rounds. -/
private theorem Settles.of_round {last : Value} {used : Nat}
    (settles : Settles course.failure (fun bound => do
      if (← course.stage bound (.tree condition)).isTruthy then
        let last ← course.stage bound (.tree body)
        discard (course.stage bound (.tree update))
        repeatWhile (course.stage bound) condition body (some update) (bound - (used + 1)) last
      else return last) state wanted limited) :
    Settles course.failure
      (fun bound =>
        repeatWhile (course.stage bound) condition body (some update) (bound - used) last)
      state wanted limited := by
  refine .of_stage _ (used + 1) (fun bound enough => ?_) settles
  obtain ⟨left, rfl⟩ := Nat.exists_eq_add_of_le' enough
  rw [show left + (used + 1) - used = left + 1 by omega,
    show left + (used + 1) - (used + 1) = left by omega]
  rfl

/-- A loop keeps an invariant that knows how many rounds are left. -/
theorem Settles.repeatWhile (invariant : Nat → State → Prop)
    (round : ∀ rounds state, invariant (rounds + 1) state →
      Does course condition state
        (fun value reached => value.isTruthy ∧ Does course body reached
          (fun _ middle =>
            Does course update middle (fun _ after => invariant rounds after) limited)
          limited) limited)
    (done : ∀ last state, invariant 0 state →
      Does course condition state
        (fun value reached => value.isTruthy = false ∧ wanted last reached) limited)
    (rounds : Nat) (holds : invariant rounds state) (last : Value) (used : Nat) :
    Settles course.failure
      (fun bound =>
        repeatWhile (course.stage bound) condition body (some update) (bound - used) last)
      state wanted limited := by
  induction rounds generalizing state last used with
  | zero =>
      refine .of_round (.bind ((done last state holds).mono fun value reached ends => ?_))
      rw [ends.1]
      exact .pure ends.2
  | succ rounds inductionHypothesis =>
      refine .of_round (.bind ((round rounds state holds).mono fun value reached goesOn => ?_))
      obtain ⟨truthy, does⟩ := goesOn
      rw [truthy]
      refine .bind (does.mono fun last middle continues => ?_)
      refine .bind (.bind (continues.mono fun _ after again => .pure ?_))
      exact inductionHypothesis again last (used + 1)

/-- A loop with a head whose body is not in brackets. -/
theorem Does.forLoop {first : Node}
    (native : state.scope.operators.implementations.get? Syntax.forToken = none)
    (whole : grouped body = body) (invariant : Nat → State → Prop)
    (starts : Does course first state (fun _ reached => ∃ rounds, invariant rounds reached) limited)
    (round : ∀ rounds state, invariant (rounds + 1) state →
      Does course condition state
        (fun value reached => value.isTruthy ∧ Does course body reached
          (fun _ middle =>
            Does course update middle (fun _ after => invariant rounds after) limited)
          limited) limited)
    (done : ∀ last state, invariant 0 state →
      Does course condition state
        (fun value reached => value.isTruthy = false ∧ wanted last reached) limited) :
    Does course (.operation Syntax.forToken (.list [first, condition, update]) body) state wanted
      limited := by
  refine Does.native (by decide) native ?_
  refine Settles.of_stage (fun bound => do
    discard (course.stage bound (.tree first))
    repeatWhile (course.stage bound) condition body (some update) (bound - 0) .zero) 0
    (fun bound _ => ?_) ?_
  · show Eval.forLoop (course.stage bound) bound (.list [first, condition, update]) body state = _
    unfold Eval.forLoop
    dsimp only
    rw [whole]
    rfl
  · refine .bind (.bind (starts.mono fun _ reached holds => .pure ?_))
    obtain ⟨rounds, holds⟩ := holds
    exact .repeatWhile invariant round done rounds holds .zero 0

end Loops

/-! ## Applications -/

/-- The scope in which the body of a function with fixed parameters starts. -/
def callScope (caller : Scope) (handle : Nat) (function : Function) (arguments : List Value) :
    Scope :=
  (caller.child function.closure).pushAll
    (function.anchors.map (fun anchor => (anchor, Value.function handle)) ++
      function.params.zip arguments ++ [(selfName, Value.function handle)])

theorem operators_callScope (caller : Scope) (handle : Nat) (function : Function)
    (arguments : List Value) :
    (callScope caller handle function arguments).operators = caller.operators :=
  Scope.operators_pushAll _ _

/-- The names that an application pushes hide what was visible at the function's definition. -/
theorem lookup?_callScope {caller : Scope} {handle : Nat} {function : Function}
    {arguments : List Value} {name : String} :
    (callScope caller handle function arguments).lookup? name =
      ((function.anchors.map (fun anchor => (anchor, Value.function handle)) ++
        function.params.zip arguments ++
          [(selfName, Value.function handle)]).reverse.lookup name).or
          ((caller.child function.closure).lookup? name) :=
  Scope.lookup?_pushAll _ _ _

theorem heap_exit (names : List String) (state : State) : (exit names state).heap = state.heap := by
  obtain ⟨heap, scope, outer, depth, nextName, effects⟩ := state
  cases outer <;> rfl

namespace Applies

variable {state : State} {arguments : List Value} {handle : Nat}
  {wanted : Value → State → Prop} {limited : Heap → Prop}

/-- What happens in a scope of its own is over, and the scope around it is back. -/
def returned (state reached : State) : State :=
  { reached with scope := state.scope, outer := state.outer, depth := state.depth }

/-- A function in a scope of its own does what its body does, unless it is one call too many. -/
theorem entered (accepts : (state.heap.function handle).origin.Accepts arguments.length)
    (full : limited state.heap)
    (does : Does course (state.heap.function handle).body (entry handle arguments state)
      (fun value reached => reached.outer = state.scope :: state.outer ∧
        reached.depth = state.depth + 1 ∧ wanted value (returned state reached)) limited) :
    Applies course (.function handle) arguments state wanted limited := by
  rcases Nat.lt_or_ge state.depth maxDepth with room | tooDeep
  · obtain ⟨names, same⟩ := @step_of_accepts host _ _ _ accepts room
    have runs (bound : Nat) := (course.stages.succ fun beyond =>
      absurd beyond.2 (Nat.not_lt.mpr room)).trans (same bound (course.stage bound))
    refine .of_succ runs (.ensuring (fun reached => ?_) (does.mono ?_))
    · exact heap_exit names reached
    · rintro value ⟨heap, scope, outer, depth, nextName, effects⟩ ⟨rfl, rfl, holds⟩
      exact holds
  · refine .stops 1 state (fun bound enough => ?_) full
    obtain ⟨bound, rfl⟩ := Nat.exists_eq_add_of_le' enough
    exact course.beyond (accepts_of_accepts accepts) (Nat.lt_succ_of_le tooDeep) bound

/-- A function with fixed parameters. -/
theorem function {function : Function} (cell : state.heap.function handle = function)
    (fixed : function.variadic = false) (count : arguments.length = function.params.length)
    (full : limited state.heap)
    (does : Does course function.body
      { state with
        scope := callScope state.scope handle function arguments
        outer := state.scope :: state.outer
        depth := state.depth + 1 }
      (fun value reached => reached.outer = state.scope :: state.outer ∧
        reached.depth = state.depth + 1 ∧ wanted value (returned state reached)) limited) :
    Applies course (.function handle) arguments state wanted limited := by
  subst cell
  have accepts : (state.heap.function handle).origin.Accepts arguments.length := by
    unfold Origin.Accepts Function.origin
    rw [fixed]
    exact count
  have plain : ¬ (state.heap.function handle).origin.Gathers := by
    intro gathers
    exact absurd (fixed.symm.trans gathers.1) (by decide)
  have starts : entry handle arguments state =
      { state with
        scope := callScope state.scope handle (state.heap.function handle) arguments
        outer := state.scope :: state.outer
        depth := state.depth + 1 } := by
    unfold entry callScope
    dsimp only
    unfold Origin.values Origin.gathered
    rw [if_neg plain, if_neg plain]
  exact .entered accepts full (starts ▸ does)

/-- What a builtin does that is not a function of the surrounding program. -/
private theorem builtin {action : Action} {other : Nat → Eval Value}
    (cell : (state.heap.builtin handle).action = action)
    (same : ∀ bound name, callBuiltin host (course.stage bound) ⟨name, action⟩ arguments state =
      other bound state)
    (settles : Settles course.failure other state wanted limited) :
    Applies course (.builtin handle) arguments state wanted limited := by
  refine .of_succ (fun bound => ?_) settles
  rw [course.stages.succ (by simp [Request.isCall]), ← same bound (state.heap.builtin handle).name,
    ← cell]
  rfl

/-- A native function that gives a value, whatever the interpreter. -/
theorem native {native : Native} (cell : (state.heap.builtin handle).action = .native native)
    {value : Value} {reached : State}
    (ran : ∀ interpreter, callNative interpreter native arguments state = .ok value reached)
    (holds : wanted value reached) :
    Applies course (.builtin handle) arguments state wanted limited := by
  exact .builtin cell (fun _ _ => rfl) (.of_ok 0 (fun bound _ => ran (course.stage bound)) holds)

/-- A callable that was supplied with all its arguments but some at the end. -/
theorem supplied {callee : Value} {given : List Value}
    (cell : (state.heap.builtin handle).action = .supply callee (given.map some))
    (applies : Applies course callee (given ++ arguments) state wanted limited) :
    Applies course (.builtin handle) arguments state wanted limited := by
  have none : slotCount (given.map some) = 0 := by simp [slotCount]
  have filled : fillSlots (given.map some) arguments = given ++ arguments := by
    clear none cell applies
    induction given with
    | nil => rfl
    | cons value given inductionHypothesis => exact congrArg (value :: ·) inductionHypothesis
  refine .builtin cell (fun bound name => ?_) applies
  unfold callBuiltin
  dsimp only
  rw [none, filled]
  rfl

/-- The native function that applies another one to the items of a list. -/
theorem map {function : Value} {list : Nat}
    (cell : (state.heap.builtin handle).action = .native .map) (callable : function.isCallable)
    (each : Settles course.failure
      (fun bound => (state.heap.list list).toList.mapM fun item =>
        course.stage bound (.application function [item])) state
      (fun results reached =>
        wanted (.list reached.heap.lists.size) (reached.listed results)) limited) :
    Applies course (.builtin handle) [function, .list list] state wanted limited := by
  refine .builtin cell (fun bound name => ?_)
    (.bind (each.mono fun _ _ holds => .of_ok 0 (fun _ _ => rfl) holds))
  show (do
    Folding.requireCallable function "map"
    let items ← Folding.itemsFor "map" (.list list)
    let results ← items.mapM fun item => (course.stage bound).apply function [item]
    OnHeap.newListOf results : Eval Value) state = _
  unfold Folding.requireCallable
  rw [if_pos callable]
  rfl

end Applies

end Eval

end Fixity
