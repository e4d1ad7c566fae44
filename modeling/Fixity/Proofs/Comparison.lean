import Fixity.Proofs.Closures
import Fixity.Proofs.Places

/-!
Contract: two evaluations side by side.

Owns:
- `Comparison`: in which states two evaluations are compared, what holds between the states before
  and after, and whether the first one may stop early;
- `State.captured` and `State.assigned`, what the definition and the naming of a function do;
- `Comparison.Regular`, `Comparison.Lawful` and `Comparison.Nested`: which changes of the state are
  allowed;
- the ways of putting actions together, and the brackets of evaluation, under which two actions
  still compare;
- `Frame.comparison`: staying within a frame, as the comparison of an action with itself.

Does not own: the rules of evaluation themselves.
-/

namespace Fixity

/-- How two evaluations are compared. -/
structure Comparison where
  /-- The states from which the two are compared. -/
  Valid : State → Prop
  /-- What holds between the states before and after. -/
  Related : State → State → Prop
  /-- Whether the first evaluation may stop as if its bound were reached, wherever the second one
  goes on. -/
  mayStop : Prop

/-- Functions in a later heap remember what functions did before, or the bindings of the current
scope. -/
def State.Captures (state : State) (heap : Heap) : Prop :=
  ∀ handle, (heap.function handle).closure = state.scope.bindings ∨
    ∃ older, (heap.function handle).closure = (state.heap.function older).closure

/-- The state with a new function, which remembers all bindings of the current scope. -/
def State.captured (state : State) (params : List String) (body : Node) (variadic : Bool) : State :=
  let function : Function := ⟨params, body, state.scope.bindings, variadic, []⟩
  { state with heap := { state.heap with functions := state.heap.functions.push function } }

/-- The heap in which a value knows that it is bound to a name; only functions do. -/
def Heap.anchored (heap : Heap) (name : String) : Value → Heap
  | .function handle =>
      { heap with
        functions := heap.functions.modify handle fun function => function.anchor name }
  | _ => heap

/-- The state with a name bound to a value. -/
def State.assigned (state : State) (name : String) (value : Value) : State :=
  { state with heap := state.heap.anchored name value, scope := state.scope.bind name value }

theorem Eval.assign_eq (name : String) (value : Value) (state : State) :
    assign name value state = .ok () (state.assigned name value) := by
  cases value <;> rfl

theorem Eval.after_onHeap {α : Type} (action : OnHeap α) (state : State) :
    (Eval.onHeap action).after state = { state with heap := action.after state.heap } := by
  unfold OnHeap.after
  cases ran : action state.heap with
  | ok value heap => exact after_of_ok (onHeap_of_ok ran)
  | error error heap => exact after_of_error (onHeap_of_error ran)

namespace Comparison

open Eval

variable {c inner outer : Comparison} {α β : Type}

/-- From a state, two actions do the same and stay within the relation, unless the first one stops
early. -/
def HoldsAt (c : Comparison) (state : State) (first second : Eval α) : Prop :=
  (c.mayStop ∧ ∃ left, first state = .error .exhausted left) ∨
    (first state = second state ∧ c.Related state (second.after state))

/-- From every state in which they are compared, two actions compare. -/
def Holds (c : Comparison) (first second : Eval α) : Prop :=
  ∀ state, c.Valid state → c.HoldsAt state first second

/-- An action compares with itself: it stays within the relation. -/
abbrev Keeps (c : Comparison) (action : Eval α) : Prop := c.Holds action action

/-- Two interpreters compare, whatever they are asked for. -/
def Agree (c : Comparison) (first second : Interpreter) : Prop :=
  ∀ request, c.Holds (first request) (second request)

/-- The first evaluation may go through fewer rounds of a loop than the second one only if it may
stop early. -/
def Rounds (c : Comparison) (bound bound' : Nat) : Prop :=
  bound = bound' ∨ (c.mayStop ∧ bound ≤ bound')

theorem Rounds.refl (bound : Nat) : c.Rounds bound bound := Or.inl rfl

theorem Rounds.of_succ {bound bound' : Nat} (rounds : c.Rounds (bound + 1) bound') :
    ∃ fewer, bound' = fewer + 1 ∧ c.Rounds bound fewer := by
  rcases rounds with rfl | ⟨stops, le⟩
  · exact ⟨bound, rfl, .refl bound⟩
  · cases bound' with
    | zero => cases le
    | succ fewer => exact ⟨fewer, rfl, Or.inr ⟨stops, Nat.le_of_succ_le_succ le⟩⟩

/-- The elementary changes that evaluation makes to the state stay within the relation, but for the
removal of a name, and so do names that are pushed for a time; what is compared once is compared
ever after. -/
structure Regular (c : Comparison) : Prop where
  refl : ∀ {state}, c.Valid state → c.Related state state
  trans : ∀ {first second third}, c.Related first second → c.Related second third →
    c.Related first third
  valid : ∀ {first second}, c.Valid first → c.Related first second → c.Valid second
  heap : ∀ {state heap}, c.Valid state → state.heap.Evolves heap →
    c.Related state { state with heap := heap }
  effects : ∀ {state} effects, c.Valid state → c.Related state { state with effects := effects }
  nextName : ∀ {state number}, c.Valid state → state.nextName ≤ number →
    c.Related state { state with nextName := number }
  capture : ∀ {state} params body variadic, c.Valid state →
    c.Related state (state.captured params body variadic)
  bound : ∀ {state} name value, c.Valid state → c.Related state (state.assigned name value)
  define : ∀ {state definition implementation scope}, c.Valid state →
    state.scope.define definition implementation = .ok scope →
      c.Related state { state with scope := scope }
  withNames : ∀ {α : Type} {first second : Eval α} named, c.Holds first second →
    c.Holds (withNames named first) (withNames named second)

/-- A comparison that allows more: whatever happens to cells, as long as functions only remember
what functions remembered before or what is visible, and any binding of a name. -/
structure Lawful (c : Comparison) : Prop where
  refl : ∀ {state}, c.Valid state → c.Related state state
  trans : ∀ {first second third}, c.Related first second → c.Related second third →
    c.Related first third
  valid : ∀ {first second}, c.Valid first → c.Related first second → c.Valid second
  heap : ∀ {state heap}, c.Valid state → state.Captures heap →
    c.Related state { state with heap := heap }
  effects : ∀ {state} effects, c.Valid state → c.Related state { state with effects := effects }
  nextName : ∀ {state number}, c.Valid state → state.nextName ≤ number →
    c.Related state { state with nextName := number }
  bind : ∀ {state} name value, c.Valid state →
    c.Related state { state with scope := state.scope.bind name value }
  define : ∀ {state definition implementation scope}, c.Valid state →
    state.scope.define definition implementation = .ok scope →
      c.Related state { state with scope := scope }
  withNames : ∀ {α : Type} {first second : Eval α} named, c.Holds first second →
    c.Holds (withNames named first) (withNames named second)

theorem Lawful.regular (lawful : c.Lawful) : c.Regular where
  refl := lawful.refl
  trans := lawful.trans
  valid := lawful.valid
  heap valid evolves :=
    lawful.heap valid fun handle => Or.inr (Heap.SameClosures.of_evolves evolves handle)
  effects := lawful.effects
  nextName := lawful.nextName
  capture {state} params body variadic valid := by
    refine lawful.heap valid fun handle => ?_
    show (Heap.function { state.heap with functions := state.heap.functions.push _ } handle).closure
      = _ ∨ _
    rw [Heap.function_push]
    split
    · exact Or.inl rfl
    · exact Or.inr ⟨handle, rfl⟩
  bound {state} name value valid := by
    cases value with
    | function handle =>
        have anchored := lawful.heap valid
          fun target => Or.inr (Heap.SameClosures.anchor state.heap handle name target)
        exact lawful.trans anchored (lawful.bind name _ (lawful.valid valid anchored))
    | _ => exact lawful.bind name _ valid
  define := lawful.define
  withNames := lawful.withNames

/-- The other changes and brackets stay within the relation as well. -/
structure Nested (c : Comparison) : Prop extends Lawful c where
  remove : ∀ {state} name, c.Valid state →
    c.Related state { state with scope := state.scope.remove name }
  asCall : ∀ {α : Type} {first second : Eval α}, c.Holds first second →
    c.Holds (asCall first) (asCall second)
  inChild : ∀ {α : Type} {first second : Eval α} closure, c.Holds first second →
    c.Holds (inChild closure first) (inChild closure second)
  inAncestor : ∀ {α : Type} {first second : Eval α} steps, c.Holds first second →
    c.Holds (inAncestor steps first) (inAncestor steps second)

/-! ## Putting actions together -/

theorem HoldsAt.bind {state : State} {first second : Eval α} {next next' : α → Eval β}
    (regular : c.Regular) (valid : c.Valid state) (earlier : c.HoldsAt state first second)
    (later : ∀ value, c.Holds (next value) (next' value)) :
    c.HoldsAt state (first >>= next) (second >>= next') := by
  rcases earlier with ⟨stops, left, stopped⟩ | ⟨same, reached⟩
  · exact Or.inl ⟨stops, left, bind_of_error stopped⟩
  · unfold HoldsAt
    cases ran : second state with
    | error failure middle =>
        have failed : (second >>= next') state = .error failure middle := bind_of_error ran
        rw [after_of_error ran] at reached
        rw [after_of_error failed]
        exact Or.inr ⟨(bind_of_error (same.trans ran)).trans failed.symm, reached⟩
    | ok value middle =>
        have first' : (first >>= next) state = next value middle := bind_of_ok (same.trans ran)
        have second' : (second >>= next') state = next' value middle := bind_of_ok ran
        have after : (second >>= next').after state = (next' value).after middle := by
          unfold Eval.after
          rw [second']
        rw [after_of_ok ran] at reached
        rw [first', second', after]
        rcases later value middle (regular.valid valid reached) with stopped | ⟨same, further⟩
        · exact Or.inl stopped
        · exact Or.inr ⟨same, regular.trans reached further⟩

namespace Regular

theorem holdsAt_refl (regular : c.Regular) {state : State} (valid : c.Valid state) {action : Eval α}
    (unchanged : action.after state = state) : c.HoldsAt state action action := by
  right
  rw [unchanged]
  exact ⟨rfl, regular.refl valid⟩

theorem keeps_pure (regular : c.Regular) (value : α) :
    c.Keeps (pure value : Eval α) :=
  fun _ valid => regular.holdsAt_refl valid rfl

theorem keeps_throw (regular : c.Regular) (failure : Failure) :
    c.Keeps (throw failure : Eval α) :=
  fun _ valid => regular.holdsAt_refl valid rfl

theorem keeps_fail (regular : c.Regular) (error : RuntimeError) :
    c.Keeps (Eval.fail error : Eval α) :=
  regular.keeps_throw (.error error)

theorem keeps_get (regular : c.Regular) : c.Keeps (get : Eval State) :=
  fun _ valid => regular.holdsAt_refl valid rfl

theorem holds_bind (regular : c.Regular) {first second : Eval α} {next next' : α → Eval β}
    (earlier : c.Holds first second) (later : ∀ value, c.Holds (next value) (next' value)) :
    c.Holds (first >>= next) (second >>= next') :=
  fun state valid => (earlier state valid).bind regular valid later

theorem holds_map (regular : c.Regular) {first second : Eval α} (change : α → β)
    (compared : c.Holds first second) : c.Holds (change <$> first) (change <$> second) := by
  rw [map_eq_pure_bind, map_eq_pure_bind]
  exact regular.holds_bind compared fun value => regular.keeps_pure (change value)

theorem holds_mapM (regular : c.Regular) {first second : α → Eval β}
    (compared : ∀ item, c.Holds (first item) (second item)) (items : List α) :
    c.Holds (items.mapM first) (items.mapM second) := by
  induction items with
  | nil => exact regular.keeps_pure []
  | cons item rest inductionHypothesis =>
      rw [List.mapM_cons, List.mapM_cons]
      apply regular.holds_bind (compared item)
      intro value
      apply regular.holds_bind inductionHypothesis
      intro values
      exact regular.keeps_pure (value :: values)

theorem holds_forM (regular : c.Regular) {first second : α → Eval Unit}
    (compared : ∀ item, c.Holds (first item) (second item)) (items : List α) :
    c.Holds (items.forM first) (items.forM second) := by
  induction items with
  | nil => exact regular.keeps_pure ()
  | cons item rest inductionHypothesis =>
      show c.Holds (first item >>= fun _ => rest.forM first)
        (second item >>= fun _ => rest.forM second)
      exact regular.holds_bind (compared item) fun _ => inductionHypothesis

end Regular

theorem holds_ite {condition : Prop} [Decidable condition] {first first' second second' : Eval α}
    (whenTrue : c.Holds first second) (whenFalse : c.Holds first' second') :
    c.Holds (if condition then first else first') (if condition then second else second') := by
  split
  · exact whenTrue
  · exact whenFalse

/-! ## Elementary actions -/

namespace Regular

theorem keeps_ofOutcome (regular : c.Regular) (outcome : Outcome α) :
    c.Keeps (ofOutcome outcome) := by
  intro state valid
  apply regular.holdsAt_refl valid
  unfold Eval.after ofOutcome
  cases outcome <;> rfl

theorem keeps_ofSyntax (regular : c.Regular) (result : Except SyntaxError α) :
    c.Keeps (ofSyntax result) :=
  regular.keeps_ofOutcome (result.mapError RuntimeError.source)

theorem keeps_scope (regular : c.Regular) : c.Keeps Eval.scope :=
  regular.holds_bind regular.keeps_get fun state => regular.keeps_pure state.scope

theorem keeps_levels (regular : c.Regular) : c.Keeps Eval.levels :=
  regular.holds_bind regular.keeps_scope fun scope => regular.keeps_pure scope.operators.levels

theorem keeps_emit (regular : c.Regular) (effect : Effect) : c.Keeps (emit effect) :=
  fun state valid => Or.inr ⟨rfl, regular.effects (state.effects.push effect) valid⟩

/-- A computation on the heap that neither defines a function nor records a name. -/
theorem keeps_onHeap (regular : c.Regular) {action : OnHeap α} (evolves : action.Evolves) :
    c.Keeps (Eval.onHeap action) := by
  intro state valid
  right
  rw [after_onHeap]
  exact ⟨rfl, regular.heap valid (evolves state.heap)⟩

theorem keeps_lift (regular : c.Regular) {action : OnHeap α} (evolves : action.Evolves) :
    c.Keeps (liftM action : Eval α) :=
  regular.keeps_onHeap evolves

theorem keeps_defineOperator (regular : c.Regular) (definition : Syntax.Definition)
    (implementation : Implementation) :
    c.Keeps (defineOperator definition implementation) := by
  intro state valid
  cases defined : state.scope.define definition implementation with
  | error error =>
      exact regular.holdsAt_refl valid (after_of_error (defineOperator_of_error defined))
  | ok scope =>
      right
      rw [after_of_ok (defineOperator_of_ok defined)]
      exact ⟨rfl, regular.define valid defined⟩

end Regular

/-! ## Brackets -/

/-- What a bracket has to show: the actions inside it compare from the state it goes in with, and
its way out leads back into the relation. -/
private theorem holdsAt_ensuring {first second first' second' : Eval α} {state entry : State}
    {leave : State → State} (entered : inner.HoldsAt entry first second)
    (stops : inner.mayStop → outer.mayStop)
    (goesIn : first' state = ensuring first leave entry)
    (goesInToo : second' state = ensuring second leave entry)
    (left : inner.Related entry (second.after entry) →
      outer.Related state (leave (second.after entry))) :
    outer.HoldsAt state first' second' := by
  rcases entered with ⟨stop, early, stopped⟩ | ⟨same, reached⟩
  · left
    refine ⟨stops stop, leave early, ?_⟩
    rw [goesIn]
    unfold ensuring
    rw [stopped]
  · right
    constructor
    · rw [goesIn, goesInToo]
      unfold ensuring
      rw [same]
    · have after : second'.after state = (ensuring second leave).after entry := by
        unfold Eval.after
        rw [goesInToo]
      rw [after, after_ensuring]
      exact left reached

theorem holdsAt_inChild {closure : Bindings} {first second : Eval α} {state : State}
    (entered : inner.HoldsAt (state.inward closure) first second)
    (stops : inner.mayStop → outer.mayStop)
    (left : ∀ reached, inner.Related (state.inward closure) reached →
      outer.Related state (leaveScope reached)) :
    outer.HoldsAt state (inChild closure first) (inChild closure second) :=
  holdsAt_ensuring entered stops rfl rfl (left _)

theorem holdsAt_withNames {named : List (String × Value)} {first second : Eval α} {state : State}
    (entered : inner.HoldsAt { state with scope := state.scope.pushAll named } first second)
    (stops : inner.mayStop → outer.mayStop)
    (left : ∀ reached, inner.Related { state with scope := state.scope.pushAll named } reached →
      outer.Related state
        { reached with scope := reached.scope.popAll (named.map (·.1)) }) :
    outer.HoldsAt state (withNames named first) (withNames named second) :=
  holdsAt_ensuring entered stops rfl rfl (left _)

theorem holdsAt_inAncestor {steps : Nat} {first second : Eval α} {state : State}
    (entered : inner.HoldsAt (state.outward steps) first second)
    (stops : inner.mayStop → outer.mayStop)
    (left : ∀ reached, inner.Related (state.outward steps) reached →
      outer.Related state (state.back steps reached)) :
    outer.HoldsAt state (inAncestor steps first) (inAncestor steps second) :=
  holdsAt_ensuring entered stops rfl rfl (left _)

/-- Too many calls are refused, and nothing changes; otherwise the call is counted while it runs. -/
theorem holdsAt_asCall {first second : Eval α} {state : State}
    (unchanged : outer.Related state state)
    (entered : state.depth + 1 ≤ maxDepth →
      inner.HoldsAt { state with depth := state.depth + 1 } first second)
    (stops : inner.mayStop → outer.mayStop)
    (left : ∀ reached, inner.Related { state with depth := state.depth + 1 } reached →
      outer.Related state (leaveCall reached)) :
    outer.HoldsAt state (asCall first) (asCall second) := by
  by_cases tooDeep : state.depth + 1 > maxDepth
  · right
    constructor
    · rw [asCall_of_tooDeep tooDeep, asCall_of_tooDeep tooDeep]
    · rw [after_asCall, if_pos tooDeep]
      exact unchanged
  · exact holdsAt_ensuring (entered (Nat.le_of_not_gt tooDeep)) stops
      (asCall_of_counted tooDeep) (asCall_of_counted tooDeep) (left _)

end Comparison

/-! ## Frames -/

namespace Frame

variable {related : State → State → Prop}

/-- To stay within a frame is to compare with oneself. -/
def comparison (_ : Frame related) : Comparison := ⟨fun _ => True, related, False⟩

theorem holds_iff (frame : Frame related) {α : Type} {first second : Eval α} :
    frame.comparison.Holds first second ↔ first = second ∧ Eval.Keeps related second := by
  constructor
  · intro holds
    have compared : ∀ state,
        first state = second state ∧ related state (second.after state) := by
      intro state
      rcases holds state trivial with ⟨stops, _⟩ | same
      · exact stops.elim
      · exact same
    exact ⟨funext fun state => (compared state).1, fun state => (compared state).2⟩
  · rintro ⟨rfl, kept⟩ state _
    exact Or.inr ⟨rfl, kept state⟩

theorem nested (frame : Frame related) : frame.comparison.Nested where
  refl _ := frame.refl _
  trans := frame.trans
  valid _ _ := trivial
  heap _ _ := frame.heap _ _
  effects _ _ := frame.effects _ _
  nextName _ := frame.nextName _ _
  bind _ _ _ := frame.bind _ _ _
  define _ := frame.define _ _ _ _
  withNames named holds := by
    obtain ⟨rfl, kept⟩ := frame.holds_iff.mp holds
    exact frame.holds_iff.mpr ⟨rfl, frame.withNames named kept⟩
  remove _ _ := frame.remove _ _
  asCall holds := by
    obtain ⟨rfl, kept⟩ := frame.holds_iff.mp holds
    exact frame.holds_iff.mpr ⟨rfl, frame.asCall kept⟩
  inChild closure holds := by
    obtain ⟨rfl, kept⟩ := frame.holds_iff.mp holds
    exact frame.holds_iff.mpr ⟨rfl, frame.inChild closure kept⟩
  inAncestor steps holds := by
    obtain ⟨rfl, kept⟩ := frame.holds_iff.mp holds
    exact frame.holds_iff.mpr ⟨rfl, frame.inAncestor steps kept⟩

end Frame

end Fixity
