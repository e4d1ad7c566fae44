import Fixity.Proofs.Standard

/-!
Contract: what the standard library does, from its text on.

Owns:
- that the logical operators, the operators for trees, `qsort` and the control structures of a state
  that retains the standard environment are the ones whose trees are known;
- `Library.logic_transparent`: `&&` and `||` do what their conditionals do in their place;
- `Library.sorts_in_place`: `qsort` sorts, unless it meets the limit on calls;
- `Library.controls_expand`: the control structures do what their trees do in their place.

Each of these is told of every state that has the operators or functions, together with the
evaluation of the library that leads to such a state.
-/

namespace Fixity

open Eval

theorem State.Retains.refl (state : State) : state.Retains state :=
  ⟨id, fun _ => rfl, id, id⟩

namespace Library

section Derived

variable {state : State} (retains : standard.Retains state)
include retains

theorem exists_shortCircuits : Nonempty (state.ShortCircuits .one .zero) :=
  describes_standard.shortCircuits retains

theorem exists_macroApplications : Nonempty state.MacroApplications :=
  describes_standard.macroApplications retains

theorem exists_sorts : Nonempty state.Sorts := describes_standard.sorts retains

theorem exists_controls : Nonempty state.Controls := describes_standard.controls retains

end Derived

/-! ## Logic -/

/-- The standard library defines `&&` and `||`. Wherever they are defined so and the limit of calls is
not reached, `left && right` does what `left ? [right ? [1, 0], 0]` does, and `left || right` what
`left ? [1, right ? [1, 0]]` does. The trees of the operands stay in the heap, so the handles of trees
that are made on the way are greater by two; nothing else is different. -/
theorem logic_transparent :
    useStandard (.initial .empty .empty) = .ok () standard ∧ standard.Housed ∧
    (∀ {state : State}, standard.Retains state → Nonempty (state.ShortCircuits .one .zero)) ∧
    ∀ {host : Host} {state : State}, state.ShortCircuits .one .zero → host.Oblivious →
      state.Housed → ∀ (bound : Nat) (left right : Node),
      (∀ value reached, run host (bound + 1) (.tree left) state = .ok value reached →
        reached.scope.operators.implementations.get? Syntax.conditionalToken = none) →
      let operands : Insertion := ⟨state.heap.nodes.size, [left, right], 0, false⟩
      let test (condition whenTrue whenFalse : Node) : Node :=
        .operation Syntax.conditionalToken condition (.list [whenTrue, whenFalse])
      (Unlimited host (bound + 6) (.tree (.operation "&&" left right)) state →
        run host (bound + 6) (.tree (.operation "&&" left right)) state =
          operands.result (run host (bound + 2) (.tree
            (test left (test right (.number .one) (.number .zero)) (.number .zero))) state)) ∧
      (Unlimited host (bound + 6) (.tree (.operation "||" left right)) state →
        run host (bound + 6) (.tree (.operation "||" left right)) state =
          operands.result (run host (bound + 2) (.tree
            (test left (.number .one) (test right (.number .one) (.number .zero)))) state)) := by
  refine ⟨useStandard_ran, housed_useStandard, exists_shortCircuits,
    fun operators oblivious housed bound left right remains => ?_⟩
  obtain ⟨conjunction, disjunction, conditional, outward⟩ := operators
  exact ⟨conjunction.run_unlimited (by decide) conditional outward housed left right bound
      oblivious remains,
    disjunction.run_unlimited (by decide) conditional outward housed left right bound
      oblivious remains⟩

/-- The state in which a name is bound to a number. -/
private def binding (name : String) (number : Number) (state : State) : State :=
  { state with scope := state.scope.bind name (.number number) }

private theorem run_binding (host : Host) {bound : Nat} {name : String} {node : Node}
    {number : Number} {state : State}
    (ran : run host bound (.tree node) state = .ok (.number number) state) :
    run host (bound + 1) (.tree (.operation Syntax.bindToken (.identifier name) node)) state =
      .ok (.number number) (binding name number state) :=
  (bind_of_ok ran).trans (bind_of_ok (assign_eq name (.number number) state))

private theorem lookup?_binding (insertion : Insertion) (name other : String) (number : Number)
    (state : State) :
    (insertion.state (binding other number state)).scope.lookup? name =
      if name = other then some (.number number)
      else (insertion.state state).scope.lookup? name := by
  show (insertion.scope (state.scope.bind other (.number number))).lookup? name =
    if name = other then _ else (insertion.scope state.scope).lookup? name
  rw [Insertion.lookup?_scope, Insertion.lookup?_scope, Scope.lookup?_bind]
  split
  · rfl
  · rfl

/-- What `(a : 1) ? [(b : a) ? [1, 0], 0]` and `(a : 1) ? [1, right ? [1, 0]]` do. -/
private theorem run_choices (host : Host) {state : State}
    (native : state.scope.operators.implementations.get? Syntax.conditionalToken = none) :
    let first : Node := .operation ":" (.identifier "a") (.number .one)
    let second : Node := .operation ":" (.identifier "b") (.identifier "a")
    (∀ value reached, run host 3 (.tree first) state = .ok value reached →
      reached.scope.operators.implementations.get? Syntax.conditionalToken = none) ∧
    run host 4 (.tree (.choice first second (.test .one .zero) (.answer .zero))) state =
      .ok (.number .one) (binding "b" .one (binding "a" .one state)) ∧
    ∀ right, run host 4 (.tree (.choice first right (.answer .one) (.test .one .zero))) state =
      .ok (.number .one) (binding "a" .one state) := by
  intro first second
  have ranFirst : run host 3 (.tree first) state = .ok (.number .one) (binding "a" .one state) :=
    run_binding host ((stages_run host).number 1 .one state)
  have isNamed : (binding "a" .one state).scope.lookup? "a" = some (.number .one) := by
    show (state.scope.bind "a" (.number .one)).lookup? "a" = _
    rw [Scope.lookup?_bind, if_pos rfl]
  have ranSecond : run host 2 (.tree second) (binding "a" .one state) =
      .ok (.number .one) (binding "b" .one (binding "a" .one state)) :=
    run_binding host ((stages_run host).identifier isNamed)
  have remains (value : Value) (reached : State)
      (ran : run host 3 (.tree first) state = .ok value reached) :
      reached.scope.operators.implementations.get? Syntax.conditionalToken = none := by
    cases ranFirst.symm.trans ran
    exact native
  have truthy : (Value.number .one).isTruthy := by decide +kernel
  refine ⟨remains, ?_, fun right => ?_⟩
  · refine ((stages_run host).choice_inside native remains).trans ((bind_of_ok ranFirst).trans ?_)
    rw [if_pos truthy]
    refine (bind_of_ok ranSecond).trans ?_
    rw [if_pos truthy]
    rfl
  · refine ((stages_run host).choice_inside native remains).trans ((bind_of_ok ranFirst).trans ?_)
    rw [if_pos truthy]
    rfl

/-- The operands of `(a : 1) && (b : a)` see the scope around the operator, whose parameters have
their names, and bind names there; of `(a : 1) || (0 @ [])` only the first one is evaluated. -/
theorem logic_transparent_bindings :
    let host := CommandLine.host (CommandLine.listedFiles [])
    let first : Node := .operation ":" (.identifier "a") (.number .one)
    let second : Node := .operation ":" (.identifier "b") (.identifier "a")
    let wrong : Node := .operation "@" (.number .zero) (.list [])
    (∃ after, run host 8 (.tree (.operation "&&" first second)) standard =
        .ok (.number .one) after ∧
      after.scope.lookup? "a" = some (.number .one) ∧
      after.scope.lookup? "b" = some (.number .one)) ∧
    ∃ after, run host 8 (.tree (.operation "||" first wrong)) standard =
        .ok (.number .one) after ∧
      after.scope.lookup? "a" = some (.number .one) := by
  intro host first second wrong
  obtain ⟨-, housed, defined, transparent⟩ := logic_transparent
  obtain ⟨operators⟩ := defined (.refl standard)
  obtain ⟨remains, ranConjunction, ranDisjunction⟩ := run_choices host operators.conditional
  have unlimited (operator : String) (right : Node) :
      Unlimited host 8 (.tree (.operation operator first right)) standard :=
    unlimited_of_bound (Host.tame_commandLine _) (by rw [describes_standard.depth]; decide) _
  have transparent (right : Node) := transparent operators
    (Host.oblivious_commandLine (CommandLine.listedFiles [])) housed 2 first right remains
  constructor
  · have whole := (transparent second).1 (unlimited "&&" second)
    refine ⟨_, whole.trans (congrArg _ ranConjunction), ?_, ?_⟩
    · exact (lookup?_binding _ "a" "b" _ _).trans (lookup?_binding _ "a" "a" _ _)
    · exact lookup?_binding _ "b" "b" _ _
  · have whole := (transparent wrong).2 (unlimited "||" wrong)
    refine ⟨_, whole.trans (congrArg _ (ranDisjunction wrong)), ?_⟩
    exact lookup?_binding _ "a" "a" _ _

/-! ## Sorting -/

/-- The standard library defines `qsort`. Wherever it is defined so, a list of real numbers is sorted
in place and given back, unless the limit on calls is met: then it has been shuffled. In either case
no other list has changed. The places of a list are doubles, which count up to `2 ^ 53`; that is more
than the entries that fit into memory. -/
theorem sorts_in_place :
    useStandard (.initial .empty .empty) = .ok () standard ∧
    (∀ {state : State}, standard.Retains state → Nonempty state.Sorts) ∧
    ∀ {host : Host} {state : State}, state.Sorts → ∀ {list : Nat} {numbers : List Number},
      state.heap.lists[list]? = some (numbers.map Value.number).toArray →
      (∀ number ∈ numbers, number.isReal) → numbers.length ≤ 2 ^ 53 →
      ∀ {name : String}, state.scope.lookup? name = some (.list list) →
      ∃ (sorted : List Number) (after : State) (least : Nat),
        Sorting.Rearranges state.heap list numbers sorted after.heap ∧
          ((sorted.Pairwise Number.Precedes ∧ after = { state with heap := after.heap } ∧
              ∀ bound, least ≤ bound →
                run host bound (.tree (Sorting.request name)) state = .ok (.list list) after) ∨
            ∀ bound, least ≤ bound → run host bound (.tree (Sorting.request name)) state =
              .error (.error (.recursionLimit maxDepth)) after) := by
  refine ⟨useStandard_ran, exists_sorts,
    fun {host state} sorts {list numbers} cell real short {name} named => ?_⟩
  cases (sorts.does_request cell real short named : Does (.evaluation host) _ _ _ _) with
  | gives least value after runs holds =>
    obtain ⟨heap, sorted, rfl, rfl, rearranges, ascending⟩ := holds
    exact ⟨sorted, _, least, rearranges, .inl ⟨ascending, rfl, runs⟩⟩
  | stops least after runs holds =>
    obtain ⟨sorted, rearranges⟩ := holds
    exact ⟨sorted, after, least, rearranges, .inr runs⟩

/-- Three numbers out of order. -/
def scrambled : List Number := [.ofNat 3, .ofNat 1, .ofNat 2]

/-- The state with the numbers in a new list, which is bound to `l`. -/
def unsorted (state : State) : State :=
  { state.listed (scrambled.map Value.number) with
    scope := state.scope.bind "l" (.list state.heap.lists.size) }

private theorem unsorted_given (state : State) (sorts : state.Sorts) :
    Nonempty (unsorted state).Sorts ∧
      (unsorted state).heap.lists[state.heap.lists.size]? =
        some (scrambled.map Value.number).toArray ∧
      (unsorted state).scope.lookup? "l" = some (.list state.heap.lists.size) := by
  refine ⟨⟨(sorts.listed _).bind (by decide) _⟩, Array.getElem?_push_size, ?_⟩
  show (state.scope.bind "l" _).lookup? "l" = _
  rw [Scope.lookup?_bind, if_pos rfl]

theorem sorts_in_place_scrambled :
    let state := unsorted standard
    let list := standard.heap.lists.size
    Nonempty state.Sorts ∧
      state.heap.lists[list]? = some (scrambled.map Value.number).toArray ∧
      (∀ number ∈ scrambled, number.isReal) ∧ scrambled.length ≤ 2 ^ 53 ∧
      state.scope.lookup? "l" = some (.list list) ∧ ¬ scrambled.Pairwise Number.Precedes ∧
      ∃ (sorted : List Number) (after : State) (least : Nat),
        Sorting.Rearranges state.heap list scrambled sorted after.heap ∧
          ((sorted.Pairwise Number.Precedes ∧ after = { state with heap := after.heap } ∧
              ∀ bound, least ≤ bound →
                run noHost bound (.tree (Sorting.request "l")) state = .ok (.list list) after) ∨
            ∀ bound, least ≤ bound → run noHost bound (.tree (Sorting.request "l")) state =
              .error (.error (.recursionLimit maxDepth)) after) := by
  intro state list
  obtain ⟨-, defined, sorting⟩ := sorts_in_place
  obtain ⟨sorts⟩ := defined (.refl standard)
  obtain ⟨⟨sorts⟩, cell, named⟩ := unsorted_given standard sorts
  have real : ∀ number ∈ scrambled, number.isReal := by decide +kernel
  have short : scrambled.length ≤ 2 ^ 53 := by decide
  exact ⟨⟨sorts⟩, cell, real, short, named, by decide +kernel,
    sorting sorts cell real short named⟩

/-! ## Control structures -/

/-- The standard library defines `if`, `ifelse`, `while`, `for` and `cond`. Wherever they are defined
so and the limit of calls is not reached, `name @- clauses` does what the tree does that it stands
for, evaluated in its place. -/
theorem controls_expand :
    useStandard (.initial .empty .empty) = .ok () standard ∧ standard.Closed ∧
    (∀ {state : State}, standard.Retains state → Nonempty state.Controls) ∧
    ∀ {host : Host} {state : State} {name : String} {clauses tree : Node}, state.Controls →
      host.Tame → host.Unaware → state.Closed → Control.Expands name clauses tree →
      (∀ bound, Unlimited host bound (.tree (.operation "@-" (.identifier name) clauses)) state) →
      Control.InPlace host state name clauses tree :=
  ⟨useStandard_ran, closed_useStandard, exists_controls,
    fun controls tame unaware closed expands unlimited =>
      controls.expands_in_place tame unaware closed expands unlimited⟩

/-- `cond @- [[a, a], [b, b]]` comes to the value of `b`, like `a ? [a, b ? [b, 0]]`. -/
theorem controls_expand_cond :
    let host := CommandLine.host (CommandLine.listedFiles [])
    let operation : Request := .tree (.operation "@-" (.identifier "cond")
      (.list (Control.pairs.map fun clause => .list [clause.1, clause.2])))
    Nonempty standard.Controls ∧ Nonempty Control.sample.Controls ∧ Control.sample.Closed ∧
      (∀ bound, Unlimited host bound operation Control.sample) ∧
      Eval.Gives host (.tree (Control.cascade Control.pairs)) Control.sample
        (.ok (.number .one) Control.sample) ∧
      ∃ added : Relocation, Eval.Gives host operation Control.sample
        (.ok (.number .one) (added.state Control.sample)) := by
  intro host operation
  obtain ⟨added, _, same⟩ := controls_expand.2.2.2 Control.sampleControls
    (Host.tame_commandLine _) (Host.unaware_commandLine (CommandLine.listedFiles []))
    Control.closed_sample (.cond Control.pairs) Control.unlimited_sample
  have inner : Eval.Gives host (.tree (Control.cascade Control.pairs)) Control.sample
      (.ok (.number .one) Control.sample) := ⟨3, rfl, nofun⟩
  exact ⟨controls_expand.2.2.1 (.refl _), ⟨Control.sampleControls⟩, Control.closed_sample,
    Control.unlimited_sample, inner, added, (same _).1.mpr ⟨_, inner, rfl⟩⟩

end Library

end Fixity
