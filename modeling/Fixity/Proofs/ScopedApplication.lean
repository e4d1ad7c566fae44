import Fixity.Proofs.Tidiness

/-!
Contract: what a scoped application leaves in the scope it runs in.

Owns:
- `Watch.removal`, which forbids to remove a name from the scope at a level;
- that without a removal a name's values in that scope keep all but the visible one, whatever
  evaluation does;
- `State.Reachable.scopedApplication_balanced`: the names that a scoped application pushes come off
  again, and every other name keeps its hidden values.
-/

namespace Fixity

open Eval

/-- The names that `del` removes; none if one of its arguments names nothing. -/
def Reflection.removed (arguments : List Value) (heap : Heap) : List String :=
  match arguments.mapM nameOf heap with
  | .ok names _ => names
  | .error _ _ => []

/-- Whether an application of a builtin removes a name. -/
def State.removes (state : State) (handle : Nat) (arguments : List Value) (name : String) : Bool :=
  match (state.heap.builtin handle).action with
  | .native .del => (Reflection.removed arguments state.heap).contains name
  | _ => false

/-- Forbids to remove a name from the scope at a level. The mark says whether evaluation goes on at
that level or further in. -/
def Watch.removal (level : Nat) (name : String) : Watch Bool where
  forbidden
    | within, .application (.builtin handle) arguments, state =>
        within && state.height == level && state.removes handle arguments name
    | within, .scopedApplication steps (.builtin handle) arguments, state =>
        within && state.height - steps == level && state.removes handle arguments name
    | _, _, _ => false
  applied := id
  outward within steps state := within && level ≤ state.height - steps

/-- The values of a name in the scope at a level differ at most in the visible one, while evaluation
goes on at that level or further in. -/
def Comparison.stack (level : Nat) (name : String) (within : Bool) : Comparison where
  Valid state := within → level ≤ state.height
  Related before after := after.height = before.height ∧
    (within → Retopped ((before.place level).values name) ((after.place level).values name))
  mayStop := True

/-- The values of a name in the scope at a level stay as they are. -/
def Comparison.restored (level : Nat) (name : String) : Comparison where
  Valid _ := True
  Related before after := after.height = before.height ∧
    (after.place level).values name = (before.place level).values name
  mayStop := True

theorem Reflection.after_delete (arguments : List Value) (state : State) :
    ∃ heap, (delete arguments).after state =
      { state with
        heap := heap
        scope := (removed arguments state.heap).foldl Scope.remove state.scope } := by
  unfold removed
  cases ran : arguments.mapM nameOf state.heap with
  | ok names heap =>
      have removal : delete arguments state = .ok (.ofBool true)
          { state with heap := heap, scope := names.foldl Scope.remove state.scope } :=
        bind_of_ok (onHeap_of_ok ran)
      exact ⟨heap, after_of_ok removal⟩
  | error error heap =>
      have failed : delete arguments state = .error (.error error) { state with heap := heap } :=
        bind_of_error (onHeap_of_error ran)
      exact ⟨heap, after_of_error failed⟩

namespace Comparison

variable {level : Nat} {name : String} {within : Bool}

/-- A change of the current scope alone. -/
theorem stack_rescoped {state : State} (valid : (stack level name within).Valid state)
    {scope : Scope}
    (changed : within → state.height = level →
      Retopped (state.scope.values name) (scope.values name)) :
    (stack level name within).Related state { state with scope := scope } := by
  refine ⟨rfl, fun goesOn => ?_⟩
  rcases Nat.lt_or_eq_of_le (valid goesOn) with further | here
  · rw [State.place_of_lt further scope]
    exact .refl _
  · subst here
    rw [State.place_height, State.place_rescoped]
    exact changed goesOn rfl

/-- What was pushed is popped again: if the name was among it, all its values are restored. -/
theorem stack_popped {state reached : State} {named : List (String × Value)}
    (valid : (stack level name within).Valid state)
    (related :
      (stack level name within).Related { state with scope := state.scope.pushAll named } reached) :
    (stack level name within).Related state
        { reached with scope := reached.scope.popAll (named.map (·.1)) } ∧
      (within → state.height = level → name ∈ named.map (·.1) →
        (reached.scope.popAll (named.map (·.1))).values name = state.scope.values name) := by
  obtain ⟨same, retopped⟩ := related
  have heights : reached.height = state.height := same
  obtain ⟨pushed, values, length⟩ := state.scope.values_pushAll named name
  have popped : within → state.height = level →
      Retopped (pushed ++ state.scope.values name) (reached.scope.values name) := by
    intro goesOn here
    have inner := retopped goesOn
    subst here
    rw [State.place_rescoped, values, ← heights, State.place_height] at inner
    exact inner
  constructor
  · refine ⟨same, fun goesOn => ?_⟩
    rcases Nat.lt_or_eq_of_le (valid goesOn) with further | here
    · rw [State.place_of_lt (heights ▸ further : level < reached.height)]
      have inner := retopped goesOn
      rwa [State.place_of_lt further (state.scope.pushAll named)] at inner
    · subst here
      have place : ({ reached with scope := reached.scope.popAll (named.map (·.1)) } :
          State).place state.height = reached.scope.popAll (named.map (·.1)) := by
        rw [← heights]
        exact State.place_rescoped reached _
      rw [place, State.place_height, Scope.values_popAll, ← length]
      exact (popped goesOn rfl).drop.1
  · intro goesOn here member
    rw [Scope.values_popAll, ← length]
    apply (popped goesOn here).drop.2
    rintro rfl
    have hidden := List.count_pos_iff.mpr member
    rw [← length] at hidden
    exact absurd hidden (Nat.lt_irrefl 0)

theorem stack_lawful (level : Nat) (name : String) (within : Bool) :
    (stack level name within).Lawful where
  refl _ := ⟨rfl, fun _ => .refl _⟩
  trans earlier later :=
    ⟨later.1.trans earlier.1, fun goesOn => (earlier.2 goesOn).trans (later.2 goesOn)⟩
  valid valid related := by
    intro goesOn
    rw [related.1]
    exact valid goesOn
  heap _ _ := ⟨rfl, fun _ => .refl _⟩
  effects _ _ := ⟨rfl, fun _ => .refl _⟩
  nextName _ _ := ⟨rfl, fun _ => .refl _⟩
  bind bound value valid := by
    apply stack_rescoped valid
    intro _ _
    rw [Scope.values_bind]
    split
    · exact Or.inr ⟨value, rfl⟩
    · exact .refl _
  define valid defined := by
    obtain ⟨table, _, rfl⟩ := Syntax.map_eq_ok.mp defined
    exact stack_rescoped valid fun _ _ => .refl _
  withNames named holds := by
    intro state valid
    exact holdsAt_withNames (holds _ valid) id fun reached related =>
      (stack_popped valid related).1

/-- The removal of other names. -/
theorem stack_keeps_delete {arguments : List Value} {state : State}
    (valid : (stack level name within).Valid state)
    (others : within → state.height = level →
      name ∉ Reflection.removed arguments state.heap) :
    (stack level name within).HoldsAt state (Reflection.delete arguments)
      (Reflection.delete arguments) := by
  obtain ⟨heap, after⟩ := Reflection.after_delete arguments state
  have kept : within → state.height = level → Retopped (state.scope.values name)
      (((Reflection.removed arguments state.heap).foldl Scope.remove state.scope).values name) := by
    intro goesOn here
    rw [Scope.values_foldl_remove _ _ _ (others goesOn here)]
    exact .refl _
  right
  rw [after]
  exact ⟨rfl, stack_rescoped valid kept⟩

end Comparison

theorem Watch.removal_allows (level : Nat) (name : String) :
    (Watch.removal level name).Allows (Comparison.stack level name) where
  lawful := Comparison.stack_lawful level name
  stops _ _ := ⟨trivial, _, rfl⟩
  remove {within handle arguments state} valid allowed removal := by
    apply Comparison.stack_keeps_delete valid
    intro goesOn here member
    apply allowed
    simp [Watch.removal, State.removes, goesOn, here, removal, member]
  applied valid _ := valid
  asCall _ entered :=
    Comparison.holdsAt_asCall ⟨rfl, fun _ => .refl _⟩ entered id fun _ kept => kept
  inChild {within state _ _} handle valid holds := by
    have deeper : (Comparison.stack level name within).Valid
        (state.inward (state.heap.function handle).closure) :=
      fun goesOn => Nat.le_succ_of_le (valid goesOn)
    apply Comparison.holdsAt_inChild (holds _ deeper) id
    intro reached ⟨same, retopped⟩
    rw [State.height_inward] at same
    refine ⟨by rw [State.height_leaveScope, same]; rfl, fun goesOn => ?_⟩
    have further : level < reached.height := by
      rw [same]
      exact Nat.lt_succ_of_le (valid goesOn)
    have inner := retopped goesOn
    rw [State.place_inward _ (valid goesOn)] at inner
    rwa [State.place_leaveScope further]
  outward {within steps _ _ state} _ _ := by
    intro goesOn
    rw [State.height_outward]
    exact of_decide_eq_true (Bool.and_eq_true_iff.mp goesOn).2
  removeOutward {within steps handle arguments state} there allowed removal := by
    apply Comparison.stack_keeps_delete there
    intro goesOn here member
    rw [State.height_outward] at here
    have remains := (Bool.and_eq_true_iff.mp goesOn).1
    have named : name ∈ Reflection.removed arguments state.heap := member
    apply allowed
    simp [Watch.removal, State.removes, remains, here, removal, named]
  inAncestor {within steps _ _ state _ _} _ _ holds := by
    apply Comparison.holdsAt_inAncestor holds fun _ => trivial
    intro reached ⟨same, retopped⟩
    refine ⟨State.height_back same, fun goesOn => ?_⟩
    by_cases inside : level ≤ state.height - steps
    · have inner := retopped (Bool.and_eq_true_iff.mpr ⟨goesOn, decide_eq_true inside⟩)
      rwa [State.place_outward inside, ← State.place_back_of_le same inside] at inner
    · rw [State.place_back same (Nat.lt_of_not_le inside)]
      exact .refl _

namespace Eval

/-! ## The names of a call -/

theorem nameArguments_eq (variadic : Bool) (params : List String) (arguments : List Value)
    (heap : Heap) :
    ∃ named heap', nameArguments variadic params arguments heap = .ok named heap' ∧
      named.map (·.1) = params := by
  induction params generalizing arguments heap with
  | nil => exact ⟨[], heap, rfl, rfl⟩
  | cons param params inductionHypothesis =>
      cases params with
      | nil =>
          cases variadic with
          | true => exact ⟨[(param, .list heap.lists.size)], _, rfl, rfl⟩
          | false => exact ⟨[(param, arguments.headD .zero)], heap, rfl, rfl⟩
      | cons next params =>
          obtain ⟨named, heap', ran, names⟩ := inductionHypothesis arguments.tail heap
          refine ⟨(param, arguments.headD .zero) :: named, heap', ?_, congrArg (param :: ·) names⟩
          show EStateM.bind (nameArguments variadic (next :: params) arguments.tail) _ heap = _
          unfold EStateM.bind
          rw [ran]
          rfl

theorem callNames_eq (callee : Value) (function : Function) (arguments : List Value)
    (heap : Heap) :
    ∃ named heap', callNames callee function arguments heap = .ok named heap' ∧
      named.map (·.1) = function.anchors ++ function.params ++ [selfName] := by
  obtain ⟨named, heap', ran, names⟩ :=
    nameArguments_eq function.variadic function.params arguments heap
  refine ⟨function.anchors.map (fun anchor => (anchor, callee)) ++ named ++ [(selfName, callee)],
    heap', ?_, ?_⟩
  · show EStateM.bind (nameArguments function.variadic function.params arguments) _ heap = _
    unfold EStateM.bind
    rw [ran]
    rfl
  · rw [List.map_append, List.map_append, names, List.map_map]
    exact congrArg (· ++ _ ++ _) (List.map_id _)

/-- A body runs with its names pushed. -/
theorem runBody_eq (callee : Value) (function : Function) (arguments : List Value)
    (state : State) :
    ∃ named heap, named.map (·.1) = function.anchors ++ function.params ++ [selfName] ∧
      ∀ interpreter, runBody interpreter callee function arguments state =
        withNames named (interpreter.eval function.body) { state with heap := heap } := by
  obtain ⟨named, heap, ran, names⟩ := callNames_eq callee function arguments state.heap
  exact ⟨named, heap, names, fun interpreter => bind_of_ok (onHeap_of_ok ran)⟩

section Restoration

variable {first second : Interpreter} {level : Nat} {name : String}

/-- The values of a name among those that are pushed are restored. -/
private theorem holdsAt_withNames_restored {named : List (String × Value)}
    {first second : Eval Value}
    (holds : (Comparison.stack level name true).Holds first second) (state : State)
    (here : state.height = level) (member : name ∈ named.map (·.1)) :
    (Comparison.restored level name).HoldsAt state (withNames named first)
      (withNames named second) := by
  have valid : (Comparison.stack level name true).Valid state := fun _ => Nat.le_of_eq here.symm
  apply Comparison.holdsAt_withNames (holds { state with scope := _ } valid) fun _ => trivial
  intro reached related
  have heights : reached.height = state.height := related.1
  refine ⟨heights, ?_⟩
  have place : ({ reached with scope := reached.scope.popAll (named.map (·.1)) } :
      State).place level = reached.scope.popAll (named.map (·.1)) := by
    rw [← here, ← heights]
    exact State.place_rescoped reached _
  rw [place, ← here, State.place_height]
  exact (Comparison.stack_popped valid related).2 rfl here member

private theorem holdsAt_runBody_restored
    (agree : (Comparison.stack level name true).Agree first second) (state : State)
    (here : state.height = level) (callee : Value) {function : Function}
    (pushed : name ∈ function.anchors ++ function.params ++ [selfName]) (arguments : List Value) :
    (Comparison.restored level name).HoldsAt state (runBody first callee function arguments)
      (runBody second callee function arguments) := by
  obtain ⟨named, heap, names, same⟩ := runBody_eq callee function arguments state
  have bracket := holdsAt_withNames_restored (agree (.tree function.body))
    { state with heap := heap } here (names ▸ pushed)
  unfold Comparison.HoldsAt Eval.after at bracket ⊢
  rw [same, same]
  exact bracket

/-- A call in the current scope restores the values of every name that it pushes. -/
private theorem holdsAt_call_restored (host : Host)
    (agree : (Comparison.stack level name true).Agree first second) (state : State)
    (here : state.height = level) (handle : Nat) (arguments : List Value)
    (pushed : name ∈ (state.heap.function handle).anchors ++ (state.heap.function handle).params ++
      [selfName]) :
    (Comparison.restored level name).HoldsAt state
      (call host first false (.function handle) arguments)
      (call host second false (.function handle) arguments) := by
  have same : (Comparison.restored level name).Related state state := ⟨rfl, rfl⟩
  apply Comparison.HoldsAt.call_function same
  rintro function rfl
  have body := holdsAt_runBody_restored agree { state with depth := state.depth + 1 } here
    (.function handle) pushed arguments
  exact Comparison.holdsAt_asCall ⟨rfl, rfl⟩ (fun _ => body) id fun _ kept => kept

/-- What a scoped application pushes comes off again. -/
private theorem restored_of_unnoticed {host : Host} (tame : host.Tame) {bound steps handle : Nat}
    {arguments : List Value} {state : State}
    (pushed : name ∈ (state.heap.function handle).params ∨
      name ∈ (state.heap.function handle).anchors ∨ name = selfName)
    (unnoticed : (Watch.removal (state.height - steps) name).Unnoticed host bound true
      (.scopedApplication steps (.function handle) arguments) state) :
    (((run host bound (.scopedApplication steps (.function handle) arguments)).after state).place
        (state.height - steps)).values name =
      (state.place (state.height - steps)).values name := by
  obtain ⟨same, finished⟩ := unnoticed
  cases bound with
  | zero => exact absurd rfl (finished state)
  | succ bound =>
      have goesOn : (Watch.removal (state.height - steps) name).inside true
          (.scopedApplication steps (.function handle) arguments) state = true :=
        decide_eq_true (Nat.le_refl (state.height - steps))
      have agree := (Watch.removal_allows (state.height - steps) name).agree_run tame bound true
      have member : name ∈ (state.heap.function handle).anchors ++
          (state.heap.function handle).params ++ [selfName] := by
        simp only [List.mem_append, List.mem_singleton]
        tauto
      have called := holdsAt_call_restored host agree (state.outward steps)
        (State.height_outward steps state) handle arguments member
      have whole : (Comparison.restored (state.height - steps) name).HoldsAt state
          ((Watch.removal (state.height - steps) name).run host (bound + 1) true
            (.scopedApplication steps (.function handle) arguments))
          (run host (bound + 1) (.scopedApplication steps (.function handle) arguments)) := by
        have brackets := Comparison.holdsAt_inAncestor called id (fun reached related =>
          (⟨State.height_back related.1, by
            rw [State.place_back_of_le related.1 (Nat.le_refl _), related.2,
              State.place_outward (Nat.le_refl _)]⟩ :
            (Comparison.restored (state.height - steps) name).Related state
              (state.back steps reached)))
        unfold Comparison.HoldsAt
        rw [Watch.run_succ, goesOn]
        exact brackets
      rcases whole with ⟨_, left, stopped⟩ | ⟨_, _, restored⟩
      · exact absurd (same.symm.trans stopped) (finished left)
      · exact restored

end Restoration

end Eval

/-- A scoped application neither leaks nor loses a binding of the scope it runs in, whether it
succeeds or fails. If a name is not removed from that scope on the way, then all its values are
restored if it is a parameter of the function, a name that the function was bound to before, or the
one under which the function finds itself; any other name keeps all values but the visible one, and
as many of them, or it has got its first value. No name is left without values. -/
theorem State.Reachable.scopedApplication_balanced {host : Host} (tame : host.Tame) {state : State}
    (reachable : state.Reachable) (bound steps handle : Nat) (arguments : List Value) :
    let request : Request := .scopedApplication steps (.function handle) arguments
    let function := state.heap.function handle
    let before := state.place (state.height - steps)
    let after := ((run host bound request).after state).place (state.height - steps)
    (∀ name,
      (Watch.removal (state.height - steps) name).Unnoticed host bound true request state →
        (name ∈ function.params ∨ name ∈ function.anchors ∨ name = selfName →
          after.stack? name = before.stack? name) ∧
        (after.values name).tail = (before.values name).tail ∧
        ((after.values name).length = (before.values name).length ∨
          (before.values name).length = 0 ∧ (after.values name).length = 1)) ∧
      ∀ name, after.stack? name ≠ some [] := by
  intro request function before after
  have beforehand : before.bindings.Tidy := reachable.tidy.place _
  have afterwards : after.bindings.Tidy := (reachable.tidy.run tame bound request).place _
  refine ⟨fun name unnoticed => ⟨fun pushed => ?_, ?_⟩, afterwards⟩
  · exact afterwards.stack?_eq beforehand (Eval.restored_of_unnoticed tame pushed unnoticed)
  · have valid : (Comparison.stack (state.height - steps) name true).Valid state :=
      fun _ => Nat.sub_le _ _
    have kept := (Watch.removal_allows _ name).related_of_unnoticed tame valid unnoticed
    exact (kept.2 rfl).below

/-- A function that binds its own parameter anew, where the parameter's name has a value already. -/
theorem State.scopedApplication_balanced_parameter :
    let binder : Function := ⟨["x"], .operation ":" (.identifier "x") (.number .zero), ∅, false, []⟩
    let heap : Heap := { Heap.empty with functions := #[binder] }
    let state : State := .initial (Scope.empty.bind "x" (.text 0)) heap
    let host := CommandLine.host (CommandLine.listedFiles [])
    let request : Request := .scopedApplication 0 (.function 0) [.list 0]
    state.Reachable ∧
      (Watch.removal 0 "x").Unnoticed host 4 true request state ∧
      (((run host 4 request).after state).place 0).stack? "x" = (state.place 0).stack? "x" := by
  intro binder heap state host request
  have reachable : state.Reachable := by
    have captures : (State.initial .empty .empty).Captures heap := by
      rintro (_ | handle)
      · exact Or.inl rfl
      · exact Or.inl rfl
    exact .bind "x" (.text 0) (.heap .new captures)
  have tame := Host.tame_commandLine (CommandLine.listedFiles [])
  have unnoticed : (Watch.removal 0 "x").Unnoticed host 4 true request state := by
    have ran : ∃ reached,
        (Watch.removal 0 "x").run host 4 true request state = .ok .zero reached := ⟨_, rfl⟩
    apply (Watch.removal_allows 0 "x").unnoticed tame fun _ => Nat.zero_le _
    intro left stopped
    obtain ⟨reached, ended⟩ := ran
    rw [ended] at stopped
    cases stopped
  have balanced := (reachable.scopedApplication_balanced tame 4 0 0 [.list 0]).1 "x" unnoticed
  exact ⟨reachable, unnoticed, balanced.1 (Or.inl List.mem_cons_self)⟩

end Fixity
