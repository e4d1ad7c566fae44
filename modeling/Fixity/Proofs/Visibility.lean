import Fixity.Proofs.Histories
import Fixity.Proofs.ScopedApplication

/-!
Contract: what the body of a function sees.

Owns:
- the visible value of a name behind pushed names and in the scope of a call;
- `Origin.values`, the values of the parameters, and `Origin.meaning`, the value of any name where a
  body starts;
- `State.Recorded.application_sees`: a function that is applied in a scope of its own starts with
  these values, whatever was evaluated since its definition.
-/

namespace Fixity

open Eval

namespace Scope

theorem lookup?_push (scope : Scope) (name other : String) (value : Value) :
    (scope.push other value).lookup? name =
      if name = other then some value else scope.lookup? name := by
  unfold lookup?
  rw [stack?_push]
  by_cases same : name = other
  · rw [if_pos same.symm, if_pos same]
    rfl
  · rw [if_neg (Ne.symm same), if_neg same]

/-- What is pushed last is visible. -/
theorem lookup?_pushAll (scope : Scope) (named : List (String × Value)) (name : String) :
    (scope.pushAll named).lookup? name =
      (named.reverse.lookup name).or (scope.lookup? name) := by
  unfold pushAll
  induction named generalizing scope with
  | nil => rfl
  | cons entry rest inductionHypothesis =>
      obtain ⟨other, value⟩ := entry
      rw [List.foldl_cons, inductionHypothesis, List.reverse_cons, List.lookup_append,
        Option.or_assoc, lookup?_push, List.lookup_cons]
      by_cases same : name = other
      · simp [same]
      · rw [if_neg same, beq_false_of_ne same]
        rfl

/-- In the scope of a call, a name that was there at the definition has the value it had then. -/
theorem lookup?_child (caller : Scope) (closure : Bindings) (name : String) :
    (caller.child closure).lookup? name =
      match closure.get? name with
      | some stack => stack.head?
      | none => caller.lookup? name := by
  show (Dict.get? (closure.overlay caller.bindings) name).bind List.head? = _
  rw [Dict.get?_overlay]
  cases closure.get? name with
  | none => rfl
  | some stack => rfl

end Scope

namespace Origin

/-- The numbers of arguments that the parameters take. -/
def Accepts (origin : Origin) (count : Nat) : Prop :=
  if origin.variadic then origin.params.length ≤ count + 1 else count = origin.params.length

/-- Whether the last parameter takes a list. -/
def Gathers (origin : Origin) : Prop := origin.variadic ∧ origin.params ≠ []

instance (origin : Origin) : Decidable origin.Gathers :=
  inferInstanceAs (Decidable (_ ∧ _))

/-- The values of the parameters, in order. -/
def values (origin : Origin) (arguments : List Value) (heap : Heap) : List Value :=
  if origin.Gathers then
    arguments.take (origin.params.length - 1) ++ [.list heap.lists.size]
  else arguments

/-- The heap with the list that the last parameter takes. -/
def gathered (origin : Origin) (arguments : List Value) (heap : Heap) : Heap :=
  if origin.Gathers then
    { heap with lists := heap.lists.push (arguments.drop (origin.params.length - 1)).toArray }
  else heap

/-- The value of a name where a body starts: the function itself is known under its own name; the
last parameter of a name hides the others, and the names that the function was bound to; these hide
what there was at its definition, and that hides what is around the application. -/
def meaning (origin : Origin) (self : Value) (names : List String) (values : List Value)
    (around : Scope) (name : String) : Option Value :=
  if name = selfName then some self
  else
    match (origin.params.zip values).reverse.lookup name with
    | some value => some value
    | none =>
        if name ∈ names then some self
        else
          match origin.visible.get? name with
          | some stack => stack.head?
          | none => around.lookup? name

end Origin

/-! ## Names of a call -/

/-- The parameters that the head of a definition names. -/
def Node.parameters? : Node → Option (List String)
  | .identifier name => some [name]
  | .list items => items.mapM Node.name?
  | _ => none

namespace Eval

/-- A row of parameters binds the first argument to the first of them. -/
private theorem nameArguments_cons {variadic : Bool} {param next : String} {params : List String}
    {argument : Value} {arguments : List Value} {heap heap' : Heap}
    {named : List (String × Value)}
    (others : nameArguments variadic (next :: params) arguments heap = .ok named heap') :
    nameArguments variadic (param :: next :: params) (argument :: arguments) heap =
      .ok ((param, argument) :: named) heap' := by
  show EStateM.bind (nameArguments variadic (next :: params) arguments) _ heap = _
  unfold EStateM.bind
  rw [others]
  rfl

/-- Each parameter receives its argument. -/
private theorem nameArguments_exact {params : List String} {arguments : List Value}
    (enough : arguments.length = params.length) (heap : Heap) :
    nameArguments false params arguments heap = .ok (params.zip arguments) heap := by
  induction params generalizing arguments with
  | nil => rfl
  | cons param params inductionHypothesis =>
      obtain ⟨argument, others, rfl⟩ := List.exists_cons_of_length_eq_add_one enough
      cases params with
      | nil =>
          cases List.eq_nil_of_length_eq_zero (Nat.succ.inj enough)
          rfl
      | cons next params => exact nameArguments_cons (inductionHypothesis (Nat.succ.inj enough))

/-- The last parameter receives a new list of the arguments beyond those of the others. -/
private theorem nameArguments_variadic {param : String} {params : List String}
    {arguments : List Value} (enough : params.length ≤ arguments.length) (heap : Heap) :
    nameArguments true (param :: params) arguments heap =
      .ok ((param :: params).zip (arguments.take params.length ++ [.list heap.lists.size]))
        { heap with lists := heap.lists.push (arguments.drop params.length).toArray } := by
  induction params generalizing param arguments with
  | nil => rfl
  | cons next params inductionHypothesis =>
      obtain ⟨argument, others, rfl⟩ := List.exists_cons_of_length_pos (Nat.zero_lt_of_lt enough)
      exact nameArguments_cons (inductionHypothesis (Nat.le_of_succ_le_succ enough))

theorem nameArguments_of_accepts {origin : Origin} {arguments : List Value}
    (accepts : origin.Accepts arguments.length) (heap : Heap) :
    nameArguments origin.variadic origin.params arguments heap =
      .ok (origin.params.zip (origin.values arguments heap)) (origin.gathered arguments heap) := by
  obtain ⟨params, variadic, visible⟩ := origin
  cases variadic with
  | false => exact nameArguments_exact accepts heap
  | true =>
      cases params with
      | nil => rfl
      | cons param params => exact nameArguments_variadic (Nat.le_of_succ_le_succ accepts) heap

/-- The names of a call, the function's own name last. -/
theorem callNames_of_accepts {function : Function} {arguments : List Value}
    (accepts : function.origin.Accepts arguments.length) (callee : Value) (heap : Heap) :
    callNames callee function arguments heap =
      .ok (function.anchors.map (fun anchor => (anchor, callee)) ++
          function.params.zip (function.origin.values arguments heap) ++ [(selfName, callee)])
        (function.origin.gathered arguments heap) := by
  have named : nameArguments function.variadic function.params arguments heap = .ok _ _ :=
    nameArguments_of_accepts accepts heap
  show EStateM.bind (nameArguments function.variadic function.params arguments) _ heap = _
  unfold EStateM.bind
  rw [named]
  rfl

/-! ## Brackets around a body -/

theorem ensuring_of_eq {α : Type} {action inner : Eval α} {state entry : State}
    {leave : State → State} (same : action state = ensuring inner leave entry)
    (leaveToo : State → State) :
    ensuring action leaveToo state = ensuring inner (leaveToo ∘ leave) entry := by
  unfold ensuring at same ⊢
  rw [same]
  cases inner entry <;> rfl

/-- Two actions that share a bracket around them can share it one after the other. -/
theorem bind_of_ensuring {α β : Type} {first inner : Eval α}
    {next next' : α → Eval β} {leave : State → State} {state entry : State}
    (same : first entry = ensuring inner leave state)
    (continued : ∀ value reached, inner state = .ok value reached →
      next value (leave reached) = ensuring (next' value) leave reached) :
    (first >>= next) entry = ensuring (inner >>= next') leave state := by
  unfold ensuring at same ⊢
  cases ran : inner state with
  | error failure left =>
      rw [ran] at same
      have failed : (inner >>= next') state = .error failure left := bind_of_error ran
      rw [failed]
      exact bind_of_error same
  | ok value left =>
      rw [ran] at same
      have went : (inner >>= next') state = next' value left := bind_of_ok ran
      rw [went]
      exact (bind_of_ok same).trans (continued value left ran)

theorem accepts_of_accepts {function : Function} {count : Nat}
    (accepts : function.origin.Accepts count) : function.accepts count = true := by
  unfold Origin.Accepts at accepts
  unfold Function.accepts
  cases variadic : function.variadic with
  | true => simpa [Function.origin, variadic] using accepts
  | false => simpa [Function.origin, variadic] using accepts

/-- The state in which the body of a function starts. -/
def entry (handle : Nat) (arguments : List Value) (state : State) : State :=
  let function := state.heap.function handle
  let named := function.anchors.map (fun anchor => (anchor, .function handle)) ++
    function.params.zip (function.origin.values arguments state.heap) ++
      [(selfName, .function handle)]
  { state with
    heap := function.origin.gathered arguments state.heap
    scope := (state.scope.child function.closure).pushAll named
    outer := state.scope :: state.outer
    depth := state.depth + 1 }

/-- What happens when the body of an application that pushed names is done. -/
def exit (names : List String) (state : State) : State :=
  leaveCall (leaveScope { state with scope := state.scope.popAll names })

/-- An application in a scope of its own is the evaluation of the body between two brackets. -/
theorem step_of_accepts {host : Host} {handle : Nat} {arguments : List Value}
    {state : State} (accepts : (state.heap.function handle).origin.Accepts arguments.length)
    (room : state.depth < maxDepth) :
    ∃ names, ∀ bound interpreter,
      step host bound interpreter (.application (.function handle) arguments) state =
        ensuring (interpreter (.tree (state.heap.function handle).body)) (exit names)
          (entry handle arguments state) := by
  let function := state.heap.function handle
  let named := function.anchors.map (fun anchor => (anchor, Value.function handle)) ++
    function.params.zip (function.origin.values arguments state.heap) ++
      [(selfName, .function handle)]
  let inside := State.inward function.closure { state with depth := state.depth + 1 }
  refine ⟨named.map (·.1), fun bound interpreter => ?_⟩
  have known : Eval.onHeap (callNames (.function handle) function arguments) inside =
      .ok named _ :=
    onHeap_of_ok (callNames_of_accepts accepts (.function handle) state.heap)
  have body : runBody interpreter (.function handle) function arguments inside =
      ensuring (interpreter (.tree function.body))
        (fun state => { state with scope := state.scope.popAll (named.map (·.1)) })
        (entry handle arguments state) := bind_of_ok known
  have child : inChild function.closure (runBody interpreter (.function handle) function arguments)
        { state with depth := state.depth + 1 } = _ :=
    ensuring_of_eq body leaveScope
  show (if function.accepts arguments.length then
    asCall (inChild function.closure
      (runBody interpreter (.function handle) function arguments)) else fail _) state = _
  rw [if_pos (accepts_of_accepts accepts), asCall_of_counted (Nat.not_lt.mpr room)]
  exact ensuring_of_eq child leaveCall

theorem application_of_accepts {host : Host} {bound handle : Nat} {arguments : List Value}
    {state : State} (accepts : (state.heap.function handle).origin.Accepts arguments.length)
    (room : state.depth < maxDepth) :
    ∃ leave, run host (bound + 1) (.application (.function handle) arguments) state =
      ensuring (run host bound (.tree (state.heap.function handle).body)) leave
        (entry handle arguments state) := by
  obtain ⟨names, same⟩ := @step_of_accepts host _ _ _ accepts room
  exact ⟨exit names, same bound (run host bound)⟩

/-- An application that is one call too many. -/
theorem application_of_tooDeep {host : Host} {handle : Nat} {arguments : List Value}
    {state : State} (accepts : (state.heap.function handle).accepts arguments.length)
    (tooDeep : maxDepth < state.depth + 1) (bound : Nat) :
    run host (bound + 1) (.application (.function handle) arguments) state =
      .error (.error (.recursionLimit maxDepth)) state := by
  let function := state.heap.function handle
  show (if function.accepts arguments.length then
    asCall (inChild function.closure
      (runBody (run host bound) (.function handle) function arguments)) else fail _) state = _
  rw [if_pos accepts, asCall_of_tooDeep (by omega)]

private theorem lookup_map_mk (names : List String) (value : Value) (name : String) :
    (names.map fun other => (other, value)).lookup name =
      if name ∈ names then some value else none := by
  induction names with
  | nil => rfl
  | cons other names inductionHypothesis =>
      rw [List.map_cons, List.lookup_cons, inductionHypothesis]
      by_cases same : name = other
      · simp [same]
      · simp [same, beq_false_of_ne same]

/-- What a name stands for there. -/
theorem lookup?_entry (handle : Nat) (arguments : List Value) (state : State) (name : String) :
    let function := state.heap.function handle
    (entry handle arguments state).scope.lookup? name =
      function.origin.meaning (.function handle) function.anchors
        (function.origin.values arguments state.heap) state.scope name := by
  intro function
  show (Scope.pushAll _ _).lookup? name = _
  rw [Scope.lookup?_pushAll, Scope.lookup?_child, List.reverse_append, List.reverse_append,
    List.lookup_append, List.lookup_append, ← List.map_reverse, lookup_map_mk]
  unfold Origin.meaning
  by_cases own : name = selfName
  · rw [own]
    simp
  · rw [if_neg own]
    have notOwn : [(selfName, Value.function handle)].reverse.lookup name = none := by
      simp [List.lookup_cons, beq_false_of_ne own]
    rw [notOwn, Option.none_or, Option.or_assoc]
    show Option.or ((function.origin.params.zip _).reverse.lookup name) _ = _
    cases (function.origin.params.zip
      (function.origin.values arguments state.heap)).reverse.lookup name with
    | some value => rfl
    | none =>
        simp only [List.mem_reverse, Option.none_or]
        split <;> rfl

/-! ## What statements do to functions -/

theorem mapM_name?_of_namesOf {fault : Node → RuntimeError} {items : List Node}
    {params : List String} (read : namesOf fault items = .ok params) :
    items.mapM Node.name? = some params := by
  induction items generalizing params with
  | nil =>
      cases read
      rfl
  | cons item items inductionHypothesis =>
      unfold namesOf at read
      split at read
      · next name named =>
        obtain ⟨names, readToo, rfl⟩ := Syntax.map_eq_ok.mp read
        rw [List.mapM_cons, named, inductionHypothesis readToo]
        rfl
      · cases read

/-- A definition makes a new function that remembers all bindings of the current scope. -/
theorem definition_eq_ok {operator : String} {head body : Node} {value : Value}
    {state after : State} (ok : definition operator head body state = .ok value after) :
    ∃ params, head.parameters? = some params ∧ value = .function state.heap.functions.size ∧
      after = state.captured params body (operator == Syntax.variadicToken) := by
  cases head with
  | identifier name =>
      cases ok
      exact ⟨[name], rfl, rfl, rfl⟩
  | list items =>
      let fault (node : Node) : RuntimeError := .typeError (.parameterNotIdentifier node.display)
      cases read : namesOf fault items with
      | error error =>
          have failed : definition operator (.list items) body state =
              .error (.error error) state := by
            show (ofOutcome (namesOf fault items) >>= _) state = _
            rw [read]
            rfl
          cases failed.symm.trans ok
      | ok params =>
          have made : definition operator (.list items) body state =
              .ok (.function state.heap.functions.size)
                (state.captured params body (operator == Syntax.variadicToken)) := by
            show (ofOutcome (namesOf fault items) >>= _) state = _
            rw [read]
            rfl
          cases made.symm.trans ok
          exact ⟨params, mapM_name?_of_namesOf read, rfl, rfl⟩
  | _ => cases ok

/-- A definition is carried out as such unless the program has defined its operator anew. -/
theorem run_definition {host : Host} {bound : Nat} {operator : String} {head body : Node}
    {state : State}
    (defines : operator = Syntax.definitionToken ∨ operator = Syntax.variadicToken)
    (native : state.scope.operators.implementations.get? operator = none) :
    run host (bound + 1) (.tree (.operation operator head body)) state =
      definition operator head body state := by
  show operation (run host bound) bound operator head body state = _
  have others : operator ≠ Syntax.bindToken ∧
      ¬ (operator = Syntax.operatorBindToken ∨ operator = Syntax.macroBindToken) := by
    rcases defines with rfl | rfl
    · decide
    · decide
  unfold operation
  rw [if_neg others.1, if_neg others.2]
  have current : Eval.scope state = .ok state.scope state := rfl
  rw [bind_of_ok current, native]
  show nativeOperation (run host bound) bound operator head body state = _
  unfold nativeOperation
  rw [if_pos defines]

/-- A name that is bound is bound to the value of its operand. -/
theorem run_binding {host : Host} {bound : Nat} {name : String} {node : Node} {value : Value}
    {state after : State}
    (ok : run host (bound + 1) (.tree (.operation Syntax.bindToken (.identifier name) node)) state =
      .ok value after) :
    ∃ middle, run host bound (.tree node) state = .ok value middle ∧
      after = middle.assigned name value := by
  have bind : binding (run host bound) (.identifier name) node state = .ok value after := ok
  cases ran : run host bound (.tree node) state with
  | error failure middle =>
      have failed : binding (run host bound) (.identifier name) node state =
          .error failure middle := bind_of_error ran
      cases failed.symm.trans bind
  | ok result middle =>
      have assigned : binding (run host bound) (.identifier name) node state =
          .ok result (middle.assigned name result) := by
        have first : binding (run host bound) (.identifier name) node state = _ := bind_of_ok ran
        rw [first]
        exact bind_of_ok (assign_eq name result middle)
      cases assigned.symm.trans bind
      exact ⟨middle, rfl, rfl⟩

/-- A function that is copied is copied as it is. -/
theorem run_copy {host : Host} {bound builtin : Nat} {state : State}
    (copies : (state.heap.builtin builtin).action = .native .dup) (original : Nat) :
    run host (bound + 1) (.application (.builtin builtin) [.function original]) state =
      .ok (.function state.heap.functions.size) (state.copied original) := by
  show callBuiltin host (run host bound) (state.heap.builtin builtin) [.function original] state = _
  unfold callBuiltin
  rw [copies]
  rfl

end Eval

theorem Origin.meaning_congr (origin : Origin) (self : Value) {names names' : List String}
    (values : List Value) (around : Scope) {name : String}
    (same : name ∈ names ↔ name ∈ names') :
    origin.meaning self names values around name =
      origin.meaning self names' values around name := by
  unfold meaning
  simp only [same]

/-- A function that a history tells of, applied in a scope of its own. -/
theorem State.Recorded.application_starts {host : Host} {start state : State} {history : History}
    (recorded : Recorded start history state) {bound handle : Nat} {origin : Origin}
    (found : history.origin? handle = some origin) {arguments : List Value}
    (accepts : origin.Accepts arguments.length) (room : state.depth < maxDepth) :
    ∃ entry leave,
      run host (bound + 1) (.application (.function handle) arguments) state =
        ensuring (run host bound (.tree (state.heap.function handle).body)) leave entry ∧
      entry.heap = origin.gathered arguments state.heap ∧
      ∀ name, entry.scope.lookup? name =
        origin.meaning (.function handle) (history.names handle)
          (origin.values arguments state.heap) state.scope name := by
  have kept := recorded.describes.kept found
  subst kept
  obtain ⟨leave, runs⟩ := application_of_accepts accepts room
  refine ⟨Eval.entry handle arguments state, leave, runs, rfl, fun name => ?_⟩
  rw [lookup?_entry]
  exact Origin.meaning_congr _ _ _ _ (recorded.describes.named found name)

/-- What a function's body sees. The history of a state goes on with whatever is evaluated and is
known wherever a request is made on the way; a definition adds a new function with all bindings of
its scope, a binding adds a name, and a copy adds a function that has kept what its original has. A
function that was there keeps its parameters and the bindings where and when it was defined, and
comes to have no name but those it is bound to. Whenever and wherever it is applied in a scope of
its own, its body starts with the values that `Origin.meaning` tells; the parameters have the
arguments as their values, and those beyond the others are in a new list for the last parameter of a
variadic function. Bindings without a value, which hide what is around the application, are not to
be found in tidy states. -/
theorem State.Recorded.application_sees {host : Host} (modest : host.Modest) {start state : State}
    {history : History} (recorded : Recorded start history state) (bound : Nat) :
    (∀ request,
      (∃ events, state.Runs events ((run host bound request).after state)) ∧
        ∀ awaited, Meets host bound request state awaited →
          ∃ events, Recorded start (events ++ history) awaited) ∧
    (∀ operator head body value after,
      operator = Syntax.definitionToken ∨ operator = Syntax.variadicToken →
      state.scope.operators.implementations.get? operator = none →
      run host (bound + 1) (.tree (.operation operator head body)) state = .ok value after →
        ∃ params, head.parameters? = some params ∧
          value = .function state.heap.functions.size ∧
          state.Runs
            [.defined state.heap.functions.size
              ⟨params, operator == Syntax.variadicToken, state.scope.bindings⟩] after) ∧
    (∀ name node handle after,
      run host (bound + 1) (.tree (.operation Syntax.bindToken (.identifier name) node)) state =
          .ok (.function handle) after →
        ∃ events, state.Runs (.bound name handle :: events) after) ∧
    (∀ builtin original, (state.heap.builtin builtin).action = .native .dup →
      ∃ after, run host (bound + 1) (.application (.builtin builtin) [.function original]) state =
          .ok (.function state.heap.functions.size) after ∧
        state.Runs [.copied state.heap.functions.size original] after) ∧
    ∀ handle origin, history.origin? handle = some origin →
      ∀ events later, Recorded start (events ++ history) later →
        (∀ name, name ∈ History.names (events ++ history) handle ↔
          name ∈ history.names handle ∨ .bound name handle ∈ events) ∧
        (later.Tidy → origin.visible.Tidy) ∧
        ∀ arguments, origin.Accepts arguments.length → later.depth < maxDepth →
          ∃ entry leave,
            run host (bound + 1) (.application (.function handle) arguments) later =
              ensuring (run host bound (.tree (later.heap.function handle).body)) leave entry ∧
            entry.heap = origin.gathered arguments later.heap ∧
            ∀ name, entry.scope.lookup? name =
              origin.meaning (.function handle) (History.names (events ++ history) handle)
                (origin.values arguments later.heap) later.scope name := by
  refine ⟨fun request =>
    ⟨recorded.evaluated modest bound request, fun awaited => recorded.meets modest⟩, ?_, ?_, ?_, ?_⟩
  · intro operator head body value after defines native ok
    rw [run_definition defines native] at ok
    obtain ⟨params, named, rfl, rfl⟩ := definition_eq_ok ok
    exact ⟨params, named, rfl, .defined state params body _⟩
  · intro name node handle after ok
    obtain ⟨middle, ran, rfl⟩ := run_binding ok
    obtain ⟨events, runs⟩ := recorded.evaluated modest bound (.tree node)
    rw [after_of_ok ran] at runs
    exact ⟨events, .followed runs (.bound middle name handle)⟩
  · intro builtin original copies
    exact ⟨_, run_copy copies original, .copied state original⟩
  · intro handle origin found events later recordedLater
    obtain ⟨foundLater, names⟩ := recordedLater.origin?_later found
    refine ⟨names, fun tidy => ?_, fun arguments accepts room =>
      recordedLater.application_starts foundLater accepts room⟩
    have kept := recordedLater.describes.kept foundLater
    exact congrArg Origin.visible kept ▸ tidy.closures handle

/-- A function that was defined and bound to a name; what it remembers and what it does not were
bound anew since. -/
theorem State.application_sees_snapshot :
    let blank : State := .initial .empty .empty
    let defining := blank.assigned "x" (.text 0)
    let named := (defining.captured ["a"] (.identifier "x") false).assigned "f" (.function 0)
    let state := (named.assigned "x" (.text 1)).assigned "y" (.text 2)
    let history : History := [.bound "f" 0, .defined 0 ⟨["a"], false, defining.scope.bindings⟩]
    let host := CommandLine.host (CommandLine.listedFiles [])
    State.Recorded blank history state ∧
      ∃ entry leave,
        run host 2 (.application (.function 0) [.text 3]) state =
          ensuring (run host 1 (.tree (.identifier "x"))) leave entry ∧
        entry.scope.lookup? "$" = some (.function 0) ∧
        entry.scope.lookup? "a" = some (.text 3) ∧
        entry.scope.lookup? "f" = some (.function 0) ∧
        entry.scope.lookup? "x" = some (.text 0) ∧
        entry.scope.lookup? "y" = some (.text 2) := by
  intro blank defining named state history host
  have text : ∀ content handle, Value.text content ≠ .function handle := nofun
  have recorded : State.Recorded blank history state := by
    have before : State.Recorded blank [] defining := .runs .start (.assigned "x" (text 0))
    have made := before.runs (.defined defining ["a"] (.identifier "x") false)
    have bound : State.Recorded blank history named := made.runs (.bound _ "f" 0)
    have later : State.Recorded blank history (named.assigned "x" (.text 1)) :=
      bound.runs (.assigned "x" (text 1))
    exact later.runs (.assigned "y" (text 2))
  have modest := Host.modest_commandLine (CommandLine.listedFiles [])
  have sees := (recorded.application_sees modest 1).2.2.2.2 0 _ rfl [] state recorded
  obtain ⟨entry, leave, runs, _, meaning⟩ := sees.2.2 [.text 3] rfl (by decide)
  have around : state.scope.lookup? "y" = some (.text 2) := by
    show ((Scope.bind _ "y" (.text 2)).stack? "y").bind List.head? = _
    rw [Scope.stack?_bind, if_pos rfl]
    rfl
  exact ⟨recorded, entry, leave, runs, meaning "$", meaning "a", meaning "f", meaning "x",
    (meaning "y").trans around⟩

end Fixity
