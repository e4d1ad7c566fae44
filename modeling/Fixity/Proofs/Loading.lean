import Fixity.Proofs.Prediction
import Fixity.Proofs.Tables

/-!
Contract: what the statements of a library do to the states that an outline describes.

Owns:
- `Outline.after?`, the outline behind a statement that binds a name or defines an operator;
- `Outline.load?`, the outline behind a number of statements of a text, and the text behind them;
- `Outline.leads_of_load?`: in a state that the first outline describes, the evaluation of the text
  goes on with the text behind them, in a state that the second one describes.
-/

namespace Fixity

open Eval

/-- A trait of values that can be the functions of operators. -/
def Trait.implements : Trait → Bool
  | .native _ => true
  | .builtin => true
  | .function code => code.params.length = 2 || code.variadic && code.params.length = 1
  | _ => false

theorem Trait.Fits.checkImplementation {trait : Trait} {state : State} {value : Value}
    (fits : trait.Fits state.scope state.heap value) (implements : trait.implements)
    (operator : String) : checkImplementation operator value state = .ok () state := by
  cases trait with
  | number content => cases implements
  | text content => cases implements
  | callable => cases implements
  | native content =>
      obtain ⟨handle, label, rfl, cell⟩ := fits
      rfl
  | builtin =>
      obtain ⟨handle, rfl⟩ := fits
      rfl
  | function code =>
      obtain ⟨handle, content, rfl, cell, fits⟩ := fits
      have found : state.heap.function handle = content := OnHeap.getD_of_getElem? cell _
      have enough : content.params.length = 2 ∨ content.variadic ∧ content.params.length = 1 := by
        rw [fits.params, fits.variadic]
        simpa [Trait.implements] using implements
      rw [← found] at enough
      show (if _ then pure () else fail _ : Eval Unit) state = _
      rw [if_pos enough]
      rfl

/-- A trait of values that are no functions. -/
def Trait.rigid : Trait → Bool
  | .function _ => false
  | .callable => false
  | _ => true

theorem Trait.uses_of_rigid {trait : Trait} (rigid : trait.rigid) : trait.uses = [] := by
  cases trait with
  | function code => cases rigid
  | _ => rfl

theorem Trait.Fits.anchored {trait : Trait} {scope : Scope} {heap : Heap} {value : Value}
    (fits : trait.Fits scope heap value) (rigid : trait.rigid) (name : String) :
    heap.anchored name value = heap := by
  cases trait with
  | number content =>
      cases fits
      rfl
  | text content =>
      cases fits
      rfl
  | native content =>
      obtain ⟨handle, label, rfl, cell⟩ := fits
      rfl
  | builtin =>
      obtain ⟨handle, rfl⟩ := fits
      rfl
  | function code => cases rigid
  | callable => cases rigid

namespace Outline

/-! ## Names -/

/-- The outline with a value for a further name. -/
def named (outline : Outline) (name : String) (trait : Trait) : Outline :=
  { outline with
    names := (name, trait) :: outline.names
    absent := outline.absent.filter (· ≠ name) }

theorem Describes.named {outline : Outline} {state : State} (describes : outline.Describes state)
    {name : String} (free : name ∉ outline.bound) {trait : Trait}
    (known : ∀ use ∈ trait.uses, use ∈ outline.bound) {heap : Heap} (grows : state.heap.Grows heap)
    {value : Value} (fits : trait.Fits state.scope heap value) :
    (outline.named name trait).Describes
      { state with heap := heap, scope := state.scope.bind name value } := by
  have kept {trait : Trait} (known : ∀ use ∈ trait.uses, use ∈ outline.bound) :
      ∀ use ∈ trait.uses, ∀ found, state.scope.lookup? use = some found →
        (state.scope.bind name value).lookup? use = some found := by
    intro use used found bound
    rw [Scope.lookup?_bind, if_neg (fun same : use = name => free (same ▸ known use used)), bound]
  refine ⟨describes.depth, describes.levels, fun {other trait'} found => ?_, fun other lacking => ?_,
    describes.native, fun {token eager trait'} found => ?_, fun trait' member use used => ?_⟩
  · have found := (lookup_cons name trait outline.names other).symm.trans found
    rw [Scope.lookup?_bind]
    split at found
    · next same =>
      cases found
      exact ⟨value, if_pos same, fits.later (.refl heap) (kept known)⟩
    · next different =>
      exact (describes.names found).imp fun _ ⟨bound, fits⟩ => ⟨(if_neg different).trans bound,
        fits.later grows (kept (describes.known _ (mem_traits_of_names found)))⟩
  · obtain ⟨lacking, different⟩ := List.mem_filter.mp lacking
    have different : name ≠ other := fun same => by simp [same] at different
    rw [Scope.stack?_bind, if_neg different]
    exact describes.absent other lacking
  · exact (describes.implemented found).imp fun _ ⟨defined, fits⟩ =>
      ⟨defined, fits.later grows (kept (describes.known _ (mem_traits_of_operators found)))⟩
  · refine List.mem_cons_of_mem name ?_
    rcases List.mem_cons.mp member with rfl | member
    · exact known use used
    · exact describes.known trait' member use used

variable (outline : Outline)

/-- A new function that knows a name. -/
def function? (name : String) : Node → Option Trait
  | .operation operator head body =>
      if (operator = Syntax.definitionToken ∨ operator = Syntax.variadicToken) ∧
          outline.operators.lookup operator = none then
        head.parameters?.map fun params =>
          .function { outline.code operator params body with anchors := [name] }
      else none
  | _ => none

/-- What a name is bound to: a new function, or a value that is no function. -/
def assigned? (nested : Nat) (name : String) (node : Node) : Option Trait :=
  (outline.function? name node).or ((outline.trait? nested node).filter Trait.rigid)

variable {outline} {host : Host} {bound nested : Nat} {state : State} {name : String} {node : Node}
  {trait : Trait}

/-- A name that has no known value is bound. -/
theorem Describes.binding (describes : outline.Describes state) (free : name ∉ outline.bound)
    (predicted : outline.assigned? nested name node = some trait) :
    ∃ value reached,
      (run host (bound + 2 + nested + 1)).eval
          (.operation Syntax.bindToken (.identifier name) node) state = .ok value reached ∧
        (outline.named name trait).Describes reached := by
  unfold assigned? at predicted
  rcases Option.or_eq_some_iff.mp predicted with made | ⟨-, foreseen⟩
  · unfold function? at made
    split at made
    · next operator head body =>
      split at made
      · next conditions =>
        obtain ⟨defines, native⟩ := conditions
        obtain ⟨params, named, rfl⟩ := Option.map_eq_some_iff.mp made
        let variadic := operator == Syntax.variadicToken
        have ran : (run host (bound + 2 + nested)).eval (.operation operator head body) state =
            .ok (.function state.heap.functions.size) (state.captured params body variadic) := by
          rw [show bound + 2 + nested = bound + 1 + nested + 1 by omega]
          exact (run_definition defines (describes.native native)).trans
            (definition_of_parameters named state)
        have assigned := assign_eq name (.function state.heap.functions.size)
          (state.captured params body variadic)
        rw [State.assigned_captured] at assigned
        refine ⟨_, _, (bind_of_ok ran).trans (bind_of_ok assigned),
          describes.named free ?_ (.push_function _ _)
            ⟨_, _, rfl, Array.getElem?_push_size, describes.code_fits operator params body [name]⟩⟩
        exact fun _ used => used
      · cases made
    · cases made
  · obtain ⟨foreseen, rigid⟩ := Option.filter_eq_some_iff.mp foreseen
    obtain ⟨value, heap, ran, grows, fits⟩ : Yields (trait.Fits state.scope)
        ((run host (bound + 2 + nested)).eval node) state :=
      gives_of_trait? foreseen state describes
    refine ⟨value, { state with heap := heap, scope := state.scope.bind name value }, ?_,
      describes.named free (by simp [Trait.uses_of_rigid rigid]) grows fits⟩
    have assigned := assign_eq name value { state with heap := heap }
    rw [State.assigned, fits.anchored rigid] at assigned
    exact (bind_of_ok ran).trans (bind_of_ok assigned)

/-! ## Operators -/

/-- The outline with an operator, which has been placed. -/
def operated (outline : Outline) (levels : Syntax.Levels) (token : String) (eager : Bool)
    (trait : Trait) : Outline :=
  { outline with
    levels := levels
    operators := (token, eager, trait) :: outline.operators }

theorem Describes.operated {outline : Outline} {state : State} (describes : outline.Describes state)
    {table : OperatorTable} {token : String} {precedence : Float} {value : Value} {eager : Bool}
    {trait : Trait}
    (placed : state.scope.operators.define ⟨token, precedence, .left, false⟩ ⟨value, eager⟩ =
      .ok table)
    (known : ∀ use ∈ trait.uses, use ∈ outline.bound)
    (fits : trait.Fits state.scope state.heap value) :
    (outline.operated table.levels token eager trait).Describes
      { state with scope := { state.scope with operators := table } } := by
  obtain ⟨-, implementations, -⟩ := OperatorTable.define_eq_ok placed
  have fits' {trait : Trait} {value : Value} (fits : trait.Fits state.scope state.heap value) :
      trait.Fits { state.scope with operators := table } state.heap value :=
    fits.later (.refl _) fun _ _ _ found => found
  refine ⟨describes.depth, rfl, fun found => (describes.names found).imp fun _ ⟨bound, fits⟩ =>
    ⟨bound, fits' fits⟩, describes.absent, fun {other} free => ?_,
    fun {other eager' trait'} found => ?_, fun trait' member use used => ?_⟩
  · have free := (lookup_cons token (eager, trait) outline.operators other).symm.trans free
    show table.implementations.get? other = none
    rw [implementations, Dict.get?_insert]
    split at free
    · cases free
    · next different =>
      rw [if_neg (Ne.symm different)]
      exact describes.native free
  · have found := (lookup_cons token (eager, trait) outline.operators other).symm.trans found
    show ∃ value, table.implementations.get? other = some ⟨value, eager'⟩ ∧ _
    rw [implementations, Dict.get?_insert]
    split at found
    · next same =>
      cases found
      exact ⟨value, if_pos same.symm, fits' fits⟩
    · next different =>
      rw [if_neg (Ne.symm different)]
      exact (describes.implemented found).imp fun _ ⟨defined, fits⟩ => ⟨defined, fits' fits⟩
  · simp only [Outline.traits, Outline.operated, List.map_cons, List.mem_append, List.mem_cons]
      at member
    rcases member with member | rfl | member
    · exact describes.known trait' (List.mem_append_left _ member) use used
    · exact known use used
    · exact describes.known trait' (List.mem_append_right _ member) use used

/-- An operator that the levels of the outline have room for can be defined. -/
theorem Describes.exists_table {outline : Outline} {state : State}
    (describes : outline.Describes state) {definition : Syntax.Definition} {levels : Syntax.Levels}
    (placed : (outline.levels.define definition).toOption = some levels)
    (implementation : Implementation) : ∃ table : OperatorTable, table.levels = levels ∧
      state.scope.operators.define definition implementation = .ok table ∧
      state.scope.define definition implementation =
        .ok { state.scope with operators := table } := by
  have levelled : state.scope.operators.levels.define definition = .ok levels := by
    rw [describes.levels]
    revert placed
    cases outline.levels.define definition with
    | error error => nofun
    | ok levels' => exact fun placed => congrArg Except.ok (Option.some.inj placed)
  let table : OperatorTable := ⟨levels,
    state.scope.operators.implementations.insert definition.token implementation,
    state.scope.operators.generation + 1⟩
  have tabled : state.scope.operators.define definition implementation = .ok table := by
    unfold OperatorTable.define
    rw [levelled]
    rfl
  refine ⟨table, rfl, tabled, ?_⟩
  unfold Scope.define
  rw [tabled]
  rfl

/-- What the definition of an operator leads to. -/
def placed? (outline : Outline) (nested : Nat) (operator : String) (left right : Node) :
    Option Outline :=
  match left, right with
  | .text _ [.literal token], .list [level, implementation] =>
      match outline.trait? nested level, outline.trait? nested implementation with
      | some (.number precedence), some trait =>
          if precedence.isReal ∧ trait.implements then
            (outline.levels.define ⟨token, precedence.real, .left, false⟩).toOption.map
              fun levels => outline.operated levels token (operator == Syntax.operatorBindToken) trait
          else none
      | _, _ => none
  | _, _ => none

/-- A precedence and a function in a list. -/
private def Holds (scope : Scope) (precedence : Number) (trait : Trait) (heap : Heap)
    (form : Value) : Prop :=
  ∃ handle function, form = .list handle ∧
    heap.lists[handle]? = some #[.number precedence, function] ∧ trait.Fits scope heap function

private theorem Describes.formed {outline : Outline} {state : State}
    (describes : outline.Describes state) {host : Host} {bound nested : Nat}
    {level implementation : Node} {precedence : Number} {trait : Trait}
    (foreseenLevel : outline.trait? nested level = some (.number precedence))
    (foreseen : outline.trait? nested implementation = some trait) :
    Yields (Holds state.scope precedence trait)
      ((run host (bound + 2 + nested + 1)).eval (.list [level, implementation])) state := by
  have row : Yields (fun heap values => ∃ function,
      values = [.number precedence, function] ∧ trait.Fits state.scope heap function)
      ([level, implementation].mapM (run host (bound + 2 + nested)).eval) state := by
    simp only [List.mapM_cons, List.mapM_nil, bind_assoc, pure_bind]
    refine (gives_of_trait? foreseenLevel state describes).bind fun first heap grows isNumber => ?_
    have second : Yields (trait.Fits state.scope)
        ((run host (bound + 2 + nested)).eval implementation) { state with heap := heap } :=
      gives_of_trait? foreseen _ (describes.grows grows)
    refine second.bind fun function later _ fits => ?_
    exact ⟨[first, function], later, rfl, .refl later, function, by rw [isNumber], fits⟩
  refine row.bind fun values heap _ found => ?_
  obtain ⟨function, rfl, fits⟩ := found
  exact ⟨_, _, rfl, .push_list heap _, _, function, rfl, Array.getElem?_push_size,
    fits.grows (.push_list heap _)⟩

private theorem definitionParts_pair {state : State} {handle : Nat} {precedence function : Value}
    (cell : state.heap.lists[handle]? = some #[precedence, function]) :
    definitionParts (.list handle) state = .ok (precedence, none, function, false) state := by
  have read : (get : Eval State) state = .ok state state := rfl
  refine (bind_of_ok read).trans ?_
  rw [show state.heap.list handle = #[precedence, function] from OnHeap.getD_of_getElem? cell _]
  rfl

/-- The steps of a definition without an associativity: the precedence and the function are checked,
and the operator is placed. -/
private theorem operatorDefinition_of_parts {interpreter : Interpreter} {operator token : String}
    {left right : Node} {name form function : Value} {precedence : Number}
    {state written formed : State} {scope : Scope}
    (readName : interpreter.eval left state = .ok name written)
    (text : written.heap.Provides (.text token) name)
    (readForm : interpreter.eval right written = .ok form formed)
    (parts : definitionParts form formed = .ok (.number precedence, none, function, false) formed)
    (real : precedence.isReal)
    (checked : checkImplementation operator function formed = .ok () formed)
    (placed : formed.scope.define ⟨token, precedence.real, .left, false⟩
      ⟨function, operator == Syntax.operatorBindToken⟩ = .ok scope) :
    operatorDefinition interpreter operator left right state =
      .ok function { formed with scope := scope } := by
  have named : (OnHeap.textOf name "operator name" : Eval String) written = .ok token written :=
    onHeap_of_ok (Heap.textOf_of_provides text)
  have isReal : (ofOutcome ((Value.number precedence).asReal "precedence index")) formed =
      .ok precedence.real formed := by
    show ofOutcome (if precedence.isReal then .ok precedence.real else _) formed = _
    rw [if_pos real]
    rfl
  have leftward : (pure .left : Eval Syntax.Associativity) formed = .ok .left formed := rfl
  refine (bind_of_ok readName).trans ((bind_of_ok named).trans ?_)
  refine (bind_of_ok readForm).trans ((bind_of_ok parts).trans ?_)
  refine (bind_of_ok isReal).trans ((bind_of_ok leftward).trans ?_)
  exact (bind_of_ok checked).trans (bind_of_ok (defineOperator_of_ok placed))

/-- An operator is defined. -/
theorem Describes.definition {outline next : Outline} {state : State}
    (describes : outline.Describes state) {host : Host} {bound nested : Nat} {operator : String}
    {left right : Node}
    (defines : operator = Syntax.operatorBindToken ∨ operator = Syntax.macroBindToken)
    (predicted : outline.placed? nested operator left right = some next) :
    ∃ value reached,
      (run host (bound + 2 + nested + 2)).eval (.operation operator left right) state =
          .ok value reached ∧ next.Describes reached := by
  unfold placed? at predicted
  split at predicted
  · next source token level implementation =>
    split at predicted
    · next precedence trait foreseenLevel foreseen =>
      split at predicted
      · next conditions =>
        obtain ⟨real, implements⟩ := conditions
        obtain ⟨levels, placed, rfl⟩ := Option.map_eq_some_iff.mp predicted
        obtain ⟨name, heap, readName, grows, text⟩ : Yields (·.Provides (.text token))
            ((run host (bound + 2 + nested + 1)).eval (.text source [.literal token])) state :=
          yields_text (Heap.provides_push_text _ _)
        obtain ⟨_, later, readForm, grows', handle, function, rfl, cell, fits⟩ :
            Yields (Holds state.scope precedence trait)
              ((run host (bound + 2 + nested + 1)).eval (.list [level, implementation]))
              { state with heap := heap } :=
          (describes.grows grows).formed foreseenLevel foreseen
        have described := describes.grows (grows.trans grows')
        obtain ⟨table, rfl, tabled, inScope⟩ := described.exists_table placed
          ⟨function, operator == Syntax.operatorBindToken⟩
        have ran := operatorDefinition_of_parts readName text readForm (definitionParts_pair cell)
          real (fits.checkImplementation implements operator) inScope
        refine ⟨function, _, ?_, described.operated tabled (uses_of_trait? describes foreseen) fits⟩
        rcases defines with rfl | rfl
        · exact ran
        · exact ran
      · cases predicted
    · cases predicted
  · cases predicted

/-! ## Statements -/

/-- What a statement leads to. A name with a known value is not bound again. -/
def after? (outline : Outline) (nested : Nat) : Node → Option Outline
  | .operation operator left right =>
      if operator = Syntax.operatorBindToken ∨ operator = Syntax.macroBindToken then
        outline.placed? nested operator left right
      else
        match left with
        | .identifier name =>
            if operator = Syntax.bindToken ∧ name ∉ outline.bound then
              (outline.assigned? nested name right).map (outline.named name)
            else none
        | _ => none
  | _ => none

theorem Describes.after {outline next : Outline} {state : State}
    (describes : outline.Describes state) {host : Host} {bound nested : Nat} {node : Node}
    (predicted : outline.after? nested node = some next) :
    ∃ value reached,
      (run host (bound + 2 + nested + 2)).eval node state = .ok value reached ∧
        next.Describes reached := by
  unfold after? at predicted
  split at predicted
  · next operator left right =>
    split at predicted
    · next defines => exact describes.definition defines predicted
    · split at predicted
      · next name =>
        split at predicted
        · next conditions =>
          obtain ⟨rfl, free⟩ := conditions
          obtain ⟨trait, foreseen, rfl⟩ := Option.map_eq_some_iff.mp predicted
          rw [show bound + 2 + nested + 2 = bound + 1 + 2 + nested + 1 by omega]
          exact describes.binding free foreseen
        · cases predicted
      · cases predicted
  · cases predicted

/-- What a number of statements lead to, and the text behind them, given the statements into which
the text falls. -/
def load? (nested : Nat) : (count : Nat) → Outline → (text : List Char) →
    List Syntax.Statement → Option (Outline × List Char)
  | 0, outline, text, _ => some (outline, text)
  | _ + 1, _, _, [] => none
  | count + 1, outline, _, statement :: others =>
      match Syntax.parseStatement outline.levels (Syntax.parseBody outline.levels)
        statement.tokens with
      | .error _ => none
      | .ok node =>
          match outline.after? nested node with
          | none => none
          | some next =>
              if next.levels = outline.levels then
                load? nested count next statement.rest others
              else
                match Syntax.tokenize next.levels.isGlyph statement.rest with
                | .error _ => none
                | .ok others => load? nested count next statement.rest others

/-- From a state that one outline describes, a text goes on with another one, in a state that the
other outline describes. -/
def Leads (interpreter : Interpreter) (outline : Outline) (text : List Char) (next : Outline)
    (rest : List Char) : Prop :=
  ∀ state last, outline.Describes state → ∃ reached last', next.Describes reached ∧
    byStatement interpreter last text state = byStatement interpreter last' rest reached

theorem Leads.trans {interpreter : Interpreter} {outline next third : Outline}
    {text rest end' : List Char} (first : Leads interpreter outline text next rest)
    (second : Leads interpreter next rest third end') :
    Leads interpreter outline text third end' := by
  intro state last describes
  obtain ⟨reached, last', described, same⟩ := first state last describes
  obtain ⟨reached', last'', described', same'⟩ := second reached last' described
  exact ⟨reached', last'', described', same.trans same'⟩

theorem leads_of_load? {host : Host} {bound nested count : Nat} {outline next : Outline}
    {text rest : List Char} {statements : List Syntax.Statement}
    (divided : Syntax.tokenize outline.levels.isGlyph text = .ok statements)
    (loaded : load? nested count outline text statements = some (next, rest)) :
    Leads (run host (bound + 2 + nested + 2)) outline text next rest := by
  induction count generalizing outline text statements with
  | zero =>
      cases loaded
      exact fun state last describes => ⟨state, last, describes, rfl⟩
  | succ count inductionHypothesis =>
      cases statements with
      | nil => cases loaded
      | cons statement others =>
          unfold load? at loaded
          split at loaded
          · cases loaded
          · next node parsed =>
            split at loaded
            · cases loaded
            · next after predicted =>
              have behind := (Syntax.tokenize_rest divided).1
              have onward : Leads (run host (bound + 2 + nested + 2)) after statement.rest next
                  rest := by
                split at loaded
                · next same =>
                  rw [← same] at behind
                  exact inductionHypothesis behind loaded
                · split at loaded
                  · cases loaded
                  · next divided => exact inductionHypothesis divided loaded
              refine Leads.trans (fun state last describes => ?_) onward
              obtain ⟨value, reached, ran, described⟩ : ∃ value reached,
                  (run host (bound + 2 + nested + 2)).eval node state = .ok value reached ∧
                    after.Describes reached := describes.after predicted
              refine ⟨reached, value, described, ?_⟩
              rw [byStatement_eq last describes.levels, divided]
              dsimp only
              rw [parsed]
              exact (bind_of_ok rfl).trans (bind_of_ok ran)

end Outline

end Fixity
