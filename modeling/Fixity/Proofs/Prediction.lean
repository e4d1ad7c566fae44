import Fixity.Proofs.Constants
import Fixity.Proofs.Outline
import Fixity.Proofs.PartialApplication

/-!
Contract: what trees evaluate to in the states that an outline describes.

Owns:
- `Outline.trait?`, the trait that an outline predicts of the value of a tree, if the tree is one of
  those that definitions of a library are made of;
- `Outline.gives_of_trait?`: in a state that the outline describes, such a tree adds cells and ends
  with a value of that trait.

Does not own: statements, which change names and operators.
-/

namespace Fixity

open Eval

theorem Heap.textOf_of_provides {heap : Heap} {content role : String} {value : Value}
    (provides : heap.Provides (.text content) value) :
    OnHeap.textOf value role heap = .ok content heap := by
  cases provides with
  | @text handle _ cell =>
      show EStateM.Result.ok (heap.text handle) heap = _
      rw [show heap.text handle = content from OnHeap.getD_of_getElem? cell _]

/-! ## Definitions -/

theorem Eval.namesOf_of_mapM_name? {fault : Node → RuntimeError} {items : List Node}
    {params : List String} (named : items.mapM Node.name? = some params) :
    namesOf fault items = .ok params := by
  induction items generalizing params with
  | nil =>
      cases named
      rfl
  | cons item items inductionHypothesis =>
      rw [List.mapM_cons] at named
      obtain ⟨name, isName, named⟩ := Option.bind_eq_some_iff.mp named
      obtain ⟨names, areNames, made⟩ := Option.bind_eq_some_iff.mp named
      cases made
      rw [namesOf, isName, inductionHypothesis areNames]
      rfl

/-- A definition whose head names parameters makes a function. -/
theorem Eval.definition_of_parameters {operator : String} {head body : Node} {params : List String}
    (named : head.parameters? = some params) (state : State) :
    definition operator head body state = .ok (.function state.heap.functions.size)
      (state.captured params body (operator == Syntax.variadicToken)) := by
  cases head with
  | identifier name =>
      cases named
      rfl
  | list items =>
      show (ofOutcome (namesOf _ items) >>= _) state = _
      rw [namesOf_of_mapM_name? named]
      rfl
  | _ => cases named

namespace Outline

variable (outline : Outline)

/-- Evaluation of a tree, in a state that the outline describes, adds cells and ends with a value
that has a trait. -/
def Gives (interpreter : Interpreter) (node : Node) (trait : Trait) : Prop :=
  ∀ state, outline.Describes state → Yields (trait.Fits state.scope) (interpreter.eval node) state

/-- The function that a definition makes. -/
def code (operator : String) (params : List String) (body : Node) : Code where
  params := params
  body := body
  variadic := operator == Syntax.variadicToken
  anchors := []
  uses := outline.bound
  lacks := outline.absent

/-- What a definition makes. -/
def definition? (operator : String) (head body : Node) : Option Trait :=
  head.parameters?.map fun params => .function (outline.code operator params body)

section Known

variable (known : Node → Option Trait)

/-- What a callable makes that is supplied with some arguments. -/
def supplied? (left right : Node) : Option Trait :=
  if (known left).any Trait.applicable ∧
      ∀ template ∈ templatesOf right, IsSlot template ∨ (known template).isSome then
    some .builtin
  else none

/-- The level of an operator. -/
def priority? (left right : Node) : Option Trait :=
  match known left, known right with
  | some (.native .opPriority), some (.text token) =>
      (outline.levels.levelOf? token).map fun level => .number (.ofNat level)
  | _, _ => none

/-- What an arithmetic operator makes of two numbers. -/
def arithmetic? (operator : BinaryOperator) (left right : Node) : Option Trait :=
  match known left, known right with
  | some (.number first), some (.number second) =>
      (Number.apply operator first second).toOption.map .number
  | _, _ => none

/-- What an operator makes whose function has a definition as its body. -/
def composed? (code : Code) (left right : Node) : Option Trait :=
  match code.params, code.variadic, code.body with
  | [_, _], false, .operation operator head body =>
      if (known left).isSome && (known right).isSome &&
          (operator = Syntax.definitionToken ∨ operator = Syntax.variadicToken) &&
          (outline.operators.lookup operator).isNone then
        head.parameters?.map fun params =>
          .function ⟨params, body, operator == Syntax.variadicToken, [], [], []⟩
      else none
  | _, _, _ => none

/-- What an operation makes. -/
def operation? (operator : String) (left right : Node) : Option Trait :=
  if operator ∈ Syntax.reservedTokens then none
  else
    match outline.operators.lookup operator with
    | some (true, .function code) => outline.composed? known code left right
    | some _ => none
    | none =>
        if operator = Syntax.definitionToken ∨ operator = Syntax.variadicToken then
          outline.definition? operator left right
        else if operator = Syntax.partialToken then supplied? known left right
        else if operator = Syntax.applicationToken then outline.priority? known left right
        else (BinaryOperator.ofToken? operator).bind (arithmetic? known · left right)

end Known

/-- What a tree evaluates to, as far as it is nested no deeper than a bound. -/
def trait? : Nat → Node → Option Trait
  | 0, _ => none
  | bound + 1, node =>
      match node with
      | .number content => some (.number content)
      | .text _ [.literal content] => some (.text content)
      | .identifier name => outline.names.lookup name
      | .operation operator left right => outline.operation? (trait? bound) operator left right
      | _ => none

variable {outline}

theorem Describes.lookup?_of_bound {state : State} (describes : outline.Describes state)
    {name : String} (bound : name ∈ outline.bound) :
    ∃ value, state.scope.lookup? name = some value := by
  obtain ⟨⟨name, trait⟩, member, rfl⟩ := List.mem_map.mp bound
  dsimp only
  cases found : outline.names.lookup name with
  | none => simpa using List.lookup_eq_none_iff.mp found _ member
  | some trait => exact (describes.names found).imp fun _ ⟨bound, _⟩ => bound

theorem Describes.code_fits {state : State} (describes : outline.Describes state)
    (operator : String) (params : List String) (body : Node) (names : List String) :
    Code.Fits state.scope { outline.code operator params body with anchors := names }
      ⟨params, body, state.scope.bindings, operator == Syntax.variadicToken, names⟩ where
  params := rfl
  body := rfl
  variadic := rfl
  anchors := rfl
  uses _ used := (describes.lookup?_of_bound used).imp fun _ found => ⟨found, found⟩
  lacks := describes.absent

/-- A function with fixed parameters does what its body does. -/
private theorem yields_application {host : Host} {bound handle : Nat} {arguments : List Value}
    {state : State} {function : Function} {Shows : Heap → Value → Prop}
    (room : state.depth < maxDepth) (cell : state.heap.functions[handle]? = some function)
    (fixed : function.variadic = false) (count : arguments.length = function.params.length)
    (yields : Yields Shows ((run host bound).eval function.body)
      (entry handle arguments state)) :
    Yields Shows (run host (bound + 1) (.application (.function handle) arguments)) state := by
  have found : state.heap.function handle = function := OnHeap.getD_of_getElem? cell _
  have accepts : (state.heap.function handle).origin.Accepts arguments.length := by
    unfold Origin.Accepts Function.origin
    rw [found, fixed]
    exact count
  have plain : ¬ (state.heap.function handle).origin.Gathers := by
    rintro ⟨gathers, -⟩
    rw [found] at gathers
    exact absurd (fixed.symm.trans gathers) (by decide)
  have start : (entry handle arguments state).heap = state.heap := if_neg plain
  obtain ⟨names, same⟩ := @step_of_accepts host _ _ _ accepts room
  obtain ⟨value, heap, ran, grows, shows⟩ := yields
  rw [start] at grows
  have ran : run host bound (.tree function.body) (entry handle arguments state) = _ := ran
  refine ⟨value, heap, ?_, grows, shows⟩
  show step host bound (run host bound) (.application (.function handle) arguments) state = _
  rw [same, found, ensuring, ran]
  rfl

/-- The level of an operator that is listed. -/
private theorem priority_of_listed {state : State} {value : Value} {token : String} {level : Nat}
    (provides : state.heap.Provides (.text token) value)
    (listed : state.scope.operators.levels.levelOf? token = some level) :
    Reflection.priority value state = .ok (.ofNat level) state := by
  have read : OnHeap.textOf value "the operator" state.heap = .ok token state.heap :=
    Heap.textOf_of_provides provides
  have current : Eval.levels state = .ok state.scope.operators.levels state := rfl
  refine (bind_of_ok (onHeap_of_ok read)).trans ((bind_of_ok current).trans ?_)
  rw [listed]
  rfl

section Rules

variable {host : Host} {bound : Nat} {known : Node → Option Trait} {left right : Node}
  {operator : String} {trait : Trait}

theorem gives_definition (defines : operator = Syntax.definitionToken ∨
      operator = Syntax.variadicToken)
    (native : outline.operators.lookup operator = none)
    (predicted : outline.definition? operator left right = some trait) :
    outline.Gives (run host (bound + 1)) (.operation operator left right) trait := by
  obtain ⟨params, named, rfl⟩ := Option.map_eq_some_iff.mp predicted
  intro state describes
  have ran : run host (bound + 1) (.tree (.operation operator left right)) state = _ :=
    (run_definition defines (describes.native native)).trans (definition_of_parameters named state)
  refine ⟨_, _, ran, .push_function _ _, _, _, rfl, Array.getElem?_push_size, ?_⟩
  exact describes.code_fits operator params right []

variable (each : ∀ node trait, known node = some trait →
  outline.Gives (run host (bound + 2)) node trait)
include each

private theorem yields_callable {node : Node} {trait : Trait} {state : State}
    (found : known node = some trait) (applies : trait.applicable)
    (describes : outline.Describes state) (operator : String) :
    Yields (trait.Fits state.scope) (callable (run host (bound + 2)) operator node) state := by
  refine (each node trait found state describes).bind fun callee heap grows fits => ?_
  have callable : callee.isCallable := fits.isCallable applies
  exact ⟨callee, heap, if_pos callable ▸ rfl, .refl heap, fits⟩

theorem gives_supplied (native : outline.operators.lookup Syntax.partialToken = none)
    (predicted : supplied? known left right = some trait) :
    outline.Gives (run host (bound + 3)) (.operation Syntax.partialToken left right) trait := by
  unfold supplied? at predicted
  split at predicted
  · next conditions =>
    obtain ⟨applies, templates⟩ := conditions
    obtain ⟨callee, predictedLeft, applies⟩ := (Option.any_eq_true _ _).mp applies
    cases predicted
    intro state describes
    refine .of_eq (operation_of_native (by decide) (describes.native native)) ?_
    show Yields _ (partialApplication (run host (bound + 2)) left right) state
    rw [partialApplication_eq]
    refine (yields_callable each predictedLeft applies describes _).bind
      fun callee heap grows _ => ?_
    -- The values of the templates do not matter.
    have filled : Yields (fun heap values => List.Forall₂ (fun _ _ => True) (templatesOf right)
        values) ((templatesOf right).mapM (fixTemplate (run host (bound + 2))))
        { state with heap := heap } := by
      refine .mapM (fun _ _ _ _ _ _ => trivial) (fun template member later grown => ?_) (.refl heap)
      unfold fixTemplate
      split
      · exact ⟨none, later, rfl, .refl later, trivial⟩
      · next noSlot =>
        obtain ⟨trait, foreseen⟩ := Option.isSome_iff_exists.mp
          ((templates template member).resolve_left noSlot)
        refine (each template trait foreseen _ (describes.grows (grows.trans grown))).bind
            fun value _ _ _ => ⟨some value, _, rfl, .refl _, trivial⟩
    refine filled.bind fun fixed later grows' _ => ?_
    exact ⟨_, _, rfl, .push_builtin later _, _, rfl⟩
  · cases predicted

theorem gives_priority (native : outline.operators.lookup Syntax.applicationToken = none)
    (predicted : outline.priority? known left right = some trait) :
    outline.Gives (run host (bound + 3)) (.operation Syntax.applicationToken left right) trait := by
  unfold priority? at predicted
  split at predicted
  · next token callee argument =>
    obtain ⟨level, listed, rfl⟩ := Option.map_eq_some_iff.mp predicted
    intro state describes
    refine .of_eq (operation_of_native (by decide) (describes.native native)) ?_
    show Yields _ (application (run host (bound + 2)) Syntax.applicationToken left right) state
    refine (yields_callable each callee rfl describes _).bind fun callee heap grows isNative => ?_
    refine (each right _ argument _ (describes.grows grows)).bind fun value later grows' text => ?_
    obtain ⟨handle, label, rfl, cell⟩ := Heap.IsNative.grows isNative grows'
    cases text with
    | @text text _ written =>
        let reached : State := { state with heap := later }
        have levels : reached.scope.operators.levels.levelOf? token = some level :=
          (congrArg (·.levelOf? token) describes.levels).trans listed
        have called : callBuiltin host (run host (bound + 1)) (later.builtin handle)
            [.text text] reached = .ok (.ofNat level) reached := by
          rw [show later.builtin handle = ⟨label, .native .opPriority⟩ from
            OnHeap.getD_of_getElem? cell _]
          exact priority_of_listed (.text written) levels
        exact ⟨.ofNat level, later, called, .refl later, rfl⟩
  · cases predicted

theorem gives_arithmetic {operator : BinaryOperator}
    (native : outline.operators.lookup operator.token = none)
    (predicted : arithmetic? known operator left right = some trait) :
    outline.Gives (run host (bound + 3)) (.operation operator.token left right) trait := by
  unfold arithmetic? at predicted
  split at predicted
  · next first second predictedLeft predictedRight =>
    obtain ⟨result, applied, rfl⟩ := Option.map_eq_some_iff.mp predicted
    intro state describes
    have free : operator.token ∉ Syntax.reservedTokens := by
      cases operator <;> decide
    refine .of_eq (operation_of_native free (describes.native native)) ?_
    rw [Does.nativeOperation_token]
    refine (each left _ predictedLeft state describes).bind fun value heap grows isFirst => ?_
    refine (each right _ predictedRight _ (describes.grows grows)).bind
      fun value' later grows' isSecond => ?_
    cases isFirst
    cases isSecond
    refine ⟨.number result, later, onHeap_of_ok ((Does.binary_numbers _ _ _ _).trans ?_),
      .refl later, rfl⟩
    cases ran : Number.apply operator first second with
    | error error =>
        rw [ran] at applied
        cases applied
    | ok value =>
        rw [ran] at applied
        cases applied
        rfl
  · cases predicted

theorem gives_composed {code : Code} (free : operator ∉ Syntax.reservedTokens)
    (implemented : outline.operators.lookup operator = some (true, .function code))
    (predicted : outline.composed? known code left right = some trait) :
    outline.Gives (run host (bound + 3)) (.operation operator left right) trait := by
  unfold composed? at predicted
  split at predicted
  · next first second arrow head body params fixed shape =>
    split at predicted
    · next conditions =>
      simp only [Bool.and_eq_true, decide_eq_true_eq, Option.isNone_iff_eq_none,
        Option.isSome_iff_exists] at conditions
      obtain ⟨⟨⟨⟨_, foreseenLeft⟩, ⟨_, foreseenRight⟩⟩, defines⟩, native⟩ := conditions
      obtain ⟨params', named, rfl⟩ := Option.map_eq_some_iff.mp predicted
      intro state describes
      obtain ⟨function, defined, fits⟩ := describes.implemented implemented
      refine .of_eq (operation_of_implemented free defined) ?_
      refine (each left _ foreseenLeft state describes).bind fun value heap grows _ => ?_
      refine (each right _ foreseenRight _ (describes.grows grows)).bind
        fun value' later grows' _ => ?_
      obtain ⟨handle, cell, rfl, found, fits⟩ := fits.grows (grows.trans grows')
      let reached : State := { state with heap := later }
      let inside : State := entry handle [value, value'] reached
      have unimplemented : inside.scope.operators.implementations.get? arrow = none := by
        show (Scope.pushAll _ _).operators.implementations.get? arrow = none
        rw [Scope.operators_pushAll]
        exact describes.native native
      have made : (run host (bound + 1)).eval cell.body inside =
          .ok (.function inside.heap.functions.size)
            (inside.captured params' body (arrow == Syntax.variadicToken)) := by
        rw [fits.body, shape]
        exact (run_definition defines unimplemented).trans (definition_of_parameters named inside)
      refine yields_application describes.room found (fits.variadic.trans fixed) ?_
        ⟨_, _, made, .push_function _ _,
          ⟨_, _, rfl, Array.getElem?_push_size, rfl, rfl, rfl, rfl, nofun, nofun⟩⟩
      rw [fits.params, params]
      rfl
    · cases predicted
  · cases predicted

theorem gives_operation (predicted : outline.operation? known operator left right = some trait) :
    outline.Gives (run host (bound + 3)) (.operation operator left right) trait := by
  unfold operation? at predicted
  split at predicted
  · cases predicted
  · next free =>
    split at predicted
    · next code implemented => exact gives_composed each free implemented predicted
    · cases predicted
    · next native =>
      split at predicted
      · next defines => exact gives_definition defines native predicted
      split at predicted
      · next supplies =>
        rw [supplies] at native ⊢
        exact gives_supplied each native predicted
      split at predicted
      · next applies =>
        rw [applies] at native ⊢
        exact gives_priority each native predicted
      · obtain ⟨binary, listed, predicted⟩ := Option.bind_eq_some_iff.mp predicted
        have spelled : binary.token = operator := by
          simpa using List.find?_some listed
        rw [← spelled] at native ⊢
        exact gives_arithmetic each native predicted

end Rules

private theorem uses_of_operation? {known : Node → Option Trait} {operator : String}
    {left right : Node} {trait : Trait}
    (predicted : outline.operation? known operator left right = some trait) :
    trait.uses = [] ∨ trait.uses = outline.bound := by
  unfold operation? at predicted
  split at predicted
  · cases predicted
  split at predicted
  · unfold composed? at predicted
    split at predicted
    · split at predicted
      · obtain ⟨params, -, rfl⟩ := Option.map_eq_some_iff.mp predicted
        exact .inl rfl
      · cases predicted
    · cases predicted
  · cases predicted
  · split at predicted
    · obtain ⟨params, -, rfl⟩ := Option.map_eq_some_iff.mp predicted
      exact .inr rfl
    split at predicted
    · unfold supplied? at predicted
      split at predicted
      · cases predicted
        exact .inl rfl
      · cases predicted
    split at predicted
    · unfold priority? at predicted
      split at predicted
      · obtain ⟨level, -, rfl⟩ := Option.map_eq_some_iff.mp predicted
        exact .inl rfl
      · cases predicted
    · obtain ⟨binary, -, predicted⟩ := Option.bind_eq_some_iff.mp predicted
      unfold arithmetic? at predicted
      split at predicted
      · obtain ⟨result, -, rfl⟩ := Option.map_eq_some_iff.mp predicted
        exact .inl rfl
      · cases predicted

/-- A predicted trait depends on names with a value alone. -/
theorem uses_of_trait? {state : State} (describes : outline.Describes state) {nested : Nat}
    {node : Node} {trait : Trait} (predicted : outline.trait? nested node = some trait) :
    ∀ use ∈ trait.uses, use ∈ outline.bound := by
  cases nested with
  | zero => cases predicted
  | succ nested =>
      unfold trait? at predicted
      split at predicted
      · cases predicted
        nofun
      · cases predicted
        nofun
      · exact describes.known trait (mem_traits_of_names predicted)
      · rcases uses_of_operation? predicted with none | all
        · rw [none]
          nofun
        · rw [all]
          exact fun _ used => used
      · cases predicted

/-- What an outline predicts of a tree is true in every state that it describes. -/
theorem gives_of_trait? {host : Host} {bound nested : Nat} {node : Node} {trait : Trait}
    (predicted : outline.trait? nested node = some trait) :
    outline.Gives (run host (bound + 2 + nested)) node trait := by
  induction nested generalizing node trait with
  | zero => cases predicted
  | succ nested inductionHypothesis =>
      rw [show bound + 2 + (nested + 1) = bound + nested + 3 by omega]
      rw [show bound + 2 + nested = bound + nested + 2 by omega] at inductionHypothesis
      intro state describes
      unfold trait? at predicted
      split at predicted
      · cases predicted
        exact yields_number rfl
      · cases predicted
        exact yields_text (Heap.provides_push_text _ _)
      · next name =>
        obtain ⟨value, found, fits⟩ := describes.names predicted
        exact ⟨value, state.heap, (stages_run host).identifier found, .refl _, fits⟩
      · exact gives_operation (fun _ _ => inductionHypothesis) predicted state describes
      · cases predicted

end Outline

end Fixity
