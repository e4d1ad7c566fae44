import Mathlib.Data.List.Forall2
import Fixity.Proofs.Counts
import Fixity.Proofs.Settling

/-!
Contract: functions written in the language that put syntax trees together.

Owns:
- `Material`, what such functions work on, and `Heap.Provides`, the values that stand for it;
- `Eval.Prepares` and `Eval.Delivers`, the evaluations and applications that add cells and come to
  some of it, unless they meet the limit on calls;
- `Routine`, a function told by the names that it uses, and `Heap.Stands`, the heaps in which a
  library has it;
- one law for each kind of tree that the bodies of such functions are made of, and one for each
  native function that reads trees.

Does not own: the functions of the standard library.
-/

namespace Fixity

open Eval

theorem OnHeap.get_ran (heap : Heap) : (get : OnHeap Heap) heap = .ok heap heap := rfl

theorem OnHeap.ofOutcome_ran {α : Type} {outcome : Outcome α} {value : α} (heap : Heap)
    (ok : outcome = .ok value) : OnHeap.ofOutcome outcome heap = .ok value heap := by
  rw [ok]
  rfl

/-- What trees are put together from: other trees, texts for their operators, and numbers for
places. -/
inductive Material where
  | tree (node : Node)
  | text (content : String)
  | number (number : Number)

namespace Heap

/-- A value stands for such a thing. -/
inductive Provides (heap : Heap) : Material → Value → Prop
  | tree {handle : Nat} {node : Node} (cell : heap.nodes[handle]? = some node) :
      Provides heap (.tree node) (.node handle)
  | text {handle : Nat} {content : String} (cell : heap.texts[handle]? = some content) :
      Provides heap (.text content) (.text handle)
  | number (number : Number) : Provides heap (.number number) (.number number)

/-- A value is a certain native function. -/
def IsNative (heap : Heap) (native : Native) (value : Value) : Prop :=
  ∃ handle label, value = .builtin handle ∧
    heap.builtins[handle]? = some ⟨label, .native native⟩

variable {heap later : Heap} {material : Material} {materials : List Material} {value : Value}
  {values : List Value} {native : Native}

theorem Provides.grows (provides : heap.Provides material value) (grows : heap.Grows later) :
    later.Provides material value := by
  cases provides with
  | tree cell => exact .tree (getElem?_of_prefixed grows.nodes cell)
  | text cell => exact .text (getElem?_of_prefixed grows.texts cell)
  | number number => exact .number number

theorem forall₂_provides_grows (provide : List.Forall₂ heap.Provides materials values)
    (grows : heap.Grows later) : List.Forall₂ later.Provides materials values :=
  provide.imp fun _ _ provides => provides.grows grows

theorem IsNative.grows (isNative : heap.IsNative native value) (grows : heap.Grows later) :
    later.IsNative native value := by
  obtain ⟨handle, label, known, cell⟩ := isNative
  exact ⟨handle, label, known, getElem?_of_prefixed grows.builtins cell⟩

theorem IsNative.isCallable (isNative : heap.IsNative native value) : value.isCallable := by
  obtain ⟨handle, label, rfl, cell⟩ := isNative
  rfl

theorem Grows.push_builtin (heap : Heap) (content : Builtin) :
    heap.Grows { heap with builtins := heap.builtins.push content } :=
  { Grows.refl heap with builtins := by simp }

theorem provides_push_node (heap : Heap) (node : Node) :
    Provides { heap with nodes := heap.nodes.push node } (.tree node) (.node heap.nodes.size) :=
  .tree Array.getElem?_push_size

theorem provides_push_text (heap : Heap) (content : String) :
    Provides { heap with texts := heap.texts.push content } (.text content)
      (.text heap.texts.size) :=
  .text Array.getElem?_push_size

end Heap

/-! ## Functions of a library -/

/-- A function written in the language, told by the names that it uses. -/
structure Routine where
  name : String
  params : List String
  variadic : Bool
  body : Node
  uses : List String

namespace Routine

/-- What the parameters receive depends on these alone. -/
def origin (routine : Routine) : Origin := ⟨routine.params, routine.variadic, ∅⟩

/-- The parameters hide none of the names that the body needs. -/
def Proper (routine : Routine) : Prop :=
  ∀ name ∈ routine.name :: routine.uses, name ∉ routine.params ∧ name ≠ selfName

instance (routine : Routine) : Decidable routine.Proper :=
  inferInstanceAs (Decidable (∀ name ∈ routine.name :: routine.uses, _))

/-- In a scope the body finds what it needs. -/
structure Knows (routine : Routine) (library : String → Value) (values : List Value)
    (scope : Scope) : Prop where
  functions : ∀ name ∈ routine.name :: routine.uses, scope.lookup? name = some (library name)
  params : ∀ {name value}, name ≠ selfName →
    (routine.params.zip values).reverse.lookup name = some value →
      scope.lookup? name = some value

end Routine

/-- A library has a function under its name. The function knows its name, and it knows the functions
that it uses under their names; it was bound to none of these. -/
def Heap.Stands (heap : Heap) (library : String → Value) (routine : Routine) : Prop :=
  ∃ handle closure anchors, library routine.name = .function handle ∧
    heap.functions[handle]? =
      some ⟨routine.params, routine.body, closure, routine.variadic, anchors⟩ ∧
    routine.name ∈ anchors ∧
    ∀ use ∈ routine.uses, use ∉ anchors ∧ Remembers closure use (library use)

namespace Origin

variable {origin : Origin} {self value : Value} {names : List String} {values : List Value}
  {around : Scope} {name : String}

theorem meaning_of_given (notOwn : name ≠ selfName)
    (given : (origin.params.zip values).reverse.lookup name = some value) :
    origin.meaning self names values around name = some value := by
  unfold meaning
  rw [if_neg notOwn, given]

theorem meaning_of_anchored (notOwn : name ≠ selfName)
    (hidden : (origin.params.zip values).reverse.lookup name = none) (anchored : name ∈ names) :
    origin.meaning self names values around name = some self := by
  unfold meaning
  rw [if_neg notOwn, hidden]
  exact if_pos anchored

theorem meaning_of_remembered (notOwn : name ≠ selfName)
    (hidden : (origin.params.zip values).reverse.lookup name = none) (unanchored : name ∉ names)
    (remembers : Remembers origin.visible name value) :
    origin.meaning self names values around name = some value := by
  unfold meaning
  rw [if_neg notOwn, hidden]
  refine (if_neg unanchored).trans ?_
  unfold Remembers at remembers
  cases known : origin.visible.get? name with
  | none =>
      rw [known] at remembers
      cases remembers
  | some stack =>
      rw [known] at remembers
      exact remembers

end Origin

namespace Heap.Stands

variable {heap later : Heap} {library : String → Value} {routine : Routine}

theorem grows (stands : heap.Stands library routine) (grows : heap.Grows later) :
    later.Stands library routine := by
  obtain ⟨handle, closure, anchors, known, cell, rest⟩ := stands
  exact ⟨handle, closure, anchors, known, getElem?_of_prefixed grows.functions cell, rest⟩

theorem isCallable (stands : heap.Stands library routine) :
    (library routine.name).isCallable := by
  obtain ⟨handle, closure, anchors, known, rest⟩ := stands
  rw [known]
  rfl

/-- What an application of the function starts from. -/
theorem exists_entry (stands : heap.Stands library routine) (proper : routine.Proper)
    (state : State) (grows : heap.Grows state.heap) (arguments : List Value)
    (accepts : routine.origin.Accepts arguments.length) :
    ∃ handle, library routine.name = .function handle ∧
      (state.heap.function handle).origin.Accepts arguments.length ∧
      (state.heap.function handle).body = routine.body ∧
      (entry handle arguments state).heap = routine.origin.gathered arguments state.heap ∧
      routine.Knows library (routine.origin.values arguments state.heap)
        (entry handle arguments state).scope := by
  obtain ⟨handle, closure, anchors, known, cell, own, uses⟩ := stands
  have found : state.heap.function handle =
      ⟨routine.params, routine.body, closure, routine.variadic, anchors⟩ :=
    OnHeap.getD_of_getElem? (getElem?_of_prefixed grows.functions cell) _
  have meaning := lookup?_entry handle arguments state
  refine ⟨handle, known, ?_, ?_, ?_, fun name used => ?_, fun {name value} notOwn given => ?_⟩
  · rw [found]
    exact accepts
  · rw [found]
  · show Origin.gathered (state.heap.function handle).origin _ _ = _
    rw [found]
    rfl
  · obtain ⟨free, notOwn⟩ := proper name used
    have hidden : (routine.params.zip (routine.origin.values arguments state.heap)).reverse.lookup
        name = none := by
      refine List.lookup_eq_none_iff.mpr fun entry member => bne_iff_ne.mpr ?_
      rintro rfl
      exact free (List.of_mem_zip (List.mem_reverse.mp member)).1
    refine (meaning name).trans ?_
    rw [found]
    rcases List.mem_cons.mp used with rfl | used
    · exact (Origin.meaning_of_anchored notOwn hidden own).trans (congrArg some known.symm)
    · obtain ⟨notAnchor, remembers⟩ := uses name used
      exact Origin.meaning_of_remembered notOwn hidden notAnchor remembers
  · refine (meaning name).trans ?_
    rw [found]
    exact Origin.meaning_of_given notOwn given

end Heap.Stands

namespace Eval

variable {host : Host} {course : Course host}

/-- Cells have been added, and a value stands for some material. -/
def Adds (state : State) (material : Material) (value : Value) (reached : State) : Prop :=
  ∃ heap, reached = { state with heap := heap } ∧ state.heap.Grows heap ∧
    heap.Provides material value

/-- The same, but the scope may be another one. -/
def Finishes (state : State) (material : Material) (value : Value) (reached : State) : Prop :=
  ∃ heap scope, reached = { state with heap := heap, scope := scope } ∧ state.heap.Grows heap ∧
    heap.Provides material value

/-- The same for a row of values. -/
def AddsAll (state : State) (materials : List Material) (values : List Value) (reached : State) :
    Prop :=
  ∃ heap, reached = { state with heap := heap } ∧ state.heap.Grows heap ∧
    List.Forall₂ heap.Provides materials values

/-- In a scope, on a heap and on all that grow from it, the evaluation of a tree adds cells and
comes to some material, or it meets the limit. -/
def Prepares (course : Course host) (scope : Scope) (base : Heap) (node : Node)
    (material : Material) : Prop :=
  ∀ state : State, state.scope = scope → base.Grows state.heap →
    Does course node state (Adds state material) fun _ => True

/-- Where certain operators are in force, on a heap and on all that grow from it, an application to
some materials adds cells and comes to another one, or it meets the limit. -/
structure Delivers (course : Course host) (operators : OperatorTable) (base : Heap)
    (callee : Value) (materials : List Material) (material : Material) : Prop where
  callable : callee.isCallable
  applies : ∀ (state : State) (values : List Value), state.scope.operators = operators →
    base.Grows state.heap → List.Forall₂ state.heap.Provides materials values →
      Applies course callee values state (Adds state material) fun _ => True

variable {scope : Scope} {operators : OperatorTable} {base later : Heap} {node : Node}
  {nodes : List Node} {material : Material} {materials : List Material} {callee value : Value}

theorem Adds.trans {state : State} {heap : Heap} (grows : state.heap.Grows heap) {reached : State}
    (adds : Adds { state with heap := heap } material value reached) :
    Adds state material value reached := by
  obtain ⟨later, rfl, further, provides⟩ := adds
  exact ⟨later, rfl, grows.trans further, provides⟩

theorem Prepares.grows (prepares : Prepares course scope base node material)
    (grows : base.Grows later) : Prepares course scope later node material :=
  fun state same further => prepares state same (grows.trans further)

theorem Delivers.grows (delivers : Delivers course operators base callee materials material)
    (grows : base.Grows later) : Delivers course operators later callee materials material where
  callable := delivers.callable
  applies state values same further := delivers.applies state values same (grows.trans further)

/-- Trees that are prepared one by one are prepared in a row. -/
theorem doesAll_of_prepares
    (prepare : List.Forall₂ (Prepares course scope base) nodes materials) (state : State)
    (same : state.scope = scope) (grows : base.Grows state.heap) :
    DoesAll course nodes state (AddsAll state materials) fun _ => True := by
  induction prepare generalizing state with
  | nil => exact .nil ⟨state.heap, rfl, .refl _, .nil⟩
  | cons prepares _ inductionHypothesis =>
      refine .cons ((prepares state same grows).mono ?_)
      rintro value _ ⟨heap, rfl, further, provides⟩
      refine (inductionHypothesis { state with heap := heap } same (grows.trans further)).mono ?_
      rintro values _ ⟨later, rfl, more, provide⟩
      exact ⟨later, rfl, further.trans more, .cons (provides.grows more) provide⟩

/-! ## Trees -/

namespace Prepares

/-- A name that stands for some material. -/
theorem identifier {name : String} (found : scope.lookup? name = some value)
    (provides : base.Provides material value) :
    Prepares course scope base (.identifier name) material := by
  rintro state rfl grows
  exact .identifier found ⟨state.heap, rfl, .refl _, provides.grows grows⟩

theorem number (number : Number) :
    Prepares course scope base (.number number) (.number number) :=
  fun state _ _ => .number ⟨state.heap, rfl, .refl _, .number number⟩

theorem text (source content : String) :
    Prepares course scope base (.text source [.literal content]) (.text content) :=
  fun _ _ _ => .text ⟨_, rfl, .push_text _ _, Heap.provides_push_text _ _⟩

theorem quoted (inner : Node) : Prepares course scope base (.quoted inner) (.tree inner) :=
  fun _ _ _ => .quoted ⟨_, rfl, .push_node _ _, Heap.provides_push_node _ _⟩

/-- The application of what a name stands for. -/
theorem call {name : String}
    (native : scope.operators.implementations.get? "@" = none)
    (found : scope.lookup? name = some callee)
    (prepare : List.Forall₂ (Prepares course scope base) nodes materials)
    (delivers : Delivers course scope.operators base callee materials material) :
    Prepares course scope base (.operation "@" (.identifier name) (.list nodes)) material := by
  rintro state rfl grows
  refine .application native (.identifier found ⟨delivers.callable, ?_⟩)
  refine (doesAll_of_prepares prepare state rfl grows).mono ?_
  rintro values _ ⟨heap, rfl, further, provide⟩
  have listed : heap.Grows { heap with lists := heap.lists.push values.toArray } := .push_list _ _
  refine (delivers.applies (State.listed values { state with heap := heap }) values rfl
    (grows.trans (further.trans listed)) (Heap.forall₂_provides_grows provide listed)).mono ?_
  exact fun _ _ adds => adds.trans (further.trans listed)

/-- An operator on two numbers. -/
theorem arithmetic {operator : BinaryOperator} {left right : Node} {first second result : Number}
    (native : scope.operators.implementations.get? operator.token = none)
    (prepares : Prepares course scope base left (.number first))
    (prepares' : Prepares course scope base right (.number second))
    (applied : Number.apply operator first second = .ok result) :
    Prepares course scope base (.operation operator.token left right) (.number result) := by
  rintro state rfl grows
  refine .arithmetic native ((prepares state rfl grows).mono ?_)
  rintro _ _ ⟨heap, rfl, further, ⟨⟩⟩
  refine (prepares' { state with heap := heap } rfl (grows.trans further)).mono ?_
  rintro _ _ ⟨later, rfl, more, ⟨⟩⟩
  exact ⟨_, _, _, rfl, rfl, applied, later, rfl, further.trans more, .number _⟩

/-- The branch that a number chooses. -/
theorem conditional {condition whenTrue whenFalse : Node} {number : Number}
    (native : scope.operators.implementations.get? Syntax.conditionalToken = none)
    (prepares : Prepares course scope base condition (.number number))
    (branch : Prepares course scope base (if number.isZero then whenFalse else whenTrue) material) :
    Prepares course scope base
      (.operation Syntax.conditionalToken condition (.list [whenTrue, whenFalse])) material := by
  rintro state rfl grows
  refine .conditional native ((prepares state rfl grows).mono ?_)
  rintro _ _ ⟨heap, rfl, further, ⟨⟩⟩
  have does := (branch { state with heap := heap } rfl (grows.trans further)).mono
    fun _ _ adds => adds.trans further
  cases zero : number.isZero with
  | true =>
      rw [if_pos zero] at does
      simpa [Value.isTruthy, zero] using does
  | false =>
      rw [if_neg (by simp [zero])] at does
      simpa [Value.isTruthy, zero] using does

/-- An operator whose function takes the values of its operands. -/
theorem eager {operator : String} {left right : Node} {first second : Material}
    (free : operator ∉ Syntax.reservedTokens)
    (implemented : scope.operators.implementations.get? operator = some ⟨callee, true⟩)
    (prepares : Prepares course scope base left first)
    (prepares' : Prepares course scope base right second)
    (delivers : Delivers course scope.operators base callee [first, second] material) :
    Prepares course scope base (.operation operator left right) material := by
  rintro state rfl grows
  refine .eager free implemented ((prepares state rfl grows).mono ?_)
  rintro value _ ⟨heap, rfl, further, provides⟩
  refine (prepares' { state with heap := heap } rfl (grows.trans further)).mono ?_
  rintro value' _ ⟨later, rfl, more, provides'⟩
  refine (delivers.applies { state with heap := later } [value, value'] rfl
    (grows.trans (further.trans more)) (.cons (provides.grows more) (.cons provides' .nil))).mono ?_
  exact fun _ _ adds => adds.trans (further.trans more)

end Prepares

/-! ## Native functions -/

/-- New trees add cells. -/
private theorem exists_newNodes (trees : List Node) (heap : Heap) :
    ∃ values later, heap.Grows later ∧ OnHeap.newNodes trees heap = .ok values later ∧
      values.length = trees.length := by
  induction trees generalizing heap with
  | nil => exact ⟨[], heap, .refl heap, rfl, rfl⟩
  | cons tree trees inductionHypothesis =>
      obtain ⟨values, later, grows, made, many⟩ :=
        inductionHypothesis { heap with nodes := heap.nodes.push tree }
      refine ⟨.node heap.nodes.size :: values, later, .trans (.push_node heap tree) grows, ?_,
        congrArg Nat.succ many⟩
      unfold OnHeap.newNodes at made ⊢
      rw [List.mapM_cons]
      exact (OnHeap.bind_of_ok rfl).trans (OnHeap.bind_of_ok made)

namespace Delivers

/-- A native function that gives a value and adds cells, whatever the interpreter. -/
theorem native {native : Native} (isNative : base.IsNative native callee)
    (runs : ∀ (state : State) values, List.Forall₂ state.heap.Provides materials values →
      ∃ value reached, Adds state material value reached ∧
        ∀ interpreter, callNative interpreter native values state = .ok value reached) :
    Delivers course operators base callee materials material := by
  refine ⟨isNative.isCallable, fun state values _ grows provide => ?_⟩
  obtain ⟨value, reached, adds, ran⟩ := runs state values provide
  obtain ⟨handle, label, rfl, cell⟩ := isNative.grows grows
  exact .native (congrArg Builtin.action (OnHeap.getD_of_getElem? cell _)) ran adds

/-- A child of a tree. -/
theorem read {children : List Node} {child : Node} {index : Number} {place : Nat}
    (isNative : base.IsNative .get callee) (row : node.children? = some children)
    (isInteger : index.IsInteger place) (low : place < 2 ^ 52)
    (found : children[place]? = some child) :
    Delivers course operators base callee [.tree node, .number index] (.tree child) := by
  refine .native isNative fun state values provide => ?_
  rcases provide with _ | ⟨@⟨handle, _, cell⟩, _ | ⟨⟨⟩, ⟨⟩⟩⟩
  refine ⟨_, _, ⟨_, rfl, .push_node _ child, Heap.provides_push_node _ _⟩, fun _ => ?_⟩
  have inside := (List.getElem?_eq_some_iff.mp found).1
  refine onHeap_of_ok ?_
  show Collection.read (.node handle) (.number index) state.heap = _
  refine (OnHeap.bind_of_ok (OnHeap.get_ran _)).trans ?_
  rw [show state.heap.node handle = node from OnHeap.getD_of_getElem? cell _, row]
  dsimp only
  rw [Collection.position_of_low isInteger low inside]
  show EStateM.Result.ok _ _ = _
  rw [List.getD_eq_getElem?_getD, found]
  rfl

/-- The number of children of a tree. -/
theorem size {children : List Node} (isNative : base.IsNative .len callee)
    (row : node.children? = some children) :
    Delivers course operators base callee [.tree node] (.number (.ofNat children.length)) := by
  refine .native isNative fun state values provide => ?_
  rcases provide with _ | ⟨@⟨handle, _, cell⟩, ⟨⟩⟩
  obtain ⟨copies, heap, grows, made, many⟩ := exists_newNodes children state.heap
  refine ⟨_, _, ⟨heap, rfl, grows, .number _⟩, fun _ => ?_⟩
  refine onHeap_of_ok ?_
  have elements : Collection.elements (.node handle) "the argument of len" state.heap =
      EStateM.Result.ok copies heap := by
    refine (OnHeap.bind_of_ok (OnHeap.get_ran _)).trans ?_
    rw [show state.heap.node handle = node from OnHeap.getD_of_getElem? cell _]
    rw [row]
    exact made
  refine (OnHeap.bind_of_ok elements).trans ?_
  rw [many]
  rfl

/-- A part of a list. -/
theorem slice {elements : List Node} {start : Number} {first : Int} {stop : Option Number}
    {last : Option Int} (isNative : base.IsNative .slice callee)
    (starts : (Value.number start).IsSafeInteger first)
    (stops : Option.Rel (fun number => (Value.number number).IsSafeInteger) stop last) :
    Delivers course operators base callee
      (.tree (.list elements) :: .number start :: stop.toList.map .number)
      (.tree (.list (Collection.between (Collection.limited first elements.length)
        (max (Collection.limited first elements.length)
          (Collection.stopOf last elements.length)) elements))) := by
  refine .native isNative fun state values provide => ?_
  have shape : ∃ handle stop', values = .node handle :: .number start :: stop'.toList ∧
      state.heap.nodes[handle]? = some (.list elements) ∧
        Option.Rel Value.IsSafeInteger stop' last := by
    rcases provide with _ | ⟨⟨cell⟩, _ | ⟨⟨⟩, provide⟩⟩
    cases stops with
    | none =>
        cases provide
        exact ⟨_, none, rfl, cell, .none⟩
    | some safe =>
        rcases provide with _ | ⟨⟨⟩, ⟨⟩⟩
        exact ⟨_, some _, rfl, cell, .some safe⟩
  obtain ⟨handle, stop', rfl, cell, stops⟩ := shape
  have bounds := Collection.sliceBounds_eq starts stops elements.length
  refine ⟨_, _, ⟨_, rfl, .push_node _ _, Heap.provides_push_node _ _⟩, fun _ => ?_⟩
  rw [callNative_slice]
  refine onHeap_of_ok ?_
  refine (OnHeap.bind_of_ok (OnHeap.get_ran _)).trans ?_
  rw [show state.heap.node handle = .list elements from OnHeap.getD_of_getElem? cell _]
  show (OnHeap.ofOutcome (Collection.sliceBounds (.number start) stop' elements.length) >>= _) _ = _
  rw [bounds]
  rfl

/-- An application of a function comes to what its body comes to. -/
theorem routine {library : String → Value} {routine : Routine}
    (stands : base.Stands library routine) (proper : routine.Proper)
    (accepts : routine.origin.Accepts materials.length)
    (body : ∀ (state : State) arguments heap, state.scope.operators = operators →
      base.Grows heap → List.Forall₂ heap.Provides materials arguments →
        state.heap = routine.origin.gathered arguments heap →
          routine.Knows library (routine.origin.values arguments heap) state.scope →
            Does course routine.body state (Finishes state material) fun _ => True) :
    Delivers course operators base (library routine.name) materials material := by
  refine ⟨stands.isCallable, fun state arguments same grows provide => ?_⟩
  obtain ⟨handle, known, accepts, found, gathered, knows⟩ :=
    stands.exists_entry proper state grows arguments (provide.length_eq ▸ accepts)
  have around : (entry handle arguments state).scope.operators = operators :=
    (Scope.operators_pushAll _ _).trans same
  have does := body _ arguments state.heap around grows provide gathered knows
  rw [known]
  refine .entered accepts trivial ?_
  rw [found]
  refine does.mono ?_
  rintro value _ ⟨heap, scope, rfl, further, provides⟩
  have more : state.heap.Grows (entry handle arguments state).heap := by
    rw [gathered]
    unfold Origin.gathered
    split
    · exact .push_list _ _
    · exact .refl _
  exact ⟨rfl, rfl, heap, rfl, more.trans further, provides⟩

/-- The same for a function with fixed parameters whose body leaves the scope as it is. -/
theorem of_prepares {library : String → Value} {routine : Routine}
    (stands : base.Stands library routine) (proper : routine.Proper)
    (fixed : routine.variadic = false) (count : materials.length = routine.params.length)
    (body : ∀ (scope : Scope) heap arguments, scope.operators = operators → base.Grows heap →
      List.Forall₂ heap.Provides materials arguments → routine.Knows library arguments scope →
        Prepares course scope heap routine.body material) :
    Delivers course operators base (library routine.name) materials material := by
  have plain : ¬ routine.origin.Gathers := fun gathers =>
    absurd (fixed.symm.trans gathers.1) (by decide)
  refine .routine stands proper ?_ fun state arguments heap same grows provide started knows => ?_
  · unfold Origin.Accepts
    rw [if_neg (show ¬ routine.origin.variadic = true from
      fun variadic => absurd (fixed.symm.trans variadic) (by decide))]
    exact count
  · unfold Origin.gathered at started
    unfold Origin.values at knows
    rw [if_neg plain] at started knows
    refine (body state.scope heap arguments same grows provide knows state rfl
      (started ▸ .refl heap)).mono ?_
    rintro value _ ⟨heap, rfl, further, provides⟩
    exact ⟨heap, state.scope, rfl, further, provides⟩

end Delivers

/-! ## Fresh trees -/

end Eval

namespace Heap

/-- A heap that has grown from another one, with a tree in the first cell that was free there. -/
structure Shapes (base heap : Heap) (tree : Node) : Prop where
  grows : base.Grows heap
  cell : heap.nodes[base.nodes.size]? = some tree

namespace Shapes

variable {base heap later : Heap} {tree : Node}

theorem push (base : Heap) (tree : Node) :
    base.Shapes { base with nodes := base.nodes.push tree } tree :=
  ⟨.push_node base tree, Array.getElem?_push_size⟩

theorem provides (shapes : base.Shapes heap tree) :
    heap.Provides (.tree tree) (.node base.nodes.size) := .tree shapes.cell

theorem trans (shapes : base.Shapes heap tree) (grows : heap.Grows later) :
    base.Shapes later tree :=
  ⟨shapes.grows.trans grows, getElem?_of_prefixed grows.nodes shapes.cell⟩

/-- The tree can be changed without a change to any cell that was there before. -/
theorem modify (shapes : base.Shapes heap tree) (change : Node → Node) :
    base.Shapes { heap with nodes := heap.nodes.modify base.nodes.size change } (change tree) where
  grows := by
    refine { shapes.grows with nodes := ?_ }
    obtain ⟨more, whole⟩ := shapes.grows.nodes
    refine List.prefix_iff_getElem?.mpr fun place inside => ?_
    rw [Array.getElem?_toList, Array.getElem?_modify, if_neg (by simp at inside; omega),
      ← Array.getElem?_toList, ← whole, List.getElem?_append_left inside,
      List.getElem?_eq_getElem inside]
  cell := by
    rw [Array.getElem?_modify, if_pos rfl, shapes.cell]
    rfl

end Shapes

end Heap

namespace Eval

variable {host : Host} {course : Course host} {base : Heap} {state : State}

/-- A native function changes the tree that it is given first, as another argument says, and answers
it. -/
def Edits (native : Native) (material : Material) (before after : Node) : Prop :=
  ∀ (state : State) (handle : Nat) (value : Value), state.heap.nodes[handle]? = some before →
    state.heap.Provides material value → ∀ interpreter,
      callNative interpreter native [.node handle, value] state =
        .ok (.node handle)
          { state with
            heap := { state.heap with nodes := state.heap.nodes.modify handle fun _ => after } }

/-- The operation with another operand. -/
def withOperand (operand : Node) (operator : String) (left right : Node) : Side → Node
  | .left => .operation operator operand right
  | .right => .operation operator left operand

theorem edits_operand (side : Side) (operator : String) (left right operand : Node) :
    Edits (.setOperand side) (.tree operand) (.operation operator left right)
      (withOperand operand operator left right side) := by
  rintro state handle _ cell provides interpreter
  have found : state.heap.node handle = .operation operator left right :=
    OnHeap.getD_of_getElem? cell _
  cases provides with
  | @tree handle' _ cell' =>
      have lifted : OnHeap.lift (.node handle') state.heap = .ok operand state.heap :=
        congrArg (EStateM.Result.ok · state.heap) (OnHeap.getD_of_getElem? cell' _)
      show Eval.onHeap (Trees.setOperand side (.node handle) (.node handle')) state = _
      refine onHeap_of_ok ((OnHeap.bind_of_ok rfl).trans ?_)
      refine (OnHeap.bind_of_ok lifted).trans ((OnHeap.bind_of_ok (OnHeap.get_ran _)).trans ?_)
      rw [found]
      cases side <;> rfl

theorem edits_operator (operator token : String) (left right : Node) :
    Edits .setop (.text token) (.operation operator left right) (.operation token left right) := by
  rintro state handle _ cell provides interpreter
  have found : state.heap.node handle = .operation operator left right :=
    OnHeap.getD_of_getElem? cell _
  cases provides with
  | @text handle' _ cell' =>
      have read : OnHeap.textOf (.text handle') "the new operator" state.heap =
          .ok token state.heap :=
        congrArg (EStateM.Result.ok · state.heap) (OnHeap.getD_of_getElem? cell' _)
      refine onHeap_of_ok ?_
      show Trees.setOperator (.node handle) (.text handle') state.heap = _
      refine (OnHeap.bind_of_ok (OnHeap.ofOutcome_ran _ rfl)).trans ?_
      refine (OnHeap.bind_of_ok read).trans ?_
      refine (OnHeap.bind_of_ok (OnHeap.get_ran _)).trans ?_
      rw [found]
      rfl

/-- What is appended to a list. -/
theorem callNative_push_tree {handle : Nat} {value : Value} {elements : List Node} {tree : Node}
    (cell : state.heap.nodes[handle]? = some (.list elements))
    (provides : state.heap.Provides (.tree tree) value) (interpreter : Interpreter) :
    callNative interpreter .push [.node handle, value] state =
      .ok value
        { state with
          heap := { state.heap with
            nodes := state.heap.nodes.modify handle fun list =>
              list.withChildren (elements ++ [tree]) } } := by
  have found : state.heap.node handle = .list elements := OnHeap.getD_of_getElem? cell _
  cases provides with
  | @tree handle' _ cell' =>
      have lifted : OnHeap.lift (.node handle') state.heap = .ok tree state.heap :=
        congrArg (EStateM.Result.ok · state.heap) (OnHeap.getD_of_getElem? cell' _)
      show Eval.onHeap (Collection.append (.node handle) (.node handle')) state = _
      refine onHeap_of_ok ((OnHeap.bind_of_ok lifted).trans ((OnHeap.bind_of_ok (OnHeap.get_ran _)).trans ?_))
      rw [found]
      rfl

/-- A change to a fresh tree that a name stands for. -/
theorem Does.edit {native : Native} {material : Material} {before after : Node}
    {callee value : Value} {function target operand : String}
    (edits : Edits native material before after)
    (free : state.scope.operators.implementations.get? "@" = none)
    (isNative : base.IsNative native callee) (shapes : base.Shapes state.heap before)
    (provides : base.Provides material value)
    (named : state.scope.lookup? function = some callee)
    (named' : state.scope.lookup? target = some (.node base.nodes.size))
    (named'' : state.scope.lookup? operand = some value) :
    Does course (.operation "@" (.identifier function)
        (.list [.identifier target, .identifier operand])) state
      (fun answer reached => ∃ heap, reached = { state with heap := heap } ∧
        answer = .node base.nodes.size ∧ base.Shapes heap after) fun _ => True := by
  refine .application free (.identifier named ⟨isNative.isCallable, .cons (.identifier named'
    (.cons (.identifier named'' (.nil ?_))))⟩)
  let listed : State := state.listed [.node base.nodes.size, value]
  have listedShapes : base.Shapes listed.heap before := shapes.trans (.push_list _ _)
  obtain ⟨handle, label, rfl, cell⟩ := isNative.grows listedShapes.grows
  refine .native (congrArg Builtin.action (OnHeap.getD_of_getElem? cell _))
    (edits listed _ value listedShapes.cell (provides.grows listedShapes.grows)) ?_
  exact ⟨_, rfl, rfl, listedShapes.modify fun _ => after⟩

end Eval

end Fixity
