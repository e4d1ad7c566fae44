import Fixity.Evaluator

/-!
Contract: computations on the heap and what they leave of functions.

Owns:
- `Heap.Evolves`: functions are copied and get other bodies, and nothing else happens to them;
- the ways of putting computations together that let the heap evolve, tagged for `grind`;
- that every native function on the heap, and all other heap computations of evaluation except the
  definition of a function and the recording of a name, let the heap evolve;
- `Heap.SameClosures`: every function of the later heap remembers what one of the earlier heap did.
-/

namespace Fixity

/-- Cells change, but no function is defined and none gets a name: functions are copied, and their
bodies are replaced. -/
inductive Heap.Evolves : Heap → Heap → Prop where
  | cells {earlier later : Heap} : later.functions = earlier.functions → Evolves earlier later
  | copy (heap : Heap) (original : Nat) :
      Evolves heap { heap with functions := heap.functions.push (heap.function original) }
  | body (heap : Heap) (handle : Nat) (body : Node) :
      Evolves heap
        { heap with
          functions := heap.functions.modify handle fun function => { function with body := body } }
  | trans {first second third : Heap} : Evolves first second → Evolves second third →
      Evolves first third

theorem Heap.Evolves.refl (heap : Heap) : Evolves heap heap := .cells rfl

theorem Heap.function_push (heap : Heap) (content : Function) (handle : Nat) :
    ({ heap with functions := heap.functions.push content } : Heap).function handle =
      if handle = heap.functions.size then content else heap.function handle := by
  simp only [Heap.function, Array.getD_eq_getD_getElem?, Array.getElem?_push]
  split
  · rfl
  · rfl

theorem Heap.function_modify (heap : Heap) (target handle : Nat) (change : Function → Function) :
    ({ heap with functions := heap.functions.modify target change } : Heap).function handle =
      if target = handle ∧ handle < heap.functions.size then change (heap.function handle)
      else heap.function handle := by
  simp only [Heap.function, Array.getD_eq_getD_getElem?, Array.getElem?_modify]
  by_cases same : target = handle
  · subst same
    by_cases inside : target < heap.functions.size
    · simp [inside]
    · simp [inside]
  · simp [same]

namespace OnHeap

variable {α β : Type}

/-- The heap that a computation leaves, whether it succeeds or fails. -/
def after (action : OnHeap α) (heap : Heap) : Heap :=
  match action heap with
  | .ok _ heap => heap
  | .error _ heap => heap

/-- The computation lets the heap evolve. -/
def Evolves (action : OnHeap α) : Prop :=
  ∀ heap : Heap, heap.Evolves (action.after heap)

namespace Evolves

/-! ## Putting computations together -/

@[grind ←]
theorem pure (value : α) : Evolves (pure value : OnHeap α) :=
  fun heap => .refl heap

@[grind ←]
theorem throw (error : RuntimeError) : Evolves (throw error : OnHeap α) :=
  fun heap => .refl heap

@[grind ←]
theorem get : Evolves (get : OnHeap Heap) :=
  fun heap => .refl heap

@[grind ←]
theorem bind {action : OnHeap α} {next : α → OnHeap β} (first : Evolves action)
    (second : ∀ value, Evolves (next value)) : Evolves (action >>= next) := by
  intro heap
  have earlier := first heap
  show heap.Evolves (OnHeap.after (EStateM.bind action next) heap)
  unfold OnHeap.after EStateM.bind at *
  cases ran : action heap with
  | ok value middle =>
      rw [ran] at earlier
      exact earlier.trans (second value middle)
  | error error middle =>
      rw [ran] at earlier
      exact earlier

@[grind ←]
theorem ofOutcome (outcome : Outcome α) : Evolves (ofOutcome outcome) := by
  intro heap
  cases outcome with
  | ok value => exact .refl heap
  | error error => exact .refl heap

@[grind ←]
theorem lift (outcome : Outcome α) : Evolves (liftM outcome : OnHeap α) :=
  .ofOutcome outcome

@[grind ←]
theorem mapM {action : α → OnHeap β} (items : List α)
    (kept : ∀ item, Evolves (action item)) : Evolves (items.mapM action) := by
  induction items with
  | nil => exact .pure []
  | cons item rest inductionHypothesis =>
      rw [List.mapM_cons]
      exact .bind (kept item) fun _ => .bind inductionHypothesis fun _ => .pure _

/-! ## Cells -/

@[grind ←]
theorem newText (content : String) : Evolves (newText content) :=
  fun _ => .cells rfl

@[grind ←]
theorem newList (elements : Array Value) : Evolves (newList elements) :=
  fun _ => .cells rfl

@[grind ←]
theorem newObject (entries : Dict Value) : Evolves (newObject entries) :=
  fun _ => .cells rfl

@[grind ←]
theorem newBuiltin (content : Builtin) : Evolves (newBuiltin content) :=
  fun _ => .cells rfl

@[grind ←]
theorem newNode (tree : Node) : Evolves (newNode tree) :=
  fun _ => .cells rfl

@[grind ←]
theorem modifyText (handle : Nat) (change : String → String) :
    Evolves (modifyText handle change) :=
  fun _ => .cells rfl

@[grind ←]
theorem modifyList (handle : Nat) (change : Array Value → Array Value) :
    Evolves (modifyList handle change) :=
  fun _ => .cells rfl

@[grind ←]
theorem modifyObject (handle : Nat) (change : Dict Value → Dict Value) :
    Evolves (modifyObject handle change) :=
  fun _ => .cells rfl

@[grind ←]
theorem modifyNode (handle : Nat) (change : Node → Node) :
    Evolves (modifyNode handle change) :=
  fun _ => .cells rfl

@[grind ←]
theorem newListOf (elements : List Value) : Evolves (newListOf elements) :=
  .newList _

@[grind ←]
theorem newTexts (contents : List String) : Evolves (newTexts contents) :=
  .mapM contents .newText

@[grind ←]
theorem newNodes (trees : List Node) : Evolves (newNodes trees) :=
  .mapM trees .newNode

@[grind ←]
theorem textOf (value : Value) (role : String) : Evolves (textOf value role) :=
  .bind (.lift _) fun _ => .bind .get fun _ => .pure _

@[grind ←]
theorem nodeOf (value : Value) (role : String) : Evolves (nodeOf value role) :=
  .bind (.lift _) fun _ => .bind .get fun _ => .pure _

/-! ## Walks -/

@[grind ←]
theorem lifted (value : Value) : Evolves (OnHeap.lift value) := by
  unfold OnHeap.lift
  grind

@[grind ←]
theorem display (value : Value) : Evolves (OnHeap.display value) := by
  unfold OnHeap.display
  grind

theorem duplicateWithin (room : Nat) (path : Path) (value : Value) :
    Evolves (duplicateWithin room path value) := by
  induction room generalizing path value with
  | zero => exact .throw _
  | succ room inductionHypothesis =>
      unfold OnHeap.duplicateWithin
      apply bind (.lift _)
      intro inside
      cases value with
      | function handle => exact fun heap => .copy heap handle
      | _ => grind

@[grind ←]
theorem duplicate (value : Value) : Evolves (OnHeap.duplicate value) :=
  .bind .get fun _ => duplicateWithin _ _ value

theorem broadcastWithin (function : Value → Outcome Value) (room : Nat) (path : Path)
    (value : Value) : Evolves (broadcastWithin function room path value) := by
  induction room generalizing path value with
  | zero => exact .throw _
  | succ room inductionHypothesis =>
      unfold OnHeap.broadcastWithin
      split <;> grind

@[grind ←]
theorem broadcast (function : Value → Outcome Value) (value : Value) :
    Evolves (broadcast function value) :=
  .bind .get fun _ => broadcastWithin function _ _ value

/-! ## Operators -/

theorem allPairs {compare : Value → Value → OnHeap Value}
    (kept : ∀ left right, Evolves (compare left right)) (negate : Bool)
    (pairs : List (Value × Value)) : Evolves (allPairs compare negate pairs) := by
  induction pairs with
  | nil => exact .pure _
  | cons pair rest inductionHypothesis =>
      unfold OnHeap.allPairs
      apply bind (kept _ _)
      intro answer
      split
      · exact .pure _
      · exact inductionHypothesis

theorem equalityWithin (negate : Bool) (room : Nat) (lefts rights : Path) (left right : Value) :
    Evolves (equalityWithin negate room lefts rights left right) := by
  induction room generalizing lefts rights left right with
  | zero => exact .throw _
  | succ room inductionHypothesis =>
      unfold OnHeap.equalityWithin
      apply bind (.lift _)
      intro lefts
      apply bind (.lift _)
      intro rights
      extract_lets pair
      have elements := @allPairs pair (inductionHypothesis lefts rights) negate
      split <;> grind

@[grind ←]
theorem equality (negate : Bool) (left right : Value) :
    Evolves (equality negate left right) :=
  .bind .get fun _ => equalityWithin negate _ _ _ left right

theorem mapPairs {operation : Value → Value → OnHeap Value}
    (kept : ∀ left right, Evolves (operation left right)) (left right : Value) :
    Evolves (mapPairs operation left right) := by
  unfold OnHeap.mapPairs
  split <;> grind

theorem binaryWithin (operator : BinaryOperator) (room : Nat) (lefts rights : Path)
    (left right : Value) : Evolves (binaryWithin operator room lefts rights left right) := by
  induction room generalizing lefts rights left right with
  | zero => exact .throw _
  | succ room inductionHypothesis =>
      have pairs := fun lefts rights => mapPairs (inductionHypothesis lefts rights)
      unfold OnHeap.binaryWithin
      grind

@[grind ←]
theorem binary (operator : BinaryOperator) (left right : Value) :
    Evolves (binary operator left right) :=
  .bind .get fun _ => binaryWithin operator _ _ _ left right

/-! ## Native functions -/

section Native

@[grind ←]
theorem elements (value : Value) (role : String) :
    Evolves (Collection.elements value role) := by
  unfold Collection.elements
  grind

@[grind ←]
theorem unsupported (operation : String) (value : Value) :
    Evolves (Collection.unsupported operation value) := by
  unfold Collection.unsupported
  grind

@[grind ←]
theorem read (container index : Value) : Evolves (Collection.read container index) := by
  unfold Collection.read
  grind

@[grind ←]
theorem write (container index value : Value) :
    Evolves (Collection.write container index value) := by
  unfold Collection.write
  split <;> grind

@[grind ←]
theorem append (container value : Value) :
    Evolves (Collection.append container value) := by
  unfold Collection.append
  grind

@[grind ←]
theorem removeLast (container : Value) : Evolves (Collection.removeLast container) := by
  unfold Collection.removeLast
  split <;> grind

@[grind ←]
theorem size (container : Value) : Evolves (Collection.size container) := by
  unfold Collection.size
  grind

@[grind ←]
theorem slice (container start : Value) (stop : Option Value) :
    Evolves (Collection.slice container start stop) := by
  unfold Collection.slice
  grind

@[grind ←]
theorem splice (container start count : Value) (inserted : List Value) :
    Evolves (Collection.splice container start count inserted) := by
  unfold Collection.splice
  apply bind (.lift _)
  intro count
  split <;> grind

@[grind ←]
theorem concatenate (parts : List Value) : Evolves (Collection.concatenate parts) := by
  unfold Collection.concatenate
  grind

@[grind ←]
theorem range (start stop : Value) (step : Option Value) :
    Evolves (Collection.range start stop step) := by
  unfold Collection.range
  grind

@[grind ←]
theorem split (text separator : Value) : Evolves (Collection.split text separator) := by
  unfold Collection.split
  grind

@[grind ←]
theorem join (list separator : Value) : Evolves (Collection.join list separator) := by
  unfold Collection.join
  grind

@[grind ←]
theorem keys (object : Value) : Evolves (Entries.keys object) := by
  unfold Entries.keys
  grind

@[grind ←]
theorem values (object : Value) : Evolves (Entries.values object) := by
  unfold Entries.values
  grind

@[grind ←]
theorem items (object : Value) : Evolves (Entries.items object) := by
  unfold Entries.items
  grind

@[grind ←]
theorem has (object key : Value) : Evolves (Entries.has object key) := by
  unfold Entries.has
  grind

@[grind ←]
theorem delete (object key : Value) : Evolves (Entries.delete object key) := by
  unfold Entries.delete
  grind

@[grind ←]
theorem part (part : NumberPart) (argument : Value) : Evolves (Numeric.part part argument) :=
  .broadcast _ argument

@[grind ←]
theorem complex (function : ComplexFunction) (argument : Value) :
    Evolves (Numeric.complex function argument) :=
  .broadcast _ argument

@[grind ←]
theorem real (function : RealFunction) (argument : Value) :
    Evolves (Numeric.real function argument) :=
  .broadcast _ argument

@[grind ←]
theorem transform (change : List Char → List Char) (role : String) (text : Value) :
    Evolves (Wording.transform change role text) := by
  unfold Wording.transform
  grind

@[grind ←]
theorem lower (text : Value) : Evolves (Wording.lower text) :=
  .transform _ _ text

@[grind ←]
theorem upper (text : Value) : Evolves (Wording.upper text) :=
  .transform _ _ text

@[grind ←]
theorem trim (text : Value) : Evolves (Wording.trim text) :=
  .transform _ _ text

@[grind ←]
theorem replace (text pattern replacement : Value) :
    Evolves (Wording.replace text pattern replacement) := by
  unfold Wording.replace
  grind

@[grind ←]
theorem startsWith (text start : Value) : Evolves (Wording.startsWith text start) := by
  unfold Wording.startsWith
  grind

@[grind ←]
theorem endsWith (text ending : Value) : Evolves (Wording.endsWith text ending) := by
  unfold Wording.endsWith
  grind

@[grind ←]
theorem ofValue (value : Value) : Evolves (Wording.ofValue value) := by
  unfold Wording.ofValue
  grind

@[grind ←]
theorem mismatch (builtin expected : String) (found : Node) :
    Evolves (Trees.mismatch builtin expected found : OnHeap α) :=
  .throw _

@[grind ←]
theorem operand (side : Side) (node : Value) : Evolves (Trees.operand side node) := by
  unfold Trees.operand
  grind

@[grind ←]
theorem setOperand (side : Side) (node operand : Value) :
    Evolves (Trees.setOperand side node operand) := by
  unfold Trees.setOperand
  grind

@[grind ←]
theorem operator (node : Value) : Evolves (Trees.operator node) := by
  unfold Trees.operator
  grind

@[grind ←]
theorem setOperator (node token : Value) : Evolves (Trees.setOperator node token) := by
  unfold Trees.setOperator
  grind

@[grind ←]
theorem name (node : Value) : Evolves (Trees.name node) := by
  unfold Trees.name
  grind

@[grind ←]
theorem setName (node name : Value) : Evolves (Trees.setName node name) := by
  unfold Trees.setName
  grind

@[grind ←]
theorem source (node : Value) : Evolves (Trees.source node) := by
  unfold Trees.source
  grind

@[grind ←]
theorem setSource (levels : Syntax.Levels) (node text : Value) :
    Evolves (Trees.setSource levels node text) := by
  unfold Trees.setSource
  grind

@[grind ←]
theorem children (node : Value) : Evolves (Trees.children node) := by
  unfold Trees.children
  grind

@[grind ←]
theorem quotation (node : Value) : Evolves (Trees.quotation node) := by
  unfold Trees.quotation
  grind

@[grind ←]
theorem body (function : Value) : Evolves (Trees.body function) := by
  unfold Trees.body
  grind

@[grind ←]
theorem setBody (function tree : Value) : Evolves (Trees.setBody function tree) := by
  unfold Trees.setBody
  apply bind (.lift _)
  intro handle
  apply bind (.lifted tree)
  intro body
  have replaced : Evolves
      (OnHeap.modifyFunction handle fun content => { content with body := body }) :=
    fun heap => .body heap handle body
  exact .bind replaced fun _ => .pure function

@[grind ←]
theorem parameters (function : Value) : Evolves (Trees.parameters function) := by
  unfold Trees.parameters
  grind

@[grind ←]
theorem passes (test : TypeTest) (value : Value) : Evolves (Trees.passes test value) := by
  unfold Trees.passes
  grind

@[grind ←]
theorem folded (value : Value) (role : String) : Evolves (Folding.items value role) := by
  unfold Folding.items
  grind

@[grind ←]
theorem nameOf (value : Value) : Evolves (Reflection.nameOf value) := by
  unfold Reflection.nameOf
  grind

@[grind ←]
theorem levelRow (level : Syntax.Level) : Evolves (Reflection.levelRow level) := by
  unfold Reflection.levelRow
  grind

end Native

/-! ## Calls and bindings -/

@[grind ←]
theorem nameArguments (variadic : Bool) (params : List String) (arguments : List Value) :
    Evolves (Eval.nameArguments variadic params arguments) := by
  fun_induction Eval.nameArguments variadic params arguments <;> grind

theorem callNames (callee : Value) (function : Function) (arguments : List Value) :
    Evolves (Eval.callNames callee function arguments) := by
  unfold Eval.callNames
  grind

theorem shares (count : Nat) (value : Value) : Evolves (Eval.shares count value) := by
  unfold Eval.shares
  grind

end Evolves

end OnHeap

/-! ## What functions remember -/

/-- The functions of the later heap remember nothing that no function remembered before. A handle
without a cell counts as a function that remembers no binding. -/
def Heap.SameClosures (earlier later : Heap) : Prop :=
  ∀ handle, ∃ older, (later.function handle).closure = (earlier.function older).closure

namespace Heap.SameClosures

theorem trans {first second third : Heap} (earlier : SameClosures first second)
    (later : SameClosures second third) : SameClosures first third := by
  intro handle
  obtain ⟨middle, fromMiddle⟩ := later handle
  obtain ⟨older, fromOlder⟩ := earlier middle
  exact ⟨older, fromMiddle.trans fromOlder⟩

/-- A change of a function that leaves alone what it remembers. -/
theorem modify (heap : Heap) (handle : Nat) {change : Function → Function}
    (kept : ∀ function, (change function).closure = function.closure) :
    SameClosures heap { heap with functions := heap.functions.modify handle change } := by
  intro target
  refine ⟨target, ?_⟩
  rw [Heap.function_modify]
  split
  · exact kept _
  · rfl

theorem of_evolves {earlier later : Heap} (evolves : earlier.Evolves later) :
    SameClosures earlier later := by
  induction evolves with
  | cells same =>
      intro handle
      refine ⟨handle, ?_⟩
      unfold Heap.function
      rw [same]
  | copy heap original =>
      intro handle
      rw [Heap.function_push]
      split
      · exact ⟨original, rfl⟩
      · exact ⟨handle, rfl⟩
  | body heap handle body => exact modify heap handle fun _ => rfl
  | trans _ _ earlier later => exact earlier.trans later

/-- A function that is bound to a name remembers what it did. -/
theorem anchor (heap : Heap) (handle : Nat) (name : String) :
    SameClosures heap
      { heap with
        functions := heap.functions.modify handle fun function => function.anchor name } := by
  apply modify heap handle
  intro function
  unfold Function.anchor
  split <;> rfl

end Heap.SameClosures

end Fixity
