import Fixity.Proofs.Following

/-!
Contract: the native functions that work on the heap, under an insertion.

Owns:
- one lemma for each such function: on the heap with the further trees it does what it does without
  them;
- the same for the arguments of calls and the shares of an assignment.
-/

namespace Fixity

namespace OnHeap

namespace Follows

variable {insertion : Insertion} {α β : Type} [Renumbers α] [Renumbers β]

/-! ## Containers -/

section Collection

variable (container index value : Value)

@[grind ←]
theorem elements (role : String) :
    Follows insertion (Collection.elements value role)
      (Collection.elements (insertion.value value) role) := by
  cases value with
  | list handle => exact .read fun _ => .pure (by simp)
  | node handle =>
      refine .read fun heap => ?_
      rw [Insertion.node_heap _ handle]
      dsimp only
      split
      · exact .newNodes rfl
      · exact .throw rfl
  | _ => exact .throw rfl

theorem unsupported (operation : String) :
    Follows insertion (Collection.unsupported operation value)
      (Collection.unsupported operation (insertion.value value)) := by
  cases value with
  | node handle => exact .read fun heap => .pure (by rw [Insertion.node_heap _ handle]; rfl)
  | _ => exact .pure rfl

variable (insertion) in
@[simp]
theorem position_value (length : Nat) :
    Collection.position (insertion.value index) length = Collection.position index length := by
  unfold Collection.position
  rw [Insertion.asReal_value]

variable (insertion) in
@[simp]
theorem boundOf_value (length : Nat) (role : String) :
    Collection.boundOf (insertion.value value) length role =
      Collection.boundOf value length role := by
  unfold Collection.boundOf
  rw [Insertion.asReal_value]

theorem entry :
    Follows insertion (Collection.read container index)
      (Collection.read (insertion.value container) (insertion.value index)) := by
  cases container with
  | list handle =>
      refine .read fun heap => .bind (.lift ?_) fun place => .pure ?_
      · simp
      · simp only [Insertion.list_heap, Array.getD_eq_getD_getElem?, Array.getElem?_map]
        cases (heap.list handle)[renumber insertion place]? <;> rfl
  | text handle => exact .read fun _ => .bind (.lift (by simp)) fun _ => .newText rfl
  | object handle =>
      refine .read fun heap => .read fun heap' => ?_
      rw [Insertion.key_value, Insertion.object_heap, Dict.get?_map]
      cases (heap'.object handle).get? (heap.key index) with
      | some found => exact .pure rfl
      | none => exact .throw rfl
  | node handle =>
      refine .read fun heap => ?_
      rw [Insertion.node_heap _ handle]
      split
      · exact .bind (.lift (by simp)) fun _ => .newNode rfl
      · exact .bind (.unsupported (.node handle) _) fun _ => .throw rfl
  | _ => exact .bind (.unsupported _ _) fun _ => .throw rfl

theorem write :
    Follows insertion (Collection.write container index value)
      (Collection.write (insertion.value container) (insertion.value index)
        (insertion.value value)) := by
  cases container with
  | list handle =>
      refine .read fun heap => .bind (.lift (by simp)) fun place => .bind ?_ fun _ => .pure rfl
      exact .modifyList fun items => Array.map_setIfInBounds
  | text handle =>
      exact .bind (.textOf rfl _) fun _ => .read fun _ => .bind (.lift (by simp)) fun _ =>
        .bind (.modifyText rfl) fun _ => .pure rfl
  | object handle =>
      refine .read fun heap => .bind (.modifyObject fun entries => ?_) fun _ => .pure rfl
      rw [Insertion.key_value]
      exact Dict.map_insert _ _ _ _
  | node handle =>
      refine .bind (.lifted value) fun child => .read fun heap => ?_
      rw [Insertion.node_heap _ handle]
      dsimp only
      split
      · exact .bind (.lift (by simp)) fun _ => .bind (.modifyNode rfl rfl) fun _ => .pure rfl
      · exact .bind (.unsupported (.node handle) _) fun _ => .bind (.throw rfl) fun _ => .pure rfl
  | _ => exact .bind (.unsupported _ _) fun _ => .bind (.throw rfl) fun _ => .pure rfl

theorem append :
    Follows insertion (Collection.append container value)
      (Collection.append (insertion.value container) (insertion.value value)) := by
  cases container with
  | list handle => exact .bind (.modifyList fun items => Array.map_push) fun _ => .pure rfl
  | text handle =>
      exact .bind (.textOf rfl _) fun _ => .bind (.modifyText rfl) fun _ => .pure rfl
  | node handle =>
      refine .bind (.lifted value) fun child => .read fun heap => ?_
      rw [Insertion.node_heap _ handle]
      split
      · exact .bind (.modifyNode rfl rfl) fun _ => .pure rfl
      · exact .bind (.unsupported (.node handle) _) fun _ => .bind (.throw rfl) fun _ => .pure rfl
  | _ => exact .bind (.unsupported _ _) fun _ => .bind (.throw rfl) fun _ => .pure rfl

theorem removeLast :
    Follows insertion (Collection.removeLast container)
      (Collection.removeLast (insertion.value container)) := by
  cases container with
  | list handle =>
      refine .read fun heap => ?_
      rw [Insertion.list_heap, Array.back?_map]
      cases (heap.list handle).back? with
      | some last => exact .bind (.modifyList fun _ => Array.map_pop) fun _ => .pure rfl
      | none => exact .throw rfl
  | text handle =>
      refine .read fun heap => ?_
      dsimp only [Insertion.text_heap]
      split
      · exact .throw rfl
      · exact .bind (.modifyText rfl) fun _ => .newText rfl
  | node handle =>
      refine .read fun heap => ?_
      rw [Insertion.node_heap _ handle]
      split
      · exact .bind (.unsupported (.node handle) _) fun _ => .throw rfl
      · split
        · exact .throw rfl
        · exact .bind (.modifyNode rfl rfl) fun _ => .newNode rfl
  | _ => exact .bind (.unsupported _ _) fun _ => .throw rfl

theorem size :
    Follows insertion (Collection.size container)
      (Collection.size (insertion.value container)) := by
  cases container with
  | text handle => exact .read fun _ => .pure rfl
  | object handle => exact .read fun _ => .pure (by simp)
  | _ => exact .bind (.elements _ _) fun _ => .pure (by simp)

omit container index in
variable (insertion) in
@[simp]
theorem sliceBounds_value (stop : Option Value) (length : Nat) :
    Collection.sliceBounds (insertion.value value) (stop.map insertion.value) length =
      Collection.sliceBounds value stop length := by
  unfold Collection.sliceBounds
  cases stop <;> simp

theorem slice (stop : Option Value) :
    Follows insertion (Collection.slice container index stop)
      (Collection.slice (insertion.value container) (insertion.value index)
        (stop.map insertion.value)) := by
  cases container with
  | list handle =>
      refine .read fun heap => .bind (.lift ?_) fun bounds => .newListOf ?_
      · simp
      · simp [Collection.between, List.map_take, List.map_drop]
  | text handle => exact .read fun _ => .bind (.lift (by simp)) fun _ => .newText rfl
  | node handle =>
      refine .read fun heap => ?_
      rw [Insertion.node_heap _ handle]
      dsimp only
      split
      · exact .bind (.lift (by simp)) fun _ => .newNode rfl
      · exact .bind (.unsupported (.node handle) _) fun _ => .throw rfl
  | _ => exact .bind (.unsupported _ _) fun _ => .throw rfl

variable (insertion) in
@[simp]
theorem spliceBounds_value (count length : Nat) :
    Collection.spliceBounds (insertion.value value) count length =
      Collection.spliceBounds value count length := by
  unfold Collection.spliceBounds
  simp

theorem splice (count : Value) (inserted : List Value) :
    Follows insertion (Collection.splice container index count inserted)
      (Collection.splice (insertion.value container) (insertion.value index)
        (insertion.value count) (inserted.map insertion.value)) := by
  refine .bind (.lift (by simp)) fun count => ?_
  cases container with
  | list handle =>
      refine .read fun heap => .bind (.lift ?_) fun bounds => .bind ?_ fun _ => .newListOf ?_
      · simp
      · refine .modifyList fun items => ?_
        simp [Collection.replaceBetween]
      · simp [Collection.between]
  | text handle =>
      refine .bind (.mapM rfl fun item => .textOf rfl _) fun _ => ?_
      exact .read fun _ => .bind (.lift (by simp)) fun _ => .bind (.modifyText (by simp)) fun _ =>
        .newText rfl
  | node handle =>
      refine .bind (.mapM rfl fun item => .lifted item) fun trees => .read fun heap => ?_
      rw [Insertion.node_heap _ handle]
      split
      · exact .bind (.lift (by simp)) fun _ => .bind (.modifyNode rfl (by simp)) fun _ =>
          .newNode rfl
      · exact .bind (.unsupported (.node handle) _) fun _ => .throw rfl
  | _ => exact .bind (.unsupported _ _) fun _ => .throw rfl

variable (insertion) in
omit container index value in
theorem mapM_plain (parts : List Value) {read : Value → Option Nat}
    (same : ∀ value, read (insertion.value value) = read value) :
    (parts.map insertion.value).mapM read = parts.mapM read := by
  rw [List.mapM_map]
  exact congrArg (parts.mapM ·) (funext same)

omit container index value in
theorem concatenate (parts : List Value) :
    Follows insertion (Collection.concatenate parts)
      (Collection.concatenate (parts.map insertion.value)) := by
  unfold Collection.concatenate
  rw [mapM_plain insertion parts (insertion.list?_value),
    mapM_plain insertion parts (insertion.text?_value)]
  split
  · refine .read fun heap => .newListOf ?_
    simp [List.map_flatMap]
  · exact .read fun _ => .newText rfl
  · exact .throw rfl

omit container index value in
theorem range (start stop : Value) (step : Option Value) :
    Follows insertion (Collection.range start stop step)
      (Collection.range (insertion.value start) (insertion.value stop)
        (step.map insertion.value)) := by
  unfold Collection.range
  simp only [Insertion.asReal_value]
  refine .bind (.lift (by simp)) fun first => .bind (.lift (by simp)) fun last => ?_
  have counted (distance : Float) : Follows insertion
      (do
        if distance == 0.0 || !distance.isFinite then
          MonadExcept.throw (RuntimeError.invalidArgument (.rangeStep distance))
        let places := Double.floor ((last - first) / distance + 1.0)
        let count ← Double.toCount (if places > 0.0 then places else 0.0) "range length"
        OnHeap.newListOf
          ((List.range count).map fun place => .ofReal (first + Float.ofNat place * distance)))
      (do
        if distance == 0.0 || !distance.isFinite then
          MonadExcept.throw (RuntimeError.invalidArgument (.rangeStep distance))
        let places := Double.floor ((last - first) / distance + 1.0)
        let count ← Double.toCount (if places > 0.0 then places else 0.0) "range length"
        OnHeap.newListOf
          ((List.range count).map fun place =>
            .ofReal (first + Float.ofNat place * distance))) := by
    dsimp only
    split
    · exact .bind (.throw rfl) fun _ => .bind (.lift (by simp)) fun _ => .newListOf (by simp)
    · exact .bind (.lift (by simp)) fun _ => .newListOf (by simp)
  cases step with
  | none => exact .bind (.pure rfl) counted
  | some value => exact .bind (.lift (by simp)) counted

theorem split (text separator : Value) :
    Follows insertion (Collection.split text separator)
      (Collection.split (insertion.value text) (insertion.value separator)) :=
  .bind (.textOf rfl _) fun _ => .bind (.textOf rfl _) fun _ => .bind (.newTexts rfl) fun _ =>
    .newListOf rfl

theorem join (list separator : Value) :
    Follows insertion (Collection.join list separator)
      (Collection.join (insertion.value list) (insertion.value separator)) := by
  refine .bind (.lift (by simp)) fun handle => .bind (.textOf rfl _) fun mark =>
    .read fun heap => .newText ?_
  simp [Function.comp_def]

end Collection

section Entries

variable (object key : Value)

theorem keys :
    Follows insertion (Entries.keys object) (Entries.keys (insertion.value object)) := by
  refine .bind (.lift (by simp)) fun handle => .read fun heap => ?_
  rw [Insertion.object_heap, Dict.keys_map]
  exact .bind (.newTexts rfl) fun _ => .newListOf rfl

theorem values :
    Follows insertion (Entries.values object) (Entries.values (insertion.value object)) :=
  .bind (.lift (by simp)) fun handle => .read fun heap => .newListOf (by simp)

theorem items :
    Follows insertion (Entries.items object) (Entries.items (insertion.value object)) := by
  refine .bind (.lift (by simp)) fun handle => .read fun heap => .bind (.mapM ?_ fun entry => ?_)
    fun _ => .newListOf rfl
  · rw [Insertion.object_heap]
    rfl
  · exact .bind (.newText rfl) fun _ => .newListOf rfl

theorem has :
    Follows insertion (Entries.has object key)
      (Entries.has (insertion.value object) (insertion.value key)) :=
  .bind (.lift (by simp)) fun handle => .read fun heap => .pure (by simp)

theorem delete :
    Follows insertion (Entries.delete object key)
      (Entries.delete (insertion.value object) (insertion.value key)) := by
  refine .bind (.lift (by simp)) fun handle => .read fun heap => ?_
  simp only [Insertion.key_value, Insertion.object_heap, Dict.contains_map]
  exact .bind (.modifyObject fun entries => Dict.map_erase _ _ _) fun _ => .pure rfl

end Entries

/-! ## Numbers and texts -/

section Scalars

variable (argument text other : Value)

theorem part (part : NumberPart) :
    Follows insertion (Numeric.part part argument)
      (Numeric.part part (insertion.value argument)) :=
  .broadcast (fun value => by cases value <;> rfl) argument

theorem complex (function : ComplexFunction) :
    Follows insertion (Numeric.complex function argument)
      (Numeric.complex function (insertion.value argument)) :=
  .broadcast (fun value => by cases value <;> rfl) argument

theorem real (function : RealFunction) :
    Follows insertion (Numeric.real function argument)
      (Numeric.real function (insertion.value argument)) := by
  refine .broadcast (fun value => ?_) argument
  rw [Insertion.asReal_value]
  cases value.asReal (Numeric.role function.name) <;> rfl

theorem transform (change : List Char → List Char) (role : String) :
    Follows insertion (Wording.transform change role text)
      (Wording.transform change role (insertion.value text)) :=
  .bind (.textOf rfl _) fun _ => .newText rfl

theorem replace (pattern replacement : Value) :
    Follows insertion (Wording.replace text pattern replacement)
      (Wording.replace (insertion.value text) (insertion.value pattern)
        (insertion.value replacement)) :=
  .bind (.textOf rfl _) fun _ => .bind (.textOf rfl _) fun _ => .bind (.textOf rfl _) fun _ =>
    .newText rfl

theorem startsWith :
    Follows insertion (Wording.startsWith text other)
      (Wording.startsWith (insertion.value text) (insertion.value other)) :=
  .bind (.textOf rfl _) fun _ => .bind (.textOf rfl _) fun _ => .pure rfl

theorem endsWith :
    Follows insertion (Wording.endsWith text other)
      (Wording.endsWith (insertion.value text) (insertion.value other)) :=
  .bind (.textOf rfl _) fun _ => .bind (.textOf rfl _) fun _ => .pure rfl

theorem ofValue :
    Follows insertion (Wording.ofValue argument) (Wording.ofValue (insertion.value argument)) :=
  .bind (.display argument) fun _ => .newText rfl

end Scalars

/-! ## Trees and functions -/

section Trees

variable (node value : Value)

theorem operand (side : Side) :
    Follows insertion (Trees.operand side node) (Trees.operand side (insertion.value node)) := by
  refine .bind (.nodeOf rfl _) fun tree => ?_
  cases side <;> cases tree <;> first | exact .newNode rfl | exact .throw rfl

/-- The handle of a tree is the one it has now. -/
theorem asNode {next next' : Nat → OnHeap α} (role : String)
    (continued : ∀ handle, Follows insertion (next handle) (next' (insertion.handle handle))) :
    Follows insertion ((liftM (node.asNode role) : OnHeap Nat) >>= next)
      ((liftM ((insertion.value node).asNode role) : OnHeap Nat) >>= next') := by
  cases node with
  | node handle => exact continued handle
  | _ => exact .throw rfl

theorem setOperand (side : Side) :
    Follows insertion (Trees.setOperand side node value)
      (Trees.setOperand side (insertion.value node) (insertion.value value)) := by
  refine .asNode node _ fun handle => .bind (.lifted value) fun child => .read fun heap => ?_
  rw [Insertion.node_heap _ handle]
  dsimp only
  split
  · exact .bind (.modifyNode rfl rfl) fun _ => .pure rfl
  · exact .bind (.modifyNode rfl rfl) fun _ => .pure rfl
  · exact .bind (.throw rfl) fun _ => .pure rfl

theorem setOperator :
    Follows insertion (Trees.setOperator node value)
      (Trees.setOperator (insertion.value node) (insertion.value value)) := by
  refine .asNode node _ fun handle => .bind (.textOf rfl _) fun token => .read fun heap => ?_
  rw [Insertion.node_heap _ handle]
  dsimp only
  split
  · exact .bind (.modifyNode rfl rfl) fun _ => .pure rfl
  · exact .bind (.throw rfl) fun _ => .pure rfl

theorem setName :
    Follows insertion (Trees.setName node value)
      (Trees.setName (insertion.value node) (insertion.value value)) := by
  refine .asNode node _ fun handle => .bind (.textOf rfl _) fun name => .read fun heap => ?_
  rw [Insertion.node_heap _ handle]
  dsimp only
  split
  · exact .bind (.modifyNode rfl rfl) fun _ => .pure rfl
  · exact .bind (.throw rfl) fun _ => .pure rfl

theorem setSource (levels : Syntax.Levels) :
    Follows insertion (Trees.setSource levels node value)
      (Trees.setSource levels (insertion.value node) (insertion.value value)) := by
  refine .asNode node _ fun handle => .bind (.textOf rfl _) fun source =>
    .bind (.lift (Insertion.outcome_plains _ _).symm) fun segments => .read fun heap => ?_
  rw [Insertion.node_heap _ handle, Insertion.renumber_plains]
  dsimp only
  split
  · exact .bind (.modifyNode rfl rfl) fun _ => .pure rfl
  · exact .bind (.throw rfl) fun _ => .pure rfl

theorem operator :
    Follows insertion (Trees.operator node) (Trees.operator (insertion.value node)) := by
  refine .bind (.nodeOf rfl _) fun tree => ?_
  cases tree <;> first | exact .newText rfl | exact .throw rfl

theorem name : Follows insertion (Trees.name node) (Trees.name (insertion.value node)) := by
  refine .bind (.nodeOf rfl _) fun tree => ?_
  cases tree <;> first | exact .newText rfl | exact .throw rfl

theorem source : Follows insertion (Trees.source node) (Trees.source (insertion.value node)) := by
  refine .bind (.nodeOf rfl _) fun tree => ?_
  cases tree <;> first | exact .newText rfl | exact .throw rfl

theorem children :
    Follows insertion (Trees.children node) (Trees.children (insertion.value node)) := by
  refine .bind (.nodeOf rfl _) fun tree => ?_
  rw [Insertion.renumber_plain]
  split
  · exact .bind (.newNodes rfl) fun _ => .newListOf rfl
  · exact .throw rfl

theorem quotation :
    Follows insertion (Trees.quotation node) (Trees.quotation (insertion.value node)) := by
  refine .bind (.nodeOf rfl _) fun tree => ?_
  cases tree <;> first | exact .newNode rfl | exact .throw rfl

theorem body : Follows insertion (Trees.body value) (Trees.body (insertion.value value)) := by
  refine .bind (.lift (by simp)) fun handle => .read fun heap => .newNode ?_
  rw [Insertion.function_heap]
  rfl

theorem setBody (function : Value) :
    Follows insertion (Trees.setBody function value)
      (Trees.setBody (insertion.value function) (insertion.value value)) :=
  .bind (.lift (by simp)) fun handle => .bind (.lifted value) fun body =>
    .bind (.modifyFunction fun _ => rfl) fun _ => .pure rfl

theorem parameters :
    Follows insertion (Trees.parameters value) (Trees.parameters (insertion.value value)) := by
  refine .bind (.lift (by simp)) fun handle => .read fun heap => ?_
  rw [Insertion.function_heap]
  exact .bind (.newTexts rfl) fun _ => .newListOf rfl

theorem passes (test : TypeTest) :
    Follows insertion (Trees.passes test value) (Trees.passes test (insertion.value value)) := by
  cases test with
  | node kind =>
      cases value with
      | node handle => 
          refine .read fun heap => .pure ?_
          rw [Insertion.node_heap _ handle]
          rfl
      | _ => exact .pure rfl
  | _ => cases value <;> exact .pure rfl

end Trees

/-! ## Evaluation -/

theorem folded (value : Value) (role : String) :
    Follows insertion (Folding.items value role)
      (Folding.items (insertion.value value) role) := by
  unfold Folding.items
  cases value with
  | text handle => exact .read fun _ => .newTexts rfl
  | _ => exact .elements _ role

theorem nameOf (value : Value) :
    Follows insertion (Reflection.nameOf value) (Reflection.nameOf (insertion.value value)) := by
  cases value with
  | node handle =>
      refine .read fun heap => ?_
      rw [Insertion.node_heap _ handle]
      split
      · exact .pure rfl
      · exact .throw rfl
  | _ => exact .textOf rfl _

theorem levelRow (level : Syntax.Level) :
    Follows insertion (Reflection.levelRow level) (Reflection.levelRow level) :=
  .bind (.newTexts rfl) fun _ => .bind (.newListOf rfl) fun _ => .bind (.newText rfl) fun _ =>
    .newListOf rfl

theorem nameArguments (variadic : Bool) (params : List String) (arguments : List Value) :
    Follows insertion (Eval.nameArguments variadic params arguments)
      (Eval.nameArguments variadic params (arguments.map insertion.value)) := by
  have head (arguments : List Value) :
      (arguments.map insertion.value).headD .zero = insertion.value (arguments.headD .zero) := by
    cases arguments <;> rfl
  induction params generalizing arguments with
  | nil => exact .pure rfl
  | cons param params inductionHypothesis =>
      cases params with
      | nil =>
          unfold Eval.nameArguments
          split
          · exact .bind (.newListOf rfl) fun _ => .pure rfl
          · exact .pure (by rw [head]; rfl)
      | cons next params =>
          unfold Eval.nameArguments
          rw [← List.map_tail, head]
          exact .bind (inductionHypothesis arguments.tail) fun _ => .pure rfl

theorem callNames (callee : Value) (function : Function) (arguments : List Value) :
    Follows insertion (Eval.callNames callee function arguments)
      (Eval.callNames (insertion.value callee) (insertion.function function)
        (arguments.map insertion.value)) := by
  refine .bind (.nameArguments function.variadic function.params arguments) fun named =>
    .pure ?_
  simp [Insertion.function, Function.comp_def]

theorem shares (count : Nat) (value : Value) :
    Follows insertion (Eval.shares count value)
      (Eval.shares count (insertion.value value)) := by
  have copies (value : Value) : Follows insertion
      ((List.replicate count value).mapM OnHeap.duplicate)
      ((List.replicate count (insertion.value value)).mapM OnHeap.duplicate) :=
    .mapM (by simp) fun item => .duplicate item
  cases value with
  | list handle =>
      refine .read fun heap => ?_
      simp only [Insertion.list_heap, Array.toList_map, List.length_map]
      split
      · exact .pure rfl
      · generalize (heap.list handle).toList = items
        match items with
        | [] => exact .throw rfl
        | [only] => exact copies only
        | first :: second :: rest => exact .throw (by simp)
  | _ => exact copies _

end Follows

end OnHeap

end Fixity
