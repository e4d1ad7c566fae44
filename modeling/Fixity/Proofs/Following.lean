import Fixity.Proofs.Insertions
import Fixity.Proofs.Refusals

/-!
Contract: computations on the heap under an insertion.

Owns:
- `Heap.Later`, what is known of the trees and builtins of a later heap;
- `OnHeap.Follows`: one computation does on the heap with the further trees what another one does
  without them;
- the ways of putting computations together that keep this, tagged for `grind`;
- the walks through values and the operators on them.

Does not own: the native functions.
-/

namespace Fixity

/-- No tree is lost, and builtins stay what they are. -/
structure Heap.Later (earlier later : Heap) : Prop where
  nodes : earlier.nodes.size ≤ later.nodes.size
  builtins : earlier.builtins.toList <+: later.builtins.toList

theorem Heap.Later.refl (heap : Heap) : heap.Later heap := ⟨Nat.le_refl _, List.prefix_rfl⟩

theorem Heap.Later.trans {first second third : Heap} (earlier : first.Later second)
    (later : second.Later third) : first.Later third :=
  ⟨Nat.le_trans earlier.nodes later.nodes, earlier.builtins.trans later.builtins⟩

/-- A builtin that is there stays what it is. -/
theorem Heap.Later.builtin {earlier later : Heap} (passes : earlier.Later later) {handle : Nat}
    (held : handle < earlier.builtins.size) : later.builtin handle = earlier.builtin handle := by
  obtain ⟨more, extended⟩ := passes.builtins
  unfold Heap.builtin
  rw [Array.getD_eq_getD_getElem?, Array.getD_eq_getD_getElem?, ← Array.getElem?_toList,
    ← Array.getElem?_toList, ← extended, List.getElem?_append_left held]

/-- What is a native function stays that function. -/
theorem Heap.Later.builtin_of_native {earlier later : Heap} (passes : earlier.Later later)
    {handle : Nat} {native : Native} (found : (earlier.builtin handle).action = .native native) :
    later.builtin handle = earlier.builtin handle := by
  refine passes.builtin (Nat.lt_of_not_le fun absent => ?_)
  unfold Heap.builtin at found
  rw [Array.getD_eq_getD_getElem?, Array.getElem?_eq_none absent] at found
  cases found

theorem Insertion.Steady.of_later {insertion : Insertion} {first second third : Heap}
    (earlier : first.Later second) (later : second.Later third)
    (steady : insertion.Steady first third) :
    insertion.Steady first second ∧ insertion.Steady second third := by
  obtain enters | waits := steady
  · exact ⟨.inl enters, .inl (Insertion.enters_of_le earlier.nodes enters)⟩
  · exact ⟨.inr fun enters => waits (Insertion.enters_of_le later.nodes enters), .inr waits⟩

namespace OnHeap

variable {insertion : Insertion} {α β : Type} [Renumbers α] [Renumbers β]

/-- The result of a computation under an insertion. -/
def renumbered (insertion : Insertion) :
    EStateM.Result RuntimeError Heap α → EStateM.Result RuntimeError Heap α
  | .ok value heap => .ok (renumber insertion value) (insertion.heap heap)
  | .error error heap => .error error (insertion.heap heap)

/-- The first computation loses no tree and no builtin. On the heap with the further trees, the
second one does what the first one does without them, unless it is then that they come in. -/
def Follows (insertion : Insertion) (first second : OnHeap α) : Prop :=
  ∀ heap : Heap, heap.Later (first.after heap) ∧
    (insertion.Steady heap (first.after heap) →
      second (insertion.heap heap) = renumbered insertion (first heap))

namespace Follows

@[grind ←]
theorem pure {value value' : α} (same : value' = renumber insertion value) :
    Follows insertion (pure value) (pure value') :=
  fun heap => ⟨.refl heap, fun _ => by rw [same]; rfl⟩

@[grind ←]
theorem throw {error error' : RuntimeError} (same : error' = error) :
    Follows insertion (throw error : OnHeap α) (throw error') :=
  fun heap => ⟨.refl heap, fun _ => by rw [same]; rfl⟩

@[grind ←]
theorem bind {first second : OnHeap α} {next next' : α → OnHeap β}
    (follows : Follows insertion first second)
    (continued : ∀ value, Follows insertion (next value) (next' (renumber insertion value))) :
    Follows insertion (first >>= next) (second >>= next') := by
  intro heap
  obtain ⟨earlier, same⟩ := follows heap
  unfold OnHeap.after at earlier same ⊢
  cases ran : first heap with
  | ok value middle =>
      rw [ran] at same earlier
      obtain ⟨later, same'⟩ := continued value middle
      unfold OnHeap.after at later same'
      rw [bind_of_ok ran]
      refine ⟨earlier.trans later, fun steady => ?_⟩
      obtain ⟨first, second⟩ := steady.of_later earlier later
      rw [bind_of_ok (same first)]
      exact same' second
  | error error middle =>
      rw [ran] at same earlier
      rw [bind_of_error ran]
      exact ⟨earlier, fun steady => bind_of_error (same steady)⟩

@[grind ←]
theorem read {next next' : Heap → OnHeap β}
    (continued : ∀ heap, Follows insertion (next heap) (next' (insertion.heap heap))) :
    Follows insertion (get >>= next) (get >>= next') :=
  fun heap => continued heap heap

@[grind ←]
theorem lift {outcome outcome' : Outcome α} (same : outcome' = outcome.map (renumber insertion)) :
    Follows insertion (liftM outcome : OnHeap α) (liftM outcome') := by
  subst same
  cases outcome with
  | ok value => exact .pure rfl
  | error error => exact .throw rfl

/-! ## Cells -/

@[grind ←]
theorem newText {content content' : String} (same : content' = content) :
    Follows insertion (newText content) (newText content') := by
  subst same
  exact fun heap => ⟨⟨Nat.le_refl _, List.prefix_rfl⟩, fun _ => rfl⟩

theorem newList {elements elements' : Array Value}
    (same : elements' = elements.map insertion.value) :
    Follows insertion (newList elements) (newList elements') := by
  subst same
  refine fun heap => ⟨⟨Nat.le_refl _, List.prefix_rfl⟩, fun _ => ?_⟩
  simp only [OnHeap.newList, renumbered, Insertion.heap, Array.map_push, Array.size_map]
  rfl

@[grind ←]
theorem newListOf {elements elements' : List Value}
    (same : elements' = elements.map insertion.value) :
    Follows insertion (newListOf elements) (newListOf elements') :=
  newList (by rw [same]; simp)

@[grind ←]
theorem newObject {entries entries' : Dict Value} (same : entries' = entries.map insertion.value) :
    Follows insertion (newObject entries) (newObject entries') := by
  subst same
  refine fun heap => ⟨⟨Nat.le_refl _, List.prefix_rfl⟩, fun _ => ?_⟩
  simp only [OnHeap.newObject, renumbered, Insertion.heap, Array.map_push, Array.size_map]
  rfl

@[grind ←]
theorem newFunction {content content' : Function} (same : content' = insertion.function content) :
    Follows insertion (newFunction content) (newFunction content') := by
  subst same
  refine fun heap => ⟨⟨Nat.le_refl _, List.prefix_rfl⟩, fun _ => ?_⟩
  simp only [OnHeap.newFunction, renumbered, Insertion.heap, Array.map_push, Array.size_map]
  rfl

@[grind ←]
theorem newBuiltin {content content' : Builtin} (same : content' = insertion.builtin content) :
    Follows insertion (newBuiltin content) (newBuiltin content') := by
  subst same
  refine fun heap => ⟨⟨Nat.le_refl _, ?_⟩, fun _ => ?_⟩
  · simp [OnHeap.newBuiltin, OnHeap.after]
  · simp only [OnHeap.newBuiltin, renumbered, Insertion.heap, Array.map_push, Array.size_map]
    rfl

@[grind ←]
theorem newNode {tree tree' : Node} (same : tree' = tree) :
    Follows insertion (newNode tree) (newNode tree') := by
  subst same
  refine fun heap => ⟨⟨by simp [OnHeap.newNode, OnHeap.after], List.prefix_rfl⟩, fun steady => ?_⟩
  have within : insertion.enters heap.nodes.size ∨ ¬ insertion.enters (heap.nodes.size + 1) := by
    rwa [← Array.size_push tree']
  simp only [OnHeap.newNode, renumbered, Insertion.renumber_value, Insertion.value_new within,
    Insertion.heap, Insertion.nodes_push tree' within]

@[grind ←]
theorem modifyText {handle : Nat} {change change' : String → String} (same : change' = change) :
    Follows insertion (modifyText handle change) (modifyText handle change') := by
  subst same
  exact fun heap => ⟨⟨Nat.le_refl _, List.prefix_rfl⟩, fun _ => rfl⟩

@[grind ←]
theorem modifyList {handle : Nat} {change change' : Array Value → Array Value}
    (same : ∀ items, (change items).map insertion.value = change' (items.map insertion.value)) :
    Follows insertion (modifyList handle change) (modifyList handle change') := by
  refine fun heap => ⟨⟨Nat.le_refl _, List.prefix_rfl⟩, fun _ => ?_⟩
  simp only [OnHeap.modifyList, renumbered, Insertion.heap, Insertion.map_modify handle same]

@[grind ←]
theorem modifyObject {handle : Nat} {change change' : Dict Value → Dict Value}
    (same : ∀ entries, (change entries).map insertion.value =
      change' (entries.map insertion.value)) :
    Follows insertion (modifyObject handle change) (modifyObject handle change') := by
  refine fun heap => ⟨⟨Nat.le_refl _, List.prefix_rfl⟩, fun _ => ?_⟩
  simp only [OnHeap.modifyObject, renumbered, Insertion.heap, Insertion.map_modify handle same]

@[grind ←]
theorem modifyFunction {handle : Nat} {change change' : Function → Function}
    (same : ∀ content, insertion.function (change content) =
      change' (insertion.function content)) :
    Follows insertion (modifyFunction handle change) (modifyFunction handle change') := by
  refine fun heap => ⟨⟨Nat.le_refl _, List.prefix_rfl⟩, fun _ => ?_⟩
  simp only [OnHeap.modifyFunction, renumbered, Insertion.heap, Insertion.map_modify handle same]

@[grind ←]
theorem modifyNode {handle handle' : Nat} {change change' : Node → Node}
    (moved : handle' = insertion.handle handle) (same : change' = change) :
    Follows insertion (modifyNode handle change) (modifyNode handle' change') := by
  subst moved same
  refine fun heap => ⟨⟨by simp [OnHeap.modifyNode, OnHeap.after], List.prefix_rfl⟩, fun _ => ?_⟩
  simp only [OnHeap.modifyNode, renumbered, Insertion.heap, Insertion.nodes_modify]

@[grind ←]
theorem textOf {value value' : Value} (same : value' = insertion.value value) (role : String) :
    Follows insertion (textOf value role) (textOf value' role) := by
  unfold OnHeap.textOf
  grind

@[grind ←]
theorem nodeOf {value value' : Value} (same : value' = insertion.value value) (role : String) :
    Follows insertion (nodeOf value role) (nodeOf value' role) := by
  subst same
  cases value with
  | node handle =>
      refine fun heap => ⟨.refl heap, fun _ => ?_⟩
      exact congrArg (EStateM.Result.ok · _) (Insertion.node_heap heap handle)
  | _ => exact .throw rfl

@[grind ←]
theorem mapM {first second : α → OnHeap β} {items items' : List α}
    (same : items' = items.map (renumber insertion))
    (each : ∀ item, Follows insertion (first item) (second (renumber insertion item))) :
    Follows insertion (items.mapM first) (items'.mapM second) := by
  subst same
  induction items with
  | nil => exact .pure rfl
  | cons item rest inductionHypothesis =>
      rw [List.mapM_cons, List.map_cons, List.mapM_cons]
      exact .bind (each item) fun _ => .bind inductionHypothesis fun _ => .pure rfl

@[grind ←]
theorem newTexts {contents contents' : List String} (same : contents' = contents) :
    Follows insertion (newTexts contents) (newTexts contents') :=
  .mapM (same.trans (List.map_id' contents).symm) fun _ => .newText rfl

@[grind ←]
theorem newNodes {trees trees' : List Node} (same : trees' = trees) :
    Follows insertion (newNodes trees) (newNodes trees') :=
  .mapM (same.trans (List.map_id' trees).symm) fun _ => .newNode rfl

/-! ## Walks -/

@[grind ←]
theorem lifted (value : Value) :
    Follows insertion (OnHeap.lift value) (OnHeap.lift (insertion.value value)) :=
  .read fun _ => .lift (by simp)

@[grind ←]
theorem display (value : Value) :
    Follows insertion (OnHeap.display value) (OnHeap.display (insertion.value value)) :=
  .read fun _ => .pure (Insertion.display_value _ value)

/-- What follows the entrance to a value is inside of it. -/
theorem enter {path : Path} {value : Value} {operation : String} {next next' : Path → OnHeap β}
    (continued : ∀ inside, Follows insertion (next inside) (next' inside)) :
    Follows insertion ((liftM (path.enter value operation) : OnHeap Path) >>= next)
      ((liftM (path.enter (insertion.value value) operation) : OnHeap Path) >>= next') := by
  rw [Insertion.enter_value]
  cases path.enter value operation with
  | ok inside => exact continued inside
  | error error => exact .throw rfl

theorem duplicateWithin (room : Nat) (path : Path) (value : Value) :
    Follows insertion (duplicateWithin room path value)
      (OnHeap.duplicateWithin room path (insertion.value value)) := by
  induction room generalizing path value with
  | zero => exact .throw rfl
  | succ room inductionHypothesis =>
      unfold OnHeap.duplicateWithin
      refine .enter fun inside => ?_
      have row (values : List Value) : Follows insertion
          (values.mapM (OnHeap.duplicateWithin room inside))
          ((values.map insertion.value).mapM (OnHeap.duplicateWithin room inside)) :=
        .mapM rfl fun child => inductionHypothesis inside child
      cases value with
      | number content => exact .pure rfl
      | text handle => exact .read fun _ => .newText rfl
      | list handle =>
          refine .read fun heap => .bind ?_ fun _ => .newListOf rfl
          rw [Insertion.list_heap, Array.toList_map]
          exact row _
      | object handle =>
          refine .read fun heap => ?_
          dsimp only
          rw [Insertion.object_heap, Dict.values_map, Dict.keys_map]
          refine .bind (row _) fun copies => .newObject ?_
          rw [Dict.map_ofList, Insertion.renumber_values, List.zip_map_right]
          rfl
      | function handle => exact .read fun heap => .newFunction (Insertion.function_heap heap _)
      | builtin handle => exact .pure rfl
      | node handle => exact .read fun heap => .newNode (Insertion.node_heap _ handle)

@[grind ←]
theorem duplicate (value : Value) :
    Follows insertion (OnHeap.duplicate value) (OnHeap.duplicate (insertion.value value)) := by
  refine .read fun heap => ?_
  rw [Insertion.room_heap]
  exact duplicateWithin _ _ value

theorem broadcastWithin {function : Value → Outcome Value}
    (same : ∀ value, function (insertion.value value) = (function value).map insertion.value)
    (room : Nat) (path : Path) (value : Value) :
    Follows insertion (broadcastWithin function room path value)
      (OnHeap.broadcastWithin function room path (insertion.value value)) := by
  induction room generalizing path value with
  | zero => exact .throw rfl
  | succ room inductionHypothesis =>
      cases value with
      | list handle =>
          refine .enter fun inside => .read fun heap => .bind ?_ fun _ => .newListOf rfl
          rw [Insertion.list_heap, Array.toList_map]
          exact .mapM rfl fun child => inductionHypothesis inside child
      | _ => exact .lift (same _)

@[grind ←]
theorem broadcast {function : Value → Outcome Value}
    (same : ∀ value, function (insertion.value value) = (function value).map insertion.value)
    (value : Value) :
    Follows insertion (broadcast function value)
      (OnHeap.broadcast function (insertion.value value)) := by
  refine .read fun heap => ?_
  rw [Insertion.room_heap]
  exact broadcastWithin same _ _ value

/-! ## Operators -/

/-- A new list of what comes of the elements of a list. -/
theorem alongList {first second : Value → OnHeap Value} {handle : Nat}
    (each : ∀ element, Follows insertion (first element) (second (insertion.value element))) :
    Follows insertion (do OnHeap.newListOf (← ((← get).list handle).toList.mapM first))
      (do OnHeap.newListOf (← ((← get).list handle).toList.mapM second)) := by
  refine .read fun heap => .bind ?_ fun _ => .newListOf rfl
  rw [Insertion.list_heap, Array.toList_map]
  exact .mapM rfl each

theorem allPairs {compare compare' : Value → Value → OnHeap Value}
    (each : ∀ left right, Follows insertion (compare left right)
      (compare' (insertion.value left) (insertion.value right)))
    (negate : Bool) (pairs : List (Value × Value)) :
    Follows insertion (allPairs compare negate pairs)
      (OnHeap.allPairs compare' negate (renumber insertion pairs)) := by
  induction pairs with
  | nil => exact .pure rfl
  | cons pair rest inductionHypothesis =>
      refine .bind (each pair.1 pair.2) fun answer => ?_
      rw [Insertion.renumber_value, Insertion.isTruthy_value]
      split
      · exact .pure rfl
      · exact inductionHypothesis

theorem equalityWithin (negate : Bool) (room : Nat) (lefts rights : Path) (left right : Value) :
    Follows insertion (equalityWithin negate room lefts rights left right)
      (OnHeap.equalityWithin negate room lefts rights (insertion.value left)
        (insertion.value right)) := by
  induction room generalizing lefts rights left right with
  | zero => exact .throw rfl
  | succ room inductionHypothesis =>
      refine .enter fun lefts => .enter fun rights => ?_
      have pair := inductionHypothesis lefts rights
      cases left with
      | number left =>
          cases right with
          | number right => exact .pure rfl
          | list right =>
              exact .alongList fun element => pair (.number left) element
          | _ => exact .pure rfl
      | text left =>
          cases right with
          | text right => exact .read fun _ => .read fun _ => .pure rfl
          | list right =>
              exact .alongList fun element => pair (.text left) element
          | _ => exact .pure rfl
      | list left =>
          cases right with
          | number right =>
              exact .alongList fun element => pair element (.number right)
          | text right =>
              exact .alongList fun element => pair element (.text right)
          | list right =>
              refine .read fun heap => .read fun heap' => ?_
              rw [Insertion.list_heap, Insertion.list_heap]
              simp only [Array.toList_map, List.length_map]
              split
              · rw [List.zip_map]
                exact .bind (allPairs pair negate _) fun _ => .pure rfl
              · exact .pure rfl
          | _ => exact .pure rfl
      | _ => cases right <;> exact .pure rfl

@[grind ←]
theorem equality (negate : Bool) (left right : Value) :
    Follows insertion (equality negate left right)
      (OnHeap.equality negate (insertion.value left) (insertion.value right)) := by
  refine .read fun heap => ?_
  rw [Insertion.room_heap]
  exact equalityWithin _ _ _ _ left right

theorem mapPairs {operation operation' : Value → Value → OnHeap Value}
    (each : ∀ left right, Follows insertion (operation left right)
      (operation' (insertion.value left) (insertion.value right))) (left right : Value) :
    Follows insertion (mapPairs operation left right)
      (OnHeap.mapPairs operation' (insertion.value left) (insertion.value right)) := by
  cases left with
  | list left =>
      cases right with
      | list right =>
          refine .read fun heap => .read fun heap' => ?_
          rw [Insertion.list_heap, Insertion.list_heap]
          simp only [Array.toList_map, List.length_map]
          split
          · rw [List.zip_map]
            exact .bind (.mapM rfl fun pair => each pair.1 pair.2) fun _ => .newListOf rfl
          · exact .throw rfl
      | _ => exact .alongList fun element => each element _
  | _ =>
      cases right with
      | list right => exact .alongList fun element => each _ element
      | _ => exact each _ _

/-- The error of two operands that an operator has no rule for. -/
theorem invalidArguments (operator : String) (left right : Value) :
    Follows insertion
      (do MonadExcept.throw (RuntimeError.invalidArguments operator (← OnHeap.display left)
        (← OnHeap.display right)) : OnHeap Value)
      (do MonadExcept.throw (RuntimeError.invalidArguments operator
        (← OnHeap.display (insertion.value left)) (← OnHeap.display (insertion.value right)))) :=
  .bind (.display left) fun _ => .bind (.display right) fun _ => .throw rfl

/-- The rules for two values that are not two numbers and not taken to elements. -/
theorem scalars (operator : BinaryOperator) (left right : Value) :
    Follows insertion
      (match operator, left, right with
      | .mul, .text text, .number count =>
          do OnHeap.newText (← Text.times ((← get).text text) count)
      | _, .text first, .text second =>
          if operator.isOrdering then do
            let heap ← get
            return .ofBool (Text.ordered operator (heap.text first) (heap.text second))
          else do
            MonadExcept.throw (RuntimeError.invalidArguments operator.token
              (← OnHeap.display left) (← OnHeap.display right))
      | _, _, _ => do
          MonadExcept.throw (RuntimeError.invalidArguments operator.token
            (← OnHeap.display left) (← OnHeap.display right)))
      (match operator, insertion.value left, insertion.value right with
      | .mul, .text text, .number count =>
          do OnHeap.newText (← Text.times ((← get).text text) count)
      | _, .text first, .text second =>
          if operator.isOrdering then do
            let heap ← get
            return .ofBool (Text.ordered operator (heap.text first) (heap.text second))
          else do
            MonadExcept.throw (RuntimeError.invalidArguments operator.token
              (← OnHeap.display (insertion.value left)) (← OnHeap.display (insertion.value right)))
      | _, _, _ => do
          MonadExcept.throw (RuntimeError.invalidArguments operator.token
            (← OnHeap.display (insertion.value left))
            (← OnHeap.display (insertion.value right)))) := by
  have invalid := @invalidArguments insertion operator.token left right
  cases left with
  | text left =>
      cases right with
      | number right =>
          cases operator with
          | mul => exact .read fun _ => .bind (.lift (by simp)) fun _ => .newText rfl
          | _ => exact invalid
      | text right =>
          cases operator with
          | less => exact .read fun _ => .pure rfl
          | greater => exact .read fun _ => .pure rfl
          | lessEqual => exact .read fun _ => .pure rfl
          | greaterEqual => exact .read fun _ => .pure rfl
          | _ => exact invalid
      | _ => cases operator <;> exact invalid
  | _ => cases operator <;> exact invalid

theorem binaryWithin (operator : BinaryOperator) (room : Nat) (lefts rights : Path)
    (left right : Value) :
    Follows insertion (binaryWithin operator room lefts rights left right)
      (OnHeap.binaryWithin operator room lefts rights (insertion.value left)
        (insertion.value right)) := by
  induction room generalizing lefts rights left right with
  | zero => exact .throw rfl
  | succ room inductionHypothesis =>
      unfold OnHeap.binaryWithin
      simp only [Insertion.text?_value, Insertion.list?_value]
      split
      · exact .equality false left right
      split
      · exact .equality true left right
      split
      · exact .bind (.display left) fun _ => .bind (.display right) fun _ => .newText rfl
      -- what is no list is not gone into, and two numbers have a rule of their own
      cases left with
      | number left =>
          cases right with
          | number right => exact .bind (.lift (by simp)) fun _ => .pure rfl
          | list right =>
              exact .enter fun lefts => .enter fun rights => .mapPairs (inductionHypothesis _ _) _ _
          | _ => exact .scalars operator _ _
      | list left =>
          cases right <;>
            exact .enter fun lefts => .enter fun rights => .mapPairs (inductionHypothesis _ _) _ _
      | _ =>
          cases right with
          | list right =>
              exact .enter fun lefts => .enter fun rights => .mapPairs (inductionHypothesis _ _) _ _
          | _ => exact .scalars operator _ _

@[grind ←]
theorem binary (operator : BinaryOperator) (left right : Value) :
    Follows insertion (binary operator left right)
      (OnHeap.binary operator (insertion.value left) (insertion.value right)) := by
  refine .read fun heap => ?_
  rw [Insertion.room_heap]
  exact binaryWithin _ _ _ _ left right

end Follows

end OnHeap

end Fixity
