import Fixity.Proofs.Cycles

/-!
Contract: what a walk through two values does at one level.

Owns:
- `Value.spreads`, a list beside a number or a text, and `Heap.pairs`, the pairs that two values
  consist of when at least one of them is a list;
- `OnHeap.compareLevel`, one level of a comparison in these terms, and one equation for an operator
  with a list;
- `OnHeap.Faults`, the ways in which a computation can fail, and those of a comparison.

Does not own: what comes out of a walk that succeeds.
-/

namespace Fixity

/-- A list beside a number or a text, which a comparison compares with each element. -/
def Value.spreads : Value → Value → Bool
  | .list _, .number _ => true
  | .list _, .text _ => true
  | .number _, .list _ => true
  | .text _, .list _ => true
  | _, _ => false

/-- Two lists. -/
def Value.bothLists (left right : Value) : Bool := left.list?.isSome && right.list?.isSome

/-- A comparison goes on to the pairs of two values that are no objects. -/
theorem Value.ne_object_of_compared {left right : Value}
    (apart : left.spreads right ∨ left.bothLists right) :
    (∀ handle, left ≠ .object handle) ∧ ∀ handle, right ≠ .object handle := by
  cases left <;> cases right <;> simp_all [spreads, bothLists, list?]

namespace Heap

/-- The number of elements of a list. -/
def length (heap : Heap) : Value → Nat
  | .list handle => (heap.list handle).toList.length
  | _ => 0

/-- The pairs that two values consist of: elements with elements, or every element with the one
value that is no list. -/
def pairs (heap : Heap) : Value → Value → List (Value × Value)
  | .list left, .list right => (heap.list left).toList.zip (heap.list right).toList
  | .list left, right => (heap.list left).toList.map fun element => (element, right)
  | left, .list right => (heap.list right).toList.map fun element => (left, element)
  | _, _ => []

/-- Whether two values that are not taken apart count as equal. -/
def equates (heap : Heap) : Value → Value → Bool
  | .number left, .number right => left.nearlyEqual right
  | .text left, .text right => heap.text left == heap.text right
  | _, _ => false

section Pairs

variable {heap later : Heap} {left right : Value} {pair : Value × Value}

/-- What a pair has on one side: an element of a list, or the very value that is no list. -/
def Beside (heap : Heap) (value inner : Value) : Prop :=
  (value.list?.isSome → inner ∈ heap.children value) ∧ (value.list? = none → inner = value)

theorem Beside.reaches {value inner : Value} (beside : heap.Beside value inner) :
    heap.Reaches value inner := by
  cases isList : value.list? with
  | none =>
      rw [beside.2 isList]
      exact .refl heap value
  | some handle => exact (contains_of_child (beside.1 (by simp [isList]))).reaches

theorem mem_pairs (member : pair ∈ heap.pairs left right) :
    (left.list?.isSome ∨ right.list?.isSome) ∧ heap.Beside left pair.1 ∧
      heap.Beside right pair.2 := by
  have same {value : Value} (single : value.list? = none) : heap.Beside value value := by
    refine ⟨fun isList => ?_, fun _ => rfl⟩
    simp [single] at isList
  have element {handle : Nat} {child : Value} (inList : child ∈ (heap.list handle).toList) :
      heap.Beside (.list handle) child := ⟨fun _ => inList, nofun⟩
  cases left with
  | list left =>
      cases right with
      | list right =>
          have members := List.of_mem_zip member
          exact ⟨.inl rfl, element members.1, element members.2⟩
      | _ =>
          obtain ⟨child, inList, rfl⟩ := List.mem_map.mp member
          exact ⟨.inl rfl, element inList, same rfl⟩
  | _ =>
      cases right with
      | list right =>
          obtain ⟨child, inList, rfl⟩ := List.mem_map.mp member
          exact ⟨.inr rfl, same rfl, element inList⟩
      | _ => cases member

variable (grows : heap.Grows later)

include grows

theorem Grows.length (held : heap.Holds left) : later.length left = heap.length left := by
  cases left with
  | list handle => exact congrArg (·.toList.length) (grows.list held)
  | _ => rfl

variable (heldLeft : heap.Holds left) (heldRight : heap.Holds right)

include heldLeft heldRight

theorem Grows.pairs : later.pairs left right = heap.pairs left right := by
  cases left with
  | list left =>
      cases right with
      | list right => simp only [Heap.pairs, grows.list heldLeft, grows.list heldRight]
      | _ => simp only [Heap.pairs, grows.list heldLeft]
  | _ =>
      cases right with
      | list right => simp only [Heap.pairs, grows.list heldRight]
      | _ => rfl

theorem Grows.equates : later.equates left right = heap.equates left right := by
  cases left <;> cases right <;> try rfl
  simp only [Heap.equates, grows.text heldLeft, grows.text heldRight]

end Pairs

end Heap

theorem Visit.Pairs.of_mem {heap : Heap} {lefts rights insideLeft insideRight : Path}
    {left right : Value} {pair : Value × Value} (openedLeft : lefts.open? left = some insideLeft)
    (openedRight : rights.open? right = some insideRight) (member : pair ∈ heap.pairs left right) :
    Pairs heap (⟨lefts, left⟩, ⟨rights, right⟩) (⟨insideLeft, pair.1⟩, ⟨insideRight, pair.2⟩) := by
  obtain ⟨someList, besideLeft, besideRight⟩ := Heap.mem_pairs member
  exact ⟨someList, ⟨openedLeft, besideLeft⟩, ⟨openedRight, besideRight⟩⟩

namespace OnHeap

theorem read_apply {β : Type} (next : Heap → OnHeap β) (heap : Heap) :
    (get >>= next) heap = next heap heap := rfl

theorem enter_of_open {β : Type} {path inside : Path} {value : Value}
    (opened : path.open? value = some inside) (operation : String) (next : Path → OnHeap β) :
    ((liftM (path.enter value operation) : OnHeap Path) >>= next) = next inside := by
  unfold Path.enter
  rw [opened]
  rfl

/-- What a comparison does with two values, given how it compares the pairs that they consist of. -/
def compareLevel (negate : Bool) (compare : Value → Value → OnHeap Value) (heap : Heap)
    (left right : Value) : OnHeap Value :=
  if left.spreads right then do
    newListOf (← (heap.pairs left right).mapM fun pair => compare pair.1 pair.2)
  else if left.bothLists right then
    if heap.length left = heap.length right then do
      return .ofBool (← allPairs compare negate (heap.pairs left right))
    else
      return .ofBool negate
  else
    return .ofBool (heap.equates left right != negate)

/-- One level of a comparison. -/
theorem equalityWithin_succ (negate : Bool) (room : Nat) (lefts rights : Path)
    (left right : Value) :
    equalityWithin negate (room + 1) lefts rights left right =
      (do
        let lefts ← lefts.enter left "compare"
        let rights ← rights.enter right "compare"
        compareLevel negate (equalityWithin negate room lefts rights) (← get) left right) := by
  cases left <;> cases right <;>
    simp only [equalityWithin, compareLevel, Value.spreads, Heap.pairs, Heap.equates,
      List.mapM_map, Bool.false_bne] <;>
    rfl

/-- The level is that of an earlier heap, if that one has cells for the two values. -/
theorem compareLevel_grows {heap later : Heap} {left right : Value} (grows : heap.Grows later)
    (held : heap.Holds left) (held' : heap.Holds right) (negate : Bool)
    (compare : Value → Value → OnHeap Value) :
    compareLevel negate compare later left right = compareLevel negate compare heap left right := by
  unfold compareLevel
  rw [grows.pairs held held', grows.length held, grows.length held', grows.equates held held']

/-- An operator on the pairs of two values, one of them a list. -/
theorem mapPairs_eq {operation : Value → Value → OnHeap Value} {left right : Value}
    (someList : left.list?.isSome ∨ right.list?.isSome) :
    mapPairs operation left right =
      (do
        let heap ← get
        if left.bothLists right ∧ heap.length left ≠ heap.length right then
          throw (.unequalLength (heap.length left) (heap.length right))
        else
          newListOf (← (heap.pairs left right).mapM fun pair => operation pair.1 pair.2)) := by
  cases left <;> cases right <;>
    simp_all [mapPairs, Value.bothLists, Value.list?, Heap.pairs, Heap.length, List.mapM_map] <;>
    rfl

/-! ## Failures -/

variable {α β : Type}

/-- On heaps of a kind a computation leaves such a heap, and the errors it fails with are of a
certain sort. -/
def Faults (heaps : Heaps) (Reason : RuntimeError → Prop) (action : OnHeap α) : Prop :=
  ∀ heap, heaps.holds heap → heaps.holds (action.after heap) ∧
    ∀ error later, action heap = .error error later → Reason error

namespace Faults

variable {heaps : Heaps} {Reason : RuntimeError → Prop}

theorem of_certain {action : OnHeap α} (grows : ∀ heap : Heap, heap.Grows (action.after heap))
    (certain : Certain action) : Faults heaps Reason action := by
  refine fun heap holds => ⟨heaps.grown holds (grows heap), fun error later failed => ?_⟩
  obtain ⟨value, heap', ran⟩ := certain heap
  cases ran.symm.trans failed

theorem pure (value : α) : Faults heaps Reason (pure value) :=
  .of_certain Heap.Grows.refl (.pure value)

theorem newListOf (elements : List Value) : Faults heaps Reason (newListOf elements) :=
  .of_certain (fun heap => .push_list heap elements.toArray) fun _ => ⟨_, _, rfl⟩

theorem throw {error : RuntimeError} (reason : Reason error) :
    Faults heaps Reason (throw error : OnHeap α) := by
  refine fun heap holds => ⟨holds, fun error' later failed => ?_⟩
  cases failed
  exact reason

theorem bind {action : OnHeap α} {next : α → OnHeap β} (first : Faults heaps Reason action)
    (continued : ∀ value, Faults heaps Reason (next value)) :
    Faults heaps Reason (action >>= next) := by
  intro heap holds
  obtain ⟨kept, reasons⟩ := first heap holds
  unfold OnHeap.after at kept ⊢
  cases ran : action heap with
  | ok value middle =>
      rw [ran] at kept
      rw [bind_of_ok ran]
      exact continued value middle kept
  | error error middle =>
      rw [ran] at kept
      rw [bind_of_error ran]
      refine ⟨kept, fun error' later failed => ?_⟩
      cases failed
      exact reasons error middle ran

theorem read {next : Heap → OnHeap β}
    (continued : ∀ heap, heaps.holds heap → Faults heaps Reason (next heap)) :
    Faults heaps Reason (get >>= next) :=
  fun heap holds => continued heap holds heap holds

theorem mapM {action : α → OnHeap β} {items : List α}
    (each : ∀ item ∈ items, Faults heaps Reason (action item)) :
    Faults heaps Reason (items.mapM action) := by
  induction items with
  | nil => exact .pure []
  | cons item rest inductionHypothesis =>
      rw [List.mapM_cons]
      have others := inductionHypothesis fun other member =>
        each other (List.mem_cons_of_mem _ member)
      exact .bind (each item List.mem_cons_self) fun _ => .bind others fun _ => .pure _

theorem allPairs {compare : Value → Value → OnHeap Value} {negate : Bool}
    {pairs : List (Value × Value)}
    (each : ∀ pair ∈ pairs, Faults heaps Reason (compare pair.1 pair.2)) :
    Faults heaps Reason (allPairs compare negate pairs) := by
  induction pairs with
  | nil => exact .pure _
  | cons pair rest inductionHypothesis =>
      unfold OnHeap.allPairs
      refine .bind (each pair List.mem_cons_self) fun answer => ?_
      split
      · exact .pure _
      · exact inductionHypothesis fun other member => each other (List.mem_cons_of_mem _ member)

theorem enter {path : Path} {value : Value} {operation : String} {next : Path → OnHeap β}
    (closed : path.open? value = none → Reason (.cyclicValue operation))
    (continued : ∀ inside, path.open? value = some inside → Faults heaps Reason (next inside)) :
    Faults heaps Reason ((liftM (path.enter value operation) : OnHeap Path) >>= next) := by
  unfold Path.enter
  cases opened : path.open? value with
  | none => exact .throw (closed opened)
  | some inside => exact continued inside opened

end Faults

/-- A comparison fails where it is inside of a value already, or out of room, and nowhere else. -/
theorem equalityWithin_faults {heaps : Heaps} {Reason : RuntimeError → Prop} {negate : Bool}
    (Fit : Nat → Visit × Visit → Prop)
    (spent : ∀ {visits}, Fit 0 visits → Reason (.cyclicValue "compare"))
    (again : ∀ {room visits}, Fit (room + 1) visits → visits.1.Again ∨ visits.2.Again →
      Reason (.cyclicValue "compare"))
    (further : ∀ {room visits heap inner}, heaps.holds heap → Fit (room + 1) visits →
      (visits.1.value.spreads visits.2.value ∨ visits.1.value.bothLists visits.2.value) →
      Visit.Pairs heap visits inner → Fit room inner)
    {room : Nat} {lefts rights : Path} {left right : Value}
    (fit : Fit room (⟨lefts, left⟩, ⟨rights, right⟩)) :
    Faults heaps Reason (equalityWithin negate room lefts rights left right) := by
  induction room generalizing lefts rights left right with
  | zero => exact .throw (spent fit)
  | succ room inductionHypothesis =>
      rw [equalityWithin_succ]
      refine .enter (fun closed => again fit (.inl closed)) fun insideLeft openedLeft => ?_
      refine .enter (fun closed => again fit (.inr closed)) fun insideRight openedRight => ?_
      refine .read fun heap holds => ?_
      unfold compareLevel
      have each (apart : left.spreads right ∨ left.bothLists right) :
          ∀ pair ∈ heap.pairs left right, Faults heaps Reason
            (equalityWithin negate room insideLeft insideRight pair.1 pair.2) :=
        fun pair member =>
          inductionHypothesis (further holds fit apart (.of_mem openedLeft openedRight member))
      split
      · next spreads => exact .bind (.mapM (each (.inl spreads))) fun _ => .newListOf _
      · split
        · next bothLists =>
          split
          · exact .bind (.allPairs (each (.inr bothLists))) fun _ => .pure _
          · exact .pure _
        · exact .pure _

section Anywhere

variable {negate : Bool} {room : Nat} {lefts rights : Path} {left right value : Value}
  {heap later : Heap} {error : RuntimeError}

/-- A comparison adds cells, and has one way to fail. -/
theorem equalityWithin_faults_anywhere (heaps : Heaps) :
    Faults heaps (· = .cyclicValue "compare")
      (equalityWithin negate room lefts rights left right) := by
  refine equalityWithin_faults (fun _ _ => True) (fun _ => ?_) (fun _ _ => ?_)
    (fun _ _ _ _ => trivial) trivial
  · rfl
  · rfl

theorem equalityWithin_grows
    (ran : equalityWithin negate room lefts rights left right heap = .ok value later) :
    heap.Grows later := by
  have grows : heap.Grows ((equalityWithin negate room lefts rights left right).after heap) :=
    (equalityWithin_faults_anywhere (.since heap) heap (.refl heap)).1
  unfold OnHeap.after at grows
  rw [ran] at grows
  exact grows

theorem equality_fails (ran : equality negate left right heap = .error error later) :
    error = .cyclicValue "compare" :=
  (equalityWithin_faults_anywhere .all heap trivial).2 error later ran

end Anywhere

end OnHeap

end Fixity
