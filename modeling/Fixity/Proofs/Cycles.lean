import Fixity.Arithmetic
import Fixity.Proofs.Displays
import Fixity.Proofs.Walking

/-!
Contract: the native walks on values with lists and objects inside themselves.

Owns:
- `Visit`, a value on a walk and the lists and objects that the walk is inside of there;
- each walk of the model as a `Walk`, which within a bound does what the model does;
- `Heap.Displays`, the display forms, where a list or an object met again is cut short.

Main statement: every walk finishes on every heap. The display form cuts short what is met inside
itself and nothing else; a walk of another kind fails where it would go into such a list or object.
-/

namespace Fixity

/-- A value on a walk, and the containers that the walk is inside of there. -/
structure Visit where
  path : Path
  value : Value

namespace Visit

/-- Where a walk starts. -/
def start (value : Value) : Visit := ⟨[], value⟩

/-- The walk is inside of the value already. -/
def Again (visit : Visit) : Prop := visit.path.open? visit.value = none

/-- A walk goes into a value and on to something that it holds. -/
def Descends (heap : Heap) (visit inner : Visit) : Prop :=
  visit.path.open? visit.value = some inner.path ∧ inner.value ∈ heap.children visit.value

/-- A walk through two values goes on with an element of a list, or with the same value again. -/
def Accompanies (heap : Heap) (visit inner : Visit) : Prop :=
  visit.path.open? visit.value = some inner.path ∧
    (visit.value.list?.isSome → inner.value ∈ heap.children visit.value) ∧
    (visit.value.list? = none → inner.value = visit.value)

theorem Accompanies.element {heap : Heap} {path inside : Path} {handle : Nat} {child : Value}
    (opened : path.open? (.list handle) = some inside)
    (member : child ∈ (heap.list handle).toList) :
    Accompanies heap ⟨path, .list handle⟩ ⟨inside, child⟩ :=
  ⟨opened, fun _ => member, nofun⟩

theorem Accompanies.same {heap : Heap} {path inside : Path} {value : Value}
    (opened : path.open? value = some inside) (scalar : value.list? = none) :
    Accompanies heap ⟨path, value⟩ ⟨inside, value⟩ := by
  refine ⟨opened, fun isList => ?_, fun _ => rfl⟩
  simp [scalar] at isList

/-- A walk through two values, one of them a list, goes on with a pair. -/
def Pairs (heap : Heap) (visits inner : Visit × Visit) : Prop :=
  (visits.1.value.list?.isSome ∨ visits.2.value.list?.isSome) ∧
    visits.1.Accompanies heap inner.1 ∧ visits.2.Accompanies heap inner.2

/-- The levels left are enough for all containers that are not open yet. -/
def Roomy (source : Heap) (root : Value) (room : Nat) (visit : Visit) : Prop :=
  Ancestors source root visit.path visit.value ∧
    source.containers + 2 ≤ visit.path.length + room

/-- The levels left are enough for both of two values, of which only lists need any. -/
def RoomyPair (source : Heap) (left right : Value) (room : Nat) (visits : Visit × Visit) : Prop :=
  1 ≤ room ∧ (visits.1.value.list?.isSome → visits.1.Roomy source left room) ∧
    (visits.2.value.list?.isSome → visits.2.Roomy source right room)

section Roomy

variable {source heap : Heap} {root left right : Value}
  (held : ∀ inner, source.Reaches root inner → source.Holds inner) {room : Nat}
  {visit inner : Visit}

include held

theorem Roomy.positive (roomy : visit.Roomy source root room) : 2 ≤ room := by
  have bounded := roomy.1.length_le held
  have enough := roomy.2
  omega

theorem Roomy.descend (grown : source.Grows heap) (roomy : visit.Roomy source root (room + 1))
    (descends : visit.Descends heap inner) : inner.Roomy source root room := by
  obtain ⟨ancestors, enough⟩ := roomy
  obtain ⟨opened, member⟩ := descends
  rw [grown.children (held _ ancestors.reached)] at member
  obtain ⟨container, opens⟩ : ∃ container, visit.value.container? = some container := by
    cases shape : visit.value with
    | list handle => exact ⟨_, rfl⟩
    | object handle => exact ⟨_, rfl⟩
    | _ => simp [shape, Heap.children] at member
  have longer := Path.length_of_open? opens opened
  exact ⟨ancestors.descend opened member, by omega⟩

end Roomy

theorem RoomyPair.start (heap : Heap) (left right : Value) :
    RoomyPair heap left right heap.room (.start left, .start right) := by
  refine ⟨by simp [Heap.room], fun _ => ?_, fun _ => ?_⟩
  · exact ⟨Ancestors.start heap left, by simp [Visit.start, Heap.room]⟩
  · exact ⟨Ancestors.start heap right, by simp [Visit.start, Heap.room]⟩

theorem RoomyPair.pairs {source heap : Heap} {left right : Value}
    (heldLeft : ∀ inner, source.Reaches left inner → source.Holds inner)
    (heldRight : ∀ inner, source.Reaches right inner → source.Holds inner) {room : Nat}
    {visits inner : Visit × Visit} (grown : source.Grows heap)
    (roomy : RoomyPair source left right (room + 1) visits) (pairs : Pairs heap visits inner) :
    RoomyPair source left right room inner := by
  obtain ⟨_, leftRoomy, rightRoomy⟩ := roomy
  obtain ⟨someList, ⟨leftOpened, leftElement, leftSame⟩, rightOpened, rightElement, rightSame⟩ :=
    pairs
  have leftFurther (isList : visits.1.value.list?.isSome) : inner.1.Roomy source left room :=
    (leftRoomy isList).descend heldLeft grown ⟨leftOpened, leftElement isList⟩
  have rightFurther (isList : visits.2.value.list?.isSome) : inner.2.Roomy source right room :=
    (rightRoomy isList).descend heldRight grown ⟨rightOpened, rightElement isList⟩
  refine ⟨?_, fun isList => ?_, fun isList => ?_⟩
  · rcases someList with isList | isList
    · exact Nat.le_of_succ_le ((leftFurther isList).positive heldLeft)
    · exact Nat.le_of_succ_le ((rightFurther isList).positive heldRight)
  · cases isListAbove : visits.1.value.list? with
    | some handle => exact leftFurther (by simp [isListAbove])
    | none => simp [leftSame isListAbove, isListAbove] at isList
  · cases isListAbove : visits.2.value.list? with
    | some handle => exact rightFurther (by simp [isListAbove])
    | none => simp [rightSame isListAbove, isListAbove] at isList

end Visit

namespace OnHeap

variable {α β : Type} {heaps : Heaps} {stop : Option (RuntimeError × Heap)}

theorem enter_of_again {path : Path} {value : Value} (again : path.open? value = none)
    (operation : String) (next : Path → OnHeap β) (heap : Heap) :
    ((liftM (path.enter value operation) : OnHeap Path) >>= next) heap =
      .error (.cyclicValue operation) heap := by
  unfold Path.enter
  rw [again]
  rfl

theorem enterBoth_of_again {visits : Visit × Visit} (again : visits.1.Again ∨ visits.2.Again)
    (operation : String) (next : Path → Path → OnHeap β) (heap : Heap) :
    ((liftM (visits.1.path.enter visits.1.value operation) : OnHeap Path) >>= fun lefts =>
        (liftM (visits.2.path.enter visits.2.value operation) : OnHeap Path) >>= next lefts) heap =
      .error (.cyclicValue operation) heap := by
  by_cases againLeft : visits.1.Again
  · exact enter_of_again againLeft operation _ heap
  · obtain ⟨inside, opened⟩ := Option.ne_none_iff_exists'.mp againLeft
    rw [Path.enter, opened]
    exact enter_of_again (again.resolve_left againLeft) operation _ heap

/-- What follows the entrance to a value is inside of it. -/
theorem Agree.enter {path : Path} {value : Value} {operation : String}
    {next next' : Path → OnHeap β}
    (continued : ∀ inside, path.open? value = some inside →
      Agree heaps stop (next inside) (next' inside)) :
    Agree heaps stop ((liftM (path.enter value operation) : OnHeap Path) >>= next)
      ((liftM (path.enter value operation) : OnHeap Path) >>= next') := by
  unfold Path.enter
  cases opened : path.open? value with
  | none => exact .throw _
  | some inside => exact continued inside opened

/-- The same heap is read twice. -/
theorem Agree.readTwice {next next' : Heap → Heap → OnHeap β}
    (continued : ∀ heap, heaps.holds heap → Agree heaps stop (next heap heap) (next' heap heap)) :
    Agree heaps stop (get >>= fun heap => get >>= next heap)
      (get >>= fun heap => get >>= next' heap) :=
  fun heap holds => continued heap holds heap holds

@[grind ←]
theorem Agree.get : Agree heaps stop (get : OnHeap Heap) get := .of_grows Heap.Grows.refl

/-! ## Copies -/

/-- A deep copy as a walk. -/
def copying : Walk Visit Value where
  operation := "copy"
  level duplicate visit := do
    let inside ← visit.path.enter visit.value "copy"
    match visit.value with
    | .number content => return .number content
    | .text handle => newText ((← get).text handle)
    | .list handle => do
        let elements ← ((← get).list handle).toList.mapM fun element =>
          duplicate ⟨inside, element⟩
        newListOf elements
    | .object handle => do
        let object := (← get).object handle
        let values ← object.values.mapM fun value => duplicate ⟨inside, value⟩
        newObject (Dict.ofList (object.keys.zip values))
    | .function handle => newFunction ((← get).function handle)
    | .builtin handle => return .builtin handle
    | .node handle => newNode ((← get).node handle)
  Again := Visit.Again

theorem copying_within (room : Nat) (path : Path) (value : Value) :
    copying.within room ⟨path, value⟩ = duplicateWithin room path value := by
  induction room generalizing path value with
  | zero => rfl
  | succ room inductionHypothesis =>
      have below : copying.within room = fun visit => duplicateWithin room visit.path visit.value :=
        funext fun visit => inductionHypothesis visit.path visit.value
      show copying.level (copying.within room) ⟨path, value⟩ = _
      rw [below]
      rfl

theorem copying_local : copying.Local Visit.Descends where
  refuses _ visit heap again := enter_of_again again "copy" _ heap
  agree := by
    intro heaps stop first second visit each
    refine .enter fun inside opened => ?_
    have row (heap : Heap) (holds : heaps.holds heap) {values : List Value}
        (same : values = heap.children visit.value) :
        Agree heaps stop (values.mapM fun value => first ⟨inside, value⟩)
          (values.mapM fun value => second ⟨inside, value⟩) :=
      .mapM fun value member => each heap ⟨inside, value⟩ holds ⟨opened, same ▸ member⟩
    cases shape : visit.value with
    | list handle =>
        exact .read fun heap holds => .bind (row heap holds (by rw [shape]; rfl)) fun _ =>
          .newListOf _
    | object handle =>
        exact .read fun heap holds => .bind (row heap holds (by rw [shape]; rfl)) fun _ =>
          .newObject _
    | _ => grind

/-! ## Trees of values -/

/-- The tree of a value as a walk, which goes into lists only. -/
def lifting : Walk Visit Node where
  operation := "place in a syntax tree"
  level lift visit :=
    match visit.value with
    | .node handle => return (← get).node handle
    | .number content => return .number content
    | .text handle => return .plainText ((← get).text handle)
    | .list handle => do
        let inside ← visit.path.enter visit.value "place in a syntax tree"
        let elements ← ((← get).list handle).toList.mapM fun element => lift ⟨inside, element⟩
        return .list elements
    | other => throw (.typeError (.notLiftable other.typeName))
  Again visit := visit.value.list?.isSome ∧ visit.Again

theorem mapM_ofOutcome {action : α → OnHeap β} {outcome : α → Outcome β} {heap : Heap}
    (each : ∀ item, action item heap = ofOutcome (outcome item) heap) (items : List α) :
    items.mapM action heap = ofOutcome (items.mapM outcome) heap := by
  induction items with
  | nil => rfl
  | cons item rest inductionHypothesis =>
      rw [List.mapM_cons, List.mapM_cons]
      cases first : outcome item with
      | error error => exact bind_of_error ((each item).trans (by rw [first]; rfl))
      | ok result =>
          rw [bind_of_ok ((each item).trans (by rw [first]; rfl))]
          cases others : rest.mapM outcome with
          | error error => exact bind_of_error (inductionHypothesis.trans (by rw [others]; rfl))
          | ok results => exact bind_of_ok (inductionHypothesis.trans (by rw [others]; rfl))

theorem lifting_within (room : Nat) (path : Path) (value : Value) (heap : Heap) :
    lifting.within room ⟨path, value⟩ heap = ofOutcome (heap.liftWithin room path value) heap := by
  induction room generalizing path value with
  | zero => rfl
  | succ room inductionHypothesis =>
      cases value with
      | list handle =>
          cases opened : path.open? (.list handle) with
          | none =>
              refine (enter_of_again opened "place in a syntax tree" _ heap).trans ?_
              unfold Heap.liftWithin Path.enter
              rw [opened]
              rfl
          | some inside =>
              have goesOn : lifting.within (room + 1) ⟨path, .list handle⟩ heap =
                  ((heap.list handle).toList.mapM (fun element =>
                    lifting.within room ⟨inside, element⟩) >>= fun elements =>
                      (pure (.list elements) : OnHeap Node)) heap := by
                show ((liftM (path.enter (.list handle) "place in a syntax tree") :
                  OnHeap Path) >>= _) heap = _
                rw [Path.enter, opened]
                rfl
              have goesOnThere : heap.liftWithin (room + 1) path (.list handle) =
                  (heap.list handle).toList.mapM (heap.liftWithin room inside) >>=
                    fun elements => pure (.list elements) := by
                show path.enter (.list handle) "place in a syntax tree" >>= _ = _
                rw [Path.enter, opened]
                rfl
              have row := mapM_ofOutcome (fun element => inductionHypothesis inside element)
                (heap.list handle).toList
              rw [goesOn, goesOnThere]
              cases ran : (heap.list handle).toList.mapM (heap.liftWithin room inside) with
              | error error => exact bind_of_error (row.trans (by rw [ran]; rfl))
              | ok elements => exact bind_of_ok (row.trans (by rw [ran]; rfl))
      | _ => rfl

theorem lifting_local : lifting.Local Visit.Descends where
  refuses _ visit heap again := by
    obtain ⟨isList, again⟩ := again
    obtain ⟨path, value⟩ := visit
    cases value with
    | list handle => exact enter_of_again again "place in a syntax tree" _ heap
    | _ => cases isList
  agree := by
    intro heaps stop first second visit each
    obtain ⟨path, value⟩ := visit
    cases value with
    | list handle =>
        refine Agree.enter fun inside opened => .read fun heap holds => .bind (.mapM ?_) fun _ =>
          .pure _
        exact fun element member => each heap ⟨inside, element⟩ holds ⟨opened, member⟩
    | _ => simp only [lifting]; grind

/-! ## Functions of everything in a list -/

/-- A function of a value or of everything in a list, as a walk, which goes into lists only. -/
def applying (function : Value → Outcome Value) : Walk Visit Value where
  operation := "broadcast over"
  level broadcast visit :=
    match visit.value with
    | .list handle => do
        let inside ← visit.path.enter visit.value "broadcast over"
        newListOf (← ((← get).list handle).toList.mapM fun element => broadcast ⟨inside, element⟩)
    | other => function other
  Again visit := visit.value.list?.isSome ∧ visit.Again

theorem applying_within (function : Value → Outcome Value) (room : Nat) (path : Path)
    (value : Value) :
    (applying function).within room ⟨path, value⟩ = broadcastWithin function room path value := by
  induction room generalizing path value with
  | zero => rfl
  | succ room inductionHypothesis =>
      have below : (applying function).within room =
          fun visit => broadcastWithin function room visit.path visit.value :=
        funext fun visit => inductionHypothesis visit.path visit.value
      show (applying function).level ((applying function).within room) ⟨path, value⟩ = _
      rw [below]
      cases value <;> rfl

theorem applying_local (function : Value → Outcome Value) :
    (applying function).Local Visit.Descends where
  refuses _ visit heap again := by
    obtain ⟨isList, again⟩ := again
    obtain ⟨path, value⟩ := visit
    cases value with
    | list handle => exact enter_of_again again "broadcast over" _ heap
    | _ => cases isList
  agree := by
    intro heaps stop first second visit each
    obtain ⟨path, value⟩ := visit
    cases value with
    | list handle =>
        refine Agree.enter fun inside opened => .read fun heap holds => .bind (.mapM ?_) fun _ =>
          .newListOf _
        exact fun element member => each heap ⟨inside, element⟩ holds ⟨opened, member⟩
    | _ => exact .lift _

/-! ## Comparisons -/

/-- Equality, or its negation, as a walk. -/
def comparison (negate : Bool) : Walk (Visit × Visit) Value where
  operation := "compare"
  level compare visits := do
    let lefts ← visits.1.path.enter visits.1.value "compare"
    let rights ← visits.2.path.enter visits.2.value "compare"
    let pair := fun left right => compare (⟨lefts, left⟩, ⟨rights, right⟩)
    match visits.1.value, visits.2.value with
    | .number left, .number right => return .ofBool (left.nearlyEqual right != negate)
    | .list left, .list right => do
        let left := ((← get).list left).toList
        let right := ((← get).list right).toList
        if left.length = right.length then
          return .ofBool (← allPairs pair negate (left.zip right))
        else
          return .ofBool negate
    | .list list, .number content => newListOf (← ((← get).list list).toList.mapM fun element =>
        pair element (.number content))
    | .list list, .text handle => newListOf (← ((← get).list list).toList.mapM fun element =>
        pair element (.text handle))
    | .number content, .list list =>
        newListOf (← ((← get).list list).toList.mapM (pair (.number content)))
    | .text handle, .list list =>
        newListOf (← ((← get).list list).toList.mapM (pair (.text handle)))
    | .text left, .text right =>
        return .ofBool (((← get).text left == (← get).text right) != negate)
    | _, _ => return .ofBool negate
  Again visits := visits.1.Again ∨ visits.2.Again

theorem comparison_within (negate : Bool) (room : Nat) (lefts rights : Path)
    (left right : Value) :
    (comparison negate).within room (⟨lefts, left⟩, ⟨rights, right⟩) =
      equalityWithin negate room lefts rights left right := by
  induction room generalizing lefts rights left right with
  | zero => rfl
  | succ room inductionHypothesis =>
      have below : (comparison negate).within room = fun visits =>
          equalityWithin negate room visits.1.path visits.2.path visits.1.value visits.2.value :=
        funext fun visits => inductionHypothesis _ _ visits.1.value visits.2.value
      show (comparison negate).level ((comparison negate).within room) _ = _
      rw [below]
      cases left <;> cases right <;> rfl

theorem Agree.allPairs {compare compare' : Value → Value → OnHeap Value} {negate : Bool}
    {pairs : List (Value × Value)}
    (each : ∀ pair ∈ pairs, Agree heaps stop (compare pair.1 pair.2) (compare' pair.1 pair.2)) :
    Agree heaps stop (allPairs compare negate pairs) (OnHeap.allPairs compare' negate pairs) := by
  induction pairs with
  | nil => exact .pure _
  | cons pair rest inductionHypothesis =>
      unfold OnHeap.allPairs
      refine .bind (each pair List.mem_cons_self) fun answer => ?_
      split
      · exact .pure _
      · exact inductionHypothesis fun other member => each other (List.mem_cons_of_mem _ member)

section Pairs

variable {first second : Visit × Visit → OnHeap Value} {leftPath rightPath lefts rights : Path}
  {left right : Value}

/-- The elements of a list on the left go with one value on the right. -/
theorem agree_alongRight {handle : Nat}
    (each : ∀ heap other, heaps.holds heap →
      Visit.Pairs heap (⟨leftPath, .list handle⟩, ⟨rightPath, right⟩) other →
      Agree heaps stop (first other) (second other))
    (openedLeft : leftPath.open? (.list handle) = some lefts)
    (openedRight : rightPath.open? right = some rights) (scalar : right.list? = none) :
    Agree heaps stop
      (do newListOf (← ((← get).list handle).toList.mapM fun element =>
        first (⟨lefts, element⟩, ⟨rights, right⟩)))
      (do newListOf (← ((← get).list handle).toList.mapM fun element =>
        second (⟨lefts, element⟩, ⟨rights, right⟩))) := by
  refine .read fun heap holds => .bind (.mapM fun element member => ?_) fun _ => .newListOf _
  exact each heap _ holds ⟨.inl rfl, .element openedLeft member, .same openedRight scalar⟩

/-- The elements of a list on the right go with one value on the left. -/
theorem agree_alongLeft {handle : Nat}
    (each : ∀ heap other, heaps.holds heap →
      Visit.Pairs heap (⟨leftPath, left⟩, ⟨rightPath, .list handle⟩) other →
      Agree heaps stop (first other) (second other))
    (openedLeft : leftPath.open? left = some lefts)
    (openedRight : rightPath.open? (.list handle) = some rights) (scalar : left.list? = none) :
    Agree heaps stop
      (do newListOf (← ((← get).list handle).toList.mapM fun element =>
        first (⟨lefts, left⟩, ⟨rights, element⟩)))
      (do newListOf (← ((← get).list handle).toList.mapM fun element =>
        second (⟨lefts, left⟩, ⟨rights, element⟩))) := by
  refine .read fun heap holds => .bind (.mapM fun element member => ?_) fun _ => .newListOf _
  exact each heap _ holds ⟨.inr rfl, .same openedLeft scalar, .element openedRight member⟩

/-- The elements of two lists go with each other. -/
theorem agree_zipped {leftHandle rightHandle : Nat} {heap : Heap}
    (each : ∀ heap other, heaps.holds heap →
      Visit.Pairs heap (⟨leftPath, .list leftHandle⟩, ⟨rightPath, .list rightHandle⟩) other →
      Agree heaps stop (first other) (second other))
    (openedLeft : leftPath.open? (.list leftHandle) = some lefts)
    (openedRight : rightPath.open? (.list rightHandle) = some rights) (holds : heaps.holds heap) :
    ∀ pair ∈ (heap.list leftHandle).toList.zip (heap.list rightHandle).toList,
      Agree heaps stop (first (⟨lefts, pair.1⟩, ⟨rights, pair.2⟩))
        (second (⟨lefts, pair.1⟩, ⟨rights, pair.2⟩)) := by
  intro pair member
  have members := List.of_mem_zip member
  exact each heap _ holds
    ⟨.inl rfl, .element openedLeft members.1, .element openedRight members.2⟩

/-- The pairs that two values consist of. -/
theorem agree_mapPairs
    (each : ∀ heap other, heaps.holds heap →
      Visit.Pairs heap (⟨leftPath, left⟩, ⟨rightPath, right⟩) other →
      Agree heaps stop (first other) (second other))
    (openedLeft : leftPath.open? left = some lefts)
    (openedRight : rightPath.open? right = some rights)
    (someList : left.list?.isSome ∨ right.list?.isSome) :
    Agree heaps stop
      (mapPairs (fun left right => first (⟨lefts, left⟩, ⟨rights, right⟩)) left right)
      (mapPairs (fun left right => second (⟨lefts, left⟩, ⟨rights, right⟩)) left right) := by
  unfold mapPairs
  split
  · refine .readTwice fun heap holds => ?_
    dsimp only
    split
    · exact .bind (.mapM (agree_zipped each openedLeft openedRight holds)) fun _ => .newListOf _
    · exact .throw _
  · next scalar =>
      have single : right.list? = none := by cases right <;> simp_all [Value.list?]
      exact agree_alongRight each openedLeft openedRight single
  · next scalar =>
      have single : left.list? = none := by cases left <;> simp_all [Value.list?]
      exact agree_alongLeft each openedLeft openedRight single
  · cases left <;> cases right <;> simp_all [Value.list?]

end Pairs

theorem comparison_local (negate : Bool) : (comparison negate).Local Visit.Pairs where
  refuses _ visits heap again := enterBoth_of_again again "compare" _ heap
  agree := by
    intro heaps stop first second visits each
    obtain ⟨⟨leftPath, left⟩, ⟨rightPath, right⟩⟩ := visits
    refine Agree.enter fun lefts openedLeft => Agree.enter fun rights openedRight => ?_
    cases left with
    | list left =>
        cases right with
        | list right =>
            refine .readTwice fun heap holds => ?_
            dsimp only
            split
            · have pairs := agree_zipped each openedLeft openedRight holds
              exact .bind (Agree.allPairs pairs) fun _ => .pure _
            · exact .pure _
        | number content => exact agree_alongRight each openedLeft openedRight rfl
        | text handle => exact agree_alongRight each openedLeft openedRight rfl
        | _ => exact .pure _
    | number content =>
        cases right with
        | list right => exact agree_alongLeft each openedLeft openedRight rfl
        | _ => exact .pure _
    | text handle =>
        cases right with
        | list right => exact agree_alongLeft each openedLeft openedRight rfl
        | text handle => exact .read fun _ _ => .read fun _ _ => .pure _
        | _ => exact .pure _
    | _ => exact .pure _

theorem Agree.equality {negate : Bool} {left right : Value} :
    Agree heaps stop (equality negate left right) (OnHeap.equality negate left right) := by
  refine .read fun heap _ => ?_
  rw [← comparison_within]
  exact (comparison_local negate).within_agree _ _

/-! ## Operators -/

/-- Whether an operator on two values is taken to their elements: there is a list among them, the
operator is no comparison, and it does not join texts. -/
def Broadcasts (operator : BinaryOperator) (left right : Value) : Prop :=
  operator ≠ .equal ∧ operator ≠ .notEqual ∧
    ¬ (operator = .add ∧ (left.text?.isSome ∨ right.text?.isSome)) ∧
    (left.list?.isSome ∨ right.list?.isSome)

/-- An operator as a walk. Equality is a walk of its own. -/
def broadcasting (operator : BinaryOperator) : Walk (Visit × Visit) Value where
  operation := "broadcast over"
  level binary visits :=
    let left := visits.1.value
    let right := visits.2.value
    if operator = .equal then equality false left right
    else if operator = .notEqual then equality true left right
    else if operator = .add ∧ (left.text?.isSome ∨ right.text?.isSome) then do
      newText ((← display left) ++ (← display right))
    else
      match left, right with
      | .number left, .number right => return .number (← Number.apply operator left right)
      | _, _ =>
          if left.list?.isSome ∨ right.list?.isSome then do
            let lefts ← visits.1.path.enter left "broadcast over"
            let rights ← visits.2.path.enter right "broadcast over"
            mapPairs (fun left right => binary (⟨lefts, left⟩, ⟨rights, right⟩)) left right
          else do
            match operator, left, right with
            | .mul, .text text, .number count => newText (← Text.times ((← get).text text) count)
            | _, .text first, .text second =>
                if operator.isOrdering then do
                  let heap ← get
                  return .ofBool (Text.ordered operator (heap.text first) (heap.text second))
                else
                  throw (.invalidArguments operator.token (← display left) (← display right))
            | _, _, _ =>
                throw (.invalidArguments operator.token (← display left) (← display right))
  Again visits :=
    Broadcasts operator visits.1.value visits.2.value ∧ (visits.1.Again ∨ visits.2.Again)

theorem broadcasting_within (operator : BinaryOperator) (room : Nat) (lefts rights : Path)
    (left right : Value) :
    (broadcasting operator).within room (⟨lefts, left⟩, ⟨rights, right⟩) =
      binaryWithin operator room lefts rights left right := by
  induction room generalizing lefts rights left right with
  | zero => rfl
  | succ room inductionHypothesis =>
      have below : (broadcasting operator).within room = fun visits =>
          binaryWithin operator room visits.1.path visits.2.path visits.1.value visits.2.value :=
        funext fun visits => inductionHypothesis _ _ visits.1.value visits.2.value
      show (broadcasting operator).level ((broadcasting operator).within room) _ = _
      rw [below]
      rfl

theorem broadcasting_local (operator : BinaryOperator) :
    (broadcasting operator).Local Visit.Pairs where
  refuses others visits heap again := by
    obtain ⟨⟨isEqual, isNotEqual, joins, someList⟩, again⟩ := again
    refine Eq.trans (congrFun ?_ heap) (enterBoth_of_again again "broadcast over"
      (fun lefts rights => mapPairs (fun left right => others (⟨lefts, left⟩, ⟨rights, right⟩))
        visits.1.value visits.2.value) heap)
    dsimp only [broadcasting]
    rw [if_neg isEqual, if_neg isNotEqual, if_neg joins]
    simp only [if_pos someList]
    split
    · next isLeft isRight => simp [isLeft, isRight, Value.list?] at someList
    · rfl
  agree := by
    intro heaps stop first second visits each
    obtain ⟨⟨leftPath, left⟩, ⟨rightPath, right⟩⟩ := visits
    dsimp only [broadcasting]
    split
    · exact .equality
    split
    · exact .equality
    split
    · grind
    split
    · grind
    split
    · next someList =>
      exact .enter fun lefts openedLeft => .enter fun rights openedRight =>
        agree_mapPairs each openedLeft openedRight someList
    · split
      · grind
      · grind
      · grind

theorem binary_eq (operator : BinaryOperator) (left right : Value) (heap : Heap) :
    binary operator left right heap =
      (broadcasting operator).within heap.room (.start left, .start right) heap := by
  rw [Visit.start, Visit.start, broadcasting_within]
  rfl

theorem binary_equal (left right : Value) (heap : Heap) :
    binary .equal left right heap = equality false left right heap := by
  rw [binary_eq, Heap.room, Walk.within]
  rfl

theorem binary_notEqual (left right : Value) (heap : Heap) :
    binary .notEqual left right heap = equality true left right heap := by
  rw [binary_eq, Heap.room, Walk.within]
  rfl

/-! ## All walks -/

section Finishes

variable {heap : Heap} {left right : Value}
  (heldLeft : ∀ inner, heap.Reaches left inner → heap.Holds inner)
  (heldRight : ∀ inner, heap.Reaches right inner → heap.Holds inner)

include heldLeft

private theorem single_finishes {Answer : Type} {walk : Walk Visit Answer}
    (here : walk.Local Visit.Descends) :
    walk.Finishes (.start left) heap (walk.within heap.room (.start left) heap) := by
  refine here.finishes (.since heap) (Visit.Roomy heap left) (fun visit roomy => ?_) ?_
    (.refl heap) ⟨.start heap left, by simp [Visit.start, Heap.room]⟩
  · exact absurd (roomy.positive heldLeft) (by decide)
  · exact fun grown roomy descends => roomy.descend heldLeft grown descends

include heldRight

private theorem pair_finishes {walk : Walk (Visit × Visit) Value} (here : walk.Local Visit.Pairs) :
    walk.Finishes (.start left, .start right) heap
      (walk.within heap.room (.start left, .start right) heap) := by
  refine here.finishes (.since heap) (Visit.RoomyPair heap left right) (fun visits roomy => ?_) ?_
    (.refl heap) (.start heap left right)
  · exact absurd roomy.1 (by decide)
  · exact fun grown roomy pairs => roomy.pairs heldLeft heldRight grown pairs

end Finishes

/-- Every walk finishes on every heap. A value shows its display form and nothing else: a list or an
object is cut short where it is met inside itself, and all the rest is written in full. The other
walks fail, naming themselves, where they would go into a list or an object that they are inside of
already: for a copy or a comparison this is everything met again, for the tree of a value or a
function of its elements every list, for an operator everything that it is taken to the elements of.
Equality as an operator is the comparison. All that the values lead to has a cell. -/
theorem walks_finish (heap : Heap) (left right : Value)
    (heldLeft : ∀ position inner, heap.at? left position = some inner → heap.Holds inner)
    (heldRight : ∀ position inner, heap.at? right position = some inner → heap.Holds inner) :
    (∀ text, heap.Displays [] left text ↔ text = heap.display left) ∧
    copying.Finishes (.start left) heap (duplicate left heap) ∧
    lifting.Finishes (.start left) heap (lift left heap) ∧
    (∀ function, (applying function).Finishes (.start left) heap (broadcast function left heap)) ∧
    (∀ negate, (comparison negate).Finishes (.start left, .start right) heap
      (equality negate left right heap)) ∧
    (∀ operator, (broadcasting operator).Finishes (.start left, .start right) heap
      (binary operator left right heap)) ∧
    binary .equal left right heap = equality false left right heap ∧
    binary .notEqual left right heap = equality true left right heap := by
  have reachedLeft : ∀ inner, heap.Reaches left inner → heap.Holds inner :=
    fun inner ⟨position, found⟩ => heldLeft position inner found
  have reachedRight : ∀ inner, heap.Reaches right inner → heap.Holds inner :=
    fun inner ⟨position, found⟩ => heldRight position inner found
  refine ⟨fun text => Heap.displays_iff reachedLeft, ?_, ?_, fun function => ?_, fun negate => ?_,
    fun operator => ?_, binary_equal left right heap, binary_notEqual left right heap⟩
  · have finishes := single_finishes reachedLeft copying_local
    rw [Visit.start, copying_within] at finishes
    exact finishes
  · have finishes := single_finishes reachedLeft lifting_local
    rw [Visit.start, lifting_within] at finishes
    exact finishes
  · have finishes := single_finishes reachedLeft (applying_local function)
    rw [Visit.start, applying_within] at finishes
    exact finishes
  · have finishes := pair_finishes reachedLeft reachedRight (comparison_local negate)
    rw [Visit.start, Visit.start, comparison_within] at finishes
    exact finishes
  · rw [binary_eq]
    exact pair_finishes reachedLeft reachedRight (broadcasting_local operator)

/-- A list that contains itself, and a list that holds it, in all walks. -/
theorem walks_finish_around :
    let heap := { Heap.empty with lists := #[#[.list 0], #[.list 0]] }
    (∀ text, heap.Displays [] (.list 0) text ↔ text = heap.display (.list 0)) ∧
    copying.Finishes (.start (.list 0)) heap (duplicate (.list 0) heap) ∧
    ∀ operator, (broadcasting operator).Finishes (.start (.list 0), .start (.list 1)) heap
      (binary operator (.list 0) (.list 1) heap) := by
  intro heap
  have closed : ∀ value, heap.Holds value → ∀ child ∈ heap.children value,
      heap.Holds child := by
    rintro (_ | _ | handle | _ | _ | _ | _) held child member <;> try cases member
    match handle, held with
    | 0, _ | 1, _ => simp_all [heap, Heap.children, Heap.list, Heap.Holds]
  have held : ∀ handle < 2, ∀ position inner, heap.at? (.list handle) position = some inner →
      heap.Holds inner := fun handle inRange _ _ found =>
    Heap.Holds.at? closed (show heap.Holds (.list handle) from inRange) found
  obtain ⟨displays, copies, _, _, _, operators, _⟩ :=
    walks_finish heap (.list 0) (.list 1) (held 0 (by decide)) (held 1 (by decide))
  exact ⟨displays, copies, operators⟩

/-- Where `+` meets a text, a list that the walk is inside of already is joined to it in its display
form: a list that contains itself, added to a list with a text, does not fail. -/
theorem joins_again :
    let heap := { Heap.empty with texts := #["a"], lists := #[#[.list 0], #[.text 0]] }
    ¬ ∀ inner later, (broadcasting .add).recursion.Meets
        ((.start (.list 0), .start (.list 1)), heap) (inner, later) →
      inner.1.Again ∨ inner.2.Again →
      binary .add (.list 0) (.list 1) heap = .error (.cyclicValue "broadcast over") later := by
  classical
  intro heap always
  let root : (Visit × Visit) × Heap := ((.start (.list 0), .start (.list 1)), heap)
  let inner : (Visit × Visit) × Heap := ((⟨[.list 0], .list 0⟩, ⟨[.list 1], .text 0⟩), heap)
  -- beside the text the walk ends without going any further
  obtain ⟨value, later, ends⟩ : ∃ value later,
      (broadcasting .add).recursion.Ends inner (.ok value later) :=
    ⟨_, _, .of_const fun _ => rfl⟩
  obtain ⟨walk, completes⟩ :=
    (broadcasting .add).recursion.exists_completes (.error (.user "") heap)
  have goesOn (answers : (Visit × Visit) × Heap → EStateM.Result RuntimeError Heap Value) :
      (broadcasting .add).recursion answers root =
        (((fun heap => answers (inner.1, heap) : OnHeap Value) >>= fun value =>
          pure [value]) >>= newListOf) heap := rfl
  let walk' := fun question => if question = inner then .error (.user "") heap else walk question
  obtain ⟨list, later', succeeds⟩ : ∃ list later',
      (broadcasting .add).recursion walk root = .ok list later' :=
    ⟨_, _, (goesOn walk).trans (bind_of_ok (bind_of_ok (completes inner _ ends)))⟩
  have fails : (broadcasting .add).recursion walk' root = .error (.user "") heap :=
    (goesOn walk').trans (bind_of_error (bind_of_error (if_pos rfl)))
  have asks : (broadcasting .add).recursion.Asks root inner := by
    refine ⟨walk, walk', completes, fun another apart => if_neg apart, fun same => ?_⟩
    cases fails.symm.trans (same.trans succeeds)
  have failed := always inner.1 inner.2 (.step asks (.refl inner)) (.inl rfl)
  cases failed

end OnHeap

end Fixity
