import Fixity.Proofs.Cycles
import Fixity.Proofs.Relocations

/-!
Contract: walks through values on heaps with further cells.

Owns:
- that a walk comes to the same with more room than it needs;
- the display form, the key and the tree of a value, and whether an object is read on the way, which
  are those that the value has without the further cells.

Does not own: walks that add cells.
-/

namespace Fixity

/-! ## Room -/

namespace Walk.Local

variable {heap : Heap} {left right : Value} {room : Nat}
  (heldLeft : ∀ inner, heap.Reaches left inner → heap.Holds inner)
  (heldRight : ∀ inner, heap.Reaches right inner → heap.Holds inner)
  (enough : heap.room ≤ room)

include heldLeft enough

/-- A walk through a value comes to the same with more room than there are levels. -/
theorem within_room {Answer : Type} {walk : Walk Visit Answer}
    (here : walk.Local Visit.Descends) :
    walk.within room (.start left) heap = walk.within heap.room (.start left) heap := by
  have finishes {room : Nat} (enough : heap.room ≤ room) :
      walk.Finishes (.start left) heap (walk.within room (.start left) heap) := by
    have start : (Visit.start left).Roomy heap left room :=
      ⟨.start heap left, by unfold Heap.room at enough; simpa [Visit.start] using enough⟩
    refine here.finishes (.since heap) (Visit.Roomy heap left) (fun visit roomy => ?_)
      (fun grown roomy descends => roomy.descend heldLeft grown descends) (.refl heap) start
    exact absurd (roomy.positive heldLeft) (by decide)
  exact (finishes enough).ends.unique (finishes (Nat.le_refl _)).ends

include heldRight

/-- A walk through two values comes to the same with more room than there are levels. -/
theorem within_room_pair {walk : Walk (Visit × Visit) Value} (here : walk.Local Visit.Pairs) :
    walk.within room (.start left, .start right) heap =
      walk.within heap.room (.start left, .start right) heap := by
  have finishes {room : Nat} (enough : heap.room ≤ room) :
      walk.Finishes (.start left, .start right) heap
        (walk.within room (.start left, .start right) heap) := by
    have roomy : heap.containers + 2 ≤ 0 + room := by
      rwa [Nat.zero_add]
    have start : Visit.RoomyPair heap left right room (.start left, .start right) :=
      ⟨by unfold Heap.room at enough; omega, fun _ => ⟨.start heap left, roomy⟩,
        fun _ => ⟨.start heap right, roomy⟩⟩
    refine here.finishes (.since heap) (Visit.RoomyPair heap left right) (fun visits roomy => ?_)
      (fun grown roomy pairs => roomy.pairs heldLeft heldRight grown pairs) (.refl heap) start
    exact absurd roomy.1 (by decide)
  exact (finishes enough).ends.unique (finishes (Nat.le_refl _)).ends

end Walk.Local

private theorem any_congr_of_mem {α : Type} {items : List α} {first second : α → Bool}
    (same : ∀ item ∈ items, first item = second item) : items.any first = items.any second := by
  rw [Bool.eq_iff_iff, List.any_eq_true, List.any_eq_true]
  exact exists_congr fun item => and_congr_right fun member => by rw [same item member]

namespace Heap

variable {heap : Heap} {value root : Value} {path : Path} {room room' : Nat}
  (held : ∀ inner, heap.Reaches root inner → heap.Holds inner)
include held

theorem displayWithin_room (enough : heap.room ≤ room) :
    heap.displayWithin room [] root = heap.display root := by
  have shows {room : Nat} (enough : heap.room ≤ room) :
      heap.Displays [] root (heap.displayWithin room [] root) :=
    displays_within held (.start heap root) (by rwa [List.length_nil, Nat.zero_add])
  exact (shows enough).unique (shows (Nat.le_refl _))

theorem liftWithin_room (enough : heap.room ≤ room) :
    heap.liftWithin room [] root = heap.lift root := by
  have same := OnHeap.lifting_local.within_room held enough
  rw [Visit.start, OnHeap.lifting_within, OnHeap.lifting_within] at same
  unfold Heap.lift
  revert same
  cases heap.liftWithin room [] root <;> cases heap.liftWithin heap.room [] root <;> intro same
  all_goals
    first
    | cases same; rfl
    | cases same

/-- Inside a path, the search for an object comes to the same with any room that is enough. -/
theorem readsObject_within (handle : Nat) (ancestors : Ancestors heap root path value)
    (enough : heap.containers + 2 ≤ path.length + room)
    (enough' : heap.containers + 2 ≤ path.length + room') :
    heap.readsObject handle room path value = heap.readsObject handle room' path value := by
  have bounded := ancestors.length_le held
  induction room generalizing room' path value with
  | zero => omega
  | succ room inductionHypothesis =>
      cases room' with
      | zero => omega
      | succ room' =>
          unfold Heap.readsObject
          cases opened : path.open? value with
          | none => rfl
          | some inside =>
              have further {container : Container} {child : Value}
                  (opens : value.container? = some container)
                  (member : child ∈ heap.children value) :
                  heap.readsObject handle room inside child =
                    heap.readsObject handle room' inside child := by
                have longer := Path.length_of_open? opens opened
                have below := ancestors.descend opened member
                exact inductionHypothesis below (by omega) (by omega) (below.length_le held)
              cases value with
              | list list => exact any_congr_of_mem fun child member => further rfl member
              | object object =>
                  dsimp only
                  congr 1
                  exact any_congr_of_mem fun child member => further rfl member
              | _ => rfl

theorem readsObject_room (handle : Nat) (enough : heap.room ≤ room) :
    heap.readsObject handle room [] root = heap.readsObject handle heap.room [] root :=
  readsObject_within held handle (.start heap root) (by rwa [List.length_nil, Nat.zero_add])
    (by rw [List.length_nil, Nat.zero_add]; exact Nat.le_refl _)

end Heap

/-! ## Paths -/

namespace Relocation

def container (r : Relocation) : Container → Container
  | .list handle => .list (r.lists.handle handle)
  | .object handle => .object (r.objects.handle handle)

/-- The containers that a walk is inside of, under their new handles. -/
def path (r : Relocation) (path : Path) : Path := path.map r.container

variable {r : Relocation} {heap : Heap} {value : Value}

section Paths

variable (r) (path : Path) (value : Value)

theorem container_inj {first second : Container} :
    r.container first = r.container second ↔ first = second := by
  cases first <;> cases second <;> simp [Relocation.container, Gap.handle_inj]

theorem container?_relocate :
    (relocate r value).container? = value.container?.map r.container := by
  cases value <;> rfl

@[simp, grind =]
theorem open?_relocate :
    (r.path path).open? (relocate r value) = (path.open? value).map r.path := by
  unfold Path.open?
  rw [container?_relocate]
  cases value.container? with
  | none => rfl
  | some container =>
      have member : r.container container ∈ r.path path ↔ container ∈ path := by
        unfold Relocation.path
        rw [List.mem_map]
        exact ⟨fun ⟨other, inPath, same⟩ => container_inj r |>.mp same ▸ inPath,
          fun inPath => ⟨container, inPath, rfl⟩⟩
      simp only [Option.map_some, member]
      split <;> rfl

@[simp, grind =]
theorem enter_relocate (operation : String) :
    (r.path path).enter (relocate r value) operation =
      (path.enter value operation).map r.path := by
  unfold Path.enter
  rw [open?_relocate]
  cases path.open? value <;> rfl

end Paths

/-! ## Walks -/

section Walks

variable (starts : r.start ≤ heap.extent)
include starts

theorem displayWithin_heap (room : Nat) (path : Path) (value : Value) :
    (r.heap heap).displayWithin room (r.path path) (relocate r value) =
      heap.displayWithin room path value := by
  induction room generalizing path value with
  | zero => rfl
  | succ room inductionHypothesis =>
      unfold Heap.displayWithin
      rw [open?_relocate]
      cases path.open? value with
      | none => cases value <;> rfl
      | some inside =>
          cases value with
          | number content => rfl
          | text handle => exact text_heap starts handle
          | list handle =>
              simp only [Option.map_some, relocate_list]
              rw [list_heap starts, relocate_array, Array.toList_map, List.map_map]
              congr 4
              funext child
              exact inductionHypothesis inside child
          | object handle =>
              simp only [Option.map_some, relocate_object]
              rw [object_heap starts, relocate_dict, Dict.map, List.map_map]
              congr 4
              funext entry
              exact congrArg (entry.1 ++ ": " ++ ·) (inductionHypothesis inside entry.2)
          | function handle =>
              simp only [Option.map_some, relocate_function]
              rw [function_heap starts]
              rfl
          | builtin handle =>
              simp only [Option.map_some, relocate_builtin]
              rw [builtin_heap starts]
              rfl
          | node handle =>
              simp only [Option.map_some, relocate_node]
              rw [node_heap starts]

theorem liftWithin_heap (room : Nat) (path : Path) (value : Value) :
    (r.heap heap).liftWithin room (r.path path) (relocate r value) =
      heap.liftWithin room path value := by
  induction room generalizing path value with
  | zero => rfl
  | succ room inductionHypothesis =>
      cases value with
      | text handle =>
          exact congrArg (fun content => Except.ok (Node.plainText content))
            (text_heap starts handle)
      | node handle => exact congrArg Except.ok (node_heap starts handle)
      | list handle =>
          have entered := enter_relocate r path (.list handle) "place in a syntax tree"
          rw [relocate_list] at entered ⊢
          unfold Heap.liftWithin
          dsimp only
          rw [entered, list_heap starts, relocate_array, Array.toList_map]
          cases path.enter (.list handle) "place in a syntax tree" with
          | error error => rfl
          | ok inside =>
              have row : ((heap.list handle).toList.map (relocate r)).mapM
                    ((r.heap heap).liftWithin room (r.path inside)) =
                  (heap.list handle).toList.mapM (heap.liftWithin room inside) := by
                rw [List.mapM_map]
                exact congrArg (List.mapM · _) (funext (inductionHypothesis inside))
              exact congrArg (· >>= fun elements => pure (Node.list elements)) row
      | _ => rfl

theorem readsObject_heap (handle room : Nat) (path : Path) (value : Value) :
    (r.heap heap).readsObject (r.objects.handle handle) room (r.path path) (relocate r value) =
      heap.readsObject handle room path value := by
  induction room generalizing path value with
  | zero => rfl
  | succ room inductionHypothesis =>
      unfold Heap.readsObject
      rw [open?_relocate]
      cases path.open? value with
      | none => rfl
      | some inside =>
          cases value with
          | list list =>
              simp only [Option.map_some, relocate_list]
              rw [list_heap starts, relocate_array, Array.toList_map, List.any_map]
              congr 1
              funext child
              exact inductionHypothesis inside child
          | object object =>
              have same : (r.objects.handle object == r.objects.handle handle) =
                  (object == handle) := by
                rw [Bool.eq_iff_iff, beq_iff_eq, beq_iff_eq, Gap.handle_inj]
              simp only [Option.map_some, relocate_object]
              rw [object_heap starts, relocate_dict, Dict.values_map, List.any_map, same]
              congr 2
              funext child
              exact inductionHypothesis inside child
          | _ => rfl

end Walks

namespace Fits

variable (fits : r.Fits heap) (held : heap.Holds value)
include fits

theorem room_le : heap.room ≤ (r.heap heap).room := room_le_room_heap fits.starts

include held

theorem display : (r.heap heap).display (relocate r value) = heap.display value :=
  (displayWithin_heap fits.starts _ [] value).trans
    (Heap.displayWithin_room (fun _ => fits.closed.reached held) fits.room_le)

theorem key : (r.heap heap).key (relocate r value) = heap.key value := by
  have shown := fits.display held
  cases value with
  | text handle => exact text_heap fits.starts handle
  | node handle =>
      rw [relocate_node] at shown ⊢
      unfold Heap.key
      dsimp only
      rw [node_heap fits.starts, shown]
  | _ => exact shown

theorem lift : (r.heap heap).lift (relocate r value) = heap.lift value :=
  (liftWithin_heap fits.starts _ [] value).trans
    (Heap.liftWithin_room (fun _ => fits.closed.reached held) fits.room_le)

theorem readsObject (handle : Nat) :
    (r.heap heap).readsObject (r.objects.handle handle) (r.heap heap).room [] (relocate r value) =
      heap.readsObject handle heap.room [] value :=
  (readsObject_heap fits.starts handle _ [] value).trans
    (Heap.readsObject_room (fun _ => fits.closed.reached held) handle fits.room_le)

end Fits

end Relocation

end Fixity
