import Fixity.Proofs.Levels
import Fixity.Proofs.Refusals

/-!
Contract: computations on heaps with further cells.

Owns:
- `OnHeap.Tracks`: on the heap with the further cells one computation does what another one does
  without them; no cell is lost on the way, and no handle comes to dangle;
- the ways of putting computations together that keep this, where what only reads is followed on
  the same heap;
- the walks through values and the operators on them.

Does not own: the native functions.
-/

namespace Fixity

namespace OnHeap

variable {r : Relocation} {heap : Heap} {α β γ : Type} [Relocates α] [Relocates β]

/-- From a heap on, two computations have come to the same result, the second one with the further
cells. -/
inductive Tracked (r : Relocation) (heap : Heap) :
    EStateM.Result RuntimeError Heap α → EStateM.Result RuntimeError Heap α → Prop
  | ok {value : α} {later : Heap} (within : heap.Within later) (fits : r.Fits later)
      (held : Held later value) :
      Tracked r heap (.ok value later) (.ok (relocate r value) (r.heap later))
  | error {error : RuntimeError} {later : Heap} (within : heap.Within later)
      (fits : r.Fits later) : Tracked r heap (.error error later) (.error error (r.heap later))

theorem Tracked.since {later : Heap} {result result' : EStateM.Result RuntimeError Heap α}
    (within : heap.Within later) (tracked : Tracked r later result result') :
    Tracked r heap result result' := by
  cases tracked with
  | ok further fits held => exact .ok (within.trans further) fits held
  | error further fits => exact .error (within.trans further) fits

/-- If a heap can take the further cells, the second computation does with them what the first one
does without. -/
def Tracks (r : Relocation) (heap : Heap) (first second : OnHeap α) : Prop :=
  r.Fits heap → Tracked r heap (first heap) (second (r.heap heap))

namespace Tracks

theorem pure {value value' : α} (same : value' = relocate r value) (held : Held heap value) :
    Tracks r heap (pure value) (pure value') := by
  subst same
  exact fun fits => .ok (.refl _) fits held

theorem throw {error error' : RuntimeError} (same : error' = error) :
    Tracks r heap (throw error : OnHeap α) (throw error') := by
  subst same
  exact fun fits => .error (.refl _) fits

theorem bind {first second : OnHeap α} {next next' : α → OnHeap β}
    (tracks : Tracks r heap first second)
    (continued : ∀ value later, heap.Within later → Held later value →
      Tracks r later (next value) (next' (relocate r value))) :
    Tracks r heap (first >>= next) (second >>= next') := by
  intro fits
  have tracked := tracks fits
  generalize ran : first heap = result at tracked
  generalize ran' : second (r.heap heap) = result' at tracked
  cases tracked with
  | ok within fits held =>
      rw [bind_of_ok ran, bind_of_ok ran']
      exact (continued _ _ within held fits).since within
  | error within fits =>
      rw [bind_of_error ran, bind_of_error ran']
      exact .error within fits

/-! ## Reading -/

theorem read {next next' : Heap → OnHeap β}
    (continued : r.Fits heap → Tracks r heap (next heap) (next' (r.heap heap))) :
    Tracks r heap (get >>= next) (get >>= next') :=
  fun fits => continued fits fits

/-- What does not depend on the heap is the same on both sides. -/
theorem outcome {outcome outcome' : Outcome γ} {next next' : γ → OnHeap β}
    (same : outcome' = outcome) (continued : ∀ content, Tracks r heap (next content) (next' content)) :
    Tracks r heap ((liftM outcome : OnHeap γ) >>= next) ((liftM outcome' : OnHeap γ) >>= next') := by
  subst same
  cases outcome' with
  | ok content => exact continued content
  | error error => exact .throw rfl

theorem compute {outcome outcome' : Outcome α} (same : outcome' = outcome.map (relocate r))
    (held : ∀ content, outcome = .ok content → Held heap content) :
    Tracks r heap (liftM outcome) (liftM outcome') := by
  subst same
  cases outcome with
  | ok content => exact .pure rfl (held content rfl)
  | error error => exact .throw rfl

section Handles

variable {next next' : Nat → OnHeap β} (value : Value) (role : String)

theorem asNode
    (continued : ∀ handle, Tracks r heap (next handle) (next' (r.nodes.handle handle))) :
    Tracks r heap ((liftM (value.asNode role) : OnHeap Nat) >>= next)
      ((liftM ((relocate r value).asNode role) : OnHeap Nat) >>= next') := by
  cases value with
  | node handle => exact continued handle
  | _ => exact .throw rfl

theorem asList
    (continued : ∀ handle, Tracks r heap (next handle) (next' (r.lists.handle handle))) :
    Tracks r heap ((liftM (value.asList role) : OnHeap Nat) >>= next)
      ((liftM ((relocate r value).asList role) : OnHeap Nat) >>= next') := by
  cases value with
  | list handle => exact continued handle
  | _ => exact .throw rfl

theorem asObject
    (continued : ∀ handle, Tracks r heap (next handle) (next' (r.objects.handle handle))) :
    Tracks r heap ((liftM (value.asObject role) : OnHeap Nat) >>= next)
      ((liftM ((relocate r value).asObject role) : OnHeap Nat) >>= next') := by
  cases value with
  | object handle => exact continued handle
  | _ => exact .throw rfl

theorem asFunction
    (continued : ∀ handle, Tracks r heap (next handle) (next' (r.functions.handle handle))) :
    Tracks r heap ((liftM (value.asFunction role) : OnHeap Nat) >>= next)
      ((liftM ((relocate r value).asFunction role) : OnHeap Nat) >>= next') := by
  cases value with
  | function handle => exact continued handle
  | _ => exact .throw rfl

end Handles

section Contents

variable (value : Value) (role : String)

theorem textOf {next next' : String → OnHeap β}
    (continued : ∀ content, Tracks r heap (next content) (next' content)) :
    Tracks r heap (textOf value role >>= next)
      (OnHeap.textOf (relocate r value) role >>= next') := by
  cases value with
  | text handle =>
      intro fits
      have found := continued (heap.text handle) fits
      have same : (r.heap heap).text (r.texts.handle handle) = heap.text handle :=
        Relocation.text_heap fits.starts handle
      show Tracked r heap (next (heap.text handle) heap) (next' ((r.heap heap).text _) (r.heap heap))
      rwa [same]
  | _ => exact .throw rfl

theorem text : Tracks r heap (OnHeap.textOf value role) (OnHeap.textOf (relocate r value) role) := by
  cases value with
  | text handle =>
      exact .read fun fits => .pure (Relocation.text_heap fits.starts handle) trivial
  | _ => exact .throw rfl

theorem nodeOf {next next' : Node → OnHeap β}
    (continued : ∀ tree, Tracks r heap (next tree) (next' tree)) :
    Tracks r heap (nodeOf value role >>= next)
      (OnHeap.nodeOf (relocate r value) role >>= next') := by
  cases value with
  | node handle =>
      intro fits
      have found := continued (heap.node handle) fits
      have same : (r.heap heap).node (r.nodes.handle handle) = heap.node handle :=
        Relocation.node_heap fits.starts handle
      show Tracked r heap (next (heap.node handle) heap) (next' ((r.heap heap).node _) (r.heap heap))
      rwa [same]
  | _ => exact .throw rfl

variable {value} (held : heap.Holds value)
include held

theorem lifting {next next' : Node → OnHeap β}
    (continued : ∀ tree, Tracks r heap (next tree) (next' tree)) :
    Tracks r heap (OnHeap.lift value >>= next) (OnHeap.lift (relocate r value) >>= next') := by
  unfold OnHeap.lift
  rw [bind_assoc, bind_assoc]
  exact .read fun fits => .outcome (fits.lift held) continued

theorem displaying {next next' : String → OnHeap β}
    (continued : ∀ content, Tracks r heap (next content) (next' content)) :
    Tracks r heap (OnHeap.display value >>= next)
      (OnHeap.display (relocate r value) >>= next') := by
  intro fits
  show Tracked r heap (next (heap.display value) heap)
    (next' ((r.heap heap).display (relocate r value)) (r.heap heap))
  rw [fits.display held]
  exact continued _ fits

end Contents

/-! ## Cells -/

section Cells

private theorem lt_size_push {γ : Type} (cells : Array γ) (cell : γ) :
    cells.size < (cells.push cell).size := by
  rw [Array.size_push]
  exact Nat.lt_succ_self _

/-- What a computation on the cells has to show: no cell is lost, no handle comes to dangle, and the
change is the same with the further cells. -/
theorem change {first second : OnHeap α} {value : α} {later : Heap} (within : heap.Within later)
    (held : Held later value) (ran : first heap = .ok value later)
    (closed : heap.Closed → later.Closed)
    (same : r.start ≤ heap.extent → second (r.heap heap) = .ok (relocate r value) (r.heap later)) :
    Tracks r heap first second := by
  intro fits
  rw [ran, same fits.starts]
  exact .ok within ⟨closed fits.closed, Extent.Le.trans fits.starts within⟩ held

theorem newText {content content' : String} (same : content' = content) :
    Tracks r heap (newText content) (newText content') := by
  subst same
  have within : heap.Within { heap with texts := heap.texts.push content' } :=
    { Extent.Le.refl heap.extent with texts := by simp [Heap.extent] }
  refine change within (lt_size_push _ _) rfl (fun closed => ?_)
    fun starts => ?_
  · obtain ⟨lists, objects, functions, builtins⟩ := closed.rows within
    exact ⟨lists, objects, functions, builtins⟩
  · unfold OnHeap.newText Relocation.heap
    rw [Gap.widen_push starts.texts, Relocation.relocate_text, Gap.handle_size starts.texts]

theorem newNode {tree tree' : Node} (same : tree' = tree) :
    Tracks r heap (newNode tree) (newNode tree') := by
  subst same
  have within : heap.Within { heap with nodes := heap.nodes.push tree' } :=
    { Extent.Le.refl heap.extent with nodes := by simp [Heap.extent] }
  refine change within (lt_size_push _ _) rfl (fun closed => ?_)
    fun starts => ?_
  · obtain ⟨lists, objects, functions, builtins⟩ := closed.rows within
    exact ⟨lists, objects, functions, builtins⟩
  · unfold OnHeap.newNode Relocation.heap
    rw [Gap.widen_push starts.nodes, Relocation.relocate_node, Gap.handle_size starts.nodes]

theorem newList {elements elements' : Array Value} (same : elements' = relocate r elements)
    (held : Held heap elements) : Tracks r heap (newList elements) (newList elements') := by
  subst same
  have within : heap.Within { heap with lists := heap.lists.push elements } :=
    { Extent.Le.refl heap.extent with lists := by simp [Heap.extent] }
  refine change within (lt_size_push _ _) rfl (fun closed => ?_) fun starts => ?_
  · obtain ⟨lists, objects, functions, builtins⟩ := closed.rows within
    exact ⟨Relocation.held_push lists (Relocates.later within held), objects, functions,
      builtins⟩
  · unfold OnHeap.newList Relocation.heap
    rw [Gap.renamed_push starts.lists, Relocation.relocate_list,
      Gap.handle_size_renamed starts.lists]

theorem newListOf {elements elements' : List Value} (same : elements' = relocate r elements)
    (held : Held heap elements) : Tracks r heap (newListOf elements) (newListOf elements') :=
  newList (by rw [same]; simp) fun item member => held item (List.mem_toArray.mp member)

theorem newObject {entries entries' : Dict Value} (same : entries' = relocate r entries)
    (held : Held heap entries) : Tracks r heap (newObject entries) (newObject entries') := by
  subst same
  have within : heap.Within { heap with objects := heap.objects.push entries } :=
    { Extent.Le.refl heap.extent with objects := by simp [Heap.extent] }
  refine change within (lt_size_push _ _) rfl (fun closed => ?_)
    fun starts => ?_
  · obtain ⟨lists, objects, functions, builtins⟩ := closed.rows within
    exact ⟨lists, Relocation.held_push objects (Relocates.later within held), functions,
      builtins⟩
  · unfold OnHeap.newObject Relocation.heap
    rw [Gap.renamed_push starts.objects, Relocation.relocate_object,
      Gap.handle_size_renamed starts.objects]

theorem newFunction {content content' : Function} (same : content' = relocate r content)
    (held : Held heap content) : Tracks r heap (newFunction content) (newFunction content') := by
  subst same
  have within : heap.Within { heap with functions := heap.functions.push content } :=
    { Extent.Le.refl heap.extent with functions := by simp [Heap.extent] }
  refine change within (lt_size_push _ _) rfl (fun closed => ?_)
    fun starts => ?_
  · obtain ⟨lists, objects, functions, builtins⟩ := closed.rows within
    exact ⟨lists, objects, Relocation.held_push functions (Relocates.later within held),
      builtins⟩
  · unfold OnHeap.newFunction Relocation.heap
    rw [Gap.renamed_push starts.functions, Relocation.relocate_function,
      Gap.handle_size_renamed starts.functions]

theorem newBuiltin {content content' : Builtin} (same : content' = relocate r content)
    (held : Held heap content) : Tracks r heap (newBuiltin content) (newBuiltin content') := by
  subst same
  have within : heap.Within { heap with builtins := heap.builtins.push content } :=
    { Extent.Le.refl heap.extent with builtins := by simp [Heap.extent] }
  refine change within (lt_size_push _ _) rfl (fun closed => ?_)
    fun starts => ?_
  · obtain ⟨lists, objects, functions, builtins⟩ := closed.rows within
    exact ⟨lists, objects, functions,
      Relocation.held_push builtins (Relocates.later within held)⟩
  · unfold OnHeap.newBuiltin Relocation.heap
    rw [Gap.renamed_push starts.builtins, Relocation.relocate_builtin,
      Gap.handle_size_renamed starts.builtins]

theorem modifyText (handle : Nat) (change : String → String) :
    Tracks r heap (modifyText handle change)
      (OnHeap.modifyText (r.texts.handle handle) change) := by
  have within : heap.Within { heap with texts := heap.texts.modify handle change } :=
    { Extent.Le.refl heap.extent with texts := by simp [Heap.extent] }
  refine Tracks.change within trivial rfl (fun closed => ?_) fun starts => ?_
  · obtain ⟨lists, objects, functions, builtins⟩ := closed.rows within
    exact ⟨lists, objects, functions, builtins⟩
  · unfold OnHeap.modifyText Relocation.heap
    rw [Gap.widen_modify starts.texts]

theorem modifyNode (handle : Nat) (change : Node → Node) :
    Tracks r heap (modifyNode handle change)
      (OnHeap.modifyNode (r.nodes.handle handle) change) := by
  have within : heap.Within { heap with nodes := heap.nodes.modify handle change } :=
    { Extent.Le.refl heap.extent with nodes := by simp [Heap.extent] }
  refine Tracks.change within trivial rfl (fun closed => ?_) fun starts => ?_
  · obtain ⟨lists, objects, functions, builtins⟩ := closed.rows within
    exact ⟨lists, objects, functions, builtins⟩
  · unfold OnHeap.modifyNode Relocation.heap
    rw [Gap.widen_modify starts.nodes]

theorem modifyList (handle : Nat) {change change' : Array Value → Array Value}
    (same : ∀ items, relocate r (change items) = change' (relocate r items))
    (keeps : ∀ items, Held heap items → Held heap (change items)) :
    Tracks r heap (modifyList handle change)
      (OnHeap.modifyList (r.lists.handle handle) change') := by
  have within : heap.Within { heap with lists := heap.lists.modify handle change } :=
    { Extent.Le.refl heap.extent with lists := by simp [Heap.extent] }
  refine Tracks.change within trivial rfl (fun closed => ?_) fun starts => ?_
  · obtain ⟨_, objects, functions, builtins⟩ := closed.rows within
    exact ⟨Relocates.later within (Relocation.held_modify closed.lists keeps), objects, functions,
      builtins⟩
  · unfold OnHeap.modifyList Relocation.heap
    rw [Gap.renamed_modify starts.lists same]

theorem modifyObject (handle : Nat) {change change' : Dict Value → Dict Value}
    (same : ∀ entries, relocate r (change entries) = change' (relocate r entries))
    (keeps : ∀ entries, Held heap entries → Held heap (change entries)) :
    Tracks r heap (modifyObject handle change)
      (OnHeap.modifyObject (r.objects.handle handle) change') := by
  have within : heap.Within { heap with objects := heap.objects.modify handle change } :=
    { Extent.Le.refl heap.extent with objects := by simp [Heap.extent] }
  refine Tracks.change within trivial rfl (fun closed => ?_) fun starts => ?_
  · obtain ⟨lists, _, functions, builtins⟩ := closed.rows within
    exact ⟨lists, Relocates.later within (Relocation.held_modify closed.objects keeps), functions,
      builtins⟩
  · unfold OnHeap.modifyObject Relocation.heap
    rw [Gap.renamed_modify starts.objects same]

theorem modifyFunction (handle : Nat) {change change' : Function → Function}
    (same : ∀ content, relocate r (change content) = change' (relocate r content))
    (keeps : ∀ content, Held heap content → Held heap (change content)) :
    Tracks r heap (modifyFunction handle change)
      (OnHeap.modifyFunction (r.functions.handle handle) change') := by
  have within : heap.Within { heap with functions := heap.functions.modify handle change } :=
    { Extent.Le.refl heap.extent with functions := by simp [Heap.extent] }
  refine Tracks.change within trivial rfl (fun closed => ?_) fun starts => ?_
  · obtain ⟨lists, objects, _, builtins⟩ := closed.rows within
    exact ⟨lists, objects, Relocates.later within (Relocation.held_modify closed.functions keeps),
      builtins⟩
  · unfold OnHeap.modifyFunction Relocation.heap
    rw [Gap.renamed_modify starts.functions same]

end Cells

/-! ## Rows -/

theorem mapM {first second : α → OnHeap β} {items items' : List α}
    (same : items' = relocate r items) (held : Held heap items)
    (each : ∀ item ∈ items, ∀ later, heap.Within later → Held later item →
      Tracks r later (first item) (second (relocate r item))) :
    Tracks r heap (items.mapM first) (items'.mapM second) := by
  subst same
  induction items generalizing heap with
  | nil => exact .pure rfl fun _ member => by cases member
  | cons item rest inductionHypothesis =>
      obtain ⟨here, others⟩ := List.forall_mem_cons.mp held
      rw [Relocation.relocate_items, List.mapM_cons, List.map_cons, List.mapM_cons]
      refine .bind (each item List.mem_cons_self heap (.refl _) here)
        fun value later within heldValue => .bind (inductionHypothesis (Relocates.later within others)
          fun other member further within' => each other (List.mem_cons_of_mem _ member) further
            (within.trans within')) fun values further within' heldValues => ?_
      exact .pure rfl (Relocation.held_cons (Relocates.later within' heldValue) heldValues)

theorem newTexts (contents : List String) : Tracks r heap (newTexts contents) (newTexts contents) :=
  .mapM (Relocation.map_plain r contents).symm (fun _ _ => trivial) fun _ _ _ _ _ => .newText rfl

theorem newNodes (trees : List Node) : Tracks r heap (newNodes trees) (newNodes trees) :=
  .mapM (Relocation.map_plain r trees).symm (fun _ _ => trivial) fun _ _ _ _ _ => .newNode rfl

theorem lift {value : Value} (held : heap.Holds value) :
    Tracks r heap (OnHeap.lift value) (OnHeap.lift (relocate r value)) :=
  .read fun fits => .compute (by rw [fits.lift held]; cases heap.lift value <;> rfl)
    fun _ _ => trivial

/-! ## Walks -/

/-- What follows the entrance to a value is inside of it. -/
theorem enter {path : Path} {value : Value} {operation : String} {next next' : Path → OnHeap β}
    (continued : ∀ inside, Tracks r heap (next inside) (next' (r.path inside))) :
    Tracks r heap ((liftM (path.enter value operation) : OnHeap Path) >>= next)
      ((liftM ((r.path path).enter (relocate r value) operation) : OnHeap Path) >>= next') := by
  rw [Relocation.enter_relocate]
  cases path.enter value operation with
  | ok inside => exact continued inside
  | error error => exact .throw rfl

theorem duplicateWithin (room : Nat) (path : Path) {value : Value} (held : heap.Holds value) :
    Tracks r heap (duplicateWithin room path value)
      (OnHeap.duplicateWithin room (r.path path) (relocate r value)) := by
  induction room generalizing path value heap with
  | zero => exact .throw rfl
  | succ room inductionHypothesis =>
      unfold OnHeap.duplicateWithin
      refine .enter fun inside => ?_
      have row {values : List Value} (held : Held heap values) : Tracks r heap
          (values.mapM (OnHeap.duplicateWithin room inside))
          ((relocate r values).mapM (OnHeap.duplicateWithin room (r.path inside))) :=
        .mapM rfl held fun child _ later _ heldChild => inductionHypothesis inside heldChild
      cases value with
      | number content => exact .pure rfl trivial
      | text handle =>
          exact .read fun fits => .newText (Relocation.text_heap fits.starts handle)
      | list handle =>
          refine .read fun fits => ?_
          rw [Relocation.list_heap fits.starts, Relocation.relocate_array, Array.toList_map]
          exact .bind (row (fits.closed.elements handle)) fun copies later _ heldCopies =>
            .newListOf rfl heldCopies
      | object handle =>
          refine .read fun fits => ?_
          dsimp only
          rw [Relocation.object_heap fits.starts, Relocation.relocate_dict, Dict.values_map,
            Dict.keys_map]
          refine .bind (row (Relocation.held_values (fits.closed.object handle)))
            fun copies later _ heldCopies => .newObject ?_ (Relocation.held_ofList ?_)
          · rw [Relocation.relocate_dict, Dict.map_ofList, Relocation.relocate_items,
              List.zip_map_right]
            rfl
          · exact fun pair member => ⟨trivial, heldCopies _ (List.of_mem_zip member).2⟩
      | function handle =>
          exact .read fun fits => .newFunction (Relocation.function_heap fits.starts handle)
            (fits.closed.function handle)
      | builtin handle => exact .pure rfl held
      | node handle =>
          exact .read fun fits => .newNode (Relocation.node_heap fits.starts handle)

theorem duplicate {value : Value} (held : heap.Holds value) :
    Tracks r heap (OnHeap.duplicate value) (OnHeap.duplicate (relocate r value)) := by
  intro fits
  have roomy : OnHeap.duplicate value heap =
      OnHeap.duplicateWithin (r.heap heap).room [] value heap := by
    have same := copying_local.within_room (fun _ => fits.closed.reached held) fits.room_le
    rw [Visit.start, copying_within, copying_within] at same
    exact same.symm
  rw [roomy]
  exact duplicateWithin _ [] held fits

theorem broadcastWithin {function : Value → Outcome Value}
    (same : ∀ value, function (relocate r value) = (function value).map (relocate r))
    (plain : ∀ value result heap, function value = .ok result → Heap.Holds heap result)
    (room : Nat) (path : Path) {value : Value} (held : heap.Holds value) :
    Tracks r heap (broadcastWithin function room path value)
      (OnHeap.broadcastWithin function room (r.path path) (relocate r value)) := by
  induction room generalizing path value heap with
  | zero => exact .throw rfl
  | succ room inductionHypothesis =>
      cases value with
      | list handle =>
          refine .enter fun inside => .read fun fits => ?_
          rw [Relocation.list_heap fits.starts, Relocation.relocate_array, Array.toList_map]
          exact .bind (.mapM rfl (fits.closed.elements handle) fun child _ later _ heldChild =>
            inductionHypothesis inside heldChild) fun results later _ heldResults =>
              .newListOf rfl heldResults
      | _ => exact .compute (same _) fun result => plain _ result heap

/-- A function of the elements of a list that makes no handles. -/
theorem broadcast {function : Value → Outcome Value}
    (same : ∀ value, function (relocate r value) = (function value).map (relocate r))
    (plain : ∀ value result heap, function value = .ok result → Heap.Holds heap result)
    {value : Value} (held : heap.Holds value) :
    Tracks r heap (broadcast function value) (OnHeap.broadcast function (relocate r value)) := by
  intro fits
  have roomy : OnHeap.broadcast function value heap =
      OnHeap.broadcastWithin function (r.heap heap).room [] value heap := by
    have same := (applying_local function).within_room (fun _ => fits.closed.reached held)
      fits.room_le
    rw [Visit.start, applying_within, applying_within] at same
    exact same.symm
  rw [roomy]
  exact broadcastWithin same plain _ [] held fits

/-! ## Operators -/

/-- Two operations on two values go together on all later heaps. -/
def Pairwise (r : Relocation) (heap : Heap) (first second : Value → Value → OnHeap Value) : Prop :=
  ∀ {later : Heap} {left right : Value}, heap.Within later → later.Holds left →
    later.Holds right → Tracks r later (first left right) (second (relocate r left) (relocate r right))

theorem held_zip {lefts rights : List Value} (held : Held heap lefts)
    (heldToo : Held heap rights) : Held heap (lefts.zip rights) := fun _ member =>
  ⟨held _ (List.of_mem_zip member).1, heldToo _ (List.of_mem_zip member).2⟩

theorem relocate_zip (lefts rights : List Value) :
    relocate r (lefts.zip rights) = (relocate r lefts).zip (relocate r rights) :=
  List.zip_map.symm

/-- A new list of what comes of the elements of a list. -/
theorem alongList {first second : Value → OnHeap Value} {handle : Nat}
    (each : ∀ {later : Heap} {element : Value}, heap.Within later → later.Holds element →
      Tracks r later (first element) (second (relocate r element))) :
    Tracks r heap (do OnHeap.newListOf (← ((← get).list handle).toList.mapM first))
      (do OnHeap.newListOf (← ((← get).list (r.lists.handle handle)).toList.mapM second)) := by
  refine .read fun fits => ?_
  rw [Relocation.list_heap fits.starts, Relocation.relocate_array, Array.toList_map]
  exact .bind (.mapM rfl (fits.closed.elements handle) fun element _ later within held =>
    each within held) fun results later _ heldResults => .newListOf rfl heldResults

theorem allPairs {compare compare' : Value → Value → OnHeap Value}
    (each : Pairwise r heap compare compare') (negate : Bool) {pairs : List (Value × Value)}
    (held : Held heap pairs) :
    Tracks r heap (allPairs compare negate pairs)
      (OnHeap.allPairs compare' negate (relocate r pairs)) := by
  induction pairs generalizing heap with
  | nil => exact .pure rfl trivial
  | cons pair rest inductionHypothesis =>
      obtain ⟨⟨heldLeft, heldRight⟩, others⟩ := List.forall_mem_cons.mp held
      refine .bind (each (.refl _) heldLeft heldRight) fun answer later within _ => ?_
      rw [Relocation.isTruthy_relocate]
      split
      · exact .pure rfl trivial
      · exact inductionHypothesis (fun further => each (within.trans further))
          (Relocates.later within others)

theorem equalityWithin (negate : Bool) (room : Nat) (lefts rights : Path) {left right : Value}
    (heldLeft : heap.Holds left) (heldRight : heap.Holds right) :
    Tracks r heap (equalityWithin negate room lefts rights left right)
      (OnHeap.equalityWithin negate room (r.path lefts) (r.path rights) (relocate r left)
        (relocate r right)) := by
  induction room generalizing lefts rights left right heap with
  | zero => exact .throw rfl
  | succ room inductionHypothesis =>
      refine .enter fun lefts => .enter fun rights => ?_
      have pair : Pairwise r heap (OnHeap.equalityWithin negate room lefts rights)
          (OnHeap.equalityWithin negate room (r.path lefts) (r.path rights)) :=
        fun _ heldLeft heldRight => inductionHypothesis lefts rights heldLeft heldRight
      cases left with
      | number left =>
          cases right with
          | number right => exact .pure rfl trivial
          | list right => exact .alongList fun within held => pair within trivial held
          | _ => exact .pure rfl trivial
      | text left =>
          cases right with
          | text right =>
              refine .read fun fits => .read fun fits => .pure ?_ trivial
              rw [Relocation.text_heap fits.starts, Relocation.text_heap fits.starts]
              rfl
          | list right =>
              exact .alongList fun within held =>
                pair within (heldLeft.later within) held
          | _ => exact .pure rfl trivial
      | list left =>
          cases right with
          | number right => exact .alongList fun within held => pair within held trivial
          | text right =>
              exact .alongList fun within held =>
                pair within held (heldRight.later within)
          | list right =>
              refine .read fun fits => .read fun fits => ?_
              rw [Relocation.list_heap fits.starts, Relocation.list_heap fits.starts]
              simp only [Relocation.relocate_array, Array.toList_map, List.length_map]
              split
              · have held := held_zip (fits.closed.elements left) (fits.closed.elements right)
                rw [← Relocation.relocate_items, ← Relocation.relocate_items, ← relocate_zip]
                exact .bind (allPairs pair negate held) fun _ _ _ _ => .pure rfl trivial
              · exact .pure rfl trivial
          | _ => exact .pure rfl trivial
      | _ => cases right <;> exact .pure rfl trivial

theorem equality (negate : Bool) {left right : Value} (heldLeft : heap.Holds left)
    (heldRight : heap.Holds right) :
    Tracks r heap (equality negate left right)
      (OnHeap.equality negate (relocate r left) (relocate r right)) := by
  intro fits
  have roomy : OnHeap.equality negate left right heap =
      OnHeap.equalityWithin negate (r.heap heap).room [] [] left right heap := by
    have same := (comparison_local negate).within_room_pair
      (fun _ => fits.closed.reached heldLeft) (fun _ => fits.closed.reached heldRight) fits.room_le
    rw [Visit.start, Visit.start, comparison_within, comparison_within] at same
    exact same.symm
  rw [roomy]
  exact equalityWithin negate _ [] [] heldLeft heldRight fits

theorem mapPairs {operation operation' : Value → Value → OnHeap Value}
    (each : Pairwise r heap operation operation') {left right : Value}
    (heldLeft : heap.Holds left) (heldRight : heap.Holds right) :
    Tracks r heap (mapPairs operation left right)
      (OnHeap.mapPairs operation' (relocate r left) (relocate r right)) := by
  cases left with
  | list left =>
      cases right with
      | list right =>
          refine .read fun fits => .read fun fits => ?_
          rw [Relocation.list_heap fits.starts, Relocation.list_heap fits.starts]
          simp only [Relocation.relocate_array, Array.toList_map, List.length_map]
          split
          · have held := held_zip (fits.closed.elements left) (fits.closed.elements right)
            rw [← Relocation.relocate_items, ← Relocation.relocate_items, ← relocate_zip]
            exact .bind (.mapM rfl held fun pair _ later within heldPair =>
              each within heldPair.1 heldPair.2) fun results later _ heldResults =>
                .newListOf rfl heldResults
          · exact .throw rfl
      | _ => exact .alongList fun within held => each within held (heldRight.later within)
  | _ =>
      cases right with
      | list right => exact .alongList fun within held => each within (heldLeft.later within) held
      | _ => exact each (.refl _) heldLeft heldRight

section Scalars

variable (operator : BinaryOperator) {left right : Value} (heldLeft : heap.Holds left)
  (heldRight : heap.Holds right)
include heldLeft heldRight

/-- The error of two operands that an operator has no rule for. -/
theorem invalidArguments :
    Tracks r heap
      (do MonadExcept.throw (RuntimeError.invalidArguments operator.token (← OnHeap.display left)
        (← OnHeap.display right)) : OnHeap Value)
      (do MonadExcept.throw (RuntimeError.invalidArguments operator.token
        (← OnHeap.display (relocate r left)) (← OnHeap.display (relocate r right)))) :=
  .displaying heldLeft fun _ => .displaying heldRight fun _ => .throw rfl

/-- The rules for two values that are not two numbers and not taken to elements. -/
theorem scalars :
    Tracks r heap
      (match operator, left, right with
      | .mul, .text text, .number count =>
          do OnHeap.newText (← Text.times ((← get).text text) count)
      | _, .text first, .text second =>
          if operator.isOrdering then do
            let heap ← get
            return .ofBool (Text.ordered operator (heap.text first) (heap.text second))
          else do
            MonadExcept.throw (RuntimeError.invalidArguments operator.token
              (← OnHeap.display left) (← OnHeap.display right))
      | _, _, _ => do
          MonadExcept.throw (RuntimeError.invalidArguments operator.token
            (← OnHeap.display left) (← OnHeap.display right)))
      (match operator, relocate r left, relocate r right with
      | .mul, .text text, .number count =>
          do OnHeap.newText (← Text.times ((← get).text text) count)
      | _, .text first, .text second =>
          if operator.isOrdering then do
            let heap ← get
            return .ofBool (Text.ordered operator (heap.text first) (heap.text second))
          else do
            MonadExcept.throw (RuntimeError.invalidArguments operator.token
              (← OnHeap.display (relocate r left)) (← OnHeap.display (relocate r right)))
      | _, _, _ => do
          MonadExcept.throw (RuntimeError.invalidArguments operator.token
            (← OnHeap.display (relocate r left))
            (← OnHeap.display (relocate r right)))) := by
  have invalid := @invalidArguments r heap operator left right heldLeft heldRight
  cases left with
  | text left =>
      cases right with
      | number right =>
          cases operator with
          | mul =>
              refine .read fun fits => ?_
              rw [Relocation.text_heap fits.starts]
              exact .outcome rfl fun _ => .newText rfl
          | _ => exact invalid
      | text right =>
          have ordered (operator : BinaryOperator) : Tracks r heap
              (do
                let heap ← get
                return Value.ofBool (Text.ordered operator (heap.text left) (heap.text right)))
              (do
                let heap ← get
                return Value.ofBool (Text.ordered operator (heap.text (r.texts.handle left))
                  (heap.text (r.texts.handle right)))) := by
            refine .read fun fits => .pure ?_ trivial
            rw [Relocation.text_heap fits.starts, Relocation.text_heap fits.starts]
            rfl
          cases operator with
          | less => exact ordered _
          | greater => exact ordered _
          | lessEqual => exact ordered _
          | greaterEqual => exact ordered _
          | _ => exact invalid
      | _ => cases operator <;> exact invalid
  | _ => cases operator <;> exact invalid

end Scalars

theorem binaryWithin (operator : BinaryOperator) (room : Nat) (lefts rights : Path)
    {left right : Value} (heldLeft : heap.Holds left) (heldRight : heap.Holds right) :
    Tracks r heap (binaryWithin operator room lefts rights left right)
      (OnHeap.binaryWithin operator room (r.path lefts) (r.path rights) (relocate r left)
        (relocate r right)) := by
  induction room generalizing lefts rights left right heap with
  | zero => exact .throw rfl
  | succ room inductionHypothesis =>
      unfold OnHeap.binaryWithin
      simp only [Relocation.text?_relocate, Relocation.list?_relocate, Option.isSome_map]
      split
      · exact .equality false heldLeft heldRight
      split
      · exact .equality true heldLeft heldRight
      split
      · exact .displaying heldLeft fun _ => .displaying heldRight fun _ => .newText rfl
      have elements (lefts rights : Path) : Tracks r heap
          (OnHeap.mapPairs (OnHeap.binaryWithin operator room lefts rights) left right)
          (OnHeap.mapPairs (OnHeap.binaryWithin operator room (r.path lefts) (r.path rights))
            (relocate r left) (relocate r right)) :=
        .mapPairs (fun _ heldLeft heldRight => inductionHypothesis lefts rights heldLeft heldRight)
          heldLeft heldRight
      have scalar := @scalars r heap operator left right heldLeft heldRight
      -- what is no list is not gone into, and two numbers have a rule of their own
      cases left with
      | number left =>
          cases right with
          | number right => exact .outcome rfl fun _ => .pure rfl trivial
          | list right => exact .enter fun lefts => .enter fun rights => elements lefts rights
          | _ => exact scalar
      | list left =>
          cases right <;> exact .enter fun lefts => .enter fun rights => elements lefts rights
      | _ =>
          cases right with
          | list right => exact .enter fun lefts => .enter fun rights => elements lefts rights
          | _ => exact scalar

theorem binary (operator : BinaryOperator) {left right : Value} (heldLeft : heap.Holds left)
    (heldRight : heap.Holds right) :
    Tracks r heap (binary operator left right)
      (OnHeap.binary operator (relocate r left) (relocate r right)) := by
  intro fits
  have roomy : OnHeap.binary operator left right heap =
      OnHeap.binaryWithin operator (r.heap heap).room [] [] left right heap := by
    have same := (broadcasting_local operator).within_room_pair
      (fun _ => fits.closed.reached heldLeft) (fun _ => fits.closed.reached heldRight) fits.room_le
    rw [Visit.start, Visit.start, broadcasting_within, broadcasting_within] at same
    exact same.symm
  rw [roomy]
  exact binaryWithin operator _ [] [] heldLeft heldRight fits

end Tracks

end OnHeap

end Fixity
