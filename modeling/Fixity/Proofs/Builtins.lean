import Fixity.Proofs.Tracking

/-!
Contract: the native functions that work on the heap, on heaps with further cells.

Owns:
- one lemma for each such function: with the further cells it does what it does without them;
- the same for the arguments of calls and the shares of an assignment.
-/

namespace Fixity

namespace OnHeap

namespace Tracks

variable {r : Relocation} {heap : Heap} {α β : Type} [Relocates α] [Relocates β]

/-! ## Containers -/

section Collection

variable {container index value : Value}

theorem elements (held : heap.Holds value) (role : String) :
    Tracks r heap (Collection.elements value role)
      (Collection.elements (relocate r value) role) := by
  cases value with
  | list handle =>
      refine .read fun fits => .pure ?_ (fits.closed.elements handle)
      rw [Relocation.list_heap fits.starts]
      simp
  | node handle =>
      refine .read fun fits => ?_
      rw [Relocation.node_heap fits.starts]
      dsimp only
      split
      · exact .newNodes _
      · exact .throw rfl
  | _ => exact .throw rfl

/-- What is done with the error of an operation that a value has no part in. -/
theorem unsupported (value : Value) (operation : String) {next next' : RuntimeError → OnHeap β}
    (continued : ∀ error, Tracks r heap (next error) (next' error)) :
    Tracks r heap (Collection.unsupported operation value >>= next)
      (Collection.unsupported operation (relocate r value) >>= next') := by
  cases value with
  | node handle =>
      intro fits
      show Tracked r heap
        (next (.typeError (.unsupported operation (heap.node handle).kind.name)) heap)
        (next' (.typeError (.unsupported operation
          ((r.heap heap).node (r.nodes.handle handle)).kind.name)) (r.heap heap))
      rw [Relocation.node_heap fits.starts]
      exact continued _ fits
  | _ => exact continued _

theorem refuse (value : Value) (operation : String) :
    Tracks r heap
      (do MonadExcept.throw (← Collection.unsupported operation value) : OnHeap α)
      (do MonadExcept.throw (← Collection.unsupported operation (relocate r value))) :=
  .unsupported value operation fun _ => .throw rfl

variable (r) in
@[simp]
theorem position_relocate (index : Value) (length : Nat) :
    Collection.position (relocate r index) length = Collection.position index length := by
  unfold Collection.position
  rw [Relocation.asReal_relocate]

variable (r) in
@[simp]
theorem boundOf_relocate (value : Value) (length : Nat) (role : String) :
    Collection.boundOf (relocate r value) length role = Collection.boundOf value length role := by
  unfold Collection.boundOf
  rw [Relocation.asReal_relocate]

theorem entry (held : heap.Holds container) (heldIndex : heap.Holds index) :
    Tracks r heap (Collection.read container index)
      (Collection.read (relocate r container) (relocate r index)) := by
  cases container with
  | list handle =>
      refine .read fun fits => ?_
      rw [Relocation.list_heap fits.starts]
      refine .outcome (by simp) fun place => .pure ?_ ?_
      · simp only [Relocation.relocate_array, Array.getD_eq_getD_getElem?, Array.getElem?_map]
        cases (heap.list handle)[place]? <;> rfl
      · exact Relocation.held_getD (fits.closed.list handle) (show heap.Holds .zero from trivial) _
  | text handle =>
      refine .read fun fits => ?_
      rw [Relocation.text_heap fits.starts]
      exact .outcome (by simp) fun _ => .newText rfl
  | object handle =>
      refine .read fun fits => .read fun fits => ?_
      rw [fits.key heldIndex, Relocation.object_heap fits.starts, Relocation.relocate_dict,
        Dict.get?_map]
      cases found : (heap.object handle).get? (heap.key index) with
      | some value => exact .pure rfl (fits.closed.object handle _ value found)
      | none => exact .throw rfl
  | node handle =>
      refine .read fun fits => ?_
      rw [Relocation.node_heap fits.starts]
      split
      · exact .outcome (by simp) fun _ => .newNode rfl
      · exact .refuse (.node handle) _
  | _ => exact .refuse _ _

theorem write (heldIndex : heap.Holds index) (held : heap.Holds value) :
    Tracks r heap (Collection.write container index value)
      (Collection.write (relocate r container) (relocate r index) (relocate r value)) := by
  have answer {later : Heap} (within : heap.Within later) :
      Tracks r later (Pure.pure value : OnHeap Value) (Pure.pure (relocate r value)) :=
    .pure rfl (held.later within)
  cases container with
  | list handle =>
      refine .read fun fits => ?_
      rw [Relocation.list_heap fits.starts]
      refine .outcome (by simp) fun place => .bind (.modifyList handle (fun items => ?_)
        fun items before => ?_) fun _ _ within _ => answer within
      · exact Array.map_setIfInBounds
      · intro item member
        obtain inItems | rfl := Array.mem_or_eq_of_mem_setIfInBounds member
        · exact before item inItems
        · exact held
  | text handle =>
      refine .textOf value _ fun content => .read fun fits => ?_
      rw [Relocation.text_heap fits.starts]
      exact .outcome (by simp) fun _ => .bind (.modifyText handle _) fun _ _ within _ =>
        answer within
  | object handle =>
      refine .read fun fits => ?_
      rw [fits.key heldIndex]
      refine .bind (.modifyObject handle (fun entries => ?_) fun entries before =>
        Relocation.held_insert before held) fun _ _ within _ => answer within
      exact Dict.map_insert _ _ _ _
  | node handle =>
      refine .lifting held fun child => .read fun fits => ?_
      rw [Relocation.node_heap fits.starts]
      dsimp only
      split
      · exact .outcome (by simp) fun _ => .bind (.modifyNode handle _) fun _ _ within _ =>
          answer within
      · exact .unsupported (.node handle) _ fun _ => .bind (.throw rfl) fun _ _ within _ =>
          answer within
  | _ =>
      exact .unsupported _ _ fun _ => .bind (.throw rfl) fun _ _ within _ => answer within

theorem append (held : heap.Holds value) :
    Tracks r heap (Collection.append container value)
      (Collection.append (relocate r container) (relocate r value)) := by
  have answer {later : Heap} (within : heap.Within later) :
      Tracks r later (Pure.pure value : OnHeap Value) (Pure.pure (relocate r value)) :=
    .pure rfl (held.later within)
  cases container with
  | list handle =>
      exact .bind (.modifyList handle (fun items => Array.map_push) fun items before =>
        Relocation.held_push before held) fun _ _ within _ => answer within
  | text handle =>
      exact .textOf value _ fun _ => .bind (.modifyText handle _) fun _ _ within _ =>
        answer within
  | node handle =>
      refine .lifting held fun child => .read fun fits => ?_
      rw [Relocation.node_heap fits.starts]
      split
      · exact .bind (.modifyNode handle _) fun _ _ within _ => answer within
      · exact .unsupported (.node handle) _ fun _ => .bind (.throw rfl) fun _ _ within _ =>
          answer within
  | _ => exact .unsupported _ _ fun _ => .bind (.throw rfl) fun _ _ within _ => answer within

theorem removeLast (container : Value) :
    Tracks r heap (Collection.removeLast container)
      (Collection.removeLast (relocate r container)) := by
  cases container with
  | list handle =>
      refine .read fun fits => ?_
      rw [Relocation.list_heap fits.starts, Relocation.relocate_array, Array.back?_map]
      cases found : (heap.list handle).back? with
      | some last =>
          have held : heap.Holds last :=
            fits.closed.list handle last (Array.mem_of_back? found)
          refine .bind (.modifyList handle (fun _ => Array.map_pop) fun items before item member =>
            before item ?_) fun _ _ within _ => .pure rfl (held.later within)
          rw [← Array.mem_toList_iff, Array.toList_pop] at member
          exact Array.mem_toList_iff.mp (List.dropLast_subset _ member)
      | none => exact .throw rfl
  | text handle =>
      refine .read fun fits => ?_
      rw [Relocation.text_heap fits.starts]
      dsimp only
      split
      · exact .throw rfl
      · exact .bind (.modifyText handle _) fun _ _ _ _ => .newText rfl
  | node handle =>
      refine .read fun fits => ?_
      rw [Relocation.node_heap fits.starts]
      split
      · exact .refuse (.node handle) _
      · split
        · exact .throw rfl
        · exact .bind (.modifyNode handle _) fun _ _ _ _ => .newNode rfl
  | _ => exact .refuse _ _

theorem size (held : heap.Holds container) :
    Tracks r heap (Collection.size container) (Collection.size (relocate r container)) := by
  cases container with
  | text handle =>
      refine .read fun fits => .pure ?_ trivial
      rw [Relocation.text_heap fits.starts]
      rfl
  | object handle =>
      refine .read fun fits => .pure ?_ trivial
      rw [Relocation.object_heap fits.starts]
      simp
  | _ => exact .bind (.elements held _) fun _ _ _ _ => .pure (by simp) trivial

variable (r) in
@[simp]
theorem sliceBounds_relocate (start : Value) (stop : Option Value) (length : Nat) :
    Collection.sliceBounds (relocate r start) (relocate r stop) length =
      Collection.sliceBounds start stop length := by
  unfold Collection.sliceBounds
  rw [boundOf_relocate]
  cases stop with
  | none => rfl
  | some value =>
      show (_ >>= fun first => Collection.boundOf (relocate r value) length _ >>= _ : Outcome _) = _
      rw [boundOf_relocate]

theorem slice (container start : Value) (stop : Option Value) :
    Tracks r heap (Collection.slice container start stop)
      (Collection.slice (relocate r container) (relocate r start) (relocate r stop)) := by
  cases container with
  | list handle =>
      refine .read fun fits => ?_
      rw [Relocation.list_heap fits.starts]
      refine .outcome (by simp) fun bounds => .newListOf ?_ fun item member => ?_
      · simp [Collection.between, List.map_take, List.map_drop]
      · exact fits.closed.elements handle item (List.mem_of_mem_take (List.mem_of_mem_drop member))
  | text handle =>
      refine .read fun fits => ?_
      rw [Relocation.text_heap fits.starts]
      exact .outcome (by simp) fun _ => .newText rfl
  | node handle =>
      refine .read fun fits => ?_
      rw [Relocation.node_heap fits.starts]
      dsimp only
      split
      · exact .outcome (by simp) fun _ => .newNode rfl
      · exact .refuse (.node handle) _
  | _ => exact .refuse _ _

variable (r) in
@[simp]
theorem spliceBounds_relocate (start : Value) (count length : Nat) :
    Collection.spliceBounds (relocate r start) count length =
      Collection.spliceBounds start count length := by
  unfold Collection.spliceBounds
  rw [boundOf_relocate]

theorem splice (container start count : Value) {inserted : List Value}
    (held : Held heap inserted) :
    Tracks r heap (Collection.splice container start count inserted)
      (Collection.splice (relocate r container) (relocate r start) (relocate r count)
        (relocate r inserted)) := by
  refine .outcome (by simp) fun count => ?_
  cases container with
  | list handle =>
      refine .read fun fits => ?_
      have before := fits.closed.elements handle
      rw [Relocation.list_heap fits.starts]
      refine .outcome (by simp) fun bounds => .bind (.modifyList handle (fun items => ?_)
        fun items _ item member => ?_) fun _ _ within _ => .newListOf ?_ fun item member => ?_
      · simp [Collection.replaceBetween]
      · obtain inFront | inside | behind := by
          simpa [Collection.replaceBetween] using member
        · exact before item (List.mem_of_mem_take inFront)
        · exact held item inside
        · exact before item (List.mem_of_mem_drop behind)
      · simp [Collection.between]
      · exact Relocates.later within
          (before item (List.mem_of_mem_take (List.mem_of_mem_drop member)))
  | text handle =>
      refine .bind (.mapM rfl held fun item _ later _ _ => .text item _)
        fun contents later _ _ => .read fun fits => ?_
      rw [Relocation.text_heap fits.starts]
      exact .outcome (by simp) fun _ => .bind (by simpa using .modifyText handle _)
        fun _ _ _ _ => .newText rfl
  | node handle =>
      refine .bind (.mapM rfl held fun item _ later _ heldItem => .lift heldItem)
        fun trees later _ _ => .read fun fits => ?_
      rw [Relocation.node_heap fits.starts]
      split
      · exact .outcome (by simp) fun _ => .bind (by simpa using .modifyNode handle _)
          fun _ _ _ _ => .newNode rfl
      · exact .refuse (.node handle) _
  | _ => exact .refuse _ _

theorem mapM_relocate {read : Value → Option Nat} {rename : Nat → Nat}
    (same : ∀ value, read (relocate r value) = (read value).map rename) (parts : List Value) :
    (relocate r parts).mapM read = (parts.mapM read).map (List.map rename) := by
  induction parts with
  | nil => rfl
  | cons part rest inductionHypothesis =>
      rw [Relocation.relocate_items, List.map_cons, List.mapM_cons, List.mapM_cons, same,
        ← Relocation.relocate_items, inductionHypothesis]
      cases read part with
      | none => rfl
      | some handle => cases rest.mapM read <;> rfl

theorem concatenate (parts : List Value) :
    Tracks r heap (Collection.concatenate parts) (Collection.concatenate (relocate r parts)) := by
  unfold Collection.concatenate
  rw [mapM_relocate (Relocation.list?_relocate r), mapM_relocate (Relocation.text?_relocate r)]
  cases parts.mapM Value.list? with
  | some lists =>
      refine .read fun fits => .newListOf ?_ fun item member => ?_
      · simp [List.flatMap_map, List.map_flatMap, Relocation.list_heap fits.starts]
      · obtain ⟨handle, _, inList⟩ := List.mem_flatMap.mp member
        exact fits.closed.elements handle item inList
  | none =>
      cases parts.mapM Value.text? with
      | some texts =>
          refine .read fun fits => .newText ?_
          simp [Function.comp_def, Relocation.text_heap fits.starts]
      | none => exact .throw rfl

theorem range (start stop : Value) (step : Option Value) :
    Tracks r heap (Collection.range start stop step)
      (Collection.range (relocate r start) (relocate r stop) (relocate r step)) := by
  have listed {heap : Heap} (places : List Nat) (real : Nat → Float) :
      Tracks r heap (OnHeap.newListOf (places.map fun place => .ofReal (real place)))
        (OnHeap.newListOf (places.map fun place => .ofReal (real place))) := by
    refine .newListOf (by simp) fun item member => ?_
    obtain ⟨_, _, rfl⟩ := List.mem_map.mp member
    trivial
  unfold Collection.range
  rw [Relocation.asReal_relocate, Relocation.asReal_relocate]
  refine .outcome rfl fun first => .outcome rfl fun last => ?_
  have counted (distance : Float) : Tracks r heap
      (do
        if distance == 0.0 || !distance.isFinite then
          MonadExcept.throw (RuntimeError.invalidArgument (.rangeStep distance))
        let places := Double.floor ((last - first) / distance + 1.0)
        let count ← Double.toCount (if places > 0.0 then places else 0.0) "range length"
        OnHeap.newListOf
          ((List.range count).map fun place => .ofReal (first + Float.ofNat place * distance)))
      (do
        if distance == 0.0 || !distance.isFinite then
          MonadExcept.throw (RuntimeError.invalidArgument (.rangeStep distance))
        let places := Double.floor ((last - first) / distance + 1.0)
        let count ← Double.toCount (if places > 0.0 then places else 0.0) "range length"
        OnHeap.newListOf
          ((List.range count).map fun place =>
            .ofReal (first + Float.ofNat place * distance))) := by
    dsimp only
    split
    · exact .bind (.throw rfl) fun _ _ _ _ => .outcome rfl fun _ => listed _ _
    · exact .outcome rfl fun _ => listed _ _
  cases step with
  | none => exact counted 1.0
  | some value => exact .outcome (Relocation.asReal_relocate r value _) counted

theorem split (text separator : Value) :
    Tracks r heap (Collection.split text separator)
      (Collection.split (relocate r text) (relocate r separator)) :=
  .textOf text _ fun _ => .textOf separator _ fun _ => .bind (.newTexts _)
    fun _ _ _ held => .newListOf rfl held

theorem join (list separator : Value) :
    Tracks r heap (Collection.join list separator)
      (Collection.join (relocate r list) (relocate r separator)) := by
  refine .asList list _ fun handle => .textOf separator _ fun mark =>
    .read fun fits => .newText ?_
  have shown : ((r.heap heap).list (r.lists.handle handle)).toList.map (r.heap heap).display =
      (heap.list handle).toList.map heap.display := by
    rw [Relocation.list_heap fits.starts, Relocation.relocate_array, Array.toList_map,
      List.map_map]
    exact List.map_congr_left fun item member =>
      fits.display (fits.closed.elements handle item member)
  rw [shown]

end Collection

section Entries

variable {object key : Value}

theorem keys (object : Value) :
    Tracks r heap (Entries.keys object) (Entries.keys (relocate r object)) := by
  refine .asObject object _ fun handle => .read fun fits => ?_
  rw [Relocation.object_heap fits.starts, Relocation.relocate_dict, Dict.keys_map]
  exact .bind (.newTexts _) fun _ _ _ held => .newListOf rfl held

theorem values (object : Value) :
    Tracks r heap (Entries.values object) (Entries.values (relocate r object)) := by
  refine .asObject object _ fun handle => .read fun fits => .newListOf ?_
    (Relocation.held_values (fits.closed.object handle))
  rw [Relocation.object_heap fits.starts, Relocation.relocate_dict, Dict.values_map]
  rfl

theorem items (object : Value) :
    Tracks r heap (Entries.items object) (Entries.items (relocate r object)) := by
  refine .asObject object _ fun handle => .read fun fits => ?_
  rw [Relocation.object_heap fits.starts]
  have held : Held heap (heap.object handle).entries := fun entry member =>
    ⟨trivial, fits.closed.object handle _ _ ((Dict.get?_eq_some_iff _).mpr member)⟩
  refine .bind (.mapM rfl held fun entry _ later _ heldEntry => ?_) fun _ _ _ heldItems =>
    .newListOf rfl heldItems
  exact .bind (.newText rfl) fun text further within heldText => .newListOf rfl
    (Relocation.held_cons heldText (Relocation.held_cons (heldEntry.2.later within)
      fun _ member => by cases member))

theorem has (object : Value) (held : heap.Holds key) :
    Tracks r heap (Entries.has object key)
      (Entries.has (relocate r object) (relocate r key)) := by
  refine .asObject object _ fun handle => .read fun fits => .pure ?_ trivial
  rw [fits.key held, Relocation.object_heap fits.starts, Relocation.relocate_dict,
    Dict.contains_map]
  rfl

theorem delete (object : Value) (held : heap.Holds key) :
    Tracks r heap (Entries.delete object key)
      (Entries.delete (relocate r object) (relocate r key)) := by
  refine .asObject object _ fun handle => .read fun fits => ?_
  dsimp only
  rw [fits.key held, Relocation.object_heap fits.starts, Relocation.relocate_dict,
    Dict.contains_map]
  exact .bind (.modifyObject handle (fun entries => Dict.map_erase _ _ _) fun entries before =>
    Relocation.held_erase before) fun _ _ _ _ => .pure rfl trivial

end Entries

/-! ## Numbers and texts -/

section Scalars

variable {argument : Value} (held : heap.Holds argument) (text other : Value)

section Numbers

include held

/-- A function of numbers, applied to a number or to everything in a list. -/
theorem numeric {content : Type} {read : Value → Outcome content} {result : content → Value}
    (same : ∀ value, read (relocate r value) = read value)
    (plain : ∀ number, relocate r (result number) = result number)
    (free : ∀ number heap, Heap.Holds heap (result number)) :
    Tracks r heap (OnHeap.broadcast (fun value => (read value).map result) argument)
      (OnHeap.broadcast (fun value => (read value).map result) (relocate r argument)) := by
  refine .broadcast (fun value => ?_) (fun value number heap found => ?_) held
  · rw [same]
    cases read value with
    | error error => rfl
    | ok number => exact congrArg Except.ok (plain number).symm
  · cases found' : read value with
    | error error => rw [found'] at found; cases found
    | ok content => rw [found'] at found; cases found; exact free content heap

theorem part (part : NumberPart) :
    Tracks r heap (Numeric.part part argument) (Numeric.part part (relocate r argument)) :=
  .numeric held (fun value => Relocation.asNumber_relocate r value _) (fun _ => rfl)
    fun _ _ => trivial

theorem complex (function : ComplexFunction) :
    Tracks r heap (Numeric.complex function argument)
      (Numeric.complex function (relocate r argument)) :=
  .numeric held (fun value => Relocation.asNumber_relocate r value _) (fun _ => rfl)
    fun _ _ => trivial

theorem real (function : RealFunction) :
    Tracks r heap (Numeric.real function argument)
      (Numeric.real function (relocate r argument)) :=
  .numeric held (fun value => Relocation.asReal_relocate r value _) (fun _ => rfl)
    fun _ _ => trivial

theorem ofValue :
    Tracks r heap (Wording.ofValue argument) (Wording.ofValue (relocate r argument)) :=
  .displaying held fun _ => .newText rfl

end Numbers

theorem transform (change : List Char → List Char) (role : String) :
    Tracks r heap (Wording.transform change role text)
      (Wording.transform change role (relocate r text)) :=
  .textOf text _ fun _ => .newText rfl

theorem replace (pattern replacement : Value) :
    Tracks r heap (Wording.replace text pattern replacement)
      (Wording.replace (relocate r text) (relocate r pattern) (relocate r replacement)) :=
  .textOf text _ fun _ => .textOf pattern _ fun _ => .textOf replacement _ fun _ => .newText rfl

theorem startsWith :
    Tracks r heap (Wording.startsWith text other)
      (Wording.startsWith (relocate r text) (relocate r other)) :=
  .textOf text _ fun _ => .textOf other _ fun _ => .pure rfl trivial

theorem endsWith :
    Tracks r heap (Wording.endsWith text other)
      (Wording.endsWith (relocate r text) (relocate r other)) :=
  .textOf text _ fun _ => .textOf other _ fun _ => .pure rfl trivial

end Scalars

/-! ## Trees and functions -/

section Trees

variable {node value : Value}

theorem operand (node : Value) (side : Side) :
    Tracks r heap (Trees.operand side node) (Trees.operand side (relocate r node)) := by
  refine .nodeOf node _ fun tree => ?_
  cases side <;> cases tree <;> first | exact .newNode rfl | exact .throw rfl

theorem setOperand (held : heap.Holds node) (heldToo : heap.Holds value) (side : Side) :
    Tracks r heap (Trees.setOperand side node value)
      (Trees.setOperand side (relocate r node) (relocate r value)) := by
  refine .asNode node _ fun handle => .lifting heldToo fun child => .read fun fits => ?_
  rw [Relocation.node_heap fits.starts]
  dsimp only
  split
  · exact .bind (.modifyNode handle _) fun _ _ within _ => .pure rfl (held.later within)
  · exact .bind (.modifyNode handle _) fun _ _ within _ => .pure rfl (held.later within)
  · exact .bind (.throw rfl) fun _ _ within _ => .pure rfl (held.later within)

theorem setOperator (held : heap.Holds node) (token : Value) :
    Tracks r heap (Trees.setOperator node token)
      (Trees.setOperator (relocate r node) (relocate r token)) := by
  refine .asNode node _ fun handle => .textOf token _ fun token => .read fun fits => ?_
  rw [Relocation.node_heap fits.starts]
  dsimp only
  split
  · exact .bind (.modifyNode handle _) fun _ _ within _ => .pure rfl (held.later within)
  · exact .bind (.throw rfl) fun _ _ within _ => .pure rfl (held.later within)

theorem setName (held : heap.Holds node) (name : Value) :
    Tracks r heap (Trees.setName node name)
      (Trees.setName (relocate r node) (relocate r name)) := by
  refine .asNode node _ fun handle => .textOf name _ fun name => .read fun fits => ?_
  rw [Relocation.node_heap fits.starts]
  dsimp only
  split
  · exact .bind (.modifyNode handle _) fun _ _ within _ => .pure rfl (held.later within)
  · exact .bind (.throw rfl) fun _ _ within _ => .pure rfl (held.later within)

theorem setSource (held : heap.Holds node) (text : Value) (levels : Syntax.Levels) :
    Tracks r heap (Trees.setSource levels node text)
      (Trees.setSource levels (relocate r node) (relocate r text)) := by
  refine .asNode node _ fun handle => .textOf text _ fun source => .outcome rfl fun segments =>
    .read fun fits => ?_
  rw [Relocation.node_heap fits.starts]
  dsimp only
  split
  · exact .bind (.modifyNode handle _) fun _ _ within _ => .pure rfl (held.later within)
  · exact .bind (.throw rfl) fun _ _ within _ => .pure rfl (held.later within)

theorem operator (node : Value) :
    Tracks r heap (Trees.operator node) (Trees.operator (relocate r node)) := by
  refine .nodeOf node _ fun tree => ?_
  cases tree <;> first | exact .newText rfl | exact .throw rfl

theorem name (node : Value) :
    Tracks r heap (Trees.name node) (Trees.name (relocate r node)) := by
  refine .nodeOf node _ fun tree => ?_
  cases tree <;> first | exact .newText rfl | exact .throw rfl

theorem source (node : Value) :
    Tracks r heap (Trees.source node) (Trees.source (relocate r node)) := by
  refine .nodeOf node _ fun tree => ?_
  cases tree <;> first | exact .newText rfl | exact .throw rfl

theorem children (node : Value) :
    Tracks r heap (Trees.children node) (Trees.children (relocate r node)) := by
  refine .nodeOf node _ fun tree => ?_
  split
  · exact .bind (.newNodes _) fun _ _ _ held => .newListOf rfl held
  · exact .throw rfl

theorem quotation (node : Value) :
    Tracks r heap (Trees.quotation node) (Trees.quotation (relocate r node)) := by
  refine .nodeOf node _ fun tree => ?_
  cases tree <;> first | exact .newNode rfl | exact .throw rfl

theorem body (function : Value) :
    Tracks r heap (Trees.body function) (Trees.body (relocate r function)) := by
  refine .asFunction function _ fun handle => .read fun fits => .newNode ?_
  rw [Relocation.function_heap fits.starts]
  rfl

theorem setBody (held : heap.Holds node) (heldToo : heap.Holds value) :
    Tracks r heap (Trees.setBody node value)
      (Trees.setBody (relocate r node) (relocate r value)) :=
  .asFunction node _ fun handle => .lifting heldToo fun _ =>
    .bind (.modifyFunction handle (fun _ => rfl) fun _ before => before) fun _ _ within _ =>
      .pure rfl (held.later within)

theorem parameters (function : Value) :
    Tracks r heap (Trees.parameters function) (Trees.parameters (relocate r function)) := by
  refine .asFunction function _ fun handle => .read fun fits => ?_
  rw [Relocation.function_heap fits.starts]
  exact .bind (.newTexts _) fun _ _ _ held => .newListOf rfl held

theorem passes (test : TypeTest) (value : Value) :
    Tracks r heap (Trees.passes test value) (Trees.passes test (relocate r value)) := by
  cases test with
  | node kind =>
      cases value with
      | node handle =>
          refine .read fun fits => .pure ?_ trivial
          rw [Relocation.node_heap fits.starts]
          rfl
      | _ => exact .pure rfl trivial
  | _ => cases value <;> exact .pure rfl trivial

end Trees

/-! ## Evaluation -/

theorem folded {value : Value} (held : heap.Holds value) (role : String) :
    Tracks r heap (Folding.items value role) (Folding.items (relocate r value) role) := by
  unfold Folding.items
  cases value with
  | text handle =>
      refine .read fun fits => ?_
      rw [Relocation.text_heap fits.starts]
      exact .newTexts _
  | _ => exact .elements held role

theorem nameOf (value : Value) :
    Tracks r heap (Reflection.nameOf value) (Reflection.nameOf (relocate r value)) := by
  cases value with
  | node handle =>
      refine .read fun fits => ?_
      rw [Relocation.node_heap fits.starts]
      split
      · exact .pure rfl trivial
      · exact .throw rfl
  | _ => exact .text _ _

theorem levelRow (level : Syntax.Level) :
    Tracks r heap (Reflection.levelRow level) (Reflection.levelRow level) :=
  .bind (.newTexts _) fun _ _ _ held => .bind (.newListOf rfl held) fun _ _ _ heldList =>
    .bind (.newText rfl) fun _ _ within heldText => .newListOf rfl
      (Relocation.held_cons (heldList.later within) (Relocation.held_cons heldText
        fun _ member => by cases member))

theorem held_headD {arguments : List Value} (held : Held heap arguments) :
    heap.Holds (arguments.headD .zero) := by
  cases arguments with
  | nil => trivial
  | cons first rest => exact held first List.mem_cons_self

theorem headD_relocate (arguments : List Value) :
    (relocate r arguments).headD .zero = relocate r (arguments.headD .zero) := by
  cases arguments <;> rfl

theorem nameArguments (variadic : Bool) (params : List String) {arguments : List Value}
    (held : Held heap arguments) :
    Tracks r heap (Eval.nameArguments variadic params arguments)
      (Eval.nameArguments variadic params (relocate r arguments)) := by
  have alone {later : Heap} {name : String} {value : Value} (held : later.Holds value) :
      Held later [(name, value)] :=
    Relocation.held_cons ⟨trivial, held⟩ fun _ member => by cases member
  induction params generalizing arguments heap with
  | nil => exact .pure rfl fun _ member => by cases member
  | cons param params inductionHypothesis =>
      cases params with
      | nil =>
          unfold Eval.nameArguments
          split
          · exact .bind (.newListOf rfl held) fun _ _ _ heldList => .pure rfl (alone heldList)
          · exact .pure (by rw [headD_relocate]; rfl) (alone (held_headD held))
      | cons next params =>
          unfold Eval.nameArguments
          have rest : Held heap arguments.tail :=
            fun item member => held item (List.mem_of_mem_tail member)
          rw [headD_relocate, Relocation.relocate_items, ← List.map_tail]
          exact .bind (inductionHypothesis rest) fun _ _ within heldRest => .pure rfl
            (Relocation.held_cons ⟨trivial, (held_headD held).later within⟩ heldRest)

theorem callNames {callee : Value} {function : Function} {arguments : List Value}
    (heldCallee : heap.Holds callee) (held : Held heap arguments) :
    Tracks r heap (Eval.callNames callee function arguments)
      (Eval.callNames (relocate r callee) (relocate r function) (relocate r arguments)) := by
  refine .bind (.nameArguments function.variadic function.params held)
    fun named later within heldNamed => .pure ?_ ?_
  · simp [relocate, Function.comp_def]
  · refine Relocation.held_append (Relocation.held_append (fun entry member => ?_) heldNamed)
      (Relocation.held_cons ⟨trivial, heldCallee.later within⟩ fun _ member => by cases member)
    obtain ⟨_, _, rfl⟩ := List.mem_map.mp member
    exact ⟨trivial, heldCallee.later within⟩

theorem shares (count : Nat) {value : Value} (held : heap.Holds value) :
    Tracks r heap (Eval.shares count value) (Eval.shares count (relocate r value)) := by
  have copies {value : Value} (held : heap.Holds value) : Tracks r heap
      ((List.replicate count value).mapM OnHeap.duplicate)
      ((List.replicate count (relocate r value)).mapM OnHeap.duplicate) :=
    .mapM (by simp) (fun item member => (List.eq_of_mem_replicate member).symm ▸ held)
      fun item _ later _ heldItem => .duplicate heldItem
  cases value with
  | list handle =>
      refine .read fun fits => ?_
      have heldItems := fits.closed.elements handle
      simp only [Relocation.list_heap fits.starts, Relocation.relocate_array, Array.toList_map,
        List.length_map]
      split
      · exact .pure rfl heldItems
      · generalize (heap.list handle).toList = items at heldItems
        match items with
        | [] => exact .throw rfl
        | [only] => exact copies (heldItems only List.mem_cons_self)
        | first :: second :: rest => exact .throw (by simp)
  | _ => exact copies held

end Tracks

end OnHeap

end Fixity
