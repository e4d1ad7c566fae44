import Fixity.Native.Call
import Fixity.Proofs.Places

/-!
Contract: states with further syntax trees among the others, and with further calls under way.

Owns:
- `Insertion`, some trees that take handles from a given one on, and a number of calls;
- `Insertion.enters`, in front of how many trees these come in;
- what becomes of values, cells, scopes and whole states: handles of trees move up, nothing else
  changes;
- `Renumbers`, the kinds of data that handles can be found in;
- the laws of reading, changing and displaying what has been renumbered.

Does not own: computations on such states.
-/

namespace Fixity

/-- Syntax trees that take the handles from a given one on, and calls that are under way besides. -/
structure Insertion where
  start : Nat
  trees : List Node
  calls : Nat
  /-- Whether the trees only come in if there is another one behind them. -/
  late : Bool

namespace Insertion

variable (insertion : Insertion)

/-- The handle of a tree that was there before. -/
def handle (handle : Nat) : Nat :=
  if handle < insertion.start then handle else handle + insertion.trees.length

/-- A value whose tree is found under another handle. -/
def value : Value → Value
  | .node handle => .node (insertion.handle handle)
  | other => other

end Insertion

/-- A kind of data in which handles of trees can be found. -/
class Renumbers (α : Type) where
  renumber : Insertion → α → α

namespace Renumbers

/-- Most data hold no handles. -/
instance (priority := low) plain {α : Type} : Renumbers α := ⟨fun _ content => content⟩

instance : Renumbers Value := ⟨Insertion.value⟩

instance instList {α : Type} [Renumbers α] : Renumbers (List α) :=
  ⟨fun insertion items => items.map (renumber insertion)⟩

instance {α : Type} [Renumbers α] : Renumbers (Option α) :=
  ⟨fun insertion item => item.map (renumber insertion)⟩

instance {α β : Type} [Renumbers α] [Renumbers β] : Renumbers (α × β) :=
  ⟨fun insertion pair => (renumber insertion pair.1, renumber insertion pair.2)⟩

end Renumbers

export Renumbers (renumber)

namespace Insertion

variable (insertion : Insertion)

/-- Bindings to values under their new handles. -/
def bindings (bindings : Bindings) : Bindings :=
  bindings.map fun values => values.map insertion.value

def function (content : Function) : Function :=
  { content with closure := insertion.bindings content.closure }

def action : Action → Action
  | .supply callee fixed =>
      .supply (insertion.value callee) (fixed.map (Option.map insertion.value))
  | other => other

def builtin (content : Builtin) : Builtin :=
  { content with action := insertion.action content.action }

def implementation (content : Implementation) : Implementation :=
  { content with function := insertion.value content.function }

def operators (table : OperatorTable) : OperatorTable :=
  { table with implementations := table.implementations.map insertion.implementation }

def scope (scope : Scope) : Scope :=
  ⟨insertion.bindings scope.bindings, insertion.operators scope.operators⟩

/-- Whether there are trees enough for the further ones to come in. -/
def enters (count : Nat) : Prop := insertion.start + insertion.late.toNat ≤ count

instance (count : Nat) : Decidable (insertion.enters count) := Nat.decLe _ _

/-- The trees that were there before, with the further ones in their place. -/
def nodes (cells : Array Node) : Array Node :=
  if insertion.enters cells.size then
    (cells.toList.take insertion.start ++ insertion.trees ++
      cells.toList.drop insertion.start).toArray
  else cells

def heap (heap : Heap) : Heap where
  texts := heap.texts
  lists := heap.lists.map fun items => items.map insertion.value
  objects := heap.objects.map fun entries => entries.map insertion.value
  functions := heap.functions.map insertion.function
  builtins := heap.builtins.map insertion.builtin
  nodes := insertion.nodes heap.nodes

def state (state : State) : State where
  heap := insertion.heap state.heap
  scope := insertion.scope state.scope
  outer := state.outer.map insertion.scope
  depth := state.depth + insertion.calls
  nextName := state.nextName
  effects := state.effects

end Insertion

instance : Renumbers Function := ⟨Insertion.function⟩
instance : Renumbers Builtin := ⟨Insertion.builtin⟩
instance : Renumbers Implementation := ⟨Insertion.implementation⟩
instance : Renumbers Scope := ⟨Insertion.scope⟩
instance : Renumbers Heap := ⟨Insertion.heap⟩
instance : Renumbers State := ⟨Insertion.state⟩

namespace Insertion

variable {insertion : Insertion}

/-! ## Values -/

section Values

variable (insertion)

@[simp, grind =]
theorem renumber_value (value : Value) : renumber insertion value = insertion.value value := rfl

@[simp, grind =]
theorem renumber_list {α : Type} [Renumbers α] (items : List α) :
    renumber insertion items = items.map (renumber insertion) := rfl

@[simp, grind =]
theorem renumber_values (items : List Value) :
    renumber insertion items = items.map insertion.value := rfl

@[simp, grind =]
theorem renumber_plain {α : Type} (content : α) :
    @renumber α .plain insertion content = content := rfl

@[simp, grind =]
theorem map_plain {α : Type} (items : List α) :
    items.map (@renumber α .plain insertion) = items := List.map_id' items

@[simp]
theorem renumber_plains {α : Type} (items : List α) :
    @renumber (List α) (@Renumbers.instList α .plain) insertion items = items :=
  map_plain insertion items

@[simp]
theorem outcome_plains {α : Type} (outcome : Outcome (List α)) :
    outcome.map (@renumber (List α) (@Renumbers.instList α .plain) insertion) = outcome := by
  cases outcome with
  | ok items => exact congrArg Except.ok (renumber_plains insertion items)
  | error error => rfl

@[simp, grind =]
theorem outcome_plain {α : Type} (outcome : Outcome α) :
    outcome.map (@renumber α .plain insertion) = outcome := by
  cases outcome <;> rfl

@[simp, grind =]
theorem renumber_pair {α β : Type} [Renumbers α] [Renumbers β] (first : α) (second : β) :
    renumber insertion (first, second) = (renumber insertion first, renumber insertion second) :=
  rfl

@[simp, grind =]
theorem value_number (content : Number) : insertion.value (.number content) = .number content := rfl

@[simp, grind =]
theorem value_text (handle : Nat) : insertion.value (.text handle) = .text handle := rfl

@[simp, grind =]
theorem value_list (handle : Nat) : insertion.value (.list handle) = .list handle := rfl

@[simp, grind =]
theorem value_object (handle : Nat) : insertion.value (.object handle) = .object handle := rfl

@[simp, grind =]
theorem value_function (handle : Nat) : insertion.value (.function handle) = .function handle := rfl

@[simp, grind =]
theorem value_builtin (handle : Nat) : insertion.value (.builtin handle) = .builtin handle := rfl

@[simp, grind =]
theorem value_node (handle : Nat) :
    insertion.value (.node handle) = .node (insertion.handle handle) := rfl

@[simp, grind =]
theorem value_zero : insertion.value .zero = .zero := rfl

@[simp, grind =]
theorem value_ofBool (truth : Bool) : insertion.value (.ofBool truth) = .ofBool truth := rfl

@[simp, grind =]
theorem value_ofReal (real : Float) : insertion.value (.ofReal real) = .ofReal real := rfl

@[simp, grind =]
theorem value_ofNat (count : Nat) : insertion.value (.ofNat count) = .ofNat count := rfl

variable (value : Value)

@[simp, grind =]
theorem typeName_value : (insertion.value value).typeName = value.typeName := by
  cases value <;> rfl

@[simp, grind =]
theorem isTruthy_value : (insertion.value value).isTruthy = value.isTruthy := by
  cases value <;> rfl

@[simp, grind =]
theorem isCallable_value : (insertion.value value).isCallable = value.isCallable := by
  cases value <;> rfl

@[simp, grind =]
theorem text?_value : (insertion.value value).text? = value.text? := by
  cases value <;> rfl

@[simp, grind =]
theorem list?_value : (insertion.value value).list? = value.list? := by
  cases value <;> rfl

@[simp, grind =]
theorem mismatch_value (role expected : String) :
    (insertion.value value).mismatch role expected = value.mismatch role expected := by
  cases value <;> rfl

@[simp, grind =]
theorem container?_value : (insertion.value value).container? = value.container? := by
  cases value <;> rfl

@[simp, grind =]
theorem asNumber_value (role : String) :
    (insertion.value value).asNumber role = value.asNumber role := by
  cases value <;> rfl

@[simp, grind =]
theorem asReal_value (role : String) :
    (insertion.value value).asReal role = value.asReal role := by
  cases value <;> rfl

@[simp, grind =]
theorem asCount_value (role : String) :
    (insertion.value value).asCount role = value.asCount role := by
  cases value <;> rfl

@[simp, grind =]
theorem asText_value (role : String) :
    (insertion.value value).asText role = value.asText role := by
  cases value <;> rfl

@[simp, grind =]
theorem asList_value (role : String) :
    (insertion.value value).asList role = value.asList role := by
  cases value <;> rfl

@[simp, grind =]
theorem asObject_value (role : String) :
    (insertion.value value).asObject role = value.asObject role := by
  cases value <;> rfl

@[simp, grind =]
theorem asNode_value (role : String) :
    (insertion.value value).asNode role = (value.asNode role).map insertion.handle := by
  cases value <;> rfl

@[simp, grind =]
theorem asFunction_value (role : String) :
    (insertion.value value).asFunction role = value.asFunction role := by
  cases value <;> rfl

end Values

/-! ## Cells -/

theorem start_le_of_enters {count : Nat} (enters : insertion.enters count) :
    insertion.start ≤ count := by
  unfold Insertion.enters at enters
  omega

theorem le_start_of_not_enters {count : Nat} (waits : ¬ insertion.enters count) :
    count ≤ insertion.start := by
  unfold Insertion.enters at waits
  have := insertion.late.toNat_le
  omega

theorem enters_of_le {count more : Nat} (le : count ≤ more) (enters : insertion.enters count) :
    insertion.enters more :=
  Nat.le_trans enters le

/-- From one heap to a later one the further trees do not come in: they are there already, or not
even then. -/
def Steady (insertion : Insertion) (earlier later : Heap) : Prop :=
  insertion.enters earlier.nodes.size ∨ ¬ insertion.enters later.nodes.size

section Cells

variable (heap : Heap) (handle : Nat)

@[simp, grind =]
theorem text_heap : (insertion.heap heap).text handle = heap.text handle := rfl

private theorem getD_map {α β : Type} (cells : Array α) (change : α → β) (absent : α) :
    (cells.map change).getD handle (change absent) = change (cells.getD handle absent) := by
  simp only [Array.getD_eq_getD_getElem?, Array.getElem?_map]
  cases cells[handle]? <;> rfl

@[simp, grind =]
theorem list_heap :
    (insertion.heap heap).list handle = (heap.list handle).map insertion.value :=
  (congrArg (Array.getD _ handle) (by simp)).trans (getD_map handle heap.lists _ #[])

@[simp, grind =]
theorem object_heap :
    (insertion.heap heap).object handle = (heap.object handle).map insertion.value :=
  getD_map handle heap.objects _ ∅

@[simp, grind =]
theorem function_heap :
    (insertion.heap heap).function handle = insertion.function (heap.function handle) :=
  getD_map handle heap.functions insertion.function ⟨[], .body [], ∅, false, []⟩

@[simp, grind =]
theorem builtin_heap :
    (insertion.heap heap).builtin handle = insertion.builtin (heap.builtin handle) :=
  getD_map handle heap.builtins insertion.builtin ⟨"", .host ""⟩

@[simp, grind =]
theorem containers_heap : (insertion.heap heap).containers = heap.containers := by
  simp [Heap.containers, Insertion.heap]

@[simp, grind =]
theorem room_heap : (insertion.heap heap).room = heap.room := by
  simp [Heap.room]

theorem nodes_of_enters {cells : Array Node} (enters : insertion.enters cells.size) :
    insertion.nodes cells =
      (cells.toList.take insertion.start ++ insertion.trees ++
        cells.toList.drop insertion.start).toArray :=
  if_pos enters

theorem nodes_of_not_enters {cells : Array Node} (waits : ¬ insertion.enters cells.size) :
    insertion.nodes cells = cells :=
  if_neg waits

theorem getElem?_nodes (cells : Array Node) :
    (insertion.nodes cells)[insertion.handle handle]? = cells[handle]? := by
  unfold Insertion.handle
  by_cases enters : insertion.enters cells.size
  · have fits := start_le_of_enters enters
    rw [nodes_of_enters enters, List.getElem?_toArray]
    split
    · next below =>
      rw [List.append_assoc, List.getElem?_append_left (by simp; omega),
        List.getElem?_take_of_lt below]
      simp
    · next above =>
      rw [List.getElem?_append_right (by simp; omega), List.getElem?_drop]
      simp
      congr 1
      omega
  · have beyond := le_start_of_not_enters enters
    rw [nodes_of_not_enters enters]
    split
    · rfl
    · rw [Array.getElem?_eq_none (by omega), Array.getElem?_eq_none (by omega)]

@[simp, grind =]
theorem node_heap : (insertion.heap heap).node (insertion.handle handle) = heap.node handle := by
  simp only [Heap.node, Array.getD_eq_getD_getElem?]
  rw [show (insertion.heap heap).nodes = insertion.nodes heap.nodes from rfl, getElem?_nodes]

/-- The further trees are found under the handles from the start on. -/
theorem getElem?_inserted {cells : Array Node} (enters : insertion.enters cells.size)
    {index : Nat} (within : index < insertion.trees.length) :
    (insertion.nodes cells)[insertion.start + index]? = insertion.trees[index]? := by
  have fits := start_le_of_enters enters
  have taken : (cells.toList.take insertion.start).length = insertion.start :=
    List.length_take_of_le fits
  rw [nodes_of_enters enters, List.getElem?_toArray, List.append_assoc,
    List.getElem?_append_right (by omega), taken, Nat.add_sub_cancel_left,
    List.getElem?_append_left within]

variable (insertion) in
theorem handle_inj {first second : Nat} :
    insertion.handle first = insertion.handle second ↔ first = second := by
  unfold Insertion.handle
  split <;> split <;> omega

variable (insertion) in
/-- A handle is that of a tree that was there before, or that of a further one. -/
theorem handle_cases (handle : Nat) :
    (∃ before, handle = insertion.handle before) ∨
      ∃ index, index < insertion.trees.length ∧ handle = insertion.start + index := by
  by_cases below : handle < insertion.start
  · exact .inl ⟨handle, (if_pos below).symm⟩
  · by_cases within : handle < insertion.start + insertion.trees.length
    · exact .inr ⟨handle - insertion.start, by omega, by omega⟩
    · refine .inl ⟨handle - insertion.trees.length, ?_⟩
      unfold Insertion.handle
      rw [if_neg (by omega)]
      omega

theorem size_nodes {cells : Array Node} (enters : insertion.enters cells.size) :
    (insertion.nodes cells).size = cells.size + insertion.trees.length := by
  have fits := start_le_of_enters enters
  rw [nodes_of_enters enters]
  simp
  omega

variable (insertion) in
/-- Two rows of trees are the same if they agree on those that were there before and on the further
ones. -/
theorem nodes_ext {first second : Array Node}
    (before : ∀ handle, first[insertion.handle handle]? = second[insertion.handle handle]?)
    (further : ∀ index, index < insertion.trees.length →
      first[insertion.start + index]? = second[insertion.start + index]?) : first = second := by
  refine Array.ext_getElem? fun handle => ?_
  obtain ⟨earlier, rfl⟩ | ⟨index, within, rfl⟩ := insertion.handle_cases handle
  · exact before earlier
  · exact further index within

theorem nodes_push {cells : Array Node} (tree : Node)
    (steady : insertion.enters cells.size ∨ ¬ insertion.enters (cells.size + 1)) :
    insertion.nodes (cells.push tree) = (insertion.nodes cells).push tree := by
  obtain enters | waits := steady
  · have fits := start_le_of_enters enters
    have enters' : insertion.enters (cells.push tree).size := by
      rw [Array.size_push]
      exact enters_of_le (Nat.le_succ _) enters
    rw [nodes_of_enters enters, nodes_of_enters enters', Array.toList_push,
      List.take_append_of_le_length (by simpa using fits),
      List.drop_append_of_le_length (by simpa using fits), ← List.append_assoc,
      ← List.push_toArray]
  · have waits' : ¬ insertion.enters (cells.push tree).size := by
      rwa [Array.size_push]
    rw [nodes_of_not_enters waits', nodes_of_not_enters fun enters =>
      waits (enters_of_le (Nat.le_succ _) enters)]

theorem nodes_modify (cells : Array Node) (change : Node → Node) :
    insertion.nodes (cells.modify handle change) =
      (insertion.nodes cells).modify (insertion.handle handle) change := by
  by_cases enters : insertion.enters cells.size
  · have enters' : insertion.enters (cells.modify handle change).size := by
      rwa [Array.size_modify]
    refine insertion.nodes_ext (fun other => ?_) fun index within => ?_
    · rw [getElem?_nodes, Array.getElem?_modify, Array.getElem?_modify, getElem?_nodes]
      simp only [handle_inj]
    · rw [getElem?_inserted enters' within, Array.getElem?_modify,
        getElem?_inserted enters within, if_neg]
      unfold Insertion.handle
      split <;> omega
  · have waits : ¬ insertion.enters (cells.modify handle change).size := by
      rwa [Array.size_modify]
    have beyond := le_start_of_not_enters enters
    rw [nodes_of_not_enters enters, nodes_of_not_enters waits]
    refine Array.ext_getElem? fun other => ?_
    rw [Array.getElem?_modify, Array.getElem?_modify]
    by_cases found : other < cells.size
    · have same : handle = other ↔ insertion.handle handle = other := by
        unfold Insertion.handle
        split <;> omega
      simp only [same]
    · rw [Array.getElem?_eq_none (by omega)]
      split <;> split <;> rfl

theorem value_new {cells : Array Node}
    (steady : insertion.enters cells.size ∨ ¬ insertion.enters (cells.size + 1)) :
    insertion.value (.node cells.size) = .node (insertion.nodes cells).size := by
  rw [value_node]
  obtain enters | waits := steady
  · have fits := start_le_of_enters enters
    rw [size_nodes enters, Insertion.handle, if_neg (by omega)]
  · have beyond := le_start_of_not_enters waits
    rw [nodes_of_not_enters fun enters => waits (enters_of_le (Nat.le_succ _) enters),
      Insertion.handle, if_pos (by omega)]

theorem map_modify {α : Type} {cells : Array α} {renamed change change' : α → α}
    (same : ∀ content, renamed (change content) = change' (renamed content)) :
    (cells.modify handle change).map renamed = (cells.map renamed).modify handle change' := by
  refine Array.ext_getElem? fun other => ?_
  rw [Array.getElem?_map, Array.getElem?_modify, Array.getElem?_modify, Array.getElem?_map]
  split
  · cases cells[other]? with
    | none => rfl
    | some content => exact congrArg some (same content)
  · rfl

end Cells

/-! ## Walks through a heap -/

section Walks

variable (heap : Heap) (value : Value)

omit heap in
@[simp, grind =]
theorem open?_value (path : Path) : path.open? (insertion.value value) = path.open? value := by
  unfold Path.open?
  rw [container?_value]

omit heap in
@[simp, grind =]
theorem enter_value (path : Path) (operation : String) :
    path.enter (insertion.value value) operation = path.enter value operation := by
  unfold Path.enter
  rw [open?_value]

theorem displayWithin_value (room : Nat) (path : Path) :
    (insertion.heap heap).displayWithin room path (insertion.value value) =
      heap.displayWithin room path value := by
  induction room generalizing path value with
  | zero => rfl
  | succ room inductionHypothesis =>
      unfold Heap.displayWithin
      rw [open?_value]
      cases path.open? value with
      | none => cases value <;> rfl
      | some inside =>
          cases value with
          | list handle =>
              dsimp only [value_list]
              rw [list_heap, Array.toList_map, List.map_map]
              congr 4
              funext child
              exact inductionHypothesis child inside
          | object handle =>
              dsimp only [value_object]
              rw [object_heap, Dict.map, List.map_map]
              congr 4
              funext entry
              exact congrArg (entry.1 ++ ": " ++ ·) (inductionHypothesis entry.2 inside)
          | function handle => dsimp only [value_function]; rw [function_heap]; rfl
          | builtin handle => dsimp only [value_builtin]; rw [builtin_heap]; rfl
          | node handle => dsimp only [value_node]; rw [node_heap]
          | _ => rfl

@[simp, grind =]
theorem display_value : (insertion.heap heap).display (insertion.value value) =
    heap.display value := by
  unfold Heap.display
  rw [room_heap]
  exact displayWithin_value heap value _ []

@[simp, grind =]
theorem key_value : (insertion.heap heap).key (insertion.value value) = heap.key value := by
  have shown : (insertion.heap heap).display (insertion.value value) = heap.display value :=
    display_value heap value
  cases value with
  | node handle =>
      rw [value_node] at shown ⊢
      unfold Heap.key
      dsimp only
      rw [node_heap, shown]
  | text handle => rfl
  | _ => exact shown

theorem liftWithin_value (room : Nat) (path : Path) :
    (insertion.heap heap).liftWithin room path (insertion.value value) =
      heap.liftWithin room path value := by
  induction room generalizing path value with
  | zero => rfl
  | succ room inductionHypothesis =>
      cases value with
      | node handle => exact congrArg Except.ok (node_heap heap handle)
      | list handle =>
          rw [value_list]
          unfold Heap.liftWithin
          dsimp only
          rw [list_heap, Array.toList_map]
          refine bind_congr fun inside => ?_
          rw [List.mapM_map]
          congr 2
          funext child
          exact inductionHypothesis child inside
      | _ => rfl

@[simp, grind =]
theorem lift_value : (insertion.heap heap).lift (insertion.value value) = heap.lift value := by
  unfold Heap.lift
  rw [room_heap]
  exact liftWithin_value heap value _ []

theorem readsObject_value (handle room : Nat) (path : Path) :
    (insertion.heap heap).readsObject handle room path (insertion.value value) =
      heap.readsObject handle room path value := by
  induction room generalizing path value with
  | zero => rfl
  | succ room inductionHypothesis =>
      unfold Heap.readsObject
      rw [open?_value]
      cases path.open? value with
      | none => rfl
      | some inside =>
          cases value with
          | list list =>
              dsimp only [value_list]
              rw [list_heap, Array.toList_map, List.any_map]
              congr 1
              funext child
              exact inductionHypothesis child inside
          | object object =>
              dsimp only [value_object]
              rw [object_heap, Dict.values_map, List.any_map]
              congr 2
              funext child
              exact inductionHypothesis child inside
          | _ => rfl

end Walks

/-! ## Scopes -/

section Scopes

variable (scope : Scope) (name : String)

@[simp, grind =]
theorem stack?_scope :
    (insertion.scope scope).stack? name = (scope.stack? name).map (List.map insertion.value) :=
  Dict.get?_map _ _ _

@[simp, grind =]
theorem lookup?_scope :
    (insertion.scope scope).lookup? name = (scope.lookup? name).map insertion.value := by
  unfold Scope.lookup?
  rw [stack?_scope]
  rcases scope.stack? name with _ | _ | ⟨head, rest⟩ <;> rfl

@[simp, grind =]
theorem isBound_scope : (insertion.scope scope).isBound name = scope.isBound name := by
  unfold Scope.isBound
  rw [lookup?_scope, Option.isSome_map]

theorem update_scope {change change' : List Value → List Value}
    (same : ∀ values, (change values).map insertion.value = change' (values.map insertion.value)) :
    insertion.scope (scope.update name change) = (insertion.scope scope).update name change' := by
  have stack : ((insertion.scope scope).stack? name).getD [] =
      ((scope.stack? name).getD []).map insertion.value := by
    rw [stack?_scope]
    cases scope.stack? name <;> rfl
  unfold Scope.update
  rw [stack, ← same]
  exact congrArg (Scope.mk · _) (Dict.map_insert _ _ _ _)

@[simp, grind =]
theorem bind_scope (value : Value) : insertion.scope (scope.bind name value) =
    (insertion.scope scope).bind name (insertion.value value) :=
  update_scope scope name fun values => by cases values <;> rfl

@[simp, grind =]
theorem push_scope (value : Value) : insertion.scope (scope.push name value) =
    (insertion.scope scope).push name (insertion.value value) :=
  update_scope scope name fun _ => rfl

@[simp, grind =]
theorem remove_scope : insertion.scope (scope.remove name) =
    (insertion.scope scope).remove name :=
  congrArg (Scope.mk · _) (Dict.map_erase _ _ _)

@[simp, grind =]
theorem pop_scope : insertion.scope (scope.pop name) = (insertion.scope scope).pop name := by
  unfold Scope.pop
  rw [stack?_scope]
  rcases scope.stack? name with _ | _ | ⟨head, _ | ⟨next, rest⟩⟩
  · rfl
  · exact remove_scope scope name
  · exact remove_scope scope name
  · exact congrArg (Scope.mk · _) (Dict.map_insert _ _ _ _)

theorem pushAll_scope (named : List (String × Value)) : insertion.scope (scope.pushAll named) =
    (insertion.scope scope).pushAll (renumber insertion named) := by
  induction named generalizing scope with
  | nil => rfl
  | cons entry rest inductionHypothesis =>
      exact (inductionHypothesis _).trans (congrArg (Scope.pushAll · _) (push_scope scope _ _))

theorem foldl_scope {change : Scope → String → Scope}
    (same : ∀ scope name, insertion.scope (change scope name) =
      change (insertion.scope scope) name) (names : List String) :
    insertion.scope (names.foldl change scope) = names.foldl change (insertion.scope scope) := by
  induction names generalizing scope with
  | nil => rfl
  | cons name rest inductionHypothesis =>
      exact (inductionHypothesis _).trans (congrArg (rest.foldl change) (same scope name))

theorem popAll_scope (names : List String) : insertion.scope (scope.popAll names) =
    (insertion.scope scope).popAll names :=
  foldl_scope scope pop_scope names.reverse

@[simp, grind =]
theorem names_scope : (insertion.scope scope).names = scope.names := by
  have same : (scope.bindings.filter fun _ values => !values.isEmpty).map
        (List.map insertion.value) =
      (scope.bindings.map (List.map insertion.value)).filter fun _ values => !values.isEmpty :=
    Dict.map_filter _ (fun _ values => by cases values <;> rfl) _
  exact (congrArg Dict.keys same.symm).trans (Dict.keys_map _ _)

@[simp, grind =]
theorem child_scope (closure : Bindings) : insertion.scope (scope.child closure) =
    (insertion.scope scope).child (insertion.bindings closure) :=
  congrArg (Scope.mk · _) (Dict.map_overlay _ _ _)

theorem define_scope (definition : Syntax.Definition) (implementation : Implementation) :
    (insertion.scope scope).define definition (insertion.implementation implementation) =
      (scope.define definition implementation).map insertion.scope := by
  unfold Scope.define OperatorTable.define
  show Except.map _ (Except.map _ (scope.operators.levels.define definition)) = _
  cases scope.operators.levels.define definition with
  | error error => rfl
  | ok levels =>
      show Except.ok _ = Except.ok _
      congr 2
      exact congrArg (OperatorTable.mk levels · _) (Dict.map_insert _ _ _ _).symm

end Scopes

end Insertion

end Fixity
