import Fixity.Native.Call
import Fixity.Proofs.Shapes

/-!
Contract: heaps with further cells among the others.

Owns:
- `Gap`, cells that take the handles from a given one on, in a row of cells;
- `Relocation`, a gap in each row and a number of calls;
- `Relocates`, the kinds of data that handles can be found in: what becomes of them where there are
  further cells, and whether all their handles have cells;
- `Heap.Closed`, the heaps without dangling handles, and `Relocation.Fits`, those of them that the
  further cells can come into;
- the laws of reading and changing cells and scopes.

Does not own: walks through values, and computations.
-/

namespace Fixity

/-! ## Gaps -/

/-- Cells that take the handles from a given one on. -/
structure Gap (α : Type) where
  start : Nat
  cells : List α

namespace Gap

variable {α β : Type} (gap : Gap α)

/-- The handle of a cell that was there before. -/
def handle (handle : Nat) : Nat :=
  if handle < gap.start then handle else handle + gap.cells.length

/-- The cells that were there before, with the further ones in their place. -/
def widen (cells : Array α) : Array α :=
  (cells.toList.take gap.start ++ gap.cells ++ cells.toList.drop gap.start).toArray

variable {gap}

theorem handle_of_lt {handle : Nat} (before : handle < gap.start) : gap.handle handle = handle :=
  if_pos before

theorem handle_inj {first second : Nat} :
    gap.handle first = gap.handle second ↔ first = second := by
  unfold Gap.handle
  split <;> split <;> omega

variable (gap) in
/-- A handle is that of a cell that was there before, or that of a further one. -/
theorem handle_cases (handle : Nat) :
    (∃ before, handle = gap.handle before) ∨
      ∃ index, index < gap.cells.length ∧ handle = gap.start + index := by
  by_cases below : handle < gap.start
  · exact .inl ⟨handle, (handle_of_lt below).symm⟩
  · by_cases within : handle < gap.start + gap.cells.length
    · exact .inr ⟨handle - gap.start, by omega, by omega⟩
    · refine .inl ⟨handle - gap.cells.length, ?_⟩
      unfold Gap.handle
      rw [if_neg (by omega)]
      omega

section Widened

variable {cells : Array α} (fits : gap.start ≤ cells.size)
include fits

theorem size_widen : (gap.widen cells).size = cells.size + gap.cells.length := by
  unfold Gap.widen
  simp
  omega

theorem handle_size : gap.handle cells.size = (gap.widen cells).size := by
  rw [size_widen fits, Gap.handle, if_neg (by omega)]

theorem getElem?_widen (handle : Nat) :
    (gap.widen cells)[gap.handle handle]? = cells[handle]? := by
  unfold Gap.handle Gap.widen
  rw [List.getElem?_toArray]
  split
  · next below =>
    rw [List.append_assoc, List.getElem?_append_left (by simp; omega),
      List.getElem?_take_of_lt below]
    simp
  · next above =>
    rw [List.getElem?_append_right (by simp; omega), List.getElem?_drop]
    simp
    congr 1
    omega

/-- The further cells are found under the handles from the start on. -/
theorem getElem?_further {index : Nat} (within : index < gap.cells.length) :
    (gap.widen cells)[gap.start + index]? = gap.cells[index]? := by
  have taken : (cells.toList.take gap.start).length = gap.start := List.length_take_of_le fits
  rw [Gap.widen, List.getElem?_toArray, List.append_assoc, List.getElem?_append_right (by omega),
    taken, Nat.add_sub_cancel_left, List.getElem?_append_left within]

theorem getD_widen (handle : Nat) (absent : α) :
    (gap.widen cells).getD (gap.handle handle) absent = cells.getD handle absent := by
  rw [Array.getD_eq_getD_getElem?, Array.getD_eq_getD_getElem?, getElem?_widen fits]

theorem widen_push (cell : α) : gap.widen (cells.push cell) = (gap.widen cells).push cell := by
  unfold Gap.widen
  rw [Array.toList_push, List.take_append_of_le_length (by simpa using fits),
    List.drop_append_of_le_length (by simpa using fits), ← List.append_assoc, ← List.push_toArray]

theorem widen_modify (handle : Nat) (change : α → α) :
    gap.widen (cells.modify handle change) =
      (gap.widen cells).modify (gap.handle handle) change := by
  have fits' : gap.start ≤ (cells.modify handle change).size := by
    rwa [Array.size_modify]
  refine Array.ext_getElem? fun other => ?_
  rw [Array.getElem?_modify]
  obtain ⟨before, rfl⟩ | ⟨index, within, rfl⟩ := gap.handle_cases other
  · rw [getElem?_widen fits', Array.getElem?_modify, getElem?_widen fits]
    simp only [handle_inj]
  · rw [getElem?_further fits' within, getElem?_further fits within, if_neg]
    unfold Gap.handle
    split <;> omega

end Widened

/-! ### Cells whose contents are renamed -/

section Renamed

variable {cells : Array α} {gap : Gap β} {rename : α → β} (fits : gap.start ≤ cells.size)
include fits

theorem getD_renamed (handle : Nat) (absent : α) :
    (gap.widen (cells.map rename)).getD (gap.handle handle) (rename absent) =
      rename (cells.getD handle absent) := by
  rw [getD_widen (by simpa using fits)]
  simp only [Array.getD_eq_getD_getElem?, Array.getElem?_map]
  cases cells[handle]? <;> rfl

theorem renamed_push (cell : α) :
    gap.widen ((cells.push cell).map rename) =
      (gap.widen (cells.map rename)).push (rename cell) := by
  rw [Array.map_push, widen_push (by simpa using fits)]

theorem handle_size_renamed : gap.handle cells.size = (gap.widen (cells.map rename)).size := by
  rw [← handle_size (by simpa using fits), Array.size_map]

theorem renamed_modify {handle : Nat} {change : α → α} {change' : β → β}
    (same : ∀ cell, rename (change cell) = change' (rename cell)) :
    gap.widen ((cells.modify handle change).map rename) =
      (gap.widen (cells.map rename)).modify (gap.handle handle) change' := by
  rw [← widen_modify (by simpa using fits)]
  congr 1
  refine Array.ext_getElem? fun other => ?_
  rw [Array.getElem?_map, Array.getElem?_modify, Array.getElem?_modify, Array.getElem?_map]
  split
  · cases cells[other]? with
    | none => rfl
    | some cell => exact congrArg some (same cell)
  · rfl

end Renamed

/-- Behind all others, the further cells come last. -/
theorem widen_of_behind {cells : Array α} (behind : cells.size = gap.start) :
    gap.widen cells = cells ++ gap.cells.toArray := by
  unfold Gap.widen
  rw [List.take_of_length_le (by simp [behind]), List.drop_of_length_le (by simp [behind])]
  simp

end Gap

/-! ## Relocations -/

/-- How many cells of each kind there are. -/
structure Extent where
  texts : Nat
  lists : Nat
  objects : Nat
  functions : Nat
  builtins : Nat
  nodes : Nat

namespace Extent

/-- There are no fewer cells of any kind. -/
structure Le (fewer more : Extent) : Prop where
  texts : fewer.texts ≤ more.texts
  lists : fewer.lists ≤ more.lists
  objects : fewer.objects ≤ more.objects
  functions : fewer.functions ≤ more.functions
  builtins : fewer.builtins ≤ more.builtins
  nodes : fewer.nodes ≤ more.nodes

instance : LE Extent := ⟨Le⟩

theorem Le.refl (extent : Extent) : extent ≤ extent :=
  ⟨Nat.le_refl _, Nat.le_refl _, Nat.le_refl _, Nat.le_refl _, Nat.le_refl _, Nat.le_refl _⟩

theorem Le.trans {first second third : Extent} (earlier : first ≤ second)
    (later : second ≤ third) : first ≤ third where
  texts := Nat.le_trans earlier.texts later.texts
  lists := Nat.le_trans earlier.lists later.lists
  objects := Nat.le_trans earlier.objects later.objects
  functions := Nat.le_trans earlier.functions later.functions
  builtins := Nat.le_trans earlier.builtins later.builtins
  nodes := Nat.le_trans earlier.nodes later.nodes

end Extent

def Heap.extent (heap : Heap) : Extent :=
  ⟨heap.texts.size, heap.lists.size, heap.objects.size, heap.functions.size, heap.builtins.size,
    heap.nodes.size⟩

/-- No cell is lost. -/
abbrev Heap.Within (earlier later : Heap) : Prop := earlier.extent ≤ later.extent

theorem Heap.Within.trans {first second third : Heap} (earlier : first.Within second)
    (later : second.Within third) : first.Within third :=
  Extent.Le.trans earlier later

theorem Heap.Grows.within {earlier later : Heap} (grows : earlier.Grows later) :
    earlier.Within later where
  texts := grows.texts.length_le
  lists := grows.lists.length_le
  objects := grows.objects.length_le
  functions := grows.functions.length_le
  builtins := grows.builtins.length_le
  nodes := grows.nodes.length_le

/-- Cells of each kind that take the handles from given ones on, and calls that are under way
besides. -/
structure Relocation where
  texts : Gap String
  lists : Gap (Array Value)
  objects : Gap (Dict Value)
  functions : Gap Function
  builtins : Gap Builtin
  nodes : Gap Node
  calls : Nat

/-- The first handles that further cells take. -/
def Relocation.start (r : Relocation) : Extent :=
  ⟨r.texts.start, r.lists.start, r.objects.start, r.functions.start, r.builtins.start,
    r.nodes.start⟩

/-- A kind of data in which handles can be found. -/
class Relocates (α : Type) where
  /-- The same data with the handles that their cells have among the further ones. -/
  relocate : Relocation → α → α
  /-- Every handle has a cell. -/
  Held : Heap → α → Prop
  later : ∀ {heap heap' : Heap} {content : α}, heap.Within heap' → Held heap content →
    Held heap' content
  unmoved : ∀ {r : Relocation} {heap : Heap} {content : α}, heap.extent ≤ r.start →
    Held heap content → relocate r content = content

export Relocates (relocate Held)

namespace Relocates

/-- Most data hold no handles. -/
instance (priority := low) plain {α : Type} : Relocates α where
  relocate _ content := content
  Held _ _ := True
  later _ _ := trivial
  unmoved _ _ := rfl

instance : Relocates Value where
  relocate r
    | .number content => .number content
    | .text handle => .text (r.texts.handle handle)
    | .list handle => .list (r.lists.handle handle)
    | .object handle => .object (r.objects.handle handle)
    | .function handle => .function (r.functions.handle handle)
    | .builtin handle => .builtin (r.builtins.handle handle)
    | .node handle => .node (r.nodes.handle handle)
  Held := Heap.Holds
  later := by
    intro heap heap' value within held
    cases value with
    | number content => trivial
    | text handle => exact Nat.lt_of_lt_of_le held within.texts
    | list handle => exact Nat.lt_of_lt_of_le held within.lists
    | object handle => exact Nat.lt_of_lt_of_le held within.objects
    | function handle => exact Nat.lt_of_lt_of_le held within.functions
    | builtin handle => exact Nat.lt_of_lt_of_le held within.builtins
    | node handle => exact Nat.lt_of_lt_of_le held within.nodes
  unmoved := by
    intro r heap value behind held
    cases value with
    | number content => rfl
    | text handle =>
        exact congrArg Value.text (Gap.handle_of_lt (Nat.lt_of_lt_of_le held behind.texts))
    | list handle =>
        exact congrArg Value.list (Gap.handle_of_lt (Nat.lt_of_lt_of_le held behind.lists))
    | object handle =>
        exact congrArg Value.object (Gap.handle_of_lt (Nat.lt_of_lt_of_le held behind.objects))
    | function handle =>
        exact congrArg Value.function
          (Gap.handle_of_lt (Nat.lt_of_lt_of_le held behind.functions))
    | builtin handle =>
        exact congrArg Value.builtin (Gap.handle_of_lt (Nat.lt_of_lt_of_le held behind.builtins))
    | node handle =>
        exact congrArg Value.node (Gap.handle_of_lt (Nat.lt_of_lt_of_le held behind.nodes))

section Rows

variable {α β : Type} [Relocates α] [Relocates β]

instance instList : Relocates (List α) where
  relocate r items := items.map (relocate r)
  Held heap items := ∀ item ∈ items, Held heap item
  later within held item member := later within (held item member)
  unmoved behind held :=
    (List.map_congr_left fun item member => unmoved behind (held item member)).trans
      (List.map_id' _)

instance instArray : Relocates (Array α) where
  relocate r items := items.map (relocate r)
  Held heap items := ∀ item ∈ items, Held heap item
  later within held item member := later within (held item member)
  unmoved behind held :=
    (Array.map_congr_left fun item member => unmoved behind (held item member)).trans
      (Array.map_id' _)

instance instOption : Relocates (Option α) where
  relocate r item := item.map (relocate r)
  Held heap item := ∀ content, item = some content → Held heap content
  later within held content same := later within (held content same)
  unmoved := by
    intro r heap item behind held
    cases item with
    | none => rfl
    | some content => exact congrArg some (unmoved behind (held content rfl))

instance instProd : Relocates (α × β) where
  relocate r pair := (relocate r pair.1, relocate r pair.2)
  Held heap pair := Held heap pair.1 ∧ Held heap pair.2
  later within held := ⟨later within held.1, later within held.2⟩
  unmoved behind held := Prod.ext (unmoved behind held.1) (unmoved behind held.2)

instance instDict : Relocates (Dict α) where
  relocate r dict := dict.map (relocate r)
  Held heap dict := ∀ key content, dict.get? key = some content → Held heap content
  later within held key content found := later within (held key content found)
  unmoved := by
    intro r heap dict behind held
    refine Dict.ext_get? fun key => ?_
    rw [Dict.get?_map]
    cases found : dict.get? key with
    | none => rfl
    | some content => exact congrArg some (unmoved behind (held key content found))

end Rows

instance : Relocates Function where
  relocate r content := { content with closure := relocate r content.closure }
  Held heap content := Held heap content.closure
  later within held := later (α := Bindings) within held
  unmoved behind held := by
    rw [unmoved behind held]

instance : Relocates Action where
  relocate r
    | .supply callee fixed => .supply (relocate r callee) (relocate r fixed)
    | other => other
  Held heap
    | .supply callee fixed => Held heap callee ∧ Held heap fixed
    | _ => True
  later := by
    intro heap heap' action within held
    cases action with
    | supply callee fixed => exact ⟨later within held.1, later within held.2⟩
    | _ => trivial
  unmoved := by
    intro r heap action behind held
    cases action with
    | supply callee fixed =>
        exact congr (congrArg Action.supply (unmoved behind held.1)) (unmoved behind held.2)
    | _ => rfl

instance : Relocates Builtin where
  relocate r content := { content with action := relocate r content.action }
  Held heap content := Held heap content.action
  later within held := later (α := Action) within held
  unmoved behind held := by
    rw [unmoved behind held]

instance : Relocates Implementation where
  relocate r content := { content with function := relocate r content.function }
  Held heap content := Held heap content.function
  later within held := later (α := Value) within held
  unmoved behind held := by
    rw [unmoved behind held]

instance : Relocates Scope where
  relocate r scope :=
    ⟨relocate r scope.bindings,
      { scope.operators with implementations := relocate r scope.operators.implementations }⟩
  Held heap scope := Held heap scope.bindings ∧ Held heap scope.operators.implementations
  later within held := ⟨later within held.1, later within held.2⟩
  unmoved behind held := by
    rw [unmoved behind held.1, unmoved behind held.2]

end Relocates

theorem Heap.Holds.later {heap later : Heap} {value : Value} (held : heap.Holds value)
    (within : heap.Within later) : later.Holds value :=
  Relocates.later (α := Value) within held

/-- No handle in a cell dangles. -/
structure Heap.Closed (heap : Heap) : Prop where
  lists : Held heap heap.lists
  objects : Held heap heap.objects
  functions : Held heap heap.functions
  builtins : Held heap heap.builtins

namespace Relocation

variable (r : Relocation)

/-- The cells that were there before, with the further ones among them. -/
def heap (heap : Heap) : Heap where
  texts := r.texts.widen heap.texts
  lists := r.lists.widen (heap.lists.map (relocate r))
  objects := r.objects.widen (heap.objects.map (relocate r))
  functions := r.functions.widen (heap.functions.map (relocate r))
  builtins := r.builtins.widen (heap.builtins.map (relocate r))
  nodes := r.nodes.widen heap.nodes

def state (state : State) : State where
  heap := r.heap state.heap
  scope := relocate r state.scope
  outer := relocate r state.outer
  depth := state.depth + r.calls
  nextName := state.nextName
  effects := state.effects

/-- The further cells can come among those of a heap, in which no handle dangles. -/
structure Fits (r : Relocation) (heap : Heap) : Prop where
  closed : heap.Closed
  starts : r.start ≤ heap.extent

/-- The further cells can come among those of a state without dangling handles. -/
structure Suits (r : Relocation) (state : State) : Prop where
  fits : r.Fits state.heap
  scope : Held state.heap state.scope
  outer : Held state.heap state.outer

end Relocation

namespace Relocation

variable {r : Relocation}

/-! ## Values -/

section Values

variable (r)

@[simp, grind =]
theorem relocate_number (content : Number) :
    relocate r (.number content : Value) = .number content := rfl

@[simp, grind =]
theorem relocate_text (handle : Nat) :
    relocate r (.text handle : Value) = .text (r.texts.handle handle) := rfl

@[simp, grind =]
theorem relocate_list (handle : Nat) :
    relocate r (.list handle : Value) = .list (r.lists.handle handle) := rfl

@[simp, grind =]
theorem relocate_object (handle : Nat) :
    relocate r (.object handle : Value) = .object (r.objects.handle handle) := rfl

@[simp, grind =]
theorem relocate_function (handle : Nat) :
    relocate r (.function handle : Value) = .function (r.functions.handle handle) := rfl

@[simp, grind =]
theorem relocate_builtin (handle : Nat) :
    relocate r (.builtin handle : Value) = .builtin (r.builtins.handle handle) := rfl

@[simp, grind =]
theorem relocate_node (handle : Nat) :
    relocate r (.node handle : Value) = .node (r.nodes.handle handle) := rfl

@[simp, grind =]
theorem relocate_zero : relocate r Value.zero = .zero := rfl

@[simp, grind =]
theorem relocate_ofBool (truth : Bool) : relocate r (Value.ofBool truth) = .ofBool truth := rfl

@[simp, grind =]
theorem relocate_ofReal (real : Float) : relocate r (Value.ofReal real) = .ofReal real := rfl

@[simp, grind =]
theorem relocate_ofNat (count : Nat) : relocate r (Value.ofNat count) = .ofNat count := rfl

variable (value : Value)

@[simp, grind =]
theorem typeName_relocate : (relocate r value).typeName = value.typeName := by
  cases value <;> rfl

@[simp, grind =]
theorem isTruthy_relocate : (relocate r value).isTruthy = value.isTruthy := by
  cases value <;> rfl

@[simp, grind =]
theorem isCallable_relocate : (relocate r value).isCallable = value.isCallable := by
  cases value <;> rfl

@[simp, grind =]
theorem text?_relocate : (relocate r value).text? = value.text?.map r.texts.handle := by
  cases value <;> rfl

@[simp, grind =]
theorem list?_relocate : (relocate r value).list? = value.list?.map r.lists.handle := by
  cases value <;> rfl

@[simp, grind =]
theorem mismatch_relocate (role expected : String) :
    (relocate r value).mismatch role expected = value.mismatch role expected := by
  cases value <;> rfl

@[simp, grind =]
theorem asNumber_relocate (role : String) :
    (relocate r value).asNumber role = value.asNumber role := by
  cases value <;> rfl

@[simp, grind =]
theorem asReal_relocate (role : String) :
    (relocate r value).asReal role = value.asReal role := by
  cases value <;> rfl

@[simp, grind =]
theorem asCount_relocate (role : String) :
    (relocate r value).asCount role = value.asCount role := by
  cases value <;> rfl

end Values

/-! ## Rows -/

section Rows

variable {α β : Type} [Relocates α] [Relocates β] {heap : Heap}

@[simp, grind =]
theorem relocate_items (r : Relocation) (items : List α) :
    relocate r items = items.map (relocate r) := rfl

@[simp, grind =]
theorem relocate_array (r : Relocation) (items : Array α) :
    relocate r items = items.map (relocate r) := rfl

@[simp, grind =]
theorem relocate_dict (r : Relocation) (dict : Dict α) :
    relocate r dict = dict.map (relocate r) := rfl

@[simp, grind =]
theorem relocate_pair (r : Relocation) (first : α) (second : β) :
    relocate r (first, second) = (relocate r first, relocate r second) := rfl

@[simp, grind =]
theorem relocate_plain {α : Type} (r : Relocation) (content : α) :
    @relocate α .plain r content = content := rfl

@[simp]
theorem map_plain {α : Type} (r : Relocation) (items : List α) :
    items.map (@relocate α .plain r) = items := List.map_id' items

theorem held_getD {cells : Array α} (held : Held heap cells) {absent : α}
    (heldToo : Held heap absent) (handle : Nat) : Held heap (cells.getD handle absent) := by
  rw [Array.getD_eq_getD_getElem?]
  cases found : cells[handle]? with
  | none => exact heldToo
  | some cell => exact held cell (Array.mem_of_getElem? found)

theorem held_push {cells : Array α} {cell : α} (held : Held heap cells)
    (heldToo : Held heap cell) : Held heap (cells.push cell) := by
  intro other member
  obtain before | rfl := Array.mem_push.mp member
  · exact held other before
  · exact heldToo

theorem held_modify {cells : Array α} {handle : Nat} {change : α → α} (held : Held heap cells)
    (keeps : ∀ cell, Held heap cell → Held heap (change cell)) :
    Held heap (cells.modify handle change) := by
  intro other member
  obtain ⟨index, found⟩ := Array.getElem?_of_mem member
  rw [Array.getElem?_modify] at found
  split at found
  · obtain ⟨cell, before, rfl⟩ := Option.map_eq_some_iff.mp found
    exact keeps cell (held cell (Array.mem_of_getElem? before))
  · exact held other (Array.mem_of_getElem? found)

theorem held_append {items others : List α} (held : Held heap items)
    (heldToo : Held heap others) : Held heap (items ++ others) := by
  intro item member
  obtain here | there := List.mem_append.mp member
  · exact held item here
  · exact heldToo item there

theorem held_cons {item : α} {items : List α} (held : Held heap item)
    (heldToo : Held heap items) : Held heap (item :: items) :=
  List.forall_mem_cons.mpr ⟨held, heldToo⟩

section Dicts

variable {dict other : Dict α} {key : String} {content : α}

theorem held_insert (held : Held heap dict) (heldToo : Held heap content) :
    Held heap (dict.insert key content) := by
  intro key' content' found
  rw [Dict.get?_insert] at found
  split at found
  · cases found
    exact heldToo
  · exact held key' content' found

theorem held_erase (held : Held heap dict) : Held heap (dict.erase key) := by
  intro key' content' found
  rw [Dict.get?_erase] at found
  split at found
  · cases found
  · exact held key' content' found

theorem held_overlay (held : Held heap dict) (heldToo : Held heap other) :
    Held heap (dict.overlay other) := by
  intro key' content' found
  rw [Dict.get?_overlay] at found
  obtain above | ⟨_, below⟩ := Option.or_eq_some_iff.mp found
  · exact held key' content' above
  · exact heldToo key' content' below

theorem held_values (held : Held heap dict) : Held heap dict.values := by
  intro content member
  obtain ⟨⟨key, _⟩, inDict, rfl⟩ := List.mem_map.mp member
  exact held key _ ((Dict.get?_eq_some_iff dict).mpr inDict)

theorem held_ofList {pairs : List (String × α)} (held : Held heap pairs) :
    Held heap (Dict.ofList pairs) := by
  have goesOn (pairs : List (String × α)) (held : Held heap pairs) (dict : Dict α)
      (before : Held heap dict) :
      Held heap (pairs.foldl (fun dict pair => dict.insert pair.1 pair.2) dict) := by
    induction pairs generalizing dict with
    | nil => exact before
    | cons pair rest inductionHypothesis =>
        obtain ⟨first, others⟩ := List.forall_mem_cons.mp held
        exact inductionHypothesis others _ (held_insert before first.2)
  exact goesOn pairs held ∅ fun key content found => by cases found

end Dicts

end Rows

/-! ## Scopes -/

section Scopes

variable (r) (scope : Scope) (name : String)

@[simp, grind =]
theorem stack?_relocate : (relocate r scope).stack? name = relocate r (scope.stack? name) :=
  Dict.get?_map _ _ _

@[simp, grind =]
theorem lookup?_relocate : (relocate r scope).lookup? name = relocate r (scope.lookup? name) := by
  unfold Scope.lookup?
  rw [stack?_relocate]
  rcases scope.stack? name with _ | _ | ⟨head, rest⟩ <;> rfl

@[simp, grind =]
theorem isBound_relocate : (relocate r scope).isBound name = scope.isBound name := by
  unfold Scope.isBound
  rw [lookup?_relocate]
  exact Option.isSome_map

theorem update_relocate {change change' : List Value → List Value}
    (same : ∀ values, relocate r (change values) = change' (relocate r values)) :
    relocate r (scope.update name change) = (relocate r scope).update name change' := by
  have stack : ((relocate r scope).stack? name).getD [] =
      relocate r ((scope.stack? name).getD []) := by
    rw [stack?_relocate]
    cases scope.stack? name <;> rfl
  unfold Scope.update
  rw [stack, ← same]
  exact congrArg (Scope.mk · _) (Dict.map_insert _ _ _ _)

theorem bind_relocate (value : Value) :
    relocate r (scope.bind name value) = (relocate r scope).bind name (relocate r value) :=
  update_relocate r scope name fun values => by cases values <;> rfl

theorem push_relocate (value : Value) :
    relocate r (scope.push name value) = (relocate r scope).push name (relocate r value) :=
  update_relocate r scope name fun _ => rfl

theorem remove_relocate : relocate r (scope.remove name) = (relocate r scope).remove name :=
  congrArg (Scope.mk · _) (Dict.map_erase _ _ _)

theorem pop_relocate : relocate r (scope.pop name) = (relocate r scope).pop name := by
  unfold Scope.pop
  rw [stack?_relocate]
  rcases scope.stack? name with _ | _ | ⟨head, _ | ⟨next, rest⟩⟩
  · rfl
  · exact remove_relocate r scope name
  · exact remove_relocate r scope name
  · exact congrArg (Scope.mk · _) (Dict.map_insert _ _ _ _)

theorem pushAll_relocate (named : List (String × Value)) :
    relocate r (scope.pushAll named) = (relocate r scope).pushAll (relocate r named) := by
  induction named generalizing scope with
  | nil => rfl
  | cons entry rest inductionHypothesis =>
      exact (inductionHypothesis _).trans
        (congrArg (Scope.pushAll · _) (push_relocate r scope _ _))

theorem foldl_relocate {change : Scope → String → Scope}
    (same : ∀ scope name, relocate r (change scope name) = change (relocate r scope) name)
    (names : List String) :
    relocate r (names.foldl change scope) = names.foldl change (relocate r scope) := by
  induction names generalizing scope with
  | nil => rfl
  | cons name rest inductionHypothesis =>
      exact (inductionHypothesis _).trans (congrArg (rest.foldl change) (same scope name))

theorem popAll_relocate (names : List String) :
    relocate r (scope.popAll names) = (relocate r scope).popAll names :=
  foldl_relocate r scope (pop_relocate r) names.reverse

@[simp, grind =]
theorem names_relocate : (relocate r scope).names = scope.names := by
  have same : (scope.bindings.filter fun _ values => !values.isEmpty).map (relocate r) =
      (scope.bindings.map (relocate r)).filter fun _ values => !values.isEmpty :=
    Dict.map_filter _ (fun _ values => by cases values <;> rfl) _
  exact (congrArg Dict.keys same.symm).trans (Dict.keys_map _ _)

theorem child_relocate (closure : Bindings) :
    relocate r (scope.child closure) = (relocate r scope).child (relocate r closure) :=
  congrArg (Scope.mk · _) (Dict.map_overlay _ _ _)

theorem define_relocate (definition : Syntax.Definition) (implementation : Implementation) :
    (relocate r scope).define definition (relocate r implementation) =
      (scope.define definition implementation).map (relocate r) := by
  unfold Scope.define OperatorTable.define
  show Except.map _ (Except.map _ (scope.operators.levels.define definition)) = _
  cases scope.operators.levels.define definition with
  | error error => rfl
  | ok levels =>
      show Except.ok _ = Except.ok _
      congr 2
      exact congrArg (OperatorTable.mk levels · _) (Dict.map_insert _ _ _ _).symm

variable {heap : Heap} {scope name} (held : Held heap scope)
include held

theorem held_lookup? : Held heap (scope.lookup? name) := by
  intro value found
  obtain ⟨values, stack, top⟩ := Option.bind_eq_some_iff.mp found
  exact held.1 name values stack value (List.mem_of_head? top)

theorem held_update {change : List Value → List Value}
    (keeps : ∀ values, Held heap values → Held heap (change values)) :
    Held heap (scope.update name change) := by
  refine ⟨held_insert held.1 (keeps _ ?_), held.2⟩
  cases stack : scope.stack? name with
  | none => exact fun _ member => by cases member
  | some values => exact held.1 name values stack

theorem held_bind {value : Value} (heldToo : heap.Holds value) :
    Held heap (scope.bind name value) :=
  held_update held fun _ before =>
    held_cons heldToo fun other member => before other (List.mem_of_mem_tail member)

theorem held_push_scope {value : Value} (heldToo : heap.Holds value) :
    Held heap (scope.push name value) :=
  held_update held fun _ before => held_cons heldToo before

theorem held_remove : Held heap (scope.remove name) := ⟨held_erase held.1, held.2⟩

theorem held_pop : Held heap (scope.pop name) := by
  unfold Scope.pop
  split
  · exact held
  · next values stack =>
    split
    · exact held_remove held
    · next hidden below =>
      refine ⟨held_insert held.1 fun value member => ?_, held.2⟩
      exact held.1 name values stack value (List.mem_of_mem_tail member)

theorem held_pushAll {named : List (String × Value)} (heldToo : Held heap named) :
    Held heap (scope.pushAll named) := by
  induction named generalizing scope with
  | nil => exact held
  | cons entry rest inductionHypothesis =>
      obtain ⟨first, others⟩ := List.forall_mem_cons.mp heldToo
      exact inductionHypothesis (held_push_scope held first.2) others

theorem held_foldl {change : Scope → String → Scope}
    (keeps : ∀ {scope} name, Held heap scope → Held heap (change scope name))
    (names : List String) : Held heap (names.foldl change scope) := by
  induction names generalizing scope with
  | nil => exact held
  | cons name rest inductionHypothesis => exact inductionHypothesis (keeps name held)

theorem held_popAll (names : List String) : Held heap (scope.popAll names) :=
  held_foldl held (fun _ before => held_pop before) names.reverse

theorem held_child {closure : Bindings} (heldToo : Held heap closure) :
    Held heap (scope.child closure) := ⟨held_overlay heldToo held.1, held.2⟩

theorem held_define {definition : Syntax.Definition} {implementation : Implementation}
    (heldToo : Held heap implementation) {defined : Scope}
    (defines : scope.define definition implementation = .ok defined) : Held heap defined := by
  unfold Scope.define OperatorTable.define at defines
  cases levels : scope.operators.levels.define definition with
  | error error => rw [levels] at defines; cases defines
  | ok levels' =>
      rw [levels] at defines
      cases defines
      exact ⟨held.1, held_insert held.2 heldToo⟩

end Scopes

/-! ## Cells -/

section Cells

variable {heap : Heap} (starts : r.start ≤ heap.extent) (handle : Nat)

section Reading

include starts

theorem text_heap : (r.heap heap).text (r.texts.handle handle) = heap.text handle :=
  Gap.getD_widen starts.texts handle _

theorem list_heap :
    (r.heap heap).list (r.lists.handle handle) = relocate r (heap.list handle) :=
  (congrArg (Array.getD _ _) (by simp)).trans (Gap.getD_renamed starts.lists handle #[])

theorem object_heap :
    (r.heap heap).object (r.objects.handle handle) = relocate r (heap.object handle) :=
  Gap.getD_renamed starts.objects handle ∅

theorem function_heap :
    (r.heap heap).function (r.functions.handle handle) = relocate r (heap.function handle) :=
  Gap.getD_renamed starts.functions handle ⟨[], .body [], ∅, false, []⟩

theorem builtin_heap :
    (r.heap heap).builtin (r.builtins.handle handle) = relocate r (heap.builtin handle) :=
  Gap.getD_renamed starts.builtins handle ⟨"", .host ""⟩

theorem node_heap : (r.heap heap).node (r.nodes.handle handle) = heap.node handle :=
  Gap.getD_widen starts.nodes handle _

/-- The further containers leave more room for walks. -/
theorem room_le_room_heap : heap.room ≤ (r.heap heap).room := by
  have lists : heap.lists.size ≤ (r.heap heap).lists.size := by
    show _ ≤ (r.lists.widen _).size
    rw [Gap.size_widen (by rw [Array.size_map]; exact starts.lists), Array.size_map]
    exact Nat.le_add_right _ _
  have objects : heap.objects.size ≤ (r.heap heap).objects.size := by
    show _ ≤ (r.objects.widen _).size
    rw [Gap.size_widen (by rw [Array.size_map]; exact starts.objects), Array.size_map]
    exact Nat.le_add_right _ _
  unfold Heap.room Heap.containers
  omega

end Reading

end Cells

end Relocation

namespace Heap.Closed

variable {heap : Heap} (closed : heap.Closed) (handle : Nat)
include closed

theorem list : Held heap (heap.list handle) :=
  Relocation.held_getD closed.lists (fun _ member => absurd member (Array.not_mem_empty _)) handle

theorem elements : Held heap (heap.list handle).toList :=
  fun item member => closed.list handle item (Array.mem_toList_iff.mp member)

theorem object : Held heap (heap.object handle) :=
  Relocation.held_getD closed.objects (fun _ _ found => by cases found) handle

theorem function : Held heap (heap.function handle) :=
  Relocation.held_getD closed.functions (fun _ _ found => by cases found) handle

theorem builtin : Held heap (heap.builtin handle) := by
  have absent : Held heap (⟨"", .host ""⟩ : Builtin) := trivial
  exact Relocation.held_getD closed.builtins absent handle

omit handle in
/-- What no handle dangles in before, none dangles in later. -/
theorem rows {later : Heap} (within : heap.Within later) :
    Held later heap.lists ∧ Held later heap.objects ∧ Held later heap.functions ∧
      Held later heap.builtins :=
  ⟨Relocates.later within closed.lists, Relocates.later within closed.objects,
    Relocates.later within closed.functions, Relocates.later within closed.builtins⟩

/-- All that a value leads to has a cell. -/
theorem reached {value inner : Value} (held : heap.Holds value)
    (reaches : heap.Reaches value inner) : heap.Holds inner := by
  obtain ⟨position, found⟩ := reaches
  refine Heap.at?_of_closed (fun outer _ child member => ?_) held found
  cases outer with
  | list handle => exact closed.list handle child (Array.mem_toList_iff.mp member)
  | object handle => exact Relocation.held_values (closed.object handle) child member
  | _ => cases member

end Heap.Closed

end Fixity
