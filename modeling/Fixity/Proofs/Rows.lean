import Fixity.Native.Call
import Fixity.Proofs.Copies
import Fixity.Proofs.Integers
import Fixity.Proofs.Refusals

/-!
Contract: slicing and splicing, one operation for all containers that are rows.

Owns:
- `RowKind` and `Heap.IsRow`: lists, texts, and the trees with children, each with the row it is;
- `Heap.Inserts`, what an argument puts into a row of each kind;
- bounds, which count from the end if negative and stay inside the row;
- slices as new rows, splices as changes of one row.

Main statement: a slice is the part between its bounds, the slices at a cut make up the row, and a
splice puts rows in place of what it removes, also where they come out of the row itself.

Does not own: what makes an argument fit to be placed in a tree.
-/

namespace Fixity

/-- The containers that are rows, by what they are rows of. -/
inductive RowKind : Type → Type
  | list : RowKind Value
  | text : RowKind Char
  | listTree : RowKind Node
  | bodyTree : RowKind Node

/-- The kind of what a splice removes: parts of a body are no body. -/
def RowKind.removed {α : Type} : RowKind α → RowKind α
  | .bodyTree => .listTree
  | kind => kind

namespace Heap

/-- A container with a cell, and the row it is. -/
inductive IsRow (heap : Heap) : {α : Type} → RowKind α → Value → List α → Prop
  | list {handle : Nat} {items : Array Value} (cell : heap.lists[handle]? = some items) :
      IsRow heap .list (.list handle) items.toList
  | text {handle : Nat} {content : String} (cell : heap.texts[handle]? = some content) :
      IsRow heap .text (.text handle) content.toList
  | listTree {handle : Nat} {elements : List Node}
      (cell : heap.nodes[handle]? = some (.list elements)) :
      IsRow heap .listTree (.node handle) elements
  | bodyTree {handle : Nat} {statements : List Node}
      (cell : heap.nodes[handle]? = some (.body statements)) :
      IsRow heap .bodyTree (.node handle) statements

/-- What an argument puts into a row: itself, the characters of a text, or its tree. -/
def Inserts (heap : Heap) {α : Type} : RowKind α → Value → List α → Prop
  | .list, value, part => part = [value]
  | .text, value, part => ∃ handle, value = .text handle ∧ part = (heap.text handle).toList
  | .listTree, value, part => ∃ tree, heap.lift value = .ok tree ∧ part = [tree]
  | .bodyTree, value, part => ∃ tree, heap.lift value = .ok tree ∧ part = [tree]

variable {heap heap' : Heap} {α : Type} {kind : RowKind α} {container : Value} {entries : List α}

theorem IsRow.ofArray {handle : Nat} {items : List Value}
    (cell : heap.lists[handle]? = some items.toArray) :
    heap.IsRow .list (.list handle) items :=
  .list cell

theorem IsRow.ofList {handle : Nat} {characters : List Char}
    (cell : heap.texts[handle]? = some (String.ofList characters)) :
    heap.IsRow .text (.text handle) characters := by
  have row : heap.IsRow .text (.text handle) (String.ofList characters).toList := .text cell
  rwa [String.toList_ofList] at row

theorem getElem?_of_prefixed {β : Type} {cells cells' : Array β} {handle : Nat} {cell : β}
    (grows : cells.toList <+: cells'.toList) (found : cells[handle]? = some cell) :
    cells'[handle]? = some cell := by
  obtain ⟨more, whole⟩ := grows
  rw [← Array.getElem?_toList] at found ⊢
  rw [← whole, List.getElem?_append_left (List.getElem?_eq_some_iff.mp found).1, found]

/-- A row stays as it is while cells are added. -/
theorem Grows.isRow (grows : heap.Grows heap') (row : heap.IsRow kind container entries) :
    heap'.IsRow kind container entries := by
  cases row with
  | list cell => exact .list (getElem?_of_prefixed grows.lists cell)
  | text cell => exact .text (getElem?_of_prefixed grows.texts cell)
  | listTree cell => exact .listTree (getElem?_of_prefixed grows.nodes cell)
  | bodyTree cell => exact .bodyTree (getElem?_of_prefixed grows.nodes cell)

end Heap

/-! ## Bounds -/

/-- A position that counts from the end if it is negative, limited to the row. -/
def Collection.limited (position : Int) (length : Nat) : Nat :=
  (max 0 (min (if position < 0 then length + position else position) length)).toNat

/-- A value that stands for an integer of safe size. -/
def Value.IsSafeInteger (value : Value) (whole : Int) : Prop :=
  value.IsInteger whole ∧ |whole| < 2 ^ 53

theorem Number.isReal_ofReal (real : Float) : (Number.ofReal real).isReal := by
  show (0.0 == 0.0 : Bool)
  decide +kernel

theorem Value.IsSafeInteger.of_read {real : Float} {number : Binary} {whole : Int}
    (reads : Binary.read real = .finite number) (stands : number.value = whole)
    (safe : |whole| < 2 ^ 53) : (Value.ofReal real).IsSafeInteger whole :=
  ⟨⟨_, rfl, Number.isReal_ofReal real, number, reads, stands⟩, safe⟩

namespace Collection

variable {value start : Value} {whole first : Int} {stop : Option Value} {last : Option Int}

theorem limited_le (position : Int) (length : Nat) : limited position length ≤ length := by
  unfold limited
  omega

theorem limited_zero (length : Nat) : limited 0 length = 0 := by
  unfold limited
  simp

theorem clamp_eq_limited (position : Int) (length : Nat) :
    clamp position length = limited position length := by
  unfold clamp limited
  split <;> omega

theorem boundOf_eq (isInteger : value.IsSafeInteger whole) (length : Nat) (role : String) :
    boundOf value length role = .ok (limited whole length) := by
  obtain ⟨real, isReal, stands⟩ := isInteger.1.asReal role
  unfold boundOf
  rw [isReal]
  show (Double.toInteger real role >>= _) = _
  rw [stands.toInteger isInteger.2, ← clamp_eq_limited]
  rfl

/-- Where a slice ends: at the end of the row if no bound is given. -/
def stopOf (last : Option Int) (length : Nat) : Nat :=
  last.elim length fun position => limited position length

theorem sliceBounds_eq (starts : start.IsSafeInteger first)
    (stops : Option.Rel Value.IsSafeInteger stop last) (length : Nat) :
    sliceBounds start stop length =
      .ok (limited first length, max (limited first length) (stopOf last length)) := by
  unfold sliceBounds
  rw [boundOf_eq starts]
  cases stops with
  | none => rfl
  | some stops =>
      show (boundOf _ length _ >>= _) = _
      rw [boundOf_eq stops]
      rfl

theorem spliceBounds_eq (starts : start.IsSafeInteger first) (count length : Nat) :
    spliceBounds start count length =
      .ok (limited first length, min (limited first length + count) length) := by
  unfold spliceBounds
  rw [boundOf_eq starts]
  rfl

/-! ## Parts -/

theorem between_eq_extract {α : Type} (start stop : Nat) (items : List α) :
    between start stop items = items.extract start stop := by
  unfold between
  rw [List.extract_eq_take_drop, List.drop_take]

/-- A row is what stands in front of a part, the part, and what stands behind it. -/
theorem eq_append_between {α : Type} {start stop : Nat} (ordered : start ≤ stop)
    (items : List α) :
    items = items.take start ++ between start stop items ++ items.drop stop := by
  have front : items.take start = (items.take stop).take start := by
    rw [List.take_take, min_eq_left ordered]
  unfold between
  rw [front, List.take_append_drop, List.take_append_drop]

/-- A part in a row of a length is as long as its bounds are apart. -/
theorem length_between {α : Type} {start stop : Nat} {items : List α}
    (inside : stop ≤ items.length) : (between start stop items).length = stop - start := by
  unfold between
  rw [List.length_drop, List.length_take, min_eq_left inside]

end Collection

/-! ## Slices -/

namespace OnHeap

variable {heap : Heap} {α : Type} {kind : RowKind α} {container start : Value} {entries : List α}
  {first : Int} {stop : Option Value} {last : Option Int}

/-- A computation on a heap answers a new row and keeps all cells. -/
structure Makes (action : OnHeap Value) (heap : Heap) (kind : RowKind α) (entries : List α)
    (heap' : Heap) (row : Value) : Prop where
  runs : action heap = .ok row heap'
  isRow : heap'.IsRow kind row entries
  fresh : ¬ heap.Holds row
  grows : heap.Grows heap'

theorem makes_list (heap : Heap) (items : List Value) :
    Makes (newListOf items) heap .list items
      { heap with lists := heap.lists.push items.toArray } (.list heap.lists.size) where
  runs := rfl
  isRow := .list (by simp)
  fresh := lt_irrefl heap.lists.size
  grows := .push_list heap _

theorem makes_text (heap : Heap) (characters : List Char) :
    Makes (newText (String.ofList characters)) heap .text characters
      { heap with texts := heap.texts.push (String.ofList characters) }
      (.text heap.texts.size) where
  runs := rfl
  isRow := .ofList (by simp)
  fresh := lt_irrefl heap.texts.size
  grows := .push_text heap _

theorem makes_listTree (heap : Heap) (elements : List Node) :
    Makes (newNode (.list elements)) heap .listTree elements
      { heap with nodes := heap.nodes.push (.list elements) } (.node heap.nodes.size) where
  runs := rfl
  isRow := .listTree (by simp)
  fresh := lt_irrefl heap.nodes.size
  grows := .push_node heap _

theorem makes_bodyTree (heap : Heap) (statements : List Node) :
    Makes (newNode (.body statements)) heap .bodyTree statements
      { heap with nodes := heap.nodes.push (.body statements) } (.node heap.nodes.size) where
  runs := rfl
  isRow := .bodyTree (by simp)
  fresh := lt_irrefl heap.nodes.size
  grows := .push_node heap _

theorem getD_of_getElem? {β : Type} {cells : Array β} {handle : Nat} {cell : β}
    (found : cells[handle]? = some cell) (absent : β) : cells.getD handle absent = cell := by
  rw [Array.getD_eq_getD_getElem?, found, Option.getD_some]

/-- What a computation makes depends on how it runs only. -/
theorem Makes.of_eq {action other : OnHeap Value} {heap' : Heap} {row : Value}
    (makes : Makes action heap kind entries heap' row) (same : other heap = action heap) :
    Makes other heap kind entries heap' row :=
  { makes with runs := same.trans makes.runs }

/-- A slice is a new row of the same kind. -/
theorem exists_slice {low high : Nat} (row : heap.IsRow kind container entries)
    (bounds : Collection.sliceBounds start stop entries.length = .ok (low, high)) :
    ∃ heap' slice, Makes (Collection.slice container start stop) heap kind
      (Collection.between low high entries) heap' slice := by
  cases row with
  | @list handle items cell =>
      refine ⟨_, _, (makes_list heap _).of_eq ?_⟩
      show (ofOutcome (Collection.sliceBounds start stop (heap.list handle).toList.length) >>=
        fun bounds => newListOf (Collection.between bounds.1 bounds.2
          (heap.list handle).toList)) heap = _
      rw [Heap.list, getD_of_getElem? cell, bounds]
      rfl
  | @text handle content cell =>
      refine ⟨_, _, (makes_text heap _).of_eq ?_⟩
      show (ofOutcome (Collection.sliceBounds start stop (heap.text handle).toList.length) >>=
        fun bounds => newText (String.ofList (Collection.between bounds.1 bounds.2
          (heap.text handle).toList))) heap = _
      rw [Heap.text, getD_of_getElem? cell, bounds]
      rfl
  | @listTree handle elements cell =>
      refine ⟨_, _, (makes_listTree heap _).of_eq ?_⟩
      unfold Collection.slice
      simp only [bind, EStateM.bind, get, getThe, MonadStateOf.get, EStateM.get, Heap.node,
        getD_of_getElem? cell, Node.children?]
      rw [bounds]
      rfl
  | @bodyTree handle statements cell =>
      refine ⟨_, _, (makes_bodyTree heap _).of_eq ?_⟩
      unfold Collection.slice
      simp only [bind, EStateM.bind, get, getThe, MonadStateOf.get, EStateM.get, Heap.node,
        getD_of_getElem? cell, Node.children?]
      rw [bounds]
      rfl

end OnHeap

/-! ## Changes of one row -/

namespace Heap

variable {heap : Heap} {α β : Type} {kind : RowKind α} {other : Value} {entries : List α}

/-- Another heap holds what a heap holds, and every row of it except one container. -/
structure Differs (heap : Heap) (container : Value) (heap' : Heap) : Prop where
  holds : ∀ value, heap.Holds value → heap'.Holds value
  isRow : ∀ {α : Type} {kind : RowKind α} {other : Value} {entries : List α},
    other ≠ container → heap.IsRow kind other entries → heap'.IsRow kind other entries

theorem Differs.trans_grows {container : Value} {heap' heap'' : Heap}
    (differs : heap.Differs container heap') (grows : heap'.Grows heap'') :
    heap.Differs container heap'' where
  holds value held := grows.holds (differs.holds value held)
  isRow different row := grows.isRow (differs.isRow different row)

theorem getElem?_modify_ne {cells : Array β} {handle place : Nat} {cell : β}
    (change : β → β) (different : handle ≠ place) (found : cells[handle]? = some cell) :
    (cells.modify place change)[handle]? = some cell := by
  rw [Array.getElem?_modify, if_neg different.symm, found]

theorem getElem?_modify_self {cells : Array β} {handle : Nat} {cell : β} (change : β → β)
    (found : cells[handle]? = some cell) :
    (cells.modify handle change)[handle]? = some (change cell) := by
  rw [Array.getElem?_modify, if_pos rfl, found, Option.map_some]

theorem isRow_withChildren_list {handle : Nat} {elements : List Node}
    (cell : heap.nodes[handle]? = some (.list elements)) (replaced : List Node) :
    Heap.IsRow { heap with nodes := heap.nodes.modify handle (·.withChildren replaced) } .listTree
      (.node handle) replaced :=
  .listTree (getElem?_modify_self (·.withChildren replaced) cell)

theorem isRow_withChildren_body {handle : Nat} {statements : List Node}
    (cell : heap.nodes[handle]? = some (.body statements)) (replaced : List Node) :
    Heap.IsRow { heap with nodes := heap.nodes.modify handle (·.withChildren replaced) } .bodyTree
      (.node handle) replaced :=
  .bodyTree (getElem?_modify_self (·.withChildren replaced) cell)

theorem differs_list (heap : Heap) (handle : Nat) (change : Array Value → Array Value) :
    heap.Differs (.list handle) { heap with lists := heap.lists.modify handle change } where
  holds value held := by
    cases value with
    | list place => exact lt_of_lt_of_eq held Array.size_modify.symm
    | _ => exact held
  isRow different row := by
    cases row with
    | list cell =>
        exact .list (getElem?_modify_ne change (fun same => different (same ▸ rfl)) cell)
    | text cell => exact .text cell
    | listTree cell => exact .listTree cell
    | bodyTree cell => exact .bodyTree cell

theorem differs_text (heap : Heap) (handle : Nat) (change : String → String) :
    heap.Differs (.text handle) { heap with texts := heap.texts.modify handle change } where
  holds value held := by
    cases value with
    | text place => exact lt_of_lt_of_eq held Array.size_modify.symm
    | _ => exact held
  isRow different row := by
    cases row with
    | list cell => exact .list cell
    | text cell =>
        exact .text (getElem?_modify_ne change (fun same => different (same ▸ rfl)) cell)
    | listTree cell => exact .listTree cell
    | bodyTree cell => exact .bodyTree cell

theorem differs_node (heap : Heap) (handle : Nat) (change : Node → Node) :
    heap.Differs (.node handle) { heap with nodes := heap.nodes.modify handle change } where
  holds value held := by
    cases value with
    | node place => exact lt_of_lt_of_eq held Array.size_modify.symm
    | _ => exact held
  isRow different row := by
    cases row with
    | list cell => exact .list cell
    | text cell => exact .text cell
    | listTree cell =>
        exact .listTree (getElem?_modify_ne change (fun same => different (same ▸ rfl)) cell)
    | bodyTree cell =>
        exact .bodyTree (getElem?_modify_ne change (fun same => different (same ▸ rfl)) cell)

end Heap

/-! ## Splices -/

namespace OnHeap

variable {heap : Heap} {α : Type} {kind : RowKind α} {container start count : Value}
  {entries : List α} {first : Int} {amount : Nat} {items : List Value} {parts : List (List α)}

/-- A computation on a heap changes one row and answers a new one. -/
structure Changes (action : OnHeap Value) (heap : Heap) (kind : RowKind α) (container : Value)
    (entries removed : List α) (heap' : Heap) (answer : Value) : Prop where
  runs : action heap = .ok answer heap'
  isRow : heap'.IsRow kind container entries
  answers : heap'.IsRow kind.removed answer removed
  fresh : ¬ heap.Holds answer
  differs : heap.Differs container heap'

/-- A row is changed and then a new one is made. -/
theorem Changes.of_makes {action answers : OnHeap Value} {changed heap' : Heap} {answer : Value}
    {entries removed : List α} (row : changed.IsRow kind container entries)
    (differs : heap.Differs container changed)
    (makes : Makes answers changed kind.removed removed heap' answer)
    (same : action heap = answers changed) :
    Changes action heap kind container entries removed heap' answer where
  runs := same.trans makes.runs
  isRow := makes.grows.isRow row
  answers := makes.isRow
  fresh held := makes.fresh (differs.holds answer held)
  differs := differs.trans_grows makes.grows

/-- A row of computations that leave the heap as it is. -/
theorem mapM_of_forall₂ {β γ : Type} {action : β → OnHeap γ} {row : List β} {results : List γ}
    (each : List.Forall₂ (fun item result => action item heap = .ok result heap) row results) :
    row.mapM action heap = .ok results heap := by
  induction each with
  | nil => rfl
  | cons first _ inductionHypothesis =>
      rw [List.mapM_cons, bind_of_ok first, bind_of_ok inductionHypothesis]
      rfl

/-- The arguments of a splice into a text give their characters. -/
theorem mapM_textOf {parts : List (List Char)}
    (inserts : List.Forall₂ (heap.Inserts .text) items parts) (role : String) :
    ∃ contents, items.mapM (fun item => textOf item role) heap = .ok contents heap ∧
      (String.join contents).toList = parts.flatten := by
  suffices each : ∃ contents,
      List.Forall₂ (fun item content => textOf item role heap = .ok content heap) items contents ∧
        contents.map String.toList = parts by
    obtain ⟨contents, each, rfl⟩ := each
    refine ⟨contents, mapM_of_forall₂ each, ?_⟩
    rw [String.toList_join, List.flatMap_def]
  induction inserts with
  | nil => exact ⟨[], .nil, rfl⟩
  | cons first _ inductionHypothesis =>
      obtain ⟨contents, each, rfl⟩ := inductionHypothesis
      obtain ⟨handle, rfl, rfl⟩ := first
      exact ⟨heap.text handle :: contents, .cons rfl each, rfl⟩

/-- The arguments of a splice into a tree give their trees. -/
theorem mapM_lift {parts : List (List Node)}
    (inserts : List.Forall₂ (fun item part => ∃ tree, heap.lift item = .ok tree ∧ part = [tree])
      items parts) :
    ∃ trees, items.mapM lift heap = .ok trees heap ∧ trees = parts.flatten := by
  suffices each : ∃ trees,
      List.Forall₂ (fun item tree => lift item heap = .ok tree heap) items trees ∧
        trees = parts.flatten by
    obtain ⟨trees, each, rfl⟩ := each
    exact ⟨_, mapM_of_forall₂ each, rfl⟩
  induction inserts with
  | nil => exact ⟨[], .nil, rfl⟩
  | cons first _ inductionHypothesis =>
      obtain ⟨trees, each, rfl⟩ := inductionHypothesis
      obtain ⟨tree, lifted, rfl⟩ := first
      refine ⟨tree :: _, .cons ?_ each, rfl⟩
      show ofOutcome (heap.lift _) heap = _
      rw [lifted]
      rfl

/-- A splice puts what the arguments insert in place of a part of the row and answers the part. What
the arguments insert is read before the row changes. -/
theorem exists_changes {low high : Nat} (row : heap.IsRow kind container entries)
    (counted : count.asCount "splice count" = .ok amount)
    (bounds : Collection.spliceBounds start amount entries.length = .ok (low, high))
    (inserts : List.Forall₂ (heap.Inserts kind) items parts) :
    ∃ heap' answer, Changes (Collection.splice container start count items) heap kind container
      (Collection.replaceBetween low high parts.flatten entries)
      (Collection.between low high entries) heap' answer := by
  unfold Collection.splice
  rw [counted]
  cases row with
  | @list handle present cell =>
      have inserted : items = parts.flatten := by
        clear bounds
        induction inserts with
        | nil => rfl
        | cons first _ inductionHypothesis =>
            rw [first, List.flatten_cons, ← inductionHypothesis]
            rfl
      rw [← inserted]
      refine ⟨_, _, .of_makes (.ofArray (Heap.getElem?_modify_self (fun _ => _) cell))
        (heap.differs_list handle _) (makes_list _ _) ?_⟩
      show (ofOutcome (Collection.spliceBounds start amount (heap.list handle).toList.length) >>=
        fun bounds => _) heap = _
      rw [Heap.list, getD_of_getElem? cell, bounds]
      rfl
  | @text handle content cell =>
      obtain ⟨contents, read, joined⟩ := mapM_textOf inserts "an inserted value"
      refine ⟨_, _, .of_makes (.ofList (Heap.getElem?_modify_self (fun _ => String.ofList _) cell))
        (heap.differs_text handle _) (makes_text _ _) ?_⟩
      refine (bind_of_ok read).trans ?_
      show (ofOutcome (Collection.spliceBounds start amount (heap.text handle).toList.length) >>=
        fun bounds => _) heap = _
      rw [Heap.text, getD_of_getElem? cell, bounds, joined]
      rfl
  | @listTree handle elements cell =>
      obtain ⟨trees, lifted, rfl⟩ := mapM_lift inserts
      refine ⟨_, _, .of_makes (Heap.isRow_withChildren_list cell _) (heap.differs_node handle _)
        (makes_listTree _ _) ?_⟩
      refine (bind_of_ok lifted).trans ?_
      simp only [bind, EStateM.bind, get, getThe, MonadStateOf.get, EStateM.get, Heap.node,
        getD_of_getElem? cell, Node.children?]
      rw [bounds]
      rfl
  | @bodyTree handle statements cell =>
      obtain ⟨trees, lifted, rfl⟩ := mapM_lift inserts
      refine ⟨_, _, .of_makes (Heap.isRow_withChildren_body cell _) (heap.differs_node handle _)
        (makes_listTree _ _) ?_⟩
      refine (bind_of_ok lifted).trans ?_
      simp only [bind, EStateM.bind, get, getThe, MonadStateOf.get, EStateM.get, Heap.node,
        getD_of_getElem? cell, Node.children?]
      rw [bounds]
      rfl

end OnHeap

/-! ## The functions of the language -/

namespace Eval

variable {α : Type} {kind : RowKind α} {container start : Value} {entries : List α}
  {state state' : State} {interpreter : Interpreter}

/-- A call answers a new row and changes no cell that there was. -/
structure Answers (call : Eval Value) (state : State) (kind : RowKind α) (entries : List α)
    (state' : State) (row : Value) : Prop where
  runs : call state = .ok row state'
  rest : state' = { state with heap := state'.heap }
  isRow : state'.heap.IsRow kind row entries
  fresh : ¬ state.heap.Holds row
  grows : state.heap.Grows state'.heap

/-- A call answers a new row and changes one container. -/
structure Replaces (call : Eval Value) (state : State) (kind : RowKind α) (container : Value)
    (entries removed : List α) (state' : State) (answer : Value) : Prop where
  runs : call state = .ok answer state'
  rest : state' = { state with heap := state'.heap }
  isRow : state'.heap.IsRow kind container entries
  answers : state'.heap.IsRow kind.removed answer removed
  fresh : ¬ state.heap.Holds answer
  differs : state.heap.Differs container state'.heap

theorem Answers.of_makes {action : OnHeap Value} {heap : Heap} {row : Value}
    (makes : action.Makes state.heap kind entries heap row) :
    Answers (onHeap action) state kind entries { state with heap := heap } row where
  runs := onHeap_of_ok makes.runs
  rest := rfl
  isRow := makes.isRow
  fresh := makes.fresh
  grows := makes.grows

theorem Replaces.of_changes {action : OnHeap Value} {heap : Heap} {answer : Value}
    {removed : List α}
    (changes : action.Changes state.heap kind container entries removed heap answer) :
    Replaces (onHeap action) state kind container entries removed { state with heap := heap }
      answer where
  runs := onHeap_of_ok changes.runs
  rest := rfl
  isRow := changes.isRow
  answers := changes.answers
  fresh := changes.fresh
  differs := changes.differs

theorem callNative_slice (interpreter : Interpreter) (container start : Value)
    (stop : Option Value) :
    callNative interpreter .slice (container :: start :: stop.toList) =
      onHeap (Collection.slice container start stop) := by
  cases stop <;> rfl

theorem callNative_splice (interpreter : Interpreter) (container start count : Value)
    (items : List Value) :
    callNative interpreter .splice (container :: start :: count :: items) =
      onHeap (Collection.splice container start count items) := by
  unfold callNative
  rw [if_pos (by simp [Native.arity, Arity.accepts])]
  rfl

open Collection in
/-- The slice from a start to a stop. -/
theorem exists_answers {first : Int} {stop : Option Value} {last : Option Int}
    (row : state.heap.IsRow kind container entries) (starts : start.IsSafeInteger first)
    (stops : Option.Rel Value.IsSafeInteger stop last) :
    ∃ state' slice, Answers (callNative interpreter .slice (container :: start :: stop.toList))
      state kind (entries.extract (limited first entries.length)
        (max (limited first entries.length) (stopOf last entries.length))) state' slice := by
  obtain ⟨heap, slice, makes⟩ :=
    OnHeap.exists_slice row (sliceBounds_eq starts stops entries.length)
  rw [between_eq_extract] at makes
  rw [callNative_slice]
  exact ⟨_, slice, .of_makes makes⟩

open Collection in
/-- Slicing and splicing are operations on rows, the same for lists, texts and trees with children.
A slice is a new container of the same kind and leaves the row as it is; the slices in front of a
cut and behind it make up the row. A splice replaces a part of the row and answers the part, also
where the inserted entries come out of the row. -/
theorem slice_and_splice (interpreter : Interpreter)
    (row : state.heap.IsRow kind container entries) :
    (∀ {start : Value} {stop : Option Value} {first : Int} {last : Option Int},
      start.IsSafeInteger first → Option.Rel Value.IsSafeInteger stop last →
      ∃ state' slice,
        Answers (callNative interpreter .slice (container :: start :: stop.toList)) state kind
          (entries.extract (limited first entries.length)
            (max (limited first entries.length) (stopOf last entries.length))) state' slice ∧
        state'.heap.IsRow kind container entries) ∧
    (∀ {start cut : Value} {stop : Option Value} {point : Int} {last : Option Int},
      start.IsSafeInteger 0 → cut.IsSafeInteger point → Option.Rel Value.IsSafeInteger stop last →
      stopOf last entries.length = entries.length →
      ∃ middle later front back left right,
        Answers (callNative interpreter .slice [container, start, cut]) state kind left middle
          front ∧
        Answers (callNative interpreter .slice (container :: cut :: stop.toList)) middle kind right
          later back ∧
        left ++ right = entries) ∧
    (∀ {start count : Value} {items : List Value} {first : Int} {amount : Nat}
      {parts : List (List α)},
      start.IsSafeInteger first → count.IsSafeInteger amount →
      List.Forall₂ (state.heap.Inserts kind) items parts →
      ∃ state' answer before removed behind,
        Replaces (callNative interpreter .splice (container :: start :: count :: items)) state kind
          container (before ++ parts.flatten ++ behind) removed state' answer ∧
        entries = before ++ removed ++ behind ∧
        before.length = limited first entries.length ∧
        removed.length = min amount (entries.length - before.length)) := by
  refine ⟨fun starts stops => ?_, fun {start cut stop point last} starts cuts stops ends => ?_,
    fun {start count items first amount parts} starts counts inserts => ?_⟩
  · obtain ⟨state', slice, answers⟩ := exists_answers row starts stops
    exact ⟨state', slice, answers, answers.grows.isRow row⟩
  · obtain ⟨middle, front, answers⟩ := exists_answers row starts (.some cuts)
    obtain ⟨later, back, answers'⟩ := exists_answers (answers.grows.isRow row) cuts stops
    refine ⟨middle, later, front, back, _, _, answers, answers', ?_⟩
    rw [ends, limited_zero]
    have inside : limited point entries.length ≤ entries.length := limited_le _ _
    have rest : (entries.drop (limited point entries.length)).length ≤
        entries.length - limited point entries.length := by simp
    rw [stopOf, Option.elim_some, max_eq_right (Nat.zero_le _), max_eq_right inside,
      List.extract_eq_take_drop, List.extract_eq_take_drop, List.drop_zero, Nat.sub_zero,
      List.take_of_length_le rest, List.take_append_drop]
  · have ordered := limited_le first entries.length
    have safe : amount < 2 ^ 53 := by
      have := counts.2
      rw [abs_of_nonneg (Int.natCast_nonneg amount)] at this
      exact_mod_cast this
    obtain ⟨heap, answer, changes⟩ := OnHeap.exists_changes row (counts.1.asCount safe _)
      (spliceBounds_eq starts amount entries.length) inserts
    rw [callNative_splice]
    refine ⟨_, answer, _, _, _, .of_changes changes, eq_append_between (by omega) entries, ?_, ?_⟩
    · rw [List.length_take, min_eq_left ordered]
    · rw [length_between (min_le_right _ _), List.length_take, min_eq_left ordered]
      omega

/-- The text {ab} with itself in place of its last character. -/
theorem slice_and_splice_text :
    let interpreter : Interpreter := fun _ => throw .exhausted
    let state := State.initial .empty { Heap.empty with texts := #["ab"] }
    state.heap.IsRow .text (.text 0) ['a', 'b'] ∧
    (∃ state' slice, Answers (callNative interpreter .slice [.text 0, .ofReal (-1.0)]) state .text
      ['b'] state' slice ∧ state'.heap.IsRow .text (.text 0) ['a', 'b']) ∧
    (∃ middle later front back left right,
      Answers (callNative interpreter .slice [.text 0, .ofReal 0.0, .ofReal 1.0]) state .text left
        middle front ∧
      Answers (callNative interpreter .slice [.text 0, .ofReal 1.0]) middle .text right later
        back ∧
      left ++ right = ['a', 'b']) ∧
    ∃ state' answer before removed behind,
      Replaces (callNative interpreter .splice [.text 0, .ofReal (-1.0), .ofReal 1.0, .text 0])
        state .text (.text 0) (before ++ ['a', 'b'] ++ behind) removed state' answer ∧
      ['a', 'b'] = before ++ removed ++ behind ∧ before.length = 1 ∧
      removed.length = min 1 (2 - before.length) := by
  intro interpreter state
  have row : state.heap.IsRow .text (.text 0) ['a', 'b'] := @Heap.IsRow.text _ 0 "ab" rfl
  have minusOne : (Value.ofReal (-1.0)).IsSafeInteger (-1) :=
    @Value.IsSafeInteger.of_read _ ⟨true, 2 ^ 52, -52⟩ _ (by decide +kernel)
      (by norm_num [Binary.value]) (by decide)
  have zero : (Value.ofReal 0.0).IsSafeInteger 0 :=
    @Value.IsSafeInteger.of_read _ ⟨false, 0, -1074⟩ _ (by decide +kernel) (by norm_num [Binary.value])
      (by decide)
  have one : (Value.ofReal 1.0).IsSafeInteger 1 :=
    @Value.IsSafeInteger.of_read _ ⟨false, 2 ^ 52, -52⟩ _ (by decide +kernel) (by norm_num [Binary.value])
      (by decide)
  obtain ⟨slices, cuts, splices⟩ := slice_and_splice interpreter row
  have itself : state.heap.Inserts .text (.text 0) ['a', 'b'] := ⟨0, rfl, by decide⟩
  exact ⟨row, slices minusOne .none, cuts zero one .none rfl,
    splices minusOne one (.cons itself .nil)⟩

end Eval

end Fixity
