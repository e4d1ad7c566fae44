import Mathlib.Data.List.Perm.Subperm
import Fixity.Value.Walk

/-!
Contract: values as the graphs that their lists and objects make.

Owns:
- `Heap.at?`, what stands at a position of a value, and `Heap.Cyclic`, the values with a list or an
  object inside itself;
- `Heap.Holds`, the values whose handle has a cell;
- `Heap.Grows`, heaps to which cells are added and nothing else happens: what stood at a position
  stands there still;
- `Ancestors`, the path of a walk from a value: such a path is no longer than there are lists and
  objects.

Does not own: the walks themselves.
-/

namespace Fixity

namespace Heap

/-! ## Positions -/

/-- What a list or an object holds, an object's values in the order of their keys. -/
def children (heap : Heap) : Value → List Value
  | .list handle => (heap.list handle).toList
  | .object handle => (heap.object handle).values
  | _ => []

/-- What stands at a position of a value: each index leads from a list or an object to one of the
values it holds. -/
def at? (heap : Heap) (value : Value) : List Nat → Option Value
  | [] => some value
  | index :: rest => (heap.children value)[index]?.bind fun child => heap.at? child rest

/-- What stands at a position of a row of values. -/
def under? (heap : Heap) (values : List Value) : List Nat → Option Value
  | [] => none
  | index :: rest => values[index]?.bind fun child => heap.at? child rest

theorem at?_cons (heap : Heap) (value : Value) (index : Nat) (rest : List Nat) :
    heap.at? value (index :: rest) = heap.under? (heap.children value) (index :: rest) := rfl

theorem at?_append (heap : Heap) (value : Value) (position more : List Nat) :
    heap.at? value (position ++ more) =
      (heap.at? value position).bind fun inner => heap.at? inner more := by
  induction position generalizing value with
  | nil => rfl
  | cons index rest inductionHypothesis =>
      rw [List.cons_append, at?, at?, Option.bind_assoc]
      congr 1
      funext child
      exact inductionHypothesis child

/-- What holds of a value, and of what a value holds if it holds of the value, holds of all that
stands in the value. -/
theorem at?_of_closed {heap : Heap} {motive : Value → Prop}
    (closed : ∀ value, motive value → ∀ child ∈ heap.children value, motive child)
    {value inner : Value} {position : List Nat} (top : motive value)
    (found : heap.at? value position = some inner) : motive inner := by
  induction position generalizing value with
  | nil =>
      cases found
      exact top
  | cons index rest inductionHypothesis =>
      obtain ⟨child, atIndex, foundThere⟩ := Option.bind_eq_some_iff.mp found
      exact inductionHypothesis (closed value top child (List.mem_of_getElem? atIndex)) foundThere

/-- A value stands somewhere in another one, perhaps right at its top. -/
def Reaches (heap : Heap) (outer inner : Value) : Prop :=
  ∃ position, heap.at? outer position = some inner

/-- A value stands somewhere below the top of another one. -/
def Contains (heap : Heap) (outer inner : Value) : Prop :=
  ∃ position, position ≠ [] ∧ heap.at? outer position = some inner

/-- Some list or object in a value contains itself. -/
def Cyclic (heap : Heap) (value : Value) : Prop :=
  ∃ inner, heap.Reaches value inner ∧ heap.Contains inner inner

variable {heap : Heap} {outer inner value child : Value}

theorem Reaches.refl (heap : Heap) (value : Value) : heap.Reaches value value := ⟨[], rfl⟩

theorem contains_of_child (member : child ∈ heap.children value) : heap.Contains value child := by
  obtain ⟨index, found⟩ := List.mem_iff_getElem?.mp member
  exact ⟨[index], by simp, by rw [at?, found]; rfl⟩

theorem Contains.reaches (contains : heap.Contains outer inner) : heap.Reaches outer inner := by
  obtain ⟨position, _, found⟩ := contains
  exact ⟨position, found⟩

theorem Reaches.trans (reaches : heap.Reaches outer inner) (further : heap.Reaches inner value) :
    heap.Reaches outer value := by
  obtain ⟨position, found⟩ := reaches
  obtain ⟨more, foundThere⟩ := further
  exact ⟨position ++ more, by rw [at?_append, found]; exact foundThere⟩

theorem Reaches.cyclic (reaches : heap.Reaches outer inner) (cyclic : heap.Cyclic inner) :
    heap.Cyclic outer := by
  obtain ⟨innermost, further, around⟩ := cyclic
  exact ⟨innermost, reaches.trans further, around⟩

theorem Contains.trans (contains : heap.Contains outer inner)
    (further : heap.Contains inner value) : heap.Contains outer value := by
  obtain ⟨position, inhabited, found⟩ := contains
  obtain ⟨more, _, foundThere⟩ := further
  exact ⟨position ++ more, by simp [inhabited], by rw [at?_append, found]; exact foundThere⟩

theorem Contains.of_child (member : child ∈ heap.children value)
    (reaches : heap.Reaches child inner) : heap.Contains value inner := by
  obtain ⟨index, atIndex⟩ := List.mem_iff_getElem?.mp member
  obtain ⟨position, found⟩ := reaches
  exact ⟨index :: position, by simp, by rw [at?, atIndex]; exact found⟩

theorem Reaches.of_child (member : child ∈ heap.children value)
    (reaches : heap.Reaches child inner) : heap.Reaches value inner :=
  (Contains.of_child member reaches).reaches

theorem Reaches.eq_or_child (reaches : heap.Reaches value inner) :
    inner = value ∨ ∃ child ∈ heap.children value, heap.Reaches child inner := by
  obtain ⟨_ | ⟨index, rest⟩, found⟩ := reaches
  · exact .inl (Option.some.inj found).symm
  · obtain ⟨child, atIndex, foundThere⟩ := Option.bind_eq_some_iff.mp found
    exact .inr ⟨child, List.mem_of_getElem? atIndex, rest, foundThere⟩

/-- The positions of a value are less deep than a bound. -/
def Shallow (heap : Heap) (bound : Nat) (value : Value) : Prop :=
  ∀ position inner, heap.at? value position = some inner → position.length < bound

theorem Shallow.of_children {bound : Nat}
    (each : ∀ child ∈ heap.children value, heap.Shallow bound child) :
    heap.Shallow (bound + 1) value := by
  intro position inner found
  cases position with
  | nil => exact Nat.succ_pos bound
  | cons index rest =>
      obtain ⟨child, atIndex, foundThere⟩ := Option.bind_eq_some_iff.mp found
      exact Nat.succ_lt_succ (each child (List.mem_of_getElem? atIndex) rest inner foundThere)

/-- Around a cycle there are positions of any depth. -/
theorem Shallow.not_cyclic {bound : Nat} (shallow : heap.Shallow bound value) :
    ¬ heap.Cyclic value := by
  rintro ⟨inner, ⟨position, found⟩, ⟨loop, inhabited, around⟩⟩
  have deep : ∀ turns, ∃ more, heap.at? inner more = some inner ∧ turns ≤ more.length := by
    intro turns
    induction turns with
    | zero => exact ⟨[], rfl, Nat.zero_le _⟩
    | succ turns inductionHypothesis =>
        obtain ⟨more, foundThere, long⟩ := inductionHypothesis
        have longer := List.length_pos_of_ne_nil inhabited
        refine ⟨loop ++ more, by rw [at?_append, around]; exact foundThere, ?_⟩
        rw [List.length_append]
        omega
  obtain ⟨more, foundThere, long⟩ := deep bound
  have bounded := shallow (position ++ more) inner (by rw [at?_append, found]; exact foundThere)
  rw [List.length_append] at bounded
  omega

/-! ## Cells -/

/-- A value whose handle has a cell. -/
def Holds (heap : Heap) : Value → Prop
  | .number _ => True
  | .text handle => handle < heap.texts.size
  | .list handle => handle < heap.lists.size
  | .object handle => handle < heap.objects.size
  | .function handle => handle < heap.functions.size
  | .builtin handle => handle < heap.builtins.size
  | .node handle => handle < heap.nodes.size

instance (heap : Heap) : (value : Value) → Decidable (heap.Holds value)
  | .number _ => inferInstanceAs (Decidable True)
  | .text handle => inferInstanceAs (Decidable (handle < heap.texts.size))
  | .list handle => inferInstanceAs (Decidable (handle < heap.lists.size))
  | .object handle => inferInstanceAs (Decidable (handle < heap.objects.size))
  | .function handle => inferInstanceAs (Decidable (handle < heap.functions.size))
  | .builtin handle => inferInstanceAs (Decidable (handle < heap.builtins.size))
  | .node handle => inferInstanceAs (Decidable (handle < heap.nodes.size))

/-- Where no cell refers to an absent one, all that a value leads to has a cell. -/
theorem Holds.at? (closed : ∀ value, heap.Holds value → ∀ child ∈ heap.children value,
      heap.Holds child) {position : List Nat} (held : heap.Holds value)
    (found : heap.at? value position = some inner) : heap.Holds inner :=
  at?_of_closed closed held found

/-- Cells are added to a heap; the others stay as they are. -/
structure Grows (heap heap' : Heap) : Prop where
  texts : heap.texts.toList <+: heap'.texts.toList
  lists : heap.lists.toList <+: heap'.lists.toList
  objects : heap.objects.toList <+: heap'.objects.toList
  functions : heap.functions.toList <+: heap'.functions.toList
  builtins : heap.builtins.toList <+: heap'.builtins.toList
  nodes : heap.nodes.toList <+: heap'.nodes.toList

variable {heap' heap'' : Heap}

theorem Grows.refl (heap : Heap) : heap.Grows heap :=
  ⟨List.prefix_rfl, List.prefix_rfl, List.prefix_rfl, List.prefix_rfl, List.prefix_rfl,
    List.prefix_rfl⟩

theorem Grows.trans (earlier : heap.Grows heap') (later : heap'.Grows heap'') :
    heap.Grows heap'' where
  texts := earlier.texts.trans later.texts
  lists := earlier.lists.trans later.lists
  objects := earlier.objects.trans later.objects
  functions := earlier.functions.trans later.functions
  builtins := earlier.builtins.trans later.builtins
  nodes := earlier.nodes.trans later.nodes

theorem Grows.holds (grows : heap.Grows heap') (held : heap.Holds value) : heap'.Holds value := by
  cases value with
  | number content => trivial
  | text handle => exact Nat.lt_of_lt_of_le held grows.texts.length_le
  | list handle => exact Nat.lt_of_lt_of_le held grows.lists.length_le
  | object handle => exact Nat.lt_of_lt_of_le held grows.objects.length_le
  | function handle => exact Nat.lt_of_lt_of_le held grows.functions.length_le
  | builtin handle => exact Nat.lt_of_lt_of_le held grows.builtins.length_le
  | node handle => exact Nat.lt_of_lt_of_le held grows.nodes.length_le

private theorem getD_of_grows {α : Type} {cells cells' : Array α}
    (grows : cells.toList <+: cells'.toList) {handle : Nat} (held : handle < cells.size)
    (absent : α) : cells'.getD handle absent = cells.getD handle absent := by
  obtain ⟨more, same⟩ := grows
  rw [Array.getD_eq_getD_getElem?, Array.getD_eq_getD_getElem?, ← Array.getElem?_toList,
    ← Array.getElem?_toList, ← same, List.getElem?_append_left held]

section Contents

variable {handle : Nat} (grows : heap.Grows heap')
include grows

theorem Grows.text (held : handle < heap.texts.size) : heap'.text handle = heap.text handle :=
  getD_of_grows grows.texts held _

theorem Grows.list (held : handle < heap.lists.size) : heap'.list handle = heap.list handle :=
  getD_of_grows grows.lists held _

theorem Grows.object (held : handle < heap.objects.size) :
    heap'.object handle = heap.object handle :=
  getD_of_grows grows.objects held _

theorem Grows.function (held : handle < heap.functions.size) :
    heap'.function handle = heap.function handle :=
  getD_of_grows grows.functions held _

theorem Grows.builtin (held : handle < heap.builtins.size) :
    heap'.builtin handle = heap.builtin handle :=
  getD_of_grows grows.builtins held _

theorem Grows.node (held : handle < heap.nodes.size) : heap'.node handle = heap.node handle :=
  getD_of_grows grows.nodes held _

theorem Grows.children (held : heap.Holds value) : heap'.children value = heap.children value := by
  cases value with
  | list handle => exact congrArg Array.toList (grows.list held)
  | object handle => exact congrArg Dict.values (grows.object held)
  | _ => rfl

/-- What stood at a position of a value stands there still. -/
theorem Grows.at? (held : ∀ inner, heap.Reaches value inner → heap.Holds inner)
    (position : List Nat) : heap'.at? value position = heap.at? value position := by
  induction position generalizing value with
  | nil => rfl
  | cons index rest inductionHypothesis =>
      rw [Heap.at?, Heap.at?, grows.children (held value (.refl heap value))]
      cases found : (heap.children value)[index]? with
      | none => rfl
      | some child =>
          have contains := contains_of_child (List.mem_of_getElem? found)
          exact inductionHypothesis fun inner reaches =>
            held inner (contains.reaches.trans reaches)

/-- Adding cells does not change what a value leads to. -/
theorem Grows.reaches_iff (held : ∀ inner, heap.Reaches value inner → heap.Holds inner) :
    heap'.Reaches value inner ↔ heap.Reaches value inner :=
  exists_congr fun position => by rw [grows.at? held]

/-- What stood at a position of a row stands there still. -/
theorem Grows.under? {values : List Value}
    (held : ∀ position inner, heap.under? values position = some inner → heap.Holds inner)
    (position : List Nat) : heap'.under? values position = heap.under? values position := by
  cases position with
  | nil => rfl
  | cons index rest =>
      rw [Heap.under?, Heap.under?]
      cases found : values[index]? with
      | none => rfl
      | some child =>
          refine grows.at? (fun inner reaches => ?_) rest
          obtain ⟨more, foundThere⟩ := reaches
          exact held (index :: more) inner (by rw [Heap.under?, found]; exact foundThere)

end Contents

end Heap

/-! ## Paths -/

theorem Path.length_of_open? {path inside : Path} {value : Value} {container : Container}
    (opens : value.container? = some container) (opened : path.open? value = some inside) :
    inside.length = path.length + 1 := by
  unfold Path.open? at opened
  rw [opens] at opened
  dsimp only at opened
  split at opened
  · cases opened
  · cases opened
    rfl

/-- The containers that a walk from a value has opened on its way to another one. -/
structure Ancestors (heap : Heap) (root : Value) (path : Path) (value : Value) : Prop where
  reached : heap.Reaches root value
  distinct : path.Nodup
  above : ∀ container ∈ path, ∃ outer, outer.container? = some container ∧
    heap.Reaches root outer ∧ heap.Contains outer value

namespace Ancestors

variable {heap : Heap} {root value child : Value} {path : Path}

theorem start (heap : Heap) (root : Value) : Ancestors heap root [] root :=
  ⟨.refl heap root, .nil, nofun⟩

theorem container?_inj {value other : Value} {container : Container}
    (opens : value.container? = some container) (opens' : other.container? = some container) :
    value = other := by
  cases value <;> cases opens <;> cases other <;> cases opens' <;> rfl

/-- A walk that can not go on has gone around. -/
theorem cyclic (ancestors : Ancestors heap root path value) (stops : path.open? value = none) :
    heap.Cyclic root := by
  unfold Path.open? at stops
  split at stops
  · cases stops
  · next container opens =>
    split at stops
    · next member =>
      obtain ⟨outer, opensOuter, reaches, contains⟩ := ancestors.above container member
      obtain rfl := container?_inj opensOuter opens
      exact ⟨outer, reaches, contains⟩
    · cases stops

/-- The path goes on to what a value holds. -/
theorem descend (ancestors : Ancestors heap root path value) {inside : Path}
    (opened : path.open? value = some inside) (member : child ∈ heap.children value) :
    Ancestors heap root inside child := by
  have contains := Heap.contains_of_child member
  unfold Path.open? at opened
  split at opened
  · next leaf =>
    -- only lists and objects hold anything
    cases value <;> simp_all [Value.container?, Heap.children]
  · next container opens =>
    split at opened
    · cases opened
    · next fresh =>
      cases opened
      refine ⟨ancestors.reached.trans contains.reaches,
        List.nodup_cons.mpr ⟨fresh, ancestors.distinct⟩, ?_⟩
      rintro other (_ | ⟨_, inPath⟩)
      · exact ⟨value, opens, ancestors.reached, contains⟩
      · obtain ⟨outer, opensOuter, reaches, above⟩ := ancestors.above other inPath
        exact ⟨outer, opensOuter, reaches, above.trans contains⟩

/-- There are at least as many lists and objects as a path has open. -/
theorem length_le (ancestors : Ancestors heap root path value)
    (held : ∀ inner, heap.Reaches root inner → heap.Holds inner) :
    path.length ≤ heap.containers := by
  let all := (List.range heap.lists.size).map Container.list ++
    (List.range heap.objects.size).map Container.object
  have listed : path ⊆ all := by
    intro container member
    obtain ⟨outer, opens, reaches, _⟩ := ancestors.above container member
    have holds := held outer reaches
    cases outer <;> cases opens
    · exact List.mem_append_left _ (List.mem_map_of_mem (List.mem_range.mpr holds))
    · exact List.mem_append_right _ (List.mem_map_of_mem (List.mem_range.mpr holds))
  have bound := (ancestors.distinct.subperm listed).length_le
  simpa [all, Heap.containers] using bound

end Ancestors

end Fixity
