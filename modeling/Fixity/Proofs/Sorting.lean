import Fixity.Proofs.Indexing
import Fixity.Proofs.Negation
import Fixity.Proofs.Partition
import Fixity.Proofs.Settling

/-!
Contract: sorting in place, as the standard library does it in the language itself.

Owns:
- `Sorting.body` and the trees of the three functions inside it;
- `Sorting.Run`, what stays the same while a list is sorted, and `Sorting.Run.Contains`, the heaps
  met meanwhile, which differ in that list alone;
- what the exchange of two entries, one pass over a part and the sorting of a part come to.

Does not own: partition of rows of ranks.
-/

namespace Fixity

open Eval

namespace Sorting

/-! ## Trees -/

/-- `a::place` -/
def entryAt (place : String) : Node :=
  .operation "::" (.identifier "a") (.identifier place)

/-- `place + 1` -/
def following (place : String) : Node :=
  .operation "+" (.identifier place) (.number .one)

/-- `place - 1` -/
def preceding (place : String) : Node :=
  .operation "-" (.identifier place) (.number .one)

/-- The exchange of two entries. -/
def swapBody : Node :=
  .body
    [.operation Syntax.bindToken (.identifier "t") (entryAt "i"),
      .operation "@" (.identifier "set") (.list [.identifier "a", .identifier "i", entryAt "j"]),
      .operation "@" (.identifier "set")
        (.list [.identifier "a", .identifier "j", .identifier "t"])]

/-- What a pass does with an entry: one below the pivot is put in front. -/
def passBody : Node :=
  .operation Syntax.conditionalToken (.operation "<" (entryAt "j") (.identifier "pivot"))
    (.list
      [.body
        [.operation Syntax.bindToken (.identifier "k") (following "k"),
          .operation "@" (.identifier "swap") (.list [.identifier "k", .identifier "j"])],
        .number .zero])

/-- A pass over a part, which parts it at its last entry. -/
def partBody : Node :=
  .body
    [.operation Syntax.bindToken (.identifier "pivot") (entryAt "hi"),
      .operation Syntax.bindToken (.identifier "k") (preceding "lo"),
      .operation Syntax.forToken
        (.list
          [.operation Syntax.bindToken (.identifier "j") (.identifier "lo"),
            .operation "<" (.identifier "j") (.identifier "hi"),
            .operation Syntax.bindToken (.identifier "j") (following "j")])
        passBody,
      .operation "@" (.identifier "swap") (.list [following "k", .identifier "hi"]),
      following "k"]

/-- The sorting of a part. -/
def sortBody : Node :=
  .operation Syntax.conditionalToken (.operation "<" (.identifier "lo") (.identifier "hi"))
    (.list
      [.body
        [.operation Syntax.bindToken (.identifier "p")
            (.operation "@" (.identifier "part") (.list [.identifier "lo", .identifier "hi"])),
          .operation "@" (.identifier "sort") (.list [.identifier "lo", preceding "p"]),
          .operation "@" (.identifier "sort") (.list [following "p", .identifier "hi"])],
        .number .zero])

/-- The sorting of a list. -/
def body : Node :=
  .body
    [.operation Syntax.bindToken (.identifier "swap")
        (.operation Syntax.definitionToken (.list [.identifier "i", .identifier "j"]) swapBody),
      .operation Syntax.bindToken (.identifier "part")
        (.operation Syntax.definitionToken (.list [.identifier "lo", .identifier "hi"]) partBody),
      .operation Syntax.bindToken (.identifier "sort")
        (.operation Syntax.definitionToken (.list [.identifier "lo", .identifier "hi"]) sortBody),
      .operation "@" (.identifier "sort")
        (.list [.number .zero,
          .operation "-" (.operation "@" (.identifier "len") (.list [.identifier "a"]))
            (.number .one)]),
      .identifier "a"]

/-! ## Lists of numbers -/

/-- The cell of a list of so many numbers. -/
def contents (count : Nat) (row : Nat → Number) : Array Value :=
  ((List.range count).map fun place => Value.number (row place)).toArray

@[simp]
theorem size_contents (count : Nat) (row : Nat → Number) : (contents count row).size = count := by
  simp [contents]

theorem getElem?_contents (count place : Nat) (row : Nat → Number) :
    (contents count row)[place]? =
      if place < count then some (.number (row place)) else none := by
  unfold contents
  split <;> simp_all

theorem set_contents {count place : Nat} (row : Nat → Number) (inside : place < count)
    (number : Number) :
    (contents count row).setIfInBounds place (.number number) =
      contents count (Function.update row place number) := by
  apply Array.ext_getElem?
  intro other
  rw [Array.getElem?_setIfInBounds, getElem?_contents, getElem?_contents, size_contents]
  by_cases same : place = other
  · rw [if_pos same, ← same, if_pos inside, if_pos inside, Function.update_self]
  · rw [if_neg same, Function.update_of_ne (Ne.symm same)]

/-- The rank of a number among all real ones. -/
def rank (number : Number) : ℤ ×ₗ ℚ := Double.rank number.real

/-! ## One run -/

/-- The operators and functions that the trees use are native ones, but `::`, which applies `get`
to the values of its operands. -/
structure Natives (operators : OperatorTable) (heap : Heap) (get set : Nat) : Prop where
  indexing : operators.implementations.get? "::" = some ⟨.builtin get, true⟩
  native : ∀ token ∈ ["@", "->", "?", "#", "+", "-", "<"],
    operators.implementations.get? token = none
  reads : (heap.builtin get).action = .native .get
  writes : (heap.builtin set).action = .native .set

theorem Natives.of_builtins {operators : OperatorTable} {heap heap' : Heap} {get set : Nat}
    (natives : Natives operators heap get set) (same : heap'.builtins = heap.builtins) :
    Natives operators heap' get set where
  indexing := natives.indexing
  native := natives.native
  reads := by
    rw [Heap.builtin, same]
    exact natives.reads
  writes := by
    rw [Heap.builtin, same]
    exact natives.writes

/-- What stays the same while a list is sorted. -/
structure Run where
  operators : OperatorTable
  /-- The heap when sorting starts. -/
  heap : Heap
  list : Nat
  count : Nat
  /-- The entries when sorting starts. -/
  entries : Nat → Number
  get : Nat
  set : Nat
  swap : Nat
  part : Nat
  sort : Nat
  swapClosure : Bindings
  partClosure : Bindings
  sortClosure : Bindings
  short : count ≤ 2 ^ 53
  real : ∀ place, (entries place).isReal
  natives : Natives operators heap get set
  swapCell : heap.function swap = ⟨["i", "j"], swapBody, swapClosure, false, ["swap"]⟩
  partCell : heap.function part = ⟨["lo", "hi"], partBody, partClosure, false, ["part"]⟩
  sortCell : heap.function sort = ⟨["lo", "hi"], sortBody, sortClosure, false, ["sort"]⟩
  swapList : Remembers swapClosure "a" (.list list)
  swapSet : Remembers swapClosure "set" (.builtin set)
  partList : Remembers partClosure "a" (.list list)
  partSwap : Remembers partClosure "swap" (.function swap)
  sortPart : Remembers sortClosure "part" (.function part)

namespace Run

variable (run : Run) {host : Host} {course : Course host}

/-- A heap that differs from that at the start in the entries of the list and in further lists. -/
structure Contains (heap : Heap) (row : Nat → Number) : Prop where
  rest : heap = { run.heap with lists := heap.lists }
  others : ∀ {other : Nat} {items : Array Value}, other ≠ run.list →
    run.heap.lists[other]? = some items → heap.lists[other]? = some items
  cell : heap.lists[run.list]? = some (contents run.count row)

/-- A heap in which the list has its entries in some order. -/
structure Holds (heap : Heap) (row : Nat → Number) : Prop extends run.Contains heap row where
  shuffled : Shuffled 0 run.count run.entries row

/-- The heaps in which the limit on calls may be met. -/
def Limited (heap : Heap) : Prop := ∃ row, run.Holds heap row

/-- A part of the run is over, in the scope where it began, and the row is as wanted. -/
def Returns (state : State) (wanted : Value → (Nat → Number) → Prop) (value : Value)
    (reached : State) : Prop :=
  ∃ heap row, reached = { state with heap := heap } ∧ run.Holds heap row ∧ wanted value row

variable {run} {state : State} {row row' : Nat → Number} {wanted : Value → State → Prop}
  {limited : Heap → Prop}

namespace Contains

variable {heap : Heap} (contains : run.Contains heap row)
include contains

theorem function (handle : Nat) : heap.function handle = run.heap.function handle := by
  rw [contains.rest]
  rfl

theorem builtin (handle : Nat) : heap.builtin handle = run.heap.builtin handle := by
  rw [contains.rest]
  rfl

/-- A further list changes nothing. -/
theorem push (values : Array Value) :
    run.Contains { heap with lists := heap.lists.push values } row where
  rest := by
    rw [contains.rest]
  others different found := by
    obtain ⟨within, same⟩ := Array.getElem?_eq_some_iff.mp (contains.others different found)
    rw [Array.getElem?_push_lt within, same]
  cell := by
    obtain ⟨within, same⟩ := Array.getElem?_eq_some_iff.mp contains.cell
    rw [Array.getElem?_push_lt within, same]

/-- One entry is written. -/
theorem write {place : Nat} (inside : place < run.count) (number : Number) :
    run.Contains
      { heap with
        lists := heap.lists.modify run.list fun items =>
          items.setIfInBounds place (.number number) }
      (Function.update row place number) where
  rest := by
    rw [contains.rest]
  others different found :=
    Heap.getElem?_modify_ne _ different (contains.others different found)
  cell := by
    rw [Heap.getElem?_modify_self _ contains.cell, set_contents row inside]

end Contains

/-! ## Trees in the functions -/

section Trees

variable {name other : String} {index index' : Number} {whole whole' : Int} {place : Nat}

theorem applies_get (contains : run.Contains state.heap row) (isInteger : index.IsInteger place)
    (inside : place < run.count) (holds : wanted (.number (row place)) state) :
    Applies course (.builtin run.get) [.list run.list, .number index] state wanted limited := by
  have within : place < (contents run.count row).size := by rwa [size_contents]
  have entry : (contents run.count row)[place] = .number (row place) := by
    have found := getElem?_contents run.count place row
    rw [if_pos inside, Array.getElem?_eq_getElem within] at found
    exact Option.some.inj found
  refine .native (by rw [contains.builtin, run.natives.reads])
    (callNative_get contains.cell isInteger within (by rw [size_contents]; exact run.short)) ?_
  rwa [entry]

theorem applies_set (contains : run.Contains state.heap row) (isInteger : index.IsInteger place)
    (inside : place < run.count) {number : Number}
    (holds : ∀ heap, run.Contains heap (Function.update row place number) →
      wanted (.number number) { state with heap := heap }) :
    Applies course (.builtin run.set) [.list run.list, .number index, .number number] state wanted
      limited := by
  have within : place < (contents run.count row).size := by rwa [size_contents]
  refine .native (by rw [contains.builtin, run.natives.writes])
    (callNative_set contains.cell isInteger within (by rw [size_contents]; exact run.short)
      (.number number)) ?_
  exact holds _ (contains.write inside number)

theorem does_entry (operators : state.scope.operators = run.operators)
    (contains : run.Contains state.heap row)
    (list : state.scope.lookup? "a" = some (.list run.list))
    (named : state.scope.lookup? name = some (.number index)) (isInteger : index.IsInteger place)
    (inside : place < run.count) (holds : wanted (.number (row place)) state) :
    Does course (entryAt name) state wanted limited := by
  refine .eager (by decide) (by rw [operators, run.natives.indexing]) (.identifier list ?_)
  exact .identifier named (applies_get contains isInteger inside holds)

theorem does_following (operators : state.scope.operators = run.operators)
    (named : state.scope.lookup? name = some (.number index)) (isInteger : index.IsInteger whole)
    (small : |whole + 1| ≤ 2 ^ 53)
    (holds : ∀ next : Number, next.IsInteger (whole + 1) → wanted (.number next) state) :
    Does course (following name) state wanted limited := by
  have native : state.scope.operators.implementations.get? BinaryOperator.add.token = none := by
    rw [operators]
    exact run.natives.native "+" (by decide)
  refine .arithmetic native (.identifier named (.number ?_))
  exact ⟨_, _, _, rfl, rfl, rfl, holds _ (isInteger.add Number.isInteger_one small)⟩

theorem does_preceding (operators : state.scope.operators = run.operators)
    (named : state.scope.lookup? name = some (.number index)) (isInteger : index.IsInteger whole)
    (small : |whole - 1| ≤ 2 ^ 53)
    (holds : ∀ previous : Number, previous.IsInteger (whole - 1) →
      wanted (.number previous) state) :
    Does course (preceding name) state wanted limited := by
  have native : state.scope.operators.implementations.get? BinaryOperator.sub.token = none := by
    rw [operators]
    exact run.natives.native "-" (by decide)
  refine .arithmetic native (.identifier named (.number ?_))
  exact ⟨_, _, _, rfl, rfl, rfl, holds _ (isInteger.sub Number.isInteger_one small)⟩

theorem does_less (operators : state.scope.operators = run.operators)
    (named : state.scope.lookup? name = some (.number index)) (isInteger : index.IsInteger whole)
    (named' : state.scope.lookup? other = some (.number index'))
    (isInteger' : index'.IsInteger whole')
    (holds : wanted (.ofBool (whole < whole')) state) :
    Does course (.operation "<" (.identifier name) (.identifier other)) state wanted limited := by
  have native : state.scope.operators.implementations.get? BinaryOperator.less.token = none := by
    rw [operators]
    exact run.natives.native "<" (by decide)
  refine .arithmetic native (.identifier named (.identifier named' ?_))
  exact ⟨_, _, _, rfl, rfl, isInteger.apply_less isInteger', holds⟩

end Trees

/-! ## Functions -/

/-- The row of arguments is a further list. -/
theorem Holds.listed (holds : run.Holds state.heap row) (values : List Value) :
    run.Holds (state.listed values).heap row :=
  ⟨holds.push values.toArray, holds.shuffled⟩

section Functions

variable {wanted : Value → (Nat → Number) → Prop} (holds : run.Holds state.heap row)
  (operators : state.scope.operators = run.operators)
include holds operators

/-- A function does what its body does, and the caller's scope is back. -/
theorem applies_function {handle : Nat} {function : Function} {arguments : List Value}
    (cell : run.heap.function handle = function) (fixed : function.variadic = false)
    (count : arguments.length = function.params.length)
    (does : ∀ inside : State, inside.heap = state.heap →
      inside.scope = callScope state.scope handle function arguments →
      inside.scope.operators = run.operators →
      Does course function.body inside
        (fun value reached => ∃ heap scope after,
          reached = { inside with heap := heap, scope := scope } ∧ run.Holds heap after ∧
            wanted value after) run.Limited) :
    Applies course (.function handle) arguments state (run.Returns state wanted) run.Limited := by
  refine .function (by rw [holds.function, cell]) fixed count ⟨row, holds⟩ ?_
  let inside : State :=
    { state with
      scope := callScope state.scope handle function arguments
      outer := state.scope :: state.outer
      depth := state.depth + 1 }
  refine (does inside rfl rfl ?_).mono ?_
  · exact (operators_callScope _ _ _ _).trans operators
  · rintro value _ ⟨heap, scope, after, rfl, kept, met⟩
    exact ⟨rfl, rfl, heap, after, rfl, kept, met⟩

/-- Two entries are exchanged. -/
theorem applies_swap {first second : Number} {place place' : Nat} (isFirst : first.IsInteger place)
    (inside : place < run.count) (isSecond : second.IsInteger place')
    (inside' : place' < run.count) :
    Applies course (.function run.swap) [.number first, .number second] state
      (run.Returns state fun _ after => after = row ∘ Equiv.swap place place') run.Limited := by
  refine applies_function holds operators run.swapCell rfl rfl ?_
  intro frame sameHeap starts operators
  rw [← sameHeap] at holds
  have list : frame.scope.lookup? "a" = some (.list run.list) := by
    rw [starts, lookup?_callScope, Scope.lookup?_child_of_remembers run.swapList]
    rfl
  have setter : frame.scope.lookup? "set" = some (.builtin run.set) := by
    rw [starts, lookup?_callScope, Scope.lookup?_child_of_remembers run.swapSet]
    rfl
  have named : frame.scope.lookup? "i" = some (.number first) := by
    rw [starts, lookup?_callScope]
    rfl
  have named' : frame.scope.lookup? "j" = some (.number second) := by
    rw [starts, lookup?_callScope]
    rfl
  have native := run.natives.native "@" (by decide)
  let scope := frame.scope.bind "t" (.number (row place))
  have kept : ∀ {name : String} {value : Value}, name ≠ "t" →
      frame.scope.lookup? name = some value → scope.lookup? name = some value := by
    intro name value other found
    rw [Scope.lookup?_bind, if_neg other, found]
  have saved : scope.lookup? "t" = some (.number (row place)) := by
    rw [Scope.lookup?_bind, if_pos rfl]
  refine .body (.cons (.binding
    (does_entry operators holds.toContains list named isFirst inside ?_)))
  refine .cons (.application (operators ▸ native) (.identifier (kept (by decide) setter) ⟨rfl, ?_⟩))
  refine .cons (.identifier (kept (by decide) list) ?_)
  refine .cons (.identifier (kept (by decide) named) ?_)
  refine .cons (does_entry operators holds.toContains (kept (by decide) list)
    (kept (by decide) named') isSecond inside' ?_)
  refine .nil (applies_set (holds.push _) isFirst inside ?_)
  intro heap written
  refine .cons (.application (operators ▸ native) (.identifier (kept (by decide) setter) ⟨rfl, ?_⟩))
  refine .cons (.identifier (kept (by decide) list) ?_)
  refine .cons (.identifier (kept (by decide) named') ?_)
  refine .cons (.identifier saved ?_)
  refine .nil (applies_set (written.push _) isSecond inside' ?_)
  intro heap written
  have exchanged : Function.update (Function.update row place (row place')) place' (row place) =
      row ∘ Equiv.swap place place' := by
    rw [Equiv.swap_comm, Equiv.comp_swap_eq_update]
  rw [exchanged] at written
  have shuffled := holds.shuffled.trans
    (.exchange row (Nat.zero_le place) inside (Nat.zero_le place') inside')
  exact .nil ⟨_, _, _, rfl, ⟨written, shuffled⟩, rfl⟩

end Functions

/-! ## A pass over a part -/

/-- A pass over the part from `start` up to `last` has come to a place: the entries in front of it
are parted at a border, and `k` stands in front of that. -/
structure Passes (run : Run) (frame : Scope) (row : Nat → Number) (start last place border : Nat)
    (after : Nat → Number) (heap : Heap) (scope : Scope) : Prop where
  operators : scope.operators = run.operators
  seen : ∀ {name : String}, name ≠ "j" → name ≠ "k" → scope.lookup? name = frame.lookup? name
  counter : ∃ index, scope.lookup? "j" = some (.number index) ∧ index.IsInteger place
  bound : ∃ index, scope.lookup? "k" = some (.number index) ∧
    index.IsInteger ((border : Int) - 1)
  holds : run.Holds heap after
  shuffled : Shuffled start last row after
  parted : Parted rank after (rank (row last)) start border place

theorem Holds.real {heap : Heap} (holds : run.Holds heap row) (place : Nat) :
    (row place).isReal := by
  obtain ⟨moved, _, rfl⟩ := holds.shuffled
  exact run.real (moved place)

section Pass

variable {frame : State} {start last place border : Nat} {after : Nat → Number} {heap : Heap}
  {scope : Scope} {high : Number}

/-- The counter goes on to the next place. -/
theorem does_count (frame : State) (operators : scope.operators = run.operators)
    (seen : ∀ {name : String}, name ≠ "j" → name ≠ "k" →
      scope.lookup? name = frame.scope.lookup? name)
    (counter : ∃ index, scope.lookup? "j" = some (.number index) ∧ index.IsInteger place)
    (bound : ∃ index, scope.lookup? "k" = some (.number index) ∧
      index.IsInteger ((border : Int) - 1))
    (holds : run.Holds heap after) (shuffled : Shuffled start last row after)
    (parted : Parted rank after (rank (row last)) start border (place + 1))
    (small : place < 2 ^ 53) :
    Does course (.operation Syntax.bindToken (.identifier "j") (following "j"))
      { frame with heap := heap, scope := scope }
      (fun _ reached => ∃ border after heap scope,
        reached = { frame with heap := heap, scope := scope } ∧
          run.Passes frame.scope row start last (place + 1) border after heap scope)
      run.Limited := by
  obtain ⟨index, named, isInteger⟩ := counter
  obtain ⟨index', named', isInteger'⟩ := bound
  refine .binding (does_following operators named isInteger (abs_le.mpr (by omega)) ?_)
  intro next isNext
  refine ⟨border, after, heap, scope.bind "j" (.number next), rfl, operators,
    fun other other' => ?_, ⟨next, ?_, isNext⟩, ⟨index', ?_, isInteger'⟩, holds, shuffled, parted⟩
  · rw [Scope.lookup?_bind, if_neg other, seen other other']
  · rw [Scope.lookup?_bind, if_pos rfl]
  · rw [Scope.lookup?_bind, if_neg (by decide), named']

/-- An entry below the pivot is put in front of the border, any other stays where it is. -/
theorem Passes.round (passes : run.Passes frame.scope row start last place border after heap scope)
    (list : frame.scope.lookup? "a" = some (.list run.list))
    (swap : frame.scope.lookup? "swap" = some (.function run.swap))
    (pivot : frame.scope.lookup? "pivot" = some (.number (row last)))
    (within : place < last) (inside : last < run.count) :
    Does course passBody { frame with heap := heap, scope := scope }
      (fun _ middle => Does course (.operation Syntax.bindToken (.identifier "j") (following "j"))
        middle
        (fun _ reached => ∃ border after heap scope,
          reached = { frame with heap := heap, scope := scope } ∧
            run.Passes frame.scope row start last (place + 1) border after heap scope)
        run.Limited) run.Limited := by
  have short := run.short
  have most := passes.parted.last
  obtain ⟨index, named, isInteger⟩ := passes.counter
  obtain ⟨index', named', isInteger'⟩ := passes.bound
  have list := (passes.seen (by decide) (by decide)).trans list
  have swap := (passes.seen (by decide) (by decide)).trans swap
  have pivot := (passes.seen (by decide) (by decide)).trans pivot
  have pivotReal : (row last).isReal := by
    rw [← passes.shuffled.outside (Or.inr le_rfl)]
    exact passes.holds.real last
  have native : ∀ token ∈ ["@", "->", "?", "#", "+", "-", "<"],
      scope.operators.implementations.get? token = none := by
    rw [passes.operators]
    exact run.natives.native
  refine .conditional (native "?" (by decide)) (.arithmetic (native "<" (by decide))
    (does_entry passes.operators passes.holds.toContains list named isInteger (by omega)
      (.identifier pivot
        ⟨_, _, _, rfl, rfl, Number.apply_less (passes.holds.real place) pivotReal, ?_⟩)))
  by_cases isBelow : rank (after place) < rank (row last)
  · rw [decide_eq_true (show Double.rank _ < Double.rank _ from isBelow)]
    refine .body (.cons (.binding (does_following passes.operators named' isInteger'
      (abs_le.mpr (by omega)) fun next isNext => ?_)))
    rw [sub_add_cancel] at isNext
    let middle : State := { frame with heap := heap, scope := scope.bind "k" (.number next) }
    have operators : middle.scope.operators = run.operators := passes.operators
    have kept : ∀ {name : String} {value : Value}, name ≠ "k" →
        scope.lookup? name = some value →
          (scope.bind "k" (.number next)).lookup? name = some value := by
      intro name value other found
      rw [Scope.lookup?_bind, if_neg other, found]
    have seen : ∀ {name : String}, name ≠ "j" → name ≠ "k" →
        (scope.bind "k" (.number next)).lookup? name = frame.scope.lookup? name := by
      intro name other other'
      rw [Scope.lookup?_bind, if_neg other', passes.seen other other']
    have moved : (scope.bind "k" (.number next)).lookup? "k" = some (.number next) := by
      rw [Scope.lookup?_bind, if_pos rfl]
    have behind : ((border + 1 : Nat) : Int) - 1 = border := by omega
    refine .cons (.application (native "@" (by decide))
      (.identifier (kept (by decide) swap) ⟨rfl, ?_⟩))
    refine .cons (.identifier moved (.cons (.identifier (kept (by decide) named) (.nil ?_))))
    have held : run.Holds middle.heap after := passes.holds
    refine (applies_swap (held.listed _) operators isNext
      (by omega) isInteger (by omega)).mono ?_
    rintro _ _ ⟨heap, _, rfl, holds, rfl⟩
    exact .nil (does_count frame operators seen
      ⟨index, kept (by decide) named, isInteger⟩ ⟨next, moved, behind.symm ▸ isNext⟩ holds
      (passes.shuffled.trans (.exchange after passes.parted.first (by omega)
        (passes.parted.first.trans most) within))
      (passes.parted.exchange isBelow) (by omega))
  · rw [decide_eq_false (show ¬ Double.rank _ < Double.rank _ from isBelow)]
    exact .number (does_count frame passes.operators passes.seen ⟨index, named, isInteger⟩
      ⟨index', named', isInteger'⟩ passes.holds passes.shuffled
      (passes.parted.keep (not_lt.mp isBelow)) (by omega))

end Pass

section Parts

variable {low high : Number} {start : Nat} (holds : run.Holds state.heap row)
  (operators : state.scope.operators = run.operators) (isLow : low.IsInteger start)
include holds operators isLow

/-- A pass over a part brings its last entry between the entries below it and the others. -/
theorem applies_part {last : Nat} (isHigh : high.IsInteger last) (ordered : start < last)
    (inside : last < run.count) :
    Applies course (.function run.part) [.number low, .number high] state
      (run.Returns state fun value after => ∃ (index : Number) (center : Nat),
        value = .number index ∧ index.IsInteger center ∧ Shuffled start (last + 1) row after ∧
          Centered rank after start center (last + 1)) run.Limited := by
  refine applies_function holds operators run.partCell rfl rfl ?_
  intro frame sameHeap starts operators
  rw [← sameHeap] at holds
  have short := run.short
  have list : frame.scope.lookup? "a" = some (.list run.list) := by
    rw [starts, lookup?_callScope, Scope.lookup?_child_of_remembers run.partList]
    rfl
  have swap : frame.scope.lookup? "swap" = some (.function run.swap) := by
    rw [starts, lookup?_callScope, Scope.lookup?_child_of_remembers run.partSwap]
    rfl
  have bottom : frame.scope.lookup? "lo" = some (.number low) := by
    rw [starts, lookup?_callScope]
    rfl
  have top : frame.scope.lookup? "hi" = some (.number high) := by
    rw [starts, lookup?_callScope]
    rfl
  have native : ∀ token ∈ ["@", "->", "?", "#", "+", "-", "<"],
      frame.scope.operators.implementations.get? token = none := by
    rw [operators]
    exact run.natives.native
  refine .body (.cons (.binding (does_entry operators holds.toContains list top isHigh inside ?_)))
  -- From here on the pivot is known, and the loop starts from this scope.
  let scope := frame.scope.bind "pivot" (.number (row last))
  have kept : ∀ {name : String} {value : Value}, name ≠ "pivot" →
      frame.scope.lookup? name = some value → scope.lookup? name = some value := by
    intro name value other found
    rw [Scope.lookup?_bind, if_neg other, found]
  have pivot : scope.lookup? "pivot" = some (.number (row last)) := by
    rw [Scope.lookup?_bind, if_pos rfl]
  refine .cons (.binding (does_preceding operators (kept (by decide) bottom) isLow
    (abs_le.mpr (by omega)) fun before isBefore => ?_))
  let base : State := { frame with scope := scope }
  refine .cons (.forLoop (native "#" (by decide)) rfl
    (fun rounds reached => ∃ place border after heap scope, place + rounds = last ∧
      reached = { base with heap := heap, scope := scope } ∧
        run.Passes base.scope row start last place border after heap scope) ?_ ?_ ?_)
  · have bottom' : (scope.bind "k" (.number before)).lookup? "lo" = some (.number low) :=
      (Scope.lookup?_bind _ _ _ _).trans ((if_neg (by decide)).trans (kept (by decide) bottom))
    refine .binding (.identifier bottom' ⟨last - start, start, start, row, _, _, by omega, rfl,
      operators, fun other other' => ?_, ⟨low, ?_, isLow⟩, ⟨before, ?_, isBefore⟩, holds,
      .refl start last row, .none row _ start⟩)
    · exact (Scope.lookup?_bind _ _ _ _).trans ((if_neg other).trans
        ((Scope.lookup?_bind _ _ _ _).trans (if_neg other')))
    · exact (Scope.lookup?_bind _ _ _ _).trans (if_pos rfl)
    · exact (Scope.lookup?_bind _ _ _ _).trans ((if_neg (by decide)).trans
        ((Scope.lookup?_bind _ _ _ _).trans (if_pos rfl)))
  · rintro rounds _ ⟨place, border, after, heap, scope', total, rfl, passes⟩
    have within : place < last := by omega
    obtain ⟨index, named, isInteger⟩ := passes.counter
    have top' := (passes.seen (by decide) (by decide)).trans (kept (by decide) top)
    refine does_less passes.operators named isInteger top' isHigh ⟨?_, ?_⟩
    · rw [OnHeap.isTruthy_ofBool, decide_eq_true_eq]
      exact_mod_cast within
    · refine (passes.round (kept (by decide) list) (kept (by decide) swap) pivot within
        inside).mono fun _ _ counts => counts.mono ?_
      rintro _ _ ⟨border, after, heap, scope', rfl, passes⟩
      exact ⟨place + 1, border, after, heap, scope', by omega, rfl, passes⟩
  · rintro value _ ⟨place, border, after, heap, scope', rfl, rfl, passes⟩
    obtain ⟨index, named, isInteger⟩ := passes.counter
    obtain ⟨index', named', isInteger'⟩ := passes.bound
    have top' := (passes.seen (by decide) (by decide)).trans (kept (by decide) top)
    have swap' := (passes.seen (by decide) (by decide)).trans (kept (by decide) swap)
    have native' : scope'.operators.implementations.get? "@" = none := by
      rw [passes.operators]
      exact run.natives.native "@" (by decide)
    have first := passes.parted.first
    have most := passes.parted.last
    refine does_less passes.operators named isInteger top' isHigh ⟨?_, ?_⟩
    · rw [OnHeap.isTruthy_ofBool, decide_eq_false_iff_not]
      simp
    · refine .cons (.application native' (.identifier swap' ⟨rfl, ?_⟩))
      refine .cons (does_following passes.operators named' isInteger' (abs_le.mpr (by omega))
        fun next isNext => ?_)
      rw [sub_add_cancel] at isNext
      let finished : State := { frame with heap := heap, scope := scope' }
      have operators : finished.scope.operators = run.operators := passes.operators
      refine .cons (.identifier top' (.nil ?_))
      have held : run.Holds finished.heap after := passes.holds
      refine (applies_swap (held.listed _) operators isNext
        (by omega) isHigh inside).mono ?_
      rintro _ _ ⟨heap, _, rfl, holds, rfl⟩
      refine .cons (does_following passes.operators named' isInteger' (abs_le.mpr (by omega))
        fun next isNext => ?_)
      rw [sub_add_cancel] at isNext
      have unmoved := passes.shuffled.outside (Or.inr le_rfl)
      have parted := passes.parted
      rw [← unmoved] at parted
      exact .nil ⟨heap, _, _, rfl, holds, next, border, rfl, isNext,
        (passes.shuffled.widen le_rfl (Nat.le_succ place)).trans
          (.exchange after first (by omega) ordered.le (Nat.lt_succ_self place)),
        parted.center⟩

end Parts

/-- A part is put in order. The induction is on its length: what stands on either side of the entry
in the middle is shorter. -/
theorem applies_sort (size : Nat) {state : State} {row : Nat → Number} {low high : Number}
    {start stop : Nat} (length : stop - start = size)
    (holds : run.Holds state.heap row) (operators : state.scope.operators = run.operators)
    (isLow : low.IsInteger start) (isHigh : high.IsInteger ((stop : Int) - 1))
    (forward : start ≤ stop) (inside : stop ≤ run.count) :
    Applies course (.function run.sort) [.number low, .number high] state
      (run.Returns state fun _ after =>
        Shuffled start stop row after ∧ Ordered rank after start stop) run.Limited := by
  induction size using Nat.strong_induction_on generalizing state row low high start stop with
  | _ size inductionHypothesis =>
    refine applies_function holds operators run.sortCell rfl rfl ?_
    intro frame sameHeap starts operators
    rw [← sameHeap] at holds
    have short := run.short
    have part : frame.scope.lookup? "part" = some (.function run.part) := by
      rw [starts, lookup?_callScope, Scope.lookup?_child_of_remembers run.sortPart]
      rfl
    have sort : frame.scope.lookup? "sort" = some (.function run.sort) := by
      rw [starts, lookup?_callScope]
      rfl
    have bottom : frame.scope.lookup? "lo" = some (.number low) := by
      rw [starts, lookup?_callScope]
      rfl
    have top : frame.scope.lookup? "hi" = some (.number high) := by
      rw [starts, lookup?_callScope]
      rfl
    have native : ∀ token ∈ ["@", "->", "?", "#", "+", "-", "<"],
        frame.scope.operators.implementations.get? token = none := by
      rw [operators]
      exact run.natives.native
    refine .conditional (native "?" (by decide))
      (does_less operators bottom isLow top isHigh ?_)
    by_cases several : (start : Int) < (stop : Int) - 1
    · rw [decide_eq_true several]
      obtain ⟨last, rfl⟩ : ∃ last, stop = last + 1 := ⟨stop - 1, by omega⟩
      have isLast : high.IsInteger last := by
        have same : ((last + 1 : Nat) : Int) - 1 = last := by omega
        rwa [same] at isHigh
      refine .body (.cons (.binding (.application (native "@" (by decide))
        (.identifier part ⟨rfl, .cons (.identifier bottom (.cons (.identifier top (.nil ?_))))⟩))))
      refine (applies_part (Holds.listed holds _) operators isLow isLast (by omega)
        (by omega)).mono ?_
      rintro _ _ ⟨heap, parted, rfl, holds, index, center, rfl, isInteger, shuffled, centered⟩
      have first := centered.first
      have behind := centered.last
      let scope := frame.scope.bind "p" (.number index)
      have kept : ∀ {name : String} {value : Value}, name ≠ "p" →
          frame.scope.lookup? name = some value → scope.lookup? name = some value := by
        intro name value other found
        rw [Scope.lookup?_bind, if_neg other, found]
      have middle : scope.lookup? "p" = some (.number index) := by
        rw [Scope.lookup?_bind, if_pos rfl]
      let base : State := { frame with heap := heap, scope := scope }
      have held : run.Holds base.heap parted := holds
      have operators : base.scope.operators = run.operators := operators
      refine .cons (.application (native "@" (by decide)) (.identifier (kept (by decide) sort)
        ⟨rfl, .cons (.identifier (kept (by decide) bottom) (.cons
          (does_preceding operators middle isInteger (abs_le.mpr (by omega))
            fun previous isPrevious => .nil ?_)))⟩))
      refine (inductionHypothesis (center - start) (by omega) rfl (held.listed _) operators isLow
        isPrevious first (by omega)).mono ?_
      rintro _ _ ⟨heap, left, rfl, holds, leftShuffled, leftOrdered⟩
      let base : State := { frame with heap := heap, scope := scope }
      have held : run.Holds base.heap left := holds
      refine .cons (.application (native "@" (by decide)) (.identifier (kept (by decide) sort)
        ⟨rfl, .cons (does_following operators middle isInteger (abs_le.mpr (by omega))
          fun next isNext => .cons (.identifier (kept (by decide) top) (.nil ?_)))⟩))
      refine (inductionHypothesis (last + 1 - (center + 1)) (by omega) rfl (held.listed _) operators
        isNext isHigh (by omega) inside).mono ?_
      rintro _ _ ⟨heap, right, rfl, holds, rightShuffled, rightOrdered⟩
      exact .nil ⟨heap, scope, right, rfl, holds,
        (shuffled.trans (leftShuffled.widen le_rfl behind.le)).trans
          (rightShuffled.widen (by omega) le_rfl),
        .join centered leftShuffled leftOrdered rightShuffled rightOrdered⟩
    · rw [decide_eq_false several]
      exact .number ⟨_, _, row, rfl, holds, .refl start stop row, .of_short row (by omega)⟩

end Run

end Sorting

end Fixity
