import Fixity.Proofs.Ranks
import Fixity.Proofs.Sorting

/-!
Contract: `qsort`.

Owns:
- `State.Sorts`, the states in which `qsort` is the function of the standard library;
- `State.Sorts.does_request`: `qsort @ [list]` sorts a list of real numbers in place, or it meets
  the limit on calls and has shuffled the list.

Does not own: that the standard library defines `qsort` so.
-/

namespace Fixity

open Eval

namespace Sorting

/-- `qsort @ [name]` -/
def request (name : String) : Node :=
  .operation "@" (.identifier "qsort") (.list [.identifier name])

/-! ## Rows of lists -/

/-- The row that starts with the numbers. -/
def rowOf (numbers : List Number) (place : Nat) : Number := numbers.getD place .zero

theorem map_rowOf (numbers : List Number) :
    (List.range numbers.length).map (rowOf numbers) = numbers := by
  apply List.ext_getElem
  · rw [List.length_map, List.length_range]
  · intro place within within'
    rw [List.getElem_map, List.getElem_range]
    exact List.getD_eq_getElem numbers Number.zero within'

theorem contents_eq (count : Nat) (row : Nat → Number) :
    contents count row = (((List.range count).map row).map Value.number).toArray := by
  rw [List.map_map]
  rfl

theorem isReal_rowOf {numbers : List Number} (real : ∀ number ∈ numbers, number.isReal)
    (place : Nat) : (rowOf numbers place).isReal := by
  unfold rowOf
  rcases Nat.lt_or_ge place numbers.length with within | beyond
  · rw [List.getD_eq_getElem numbers Number.zero within]
    exact real _ (List.getElem_mem within)
  · rw [List.getD_eq_default numbers Number.zero beyond]
    exact Number.isInteger_zero.1

/-- The first entries of a row in the order of their ranks are numbers in ascending order. -/
theorem pairwise_of_ordered {count : Nat} {row : Nat → Number}
    (real : ∀ place, (row place).isReal) (ordered : Ordered rank row 0 count) :
    ((List.range count).map row).Pairwise Number.Precedes := by
  rw [List.pairwise_map]
  refine List.pairwise_lt_range.imp_of_mem fun _ member less => ?_
  exact (Number.precedes_iff_of_isReal (real _) (real _)).mpr
    (ordered _ _ (Nat.zero_le _) less.le (List.mem_range.mp member))

/-! ## Heaps after sorting -/

/-- The list has its numbers in some order, and the other lists are as before. -/
structure Rearranges (before : Heap) (list : Nat) (numbers sorted : List Number) (after : Heap) :
    Prop where
  perm : sorted.Perm numbers
  cell : after.lists[list]? = some (sorted.map Value.number).toArray
  others : ∀ {other : Nat} {items : Array Value}, other ≠ list →
    before.lists[other]? = some items → after.lists[other]? = some items

theorem Rearranges.of_listed {state : State} {values : List Value} {list : Nat}
    {numbers sorted : List Number} {after : Heap}
    (rearranges : Rearranges (state.listed values).heap list numbers sorted after) :
    Rearranges state.heap list numbers sorted after := by
  refine ⟨rearranges.perm, rearranges.cell, fun different found => ?_⟩
  refine rearranges.others different ?_
  obtain ⟨within, same⟩ := Array.getElem?_eq_some_iff.mp found
  exact (Array.getElem?_push_lt within).trans (congrArg some same)

/-! ## The body -/

/-- The state in which the three functions are defined. -/
def prepared (state : State) : State :=
  ((state.defined "swap" ["i", "j"] swapBody).defined "part" ["lo", "hi"] partBody).defined
    "sort" ["lo", "hi"] sortBody

/-- What the body starts from. -/
structure Begins (state : State) (list : Nat) (numbers : List Number) (get set length : Nat) :
    Prop where
  natives : Natives state.scope.operators state.heap get set
  measures : (state.heap.builtin length).action = .native .len
  setter : state.scope.lookup? "set" = some (.builtin set)
  measure : state.scope.lookup? "len" = some (.builtin length)
  named : state.scope.lookup? "a" = some (.list list)
  cell : state.heap.lists[list]? = some (numbers.map Value.number).toArray
  real : ∀ number ∈ numbers, number.isReal
  short : numbers.length ≤ 2 ^ 53

namespace Begins

variable {host : Host} {course : Course host} {state : State} {list get set length : Nat}
  {numbers : List Number}

theorem lookup?_prepared (state : State) (name : String) :
    (prepared state).scope.lookup? name =
      if name = "sort" then some (.function (state.heap.functions.size + 2))
      else if name = "part" then some (.function (state.heap.functions.size + 1))
      else if name = "swap" then some (.function state.heap.functions.size)
      else state.scope.lookup? name := by
  unfold prepared
  simp only [State.lookup?_defined, State.size_functions_defined]

/-- The run that starts once the three functions are defined. -/
def run (begins : Begins state list numbers get set length) : Run where
  operators := state.scope.operators
  heap := (prepared state).heap
  list := list
  count := numbers.length
  entries := rowOf numbers
  get := get
  set := set
  swap := state.heap.functions.size
  part := state.heap.functions.size + 1
  sort := state.heap.functions.size + 2
  swapClosure := state.scope.bindings
  partClosure := (state.defined "swap" ["i", "j"] swapBody).scope.bindings
  sortClosure := ((state.defined "swap" ["i", "j"] swapBody).defined "part" ["lo", "hi"]
    partBody).scope.bindings
  short := begins.short
  real := isReal_rowOf begins.real
  natives := begins.natives.of_builtins rfl
  swapCell := by
    rw [prepared, State.function_defined, if_neg (by simp; omega), State.function_defined,
      if_neg (by simp), State.function_defined, if_pos rfl]
  partCell := by
    rw [prepared, State.function_defined, if_neg (by simp), State.function_defined,
      if_pos (by simp)]
  sortCell := by
    rw [prepared, State.function_defined, if_pos (by simp)]
  swapList := begins.named
  swapSet := begins.setter
  partList := (State.lookup?_defined _ _ _ _ _).trans begins.named
  partSwap := State.lookup?_defined _ _ _ _ _
  sortPart := by
    refine (State.lookup?_defined _ _ _ _ _).trans ?_
    rw [if_pos rfl, State.size_functions_defined]

theorem holds (begins : Begins state list numbers get set length) :
    begins.run.Holds (prepared state).heap (rowOf numbers) where
  rest := rfl
  others _ found := found
  cell := by
    show state.heap.lists[list]? = _
    rw [begins.cell, contents_eq]
    show _ = some (((List.range numbers.length).map (rowOf numbers)).map Value.number).toArray
    rw [map_rowOf]
  shuffled := .refl 0 numbers.length (rowOf numbers)

theorem rearranges (begins : Begins state list numbers get set length) {heap : Heap}
    {row : Nat → Number} (holds : begins.run.Holds heap row) :
    Rearranges state.heap list numbers ((List.range numbers.length).map row) heap where
  perm := by
    have perm := holds.shuffled.perm le_rfl
    rwa [show (List.range begins.run.count).map begins.run.entries = numbers from
      map_rowOf numbers] at perm
  cell := by
    rw [← contents_eq]
    exact holds.cell
  others := holds.others

/-- The body sorts the list. -/
theorem does_body (begins : Begins state list numbers get set length) :
    Does course body state
      (fun value reached => ∃ heap scope sorted, value = .list list ∧
        reached = { state with heap := heap, scope := scope } ∧
          Rearranges state.heap list numbers sorted heap ∧ sorted.Pairwise Number.Precedes)
      (fun heap => ∃ sorted, Rearranges state.heap list numbers sorted heap) := by
  refine @Settles.mono_limited _ _ _ _ _ begins.run.Limited _ ?_
    fun heap ⟨row, holds⟩ => ⟨_, begins.rearranges holds⟩
  have native := begins.natives.native
  refine Does.body (.cons (.define (native "->" (by decide)) rfl
    (.cons (.define (native "->" (by decide)) rfl
      (.cons (.define (native "->" (by decide)) rfl ?_))))))
  show DoesStatements course _ _ (prepared state) _ _
  have sort : (prepared state).scope.lookup? "sort" = some (.function begins.run.sort) :=
    lookup?_prepared state "sort"
  have measure : (prepared state).scope.lookup? "len" = some (.builtin length) :=
    (lookup?_prepared state "len").trans begins.measure
  have named : (prepared state).scope.lookup? "a" = some (.list list) :=
    (lookup?_prepared state "a").trans begins.named
  have minus : (prepared state).scope.operators.implementations.get? BinaryOperator.sub.token =
      none := native "-" (by decide)
  have short := begins.short
  have isHigh := (Number.isInteger_ofNat short).sub Number.isInteger_one (abs_le.mpr (by omega))
  refine .cons (.application (native "@" (by decide)) (.identifier sort ⟨rfl, .cons (.number
    (.cons (.arithmetic minus ?_)))⟩))
  -- The length of the list is known from here on.
  refine .application (native "@" (by decide)) (.identifier measure ⟨rfl, .cons (.identifier named
    (.nil ?_))⟩)
  let measured : State := (prepared state).listed [.list list]
  have held : begins.run.Holds measured.heap (rowOf numbers) := begins.holds.listed _
  refine .native begins.measures (fun interpreter => callNative_len held.cell interpreter) ?_
  rw [size_contents]
  refine .number ⟨_, _, _, rfl, rfl, rfl, .nil ?_⟩
  refine (Run.applies_sort _ rfl (held.listed _) rfl Number.isInteger_zero
    isHigh (Nat.zero_le _) le_rfl).mono ?_
  rintro _ _ ⟨heap, row, rfl, holds, shuffled, ordered⟩
  exact .cons (.identifier named (.nil ⟨heap, _, _, rfl, rfl, begins.rearranges holds,
    pairwise_of_ordered holds.real ordered⟩))

end Begins

end Sorting

/-! ## States with `qsort` -/

namespace State

open Sorting

/-- The name `qsort` is bound to the function of the standard library, which knows `set` and `len`
as the native functions. -/
structure Sorts (state : State) where
  handle : Nat
  closure : Bindings
  get : Nat
  set : Nat
  length : Nat
  bound : state.scope.lookup? "qsort" = some (.function handle)
  cell : state.heap.function handle = ⟨["a"], body, closure, false, ["qsort"]⟩
  setter : Remembers closure "set" (.builtin set)
  measure : Remembers closure "len" (.builtin length)
  measures : (state.heap.builtin length).action = .native .len
  natives : Natives state.scope.operators state.heap get set

variable {state : State} {host : Host} {course : Course host}

/-- A further list changes nothing. -/
def Sorts.listed (sorts : state.Sorts) (values : List Value) : Sorts (state.listed values) :=
  { sorts with natives := sorts.natives.of_builtins rfl }

/-- A further name changes nothing. -/
def Sorts.bind (sorts : state.Sorts) {name : String} (different : name ≠ "qsort") (value : Value) :
    Sorts { state with scope := state.scope.bind name value } :=
  { sorts with
    bound := by rw [Scope.lookup?_bind, if_neg different.symm, sorts.bound]
    natives := sorts.natives }

section Requests

variable {list : Nat} {numbers : List Number} (sorts : state.Sorts)
  (cell : state.heap.lists[list]? = some (numbers.map Value.number).toArray)
  (real : ∀ number ∈ numbers, number.isReal) (short : numbers.length ≤ 2 ^ 53)
include sorts cell real short

/-- An application of `qsort` sorts the list in place and gives it back. -/
theorem Sorts.applies : Applies course (.function sorts.handle) [.list list] state
    (fun value reached => ∃ heap sorted, value = .list list ∧
      reached = { state with heap := heap } ∧
        Rearranges state.heap list numbers sorted heap ∧ sorted.Pairwise Number.Precedes)
    fun heap => ∃ sorted, Rearranges state.heap list numbers sorted heap := by
  refine .function sorts.cell rfl rfl ⟨numbers, .refl numbers, cell, fun _ found => found⟩ ?_
  let scope := callScope state.scope sorts.handle
    ⟨["a"], body, sorts.closure, false, ["qsort"]⟩ [.list list]
  have operators : scope.operators = state.scope.operators := operators_callScope _ _ _ _
  have begins : Begins
      { state with
        scope := scope
        outer := state.scope :: state.outer
        depth := state.depth + 1 }
      list numbers sorts.get sorts.set sorts.length :=
    { natives := operators.symm ▸ sorts.natives
      measures := sorts.measures
      setter := lookup?_callScope.trans (Scope.lookup?_child_of_remembers sorts.setter)
      measure := lookup?_callScope.trans (Scope.lookup?_child_of_remembers sorts.measure)
      named := lookup?_callScope
      cell := cell
      real := real
      short := short }
  refine begins.does_body.mono ?_
  rintro _ _ ⟨heap, scope, sorted, rfl, rfl, rearranges, ascending⟩
  exact ⟨rfl, rfl, heap, sorted, rfl, rfl, rearranges, ascending⟩

/-- An application of `qsort` to a name of the list. -/
theorem Sorts.does_request {name : String} (named : state.scope.lookup? name = some (.list list)) :
    Does course (request name) state
      (fun value reached => ∃ heap sorted, value = .list list ∧
        reached = { state with heap := heap } ∧
          Rearranges state.heap list numbers sorted heap ∧ sorted.Pairwise Number.Precedes)
      fun heap => ∃ sorted, Rearranges state.heap list numbers sorted heap := by
  have native := sorts.natives.native "@" (by decide)
  have listed : (state.listed [.list list]).heap.lists[list]? =
      some (numbers.map Value.number).toArray := by
    obtain ⟨within, same⟩ := Array.getElem?_eq_some_iff.mp cell
    exact (Array.getElem?_push_lt within).trans (congrArg some same)
  have applies : Applies course (.function sorts.handle) [.list list] (state.listed [.list list])
      _ _ := (sorts.listed _).applies listed real short
  refine .application native (.identifier sorts.bound ⟨rfl, .cons (.identifier named (.nil ?_))⟩)
  refine (applies.mono ?_).mono_limited fun _ limited => limited.imp fun _ => .of_listed
  rintro _ _ ⟨heap, sorted, rfl, rfl, rearranges, ascending⟩
  exact ⟨heap, sorted, rfl, rfl, rearranges.of_listed, ascending⟩

end Requests

end State

end Fixity
