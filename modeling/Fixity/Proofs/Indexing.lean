import Fixity.Proofs.Exactness
import Fixity.Proofs.Ranks
import Fixity.Proofs.Rows

/-!
Contract: lists at integer places.

Owns:
- `Value.IsInteger.add` and its like, arithmetic and order on values that stand for integers;
- `Collection.position_eq`: the place that such a value stands for;
- what reading, writing and counting give on a list, unless it is longer than doubles can count.

Does not own: texts, objects and trees.
-/

namespace Fixity

open Eval

/-! ## Integers -/

namespace Number

variable {first second : Number} {whole whole' : Int}

private theorem beq_zero_add {first second : Float} (zero : first == 0.0) (zero' : second == 0.0) :
    first + second == 0.0 := by
  rcases Double.eq_zero_of_beq zero with rfl | rfl <;>
    rcases Double.eq_zero_of_beq zero' with rfl | rfl <;> decide +kernel

private theorem beq_zero_sub {first second : Float} (zero : first == 0.0) (zero' : second == 0.0) :
    first - second == 0.0 := by
  rcases Double.eq_zero_of_beq zero with rfl | rfl <;>
    rcases Double.eq_zero_of_beq zero' with rfl | rfl <;> decide +kernel

/-- A number that stands for an integer. -/
def IsInteger (number : Number) (whole : Int) : Prop :=
  number.isReal ∧ Double.IsInteger number.real whole

theorem IsInteger.add (isInteger : first.IsInteger whole) (isInteger' : second.IsInteger whole')
    (small : |whole + whole'| ≤ 2 ^ 53) : (first.add second).IsInteger (whole + whole') :=
  ⟨beq_zero_add isInteger.1 isInteger'.1, isInteger.2.add isInteger'.2 small⟩

theorem IsInteger.sub (isInteger : first.IsInteger whole) (isInteger' : second.IsInteger whole')
    (small : |whole - whole'| ≤ 2 ^ 53) : (first.sub second).IsInteger (whole - whole') :=
  ⟨beq_zero_sub isInteger.1 isInteger'.1, isInteger.2.sub isInteger'.2 small⟩

theorem isInteger_ofNat {count : Nat} (small : count ≤ 2 ^ 53) : (ofNat count).IsInteger count :=
  ⟨isReal_ofReal _, Double.isInteger_ofNat small⟩

example : (ofNat (2 ^ 53 + 1)).compare (ofNat (2 ^ 53)) = .eq := by decide +kernel

theorem isInteger_zero : zero.IsInteger 0 := ⟨by decide +kernel, Double.isInteger_zero⟩

theorem isInteger_one : one.IsInteger 1 :=
  ⟨by decide +kernel, ⟨false, 2 ^ 52, -52⟩, by decide +kernel, by norm_num [Binary.value]⟩

/-- Two real numbers are compared by their ranks. -/
theorem apply_less (isReal : first.isReal) (isReal' : second.isReal) :
    apply .less first second =
      .ok (.ofBool (Double.rank first.real < Double.rank second.real)) := by
  show Except.ok (ofBool (decide (first.compare second = .lt))) = _
  rw [decide_eq_decide.mpr (compare_lt_of_isReal isReal isReal')]

theorem IsInteger.rank_eq (isInteger : first.IsInteger whole) :
    Double.rank first.real = toLex (0, (whole : ℚ)) := by
  obtain ⟨_, number, reads, stands⟩ := isInteger
  unfold Double.rank
  rw [reads]
  dsimp only
  rw [stands]

theorem IsInteger.apply_less (isInteger : first.IsInteger whole)
    (isInteger' : second.IsInteger whole') :
    apply .less first second = .ok (.ofBool (whole < whole')) := by
  rw [Number.apply_less isInteger.1 isInteger'.1, isInteger.rank_eq, isInteger'.rank_eq]
  simp [Prod.Lex.toLex_lt_toLex]

end Number

/-! ## Places in lists -/

section Places

variable {index : Number} {place : Nat} {handle : Nat} {items : Array Value} {state : State}

theorem Collection.position_eq {length : Nat} (isInteger : index.IsInteger place)
    (inside : place < length) (short : length ≤ 2 ^ 53) :
    Collection.position (.number index) length = .ok place := by
  have nonneg : ¬ index.real < 0.0 := by
    rw [isInteger.2.lt_iff Double.isInteger_zero]
    omega
  have notBeyond : ¬ Float.ofNat length ≤ index.real := by
    rw [(Double.isInteger_ofNat short).le_iff isInteger.2]
    omega
  unfold Collection.position Value.asReal
  dsimp only
  rw [if_pos isInteger.1]
  show (if decide (index.real < 0.0) || decide (Float.ofNat length ≤ index.real) then _ else _) = _
  rw [decide_eq_false nonneg, decide_eq_false notBeyond]
  exact isInteger.2.toCount (by omega) "index"

variable (cell : state.heap.lists[handle]? = some items)
include cell

private theorem list_of_cell : state.heap.list handle = items := by
  unfold Heap.list
  rw [Array.getD_eq_getD_getElem?, cell]
  rfl

theorem callNative_get (isInteger : index.IsInteger place) (inside : place < items.size)
    (short : items.size ≤ 2 ^ 53) (interpreter : Interpreter) :
    callNative interpreter .get [.list handle, .number index] state = .ok items[place] state := by
  show Eval.onHeap (Collection.read (.list handle) (.number index)) state = _
  refine onHeap_of_ok ?_
  show (do
    let place ← Collection.position (.number index) (state.heap.list handle).size
    return (state.heap.list handle).getD place .zero : OnHeap Value) state.heap = _
  rw [list_of_cell cell, Collection.position_eq isInteger inside short]
  show EStateM.Result.ok (items.getD place .zero) state.heap = _
  rw [Array.getD_eq_getD_getElem?, Array.getElem?_eq_getElem inside]
  rfl

theorem callNative_set (isInteger : index.IsInteger place) (inside : place < items.size)
    (short : items.size ≤ 2 ^ 53) (value : Value) (interpreter : Interpreter) :
    callNative interpreter .set [.list handle, .number index, value] state =
      .ok value
        { state with
          heap := { state.heap with
            lists := state.heap.lists.modify handle fun items =>
              items.setIfInBounds place value } } := by
  show Eval.onHeap (Collection.write (.list handle) (.number index) value) state = _
  refine onHeap_of_ok ?_
  show (do
    let place ← Collection.position (.number index) (state.heap.list handle).size
    OnHeap.modifyList handle fun items => items.setIfInBounds place value
    return value : OnHeap Value) state.heap = _
  rw [list_of_cell cell, Collection.position_eq isInteger inside short]
  rfl

theorem callNative_len (interpreter : Interpreter) :
    callNative interpreter .len [.list handle] state = .ok (.ofNat items.size) state := by
  show Eval.onHeap (Collection.size (.list handle)) state = _
  refine onHeap_of_ok ?_
  show EStateM.Result.ok (Value.ofNat (state.heap.list handle).toList.length) state.heap = _
  rw [list_of_cell cell, Array.length_toList]

end Places

end Fixity
