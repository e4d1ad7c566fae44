import Mathlib.Data.List.Zip
import Fixity.Proofs.Doubles
import Fixity.Proofs.Pairs

/-!
Contract: the order of the operands of a comparison.

Owns:
- `Double.abs_sub_comm`: the magnitude of a difference of doubles, rounding included, is the same
  both ways;
- tolerant equality of numbers as a symmetric relation.

Main statement: a comparison does the same, down to the cells it adds, if its operands change sides,
whatever they are and wherever they contain themselves.
-/

namespace Fixity

namespace Double

open Float.Model Float.Model.UnpackedFloat

/-- The magnitude of a rounded number does not depend on the sign it is rounded with. -/
private theorem abs_round (sign : Sign) (mantissa : Nat) (exponent : Int) :
    (UnpackedFloat.round layout sign mantissa exponent).abs =
      (UnpackedFloat.round layout .positive mantissa exponent).abs := by
  unfold UnpackedFloat.round roundWithAccuracy
  dsimp only
  split <;> rfl

private theorem abs_normalize_neg (mantissa exponent : Int) :
    (UnpackedFloat.normalize layout (-mantissa) exponent .positive).abs =
      (UnpackedFloat.normalize layout mantissa exponent .positive).abs := by
  unfold UnpackedFloat.normalize
  rcases lt_trichotomy mantissa 0 with below | rfl | above
  · have mirrored : Ord.compare (-mantissa) 0 = .gt := Int.compare_eq_gt.mpr (by omega)
    have same : Ord.compare mantissa 0 = .lt := Int.compare_eq_lt.mpr below
    simp only [mirrored, same]
    exact (abs_round .negative _ _).symm
  · rfl
  · have mirrored : Ord.compare (-mantissa) 0 = .lt := Int.compare_eq_lt.mpr (by omega)
    have same : Ord.compare mantissa 0 = .gt := Int.compare_eq_gt.mpr above
    simp only [mirrored, same, Int.neg_neg]
    exact abs_round .negative _ _

/-- The magnitude of a difference does not depend on the order of its sides. -/
private theorem abs_sub_unpacked (left right : UnpackedFloat) :
    (UnpackedFloat.sub layout left right).abs = (UnpackedFloat.sub layout right left).abs := by
  cases left with
  | finite leftSign leftMantissa leftExponent leftPositive =>
      cases right with
      | finite rightSign rightMantissa rightExponent rightPositive =>
          unfold UnpackedFloat.sub
          dsimp only
          rw [min_comm rightExponent, ← abs_normalize_neg, Int.neg_sub]
      | _ => rfl
  | infinity leftSign =>
      cases right with
      | infinity rightSign => cases leftSign <;> cases rightSign <;> rfl
      | _ => rfl
  | zero leftSign =>
      cases right with
      | zero rightSign => cases leftSign <;> cases rightSign <;> rfl
      | _ => rfl
  | notANumber => cases right <;> rfl

private theorem abs_unpack_packComponents (sign : Sign) (exponent : BitVec layout.exponentBits)
    (fraction : BitVec layout.mantissaBitsWithoutImplicit) :
    (UnpackedFloat.unpack layout (packComponents layout sign exponent fraction)).abs =
      (UnpackedFloat.unpack layout (packComponents layout .positive exponent fraction)).abs := by
  unfold UnpackedFloat.unpack
  simp only [unpackMantissa_packComponents, unpackExponent_packComponents,
    unpackSign_packComponents]
  split
  · split <;> rfl
  · split
    · split <;> rfl
    · rfl

/-- A number is packed with its sign beside a pattern that the sign has no part in. -/
private theorem exists_pack_finite {mantissa : Nat} (exponent : Int) (positive : 0 < mantissa) :
    ∃ biased fraction, ∀ sign, UnpackedFloat.pack layout (.finite sign mantissa exponent positive) =
      packComponents layout sign biased fraction := by
  unfold UnpackedFloat.pack
  dsimp only
  split
  · exact ⟨_, _, fun _ => rfl⟩
  · split
    · exact ⟨_, _, fun _ => rfl⟩
    · exact ⟨_, _, fun _ => rfl⟩

/-- The magnitude of what is packed does not depend on its sign. -/
private theorem abs_unpack_pack (value : UnpackedFloat) :
    (UnpackedFloat.unpack layout (UnpackedFloat.pack layout value)).abs =
      (UnpackedFloat.unpack layout (UnpackedFloat.pack layout value.abs)).abs := by
  cases value with
  | notANumber => rfl
  | infinity sign => exact abs_unpack_packComponents sign _ _
  | zero sign => exact abs_unpack_packComponents sign _ _
  | finite sign mantissa exponent positive =>
      obtain ⟨biased, fraction, packed⟩ := exists_pack_finite exponent positive
      rw [UnpackedFloat.abs, packed, packed, abs_unpack_packComponents]

theorem abs_sub_comm (left right : Float) : (left - right).abs = (right - left).abs := by
  apply eq_of_bits
  show UnpackedFloat.pack layout (UnpackedFloat.unpack layout (UnpackedFloat.pack layout
      (UnpackedFloat.sub layout (UnpackedFloat.unpack layout (bits left))
        (UnpackedFloat.unpack layout (bits right))))).abs =
    UnpackedFloat.pack layout (UnpackedFloat.unpack layout (UnpackedFloat.pack layout
      (UnpackedFloat.sub layout (UnpackedFloat.unpack layout (bits right))
        (UnpackedFloat.unpack layout (bits left))))).abs
  rw [abs_unpack_pack, abs_sub_unpacked, ← abs_unpack_pack]

theorem same_comm (left right : Float) : same left right = same right left := by
  unfold same compare
  grind

end Double

theorem Number.same_comm (left right : Number) : left.same right = right.same left := by
  unfold same
  rw [Double.same_comm left.real, Double.same_comm left.imaginary]

theorem Number.nearlyEqual_comm (left right : Number) :
    left.nearlyEqual right = right.nearlyEqual left := by
  unfold nearlyEqual isNearlyZero isNearlyReal isNearlyImaginary sub
  rw [Number.same_comm left, Double.abs_sub_comm left.real, Double.abs_sub_comm left.imaginary]

/-! ## Comparisons -/

theorem Value.spreads_comm (left right : Value) : left.spreads right = right.spreads left := by
  cases left <;> cases right <;> rfl

theorem Value.bothLists_comm (left right : Value) : left.bothLists right = right.bothLists left :=
  Bool.and_comm _ _

theorem Heap.equates_comm (heap : Heap) (left right : Value) :
    heap.equates left right = heap.equates right left := by
  cases left <;> cases right <;> try rfl
  · exact Number.nearlyEqual_comm _ _
  · exact Bool.beq_comm

theorem Heap.pairs_swap (heap : Heap) (left right : Value) :
    (heap.pairs left right).map Prod.swap = heap.pairs right left := by
  cases left with
  | list left =>
      cases right with
      | list right => exact List.zip_swap _ _
      | _ => exact List.map_map
  | _ =>
      cases right with
      | list right => exact List.map_map
      | _ => rfl

namespace OnHeap

/-- Two values are entered in either order: a failure names the walk and not the value. -/
theorem enterBoth_comm {β : Type} (lefts rights : Path) (left right : Value) (operation : String)
    (next : Path → Path → OnHeap β) :
    ((liftM (lefts.enter left operation) : OnHeap Path) >>= fun insideLeft =>
        (liftM (rights.enter right operation) : OnHeap Path) >>= next insideLeft) =
      (liftM (rights.enter right operation) : OnHeap Path) >>= fun insideRight =>
        (liftM (lefts.enter left operation) : OnHeap Path) >>= fun insideLeft =>
          next insideLeft insideRight := by
  unfold Path.enter
  cases lefts.open? left <;> cases rights.open? right <;> rfl

theorem allPairs_swap (compare : Value → Value → OnHeap Value) (negate : Bool)
    (pairs : List (Value × Value)) :
    allPairs compare negate (pairs.map Prod.swap) =
      allPairs (fun left right => compare right left) negate pairs := by
  induction pairs with
  | nil => rfl
  | cons pair rest inductionHypothesis =>
      rw [List.map_cons, allPairs, allPairs, inductionHypothesis]
      rfl

theorem equalityWithin_comm (negate : Bool) (room : Nat) (lefts rights : Path)
    (left right : Value) :
    equalityWithin negate room lefts rights left right =
      equalityWithin negate room rights lefts right left := by
  induction room generalizing lefts rights left right with
  | zero => rfl
  | succ room inductionHypothesis =>
      have below (lefts rights : Path) :
          equalityWithin negate room lefts rights =
            fun left right => equalityWithin negate room rights lefts right left :=
        funext₂ fun left right => inductionHypothesis lefts rights left right
      rw [equalityWithin_succ, equalityWithin_succ, enterBoth_comm]
      refine congrArg _ (funext fun insideRight => congrArg _ (funext fun insideLeft =>
        congrArg _ (funext fun heap => ?_)))
      unfold compareLevel
      rw [← heap.pairs_swap left right, List.mapM_map, allPairs_swap, below insideLeft insideRight,
        left.spreads_comm, left.bothLists_comm, heap.equates_comm left]
      simp only [eq_comm]
      rfl

/-- `=` and `!=` do not depend on the order of their operands: the results are the same, or both
comparisons fail with the same error, which is that a value contains itself. -/
theorem equality_symmetric (negate : Bool) (left right : Value) (heap : Heap) :
    equality negate left right heap = equality negate right left heap ∧
    ∀ error later, equality negate left right heap = .error error later →
      error = .cyclicValue "compare" := by
  constructor
  · exact congrFun (equalityWithin_comm negate heap.room [] [] left right) heap
  · exact fun error later failed => equality_fails failed

end OnHeap

end Fixity
