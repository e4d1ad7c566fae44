import Fixity.Proofs.Integrality
import Fixity.Value.Basic

/-!
Contract: doubles in order, and the integers among them.

Owns:
- `Binary.Canonical`, what is known of the digits and the exponent of every finite double;
- `Double.lt_iff_value_lt`: finite doubles are ordered as the numbers they stand for;
- `Double.IsInteger` and `Value.IsInteger`, the doubles and the values that stand for an integer;
- the checked conversions, which find the integer of every double that stands for one of safe size.

Does not own: arithmetic on integers.
-/

namespace Fixity

open Float.Model Float.Model.UnpackedFloat

/-! ## Numbers as operations take them apart -/

namespace Binary

/-- The sign of a number. -/
def sign (number : Binary) : Sign := if number.negative then .negative else .positive

/-- The parts of a number that the operations on doubles work with. -/
def unpacked (number : Binary) : UnpackedFloat :=
  if positive : 0 < number.significand then
    .finite number.sign number.significand number.exponent positive
  else
    .zero number.sign

/-- The form in which a double is read: as many digits as fit, or the least exponent. -/
structure Canonical (number : Binary) : Prop where
  short : number.significand < 2 ^ 53
  least : -1074 ≤ number.exponent
  full : 2 ^ 52 ≤ number.significand ∨ number.exponent = -1074

variable {number other : Binary}

/-- The exponent decides between two numbers whose significands are full. -/
private theorem magnitude_lt_of_exponent (canonical : number.Canonical)
    (canonical' : other.Canonical) (below : number.exponent < other.exponent) :
    (number.significand : ℚ) * 2 ^ number.exponent <
      (other.significand : ℚ) * 2 ^ other.exponent := by
  have full : 2 ^ 52 ≤ other.significand := by
    rcases canonical'.full with full | least
    · exact full
    · have := canonical.least
      omega
  calc (number.significand : ℚ) * 2 ^ number.exponent
      < 2 ^ 53 * 2 ^ number.exponent := by
        have short : (number.significand : ℚ) < 2 ^ 53 := by exact_mod_cast canonical.short
        gcongr
    _ = 2 ^ 52 * 2 ^ (number.exponent + 1) := by
        rw [zpow_add_one₀ (by norm_num)]
        ring
    _ ≤ (other.significand : ℚ) * 2 ^ other.exponent := by
        have wide : (2 ^ 52 : ℚ) ≤ other.significand := by exact_mod_cast full
        gcongr
        · norm_num
        · omega

theorem compare_magnitudes (canonical : number.Canonical) (canonical' : other.Canonical) :
    (compare number.exponent other.exponent).then
        (compare number.significand other.significand) =
      compare ((number.significand : ℚ) * 2 ^ number.exponent)
        ((other.significand : ℚ) * 2 ^ other.exponent) := by
  rcases lt_trichotomy number.exponent other.exponent with below | same | above
  · rw [compare_lt_iff_lt.mpr below,
      compare_lt_iff_lt.mpr (magnitude_lt_of_exponent canonical canonical' below)]
    rfl
  · have positive : (0 : ℚ) < 2 ^ other.exponent := by positivity
    rw [same, compare_eq_iff_eq.mpr rfl]
    show compare number.significand other.significand = _
    rcases lt_trichotomy number.significand other.significand with less | equal | greater
    · rw [compare_lt_iff_lt.mpr less, eq_comm, compare_lt_iff_lt]
      exact mul_lt_mul_of_pos_right (by exact_mod_cast less) positive
    · rw [equal, compare_eq_iff_eq.mpr rfl, compare_eq_iff_eq.mpr rfl]
    · rw [compare_gt_iff_gt.mpr greater, eq_comm, compare_gt_iff_gt]
      exact mul_lt_mul_of_pos_right (by exact_mod_cast greater) positive
  · rw [compare_gt_iff_gt.mpr above,
      compare_gt_iff_gt.mpr (magnitude_lt_of_exponent canonical' canonical above)]
    rfl

private theorem magnitude_pos (positive : 0 < number.significand) :
    (0 : ℚ) < number.significand * 2 ^ number.exponent := by positivity

/-- The order of the parts is the order of the numbers. -/
theorem compare_unpacked (canonical : number.Canonical) (canonical' : other.Canonical) :
    number.unpacked.compare other.unpacked = some (compare number.value other.value) := by
  unfold unpacked sign value
  by_cases positive : 0 < number.significand
  · have magnitude := magnitude_pos positive
    by_cases positive' : 0 < other.significand
    · have magnitude' := magnitude_pos positive'
      rw [dif_pos positive, dif_pos positive']
      cases number.negative <;> cases other.negative <;>
        simp only [if_true, if_false, Bool.false_eq_true, UnpackedFloat.compare, one_mul,
          neg_one_mul, Option.some.injEq]
      · exact compare_magnitudes canonical canonical'
      · exact (compare_gt_iff_gt.mpr (by linarith)).symm
      · exact (compare_lt_iff_lt.mpr (by linarith)).symm
      · rw [compare_magnitudes canonical canonical']
        rcases lt_trichotomy ((number.significand : ℚ) * 2 ^ number.exponent)
          (other.significand * 2 ^ other.exponent) with less | equal | greater
        · rw [compare_lt_iff_lt.mpr less, compare_gt_iff_gt.mpr (neg_lt_neg less)]
          rfl
        · rw [equal, compare_eq_iff_eq.mpr rfl, compare_eq_iff_eq.mpr rfl]
          rfl
        · rw [compare_gt_iff_gt.mpr greater, compare_lt_iff_lt.mpr (neg_lt_neg greater)]
          rfl
    · obtain none : other.significand = 0 := by omega
      rw [dif_pos positive, dif_neg positive', none, Nat.cast_zero, zero_mul, mul_zero]
      cases number.negative <;>
        simp only [if_true, if_false, Bool.false_eq_true, UnpackedFloat.compare, one_mul,
          neg_one_mul, Option.some.injEq]
      · exact (compare_gt_iff_gt.mpr magnitude).symm
      · exact (compare_lt_iff_lt.mpr (neg_lt_zero.mpr magnitude)).symm
  · obtain none : number.significand = 0 := by omega
    rw [dif_neg positive, none, Nat.cast_zero, zero_mul, mul_zero]
    by_cases positive' : 0 < other.significand
    · have magnitude' := magnitude_pos positive'
      rw [dif_pos positive']
      cases other.negative <;>
        simp only [if_true, if_false, Bool.false_eq_true, UnpackedFloat.compare, one_mul,
          neg_one_mul, Option.some.injEq]
      · exact (compare_lt_iff_lt.mpr magnitude').symm
      · exact (compare_gt_iff_gt.mpr (neg_lt_zero.mpr magnitude')).symm
    · obtain none' : other.significand = 0 := by omega
      rw [dif_neg positive', none', Nat.cast_zero, zero_mul, mul_zero,
        compare_eq_iff_eq.mpr rfl]
      rfl

end Binary

/-! ## The order of finite doubles -/

namespace Double

variable {value other : Float} {number number' : Binary}

private theorem isNegative_toBitVec (sign : Sign) :
    (if sign.toBitVec == 1#1 then Sign.negative else Sign.positive) = sign := by
  cases sign <;> rfl

/-- The number that a double is read as has the parts of the double. -/
theorem unpack_of_read (reads : Binary.read value = .finite number) :
    UnpackedFloat.unpack layout (bits value) = number.unpacked ∧ number.Canonical := by
  obtain ⟨sign, exponent, fraction, components⟩ := exists_components value
  have finite := finite_of_read components reads
  have fractionLt : fraction.toNat < 2 ^ 52 := fraction.isLt
  rw [read_of_components components finite, Binary.Reading.finite.injEq] at reads
  subst reads
  rw [components]
  unfold Binary.unpacked Binary.sign
  dsimp only
  rw [isNegative_toBitVec]
  by_cases least : exponent = 0#_
  · subst least
    simp only [if_true]
    refine ⟨?_, by dsimp only; omega, le_refl _, Or.inr rfl⟩
    by_cases zero : fraction.toNat = 0
    · obtain rfl : fraction = 0#_ := BitVec.eq_of_toNat_eq zero
      rw [unpack_of_zero, dif_neg (by decide)]
    · rw [unpack_of_subnormal zero, dif_pos (Nat.pos_of_ne_zero zero)]
  · have notLeast : exponent.toNat ≠ 0 := fun none => least (BitVec.eq_of_toNat_eq none)
    simp only [if_neg least]
    refine ⟨?_, by dsimp only; omega, by dsimp only; omega, Or.inl (by dsimp only; omega)⟩
    rw [unpack_of_normal finite least, dif_pos (by positivity)]

/-- Finite doubles are ordered as the numbers they stand for. -/
theorem compare_of_read (reads : Binary.read value = .finite number)
    (reads' : Binary.read other = .finite number') :
    (UnpackedFloat.unpack layout (bits value)).compare
        (UnpackedFloat.unpack layout (bits other)) =
      some (Ord.compare number.value number'.value) := by
  obtain ⟨unpacks, canonical⟩ := unpack_of_read reads
  obtain ⟨unpacks', canonical'⟩ := unpack_of_read reads'
  rw [unpacks, unpacks', Binary.compare_unpacked canonical canonical']

/-- Of two finite doubles the smaller one stands for the smaller number. -/
theorem lt_iff_value_lt (reads : Binary.read value = .finite number)
    (reads' : Binary.read other = .finite number') :
    value < other ↔ number.value < number'.value := by
  rw [← compare_lt_iff_lt, ← Option.some.injEq, ← compare_of_read reads reads']
  show decide _ = true ↔ _
  rw [decide_eq_true_eq]
  exact beq_iff_eq

theorem le_iff_value_le (reads : Binary.read value = .finite number)
    (reads' : Binary.read other = .finite number') :
    value ≤ other ↔ number.value ≤ number'.value := by
  show decide _ = true ↔ _
  rw [decide_eq_true_eq]
  show Option.any Ordering.isLE ((UnpackedFloat.unpack layout (bits value)).compare
    (UnpackedFloat.unpack layout (bits other))) = true ↔ _
  rw [compare_of_read reads reads', Option.any_some, Ordering.isLE_iff_ne_gt,
    compare_gt_iff_gt, not_lt]

/-- Two finite doubles compare equal if they stand for one number. -/
theorem beq_iff_value_eq (reads : Binary.read value = .finite number)
    (reads' : Binary.read other = .finite number') :
    value == other ↔ number.value = number'.value := by
  have same : value == other ↔ some (Ord.compare number.value number'.value) = some .eq := by
    rw [← compare_of_read reads reads']
    show ((UnpackedFloat.unpack layout (bits value)).compare
      (UnpackedFloat.unpack layout (bits other)) == some .eq) = true ↔ _
    rw [beq_iff_eq]
  rw [same, Option.some.injEq, compare_eq_iff_eq]

theorem beq_self_of_isFinite (finite : value.isFinite) : value == value := by
  obtain ⟨number, reads⟩ := exists_read_of_isFinite finite
  exact (beq_iff_value_eq reads reads).mpr rfl

theorem isFinite_of_read (reads : Binary.read value = .finite number) : value.isFinite := by
  obtain ⟨sign, exponent, fraction, components⟩ := exists_components value
  have finite := finite_of_read components reads
  rw [← isFinite_packComponents sign exponent fraction, ← components] at finite
  exact finite

private theorem bits_abs (value : Float) :
    bits value.abs =
      UnpackedFloat.pack layout (UnpackedFloat.unpack layout (bits value)).abs := rfl

private theorem unpack_abs {sign : Sign} {exponent : BitVec layout.exponentBits}
    {fraction : BitVec layout.mantissaBitsWithoutImplicit} :
    (UnpackedFloat.unpack layout (packComponents layout sign exponent fraction)).abs =
      UnpackedFloat.unpack layout (packComponents layout .positive exponent fraction) := by
  unfold UnpackedFloat.unpack
  simp only [unpackMantissa_packComponents, unpackExponent_packComponents,
    unpackSign_packComponents, ofBitVec_toBitVec]
  split_ifs <;> rfl

/-- The absolute value loses the sign and nothing else. -/
theorem read_abs (reads : Binary.read value = .finite number) :
    Binary.read value.abs = .finite { number with negative := false } := by
  obtain ⟨sign, exponent, fraction, components⟩ := exists_components value
  have finite := finite_of_read components reads
  rw [read_of_components components finite, Binary.Reading.finite.injEq] at reads
  subst reads
  have positive : bits value.abs = packComponents layout .positive exponent fraction := by
    rw [bits_abs, components, unpack_abs, pack_unpack finite]
  rw [read_of_components positive finite]
  rfl

end Double

theorem Binary.value_abs (number : Binary) :
    ({ number with negative := false } : Binary).value = |number.value| := by
  have nonneg : (0 : ℚ) ≤ number.significand * 2 ^ number.exponent := by positivity
  unfold value
  cases number.negative
  · simp only [Bool.false_eq_true, if_false, one_mul, abs_of_nonneg nonneg]
  · simp only [Bool.false_eq_true, if_false, if_true, one_mul, neg_one_mul, abs_neg,
      abs_of_nonneg nonneg]

/-! ## Integers -/

/-- A double that stands for an integer. -/
def Double.IsInteger (value : Float) (whole : Int) : Prop :=
  ∃ number, Binary.read value = .finite number ∧ number.value = whole

/-- A value that stands for an integer. -/
def Value.IsInteger (value : Value) (whole : Int) : Prop :=
  ∃ number : Number, value = .number number ∧ number.isReal ∧ Double.IsInteger number.real whole

namespace Double

variable {value other : Float} {whole whole' : Int}

theorem IsInteger.lt_iff (isInteger : IsInteger value whole) (isInteger' : IsInteger other whole') :
    value < other ↔ whole < whole' := by
  obtain ⟨number, reads, stands⟩ := isInteger
  obtain ⟨number', reads', stands'⟩ := isInteger'
  rw [lt_iff_value_lt reads reads', stands, stands', Int.cast_lt]

theorem IsInteger.le_iff (isInteger : IsInteger value whole) (isInteger' : IsInteger other whole') :
    value ≤ other ↔ whole ≤ whole' := by
  obtain ⟨number, reads, stands⟩ := isInteger
  obtain ⟨number', reads', stands'⟩ := isInteger'
  rw [le_iff_value_le reads reads', stands, stands', Int.cast_le]

theorem IsInteger.abs (isInteger : IsInteger value whole) : IsInteger value.abs |whole| := by
  obtain ⟨number, reads, stands⟩ := isInteger
  refine ⟨_, read_abs reads, ?_⟩
  rw [Binary.value_abs, stands, Int.cast_abs]

theorem isInteger_zero : IsInteger 0.0 0 :=
  ⟨⟨false, 0, -1074⟩, by decide +kernel, by simp [Binary.value]⟩

theorem isInteger_greatestSafe : IsInteger (Float.ofNat greatestSafe) (2 ^ 53 - 1) :=
  ⟨⟨false, 2 ^ 53 - 1, 0⟩, by decide +kernel, by simp [Binary.value]⟩

/-- The digits of an integer. -/
private theorem magnitude_eq_natAbs {number : Binary} (stands : number.value = whole) :
    (number.significand : ℚ) * 2 ^ number.exponent = whole.natAbs := by
  rw [Nat.cast_natAbs, Int.cast_abs, ← stands, ← Binary.value_abs]
  simp [Binary.value]

private theorem natAbs_mul {number : Binary} (stands : number.value = whole) :
    number.significand * 2 ^ number.exponent.toNat =
      whole.natAbs * 2 ^ (-number.exponent).toNat := by
  have magnitude := magnitude_eq_natAbs stands
  rw [Binary.significand_mul_zpow, div_eq_iff (by positivity)] at magnitude
  exact_mod_cast magnitude

/-- An integer has no part behind the point. -/
theorem IsInteger.not_isFractional (isInteger : IsInteger value whole) :
    isFractional value = false := by
  obtain ⟨number, reads, stands⟩ := isInteger
  have digits := natAbs_mul stands
  rw [← Bool.not_eq_true, isFractional_iff_mod reads, not_not]
  rcases le_total 0 number.exponent with integral | behind
  · have none : (-number.exponent).toNat = 0 := by omega
    rw [none, Nat.pow_zero, Nat.mod_one]
  · have none : number.exponent.toNat = 0 := by omega
    rw [none, Nat.pow_zero, mul_one] at digits
    rw [digits, Nat.mul_mod_left]

theorem IsInteger.wholePart_eq (isInteger : IsInteger value whole) :
    wholePart value = whole.natAbs := by
  obtain ⟨number, reads, stands⟩ := isInteger
  have digits := natAbs_mul stands
  have scaled : ∀ other : Binary,
      (other.scaledTo 0).natAbs = other.significand * 2 ^ other.exponent.toNat := by
    intro other
    unfold Binary.scaledTo
    dsimp only
    rw [sub_zero, Nat.shiftLeft_eq]
    split
    · rw [Int.natAbs_neg, Int.natAbs_natCast]
    · rw [Int.natAbs_natCast]
  unfold wholePart
  rw [reads]
  dsimp only
  rw [scaled]
  unfold Binary.truncate
  split
  · next integral =>
    have none : (-number.exponent).toNat = 0 := by omega
    rw [digits, none, Nat.pow_zero, mul_one]
  · next behind =>
    have none : number.exponent.toNat = 0 := by omega
    rw [none, Nat.pow_zero, mul_one] at digits
    dsimp only
    rw [digits, Nat.shiftRight_eq_div_pow, Nat.mul_div_cancel _ (by positivity), Int.toNat_zero,
      Nat.pow_zero, mul_one]

private theorem IsInteger.isFinite (isInteger : IsInteger value whole) : value.isFinite := by
  obtain ⟨number, reads, _⟩ := isInteger
  exact isFinite_of_read reads

/-- The integer of a double that stands for one of safe size is found. -/
theorem IsInteger.toInteger (isInteger : IsInteger value whole) (safe : |whole| < 2 ^ 53)
    (role : String) : toInteger value role = .ok whole := by
  have small : ¬ value.abs > Float.ofNat greatestSafe := by
    rw [gt_iff_lt, isInteger_greatestSafe.lt_iff isInteger.abs]
    omega
  unfold Double.toInteger
  rw [isInteger.isFinite, isInteger.not_isFractional, if_neg (by decide), if_neg small,
    isInteger.wholePart_eq]
  congr 1
  by_cases negative : value < 0.0
  · rw [if_pos negative]
    rw [isInteger.lt_iff isInteger_zero] at negative
    omega
  · rw [if_neg negative]
    rw [isInteger.lt_iff isInteger_zero] at negative
    omega

/-- The count of a double that stands for one of safe size is found. -/
theorem IsInteger.toCount {count : Nat} (isInteger : IsInteger value count)
    (safe : count < 2 ^ 53) (role : String) : toCount value role = .ok count := by
  have small : ¬ value > Float.ofNat greatestSafe := by
    rw [gt_iff_lt, isInteger_greatestSafe.lt_iff isInteger]
    omega
  have nonneg : ¬ value < 0.0 := by
    rw [isInteger.lt_iff isInteger_zero]
    omega
  unfold Double.toCount
  rw [isInteger.isFinite, isInteger.not_isFractional, if_neg (by decide), if_neg (by decide),
    if_neg nonneg, if_neg small, isInteger.wholePart_eq, Int.natAbs_natCast]

end Double

namespace Value

variable {value : Value}

theorem IsInteger.asReal {whole : Int} (isInteger : value.IsInteger whole) (role : String) :
    ∃ real, value.asReal role = .ok real ∧ Double.IsInteger real whole := by
  obtain ⟨number, rfl, isReal, stands⟩ := isInteger
  exact ⟨number.real, if_pos isReal, stands⟩

theorem IsInteger.asCount {count : Nat} (isInteger : value.IsInteger count)
    (safe : count < 2 ^ 53) (role : String) : value.asCount role = .ok count := by
  obtain ⟨real, isReal, stands⟩ := isInteger.asReal role
  unfold Value.asCount
  rw [isReal]
  exact stands.toCount safe role

end Value

end Fixity
