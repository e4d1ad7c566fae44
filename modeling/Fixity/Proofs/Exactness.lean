import Fixity.Proofs.Integers

/-!
Contract: sums of integers that doubles can hold.

Owns:
- `Double.read_of_pack`: a number in canonical form is packed into a double that is read as it;
- `Double.round_of_canonical`: rounding does nothing to a number that a double can hold;
- `Double.IsInteger.add`, `Double.IsInteger.sub` and `Double.isInteger_ofNat`: integers up to `2 ^ 53`
  are added, subtracted and counted without rounding.

Does not own: rounding where it changes a number.
-/

namespace Fixity

open Float.Model Float.Model.UnpackedFloat

namespace Double

variable {value other : Float} {number addend : Binary} {sign : Sign}

/-! ## Packing -/

private theorem pack_of_wide {significand : Nat} {exponent : Int} (wide : 2 ^ 52 ≤ significand)
    (short : significand < 2 ^ 53) (least : -1074 ≤ exponent) (greatest : exponent ≤ 971) :
    UnpackedFloat.pack layout
        (.finite sign significand exponent (Nat.lt_of_lt_of_le (by decide) wide)) =
      packComponents layout sign (BitVec.ofNat _ (exponent + 1075).toNat)
        (BitVec.ofNat _ significand) := by
  have biased : (exponent + layout.exponentBias + layout.mantissaBitsWithoutImplicit).toNat =
      (exponent + 1075).toNat := by
    show (exponent + ((1023 : Nat) : Int) + ((52 : Nat) : Int)).toNat = _
    congr 1
    omega
  have inRange : ¬ 2 ^ layout.exponentBits ≤ (exponent + 1075).toNat + 1 := by
    show ¬ 2 ^ 11 ≤ _
    omega
  have normal : significand.log2 + 1 = layout.mantissaBits := by
    show significand.log2 + 1 = 53
    rw [(Nat.log2_eq_iff (by omega)).mpr ⟨wide, short⟩]
  unfold UnpackedFloat.pack
  dsimp only
  rw [biased, if_neg inRange, if_pos normal]

private theorem pack_of_narrow {significand : Nat} (positive : 0 < significand)
    (narrow : significand < 2 ^ 52) :
    UnpackedFloat.pack layout (.finite sign significand (-1074) positive) =
      packComponents layout sign 0#_ (BitVec.ofNat _ significand) := by
  have subnormal : ¬ significand.log2 + 1 = layout.mantissaBits := by
    show ¬ significand.log2 + 1 = 53
    have := (Nat.log2_lt positive.ne').mpr narrow
    omega
  unfold UnpackedFloat.pack
  dsimp only
  rw [if_neg (by decide), if_neg subnormal]

private theorem toBitVec_sign (number : Binary) :
    (number.sign.toBitVec == 1#1) = number.negative := by
  unfold Binary.sign
  cases number.negative <;> rfl

/-- A number in canonical form is read from the double that it is packed into. -/
theorem read_of_pack (canonical : number.Canonical) (greatest : number.exponent ≤ 971)
    (packed : bits value = UnpackedFloat.pack layout number.unpacked) :
    Binary.read value = .finite number := by
  have least := canonical.least
  have short := canonical.short
  unfold Binary.unpacked at packed
  by_cases positive : 0 < number.significand
  · rw [dif_pos positive] at packed
    by_cases wide : 2 ^ 52 ≤ number.significand
    · rw [pack_of_wide wide short least greatest] at packed
      have placed : (BitVec.ofNat layout.exponentBits (number.exponent + 1075).toNat).toNat =
          (number.exponent + 1075).toNat := by
        show (number.exponent + 1075).toNat % 2 ^ 11 = _
        omega
      have fraction : (BitVec.ofNat layout.mantissaBitsWithoutImplicit number.significand).toNat =
          number.significand - 2 ^ 52 := by
        show number.significand % 2 ^ 52 = _
        omega
      have notLeast : BitVec.ofNat layout.exponentBits (number.exponent + 1075).toNat ≠ 0#_ := by
        intro none
        rw [none] at placed
        have : (0 : Nat) = (number.exponent + 1075).toNat := placed
        omega
      have finite : BitVec.ofNat layout.exponentBits (number.exponent + 1075).toNat ≠ -1#_ := by
        intro special
        rw [special] at placed
        have : (2047 : Nat) = (number.exponent + 1075).toNat := placed
        omega
      have significand : 2 ^ 52 + (number.significand - 2 ^ 52) = number.significand := by omega
      have exponent : ((number.exponent + 1075).toNat : Int) - 1075 = number.exponent := by omega
      rw [read_of_components packed finite, if_neg notLeast, if_neg notLeast, placed, fraction,
        toBitVec_sign, significand, exponent]
    · have narrow := not_le.mp wide
      have lowest := canonical.full.resolve_left wide
      have fraction : (BitVec.ofNat layout.mantissaBitsWithoutImplicit number.significand).toNat =
          number.significand := by
        show number.significand % 2 ^ 52 = _
        omega
      rw [show UnpackedFloat.finite number.sign number.significand number.exponent positive =
        .finite number.sign number.significand (-1074) positive by rw [lowest],
        pack_of_narrow positive narrow] at packed
      rw [read_of_components packed (by decide), if_pos rfl, if_pos rfl, fraction, toBitVec_sign,
        ← lowest]
  · have none : number.significand = 0 := by omega
    have lowest : number.exponent = -1074 := canonical.full.resolve_left (by omega)
    rw [dif_neg positive] at packed
    have components : bits value = packComponents layout number.sign 0#_ 0#_ := packed
    have fraction : (0#_ : BitVec layout.mantissaBitsWithoutImplicit).toNat = number.significand := none.symm
    rw [read_of_components components (by decide), if_pos rfl, if_pos rfl, fraction, toBitVec_sign,
      ← lowest]

/-! ## Rounding -/

private theorem shiftRight_multiple (digits places : Nat) :
    (⟨digits * 2 ^ places, false, false⟩ : ExtendedMantissa) >>> places =
      ⟨digits, false, false⟩ := by
  show Nat.repeat ExtendedMantissa.shiftRightOne places _ = _
  induction places generalizing digits with
  | zero => simp [Nat.repeat]
  | succ places inductionHypothesis =>
      have one : digits * 2 ^ (places + 1) = digits * 2 * 2 ^ places := by ring
      rw [one]
      show ExtendedMantissa.shiftRightOne (Nat.repeat _ places _) = _
      rw [inductionHypothesis]
      unfold ExtendedMantissa.shiftRightOne
      simp

/-- The digits of a double are those that rounding aims for. -/
private theorem targetExponent_of_canonical (canonical : number.Canonical)
    (positive : 0 < number.significand) {mantissa : Nat} {exponent : Int}
    (total : totalExponent mantissa exponent = number.significand.log2 + 1 + number.exponent) :
    layout.targetExponent (totalExponent mantissa exponent) = number.exponent := by
  have short := (Nat.log2_lt positive.ne').mpr canonical.short
  have least := canonical.least
  have full : number.significand.log2 = 52 ∨ number.exponent = -1074 := by
    refine canonical.full.imp_left fun wide => ?_
    exact (Nat.log2_eq_iff positive.ne').mpr ⟨wide, canonical.short⟩
  show max (totalExponent mantissa exponent - ((53 : Nat) : Int)) (-1074) = number.exponent
  omega

/-- Digits behind those of a double are dropped if they are zeros. -/
theorem shiftToTargetExponent_of_canonical (canonical : number.Canonical)
    (positive : 0 < number.significand) {mantissa places : Nat} {exponent : Int}
    (digits : mantissa = number.significand * 2 ^ places)
    (scale : exponent = number.exponent - places) :
    shiftToTargetExponent layout mantissa exponent .exact =
      (⟨number.significand, false, false⟩, number.exponent) := by
  have total : totalExponent mantissa exponent =
      number.significand.log2 + 1 + number.exponent := by
    unfold totalExponent
    rw [digits, scale, log2_mul_two_pow positive.ne']
    push_cast
    ring
  have amount : (number.exponent - exponent).toNat = places := by omega
  have back : exponent + (places : Int) = number.exponent := by omega
  unfold shiftToTargetExponent shiftToExponent
  dsimp only
  rw [targetExponent_of_canonical canonical positive total, amount, back, digits]
  exact congrArg (·, number.exponent) (shiftRight_multiple number.significand places)

theorem roundWithAccuracy_of_canonical (canonical : number.Canonical)
    (positive : 0 < number.significand) {mantissa places : Nat} {exponent : Int}
    (digits : mantissa = number.significand * 2 ^ places)
    (scale : exponent = number.exponent - places) :
    roundWithAccuracy layout number.sign mantissa exponent .exact = number.unpacked := by
  have first := shiftToTargetExponent_of_canonical canonical positive digits scale
  have second : shiftToTargetExponent layout number.significand number.exponent .exact =
      (⟨number.significand, false, false⟩, number.exponent) :=
    @shiftToTargetExponent_of_canonical _ canonical positive _ 0 _ (by simp) (by simp)
  unfold roundWithAccuracy Binary.unpacked
  simp only [first, second, ExtendedMantissa.roundedMantissa, ExtendedMantissa.accuracy,
    Accuracy.roundToNearestEven, positive.ne', dite_false, positive, dite_true]

/-- A number that a double can hold is not changed by rounding. -/
theorem round_of_canonical (canonical : number.Canonical) (positive : 0 < number.significand)
    {mantissa : Nat} {exponent : Int}
    (same : (mantissa : ℚ) * 2 ^ exponent = number.significand * 2 ^ number.exponent) :
    UnpackedFloat.round layout number.sign mantissa exponent = number.unpacked := by
  unfold UnpackedFloat.round decreaseExponent
  dsimp only
  rcases le_total exponent number.exponent with le | ge
  · obtain ⟨places, placed⟩ := Int.exists_add_of_le le
    have digits : mantissa = number.significand * 2 ^ places := by
      rw [placed, zpow_add₀ (by norm_num), zpow_natCast, mul_comm (2 ^ exponent : ℚ),
        ← mul_assoc] at same
      exact_mod_cast mul_right_cancel₀ (by positivity : (2 : ℚ) ^ exponent ≠ 0) same
    have total : totalExponent mantissa exponent =
        number.significand.log2 + 1 + number.exponent := by
      unfold totalExponent
      rw [digits, placed, log2_mul_two_pow positive.ne']
      push_cast
      ring
    have amount : (exponent - number.exponent).toNat = 0 := by omega
    rw [targetExponent_of_canonical canonical positive total, amount, Nat.shiftLeft_zero,
      Nat.cast_zero, sub_zero]
    exact roundWithAccuracy_of_canonical canonical positive digits (by omega)
  · obtain ⟨places, placed⟩ := Int.exists_add_of_le ge
    have digits : mantissa * 2 ^ places = number.significand := by
      rw [placed, zpow_add₀ (by norm_num), zpow_natCast, mul_comm (2 ^ number.exponent : ℚ),
        ← mul_assoc] at same
      exact_mod_cast mul_right_cancel₀ (by positivity : (2 : ℚ) ^ number.exponent ≠ 0) same
    have nonzero : mantissa ≠ 0 := by
      rintro rfl
      omega
    have total : totalExponent mantissa exponent =
        number.significand.log2 + 1 + number.exponent := by
      unfold totalExponent
      rw [← digits, placed, log2_mul_two_pow nonzero]
      push_cast
      ring
    have amount : (exponent - number.exponent).toNat = places := by omega
    have lowered : exponent - (places : Int) = number.exponent := by omega
    rw [targetExponent_of_canonical canonical positive total, amount, Nat.shiftLeft_eq, digits,
      lowered]
    exact @roundWithAccuracy_of_canonical _ canonical positive _ 0 _ (by simp) (by simp)

end Double

/-! ## Integers that doubles can hold -/

namespace Binary

variable {number addend : Binary} {whole : Int}

/-- The number with the other sign. -/
def negate (number : Binary) : Binary := { number with negative := !number.negative }

theorem Canonical.negate (canonical : number.Canonical) : number.negate.Canonical := by
  obtain ⟨short, least, full⟩ := canonical
  exact ⟨short, least, full⟩

theorem value_negate (number : Binary) : number.negate.value = -number.value := by
  unfold Binary.negate value
  cases number.negative <;> simp

theorem unpacked_negate (number : Binary) : number.negate.unpacked = number.unpacked.neg := by
  unfold Binary.negate unpacked sign
  split_ifs <;> simp_all <;> rfl

theorem canonical_zero : (⟨false, 0, -1074⟩ : Binary).Canonical :=
  ⟨by decide, le_rfl, Or.inr rfl⟩

/-- A number of this size is far below the greatest double. -/
theorem Canonical.exponent_le (canonical : number.Canonical) (small : |number.value| ≤ 2 ^ 53) :
    number.exponent ≤ 971 := by
  by_contra beyond
  have full : 2 ^ 52 ≤ number.significand := canonical.full.resolve_right (by omega)
  have wide : (2 ^ 52 : ℚ) ≤ number.significand := by exact_mod_cast full
  have great : (2 : ℚ) ^ (2 : Int) ≤ 2 ^ number.exponent :=
    zpow_le_zpow_right₀ (by norm_num) (by omega)
  have magnitude : |number.value| = number.significand * 2 ^ number.exponent := by
    rw [← value_abs]
    simp [value]
  have large : (2 ^ 52 : ℚ) * 2 ^ (2 : Int) ≤ |number.value| := by
    rw [magnitude]
    gcongr
  exact absurd (large.trans small) (by norm_num)

/-- Some double holds an integer of at most 53 digits. -/
theorem exists_canonical (small : |whole| ≤ 2 ^ 53) :
    ∃ number : Binary, number.Canonical ∧ number.value = whole := by
  have signed : ∀ {magnitude : ℚ}, magnitude = whole.natAbs →
      (if decide (whole < 0) then -1 else 1) * magnitude = whole := by
    rintro _ rfl
    rcases lt_or_ge whole 0 with below | above
    · rw [if_pos (by simpa using below), Nat.cast_natAbs, abs_of_neg below]
      push_cast
      ring
    · rw [if_neg (by simpa using above), Nat.cast_natAbs, abs_of_nonneg above, one_mul]
  rcases Nat.eq_zero_or_pos whole.natAbs with none | positive
  · exact ⟨⟨false, 0, -1074⟩, canonical_zero, by simp [value, Int.natAbs_eq_zero.mp none]⟩
  · rcases Nat.lt_or_ge whole.natAbs (2 ^ 53) with short | greatest
    · have digits := (Nat.log2_lt positive.ne').mpr short
      obtain ⟨least, most⟩ := (Nat.log2_eq_iff positive.ne').mp rfl
      have split : 2 ^ whole.natAbs.log2 * 2 ^ (52 - whole.natAbs.log2) = 2 ^ 52 := by
        rw [← Nat.pow_add, Nat.add_sub_cancel' (by omega)]
      refine ⟨⟨decide (whole < 0), whole.natAbs * 2 ^ (52 - whole.natAbs.log2),
        whole.natAbs.log2 - 52⟩, ⟨?_, by dsimp only; omega, Or.inl ?_⟩, signed ?_⟩
      · calc whole.natAbs * 2 ^ (52 - whole.natAbs.log2)
            < 2 ^ (whole.natAbs.log2 + 1) * 2 ^ (52 - whole.natAbs.log2) := by gcongr
          _ = 2 ^ 53 := by
            rw [pow_succ, mul_right_comm, split]
            norm_num
      · rw [← split]
        exact Nat.mul_le_mul_right _ least
      · dsimp only
        have places : (whole.natAbs.log2 : Int) - 52 = -((52 - whole.natAbs.log2 : Nat) : Int) := by
          omega
        rw [places, zpow_neg, zpow_natCast]
        push_cast
        field_simp
    · have exact : whole.natAbs = 2 ^ 53 := by
        rw [Int.abs_eq_natAbs] at small
        omega
      refine ⟨⟨decide (whole < 0), 2 ^ 52, 1⟩, ⟨by norm_num, by norm_num, Or.inl le_rfl⟩, signed ?_⟩
      rw [exact]
      norm_num

end Binary

namespace Double

variable {number addend : Binary} {whole : Int}

/-- Normalization does not change a number that a double can hold. -/
theorem normalize_of_canonical (canonical : number.Canonical) {mantissa exponent : Int}
    (same : (mantissa : ℚ) * 2 ^ exponent = number.value) :
    ∃ result : Binary, result.Canonical ∧ result.value = number.value ∧
      UnpackedFloat.normalize layout mantissa exponent .positive = result.unpacked := by
  have scale : (0 : ℚ) < 2 ^ exponent := by positivity
  have magnitude : (0 : ℚ) ≤ number.significand * 2 ^ number.exponent := by positivity
  unfold UnpackedFloat.normalize
  rcases lt_trichotomy mantissa 0 with below | rfl | above
  · have negative : (mantissa : ℚ) * 2 ^ exponent < 0 :=
      mul_neg_of_neg_of_pos (by exact_mod_cast below) scale
    rw [same] at negative
    have sign : number.negative = true := by
      by_contra positive
      rw [Bool.not_eq_true] at positive
      exact absurd (Binary.value_nonneg (Or.inl positive)) (not_le.mpr negative)
    have digits : 0 < number.significand := by
      by_contra none
      exact absurd (Binary.value_nonneg (Or.inr (by omega))) (not_le.mpr negative)
    have amount : (((-mantissa).toNat : Nat) : ℚ) = -(mantissa : ℚ) := by
      exact_mod_cast Int.toNat_of_nonneg (by omega : 0 ≤ -mantissa)
    have exact : (((-mantissa).toNat : Nat) : ℚ) * 2 ^ exponent =
        number.significand * 2 ^ number.exponent := by
      rw [amount, neg_mul, same]
      unfold Binary.value
      rw [sign]
      simp
    refine ⟨number, canonical, rfl, ?_⟩
    have rounded := round_of_canonical canonical digits exact
    rw [Int.compare_eq_lt.mpr below]
    unfold Binary.sign at rounded
    rwa [sign] at rounded
  · refine ⟨⟨false, 0, -1074⟩, Binary.canonical_zero, ?_, rfl⟩
    rw [← same]
    simp [Binary.value]
  · have positive : 0 < (mantissa : ℚ) * 2 ^ exponent := mul_pos (by exact_mod_cast above) scale
    rw [same] at positive
    have sign : number.negative = false := by
      by_contra negative
      rw [Bool.not_eq_false] at negative
      unfold Binary.value at positive
      rw [negative] at positive
      simp only [if_true] at positive
      linarith
    have value := Binary.value_of_nonneg (Or.inl sign)
    have digits : 0 < number.significand := by
      by_contra none
      have zero : number.significand = 0 := by omega
      rw [value, zero] at positive
      simp at positive
    have amount : ((mantissa.toNat : Nat) : ℚ) = (mantissa : ℚ) := by
      exact_mod_cast Int.toNat_of_nonneg (by omega : 0 ≤ mantissa)
    refine ⟨number, canonical, rfl, ?_⟩
    have rounded := round_of_canonical canonical digits
      (by rw [amount, same, value] : ((mantissa.toNat : Nat) : ℚ) * 2 ^ exponent = _)
    rw [Int.compare_eq_gt.mpr above]
    unfold Binary.sign at rounded
    rwa [sign] at rounded

private theorem apply_sign (number : Binary) (digits : Nat) :
    ((number.sign.apply digits : Int) : ℚ) = (if number.negative then -1 else 1) * digits := by
  unfold Binary.sign
  cases number.negative <;> simp [Sign.apply]

/-- A sum that a double can hold is not rounded. -/
theorem add_of_canonical (canonical : number.Canonical) (canonical' : addend.Canonical)
    (small : |whole| ≤ 2 ^ 53) (stands : number.value + addend.value = whole) :
    ∃ result : Binary, result.Canonical ∧ result.value = whole ∧
      UnpackedFloat.add layout number.unpacked addend.unpacked = result.unpacked := by
  have vanishes : ∀ {other : Binary}, ¬ 0 < other.significand → other.value = 0 := by
    intro other none
    have zero : other.significand = 0 := by omega
    simp [Binary.value, zero]
  by_cases positive : 0 < number.significand
  · by_cases positive' : 0 < addend.significand
    · obtain ⟨sum, canonicalSum, total⟩ := Binary.exists_canonical small
      let scale := min number.exponent addend.exponent
      -- Both are brought to the lesser exponent, where their sum is one of integers.
      have lowered : ∀ (other : Binary), scale ≤ other.exponent →
          ((other.sign.apply (other.significand <<< (other.exponent - scale).toNat : Nat) : Int) :
            ℚ) * 2 ^ scale = other.value := by
        intro other le
        have places : other.exponent = (other.exponent - scale).toNat + scale := by omega
        rw [apply_sign, Nat.shiftLeft_eq]
        unfold Binary.value
        conv_rhs => rw [places]
        rw [zpow_add₀ (by norm_num), zpow_natCast]
        push_cast
        ring
      have exact : ((number.sign.apply
            (number.significand <<< (number.exponent - scale).toNat : Nat) +
          addend.sign.apply
            (addend.significand <<< (addend.exponent - scale).toNat : Nat) : Int) : ℚ) *
            2 ^ scale = sum.value := by
        rw [Int.cast_add, add_mul, lowered number (min_le_left _ _),
          lowered addend (min_le_right _ _), stands, total]
      obtain ⟨result, canonicalResult, same, normalized⟩ :=
        normalize_of_canonical canonicalSum exact
      refine ⟨result, canonicalResult, same.trans total, ?_⟩
      unfold Binary.unpacked
      rw [dif_pos positive, dif_pos positive']
      exact normalized
    · refine ⟨number, canonical, by rw [← stands, vanishes positive', add_zero], ?_⟩
      unfold Binary.unpacked
      rw [dif_pos positive, dif_neg positive']
      rfl
  · by_cases positive' : 0 < addend.significand
    · refine ⟨addend, canonical', by rw [← stands, vanishes positive, zero_add], ?_⟩
      unfold Binary.unpacked
      rw [dif_neg positive, dif_pos positive']
      rfl
    · have zero : (0 : ℚ) = whole := by
        rw [← stands, vanishes positive, vanishes positive', add_zero]
      refine ⟨⟨number.negative && addend.negative, 0, -1074⟩,
        ⟨by norm_num, le_rfl, Or.inr rfl⟩, by simp [Binary.value, ← zero], ?_⟩
      unfold Binary.unpacked Binary.sign
      rw [dif_neg positive, dif_neg positive', dif_neg (lt_irrefl 0)]
      cases number.negative <;> cases addend.negative <;> rfl

private theorem sub_eq_add_neg (left right : UnpackedFloat) :
    UnpackedFloat.sub layout left right = UnpackedFloat.add layout left right.neg := by
  have apply_neg : ∀ (sign : Sign) (digits : Int), (-sign).apply digits = -sign.apply digits := by
    intro sign digits
    cases sign
    · exact (Int.neg_neg digits).symm
    · rfl
  cases left <;> cases right <;> try rfl
  unfold UnpackedFloat.sub UnpackedFloat.add UnpackedFloat.neg
  simp only [apply_neg, Int.sub_eq_add_neg]

variable {value other : Float} {whole' : Int}

/-- A double packed from an integer of at most 53 digits stands for it. -/
private theorem isInteger_of_pack (canonical : number.Canonical) (stands : number.value = whole)
    (small : |whole| ≤ 2 ^ 53)
    (packed : bits value = UnpackedFloat.pack layout number.unpacked) : IsInteger value whole := by
  have greatest := canonical.exponent_le (by rw [stands]; exact_mod_cast small)
  exact ⟨number, read_of_pack canonical greatest packed, stands⟩

theorem IsInteger.add (isInteger : IsInteger value whole) (isInteger' : IsInteger other whole')
    (small : |whole + whole'| ≤ 2 ^ 53) : IsInteger (value + other) (whole + whole') := by
  obtain ⟨number, reads, stands⟩ := isInteger
  obtain ⟨addend, reads', stands'⟩ := isInteger'
  obtain ⟨unpacks, canonical⟩ := unpack_of_read reads
  obtain ⟨unpacks', canonical'⟩ := unpack_of_read reads'
  obtain ⟨result, canonicalResult, total, sum⟩ := add_of_canonical canonical canonical' small
    (by rw [stands, stands', Int.cast_add])
  refine isInteger_of_pack canonicalResult total small ?_
  rw [← sum, ← unpacks, ← unpacks']
  rfl

theorem IsInteger.sub (isInteger : IsInteger value whole) (isInteger' : IsInteger other whole')
    (small : |whole - whole'| ≤ 2 ^ 53) : IsInteger (value - other) (whole - whole') := by
  obtain ⟨number, reads, stands⟩ := isInteger
  obtain ⟨addend, reads', stands'⟩ := isInteger'
  obtain ⟨unpacks, canonical⟩ := unpack_of_read reads
  obtain ⟨unpacks', canonical'⟩ := unpack_of_read reads'
  obtain ⟨result, canonicalResult, total, difference⟩ := add_of_canonical canonical
    canonical'.negate small (by rw [Binary.value_negate, stands, stands']; push_cast; ring)
  refine isInteger_of_pack canonicalResult total small ?_
  rw [← difference, Binary.unpacked_negate, ← unpacks, ← unpacks', ← sub_eq_add_neg]
  rfl

/-! ## Counts -/

private theorem isInteger_toFloat {count : Nat} (small : count < 2 ^ 53) :
    IsInteger count.toUInt64.toFloat count := by
  have within : |(count : Int)| ≤ 2 ^ 53 := by
    rw [Int.abs_eq_natAbs]
    omega
  obtain ⟨number, canonical, stands⟩ := Binary.exists_canonical within
  have same : (((count : Nat) : Int) : ℚ) * 2 ^ (0 : Int) = number.value := by
    rw [stands, zpow_zero, mul_one]
  obtain ⟨result, canonicalResult, total, normalized⟩ := normalize_of_canonical canonical same
  have kept : count.toUInt64.toNat = count := Nat.mod_eq_of_lt (by omega)
  refine isInteger_of_pack canonicalResult (total.trans stands) within ?_
  rw [← normalized]
  show UnpackedFloat.pack layout
    (UnpackedFloat.normalize layout (count.toUInt64.toNat : Nat) 0 .positive) = _
  rw [kept]

/-- One, as the least of the powers of ten. -/
private theorem unpack_one :
    UnpackedFloat.unpack layout (bits (Float.ofBits 4607182418800017408)) =
      .finite .positive (2 ^ 52) (-52) (by decide) := rfl

private theorem mul_one_of_isInteger (isInteger : IsInteger value whole)
    (small : |whole| ≤ 2 ^ 53) :
    IsInteger (value * Float.ofBits 4607182418800017408) whole := by
  obtain ⟨number, reads, stands⟩ := isInteger
  obtain ⟨unpacks, canonical⟩ := unpack_of_read reads
  have unchanged : UnpackedFloat.mul layout number.unpacked
      (.finite .positive (2 ^ 52) (-52) (by decide)) = number.unpacked := by
    have sign : ∀ sign : Sign, sign * .positive = sign := by
      intro sign
      cases sign <;> rfl
    by_cases positive : 0 < number.significand
    · have rounded := @roundWithAccuracy_of_canonical _ canonical positive _ 52
        (number.exponent + -52) rfl (by omega)
      refine Eq.trans ?_ rounded
      unfold Binary.unpacked
      rw [dif_pos positive]
      show roundWithAccuracy layout (number.sign * .positive) _ _ _ = _
      rw [sign]
    · unfold Binary.unpacked
      rw [dif_neg positive]
      exact congrArg UnpackedFloat.zero (sign number.sign)
  refine isInteger_of_pack canonical stands small ?_
  rw [← unchanged, ← unpacks, ← unpack_one]
  rfl

/-- The double for a count stands for it. -/
theorem isInteger_ofNat {count : Nat} (small : count ≤ 2 ^ 53) :
    IsInteger (Float.ofNat count) count := by
  rcases Nat.lt_or_eq_of_le small with short | rfl
  · have literal : Float.ofNat count =
        count.toUInt64.toFloat * Float.ofBits 4607182418800017408 := by
      show Float.ofScientific count false 0 = _
      unfold Float.ofScientific
      rw [dif_pos ⟨short, by decide⟩]
      rfl
    rw [literal]
    refine mul_one_of_isInteger (isInteger_toFloat short) ?_
    rw [Int.abs_eq_natAbs]
    omega
  · exact ⟨⟨false, 2 ^ 52, 1⟩, by decide +kernel, by norm_num [Binary.value]⟩

end Double

end Fixity
