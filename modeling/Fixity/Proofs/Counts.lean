import Fixity.Proofs.Indexing

/-!
Contract: counts of any size as numbers.

Owns:
- `Double.AtLeast`, the doubles that are not below a bound, and `Double.atLeast_ofNat`;
- `Number.apply_equal_ofNat`: only the count of nothing is equal to zero;
- `Collection.position_of_low`: a low place lies inside of a row of any length.

Does not own: counts that doubles hold exactly.
-/

namespace Fixity

open Float.Model Float.Model.UnpackedFloat

namespace Double

variable {value other : Float} {number : Binary} {count : Nat}

/-- A double that is not below a bound. -/
def AtLeast (value : Float) (bound : ℚ) : Prop :=
  UnpackedFloat.unpack layout (bits value) = .infinity .positive ∨
    ∃ number, Binary.read value = .finite number ∧ bound ≤ number.value

namespace AtLeast

variable {bound lower : ℚ}

theorem mono (atLeast : AtLeast value bound) (le : lower ≤ bound) : AtLeast value lower :=
  atLeast.imp_right fun ⟨number, reads, least⟩ => ⟨number, reads, le.trans least⟩

private theorem compare (atLeast : AtLeast value bound) (reads : Binary.read other = .finite number)
    (below : number.value < bound) :
    (UnpackedFloat.unpack layout (bits value)).compare (UnpackedFloat.unpack layout (bits other)) =
      some .gt := by
  rcases atLeast with infinite | ⟨greater, reads', least⟩
  · rw [infinite, (unpack_of_read reads).1]
    unfold Binary.unpacked
    split_ifs <;> rfl
  · rw [compare_of_read reads' reads, compare_gt_iff_gt.mpr (below.trans_le least)]

theorem not_lt (atLeast : AtLeast value bound) (reads : Binary.read other = .finite number)
    (below : number.value < bound) : ¬ value < other := by
  show ¬ decide _ = true
  rw [decide_eq_true_eq]
  show ¬ ((UnpackedFloat.unpack layout (bits value)).compare
    (UnpackedFloat.unpack layout (bits other)) == some .lt) = true
  rw [atLeast.compare reads below]
  decide

theorem not_le (atLeast : AtLeast value bound) (reads : Binary.read other = .finite number)
    (below : number.value < bound) : ¬ value ≤ other := by
  show ¬ decide _ = true
  rw [decide_eq_true_eq]
  show ¬ Option.any Ordering.isLE ((UnpackedFloat.unpack layout (bits value)).compare
    (UnpackedFloat.unpack layout (bits other))) = true
  rw [atLeast.compare reads below]
  decide

/-- It differs from the doubles below the bound. -/
theorem not_same (atLeast : AtLeast value bound) (reads : Binary.read other = .finite number)
    (below : number.value < bound) : Double.same value other = false := by
  refine decide_eq_false fun same => ?_
  rw [compare_eq_compare_rank, compare_eq_iff_eq] at same
  have finite : ∃ number', Binary.read value = .finite number' ∧ number'.value = number.value := by
    unfold rank at same
    rw [reads] at same
    cases reads' : Binary.read value with
    | undefined =>
        rw [reads'] at same
        have first : (2 : ℤ) = 0 := congrArg (fun place => (ofLex place).1) same
        exact absurd first (by decide)
    | infinite negative =>
        rw [reads'] at same
        have first : (if negative then -1 else 1 : ℤ) = 0 :=
          congrArg (fun place => (ofLex place).1) same
        exact absurd first (by cases negative <;> decide)
    | finite number' =>
        rw [reads'] at same
        exact ⟨number', rfl, congrArg (fun place => (ofLex place).2) same⟩
  obtain ⟨number', reads', equal⟩ := finite
  rcases atLeast with infinite | ⟨greater, reads'', least⟩
  · rw [(unpack_of_read reads').1] at infinite
    unfold Binary.unpacked at infinite
    split_ifs at infinite
  · rw [reads', Binary.Reading.finite.injEq] at reads''
    subst reads''
    rw [equal] at least
    exact absurd below least.not_gt

/-- Taking zero away changes nothing. -/
theorem sub_zero (atLeast : AtLeast value bound) (positive : 0 < bound) :
    AtLeast (value - 0.0) bound := by
  have difference : bits (value - 0.0) = UnpackedFloat.pack layout
      (UnpackedFloat.sub layout (UnpackedFloat.unpack layout (bits value)) (.zero .positive)) := rfl
  rcases atLeast with infinite | ⟨number, reads, least⟩
  · rw [infinite] at difference
    refine .inl ?_
    rw [difference]
    rfl
  · obtain ⟨sign, exponent, fraction, components⟩ := exists_components value
    have unpacks := (unpack_of_read reads).1
    have digits : 0 < number.significand := by
      refine Nat.pos_of_ne_zero fun none => absurd (positive.trans_le least) ?_
      unfold Binary.value
      rw [none]
      simp
    have same : UnpackedFloat.sub layout number.unpacked (.zero .positive) = number.unpacked := by
      unfold Binary.unpacked
      rw [dif_pos digits]
      rfl
    rw [unpacks, same, ← unpacks, components, pack_unpack (finite_of_read components reads),
      ← components] at difference
    rw [eq_of_bits difference]
    exact .inr ⟨number, reads, least⟩

theorem abs (atLeast : AtLeast value bound) : AtLeast value.abs bound := by
  rcases atLeast with infinite | ⟨number, reads, least⟩
  · refine .inl ?_
    have absolute : bits value.abs =
        UnpackedFloat.pack layout (UnpackedFloat.unpack layout (bits value)).abs := rfl
    rw [absolute, infinite]
    rfl
  · refine .inr ⟨_, read_abs reads, ?_⟩
    rw [Binary.value_abs]
    exact least.trans (le_abs_self _)

end AtLeast

/-! ## Rounding counts -/

private theorem mantissa_shiftRight (digits : ExtendedMantissa) (places : Nat) :
    (digits >>> places).mantissa = digits.mantissa / 2 ^ places := by
  show (Nat.repeat ExtendedMantissa.shiftRightOne places digits).mantissa = _
  induction places with
  | zero => simp [Nat.repeat]
  | succ places inductionHypothesis =>
      show (Nat.repeat ExtendedMantissa.shiftRightOne places digits).mantissa / 2 = _
      rw [inductionHypothesis, Nat.div_div_eq_div_mul, Nat.pow_succ]

private theorem roundedMantissa_cases (digits : ExtendedMantissa) :
    digits.roundedMantissa = digits.mantissa ∨ digits.roundedMantissa = digits.mantissa + 1 := by
  obtain ⟨mantissa, roundBit, stickyBit⟩ := digits
  cases roundBit <;> cases stickyBit
  · exact .inl rfl
  · exact .inl rfl
  · have parity := Nat.mod_two_eq_zero_or_one mantissa
    exact parity.imp (congrArg (mantissa + ·)) (congrArg (mantissa + ·))
  · exact .inr rfl

/-- The first 53 digits of a count that has more. -/
private theorem shiftToTargetExponent_of_large (large : 2 ^ 53 ≤ count) :
    ∃ digits : ExtendedMantissa,
      shiftToTargetExponent layout (count * 2 ^ 53) (-53) .exact =
        (digits, (count.log2 : Int) - 52) ∧
      2 ^ 52 ≤ digits.mantissa ∧ digits.mantissa < 2 ^ 53 := by
  have positive : count ≠ 0 := by omega
  obtain ⟨least, greatest⟩ := (Nat.log2_eq_iff positive).mp rfl
  have long : 53 ≤ count.log2 := (Nat.le_log2 positive).mpr large
  have target : layout.targetExponent (totalExponent (count * 2 ^ 53) (-53)) =
      (count.log2 : Int) - 52 := by
    unfold Float.Model.Format.targetExponent totalExponent
    rw [log2_mul_two_pow positive]
    show max (((count.log2 + 53 : Nat) : Int) + 1 + -53 - ((53 : Nat) : Int)) (-1074) = _
    omega
  have amount : ((count.log2 : Int) - 52 - -53).toNat = count.log2 + 1 := by omega
  refine ⟨(⟨count * 2 ^ 53, false, false⟩ : ExtendedMantissa) >>> (count.log2 + 1), ?_, ?_⟩
  · unfold shiftToTargetExponent shiftToExponent
    dsimp only
    rw [target, amount]
    refine Prod.ext rfl ?_
    show (-53 : Int) + ((count.log2 + 1 : Nat) : Int) = _
    omega
  · have scale : 0 < 2 ^ (count.log2 + 1) := by positivity
    rw [mantissa_shiftRight, Nat.le_div_iff_mul_le scale, Nat.div_lt_iff_lt_mul scale]
    constructor
    · calc 2 ^ 52 * 2 ^ (count.log2 + 1) = 2 ^ count.log2 * 2 ^ 53 := by ring
        _ ≤ count * 2 ^ 53 := Nat.mul_le_mul_right _ least
    · calc count * 2 ^ 53 < 2 ^ (count.log2 + 1) * 2 ^ 53 :=
            Nat.mul_lt_mul_of_pos_right greatest (by decide)
        _ = 2 ^ 53 * 2 ^ (count.log2 + 1) := by ring

/-- A count that is too long is rounded to a number of 53 digits. -/
private theorem round_of_large (large : 2 ^ 53 ≤ count) :
    ∃ number : Binary, number.Canonical ∧ number.negative = false ∧ 2 ^ 52 ≤ number.significand ∧
      0 ≤ number.exponent ∧
      roundWithAccuracy layout .positive (count * 2 ^ 53) (-53) .exact = number.unpacked := by
  have long : 53 ≤ count.log2 := (Nat.le_log2 (by omega)).mpr large
  obtain ⟨digits, shifted, wide, short⟩ := shiftToTargetExponent_of_large large
  have rounded := roundedMantissa_cases digits
  -- Rounding up may give one digit more, and that digit is dropped again.
  have again : ∃ number : Binary, number.Canonical ∧ number.negative = false ∧
      2 ^ 52 ≤ number.significand ∧ 0 ≤ number.exponent ∧
      shiftToTargetExponent layout digits.roundedMantissa ((count.log2 : Int) - 52) .exact =
        (⟨number.significand, false, false⟩, number.exponent) := by
    by_cases fits : digits.roundedMantissa < 2 ^ 53
    · have canonical : Binary.Canonical
          ⟨false, digits.roundedMantissa, (count.log2 : Int) - 52⟩ :=
        ⟨fits, by dsimp only; omega, .inl (by dsimp only; omega)⟩
      exact ⟨_, canonical, rfl, by dsimp only; omega, by dsimp only; omega,
        @shiftToTargetExponent_of_canonical _ canonical (by dsimp only; omega) _ 0 _ (by simp)
          (by simp)⟩
    · have canonical : Binary.Canonical ⟨false, 2 ^ 52, (count.log2 : Int) - 51⟩ :=
        ⟨by dsimp only; omega, by dsimp only; omega, .inl (le_refl _)⟩
      exact ⟨_, canonical, rfl, le_refl _, by dsimp only; omega,
        @shiftToTargetExponent_of_canonical _ canonical (by dsimp only; omega) _ 1 _
          (by dsimp only; omega) (by dsimp only; omega)⟩
  obtain ⟨number, canonical, sign, wide, nonneg, again⟩ := again
  refine ⟨number, canonical, sign, wide, nonneg, ?_⟩
  have positive : 0 < number.significand := by omega
  have plus : number.sign = .positive := by
    unfold Binary.sign
    rw [sign]
    rfl
  unfold roundWithAccuracy Binary.unpacked
  simp only [shifted, again, positive.ne', dite_false, positive, dite_true, plus]

/-- A count that is too long is not rounded to a short one. -/
theorem atLeast_ofNat_of_large (large : 2 ^ 53 ≤ count) :
    AtLeast (Float.ofNat count) (2 ^ 52) := by
  obtain ⟨number, canonical, sign, wide, nonneg, rounded⟩ := round_of_large large
  have packed : bits (Float.ofNat count) = UnpackedFloat.pack layout number.unpacked := by
    have literal : Float.ofNat count = Float.ofModel (Float.Model.ofScientific count 0) := by
      show Float.ofScientific count false 0 = _
      unfold Float.ofScientific
      rw [dif_neg (by omega)]
      rfl
    rw [literal]
    show UnpackedFloat.pack layout (UnpackedFloat.ofScientific layout count 0) = _
    unfold UnpackedFloat.ofScientific
    rw [dif_neg (by omega), if_neg (by decide), if_neg (by
      show ¬ (0 : Int) < -((2 ^ 11 : Int) + (count.log2 : Int))
      omega), if_pos (le_refl 0), ← rounded]
    show UnpackedFloat.pack layout
      (roundWithAccuracy layout .positive (count <<< 53 * 1) (-53 + 0) .exact) = _
    rw [Nat.shiftLeft_eq, Nat.mul_one, add_zero]
  by_cases finite : number.exponent ≤ 971
  · refine .inr ⟨number, read_of_pack canonical finite packed, ?_⟩
    unfold Binary.value
    rw [sign, if_neg (by decide), one_mul]
    have least : (2 ^ 52 : ℚ) ≤ number.significand := by exact_mod_cast wide
    have scale : (1 : ℚ) ≤ 2 ^ number.exponent := one_le_zpow₀ (by norm_num) nonneg
    calc (2 ^ 52 : ℚ) ≤ number.significand := least
      _ ≤ number.significand * 2 ^ number.exponent := le_mul_of_one_le_right (by positivity) scale
  · have beyond : UnpackedFloat.pack layout number.unpacked = packedInfinity layout .positive := by
      have plus : number.sign = .positive := by
        unfold Binary.sign
        rw [sign]
        rfl
      unfold Binary.unpacked
      rw [dif_pos (by omega), plus]
      unfold UnpackedFloat.pack
      dsimp only
      refine if_pos ?_
      show 2 ^ 11 ≤ (number.exponent + ((1023 : Nat) : Int) + ((52 : Nat) : Int)).toNat + 1
      omega
    refine .inl ?_
    rw [packed, beyond]
    rfl

/-- A count of something is at least one. -/
theorem atLeast_one_ofNat (positive : 0 < count) : AtLeast (Float.ofNat count) 1 := by
  rcases Nat.le_total count (2 ^ 53) with short | large
  · obtain ⟨number, reads, stands⟩ := isInteger_ofNat short
    refine .inr ⟨number, reads, ?_⟩
    rw [stands]
    exact_mod_cast positive
  · exact (atLeast_ofNat_of_large large).mono (by norm_num)

end Double

/-! ## Counts -/

/-- Only the count of nothing is equal to zero. -/
theorem Number.apply_equal_ofNat (count : Nat) :
    Number.apply .equal (.ofNat count) .zero = .ok (.ofBool (count = 0)) := by
  show Except.ok (Number.ofBool ((Number.ofNat count).nearlyEqual .zero)) = _
  rcases Nat.eq_zero_or_pos count with rfl | positive
  · exact congrArg (fun same => Except.ok (Number.ofBool same)) (by decide +kernel)
  · have atLeast := Double.atLeast_one_ofNat positive
    obtain ⟨zero, reads, nothing⟩ := Double.isInteger_zero
    have tolerance : ∃ number, Binary.read Number.tiny = .finite number ∧ number.value < 1 :=
      ⟨⟨false, 7737125245533627, -86⟩, by decide +kernel, by norm_num [Binary.value]⟩
    obtain ⟨tiny, reads', small⟩ := tolerance
    have different : (Number.ofNat count).same .zero = false := by
      have real : Double.same (Float.ofNat count) 0.0 = false :=
        atLeast.not_same reads (by rw [nothing]; norm_num)
      show (Double.same (Float.ofNat count) 0.0 && _) = false
      rw [real, Bool.false_and]
    have distant : ((Number.ofNat count).sub .zero).isNearlyZero = false := by
      have real : ¬ (Float.ofNat count - 0.0).abs < Number.tiny :=
        (atLeast.sub_zero one_pos).abs.not_lt reads' small
      show (_ && decide ((Float.ofNat count - 0.0).abs < Number.tiny)) = false
      rw [decide_eq_false real, Bool.and_false]
    unfold Number.nearlyEqual
    rw [different, distant, decide_eq_false (by omega)]
    rfl

/-- A low place lies inside of a row of any length. -/
theorem Collection.position_of_low {index : Number} {place length : Nat}
    (isInteger : index.IsInteger place) (low : place < 2 ^ 52) (inside : place < length) :
    Collection.position (.number index) length = .ok place := by
  by_cases short : length ≤ 2 ^ 53
  · exact Collection.position_eq isInteger inside short
  · have nonneg : ¬ index.real < 0.0 := by
      rw [isInteger.2.lt_iff Double.isInteger_zero]
      omega
    obtain ⟨isReal, number, reads, stands⟩ := isInteger
    have notBeyond : ¬ Float.ofNat length ≤ index.real := by
      refine (Double.atLeast_ofNat_of_large (by omega)).not_le reads ?_
      rw [stands]
      exact_mod_cast low
    unfold Collection.position Value.asReal
    dsimp only
    rw [if_pos isReal]
    show (if decide (index.real < 0.0) || decide (Float.ofNat length ≤ index.real) then _ else _) = _
    rw [decide_eq_false nonneg, decide_eq_false notBeyond]
    exact Double.IsInteger.toCount ⟨number, reads, stands⟩ (by omega) "index"

end Fixity
