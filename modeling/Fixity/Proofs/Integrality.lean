import Mathlib
import Fixity.Proofs.Doubles

/-!
Contract: doubles without a part behind the point.

Owns:
- the exact number of a double, from its sign, exponent and fraction bits;
- truncation and the difference from it, neither of which rounds;
- `Double.isFractional_iff` and `Double.wholePart_eq_floor`: the tests that evaluation makes on
  doubles are about the exact numbers that these stand for.

Does not own: rounding where it changes a number.
-/

namespace Fixity.Double

open Float.Model Float.Model.UnpackedFloat

variable {value : Float} {sign : Sign} {exponent : BitVec layout.exponentBits}
  {fraction : BitVec layout.mantissaBitsWithoutImplicit}

/-! ## Components -/

theorem unpack_of_zero :
    UnpackedFloat.unpack layout (packComponents layout sign 0#_ 0#_) = .zero sign := by
  cases sign <;> rfl

theorem unpack_of_subnormal (positive : fraction.toNat ≠ 0) :
    UnpackedFloat.unpack layout (packComponents layout sign 0#_ fraction) =
      .finite sign fraction.toNat (-1074) (Nat.pos_of_ne_zero positive) := by
  have notZero : fraction ≠ 0#_ := by
    rintro rfl
    exact positive rfl
  unfold UnpackedFloat.unpack
  simp only [unpackMantissa_packComponents, unpackExponent_packComponents,
    unpackSign_packComponents, ofBitVec_toBitVec]
  rw [if_neg (by decide), if_pos trivial, dif_neg notZero]
  rfl

theorem unpack_of_normal (finite : exponent ≠ -1#_) (normal : exponent ≠ 0#_) :
    UnpackedFloat.unpack layout (packComponents layout sign exponent fraction) =
      .finite sign (2 ^ 52 + fraction.toNat) (exponent.toNat - 1075) (by positivity) := by
  unfold UnpackedFloat.unpack
  simp only [unpackMantissa_packComponents, unpackExponent_packComponents,
    unpackSign_packComponents, ofBitVec_toBitVec]
  rw [if_neg finite, if_neg normal]
  congr 1
  exact toNat_implicit fraction

theorem toNat_packComponents :
    (packComponents layout sign exponent fraction).toNat =
      sign.toBitVec.toNat * 2 ^ 63 + exponent.toNat * 2 ^ 52 + fraction.toNat := by
  have fractionLt : fraction.toNat < 2 ^ 52 := fraction.isLt
  have exponentLt : exponent.toNat < 2 ^ 11 := exponent.isLt
  unfold packComponents
  rw [BitVec.toNat_append, BitVec.toNat_append, ← Nat.shiftLeft_add_eq_or_of_lt exponent.isLt,
    ← Nat.shiftLeft_add_eq_or_of_lt fraction.isLt]
  show (sign.toBitVec.toNat <<< 11 + exponent.toNat) <<< 52 + fraction.toNat = _
  rw [Nat.shiftLeft_eq, Nat.shiftLeft_eq]
  omega

theorem exists_components (value : Float) :
    ∃ sign exponent fraction, bits value = packComponents layout sign exponent fraction :=
  ⟨_, _, _, (packComponents_unpack (bits value)).symm⟩

theorem toNat_toBits
    (components : bits value = packComponents layout sign exponent fraction) :
    value.toBits.toNat >>> 63 = sign.toBitVec.toNat ∧
      (value.toBits.toNat >>> 52) % (1 <<< 11) = exponent.toNat ∧
        value.toBits.toNat % (1 <<< 52) = fraction.toNat := by
  have fractionLt : fraction.toNat < 2 ^ 52 := fraction.isLt
  have exponentLt : exponent.toNat < 2 ^ 11 := exponent.isLt
  have signLt : sign.toBitVec.toNat < 2 := sign.toBitVec.isLt
  have bitsNat : value.toBits.toNat =
      sign.toBitVec.toNat * 2 ^ 63 + exponent.toNat * 2 ^ 52 + fraction.toNat := by
    rw [← toNat_packComponents, ← components]
    rfl
  rw [bitsNat, Nat.shiftRight_eq_div_pow, Nat.shiftRight_eq_div_pow, Nat.shiftLeft_eq,
    Nat.shiftLeft_eq]
  omega

/-- The exact number of a finite double, from its components. -/
theorem read_of_components
    (components : bits value = packComponents layout sign exponent fraction)
    (finite : exponent ≠ -1#_) :
    Binary.read value = .finite ⟨sign.toBitVec == 1#1,
      if exponent = 0#_ then fraction.toNat else 2 ^ 52 + fraction.toNat,
      if exponent = 0#_ then -1074 else (exponent.toNat : Int) - 1075⟩ := by
  obtain ⟨signPart, biased, fractionPart⟩ := toNat_toBits components
  have notGreatest : exponent.toNat ≠ 2047 := fun greatest =>
    finite (BitVec.eq_of_toNat_eq greatest)
  have least : exponent.toNat = 0 ↔ exponent = 0#_ := by
    constructor
    · intro none
      exact BitVec.eq_of_toNat_eq none
    · rintro rfl
      rfl
  have negative : decide (sign.toBitVec.toNat = 1) = (sign.toBitVec == 1#1) := by
    cases sign <;> rfl
  unfold Binary.read
  simp only [biased, fractionPart, signPart]
  rw [if_neg notGreatest, negative]
  by_cases subnormal : exponent = 0#_
  · rw [if_pos (least.mpr subnormal), if_pos subnormal, if_pos subnormal]
  · rw [if_neg (mt least.mp subnormal), if_neg subnormal, if_neg subnormal]
    rfl

/-- A double with the greatest exponent has no exact number. -/
theorem finite_of_read (components : bits value = packComponents layout sign exponent fraction)
    {number : Binary} (reads : Binary.read value = .finite number) : exponent ≠ -1#_ := by
  obtain ⟨_, biased, _⟩ := toNat_toBits components
  rintro rfl
  have greatest : (-1#_ : BitVec layout.exponentBits).toNat = 2047 := rfl
  unfold Binary.read at reads
  simp only [biased, greatest, if_true] at reads
  split at reads <;> cases reads

/-! ## Packing and rounding -/

theorem unpack_neg (sign : Sign) (exponent : BitVec layout.exponentBits)
    (fraction : BitVec layout.mantissaBitsWithoutImplicit) :
    UnpackedFloat.unpack layout (packComponents layout (-sign) exponent fraction) =
      (UnpackedFloat.unpack layout (packComponents layout sign exponent fraction)).neg := by
  unfold UnpackedFloat.unpack
  simp only [unpackMantissa_packComponents, unpackExponent_packComponents,
    unpackSign_packComponents, ofBitVec_toBitVec]
  split_ifs <;> rfl

/-- Packing undoes unpacking. -/
theorem pack_unpack (finite : exponent ≠ -1#_) :
    UnpackedFloat.pack layout
        (UnpackedFloat.unpack layout (packComponents layout sign exponent fraction)) =
      packComponents layout sign exponent fraction := by
  have twice : - -sign = sign := by cases sign <;> rfl
  rw [← twice, unpack_neg, pack_neg_unpack _ _ _ fun special => absurd special finite]

private theorem bits_ofBits (pattern : UInt64) :
    bits (Float.ofBits pattern) =
      UnpackedFloat.pack layout (UnpackedFloat.unpack layout pattern.toBitVec) := rfl

theorem bits_signed (finite : exponent ≠ -1#_) :
    bits (Binary.signed (sign.toBitVec == 1#1) (exponent.toNat * 2 ^ 52 + fraction.toNat)) =
      packComponents layout sign exponent fraction := by
  have fractionLt : fraction.toNat < 2 ^ 52 := fraction.isLt
  have exponentLt : exponent.toNat < 2 ^ 11 := exponent.isLt
  have pattern : (UInt64.ofNat ((if sign.toBitVec == 1#1 then 1 <<< 63 else 0) +
      (exponent.toNat * 2 ^ 52 + fraction.toNat))).toBitVec =
        packComponents layout sign exponent fraction := by
    apply BitVec.eq_of_toNat_eq
    rw [toNat_packComponents, UInt64.toNat_toBitVec, UInt64.toNat_ofNat', Nat.shiftLeft_eq]
    cases sign
    · rw [if_pos (by decide), show Sign.negative.toBitVec.toNat = 1 from rfl]
      omega
    · rw [if_neg (by decide), show Sign.positive.toBitVec.toNat = 0 from rfl]
      omega
  unfold Binary.signed
  rw [bits_ofBits, pattern, pack_unpack finite]

theorem log2_mul_two_pow {number : Nat} (positive : number ≠ 0) (places : Nat) :
    (number * 2 ^ places).log2 = number.log2 + places := by
  obtain ⟨least, greatest⟩ := (Nat.log2_eq_iff positive).mp rfl
  rw [Nat.log2_eq_iff (by positivity), Nat.pow_add, Nat.add_right_comm, Nat.pow_add]
  exact ⟨Nat.mul_le_mul_right _ least, Nat.mul_lt_mul_of_pos_right greatest (by positivity)⟩

/-- A binary number whose significand fits is rounded to itself. -/
theorem bits_round (finite : exponent ≠ -1#_) (normal : exponent ≠ 0#_)
    {significand places : Nat} {scale : Int}
    (scaled : significand * 2 ^ places = 2 ^ 52 + fraction.toNat)
    (placed : scale = exponent.toNat - 1075 + places) :
    bits (Binary.round ⟨sign.toBitVec == 1#1, significand, scale⟩) =
      packComponents layout sign exponent fraction := by
  have fractionLt : fraction.toNat < 2 ^ 52 := fraction.isLt
  have exponentLt : exponent.toNat < 2 ^ 11 := exponent.isLt
  have notGreatest : exponent.toNat ≠ 2047 := fun greatest =>
    finite (BitVec.eq_of_toNat_eq greatest)
  have notLeast : exponent.toNat ≠ 0 := fun least => normal (BitVec.eq_of_toNat_eq least)
  have positive : significand ≠ 0 := by
    rintro rfl
    omega
  have width : (Binary.bitWidth significand : Int) = 53 - places := by
    have full : (significand * 2 ^ places).log2 = 52 := by
      rw [scaled, Nat.log2_eq_iff (by omega)]
      omega
    rw [log2_mul_two_pow positive] at full
    unfold Binary.bitWidth
    rw [if_neg positive]
    omega
  have lowest : max (scale + Binary.bitWidth significand - 53) (-1074) =
      (exponent.toNat : Int) - 1075 := by
    omega
  have shifted : significand <<< (scale - ((exponent.toNat : Int) - 1075)).toNat =
      2 ^ 52 + fraction.toNat := by
    have amount : (scale - ((exponent.toNat : Int) - 1075)).toNat = places := by omega
    rw [amount, Nat.shiftLeft_eq, scaled]
  have magnitude : ((exponent.toNat : Int) - 1075 + 1075).toNat <<< 52 +
      (2 ^ 52 + fraction.toNat - 1 <<< 52) = exponent.toNat * 2 ^ 52 + fraction.toNat := by
    rw [Nat.shiftLeft_eq, Nat.shiftLeft_eq]
    omega
  unfold Binary.round
  dsimp only
  rw [lowest, if_pos (by omega : (exponent.toNat : Int) - 1075 ≤ scale), shifted,
    if_neg positive, if_neg (by rw [Nat.shiftLeft_eq]; omega), magnitude,
    if_neg (by rw [Nat.shiftLeft_eq]; omega)]
  exact bits_signed finite

/-- The two zeros. -/
theorem bits_round_zero (sign : Sign) (scale : Int) :
    bits (Binary.round ⟨sign.toBitVec == 1#1, 0, scale⟩) =
      packComponents layout sign 0#_ 0#_ := by
  unfold Binary.round
  dsimp only
  rw [if_pos rfl]
  cases sign <;> rfl

/-! ## Differences -/

private theorem bits_sub (left right : Float) :
    bits (left - right) = UnpackedFloat.pack layout (UnpackedFloat.sub layout
      (UnpackedFloat.unpack layout (bits left)) (UnpackedFloat.unpack layout (bits right))) := rfl

private theorem sub_of_exponent (sign : Sign) {left right : Nat} (exponent : Int)
    (leftPositive : 0 < left) (rightPositive : 0 < right) :
    UnpackedFloat.sub layout (.finite sign left exponent leftPositive)
        (.finite sign right exponent rightPositive) =
      UnpackedFloat.normalize layout (sign.apply left - sign.apply right) exponent .positive := by
  unfold UnpackedFloat.sub decreaseExponent
  dsimp only
  rw [min_self, sub_self]
  rfl

/-- A difference that is not zero has the sign of its larger side. -/
private theorem normalize_of_lt (sign : Sign) {left right : Nat} (exponent : Int)
    (less : right < left) :
    UnpackedFloat.normalize layout (sign.apply left - sign.apply right) exponent .positive =
      UnpackedFloat.round layout sign (left - right) exponent := by
  unfold UnpackedFloat.normalize
  cases sign with
  | positive =>
      have amount : ((left : Int) - (right : Int)).toNat = left - right := by omega
      have greater : Ord.compare ((left : Int) - (right : Int)) 0 = .gt :=
        Int.compare_eq_gt.mpr (by omega)
      simp only [Sign.apply, greater, amount]
  | negative =>
      have amount : (-(-(left : Int) - -(right : Int))).toNat = left - right := by omega
      have below : Ord.compare (-(left : Int) - -(right : Int)) 0 = .lt :=
        Int.compare_eq_lt.mpr (by omega)
      simp only [Sign.apply, below, amount]

private theorem shiftToTargetExponent_of_full {mantissa : Nat} {exponent : Int}
    (full : mantissa.log2 = 52) (inRange : -1074 ≤ exponent) :
    shiftToTargetExponent layout mantissa exponent .exact =
      (⟨mantissa, false, false⟩, exponent) := by
  have target : layout.targetExponent (totalExponent mantissa exponent) = exponent := by
    unfold Float.Model.Format.targetExponent totalExponent
    rw [full]
    show max (((52 : Nat) : Int) + 1 + exponent - ((53 : Nat) : Int)) (-1074) = exponent
    omega
  unfold shiftToTargetExponent shiftToExponent
  dsimp only
  rw [target, sub_self]
  show (_, exponent + 0) = _
  rw [add_zero]
  rfl

/-- A full significand is not rounded. -/
private theorem roundWithAccuracy_of_full (sign : Sign) {mantissa : Nat} {exponent : Int}
    (positive : 0 < mantissa) (full : mantissa.log2 = 52) (inRange : -1074 ≤ exponent) :
    roundWithAccuracy layout sign mantissa exponent .exact =
      .finite sign mantissa exponent positive := by
  unfold roundWithAccuracy
  simp only [shiftToTargetExponent_of_full full inRange, ExtendedMantissa.roundedMantissa,
    ExtendedMantissa.accuracy, Accuracy.roundToNearestEven, Nat.pos_iff_ne_zero.mp positive,
    dite_false]

/-- A significand of few digits fits once it has been shifted to the left. -/
private theorem round_of_short (sign : Sign) {mantissa : Nat} {exponent : Int}
    (positive : mantissa ≠ 0) (short : mantissa.log2 ≤ 52) (inRange : -1000 ≤ exponent) :
    UnpackedFloat.round layout sign mantissa exponent =
      .finite sign (mantissa * 2 ^ (52 - mantissa.log2)) (exponent + mantissa.log2 - 52)
        (by positivity) := by
  have target : layout.targetExponent (totalExponent mantissa exponent) =
      exponent + mantissa.log2 - 52 := by
    unfold Float.Model.Format.targetExponent totalExponent
    show max (((mantissa.log2 : Nat) : Int) + 1 + exponent - ((53 : Nat) : Int)) (-1074) = _
    omega
  have full : (mantissa * 2 ^ (52 - mantissa.log2)).log2 = 52 := by
    rw [log2_mul_two_pow positive]
    omega
  have amount : (exponent - (exponent + mantissa.log2 - 52)).toNat = 52 - mantissa.log2 := by
    omega
  have lowered : decreaseExponent mantissa exponent (exponent + mantissa.log2 - 52) =
      (mantissa * 2 ^ (52 - mantissa.log2), exponent + mantissa.log2 - 52) := by
    unfold decreaseExponent
    dsimp only
    rw [amount, Nat.shiftLeft_eq]
    congr 1
    omega
  unfold UnpackedFloat.round
  dsimp only
  rw [target, lowered]
  exact roundWithAccuracy_of_full sign (by positivity) full (by omega)

/-- A number with a full significand is not zero, whatever its exponent. -/
private theorem pack_of_full (sign : Sign) {mantissa : Nat} {exponent : Int}
    (positive : 0 < mantissa) (full : mantissa.log2 = 52) (least : -1074 ≤ exponent)
    (greatest : exponent ≤ 971) :
    ∃ biased fraction, biased ≠ 0#_ ∧ biased ≠ -1#_ ∧
      UnpackedFloat.pack layout (.finite sign mantissa exponent positive) =
        packComponents layout sign biased fraction := by
  have biasedEq : (exponent + layout.exponentBias + layout.mantissaBitsWithoutImplicit).toNat =
      (exponent + 1075).toNat := by
    show (exponent + ((1023 : Nat) : Int) + ((52 : Nat) : Int)).toNat = _
    congr 1
    omega
  have value : (BitVec.ofNat layout.exponentBits (exponent + 1075).toNat).toNat =
      (exponent + 1075).toNat := by
    show (exponent + 1075).toNat % 2 ^ 11 = _
    omega
  refine ⟨BitVec.ofNat _ (exponent + 1075).toNat, BitVec.ofNat _ mantissa, ?_, ?_, ?_⟩
  · intro none
    rw [none] at value
    have : (0 : Nat) = (exponent + 1075).toNat := value
    omega
  · intro special
    rw [special] at value
    have : (2047 : Nat) = (exponent + 1075).toNat := value
    omega
  · unfold UnpackedFloat.pack
    dsimp only
    rw [biasedEq, if_neg, if_pos]
    · rw [full]
      rfl
    · show ¬ 2 ^ 11 ≤ (exponent + 1075).toNat + 1
      omega

/-- The difference of two numbers of one sign and exponent is zero only if they are equal. -/
private theorem unpack_sub_of_exponent {sign : Sign} {left right : Nat} {exponent : Int}
    (leftPositive : 0 < left) (rightPositive : 0 < right) (ordered : right ≤ left)
    (short : left < 2 ^ 53) (least : -1000 ≤ exponent) (greatest : exponent ≤ 971) :
    (∃ zeroSign, UnpackedFloat.unpack layout (UnpackedFloat.pack layout
      (UnpackedFloat.sub layout (.finite sign left exponent leftPositive)
        (.finite sign right exponent rightPositive))) = .zero zeroSign) ↔ left = right := by
  rw [sub_of_exponent]
  constructor
  · rintro ⟨zeroSign, zero⟩
    by_contra different
    have positive : left - right ≠ 0 := by omega
    have digits : (left - right).log2 ≤ 52 := by
      have := (Nat.log2_lt positive).mpr (by omega : left - right < 2 ^ 53)
      omega
    have full : ((left - right) * 2 ^ (52 - (left - right).log2)).log2 = 52 := by
      rw [log2_mul_two_pow positive]
      omega
    obtain ⟨biased, fraction, normal, finite, packed⟩ := pack_of_full sign (by positivity) full
      (by omega : -1074 ≤ exponent + (left - right).log2 - 52) (by omega)
    rw [normalize_of_lt sign exponent (by omega), round_of_short sign positive digits least, packed,
      unpack_of_normal finite normal] at zero
    cases zero
  · rintro rfl
    rw [sub_self]
    exact ⟨.positive, unpack_of_zero⟩

/-! ## Integral parts -/

private theorem beq_zero_iff (value : Float) :
    value == 0.0 ↔ ∃ sign, UnpackedFloat.unpack layout (bits value) = .zero sign := by
  constructor
  · intro same
    exact zero_of_compare (eq_of_beq same)
  · rintro ⟨sign, zero⟩
    show (UnpackedFloat.unpack layout (bits value)).compare (.zero .positive) == some .eq
    rw [zero]
    rfl

private theorem isFractional_iff_unpack (value : Float) :
    isFractional value ↔ ¬ ∃ sign, UnpackedFloat.unpack layout
      (UnpackedFloat.pack layout (UnpackedFloat.sub layout
        (UnpackedFloat.unpack layout (bits value))
        (UnpackedFloat.unpack layout (bits (truncate value))))) = .zero sign := by
  rw [← bits_sub, ← beq_zero_iff]
  unfold isFractional bne
  simp

/-- Truncation clears the digits behind the point. -/
private theorem bits_truncate_of_normal
    (components : bits value = packComponents layout sign exponent fraction)
    (finite : exponent ≠ -1#_) (normal : exponent ≠ 0#_) {places : Nat}
    (digits : places = 1075 - exponent.toNat) (short : places ≤ 52) :
    ∃ cleared : BitVec layout.mantissaBitsWithoutImplicit,
      (2 ^ 52 + fraction.toNat) / 2 ^ places * 2 ^ places = 2 ^ 52 + cleared.toNat ∧
        bits (truncate value) = packComponents layout sign exponent cleared := by
  have fractionLt : fraction.toNat < 2 ^ 52 := fraction.isLt
  have enough : 2 ^ 52 ≤ (2 ^ 52 + fraction.toNat) / 2 ^ places * 2 ^ places := by
    have whole : 2 ^ 52 = 2 ^ (52 - places) * 2 ^ places := by
      rw [← Nat.pow_add, Nat.sub_add_cancel short]
    conv_lhs => rw [whole]
    apply Nat.mul_le_mul_right
    rw [Nat.le_div_iff_mul_le (by positivity), ← whole]
    omega
  have notMore : (2 ^ 52 + fraction.toNat) / 2 ^ places * 2 ^ places ≤ 2 ^ 52 + fraction.toNat :=
    Nat.div_mul_le_self _ _
  obtain ⟨rest, kept⟩ := Nat.exists_eq_add_of_le enough
  obtain ⟨cleared, rfl⟩ : ∃ cleared : BitVec layout.mantissaBitsWithoutImplicit,
      cleared.toNat = rest := ⟨BitVec.ofNat _ rest, Nat.mod_eq_of_lt (by omega)⟩
  refine ⟨cleared, kept, ?_⟩
  unfold truncate
  rw [read_of_components components finite, if_neg normal, if_neg normal]
  dsimp only
  unfold Binary.truncate
  dsimp only
  by_cases integral : (0 : Int) ≤ exponent.toNat - 1075
  · obtain rfl : places = 0 := by omega
    have same : 2 ^ 52 + fraction.toNat = (2 ^ 52 + fraction.toNat) / 2 ^ 0 := by
      rw [Nat.pow_zero, Nat.div_one]
    rw [if_pos integral, same]
    exact bits_round finite normal kept (by omega)
  · rw [if_neg integral]
    have amount : (-((exponent.toNat : Int) - 1075)).toNat = places := by omega
    rw [amount, Nat.shiftRight_eq_div_pow]
    exact bits_round finite normal kept (by omega)

/-- A double below one truncates to a zero of its sign. -/
private theorem bits_truncate_of_small
    (components : bits value = packComponents layout sign exponent fraction)
    (finite : exponent ≠ -1#_) (small : exponent.toNat < 1023) :
    bits (truncate value) = packComponents layout sign 0#_ 0#_ := by
  have fractionLt : fraction.toNat < 2 ^ 52 := fraction.isLt
  have vanishes : ∀ {significand places : Nat}, significand < 2 ^ 53 → 53 ≤ places →
      significand >>> places = 0 := by
    intro significand places short many
    rw [Nat.shiftRight_eq_div_pow]
    exact Nat.div_eq_of_lt (short.trans_le (Nat.pow_le_pow_right (by decide) many))
  unfold truncate
  rw [read_of_components components finite]
  dsimp only
  unfold Binary.truncate
  dsimp only
  by_cases least : exponent = 0#_
  · rw [if_pos least, if_pos least, if_neg (by decide), vanishes (by omega) (by decide)]
    exact bits_round_zero sign 0
  · rw [if_neg least, if_neg least, if_neg (by omega), vanishes (by omega) (by omega)]
    exact bits_round_zero sign 0

private theorem isFractional_of_normal
    (components : bits value = packComponents layout sign exponent fraction)
    (finite : exponent ≠ -1#_) (normal : exponent ≠ 0#_) {places : Nat}
    (digits : places = 1075 - exponent.toNat) (short : places ≤ 52) :
    isFractional value ↔ (2 ^ 52 + fraction.toNat) % 2 ^ places ≠ 0 := by
  have fractionLt : fraction.toNat < 2 ^ 52 := fraction.isLt
  have exponentLt : exponent.toNat < 2 ^ 11 := exponent.isLt
  obtain ⟨cleared, kept, truncated⟩ :=
    bits_truncate_of_normal components finite normal digits short
  have parts := Nat.div_add_mod' (2 ^ 52 + fraction.toNat) (2 ^ places)
  have notGreatest : exponent.toNat ≠ 2047 := fun greatest =>
    finite (BitVec.eq_of_toNat_eq greatest)
  rw [isFractional_iff_unpack, components, truncated, unpack_of_normal finite normal,
    unpack_of_normal finite normal, unpack_sub_of_exponent _ _ (by omega) (by omega) (by omega)
      (by omega)]
  omega

/-- Taking zero away changes nothing. -/
private theorem sub_zero_of_unpack (finite : exponent ≠ -1#_) {significand : Nat} {scale : Int}
    {positive : 0 < significand}
    (unpacked : UnpackedFloat.unpack layout (packComponents layout sign exponent fraction) =
      .finite sign significand scale positive) (zeroSign : Sign) :
    UnpackedFloat.unpack layout (UnpackedFloat.pack layout (UnpackedFloat.sub layout
      (UnpackedFloat.unpack layout (packComponents layout sign exponent fraction))
        (.zero zeroSign))) = .finite sign significand scale positive := by
  have same : UnpackedFloat.sub layout (.finite sign significand scale positive)
      (.zero zeroSign) = .finite sign significand scale positive := rfl
  rw [unpacked, same, ← unpacked, pack_unpack finite]

private theorem isFractional_of_small
    (components : bits value = packComponents layout sign exponent fraction)
    (finite : exponent ≠ -1#_) (small : exponent.toNat < 1023) :
    isFractional value ↔ ¬ (exponent = 0#_ ∧ fraction.toNat = 0) := by
  rw [isFractional_iff_unpack, components, bits_truncate_of_small components finite small,
    unpack_of_zero, not_iff_not]
  by_cases least : exponent = 0#_
  · subst least
    by_cases zero : fraction.toNat = 0
    · obtain rfl : fraction = 0#_ := BitVec.eq_of_toNat_eq zero
      rw [unpack_of_zero]
      refine ⟨fun _ => ⟨rfl, rfl⟩, fun _ => ⟨.positive, ?_⟩⟩
      cases sign <;> rfl
    · rw [sub_zero_of_unpack finite (unpack_of_subnormal zero)]
      refine ⟨fun ⟨_, isZero⟩ => ?_, fun ⟨_, zero'⟩ => absurd zero' zero⟩
      cases isZero
  · rw [sub_zero_of_unpack finite (unpack_of_normal finite least)]
    refine ⟨fun ⟨_, isZero⟩ => ?_, fun ⟨least', _⟩ => absurd least' least⟩
    cases isZero

variable {number : Binary}

/-- A double has a part behind the point exactly if its significand has digits there. -/
theorem isFractional_iff_mod (reads : Binary.read value = .finite number) :
    isFractional value ↔ number.significand % 2 ^ (-number.exponent).toNat ≠ 0 := by
  obtain ⟨sign, exponent, fraction, components⟩ := exists_components value
  have finite := finite_of_read components reads
  have fractionLt : fraction.toNat < 2 ^ 52 := fraction.isLt
  have short : ∀ {significand places : Nat}, significand < 2 ^ 53 → 53 ≤ places →
      significand % 2 ^ places = significand := by
    intro significand places few many
    exact Nat.mod_eq_of_lt (few.trans_le (Nat.pow_le_pow_right (by decide) many))
  rw [read_of_components components finite, Binary.Reading.finite.injEq] at reads
  subst reads
  dsimp only
  by_cases least : exponent = 0#_
  · rw [if_pos least, if_pos least, isFractional_of_small components finite
      (by rw [least]; decide), short (by omega) (by decide)]
    exact ⟨fun other zero' => other ⟨least, zero'⟩, fun positive both => positive both.2⟩
  · rw [if_neg least, if_neg least]
    -- From this exponent on some digit stands in front of the point.
    by_cases whole : 1023 ≤ exponent.toNat
    · rw [isFractional_of_normal components finite least rfl (by omega)]
      have amount : (-((exponent.toNat : Int) - 1075)).toNat = 1075 - exponent.toNat := by omega
      rw [amount]
    · rw [isFractional_of_small components finite (by omega), short (by omega) (by omega)]
      exact ⟨fun _ => by omega, fun _ ⟨least', _⟩ => absurd least' least⟩

/-- A double that is not below zero has an exact number without a sign. -/
theorem nonneg_of_read (reads : Binary.read value = .finite number) (notBelow : ¬ value < 0.0) :
    number.negative = false ∨ number.significand = 0 := by
  obtain ⟨sign, exponent, fraction, components⟩ := exists_components value
  have finite := finite_of_read components reads
  rw [read_of_components components finite, Binary.Reading.finite.injEq] at reads
  subst reads
  cases sign with
  | positive => exact Or.inl rfl
  | negative =>
      right
      have notLess : ¬ (UnpackedFloat.unpack layout (bits value)).compare (.zero .positive) =
          some .lt := by
        intro less
        exact notBelow (decide_eq_true (beq_iff_eq.mpr less))
      rw [components] at notLess
      dsimp only
      by_contra positive
      by_cases least : exponent = 0#_
      · subst least
        rw [if_pos rfl] at positive
        exact notLess (by rw [unpack_of_subnormal positive]; rfl)
      · exact notLess (by rw [unpack_of_normal finite least]; rfl)

theorem exists_read_of_isFinite (finite : value.isFinite) :
    ∃ number, Binary.read value = .finite number := by
  obtain ⟨sign, exponent, fraction, components⟩ := exists_components value
  have notSpecial : exponent ≠ -1#_ := by
    rw [← isFinite_packComponents sign exponent fraction, ← components]
    exact finite
  exact ⟨_, read_of_components components notSpecial⟩

end Fixity.Double

namespace Fixity.Binary

/-- The number that a sign, a significand and an exponent stand for. -/
def value (number : Binary) : ℚ :=
  (if number.negative then -1 else 1) * (number.significand * 2 ^ number.exponent)

theorem value_of_nonneg {number : Binary}
    (nonneg : number.negative = false ∨ number.significand = 0) :
    number.value = number.significand * 2 ^ number.exponent := by
  unfold value
  rcases nonneg with positive | zero
  · rw [positive, if_neg (by decide), one_mul]
  · simp [zero]

theorem value_nonneg {number : Binary}
    (nonneg : number.negative = false ∨ number.significand = 0) : 0 ≤ number.value := by
  rw [value_of_nonneg nonneg]
  positivity

/-- Scaled by the digits behind the point, a number is whole. -/
theorem significand_mul_zpow (significand : Nat) (exponent : Int) :
    (significand : ℚ) * 2 ^ exponent =
      ((significand * 2 ^ exponent.toNat : Nat) : ℚ) / ((2 ^ (-exponent).toNat : Nat) : ℚ) := by
  obtain ⟨places, rfl | rfl⟩ := Int.eq_nat_or_neg exponent
  · simp
  · simp [zpow_neg, div_eq_mul_inv]

end Fixity.Binary

namespace Fixity.Double

variable {value : Float} {number : Binary}

/-- A double is fractional exactly if its exact number is not a whole one. -/
theorem isFractional_iff (reads : Binary.read value = .finite number)
    (notBelow : ¬ value < 0.0) :
    isFractional value ↔ ¬ ∃ whole : Nat, number.value = whole := by
  rw [isFractional_iff_mod reads, Binary.value_of_nonneg (nonneg_of_read reads notBelow),
    Binary.significand_mul_zpow, not_iff_not, ← Nat.dvd_iff_mod_eq_zero]
  have positive : ((2 ^ (-number.exponent).toNat : Nat) : ℚ) ≠ 0 := by positivity
  have whole : (∃ whole : Nat, ((number.significand * 2 ^ number.exponent.toNat : Nat) : ℚ) /
      ((2 ^ (-number.exponent).toNat : Nat) : ℚ) = whole) ↔
        2 ^ (-number.exponent).toNat ∣ number.significand * 2 ^ number.exponent.toNat := by
    simp only [div_eq_iff positive, ← Nat.cast_mul, Nat.cast_inj, dvd_iff_exists_eq_mul_left]
  rw [whole]
  obtain ⟨places, scale | scale⟩ := Int.eq_nat_or_neg number.exponent
  · simp [scale]
  · simp [scale]

/-- The whole part of a double that is not below zero is its exact number rounded down. -/
theorem wholePart_eq_floor (reads : Binary.read value = .finite number)
    (notBelow : ¬ value < 0.0) : wholePart value = ⌊number.value⌋₊ := by
  rw [Binary.value_of_nonneg (nonneg_of_read reads notBelow), Binary.significand_mul_zpow,
    Nat.floor_div_natCast, Nat.floor_natCast]
  unfold wholePart
  rw [reads]
  dsimp only
  have scaled : ∀ other : Binary,
      (other.scaledTo 0).natAbs = other.significand * 2 ^ other.exponent.toNat := by
    intro other
    unfold Binary.scaledTo
    dsimp only
    rw [sub_zero, Nat.shiftLeft_eq]
    split
    · rw [Int.natAbs_neg, Int.natAbs_natCast]
    · rw [Int.natAbs_natCast]
  rw [scaled]
  unfold Binary.truncate
  split
  · next integral =>
    have none : (-number.exponent).toNat = 0 := by omega
    rw [none, Nat.pow_zero, Nat.div_one]
  · next fractional =>
    have none : number.exponent.toNat = 0 := by omega
    dsimp only
    rw [none, Nat.shiftRight_eq_div_pow]
    simp

end Fixity.Double
