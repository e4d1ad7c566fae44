import Mathlib
import Fixity.Number

/-!
Contract: negation and zero of doubles, down to their bits.

Owns:
- a double as sign, exponent and fraction bits, and negation on these;
- negation undoes itself and keeps finite numbers finite;
- the two zeros are the only doubles that compare equal to zero.

Does not own: rounding.
-/

namespace Fixity.Double

open Float.Model Float.Model.UnpackedFloat

/-- The layout of the bits of a double. -/
abbrev layout : Float.Model.Format := .binary64

/-! ## Bits -/

theorem toBitVec_ofBitVec (sign : BitVec 1) : (Sign.ofBitVec sign).toBitVec = sign := by
  revert sign
  decide

theorem ofBitVec_toBitVec (sign : Sign) : Sign.ofBitVec sign.toBitVec = sign := by
  cases sign <;> rfl

theorem unpackSign_packComponents {spec : Float.Model.Format} (sign : Sign)
    (exponent : BitVec spec.exponentBits) (fraction : BitVec spec.mantissaBitsWithoutImplicit) :
    unpackSign (packComponents spec sign exponent fraction) = sign.toBitVec := by
  unfold unpackSign packComponents
  ext index inRange
  grind

/-- The bits of a double are its sign, its exponent and its fraction. -/
theorem packComponents_unpack {spec : Float.Model.Format} (bits : BitVec spec.numBits) :
    packComponents spec (Sign.ofBitVec (unpackSign bits)) (unpackExponent bits)
      (unpackMantissa bits) = bits := by
  unfold packComponents unpackSign unpackExponent unpackMantissa
  rw [toBitVec_ofBitVec]
  ext index inRange
  simp only [BitVec.extractLsb]
  grind

theorem toNat_implicit (fraction : BitVec 52) :
    (1#1 ++ fraction).toNat = 2 ^ 52 + fraction.toNat := by
  rw [BitVec.toNat_append, ← Nat.shiftLeft_add_eq_or_of_lt fraction.isLt]
  rfl

/-- Negation flips the sign of a number and nothing else. -/
theorem pack_neg_unpack (sign : Sign) (exponent : BitVec layout.exponentBits)
    (fraction : BitVec layout.mantissaBitsWithoutImplicit)
    (number : exponent = -1#_ → fraction = 0#_) :
    UnpackedFloat.pack layout
        (UnpackedFloat.unpack layout (packComponents layout sign exponent fraction)).neg =
      packComponents layout (-sign) exponent fraction := by
  have fractionLt : fraction.toNat < 2 ^ 52 := fraction.isLt
  have exponentLt : exponent.toNat < 2 ^ 11 := exponent.isLt
  unfold UnpackedFloat.unpack
  simp only [unpackMantissa_packComponents, unpackExponent_packComponents,
    unpackSign_packComponents, ofBitVec_toBitVec]
  by_cases special : exponent = -1#_
  · obtain rfl := number special
    subst special
    rfl
  · rw [if_neg special]
    by_cases least : exponent = 0#_
    · rw [if_pos least]
      subst least
      by_cases zero : fraction = 0#_
      · rw [dif_pos zero]
        subst zero
        rfl
      · rw [dif_neg zero]
        have positive : fraction.toNat ≠ 0 := fun none => zero (BitVec.eq_of_toNat_eq none)
        have short : fraction.toNat.log2 < 52 := (Nat.log2_lt positive).mpr fractionLt
        have subnormal : ¬ fraction.toNat.log2 + 1 = layout.mantissaBits := by
          show ¬ fraction.toNat.log2 + 1 = 53
          omega
        unfold UnpackedFloat.neg UnpackedFloat.pack
        dsimp only
        rw [if_neg (by decide), if_neg subnormal, BitVec.ofNat_toNat]
        exact congrArg _ (BitVec.setWidth_eq fraction)
    · rw [if_neg least]
      have significand := toNat_implicit fraction
      have full : (1#1 ++ fraction).toNat.log2 = 52 := by
        rw [significand, Nat.log2_eq_iff (by omega)]
        omega
      have normal : (1#1 ++ fraction).toNat.log2 + 1 = layout.mantissaBits := by
        rw [full]
        rfl
      have bounded : exponent.toNat ≠ 2 ^ 11 - 1 :=
        fun greatest => special (BitVec.eq_of_toNat_eq greatest)
      unfold UnpackedFloat.neg UnpackedFloat.pack
      dsimp only
      have biased : (((exponent.toNat : Int) - (layout.exponentBias +
          layout.mantissaBitsWithoutImplicit) + layout.exponentBias +
          layout.mantissaBitsWithoutImplicit).toNat) = exponent.toNat := by
        omega
      have inRange : ¬ 2 ^ layout.exponentBits ≤ exponent.toNat + 1 := by
        show ¬ 2 ^ 11 ≤ exponent.toNat + 1
        omega
      rw [biased, if_neg inRange, if_pos normal, significand]
      have exponentKept : BitVec.ofNat layout.exponentBits exponent.toNat = exponent := by
        exact (BitVec.ofNat_toNat _ _).trans (BitVec.setWidth_eq exponent)
      have fractionKept : BitVec.ofNat layout.mantissaBitsWithoutImplicit
          (2 ^ 52 + fraction.toNat) = fraction := by
        apply BitVec.eq_of_toNat_eq
        show (2 ^ 52 + fraction.toNat) % 2 ^ 52 = fraction.toNat
        omega
      rw [exponentKept, fractionKept]

/-- The bits of a double. -/
def bits (value : Float) : BitVec layout.numBits := value.toModel.toBits.toBitVec

theorem eq_of_bits {value other : Float} (same : bits value = bits other) : value = other := by
  obtain ⟨⟨valueBits, valueValid⟩⟩ := value
  obtain ⟨⟨otherBits, otherValid⟩⟩ := other
  obtain rfl : valueBits = otherBits := UInt64.eq_of_toBitVec_eq same
  rfl

private theorem bits_neg (value : Float) :
    bits (-value) = UnpackedFloat.pack layout (UnpackedFloat.unpack layout (bits value)).neg := rfl

/-- Negation flips the sign bit, unless the double is undefined, and then changes nothing. -/
private theorem neg_cases (value : Float) :
    (∃ sign exponent fraction, (exponent = -1#_ → fraction = 0#_) ∧
      bits value = packComponents layout sign exponent fraction ∧
        bits (-value) = packComponents layout (-sign) exponent fraction) ∨
    (UnpackedFloat.unpack layout (bits value) = .notANumber ∧ -value = value) := by
  have components := packComponents_unpack (bits value)
  by_cases number : unpackExponent (bits value) = -1#_ → unpackMantissa (bits value) = 0#_
  · refine Or.inl ⟨_, _, _, number, components.symm, ?_⟩
    rw [bits_neg, ← pack_neg_unpack _ _ _ number, components]
  · have undefined : UnpackedFloat.unpack layout (bits value) = .notANumber := by
      rw [Classical.not_imp] at number
      unfold UnpackedFloat.unpack
      dsimp only
      rw [if_pos number.1, if_neg number.2]
    rw [Classical.not_imp] at number
    refine Or.inr ⟨undefined, eq_of_bits ?_⟩
    rw [bits_neg, undefined]
    exact (value.toModel.valid.eq_packedNaN number.1 number.2).symm

/-! ## Negation and zero -/

/-- Negation undoes itself. -/
theorem neg_neg (value : Float) : - -value = value := by
  rcases neg_cases value with ⟨sign, exponent, fraction, number, before, after⟩ | ⟨_, same⟩
  · apply eq_of_bits
    rw [bits_neg, after, pack_neg_unpack _ _ _ number, before]
    cases sign <;> rfl
  · rw [same, same]

theorem isFinite_packComponents (sign : Sign) (exponent : BitVec layout.exponentBits)
    (fraction : BitVec layout.mantissaBitsWithoutImplicit) :
    (UnpackedFloat.unpack layout (packComponents layout sign exponent fraction)).isFinite ↔
      exponent ≠ -1#_ := by
  unfold UnpackedFloat.unpack
  simp only [unpackMantissa_packComponents, unpackExponent_packComponents]
  by_cases special : exponent = -1#_
  · rw [if_pos special]
    have notFinite : ∀ {holds : Prop} [Decidable holds] (sign : Sign),
        ¬ (if holds then UnpackedFloat.infinity sign else .notANumber).isFinite := by
      intro holds _ sign finite
      split at finite <;> cases finite
    exact ⟨fun finite => absurd finite (notFinite _), fun other => absurd special other⟩
  · rw [if_neg special]
    refine ⟨fun _ => special, fun _ => ?_⟩
    split
    · split <;> rfl
    · rfl

theorem isFinite_neg (value : Float) : (-value).isFinite = value.isFinite := by
  rcases neg_cases value with ⟨sign, exponent, fraction, _, before, after⟩ | ⟨_, same⟩
  · rw [Bool.eq_iff_iff]
    show (UnpackedFloat.unpack layout (bits (-value))).isFinite ↔
      (UnpackedFloat.unpack layout (bits value)).isFinite
    rw [before, after, isFinite_packComponents, isFinite_packComponents]
  · rw [same]

theorem zero_of_compare {value : UnpackedFloat}
    (same : value.compare (.zero .positive) = some .eq) : ∃ sign, value = .zero sign := by
  cases value with
  | zero sign => exact ⟨sign, rfl⟩
  | notANumber => cases same
  | infinity sign => cases sign <;> cases same
  | finite sign significand exponent positive => cases sign <;> cases same

/-- Only the two zeros compare equal to zero. -/
theorem eq_zero_of_beq {value : Float} (same : value == 0.0) : value = 0.0 ∨ value = -0.0 := by
  have equal : (UnpackedFloat.unpack layout (bits value)).compare (.zero .positive) =
      some .eq := by
    exact eq_of_beq same
  obtain ⟨sign, zero⟩ := zero_of_compare equal
  have components := packComponents_unpack (bits value)
  unfold UnpackedFloat.unpack at zero
  dsimp only at zero
  split at zero
  · split at zero <;> cases zero
  · split at zero
    · next least =>
      split at zero
      · next none =>
        rw [least, none] at components
        cases isNegative : Sign.ofBitVec (unpackSign (bits value)) with
        | positive =>
            rw [isNegative] at components
            exact Or.inl (eq_of_bits components.symm)
        | negative =>
            rw [isNegative] at components
            exact Or.inr (eq_of_bits components.symm)
      · cases zero
    · cases zero

end Fixity.Double
