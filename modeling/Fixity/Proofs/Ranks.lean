import Fixity.Proofs.Integers

/-!
Contract: the order of all doubles, and of the real numbers among the complex ones.

Owns:
- `Double.rank`, which places every double in a linear order, infinite and undefined ones too;
- `Double.compare_eq_compare_rank`: comparison is the order of the ranks;
- `Number.Precedes`, the order in which no number is greater than the next one, with its laws.

Does not own: equality up to a tolerance.
-/

namespace Fixity

open Float.Model Float.Model.UnpackedFloat

namespace Double

variable {value other : Float}

/-- The place of a double among all of them: first the class, then the number. -/
def rank (value : Float) : ℤ ×ₗ ℚ :=
  match Binary.read value with
  | .undefined => toLex (2, 0)
  | .infinite negative => toLex (if negative then -1 else 1, 0)
  | .finite number => toLex (0, number.value)

/-- What a double is read as goes with its parts. -/
private theorem unpack_cases (value : Float) :
    (Binary.read value = .undefined ∧
      UnpackedFloat.unpack layout (bits value) = .notANumber) ∨
    (∃ negative, Binary.read value = .infinite negative ∧
      UnpackedFloat.unpack layout (bits value) =
        .infinity (if negative then .negative else .positive)) ∨
    ∃ number, Binary.read value = .finite number := by
  obtain ⟨sign, exponent, fraction, components⟩ := exists_components value
  by_cases special : exponent = -1#_
  · subst special
    obtain ⟨signPart, biased, fractionPart⟩ := toNat_toBits components
    have greatest : (-1#_ : BitVec layout.exponentBits).toNat = 2047 := rfl
    have unpacked : UnpackedFloat.unpack layout (bits value) =
        if fraction = 0#_ then .infinity sign else .notANumber := by
      rw [components]
      unfold UnpackedFloat.unpack
      simp only [unpackMantissa_packComponents, unpackExponent_packComponents,
        unpackSign_packComponents, ofBitVec_toBitVec, if_true]
    unfold Binary.read
    simp only [biased, fractionPart, signPart, greatest, if_true]
    rw [unpacked]
    by_cases none : fraction = 0#_
    · subst none
      refine Or.inr (Or.inl ⟨decide (sign.toBitVec.toNat = 1), rfl, ?_⟩)
      cases sign <;> rfl
    · have positive : fraction.toNat ≠ 0 := fun zero => none (BitVec.eq_of_toNat_eq zero)
      rw [if_neg positive, if_neg none]
      exact Or.inl ⟨rfl, rfl⟩
  · exact Or.inr (Or.inr ⟨_, read_of_components components special⟩)

private theorem isNaN_iff_read (value : Float) :
    value.isNaN ↔ Binary.read value = .undefined := by
  show (UnpackedFloat.unpack layout (bits value)).isNaN ↔ _
  rcases unpack_cases value with ⟨reads, unpacks⟩ | ⟨negative, reads, unpacks⟩ | ⟨number, reads⟩
  · rw [reads, unpacks]
    exact ⟨fun _ => rfl, fun _ => rfl⟩
  · rw [reads, unpacks]
    exact ⟨nofun, nofun⟩
  · rw [reads, (unpack_of_read reads).1]
    unfold Binary.unpacked
    split_ifs <;> exact ⟨nofun, nofun⟩

private theorem lt_iff_unpack (value other : Float) :
    value < other ↔ (UnpackedFloat.unpack layout (bits value)).compare
      (UnpackedFloat.unpack layout (bits other)) = some .lt := by
  show decide _ = true ↔ _
  rw [decide_eq_true_eq]
  exact beq_iff_eq

/-- Among doubles that are numbers, the smaller one has the lower rank. -/
private theorem lt_iff_rank_lt (isNumber : Binary.read value ≠ .undefined)
    (isNumber' : Binary.read other ≠ .undefined) : value < other ↔ rank value < rank other := by
  have infinite : ∀ {negative : Bool} {number : Binary},
      (UnpackedFloat.infinity (if negative then .negative else .positive)).compare
          number.unpacked = some (if negative then .lt else .gt) ∧
        number.unpacked.compare
          (UnpackedFloat.infinity (if negative then .negative else .positive)) =
            some (if negative then .gt else .lt) := by
    intro negative number
    unfold Binary.unpacked
    cases negative <;> split_ifs <;> exact ⟨rfl, rfl⟩
  unfold rank
  rcases unpack_cases value with ⟨reads, _⟩ | ⟨negative, reads, unpacks⟩ | ⟨number, reads⟩
  · exact absurd reads isNumber
  · rcases unpack_cases other with ⟨reads', _⟩ | ⟨negative', reads', unpacks'⟩ | ⟨number', reads'⟩
    · exact absurd reads' isNumber'
    · rw [lt_iff_unpack, unpacks, unpacks', reads, reads']
      cases negative <;> cases negative' <;> decide +revert
    · rw [lt_iff_unpack, unpacks, (unpack_of_read reads').1, infinite.1, reads, reads']
      cases negative <;> simp [Prod.Lex.toLex_lt_toLex]
  · rcases unpack_cases other with ⟨reads', _⟩ | ⟨negative', reads', unpacks'⟩ | ⟨number', reads'⟩
    · exact absurd reads' isNumber'
    · rw [lt_iff_unpack, unpacks', (unpack_of_read reads).1, infinite.2, reads, reads']
      cases negative' <;> simp [Prod.Lex.toLex_lt_toLex]
    · rw [lt_iff_value_lt reads reads', reads, reads']
      simp [Prod.Lex.toLex_lt_toLex]

/-- Comparison is the order of the ranks. -/
theorem compare_eq_compare_rank (value other : Float) :
    Double.compare value other = Ord.compare (rank value) (rank other) := by
  have last : ∀ {value other : Float}, Binary.read value ≠ .undefined →
      Binary.read other = .undefined → rank value < rank other := by
    intro value other isNumber undefined
    unfold rank
    rw [undefined]
    rcases unpack_cases value with ⟨reads, _⟩ | ⟨negative, reads, _⟩ | ⟨number, reads⟩
    · exact absurd reads isNumber
    · rw [reads]
      cases negative <;> simp [Prod.Lex.toLex_lt_toLex]
    · rw [reads]
      simp [Prod.Lex.toLex_lt_toLex]
  unfold Double.compare
  by_cases undefined : Binary.read value = .undefined
  · rw [if_pos ((isNaN_iff_read value).mpr undefined)]
    by_cases undefined' : Binary.read other = .undefined
    · rw [if_pos ((isNaN_iff_read other).mpr undefined')]
      unfold rank
      rw [undefined, undefined', compare_eq_iff_eq.mpr rfl]
    · rw [if_neg (mt (isNaN_iff_read other).mp undefined'),
        compare_gt_iff_gt.mpr (last undefined' undefined)]
  · rw [if_neg (mt (isNaN_iff_read value).mp undefined)]
    by_cases undefined' : Binary.read other = .undefined
    · rw [if_pos ((isNaN_iff_read other).mpr undefined'),
        compare_lt_iff_lt.mpr (last undefined undefined')]
    · rw [if_neg (mt (isNaN_iff_read other).mp undefined')]
      simp only [lt_iff_rank_lt undefined undefined', lt_iff_rank_lt undefined' undefined]
      rcases lt_trichotomy (rank value) (rank other) with less | same | greater
      · rw [if_pos less, compare_lt_iff_lt.mpr less]
      · rw [same, if_neg (lt_irrefl _), if_neg (lt_irrefl _), compare_eq_iff_eq.mpr rfl]
      · rw [if_neg greater.le.not_gt, if_pos greater, compare_gt_iff_gt.mpr greater]

end Double

/-! ## Real numbers -/

namespace Number

variable {first second third : Number}

/-- The first number is not greater than the second one. -/
def Precedes (first second : Number) : Prop := first.compare second ≠ .gt

instance (first second : Number) : Decidable (first.Precedes second) :=
  inferInstanceAs (Decidable (_ ≠ _))

theorem isNearlyReal_of_isReal {number : Number} (isReal : number.isReal) :
    number.isNearlyReal := by
  unfold isNearlyReal
  rcases Double.eq_zero_of_beq isReal with zero | zero
  · rw [zero]
    decide +kernel
  · rw [zero]
    decide +kernel

theorem compare_of_isReal (isReal : first.isReal) (isReal' : second.isReal) :
    first.compare second = Ord.compare (Double.rank first.real) (Double.rank second.real) := by
  unfold compare
  rw [isNearlyReal_of_isReal isReal, isNearlyReal_of_isReal isReal']
  exact Double.compare_eq_compare_rank first.real second.real

theorem precedes_iff_of_isReal (isReal : first.isReal) (isReal' : second.isReal) :
    first.Precedes second ↔ Double.rank first.real ≤ Double.rank second.real := by
  unfold Precedes
  rw [compare_of_isReal isReal isReal', ne_eq, compare_gt_iff_gt, not_lt]

theorem compare_lt_of_isReal (isReal : first.isReal) (isReal' : second.isReal) :
    first.compare second = .lt ↔ Double.rank first.real < Double.rank second.real := by
  rw [compare_of_isReal isReal isReal', compare_lt_iff_lt]

end Number

end Fixity
