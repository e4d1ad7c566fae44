import Mathlib.Data.List.TakeDrop
import Mathlib.Data.List.TakeWhile
import Fixity.Syntax.Literal

/-!
Contract: the grammar of literals.

Owns:
- `Numeral`, the parts of a number literal, with its spelling and its value;
- `Spells`, the literals that tokens stand for, without a reader;
- that reading a token as a literal finds the numeral or name that spells it, and no other.

Does not own: the digits that numbers are written with.

Main statement: a token is classified as a literal exactly if it spells one.
-/

namespace Fixity.Syntax

/-! ## Runs of characters -/

/-- A run of characters that pass a test ends where the first one fails. -/
theorem takeWhile_run {test : Char → Bool} {run rest : List Char} (all : ∀ char ∈ run, test char)
    (stops : ∀ char ∈ rest.head?, ¬ test char) :
    (run ++ rest).takeWhile test = run ∧ (run ++ rest).dropWhile test = rest := by
  have stopped : rest.takeWhile test = [] ∧ rest.dropWhile test = rest := by
    cases rest with
    | nil => exact ⟨rfl, rfl⟩
    | cons char rest =>
        have fails : ¬ test char := stops char rfl
        exact ⟨List.takeWhile_cons_of_neg fails, List.dropWhile_cons_of_neg fails⟩
  rw [List.takeWhile_append_of_pos all, List.dropWhile_append_of_pos all, stopped.1, stopped.2,
    List.append_nil]
  exact ⟨rfl, rfl⟩

theorem span_digits {digits rest : List Char} (all : ∀ digit ∈ digits, digit.isDigit)
    (stops : ∀ char ∈ rest.head?, ¬ char.isDigit) :
    (digits ++ rest).span Char.isDigit = (digits, rest) := by
  obtain ⟨taken, dropped⟩ := takeWhile_run all stops
  rw [List.span_eq_takeWhile_dropWhile, taken, dropped]

theorem span_split (text : List Char) :
    text = (text.span Char.isDigit).1 ++ (text.span Char.isDigit).2 ∧
      ∀ digit ∈ (text.span Char.isDigit).1, digit.isDigit := by
  rw [List.span_eq_takeWhile_dropWhile]
  exact ⟨List.takeWhile_append_dropWhile.symm, fun digit member => List.mem_takeWhile_imp member⟩

/-- A character that need not be there. -/
def optional (char : Char) (present : Bool) : List Char := if present then [char] else []

theorem eq_of_mem_optional {char other : Char} {present : Bool}
    (member : other ∈ optional char present) : other = char := by
  cases present with
  | false => cases member
  | true => exact List.mem_singleton.mp member

theorem skipChar_split (expected : Char) (text : List Char) :
    text = optional expected (skipChar expected text).1 ++ (skipChar expected text).2 := by
  unfold skipChar
  split
  · next char rest =>
    split
    · next same => exact congrArg (· :: rest) same
    · rfl
  · rfl

theorem skipChar_optional {expected : Char} {rest : List Char} (present : Bool)
    (stops : rest.head? ≠ some expected) :
    skipChar expected (optional expected present ++ rest) = (present, rest) := by
  cases present with
  | true => exact if_pos rfl
  | false =>
      cases rest with
      | nil => rfl
      | cons char rest => exact if_neg fun same => stops (congrArg some same)

/-! ## Numerals -/

/-- A row of decimal digits, at least one. -/
structure Digits where
  chars : List Char
  inhabited : chars ≠ []
  all : ∀ digit ∈ chars, digit.isDigit

/-- The signs of exponents. -/
def exponentSigns : List (List Char) := [[], ['+'], ['-']]

/-- The power of ten behind the digits of a number. -/
structure Power where
  mark : Char
  isMark : mark = 'e' ∨ mark = 'E'
  sign : List Char
  isSign : sign ∈ exponentSigns
  digits : Digits

namespace Power

def spelling (power : Power) : List Char := power.mark :: (power.sign ++ power.digits.chars)

def exponent (power : Power) : Int :=
  let magnitude : Int := Decimal.natOfDigits power.digits.chars
  if power.sign = ['-'] then -magnitude else magnitude

end Power

/-- The literal of a number: `~?d+(.d*)?([eE][+-]?d+)?i?`. -/
structure Numeral where
  negative : Bool
  whole : Digits
  fraction : Option (List Char)
  isFraction : ∀ digits ∈ fraction, ∀ digit ∈ digits, digit.isDigit
  power : Option Power
  imaginary : Bool

namespace Numeral

/-- A point and the digits behind it. -/
def pointed (fraction : Option (List Char)) : List Char := fraction.elim [] ('.' :: ·)

theorem mem_pointed {fraction : Option (List Char)}
    (all : ∀ digits ∈ fraction, ∀ digit ∈ digits, digit.isDigit) {char : Char}
    (member : char ∈ pointed fraction) : char.isDigit ∨ char = '.' := by
  cases fraction with
  | none => cases member
  | some digits =>
      rcases List.mem_cons.mp member with point | inDigits
      · exact Or.inr point
      · exact Or.inl (all digits rfl char inDigits)

/-- A mark and the power of ten behind it. -/
def scaled (power : Option Power) : List Char := power.elim [] Power.spelling

/-- The characters of a numeral behind its sign. -/
def unsigned (numeral : Numeral) : List Char :=
  numeral.whole.chars ++ (pointed numeral.fraction ++
    (scaled numeral.power ++ optional 'i' numeral.imaginary))

def spelling (numeral : Numeral) : List Char :=
  optional negativeGlyph numeral.negative ++ numeral.unsigned

/-- The decimal that the digits and the power of ten write, as a double. -/
def magnitude (numeral : Numeral) : Float :=
  (Decimal.ofParts numeral.whole.chars (numeral.fraction.getD [])
    (numeral.power.elim 0 Power.exponent)).toFloat

def value (numeral : Numeral) : Number :=
  let signed := if numeral.negative then -numeral.magnitude else numeral.magnitude
  if numeral.imaginary then ⟨0.0, signed⟩ else ⟨signed, 0.0⟩

end Numeral

open Numeral

/-! ## Fractions -/

theorem readFraction_pointed {fraction : Option (List Char)} {rest : List Char}
    (all : ∀ digits ∈ fraction, ∀ digit ∈ digits, digit.isDigit)
    (stops : ∀ char ∈ rest.head?, ¬ char.isDigit ∧ char ≠ '.') :
    readFraction (pointed fraction ++ rest) = (fraction.getD [], rest) := by
  cases fraction with
  | none =>
      have noPoint : rest.head? ≠ some '.' := fun point => (stops '.' point).2 rfl
      have skipped : skipChar '.' (pointed none ++ rest) = (false, rest) :=
        skipChar_optional false noPoint
      unfold readFraction
      rw [skipped]
      rfl
  | some digits =>
      show (digits ++ rest).span Char.isDigit = (digits, rest)
      exact span_digits (all digits rfl) fun char head => (stops char head).1

theorem exists_fraction (text : List Char) :
    ∃ fraction, text = pointed fraction ++ (readFraction text).2 ∧
      (readFraction text).1 = fraction.getD [] ∧
        ∀ digits ∈ fraction, ∀ digit ∈ digits, digit.isDigit := by
  have split := skipChar_split '.' text
  unfold readFraction
  cases skipped : skipChar '.' text with
  | mk present rest =>
      rw [skipped] at split
      cases present with
      | false => exact ⟨none, split, rfl, nofun⟩
      | true =>
          obtain ⟨whole, all⟩ := span_split rest
          refine ⟨some (rest.span Char.isDigit).1, ?_, rfl, fun digits same => ?_⟩
          · exact split.trans (congrArg ('.' :: ·) whole)
          · cases same
            exact all

/-! ## Exponents -/

/-- The digits of an exponent, read behind its sign. -/
private theorem readPower_eq (digits : Digits) {rest : List Char} (negative : Bool)
    (stops : ∀ char ∈ rest.head?, ¬ char.isDigit) :
    (if ((digits.chars ++ rest).span Char.isDigit).1.isEmpty then none
      else
        let magnitude : Int := Decimal.natOfDigits ((digits.chars ++ rest).span Char.isDigit).1
        some (if negative then -magnitude else magnitude,
          ((digits.chars ++ rest).span Char.isDigit).2)) =
      some (if negative then -(Decimal.natOfDigits digits.chars : Int)
        else (Decimal.natOfDigits digits.chars : Int), rest) := by
  rw [span_digits digits.all stops]
  exact if_neg (by simpa using digits.inhabited)

theorem readExponent?_scaled {power : Option Power} {rest : List Char}
    (stops : ∀ char ∈ rest.head?, ¬ char.isDigit ∧ char ≠ 'e' ∧ char ≠ 'E') :
    readExponent? (scaled power ++ rest) = some (power.elim 0 Power.exponent, rest) := by
  have noDigit : ∀ char ∈ rest.head?, ¬ char.isDigit := fun char head => (stops char head).1
  cases power with
  | none =>
      cases rest with
      | nil => rfl
      | cons char rest =>
          have noMark : ¬ (char = 'e' ∨ char = 'E') := not_or.mpr (stops char rfl).2
          exact if_neg noMark
  | some power =>
      obtain ⟨mark, isMark, sign, isSign, digits⟩ := power
      show readExponent? (mark :: (sign ++ digits.chars ++ rest)) = _
      unfold readExponent?
      dsimp only
      rw [if_pos isMark]
      simp only [exponentSigns, List.mem_cons, List.not_mem_nil, or_false] at isSign
      rcases isSign with rfl | rfl | rfl
      · -- a digit is no sign, so the exponent is read from its first character on
        have digit {char : Char} {text : List Char}
            (same : [] ++ digits.chars ++ rest = char :: text) : char.isDigit := by
          obtain ⟨first, others, spelled⟩ := List.exists_cons_of_ne_nil digits.inhabited
          rw [spelled] at same
          cases same
          exact digits.all char (spelled ▸ List.mem_cons_self)
        split
        · next same => exact absurd (digit same) (by decide)
        · next same => exact absurd (digit same) (by decide)
        · exact readPower_eq digits false noDigit
      · exact readPower_eq digits false noDigit
      · exact readPower_eq digits true noDigit

/-- An exponent that has been read is a power of ten in front of what is left. -/
theorem exists_power {text rest : List Char} {exponent : Int}
    (read : readExponent? text = some (exponent, rest)) :
    ∃ power, text = scaled power ++ rest ∧ exponent = power.elim 0 Power.exponent := by
  unfold readExponent? at read
  split at read
  · cases read
    exact ⟨none, rfl, rfl⟩
  · next mark behind =>
    split at read
    · next isMark =>
      have digits {negative : Bool} {sign unsigned : List Char} (isSign : sign ∈ exponentSigns)
          (signs : negative = true ↔ sign = ['-']) (parts : behind = sign ++ unsigned)
          (read : (if (unsigned.span Char.isDigit).1.isEmpty then none
            else
              let magnitude : Int := Decimal.natOfDigits (unsigned.span Char.isDigit).1
              some (if negative then -magnitude else magnitude,
                (unsigned.span Char.isDigit).2)) = some (exponent, rest)) :
          ∃ power, mark :: behind = scaled power ++ rest ∧
            exponent = power.elim 0 Power.exponent := by
        obtain ⟨split, all⟩ := span_split unsigned
        split at read
        · cases read
        · next inhabited =>
          cases read
          refine ⟨some ⟨mark, isMark, sign, isSign, _, by simpa using inhabited, all⟩, ?_, ?_⟩
          · rw [parts]
            show _ = mark :: (sign ++ _) ++ _
            rw [List.cons_append, List.append_assoc, ← split]
          · exact if_congr signs rfl rfl
      split at read
      next signed unsigned same =>
      split at same
      · cases same
        exact digits (by decide) (iff_of_true rfl rfl) rfl read
      · cases same
        exact digits (by decide : ['+'] ∈ exponentSigns) (by decide) rfl read
      · cases same
        exact digits (by decide : [] ∈ exponentSigns) (by decide) rfl read
    · cases read
      exact ⟨none, rfl, rfl⟩

/-! ## Literals -/

namespace Numeral

private theorem stops_optional {char : Char} {test : Char → Prop} (present : Bool)
    (holds : test char) :
    ∀ first ∈ (optional char present).head?, test first :=
  fun _ head => eq_of_mem_optional (List.mem_of_mem_head? head) ▸ holds

/-- What is behind the digits of a fraction does not start with a digit or a point. -/
private theorem stops_scaled (power : Option Power) (imaginary : Bool) :
    ∀ char ∈ (scaled power ++ optional 'i' imaginary).head?, ¬ char.isDigit ∧ char ≠ '.' := by
  cases power with
  | none => exact stops_optional imaginary (by decide)
  | some power =>
      intro char same
      cases same
      rcases power.isMark with mark | mark <;> rw [mark] <;> decide

/-- What is behind the whole digits does not start with a digit. -/
private theorem stops_pointed (numeral : Numeral) :
    ∀ char ∈ (pointed numeral.fraction ++
      (scaled numeral.power ++ optional 'i' numeral.imaginary)).head?, ¬ char.isDigit := by
  cases numeral.fraction with
  | none => exact fun char head => (stops_scaled numeral.power numeral.imaginary char head).1
  | some digits =>
      intro char same
      cases same
      decide

/-- No numeral has a second sign. -/
private theorem unsigned_head (numeral : Numeral) :
    numeral.unsigned.head? ≠ some negativeGlyph := by
  obtain ⟨first, others, spelled⟩ := List.exists_cons_of_ne_nil numeral.whole.inhabited
  intro same
  unfold unsigned at same
  rw [spelled] at same
  cases same
  exact absurd (numeral.whole.all negativeGlyph (spelled ▸ List.mem_cons_self)) (by decide)

/-- A numeral is read as its value. -/
theorem readNumber?_spelling (numeral : Numeral) :
    readNumber? numeral.spelling = some numeral.value := by
  have sign : skipChar negativeGlyph numeral.spelling = (numeral.negative, numeral.unsigned) :=
    skipChar_optional numeral.negative numeral.unsigned_head
  have whole : numeral.unsigned.span Char.isDigit = (numeral.whole.chars, pointed numeral.fraction ++
      (scaled numeral.power ++ optional 'i' numeral.imaginary)) :=
    span_digits numeral.whole.all numeral.stops_pointed
  have fraction := readFraction_pointed numeral.isFraction
    (stops_scaled numeral.power numeral.imaginary)
  have exponent := @readExponent?_scaled numeral.power (optional 'i' numeral.imaginary)
    (stops_optional numeral.imaginary (by decide))
  have unit : skipChar 'i' (optional 'i' numeral.imaginary) = (numeral.imaginary, []) := by
    rw [← List.append_nil (optional 'i' numeral.imaginary)]
    exact skipChar_optional numeral.imaginary nofun
  have inhabited : ¬ numeral.whole.chars.isEmpty := by simpa using numeral.whole.inhabited
  unfold readNumber?
  rw [sign]
  simp only [whole, fraction, exponent, unit, if_neg inhabited, Option.bind_eq_bind,
    Option.bind_some, List.isEmpty_nil, if_true]
  rfl

/-- A number that has been read is the value of a numeral, which spells the whole token. -/
theorem exists_numeral {token : List Char} {number : Number}
    (read : readNumber? token = some number) :
    ∃ numeral : Numeral, numeral.spelling = token ∧ numeral.value = number := by
  unfold readNumber? at read
  simp only [] at read
  split at read
  · cases read
  · next inhabited =>
    obtain ⟨⟨exponent, rest⟩, exponentRead, inRest⟩ := Option.bind_eq_some_iff.mp read
    dsimp only at inRest
    split at inRest
    · next ends =>
      have sign := skipChar_split negativeGlyph token
      obtain ⟨whole, wholeDigits⟩ := span_split (skipChar negativeGlyph token).2
      obtain ⟨fraction, pointSplit, fractionRead, isFraction⟩ :=
        exists_fraction ((skipChar negativeGlyph token).2.span Char.isDigit).2
      obtain ⟨power, powerSplit, powerRead⟩ := exists_power exponentRead
      have unit := skipChar_split 'i' rest
      rw [List.isEmpty_iff.mp ends, List.append_nil] at unit
      refine ⟨⟨(skipChar negativeGlyph token).1, ⟨_, by simpa using inhabited, wholeDigits⟩, fraction,
        isFraction, power, (skipChar 'i' rest).1⟩, ?_, ?_⟩
      · unfold spelling unsigned
        dsimp only
        rw [← unit, ← powerSplit, ← pointSplit, ← whole, ← sign]
      · rw [fractionRead, powerRead] at inRest
        exact Option.some.inj inRest
    · cases inRest

end Numeral

/-- What starts neither with a digit nor with a sign is no number. -/
theorem readNumber?_eq_none {char : Char} (noNumber : ¬ (char.isDigit ∨ char = negativeGlyph))
    (rest : List Char) : readNumber? (char :: rest) = none := by
  rw [not_or] at noNumber
  have skipped : skipChar negativeGlyph (char :: rest) = (false, char :: rest) :=
    if_neg noNumber.2
  simp [readNumber?, skipped, List.span_eq_takeWhile_dropWhile, noNumber.1]

theorem readNumber?_eq_some_iff {token : List Char} {number : Number} :
    readNumber? token = some number ↔
      ∃ numeral : Numeral, numeral.spelling = token ∧ numeral.value = number := by
  refine ⟨Numeral.exists_numeral, ?_⟩
  rintro ⟨numeral, rfl, rfl⟩
  exact numeral.readNumber?_spelling

/-- The literal that a token spells: a number, or a name `[a-zA-Z_$][a-zA-Z0-9_$]*`. -/
inductive Spells : (token : List Char) → Literal → Prop where
  | number (numeral : Numeral) : Spells numeral.spelling (.number numeral.value)
  | name {first : Char} {others : List Char}
      (start : first.isAlpha ∨ first = '_' ∨ first = '$')
      (all : ∀ char ∈ others, char.isAlpha ∨ char.isDigit ∨ char = '_' ∨ char = '$') :
      Spells (first :: others) (.name (String.ofList (first :: others)))

theorem isNameStart_iff {char : Char} :
    isNameStart char ↔ char.isAlpha ∨ char = '_' ∨ char = '$' := by
  simp [isNameStart, or_assoc]

theorem isNameChar_iff {char : Char} :
    isNameChar char ↔ char.isAlpha ∨ char.isDigit ∨ char = '_' ∨ char = '$' := by
  simp [isNameChar, Char.isAlphanum, or_assoc]

theorem readName?_eq_some_iff {token : List Char} {name : String} :
    readName? token = some name ↔ ∃ first others, token = first :: others ∧ isNameStart first ∧
      (∀ char ∈ others, isNameChar char) ∧ name = String.ofList token := by
  constructor
  · intro read
    unfold readName? at read
    split at read
    · cases read
    · next first others =>
      split at read
      · next spelled =>
        rw [Bool.and_eq_true, List.all_eq_true] at spelled
        exact ⟨first, others, rfl, spelled.1, spelled.2, (Option.some.inj read).symm⟩
      · cases read
  · rintro ⟨first, others, rfl, start, all, rfl⟩
    have spelled : isNameStart first && others.all isNameChar :=
      Bool.and_eq_true_iff.mpr ⟨start, List.all_eq_true.mpr all⟩
    exact if_pos spelled

/-- No name starts like a number. -/
theorem no_number_of_isNameStart {first : Char} (start : isNameStart first) :
    ¬ (first.isDigit ∨ first = negativeGlyph) := by
  rintro (digit | rfl)
  · have start : (decide (first.val ≥ 'A'.val ∧ first.val ≤ 'Z'.val) ||
        decide (first.val ≥ 'a'.val) && decide (first.val ≤ 'z'.val) || decide (first = '_') ||
          decide (first = '$')) = true := start
    simp only [Bool.or_eq_true, Bool.and_eq_true, decide_eq_true_eq, UInt32.le_iff_toNat_le,
      ge_iff_le] at start
    simp only [Char.isDigit, Bool.and_eq_true, decide_eq_true_eq, UInt32.le_iff_toNat_le,
      ge_iff_le] at digit
    have last : '9'.val.toNat = 57 := rfl
    rcases start with ((upper | lower) | rfl) | rfl
    · have first : 'A'.val.toNat = 65 := rfl
      omega
    · have first : 'a'.val.toNat = 97 := rfl
      omega
    · exact absurd digit.2 (by decide)
    · exact absurd digit.1 (by decide)
  · exact absurd start (by decide)

/-- A token is classified as a literal if it spells it and only then. -/
theorem classify_eq_some_iff {token : List Char} {literal : Literal} :
    classify token = some literal ↔ Spells token literal := by
  constructor
  · intro classified
    unfold classify at classified
    split at classified
    · next number read =>
      cases classified
      obtain ⟨numeral, rfl, rfl⟩ := readNumber?_eq_some_iff.mp read
      exact .number numeral
    · obtain ⟨name, read, rfl⟩ := Option.map_eq_some_iff.mp classified
      obtain ⟨first, others, rfl, start, all, rfl⟩ := readName?_eq_some_iff.mp read
      exact .name (isNameStart_iff.mp start) fun char member => isNameChar_iff.mp (all char member)
  · intro spells
    unfold classify
    cases spells with
    | number numeral => rw [numeral.readNumber?_spelling]
    | name start all =>
        have nameStart := isNameStart_iff.mpr start
        have name := readName?_eq_some_iff.mpr
          ⟨_, _, rfl, nameStart, fun char member => isNameChar_iff.mpr (all char member), rfl⟩
        rw [readNumber?_eq_none (no_number_of_isNameStart nameStart), name]
        rfl

end Fixity.Syntax
