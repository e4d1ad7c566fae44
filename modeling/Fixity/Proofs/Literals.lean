import Fixity.Proofs.Doubles
import Fixity.Proofs.Grammar
import Fixity.Syntax.Literal
import Fixity.Syntax.Printer

/-!
Contract: number literals read back as the numbers they show.

Owns:
- `ReadsBack`, what is expected of the decimal notation of a double: digits that stand for it;
- `Presentable`, the doubles that have a literal;
- the numbers that literals stand for;
- `readNumber?_renderNumber`: the literal of such a number stands for it;
- the characters that literals of numbers are made of, none of which starts a comment.

Does not own: the proof that the shortest decimal of a double reads back.
-/

namespace Fixity.Syntax

/-! ## Numbers with a literal -/

/-- Digits, with a point and further digits if there are any. -/
def plainDecimal (whole fraction : List Char) : List Char :=
  if fraction.isEmpty then whole else whole ++ '.' :: fraction

/-- A double is written as plain digits that stand for it. -/
def ReadsBack (value : Float) : Prop :=
  ∃ whole fraction, whole ≠ [] ∧ (∀ digit ∈ whole ++ fraction, digit.isDigit) ∧
    (Decimal.write value).toList = plainDecimal whole fraction ∧
      (Decimal.ofParts whole fraction 0).toFloat = value

/-- A finite double other than the negative zero. -/
def Presentable (value : Float) : Prop := value.isFinite ∧ value ≠ -0.0

/-- A double without its sign, which literals write with a glyph of their own. -/
def magnitude (value : Float) : Float := if value < 0.0 then -value else value

theorem Presentable.magnitude {value : Float} (presentable : Presentable value) :
    Presentable (magnitude value) := by
  obtain ⟨finite, noNegativeZero⟩ := presentable
  unfold Syntax.magnitude
  by_cases negative : value < 0.0
  · rw [if_pos negative]
    refine ⟨(Double.isFinite_neg value).trans finite, fun zero => ?_⟩
    have positiveZero : value = 0.0 := by
      rw [← Double.neg_neg value, zero, Double.neg_neg]
    rw [positiveZero] at negative
    exact absurd negative (by decide)
  · rw [if_neg negative]
    exact ⟨finite, noNegativeZero⟩

/-- The sign of a literal. -/
def literalSign (value : Float) : List Char := if value < 0.0 then [negativeGlyph] else []

theorem renderReal_eq (value : Float) :
    Node.renderReal value = literalSign value ++ (Decimal.write (magnitude value)).toList := by
  unfold Node.renderReal literalSign magnitude
  by_cases negative : value < 0.0
  · rw [if_pos negative, if_pos negative, if_pos negative]
    rfl
  · rw [if_neg negative, if_neg negative, if_neg negative]
    rfl

/-- The part of a literal's number that the literal spells out, the other one being zero. -/
theorem readNumber?_parts {token : List Char} {number : Number}
    (read : readNumber? token = some number) : number.real = 0.0 ∨ number.imaginary = 0.0 := by
  obtain ⟨numeral, _, rfl⟩ := readNumber?_eq_some_iff.mp read
  unfold Numeral.value
  dsimp only
  split
  · exact Or.inl rfl
  · exact Or.inr rfl

/-! ## Reading literals -/

private theorem readNumber?_plain {whole fraction : List Char} (inhabited : whole ≠ [])
    (all : ∀ digit ∈ whole ++ fraction, digit.isDigit) (negative imaginary : Bool) :
    readNumber? (optional negativeGlyph negative ++ plainDecimal whole fraction ++
        optional 'i' imaginary) =
      some (
        let magnitude := (Decimal.ofParts whole fraction 0).toFloat
        let value := if negative then -magnitude else magnitude
        if imaginary then ⟨0.0, value⟩ else ⟨value, 0.0⟩) := by
  have wholeDigits : ∀ digit ∈ whole, digit.isDigit :=
    fun digit member => all digit (List.mem_append_left _ member)
  have fractionDigits : ∀ digit ∈ fraction, digit.isDigit :=
    fun digit member => all digit (List.mem_append_right _ member)
  let digits : Digits := ⟨whole, inhabited, wholeDigits⟩
  cases fraction with
  | nil =>
      let numeral : Numeral := ⟨negative, digits, none, nofun, none, imaginary⟩
      have spelled : optional negativeGlyph negative ++ plainDecimal whole [] ++
          optional 'i' imaginary = numeral.spelling := List.append_assoc _ _ _
      rw [spelled]
      exact numeral.readNumber?_spelling
  | cons first others =>
      let numeral : Numeral :=
        ⟨negative, digits, some (first :: others), fun _ same => Option.some.inj same ▸ fractionDigits,
          none, imaginary⟩
      have spelled : optional negativeGlyph negative ++ plainDecimal whole (first :: others) ++
          optional 'i' imaginary = numeral.spelling := by
        simp [numeral, digits, plainDecimal, Numeral.spelling, Numeral.unsigned, Numeral.pointed,
          Numeral.scaled]
      rw [spelled]
      exact numeral.readNumber?_spelling

/-! ## The literal of a number -/

/-- The number with a given real or imaginary part. -/
def numberOf (imaginary : Bool) (value : Float) : Number :=
  if imaginary then ⟨0.0, value⟩ else ⟨value, 0.0⟩

/-- A number with one part shows that part. -/
theorem renderNumber_eq {number : Number} (part : number.real = 0.0 ∨ number.imaginary = 0.0)
    (presentable : Presentable number.imaginary) :
    ∃ imaginary value, number = numberOf imaginary value ∧
      value ∈ [number.real, number.imaginary] ∧
      Node.renderNumber number =
        literalSign value ++ (Decimal.write (magnitude value)).toList ++
          optional 'i' imaginary := by
  have ofReal : number.imaginary = 0.0 →
      ∃ imaginary value, number = numberOf imaginary value ∧
        value ∈ [number.real, number.imaginary] ∧
        Node.renderNumber number =
          literalSign value ++ (Decimal.write (magnitude value)).toList ++
            optional 'i' imaginary := by
    intro real
    refine ⟨false, number.real, ?_, by simp, ?_⟩
    · rw [numberOf, if_neg Bool.false_ne_true, ← real]
    · have isReal : number.isReal := by
        unfold Number.isReal
        rw [real]
        decide
      rw [Node.renderNumber, if_pos isReal, renderReal_eq]
      exact (List.append_nil _).symm
  rcases part with noReal | real
  · by_cases isReal : number.isReal
    · exact ofReal ((Double.eq_zero_of_beq isReal).resolve_right presentable.2)
    · refine ⟨true, number.imaginary, ?_, by simp, ?_⟩
      · rw [numberOf, if_pos rfl, ← noReal]
      · have isImaginary : number.isImaginary := by
          unfold Number.isImaginary
          rw [noReal]
          decide
        rw [Node.renderNumber, if_neg isReal, if_pos isImaginary, renderReal_eq]
        rfl
  · exact ofReal real

/-- A literal stands for the number it shows. -/
theorem readNumber?_renderNumber {number : Number}
    (part : number.real = 0.0 ∨ number.imaginary = 0.0)
    (presentable : Presentable number.imaginary)
    (readsBack : ∀ value ∈ [number.real, number.imaginary], ReadsBack (magnitude value)) :
    readNumber? (Node.renderNumber number) = some number := by
  obtain ⟨imaginary, value, spelled, member, rendered⟩ := renderNumber_eq part presentable
  obtain ⟨whole, fraction, inhabited, all, written, read⟩ := readsBack value member
  have signed : (if decide (value < 0.0) then -magnitude value else magnitude value) = value := by
    unfold magnitude
    by_cases negative : value < 0.0
    · rw [if_pos (by simpa using negative), if_pos negative, Double.neg_neg]
    · rw [if_neg (by simpa using negative), if_neg negative]
  have sign : literalSign value = optional negativeGlyph (decide (value < 0.0)) := by
    unfold literalSign optional
    by_cases negative : value < 0.0
    · rw [if_pos negative, if_pos (by simpa using negative)]
    · rw [if_neg negative, if_neg (by simpa using negative)]
  rw [rendered, written, sign, readNumber?_plain inhabited all]
  dsimp only
  rw [read, signed, spelled]
  rfl

/-- The characters of a literal. -/
theorem renderNumber_chars {number : Number}
    (part : number.real = 0.0 ∨ number.imaginary = 0.0)
    (presentable : Presentable number.imaginary)
    (readsBack : ∀ value ∈ [number.real, number.imaginary], ReadsBack (magnitude value)) :
    ∃ first others, Node.renderNumber number = first :: others ∧
      (first.isDigit ∨ first = negativeGlyph) ∧
        ∀ char ∈ others, char.isDigit ∨ char = '.' ∨ char = 'i' := by
  obtain ⟨imaginary, value, _, member, rendered⟩ := renderNumber_eq part presentable
  obtain ⟨whole, fraction, inhabited, all, written, _⟩ := readsBack value member
  obtain ⟨head, tail, rfl⟩ := List.exists_cons_of_ne_nil inhabited
  have plain : ∀ char ∈ plainDecimal (head :: tail) fraction ++ optional 'i' imaginary,
      char.isDigit ∨ char = '.' ∨ char = 'i' := by
    intro char member
    rcases List.mem_append.mp member with inDecimal | inMark
    · unfold plainDecimal at inDecimal
      split at inDecimal
      · exact Or.inl (all char (List.mem_append_left _ inDecimal))
      · rcases List.mem_append.mp inDecimal with inWhole | inFraction
        · exact Or.inl (all char (List.mem_append_left _ inWhole))
        · rcases List.mem_cons.mp inFraction with point | digit
          · exact Or.inr (Or.inl point)
          · exact Or.inl (all char (List.mem_append_right _ digit))
    · unfold optional at inMark
      split at inMark
      · exact Or.inr (Or.inr (List.mem_singleton.mp inMark))
      · cases inMark
  have headDigit : head.isDigit := all head (by simp)
  obtain ⟨others, spelled⟩ : ∃ others,
      plainDecimal (head :: tail) fraction ++ optional 'i' imaginary = head :: others := by
    unfold plainDecimal
    split
    · exact ⟨_, rfl⟩
    · exact ⟨_, rfl⟩
  rw [rendered, written, List.append_assoc, spelled]
  rw [spelled] at plain
  unfold literalSign
  split
  · exact ⟨negativeGlyph, head :: others, rfl, Or.inr rfl, plain⟩
  · exact ⟨head, others, rfl, Or.inl headDigit,
      fun char member => plain char (List.mem_cons_of_mem _ member)⟩

/-! ## The characters of literals -/

/-- The characters of literals apart from the signs of exponents. -/
def isLiteralChar (char : Char) : Bool :=
  char.isDigit || char ∈ [negativeGlyph, '.', 'e', 'E', 'i']

/-- The literal of a number is made of literal characters and at most one sign of an exponent, which
is not the last character. -/
theorem readNumber?_split {token : List Char} {number : Number}
    (read : readNumber? token = some number) :
    ∃ front, ∃ sign ∈ exponentSigns, ∃ back, token = front ++ sign ++ back ∧ back ≠ [] ∧
      ∀ char ∈ front ++ back, isLiteralChar char := by
  obtain ⟨numeral, rfl, _⟩ := readNumber?_eq_some_iff.mp read
  obtain ⟨negative, whole, fraction, isFraction, power, imaginary⟩ := numeral
  have digits (row : Digits) : ∀ char ∈ row.chars, isLiteralChar char :=
    fun char member => by simp [isLiteralChar, row.all char member]
  have point : ∀ char ∈ Numeral.pointed fraction, isLiteralChar char := by
    intro char member
    rcases Numeral.mem_pointed isFraction member with digit | rfl
    · simp [isLiteralChar, digit]
    · decide
  have glyph {char : Char} {present : Bool} (literal : isLiteralChar char) :
      ∀ other ∈ optional char present, isLiteralChar other :=
    fun _ member => eq_of_mem_optional member ▸ literal
  have front : ∀ char ∈ optional negativeGlyph negative ++ (whole.chars ++ Numeral.pointed fraction),
      isLiteralChar char := by
    simp only [List.forall_mem_append]
    exact ⟨glyph (by decide), digits whole, point⟩
  have unit : ∀ char ∈ optional 'i' imaginary, isLiteralChar char := glyph (by decide)
  cases power with
  | none =>
      refine ⟨[], [], by decide, optional negativeGlyph negative ++
        (whole.chars ++ Numeral.pointed fraction) ++ optional 'i' imaginary, ?_, ?_, ?_⟩
      · simp [Numeral.spelling, Numeral.unsigned, Numeral.scaled]
      · simp [whole.inhabited]
      · rw [List.nil_append]
        exact List.forall_mem_append.mpr ⟨front, unit⟩
  | some power =>
      have mark : isLiteralChar power.mark := by
        rcases power.isMark with mark | mark <;> rw [mark] <;> decide
      refine ⟨optional negativeGlyph negative ++ (whole.chars ++ Numeral.pointed fraction) ++
        [power.mark], power.sign, power.isSign, power.digits.chars ++ optional 'i' imaginary,
        ?_, ?_, ?_⟩
      · simp [Numeral.spelling, Numeral.unsigned, Numeral.scaled, Power.spelling]
      · simp [power.digits.inhabited]
      · simp only [List.forall_mem_append, List.forall_mem_singleton] at front ⊢
        exact ⟨⟨front, mark⟩, digits power.digits, unit⟩

/-- A literal holds no comment and does not end in the middle of one. -/
theorem no_comment_of_readNumber? {token : List Char} {number : Number}
    (read : readNumber? token = some number) :
    ¬ ['-', '-'] <:+: token ∧ token.getLast? ≠ some '-' := by
  obtain ⟨front, sign, signs, back, rfl, inhabited, all⟩ := readNumber?_split read
  have noMinus : '-' ∉ front ++ back := fun member => absurd (all '-' member) (by decide)
  rw [List.mem_append, not_or] at noMinus
  constructor
  · intro comment
    have twice := comment.sublist.count_le '-'
    rw [List.count_append, List.count_append, List.count_eq_zero.mpr noMinus.1,
      List.count_eq_zero.mpr noMinus.2] at twice
    have once : ∀ sign ∈ exponentSigns, sign.count '-' ≤ 1 := by decide
    have atMostOnce := once sign signs
    have two : ['-', '-'].count '-' = 2 := rfl
    omega
  · intro last
    rw [List.getLast?_append_of_ne_nil _ inhabited] at last
    exact noMinus.2 (List.mem_of_getLast? last)

end Fixity.Syntax
