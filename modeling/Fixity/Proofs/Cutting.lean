import Fixity.Proofs.Spelling

/-!
Contract: literals are cut from a text where their grammar ends.

Owns:
- `Ends`, the characters that may stand behind a literal;
- that the reader of numbers and the reader of names take all of a literal and stop in front of such
  a character;
- that tokens which have been read stay at the head of the first statement.

Does not own: the grammar of literals.

Main statement: a literal is a token of its own where it stands alone, and the first token of a text
where one of the characters comes behind it.
-/

namespace Fixity.Syntax

/-! ## Behind a literal -/

/-- The characters that may stand behind a literal: white space, a delimiter or separator, or a
glyph other than the point. -/
def Ends (isGlyph : Char → Bool) (char : Char) : Prop :=
  Text.isBlank char ∨ char ∈ delimiters ∨ char = ',' ∨ (isGlyph char ∧ char ≠ '.')

section Ends

variable {isGlyph : Char → Bool} {char : Char}

/-- Nothing of a name or a number ends a literal. -/
theorem Ends.no_word (operators : ∀ char, isGlyph char → isOperatorChar char)
    (ends : Ends isGlyph char) : ¬ isNameChar char ∧ char ≠ '.' := by
  have noWord (start : isNameStart char ∨ char.isDigit) : False := by
    obtain ⟨noDelimiter, _, notBlank, noOperator⟩ := word_start (start.imp_right Or.inl)
    rcases ends with blank | delimiter | rfl | ⟨glyph, _⟩
    · exact notBlank blank
    · exact noDelimiter delimiter
    · exact absurd start (by decide)
    · exact noOperator (operators char glyph)
  refine ⟨fun nameChar => noWord ?_, ?_⟩
  · rcases isNameChar_iff.mp nameChar with letter | digit | sign
    · exact Or.inl (isNameStart_iff.mpr (Or.inl letter))
    · exact Or.inr digit
    · exact Or.inl (isNameStart_iff.mpr (Or.inr sign))
  · rintro rfl
    obtain ⟨noDelimiter, notBlank, _, _⟩ := isOperatorChar_alone (by decide : isOperatorChar '.')
    rcases ends with blank | delimiter | comma | ⟨_, noPoint⟩
    · exact notBlank blank
    · exact noDelimiter delimiter
    · exact absurd comma (by decide)
    · exact noPoint rfl

/-- A number goes on with no such character, unless it is the sign of an exponent. -/
theorem Ends.stops (operators : ∀ char, isGlyph char → isOperatorChar char)
    (ends : Ends isGlyph char) {previous : Char} (noMark : previous ≠ 'e' ∧ previous ≠ 'E') :
    ¬ GoesOn previous char := by
  obtain ⟨noName, noPoint⟩ := ends.no_word operators
  rintro (digit | listed | ⟨marks, _⟩)
  · exact noName (isNameChar_iff.mpr (Or.inr (Or.inl digit)))
  · simp only [List.mem_cons, List.not_mem_nil, or_false] at listed
    rcases listed with rfl | rfl | rfl | rfl
    · exact noPoint rfl
    · exact noName (by decide)
    · exact noName (by decide)
    · exact noName (by decide)
  · exact marks.elim noMark.1 noMark.2

end Ends

/-! ## Numerals -/

/-- A text does not end with the mark of an exponent. -/
def Unmarked (text : List Char) : Prop := ∀ last ∈ text.getLast?, last ≠ 'e' ∧ last ≠ 'E'

theorem Unmarked.append {text other : List Char} (unmarked : Unmarked text)
    (unmarked' : Unmarked other) : Unmarked (text ++ other) := by
  intro last member
  rw [List.getLast?_append, Option.mem_def, Option.or_eq_some_iff] at member
  rcases member with inOther | ⟨_, inText⟩
  · exact unmarked' last inOther
  · exact unmarked last inText

theorem unmarked_of_all {text : List Char} (all : ∀ char ∈ text, char ≠ 'e' ∧ char ≠ 'E') :
    Unmarked text :=
  fun last member => all last (List.mem_of_getLast? member)

/-- A run that goes on with any number goes on with a number in front of it. -/
private theorem goesOn_append {text run : List Char} (chain : text.IsChain GoesOn)
    (behind : ∀ previous, (previous :: run).IsChain GoesOn) : (text ++ run).IsChain GoesOn :=
  List.isChain_append.mpr ⟨chain, (behind '0').tail,
    fun last _ => (List.isChain_cons.mp (behind last)).1⟩

private theorem digit_unmarked {digit : Char} (isDigit : digit.isDigit) :
    digit ≠ 'e' ∧ digit ≠ 'E' := by
  constructor <;> rintro rfl <;> exact absurd isDigit (by decide)

namespace Numeral

private theorem goesOn_scaled (power : Option Power) (previous : Char) :
    (previous :: scaled power).IsChain GoesOn := by
  cases power with
  | none => exact .singleton previous
  | some power =>
      have digits {first : Char} : (first :: power.digits.chars).IsChain GoesOn :=
        isChain_goesOn fun digit member => Or.inl (power.digits.all digit member)
      have mark : power.mark ∈ ['.', 'e', 'E', 'i'] := by
        rcases power.isMark with same | same <;> rw [same] <;> decide
      refine List.isChain_cons_cons.mpr ⟨Or.inr (Or.inl mark), ?_⟩
      have sign := power.isSign
      simp only [exponentSigns, List.mem_cons, List.not_mem_nil, or_false] at sign
      rcases sign with none | plus | minus
      · rw [none]
        exact digits
      · rw [plus]
        exact List.isChain_cons_cons.mpr ⟨Or.inr (Or.inr ⟨power.isMark, by decide⟩), digits⟩
      · rw [minus]
        exact List.isChain_cons_cons.mpr ⟨Or.inr (Or.inr ⟨power.isMark, by decide⟩), digits⟩

private theorem unmarked_scaled (power : Option Power) : Unmarked (scaled power) := by
  cases power with
  | none => exact nofun
  | some power =>
      intro last member
      have split : scaled (some power) = (power.mark :: power.sign) ++ power.digits.chars := rfl
      rw [split, List.getLast?_append_of_ne_nil _ power.digits.inhabited] at member
      exact digit_unmarked (power.digits.all last (List.mem_of_getLast? member))

/-- The characters of a numeral go on with one another, and the last one takes no sign. -/
theorem spelling_run (numeral : Numeral) :
    numeral.spelling.IsChain GoesOn ∧ Unmarked numeral.spelling := by
  have pointChar {char : Char} (member : char ∈ pointed numeral.fraction) :
      char.isDigit ∨ char = '.' := mem_pointed numeral.isFraction member
  have chain (previous : Char) : (previous :: numeral.unsigned).IsChain GoesOn := by
    have whole : (previous :: numeral.whole.chars).IsChain GoesOn :=
      isChain_goesOn fun digit member => Or.inl (numeral.whole.all digit member)
    have point (previous : Char) : (previous :: pointed numeral.fraction).IsChain GoesOn :=
      isChain_goesOn fun char member => (pointChar member).imp_right fun same => by simp [same]
    have unit (previous : Char) : (previous :: optional 'i' numeral.imaginary).IsChain GoesOn :=
      isChain_goesOn fun char member => Or.inr (by simp [eq_of_mem_optional member])
    exact goesOn_append whole fun previous =>
      goesOn_append (point previous) fun previous =>
        goesOn_append (goesOn_scaled numeral.power previous) unit
  constructor
  · unfold spelling
    cases numeral.negative with
    | false => exact (chain '0').tail
    | true => exact chain negativeGlyph
  · have sign : Unmarked (optional negativeGlyph numeral.negative) :=
      unmarked_of_all fun char member => by rw [eq_of_mem_optional member]; decide
    have whole : Unmarked numeral.whole.chars :=
      unmarked_of_all fun digit member => digit_unmarked (numeral.whole.all digit member)
    have point : Unmarked (pointed numeral.fraction) := by
      refine unmarked_of_all fun char member => ?_
      rcases pointChar member with digit | rfl
      · exact digit_unmarked digit
      · decide
    have unit : Unmarked (optional 'i' numeral.imaginary) :=
      unmarked_of_all fun char member => by rw [eq_of_mem_optional member]; decide
    exact sign.append (whole.append (point.append ((unmarked_scaled numeral.power).append unit)))

end Numeral

/-! ## Literals -/

/-- A numeral starts with a sign or a digit. -/
theorem Numeral.exists_first (numeral : Numeral) :
    ∃ first others, numeral.spelling = first :: others ∧
      (first.isDigit ∨ first = negativeGlyph) := by
  unfold spelling unsigned
  cases numeral.negative with
  | true => exact ⟨_, _, rfl, Or.inr rfl⟩
  | false =>
      obtain ⟨first, others, spelled⟩ := List.exists_cons_of_ne_nil numeral.whole.inhabited
      rw [spelled]
      exact ⟨first, _, rfl, Or.inl (numeral.whole.all first (spelled ▸ List.mem_cons_self))⟩

/-- A literal is the word at the head of a text where nothing of it is behind it. -/
theorem Spells.wordAt {token : List Char} {literal : Literal} (spells : Spells token literal)
    {isGlyph : Char → Bool} (operators : ∀ char, isGlyph char → isOperatorChar char) :
    ∃ first others, token = first :: others ∧ ∀ rest, (∀ char ∈ rest.head?, Ends isGlyph char) →
      startsWord first (others ++ rest) ∧
        Syntax.wordAt isGlyph first (others ++ rest) = (token, rest) := by
  -- what a literal starts with is no operator
  have starts {first : Char} (start : isNameStart first ∨ first.isDigit ∨ first = negativeGlyph)
      (text : List Char) : startsWord first text ∧ ¬ isGlyph first := by
    obtain ⟨noDelimiter, noMinus, notBlank, noOperator⟩ := word_start start
    exact ⟨⟨noDelimiter, fun comment => noMinus comment.1, notBlank⟩,
      mt (operators first) noOperator⟩
  cases spells with
  | number numeral =>
      obtain ⟨chain, unmarked⟩ := numeral.spelling_run
      obtain ⟨first, others, spelled, start⟩ := numeral.exists_first
      rw [spelled] at chain unmarked
      refine ⟨first, others, spelled, fun rest ends => ?_⟩
      obtain ⟨word, noGlyph⟩ := starts (Or.inr start) (others ++ rest)
      have tail := numberTail_run chain fun last isLast char next =>
        (ends char next).stops operators (unmarked last isLast)
      refine ⟨word, ?_⟩
      unfold Syntax.wordAt
      rw [if_neg noGlyph, if_pos start, tail, spelled]
  | @name first others start all =>
      refine ⟨first, others, rfl, fun rest ends => ?_⟩
      have nameStart := isNameStart_iff.mpr start
      obtain ⟨word, noGlyph⟩ := starts (Or.inl nameStart) (others ++ rest)
      obtain ⟨taken, dropped⟩ := takeWhile_run
        (fun char member => isNameChar_iff.mpr (all char member))
        fun char next => ((ends char next).no_word operators).1
      refine ⟨word, ?_⟩
      unfold Syntax.wordAt
      rw [if_neg noGlyph, if_neg (no_number_of_isNameStart nameStart), if_pos nameStart, taken,
        dropped]

/-- A token is classified as a literal exactly if it is a numeral or a name, and as what that
stands for. By itself such a token is one statement; where it stands in front of white space, a
delimiter, a separator or a glyph other than the point, it is the first token of what is read. -/
theorem classify_tokenize {token : List Char} {literal : Literal} :
    (classify token = some literal ↔ Spells token literal) ∧
      (Spells token literal → ∀ isGlyph : Char → Bool,
        (∀ char, isGlyph char → isOperatorChar char) →
          tokenize isGlyph token = .ok [⟨[.word token], []⟩] ∧
            ∀ char rest statements, Ends isGlyph char →
              tokenize isGlyph (token ++ char :: rest) = .ok statements →
                ∃ others behind more, statements = ⟨.word token :: others, behind⟩ :: more) := by
  refine ⟨classify_eq_some_iff, fun spells isGlyph operators => ?_⟩
  obtain ⟨first, others, rfl, cut⟩ := spells.wordAt operators
  have read (rest : List Char) (ends : ∀ char ∈ rest.head?, Ends isGlyph char) :
      statementsFrom isGlyph [] (first :: others ++ rest) =
        statementsFrom isGlyph [.word (first :: others)] rest := by
    obtain ⟨word, same⟩ := cut rest ends
    have head := lexeme_word isGlyph word
    rw [same] at head
    exact statementsFrom_token head
  refine ⟨?_, fun char rest statements ends ok => ?_⟩
  · have alone := read [] nofun
    rw [List.append_nil, statementsFrom_nil] at alone
    exact tokenize_eq_ok.mpr alone
  · rw [tokenize_eq_ok, read (char :: rest) fun _ same => Option.some.inj same ▸ ends] at ok
    exact statementsFrom_begun ok (by simp)

/-- A minus behind the mark of an exponent belongs to the number, and the one behind the exponent is
an operator. -/
theorem classify_tokenize_minus :
    ∃ number others behind more,
      classify ['2', '.', '5', 'e', '-', '3'] = some (.number number) ∧
        tokenize (· == '-') ['2', '.', '5', 'e', '-', '3', '-', 'x'] =
          .ok (⟨.word ['2', '.', '5', 'e', '-', '3'] :: others, behind⟩ :: more) := by
  have digit : ∀ char ∈ ['2', '5', '3'], char.isDigit := List.all_iff_forall_prop.mp (by decide)
  let power : Power :=
    ⟨'e', Or.inl rfl, ['-'], by simp [exponentSigns], ⟨['3'], List.cons_ne_nil _ _, by simp [digit]⟩⟩
  have fraction : ∀ digits ∈ some ['5'], ∀ digit ∈ digits, digit.isDigit := by
    intro digits same
    obtain rfl := Option.some.inj same
    simp [digit]
  let numeral : Numeral :=
    ⟨false, ⟨['2'], List.cons_ne_nil _ _, by simp [digit]⟩, some ['5'], fraction, some power, false⟩
  obtain ⟨classified, cuts⟩ := @classify_tokenize numeral.spelling (.number numeral.value)
  have spells : Spells numeral.spelling (.number numeral.value) := .number numeral
  have operators : ∀ char, (char == '-') = true → isOperatorChar char := by
    intro char same
    rw [eq_of_beq same]
    decide
  have ok : tokenize (· == '-') (['2', '.', '5', 'e', '-', '3'] ++ '-' :: ['x']) =
      .ok [⟨[.word ['2', '.', '5', 'e', '-', '3'], .word ['-'], .word ['x']], []⟩] := by
    decide +kernel
  obtain ⟨others, behind, more, same⟩ :=
    (cuts spells _ operators).2 '-' ['x'] _ (Or.inr (Or.inr (Or.inr ⟨rfl, by decide⟩))) ok
  exact ⟨numeral.value, others, behind, more, classified.mpr spells, same ▸ ok⟩

end Fixity.Syntax
