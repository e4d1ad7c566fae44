import Mathlib
import Fixity.Proofs.Balance
import Fixity.Proofs.Lexing
import Fixity.Proofs.Literals
import Fixity.Proofs.Tables

/-!
Contract: tokens that are cut from a text as they are written in it.

Owns:
- `Boundary`, what may stand behind a token;
- `Lexes`, the tokens that are cut again from their spelling;
- the proof for groups with balanced interiors, names, operators and printed numbers.

Does not own: what tokens stand for.
-/

namespace Fixity.Syntax

/-- Nothing, or a text that starts with a blank or with the end of a statement. -/
def Boundary (rest : List Char) : Prop := ∀ char ∈ rest.head?, char = ' ' ∨ char = ';'

/-- A token is cut again from its spelling. -/
def Lexes (levels : Levels) (token : Token) : Prop :=
  ∀ tokens rest, Boundary rest →
    statementsFrom levels.isGlyph tokens (token.spelling ++ rest) =
      statementsFrom levels.isGlyph (token :: tokens) rest

variable {levels : Levels}

/-! ## Groups -/

theorem Boundary.head?_ne_minus {rest : List Char} (boundary : Boundary rest) :
    rest.head? ≠ some '-' := by
  intro minus
  rcases boundary '-' minus with blank | separator
  · exact absurd blank (by decide)
  · exact absurd separator (by decide)

theorem lexeme_expression {isGlyph : Char → Bool} {interior : List Char}
    (passed : Passed 1 interior) (rest : List Char) :
    lexeme isGlyph '(' (interior ++ ')' :: rest) = .ok (.token (.expression interior), rest) := by
  show group .expression .expression (groupInterior '(' ')' 0 (interior ++ ')' :: rest)) = _
  rw [passed.groupInterior (Or.inl ⟨rfl, rfl⟩)]
  rfl

theorem lexeme_list {isGlyph : Char → Bool} {interior : List Char}
    (passed : Passed 1 interior) (rest : List Char) :
    lexeme isGlyph '[' (interior ++ ']' :: rest) = .ok (.token (.list interior), rest) := by
  show group .list .list (groupInterior '[' ']' 0 (interior ++ ']' :: rest)) = _
  rw [passed.groupInterior (Or.inr ⟨rfl, rfl⟩)]
  rfl

theorem lexeme_text {isGlyph : Char → Bool} {interior : List Char} (closed : Closed interior)
    (rest : List Char) :
    lexeme isGlyph '\x7b' (interior ++ '\x7d' :: rest) =
      .ok (.token (.text interior), rest) := by
  show group .text .text (textInterior 0 (interior ++ '\x7d' :: rest)) = _
  rw [closed.textInterior]
  rfl

theorem lexeme_quoted {isGlyph : Char → Bool} {interior : List Char} (closed : Closed interior)
    (rest : List Char) :
    lexeme isGlyph '\x60' ('\x7b' :: (interior ++ '\x7d' :: rest)) =
      .ok (.token (.quoted interior), rest) := by
  show group .text .quoted (textInterior 0 (interior ++ '\x7d' :: rest)) = _
  rw [closed.textInterior]
  rfl

theorem lexes_expression {interior : List Char} (balanced : Balanced 1 interior) :
    Lexes levels (.expression interior) := by
  intro tokens rest _
  have spelled :
      (Token.expression interior).spelling ++ rest = '(' :: (interior ++ ')' :: rest) := by
    simp [Token.spelling]
  rw [spelled, statementsFrom_token (lexeme_expression balanced.toPassed rest)]

theorem lexes_list {interior : List Char} (balanced : Balanced 1 interior) :
    Lexes levels (.list interior) := by
  intro tokens rest _
  have spelled : (Token.list interior).spelling ++ rest = '[' :: (interior ++ ']' :: rest) := by
    simp [Token.spelling]
  rw [spelled, statementsFrom_token (lexeme_list balanced.toPassed rest)]

theorem lexes_text {interior : List Char} (closed : Closed interior) :
    Lexes levels (.text interior) := by
  intro tokens rest _
  have spelled :
      (Token.text interior).spelling ++ rest = '\x7b' :: (interior ++ '\x7d' :: rest) := by
    simp [Token.spelling]
  rw [spelled, statementsFrom_token (lexeme_text closed rest)]

theorem lexes_quoted {interior : List Char} (closed : Closed interior) :
    Lexes levels (.quoted interior) := by
  intro tokens rest _
  have spelled : (Token.quoted interior).spelling ++ rest =
      '\x60' :: '\x7b' :: (interior ++ '\x7d' :: rest) := by
    simp [Token.spelling]
  rw [spelled, statementsFrom_token (lexeme_quoted closed rest)]

/-! ## Words -/

/-- Names and numbers start with visible characters of ASCII. -/
private theorem word_start_range {char : Char}
    (start : isNameStart char ∨ char.isDigit ∨ char = negativeGlyph) :
    33 ≤ char.toNat ∧ char.toNat ≤ 126 := by
  have code : char.toNat = char.val.toNat := rfl
  rcases start with name | digit | rfl
  · simp only [isNameStart, Char.isAlpha, Char.isUpper, Char.isLower, Bool.or_eq_true,
      Bool.and_eq_true, decide_eq_true_eq, UInt32.le_iff_toNat_le, ge_iff_le] at name
    rcases name with ((upper | lower) | rfl) | rfl
    · have first : 'A'.val.toNat = 65 := rfl
      have last : 'Z'.val.toNat = 90 := rfl
      omega
    · have first : 'a'.val.toNat = 97 := rfl
      have last : 'z'.val.toNat = 122 := rfl
      omega
    · decide
    · decide
  · simp only [Char.isDigit, Bool.and_eq_true, decide_eq_true_eq, UInt32.le_iff_toNat_le,
      ge_iff_le] at digit
    have first : '0'.val.toNat = 48 := rfl
    have last : '9'.val.toNat = 57 := rfl
    omega
  · decide

/-- The characters that names and numbers start with start nothing else. -/
theorem word_start {char : Char}
    (start : isNameStart char ∨ char.isDigit ∨ char = negativeGlyph) :
    char ∉ delimiters ∧ char ≠ '-' ∧ ¬ Text.isBlank char ∧ ¬ isOperatorChar char := by
  have others : ∀ char ∈ delimiters ++ ['!', '#', '%', '&', '\'', '*', '+', '-', '.', '/', ':', '<',
      '=', '>', '?', '@', '^', '|'],
      ¬ (isNameStart char ∨ char.isDigit ∨ char = negativeGlyph) :=
    List.all_iff_forall_prop.mp (by decide)
  refine ⟨fun delimiter => ?_, ?_, ?_, fun operator => ?_⟩
  · exact others char (List.mem_append_left _ delimiter) start
  · rintro rfl
    exact absurd start (by decide)
  · have range := word_start_range start
    simp only [Text.isBlank, Bool.or_eq_true, Bool.and_eq_true, decide_eq_true_eq, beq_iff_eq]
    omega
  · exact others char (List.mem_append_right _ (by simpa [isOperatorChar] using operator)) start

/-- A word is cut from a text if its characters are taken up to the boundary behind it. -/
private theorem lexes_word {first : Char} {others : List Char}
    (starts : ∀ rest, Boundary rest → startsWord first (others ++ rest))
    (cut : ∀ rest, Boundary rest →
      wordAt levels.isGlyph first (others ++ rest) = (first :: others, rest)) :
    Lexes levels (.word (first :: others)) := by
  intro tokens rest boundary
  have head := lexeme_word levels.isGlyph (starts rest boundary)
  rw [cut rest boundary] at head
  exact statementsFrom_token head

private theorem not_isGlyph (wellFormed : levels.WellFormed) {char : Char}
    (noOperator : ¬ isOperatorChar char) : ¬ levels.isGlyph char :=
  fun glyph => noOperator (wellFormed.isOperatorChar_of_glyph (Levels.isGlyph_iff.mp glyph))

theorem lexes_name (wellFormed : levels.WellFormed) {first : Char} {others : List Char}
    (start : isNameStart first) (all : ∀ char ∈ others, isNameChar char) :
    Lexes levels (.word (first :: others)) := by
  obtain ⟨noDelimiter, noMinus, notBlank, noOperator⟩ := word_start (Or.inl start)
  refine lexes_word (fun rest _ => ⟨noDelimiter, fun comment => noMinus comment.1, notBlank⟩) ?_
  intro rest boundary
  have stops : ∀ char ∈ rest.head?, ¬ isNameChar char := by
    intro char next
    rcases boundary char next with rfl | rfl <;> decide
  obtain ⟨taken, dropped⟩ := takeWhile_run all stops
  unfold wordAt
  rw [if_neg (not_isGlyph wellFormed noOperator), if_neg (no_number_of_isNameStart start),
    if_pos start, taken, dropped]

theorem lexes_operator (wellFormed : levels.WellFormed) {token : String}
    (known : levels.contains token) (noComment : ¬ ['-', '-'] <+: token.toList) :
    Lexes levels (.word token.toList) := by
  obtain ⟨inhabited, operators⟩ := wellFormed.isOperatorChar_of_contains known
  have glyphs : ∀ char ∈ token.toList, levels.isGlyph char := fun char member =>
    Levels.isGlyph_iff.mpr (Levels.mem_glyphs_of_contains known member)
  obtain ⟨first, others, spelled⟩ := List.exists_cons_of_ne_nil inhabited
  rw [spelled] at operators glyphs noComment ⊢
  have alone := isOperatorChar_alone (operators first List.mem_cons_self)
  refine lexes_word (fun rest boundary => ⟨alone.1, ?_, alone.2.1⟩) ?_
  · exact no_comment_at noComment (.of_head boundary.head?_ne_minus)
  · intro rest boundary
    have stops : ∀ char ∈ rest.head?, ¬ levels.isGlyph char := by
      intro char next
      apply not_isGlyph wellFormed
      rcases boundary char next with rfl | rfl <;> decide
    obtain ⟨taken, dropped⟩ := takeWhile_run
      (fun char member => glyphs char (List.mem_cons_of_mem _ member)) stops
    rw [wordAt_glyph (glyphs first List.mem_cons_self), taken, dropped]

/-- Digits and letters of numbers go on with any number. -/
theorem isChain_goesOn {first : Char} {run : List Char}
    (all : ∀ char ∈ run, char.isDigit ∨ char ∈ ['.', 'e', 'E', 'i']) :
    (first :: run).IsChain GoesOn := by
  induction run generalizing first with
  | nil => exact .singleton first
  | cons char run inductionHypothesis =>
      rw [List.forall_mem_cons] at all
      exact List.isChain_cons_cons.mpr
        ⟨all.1.imp_right Or.inl, inductionHypothesis all.2⟩

/-- The characters that a number goes on with are cut off in front of the first other one. -/
theorem numberTail_run {first : Char} {run rest : List Char}
    (goesOn : (first :: run).IsChain GoesOn)
    (stops : ∀ last ∈ (first :: run).getLast?, ∀ char ∈ rest.head?, ¬ GoesOn last char) :
    numberTail first (run ++ rest) = (run, rest) := by
  induction run generalizing first with
  | nil =>
      cases rest with
      | nil => rfl
      | cons char rest => exact numberTail_of_not_goesOn (stops first rfl char rfl) rest
  | cons char run inductionHypothesis =>
      obtain ⟨here, behind⟩ := List.isChain_cons_cons.mp goesOn
      have tail := inductionHypothesis behind fun last member =>
        stops last (by rwa [List.getLast?_cons_cons])
      rw [List.cons_append, numberTail_of_goesOn here, tail]

theorem lexes_number (wellFormed : levels.WellFormed) {first : Char} {others : List Char}
    (start : first.isDigit ∨ first = negativeGlyph)
    (all : ∀ char ∈ others, char.isDigit ∨ char = '.' ∨ char = 'i') :
    Lexes levels (.word (first :: others)) := by
  obtain ⟨noDelimiter, noMinus, notBlank, noOperator⟩ := word_start (Or.inr start)
  refine lexes_word (fun rest _ => ⟨noDelimiter, fun comment => noMinus comment.1, notBlank⟩) ?_
  intro rest boundary
  unfold wordAt
  have goesOn : (first :: others).IsChain GoesOn := by
    refine isChain_goesOn fun char member => ?_
    rcases all char member with digit | rfl | rfl
    · exact Or.inl digit
    · exact Or.inr (by decide)
    · exact Or.inr (by decide)
  have stops : ∀ last ∈ (first :: others).getLast?, ∀ char ∈ rest.head?, ¬ GoesOn last char := by
    intro last _ char next
    rcases boundary char next with rfl | rfl <;> simp [GoesOn]
  rw [if_neg (not_isGlyph wellFormed noOperator), if_pos start, numberTail_run goesOn stops]

end Fixity.Syntax
