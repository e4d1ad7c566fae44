import Mathlib.Data.Bool.AllAny
import Mathlib.Data.List.TakeDrop
import Fixity.Proofs.Grammar
import Fixity.Proofs.Readers
import Fixity.Proofs.Tables

/-!
Contract: how a text falls into lexemes and statements, one lexeme at a time.

Owns:
- the equations of `statementsFrom` for a text whose first lexeme is known;
- `parse_of_statement`, the trees of a text that is one statement;
- the lexemes that do not depend on the glyphs, and those of words;
- `Reads`, what a lexeme can be by the head of its text;
- blanks and operator characters as characters that start no other lexeme;
- that the tokens of an unfinished statement stand at the head of the first statement.

Does not own: the interiors of groups.
-/

namespace Fixity.Syntax

/-! ## One lexeme at a time -/

section Steps

variable {isGlyph : Char → Bool} {char : Char} {rest after : List Char} {tokens : List Token}

theorem statementsFrom_nil (isGlyph : Char → Bool) (tokens : List Token) :
    statementsFrom isGlyph tokens [] =
      .ok (if tokens.isEmpty then [] else [⟨tokens.reverse, []⟩]) := by
  rw [statementsFrom]

theorem statementsFrom_gap (found : lexeme isGlyph char rest = .ok (.gap, after)) :
    statementsFrom isGlyph tokens (char :: rest) = statementsFrom isGlyph tokens after := by
  rw [statementsFrom]
  split <;> simp_all

theorem statementsFrom_token {token : Token}
    (found : lexeme isGlyph char rest = .ok (.token token, after)) :
    statementsFrom isGlyph tokens (char :: rest) =
      statementsFrom isGlyph (token :: tokens) after := by
  rw [statementsFrom]
  split <;> simp_all

theorem statementsFrom_separator (tokens : List Token)
    (found : lexeme isGlyph char rest = .ok (.separator, after)) :
    statementsFrom isGlyph tokens (char :: rest) =
      if tokens.isEmpty then statementsFrom isGlyph [] after
      else (statementsFrom isGlyph [] after).map (⟨tokens.reverse, after⟩ :: ·) := by
  rw [statementsFrom]
  split <;> simp_all

end Steps

theorem statementsFrom_fault {isGlyph : Char → Bool} {char : Char} {rest : List Char}
    {fault : LexicalFault} (tokens : List Token) (found : lexeme isGlyph char rest = .error fault) :
    statementsFrom isGlyph tokens (char :: rest) = .error (fault, char :: rest) := by
  rw [statementsFrom]
  split <;> simp_all

theorem tokenize_eq_ok {isGlyph : Char → Bool} {text : List Char} {statements : List Statement} :
    tokenize isGlyph text = .ok statements ↔ statementsFrom isGlyph [] text = .ok statements := by
  unfold tokenize
  split
  · next found => rw [found]; simp
  · next found => rw [found]; simp

/-- A text of one statement reads as a sequence of it, and inside a group as the statement. -/
theorem parse_of_statement {levels : Levels} {text rest : List Char} {tokens : List Token}
    {node : Node} (divided : statementsFrom levels.isGlyph [] text = .ok [⟨tokens, rest⟩])
    (parsed : parseStatement levels (parseBody levels) tokens = .ok node) :
    parse levels text = .ok (.body [node]) ∧ parseBody levels text = .ok node := by
  have statements : parseStatements levels (parseBody levels) text = .ok [node] :=
    bind_eq_ok.mpr ⟨_, tokenize_eq_ok.mpr divided, mapM_eq_ok.mpr (.cons parsed .nil)⟩
  rw [parse_eq, parseBody_eq, statements]
  exact ⟨rfl, rfl⟩

/-- A text that does not start with a lexeme is at fault in its first line. -/
theorem parse_of_fault {levels : Levels} {char : Char} {rest : List Char} {fault : LexicalFault}
    (found : lexeme levels.isGlyph char rest = .error fault) :
    parse levels (char :: rest) = .error (fault.toError 1) := by
  have line : lineOf (char :: rest) (char :: rest) = 1 := Nat.add_sub_cancel 1 _
  have divided : tokenize levels.isGlyph (char :: rest) = .error (fault.toError 1) := by
    unfold tokenize
    rw [statementsFrom_fault [] found]
    dsimp only
    rw [line]
  rw [parse_eq]
  unfold parseStatements
  rw [divided]
  rfl

/-- The tokens read so far stand at the head of the first statement. -/
theorem statementsFrom_begun {isGlyph : Char → Bool} {tokens : List Token} {text : List Char}
    {statements : List Statement} (ok : statementsFrom isGlyph tokens text = .ok statements)
    (begun : ¬ tokens.isEmpty) :
    ∃ others rest more, statements = ⟨tokens.reverse ++ others, rest⟩ :: more := by
  fun_induction statementsFrom isGlyph tokens text generalizing statements with
  | case1 tokens =>
      rw [if_neg begun] at ok
      cases ok
      exact ⟨[], [], [], by rw [List.append_nil]⟩
  | case2 => cases ok
  | case3 tokens char rest after found inductionHypothesis => exact inductionHypothesis ok begun
  | case4 tokens char rest token after found inductionHypothesis =>
      obtain ⟨others, rest, more, rfl⟩ := inductionHypothesis ok (by simp)
      exact ⟨token :: others, rest, more, by simp⟩
  | case5 tokens char rest after found empty inductionHypothesis => exact absurd empty begun
  | case6 tokens char rest after found inhabited inductionHypothesis =>
      obtain ⟨more, _, rfl⟩ := map_eq_ok.mp ok
      exact ⟨[], after, more, by rw [List.append_nil]⟩

/-- The tokens read so far end up in some statement. -/
theorem mem_statementsFrom {isGlyph : Char → Bool} {tokens : List Token} {text : List Char}
    {statements : List Statement} (ok : statementsFrom isGlyph tokens text = .ok statements)
    {token : Token} (member : token ∈ tokens) :
    ∃ statement ∈ statements, token ∈ statement.tokens := by
  have begun : ¬ tokens.isEmpty := fun none => by simp [List.isEmpty_iff.mp none] at member
  obtain ⟨others, rest, more, rfl⟩ := statementsFrom_begun ok begun
  exact ⟨_, List.mem_cons_self, List.mem_append_left others (List.mem_reverse.mpr member)⟩

/-- What holds of all tokens at the head of a text holds of the tokens of all statements. -/
theorem statementsFrom_tokens {holds : Token → Prop} {isGlyph : Char → Bool} {tokens : List Token}
    {text : List Char} {statements : List Statement}
    (lexemes : ∀ char rest token after,
      lexeme isGlyph char rest = .ok (.token token, after) → holds token)
    (earlier : ∀ token ∈ tokens, holds token)
    (ok : statementsFrom isGlyph tokens text = .ok statements) :
    ∀ statement ∈ statements, ∀ token ∈ statement.tokens, holds token := by
  fun_induction statementsFrom isGlyph tokens text generalizing statements with
  | case1 tokens =>
      cases ok
      intro statement member
      split at member
      · cases member
      · cases List.mem_singleton.mp member
        exact fun token inTokens => earlier token (List.mem_reverse.mp inTokens)
  | case2 => cases ok
  | case3 tokens char rest after found inductionHypothesis => exact inductionHypothesis earlier ok
  | case4 tokens char rest token after found inductionHypothesis =>
      refine inductionHypothesis (fun other member => ?_) ok
      rcases List.mem_cons.mp member with rfl | inEarlier
      · exact lexemes char rest other after found
      · exact earlier other inEarlier
  | case5 tokens char rest after found empty inductionHypothesis =>
      exact inductionHypothesis (by simp) ok
  | case6 tokens char rest after found inhabited inductionHypothesis =>
      obtain ⟨others, inRest, rfl⟩ := map_eq_ok.mp ok
      intro statement member
      rcases List.mem_cons.mp member with rfl | inOthers
      · exact fun token inTokens => earlier token (List.mem_reverse.mp inTokens)
      · exact inductionHypothesis (by simp) inRest statement inOthers

/-! ## Lexemes -/

/-- The characters that open, close or quote a group or end a statement. -/
def delimiters : List Char := [';', '(', '[', '\x7b', '\x60', ')', ']', '\x7d']

/-- Whether a text starts with a word: no delimiter, comment or blank. -/
def startsWord (char : Char) (rest : List Char) : Prop :=
  char ∉ delimiters ∧ ¬ (char = '-' ∧ rest.head? = some '-') ∧ ¬ Text.isBlank char

/-- The word at the head of a text. -/
def wordAt (isGlyph : Char → Bool) (char : Char) (rest : List Char) : List Char × List Char :=
  if isGlyph char then (char :: rest.takeWhile isGlyph, rest.dropWhile isGlyph)
  else if char.isDigit ∨ char = negativeGlyph then
    (char :: (numberTail char rest).1, (numberTail char rest).2)
  else if isNameStart char then (char :: rest.takeWhile isNameChar, rest.dropWhile isNameChar)
  else ([char], rest)

theorem lexeme_word {char : Char} {rest : List Char} (isGlyph : Char → Bool)
    (word : startsWord char rest) :
    lexeme isGlyph char rest =
      .ok (.token (.word (wordAt isGlyph char rest).1), (wordAt isGlyph char rest).2) := by
  obtain ⟨noDelimiter, noComment, notBlank⟩ := word
  simp only [delimiters, List.mem_cons, List.not_mem_nil, or_false, not_or] at noDelimiter
  unfold lexeme wordAt
  rw [if_neg noDelimiter.1, if_neg noDelimiter.2.1, if_neg noDelimiter.2.2.1,
    if_neg noDelimiter.2.2.2.1, if_neg noDelimiter.2.2.2.2.1, if_neg (by simp [noDelimiter]),
    if_neg noComment, if_neg notBlank]
  by_cases glyph : isGlyph char
  · rw [if_pos glyph, if_pos glyph]
  · rw [if_neg glyph, if_neg glyph]
    by_cases digit : char.isDigit ∨ char = negativeGlyph
    · rw [if_pos digit, if_pos digit]
    · rw [if_neg digit, if_neg digit]
      by_cases name : isNameStart char
      · rw [if_pos name, if_pos name]
      · rw [if_neg name, if_neg name]

/-- Only words depend on the glyphs. -/
theorem lexeme_congr {char : Char} {rest : List Char} (isGlyph isGlyph' : Char → Bool)
    (noWord : ¬ startsWord char rest) : lexeme isGlyph char rest = lexeme isGlyph' char rest := by
  unfold lexeme
  refine ite_congr rfl (fun _ => rfl) fun noSeparator => ?_
  refine ite_congr rfl (fun _ => rfl) fun noExpression => ?_
  refine ite_congr rfl (fun _ => rfl) fun noList => ?_
  refine ite_congr rfl (fun _ => rfl) fun noText => ?_
  refine ite_congr rfl (fun _ => rfl) fun noQuote => ?_
  refine ite_congr rfl (fun _ => rfl) fun noCloser => ?_
  refine ite_congr rfl (fun _ => rfl) fun noComment => ?_
  refine ite_congr rfl (fun _ => rfl) fun notBlank => ?_
  have noDelimiter : char ∉ delimiters := by
    simp only [not_or] at noCloser
    simp [delimiters, noSeparator, noExpression, noList, noText, noQuote, noCloser]
  exact absurd ⟨noDelimiter, noComment, notBlank⟩ noWord

/-- Whether a number that has been read up to one character goes on with another one. -/
def GoesOn (previous char : Char) : Prop :=
  char.isDigit ∨ char ∈ ['.', 'e', 'E', 'i'] ∨
    ((previous = 'e' ∨ previous = 'E') ∧ char ∈ ['+', '-'])

theorem numberTail_of_goesOn {previous char : Char} (goesOn : GoesOn previous char)
    (rest : List Char) :
    numberTail previous (char :: rest) =
      (char :: (numberTail char rest).1, (numberTail char rest).2) := by
  unfold GoesOn at goesOn
  rw [numberTail, if_pos goesOn]

theorem numberTail_of_not_goesOn {previous char : Char} (ends : ¬ GoesOn previous char)
    (rest : List Char) : numberTail previous (char :: rest) = ([], char :: rest) := by
  unfold GoesOn at ends
  rw [numberTail, if_neg ends]

/-- What a lexeme can be, by the head of the text it is read from. -/
inductive Reads (isGlyph : Char → Bool) : List Char → Lexeme → List Char → Prop where
  | separator {rest : List Char} : Reads isGlyph (';' :: rest) .separator rest
  | expression {rest interior after : List Char}
      (found : groupInterior '(' ')' 0 rest = some (interior, after)) :
      Reads isGlyph ('(' :: rest) (.token (.expression interior)) after
  | list {rest interior after : List Char}
      (found : groupInterior '[' ']' 0 rest = some (interior, after)) :
      Reads isGlyph ('[' :: rest) (.token (.list interior)) after
  | text {rest interior after : List Char}
      (found : textInterior 0 rest = some (interior, after)) :
      Reads isGlyph ('\x7b' :: rest) (.token (.text interior)) after
  | quoted {rest interior after : List Char}
      (found : textInterior 0 rest = some (interior, after)) :
      Reads isGlyph ('\x60' :: '\x7b' :: rest) (.token (.quoted interior)) after
  | comment {rest : List Char} (follows : rest.head? = some '-') :
      Reads isGlyph ('-' :: rest) .gap (rest.dropWhile (· ≠ '\n'))
  | blank {char : Char} {rest : List Char} (blank : Text.isBlank char) :
      Reads isGlyph (char :: rest) .gap rest
  | word {char : Char} {rest : List Char} (starts : startsWord char rest) :
      Reads isGlyph (char :: rest) (.token (.word (wordAt isGlyph char rest).1))
        (wordAt isGlyph char rest).2

private theorem group_eq_ok {kind : GroupKind} {token : List Char → Token} {read : Lexeme}
    {found : Option (List Char × List Char)} {after : List Char}
    (ok : group kind token found = .ok (read, after)) :
    ∃ interior, found = some (interior, after) ∧ read = .token (token interior) := by
  unfold group at ok
  split at ok
  · next interior behind =>
    cases ok
    exact ⟨interior, rfl, rfl⟩
  · cases ok

theorem reads_of_lexeme {isGlyph : Char → Bool} {char : Char} {rest after : List Char}
    {read : Lexeme} (ok : lexeme isGlyph char rest = .ok (read, after)) :
    Reads isGlyph (char :: rest) read after := by
  by_cases word : startsWord char rest
  · rw [lexeme_word isGlyph word] at ok
    cases ok
    exact .word word
  unfold lexeme at ok
  by_cases separates : char = ';'
  · rw [if_pos separates] at ok
    cases ok
    rw [separates]
    exact .separator
  rw [if_neg separates] at ok
  by_cases opensExpression : char = '('
  · rw [if_pos opensExpression] at ok
    obtain ⟨interior, found, rfl⟩ := group_eq_ok ok
    rw [opensExpression]
    exact .expression found
  rw [if_neg opensExpression] at ok
  by_cases opensList : char = '['
  · rw [if_pos opensList] at ok
    obtain ⟨interior, found, rfl⟩ := group_eq_ok ok
    rw [opensList]
    exact .list found
  rw [if_neg opensList] at ok
  by_cases opensText : char = '\x7b'
  · rw [if_pos opensText] at ok
    obtain ⟨interior, found, rfl⟩ := group_eq_ok ok
    rw [opensText]
    exact .text found
  rw [if_neg opensText] at ok
  by_cases quotes : char = '\x60'
  · rw [if_pos quotes] at ok
    split at ok
    · obtain ⟨interior, found, rfl⟩ := group_eq_ok ok
      rw [quotes]
      exact .quoted found
    · cases ok
  rw [if_neg quotes] at ok
  by_cases closes : char = ')' ∨ char = ']' ∨ char = '\x7d'
  · rw [if_pos closes] at ok
    cases ok
  rw [if_neg closes] at ok
  by_cases comments : char = '-' ∧ rest.head? = some '-'
  · rw [if_pos comments] at ok
    cases ok
    rw [comments.1]
    exact .comment comments.2
  rw [if_neg comments] at ok
  by_cases blank : Text.isBlank char
  · rw [if_pos blank] at ok
    cases ok
    exact .blank blank
  refine absurd ⟨?_, comments, blank⟩ word
  simp only [not_or] at closes
  simp [delimiters, separates, opensExpression, opensList, opensText, quotes, closes]

/-- A text token ends at the brace that closes it. -/
theorem lexeme_eq_text {isGlyph : Char → Bool} {char : Char} {rest interior after : List Char}
    (ok : lexeme isGlyph char rest = .ok (.token (.text interior), after)) :
    textInterior 0 rest = some (interior, after) := by
  cases reads_of_lexeme ok with
  | text found => exact found

/-! ## Blanks -/

/-- The characters that the scanners of groups and lists look for. -/
def scanned : List Char := ['\x7b', '\x7d', '(', ')', '[', ']', ',']

/-- Blanks are nothing else. -/
theorem isBlank_alone {char : Char} (blank : Text.isBlank char) :
    char ∉ delimiters ∧ char ≠ '-' ∧ char ∉ scanned := by
  have others : ∀ char ∈ '-' :: (delimiters ++ scanned), ¬ Text.isBlank char :=
    List.all_iff_forall_prop.mp (by decide)
  refine ⟨fun member => ?_, ?_, fun member => ?_⟩
  · exact others char (List.mem_cons_of_mem _ (List.mem_append_left _ member)) blank
  · rintro rfl
    exact others '-' List.mem_cons_self blank
  · exact others char (List.mem_cons_of_mem _ (List.mem_append_right _ member)) blank

theorem lexeme_blank {isGlyph : Char → Bool} {char : Char} (blank : Text.isBlank char)
    (rest : List Char) : lexeme isGlyph char rest = .ok (.gap, rest) := by
  obtain ⟨noDelimiter, noMinus, _⟩ := isBlank_alone blank
  simp only [delimiters, List.mem_cons, List.not_mem_nil, or_false, not_or] at noDelimiter
  unfold lexeme
  rw [if_neg noDelimiter.1, if_neg noDelimiter.2.1, if_neg noDelimiter.2.2.1,
    if_neg noDelimiter.2.2.2.1, if_neg noDelimiter.2.2.2.2.1, if_neg (by simp [noDelimiter]),
    if_neg (by simp [noMinus]), if_pos blank]

/-- Blanks are no statement. -/
theorem statementsFrom_blanks {isGlyph : Char → Bool} {text : List Char}
    (blank : ∀ char ∈ text, Text.isBlank char) : statementsFrom isGlyph [] text = .ok [] := by
  induction text with
  | nil => exact statementsFrom_nil isGlyph []
  | cons char rest inductionHypothesis =>
      rw [statementsFrom_gap (lexeme_blank (blank char List.mem_cons_self) rest)]
      exact inductionHypothesis fun other member => blank other (List.mem_cons_of_mem _ member)

/-! ## Operator characters -/

/-- A character that may stand in an operator starts no lexeme of another kind. -/
theorem isOperatorChar_alone {char : Char} (operator : isOperatorChar char) :
    char ∉ delimiters ∧ ¬ Text.isBlank char ∧ ¬ (char.isDigit ∨ char = negativeGlyph) ∧
      ¬ isNameChar char := by
  have all : ∀ char ∈ ['!', '#', '%', '&', '\'', '*', '+', '-', '.', '/', ':', '<', '=', '>', '?',
      '@', '^', '|'], char ∉ delimiters ∧ ¬ Text.isBlank char ∧
        ¬ (char.isDigit ∨ char = negativeGlyph) ∧ ¬ isNameChar char :=
    List.all_iff_forall_prop.mp (by decide)
  exact all char (by simpa [isOperatorChar] using operator)

theorem isNameChar_of_isNameStart {char : Char} (start : isNameStart char) : isNameChar char := by
  simp only [isNameStart, isNameChar, Char.isAlphanum, Bool.or_eq_true] at start ⊢
  rcases start with (letter | underscore) | dollar
  · exact Or.inl (Or.inl (Or.inl letter))
  · exact Or.inl (Or.inr underscore)
  · exact Or.inr dollar

theorem wordAt_glyph {isGlyph : Char → Bool} {char : Char} (glyph : isGlyph char)
    (rest : List Char) :
    wordAt isGlyph char rest = (char :: rest.takeWhile isGlyph, rest.dropWhile isGlyph) :=
  if_pos glyph

/-- An operator character that no operator of the table has is a token of its own. -/
theorem wordAt_stray {isGlyph : Char → Bool} {char : Char} (operator : isOperatorChar char)
    (noGlyph : ¬ isGlyph char) (rest : List Char) : wordAt isGlyph char rest = ([char], rest) := by
  obtain ⟨_, _, noNumber, noName⟩ := isOperatorChar_alone operator
  unfold wordAt
  rw [if_neg noGlyph, if_neg noNumber, if_neg (mt isNameChar_of_isNameStart noName)]

theorem Levels.isGlyph_iff {levels : Levels} {char : Char} :
    levels.isGlyph char ↔ char ∈ levels.glyphs := by
  unfold Levels.isGlyph Levels.glyphs
  rw [List.mem_mergeSort]
  exact List.contains_iff_mem

/-- The glyphs in the order of the operators they stand in. -/
theorem Levels.isGlyph_eq (levels : Levels) :
    levels.isGlyph = (scopeMarker :: levels.tokens.flatMap (·.toList)).contains := by
  funext char
  rw [Bool.eq_iff_iff, isGlyph_iff, mem_glyphs, List.contains_iff_mem]
  simp [List.mem_flatMap]

/-- A text that starts neither like a number nor like a name is no literal. -/
theorem classify_eq_none {char : Char} (noNumber : ¬ (char.isDigit ∨ char = negativeGlyph))
    (noName : ¬ isNameStart char) (rest : List Char) : classify (char :: rest) = none := by
  have name : readName? (char :: rest) = none := by simp [readName?, noName]
  unfold classify
  rw [readNumber?_eq_none noNumber, name]
  rfl

/-- No operator is a number or a name. -/
theorem Levels.WellFormed.classify_of_contains {levels : Levels} (wellFormed : levels.WellFormed)
    {characters : List Char} (known : levels.contains (String.ofList characters)) :
    classify characters = none := by
  obtain ⟨inhabited, operators⟩ := wellFormed.isOperatorChar_of_contains known
  rw [String.toList_ofList] at inhabited operators
  obtain _ | ⟨first, rest⟩ := characters
  · exact absurd rfl inhabited
  · have alone := isOperatorChar_alone (operators first List.mem_cons_self)
    exact classify_eq_none alone.2.2.1 (mt isNameChar_of_isNameStart alone.2.2.2) rest

end Fixity.Syntax
