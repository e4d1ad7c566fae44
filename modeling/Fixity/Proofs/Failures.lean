import Fixity.Proofs.Comments
import Fixity.Proofs.Pieces
import Fixity.Proofs.Resumption

/-!
Contract: why a text can not be read.

Owns:
- `Stops`, the texts without a lexeme at their head, and the fault of each;
- `LexicalFault.pointed` and `SyntaxError.points?`, the character that a failure is about and its
  line, where it has one;
- `Token.Holds`, the texts in a token that are read by themselves: groups, elements of lists, quotes
  and splices, with what stands in front of them.

Does not own: where such texts stand in a source.

Main statement: if a text can not be read, then it does not fall into statements, or one of the
texts that its tokens hold can not be read, or the failure has no line.
-/

namespace Fixity

/-- The character that a failure is about and the line that it names: the delimiter without an
opener, the opener without a closing delimiter, or the quote glyph. Other failures name no line. -/
def SyntaxError.points? : SyntaxError → Option (Char × Nat)
  | unmatchedDelimiter delimiter line => some (delimiter, line)
  | incompleteGroup group line => some (group.opener, line)
  | danglingQuote line => some ('\x60', line)
  | _ => none

namespace Syntax

/-! ## Failures in sequence -/

section Failures

variable {α β ε : Type} {outcome : Except ε α} {error : ε}

theorem of_bind_error {next : α → Except ε β} (failed : outcome >>= next = .error error) :
    outcome = .error error ∨ ∃ value, outcome = .ok value ∧ next value = .error error := by
  cases outcome with
  | error other => exact .inl (congrArg Except.error (Except.error.inj failed))
  | ok value => exact .inr ⟨value, rfl, failed⟩

theorem of_map_error {change : α → β} (failed : outcome.map change = .error error) :
    outcome = .error error := by
  cases outcome with
  | error other => exact congrArg Except.error (Except.error.inj failed)
  | ok value => cases failed

theorem of_mapM_error {read : α → Except ε β} {entries : List α}
    (failed : entries.mapM read = .error error) : ∃ entry ∈ entries, read entry = .error error := by
  obtain ⟨before, entry, after, rfl, _, fails⟩ := exists_of_mapM_error failed
  exact ⟨entry, by simp, fails⟩

theorem mapM_eq_error {read : α → Except ε β} {entries : List α} :
    entries.mapM read = .error error ↔ ∃ before entry after, entries = before ++ entry :: after ∧
      (∀ earlier ∈ before, ∃ result, read earlier = .ok result) ∧ read entry = .error error := by
  refine ⟨exists_of_mapM_error, ?_⟩
  rintro ⟨before, entry, after, rfl, succeed, fails⟩
  induction before with
  | nil =>
      rw [List.nil_append, List.mapM_cons, fails]
      rfl
  | cons first before inductionHypothesis =>
      obtain ⟨⟨result, ok⟩, others⟩ := List.forall_mem_cons.mp succeed
      rw [List.cons_append, List.mapM_cons, ok, inductionHypothesis others]
      rfl

end Failures

/-! ## Where there is no lexeme -/

/-- A text without a lexeme at its head, and the fault of it. -/
inductive Stops : List Char → LexicalFault → Prop
  | unmatched {char : Char} {rest : List Char} (closes : char = ')' ∨ char = ']' ∨ char = '\x7d') :
      Stops (char :: rest) (.unmatchedDelimiter char)
  | expression {rest : List Char} (unclosed : groupInterior '(' ')' 0 rest = none) :
      Stops ('(' :: rest) (.incompleteGroup .expression)
  | list {rest : List Char} (unclosed : groupInterior '[' ']' 0 rest = none) :
      Stops ('[' :: rest) (.incompleteGroup .list)
  | text {rest : List Char} (unclosed : textInterior 0 rest = none) :
      Stops ('\x7b' :: rest) (.incompleteGroup .text)
  | quoted {rest : List Char} (unclosed : textInterior 0 rest = none) :
      Stops ('\x60' :: '\x7b' :: rest) (.incompleteGroup .text)
  | dangling {rest : List Char} (alone : rest.head? ≠ some '\x7b') :
      Stops ('\x60' :: rest) .danglingQuote

private theorem group_eq_error {kind : GroupKind} {token : List Char → Token}
    {found : Option (List Char × List Char)} {fault : LexicalFault}
    (failed : group kind token found = .error fault) :
    found = none ∧ fault = .incompleteGroup kind := by
  unfold group at failed
  split at failed
  · cases failed
  · cases failed
    exact ⟨rfl, rfl⟩

theorem stops_of_lexeme {isGlyph : Char → Bool} {char : Char} {rest : List Char}
    {fault : LexicalFault} (failed : lexeme isGlyph char rest = .error fault) :
    Stops (char :: rest) fault := by
  by_cases word : startsWord char rest
  · rw [lexeme_word isGlyph word] at failed
    cases failed
  unfold lexeme at failed
  by_cases separates : char = ';'
  · rw [if_pos separates] at failed
    cases failed
  rw [if_neg separates] at failed
  by_cases opensExpression : char = '('
  · rw [if_pos opensExpression] at failed
    obtain ⟨unclosed, rfl⟩ := group_eq_error failed
    rw [opensExpression]
    exact .expression unclosed
  rw [if_neg opensExpression] at failed
  by_cases opensList : char = '['
  · rw [if_pos opensList] at failed
    obtain ⟨unclosed, rfl⟩ := group_eq_error failed
    rw [opensList]
    exact .list unclosed
  rw [if_neg opensList] at failed
  by_cases opensText : char = '\x7b'
  · rw [if_pos opensText] at failed
    obtain ⟨unclosed, rfl⟩ := group_eq_error failed
    rw [opensText]
    exact .text unclosed
  rw [if_neg opensText] at failed
  by_cases quotes : char = '\x60'
  · rw [if_pos quotes] at failed
    rw [quotes]
    split at failed
    · obtain ⟨unclosed, rfl⟩ := group_eq_error failed
      exact .quoted unclosed
    · next alone =>
      cases failed
      refine .dangling fun follows => ?_
      obtain ⟨behind, rfl⟩ := List.head?_eq_some_iff.mp follows
      exact alone behind rfl
  rw [if_neg quotes] at failed
  by_cases closes : char = ')' ∨ char = ']' ∨ char = '\x7d'
  · rw [if_pos closes] at failed
    cases failed
    exact .unmatched closes
  rw [if_neg closes] at failed
  by_cases comments : char = '-' ∧ rest.head? = some '-'
  · rw [if_pos comments] at failed
    cases failed
  rw [if_neg comments] at failed
  by_cases blank : Text.isBlank char
  · rw [if_pos blank] at failed
    cases failed
  refine absurd ⟨?_, comments, blank⟩ word
  simp only [not_or] at closes
  simp [delimiters, separates, opensExpression, opensList, opensText, quotes, closes]

/-- A text that does not fall into statements has an end without a lexeme at its head. -/
theorem exists_fault {isGlyph : Char → Bool} {tokens : List Token} {text stop : List Char}
    {fault : LexicalFault} (failed : statementsFrom isGlyph tokens text = .error (fault, stop)) :
    stop <:+ text ∧ Stops stop fault := by
  fun_induction statementsFrom isGlyph tokens text with
  | case1 => cases failed
  | case2 tokens char rest other found =>
      cases failed
      exact ⟨List.suffix_rfl, stops_of_lexeme found⟩
  | case3 tokens char rest after found inductionHypothesis =>
      have behind := (lexeme_suffix found).trans (List.suffix_cons char rest)
      exact ⟨(inductionHypothesis failed).1.trans behind, (inductionHypothesis failed).2⟩
  | case4 tokens char rest token after found inductionHypothesis =>
      have behind := (lexeme_suffix found).trans (List.suffix_cons char rest)
      exact ⟨(inductionHypothesis failed).1.trans behind, (inductionHypothesis failed).2⟩
  | case5 tokens char rest after found empty inductionHypothesis =>
      have behind := (lexeme_suffix found).trans (List.suffix_cons char rest)
      exact ⟨(inductionHypothesis failed).1.trans behind, (inductionHypothesis failed).2⟩
  | case6 tokens char rest after found inhabited inductionHypothesis =>
      have behind := (lexeme_suffix found).trans (List.suffix_cons char rest)
      have inRest := inductionHypothesis (of_map_error failed)
      exact ⟨inRest.1.trans behind, inRest.2⟩

/-- The character that a fault is about. -/
def LexicalFault.pointed : LexicalFault → Char
  | unmatchedDelimiter delimiter => delimiter
  | incompleteGroup group => group.opener
  | danglingQuote => '\x60'

theorem LexicalFault.points?_toError (fault : LexicalFault) (line : Nat) :
    (fault.toError line).points? = some (fault.pointed, line) := by
  cases fault <;> rfl

/-! ## Behind the tokens -/

private theorem collapsePass_error {associativity : Associativity} {level : Nat}
    {behind ahead : List Item} {error : SyntaxError}
    (failed : collapsePass associativity level behind ahead = .error error) :
    ∃ token, error = .missingOperand token := by
  fun_induction collapsePass associativity level behind ahead with
  | case1 => cases failed
  | case2 _ _ _ inductionHypothesis => exact inductionHypothesis failed
  | case3 _ _ _ _ _ inductionHypothesis => exact inductionHypothesis failed
  | case4 _ token =>
      cases failed
      exact ⟨token, rfl⟩
  | case5 _ _ _ _ _ inductionHypothesis => exact inductionHypothesis failed

theorem collapseFrom_error {level : Nat} {levels : Levels} {items : List Item}
    {error : SyntaxError} (failed : collapseFrom level levels items = .error error) :
    ∃ token, error = .missingOperand token := by
  induction levels generalizing level items with
  | nil => cases failed
  | cons entry entries inductionHypothesis =>
      rw [collapseFrom] at failed
      rcases of_bind_error failed with here | ⟨row, _, further⟩
      · unfold collapseLevel at here
        split at here
        · exact collapsePass_error (of_map_error here)
        · exact collapsePass_error here
      · exact inductionHypothesis further

/-! ## Texts in tokens -/

/-- What stands between the braces of a text token is closed. -/
theorem closed_of_tokenize {isGlyph : Char → Bool} {text interior : List Char}
    {statements : List Statement} {statement : Statement}
    (divided : tokenize isGlyph text = .ok statements) (inText : statement ∈ statements)
    (inStatement : .text interior ∈ statement.tokens) : Closed interior := by
  have ofLexeme (char : Char) (rest : List Char) (token : Token) (after : List Char)
      (found : lexeme isGlyph char rest = .ok (.token token, after)) :
      ∀ interior, token = .text interior → Closed interior := by
    rintro interior rfl
    exact closed_of_textInterior (lexeme_eq_text found)
  exact statementsFrom_tokens ofLexeme (by simp) (tokenize_eq_ok.mp divided) statement inText _
    inStatement interior rfl

open Piece

/-- A text in a token that is read by itself, behind the characters that stand in front of it
between the delimiters. -/
inductive Token.Holds : Token → (before inner : List Char) → Prop
  | expression (interior : List Char) : Holds (.expression interior) [] interior
  | element {interior element : List Char} {front back : List (List Char)}
      (divides : splitElements interior = front ++ element :: back) :
      Holds (.list interior) (front.flatMap (· ++ [','])) element
  | quoted (interior : List Char) : Holds (.quoted interior) [] interior
  | splice {interior : List Char} {front back : List Piece}
      (proper : ∀ piece ∈ front ++ .splice interior :: back, piece.Proper) :
      Holds (.text (spelled (front ++ .splice interior :: back))) (spelled front ++ ['\x7b'])
        interior

private theorem intercalate_split (front back : List (List Char)) (element : List Char) :
    ∃ after, [','].intercalate (front ++ element :: back) =
      front.flatMap (· ++ [',']) ++ element ++ after := by
  induction front with
  | nil =>
      obtain _ | ⟨next, back⟩ := back
      · exact ⟨[], by simp⟩
      · refine ⟨',' :: [','].intercalate (next :: back), ?_⟩
        rw [List.nil_append, List.intercalate_cons_of_ne_nil (List.cons_ne_nil _ _)]
        simp
  | cons first front inductionHypothesis =>
      obtain ⟨after, same⟩ := inductionHypothesis
      refine ⟨after, ?_⟩
      rw [List.cons_append, List.intercalate_cons_of_ne_nil (by simp), same]
      simp

theorem Token.Holds.interior_eq {token : Token} {before inner : List Char}
    (holds : token.Holds before inner) : ∃ after, token.interior = before ++ inner ++ after := by
  cases holds with
  | expression => exact ⟨[], (List.append_nil _).symm⟩
  | quoted => exact ⟨[], (List.append_nil _).symm⟩
  | @element interior _ front back divides =>
      obtain ⟨after, same⟩ := intercalate_split front back inner
      have whole := intercalate_elementsFrom 0 [] interior
      rw [show elementsFrom 0 [] interior = _ from divides, same] at whole
      exact ⟨after, whole.symm⟩
  | @splice _ front back proper =>
      refine ⟨'\x7d' :: spelled back, ?_⟩
      show spelled (front ++ Piece.splice inner :: back) = _
      simp [spelled, Piece.spelling]

theorem Token.Holds.length {token : Token} {before inner : List Char}
    (holds : token.Holds before inner) : inner.length ≤ token.interior.length := by
  obtain ⟨after, same⟩ := holds.interior_eq
  rw [same, List.length_append, List.length_append]
  omega

/-! ## Failures of the reader -/

variable {levels : Levels} {error : SyntaxError}

/-- A token can not be read if one of the texts in it can not, or if it is a word. -/
private theorem classifyToken_error {token : Token}
    (closed : ∀ interior, token = .text interior → Closed interior)
    (failed : classifyToken levels (parseBody levels) token = .error error) :
    (∃ before inner, token.Holds before inner ∧ parseBody levels inner = .error error) ∨
      error.points? = none := by
  cases token with
  | expression interior => exact .inl ⟨[], interior, .expression interior, of_map_error failed⟩
  | quoted interior => exact .inl ⟨[], interior, .quoted interior, of_map_error failed⟩
  | list interior =>
      have inList := of_map_error failed
      unfold parseList at inList
      split at inList
      · cases inList
      · obtain ⟨front, element, back, divides, _, fails⟩ :=
          exists_of_mapM_error (of_map_error inList)
        exact .inl ⟨_, element, .element divides, fails⟩
  | text interior =>
      obtain ⟨pieces, rfl, proper⟩ := Piece.exists_spelled (closed interior rfl).paired
      have inText : parseText levels (Piece.spelled pieces ++ []) = .error error := by
        rw [List.append_nil, parseText_eq]
        exact of_map_error failed
      have inSplices := (parseText_eq_error (.inl rfl) fun piece member =>
        (proper piece member).legible).mp inText
      obtain ⟨inside, spliced, fails⟩ := of_mapM_error inSplices
      obtain ⟨front, back, rfl⟩ := List.append_of_mem (mem_interiors.mp spliced)
      exact .inl ⟨_, inside, .splice proper, fails⟩
  | word characters =>
      unfold classifyToken at failed
      dsimp only at failed
      split at failed
      · cases failed
      · split at failed
        · cases failed
        · cases failed
        · split at failed <;> cases failed <;> exact .inr rfl

/-- A text that can not be read does not fall into statements, or it holds a text that can not be
read, or what is wrong with it has no line. -/
theorem parseBody_error_cases {text : List Char} (failed : parseBody levels text = .error error) :
    tokenize levels.isGlyph text = .error error ∨
      (∃ statements statement token before inner, tokenize levels.isGlyph text = .ok statements ∧
        statement ∈ statements ∧ token ∈ statement.tokens ∧ token.Holds before inner ∧
        parseBody levels inner = .error error) ∨
      error.points? = none := by
  rw [parseBody_eq] at failed
  rcases of_bind_error (of_map_error failed) with undivided | ⟨statements, divided, inStatement⟩
  · exact .inl undivided
  obtain ⟨statement, member, fails⟩ := of_mapM_error inStatement
  rcases of_bind_error fails with inToken | ⟨items, _, behind⟩
  · obtain ⟨token, inTokens, unread⟩ := of_mapM_error inToken
    have closed : ∀ interior, token = .text interior → Closed interior := by
      rintro interior rfl
      exact closed_of_tokenize divided member inTokens
    refine .inr ((classifyToken_error closed unread).imp_left ?_)
    rintro ⟨before, inner, holds, inside⟩
    exact ⟨statements, statement, token, before, inner, divided, member, inTokens, holds, inside⟩
  rcases of_bind_error behind with uncollapsed | ⟨row, _, malformed⟩
  · obtain ⟨token, rfl⟩ := collapseFrom_error uncollapsed
    exact .inr (.inr rfl)
  · split at malformed <;> cases malformed
    exact .inr (.inr rfl)

end Syntax

end Fixity
