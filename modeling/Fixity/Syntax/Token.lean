import Fixity.Error
import Fixity.Syntax.Literal
import Fixity.Text.Blank

/-!
Contract: the tokens of source text and its division into statements.

Owns:
- `Token`, a word or a whole group with the text between its delimiters;
- the extent of groups: text groups count braces and honour escapes, expressions and lists count
  their own delimiters outside texts and lose their comments;
- `Statement`, the tokens of one statement and the text behind it;
- `tokenize`, and the lines its errors point to.

Does not own: the meaning of words, the nesting of groups inside groups.
-/

namespace Fixity.Syntax

/-- A piece of a statement. A group holds what stands between its delimiters. -/
inductive Token where
  | expression (interior : List Char)
  | list (interior : List Char)
  | text (interior : List Char)
  | quoted (interior : List Char)
  /-- A literal, a name, an operator or a stray character. -/
  | word (characters : List Char)
deriving DecidableEq

namespace Token

/-- The token as it is written. -/
def spelling : Token → List Char
  | expression interior => '(' :: interior ++ [')']
  | list interior => '[' :: interior ++ [']']
  | text interior => '\x7b' :: interior ++ ['\x7d']
  | quoted interior => '\x60' :: '\x7b' :: interior ++ ['\x7d']
  | word characters => characters

/-- What a group holds; a word holds nothing. -/
def interior : Token → List Char
  | expression interior => interior
  | list interior => interior
  | text interior => interior
  | quoted interior => interior
  | word _ => []

end Token

/-! ## Groups -/

/-- Splits behind the brace that closes a text; `depth` braces inside it are open. The closing brace
belongs to neither part. -/
def textInterior (depth : Nat) : List Char → Option (List Char × List Char)
  | [] => none
  | '\\' :: [] => none
  | '\\' :: char :: rest =>
      (textInterior depth rest).map fun (inner, after) => ('\\' :: char :: inner, after)
  | '\x7b' :: rest =>
      (textInterior (depth + 1) rest).map fun (inner, after) => ('\x7b' :: inner, after)
  | '\x7d' :: rest =>
      match depth with
      | 0 => some ([], rest)
      | depth + 1 => (textInterior depth rest).map fun (inner, after) => ('\x7d' :: inner, after)
  | char :: rest =>
      (textInterior depth rest).map fun (inner, after) => (char :: inner, after)

theorem textInterior_length {depth : Nat} {text inner after : List Char}
    (found : textInterior depth text = some (inner, after)) :
    inner.length + after.length + 1 = text.length := by
  fun_induction textInterior depth text generalizing inner after <;>
    simp_all [Option.map_eq_some_iff] <;> grind

/-- The number of open groups behind a character. -/
def nesting (opener closer : Char) (depth : Nat) (char : Char) : Nat :=
  if char = opener then depth + 1 else if char = closer then depth - 1 else depth

/-- Splits behind the delimiter that closes an expression or a list; `depth` groups of its kind are
open inside it. Texts are kept whole, and comments are left out up to the end of their line. -/
def groupInterior (opener closer : Char) (depth : Nat) (text : List Char) :
    Option (List Char × List Char) :=
  match text with
  | [] => none
  | char :: rest =>
      if char = '\x7b' then
        match _ : textInterior 0 rest with
        | none => none
        | some (literal, afterText) =>
            (groupInterior opener closer depth afterText).map fun (inner, after) =>
              ('\x7b' :: literal ++ '\x7d' :: inner, after)
      else if char = '-' ∧ rest.head? = some '-' then
        groupInterior opener closer depth (rest.dropWhile (· ≠ '\n'))
      else if char = closer ∧ depth = 0 then
        some ([], rest)
      else
        (groupInterior opener closer (nesting opener closer depth char) rest).map
          fun (inner, after) => (char :: inner, after)
termination_by text.length
decreasing_by
  · have := textInterior_length ‹_›
    simp only [List.length_cons]
    omega
  · have := (List.dropWhile_sublist (fun char : Char => decide (char ≠ '\n')) (l := rest)).length_le
    simp only [List.length_cons]
    omega
  · simp

theorem groupInterior_length {opener closer : Char} {depth : Nat} {text inner after : List Char}
    (found : groupInterior opener closer depth text = some (inner, after)) :
    inner.length + after.length < text.length := by
  fun_induction groupInterior opener closer depth text generalizing inner after with
  | case1 => simp at found
  | case2 => simp at found
  | case3 depth rest literal afterText textFound inductionHypothesis =>
      obtain ⟨⟨inner', after'⟩, groupFound, equal⟩ := Option.map_eq_some_iff.mp found
      have textLength := textInterior_length textFound
      have groupLength := inductionHypothesis groupFound
      simp only [Prod.mk.injEq] at equal
      obtain ⟨rfl, rfl⟩ := equal
      simp only [List.length_cons, List.length_append]
      omega
  | case4 depth char rest _ _ inductionHypothesis =>
      have groupLength := inductionHypothesis found
      have :=
        (List.dropWhile_sublist (fun char : Char => decide (char ≠ '\n')) (l := rest)).length_le
      simp only [List.length_cons]
      omega
  | case5 depth char rest _ _ _ =>
      simp only [Option.some.injEq, Prod.mk.injEq] at found
      obtain ⟨rfl, rfl⟩ := found
      simp
  | case6 depth char rest _ _ _ inductionHypothesis =>
      obtain ⟨⟨inner', after'⟩, groupFound, equal⟩ := Option.map_eq_some_iff.mp found
      have groupLength := inductionHypothesis groupFound
      simp only [Prod.mk.injEq] at equal
      obtain ⟨rfl, rfl⟩ := equal
      simp only [List.length_cons]
      omega

/-! ## Lexemes -/

/-- What stands at the head of a text. -/
inductive Lexeme where
  /-- White space or a comment. -/
  | gap
  /-- The end of a statement. -/
  | separator
  | token (token : Token)

/-- Why a text has no lexeme at its head. -/
inductive LexicalFault where
  | unmatchedDelimiter (delimiter : Char)
  | incompleteGroup (group : GroupKind)
  | danglingQuote
deriving DecidableEq

/-- The characters of a number, as far as they can go on; `previous` is the last one read. -/
def numberTail (previous : Char) : List Char → List Char × List Char
  | [] => ([], [])
  | char :: rest =>
      let afterMark := previous = 'e' ∨ previous = 'E'
      if char.isDigit ∨ char ∈ ['.', 'e', 'E', 'i'] ∨ (afterMark ∧ char ∈ ['+', '-']) then
        let (digits, after) := numberTail char rest
        (char :: digits, after)
      else
        ([], char :: rest)

theorem numberTail_append (previous : Char) (text : List Char) :
    (numberTail previous text).1 ++ (numberTail previous text).2 = text := by
  fun_induction numberTail previous text <;> simp_all

/-- The lexeme of a group whose interior has been looked for. -/
def group (kind : GroupKind) (token : List Char → Token)
    (found : Option (List Char × List Char)) : Except LexicalFault (Lexeme × List Char) :=
  match found with
  | some (interior, after) => .ok (.token (token interior), after)
  | none => .error (.incompleteGroup kind)

/-- The lexeme at the head of the text `char :: rest`, and the text behind it. -/
def lexeme (isGlyph : Char → Bool) (char : Char) (rest : List Char) :
    Except LexicalFault (Lexeme × List Char) :=
  if char = ';' then .ok (.separator, rest)
  else if char = '(' then group .expression .expression (groupInterior '(' ')' 0 rest)
  else if char = '[' then group .list .list (groupInterior '[' ']' 0 rest)
  else if char = '\x7b' then group .text .text (textInterior 0 rest)
  else if char = '\x60' then
    match rest with
    | '\x7b' :: rest => group .text .quoted (textInterior 0 rest)
    | _ => .error .danglingQuote
  else if char = ')' ∨ char = ']' ∨ char = '\x7d' then .error (.unmatchedDelimiter char)
  else if char = '-' ∧ rest.head? = some '-' then .ok (.gap, rest.dropWhile (· ≠ '\n'))
  else if Text.isBlank char then .ok (.gap, rest)
  else if isGlyph char then
    .ok (.token (.word (char :: rest.takeWhile isGlyph)), rest.dropWhile isGlyph)
  else if char.isDigit ∨ char = negativeGlyph then
    .ok (.token (.word (char :: (numberTail char rest).1)), (numberTail char rest).2)
  else if isNameStart char then
    .ok (.token (.word (char :: rest.takeWhile isNameChar)), rest.dropWhile isNameChar)
  else
    .ok (.token (.word [char]), rest)

private theorem group_length {kind : GroupKind} {token : List Char → Token}
    {found : Option (List Char × List Char)} {read : Lexeme} {after rest : List Char}
    (bounded : ∀ interior behind, found = some (interior, behind) →
      interior.length + behind.length < rest.length)
    (interiorOf : ∀ interior, (token interior).interior = interior)
    (ok : group kind token found = .ok (read, after)) :
    after.length ≤ rest.length ∧
      ∀ word, read = .token word → word.interior.length + after.length ≤ rest.length := by
  unfold group at ok
  split at ok
  · next interior behind =>
    have := bounded interior behind rfl
    simp only [Except.ok.injEq, Prod.mk.injEq] at ok
    obtain ⟨rfl, rfl⟩ := ok
    refine ⟨by omega, fun word equal => ?_⟩
    cases equal
    rw [interiorOf]
    omega
  · simp at ok

/-- What is behind a lexeme is no longer than what is behind its first character, and a group's
interior lies in between. -/
theorem lexeme_length {isGlyph : Char → Bool} {char : Char} {rest after : List Char}
    {read : Lexeme} (ok : lexeme isGlyph char rest = .ok (read, after)) :
    after.length ≤ rest.length ∧
      ∀ word, read = .token word → word.interior.length + after.length ≤ rest.length := by
  have textBound : ∀ (text : List Char) interior behind,
      textInterior 0 text = some (interior, behind) →
        interior.length + behind.length < text.length := by
    intro text interior behind found
    have := textInterior_length found
    omega
  have dropped : ∀ test : Char → Bool, (rest.dropWhile test).length ≤ rest.length :=
    fun test => (List.dropWhile_sublist test).length_le
  unfold lexeme at ok
  by_cases separates : char = ';'
  · rw [if_pos separates] at ok
    cases ok
    exact ⟨Nat.le_refl _, nofun⟩
  rw [if_neg separates] at ok
  by_cases opensExpression : char = '('
  · rw [if_pos opensExpression] at ok
    exact group_length (fun _ _ found => groupInterior_length found) (fun _ => rfl) ok
  rw [if_neg opensExpression] at ok
  by_cases opensList : char = '['
  · rw [if_pos opensList] at ok
    exact group_length (fun _ _ found => groupInterior_length found) (fun _ => rfl) ok
  rw [if_neg opensList] at ok
  by_cases opensText : char = '\x7b'
  · rw [if_pos opensText] at ok
    exact group_length (textBound rest) (fun _ => rfl) ok
  rw [if_neg opensText] at ok
  by_cases quotes : char = '\x60'
  · rw [if_pos quotes] at ok
    split at ok
    · next inner =>
      have bounds := group_length (textBound inner) (fun _ => rfl) ok
      simp only [List.length_cons]
      exact ⟨by omega, fun word equal => Nat.le_succ_of_le (bounds.2 word equal)⟩
    · cases ok
  rw [if_neg quotes] at ok
  by_cases closes : char = ')' ∨ char = ']' ∨ char = '\x7d'
  · rw [if_pos closes] at ok
    cases ok
  rw [if_neg closes] at ok
  by_cases comments : char = '-' ∧ rest.head? = some '-'
  · rw [if_pos comments] at ok
    cases ok
    exact ⟨dropped _, nofun⟩
  rw [if_neg comments] at ok
  by_cases blank : Text.isBlank char
  · rw [if_pos blank] at ok
    cases ok
    exact ⟨Nat.le_refl _, nofun⟩
  rw [if_neg blank] at ok
  by_cases glyph : isGlyph char
  · rw [if_pos glyph] at ok
    cases ok
    exact ⟨dropped _, fun _ equal => by cases equal; simpa [Token.interior] using dropped isGlyph⟩
  rw [if_neg glyph] at ok
  by_cases digit : char.isDigit ∨ char = negativeGlyph
  · rw [if_pos digit] at ok
    cases ok
    have tail : (numberTail char rest).2.length ≤ rest.length := by
      have split := congrArg List.length (numberTail_append char rest)
      simp only [List.length_append] at split
      omega
    exact ⟨tail, fun _ equal => by cases equal; simpa [Token.interior] using tail⟩
  rw [if_neg digit] at ok
  by_cases name : isNameStart char
  · rw [if_pos name] at ok
    cases ok
    exact
      ⟨dropped _, fun _ equal => by cases equal; simpa [Token.interior] using dropped isNameChar⟩
  rw [if_neg name] at ok
  cases ok
  exact ⟨Nat.le_refl _, fun _ equal => by cases equal; simp [Token.interior]⟩

/-! ## Statements -/

/-- The tokens of one statement, at least one, and the text behind it. -/
structure Statement where
  tokens : List Token
  rest : List Char
deriving DecidableEq

/-- Where reading stopped: the fault and the text from there on. -/
abbrev LexicalStop := LexicalFault × List Char

/-- The statements of a text that continues a statement begun with `tokens`, latest first. -/
def statementsFrom (isGlyph : Char → Bool) (tokens : List Token) (text : List Char) :
    Except LexicalStop (List Statement) :=
  match text with
  | [] => .ok (if tokens.isEmpty then [] else [⟨tokens.reverse, []⟩])
  | char :: rest =>
      match _ : lexeme isGlyph char rest with
      | .error fault => .error (fault, char :: rest)
      | .ok (.gap, after) => statementsFrom isGlyph tokens after
      | .ok (.token token, after) => statementsFrom isGlyph (token :: tokens) after
      | .ok (.separator, after) =>
          if tokens.isEmpty then statementsFrom isGlyph [] after
          else (statementsFrom isGlyph [] after).map (⟨tokens.reverse, after⟩ :: ·)
termination_by text.length
decreasing_by
  all_goals
    have := (lexeme_length ‹_›).1
    simp only [List.length_cons]
    omega

/-- A statement leaves less text behind than there was, and its groups hold less text. -/
theorem statementsFrom_length {isGlyph : Char → Bool} {tokens : List Token} {text : List Char}
    {statements : List Statement} {bound : Nat}
    (longEnough : text.length ≤ bound)
    (earlier : ∀ token ∈ tokens, token.interior.length < bound)
    (something : tokens ≠ [] → text.length < bound)
    (ok : statementsFrom isGlyph tokens text = .ok statements) :
    ∀ statement ∈ statements,
      statement.rest.length < bound ∧
        ∀ token ∈ statement.tokens, token.interior.length < bound := by
  fun_induction statementsFrom isGlyph tokens text generalizing statements with
  | case1 tokens =>
      simp only [Except.ok.injEq] at ok
      subst ok
      intro statement member
      split at member
      · simp at member
      · next present =>
        have := something (by simpa using present)
        simp only [List.mem_singleton] at member
        subst member
        exact ⟨this, by simpa using earlier⟩
  | case2 => simp at ok
  | case3 tokens char rest after found inductionHypothesis =>
      have shorter := (lexeme_length found).1
      simp only [List.length_cons] at longEnough
      exact inductionHypothesis (by omega) earlier (by omega) ok
  | case4 tokens char rest token after found inductionHypothesis =>
      have shorter := lexeme_length found
      have interior := shorter.2 token rfl
      simp only [List.length_cons] at longEnough
      refine inductionHypothesis (by omega) (fun other member => ?_) (by omega) ok
      rcases List.mem_cons.mp member with rfl | inEarlier
      · omega
      · exact earlier other inEarlier
  | case5 tokens char rest after found _ inductionHypothesis =>
      have shorter := (lexeme_length found).1
      simp only [List.length_cons] at longEnough
      exact inductionHypothesis (by omega) (by simp) (by simp) ok
  | case6 tokens char rest after found _ inductionHypothesis =>
      have shorter := (lexeme_length found).1
      simp only [List.length_cons] at longEnough
      cases inner : statementsFrom isGlyph [] after with
      | error stop => simp [inner, Except.map] at ok
      | ok others =>
          simp only [inner, Except.map, Except.ok.injEq] at ok
          subst ok
          intro statement member
          rcases List.mem_cons.mp member with rfl | inOthers
          · exact ⟨by simp only; omega, by simpa using earlier⟩
          · exact inductionHypothesis (by omega) (by simp) (by simp) inner statement inOthers

/-- The number of the line on which a text goes on with `rest`, the first line being 1. -/
def lineOf (text rest : List Char) : Nat :=
  1 + text.count '\n' - rest.count '\n'

/-- The error of a fault met on a line. -/
def LexicalFault.toError (line : Nat) : LexicalFault → SyntaxError
  | unmatchedDelimiter delimiter => .unmatchedDelimiter delimiter line
  | incompleteGroup group => .incompleteGroup group line
  | danglingQuote => .danglingQuote line

/-- The statements of a text. `isGlyph` tells the characters of which operators are made; a run of
them is one token. -/
def tokenize (isGlyph : Char → Bool) (text : List Char) : Except SyntaxError (List Statement) :=
  match statementsFrom isGlyph [] text with
  | .ok statements => .ok statements
  | .error (fault, stop) => .error (fault.toError (lineOf text stop))

theorem tokenize_length {isGlyph : Char → Bool} {text : List Char} {statements : List Statement}
    (ok : tokenize isGlyph text = .ok statements) :
    ∀ statement ∈ statements,
      statement.rest.length < text.length ∧
        ∀ token ∈ statement.tokens, token.interior.length < text.length := by
  unfold tokenize at ok
  split at ok
  · next found =>
    cases ok
    exact statementsFrom_length (Nat.le_refl _) (by simp) (by simp) found
  · simp at ok

/-- The byte offset at which a text goes on with `rest`. -/
def offsetOf (text rest : List Char) : Nat :=
  (String.ofList text).utf8ByteSize - (String.ofList rest).utf8ByteSize

end Fixity.Syntax
