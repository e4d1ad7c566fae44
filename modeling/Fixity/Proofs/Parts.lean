import Fixity.Proofs.Pieces
import Fixity.Proofs.Resumption

/-!
Contract: the parts of a text that falls into statements.

Owns:
- `Stripped`, what a group keeps of the characters between its delimiters;
- `Part` and `Divided`, the blanks, comments, separators, groups and words that a text is made of,
  without a scanner;
- `statementsOf`, the statements that separators make of the parts;
- the offsets at which statements end, and reading on from them.

Does not own: where words are cut, and the balance of delimiters inside groups.

Main statement: every statement but the last ends behind a separator, and reading from its end
gives the statements that come after it.
-/

namespace Fixity.Syntax

/-! ## Groups -/

/-- The characters between two delimiters and what is kept of them: everything but the comments,
each of which ends in front of a line break. Text literals are kept as they are. -/
inductive Stripped : (source kept : List Char) → Prop where
  | nil : Stripped [] []
  | literal {content source kept : List Char} (paired : Paired content)
      (behind : Stripped source kept) :
      Stripped ('\x7b' :: content ++ '\x7d' :: source) ('\x7b' :: content ++ '\x7d' :: kept)
  | comment {line source kept : List Char} (within : '\n' ∉ line)
      (behind : Stripped ('\n' :: source) kept) :
      Stripped ('-' :: '-' :: line ++ '\n' :: source) kept
  | character {char : Char} {source kept : List Char} (noBrace : char ≠ '\x7b')
      (noComment : ¬ (char = '-' ∧ source.head? = some '-')) (behind : Stripped source kept) :
      Stripped (char :: source) (char :: kept)

/-- A comment and what is behind it. -/
private theorem comment_split {rest : List Char} (follows : rest.head? = some '-') :
    ∃ line, rest = '-' :: line ++ rest.dropWhile (· ≠ '\n') ∧ '\n' ∉ line ∧
      ∀ char ∈ (rest.dropWhile (· ≠ '\n')).head?, char = '\n' := by
  obtain ⟨more, rfl⟩ : ∃ more, rest = '-' :: more := by
    obtain _ | ⟨first, more⟩ := rest
    · cases follows
    · cases follows
      exact ⟨more, rfl⟩
  have passes : ('-' :: more).dropWhile (fun char => decide (char ≠ '\n')) =
      more.dropWhile (fun char => decide (char ≠ '\n')) := List.dropWhile_cons_of_pos (by decide)
  refine ⟨more.takeWhile (· ≠ '\n'), ?_, fun member => ?_, fun char head => ?_⟩
  · rw [passes, List.cons_append, List.takeWhile_append_dropWhile]
  · simpa using List.mem_takeWhile_imp member
  · have stops := List.head?_dropWhile_not (fun char : Char => decide (char ≠ '\n')) ('-' :: more)
    rw [Option.mem_def.mp head] at stops
    simpa using stops

/-- The scanner of groups keeps what is between the delimiters without its comments. -/
theorem exists_stripped {opener closer : Char} {depth : Nat} {text inner after : List Char}
    (noBreak : closer ≠ '\n')
    (found : groupInterior opener closer depth text = some (inner, after)) :
    ∃ source, text = source ++ closer :: after ∧ Stripped source inner := by
  fun_induction groupInterior opener closer depth text generalizing inner with
  | case1 => cases found
  | case2 => cases found
  | case3 depth rest literal afterText textFound inductionHypothesis =>
      obtain ⟨⟨inner', after'⟩, groupFound, same⟩ := Option.map_eq_some_iff.mp found
      cases same
      obtain ⟨source, split, stripped⟩ := inductionHypothesis groupFound
      refine ⟨'\x7b' :: literal ++ '\x7d' :: source, ?_,
        .literal (closed_of_textInterior textFound).paired stripped⟩
      rw [textInterior_split textFound, split]
      simp
  | case4 depth char rest _ comments inductionHypothesis =>
      obtain ⟨source, split, stripped⟩ := inductionHypothesis found
      obtain ⟨line, whole, within, ends⟩ := comment_split comments.2
      rw [split] at whole ends
      -- the closing delimiter cannot end the comment, so a line break of the source does
      obtain _ | ⟨first, source⟩ := source
      · exact absurd (ends closer rfl) noBreak
      · cases ends first rfl
        refine ⟨'-' :: '-' :: line ++ '\n' :: source, ?_, .comment within stripped⟩
        rw [whole, comments.1]
        simp
  | case5 depth char rest _ _ ends =>
      cases found
      exact ⟨[], congrArg (· :: _) ends.1, .nil⟩
  | case6 depth char rest notBrace noComment _ inductionHypothesis =>
      obtain ⟨behind, inside, rfl⟩ := of_map_keep [char] found
      obtain ⟨source, rfl, stripped⟩ := inductionHypothesis inside
      refine ⟨char :: source, rfl, .character notBrace ?_ stripped⟩
      rintro ⟨minus, follows⟩
      exact noComment ⟨minus, by rw [List.head?_append, follows]; rfl⟩

/-- The source of a group and the token it becomes. -/
inductive Encloses : (source : List Char) → Token → Prop where
  | expression {source interior : List Char} (stripped : Stripped source interior) :
      Encloses ('(' :: source ++ [')']) (.expression interior)
  | list {source interior : List Char} (stripped : Stripped source interior) :
      Encloses ('[' :: source ++ [']']) (.list interior)
  | text {interior : List Char} (paired : Paired interior) :
      Encloses ('\x7b' :: interior ++ ['\x7d']) (.text interior)
  | quoted {interior : List Char} (paired : Paired interior) :
      Encloses ('\x60' :: '\x7b' :: interior ++ ['\x7d']) (.quoted interior)

/-! ## Parts -/

/-- A part of a text. A token comes with the characters it is read from. -/
inductive Part where
  | blank (char : Char)
  | comment (line : List Char)
  | separator
  | token (source : List Char) (token : Token)
deriving DecidableEq

namespace Part

/-- The characters of a part. -/
def source : Part → List Char
  | blank char => [char]
  | comment line => '-' :: '-' :: line
  | separator => [';']
  | token source _ => source

/-- The lexeme that a part is read as. -/
def lexeme : Part → Lexeme
  | blank _ | comment _ => .gap
  | separator => .separator
  | token _ read => .token read

/-- The text that parts make up. -/
def written (parts : List Part) : List Char := parts.flatMap source

theorem written_cons (part : Part) (parts : List Part) :
    written (part :: parts) = part.source ++ written parts := rfl

end Part

/-- The parts that a text is made of. A comment goes on to the end of its line, and a word starts
where nothing else does. -/
inductive Divided : (text : List Char) → List Part → Prop where
  | nil : Divided [] []
  | blank {char : Char} {rest : List Char} {parts : List Part} (blank : Text.isBlank char)
      (behind : Divided rest parts) : Divided (char :: rest) (.blank char :: parts)
  | comment {line rest : List Char} {parts : List Part} (within : '\n' ∉ line)
      (ends : ∀ char ∈ rest.head?, char = '\n') (behind : Divided rest parts) :
      Divided ('-' :: '-' :: line ++ rest) (.comment line :: parts)
  | separator {rest : List Char} {parts : List Part} (behind : Divided rest parts) :
      Divided (';' :: rest) (.separator :: parts)
  | group {source rest : List Char} {token : Token} {parts : List Part}
      (encloses : Encloses source token) (behind : Divided rest parts) :
      Divided (source ++ rest) (.token source token :: parts)
  | word {char : Char} {others rest : List Char} {parts : List Part}
      (starts : startsWord char (others ++ rest)) (behind : Divided rest parts) :
      Divided (char :: others ++ rest)
        (.token (char :: others) (.word (char :: others)) :: parts)

/-- Nothing of a text is outside its parts. -/
theorem Divided.written {text : List Char} {parts : List Part} (divided : Divided text parts) :
    Part.written parts = text := by
  induction divided with
  | nil => rfl
  | blank _ _ inductionHypothesis => rw [Part.written_cons, inductionHypothesis]; rfl
  | comment _ _ _ inductionHypothesis => rw [Part.written_cons, inductionHypothesis]; rfl
  | separator _ inductionHypothesis => rw [Part.written_cons, inductionHypothesis]; rfl
  | group _ _ inductionHypothesis => rw [Part.written_cons, inductionHypothesis]; rfl
  | word _ _ inductionHypothesis => rw [Part.written_cons, inductionHypothesis]; rfl

/-- The statements that parts make up, behind the tokens of an unfinished one, latest first. -/
def statementsOf (earlier : List Token) : List Part → List Statement
  | [] => if earlier.isEmpty then [] else [⟨earlier.reverse, []⟩]
  | .blank _ :: parts => statementsOf earlier parts
  | .comment _ :: parts => statementsOf earlier parts
  | .token _ token :: parts => statementsOf (token :: earlier) parts
  | .separator :: parts =>
      if earlier.isEmpty then statementsOf [] parts
      else ⟨earlier.reverse, Part.written parts⟩ :: statementsOf [] parts

/-- The word at the head of a text and what is behind it make up the text. -/
theorem wordAt_parts (isGlyph : Char → Bool) (char : Char) (rest : List Char) :
    ∃ others, (wordAt isGlyph char rest).1 = char :: others ∧
      others ++ (wordAt isGlyph char rest).2 = rest := by
  unfold wordAt
  split
  · exact ⟨_, rfl, List.takeWhile_append_dropWhile⟩
  · split
    · exact ⟨_, rfl, numberTail_append char rest⟩
    · split
      · exact ⟨_, rfl, List.takeWhile_append_dropWhile⟩
      · exact ⟨[], rfl, rfl⟩

theorem statementsOf_gap {part : Part} (gap : part.lexeme = .gap) (earlier : List Token)
    (parts : List Part) : statementsOf earlier (part :: parts) = statementsOf earlier parts := by
  cases part with
  | blank => rfl
  | comment => rfl
  | separator => cases gap
  | token => cases gap

/-- The lexeme at the head of a text is a part of it, where what is behind the lexeme is divided. -/
theorem Reads.divided {isGlyph : Char → Bool} {text after : List Char} {read : Lexeme}
    {parts : List Part} (reads : Reads isGlyph text read after) (behind : Divided after parts) :
    ∃ part, part.lexeme = read ∧ Divided text (part :: parts) := by
  cases reads with
  | separator => exact ⟨.separator, rfl, .separator behind⟩
  | expression found =>
      obtain ⟨source, rfl, stripped⟩ := exists_stripped (by decide) found
      have divided := Divided.group (.expression stripped) behind
      exact ⟨_, rfl, by simpa using divided⟩
  | list found =>
      obtain ⟨source, rfl, stripped⟩ := exists_stripped (by decide) found
      have divided := Divided.group (.list stripped) behind
      exact ⟨_, rfl, by simpa using divided⟩
  | text found =>
      have divided := Divided.group (.text (closed_of_textInterior found).paired) behind
      exact ⟨_, rfl, by simpa [textInterior_split found] using divided⟩
  | quoted found =>
      have divided := Divided.group (.quoted (closed_of_textInterior found).paired) behind
      exact ⟨_, rfl, by simpa [textInterior_split found] using divided⟩
  | comment follows =>
      obtain ⟨line, whole, within, ends⟩ := comment_split follows
      refine ⟨.comment line, rfl, ?_⟩
      rw [whole]
      exact .comment within ends behind
  | blank blank => exact ⟨_, rfl, .blank blank behind⟩
  | @word char rest starts =>
      obtain ⟨others, word, whole⟩ := wordAt_parts isGlyph char rest
      have divided := Divided.word (by rw [whole]; exact starts) behind
      rw [List.cons_append, whole, ← word] at divided
      exact ⟨_, rfl, divided⟩

/-- A text that falls into statements falls into parts, and these make up the statements. -/
theorem exists_divided {isGlyph : Char → Bool} {tokens : List Token} {text : List Char}
    {statements : List Statement} (ok : statementsFrom isGlyph tokens text = .ok statements) :
    ∃ parts, Divided text parts ∧ statements = statementsOf tokens parts := by
  fun_induction statementsFrom isGlyph tokens text generalizing statements with
  | case1 tokens =>
      cases ok
      exact ⟨[], .nil, rfl⟩
  | case2 => cases ok
  | case3 tokens char rest after found inductionHypothesis =>
      obtain ⟨parts, behind, rfl⟩ := inductionHypothesis ok
      obtain ⟨part, gap, divided⟩ := (reads_of_lexeme found).divided behind
      exact ⟨_, divided, (statementsOf_gap gap tokens parts).symm⟩
  | case4 tokens char rest token after found inductionHypothesis =>
      obtain ⟨parts, behind, rfl⟩ := inductionHypothesis ok
      obtain ⟨part, reads, divided⟩ := (reads_of_lexeme found).divided behind
      cases part <;> cases reads
      exact ⟨_, divided, rfl⟩
  | case5 tokens char rest after found empty inductionHypothesis =>
      obtain ⟨parts, behind, rfl⟩ := inductionHypothesis ok
      obtain ⟨part, reads, divided⟩ := (reads_of_lexeme found).divided behind
      cases part <;> cases reads
      exact ⟨_, divided, (if_pos empty).symm⟩
  | case6 tokens char rest after found inhabited inductionHypothesis =>
      obtain ⟨others, inRest, rfl⟩ := map_eq_ok.mp ok
      obtain ⟨parts, behind, rfl⟩ := inductionHypothesis inRest
      obtain ⟨part, reads, divided⟩ := (reads_of_lexeme found).divided behind
      cases part <;> cases reads
      refine ⟨_, divided, ?_⟩
      rw [statementsOf, if_neg inhabited, behind.written]

/-! ## Ends of statements -/

/-- Every statement that another one comes after is in front of a separator, and what is left
behind it is what is written behind the separator. -/
theorem statementsOf_separator {earlier : List Token} {parts : List Part}
    {before after : List Statement} {statement next : Statement}
    (made : statementsOf earlier parts = before ++ statement :: next :: after) :
    ∃ front behind, parts = front ++ .separator :: behind ∧
      statement.rest = Part.written behind := by
  induction parts generalizing earlier before with
  | nil =>
      have few := congrArg List.length made
      unfold statementsOf at few
      split at few <;> simp at few
      omega
  | cons part parts inductionHypothesis =>
      -- where the part does not end the statement, the separator is among the other parts
      have later {earlier : List Token} {before : List Statement}
          (made : statementsOf earlier parts = before ++ statement :: next :: after) :
          ∃ front behind, part :: parts = front ++ .separator :: behind ∧
            statement.rest = Part.written behind := by
        obtain ⟨front, behind, rfl, rest⟩ := inductionHypothesis made
        exact ⟨part :: front, behind, rfl, rest⟩
      cases part with
      | blank => exact later made
      | comment => exact later made
      | token => exact later made
      | separator =>
          unfold statementsOf at made
          split at made
          · exact later made
          · obtain _ | ⟨first, before⟩ := before
            · obtain ⟨rfl, _⟩ := List.cons.inj made
              exact ⟨[], parts, rfl, rfl⟩
            · exact later (List.tail_eq_of_cons_eq made)

/-- Where a statement of a text ends, in bytes. -/
def Statement.endIn (text : List Char) (statement : Statement) : Nat :=
  offsetOf text statement.rest

/-- Later statements end later. -/
theorem ends_increase {isGlyph : Char → Bool} {text : List Char} {statements : List Statement}
    (ok : tokenize isGlyph text = .ok statements) :
    (statements.map (·.endIn text)).Pairwise (· < ·) := by
  rw [List.pairwise_map]
  induction statements generalizing text with
  | nil => exact .nil
  | cons first others inductionHypothesis =>
      obtain ⟨inRest, suffix⟩ := tokenize_rest ok
      have suffixes (other : Statement) (member : other ∈ others) : other.rest <:+ first.rest := by
        obtain ⟨before, after, rfl⟩ := List.append_of_mem member
        exact (tokenize_after inRest).2
      have shifted (other : Statement) (member : other ∈ others) :
          other.endIn text = first.endIn text + other.endIn first.rest :=
        offsetOf_trans suffix (suffixes other member)
      refine .cons (fun other member => ?_) ?_
      · have shorter := (tokenize_length inRest other member).1
        have positive : 0 < other.endIn first.rest := offsetOf_pos (suffixes other member) shorter
        rw [shifted other member]
        omega
      · refine (inductionHypothesis inRest).imp_of_mem fun left right less => ?_
        rw [shifted _ left, shifted _ right]
        omega

/-- Statements end one behind the other, at boundaries of characters in the text. All but the last
end behind a separator that is a part of the text; and a text that is read on from the end of a
statement falls into the statements that come after it, which have their tokens and end where they
did. -/
theorem tokenize_resumes {isGlyph : Char → Bool} {text : List Char} {statements : List Statement}
    (ok : tokenize isGlyph text = .ok statements) :
    (statements.map (·.endIn text)).Pairwise (· < ·) ∧
      (∀ statement ∈ statements,
        String.Pos.Raw.IsValid (String.ofList text) ⟨statement.endIn text⟩ ∧
          statement.endIn text ≤ (String.ofList text).utf8ByteSize) ∧
      (∃ parts, Divided text parts ∧ statements = statementsOf [] parts ∧
        ∀ before statement next after, statements = before ++ statement :: next :: after →
          ∃ front behind, parts = front ++ .separator :: behind ∧
            statement.endIn text =
              (String.ofList (Part.written (front ++ [.separator]))).utf8ByteSize) ∧
      ∀ before statement after, statements = before ++ statement :: after →
        ∃ suffix continued, dropBytes? (statement.endIn text) text = some suffix ∧
          tokenize isGlyph suffix = .ok continued ∧
            continued.map (·.tokens) = after.map (·.tokens) ∧
              continued.map (·.endIn suffix) =
                after.map fun later => later.endIn text - statement.endIn text := by
  refine ⟨ends_increase ok, fun statement member => ?_, ?_, fun before statement after split => ?_⟩
  · obtain ⟨before, after, rfl⟩ := List.append_of_mem member
    have valid := isValid_offsetOf (tokenize_after ok).2
    exact ⟨valid, valid.le_rawEndPos⟩
  · obtain ⟨parts, divided, made⟩ := exists_divided (tokenize_eq_ok.mp ok)
    refine ⟨parts, divided, made, fun before statement next after split => ?_⟩
    obtain ⟨front, behind, whole, rest⟩ := statementsOf_separator (made.symm.trans split)
    refine ⟨front, behind, whole, ?_⟩
    have text_eq : text = Part.written (front ++ [.separator]) ++ statement.rest := by
      rw [← divided.written, whole, rest]
      simp [Part.written]
    unfold Statement.endIn
    rw [text_eq, offsetOf_append]
  · obtain ⟨inAfter, suffix⟩ := tokenize_after (split ▸ ok)
    refine ⟨statement.rest, after, dropBytes?_offsetOf suffix, inAfter, rfl, ?_⟩
    refine List.map_congr_left fun later member => ?_
    obtain ⟨front, behind, rfl⟩ := List.append_of_mem member
    have shifted : later.endIn text = statement.endIn text + later.endIn statement.rest :=
      offsetOf_trans suffix (tokenize_after inAfter).2
    rw [shifted, Nat.add_sub_cancel_left]

/-- A character of two bytes in front of a separator; a separator in a comment and one in a group
come behind it. -/
theorem tokenize_resumes_accented :
    ∃ text statements,
      text = ['é', ';', '-', '-', ';', '\n', '(', ';', ')', '+', 'b'] ∧
        tokenize (· == '+') text = .ok statements ∧ statements.map (·.endIn text) = [3, 12] ∧
          ∃ suffix continued, dropBytes? 3 text = some suffix ∧
            tokenize (· == '+') suffix = .ok continued ∧
              continued.map (·.tokens) = [[.expression [';'], .word ['+'], .word ['b']]] ∧
                continued.map (·.endIn suffix) = [9] := by
  have ok : tokenize (· == '+') ['é', ';', '-', '-', ';', '\n', '(', ';', ')', '+', 'b'] =
      .ok [⟨[.word ['é']], ['-', '-', ';', '\n', '(', ';', ')', '+', 'b']⟩,
        ⟨[.expression [';'], .word ['+'], .word ['b']], []⟩] := by decide +kernel
  obtain ⟨_, _, _, resumes⟩ := tokenize_resumes ok
  exact ⟨_, _, rfl, ok, by decide, resumes [] _ _ rfl⟩

end Fixity.Syntax
