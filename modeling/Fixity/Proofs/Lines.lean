import Fixity.Proofs.Failures
import Fixity.Proofs.Wholeness

/-!
Contract: the lines that failures name.

Owns:
- `OnLine`, a character on a line of a text, and its place in a text around that one;
- `Subtext`, the texts of a source that are read by themselves, and the line breaks in front of
  each;
- the lines of failures: every one counts from the start of such a text.

Does not own: why texts can not be read.

Main statement: a failure that names a line is the failure of a text that is read by itself. Its
line is a line of that text, and the character that it is about stands there; in the source it
stands as many lines further on as there are line breaks in front of that text.
-/

namespace Fixity.Syntax

/-! ## Lines -/

/-- A character stands on a line of a text, the first line being 1. -/
def OnLine (text : List Char) (line : Nat) (char : Char) : Prop :=
  ∃ before after, text = before ++ char :: after ∧ line = before.count '\n' + 1

namespace OnLine

variable {text : List Char} {line : Nat} {char : Char}

/-- What stands around a text moves its lines by the line breaks in front of it. -/
theorem surround (on : OnLine text line char) (front back : List Char) :
    OnLine (front ++ text ++ back) (front.count '\n' + line) char := by
  obtain ⟨before, after, rfl, rfl⟩ := on
  refine ⟨front ++ before, after ++ back, by simp, ?_⟩
  rw [List.count_append]
  omega

/-- Characters that are left out of a text do not move its lines if no line break is among them. -/
theorem of_sublist {source : List Char} (on : OnLine text line char) (kept : text.Sublist source)
    (breaks : source.count '\n' = text.count '\n') : OnLine source line char := by
  obtain ⟨before, after, rfl, rfl⟩ := on
  obtain ⟨front, rest, rfl, inFront, inRest⟩ := List.append_sublist_iff.mp kept
  obtain ⟨middle, back, rfl, member, inBack⟩ := List.cons_sublist_iff.mp inRest
  obtain ⟨first, last, rfl⟩ := List.append_of_mem member
  refine ⟨front ++ first, last ++ back, by simp, ?_⟩
  -- No part has fewer line breaks than what is kept of it, so none has more.
  have beforeBreaks := inFront.count_le '\n'
  have afterBreaks := inBack.count_le '\n'
  simp only [List.count_append, List.count_cons] at breaks ⊢
  omega

end OnLine

/-- A text that does not fall into statements fails on the line of the character at fault. -/
theorem tokenize_error_line {isGlyph : Char → Bool} {text : List Char} {error : SyntaxError}
    (failed : tokenize isGlyph text = .error error) :
    ∃ char line, error.points? = some (char, line) ∧ OnLine text line char := by
  unfold tokenize at failed
  split at failed
  · cases failed
  · next fault stop found =>
    cases failed
    obtain ⟨⟨before, rfl⟩, stops⟩ := exists_fault found
    refine ⟨fault.pointed, lineOf (before ++ stop) stop, fault.points?_toError _, ?_⟩
    have line : lineOf (before ++ stop) stop = before.count '\n' + 1 := by
      unfold lineOf
      rw [List.count_append]
      omega
    rw [line]
    cases stops with
    | unmatched closes => exact ⟨before, _, rfl, rfl⟩
    | expression unclosed => exact ⟨before, _, rfl, rfl⟩
    | list unclosed => exact ⟨before, _, rfl, rfl⟩
    | text unclosed => exact ⟨before, _, rfl, rfl⟩
    | @quoted rest unclosed =>
        -- The quote glyph in front of the brace is no line break.
        refine ⟨before ++ ['\x60'], rest, by simp [LexicalFault.pointed, GroupKind.opener], ?_⟩
        simp
    | dangling alone => exact ⟨before, _, rfl, rfl⟩

/-! ## Texts in a source -/

theorem Stripped.breaks {source kept : List Char} (stripped : Stripped source kept) :
    source.count '\n' = kept.count '\n' := by
  induction stripped with
  | nil => rfl
  | literal _ _ inductionHypothesis => simp [List.count_append, inductionHypothesis]
  | @comment line source kept within _ inductionHypothesis =>
      rw [← inductionHypothesis]
      simp [List.count_append, List.count_eq_zero.mpr within]
  | character _ _ _ inductionHypothesis => simp [List.count_cons, inductionHypothesis]

/-- What a group holds stands on the same lines in the source of the group. -/
theorem Encloses.onLine {source : List Char} {token : Token} {line : Nat} {char : Char}
    (encloses : Encloses source token) (on : OnLine token.interior line char) :
    OnLine source line char := by
  cases encloses with
  | @expression source interior stripped =>
      have inside := (on.of_sublist stripped.sublist stripped.breaks).surround ['('] [')']
      simpa using inside
  | @list source interior stripped =>
      have inside := (on.of_sublist stripped.sublist stripped.breaks).surround ['['] [']']
      simpa using inside
  | text _ => simpa [Token.interior] using on.surround ['\x7b'] ['\x7d']
  | quoted _ => simpa [Token.interior] using on.surround ['\x60', '\x7b'] ['\x7d']

/-- A part that is read as a token is a word or the source of a group. -/
theorem Divided.encloses {text source : List Char} {token : Token} {parts : List Part}
    (divided : Divided text parts) (member : .token source token ∈ parts) :
    Encloses source token ∨ ∃ characters, token = .word characters := by
  induction divided with
  | nil => cases member
  | blank _ _ inductionHypothesis => exact inductionHypothesis (by simpa using member)
  | comment _ _ _ inductionHypothesis => exact inductionHypothesis (by simpa using member)
  | separator _ inductionHypothesis => exact inductionHypothesis (by simpa using member)
  | group encloses _ inductionHypothesis =>
      rcases List.mem_cons.mp member with same | others
      · cases same
        exact .inl encloses
      · exact inductionHypothesis others
  | word _ _ inductionHypothesis =>
      rcases List.mem_cons.mp member with same | others
      · cases same
        exact .inr ⟨_, rfl⟩
      · exact inductionHypothesis others

/-- The texts of a source that are read by themselves, and the number of line breaks in front of
each: the source, and what the tokens of such a text hold. -/
inductive Subtext (levels : Levels) (source : List Char) : (breaks : Nat) → List Char → Prop
  | whole : Subtext levels source 0 source
  | held {breaks : Nat} {text written before inner : List Char} {token : Token}
      {earlier later : List Part} (outer : Subtext levels source breaks text)
      (divided : Divided text (earlier ++ .token written token :: later))
      (read : tokenize levels.isGlyph text =
        .ok (statementsOf [] (earlier ++ .token written token :: later)))
      (holds : token.Holds before inner) :
      Subtext levels source (breaks + (Part.written earlier ++ before).count '\n') inner

variable {levels : Levels} {source text : List Char} {error : SyntaxError} {breaks line : Nat}
  {char : Char}

/-- A line of such a text is as many lines further on in the source as there are line breaks in
front of the text. -/
theorem Subtext.onLine (subtext : Subtext levels source breaks text)
    (on : OnLine text line char) : OnLine source (breaks + line) char := by
  induction subtext generalizing line with
  | whole => simpa using on
  | @held breaks text written before inner token earlier later _ divided _ holds
      inductionHypothesis =>
      have inToken : OnLine token.interior (before.count '\n' + line) char := by
        obtain ⟨after, same⟩ := holds.interior_eq
        rw [same]
        exact on.surround before after
      have inSource : OnLine written (before.count '\n' + line) char := by
        have member : .token written token ∈ earlier ++ .token written token :: later := by simp
        rcases divided.encloses member with encloses | ⟨characters, rfl⟩
        · exact encloses.onLine inToken
        · cases holds
      have inText := inSource.surround (Part.written earlier) (Part.written later)
      have whole : Part.written earlier ++ written ++ Part.written later = text := by
        rw [← divided.written]
        simp [Part.written, Part.source]
      rw [whole] at inText
      have further := inductionHypothesis inText
      rwa [List.count_append, Nat.add_assoc, Nat.add_assoc]

/-- Every token of a text is read from a part of it. -/
theorem exists_part {statements : List Statement} {statement : Statement} {token : Token}
    (divides : tokenize levels.isGlyph text = .ok statements) (inText : statement ∈ statements)
    (inStatement : token ∈ statement.tokens) :
    ∃ earlier written later, Divided text (earlier ++ .token written token :: later) ∧
      statements = statementsOf [] (earlier ++ .token written token :: later) := by
  obtain ⟨parts, divided, rfl⟩ := exists_divided (tokenize_eq_ok.mp divides)
  have inTokens : token ∈ parts.flatMap Part.tokens := by
    have tokens := statementsOf_tokens [] parts
    rw [List.reverse_nil, List.nil_append] at tokens
    exact tokens ▸ List.mem_flatMap_of_mem inText inStatement
  obtain ⟨part, member, reads⟩ := List.mem_flatMap.mp inTokens
  obtain ⟨earlier, later, rfl⟩ := List.append_of_mem member
  cases part with
  | token written other =>
      rw [List.mem_singleton.mp reads]
      exact ⟨earlier, written, later, divided, rfl⟩
  | blank other => cases reads
  | comment other => cases reads
  | separator => cases reads

/-! ## Lines of failures -/

/-- Reading a text of a source by itself fails with a line where such a text, perhaps another one,
does not fall into statements. -/
theorem Subtext.exists_fault (subtext : Subtext levels source breaks text)
    (failed : parseBody levels text = .error error) (points : error.points? ≠ none) :
    ∃ breaks' text', Subtext levels source breaks' text' ∧
      tokenize levels.isGlyph text' = .error error := by
  -- By the length of the text, which is longer than what its tokens hold.
  induction bound : text.length using Nat.strongRecOn generalizing breaks text with
  | ind bound inductionHypothesis =>
      subst bound
      rcases parseBody_error_cases failed with
        undivided | ⟨_, statement, token, before, inner, divides, member, inTokens, holds, fails⟩ |
        none
      · exact ⟨breaks, text, subtext, undivided⟩
      · have shorter := (tokenize_length divides statement member).2 token inTokens
        have within := holds.length
        obtain ⟨earlier, written, later, divided, rfl⟩ := exists_part divides member inTokens
        exact inductionHypothesis inner.length (by omega) (subtext.held divided divides holds)
          fails rfl
      · exact absurd none points

/-- A source that can not be read fails as one of the texts in it that are read by themselves. The
line of the failure is a line of that text, on which the character that the failure is about stands,
and in the source that character stands behind the line breaks in front of the text as well. Where
the source itself does not fall into statements, the line is one of the source. -/
theorem parse_error_line (failed : parse levels source = .error error)
    (points : error.points? = some (char, line)) :
    (∃ breaks text, Subtext levels source breaks text ∧
      tokenize levels.isGlyph text = .error error ∧
      OnLine text line char ∧ OnLine source (breaks + line) char) ∧
    ∀ other, tokenize levels.isGlyph source = .error other →
      error = other ∧ OnLine source line char := by
  have named {text : List Char} (undivided : tokenize levels.isGlyph text = .error error) :
      OnLine text line char := by
    obtain ⟨_, _, same, on⟩ := tokenize_error_line undivided
    cases points.symm.trans same
    exact on
  constructor
  · have body : parseBody levels source = .error error := by
      unfold parseBody
      rw [of_map_error failed]
      rfl
    obtain ⟨breaks, text, subtext, undivided⟩ :=
      Subtext.whole.exists_fault body (by rw [points]; nofun)
    exact ⟨breaks, text, subtext, undivided, named undivided, subtext.onLine (named undivided)⟩
  · intro other undivided
    have same : error = other := by
      rw [parse_eq, parseStatements, undivided] at failed
      cases failed
      rfl
    exact ⟨same, named (same ▸ undivided)⟩

/-- The delimiter in `(])` is on the second line of the source, but on the first line of what the
parentheses hold, and that is the line that the failure names. -/
theorem parse_error_line_nested :
    let source := ['\n', '(', ']', ')']
    let error := SyntaxError.unmatchedDelimiter ']' 1
    parse [] source = .error error ∧ error.points? = some (']', 1) ∧ ¬ OnLine source 1 ']' ∧
      (∃ breaks text, Subtext [] source breaks text ∧
        tokenize (Levels.isGlyph []) text = .error error ∧
        OnLine text 1 ']' ∧ OnLine source (breaks + 1) ']') ∧
      ∀ other, tokenize (Levels.isGlyph []) source = .error other →
        error = other ∧ OnLine source 1 ']' := by
  intro source error
  have failed : parse [] source = .error error := by
    with_unfolding_all rfl
  refine ⟨failed, rfl, ?_, parse_error_line failed rfl⟩
  rintro ⟨before, after, split, line⟩
  obtain _ | ⟨first, before⟩ := before
  · exact absurd (List.head_eq_of_cons_eq split) (by decide)
  · obtain rfl : '\n' = first := List.head_eq_of_cons_eq split
    rw [List.count_cons_self] at line
    omega

end Fixity.Syntax
