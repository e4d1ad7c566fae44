import Fixity.Proofs.Failures
import Fixity.Proofs.Spelling

/-!
Contract: the text literals that reading comes upon.

Owns:
- `Meets`, the tokens that a text falls into, and those of the groups, elements, quotes and splices
  in them;
- failures of the reader: none of them is a splice without an end.

Does not own: what the text between the braces of a literal is read as.

Main statement: whatever text literal is met, what stands between its braces is made of pieces, and
it is read piece by piece; where it can not be read, one of its splices can not.
-/

namespace Fixity.Syntax

/-! ## Failures -/

/-- The error of a splice without an end. -/
def SpliceOpen (error : SyntaxError) : Prop := ∃ line, error = .incompleteGroup .interpolation line

/-- No text that can not be divided into statements is at fault for a splice. -/
private theorem tokenize_error {isGlyph : Char → Bool} {text : List Char} {error : SyntaxError}
    (failed : tokenize isGlyph text = .error error) : ¬ SpliceOpen error := by
  unfold tokenize at failed
  split at failed
  · cases failed
  · next fault stop found =>
    have stops := (exists_fault found).2
    rintro ⟨line, rfl⟩
    cases stops <;> cases failed

variable {levels : Levels} {error : SyntaxError}

/-- Reading the text of a group fails for many reasons, but for no splice without an end. -/
theorem parseBody_error {text : List Char} (failed : parseBody levels text = .error error) :
    ¬ SpliceOpen error := by
  induction bound : text.length using Nat.strongRecOn generalizing text error with
  | ind bound inductionHypothesis =>
      subst bound
      rcases parseBody_error_cases failed with
        undivided | ⟨_, statement, token, _, inner, divided, member, inTokens, holds, fails⟩ | none
      · exact tokenize_error undivided
      · have within := (tokenize_length divided statement member).2 token inTokens
        exact inductionHypothesis inner.length (by have := holds.length; omega) fails rfl
      · rintro ⟨line, rfl⟩
        cases none

/-! ## Texts among the tokens -/

/-- A text in braces is one token if and only if it is closed. -/
theorem tokenize_text_iff (isGlyph : Char → Bool) {interior : List Char} :
    tokenize isGlyph (Token.text interior).spelling = .ok [⟨[.text interior], []⟩] ↔
      Closed interior := by
  constructor
  · intro divided
    exact closed_of_tokenize divided (List.mem_singleton_self _) (List.mem_singleton_self _)
  · intro closed
    have whole : (Token.text interior).spelling = '\x7b' :: (interior ++ ['\x7d']) := rfl
    rw [whole, tokenize_eq_ok, statementsFrom_token (lexeme_text closed []), statementsFrom_nil]
    rfl

/-! ## Whatever text is met -/

open Piece

/-- The tokens that a text falls into, and those that the groups, elements, quotes and splices among
them fall into in turn. -/
inductive Meets (levels : Levels) : List Char → Token → Prop
  | here {text : List Char} {statements : List Statement} {statement : Statement} {token : Token}
      (divided : tokenize levels.isGlyph text = .ok statements) (inText : statement ∈ statements)
      (inStatement : token ∈ statement.tokens) : Meets levels text token
  | expression {text interior : List Char} {token : Token}
      (outer : Meets levels text (.expression interior)) (inside : Meets levels interior token) :
      Meets levels text token
  | element {text interior element : List Char} {token : Token}
      (outer : Meets levels text (.list interior)) (divides : element ∈ splitElements interior)
      (inside : Meets levels element token) : Meets levels text token
  | quoted {text interior : List Char} {token : Token}
      (outer : Meets levels text (.quoted interior)) (inside : Meets levels interior token) :
      Meets levels text token
  | splice {text interior : List Char} {pieces : List Piece} {token : Token}
      (outer : Meets levels text (.text (spelled pieces)))
      (proper : ∀ piece ∈ pieces, piece.Proper) (spliced : .splice interior ∈ pieces)
      (inside : Meets levels interior token) : Meets levels text token

theorem Meets.closed {text interior : List Char} (met : Meets levels text (.text interior)) :
    Closed interior := by
  -- Only the innermost text matters, which the token has been divided out of.
  generalize same : Token.text interior = token at met
  induction met with
  | here divided inText inStatement =>
      subst same
      exact closed_of_tokenize divided inText inStatement
  | expression _ _ _ inductionHypothesis => exact inductionHypothesis same
  | element _ _ _ _ inductionHypothesis => exact inductionHypothesis same
  | quoted _ _ _ inductionHypothesis => exact inductionHypothesis same
  | splice _ _ _ _ _ inductionHypothesis => exact inductionHypothesis same

/-- A text that is met is made of pieces in one way. It is read run by run, splices as groups are
read, and fails as the first of its splices does that can not be read, which is never for want of a
closing brace. -/
theorem Meets.read_piecewise {source interior : List Char}
    (met : Meets levels source (.text interior)) :
    ∃ pieces, (spelled pieces = interior ∧ ∀ piece ∈ pieces, piece.Proper) ∧
      (∀ others, (spelled others = interior ∧ ∀ piece ∈ others, piece.Proper) → others = pieces) ∧
      (∀ segments, parseText levels interior = .ok segments ↔
        List.Forall₂ (Stands (parseBody levels)) (runs pieces) segments) ∧
      (∀ error, parseText levels interior = .error error ↔
        ∃ before inside after, interiors pieces = before ++ inside :: after ∧
          (∀ earlier ∈ before, ∃ node, parseBody levels earlier = .ok node) ∧
          parseBody levels inside = .error error) ∧
      ∀ line, parseText levels interior ≠ .error (.incompleteGroup .interpolation line) := by
  obtain ⟨pieces, rfl, proper⟩ := exists_spelled met.closed.paired
  have legible {others : List Piece} (proper : ∀ piece ∈ others, piece.Proper) :
      ∀ piece ∈ others, piece.Legible := fun piece member => (proper piece member).legible
  have fails (error : SyntaxError) : parseText levels (spelled pieces) = .error error ↔
      (interiors pieces).mapM (parseBody levels) = .error error := by
    have whole : parseText levels (spelled pieces ++ []) = .error error ↔ _ :=
      parseText_eq_error (.inl rfl) (legible proper)
    rwa [List.append_nil] at whole
  refine ⟨pieces, ⟨rfl, proper⟩, ?_, ?_, fun error => (fails error).trans mapM_eq_error, ?_⟩
  · rintro others ⟨same, proper'⟩
    exact (pieces_unique (legible proper') (legible proper) (.inl rfl) (.inl rfl)
      (congrArg (· ++ []) same)).1
  · intro segments
    have whole : parseText levels (spelled pieces ++ []) = .ok segments ↔ _ :=
      parseText_eq_ok (.inl rfl) (legible proper)
    rwa [List.append_nil] at whole
  · intro line failed
    obtain ⟨inside, _, fails⟩ := of_mapM_error ((fails _).mp failed)
    exact parseBody_error fails ⟨line, rfl⟩

/-- The text `a{b}` is met in the splice of the literal `{x{{a{b}}}}`. -/
theorem read_piecewise_inner :
    ∃ pieces, (spelled pieces = ['a', '\x7b', 'b', '\x7d'] ∧ ∀ piece ∈ pieces, piece.Proper) ∧
      (∀ others, (spelled others = ['a', '\x7b', 'b', '\x7d'] ∧
        ∀ piece ∈ others, piece.Proper) → others = pieces) ∧
      (∀ segments, parseText [] ['a', '\x7b', 'b', '\x7d'] = .ok segments ↔
        List.Forall₂ (Stands (parseBody [])) (runs pieces) segments) ∧
      (∀ error, parseText [] ['a', '\x7b', 'b', '\x7d'] = .error error ↔
        ∃ before inside after, interiors pieces = before ++ inside :: after ∧
          (∀ earlier ∈ before, ∃ node, parseBody [] earlier = .ok node) ∧
          parseBody [] inside = .error error) ∧
      ∀ line, parseText [] ['a', '\x7b', 'b', '\x7d'] ≠
        .error (.incompleteGroup .interpolation line) := by
  have name : Paired ['b'] := .character (by decide) .nil
  have literal : Paired ['a', '\x7b', 'b', '\x7d'] :=
    .character (by decide) (.braces name .nil)
  have spliced : Paired (Token.text ['a', '\x7b', 'b', '\x7d']).spelling := .braces literal .nil
  have proper : ∀ piece ∈ [Piece.character 'x',
      .splice (Token.text ['a', '\x7b', 'b', '\x7d']).spelling], piece.Proper := by
    refine List.forall_mem_cons.mpr ⟨⟨.character (by decide), nofun⟩, ?_⟩
    exact List.forall_mem_singleton.mpr ⟨.splice spliced, nofun⟩
  have outer := (tokenize_text_iff (Levels.isGlyph [])).mpr (paired_spelled proper).closed
  have inner := (tokenize_text_iff (Levels.isGlyph [])).mpr literal.closed
  have single {entry : Statement} : entry ∈ [entry] := List.mem_singleton_self entry
  exact Meets.read_piecewise (.splice (.here outer single (List.mem_singleton_self _)) proper
    (by simp) (.here inner single (List.mem_singleton_self _)))

end Fixity.Syntax
