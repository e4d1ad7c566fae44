import Mathlib.Data.List.TakeWhile
import Fixity.Proofs.Balance

/-!
Contract: texts without their comments.

Owns:
- `bare`, a text without the comments that stand outside its text literals;
- that the interior of a group is bare, and so are the elements of the interior of a list;
- `groupInterior_bare`: the scanner of groups passes over a text as over the bare one.

Does not own: lexemes.
-/

namespace Fixity.Syntax

/-- A text without its comments. What a brace opens and no brace closes is left as it is. -/
def bare (text : List Char) : List Char :=
  match text with
  | [] => []
  | char :: rest =>
      if char = '\x7b' then
        match _ : textInterior 0 rest with
        | some (literal, after) => '\x7b' :: literal ++ '\x7d' :: bare after
        | none => char :: rest
      else if char = '-' ∧ rest.head? = some '-' then bare (rest.dropWhile (· ≠ '\n'))
      else char :: bare rest
termination_by text.length
decreasing_by
  · have := textInterior_length ‹_›
    simp only [List.length_cons]
    omega
  · have := (List.dropWhile_sublist (fun char : Char => decide (char ≠ '\n')) (l := rest)).length_le
    simp only [List.length_cons]
    omega
  · simp

section Steps

variable {char : Char} {rest : List Char}

theorem bare_nil : bare [] = [] := by rw [bare]

theorem bare_text {literal after : List Char}
    (found : textInterior 0 rest = some (literal, after)) :
    bare ('\x7b' :: rest) = '\x7b' :: literal ++ '\x7d' :: bare after := by
  rw [bare, if_pos rfl]
  split
  · next literal' after' found' =>
    rw [found] at found'
    cases found'
    rfl
  · next notFound => rw [found] at notFound; cases notFound

theorem bare_unclosed (notFound : textInterior 0 rest = none) :
    bare ('\x7b' :: rest) = '\x7b' :: rest := by
  rw [bare, if_pos rfl]
  split
  · next found => rw [notFound] at found; cases found
  · rfl

theorem bare_comment (follows : rest.head? = some '-') :
    bare ('-' :: rest) = bare (rest.dropWhile (· ≠ '\n')) := by
  rw [bare, if_neg (by decide), if_pos ⟨rfl, follows⟩]

theorem bare_step (noBrace : char ≠ '\x7b')
    (noComment : ¬ (char = '-' ∧ rest.head? = some '-')) :
    bare (char :: rest) = char :: bare rest := by
  rw [bare, if_neg noBrace, if_neg noComment]

end Steps

/-- The end of a comment. -/
private theorem head?_dropWhile_comment {text : List Char} {char : Char}
    (head : (text.dropWhile (· ≠ '\n')).head? = some char) : char = '\n' := by
  have fails := List.head?_dropWhile_not (fun char : Char => decide (char ≠ '\n')) text
  rw [head] at fails
  simpa using fails

/-- A bare text starts like the text itself, or with the end of a comment. -/
theorem head?_bare {text : List Char} {char : Char} (head : (bare text).head? = some char) :
    char = '\n' ∨ text.head? = some char := by
  fun_induction bare text with
  | case1 => exact Or.inr head
  | case2 => exact Or.inr head
  | case3 => exact Or.inr head
  | case4 first rest _ _ inductionHypothesis =>
      exact Or.inl ((inductionHypothesis head).elim id head?_dropWhile_comment)
  | case5 => exact Or.inr head

/-- No comment starts in a bare text where none starts in the text itself. -/
theorem no_comment_bare {char : Char} {rest : List Char}
    (noComment : ¬ (char = '-' ∧ rest.head? = some '-')) :
    ¬ (char = '-' ∧ (bare rest).head? = some '-') := by
  rintro ⟨minus, follows⟩
  rcases head?_bare follows with newline | follows
  · exact absurd newline (by decide)
  · exact noComment ⟨minus, follows⟩

theorem bare_length (text : List Char) : (bare text).length ≤ text.length := by
  fun_induction bare text with
  | case1 => exact Nat.le_refl 0
  | case2 rest literal after found inductionHypothesis =>
      have := textInterior_length found
      simp only [List.length_append, List.length_cons]
      omega
  | case3 => exact Nat.le_refl _
  | case4 char rest _ _ inductionHypothesis =>
      have := (List.dropWhile_sublist (fun char : Char => decide (char ≠ '\n'))
        (l := rest)).length_le
      simp only [List.length_cons]
      omega
  | case5 char rest _ _ inductionHypothesis =>
      simp only [List.length_cons]
      omega

/-! ## Bare texts -/

/-- A bare text does not start with a comment. -/
theorem no_comment_of_bare {char : Char} {rest : List Char}
    (same : bare (char :: rest) = char :: rest) : ¬ (char = '-' ∧ rest.head? = some '-') := by
  rintro ⟨rfl, follows⟩
  rw [bare_comment follows] at same
  have shorter := bare_length (rest.dropWhile (· ≠ '\n'))
  have dropped :=
    (List.dropWhile_sublist (fun char : Char => decide (char ≠ '\n')) (l := rest)).length_le
  rw [same, List.length_cons] at shorter
  omega

/-- Behind its first character, if that opens no text, a bare text is bare. -/
theorem bare_tail {char : Char} {rest : List Char} (noBrace : char ≠ '\x7b')
    (same : bare (char :: rest) = char :: rest) : bare rest = rest := by
  rw [bare_step noBrace (no_comment_of_bare same)] at same
  exact List.tail_eq_of_cons_eq same

/-- A text literal in front of a bare text. -/
theorem bare_closed {literal text : List Char} (closed : Closed literal) :
    bare ('\x7b' :: literal ++ '\x7d' :: text) = '\x7b' :: literal ++ '\x7d' :: bare text :=
  bare_text (closed.textInterior text)

/-! ## Groups -/

section Groups

variable {opener closer : Char} {depth : Nat} {text inner after : List Char}

/-- A group's interior stands in the bare text in front of the delimiter that closes the group. -/
theorem bare_of_groupInterior (noBrace : closer ≠ '\x7b')
    (found : groupInterior opener closer depth text = some (inner, after)) :
    bare text = inner ++ closer :: bare after := by
  fun_induction groupInterior opener closer depth text generalizing inner with
  | case1 => cases found
  | case2 => cases found
  | case3 depth rest literal afterText textFound inductionHypothesis =>
      obtain ⟨⟨inner', after'⟩, groupFound, equal⟩ := Option.map_eq_some_iff.mp found
      cases equal
      rw [bare_text textFound, inductionHypothesis groupFound]
      simp
  | case4 depth char rest _ comments inductionHypothesis =>
      rw [comments.1, bare_comment comments.2]
      exact inductionHypothesis found
  | case5 depth char rest _ noComment ends =>
      cases found
      rw [bare_step (ends.1 ▸ noBrace) noComment, ends.1]
      rfl
  | case6 depth char rest notBrace noComment _ inductionHypothesis =>
      obtain ⟨behind, inside, rfl⟩ := of_map_keep [char] found
      rw [bare_step notBrace noComment, inductionHypothesis inside]
      rfl

/-- The interior of a group is bare. -/
theorem bare_interior (noBrace : closer ≠ '\x7b')
    (found : groupInterior opener closer depth text = some (inner, after)) :
    bare inner = inner := by
  fun_induction groupInterior opener closer depth text generalizing inner with
  | case1 => cases found
  | case2 => cases found
  | case3 depth rest literal afterText textFound inductionHypothesis =>
      obtain ⟨⟨inner', after'⟩, groupFound, equal⟩ := Option.map_eq_some_iff.mp found
      cases equal
      rw [bare_closed (closed_of_textInterior textFound), inductionHypothesis groupFound]
  | case4 depth char rest _ _ inductionHypothesis => exact inductionHypothesis found
  | case5 =>
      cases found
      exact bare_nil
  | case6 depth char rest notBrace noComment _ inductionHypothesis =>
      obtain ⟨behind, inside, rfl⟩ := of_map_keep [char] found
      -- the interior goes on like the bare text, so it starts no comment of its own
      have noCommentInside : ¬ (char = '-' ∧ behind.head? = some '-') := by
        rintro ⟨minus, follows⟩
        refine no_comment_bare noComment ⟨minus, ?_⟩
        rw [bare_of_groupInterior noBrace inside, List.head?_append, follows]
        rfl
      rw [List.singleton_append, bare_step notBrace noCommentInside, inductionHypothesis inside]

end Groups

/-- Where the scanner of groups passes over a bare text, it passes over the text itself. Behind the
text a line ends, and with it a comment that no line break has ended so far. -/
theorem groupInterior_bare {opener closer : Char} {depth depth' : Nat} {text behind : List Char}
    (passes : groupInterior opener closer depth (bare text ++ '\n' :: behind) =
      (groupInterior opener closer depth' ('\n' :: behind)).map (keep (bare text))) :
    groupInterior opener closer depth (text ++ '\n' :: behind) =
      (groupInterior opener closer depth' ('\n' :: behind)).map (keep (bare text)) := by
  fun_induction bare text generalizing depth with
  | case1 => exact passes
  | case2 rest literal after found inductionHypothesis =>
      have front : '\x7b' :: literal ++ '\x7d' :: bare after =
          '\x7b' :: literal ++ ['\x7d'] ++ bare after := by simp
      have literalFirst : groupInterior opener closer depth
          ('\x7b' :: (literal ++ '\x7d' :: (bare after ++ '\n' :: behind))) = _ :=
        groupInterior_text ((closed_of_textInterior found).textInterior _)
      have same : '\x7b' :: literal ++ '\x7d' :: bare after ++ '\n' :: behind =
          '\x7b' :: (literal ++ '\x7d' :: (bare after ++ '\n' :: behind)) := by simp
      rw [same, literalFirst, front, ← map_keep_keep _ (bare after)] at passes
      rw [List.cons_append, groupInterior_text (textInterior_append found _), front,
        ← map_keep_keep _ (bare after), inductionHypothesis (map_keep_inj passes)]
  | case3 => exact passes
  | case4 char rest _ comments inductionHypothesis =>
      have stops : (rest ++ '\n' :: behind).dropWhile (· ≠ '\n') =
          rest.dropWhile (· ≠ '\n') ++ '\n' :: behind := by
        rw [List.dropWhile_append]
        split
        · next all => rw [List.isEmpty_iff.mp all]; rfl
        · rfl
      have follows : (rest ++ '\n' :: behind).head? = some '-' := by
        rw [List.head?_append, comments.2]
        rfl
      rw [List.cons_append, comments.1, groupInterior_comment follows, stops]
      exact inductionHypothesis passes
  | case5 char rest notBrace noComment inductionHypothesis =>
      have noCommentBefore {text : List Char}
          (noComment : ¬ (char = '-' ∧ text.head? = some '-')) :
          ¬ (char = '-' ∧ (text ++ '\n' :: behind).head? = some '-') := by
        cases text with
        | nil => simp
        | cons next text => exact noComment
      rw [List.cons_append] at passes ⊢
      by_cases ends : char = closer ∧ depth = 0
      · -- the scanner would stop here, in front of what it passes over
        obtain ⟨rfl, rfl⟩ := ends
        rw [groupInterior, if_neg notBrace, if_neg (noCommentBefore (no_comment_bare noComment)),
          if_pos ⟨rfl, rfl⟩] at passes
        obtain ⟨_, _, same⟩ := Option.map_eq_some_iff.mp passes.symm
        cases same
      · rw [groupInterior_step notBrace (noCommentBefore (no_comment_bare noComment)) ends,
          ← List.singleton_append (l := bare rest), ← map_keep_keep [char] (bare rest)] at passes
        rw [groupInterior_step notBrace (noCommentBefore noComment) ends,
          inductionHypothesis (map_keep_inj passes), map_keep_keep]
        rfl

/-! ## Elements -/

theorem elementsFrom_ne_nil (depth : Nat) (piece text : List Char) :
    elementsFrom depth piece text ≠ [] := by
  fun_induction elementsFrom depth piece text <;> simp_all

/-- The elements of a text, with the separators between them, make up the text. -/
theorem intercalate_elementsFrom (depth : Nat) (piece text : List Char) :
    [','].intercalate (elementsFrom depth piece text) = piece.reverse ++ text := by
  fun_induction elementsFrom depth piece text with
  | case1 => simp
  | case2 depth piece rest interior after found inductionHypothesis =>
      rw [inductionHypothesis, textInterior_split found]
      simp
  | case3 => simp
  | case4 depth piece char rest _ _ inductionHypothesis =>
      rw [inductionHypothesis]
      simp
  | case5 depth piece char rest _ _ _ inductionHypothesis =>
      rw [inductionHypothesis]
      simp
  | case6 depth piece char rest _ _ _ _ inductionHypothesis =>
      have parts := List.takeWhile_append_dropWhile
        (p := fun char : Char => decide (char ≠ '\n')) (l := rest)
      rw [inductionHypothesis, List.reverse_append, List.reverse_reverse, List.append_assoc, parts]
      simp
  | case7 depth piece char rest _ _ _ _ separates inductionHypothesis =>
      rw [List.intercalate_cons_of_ne_nil (elementsFrom_ne_nil _ _ _), inductionHypothesis,
        separates.1]
      simp
  | case8 depth piece char rest _ _ _ _ _ inductionHypothesis =>
      rw [inductionHypothesis]
      simp

/-- The elements of a bare text are bare. The first one goes on with a piece read earlier. -/
theorem bare_elementsFrom (depth : Nat) (piece : List Char) {text : List Char}
    (same : bare text = text) :
    ∃ first others, elementsFrom depth piece text = (piece.reverse ++ first) :: others ∧
      first <+: text ∧ bare first = first ∧ ∀ element ∈ others, bare element = element := by
  -- one character more in front of the first element
  have widen {depth : Nat} {char : Char} {piece rest : List Char} (noBrace : char ≠ '\x7b')
      (same : bare (char :: rest) = char :: rest)
      (behind : ∃ first others,
        elementsFrom depth (char :: piece) rest = ((char :: piece).reverse ++ first) :: others ∧
          first <+: rest ∧ bare first = first ∧ ∀ element ∈ others, bare element = element) :
      ∃ first others,
        elementsFrom depth (char :: piece) rest = (piece.reverse ++ first) :: others ∧
          first <+: char :: rest ∧ bare first = first ∧
            ∀ element ∈ others, bare element = element := by
    obtain ⟨first, others, divided, front, firstBare, othersBare⟩ := behind
    refine ⟨char :: first, others, by rw [divided]; simp, ?_, ?_, othersBare⟩
    · exact List.cons_prefix_cons.mpr ⟨rfl, front⟩
    · have noComment : ¬ (char = '-' ∧ first.head? = some '-') := by
        rintro ⟨minus, follows⟩
        refine no_comment_of_bare same ⟨minus, ?_⟩
        obtain ⟨more, rfl⟩ := front
        rw [List.head?_append, follows]
        rfl
      rw [bare_step noBrace noComment, firstBare]
  fun_induction elementsFrom depth piece text with
  | case1 => exact ⟨[], [], by simp, List.nil_prefix, bare_nil, by simp⟩
  | case2 depth piece rest interior after found inductionHypothesis =>
      have split := textInterior_split found
      have afterBare : bare after = after := by
        rw [bare_text found, split] at same
        simpa using same
      obtain ⟨first, others, divided, front, firstBare, othersBare⟩ := inductionHypothesis afterBare
      refine ⟨'\x7b' :: interior ++ '\x7d' :: first, others, by rw [divided]; simp, ?_, ?_,
        othersBare⟩
      · obtain ⟨more, rfl⟩ := front
        rw [split]
        exact ⟨more, by simp⟩
      · rw [bare_closed (closed_of_textInterior found), firstBare]
  | case3 depth piece rest notFound =>
      exact ⟨'\x7b' :: rest, [], rfl, List.prefix_rfl, bare_unclosed notFound, by simp⟩
  | case4 depth piece char rest noBrace _ inductionHypothesis =>
      exact widen noBrace same (inductionHypothesis (bare_tail noBrace same))
  | case5 depth piece char rest noBrace _ _ inductionHypothesis =>
      exact widen noBrace same (inductionHypothesis (bare_tail noBrace same))
  | case6 depth piece char rest _ _ _ comments => exact absurd comments (no_comment_of_bare same)
  | case7 depth piece char rest noBrace _ _ _ separates inductionHypothesis =>
      obtain ⟨first, others, divided, _, firstBare, othersBare⟩ :=
        inductionHypothesis (bare_tail noBrace same)
      refine ⟨[], elementsFrom 0 [] rest, by simp, List.nil_prefix, bare_nil, ?_⟩
      rw [divided]
      rintro element (_ | ⟨_, member⟩)
      · exact firstBare
      · exact othersBare element member
  | case8 depth piece char rest noBrace _ _ _ _ inductionHypothesis =>
      exact widen noBrace same (inductionHypothesis (bare_tail noBrace same))

end Fixity.Syntax
