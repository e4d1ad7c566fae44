import Fixity.Proofs.Comments
import Fixity.Proofs.Wholeness

/-!
Contract: the separators that divide the interior of a list.

Owns:
- `Nested`, the texts in which parentheses and brackets are properly nested, with separators outside
  of them or without;
- `Covered`, the places inside the groups of such a text;
- `Divides`, the places between two pieces of a row;
- that a text nested in this way is divided exactly at the separators outside its groups.

Does not own: the comments of a text, which are gone from the interior of a group.

Main statement: the pieces of a text make up the text, and where parentheses and brackets of a list
are properly nested, a separator divides its interior if and only if it is in no group of it.
-/

namespace Fixity.Syntax

/-! ## Properly nested texts -/

/-- Parentheses and brackets are properly nested outside the text literals, and these are closed.
Unless the text is `separable`, there are no separators outside its groups. -/
inductive Nested : (separable : Bool) → List Char → Prop
  | nil {separable : Bool} : Nested separable []
  | character {separable : Bool} {char : Char} {rest : List Char}
      (plain : char ∉ ['\x7b', '(', '[', ')', ']']) (separates : char = ',' → separable)
      (behind : Nested separable rest) : Nested separable (char :: rest)
  | text {separable : Bool} {content rest : List Char} (paired : Paired content)
      (behind : Nested separable rest) : Nested separable ('\x7b' :: content ++ '\x7d' :: rest)
  | group {separable : Bool} {opener closer : Char} {inner rest : List Char}
      (delimiters : Delimiters opener closer) (inside : Nested true inner)
      (behind : Nested separable rest) : Nested separable (opener :: inner ++ closer :: rest)

/-- The place between two parts of a text is inside a group of it: inside a text literal, or between
parentheses or brackets that stand in no other group. -/
inductive Covered : (before after : List Char) → Prop
  | text {front content content' back : List Char} (before : Nested true front)
      (paired : Paired (content ++ content')) (behind : Nested true back) :
      Covered (front ++ '\x7b' :: content) (content' ++ '\x7d' :: back)
  | group {opener closer : Char} {front inner inner' back : List Char}
      (delimiters : Delimiters opener closer) (before : Nested true front)
      (inside : Nested true (inner ++ inner')) (behind : Nested true back) :
      Covered (front ++ opener :: inner) (inner' ++ closer :: back)

/-- One text leads to where the next one starts. -/
theorem Depth.behind_append (opener closer : Char) (depth : Depth) (text other : List Char) :
    depth.behind opener closer (text ++ other) =
      (depth.behind opener closer text).behind opener closer other :=
  List.foldl_append

namespace Nested

variable {separable : Bool} {text other : List Char}

theorem loosen (nested : Nested separable text) : Nested true text := by
  induction nested with
  | nil => exact .nil
  | character plain _ _ inductionHypothesis =>
      exact .character plain (fun _ => rfl) inductionHypothesis
  | text paired _ inductionHypothesis => exact .text paired inductionHypothesis
  | group delimiters inside _ _ inductionHypothesis =>
      exact .group delimiters inside inductionHypothesis

theorem append (nested : Nested separable text) (nested' : Nested separable other) :
    Nested separable (text ++ other) := by
  induction nested with
  | nil => exact nested'
  | character plain separates _ inductionHypothesis =>
      exact .character plain separates (inductionHypothesis nested')
  | @text separable content rest paired _ inductionHypothesis =>
      have whole := Nested.text paired (inductionHypothesis nested')
      simpa using whole
  | @group separable opener closer inner rest delimiters inside _ _ inductionHypothesis =>
      have whole := Nested.group delimiters inside (inductionHypothesis nested')
      simpa using whole

/-- A text without delimiters is nested. -/
theorem of_plain (plain : ∀ char ∈ text, char ∉ ['\x7b', '(', '[', ')', ']']) :
    Nested true text := by
  induction text with
  | nil => exact .nil
  | cons char rest inductionHypothesis =>
      obtain ⟨first, others⟩ := List.forall_mem_cons.mp plain
      exact .character first (fun _ => rfl) (inductionHypothesis others)

/-- Nested texts with separators between them. -/
theorem intercalate {elements : List (List Char)}
    (nested : ∀ element ∈ elements, Nested false element) :
    Nested true ([','].intercalate elements) := by
  induction elements with
  | nil => exact .nil
  | cons element rest inductionHypothesis =>
      obtain ⟨first, others⟩ := List.forall_mem_cons.mp nested
      obtain _ | ⟨next, rest⟩ := rest
      · simpa using first.loosen
      · rw [List.intercalate_cons_cons, List.append_assoc]
        exact first.loosen.append
          (.character (by decide) (fun _ => rfl) (inductionHypothesis others))

/-- A nested text is made of texts without separators outside their groups. -/
theorem exists_elements (nested : Nested true text) :
    ∃ elements, elements ≠ [] ∧ text = [','].intercalate elements ∧
      ∀ element ∈ elements, Nested false element := by
  -- a text in front of the first element
  have widen {front rest : List Char} (unparted : Nested false front)
      (behind : ∃ elements, elements ≠ [] ∧ rest = [','].intercalate elements ∧
        ∀ element ∈ elements, Nested false element) :
      ∃ elements, elements ≠ [] ∧ front ++ rest = [','].intercalate elements ∧
        ∀ element ∈ elements, Nested false element := by
    obtain ⟨_ | ⟨first, others⟩, inhabited, rfl, each⟩ := behind
    · exact absurd rfl inhabited
    · obtain ⟨here, there⟩ := List.forall_mem_cons.mp each
      refine ⟨(front ++ first) :: others, List.cons_ne_nil _ _, ?_,
        List.forall_mem_cons.mpr ⟨unparted.append here, there⟩⟩
      cases others <;> simp
  generalize same : true = separable at nested
  induction nested with
  | nil => exact ⟨[[]], List.cons_ne_nil _ _, rfl, by simpa using .nil⟩
  | @character separable char rest plain _ _ inductionHypothesis =>
      by_cases separates : char = ','
      · obtain ⟨elements, inhabited, rfl, each⟩ := inductionHypothesis same
        subst separates
        refine ⟨[] :: elements, List.cons_ne_nil _ _, ?_, List.forall_mem_cons.mpr ⟨.nil, each⟩⟩
        rw [List.intercalate_cons_of_ne_nil inhabited]
        rfl
      · exact widen (.character plain (absurd · separates) .nil) (inductionHypothesis same)
  | @text separable content rest paired _ inductionHypothesis =>
      have whole := widen (.text paired .nil) (inductionHypothesis same)
      simpa using whole
  | @group separable opener closer inner rest delimiters inside _ _ inductionHypothesis =>
      have whole := widen (.group delimiters inside .nil) (inductionHypothesis same)
      simpa using whole

/-! ## Depths in nested texts -/

section Depths

variable {opener closer : Char} (counted : Delimiters opener closer)
include counted

private theorem next_plain {char : Char} (plain : char ∉ ['\x7b', '(', '[', ')', ']'])
    (groups : Int) :
    (Depth.mk groups 0 false).next opener closer char = ⟨groups, 0, false⟩ := by
  simp only [List.mem_cons, List.not_mem_nil, or_false, not_or] at plain
  rcases counted with ⟨rfl, rfl⟩ | ⟨rfl, rfl⟩ <;> simp [Depth.next, plain]

private theorem next_opener (groups : Int) :
    (Depth.mk groups 0 false).next opener closer opener = ⟨groups + 1, 0, false⟩ := by
  rcases counted with ⟨rfl, rfl⟩ | ⟨rfl, rfl⟩ <;> simp [Depth.next]

private theorem next_closer (groups : Int) :
    (Depth.mk groups 0 false).next opener closer closer = ⟨groups - 1, 0, false⟩ := by
  rcases counted with ⟨rfl, rfl⟩ | ⟨rfl, rfl⟩ <;> simp [Depth.next]

/-- Other delimiters than those that are counted mean nothing. -/
private theorem same_or_uncounted {opener' closer' : Char}
    (delimiters : Delimiters opener' closer') :
    (opener' = opener ∧ closer' = closer) ∨
      (opener' ∉ ['\x7b', opener, closer] ∧ closer' ∉ ['\x7b', opener, closer]) := by
  rcases counted with ⟨rfl, rfl⟩ | ⟨rfl, rfl⟩ <;>
    rcases delimiters with ⟨rfl, rfl⟩ | ⟨rfl, rfl⟩ <;> decide

omit counted in
private theorem next_uncounted {char : Char} (uncounted : char ∉ ['\x7b', opener, closer])
    (groups : Int) :
    (Depth.mk groups 0 false).next opener closer char = ⟨groups, 0, false⟩ := by
  simp only [List.mem_cons, List.not_mem_nil, or_false, not_or] at uncounted
  simp [Depth.next, uncounted]

/-- Inside a group, a nested text leads back to where it starts and leaves the group open. -/
theorem isOpen (nested : Nested separable text) {groups : Int} (inGroup : 0 < groups) :
    Depth.Open opener closer ⟨groups, 0, false⟩ text ⟨groups, 0, false⟩ := by
  have still {groups : Int} (inGroup : 0 < groups) : ¬ (Depth.mk groups 0 false).Balanced :=
    fun balanced => by
      have none : groups = 0 := balanced.1
      omega
  induction nested generalizing groups with
  | nil => exact .nil _
  | character plain _ _ inductionHypothesis =>
      exact (Depth.Open.one (next_plain counted plain groups) (still inGroup)).append
        (inductionHypothesis inGroup)
  | text paired _ inductionHypothesis =>
      have whole := (Depth.open_literal paired inGroup).append (inductionHypothesis inGroup)
      simpa using whole
  | @group _ opener' closer' inner rest delimiters _ _ insideHypothesis behindHypothesis =>
      have whole : Depth.Open opener closer ⟨groups, 0, false⟩
          ([opener'] ++ inner ++ [closer'] ++ rest) ⟨groups, 0, false⟩ := by
        refine .append ?_ (behindHypothesis inGroup)
        obtain ⟨rfl, rfl⟩ | ⟨uncounted, uncounted'⟩ := same_or_uncounted counted delimiters
        · have deeper : 0 < groups + 1 := by omega
          have closes := next_closer counted (groups + 1)
          rw [Int.add_sub_cancel] at closes
          exact ((Depth.Open.one (next_opener counted groups) (still deeper)).append
            (insideHypothesis deeper)).append (.one closes (still inGroup))
        · exact ((Depth.Open.one (next_uncounted uncounted groups) (still inGroup)).append
            (insideHypothesis inGroup)).append
              (.one (next_uncounted uncounted' groups) (still inGroup))
      simpa using whole

/-- Outside all groups, a nested text leads back to where it starts. -/
theorem depth_behind (nested : Nested separable text) :
    Depth.outside.behind opener closer text = Depth.outside := by
  induction nested with
  | nil => rfl
  | @character _ char rest plain _ _ inductionHypothesis =>
      have stays : Depth.outside.next opener closer char = .outside := next_plain counted plain 0
      show (Depth.outside.next opener closer char).behind opener closer rest = _
      rw [stays, inductionHypothesis]
  | @text _ content rest paired _ inductionHypothesis =>
      have inside : (Depth.mk 0 1 false).behind opener closer content = ⟨0, 1, false⟩ :=
        (Depth.open_of_paired paired 0 Int.zero_lt_one).behind
      show (Depth.mk 0 1 false).behind opener closer (content ++ '\x7d' :: rest) = _
      rw [Depth.behind_append, inside]
      exact inductionHypothesis
  | @group _ opener' closer' inner rest delimiters nestedInside _ insideHypothesis
      behindHypothesis =>
      show (Depth.outside.next opener closer opener').behind opener closer
        (inner ++ closer' :: rest) = _
      rw [Depth.behind_append]
      show (((Depth.outside.next opener closer opener').behind opener closer inner).next opener
        closer closer').behind opener closer rest = _
      obtain ⟨rfl, rfl⟩ | ⟨uncounted, uncounted'⟩ := same_or_uncounted counted delimiters
      · have opens : Depth.outside.next opener' closer' opener' = ⟨1, 0, false⟩ :=
          next_opener counted 0
        have closes : (Depth.mk 1 0 false).next opener' closer' closer' = .outside :=
          next_closer counted 1
        rw [opens, (nestedInside.isOpen counted Int.zero_lt_one).behind, closes, behindHypothesis]
      · have opens : Depth.outside.next opener closer opener' = .outside :=
          next_uncounted uncounted 0
        have closes : Depth.outside.next opener closer closer' = .outside :=
          next_uncounted uncounted' 0
        rw [opens, insideHypothesis, closes, behindHypothesis]

end Depths

end Nested

/-! ## Places inside groups -/

/-- Something is open in front of a place inside a group, so the text up to it is not nested. -/
theorem Covered.unnested {before after : List Char} (covered : Covered before after) :
    ¬ Nested true before := by
  -- the text from where the group starts leaves something open
  have unbalanced {opener closer : Char} (counted : Delimiters opener closer)
      {front text whole : List Char} {depth : Depth} (nestedFront : Nested true front)
      (through : Depth.Open opener closer .outside whole depth) (isFront : text <+: whole)
      (inhabited : text ≠ []) : ¬ Nested true (front ++ text) := by
    intro nested
    refine through.front isFront inhabited ?_
    have back := nested.depth_behind counted
    rw [Depth.behind_append, nestedFront.depth_behind counted] at back
    rw [back]
    exact ⟨rfl, rfl⟩
  cases covered with
  | @text front content content' back nestedFront paired _ =>
      have opens : Depth.Open '(' ')' .outside ['\x7b'] ⟨0, 1, false⟩ :=
        .one rfl (by simp [Depth.Balanced])
      exact unbalanced (.inl ⟨rfl, rfl⟩) nestedFront
        (opens.append (Depth.open_of_paired paired 0 Int.zero_lt_one)) ⟨content', rfl⟩
        (List.cons_ne_nil _ _)
  | @group opener closer front inner inner' back delimiters nestedFront inside _ =>
      have opens : Depth.Open opener closer .outside [opener] ⟨1, 0, false⟩ :=
        .one (Nested.next_opener delimiters 0) (by simp [Depth.Balanced])
      exact unbalanced delimiters nestedFront
        (opens.append (inside.isOpen delimiters Int.zero_lt_one)) ⟨inner', rfl⟩
        (List.cons_ne_nil _ _)

/-- A place stays inside its group behind another text. -/
theorem Covered.behind {front before after : List Char} (nested : Nested true front)
    (covered : Covered before after) : Covered (front ++ before) after := by
  cases covered with
  | text nestedFront paired nestedBack =>
      rw [← List.append_assoc]
      exact .text (nested.append nestedFront) paired nestedBack
  | group delimiters nestedFront inside nestedBack =>
      rw [← List.append_assoc]
      exact .group delimiters (nested.append nestedFront) inside nestedBack

/-- A separator behind the opening delimiter of a group is inside the group or behind it. -/
private theorem inside_or_behind {opener closer : Char} {inner rest before after : List Char}
    (noOpener : opener ≠ ',') (noCloser : closer ≠ ',')
    (same : opener :: inner ++ closer :: rest = before ++ ',' :: after) :
    (∃ front back, inner = front ++ ',' :: back ∧ before = opener :: front ∧
        after = back ++ closer :: rest) ∨
      ∃ front, before = opener :: inner ++ [closer] ++ front ∧ rest = front ++ ',' :: after := by
  obtain _ | ⟨first, front⟩ := before
  · exact absurd (List.cons.inj same).1 noOpener
  · obtain ⟨rfl, tails⟩ := List.cons.inj same
    obtain ⟨more, rfl, ends⟩ | ⟨more, rfl, ends⟩ := List.append_eq_append_iff.mp tails
    · obtain _ | ⟨first, more⟩ := more
      · exact absurd (List.cons.inj ends).1 noCloser
      · obtain ⟨rfl, rfl⟩ := List.cons.inj ends
        exact .inr ⟨more, by simp, rfl⟩
    · obtain _ | ⟨first, more⟩ := more
      · exact absurd (List.cons.inj ends).1.symm noCloser
      · obtain ⟨rfl, rfl⟩ := List.cons.inj ends
        exact .inl ⟨front, more, rfl, rfl, rfl⟩

/-- A separator is inside a group or between two nested texts. -/
theorem Nested.covered_or_parts {separable : Bool} {whole before after : List Char}
    (nested : Nested separable whole) (same : whole = before ++ ',' :: after) :
    Covered before (',' :: after) ∨ (Nested true before ∧ Nested true after) := by
  -- the separator is behind a nested text
  have behind {front before : List Char} (nestedFront : Nested true front)
      (there : Covered before (',' :: after) ∨ (Nested true before ∧ Nested true after)) :
      Covered (front ++ before) (',' :: after) ∨
        (Nested true (front ++ before) ∧ Nested true after) :=
    there.imp (.behind nestedFront) (.imp_left nestedFront.append)
  induction nested generalizing before with
  | nil => simp at same
  | @character _ char rest plain _ behindNested inductionHypothesis =>
      obtain _ | ⟨first, before⟩ := before
      · obtain ⟨_, rfl⟩ := List.cons.inj same
        exact .inr ⟨.nil, behindNested.loosen⟩
      · obtain ⟨rfl, tails⟩ := List.cons.inj same
        exact behind (.character plain (fun _ => rfl) .nil) (inductionHypothesis tails)
  | @text _ content rest paired behindNested inductionHypothesis =>
      obtain ⟨content, content', rfl, rfl, rfl⟩ | ⟨front, rfl, tails⟩ :=
        inside_or_behind (by decide) (by decide) same
      · exact .inl (.text .nil paired behindNested.loosen)
      · exact behind (.text paired .nil) (inductionHypothesis tails)
  | @group _ opener closer inner rest delimiters inside behindNested _ inductionHypothesis =>
      have noSeparator : opener ≠ ',' ∧ closer ≠ ',' := by
        rcases delimiters with ⟨rfl, rfl⟩ | ⟨rfl, rfl⟩ <;> decide
      obtain ⟨inner, inner', rfl, rfl, rfl⟩ | ⟨front, rfl, tails⟩ :=
        inside_or_behind noSeparator.1 noSeparator.2 same
      · exact .inl (.group delimiters .nil inside behindNested.loosen)
      · exact behind (.group delimiters inside .nil) (inductionHypothesis tails)

/-! ## Dividing a nested text -/

section Dividing

variable {separable : Bool} {text : List Char}

/-- Behind a text literal, a bare text is bare. -/
private theorem bare_behind_literal {content rest : List Char} (paired : Paired content)
    (same : bare ('\x7b' :: content ++ '\x7d' :: rest) = '\x7b' :: content ++ '\x7d' :: rest) :
    bare rest = rest := by
  rw [bare_closed paired.closed] at same
  simpa using same

/-- Behind a nested text, a bare text is bare. -/
theorem Nested.bare_behind {rest : List Char} (nested : Nested separable text)
    (same : bare (text ++ rest) = text ++ rest) : bare rest = rest := by
  induction nested generalizing rest with
  | nil => exact same
  | character plain _ _ inductionHypothesis =>
      exact inductionHypothesis (bare_tail (fun brace => plain (by simp [brace])) same)
  | @text _ content behindText paired _ inductionHypothesis =>
      rw [List.append_assoc, List.cons_append] at same
      exact inductionHypothesis (bare_behind_literal paired same)
  | @group _ opener closer inner behindGroup delimiters _ _ insideHypothesis behindHypothesis =>
      have noBrace : opener ≠ '\x7b' ∧ closer ≠ '\x7b' := by
        rcases delimiters with ⟨rfl, rfl⟩ | ⟨rfl, rfl⟩ <;> decide
      rw [List.append_assoc, List.cons_append, List.cons_append] at same
      exact behindHypothesis (bare_tail noBrace.2 (insideHypothesis (bare_tail noBrace.1 same)))

/-- A nested text is not divided where a group is open around it or it has no separators outside its
groups. -/
theorem elementsFrom_nested {rest : List Char} (nested : Nested separable text) {depth : Nat}
    (inside : separable → 0 < depth) (same : bare (text ++ rest) = text ++ rest)
    (piece : List Char) :
    elementsFrom depth piece (text ++ rest) = elementsFrom depth (text.reverse ++ piece) rest := by
  induction nested generalizing rest depth piece with
  | nil => rfl
  | @character _ char behind plain separates _ inductionHypothesis =>
      have noSplit : ¬ (char = ',' ∧ depth = 0) := by
        rintro ⟨rfl, rfl⟩
        exact absurd (inside (separates rfl)) (Nat.lt_irrefl 0)
      have behindBare := bare_tail (fun brace => plain (by simp [brace])) same
      have noComment : ¬ (char = '-' ∧ (behind ++ rest).head? = some '-') :=
        no_comment_of_bare same
      rw [List.cons_append, elementsFrom_plain plain noComment noSplit,
        inductionHypothesis inside behindBare]
      simp
  | @text _ content behind paired _ inductionHypothesis =>
      rw [List.append_assoc, List.cons_append] at same ⊢
      have behindBare := bare_behind_literal paired same
      calc elementsFrom depth piece ('\x7b' :: (content ++ '\x7d' :: (behind ++ rest)))
          = elementsFrom depth (('\x7b' :: content ++ ['\x7d']).reverse ++ piece)
              (behind ++ rest) := elementsFrom_text (paired.closed.textInterior _)
        _ = elementsFrom depth (('\x7b' :: content ++ '\x7d' :: behind).reverse ++ piece) rest := by
            rw [inductionHypothesis inside behindBare]
            simp
  | @group _ opener closer inner behind delimiters nestedInside _ insideHypothesis
      behindHypothesis =>
      have opens : opener = '(' ∨ opener = '[' := by
        rcases delimiters with ⟨rfl, rfl⟩ | ⟨rfl, rfl⟩ <;> simp
      have closes : closer = ')' ∨ closer = ']' := by
        rcases delimiters with ⟨rfl, rfl⟩ | ⟨rfl, rfl⟩ <;> simp
      have noBrace : opener ≠ '\x7b' ∧ closer ≠ '\x7b' := by
        rcases delimiters with ⟨rfl, rfl⟩ | ⟨rfl, rfl⟩ <;> decide
      rw [List.append_assoc, List.cons_append, List.cons_append] at same ⊢
      have innerBare := bare_tail noBrace.1 same
      have behindBare := bare_tail noBrace.2 (nestedInside.bare_behind innerBare)
      calc elementsFrom depth piece (opener :: (inner ++ closer :: (behind ++ rest)))
          = elementsFrom (depth + 1) (opener :: piece) (inner ++ closer :: (behind ++ rest)) :=
            elementsFrom_opener opens
        _ = elementsFrom (depth + 1) (inner.reverse ++ opener :: piece)
              (closer :: (behind ++ rest)) := insideHypothesis (fun _ => by omega) innerBare _
        _ = elementsFrom depth (closer :: (inner.reverse ++ opener :: piece)) (behind ++ rest) :=
            elementsFrom_closer closes
        _ = elementsFrom depth ((opener :: inner ++ closer :: behind).reverse ++ piece) rest := by
            rw [behindHypothesis inside behindBare]
            simp

/-- Nested texts without separators outside their groups are the pieces they are divided into. -/
theorem splitElements_nested {elements : List (List Char)} (inhabited : elements ≠ [])
    (nested : ∀ element ∈ elements, Nested false element)
    (same : bare ([','].intercalate elements) = [','].intercalate elements) :
    splitElements ([','].intercalate elements) = elements := by
  unfold splitElements
  induction elements with
  | nil => exact absurd rfl inhabited
  | cons element rest inductionHypothesis =>
      obtain ⟨first, others⟩ := List.forall_mem_cons.mp nested
      obtain _ | ⟨next, rest⟩ := rest
      · have whole :
            elementsFrom 0 [] (element ++ []) = elementsFrom 0 (element.reverse ++ []) [] :=
          elementsFrom_nested first (by simp) (by simpa using same) []
        rw [List.append_nil, List.append_nil] at whole
        rw [List.intercalate_singleton, whole, elementsFrom, List.reverse_reverse]
      · rw [List.intercalate_cons_cons, List.append_assoc] at same ⊢
        have othersBare := bare_tail (by decide) (first.bare_behind same)
        rw [elementsFrom_nested first (by simp) same, List.singleton_append,
          elementsFrom_separator, inductionHypothesis (List.cons_ne_nil _ _) others othersBare]
        simp

end Dividing

/-! ## The separators of a list -/

/-- Two parts of a text with a separator between them are made of the pieces in front of the
separator and of those behind it. -/
def Divides (pieces : List (List Char)) (before after : List Char) : Prop :=
  ∃ front back, pieces = front ++ back ∧ front ≠ [] ∧ back ≠ [] ∧
    before = [','].intercalate front ∧ after = [','].intercalate back

/-- The interior of a list has no comments. -/
theorem bare_of_list {isGlyph : Char → Bool} {text : List Char} {statements : List Statement}
    (ok : tokenize isGlyph text = .ok statements) :
    ∀ statement ∈ statements, ∀ token ∈ statement.tokens, ∀ interior,
      token = .list interior → bare interior = interior := by
  refine statementsFrom_tokens (fun char rest after token found interior isList => ?_) (by simp)
    (tokenize_eq_ok.mp ok)
  subst isList
  cases reads_of_lexeme found with
  | list found => exact bare_interior (by decide) found

/-- Two rows of texts, each with separators between them, and a separator between the rows. -/
private theorem intercalate_rows {front back : List (List Char)} (inhabited : front ≠ [])
    (inhabited' : back ≠ []) :
    [','].intercalate (front ++ back) =
      [','].intercalate front ++ ',' :: [','].intercalate back := by
  induction front with
  | nil => exact absurd rfl inhabited
  | cons element rest inductionHypothesis =>
      rw [List.cons_append, List.intercalate_cons_of_ne_nil (by simp [inhabited'])]
      obtain _ | ⟨next, rest⟩ := rest
      · simp
      · rw [inductionHypothesis (List.cons_ne_nil _ _), List.intercalate_cons_cons]
        simp

/-- No separator stands outside the groups of a piece. -/
theorem Nested.pieces {interior : List Char} (nested : Nested true interior)
    (same : bare interior = interior) :
    ∀ element ∈ splitElements interior, Nested false element := by
  obtain ⟨elements, inhabited, rfl, each⟩ := nested.exists_elements
  rwa [splitElements_nested inhabited each same]

/-- The separators between the pieces are the ones that are in no group. -/
theorem Nested.divides_iff {interior before after : List Char} (nested : Nested true interior)
    (same : bare interior = interior) (place : interior = before ++ ',' :: after) :
    Divides (splitElements interior) before after ↔ ¬ Covered before (',' :: after) := by
  constructor
  · rintro ⟨front, back, pieces, _, _, rfl, rfl⟩ covered
    refine covered.unnested (.intercalate fun element member => ?_)
    exact nested.pieces same element (pieces ▸ List.mem_append_left back member)
  · intro uncovered
    obtain ⟨nestedBefore, nestedAfter⟩ := (nested.covered_or_parts place).resolve_left uncovered
    obtain ⟨front, inhabited, rfl, each⟩ := nestedBefore.exists_elements
    obtain ⟨back, inhabited', rfl, each'⟩ := nestedAfter.exists_elements
    rw [← intercalate_rows inhabited inhabited'] at place
    subst place
    refine ⟨front, back, splitElements_nested (by simp [inhabited]) ?_ same, inhabited, inhabited',
      rfl, rfl⟩
    exact List.forall_mem_append.mpr ⟨each, each'⟩

/-- The pieces of any text, with separators between them, make up the text. If the parentheses and
brackets of a list are properly nested, exactly the separators outside all of its groups divide its
interior, and no piece has a separator outside its own groups. -/
theorem splitElements_exact :
    (∀ body, [','].intercalate (splitElements body) = body) ∧
      ∀ isGlyph text statements, tokenize isGlyph text = .ok statements →
        ∀ statement ∈ statements, ∀ interior, .list interior ∈ statement.tokens →
          Nested true interior →
            (∀ before after, interior = before ++ ',' :: after →
              (Divides (splitElements interior) before after ↔ ¬ Covered before (',' :: after))) ∧
            ∀ element ∈ splitElements interior, Nested false element := by
  refine ⟨fun body => ?_, fun isGlyph text statements ok statement member interior isToken
    nested => ?_⟩
  · rw [splitElements, intercalate_elementsFrom]
    rfl
  · have same := bare_of_list ok statement member _ isToken interior rfl
    exact ⟨fun before after => nested.divides_iff same, nested.pieces same⟩

/-- A list of a word, an expression and a text. The first separator divides it, those inside the
expression and the text do not. -/
theorem splitElements_exact_mixed :
    ∃ statements interior, interior = "a, (b, c), \x7bd, e\x7d".toList ∧
      tokenize (fun _ => false) ('[' :: interior ++ [']']) = .ok statements ∧
      (∃ statement ∈ statements, .list interior ∈ statement.tokens) ∧ Nested true interior ∧
      [','].intercalate (splitElements interior) = interior ∧
      ¬ Covered ['a'] (", (b, c), \x7bd, e\x7d".toList) ∧
      ¬ Divides (splitElements interior) "a, (b".toList " c), \x7bd, e\x7d".toList ∧
      ¬ Divides (splitElements interior) "a, (b, c), \x7bd".toList " e\x7d".toList ∧
      ∀ element ∈ splitElements interior, Nested false element := by
  have parentheses : Delimiters '(' ')' := .inl ⟨rfl, rfl⟩
  have paired : Paired ['d', ',', ' ', 'e'] := closed_iff_paired.mp (closed_of_plain (by simp))
  have word : Nested true ['a', ',', ' '] := .of_plain (by simp)
  have between : Nested true [',', ' '] := .of_plain (by simp)
  have inside : Nested true ['b', ',', ' ', 'c'] := .of_plain (by simp)
  have front : Nested true "a, (b, c), ".toList :=
    (word.append (.group parentheses inside .nil)).append between
  have nested : Nested true "a, (b, c), \x7bd, e\x7d".toList := front.append (.text paired .nil)
  have ok : tokenize (fun _ => false) ('[' :: "a, (b, c), \x7bd, e\x7d".toList ++ [']']) =
      .ok [⟨[.list "a, (b, c), \x7bd, e\x7d".toList], []⟩] := by decide +kernel
  have isToken : ∃ statement ∈ [Statement.mk [.list "a, (b, c), \x7bd, e\x7d".toList] []],
      .list "a, (b, c), \x7bd, e\x7d".toList ∈ statement.tokens :=
    ⟨_, List.mem_cons_self, List.mem_cons_self⟩
  obtain ⟨joined, exact⟩ := splitElements_exact
  obtain ⟨statement, member, token⟩ := isToken
  obtain ⟨divides, pieces⟩ := exact _ _ _ ok statement member _ token nested
  have first : Divides (splitElements "a, (b, c), \x7bd, e\x7d".toList) ['a']
      " (b, c), \x7bd, e\x7d".toList :=
    ⟨[['a']], [" (b, c)".toList, " \x7bd, e\x7d".toList], by decide +kernel, by simp, by simp, rfl,
      rfl⟩
  have inExpression : Covered "a, (b".toList ", c), \x7bd, e\x7d".toList :=
    @Covered.group _ _ _ ['b'] [',', ' ', 'c'] _ parentheses word inside
      (between.append (.text paired .nil))
  have inText : Covered "a, (b, c), \x7bd".toList ", e\x7d".toList :=
    @Covered.text _ ['d'] [',', ' ', 'e'] _ front paired .nil
  exact ⟨_, _, rfl, ok, ⟨statement, member, token⟩, nested, joined _, (divides _ _ rfl).mp first,
    fun divided => (divides _ _ rfl).mp divided inExpression,
    fun divided => (divides _ _ rfl).mp divided inText, pieces⟩

end Fixity.Syntax
