import Mathlib.Data.List.Infix
import Fixity.Syntax.Parser

/-!
Contract: texts that the scanners of groups and lists pass over as a whole.

Owns:
- `Passed`, the texts that the scanners of groups and lists pass over: scanning goes on behind them
  as if they were not there;
- `Balanced`, those that the scanner of text literals passes over as well, without a comment in
  front;
- their closure under concatenation and under delimiters around a text;
- plain texts, which hold no delimiter and no comment;
- the interiors of text literals, which end at the same brace wherever they stand.

Does not own: lexemes.
-/

namespace Fixity.Syntax

/-- A scanned text with another one in front of what was found. -/
def keep (text : List Char) (found : List Char × List Char) : List Char × List Char :=
  (text ++ found.1, found.2)

theorem map_keep_keep (text other : List Char) (found : Option (List Char × List Char)) :
    (found.map (keep other)).map (keep text) = found.map (keep (text ++ other)) := by
  cases found with
  | none => rfl
  | some found =>
      show some (keep text (keep other found)) = some (keep (text ++ other) found)
      unfold keep
      rw [List.append_assoc]

theorem map_keep_inj {front : List Char} {found other : Option (List Char × List Char)}
    (same : found.map (keep front) = other.map (keep front)) : found = other := by
  refine Option.map_injective ?_ same
  rintro ⟨inner, after⟩ ⟨inner', after'⟩ equal
  rw [keep, keep, Prod.mk.injEq] at equal
  exact Prod.ext (List.append_cancel_left equal.1) equal.2

theorem of_map_keep (front : List Char) {inner after : List Char}
    {found : Option (List Char × List Char)}
    (equal : found.map (keep front) = some (inner, after)) :
    ∃ behind, found = some (behind, after) ∧ inner = front ++ behind := by
  obtain ⟨⟨behind, after'⟩, rfl, same⟩ := Option.map_eq_some_iff.mp equal
  cases same
  exact ⟨behind, rfl, rfl⟩

/-! ## Steps of the scanners -/

theorem textInterior_plain {char : Char} (plain : char ∉ ['\\', '\x7b', '\x7d']) (depth : Nat)
    (rest : List Char) :
    textInterior depth (char :: rest) = (textInterior depth rest).map (keep [char]) := by
  simp only [List.mem_cons, List.not_mem_nil, or_false, not_or] at plain
  rw [textInterior]
  · rfl
  all_goals simp [plain]

/-- A character that none of the scanner's own cases is about means nothing to it. -/
theorem plain_of_other {char : Char} {rest : List Char}
    (noEscape : char = '\\' → rest = [] → False)
    (noEscaped : ∀ next others, char = '\\' → rest = next :: others → False)
    (noOpener : char ≠ '\x7b') (noCloser : char ≠ '\x7d') : char ∉ ['\\', '\x7b', '\x7d'] := by
  simp only [List.mem_cons, List.not_mem_nil, or_false, not_or]
  refine ⟨fun escape => ?_, noOpener, noCloser⟩
  cases rest with
  | nil => exact noEscape escape rfl
  | cons next others => exact noEscaped next others escape rfl

theorem textInterior_opener (depth : Nat) (rest : List Char) :
    textInterior depth ('\x7b' :: rest) = (textInterior (depth + 1) rest).map (keep ['\x7b']) := by
  rw [textInterior]
  rfl

theorem textInterior_closer (depth : Nat) (rest : List Char) :
    textInterior (depth + 1) ('\x7d' :: rest) = (textInterior depth rest).map (keep ['\x7d']) := by
  rw [textInterior]
  rfl

theorem textInterior_end (rest : List Char) :
    textInterior 0 ('\x7d' :: rest) = some ([], rest) := by
  rw [textInterior]

theorem textInterior_escape (depth : Nat) (char : Char) (rest : List Char) :
    textInterior depth ('\\' :: char :: rest) =
      (textInterior depth rest).map (keep ['\\', char]) := by
  rw [textInterior]
  rfl

section Steps

variable {opener closer char : Char} {depth : Nat} {rest : List Char}

theorem groupInterior_text {literal after : List Char}
    (found : textInterior 0 rest = some (literal, after)) :
    groupInterior opener closer depth ('\x7b' :: rest) =
      (groupInterior opener closer depth after).map
        (keep ('\x7b' :: literal ++ ['\x7d'])) := by
  rw [groupInterior, if_pos rfl]
  split
  · next notFound => rw [found] at notFound; cases notFound
  · next literal' after' found' =>
    rw [found] at found'
    cases found'
    congr 1
    funext found
    simp [keep]

theorem groupInterior_comment (follows : rest.head? = some '-') :
    groupInterior opener closer depth ('-' :: rest) =
      groupInterior opener closer depth (rest.dropWhile (· ≠ '\n')) := by
  rw [groupInterior, if_neg (by decide), if_pos ⟨rfl, follows⟩]

theorem groupInterior_end (noBrace : closer ≠ '\x7b') (noMinus : closer ≠ '-') :
    groupInterior opener closer 0 (closer :: rest) = some ([], rest) := by
  rw [groupInterior, if_neg noBrace, if_neg (by simp [noMinus]), if_pos ⟨rfl, rfl⟩]

theorem groupInterior_step (noBrace : char ≠ '\x7b')
    (noComment : ¬ (char = '-' ∧ rest.head? = some '-')) (inside : ¬ (char = closer ∧ depth = 0)) :
    groupInterior opener closer depth (char :: rest) =
      (groupInterior opener closer (nesting opener closer depth char) rest).map (keep [char]) := by
  rw [groupInterior, if_neg noBrace, if_neg noComment, if_neg inside]
  rfl

variable {piece : List Char}

theorem elementsFrom_text {literal after : List Char}
    (found : textInterior 0 rest = some (literal, after)) :
    elementsFrom depth piece ('\x7b' :: rest) =
      elementsFrom depth (('\x7b' :: literal ++ ['\x7d']).reverse ++ piece) after := by
  rw [elementsFrom, if_pos rfl]
  split
  · next literal' after' found' =>
    rw [found] at found'
    cases found'
    simp
  · next notFound => rw [found] at notFound; cases notFound

theorem elementsFrom_opener (opens : char = '(' ∨ char = '[') :
    elementsFrom depth piece (char :: rest) = elementsFrom (depth + 1) (char :: piece) rest := by
  have noBrace : char ≠ '\x7b' := by rcases opens with rfl | rfl <;> decide
  rw [elementsFrom, if_neg noBrace, if_pos opens]

theorem elementsFrom_closer (closes : char = ')' ∨ char = ']') :
    elementsFrom depth piece (char :: rest) = elementsFrom (depth - 1) (char :: piece) rest := by
  have noBrace : char ≠ '\x7b' := by rcases closes with rfl | rfl <;> decide
  have noOpener : ¬ (char = '(' ∨ char = '[') := by rcases closes with rfl | rfl <;> decide
  rw [elementsFrom, if_neg noBrace, if_neg noOpener, if_pos closes]

theorem elementsFrom_separator : elementsFrom 0 piece (',' :: rest) =
    piece.reverse :: elementsFrom 0 [] rest := by
  rw [elementsFrom, if_neg (by decide), if_neg (by decide), if_neg (by decide),
    if_neg (by simp), if_pos ⟨rfl, rfl⟩]

theorem elementsFrom_plain (plain : char ∉ ['\x7b', '(', '[', ')', ']'])
    (noComment : ¬ (char = '-' ∧ rest.head? = some '-')) (inside : ¬ (char = ',' ∧ depth = 0)) :
    elementsFrom depth piece (char :: rest) = elementsFrom depth (char :: piece) rest := by
  simp only [List.mem_cons, List.not_mem_nil, or_false, not_or] at plain
  rw [elementsFrom, if_neg plain.1, if_neg (by simp [plain]), if_neg (by simp [plain]),
    if_neg noComment, if_neg inside]

end Steps

/-! ## Texts inside braces -/

/-- The scanner of text literals passes over a text and ends where it would have ended anyway. -/
def Closed (text : List Char) : Prop :=
  ∀ depth rest, textInterior depth (text ++ rest) = (textInterior depth rest).map (keep text)

/-- What stands in front of a closing brace is passed over wherever it stands. -/
private theorem textInterior_again {depth : Nat} {text inner after : List Char}
    (found : textInterior depth text = some (inner, after)) (deeper : Nat) (rest : List Char) :
    textInterior (deeper + depth) (inner ++ rest) =
      (textInterior deeper rest).map (keep inner) := by
  fun_induction textInterior depth text generalizing inner with
  | case1 => cases found
  | case2 => cases found
  | case3 depth char others inductionHypothesis =>
      obtain ⟨behind, inside, rfl⟩ := of_map_keep ['\\', char] found
      rw [List.append_assoc, ← map_keep_keep, ← inductionHypothesis inside]
      exact textInterior_escape _ _ _
  | case4 depth others inductionHypothesis =>
      obtain ⟨behind, inside, rfl⟩ := of_map_keep ['\x7b'] found
      rw [List.append_assoc, ← map_keep_keep, ← inductionHypothesis inside]
      exact textInterior_opener _ _
  | case5 others =>
      cases found
      rw [Nat.add_zero, List.nil_append]
      cases textInterior deeper rest <;> rfl
  | case6 others depth inductionHypothesis =>
      obtain ⟨behind, inside, rfl⟩ := of_map_keep ['\x7d'] found
      rw [List.append_assoc, ← map_keep_keep, ← inductionHypothesis inside]
      exact textInterior_closer _ _
  | case7 depth char others noEscape noEscaped noOpener noCloser inductionHypothesis =>
      have plain := plain_of_other noEscape noEscaped noOpener noCloser
      obtain ⟨behind, inside, rfl⟩ := of_map_keep [char] found
      rw [List.append_assoc, ← map_keep_keep, ← inductionHypothesis inside]
      exact textInterior_plain plain _ _

theorem closed_of_textInterior {text inner after : List Char}
    (found : textInterior 0 text = some (inner, after)) : Closed inner :=
  fun depth rest => textInterior_again found depth rest

/-- What is found in front of a closing brace and what is found behind it make up the text. -/
theorem textInterior_split {depth : Nat} {text inner after : List Char}
    (found : textInterior depth text = some (inner, after)) : text = inner ++ '\x7d' :: after := by
  fun_induction textInterior depth text generalizing inner with
  | case1 => cases found
  | case2 => cases found
  | case3 depth char others inductionHypothesis =>
      obtain ⟨behind, inside, rfl⟩ := of_map_keep ['\\', char] found
      rw [inductionHypothesis inside]
      rfl
  | case4 depth others inductionHypothesis =>
      obtain ⟨behind, inside, rfl⟩ := of_map_keep ['\x7b'] found
      rw [inductionHypothesis inside]
      rfl
  | case5 others =>
      cases found
      rfl
  | case6 others depth inductionHypothesis =>
      obtain ⟨behind, inside, rfl⟩ := of_map_keep ['\x7d'] found
      rw [inductionHypothesis inside]
      rfl
  | case7 depth char others _ _ _ _ inductionHypothesis =>
      obtain ⟨behind, inside, rfl⟩ := of_map_keep [char] found
      rw [inductionHypothesis inside]
      rfl

/-- A closed text ends at the brace behind it. -/
theorem Closed.textInterior {text : List Char} (closed : Closed text) (rest : List Char) :
    textInterior 0 (text ++ '\x7d' :: rest) = some (text, rest) := by
  rw [closed, textInterior_end]
  show some (text ++ [], rest) = some (text, rest)
  rw [List.append_nil]

/-- A text literal ends where it does whatever comes after it. -/
theorem textInterior_append {text inner after : List Char}
    (found : textInterior 0 text = some (inner, after)) (rest : List Char) :
    textInterior 0 (text ++ rest) = some (inner, after ++ rest) := by
  rw [textInterior_split found, List.append_assoc, List.cons_append]
  exact (closed_of_textInterior found).textInterior (after ++ rest)

theorem Closed.braces {text : List Char} (closed : Closed text) :
    Closed ('\x7b' :: text ++ ['\x7d']) := by
  intro depth rest
  calc Syntax.textInterior depth ('\x7b' :: text ++ ['\x7d'] ++ rest)
      = Syntax.textInterior depth ('\x7b' :: (text ++ '\x7d' :: rest)) := by simp
    _ = (Syntax.textInterior (depth + 1) (text ++ '\x7d' :: rest)).map (keep ['\x7b']) :=
        textInterior_opener _ _
    _ = ((Syntax.textInterior depth rest).map (keep (text ++ ['\x7d']))).map (keep ['\x7b']) := by
        rw [closed, textInterior_closer, map_keep_keep text]
    _ = (Syntax.textInterior depth rest).map (keep ('\x7b' :: text ++ ['\x7d'])) :=
        map_keep_keep _ _ _

theorem Closed.append {text other : List Char} (closed : Closed text) (closed' : Closed other) :
    Closed (text ++ other) := by
  intro depth rest
  rw [List.append_assoc, closed, closed', map_keep_keep]

theorem closed_of_plain {text : List Char}
    (plain : ∀ char ∈ text, char ∉ ['\\', '\x7b', '\x7d']) : Closed text := by
  intro depth rest
  induction text with
  | nil => cases found : Syntax.textInterior depth rest <;> simp [found, keep]
  | cons char text inductionHypothesis =>
      rw [List.cons_append, textInterior_plain (plain char List.mem_cons_self),
        inductionHypothesis fun other member => plain other (List.mem_cons_of_mem _ member),
        map_keep_keep]
      rfl

/-! ## Passing over a text -/

/-- The delimiters of an expression or of a list. -/
def Delimiters (opener closer : Char) : Prop :=
  (opener = '(' ∧ closer = ')') ∨ (opener = '[' ∧ closer = ']')

/-- No comment starts where one text meets the next. -/
def Apart (text rest : List Char) : Prop := ¬ (text.getLast? = some '-' ∧ rest.head? = some '-')

theorem Apart.of_head {text rest : List Char} (noMinus : rest.head? ≠ some '-') : Apart text rest :=
  fun meets => noMinus meets.2

theorem Apart.of_last {text rest : List Char} (noMinus : text.getLast? ≠ some '-') :
    Apart text rest :=
  fun meets => noMinus meets.1

/-- The scanners of groups and lists pass over a text, provided no comment starts at its end. At
`least` that many groups must be open around it when a list is divided. -/
structure Passed (least : Nat) (text : List Char) : Prop where
  group : ∀ opener closer, Delimiters opener closer → ∀ depth rest, Apart text rest →
    groupInterior opener closer depth (text ++ rest) =
      (groupInterior opener closer depth rest).map (keep text)
  elements : ∀ depth piece rest, least ≤ depth → Apart text rest →
    elementsFrom depth piece (text ++ rest) = elementsFrom depth (text.reverse ++ piece) rest

variable {least : Nat} {text other : List Char}

theorem Passed.mono {least' : Nat} (passed : Passed least text) (more : least ≤ least') :
    Passed least' text where
  group := passed.group
  elements := fun depth piece rest deep =>
    passed.elements depth piece rest (Nat.le_trans more deep)

theorem Passed.append (passed : Passed least text) (passed' : Passed least other)
    (apart : Apart text other) : Passed least (text ++ other) := by
  have meets : ∀ {rest}, Apart (text ++ other) rest →
      Apart text (other ++ rest) ∧ Apart other rest := by
    intro rest behind
    cases other with
    | nil => exact ⟨by simpa using behind, .of_last (by simp)⟩
    | cons char other => exact ⟨apart, by simpa [Apart, List.getLast?_append] using behind⟩
  constructor
  · intro opener closer delimiters depth rest behind
    rw [List.append_assoc, passed.group opener closer delimiters depth _ (meets behind).1,
      passed'.group opener closer delimiters depth rest (meets behind).2, map_keep_keep]
  · intro depth piece rest deep behind
    rw [List.append_assoc, passed.elements depth piece _ deep (meets behind).1,
      passed'.elements depth _ rest deep (meets behind).2, List.reverse_append, List.append_assoc]

/-- No comment starts in front of a text, unless the text itself starts with one. -/
theorem no_comment_at {char : Char} {rest : List Char}
    (noComment : ¬ ['-', '-'] <+: char :: text) (apart : Apart (char :: text) rest) :
    ¬ (char = '-' ∧ (text ++ rest).head? = some '-') := by
  rintro ⟨rfl, next⟩
  cases text with
  | nil => exact apart ⟨rfl, next⟩
  | cons second text =>
      obtain rfl : second = '-' := Option.some.inj next
      exact noComment ⟨text, rfl⟩

/-- A text without delimiters and comments is passed over; a comma needs a group around it. -/
theorem passed_of_plain (plain : ∀ char ∈ text, char ∉ ['\x7b', '\x7d', '(', ')', '[', ']'])
    (commas : ',' ∈ text → 0 < least) (noComment : ¬ ['-', '-'] <:+: text) :
    Passed least text := by
  have behind : ∀ {char : Char} {text rest : List Char}, Apart (char :: text) rest →
      Apart text rest := by
    intro char text rest apart
    cases text with
    | nil => exact .of_last (by simp)
    | cons second text => simpa [Apart] using apart
  constructor
  · intro opener closer delimiters depth rest apart
    clear commas
    induction text with
    | nil => cases found : groupInterior opener closer depth rest <;> simp [found, keep]
    | cons char text inductionHypothesis =>
        have special := plain char List.mem_cons_self
        simp only [List.mem_cons, List.not_mem_nil, or_false, not_or] at special
        have noOpener : char ≠ opener := by
          rcases delimiters with ⟨rfl, rfl⟩ | ⟨rfl, rfl⟩
          · exact special.2.2.1
          · exact special.2.2.2.2.1
        have noCloser : char ≠ closer := by
          rcases delimiters with ⟨rfl, rfl⟩ | ⟨rfl, rfl⟩
          · exact special.2.2.2.1
          · exact special.2.2.2.2.2
        have sameDepth : nesting opener closer depth char = depth := by
          rw [nesting, if_neg noOpener, if_neg noCloser]
        rw [List.cons_append,
          groupInterior_step special.1 (no_comment_at (noComment ·.isInfix) apart)
            (fun ends => noCloser ends.1), sameDepth,
          inductionHypothesis (fun other member => plain other (List.mem_cons_of_mem _ member))
            (fun inside => noComment (inside.trans (List.suffix_cons char text).isInfix))
            (behind apart),
          map_keep_keep]
        rfl
  · intro depth piece rest deep apart
    induction text generalizing piece with
    | nil => rfl
    | cons char text inductionHypothesis =>
        have special := plain char List.mem_cons_self
        simp only [List.mem_cons, List.not_mem_nil, or_false, not_or] at special
        have inside : ¬ (char = ',' ∧ depth = 0) := by
          rintro ⟨rfl, rfl⟩
          exact absurd (commas List.mem_cons_self) (by omega)
        rw [List.cons_append, elementsFrom_plain (by simp [special])
            (no_comment_at (noComment ·.isInfix) apart) inside,
          inductionHypothesis (fun other member => plain other (List.mem_cons_of_mem _ member))
            (fun member => commas (List.mem_cons_of_mem _ member))
            (fun inside => noComment (inside.trans (List.suffix_cons char text).isInfix)) _
            (behind apart)]
        simp

/-- An expression or a list is passed over if its interior is. -/
theorem Passed.delimited {opener closer : Char} (delimiters : Delimiters opener closer)
    (passed : Passed 1 text) : Passed 0 (opener :: text ++ [closer]) where
  group := by
    intro opener' closer' delimiters' depth rest _
    have opened : groupInterior opener' closer' depth (opener :: (text ++ closer :: rest)) =
        (groupInterior opener' closer' (nesting opener' closer' depth opener)
          (text ++ closer :: rest)).map (keep [opener]) := by
      refine groupInterior_step ?_ ?_ ?_ <;>
        rcases delimiters with ⟨rfl, rfl⟩ | ⟨rfl, rfl⟩ <;>
        rcases delimiters' with ⟨rfl, rfl⟩ | ⟨rfl, rfl⟩ <;> simp
    have inside := passed.group opener' closer' delimiters'
      (nesting opener' closer' depth opener) (closer :: rest) (.of_head (by
        rcases delimiters with ⟨rfl, rfl⟩ | ⟨rfl, rfl⟩ <;> simp))
    have closed : groupInterior opener' closer' (nesting opener' closer' depth opener)
        (closer :: rest) = (groupInterior opener' closer' depth rest).map (keep [closer]) := by
      have back :
          nesting opener' closer' (nesting opener' closer' depth opener) closer = depth := by
        rcases delimiters with ⟨rfl, rfl⟩ | ⟨rfl, rfl⟩ <;>
          rcases delimiters' with ⟨rfl, rfl⟩ | ⟨rfl, rfl⟩ <;> simp [nesting]
      conv => rhs; rw [← back]
      refine groupInterior_step ?_ ?_ ?_ <;>
        rcases delimiters with ⟨rfl, rfl⟩ | ⟨rfl, rfl⟩ <;>
        rcases delimiters' with ⟨rfl, rfl⟩ | ⟨rfl, rfl⟩ <;> simp [nesting]
    calc groupInterior opener' closer' depth (opener :: text ++ [closer] ++ rest)
        = groupInterior opener' closer' depth (opener :: (text ++ closer :: rest)) := by simp
      _ = (groupInterior opener' closer' depth rest).map (keep (opener :: text ++ [closer])) := by
          rw [opened, inside, closed, map_keep_keep, map_keep_keep]
          simp
  elements := by
    intro depth piece rest _ _
    have opens : opener = '(' ∨ opener = '[' := by
      rcases delimiters with ⟨rfl, rfl⟩ | ⟨rfl, rfl⟩ <;> simp
    have closes : closer = ')' ∨ closer = ']' := by
      rcases delimiters with ⟨rfl, rfl⟩ | ⟨rfl, rfl⟩ <;> simp
    have closerHead : (closer :: rest).head? ≠ some '-' := by
      rcases closes with rfl | rfl <;> simp
    calc elementsFrom depth piece (opener :: text ++ [closer] ++ rest)
        = elementsFrom depth piece (opener :: (text ++ closer :: rest)) := by simp
      _ = elementsFrom (depth + 1) (opener :: piece) (text ++ closer :: rest) :=
          elementsFrom_opener opens
      _ = elementsFrom (depth + 1) (text.reverse ++ opener :: piece) (closer :: rest) :=
          passed.elements _ _ _ (by omega) (.of_head closerHead)
      _ = elementsFrom depth (closer :: (text.reverse ++ opener :: piece)) rest :=
          elementsFrom_closer closes
      _ = elementsFrom depth ((opener :: text ++ [closer]).reverse ++ piece) rest := by simp

/-- A closed text in braces is passed over. -/
theorem Closed.passed (closed : Closed text) : Passed 0 ('\x7b' :: text ++ ['\x7d']) where
  group := by
    intro opener closer _ depth rest _
    have whole : groupInterior opener closer depth ('\x7b' :: (text ++ '\x7d' :: rest)) = _ :=
      groupInterior_text (closed.textInterior rest)
    simpa using whole
  elements := by
    intro depth piece rest _ _
    have whole : elementsFrom depth piece ('\x7b' :: (text ++ '\x7d' :: rest)) = _ :=
      elementsFrom_text (closed.textInterior rest)
    simpa using whole

/-- A group whose interior is passed over ends at the delimiter behind it. -/
theorem Passed.groupInterior {opener closer : Char} (delimiters : Delimiters opener closer)
    (passed : Passed 1 text) (rest : List Char) :
    groupInterior opener closer 0 (text ++ closer :: rest) = some (text, rest) := by
  have noBrace : closer ≠ '\x7b' := by rcases delimiters with ⟨_, rfl⟩ | ⟨_, rfl⟩ <;> decide
  have noMinus : closer ≠ '-' := by rcases delimiters with ⟨_, rfl⟩ | ⟨_, rfl⟩ <;> decide
  rw [passed.group opener closer delimiters 0 _ (.of_head (by simpa using noMinus)),
    groupInterior_end noBrace noMinus]
  show some (text ++ [], rest) = some (text, rest)
  rw [List.append_nil]

/-- A list of texts that are passed over divides into them. -/
theorem splitElements_intercalate {elements : List (List Char)} (inhabited : elements ≠ [])
    (passed : ∀ element ∈ elements, Passed 0 element) :
    splitElements ([','].intercalate elements) = elements := by
  unfold splitElements
  induction elements with
  | nil => exact absurd rfl inhabited
  | cons element rest inductionHypothesis =>
      have first := passed element List.mem_cons_self
      cases rest with
      | nil =>
          have whole := first.elements 0 [] [] (Nat.le_refl 0) (.of_head (by simp))
          rw [List.append_nil, List.append_nil] at whole
          rw [List.intercalate_singleton, whole, elementsFrom, List.reverse_reverse]
      | cons next rest =>
          have others := inductionHypothesis (by simp)
            fun other member => passed other (List.mem_cons_of_mem _ member)
          rw [List.intercalate_cons_cons, List.append_assoc,
            first.elements 0 [] _ (Nat.le_refl 0) (.of_head (by simp)), List.singleton_append,
            elementsFrom_separator, others]
          simp

/-! ## Balanced texts -/

/-- The scanner of text literals passes over a text as well, and no comment starts in front of
it. -/
structure Balanced (least : Nat) (text : List Char) : Prop extends Passed least text where
  start : text.head? ≠ some '-'
  literal : Closed text

theorem Balanced.mono {least' : Nat} (balanced : Balanced least text) (more : least ≤ least') :
    Balanced least' text where
  toPassed := balanced.toPassed.mono more
  start := balanced.start
  literal := balanced.literal

theorem Balanced.append (balanced : Balanced least text) (balanced' : Balanced least other) :
    Balanced least (text ++ other) where
  toPassed := balanced.toPassed.append balanced'.toPassed (.of_head balanced'.start)
  start := by
    cases text with
    | nil => exact balanced'.start
    | cons char text => exact balanced.start
  literal := balanced.literal.append balanced'.literal

/-- A text without delimiters and comments is balanced; a comma needs a group around it. -/
theorem balanced_of_plain (start : text.head? ≠ some '-')
    (plain : ∀ char ∈ text, char ∉ ['\\', '\x7b', '\x7d', '(', ')', '[', ']'])
    (commas : ',' ∈ text → 0 < least) (noComment : ¬ ['-', '-'] <:+: text) :
    Balanced least text where
  toPassed := passed_of_plain
    (fun char member special => plain char member (List.mem_cons_of_mem '\\' special))
    commas noComment
  start := start
  literal := closed_of_plain fun char member special =>
    plain char member (List.mem_append_left ['(', ')', '[', ']'] special)

/-- An expression or a list in which all is balanced. -/
theorem Balanced.delimited {opener closer : Char} (delimiters : Delimiters opener closer)
    (balanced : Balanced 1 text) : Balanced 0 (opener :: text ++ [closer]) where
  toPassed := balanced.toPassed.delimited delimiters
  start := by rcases delimiters with ⟨rfl, rfl⟩ | ⟨rfl, rfl⟩ <;> simp
  literal := by
    have ends : Closed [opener] ∧ Closed [closer] := by
      rcases delimiters with ⟨rfl, rfl⟩ | ⟨rfl, rfl⟩ <;>
        exact ⟨closed_of_plain (by simp), closed_of_plain (by simp)⟩
    exact (ends.1.append balanced.literal).append ends.2

/-- A closed text in braces. -/
theorem Closed.balanced {text : List Char} (closed : Closed text) :
    Balanced 0 ('\x7b' :: text ++ ['\x7d']) where
  toPassed := closed.passed
  start := by simp
  literal := closed.braces

end Fixity.Syntax
