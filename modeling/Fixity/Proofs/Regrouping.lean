import Fixity.Proofs.Comments
import Fixity.Proofs.RoundTrip

/-!
Contract: putting groups around sources.

Owns:
- the words of a statement, which are cut alike when the text behind them loses its comments;
- `Sound`, the tokens that the scanners of groups and lists pass over;
- that whatever parses is passed over by these scanners, and parses without its comments as well.

Main statement: parentheses around a source leave its tree as it is, and brackets around sources
with separators between them make the list of their trees.
-/

namespace Fixity.Syntax

variable {levels : Levels}

/-! ## Words -/

/-- A text that starts like another one or with a line break. -/
def Continues (after after' : List Char) : Prop :=
  ∀ char ∈ after'.head?, char = '\n' ∨ after.head? = some char

theorem continues_bare (after : List Char) : Continues after (bare after ++ ['\n']) := by
  intro char head
  cases same : bare after with
  | nil =>
      rw [same] at head
      cases head
      exact Or.inl rfl
  | cons first rest =>
      rw [same] at head
      exact head?_bare (by rw [same]; exact head)

theorem Continues.apart {word after after' : List Char} (continues : Continues after after')
    (apart : Apart word after) : Apart word after' := by
  rintro ⟨last, head⟩
  rcases continues '-' head with newline | follows
  · exact absurd newline (by decide)
  · exact apart ⟨last, follows⟩

private theorem numberTail_continues {previous : Char} {rest after' : List Char}
    (continues : Continues (numberTail previous rest).2 after') :
    numberTail previous ((numberTail previous rest).1 ++ after') =
      ((numberTail previous rest).1, after') := by
  have newline (previous : Char) (text : List Char) :
      numberTail previous ('\n' :: text) = ([], '\n' :: text) := by
    rw [numberTail, if_neg (by simp)]
  fun_induction numberTail previous rest with
  | case1 previous =>
      obtain _ | ⟨char, after'⟩ := after'
      · rw [List.append_nil, numberTail]
      · rcases continues char rfl with rfl | impossible
        · exact newline previous after'
        · cases impossible
  | case2 previous char rest afterMark goesOn digits after found inductionHypothesis =>
      rw [found] at inductionHypothesis
      rw [List.cons_append, numberTail, if_pos goesOn, inductionHypothesis continues]
  | case3 previous char rest afterMark stops =>
      obtain _ | ⟨char', after'⟩ := after'
      · rw [List.append_nil, numberTail]
      · rcases continues char' rfl with rfl | same
        · exact newline previous after'
        · cases same
          rw [List.nil_append, numberTail, if_neg stops]

/-- A word is cut alike in front of every text that continues its own. -/
theorem wordAt_continues {isGlyph : Char → Bool} (noGlyph : ¬ isGlyph '\n') (char : Char)
    (rest : List Char) : ∃ others after, wordAt isGlyph char rest = (char :: others, after) ∧
      rest = others ++ after ∧ ∀ after', Continues after after' →
        wordAt isGlyph char (others ++ after') = (char :: others, after') := by
  have run {test : Char → Bool} (newline : ¬ test '\n') :
      rest = rest.takeWhile test ++ rest.dropWhile test ∧
        ∀ after', Continues (rest.dropWhile test) after' →
          (rest.takeWhile test ++ after').takeWhile test = rest.takeWhile test ∧
            (rest.takeWhile test ++ after').dropWhile test = after' := by
    refine ⟨List.takeWhile_append_dropWhile.symm, fun after' continues => ?_⟩
    refine takeWhile_run (fun char member => List.mem_takeWhile_imp member) fun char head => ?_
    rcases continues char head with rfl | follows
    · exact newline
    · have fails := List.head?_dropWhile_not test rest
      rw [follows] at fails
      simpa using fails
  unfold wordAt
  by_cases glyph : isGlyph char
  · simp only [if_pos glyph]
    obtain ⟨parts, again⟩ := run noGlyph
    refine ⟨_, _, rfl, parts, fun after' continues => ?_⟩
    rw [(again after' continues).1, (again after' continues).2]
  · simp only [if_neg glyph]
    by_cases digit : char.isDigit ∨ char = negativeGlyph
    · simp only [if_pos digit]
      refine ⟨_, _, rfl, (numberTail_append char rest).symm, fun after' continues => ?_⟩
      rw [numberTail_continues continues]
    · simp only [if_neg digit]
      by_cases name : isNameStart char
      · simp only [if_pos name]
        obtain ⟨parts, again⟩ := run (by decide : ¬ isNameChar '\n')
        refine ⟨_, _, rfl, parts, fun after' continues => ?_⟩
        rw [(again after' continues).1, (again after' continues).2]
      · simp only [if_neg name]
        exact ⟨[], rest, rfl, rfl, fun after' _ => rfl⟩

/-- A literal of a number holds none of the characters that scanners look for. -/
private theorem plain_of_readNumber? {token : List Char} {number : Number}
    (read : readNumber? token = some number) : ∀ char ∈ token, char ∉ scanned := by
  obtain ⟨front, sign, signs, back, rfl, _, all⟩ := readNumber?_split read
  have harmless : ∀ char ∈ scanned, ¬ isLiteralChar char := List.all_iff_forall_prop.mp (by decide)
  have harmlessSigns : ∀ char ∈ exponentSigns.flatten, char ∉ scanned :=
    List.all_iff_forall_prop.mp (by decide)
  intro char member special
  rw [List.append_assoc, List.mem_append, List.mem_append] at member
  rcases member with inFront | inSign | inBack
  · exact harmless char special (all char (List.mem_append_left _ inFront))
  · exact harmlessSigns char (List.mem_flatten.mpr ⟨sign, signs, inSign⟩) special
  · exact harmless char special (all char (List.mem_append_right _ inBack))

/-- A word that stands for something holds no character that scanners look for and no comment, and
no comment starts at its end. -/
theorem plain_of_classified (wellFormed : levels.WellFormed) (uncommented : levels.Uncommented)
    {char : Char} {rest : List Char} {item : Item}
    (stands : Classified levels (.word (wordAt levels.isGlyph char rest).1) item) :
    (∀ other ∈ (wordAt levels.isGlyph char rest).1, other ∉ scanned) ∧
      ¬ ['-', '-'] <:+: (wordAt levels.isGlyph char rest).1 ∧
        Apart (wordAt levels.isGlyph char rest).1 (wordAt levels.isGlyph char rest).2 := by
  have noNewline : ¬ levels.isGlyph '\n' := fun glyph =>
    absurd (wellFormed.isOperatorChar_of_glyph (Levels.isGlyph_iff.mp glyph)) (by decide)
  obtain ⟨others, _, cut, _, _⟩ := wordAt_continues noNewline char rest
  cases stands with
  | operator listed =>
      have known := Levels.contains_of_levelOf? listed
      obtain ⟨_, operators⟩ := wellFormed.isOperatorChar_of_contains known
      have comments := uncommented _ known
      rw [String.toList_ofList] at operators comments
      have glyphs : ∀ other ∈ (wordAt levels.isGlyph char rest).1, levels.isGlyph other := by
        intro other member
        exact Levels.isGlyph_iff.mpr (Levels.mem_glyphs_of_contains known (by simpa using member))
      have harmless : ∀ other ∈ scanned, ¬ isOperatorChar other :=
        List.all_iff_forall_prop.mp (by decide)
      refine ⟨fun other member special => harmless other special (operators other member),
        comments, ?_⟩
      rintro ⟨last, follows⟩
      -- the word is a run of glyphs, and the sign would have gone on with it
      have minus := glyphs '-' (List.mem_of_getLast? last)
      have first := glyphs char (by rw [cut]; exact List.mem_cons_self)
      have fails := List.head?_dropWhile_not levels.isGlyph rest
      rw [wordAt_glyph first] at follows
      rw [follows] at fails
      simp [minus] at fails
  | number _ spelled =>
      have read := classify_eq_number spelled
      obtain ⟨comments, last⟩ := no_comment_of_readNumber? read
      exact ⟨plain_of_readNumber? read, comments, .of_last last⟩
  | name _ spelled =>
      obtain ⟨first, others', same, start, all⟩ := readName?_chars (classify_eq_name spelled).2.1
      have names : ∀ other ∈ (wordAt levels.isGlyph char rest).1, isNameChar other := by
        rw [same]
        rintro other (_ | ⟨_, member⟩)
        · exact isNameChar_of_isNameStart start
        · exact all other member
      have harmless : ∀ other ∈ '-' :: scanned, ¬ isNameChar other :=
        List.all_iff_forall_prop.mp (by decide)
      have noMinus : '-' ∉ (wordAt levels.isGlyph char rest).1 := fun member =>
        harmless '-' List.mem_cons_self (names '-' member)
      refine ⟨fun other member special => ?_, fun comment => noMinus (comment.subset (by decide)),
        .of_last fun last => noMinus (List.mem_of_getLast? last)⟩
      exact harmless other (List.mem_cons_of_mem _ special) (names other member)

/-! ## Lexemes -/

/-- A token that the scanners of groups and lists pass over. -/
inductive Sound (levels : Levels) : Token → Prop where
  | expression {interior : List Char} (passed : Passed 1 interior) :
      Sound levels (.expression interior)
  | list {interior : List Char} (passed : Passed 1 interior) : Sound levels (.list interior)
  | text (interior : List Char) : Sound levels (.text interior)
  | quoted (interior : List Char) : Sound levels (.quoted interior)
  | word {characters : List Char} {item : Item}
      (stands : Classified levels (.word characters) item) : Sound levels (.word characters)

/-- Characters that no scanner looks for are passed over, if they hold no comment. -/
theorem passed_of_unscanned {text : List Char} (plain : ∀ char ∈ text, char ∉ scanned)
    (noComment : ¬ ['-', '-'] <:+: text) : Passed 0 text :=
  passed_of_plain
    (fun char member special => plain char member (List.mem_append_left [','] special))
    (fun comma => absurd (plain ',' comma) (by decide)) noComment

theorem passed_single {char : Char} (plain : char ∉ scanned) : Passed 0 [char] :=
  passed_of_unscanned (by simpa using plain) fun comment => absurd comment.length_le (by simp)

private theorem apart_concat (front : List Char) {closer : Char} {rest : List Char}
    (noMinus : closer ≠ '-') : Apart (front ++ [closer]) rest :=
  .of_last (by simpa using noMinus)

/-- A word in front of a text is not touched when the text loses its comments. -/
private theorem bare_append {word after : List Char} (plain : ∀ char ∈ word, char ∉ scanned)
    (noComment : ¬ ['-', '-'] <:+: word) (apart : Apart word after) :
    bare (word ++ after) = word ++ bare after := by
  induction word with
  | nil => rfl
  | cons char word inductionHypothesis =>
      have noBrace : char ≠ '\x7b' := fun brace =>
        plain char List.mem_cons_self (brace ▸ List.mem_cons_self)
      have apartBehind : Apart word after := by
        cases word with
        | nil => exact .of_last (by simp)
        | cons next word => simpa [Apart] using apart
      rw [List.cons_append, bare_step noBrace (no_comment_at (noComment ·.isInfix) apart),
        inductionHypothesis (fun other member => plain other (List.mem_cons_of_mem _ member))
          (fun inside => noComment (inside.trans (List.suffix_cons char word).isInfix)) apartBehind]
      rfl

/-- The first lexeme of a text is a comment, or it is the first lexeme of the bare text, in which
it is passed over. -/
theorem bare_of_reads (wellFormed : levels.WellFormed) (uncommented : levels.Uncommented)
    {text after : List Char} {read : Lexeme} (reads : Reads levels.isGlyph text read after)
    (sound : ∀ token, read = .token token → Sound levels token) :
    (read = .gap ∧ bare text = bare after) ∨
      ∃ char others, bare text = char :: others ++ bare after ∧ Passed 0 (char :: others) ∧
        Apart (char :: others) (bare after) ∧
          lexeme levels.isGlyph char (others ++ (bare after ++ ['\n'])) =
            .ok (read, bare after ++ ['\n']) := by
  cases reads with
  | comment follows => exact Or.inl ⟨rfl, bare_comment follows⟩
  | separator =>
      exact Or.inr ⟨';', [], bare_step (by decide) (by simp), passed_single (by decide),
        .of_last (by decide), rfl⟩
  | @blank char _ blank =>
      obtain ⟨_, noMinus, plain⟩ := isBlank_alone blank
      have noBrace : char ≠ '\x7b' := fun brace => plain (brace ▸ List.mem_cons_self)
      exact Or.inr ⟨char, [], bare_step noBrace (by simp [noMinus]), passed_single plain,
        .of_last (by simpa using noMinus), lexeme_blank blank _⟩
  | @expression _ interior _ found =>
      cases sound _ rfl with
      | expression passed =>
          refine Or.inr ⟨'(', interior ++ [')'], ?_, passed.delimited (Or.inl ⟨rfl, rfl⟩),
            apart_concat ('(' :: interior) (by decide), ?_⟩
          · rw [bare_step (by decide) (by simp), bare_of_groupInterior (by decide) found]
            simp
          · rw [List.append_assoc]
            exact lexeme_expression passed _
  | @list _ interior _ found =>
      cases sound _ rfl with
      | list passed =>
          refine Or.inr ⟨'[', interior ++ [']'], ?_, passed.delimited (Or.inr ⟨rfl, rfl⟩),
            apart_concat ('[' :: interior) (by decide), ?_⟩
          · rw [bare_step (by decide) (by simp), bare_of_groupInterior (by decide) found]
            simp
          · rw [List.append_assoc]
            exact lexeme_list passed _
  | @text _ interior _ found =>
      have closed := closed_of_textInterior found
      refine Or.inr ⟨'\x7b', interior ++ ['\x7d'], ?_, closed.passed,
        apart_concat ('\x7b' :: interior) (by decide), ?_⟩
      · rw [bare_text found]
        simp
      · rw [List.append_assoc]
        exact lexeme_text closed _
  | @quoted _ interior _ found =>
      have closed := closed_of_textInterior found
      refine Or.inr ⟨'\x60', '\x7b' :: interior ++ ['\x7d'], ?_, ?_,
        apart_concat ('\x60' :: '\x7b' :: interior) (by decide), ?_⟩
      · rw [bare_step (by decide) (by simp), bare_text found]
        simp
      · exact (passed_single (by decide)).append closed.passed (.of_head (by simp))
      · rw [List.append_assoc]
        exact lexeme_quoted closed _
  | @word char rest starts =>
      have noNewline : ¬ levels.isGlyph '\n' := fun glyph =>
        absurd (wellFormed.isOperatorChar_of_glyph (Levels.isGlyph_iff.mp glyph)) (by decide)
      cases sound _ rfl with
      | word stands =>
          obtain ⟨plain, comments, apart⟩ := plain_of_classified wellFormed uncommented stands
          obtain ⟨others, after, cut, parts, again⟩ := wordAt_continues noNewline char rest
          rw [cut] at plain comments apart ⊢
          have continues := continues_bare after
          have whole : char :: rest = char :: others ++ after := by rw [parts]; rfl
          refine Or.inr ⟨char, others, ?_, passed_of_unscanned plain comments, ?_, ?_⟩
          · rw [whole]
            exact bare_append plain comments apart
          · rintro ⟨last, follows⟩
            have noComment : ¬ ('-' = '-' ∧ after.head? = some '-') :=
              fun both => apart ⟨last, both.2⟩
            exact no_comment_bare noComment ⟨rfl, follows⟩
          · have starts' : startsWord char (others ++ (bare after ++ ['\n'])) :=
              ⟨starts.1, no_comment_at (comments ·.isInfix) (continues.apart apart), starts.2.2⟩
            rw [lexeme_word _ starts', again _ continues]

/-! ## Statements -/

/-- A text in which all tokens are sound is passed over without its comments, and falls into the
same tokens. A line break behind it stands for the one that ends its last comment. -/
theorem statementsFrom_bare (wellFormed : levels.WellFormed) (uncommented : levels.Uncommented)
    {tokens : List Token} {text : List Char} {statements : List Statement}
    (ok : statementsFrom levels.isGlyph tokens text = .ok statements)
    (sound : ∀ statement ∈ statements, ∀ token ∈ statement.tokens, Sound levels token) :
    Passed 0 (bare text) ∧ ∃ statements',
      statementsFrom levels.isGlyph tokens (bare text ++ ['\n']) = .ok statements' ∧
        statements'.map (·.tokens) = statements.map (·.tokens) := by
  have passedFront {text after : List Char} {read : Lexeme}
      (bared : (read = .gap ∧ bare text = bare after) ∨
        ∃ char others, bare text = char :: others ++ bare after ∧ Passed 0 (char :: others) ∧
          Apart (char :: others) (bare after) ∧
            lexeme levels.isGlyph char (others ++ (bare after ++ ['\n'])) =
              .ok (read, bare after ++ ['\n']))
      (behind : Passed 0 (bare after)) : Passed 0 (bare text) := by
    rcases bared with ⟨_, same⟩ | ⟨char, others, same, passed, apart, _⟩
    · exact same ▸ behind
    · exact same ▸ passed.append behind apart
  fun_induction statementsFrom levels.isGlyph tokens text generalizing statements with
  | case1 tokens =>
      cases ok
      rw [bare_nil]
      refine ⟨passed_of_plain (by simp) (by simp) (by decide), _, ?_, rfl⟩
      rw [List.nil_append, statementsFrom_gap (lexeme_blank (by decide) []), statementsFrom_nil]
  | case2 => cases ok
  | case3 tokens char rest after found inductionHypothesis =>
      obtain ⟨behind, statements', read, same⟩ := inductionHypothesis ok sound
      have bared := bare_of_reads wellFormed uncommented (reads_of_lexeme found) (by simp)
      refine ⟨passedFront bared behind, statements', ?_, same⟩
      rcases bared with ⟨_, same⟩ | ⟨char, others, same, _, _, first⟩
      · rw [same, read]
      · rw [same, List.append_assoc, List.cons_append, statementsFrom_gap first, read]
  | case4 tokens char rest token after found inductionHypothesis =>
      obtain ⟨behind, statements', read, same⟩ := inductionHypothesis ok sound
      obtain ⟨statement, inStatements, inTokens⟩ := mem_statementsFrom ok List.mem_cons_self
      have tokenSound := sound statement inStatements token inTokens
      have bared := bare_of_reads wellFormed uncommented (reads_of_lexeme found) fun other equal =>
        (Lexeme.token.inj equal) ▸ tokenSound
      refine ⟨passedFront bared behind, statements', ?_, same⟩
      rcases bared with ⟨impossible, _⟩ | ⟨char, others, same, _, _, first⟩
      · cases impossible
      · rw [same, List.append_assoc, List.cons_append, statementsFrom_token first, read]
  | case5 tokens char rest after found empty inductionHypothesis =>
      obtain ⟨behind, statements', read, same⟩ := inductionHypothesis ok sound
      have bared := bare_of_reads wellFormed uncommented (reads_of_lexeme found) (by simp)
      refine ⟨passedFront bared behind, statements', ?_, same⟩
      rcases bared with ⟨impossible, _⟩ | ⟨char, others, same, _, _, first⟩
      · cases impossible
      · rw [same, List.append_assoc, List.cons_append, statementsFrom_separator _ first,
          if_pos empty, read]
  | case6 tokens char rest after found inhabited inductionHypothesis =>
      obtain ⟨others, inRest, rfl⟩ := map_eq_ok.mp ok
      obtain ⟨behind, statements', read, same⟩ := inductionHypothesis inRest
        fun statement member => sound statement (List.mem_cons_of_mem _ member)
      have bared := bare_of_reads wellFormed uncommented (reads_of_lexeme found) (by simp)
      refine ⟨passedFront bared behind, ⟨tokens.reverse, bare after ++ ['\n']⟩ :: statements', ?_,
        by simp [same]⟩
      rcases bared with ⟨impossible, _⟩ | ⟨char, others, same, _, _, first⟩
      · cases impossible
      · rw [same, List.append_assoc, List.cons_append, statementsFrom_separator _ first,
          if_neg inhabited, read]
        rfl

/-! ## Sources -/

private theorem passed_intercalate {elements : List (List Char)}
    (each : ∀ element ∈ elements, Passed 0 element) : Passed 1 ([','].intercalate elements) := by
  match elements with
  | [] => exact passed_of_plain nofun nofun (by decide)
  | [element] =>
      rw [List.intercalate_singleton]
      exact (each element List.mem_cons_self).mono (Nat.zero_le 1)
  | element :: next :: rest =>
      rw [List.intercalate_cons_cons]
      have comma : Passed 1 [','] := passed_of_plain (by simp) (by simp) (by decide)
      have first := (each element List.mem_cons_self).mono (Nat.zero_le 1)
      have others :=
        passed_intercalate fun other member => each other (List.mem_cons_of_mem _ member)
      exact (first.append comma (.of_head (by decide))).append others (apart_concat _ (by decide))

/-- A token that stands for something is sound if what its group holds is passed over. -/
private theorem Sound.of_classified {token : Token} {item : Item}
    (reads : ∀ text node, text.length ≤ token.interior.length → parseBody levels text = .ok node →
      Passed 0 (bare text))
    (bareInterior : ∀ interior, token = .expression interior ∨ token = .list interior →
      bare interior = interior)
    (stands : Classified levels token item) : Sound levels token := by
  cases stands with
  | @expression interior _ read =>
      have passed : Passed 0 (bare interior) := reads interior _ (Nat.le_refl _) read
      rw [bareInterior _ (Or.inl rfl)] at passed
      exact .expression (passed.mono (Nat.zero_le 1))
  | emptyList blank =>
      refine .list (Passed.mono (passed_of_unscanned ?_ ?_) (Nat.zero_le 1))
      · exact fun char member => (isBlank_alone (blank char member)).2.2
      · intro comment
        exact (isBlank_alone (blank '-' (comment.subset (by decide)))).2.1 rfl
  | @list interior nodes _ read =>
      obtain ⟨first, others, divided, _, firstBare, othersBare⟩ :=
        bare_elementsFrom 0 [] (bareInterior interior (Or.inr rfl))
      have each : ∀ element ∈ splitElements interior, Passed 0 element := by
        intro element member
        obtain ⟨node, readElement⟩ := exists_right_of_forall₂ read member
        have passed := reads element node (splitElements_length member) readElement
        have elementBare : bare element = element := by
          rw [splitElements, divided] at member
          rcases List.mem_cons.mp member with rfl | inOthers
          · exact firstBare
          · exact othersBare element inOthers
        rwa [elementBare] at passed
      have whole := passed_intercalate each
      rw [splitElements, intercalate_elementsFrom] at whole
      exact .list whole
  | @text interior _ => exact .text interior
  | @quoted interior _ => exact .quoted interior
  | operator known => exact .word (.operator known)
  | number unknown spelled => exact .word (.number unknown spelled)
  | name unknown spelled => exact .word (.name unknown spelled)

/-- The interiors of expressions and lists are cut without their comments. -/
private theorem bare_of_token {isGlyph : Char → Bool} {char : Char} {rest after : List Char}
    {token : Token} (found : lexeme isGlyph char rest = .ok (.token token, after))
    {interior : List Char} (group : token = .expression interior ∨ token = .list interior) :
    bare interior = interior := by
  have reads := reads_of_lexeme found
  rcases group with rfl | rfl
  · cases reads with
    | expression found => exact bare_interior (by decide) found
  · cases reads with
    | list found => exact bare_interior (by decide) found

section Sources

variable (wellFormed : levels.WellFormed) (uncommented : levels.Uncommented)
include wellFormed uncommented

/-- What parses is passed over without its comments, and falls into the same tokens. -/
private theorem parsed_bare {text : List Char} {nodes : List Node}
    (parsed : parseStatements levels (parseBody levels) text = .ok nodes) :
    Passed 0 (bare text) ∧
      parseStatements levels (parseBody levels) (bare text ++ ['\n']) = .ok nodes := by
  induction bound : text.length using Nat.strongRecOn generalizing text nodes with
  | ind bound inductionHypothesis =>
      subst bound
      obtain ⟨statements, divided, read⟩ := bind_eq_ok.mp parsed
      have rows := mapM_eq_ok.mp read
      have shorter := tokenize_length divided
      rw [tokenize_eq_ok] at divided
      have bareInterior : ∀ statement ∈ statements, ∀ token ∈ statement.tokens, ∀ interior,
          token = .expression interior ∨ token = .list interior → bare interior = interior :=
        statementsFrom_tokens (fun _ _ _ _ found _ group => bare_of_token found group) (by simp)
          divided
      have sound : ∀ statement ∈ statements, ∀ token ∈ statement.tokens, Sound levels token := by
        intro statement inStatements token inTokens
        obtain ⟨node, parsedOne⟩ := exists_right_of_forall₂ rows inStatements
        obtain ⟨grouping, _, classified, _⟩ := parseStatement_iff_grouping.mp parsedOne
        obtain ⟨item, stands⟩ := exists_right_of_forall₂ classified inTokens
        have tokenShorter := (shorter statement inStatements).2 token inTokens
        refine .of_classified (fun other inner inside readInner => ?_)
          (bareInterior statement inStatements token inTokens) stands
        rw [parseBody_eq, map_eq_ok] at readInner
        obtain ⟨nodes, readInner, _⟩ := readInner
        exact (inductionHypothesis other.length (by omega) readInner rfl).1
      obtain ⟨passed, statements', divided', same⟩ :=
        statementsFrom_bare wellFormed uncommented divided sound
      refine ⟨passed, bind_eq_ok.mpr ⟨statements', tokenize_eq_ok.mpr divided', mapM_eq_ok.mpr ?_⟩⟩
      have rowsOfTokens : List.Forall₂ (fun tokens node =>
          parseStatement levels (parseBody levels) tokens = .ok node)
            (statements'.map (·.tokens)) nodes := by
        rw [same, List.forall₂_map_left_iff]
        exact rows
      exact List.forall₂_map_left_iff.mp rowsOfTokens

/-- A source reads as it does without its comments. -/
theorem parseBody_bare {source : List Char} {tree : Node}
    (parsed : parseBody levels source = .ok tree) :
    Passed 0 (bare source) ∧ parseBody levels (bare source ++ ['\n']) = .ok tree := by
  rw [parseBody_eq, map_eq_ok] at parsed
  obtain ⟨nodes, parsed, rfl⟩ := parsed
  obtain ⟨passed, again⟩ := parsed_bare wellFormed uncommented parsed
  rw [parseBody_eq, again]
  exact ⟨passed, rfl⟩

/-- A source with a statement is not blank without its comments. -/
theorem not_blank_of_parse {source : List Char} {tree : Node}
    (parsed : parseBody levels source = .ok tree)
    (statement : parse levels source ≠ .ok (.body [])) :
    ¬ ∀ char ∈ bare source ++ ['\n'], Text.isBlank char := by
  intro blank
  rw [parseBody_eq, map_eq_ok] at parsed
  obtain ⟨nodes, parsed, _⟩ := parsed
  have again := (parsed_bare wellFormed uncommented parsed).2
  obtain ⟨statements, divided, read⟩ := bind_eq_ok.mp again
  rw [tokenize_eq_ok, statementsFrom_blanks blank] at divided
  cases divided
  cases read
  apply statement
  rw [parse_eq, parsed]
  rfl

end Sources

/-- A text that is one group reads as the tree of the group. -/
private theorem parseBody_group {rest : List Char} {char : Char} {token : Token} {tree : Node}
    (found : lexeme levels.isGlyph char rest = .ok (.token token, []))
    (stands : Classified levels token (.operand tree)) :
    parseBody levels (char :: rest) = .ok tree := by
  have divided : statementsFrom levels.isGlyph [] (char :: rest) = .ok [⟨[token], []⟩] := by
    rw [statementsFrom_token found, statementsFrom_nil]
    rfl
  exact (parse_of_statement divided (parseStatement_operand stands)).2

/-- A source in front of the end of a line is passed over. -/
private theorem groupInterior_source {opener closer : Char} (delimiters : Delimiters opener closer)
    {source : List Char} (passed : Passed 0 (bare source)) (behind : List Char) :
    groupInterior opener closer 0 (source ++ '\n' :: behind) =
      (groupInterior opener closer 0 behind).map (keep (bare source ++ ['\n'])) := by
  have newline : groupInterior opener closer 0 ('\n' :: behind) =
      (groupInterior opener closer 0 behind).map (keep ['\n']) :=
    (passed_single (by decide)).group opener closer delimiters 0 behind (.of_last (by decide))
  rw [groupInterior_bare (passed.group opener closer delimiters 0 _ (.of_head (by simp))), newline,
    map_keep_keep]

/-- The interior of the brackets around a row of sources: every source loses its comments. -/
private theorem groupInterior_sources {sources : List (List Char)} (inhabited : sources ≠ [])
    (passed : ∀ source ∈ sources, Passed 0 (bare source)) :
    groupInterior '[' ']' 0 ([','].intercalate (sources.map (· ++ ['\n'])) ++ [']']) =
      some ([','].intercalate (sources.map fun source => bare source ++ ['\n']), []) := by
  have brackets : Delimiters '[' ']' := Or.inr ⟨rfl, rfl⟩
  induction sources with
  | nil => exact absurd rfl inhabited
  | cons source rest inductionHypothesis =>
      have first := passed source List.mem_cons_self
      cases rest with
      | nil =>
          have whole := groupInterior_source brackets first [']']
          rw [groupInterior_end (by decide) (by decide)] at whole
          simpa [keep] using whole
      | cons next rest =>
          have others := inductionHypothesis (by simp)
            fun other member => passed other (List.mem_cons_of_mem _ member)
          have whole := groupInterior_source brackets first
            (',' :: ([','].intercalate ((next :: rest).map (· ++ ['\n'])) ++ [']']))
          rw [groupInterior_step (by decide) (by simp) (by simp),
            nesting, if_neg (by decide), if_neg (by decide), others] at whole
          simpa [keep] using whole

end Fixity.Syntax

namespace Fixity.OperatorTable

open Syntax

/-- Grouping sources by delimiters keeps their trees, whatever the sources hold: parentheses around
a source leave its tree as it is, and brackets around sources, with separators between them, make
the list of their trees. A source ends with its line, so that no comment hides what follows. One
source without a statement makes a list without elements instead. -/
theorem Reachable.parseBody_grouped {table : OperatorTable} (reachable : table.Reachable)
    (uncommented : ∀ token ∈ table.levels.tokens, ¬ ['-', '-'] <:+: token.toList) :
    (∀ source tree, parseBody table.levels source = .ok tree →
      parseBody table.levels ('(' :: source ++ ['\n', ')']) = .ok tree) ∧
    (∀ sources trees,
      List.Forall₂ (fun source tree => parseBody table.levels source = .ok tree) sources trees →
      sources ≠ [] →
      2 ≤ sources.length ∨ (∀ source ∈ sources, parse table.levels source ≠ .ok (.body [])) →
        parseBody table.levels ('[' :: [','].intercalate (sources.map (· ++ ['\n'])) ++ [']']) =
          .ok (.list trees)) := by
  have wellFormed := reachable.wellFormed
  have noComments := Levels.uncommented_of_tokens uncommented
  constructor
  · intro source tree parsed
    obtain ⟨passed, again⟩ := parseBody_bare wellFormed noComments parsed
    have found := groupInterior_source (Or.inl ⟨rfl, rfl⟩) passed [')']
    rw [groupInterior_end (by decide) (by decide)] at found
    have head : lexeme table.levels.isGlyph '(' (source ++ ['\n', ')']) =
        .ok (.token (.expression (bare source ++ ['\n'])), []) := by
      show group .expression .expression (groupInterior '(' ')' 0 (source ++ ['\n', ')'])) = _
      rw [found]
      simp [keep, group]
    exact parseBody_group head (.expression again)
  · intro sources trees parsed inhabited notBlank
    have each : ∀ source ∈ sources, ∃ tree, parseBody table.levels source = .ok tree :=
      fun source member => exists_right_of_forall₂ parsed member
    have passed : ∀ source ∈ sources, Passed 0 (bare source) := by
      intro source member
      obtain ⟨tree, parsedOne⟩ := each source member
      exact (parseBody_bare wellFormed noComments parsedOne).1
    have found := groupInterior_sources inhabited passed
    have head : lexeme table.levels.isGlyph '['
        ([','].intercalate (sources.map (· ++ ['\n'])) ++ [']']) =
          .ok (.token (.list ([','].intercalate (sources.map fun source => bare source ++ ['\n']))),
            []) := by
      show group .list .list (groupInterior '[' ']' 0 _) = _
      rw [found]
      rfl
    refine parseBody_group head (.list ?_ ?_)
    · rcases sources with _ | ⟨source, _ | ⟨second, rest⟩⟩
      · exact absurd rfl inhabited
      · obtain ⟨tree, parsedOne⟩ := each source List.mem_cons_self
        have statement := notBlank.resolve_left (by simp) source List.mem_cons_self
        simpa using not_blank_of_parse wellFormed noComments parsedOne statement
      · intro blank
        exact absurd (blank ',' (by simp [List.intercalate_cons_cons])) (by decide)
    · rw [splitElements_intercalate (by simpa using inhabited), List.forall₂_map_left_iff]
      · exact parsed.imp fun source tree parsedOne =>
          (parseBody_bare wellFormed noComments parsedOne).2
      · intro element member
        obtain ⟨source, inSources, rfl⟩ := List.mem_map.mp member
        exact (passed source inSources).append (passed_single (by decide)) (.of_head (by decide))

private theorem parseBody_commented :
    parseBody Levels.initial "a -- )".toList = .ok (.identifier "a") := by
  have word : lexeme Levels.initial.isGlyph 'a' " -- )".toList =
      .ok (.token (.word ['a']), " -- )".toList) := by
    rw [Levels.isGlyph_eq]
    rfl
  have comment : lexeme Levels.initial.isGlyph '-' "- )".toList = .ok (.gap, []) := rfl
  have divided : statementsFrom Levels.initial.isGlyph [] "a -- )".toList =
      .ok [⟨[.word ['a']], []⟩] := by
    show statementsFrom Levels.initial.isGlyph [] ('a' :: " -- )".toList) = _
    rw [statementsFrom_token word]
    show statementsFrom Levels.initial.isGlyph [.word ['a']] (' ' :: '-' :: "- )".toList) = _
    rw [statementsFrom_gap rfl, statementsFrom_gap comment, statementsFrom_nil]
    rfl
  have stands : Classified Levels.initial (.word ['a']) (.operand (.identifier "a")) :=
    .name (by decide) rfl
  exact (parse_of_statement divided (parseStatement_operand stands)).2

/-- A name with a comment that holds a parenthesis, in parentheses and twice in brackets. -/
theorem parseBody_grouped_commented :
    parseBody initial.levels "(a -- )\n)".toList = .ok (.identifier "a") ∧
      parseBody initial.levels "[a -- )\n,a -- )\n]".toList =
        .ok (.list [.identifier "a", .identifier "a"]) := by
  obtain ⟨expression, list⟩ := Reachable.initial.parseBody_grouped (by decide)
  have inParentheses : "(a -- )\n)".toList = '(' :: "a -- )".toList ++ ['\n', ')'] := by decide
  have inBrackets : "[a -- )\n,a -- )\n]".toList =
      '[' :: [','].intercalate (["a -- )".toList, "a -- )".toList].map (· ++ ['\n'])) ++ [']'] := by
    decide
  rw [inParentheses, inBrackets]
  exact ⟨expression _ _ parseBody_commented,
    list _ _ (.cons parseBody_commented (.cons parseBody_commented .nil)) (by simp)
      (Or.inl (Nat.le_refl 2))⟩

end Fixity.OperatorTable
