import Fixity.Proofs.Lexing
import Fixity.Proofs.Placement
import Fixity.Proofs.Statements

/-!
Contract: a new operator leaves every source that parsed its tree.

Owns:
- the division of a text into statements under more glyphs: it stays as it was where no new glyph
  stands as a word of its own;
- what tokens stand for under the levels of a table with one operator more;
- the transfer of a parse from one table to the other, at every depth of nesting.

Does not own: sources that did not parse before.
-/

namespace Fixity.Syntax

/-! ## More glyphs -/

section MoreGlyphs

variable {isGlyph isGlyph' : Char → Bool}

/-- The glyphs of one table among those of another one; the others can not start a comment. -/
structure MoreGlyphs (isGlyph isGlyph' : Char → Bool) : Prop where
  kept : ∀ char, isGlyph char → isGlyph' char
  operator : ∀ char, isGlyph' char → isOperatorChar char
  minus : isGlyph '-'

/-- Where a lexeme starts, a glyph that only the second table has is a word of its own under the
first one. -/
private theorem lexeme_new (more : MoreGlyphs isGlyph isGlyph') {char : Char}
    (glyph' : isGlyph' char) (noGlyph : ¬ isGlyph char) (rest : List Char) :
    lexeme isGlyph char rest = .ok (.token (.word [char]), rest) := by
  have operator := more.operator char glyph'
  have alone := isOperatorChar_alone operator
  have word : startsWord char rest := by
    refine ⟨alone.1, ?_, alone.2.1⟩
    rintro ⟨rfl, _⟩
    exact noGlyph more.minus
  rw [lexeme_word isGlyph word, wordAt_stray operator noGlyph]

/-- No lexeme starts with a glyph that is new, if the statements have no such word. -/
private theorem head_kept (more : MoreGlyphs isGlyph isGlyph') {tokens : List Token} {char : Char}
    {rest : List Char} {statements : List Statement}
    (ok : statementsFrom isGlyph tokens (char :: rest) = .ok statements)
    (settled : ∀ statement ∈ statements, ∀ char, Token.word [char] ∈ statement.tokens →
      isGlyph' char → isGlyph char)
    (glyph' : isGlyph' char) : isGlyph char := by
  by_contra noGlyph
  rw [statementsFrom_token (lexeme_new more glyph' noGlyph rest)] at ok
  obtain ⟨statement, member, inTokens⟩ := mem_statementsFrom ok List.mem_cons_self
  exact noGlyph (settled statement member char inTokens glyph')

private theorem span_kept (more : MoreGlyphs isGlyph isGlyph') {rest : List Char}
    (behind : ∀ char ∈ (rest.dropWhile isGlyph).head?, isGlyph' char → isGlyph char) :
    rest.takeWhile isGlyph' = rest.takeWhile isGlyph ∧
      rest.dropWhile isGlyph' = rest.dropWhile isGlyph := by
  induction rest with
  | nil => exact ⟨rfl, rfl⟩
  | cons char rest inductionHypothesis =>
      by_cases glyph : isGlyph char
      · have glyph' := more.kept char glyph
        rw [List.dropWhile_cons_of_pos glyph] at behind
        obtain ⟨taken, dropped⟩ := inductionHypothesis behind
        rw [List.takeWhile_cons_of_pos glyph, List.takeWhile_cons_of_pos glyph',
          List.dropWhile_cons_of_pos glyph, List.dropWhile_cons_of_pos glyph', taken, dropped]
        exact ⟨rfl, rfl⟩
      · have noGlyph' : ¬ isGlyph' char := by
          rw [List.dropWhile_cons_of_neg glyph] at behind
          exact fun glyph' => glyph (behind char rfl glyph')
        rw [List.takeWhile_cons_of_neg glyph, List.takeWhile_cons_of_neg noGlyph',
          List.dropWhile_cons_of_neg glyph, List.dropWhile_cons_of_neg noGlyph']
        exact ⟨rfl, rfl⟩

/-- A lexeme stays as it is if neither its head nor the head of what is behind it is new. -/
private theorem lexeme_kept (more : MoreGlyphs isGlyph isGlyph') {char : Char}
    {rest after : List Char} {read : Lexeme}
    (found : lexeme isGlyph char rest = .ok (read, after))
    (here : isGlyph' char → isGlyph char)
    (behind : ∀ token, read = .token token →
      ∀ char ∈ after.head?, isGlyph' char → isGlyph char) :
    lexeme isGlyph' char rest = .ok (read, after) := by
  by_cases word : startsWord char rest
  · rw [← found, lexeme_word isGlyph word, lexeme_word isGlyph' word]
    by_cases glyph : isGlyph char
    · rw [lexeme_word isGlyph word, wordAt_glyph glyph] at found
      cases found
      obtain ⟨taken, dropped⟩ := span_kept more (behind _ rfl)
      rw [wordAt_glyph glyph, wordAt_glyph (more.kept char glyph), taken, dropped]
    · have noGlyph' := mt here glyph
      unfold wordAt
      rw [if_neg glyph, if_neg noGlyph']
  · rw [← found]
    exact lexeme_congr isGlyph' isGlyph word

/-- The statements of a text are the same under more glyphs, if they have no word that is one new
glyph. -/
theorem statementsFrom_moreGlyphs (more : MoreGlyphs isGlyph isGlyph') {tokens : List Token}
    {text : List Char} {statements : List Statement}
    (ok : statementsFrom isGlyph tokens text = .ok statements)
    (settled : ∀ statement ∈ statements, ∀ char, Token.word [char] ∈ statement.tokens →
      isGlyph' char → isGlyph char) :
    statementsFrom isGlyph' tokens text = .ok statements := by
  have starts : ∀ {tokens text}, statementsFrom isGlyph tokens text = .ok statements →
      ∀ char ∈ text.head?, isGlyph' char → isGlyph char := by
    intro tokens text ok char head
    obtain _ | ⟨first, rest⟩ := text
    · cases head
    · cases head
      exact head_kept more ok settled
  fun_induction statementsFrom isGlyph tokens text generalizing statements with
  | case1 tokens => rw [statementsFrom_nil, ok]
  | case2 => cases ok
  | case3 tokens char rest after found inductionHypothesis =>
      have here := starts ((statementsFrom_gap found).trans ok) char rfl
      rw [statementsFrom_gap (lexeme_kept more found here fun _ noToken => by cases noToken)]
      exact inductionHypothesis ok settled starts
  | case4 tokens char rest token after found inductionHypothesis =>
      have here := starts ((statementsFrom_token found).trans ok) char rfl
      rw [statementsFrom_token (lexeme_kept more found here fun _ _ => starts ok)]
      exact inductionHypothesis ok settled starts
  | case5 tokens char rest after found empty inductionHypothesis =>
      have whole := statementsFrom_separator tokens found
      rw [if_pos empty] at whole
      have here := starts (whole.trans ok) char rfl
      rw [statementsFrom_separator tokens
        (lexeme_kept more found here fun _ noToken => by cases noToken), if_pos empty]
      exact inductionHypothesis ok settled starts
  | case6 tokens char rest after found inhabited inductionHypothesis =>
      have whole := statementsFrom_separator tokens found
      rw [if_neg inhabited] at whole
      have here := starts (whole.trans ok) char rfl
      rw [statementsFrom_separator tokens
        (lexeme_kept more found here fun _ noToken => by cases noToken), if_neg inhabited]
      obtain ⟨others, inRest, rfl⟩ := map_eq_ok.mp ok
      have settledRest := fun statement member =>
        settled statement (List.mem_cons_of_mem _ member)
      refine map_eq_ok.mpr ⟨others, inductionHypothesis inRest settledRest ?_, rfl⟩
      intro tokens text ok char head
      obtain _ | ⟨first, rest⟩ := text
      · cases head
      · cases head
        exact head_kept more ok settledRest

end MoreGlyphs

/-! ## One operator more -/

section OneMore

variable {levels levels' : Levels} {token : String} {change : Nat → Nat}

theorem Embeds.contains (embeds : Embeds levels levels' token change) {other : String}
    (known : levels.contains other) : levels'.contains other := by
  unfold Levels.contains
  rw [embeds.levelOf? other known, Option.isSome_map]
  exact known

theorem Embeds.moreGlyphs (embeds : Embeds levels levels' token change)
    (wellFormed : levels.WellFormed) (wellFormed' : levels'.WellFormed) :
    MoreGlyphs levels.isGlyph levels'.isGlyph where
  kept := by
    intro char glyph
    rw [Levels.isGlyph_iff] at glyph ⊢
    rcases Levels.mem_glyphs.mp glyph with rfl | ⟨other, listed, member⟩
    · exact Levels.mem_glyphs.mpr (Or.inl rfl)
    · have known : levels.contains other := Levels.contains_iff.mpr (Or.inl listed)
      exact Levels.mem_glyphs_of_contains (embeds.contains known) member
  operator := fun _ glyph' => wellFormed'.isOperatorChar_of_glyph (Levels.isGlyph_iff.mp glyph')
  minus := Levels.isGlyph_iff.mpr
    (wellFormed.mem_glyphs_of_initial (Levels.mem_glyphs.mpr (Or.inr ⟨"-", by decide, by decide⟩)))

/-- A glyph that stands as a word of its own stands for something only if it is an operator. -/
private theorem isGlyph_of_classified {char : Char} (operator : isOperatorChar char) {item : Item}
    (classified : Classified levels (.word [char]) item) : levels.isGlyph char := by
  have alone := isOperatorChar_alone operator
  have noLiteral := classify_eq_none alone.2.2.1 (mt isNameChar_of_isNameStart alone.2.2.2) []
  cases classified with
  | operator known =>
      have contained := Levels.contains_of_levelOf? known
      exact Levels.isGlyph_iff.mpr (Levels.mem_glyphs_of_contains contained (by simp))
  | number unknown spelled =>
      rw [noLiteral] at spelled
      cases spelled
  | name unknown spelled =>
      rw [noLiteral] at spelled
      cases spelled

/-- What one reader makes of the texts below a length, another one makes of them as well. -/
def ReadsBelow (bound : Nat) (reader other : Reader) : Prop :=
  ∀ text node, text.length < bound → reader text = .ok node → other text = .ok node

theorem segmentsFrom_reads {reader other : Reader} {bound : Nat}
    (reads : ReadsBelow bound reader other) {run : List Char} {segments result : List Segment}
    {text : List Char} (shorter : text.length ≤ bound)
    (ok : segmentsFrom reader run segments text = .ok result) :
    segmentsFrom other run segments text = .ok result := by
  fun_induction segmentsFrom reader run segments text with
  | case1 run segments =>
      rw [segmentsFrom]
      exact ok
  | case2 run segments inductionHypothesis =>
      rw [segmentsFrom]
      exact inductionHypothesis (Nat.zero_le bound) ok
  | case3 run segments char rest inductionHypothesis =>
      simp only [List.length_cons] at shorter
      rw [segmentsFrom]
      exact inductionHypothesis (by omega) ok
  | case4 => cases ok
  | case5 => cases ok
  | case6 run segments rest interior after found node read inductionHypothesis =>
      have lengths := textInterior_length found
      simp only [List.length_cons] at shorter
      rw [segmentsFrom]
      split
      · next notFound => rw [found] at notFound; cases notFound
      · next interior' after' found' =>
        obtain ⟨rfl, rfl⟩ : interior = interior' ∧ after = after' := by
          rw [found] at found'
          simpa using found'
        rw [reads interior node (by omega) read]
        exact inductionHypothesis (by omega) ok
  | case7 run segments char rest noEscape noEscaped noBrace inductionHypothesis =>
      simp only [List.length_cons] at shorter
      rw [segmentsFrom]
      · exact inductionHypothesis (by omega) ok
      all_goals assumption

/-- A token stands for the same operand, or for the same operator at its new level. -/
theorem Classified.extend (embeds : Embeds levels levels' token change)
    (wellFormed' : levels'.WellFormed) {piece : Token} {item : Item}
    (reads : ReadsBelow (piece.interior.length + 1) (parseBody levels) (parseBody levels'))
    (classified : Classified levels piece item) :
    Classified levels' piece (item.shift change) := by
  have unknown' : ∀ {characters literal}, ¬ levels.contains (String.ofList characters) →
      classify characters = some literal → ¬ levels'.contains (String.ofList characters) := by
    intro characters literal unknown spelled known'
    rw [wellFormed'.classify_of_contains known'] at spelled
    cases spelled
  cases classified with
  | expression read => exact .expression (reads _ _ (Nat.lt_succ_self _) read)
  | emptyList blank => exact .emptyList blank
  | @list interior nodes inhabited read =>
      have shorter : ∀ element ∈ splitElements interior, element.length < interior.length + 1 :=
        fun element member => Nat.lt_succ_of_le (splitElements_length member)
      refine .list inhabited (((List.forall₂_and_left _ _).mpr ⟨shorter, read⟩).imp ?_)
      intro element node both
      exact reads element node both.1 both.2
  | text read =>
      refine .text ?_
      rw [parseText_eq] at read ⊢
      exact segmentsFrom_reads reads (Nat.le_succ _) read
  | quoted read => exact .quoted (reads _ _ (Nat.lt_succ_self _) read)
  | operator known =>
      refine .operator ?_
      rw [embeds.levelOf? _ (Levels.contains_of_levelOf? known), known]
      rfl
  | number unknown spelled => exact .number (unknown' unknown spelled) spelled
  | name unknown spelled => exact .name (unknown' unknown spelled) spelled

/-- A statement keeps its tree if all shorter texts keep theirs. -/
private theorem parseStatement_extend (embeds : Embeds levels levels' token change)
    (wellFormed' : levels'.WellFormed) {tokens : List Token} {bound : Nat} {node : Node}
    (reads : ReadsBelow bound (parseBody levels) (parseBody levels'))
    (shorter : ∀ piece ∈ tokens, piece.interior.length < bound)
    (parsed : parseStatement levels (parseBody levels) tokens = .ok node) :
    parseStatement levels' (parseBody levels') tokens = .ok node := by
  obtain ⟨grouping, lawful, classified, rfl⟩ := parseStatement_iff_grouping.mp parsed
  refine parseStatement_iff_grouping.mpr
    ⟨grouping.shift change, lawful.shift embeds, ?_, grouping.node_shift change⟩
  rw [Grouping.items_shift, List.forall₂_map_right_iff]
  refine ((List.forall₂_and_left _ _).mpr ⟨shorter, classified⟩).imp fun piece item both => ?_
  exact both.2.extend embeds wellFormed' fun text node inside => reads text node (by omega)

/-- A text keeps its statements if all shorter texts keep their trees. -/
private theorem parseStatements_extend (embeds : Embeds levels levels' token change)
    (wellFormed : levels.WellFormed) (wellFormed' : levels'.WellFormed) {text : List Char}
    {nodes : List Node} (reads : ReadsBelow text.length (parseBody levels) (parseBody levels'))
    (parsed : parseStatements levels (parseBody levels) text = .ok nodes) :
    parseStatements levels' (parseBody levels') text = .ok nodes := by
  obtain ⟨statements, divided, read⟩ := bind_eq_ok.mp parsed
  have parsedEach := mapM_eq_ok.mp read
  have more := embeds.moreGlyphs wellFormed wellFormed'
  have settled : ∀ statement ∈ statements, ∀ char, Token.word [char] ∈ statement.tokens →
      levels'.isGlyph char → levels.isGlyph char := by
    intro statement member char inTokens glyph'
    obtain ⟨node, parsed⟩ := exists_right_of_forall₂ parsedEach member
    obtain ⟨grouping, _, classified, _⟩ := parseStatement_iff_grouping.mp parsed
    obtain ⟨item, stands⟩ := exists_right_of_forall₂ classified inTokens
    exact isGlyph_of_classified (more.operator char glyph') stands
  have divided' := tokenize_eq_ok.mpr
    (statementsFrom_moreGlyphs more (tokenize_eq_ok.mp divided) settled)
  refine bind_eq_ok.mpr ⟨statements, divided', mapM_eq_ok.mpr ?_⟩
  have shorter := fun statement member => (tokenize_length divided statement member).2
  refine ((List.forall₂_and_left _ _).mpr ⟨shorter, parsedEach⟩).imp fun statement node both => ?_
  exact parseStatement_extend embeds wellFormed' reads both.1 both.2

theorem parseBody_extend (embeds : Embeds levels levels' token change)
    (wellFormed : levels.WellFormed) (wellFormed' : levels'.WellFormed) (bound : Nat) :
    ReadsBelow bound (parseBody levels) (parseBody levels') := by
  induction bound with
  | zero => exact fun _ _ shorter => absurd shorter (Nat.not_lt_zero _)
  | succ bound inductionHypothesis =>
      intro text node shorter read
      rw [parseBody_eq, map_eq_ok] at read ⊢
      obtain ⟨nodes, parsed, grouped⟩ := read
      have reads : ReadsBelow text.length (parseBody levels) (parseBody levels') :=
        fun other node otherShorter => inductionHypothesis other node (by omega)
      exact ⟨nodes, parseStatements_extend embeds wellFormed wellFormed' reads parsed, grouped⟩

end OneMore

end Fixity.Syntax

namespace Fixity.OperatorTable

open Syntax

/-- Defining an operator that is new, without force, leaves every source that parsed its tree. -/
theorem Reachable.parse_define {table table' : OperatorTable} (reachable : table.Reachable)
    {definition : Definition} {implementation : Implementation}
    (unknown : ¬ table.levels.contains definition.token) (unforced : definition.force = false)
    (ok : table.define definition implementation = .ok table') {source : List Char} {tree : Node}
    (parsed : parse table.levels source = .ok tree) : parse table'.levels source = .ok tree := by
  have wellFormed := reachable.wellFormed
  have wellFormed' := (reachable.define definition implementation ok).wellFormed
  obtain ⟨change, embeds⟩ :=
    Embeds.of_define wellFormed unknown (by simp [unforced]) (define_eq_ok ok).1
  rw [parse_eq, map_eq_ok] at parsed ⊢
  obtain ⟨nodes, statements, grouped⟩ := parsed
  have reads := parseBody_extend embeds wellFormed wellFormed' source.length
  exact ⟨nodes, parseStatements_extend embeds wellFormed wellFormed' reads statements, grouped⟩

private theorem parse_sum : parse Levels.initial "a+b".toList =
    .ok (.body [.operation "+" (.identifier "a") (.identifier "b")]) := by
  have divided : statementsFrom Levels.initial.isGlyph [] ['a', '+', 'b'] =
      .ok [⟨[.word ['a'], .word ['+'], .word ['b']], []⟩] := by
    have first : lexeme Levels.initial.isGlyph 'a' ['+', 'b'] =
        .ok (.token (.word ['a']), ['+', 'b']) := by
      rw [Levels.isGlyph_eq]
      rfl
    have second : lexeme Levels.initial.isGlyph '+' ['b'] = .ok (.token (.word ['+']), ['b']) := by
      rw [Levels.isGlyph_eq]
      rfl
    have third : lexeme Levels.initial.isGlyph 'b' [] = .ok (.token (.word ['b']), []) := by
      rw [Levels.isGlyph_eq]
      rfl
    rw [statementsFrom_token first, statementsFrom_token second, statementsFrom_token third,
      statementsFrom_nil]
    rfl
  have parsed : parseStatement Levels.initial (parseBody Levels.initial)
      [.word ['a'], .word ['+'], .word ['b']] =
        .ok (.operation "+" (.identifier "a") (.identifier "b")) :=
    parseStatement_operation (.name (by decide) rfl) (.operator rfl) (.name (by decide) rfl)
  exact (parse_of_statement divided parsed).1

/-- A level for a conjunction between sums and comparisons, opened in the initial table. -/
theorem parse_define_conjunction :
    ∃ table', initial.define ⟨"&&", 4.5, .left, false⟩ ⟨.function 0, true⟩ = .ok table' ∧
      table'.levels.levelOf? "=" = some 6 ∧
      parse table'.levels "a+b".toList =
        .ok (.body [.operation "+" (.identifier "a") (.identifier "b")]) := by
  obtain ⟨table', ok⟩ : ∃ table', initial.define ⟨"&&", 4.5, .left, false⟩ ⟨.function 0, true⟩ =
    .ok table' := ⟨_, rfl⟩
  refine ⟨table', ok, ?_, Reachable.initial.parse_define (by decide) rfl ok parse_sum⟩
  cases ok
  rfl

end Fixity.OperatorTable
