import Fixity.Proofs.Regrouping

/-!
Contract: operators between names, in all the places where they can stand.

Owns:
- `phrase`, an operator between two names with blanks around it;
- its tokens at the top level and inside quotes, where an operator may hold a comment sign but not
  start with one;
- its tokens inside parentheses and brackets, where it may not hold a comment sign at all.

Main statement: what becomes of the operator of a successful definition in each of these places.
-/

namespace Fixity.Syntax

/-- An operator between two names. -/
def phrase (left token right : String) : List Char :=
  left.toList ++ ' ' :: token.toList ++ ' ' :: right.toList

variable {levels : Levels}

/-! ## Names -/

theorem classify_of_readName? {name : String} (read : readName? name.toList = some name) :
    classify name.toList = some (.name name) := by
  obtain ⟨first, others, spelled, start, _⟩ := readName?_chars read
  have noNumber : readNumber? name.toList = none := by
    rw [spelled]
    exact readNumber?_eq_none (no_number_of_isNameStart start) others
  unfold classify
  rw [noNumber, read]
  rfl

/-- A name that is read from a whole token is no operator. -/
theorem classified_name (wellFormed : levels.WellFormed) {name : String}
    (read : readName? name.toList = some name) :
    Classified levels (.word name.toList) (.operand (.identifier name)) := by
  have spelled := classify_of_readName? read
  refine .name (fun known => ?_) spelled
  rw [wellFormed.classify_of_contains known] at spelled
  cases spelled

private theorem lexes_readName? (wellFormed : levels.WellFormed) {name : String}
    (read : readName? name.toList = some name) : Lexes levels (.word name.toList) := by
  obtain ⟨first, others, spelled, start, all⟩ := readName?_chars read
  rw [spelled]
  exact lexes_name wellFormed start all

private theorem nameChars_of_readName? {name : String} (read : readName? name.toList = some name) :
    ∀ char ∈ name.toList, isNameChar char := by
  obtain ⟨first, others, spelled, start, all⟩ := readName?_chars read
  rw [spelled]
  rintro char (_ | ⟨_, member⟩)
  · exact isNameChar_of_isNameStart start
  · exact all char member

/-! ## Phrases -/

section Phrases

variable (wellFormed : levels.WellFormed) {left right token : String}
  (leftName : readName? left.toList = some left) (rightName : readName? right.toList = some right)

include leftName rightName in
/-- The characters of a phrase. -/
private theorem phrase_chars (operators : ∀ char ∈ token.toList, isOperatorChar char) :
    ∀ char ∈ phrase left token right, isNameChar char ∨ isOperatorChar char ∨ char = ' ' := by
  intro char member
  simp only [phrase, List.mem_append, List.mem_cons] at member
  rcases member with (inLeft | blank | inToken) | blank | inRight
  · exact Or.inl (nameChars_of_readName? leftName char inLeft)
  · exact Or.inr (Or.inr blank)
  · exact Or.inr (Or.inl (operators char inToken))
  · exact Or.inr (Or.inr blank)
  · exact Or.inl (nameChars_of_readName? rightName char inRight)

include leftName rightName in
/-- No phrase ends a text literal. -/
private theorem closed_phrase (operators : ∀ char ∈ token.toList, isOperatorChar char) :
    Closed (phrase left token right) := by
  have harmless : ∀ char ∈ ['\\', '\x7b', '\x7d'],
      ¬ (isNameChar char ∨ isOperatorChar char ∨ char = ' ') :=
    List.all_iff_forall_prop.mp (by decide)
  exact closed_of_plain fun char member special =>
    harmless char special (phrase_chars leftName rightName operators char member)

include leftName rightName in
private theorem balanced_phrase (operators : ∀ char ∈ token.toList, isOperatorChar char)
    (noComment : ¬ ['-', '-'] <:+: token.toList) : Balanced 0 (phrase left token right) := by
  have word {name : String} (read : readName? name.toList = some name) : Balanced 0 name.toList :=
    balanced_of_word fun char member => Or.inl (nameChars_of_readName? read char member)
  have whole := ((word leftName).append (balanced_operator operators noComment)).append
    (word rightName)
  unfold phrase
  simpa using whole

include wellFormed leftName

/-- A name and a blank in front of a text. -/
private theorem statementsFrom_name (rest : List Char) :
    statementsFrom levels.isGlyph [] (left.toList ++ ' ' :: rest) =
      statementsFrom levels.isGlyph [.word left.toList] rest := by
  have boundary : Boundary (' ' :: rest) := fun char head => Or.inl (Option.some.inj head).symm
  have name : statementsFrom levels.isGlyph [] (left.toList ++ ' ' :: rest) =
      statementsFrom levels.isGlyph [.word left.toList] (' ' :: rest) :=
    lexes_readName? wellFormed leftName [] _ boundary
  rw [name, statementsFrom_gap rfl]

include rightName in
/-- A phrase is an operation, unless its operator starts like a comment. -/
theorem parse_phrase (known : levels.contains token)
    (noComment : ¬ ['-', '-'] <+: token.toList) :
    parse levels (phrase left token right) =
        .ok (.body [.operation token (.identifier left) (.identifier right)]) ∧
      parseBody levels (phrase left token right) =
        .ok (.operation token (.identifier left) (.identifier right)) := by
  have boundary : Boundary (' ' :: right.toList) := fun char head =>
    Or.inl (Option.some.inj head).symm
  have divided : statementsFrom levels.isGlyph [] (phrase left token right) =
      .ok [⟨[.word left.toList, .word token.toList, .word right.toList], []⟩] := by
    have spelled : phrase left token right =
        left.toList ++ ' ' :: (token.toList ++ ' ' :: right.toList) := by simp [phrase]
    calc statementsFrom levels.isGlyph [] (phrase left token right)
        = statementsFrom levels.isGlyph [.word left.toList] (token.toList ++ ' ' :: right.toList) :=
          by rw [spelled, statementsFrom_name wellFormed leftName]
      _ = statementsFrom levels.isGlyph [.word token.toList, .word left.toList]
            (' ' :: right.toList) := lexes_operator wellFormed known noComment _ _ boundary
      _ = statementsFrom levels.isGlyph [.word token.toList, .word left.toList]
            (right.toList ++ []) := by rw [statementsFrom_gap rfl, List.append_nil]
      _ = statementsFrom levels.isGlyph
            [.word right.toList, .word token.toList, .word left.toList] [] :=
          lexes_readName? wellFormed rightName _ _ nofun
      _ = .ok [⟨[.word left.toList, .word token.toList, .word right.toList], []⟩] :=
          statementsFrom_nil _ _
  obtain ⟨level, listed⟩ := Option.isSome_iff_exists.mp known
  have operator : Classified levels (.word token.toList) (.operator token level) := by
    have stands : Classified levels (.word token.toList)
        (.operator (String.ofList token.toList) level) := .operator (by simpa using listed)
    rwa [String.ofList_toList] at stands
  exact parse_of_statement divided (parseStatement_operation (classified_name wellFormed leftName)
    operator (classified_name wellFormed rightName))

include rightName in
/-- A phrase whose operator starts like a comment is its first name. -/
theorem parse_phrase_comment (operators : ∀ char ∈ token.toList, isOperatorChar char)
    (comments : ['-', '-'] <+: token.toList) :
    parse levels (phrase left token right) = .ok (.body [.identifier left]) ∧
      parseBody levels (phrase left token right) = .ok (.identifier left) := by
  have chars := phrase_chars leftName rightName operators
  obtain ⟨others, spelled⟩ := comments
  have parts : phrase left token right =
      left.toList ++ ' ' :: '-' :: '-' :: (others ++ ' ' :: right.toList) := by
    simp [phrase, ← spelled]
  have oneLine : ('-' :: (others ++ ' ' :: right.toList)).dropWhile (· ≠ '\n') = [] := by
    rw [List.dropWhile_eq_nil_iff]
    intro char member
    have inPhrase : char ∈ phrase left token right := by
      rw [parts]
      simp only [List.mem_append, List.mem_cons] at member ⊢
      tauto
    rw [decide_eq_true_eq]
    rintro rfl
    exact absurd (chars '\n' inPhrase) (by decide)
  have comment : lexeme levels.isGlyph '-' ('-' :: (others ++ ' ' :: right.toList)) =
      .ok (.gap, []) := by
    have gap : lexeme levels.isGlyph '-' ('-' :: (others ++ ' ' :: right.toList)) =
        .ok (.gap, ('-' :: (others ++ ' ' :: right.toList)).dropWhile (· ≠ '\n')) := rfl
    rw [gap, oneLine]
  have divided : statementsFrom levels.isGlyph [] (phrase left token right) =
      .ok [⟨[.word left.toList], []⟩] := by
    rw [parts, statementsFrom_name wellFormed leftName, statementsFrom_gap comment,
      statementsFrom_nil]
    rfl
  exact parse_of_statement divided (parseStatement_operand (classified_name wellFormed leftName))

end Phrases

/-! ## Groups around a phrase -/

/-- A quote around a text is the quote of what the text reads as. -/
theorem parse_quoted {text : List Char} {node : Node} (closed : Closed text)
    (read : parseBody levels text = .ok node) :
    parse levels (Token.quoted text).spelling = .ok (.body [.quoted node]) := by
  have divided : statementsFrom levels.isGlyph [] (Token.quoted text).spelling =
      .ok [⟨[.quoted text], []⟩] := by
    rw [← List.append_nil (Token.quoted text).spelling, lexes_quoted closed [] [] nofun,
      statementsFrom_nil]
    rfl
  exact (parse_of_statement divided (parseStatement_operand (.quoted read))).1

/-- Parentheses and brackets around a text that is passed over. -/
theorem parse_delimited {text : List Char} {node : Node} (balanced : Balanced 0 text)
    (notBlank : ¬ ∀ char ∈ text, Text.isBlank char) (read : parseBody levels text = .ok node) :
    parse levels (Token.expression text).spelling = .ok (.body [node]) ∧
      parse levels (Token.list text).spelling = .ok (.body [.list [node]]) := by
  have inside := balanced.mono (Nat.zero_le 1)
  have single : splitElements text = [text] := by
    have whole := splitElements_intercalate (List.cons_ne_nil text [])
      fun element member => (List.mem_singleton.mp member) ▸ balanced.toPassed
    rwa [List.intercalate_singleton] at whole
  have expression : statementsFrom levels.isGlyph [] (Token.expression text).spelling =
      .ok [⟨[.expression text], []⟩] := by
    rw [← List.append_nil (Token.expression text).spelling, lexes_expression inside [] [] nofun,
      statementsFrom_nil]
    rfl
  have list : statementsFrom levels.isGlyph [] (Token.list text).spelling =
      .ok [⟨[.list text], []⟩] := by
    rw [← List.append_nil (Token.list text).spelling, lexes_list inside [] [] nofun,
      statementsFrom_nil]
    rfl
  have elements : List.Forall₂ (fun element node => parseBody levels element = .ok node)
      (splitElements text) [node] := by
    rw [single]
    exact .cons read .nil
  exact ⟨(parse_of_statement expression (parseStatement_operand (.expression read))).1,
    (parse_of_statement list (parseStatement_operand (.list notBlank elements))).1⟩

/-- A comment in the last line of a group hides the delimiter that closes it. -/
theorem groupInterior_hidden {opener closer : Char} (delimiters : Delimiters opener closer)
    {depth : Nat} {text rest : List Char} (plain : ∀ char ∈ text, char ∉ scanned)
    (comments : ['-', '-'] <:+: text) (oneLine : '\n' ∉ text ++ rest) :
    groupInterior opener closer depth (text ++ rest) = none := by
  induction text with
  | nil => exact absurd comments.length_le (by simp)
  | cons char text inductionHypothesis =>
      rw [List.cons_append, List.mem_cons, not_or] at oneLine
      by_cases starts : char = '-' ∧ (text ++ rest).head? = some '-'
      · have dropped : (text ++ rest).dropWhile (· ≠ '\n') = [] := by
          rw [List.dropWhile_eq_nil_iff]
          intro other member
          rw [decide_eq_true_eq]
          rintro rfl
          exact oneLine.2 member
        rw [List.cons_append, starts.1, groupInterior_comment starts.2, dropped, groupInterior]
      · have special := plain char List.mem_cons_self
        simp only [scanned, List.mem_cons, List.not_mem_nil, or_false, not_or] at special
        have noOpener : char ≠ opener := by
          rcases delimiters with ⟨rfl, rfl⟩ | ⟨rfl, rfl⟩
          · exact special.2.2.1
          · exact special.2.2.2.2.1
        have noCloser : char ≠ closer := by
          rcases delimiters with ⟨rfl, rfl⟩ | ⟨rfl, rfl⟩
          · exact special.2.2.2.1
          · exact special.2.2.2.2.2.1
        have commentsBehind : ['-', '-'] <:+: text := by
          rcases List.infix_cons_iff.mp comments with front | behind
          · obtain ⟨others, same⟩ := front
            cases same
            exact absurd ⟨rfl, rfl⟩ starts
          · exact behind
        rw [List.cons_append, groupInterior_step special.1 starts fun ends => noCloser ends.1,
          nesting, if_neg noOpener, if_neg noCloser,
          inductionHypothesis (fun other member => plain other (List.mem_cons_of_mem _ member))
            commentsBehind oneLine.2]
        rfl

/-- Parentheses and brackets around a line with a comment are never closed. -/
theorem parse_hidden {text : List Char} (plain : ∀ char ∈ text, char ∉ scanned)
    (comments : ['-', '-'] <:+: text) (oneLine : '\n' ∉ text) :
    parse levels (Token.expression text).spelling = .error (.incompleteGroup .expression 1) ∧
      parse levels (Token.list text).spelling = .error (.incompleteGroup .list 1) := by
  have hidden {opener closer : Char} (delimiters : Delimiters opener closer) :
      groupInterior opener closer 0 (text ++ [closer]) = none := by
    refine groupInterior_hidden delimiters plain comments ?_
    rcases delimiters with ⟨rfl, rfl⟩ | ⟨rfl, rfl⟩ <;> simp [oneLine]
  have expression : lexeme levels.isGlyph '(' (text ++ [')']) =
      .error (.incompleteGroup .expression) := by
    show group .expression .expression (groupInterior '(' ')' 0 (text ++ [')'])) = _
    rw [hidden (Or.inl ⟨rfl, rfl⟩)]
    rfl
  have list : lexeme levels.isGlyph '[' (text ++ [']']) = .error (.incompleteGroup .list) := by
    show group .list .list (groupInterior '[' ']' 0 (text ++ [']'])) = _
    rw [hidden (Or.inr ⟨rfl, rfl⟩)]
    rfl
  exact ⟨parse_of_fault expression, parse_of_fault list⟩

end Fixity.Syntax

namespace Fixity.OperatorTable

open Syntax

/-- What becomes of a defined operator between two names. At the top level and in a quote it makes
an operation unless it starts like a comment, and then only the first name is left. In parentheses
and brackets it makes an operation unless it looks like a comment anywhere, and then the group is
never closed. -/
theorem Reachable.parse_defined {table table' : OperatorTable} (reachable : table.Reachable)
    {definition : Definition} {implementation : Implementation}
    (defined : table.define definition implementation = .ok table') {left right : String}
    (leftName : readName? left.toList = some left)
    (rightName : readName? right.toList = some right) :
    let written := phrase left definition.token right
    let operation := Node.operation definition.token (.identifier left) (.identifier right)
    (¬ ['-', '-'] <+: definition.token.toList →
      parse table'.levels written = .ok (.body [operation]) ∧
        parse table'.levels (Token.quoted written).spelling = .ok (.body [.quoted operation])) ∧
    (['-', '-'] <+: definition.token.toList →
      parse table'.levels written = .ok (.body [.identifier left]) ∧
        parse table'.levels (Token.quoted written).spelling =
          .ok (.body [.quoted (.identifier left)])) ∧
    (¬ ['-', '-'] <:+: definition.token.toList →
      parse table'.levels (Token.expression written).spelling = .ok (.body [operation]) ∧
        parse table'.levels (Token.list written).spelling = .ok (.body [.list [operation]])) ∧
    (['-', '-'] <:+: definition.token.toList →
      parse table'.levels (Token.expression written).spelling =
          .error (.incompleteGroup .expression 1) ∧
        parse table'.levels (Token.list written).spelling =
          .error (.incompleteGroup .list 1)) := by
  have wellFormed := (reachable.define definition implementation defined).wellFormed
  have placed := (define_eq_ok defined).1
  have known : table'.levels.contains definition.token :=
    Levels.contains_iff.mpr (Or.inl ((Levels.tokens_define placed).mem_iff.mpr List.mem_cons_self))
  obtain ⟨_, operators⟩ := wellFormed.isOperatorChar_of_contains known
  have closed := closed_phrase leftName rightName operators
  have chars := phrase_chars leftName rightName operators
  intro written operation
  refine ⟨fun noComment => ?_, fun comments => ?_, fun noComment => ?_, fun comments => ?_⟩
  · obtain ⟨topLevel, inside⟩ := parse_phrase wellFormed leftName rightName known noComment
    exact ⟨topLevel, parse_quoted closed inside⟩
  · obtain ⟨topLevel, inside⟩ :=
      parse_phrase_comment wellFormed leftName rightName operators comments
    exact ⟨topLevel, parse_quoted closed inside⟩
  · have inside := (parse_phrase wellFormed leftName rightName known (noComment ·.isInfix)).2
    refine parse_delimited (balanced_phrase leftName rightName operators noComment) ?_ inside
    intro blank
    obtain ⟨first, others, spelled, start, _⟩ := readName?_chars leftName
    refine (word_start (Or.inl start)).2.2.1 (blank first ?_)
    simp [written, phrase, spelled]
  · have harmless : ∀ char ∈ '\n' :: scanned,
        ¬ (isNameChar char ∨ isOperatorChar char ∨ char = ' ') :=
      List.all_iff_forall_prop.mp (by decide)
    have inPhrase : ['-', '-'] <:+: written := by
      refine comments.trans ⟨left.toList ++ [' '], ' ' :: right.toList, ?_⟩
      simp [written, phrase]
    refine parse_hidden (fun char member special => ?_) inPhrase fun newline => ?_
    · exact harmless char (List.mem_cons_of_mem _ special) (chars char member)
    · exact harmless '\n' List.mem_cons_self (chars '\n' newline)

/-- Two operators that look like comments, each on a level of its own behind the tightest one. One
starts like a comment; the other one ends like one and is of no use in parentheses. -/
theorem parse_defined_comments :
    (∃ table', initial.define ⟨"--", 0.5, .left, false⟩ ⟨.function 0, true⟩ = .ok table' ∧
      parse table'.levels "a -- b".toList = .ok (.body [.identifier "a"])) ∧
    (∃ table', initial.define ⟨"+--", 0.5, .left, false⟩ ⟨.function 0, true⟩ = .ok table' ∧
      parse table'.levels "a +-- b".toList =
        .ok (.body [.operation "+--" (.identifier "a") (.identifier "b")]) ∧
      parse table'.levels "(a +-- b)".toList = .error (.incompleteGroup .expression 1)) := by
  have leftName : readName? "a".toList = some "a" := by decide
  have rightName : readName? "b".toList = some "b" := by decide
  constructor
  · obtain ⟨table', ok⟩ : ∃ table',
      initial.define ⟨"--", 0.5, .left, false⟩ ⟨.function 0, true⟩ = .ok table' := ⟨_, rfl⟩
    obtain ⟨_, startsLikeComment, _⟩ := Reachable.initial.parse_defined ok leftName rightName
    have spelled : "a -- b".toList = phrase "a" "--" "b" := by decide
    rw [spelled]
    exact ⟨table', ok, (startsLikeComment (by decide)).1⟩
  · obtain ⟨table', ok⟩ : ∃ table',
      initial.define ⟨"+--", 0.5, .left, false⟩ ⟨.function 0, true⟩ = .ok table' := ⟨_, rfl⟩
    obtain ⟨noComment, _, _, looksLikeComment⟩ :=
      Reachable.initial.parse_defined ok leftName rightName
    have spelled : "a +-- b".toList = phrase "a" "+--" "b" := by decide
    have grouped : "(a +-- b)".toList = (Token.expression (phrase "a" "+--" "b")).spelling := by
      decide
    rw [spelled, grouped]
    exact ⟨table', ok, (noComment (by decide)).1, (looksLikeComment (by decide)).1⟩

end Fixity.OperatorTable
