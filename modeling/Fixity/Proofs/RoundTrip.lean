import Fixity.Proofs.Readable
import Fixity.Proofs.Spelling

/-!
Contract: a tree reads back from its source form.

Owns:
- `Node.numbers`, the numbers a tree shows, and `Printable`, those that read back;
- `atom` and `statementTokens`, the tokens a tree is written as;
- the source form of a readable tree as a balanced text;
- `Readable.parseBody_render`: that form is read as the tree itself.

Main statement: whatever is read from a text with the operators of a table is read again from its
source form, provided no operator looks like a comment.
-/

namespace Fixity

namespace Node

mutual

/-- The numbers of a tree outside the splices of its texts. -/
def numbers : Node → List Number
  | .body statements => numbersAll statements
  | .list elements => numbersAll elements
  | .number value => [value]
  | .text _ _ => []
  | .identifier _ => []
  | .operation _ left right => left.numbers ++ right.numbers
  | .quoted inner => inner.numbers

/-- The numbers of a row of trees. -/
def numbersAll : List Node → List Number
  | [] => []
  | node :: rest => node.numbers ++ numbersAll rest

end

theorem mem_numbersAll {nodes : List Node} {number : Number} :
    number ∈ numbersAll nodes ↔ ∃ node ∈ nodes, number ∈ node.numbers := by
  induction nodes with
  | nil => simp [numbersAll]
  | cons node rest inductionHypothesis => simp [numbersAll, inductionHypothesis]

end Node

namespace Syntax

/-- A number whose literal reads back. -/
structure Printable (number : Number) : Prop where
  presentable : Presentable number.imaginary
  readsBack : ∀ value ∈ [number.real, number.imaginary], ReadsBack (magnitude value)

/-- The token that an operand is written as. -/
def atom : Node → Token
  | .body statements => .expression (Node.renderAll [';', ' '] statements)
  | .list elements => .list (Node.renderAll [',', ' '] elements)
  | .number value => .word (Node.renderNumber value)
  | .text source _ => .text source.toList
  | .identifier name => .word name.toList
  | .operation token left right => .expression (Node.operation token left right).render
  | .quoted inner => .quoted inner.render

/-- The tokens of a statement that is one tree. -/
def statementTokens : Node → List Token
  | .operation token left right => [atom left, .word token.toList, atom right]
  | node => [atom node]

theorem spelling_atom (node : Node) : (atom node).spelling = node.enclose node.render := by
  cases node <;> simp [atom, Token.spelling, Node.enclose, Node.render]

/-- A statement is an operation or one operand. -/
theorem statement_cases (node : Node) :
    (∃ token left right, node = .operation token left right) ∨
      (statementTokens node = [atom node] ∧ node.render = (atom node).spelling) := by
  cases node with
  | operation token left right => exact Or.inl ⟨token, left, right, rfl⟩
  | _ => exact Or.inr ⟨rfl, by rw [spelling_atom]; rfl⟩

variable {levels : Levels}

/-- A name is made of name characters. -/
theorem readName?_chars {characters : List Char} {name : String}
    (read : readName? characters = some name) :
    ∃ first others, characters = first :: others ∧ isNameStart first ∧
      ∀ char ∈ others, isNameChar char := by
  obtain ⟨first, others, spelled, start, all, _⟩ := readName?_eq_some_iff.mp read
  exact ⟨first, others, spelled, start, all⟩

/-! ## Balance -/

/-- The characters of a text with no meaning for any scanner. -/
theorem balanced_of_word {text : List Char}
    (all : ∀ char ∈ text, isNameChar char ∨ char = negativeGlyph ∨ char = '.') :
    Balanced 0 text := by
  have harmless : ∀ char ∈ ['\\', '\x7b', '\x7d', '(', ')', '[', ']', ',', '-'],
      ¬ (isNameChar char ∨ char = negativeGlyph ∨ char = '.') :=
    List.all_iff_forall_prop.mp (by decide)
  refine balanced_of_plain ?_ ?_ ?_ ?_
  · intro minus
    have member : '-' ∈ text := List.mem_of_mem_head? minus
    exact harmless '-' (by decide) (all '-' member)
  · intro char member special
    exact harmless char (List.mem_append_left [',', '-'] special) (all char member)
  · intro comma
    exact absurd (all ',' comma) (harmless ',' (by decide))
  · intro comment
    have member : '-' ∈ text := comment.subset (by decide)
    exact harmless '-' (by decide) (all '-' member)

private theorem balanced_enclose (node : Node) {form : List Char} (balanced : Balanced 0 form) :
    Balanced 0 (node.enclose form) := by
  cases node with
  | operation token left right =>
      exact (balanced.mono (Nat.zero_le 1)).delimited (Or.inl ⟨rfl, rfl⟩)
  | _ => exact balanced

/-- A row of balanced forms is balanced inside a group. -/
private theorem balanced_renderAll {separator : List Char} (separates : Balanced 1 separator)
    {nodes : List Node} (each : ∀ node ∈ nodes, Balanced 0 node.render) :
    Balanced 1 (Node.renderAll separator nodes) := by
  induction nodes with
  | nil =>
      rw [Node.renderAll]
      exact balanced_of_plain (by simp) (by simp) (by simp) (by decide)
  | cons node rest inductionHypothesis =>
      have first : Balanced 1 node.render := (each node List.mem_cons_self).mono (Nat.zero_le 1)
      cases rest with
      | nil =>
          rw [Node.renderAll]
          exact first
      | cons next rest =>
          rw [Node.renderAll]
          exact (first.append separates).append
            (inductionHypothesis fun other member => each other (List.mem_cons_of_mem _ member))

/-- An operator with blanks around it. -/
theorem balanced_operator {token : String}
    (operators : ∀ char ∈ token.toList, isOperatorChar char)
    (noComment : ¬ ['-', '-'] <:+: token.toList) : Balanced 0 (' ' :: token.toList ++ [' ']) := by
  have harmless : ∀ char ∈ ['\\', '\x7b', '\x7d', '(', ')', '[', ']', ','],
      ¬ (isOperatorChar char ∨ char = ' ') :=
    List.all_iff_forall_prop.mp (by decide)
  have all : ∀ char ∈ ' ' :: token.toList ++ [' '], isOperatorChar char ∨ char = ' ' := by
    intro char member
    simp only [List.cons_append, List.mem_cons, List.mem_append, List.not_mem_nil,
      or_false] at member
    rcases member with blank | inToken | blank
    · exact Or.inr blank
    · exact Or.inl (operators char inToken)
    · exact Or.inr blank
  refine balanced_of_plain (by simp) ?_ ?_ ?_
  · intro char member special
    exact harmless char (List.mem_append_left [','] special) (all char member)
  · intro comma
    exact absurd (all ',' comma) (harmless ',' (by decide))
  · intro comment
    rcases List.infix_cons_iff.mp comment with atStart | behind
    · have same := (List.cons_prefix_cons.mp atStart).1
      exact absurd same (by decide)
    · rcases List.infix_concat_iff.mp behind with atEnd | inside
      · have last := atEnd.getLast (by simp)
        simp at last
      · exact noComment inside

/-- No operator looks like a comment. -/
def Levels.Uncommented (levels : Levels) : Prop :=
  ∀ token, levels.contains token → ¬ ['-', '-'] <:+: token.toList

section Table

variable (wellFormed : levels.WellFormed) (uncommented : levels.Uncommented)
include wellFormed uncommented

/-- The source form of a readable tree is balanced. -/
theorem Readable.balanced {node : Node} (readable : Readable levels node)
    (printable : ∀ number ∈ node.numbers, Printable number) : Balanced 0 node.render := by
  induction readable with
  | body notSingle each inductionHypothesis =>
      rw [Node.render]
      refine (balanced_renderAll ?_ fun node member => ?_).delimited (Or.inl ⟨rfl, rfl⟩)
      · exact balanced_of_plain (by decide) (by simp) (by decide) (by decide)
      · exact inductionHypothesis node member fun number inNode =>
          printable number (Node.mem_numbersAll.mpr ⟨node, member, inNode⟩)
  | list each inductionHypothesis =>
      rw [Node.render]
      refine (balanced_renderAll ?_ fun node member => ?_).delimited (Or.inr ⟨rfl, rfl⟩)
      · exact balanced_of_plain (by decide) (by simp) (by decide) (by decide)
      · exact inductionHypothesis node member fun number inNode =>
          printable number (Node.mem_numbersAll.mpr ⟨node, member, inNode⟩)
  | @number value part =>
      obtain ⟨presentable, readsBack⟩ := printable value (List.mem_singleton_self value)
      obtain ⟨first, others, rendered, start, all⟩ := renderNumber_chars part presentable readsBack
      have digit : ∀ {char : Char}, char.isDigit → isNameChar char := by
        intro char digit
        simp [isNameChar, Char.isAlphanum, digit]
      rw [Node.render, rendered]
      refine balanced_of_word fun char member => ?_
      rcases List.mem_cons.mp member with rfl | inOthers
      · exact start.imp digit Or.inl
      · rcases all char inOthers with isDigit | rfl | rfl
        · exact Or.inl (digit isDigit)
        · exact Or.inr (Or.inr rfl)
        · exact Or.inl (by decide)
  | text closed read =>
      rw [Node.render]
      exact closed.balanced
  | @identifier name spelled =>
      obtain ⟨_, read, _⟩ := classify_eq_name spelled
      rw [Node.render]
      obtain ⟨first, others, characters, start, all⟩ := readName?_chars read
      rw [characters]
      refine balanced_of_word fun char member => Or.inl ?_
      rcases List.mem_cons.mp member with rfl | inOthers
      · exact isNameChar_of_isNameStart start
      · exact all char inOthers
  | @operation token left right known leftReadable rightReadable leftHypothesis rightHypothesis =>
      have leftBalanced := leftHypothesis fun number inLeft =>
        printable number (List.mem_append_left _ inLeft)
      have rightBalanced := rightHypothesis fun number inRight =>
        printable number (List.mem_append_right _ inRight)
      have whole := ((balanced_enclose left leftBalanced).append
        (balanced_operator (wellFormed.isOperatorChar_of_contains known).2
          (uncommented token known))).append (balanced_enclose right rightBalanced)
      rw [Node.render]
      simpa using whole
  | quoted readable inductionHypothesis =>
      have quote : Balanced 0 ['\x60'] :=
        balanced_of_plain (by decide) (by simp) (by decide) (by decide)
      rw [Node.render]
      exact quote.append (inductionHypothesis printable).literal.balanced

/-! ## Tokens -/

/-- The token of a readable operand is cut from its form. -/
theorem Readable.lexes {node : Node} (readable : Readable levels node)
    (printable : ∀ number ∈ node.numbers, Printable number) : Lexes levels (atom node) := by
  have semicolons : Balanced 1 [';', ' '] :=
    balanced_of_plain (by decide) (by simp) (by decide) (by decide)
  have commas : Balanced 1 [',', ' '] :=
    balanced_of_plain (by decide) (by simp) (by decide) (by decide)
  cases readable with
  | body notSingle each =>
      refine lexes_expression (balanced_renderAll semicolons fun node member => ?_)
      exact (each node member).balanced wellFormed uncommented fun number inNode =>
        printable number (Node.mem_numbersAll.mpr ⟨node, member, inNode⟩)
  | list each =>
      refine lexes_list (balanced_renderAll commas fun node member => ?_)
      exact (each node member).balanced wellFormed uncommented fun number inNode =>
        printable number (Node.mem_numbersAll.mpr ⟨node, member, inNode⟩)
  | @number value part =>
      obtain ⟨presentable, readsBack⟩ := printable value (List.mem_singleton_self value)
      obtain ⟨first, others, rendered, start, all⟩ := renderNumber_chars part presentable readsBack
      rw [atom, rendered]
      exact lexes_number wellFormed start all
  | text closed read => exact lexes_text closed
  | @identifier name spelled =>
      obtain ⟨first, others, characters, start, all⟩ :=
        readName?_chars (classify_eq_name spelled).2.1
      rw [atom, characters]
      exact lexes_name wellFormed start all
  | operation known leftReadable rightReadable =>
      have whole := (Readable.operation known leftReadable rightReadable).balanced wellFormed
        uncommented printable
      exact lexes_expression (whole.mono (Nat.zero_le 1))
  | quoted inside =>
      exact lexes_quoted (inside.balanced wellFormed uncommented printable).literal

end Table

private theorem statementsFrom_blank (tokens : List Token) (rest : List Char) :
    statementsFrom levels.isGlyph tokens (' ' :: rest) =
      statementsFrom levels.isGlyph tokens rest :=
  statementsFrom_gap rfl

/-- The tokens of a statement are cut from its form. -/
theorem statementsFrom_render (wellFormed : levels.WellFormed) (uncommented : levels.Uncommented)
    {node : Node} (readable : Readable levels node)
    (printable : ∀ number ∈ node.numbers, Printable number) {rest : List Char}
    (boundary : Boundary rest) :
    statementsFrom levels.isGlyph [] (node.render ++ rest) =
      statementsFrom levels.isGlyph (statementTokens node).reverse rest := by
  rcases statement_cases node with ⟨token, left, right, rfl⟩ | ⟨single, rendered⟩
  · cases readable with
    | operation known leftReadable rightReadable =>
        have leftLexes := leftReadable.lexes wellFormed uncommented fun number inLeft =>
          printable number (List.mem_append_left _ inLeft)
        have rightLexes := rightReadable.lexes wellFormed uncommented fun number inRight =>
          printable number (List.mem_append_right _ inRight)
        have operatorLexes := lexes_operator wellFormed known (uncommented token known ·.isInfix)
        have blank : ∀ text, Boundary (' ' :: text) := fun text char head => by
          cases head
          exact Or.inl rfl
        have spelled : (Node.operation token left right).render ++ rest =
            (atom left).spelling ++
              (' ' :: ((Token.word token.toList).spelling ++
                (' ' :: ((atom right).spelling ++ rest)))) := by
          rw [spelling_atom, spelling_atom, Node.render]
          simp [Token.spelling]
        rw [spelled, leftLexes _ _ (blank _), statementsFrom_blank, operatorLexes _ _ (blank _),
          statementsFrom_blank, rightLexes _ _ boundary]
        rfl
  · rw [rendered, single, readable.lexes wellFormed uncommented printable _ _ boundary]
    rfl

theorem statementTokens_ne_nil (node : Node) : statementTokens node ≠ [] := by
  cases node <;> simp [statementTokens]

/-- The statements of a row of readable trees are cut from its form. -/
theorem statementsFrom_renderAll (wellFormed : levels.WellFormed)
    (uncommented : levels.Uncommented) {nodes : List Node}
    (readable : ∀ node ∈ nodes, Readable levels node)
    (printable : ∀ number ∈ Node.numbersAll nodes, Printable number) :
    ∃ statements, statementsFrom levels.isGlyph [] (Node.renderAll [';', ' '] nodes) =
      .ok statements ∧ statements.map (·.tokens) = nodes.map statementTokens := by
  induction nodes with
  | nil =>
      rw [Node.renderAll, statementsFrom_nil]
      exact ⟨[], rfl, rfl⟩
  | cons node rest inductionHypothesis =>
      have firstReadable := readable node List.mem_cons_self
      have firstPrintable : ∀ number ∈ node.numbers, Printable number := fun number inNode =>
        printable number (List.mem_append_left _ inNode)
      have inhabited : ¬ (statementTokens node).reverse.isEmpty := by
        simpa using statementTokens_ne_nil node
      cases rest with
      | nil =>
          have ends : Boundary [] := nofun
          have cut := statementsFrom_render wellFormed uncommented firstReadable firstPrintable ends
          rw [Node.renderAll, ← List.append_nil node.render, cut, statementsFrom_nil,
            if_neg inhabited]
          exact ⟨_, rfl, by simp⟩
      | cons next rest =>
          obtain ⟨statements, others, tokens⟩ := inductionHypothesis
            (fun other member => readable other (List.mem_cons_of_mem _ member))
            (fun number member => printable number (List.mem_append_right _ member))
          have boundary : Boundary (';' :: ' ' :: Node.renderAll [';', ' '] (next :: rest)) := by
            intro char head
            cases head
            exact Or.inr rfl
          have cut := statementsFrom_render wellFormed uncommented firstReadable firstPrintable
            boundary
          have spelled : Node.renderAll [';', ' '] (node :: next :: rest) =
              node.render ++ (';' :: ' ' :: Node.renderAll [';', ' '] (next :: rest)) := by
            rw [Node.renderAll]
            simp
          rw [spelled, cut, statementsFrom_separator _ rfl, if_neg inhabited,
            statementsFrom_blank, others]
          exact ⟨_, rfl, by simp [tokens]⟩

/-! ## Elements of lists -/

/-- The form of a readable tree starts with a character that is not blank. -/
private theorem render_head {node : Node} (readable : Readable levels node)
    (printable : ∀ number ∈ node.numbers, Printable number) :
    ∃ char ∈ node.render, ¬ Text.isBlank char := by
  induction readable with
  | body notSingle each inductionHypothesis => exact ⟨'(', by simp [Node.render], by decide⟩
  | list each inductionHypothesis => exact ⟨'[', by simp [Node.render], by decide⟩
  | @number value part =>
      obtain ⟨presentable, readsBack⟩ := printable value (List.mem_singleton_self value)
      obtain ⟨first, others, rendered, start, _⟩ := renderNumber_chars part presentable readsBack
      exact ⟨first, by simp [Node.render, rendered], (word_start (Or.inr start)).2.2.1⟩
  | text closed read => exact ⟨'\x7b', by simp [Node.render], by decide⟩
  | @identifier name spelled =>
      obtain ⟨first, others, characters, start, _⟩ :=
        readName?_chars (classify_eq_name spelled).2.1
      exact ⟨first, by simp [Node.render, characters], (word_start (Or.inl start)).2.2.1⟩
  | @operation token left right known leftReadable rightReadable leftHypothesis rightHypothesis =>
      obtain ⟨char, inLeft, notBlank⟩ := leftHypothesis fun number inLeft =>
        printable number (List.mem_append_left _ inLeft)
      have inEnclosed : char ∈ left.enclose left.render := by
        unfold Node.enclose
        split
        · simp [inLeft]
        · exact inLeft
      exact ⟨char, by simp [Node.render, inEnclosed], notBlank⟩
  | quoted readable inductionHypothesis => exact ⟨'\x60', by simp [Node.render], by decide⟩

private theorem renderAll_eq_intercalate (node : Node) (rest : List Node) :
    Node.renderAll [',', ' '] (node :: rest) =
      [','].intercalate (node.render :: rest.map fun other => ' ' :: other.render) := by
  induction rest generalizing node with
  | nil => rw [Node.renderAll, List.map_nil, List.intercalate_singleton]
  | cons next rest inductionHypothesis =>
      rw [Node.renderAll, inductionHypothesis, List.map_cons, List.intercalate_cons_cons]
      cases rest with
      | nil => simp
      | cons other rest => simp [List.intercalate_cons_cons]

/-- The form of a list divides into the forms of its elements, a blank in front of all but one. -/
private theorem splitElements_renderAll {node : Node} {rest : List Node}
    (each : ∀ other ∈ node :: rest, Balanced 0 other.render) :
    splitElements (Node.renderAll [',', ' '] (node :: rest)) =
      node.render :: rest.map fun other => ' ' :: other.render := by
  rw [renderAll_eq_intercalate]
  apply splitElements_intercalate (by simp)
  rintro element (_ | ⟨_, member⟩)
  · exact (each node List.mem_cons_self).toPassed
  · obtain ⟨other, inRest, rfl⟩ := List.mem_map.mp member
    have blank : Passed 0 [' '] :=
      passed_of_plain (by simp) (by simp) fun comment => absurd comment.length_le (by simp)
    exact blank.append (each other (List.mem_cons_of_mem _ inRest)).toPassed (.of_last (by decide))

private theorem parseBody_blank {text : List Char} {node : Node}
    (parsed : parseBody levels text = .ok node) : parseBody levels (' ' :: text) = .ok node := by
  rw [parseBody_eq, map_eq_ok] at parsed ⊢
  obtain ⟨nodes, parsed, grouped⟩ := parsed
  obtain ⟨statements, divided, read⟩ := bind_eq_ok.mp parsed
  have divided' : tokenize levels.isGlyph (' ' :: text) = .ok statements := by
    rw [tokenize_eq_ok] at divided ⊢
    rw [statementsFrom_blank, divided]
  exact ⟨nodes, bind_eq_ok.mpr ⟨statements, divided', read⟩, grouped⟩

/-! ## Trees -/

/-- A tree reads back as a statement, and its token as an operand. -/
private structure Restored (levels : Levels) (node : Node) : Prop where
  statement : parseStatement levels (parseBody levels) (statementTokens node) = .ok node
  operand : Classified levels (atom node) (.operand node)

private theorem restored_of_operand {node : Node} (single : statementTokens node = [atom node])
    (operand : Classified levels (atom node) (.operand node)) : Restored levels node where
  statement := by
    rw [single]
    exact parseStatement_operand operand
  operand := operand

section Trees

variable (wellFormed : levels.WellFormed) (uncommented : levels.Uncommented)
include wellFormed uncommented

/-- A row of readable trees that are restored as statements is read from its form. -/
private theorem parseBody_renderAll {nodes : List Node}
    (readable : ∀ node ∈ nodes, Readable levels node)
    (printable : ∀ number ∈ Node.numbersAll nodes, Printable number)
    (restored : ∀ node ∈ nodes,
      parseStatement levels (parseBody levels) (statementTokens node) = .ok node) :
    parseBody levels (Node.renderAll [';', ' '] nodes) = .ok (groupNode nodes) := by
  obtain ⟨statements, divided, tokens⟩ :=
    statementsFrom_renderAll wellFormed uncommented readable printable
  have each : List.Forall₂ (fun statement node =>
      parseStatement levels (parseBody levels) statement.tokens = .ok node) statements nodes := by
    have rows : List.Forall₂ (fun tokens node =>
        parseStatement levels (parseBody levels) tokens = .ok node)
          (statements.map (·.tokens)) nodes := by
      rw [tokens, List.forall₂_map_left_iff, List.forall₂_same]
      exact restored
    exact List.forall₂_map_left_iff.mp rows
  rw [parseBody_eq, map_eq_ok]
  exact ⟨nodes, bind_eq_ok.mpr ⟨statements, tokenize_eq_ok.mpr divided, mapM_eq_ok.mpr each⟩, rfl⟩

private theorem parseBody_statement {node : Node} (readable : Readable levels node)
    (printable : ∀ number ∈ node.numbers, Printable number)
    (restored : parseStatement levels (parseBody levels) (statementTokens node) = .ok node) :
    parseBody levels node.render = .ok node := by
  have row : parseBody levels (Node.renderAll [';', ' '] [node]) = .ok (groupNode [node]) :=
    parseBody_renderAll wellFormed uncommented (by simpa using readable)
      (by simpa [Node.numbersAll] using printable) (by simpa using restored)
  rw [Node.renderAll] at row
  exact row

/-- A list of readable trees is divided into their forms again. -/
private theorem classified_list {elements : List Node}
    (each : ∀ node ∈ elements, Readable levels node)
    (printable : ∀ node ∈ elements, ∀ number ∈ node.numbers, Printable number)
    (read : ∀ node ∈ elements, parseBody levels node.render = .ok node) :
    Classified levels (atom (.list elements)) (.operand (.list elements)) := by
  cases elements with
  | nil =>
      rw [atom, Node.renderAll]
      exact .emptyList nofun
  | cons first rest =>
      have firstMember : first ∈ first :: rest := List.mem_cons_self
      have divided := splitElements_renderAll fun other member =>
        (each other member).balanced wellFormed uncommented (printable other member)
      have notBlank :
          ¬ ∀ char ∈ Node.renderAll [',', ' '] (first :: rest), Text.isBlank char := by
        intro blank
        obtain ⟨char, inFirst, notBlank⟩ :=
          render_head (each first firstMember) (printable first firstMember)
        apply notBlank
        apply blank char
        cases rest with
        | nil =>
            rw [Node.renderAll]
            exact inFirst
        | cons next rest =>
            rw [Node.renderAll]
            exact List.mem_append_left _ (List.mem_append_left _ inFirst)
      apply Classified.list notBlank
      rw [divided]
      refine .cons (read first firstMember) ?_
      rw [List.forall₂_map_left_iff, List.forall₂_same]
      exact fun node member => parseBody_blank (read node (List.mem_cons_of_mem _ member))

private theorem Readable.restored {node : Node} (readable : Readable levels node)
    (printable : ∀ number ∈ node.numbers, Printable number) : Restored levels node := by
  have unknown : ∀ {characters literal}, classify characters = some literal →
      ¬ levels.contains (String.ofList characters) := by
    intro characters literal spelled known
    rw [wellFormed.classify_of_contains known] at spelled
    cases spelled
  induction readable with
  | @body statements notSingle each inductionHypothesis =>
      have inEach : ∀ node ∈ statements, ∀ number ∈ node.numbers, Printable number :=
        fun node member number inNode =>
          printable number (Node.mem_numbersAll.mpr ⟨node, member, inNode⟩)
      have read := parseBody_renderAll wellFormed uncommented each printable fun node member =>
        (inductionHypothesis node member (inEach node member)).statement
      have grouped : groupNode statements = .body statements := by
        match statements, notSingle with
        | [], _ => rfl
        | _ :: _ :: _, _ => rfl
      rw [grouped] at read
      exact restored_of_operand rfl (.expression read)
  | @list elements each inductionHypothesis =>
      have inEach : ∀ node ∈ elements, ∀ number ∈ node.numbers, Printable number :=
        fun node member number inNode =>
          printable number (Node.mem_numbersAll.mpr ⟨node, member, inNode⟩)
      have read : ∀ node ∈ elements, parseBody levels node.render = .ok node := fun node member =>
        parseBody_statement wellFormed uncommented (each node member) (inEach node member)
          (inductionHypothesis node member (inEach node member)).statement
      exact restored_of_operand rfl
        (classified_list wellFormed uncommented each inEach read)
  | @number value part =>
      obtain ⟨presentable, readsBack⟩ := printable value (List.mem_singleton_self value)
      have spelled : classify (Node.renderNumber value) = some (.number value) := by
        unfold classify
        rw [readNumber?_renderNumber part presentable readsBack]
      exact restored_of_operand rfl (.number (unknown spelled) spelled)
  | @text source segments closed read =>
      refine restored_of_operand rfl ?_
      have operand := Classified.text read
      rwa [String.ofList_toList] at operand
  | @identifier name spelled =>
      exact restored_of_operand rfl (.name (unknown spelled) spelled)
  | @operation token left right known leftReadable rightReadable leftHypothesis rightHypothesis =>
      have leftRestored := leftHypothesis fun number inLeft =>
        printable number (List.mem_append_left _ inLeft)
      have rightRestored := rightHypothesis fun number inRight =>
        printable number (List.mem_append_right _ inRight)
      obtain ⟨level, listed⟩ := Option.isSome_iff_exists.mp known
      have statement : parseStatement levels (parseBody levels)
          (statementTokens (.operation token left right)) = .ok (.operation token left right) := by
        have operator : Classified levels (.word token.toList) (.operator token level) := by
          have stands : Classified levels (.word token.toList)
              (.operator (String.ofList token.toList) level) := .operator (by simpa using listed)
          rwa [String.ofList_toList] at stands
        exact parseStatement_operation leftRestored.operand operator rightRestored.operand
      have read := parseBody_statement wellFormed uncommented
        (.operation known leftReadable rightReadable) printable statement
      exact ⟨statement, .expression read⟩
  | quoted readable inductionHypothesis =>
      have inner := inductionHypothesis printable
      have read := parseBody_statement wellFormed uncommented readable printable inner.statement
      exact restored_of_operand rfl (.quoted read)

/-- A readable tree is read from its source form. -/
theorem Readable.parseBody_render {node : Node} (readable : Readable levels node)
    (printable : ∀ number ∈ node.numbers, Printable number) :
    parseBody levels node.render = .ok node :=
  parseBody_statement wellFormed uncommented readable printable
    (readable.restored wellFormed uncommented printable).statement

end Trees

/-- Applications are never comments, so the listed operators decide. -/
theorem Levels.uncommented_of_tokens
    (listed : ∀ token ∈ levels.tokens, ¬ ['-', '-'] <:+: token.toList) : levels.Uncommented := by
  intro token known comment
  rcases contains_iff.mp known with member | ⟨application, _⟩
  · exact listed token member comment
  · have minus : '-' ∈ token.toList := comment.subset List.mem_cons_self
    rcases mem_of_isApplication application minus with same | same
    · exact absurd same (by decide)
    · exact absurd same (by decide)

end Syntax

namespace OperatorTable

open Syntax

/-- Whatever is read with the operators of a table is read again from its source form, if no
operator looks like a comment and every number has a literal. The decimal notation of the doubles
that occur is assumed to read back. -/
theorem Reachable.parseBody_display {table : OperatorTable} (reachable : table.Reachable)
    (uncommented : ∀ token ∈ table.levels.tokens, ¬ ['-', '-'] <:+: token.toList)
    {source : List Char} {tree : Node} (parsed : parseBody table.levels source = .ok tree)
    (presentable : ∀ number ∈ tree.numbers,
      Presentable number.real ∧ Presentable number.imaginary)
    (readsBack : ∀ number ∈ tree.numbers, ∀ part ∈ [number.real, number.imaginary],
      Presentable (magnitude part) → ReadsBack (magnitude part)) :
    parseBody table.levels tree.display.toList = .ok tree := by
  have printable : ∀ number ∈ tree.numbers, Printable number := by
    intro number inTree
    obtain ⟨realPresentable, imaginaryPresentable⟩ := presentable number inTree
    refine ⟨imaginaryPresentable, fun part member => readsBack number inTree part member ?_⟩
    simp only [List.mem_cons, List.not_mem_nil, or_false] at member
    rcases member with rfl | rfl
    · exact realPresentable.magnitude
    · exact imaginaryPresentable.magnitude
  rw [Node.display, String.toList_ofList]
  exact (Readable.of_parseBody parsed).parseBody_render reachable.wellFormed
    (Levels.uncommented_of_tokens uncommented) printable

private theorem parseBody_sum : parseBody Levels.initial "a+2.5".toList =
    .ok (.operation "+" (.identifier "a") (.number ⟨2.5, 0.0⟩)) := by
  have divided : statementsFrom Levels.initial.isGlyph [] ['a', '+', '2', '.', '5'] =
      .ok [⟨[.word ['a'], .word ['+'], .word ['2', '.', '5']], []⟩] := by
    have first : lexeme Levels.initial.isGlyph 'a' ['+', '2', '.', '5'] =
        .ok (.token (.word ['a']), ['+', '2', '.', '5']) := by
      rw [Levels.isGlyph_eq]
      rfl
    have second : lexeme Levels.initial.isGlyph '+' ['2', '.', '5'] =
        .ok (.token (.word ['+']), ['2', '.', '5']) := by
      rw [Levels.isGlyph_eq]
      rfl
    have third : lexeme Levels.initial.isGlyph '2' ['.', '5'] =
        .ok (.token (.word ['2', '.', '5']), []) := by
      rw [Levels.isGlyph_eq]
      rfl
    rw [statementsFrom_token first, statementsFrom_token second, statementsFrom_token third,
      statementsFrom_nil]
    rfl
  have parsed : parseStatement Levels.initial (parseBody Levels.initial)
      [.word ['a'], .word ['+'], .word ['2', '.', '5']] =
        .ok (.operation "+" (.identifier "a") (.number ⟨2.5, 0.0⟩)) :=
    parseStatement_operation (.name (by decide) rfl) (.operator rfl) (.number (by decide) rfl)
  exact (parse_of_statement divided parsed).2

/-- A sum with a number, read from its source form, which has blanks. -/
theorem parseBody_display_sum :
    (Node.operation "+" (.identifier "a") (.number ⟨2.5, 0.0⟩)).display = "a + 2.5" ∧
      parseBody initial.levels "a+2.5".toList =
        .ok (.operation "+" (.identifier "a") (.number ⟨2.5, 0.0⟩)) ∧
      parseBody initial.levels
          (Node.operation "+" (.identifier "a") (.number ⟨2.5, 0.0⟩)).display.toList =
        .ok (.operation "+" (.identifier "a") (.number ⟨2.5, 0.0⟩)) := by
  have half : Presentable 2.5 := ⟨by decide +kernel, by decide +kernel⟩
  have zero : Presentable 0.0 := ⟨by decide +kernel, by decide +kernel⟩
  have halfReadsBack : ReadsBack (magnitude 2.5) :=
    ⟨['2'], ['5'], by decide, by simp, by decide +kernel, by decide +kernel⟩
  have zeroReadsBack : ReadsBack (magnitude 0.0) :=
    ⟨['0'], [], by decide, by simp, by decide +kernel, by decide +kernel⟩
  refine ⟨by decide +kernel, parseBody_sum,
    Reachable.initial.parseBody_display (by decide) parseBody_sum ?_ ?_⟩
  · intro number inTree
    obtain rfl : number = ⟨2.5, 0.0⟩ := by simpa [Node.numbers] using inTree
    exact ⟨half, zero⟩
  · intro number inTree part member _
    obtain rfl : number = ⟨2.5, 0.0⟩ := by simpa [Node.numbers] using inTree
    simp only [List.mem_cons, List.not_mem_nil, or_false] at member
    rcases member with rfl | rfl
    · exact halfReadsBack
    · exact zeroReadsBack

end OperatorTable

end Fixity
