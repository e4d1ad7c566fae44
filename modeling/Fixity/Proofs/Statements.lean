import Mathlib.Data.List.TakeWhile
import Fixity.Proofs.Collapse

/-!
Contract: the statements that parse, and their trees.

Owns:
- `Classified`, what each token of a statement stands for, groups being read by `parseBody`;
- the trees of a statement as those of the lawful groupings of its items.

Main statement: a row of tokens parses if and only if all of its tokens stand for something and
operands and operators alternate; its tree is the one that precedence and associativity dictate.
-/

namespace Fixity.Syntax

/-! ## Tokens -/

/-- What a token stands for under the operators of a table. -/
inductive Classified (levels : Levels) : Token → Item → Prop where
  | expression {interior : List Char} {node : Node} (read : parseBody levels interior = .ok node) :
      Classified levels (.expression interior) (.operand node)
  | emptyList {interior : List Char} (blank : ∀ char ∈ interior, Text.isBlank char) :
      Classified levels (.list interior) (.operand (.list []))
  | list {interior : List Char} {nodes : List Node}
      (inhabited : ¬ ∀ char ∈ interior, Text.isBlank char)
      (read : List.Forall₂ (fun element node => parseBody levels element = .ok node)
        (splitElements interior) nodes) :
      Classified levels (.list interior) (.operand (.list nodes))
  | text {interior : List Char} {segments : List Segment}
      (read : parseText levels interior = .ok segments) :
      Classified levels (.text interior) (.operand (.text (String.ofList interior) segments))
  | quoted {interior : List Char} {node : Node} (read : parseBody levels interior = .ok node) :
      Classified levels (.quoted interior) (.operand (.quoted node))
  | operator {characters : List Char} {level : Nat}
      (known : levels.levelOf? (String.ofList characters) = some level) :
      Classified levels (.word characters) (.operator (String.ofList characters) level)
  | number {characters : List Char} {value : Number}
      (unknown : ¬ levels.contains (String.ofList characters))
      (spelled : classify characters = some (.number value)) :
      Classified levels (.word characters) (.operand (.number value))
  | name {characters : List Char} {name : String}
      (unknown : ¬ levels.contains (String.ofList characters))
      (spelled : classify characters = some (.name name)) :
      Classified levels (.word characters) (.operand (.identifier name))

theorem trim_isEmpty {text : List Char} :
    (Text.trim text).isEmpty ↔ ∀ char ∈ text, Text.isBlank char := by
  unfold Text.trim
  rw [List.isEmpty_iff, List.reverse_eq_nil_iff, List.dropWhile_eq_nil_iff]
  constructor
  · intro rest char member
    rw [← List.takeWhile_append_dropWhile (p := Text.isBlank) (l := text), List.mem_append] at member
    rcases member with inFront | inRest
    · exact List.mem_takeWhile_imp inFront
    · exact rest char (List.mem_reverse.mpr inRest)
  · intro blank char member
    exact blank char ((List.dropWhile_sublist _).subset (List.mem_reverse.mp member))

variable {levels : Levels}

private theorem parseList_eq_ok {interior : List Char} {node : Node} :
    parseList (parseBody levels) interior = .ok node ↔
      Classified levels (.list interior) (.operand node) := by
  unfold parseList
  by_cases blank : (Text.trim interior).isEmpty
  · rw [if_pos blank]
    have allBlank := trim_isEmpty.mp blank
    constructor
    · intro equal
      rw [← Except.ok.inj equal]
      exact .emptyList allBlank
    · intro classified
      cases classified with
      | emptyList _ => rfl
      | list inhabited _ => exact absurd allBlank inhabited
  · rw [if_neg blank, map_eq_ok]
    have notBlank := mt trim_isEmpty.mpr blank
    constructor
    · rintro ⟨nodes, read, rfl⟩
      exact .list notBlank (mapM_eq_ok.mp read)
    · intro classified
      cases classified with
      | emptyList allBlank => exact absurd allBlank notBlank
      | list _ read => exact ⟨_, mapM_eq_ok.mpr read, rfl⟩

theorem classifyToken_eq_ok {token : Token} {item : Item} :
    classifyToken levels (parseBody levels) token = .ok item ↔ Classified levels token item := by
  cases token with
  | expression interior =>
      rw [classifyToken, map_eq_ok]
      constructor
      · rintro ⟨node, read, rfl⟩
        exact .expression read
      · intro classified
        cases classified with
        | expression read => exact ⟨_, read, rfl⟩
  | list interior =>
      rw [classifyToken, map_eq_ok]
      constructor
      · rintro ⟨node, read, rfl⟩
        exact parseList_eq_ok.mp read
      · intro classified
        cases item with
        | operand node => exact ⟨node, parseList_eq_ok.mpr classified, rfl⟩
        | operator token level => cases classified
  | text interior =>
      rw [classifyToken, map_eq_ok]
      constructor
      · rintro ⟨segments, read, rfl⟩
        exact .text ((parseText_eq interior).trans read)
      · intro classified
        cases classified with
        | text read => exact ⟨_, (parseText_eq interior).symm.trans read, rfl⟩
  | quoted interior =>
      rw [classifyToken, map_eq_ok]
      constructor
      · rintro ⟨node, read, rfl⟩
        exact .quoted read
      · intro classified
        cases classified with
        | quoted read => exact ⟨_, read, rfl⟩
  | word characters =>
      unfold classifyToken
      dsimp only
      cases known : levels.levelOf? (String.ofList characters) with
      | some level =>
          constructor
          · intro equal
            rw [← Except.ok.inj equal]
            exact .operator known
          · intro classified
            cases classified with
            | operator other => rw [Option.some.inj (known.symm.trans other)]
            | number unknown _ => simp [Levels.contains, known] at unknown
            | name unknown _ => simp [Levels.contains, known] at unknown
      | none =>
          have unknown : ¬ levels.contains (String.ofList characters) := by
            simp [Levels.contains, known]
          dsimp only
          constructor
          · intro ok
            split at ok
            · next value spelled =>
              rw [← Except.ok.inj ok]
              exact .number unknown spelled
            · next name spelled =>
              rw [← Except.ok.inj ok]
              exact .name unknown spelled
            · split at ok <;> cases ok
          · intro classified
            cases classified with
            | operator other => rw [known] at other; cases other
            | number _ spelled => rw [spelled]
            | name _ spelled => rw [spelled]

/-! ## Statements -/

theorem parseStatement_eq_ok {reader : Reader} {tokens : List Token} {node : Node} :
    parseStatement levels reader tokens = .ok node ↔
      ∃ items, tokens.mapM (classifyToken levels reader) = .ok items ∧
        collapse levels items = .ok [.operand node] := by
  unfold parseStatement
  rw [bind_eq_ok]
  refine exists_congr fun items => and_congr_right fun _ => ?_
  rw [bind_eq_ok]
  constructor
  · rintro ⟨row, collapsed, single⟩
    split at single
    · rw [collapsed, Except.ok.inj single]
    · cases single
  · intro collapsed
    exact ⟨_, collapsed, rfl⟩

theorem listed_of_classified {tokens : List Token} {items : List Item}
    (classified : List.Forall₂ (Classified levels) tokens items) : Listed levels items := by
  intro token level member
  induction classified with
  | nil => cases member
  | cons first others inductionHypothesis =>
      rcases List.mem_cons.mp member with rfl | inOthers
      · cases first with
        | operator known => exact Levels.levelOf?_lt_length known
      · exact inductionHypothesis inOthers

/-- A statement has the trees of the lawful groupings of its items. -/
theorem parseStatement_iff_grouping {tokens : List Token} {node : Node} :
    parseStatement levels (parseBody levels) tokens = .ok node ↔
      ∃ grouping : Grouping, grouping.Lawful levels ∧
        List.Forall₂ (Classified levels) tokens grouping.items ∧ grouping.node = node := by
  rw [parseStatement_eq_ok]
  constructor
  · rintro ⟨items, read, collapsed⟩
    have classified : List.Forall₂ (Classified levels) tokens items :=
      (mapM_eq_ok.mp read).imp fun _ _ => classifyToken_eq_ok.mp
    obtain ⟨grouping, lawful, rfl, rfl⟩ :=
      (collapse_eq_ok (listed_of_classified classified)).mp collapsed
    exact ⟨grouping, lawful, classified, rfl⟩
  · rintro ⟨grouping, lawful, classified, rfl⟩
    have read := mapM_eq_ok.mpr (classified.imp fun _ _ => classifyToken_eq_ok.mpr)
    exact ⟨grouping.items, read, lawful.collapse⟩

/-- One operand makes a statement. -/
theorem parseStatement_operand {token : Token} {node : Node}
    (stands : Classified levels token (.operand node)) :
    parseStatement levels (parseBody levels) [token] = .ok node :=
  parseStatement_iff_grouping.mpr ⟨.leaf node, .leaf node, .cons stands .nil, rfl⟩

/-- One operator with its two operands makes a statement, however its level groups. -/
theorem parseStatement_operation {first operator second : Token} {left right : Node}
    {token : String} {level : Nat} (leftStands : Classified levels first (.operand left))
    (between : Classified levels operator (.operator token level))
    (rightStands : Classified levels second (.operand right)) :
    parseStatement levels (parseBody levels) [first, operator, second] =
      .ok (.operation token left right) := by
  have inRange : level < levels.length := by
    cases between with
    | operator known => exact Levels.levelOf?_lt_length known
  obtain ⟨associativity, grouped⟩ := associativityAt?_of_lt inRange
  have lawful :
      (Grouping.join token level (.leaf left) (.leaf right)).Lawful levels := by
    cases associativity with
    | left =>
        exact .left grouped (Grouping.leaf_upTo _ _) (Grouping.leaf_below _ _)
          (.leaf left) (.leaf right)
    | right =>
        exact .right grouped (Grouping.leaf_below _ _) (Grouping.leaf_upTo _ _)
          (.leaf left) (.leaf right)
  have stand : List.Forall₂ (Classified levels) [first, operator, second]
      [.operand left, .operator token level, .operand right] :=
    .cons leftStands (.cons between (.cons rightStands .nil))
  exact parseStatement_iff_grouping.mpr ⟨_, lawful, stand, rfl⟩

/-- A row of tokens parses if and only if every token stands for something and operands and
operators alternate. Its tree is that of the only grouping of the items in which precedence and
associativity hold around every operator. -/
theorem parseStatement_dictated (levels : Levels) (tokens : List Token) :
    ((∃ tree, parseStatement levels (parseBody levels) tokens = .ok tree) ↔
      ∃ items, List.Forall₂ (Classified levels) tokens items ∧ Alternates items) ∧
    ∀ tree items, parseStatement levels (parseBody levels) tokens = .ok tree →
      List.Forall₂ (Classified levels) tokens items →
        ∃ grouping : Grouping, grouping.node = tree ∧
          (grouping.items = items ∧ grouping.Lawful levels) ∧
          ∀ other : Grouping, other.items = items → other.Lawful levels → other = grouping := by
  refine ⟨⟨?_, ?_⟩, ?_⟩
  · rintro ⟨tree, parsed⟩
    obtain ⟨grouping, _, classified, _⟩ := parseStatement_iff_grouping.mp parsed
    exact ⟨grouping.items, classified, grouping.items_alternate⟩
  · rintro ⟨items, classified, alternates⟩
    obtain ⟨grouping, lawful, rfl⟩ :=
      Grouping.exists_lawful alternates (listed_of_classified classified)
    exact ⟨grouping.node, parseStatement_iff_grouping.mpr ⟨grouping, lawful, classified, rfl⟩⟩
  · intro tree items parsed classified
    obtain ⟨grouping, lawful, ownClassified, rfl⟩ := parseStatement_iff_grouping.mp parsed
    have same : grouping.items = items := by
      have read := mapM_eq_ok.mpr (classified.imp fun _ _ => classifyToken_eq_ok.mpr)
      have ownRead := mapM_eq_ok.mpr (ownClassified.imp fun _ _ => classifyToken_eq_ok.mpr)
      exact Except.ok.inj (ownRead.symm.trans read)
    exact ⟨grouping, rfl, ⟨same, lawful⟩, fun other otherSame otherLawful =>
      otherLawful.unique lawful (otherSame.trans same.symm)⟩

end Fixity.Syntax
