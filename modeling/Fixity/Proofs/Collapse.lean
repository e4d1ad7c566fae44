import Fixity.Proofs.Grouping

/-!
Contract: collapsing builds the lawful grouping of a row.

Owns:
- `Alternates`, the rows of operands with one operator between neighbours;
- the lawful grouping of every such row;
- the state of a row after some levels have been collapsed, in terms of its grouping;
- `collapse_eq_ok`: the rows that collapse to one tree, and which tree.

Does not own: the errors of other rows.
-/

namespace Fixity.Syntax

/-- Operands with one operator between neighbours. -/
inductive Alternates : List Item → Prop where
  | operand (node : Node) : Alternates [.operand node]
  | operation (node : Node) (token : String) (level : Nat) {rest : List Item}
      (others : Alternates rest) : Alternates (.operand node :: .operator token level :: rest)

/-- Every operator of a row has a level of the table. -/
def Listed (levels : Levels) (items : List Item) : Prop :=
  ∀ token level, Item.operator token level ∈ items → level < levels.length

theorem associativityAt?_of_lt {levels : Levels} {level : Nat} (inRange : level < levels.length) :
    ∃ associativity, levels.associativityAt? level = some associativity :=
  ⟨levels[level].associativity, by simp [Levels.associativityAt?, inRange]⟩

namespace Grouping

variable {levels : Levels}

/-! ## Every alternating row has a lawful grouping -/

/-- Whether an operator in front of a grouping belongs inside its leftmost operation. -/
def goesInside (levels : Levels) (level root : Nat) : Bool :=
  level < root || (level == root && levels.associativityAt? level == some .left)

/-- The grouping of a row that starts with an operand and an operator before a grouped one. -/
def prepend (levels : Levels) (operand : Node) (token : String) (level : Nat) :
    Grouping → Grouping
  | leaf node => .join token level (.leaf operand) (.leaf node)
  | join token' root left right =>
      if goesInside levels level root then
        .join token' root (prepend levels operand token level left) right
      else
        .join token level (.leaf operand) (.join token' root left right)

theorem items_prepend (operand : Node) (token : String) (level : Nat) (grouping : Grouping) :
    (grouping.prepend levels operand token level).items =
      .operand operand :: .operator token level :: grouping.items := by
  induction grouping with
  | leaf node => rfl
  | join token' root left right leftHypothesis rightHypothesis =>
      unfold prepend
      by_cases inside : goesInside levels level root
      · rw [if_pos inside, items, leftHypothesis]
        rfl
      · rw [if_neg inside]
        rfl

/-- The new operator is the outermost one, or the old one stays outermost. -/
private theorem prepend_upTo {operand : Node} {token : String} {level limit : Nat}
    {grouping : Grouping} (levelLe : level ≤ limit) (upTo : grouping.UpTo limit) :
    (grouping.prepend levels operand token level).UpTo limit := by
  cases grouping with
  | leaf node => exact join_upTo.mpr levelLe
  | join token' root left right =>
      unfold prepend
      by_cases inside : goesInside levels level root
      · rw [if_pos inside]
        exact join_upTo.mpr (join_upTo.mp upTo)
      · rw [if_neg inside]
        exact join_upTo.mpr levelLe

private theorem prepend_below {operand : Node} {token : String} {level limit : Nat}
    {grouping : Grouping} (levelLt : level < limit) (below : grouping.Below limit) :
    (grouping.prepend levels operand token level).Below limit := by
  cases grouping with
  | leaf node => exact join_below.mpr levelLt
  | join token' root left right =>
      unfold prepend
      by_cases inside : goesInside levels level root
      · rw [if_pos inside]
        exact join_below.mpr (join_below.mp below)
      · rw [if_neg inside]
        exact join_below.mpr levelLt

/-- An operator that stays outside has the rest of the row as a lawful right operand. -/
private theorem lawful_outside {operand : Node} {token : String} {level : Nat}
    {grouping : Grouping} (inRange : level < levels.length) (lawful : grouping.Lawful levels)
    (loosest : grouping.UpTo level)
    (belowIfLeft : levels.associativityAt? level = some .left → grouping.Below level) :
    (join token level (leaf operand) grouping).Lawful levels := by
  obtain ⟨associativity, grouped⟩ := associativityAt?_of_lt inRange
  cases associativity with
  | left => exact .left grouped (leaf_upTo _ _) (belowIfLeft grouped) (.leaf operand) lawful
  | right => exact .right grouped (leaf_below _ _) loosest (.leaf operand) lawful

theorem Lawful.prepend {operand : Node} {token : String} {level : Nat} {grouping : Grouping}
    (inRange : level < levels.length) (lawful : grouping.Lawful levels) :
    (grouping.prepend levels operand token level).Lawful levels := by
  induction lawful with
  | leaf node =>
      exact lawful_outside inRange (.leaf node) (leaf_upTo _ _) fun _ => leaf_below _ _
  | @left token' root left right grouped leftUpTo rightBelow leftLawful rightLawful
      leftHypothesis rightHypothesis =>
      unfold Grouping.prepend
      by_cases inside : goesInside levels level root
      · rw [if_pos inside]
        have levelLe : level ≤ root := by
          simp only [goesInside, Bool.or_eq_true, decide_eq_true_eq, Bool.and_eq_true,
            beq_iff_eq] at inside
          omega
        exact .left grouped (prepend_upTo levelLe leftUpTo) rightBelow leftHypothesis rightLawful
      · rw [if_neg inside]
        simp only [goesInside, Bool.or_eq_true, decide_eq_true_eq, Bool.and_eq_true,
          beq_iff_eq, not_or, not_and] at inside
        have rootLt : root < level := by
          rcases Nat.lt_or_ge root level with less | atLeast
          · exact less
          · obtain rfl : level = root := by omega
            exact absurd grouped (inside.2 rfl)
        have below : (join token' root left right).Below level := join_below.mpr rootLt
        exact lawful_outside inRange (.left grouped leftUpTo rightBelow leftLawful rightLawful)
          below.upTo fun _ => below
  | @right token' root left right grouped leftBelow rightUpTo leftLawful rightLawful
      leftHypothesis rightHypothesis =>
      unfold Grouping.prepend
      by_cases inside : goesInside levels level root
      · rw [if_pos inside]
        have levelLt : level < root := by
          simp only [goesInside, Bool.or_eq_true, decide_eq_true_eq, Bool.and_eq_true,
            beq_iff_eq] at inside
          rcases inside with less | ⟨rfl, leftGrouped⟩
          · exact less
          · rw [grouped] at leftGrouped
            cases leftGrouped
        exact .right grouped (prepend_below levelLt leftBelow) rightUpTo leftHypothesis rightLawful
      · rw [if_neg inside]
        simp only [goesInside, Bool.or_eq_true, decide_eq_true_eq, Bool.and_eq_true,
          beq_iff_eq, not_or, not_and] at inside
        have rootLe : root ≤ level := Nat.le_of_not_lt inside.1
        refine lawful_outside inRange (.right grouped leftBelow rightUpTo leftLawful rightLawful)
          (join_upTo.mpr rootLe) fun leftGrouped => join_below.mpr ?_
        have different : level ≠ root := fun equal => inside.2 equal leftGrouped
        omega

theorem exists_lawful {items : List Item} (alternates : Alternates items)
    (listed : Listed levels items) : ∃ grouping : Grouping, grouping.Lawful levels ∧
      grouping.items = items := by
  induction alternates with
  | operand node => exact ⟨.leaf node, .leaf node, rfl⟩
  | operation node token level others inductionHypothesis =>
      have inRange : level < levels.length := listed token level (by simp)
      obtain ⟨grouping, lawful, rfl⟩ := inductionHypothesis fun token level member =>
        listed token level (by simp [member])
      exact ⟨grouping.prepend levels node token level, lawful.prepend inRange,
        items_prepend node token level grouping⟩

/-! ## Collapsing a lawful grouping -/

/-- The row of a grouping once all operations below a level have become trees. -/
def rowFrom (start : Nat) : Grouping → List Item
  | leaf operand => [.operand operand]
  | join token level left right =>
      if level < start then [.operand (join token level left right).node]
      else left.rowFrom start ++ .operator token level :: right.rowFrom start

theorem rowFrom_zero (grouping : Grouping) : grouping.rowFrom 0 = grouping.items := by
  induction grouping with
  | leaf operand => rfl
  | join token level left right leftHypothesis rightHypothesis =>
      rw [rowFrom, if_neg (Nat.not_lt_zero level), leftHypothesis, rightHypothesis, items]

theorem rowFrom_of_below {grouping : Grouping} {start : Nat} (below : grouping.Below start) :
    grouping.rowFrom start = [.operand grouping.node] := by
  cases grouping with
  | leaf operand => rfl
  | join token level left right => rw [rowFrom, if_pos (join_below.mp below)]

theorem rowFrom_of_upTo {grouping : Grouping} {start : Nat} (upTo : grouping.UpTo start) :
    grouping.rowFrom (start + 1) = [.operand grouping.node] :=
  rowFrom_of_below fun level root => Nat.lt_succ_of_le (upTo level root)

private theorem collapsePass_other {associativity : Associativity} {start level : Nat}
    (different : level ≠ start) (token : String) (behind ahead : List Item) :
    collapsePass associativity start behind (.operator token level :: ahead) =
      collapsePass associativity start (.operator token level :: behind) ahead := by
  conv => lhs; unfold collapsePass
  exact if_neg different

private theorem collapsePass_same {associativity : Associativity} (start : Nat) (token : String)
    (passed next : Node) (behind ahead : List Item) :
    collapsePass associativity start (.operand passed :: behind)
        (.operator token start :: .operand next :: ahead) =
      collapsePass associativity start
        (.operand (combine associativity token passed next) :: behind) ahead := by
  rw [collapsePass, if_pos rfl]

/-- A pass from the left over the row of a lawful grouping, whatever follows it. -/
private theorem collapsePass_left {grouping : Grouping} {start : Nat}
    (lawful : grouping.Lawful levels) (grouped : levels.associativityAt? start = some .left)
    (behind ahead : List Item) :
    collapsePass .left start behind (grouping.rowFrom start ++ ahead) =
      collapsePass .left start ((grouping.rowFrom (start + 1)).reverse ++ behind) ahead := by
  induction grouping generalizing behind ahead with
  | leaf operand => rfl
  | join token level left right leftHypothesis rightHypothesis =>
      obtain ⟨leftLawful, rightLawful⟩ := lawful.operands
      rcases Nat.lt_trichotomy level start with less | rfl | greater
      · have below : (join token level left right).Below start := join_below.mpr less
        rw [rowFrom_of_below below, rowFrom_of_upTo below.upTo]
        rfl
      · obtain ⟨leftUpTo, rightBelow⟩ := lawful.sides_of_left grouped
        have whole : (join token level left right).UpTo level := join_upTo.mpr (Nat.le_refl level)
        rw [rowFrom, if_neg (Nat.lt_irrefl level), List.append_assoc,
          leftHypothesis leftLawful, rowFrom_of_upTo leftUpTo, rowFrom_of_below rightBelow,
          rowFrom_of_upTo whole]
        exact collapsePass_same level token left.node right.node behind ahead
      · rw [rowFrom, if_neg (by omega), List.append_assoc, leftHypothesis leftLawful,
          List.cons_append, collapsePass_other (by omega), rightHypothesis rightLawful,
          rowFrom, if_neg (by omega)]
        simp

/-- A pass from the right over the row of a lawful grouping, whatever precedes it. -/
private theorem collapsePass_right {grouping : Grouping} {start : Nat}
    (lawful : grouping.Lawful levels) (grouped : levels.associativityAt? start = some .right)
    (behind ahead : List Item) :
    collapsePass .right start behind ((grouping.rowFrom start).reverse ++ ahead) =
      collapsePass .right start (grouping.rowFrom (start + 1) ++ behind) ahead := by
  induction grouping generalizing behind ahead with
  | leaf operand => rfl
  | join token level left right leftHypothesis rightHypothesis =>
      obtain ⟨leftLawful, rightLawful⟩ := lawful.operands
      rcases Nat.lt_trichotomy level start with less | rfl | greater
      · have below : (join token level left right).Below start := join_below.mpr less
        rw [rowFrom_of_below below, rowFrom_of_upTo below.upTo]
        rfl
      · obtain ⟨leftBelow, rightUpTo⟩ := lawful.sides_of_right grouped
        have whole : (join token level left right).UpTo level := join_upTo.mpr (Nat.le_refl level)
        rw [rowFrom, if_neg (Nat.lt_irrefl level), List.reverse_append, List.reverse_cons,
          List.append_assoc, List.append_assoc, rightHypothesis rightLawful,
          rowFrom_of_upTo rightUpTo, rowFrom_of_below leftBelow, rowFrom_of_upTo whole]
        exact collapsePass_same level token right.node left.node behind ahead
      · rw [rowFrom, if_neg (by omega), List.reverse_append, List.reverse_cons,
          List.append_assoc, List.append_assoc, rightHypothesis rightLawful,
          List.singleton_append, collapsePass_other (by omega), leftHypothesis leftLawful,
          rowFrom, if_neg (by omega)]
        simp

theorem collapseLevel_rowFrom {grouping : Grouping} {start : Nat} {associativity : Associativity}
    (lawful : grouping.Lawful levels)
    (grouped : levels.associativityAt? start = some associativity) :
    collapseLevel associativity start (grouping.rowFrom start) =
      .ok (grouping.rowFrom (start + 1)) := by
  cases associativity with
  | left =>
      have pass := collapsePass_left lawful grouped [] []
      rw [List.append_nil, List.append_nil] at pass
      unfold collapseLevel
      rw [pass, collapsePass]
      exact congrArg Except.ok (List.reverse_reverse _)
  | right =>
      have pass := collapsePass_right lawful grouped [] []
      rw [List.append_nil, List.append_nil] at pass
      unfold collapseLevel
      rw [pass, collapsePass]

/-- Every operation of a lawful grouping has a level of the table. -/
theorem Lawful.below_length {grouping : Grouping} (lawful : grouping.Lawful levels) :
    grouping.Below levels.length := by
  cases grouping with
  | leaf operand => exact leaf_below _ _
  | join token level left right =>
      obtain ⟨associativity, grouped⟩ := lawful.grouped
      refine join_below.mpr ?_
      unfold Levels.associativityAt? at grouped
      obtain ⟨entry, found, _⟩ := Option.map_eq_some_iff.mp grouped
      exact (List.getElem?_eq_some_iff.mp found).1

private theorem collapseFrom_rowFrom {grouping : Grouping} (lawful : grouping.Lawful levels)
    (before after : Levels) (split : before ++ after = levels) :
    collapseFrom before.length after (grouping.rowFrom before.length) =
      .ok [.operand grouping.node] := by
  induction after generalizing before with
  | nil =>
      rw [List.append_nil] at split
      subst split
      rw [rowFrom_of_below lawful.below_length]
      rfl
  | cons entry after inductionHypothesis =>
      have grouped : levels.associativityAt? before.length = some entry.associativity := by
        simp [Levels.associativityAt?, ← split]
      have rest := inductionHypothesis (before ++ [entry]) (by simp [split])
      rw [List.length_append, List.length_singleton] at rest
      rw [collapseFrom, collapseLevel_rowFrom lawful grouped]
      exact rest

theorem Lawful.collapse {grouping : Grouping} (lawful : grouping.Lawful levels) :
    collapse levels grouping.items = .ok [.operand grouping.node] := by
  rw [← rowFrom_zero]
  exact collapseFrom_rowFrom lawful [] levels rfl

end Grouping

/-! ## Rows that collapse to one tree alternate -/

theorem alternates_widen {before after : List Item} {joined left right : Node} (token : String)
    (level : Nat) (alternates : Alternates (before ++ .operand joined :: after)) :
    Alternates (before ++ .operand left :: .operator token level :: .operand right :: after) := by
  generalize whole : before ++ Item.operand joined :: after = row at alternates
  induction alternates generalizing before with
  | operand node =>
      obtain rfl : before = [] := by
        have lengths := congrArg List.length whole
        simp only [List.length_append, List.length_cons, List.length_nil] at lengths
        exact List.length_eq_zero_iff.mp (by omega)
      obtain ⟨_, rfl⟩ := List.cons.inj whole
      exact .operation left token level (.operand right)
  | operation node other otherLevel others inductionHypothesis =>
      obtain _ | ⟨first, before⟩ := before
      · obtain ⟨_, rfl⟩ := List.cons.inj whole
        exact .operation left token level (.operation right other otherLevel others)
      · obtain ⟨rfl, tail⟩ := List.cons.inj whole
        obtain _ | ⟨second, before⟩ := before
        · cases tail
        · obtain ⟨rfl, rest⟩ := List.cons.inj tail
          exact .operation node other otherLevel (inductionHypothesis rest)

/-- The row in reading order while a pass moves through it. -/
def readingOrder (associativity : Associativity) (behind ahead : List Item) : List Item :=
  match associativity with
  | .left => behind.reverse ++ ahead
  | .right => ahead.reverse ++ behind

theorem readingOrder_move (associativity : Associativity) (item : Item)
    (behind ahead : List Item) :
    readingOrder associativity (item :: behind) ahead =
      readingOrder associativity behind (item :: ahead) := by
  cases associativity <;> simp [readingOrder]

/-- A pass that ends in an alternating row started from one. -/
private theorem collapsePass_alternates {associativity : Associativity} {start : Nat}
    {behind ahead result : List Item}
    (ok : collapsePass associativity start behind ahead = .ok result)
    (alternates : Alternates (readingOrder associativity result [])) :
    Alternates (readingOrder associativity behind ahead) := by
  fun_induction collapsePass associativity start behind ahead with
  | case1 behind =>
      rw [Except.ok.inj ok]
      exact alternates
  | case2 behind node ahead inductionHypothesis =>
      rw [← readingOrder_move]
      exact inductionHypothesis ok
  | case3 token behind passed next ahead inductionHypothesis =>
      have widened := inductionHypothesis ok
      cases associativity with
      | left =>
          simp only [readingOrder, List.reverse_cons, List.append_assoc,
            List.singleton_append] at widened ⊢
          exact alternates_widen token start widened
      | right =>
          simp only [readingOrder, List.reverse_cons, List.append_assoc,
            List.singleton_append] at widened ⊢
          exact alternates_widen token start widened
  | case4 => cases ok
  | case5 behind token level ahead different inductionHypothesis =>
      rw [← readingOrder_move]
      exact inductionHypothesis ok

private theorem collapseLevel_alternates {associativity : Associativity} {start : Nat}
    {items result : List Item} (ok : collapseLevel associativity start items = .ok result)
    (alternates : Alternates result) : Alternates items := by
  cases associativity with
  | left =>
      obtain ⟨passed, pass, rfl⟩ := map_eq_ok.mp ok
      have started := collapsePass_alternates pass (by simpa [readingOrder] using alternates)
      exact started
  | right =>
      have started := collapsePass_alternates ok alternates
      simpa [readingOrder] using started

theorem collapseFrom_alternates {entries : Levels} {start : Nat} {items result : List Item}
    (ok : collapseFrom start entries items = .ok result) (alternates : Alternates result) :
    Alternates items := by
  induction entries generalizing start items with
  | nil =>
      rw [Except.ok.inj ok]
      exact alternates
  | cons entry entries inductionHypothesis =>
      obtain ⟨passed, level, rest⟩ := bind_eq_ok.mp ok
      exact collapseLevel_alternates level (inductionHypothesis rest)

/-- A row collapses to one tree if and only if it has a lawful grouping with that tree. -/
theorem collapse_eq_ok {levels : Levels} {items : List Item} (listed : Listed levels items)
    {node : Node} : collapse levels items = .ok [.operand node] ↔
      ∃ grouping : Grouping, grouping.Lawful levels ∧ grouping.items = items ∧
        grouping.node = node := by
  constructor
  · intro ok
    have alternates := collapseFrom_alternates ok (.operand node)
    obtain ⟨grouping, lawful, rfl⟩ := Grouping.exists_lawful alternates listed
    have computed := lawful.collapse
    rw [ok] at computed
    cases computed
    exact ⟨grouping, lawful, rfl, rfl⟩
  · rintro ⟨grouping, lawful, rfl, rfl⟩
    exact lawful.collapse

theorem alternates_append_operator {left right : List Item} (token : String) (level : Nat)
    (leftAlternates : Alternates left) (rightAlternates : Alternates right) :
    Alternates (left ++ .operator token level :: right) := by
  induction leftAlternates with
  | operand node => exact .operation node token level rightAlternates
  | operation node other otherLevel others inductionHypothesis =>
      exact .operation node other otherLevel inductionHypothesis

theorem Grouping.items_alternate (grouping : Grouping) : Alternates grouping.items := by
  induction grouping with
  | leaf operand => exact .operand operand
  | join token level left right leftHypothesis rightHypothesis =>
      exact alternates_append_operator token level leftHypothesis rightHypothesis

end Fixity.Syntax
