import Fixity.Proofs.Readers
import Fixity.Proofs.Tables

/-!
Contract: the grouping that precedence and associativity dictate.

Owns:
- `Grouping`, a binary tree over the operands of a statement, which stay opaque;
- `Grouping.Lawful`: around an operator of a left associative level the left operand binds at least
  as tight and the right one tighter, and the other way round for a right associative level;
- `Alternates`, the rows of items that have a lawful grouping, and the proof that they have one
  only;
- what collapsing makes of a row: the tree of its lawful grouping, or an error.

Does not own: how tokens become items.
-/

namespace Fixity.Syntax

/-- How the levels of a table group. -/
def Levels.associativityAt? (levels : Levels) (level : Nat) : Option Associativity :=
  (levels[level]?).map (·.associativity)

/-- A binary tree over the operands of a statement. -/
inductive Grouping where
  | leaf (operand : Node)
  | join (token : String) (level : Nat) (left right : Grouping)

namespace Grouping

/-- The items from left to right. -/
def items : Grouping → List Item
  | leaf operand => [.operand operand]
  | join token level left right => left.items ++ .operator token level :: right.items

/-- The syntax tree with one operation for each join. -/
def node : Grouping → Node
  | leaf operand => operand
  | join token _ left right => .operation token left.node right.node

/-- The level of the outermost operator; a leaf has none. -/
def level? : Grouping → Option Nat
  | leaf _ => none
  | join _ level _ _ => some level

/-- A leaf or an operation of a level below a limit. -/
def Below (limit : Nat) (grouping : Grouping) : Prop := ∀ level ∈ grouping.level?, level < limit

/-- A leaf or an operation of a level up to a limit. -/
def UpTo (limit : Nat) (grouping : Grouping) : Prop := ∀ level ∈ grouping.level?, level ≤ limit

/-- Every operation stands where the precedence and the associativity of its level allow. -/
inductive Lawful (levels : Levels) : Grouping → Prop where
  | leaf (operand : Node) : Lawful levels (.leaf operand)
  | left {token : String} {level : Nat} {left right : Grouping}
      (grouped : levels.associativityAt? level = some .left)
      (leftUpTo : left.UpTo level) (rightBelow : right.Below level)
      (leftLawful : Lawful levels left) (rightLawful : Lawful levels right) :
      Lawful levels (.join token level left right)
  | right {token : String} {level : Nat} {left right : Grouping}
      (grouped : levels.associativityAt? level = some .right)
      (leftBelow : left.Below level) (rightUpTo : right.UpTo level)
      (leftLawful : Lawful levels left) (rightLawful : Lawful levels right) :
      Lawful levels (.join token level left right)

variable {levels : Levels}

theorem Below.upTo {limit : Nat} {grouping : Grouping} (below : grouping.Below limit) :
    grouping.UpTo limit :=
  fun level root => Nat.le_of_lt (below level root)

theorem join_below {token : String} {level limit : Nat} {left right : Grouping} :
    (join token level left right).Below limit ↔ level < limit := by
  simp [Below, level?]

theorem join_upTo {token : String} {level limit : Nat} {left right : Grouping} :
    (join token level left right).UpTo limit ↔ level ≤ limit := by
  simp [UpTo, level?]

theorem leaf_below (limit : Nat) (operand : Node) : (leaf operand).Below limit := nofun

theorem leaf_upTo (limit : Nat) (operand : Node) : (leaf operand).UpTo limit := nofun

/-- Around any operator both sides bind at least as tight. -/
theorem Lawful.upTo {token : String} {level : Nat} {left right : Grouping}
    (lawful : (join token level left right).Lawful levels) :
    left.UpTo level ∧ right.UpTo level := by
  cases lawful with
  | left grouped leftUpTo rightBelow leftLawful rightLawful => exact ⟨leftUpTo, rightBelow.upTo⟩
  | right grouped leftBelow rightUpTo leftLawful rightLawful => exact ⟨leftBelow.upTo, rightUpTo⟩

theorem Lawful.operands {token : String} {level : Nat} {left right : Grouping}
    (lawful : (join token level left right).Lawful levels) :
    left.Lawful levels ∧ right.Lawful levels := by
  cases lawful with
  | left grouped leftUpTo rightBelow leftLawful rightLawful => exact ⟨leftLawful, rightLawful⟩
  | right grouped leftBelow rightUpTo leftLawful rightLawful => exact ⟨leftLawful, rightLawful⟩

theorem Lawful.grouped {token : String} {level : Nat} {left right : Grouping}
    (lawful : (join token level left right).Lawful levels) :
    ∃ associativity, levels.associativityAt? level = some associativity := by
  cases lawful with
  | left grouped leftUpTo rightBelow leftLawful rightLawful => exact ⟨_, grouped⟩
  | right grouped leftBelow rightUpTo leftLawful rightLawful => exact ⟨_, grouped⟩

theorem Lawful.sides_of_left {token : String} {level : Nat} {left right : Grouping}
    (lawful : (join token level left right).Lawful levels)
    (grouped : levels.associativityAt? level = some .left) :
    left.UpTo level ∧ right.Below level := by
  cases lawful with
  | left _ leftUpTo rightBelow leftLawful rightLawful => exact ⟨leftUpTo, rightBelow⟩
  | right other leftBelow rightUpTo leftLawful rightLawful =>
      rw [grouped] at other
      cases other

theorem Lawful.sides_of_right {token : String} {level : Nat} {left right : Grouping}
    (lawful : (join token level left right).Lawful levels)
    (grouped : levels.associativityAt? level = some .right) :
    left.Below level ∧ right.UpTo level := by
  cases lawful with
  | left other leftUpTo rightBelow leftLawful rightLawful =>
      rw [grouped] at other
      cases other
  | right _ leftBelow rightUpTo leftLawful rightLawful => exact ⟨leftBelow, rightUpTo⟩

/-! ## A row has one lawful grouping at most -/

/-- The outermost operator binds loosest. -/
theorem Lawful.level_le {grouping : Grouping} (lawful : grouping.Lawful levels) {limit : Nat}
    (upTo : grouping.UpTo limit) {token : String} {level : Nat}
    (member : Item.operator token level ∈ grouping.items) : level ≤ limit := by
  induction grouping generalizing limit with
  | leaf operand => simp [items] at member
  | join token' root left right leftHypothesis rightHypothesis =>
      have rootLe : root ≤ limit := join_upTo.mp upTo
      obtain ⟨leftUpTo, rightUpTo⟩ := lawful.upTo
      obtain ⟨leftLawful, rightLawful⟩ := lawful.operands
      rw [items, List.mem_append, List.mem_cons] at member
      rcases member with inLeft | isRoot | inRight
      · exact Nat.le_trans (leftHypothesis leftLawful leftUpTo inLeft) rootLe
      · cases isRoot
        exact rootLe
      · exact Nat.le_trans (rightHypothesis rightLawful rightUpTo inRight) rootLe

theorem Lawful.level_lt {grouping : Grouping} (lawful : grouping.Lawful levels) {limit : Nat}
    (below : grouping.Below limit) {token : String} {level : Nat}
    (member : Item.operator token level ∈ grouping.items) : level < limit := by
  cases limit with
  | zero =>
      cases grouping with
      | leaf operand => simp [items] at member
      | join token' root left right => exact absurd (join_below.mp below) (Nat.not_lt_zero root)
  | succ limit =>
      have upTo : grouping.UpTo limit := fun root isRoot => Nat.le_of_lt_succ (below root isRoot)
      exact Nat.lt_succ_of_le (lawful.level_le upTo member)

theorem items_ne_nil (grouping : Grouping) : grouping.items ≠ [] := by
  cases grouping <;> simp [items]

/-- The outermost operator of one grouping can not stand further left than that of another one of
the same row: between the two, each would have to bind looser than the other. -/
private theorem not_shifted {token token' : String} {level level' : Nat}
    {left right left' right' : Grouping} {between : List Item}
    (lawful : (join token level left right).Lawful levels)
    (lawful' : (join token' level' left' right').Lawful levels)
    (leftItems : left'.items = left.items ++ .operator token level :: between)
    (rightItems : right.items = between ++ .operator token' level' :: right'.items) : False := by
  have inLeft : Item.operator token level ∈ left'.items := by simp [leftItems]
  have inRight : Item.operator token' level' ∈ right.items := by simp [rightItems]
  obtain ⟨_, rightLawful⟩ := lawful.operands
  obtain ⟨leftLawful, _⟩ := lawful'.operands
  have upper : level ≤ level' := leftLawful.level_le lawful'.upTo.1 inLeft
  have lower : level' ≤ level := rightLawful.level_le lawful.upTo.2 inRight
  obtain rfl : level = level' := Nat.le_antisymm upper lower
  obtain ⟨associativity, grouped⟩ := lawful.grouped
  cases associativity with
  | left =>
      have below := (lawful.sides_of_left grouped).2
      exact Nat.lt_irrefl level (rightLawful.level_lt below inRight)
  | right =>
      have below := (lawful'.sides_of_right grouped).1
      exact Nat.lt_irrefl level (leftLawful.level_lt below inLeft)

theorem Lawful.unique {grouping other : Grouping} (lawful : grouping.Lawful levels)
    (otherLawful : other.Lawful levels) (same : grouping.items = other.items) :
    grouping = other := by
  induction grouping generalizing other with
  | leaf operand =>
      cases other with
      | leaf operand' =>
          have equal : operand = operand' := by simpa [items] using same
          rw [equal]
      | join token' level' left' right' =>
          have lengths := congrArg List.length same
          have leftLength := List.length_pos_iff.mpr left'.items_ne_nil
          simp only [items, List.length_append, List.length_cons, List.length_nil] at lengths
          omega
  | join token level left right leftHypothesis rightHypothesis =>
      cases other with
      | leaf operand' =>
          have lengths := congrArg List.length same
          have leftLength := List.length_pos_iff.mpr left.items_ne_nil
          simp only [items, List.length_append, List.length_cons, List.length_nil] at lengths
          omega
      | join token' level' left' right' =>
          obtain ⟨leftLawful, rightLawful⟩ := lawful.operands
          obtain ⟨leftLawful', rightLawful'⟩ := otherLawful.operands
          rw [items, items] at same
          rcases List.append_eq_append_iff.mp same with
            ⟨between, leftItems, rightItems⟩ | ⟨between, leftItems, rightItems⟩
          · cases between with
            | nil =>
                rw [List.append_nil] at leftItems
                obtain ⟨operator, rightSame⟩ := List.cons.inj rightItems
                cases operator
                rw [leftHypothesis leftLawful leftLawful' leftItems.symm,
                  rightHypothesis rightLawful rightLawful' rightSame]
            | cons item between =>
                obtain ⟨rfl, rightSame⟩ := List.cons.inj rightItems
                exact (not_shifted lawful otherLawful leftItems rightSame).elim
          · cases between with
            | nil =>
                rw [List.append_nil] at leftItems
                obtain ⟨operator, rightSame⟩ := List.cons.inj rightItems
                cases operator
                rw [leftHypothesis leftLawful leftLawful' leftItems,
                  rightHypothesis rightLawful rightLawful' rightSame.symm]
            | cons item between =>
                obtain ⟨rfl, rightSame⟩ := List.cons.inj rightItems
                exact (not_shifted otherLawful lawful leftItems rightSame).elim

end Grouping

end Fixity.Syntax
