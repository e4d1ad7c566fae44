import Mathlib.Order.Monotone.Basic
import Fixity.Proofs.Grouping

/-!
Contract: what a new operator does to the levels of the others.

Owns:
- `Embeds`: the levels of a table stand in another one in the same order, with the same operators
  and associativities, and the other table knows one token more;
- its proof for every definition of a token that was no operator, unless it is forced;
- `Grouping.shift`, a grouping under the new indices, which stays lawful.

Does not own: tokens that leave another level.
-/

namespace Fixity.Syntax

/-- The levels of one table within those of a table that has one more operator. -/
structure Embeds (levels levels' : Levels) (token : String) (shift : Nat → Nat) : Prop where
  increasing : StrictMono shift
  levelOf? : ∀ other, levels.contains other →
    levels'.levelOf? other = (levels.levelOf? other).map shift
  associativity : ∀ level < levels.length,
    levels'.associativityAt? (shift level) = levels.associativityAt? level
  known : ∀ other, levels'.contains other → levels.contains other ∨ other = token

/-! ## Indices behind an insertion -/

/-- The index of a level after one has been opened at a given index. -/
def shiftFrom (opened level : Nat) : Nat := if level < opened then level else level + 1

theorem shiftFrom_strictMono (opened : Nat) : StrictMono (shiftFrom opened) := by
  intro first second less
  unfold shiftFrom
  split <;> split <;> omega

theorem findIdx?_insertIdx {α : Type} (test : α → Bool) {inserted : α}
    (fails : test inserted = false) (entries : List α) {index : Nat}
    (inRange : index ≤ entries.length) :
    (entries.insertIdx index inserted).findIdx? test =
      (entries.findIdx? test).map (shiftFrom index) := by
  induction index generalizing entries with
  | zero =>
      rw [List.insertIdx_zero, List.findIdx?_cons, fails]
      rfl
  | succ index inductionHypothesis =>
      obtain _ | ⟨entry, rest⟩ := entries
      · simp at inRange
      · rw [List.insertIdx_succ_cons, List.findIdx?_cons, List.findIdx?_cons]
        cases holds : test entry with
        | true => simp [shiftFrom]
        | false =>
            rw [inductionHypothesis rest (by simpa using inRange)]
            simp only [Option.map_map, Bool.false_eq_true, if_false]
            congr 1
            funext level
            simp only [Function.comp_apply, shiftFrom]
            split <;> split <;> omega

theorem getElem?_insertIdx_shiftFrom {α : Type} (inserted : α) (entries : List α)
    {index level : Nat} :
    (entries.insertIdx index inserted)[shiftFrom index level]? = entries[level]? := by
  unfold shiftFrom
  split
  · next before => rw [List.getElem?_insertIdx_of_lt before]
  · next behind =>
    rw [List.getElem?_insertIdx_of_gt (by omega)]
    rfl

/-! ## Definitions of new tokens -/

section NewToken

variable {levels levels' : Levels} {definition : Definition}

theorem indexOf?_openBehind {index : Nat} {other : String}
    (different : other ≠ definition.token)
    (ok : levels.openBehind index definition = .ok levels') :
    levels'.indexOf? other = (levels.indexOf? other).map (shiftFrom (index + 1)) := by
  obtain ⟨inRange, rfl⟩ := Levels.openBehind_eq_ok ok
  exact findIdx?_insertIdx (fun level : Level => level.operators.contains other)
    (by simpa using different) levels (by omega)

theorem indexOf?_join {index : Nat} {other : String}
    (different : other ≠ definition.token) (ok : levels.join index definition = .ok levels') :
    levels'.indexOf? other = levels.indexOf? other := by
  obtain ⟨level, found, _, rfl⟩ := Levels.join_eq_ok ok
  obtain ⟨inRange, rfl⟩ := List.getElem?_eq_some_iff.mp found
  have sameTest : (levels[index].operators ++ [definition.token]).contains other =
      levels[index].operators.contains other := by
    simp [different]
  have split : levels = levels.take index ++ levels[index] :: levels.drop (index + 1) := by
    rw [← List.drop_eq_getElem_cons inRange, List.take_append_drop]
  unfold Levels.indexOf?
  rw [List.set_eq_take_append_cons_drop, if_pos inRange]
  conv => rhs; rw [split]
  rw [List.findIdx?_append, List.findIdx?_append, List.findIdx?_cons, List.findIdx?_cons,
    sameTest]

/-- What holds of the indices of listed tokens holds of levels, since the token is no application
either. -/
private theorem levelOf?_of_indexOf? {token : String} {shift : Nat → Nat}
    (unknown : ¬ levels.contains token) (base : applicationToken ∈ levels.tokens)
    (indices : ∀ other, other ≠ token →
      levels'.indexOf? other = (levels.indexOf? other).map shift)
    {other : String} (known : levels.contains other) :
    levels'.levelOf? other = (levels.levelOf? other).map shift := by
  have different : other ≠ token := by
    rintro rfl
    exact unknown known
  have baseDifferent : applicationToken ≠ token := by
    rintro rfl
    exact unknown (Levels.contains_iff.mpr (Or.inl base))
  unfold Levels.levelOf?
  rw [indices other different]
  cases levels.indexOf? other with
  | some index => rfl
  | none =>
      dsimp only [Option.map_none]
      by_cases application : isApplication other
      · rw [if_pos application, if_pos application, indices _ baseDifferent]
      · rw [if_neg application, if_neg application]
        rfl

/-- A token that was no operator moves no other one, unless its definition is forced. -/
theorem Embeds.of_define (wellFormed : levels.WellFormed)
    (unknown : ¬ levels.contains definition.token) (unforced : ¬ definition.force)
    (ok : levels.define definition = .ok levels') :
    ∃ shift, Embeds levels levels' definition.token shift := by
  have absent : definition.token ∉ levels.tokens := fun listed =>
    unknown (Levels.contains_iff.mpr (Or.inl listed))
  have base : applicationToken ∈ levels.tokens := wellFormed.initialStay _ (by decide)
  have known : ∀ other, levels'.contains other → levels.contains other ∨
      other = definition.token := by
    intro other contained
    have operators := Levels.tokens_define ok
    have listed : ∀ {text}, text ∈ levels'.tokens → text ∈ levels.tokens ∨
        text = definition.token := by
      intro text member
      rw [operators.mem_iff, List.mem_cons] at member
      exact member.elim Or.inr fun old => Or.inl (List.mem_of_mem_filter old)
    rcases Levels.contains_iff.mp contained with member | ⟨application, _⟩
    · exact (listed member).imp_left fun old => Levels.contains_iff.mpr (Or.inl old)
    · exact Or.inl (Levels.contains_iff.mpr (Or.inr ⟨application, base⟩))
  obtain ⟨_, _, _, placed⟩ := Levels.define_cases ok
  rw [Levels.erase_eq_self wellFormed absent] at placed
  rcases placed with ⟨_, opened⟩ | ⟨_, joined⟩
  · refine ⟨shiftFrom (Levels.indexAt definition.precedence + 1), ?_⟩
    refine ⟨shiftFrom_strictMono _, fun other contained => ?_, fun level inRange => ?_, known⟩
    · exact levelOf?_of_indexOf? unknown base
        (fun other different => indexOf?_openBehind different opened) contained
    · obtain ⟨_, rfl⟩ := Levels.openBehind_eq_ok opened
      unfold Levels.associativityAt?
      rw [getElem?_insertIdx_shiftFrom]
  · refine ⟨id, strictMono_id, fun other contained => ?_, fun level inRange => ?_, known⟩
    · refine levelOf?_of_indexOf? unknown base (fun other different => ?_) contained
      rw [indexOf?_join different joined, Option.map_id]
      rfl
    · obtain ⟨entry, found, agrees, rfl⟩ := Levels.join_eq_ok joined
      have same : entry.associativity = definition.associativity :=
        agrees.resolve_right unforced
      unfold Levels.associativityAt?
      rw [id, List.getElem?_set]
      by_cases here : Levels.indexAt definition.precedence = level
      · subst here
        simp [inRange, same, (List.getElem?_eq_some_iff.mp found).2]
      · rw [if_neg here]

end NewToken

/-! ## Groupings under new indices -/

/-- An item under new indices. -/
def Item.shift (shift : Nat → Nat) : Item → Item
  | .operand node => .operand node
  | .operator token level => .operator token (shift level)

namespace Grouping

/-- A grouping under new indices. -/
def shift (change : Nat → Nat) : Grouping → Grouping
  | leaf operand => .leaf operand
  | join token level left right => .join token (change level) (left.shift change) (right.shift change)

theorem items_shift (change : Nat → Nat) (grouping : Grouping) :
    (grouping.shift change).items = grouping.items.map (Item.shift change) := by
  induction grouping with
  | leaf operand => rfl
  | join token level left right leftHypothesis rightHypothesis =>
      simp [shift, items, leftHypothesis, rightHypothesis, Item.shift]

theorem node_shift (change : Nat → Nat) (grouping : Grouping) :
    (grouping.shift change).node = grouping.node := by
  induction grouping with
  | leaf operand => rfl
  | join token level left right leftHypothesis rightHypothesis =>
      rw [shift, node, leftHypothesis, rightHypothesis, node]

theorem level?_shift (change : Nat → Nat) (grouping : Grouping) :
    (grouping.shift change).level? = grouping.level?.map change := by
  cases grouping <;> rfl

variable {change : Nat → Nat} {grouping : Grouping} {limit : Nat}

theorem Below.shift (increasing : StrictMono change) (below : grouping.Below limit) :
    (grouping.shift change).Below (change limit) := by
  intro level root
  rw [level?_shift] at root
  obtain ⟨old, oldRoot, rfl⟩ := Option.map_eq_some_iff.mp root
  exact increasing (below old oldRoot)

theorem UpTo.shift (increasing : StrictMono change) (upTo : grouping.UpTo limit) :
    (grouping.shift change).UpTo (change limit) := by
  intro level root
  rw [level?_shift] at root
  obtain ⟨old, oldRoot, rfl⟩ := Option.map_eq_some_iff.mp root
  exact increasing.monotone (upTo old oldRoot)

theorem Lawful.shift {levels levels' : Levels} {token : String}
    (embeds : Embeds levels levels' token change) (lawful : grouping.Lawful levels) :
    (grouping.shift change).Lawful levels' := by
  have keeps : ∀ {level associativity}, levels.associativityAt? level = some associativity →
      levels'.associativityAt? (change level) = some associativity := by
    intro level associativity grouped
    obtain ⟨entry, found, _⟩ := Option.map_eq_some_iff.mp grouped
    rw [embeds.associativity level (List.getElem?_eq_some_iff.mp found).1, grouped]
  induction lawful with
  | leaf operand => exact .leaf operand
  | left grouped leftUpTo rightBelow leftLawful rightLawful leftHypothesis rightHypothesis =>
      exact .left (keeps grouped) (leftUpTo.shift embeds.increasing)
        (rightBelow.shift embeds.increasing) leftHypothesis rightHypothesis
  | right grouped leftBelow rightUpTo leftLawful rightLawful leftHypothesis rightHypothesis =>
      exact .right (keeps grouped) (leftBelow.shift embeds.increasing)
        (rightUpTo.shift embeds.increasing) leftHypothesis rightHypothesis

end Grouping

end Fixity.Syntax
