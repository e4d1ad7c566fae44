import Fixity.Proofs.Collapse
import Fixity.Proofs.Scanner

/-!
Contract: the loops of the reader, one round after the other.

Owns:
- `round`, which joins one operator of a level with its neighbours, and `Rounds`, the loop that does
  so until the row has no such operator left;
- that a level is collapsed by at most as many rounds as it has operators in the row;
- `Scanner.Turns`, the loop that gives characters to the machine, each until it is taken;
- that no character is given to the machine more than twice.

Does not own: the calls that readers make of each other.
-/

namespace Fixity.Syntax

/-! ## Rounds of a level -/

/-- Whether an item is an operator of a level. -/
def Item.isAt (level : Nat) : Item → Bool
  | .operand _ => false
  | .operator _ tokenLevel => tokenLevel = level

/-- The row after the operator between some items has been joined with its neighbours. -/
def joinNeighbours (associativity : Associativity) (token : String) :
    (behind ahead : List Item) → Except SyntaxError (List Item)
  | .operand passed :: behind, .operand next :: ahead =>
      .ok (readingOrder associativity behind
        (.operand (combine associativity token passed next) :: ahead))
  | _, _ => .error (.missingOperand token)

/-- Looks for an operator of the level and joins it with its neighbours. The items passed so far are
in reverse. -/
def roundFrom (associativity : Associativity) (level : Nat) (behind : List Item) :
    List Item → Option (Except SyntaxError (List Item))
  | [] => none
  | .operand node :: ahead => roundFrom associativity level (.operand node :: behind) ahead
  | .operator token tokenLevel :: ahead =>
      if tokenLevel = level then some (joinNeighbours associativity token behind ahead)
      else roundFrom associativity level (.operator token tokenLevel :: behind) ahead

/-- One round: the first operator of the level, or the last one if the level associates to the
right, is joined with its neighbours. There is no round if the row has no operator of the level. -/
def round (associativity : Associativity) (level : Nat) (items : List Item) :
    Option (Except SyntaxError (List Item)) :=
  match associativity with
  | .left => roundFrom .left level [] items
  | .right => roundFrom .right level [] items.reverse

/-- A loop of rounds, with their number and what it ends in. -/
inductive Rounds (associativity : Associativity) (level : Nat) :
    Nat → List Item → Except SyntaxError (List Item) → Prop
  | done {items : List Item} (none : round associativity level items = none) :
      Rounds associativity level 0 items (.ok items)
  | fails {items : List Item} {error : SyntaxError}
      (failed : round associativity level items = some (.error error)) :
      Rounds associativity level 1 items (.error error)
  | again {count : Nat} {items joined : List Item} {outcome : Except SyntaxError (List Item)}
      (turned : round associativity level items = some (.ok joined))
      (onward : Rounds associativity level count joined outcome) :
      Rounds associativity level (count + 1) items outcome

section Rounds

variable {associativity : Associativity} {level : Nat} {items joined behind ahead : List Item}

/-- Items that are no operators of the level are passed. -/
private theorem roundFrom_pass {item : Item} (other : ¬ item.isAt level) :
    roundFrom associativity level behind (item :: ahead) =
      roundFrom associativity level (item :: behind) ahead := by
  cases item with
  | operand node => rw [roundFrom]
  | operator token tokenLevel => rw [roundFrom, if_neg (by simpa [Item.isAt] using other)]

/-- What has been passed without an operator of the level can be passed again. -/
theorem round_readingOrder (passed : ∀ item ∈ behind, ¬ item.isAt level) (ahead : List Item) :
    round associativity level (readingOrder associativity behind ahead) =
      roundFrom associativity level behind ahead := by
  induction behind generalizing ahead with
  | nil => cases associativity <;> simp [round, readingOrder]
  | cons item behind inductionHypothesis =>
      obtain ⟨first, others⟩ := List.forall_mem_cons.mp passed
      rw [readingOrder_move, inductionHypothesis others, roundFrom_pass first]

/-- Joining puts an operation in place of an operator and its two neighbours. -/
theorem joinNeighbours_eq_ok (level : Nat) {token : String}
    (joins : joinNeighbours associativity token behind ahead = .ok joined) :
    ∃ front back left right,
      readingOrder associativity behind (.operator token level :: ahead) =
        front ++ .operand left :: .operator token level :: .operand right :: back ∧
      joined = front ++ .operand (.operation token left right) :: back := by
  unfold joinNeighbours at joins
  split at joins
  · next passed behind next ahead =>
    cases joins
    cases associativity with
    | left => exact ⟨behind.reverse, ahead, passed, next, by simp [readingOrder], rfl⟩
    | right =>
        exact ⟨ahead.reverse, behind, next, passed, by simp [readingOrder],
          by simp [readingOrder, combine]⟩
  · cases joins

/-- A round puts an operation in place of an operator of the level and its two neighbours. -/
theorem round_eq_ok (turned : round associativity level items = some (.ok joined)) :
    ∃ front back left token right,
      items = front ++ .operand left :: .operator token level :: .operand right :: back ∧
      joined = front ++ .operand (.operation token left right) :: back := by
  have search {behind ahead : List Item}
      (turned : roundFrom associativity level behind ahead = some (.ok joined)) :
      ∃ front back left token right,
        readingOrder associativity behind ahead =
          front ++ .operand left :: .operator token level :: .operand right :: back ∧
        joined = front ++ .operand (.operation token left right) :: back := by
    fun_induction roundFrom associativity level behind ahead with
    | case1 => cases turned
    | case2 behind node ahead inductionHypothesis =>
        rw [← readingOrder_move]
        exact inductionHypothesis turned
    | case3 behind token ahead =>
        obtain ⟨front, back, left, right, row, rfl⟩ :=
          joinNeighbours_eq_ok level (Option.some.inj turned)
        exact ⟨front, back, left, token, right, row, rfl⟩
    | case4 behind token tokenLevel ahead _ inductionHypothesis =>
        rw [← readingOrder_move]
        exact inductionHypothesis turned
  cases associativity with
  | left => exact search turned
  | right => simpa [readingOrder] using search turned

/-- A round removes one operator of its level and no other operator. -/
theorem round_removes (turned : round associativity level items = some (.ok joined))
    (level' : Nat) :
    items.countP (Item.isAt level') =
      joined.countP (Item.isAt level') + if level = level' then 1 else 0 := by
  obtain ⟨front, back, left, token, right, rfl, rfl⟩ := round_eq_ok turned
  simp only [List.countP_append, List.countP_cons, Item.isAt, decide_eq_true_eq,
    Bool.false_eq_true, if_false]
  omega

/-- While a row has an operator of the level, there is another round. -/
theorem round_eq_none :
    round associativity level items = none ↔ ∀ item ∈ items, ¬ item.isAt level := by
  have search (behind ahead : List Item) :
      roundFrom associativity level behind ahead = none ↔ ∀ item ∈ ahead, ¬ item.isAt level := by
    fun_induction roundFrom associativity level behind ahead with
    | case1 => simp
    | case2 behind node ahead inductionHypothesis => simpa [Item.isAt] using inductionHypothesis
    | case3 behind token ahead => simp [Item.isAt]
    | case4 behind token tokenLevel ahead other inductionHypothesis =>
        simpa [Item.isAt, other] using inductionHypothesis
  cases associativity with
  | left => exact search [] items
  | right => simpa [round] using search [] items.reverse

/-- A loop that ends in a row has removed one operator of the level in each round, and none is
left. -/
theorem Rounds.count {count : Nat}
    (rounds : Rounds associativity level count items (.ok joined)) :
    items.countP (Item.isAt level) = count ∧ joined.countP (Item.isAt level) = 0 := by
  generalize same : Except.ok joined = outcome at rounds
  induction rounds with
  | done none =>
      cases same
      have nothing := List.countP_eq_zero.mpr (round_eq_none.mp none)
      exact ⟨nothing, nothing⟩
  | fails => cases same
  | again turned _ inductionHypothesis =>
      obtain ⟨others, last⟩ := inductionHypothesis same
      rw [round_removes turned level, others, if_pos rfl]
      exact ⟨rfl, last⟩

/-- The pass through a row is such a loop, whatever has been passed so far. -/
private theorem collapsePass_rounds (associativity : Associativity) (ahead : List Item)
    (passed : ∀ item ∈ behind, ¬ item.isAt level) :
    ∃ count ≤ ahead.countP (Item.isAt level),
      Rounds associativity level count (readingOrder associativity behind ahead)
        ((collapsePass associativity level behind ahead).map
          (readingOrder associativity · [])) := by
  have still {first : Item} {behind : List Item} (other : ¬ first.isAt level)
      (others : ∀ item ∈ behind, ¬ item.isAt level) :
      ∀ item ∈ first :: behind, ¬ item.isAt level :=
    List.forall_mem_cons.mpr ⟨other, others⟩
  have operand (node : Node) : ¬ (Item.operand node).isAt level := by simp [Item.isAt]
  fun_induction collapsePass associativity level behind ahead with
  | case1 behind =>
      exact ⟨0, Nat.le_refl 0, .done ((round_readingOrder passed []).trans rfl)⟩
  | case2 behind node ahead inductionHypothesis =>
      rw [← readingOrder_move]
      simpa [Item.isAt] using inductionHypothesis (still (operand node) passed)
  | case3 token left behind right ahead inductionHypothesis =>
      obtain ⟨count, atMost, onward⟩ :=
        inductionHypothesis (still (operand _) (List.forall_mem_cons.mp passed).2)
      rw [readingOrder_move] at onward
      refine ⟨count + 1, by simpa [Item.isAt] using atMost, .again ?_ onward⟩
      rw [round_readingOrder passed, roundFrom, if_pos rfl]
      rfl
  | case4 behind token ahead noNeighbours =>
      refine ⟨1, by simp [Item.isAt], .fails ?_⟩
      rw [round_readingOrder passed, roundFrom, if_pos rfl, joinNeighbours]
      · intro passedNode behind' next ahead' front back
        exact noNeighbours _ _ _ _ front back
  | case5 behind token tokenLevel ahead other inductionHypothesis =>
      rw [← readingOrder_move]
      have noLevel : ¬ (Item.operator token tokenLevel).isAt level := by
        simpa [Item.isAt] using other
      simpa [Item.isAt, other] using inductionHypothesis (still noLevel passed)

/-- A level is collapsed by a loop of rounds, at most one for each of its operators. -/
theorem collapseLevel_rounds (associativity : Associativity) (level : Nat) (items : List Item) :
    ∃ count ≤ items.countP (Item.isAt level),
      Rounds associativity level count items (collapseLevel associativity level items) := by
  have passed : ∀ item ∈ ([] : List Item), ¬ item.isAt level := fun _ member => by cases member
  cases associativity with
  | left =>
      simpa [readingOrder, collapseLevel] using collapsePass_rounds .left items passed
  | right =>
      have rounds := collapsePass_rounds .right items.reverse passed
      have same (outcome : Except SyntaxError (List Item)) :
          outcome.map (readingOrder .right · []) = outcome := by cases outcome <;> rfl
      rw [same] at rounds
      simpa [readingOrder, collapseLevel] using rounds

end Rounds

/-! ## Turns of the machine -/

namespace Scanner

/-- The loop that gives the characters of a text to the machine, with the number of its turns and
what it ends in. A character that is not taken is given to the machine again. -/
inductive Turns (isGlyph : Char → Bool) (whole : List Char) :
    Nat → Scanner → List Char → Except SyntaxError (List Shown) → Prop
  | finished (scanner : Scanner) :
      Turns isGlyph whole 0 scanner [] (scanner.finish (offsetOf whole []))
  | fails {scanner : Scanner} {char : Char} {rest : List Char} {error : SyntaxError}
      (failed : scanner.step isGlyph char rest.head? (offsetOf whole rest) = .error error) :
      Turns isGlyph whole 1 scanner (char :: rest) (.error error)
  | taken {count : Nat} {scanner after : Scanner} {char : Char} {rest : List Char}
      {outcome : Except SyntaxError (List Shown)}
      (turned : scanner.step isGlyph char rest.head? (offsetOf whole rest) = .ok (true, after))
      (onward : Turns isGlyph whole count (after.advance char) rest outcome) :
      Turns isGlyph whole (count + 1) scanner (char :: rest) outcome
  | refused {count : Nat} {scanner after : Scanner} {char : Char} {rest : List Char}
      {outcome : Except SyntaxError (List Shown)}
      (turned : scanner.step isGlyph char rest.head? (offsetOf whole rest) = .ok (false, after))
      (onward : Turns isGlyph whole count after (char :: rest) outcome) :
      Turns isGlyph whole (count + 1) scanner (char :: rest) outcome

section Turns

variable {isGlyph : Char → Bool} {whole : List Char} {scanner after after' : Scanner} {char : Char}
  {next : Option Char} {past : Nat}

/-- A machine that does not take a character finishes its word. -/
theorem start_of_refused (turned : scanner.step isGlyph char next past = .ok (false, after)) :
    after.mode = .start := by
  have word (turned : Except.ok (scanner.word isGlyph char) =
      (.ok (false, after) : Except SyntaxError (Bool × Scanner))) : after.mode = .start := by
    unfold Scanner.word at turned
    split at turned <;> cases turned
    rfl
  unfold Scanner.step at turned
  split at turned
  · obtain ⟨_, _, same⟩ := map_eq_ok.mp turned
    cases same
  · exact word turned
  · exact word turned
  · exact word turned
  all_goals cases turned

/-- Between words, the machine takes every character. -/
theorem not_refused_of_start (start : scanner.mode = .start) :
    scanner.step isGlyph char next past ≠ .ok (false, after) := by
  intro turned
  unfold Scanner.step at turned
  rw [start] at turned
  obtain ⟨_, _, same⟩ := map_eq_ok.mp turned
  cases same

/-- No character is given to the machine more than twice. -/
theorem taken_again (turned : scanner.step isGlyph char next past = .ok (false, after)) :
    after.step isGlyph char next past ≠ .ok (false, after') :=
  not_refused_of_start (start_of_refused turned)

private theorem feed_refused (turned : scanner.step isGlyph char next past = .ok (false, after)) :
    scanner.feed isGlyph char next past = (after.step isGlyph char next past).map Prod.snd := by
  unfold feed
  rw [turned]

/-- A text is read by a loop of at most two turns for each character. -/
theorem outcome_turns (scanner : Scanner) (rest : List Char) :
    ∃ count ≤ 2 * rest.length,
      Turns isGlyph whole count scanner rest (outcome isGlyph whole scanner rest) := by
  induction rest generalizing scanner with
  | nil => exact ⟨0, Nat.le_refl 0, .finished scanner⟩
  | cons char rest inductionHypothesis =>
      cases turned : scanner.step isGlyph char rest.head? (offsetOf whole rest) with
      | error error =>
          refine ⟨1, by rw [List.length_cons]; omega, ?_⟩
          rw [outcome_error (by rw [feed, turned])]
          exact .fails turned
      | ok answer =>
          obtain ⟨_ | _, after⟩ := answer
          · cases again : after.step isGlyph char rest.head? (offsetOf whole rest) with
            | error error =>
                refine ⟨2, by rw [List.length_cons]; omega, ?_⟩
                rw [outcome_error (by rw [feed_refused turned, again]; rfl)]
                exact .refused turned (.fails again)
            | ok answer =>
                obtain ⟨_ | _, after'⟩ := answer
                · exact absurd again (taken_again turned)
                · obtain ⟨count, atMost, onward⟩ := inductionHypothesis (after'.advance char)
                  refine ⟨count + 2, by rw [List.length_cons]; omega, ?_⟩
                  rw [outcome_cons (by rw [feed_refused turned, again]; rfl)]
                  exact .refused turned (.taken again onward)
          · obtain ⟨count, atMost, onward⟩ := inductionHypothesis (after.advance char)
            refine ⟨count + 1, by rw [List.length_cons]; omega, ?_⟩
            rw [outcome_cons (feed_taken turned)]
            exact .taken turned onward

end Turns

end Scanner

end Fixity.Syntax
