import Mathlib.Logic.Basic

/-!
Contract: recursions that nothing bounds from outside.

Owns:
- `Recursion`, one level of a recursive function: what it answers, given the answers to what it
  asks;
- `Ends`, the questions that a recursion answers after finitely many levels, and the answer;
- `Asks` and `Meets`, the questions that an answer depends on, directly or further down;
- the rule for failures that every level hands on.

Does not own: the functions that are such recursions.
-/

namespace Fixity

/-- One level of a recursive function, which gets the function itself for the questions it asks. -/
abbrev Recursion (Question Answer : Type) := (Question → Answer) → Question → Answer

namespace Recursion

variable {Question Answer : Type} {level : Recursion Question Answer}

/-- A recursion ends with an answer: the questions of its first level end, and their answers decide
its own. -/
inductive Ends (level : Recursion Question Answer) : Question → Answer → Prop
  | intro {question : Question} {answer : Answer} (asked : Question → Prop)
      (given : Question → Answer) (settled : ∀ other, asked other → Ends level other (given other))
      (decides : ∀ walk : Question → Answer, (∀ other, asked other → walk other = given other) →
        level walk question = answer) : Ends level question answer

/-- A function that answers as the recursion does, wherever that ends. -/
def Completes (level : Recursion Question Answer) (walk : Question → Answer) : Prop :=
  ∀ question answer, Ends level question answer → walk question = answer

/-- One level asks a question: what it answers depends on what the answer to that one is. -/
def Asks (level : Recursion Question Answer) (question other : Question) : Prop :=
  ∃ walk walk' : Question → Answer, Completes level walk ∧
    (∀ another, another ≠ other → walk' another = walk another) ∧
    level walk' question ≠ level walk question

/-- A recursion comes to a question, at its top or further down. -/
inductive Meets (level : Recursion Question Answer) : Question → Question → Prop
  | refl (question : Question) : Meets level question question
  | step {question other further : Question} (asks : Asks level question other)
      (meets : Meets level other further) : Meets level question further

/-- An answer that every level gives back at once when it is the answer to something it asked. -/
def HandsOn (level : Recursion Question Answer) (failure : Answer) : Prop :=
  ∀ (walk walk' : Question → Answer) (question other : Question), walk other = failure →
    (∀ another, another ≠ other → walk' another = walk another) →
    level walk' question = level walk question ∨ level walk question = failure

/-- A level that asks nothing ends. -/
theorem Ends.of_const {question : Question} {answer : Answer}
    (decides : ∀ walk, level walk question = answer) : Ends level question answer :=
  .intro (fun _ => False) (fun _ => answer) nofun fun walk _ => decides walk

theorem Ends.unique {question : Question} {answer answer' : Answer}
    (ends : Ends level question answer) (ends' : Ends level question answer') :
    answer = answer' := by
  classical
  induction ends generalizing answer' with
  | intro asked given settled decides inductionHypothesis =>
      obtain ⟨asked', given', settled', decides'⟩ := ends'
      -- one function that gives the answers of both
      let walk := fun other => if asked other then given other else given' other
      have agrees : ∀ other, asked other → walk other = given other := fun other isAsked =>
        if_pos isAsked
      have agrees' : ∀ other, asked' other → walk other = given' other := by
        intro other isAsked'
        by_cases isAsked : asked other
        · exact (agrees other isAsked).trans
            (inductionHypothesis other isAsked (settled' other isAsked'))
        · exact if_neg isAsked
      exact (decides walk agrees).symm.trans (decides' walk agrees')

theorem exists_completes (level : Recursion Question Answer) (elsewhere : Answer) :
    ∃ walk, Completes level walk := by
  classical
  refine ⟨fun question => if ends : ∃ answer, Ends level question answer then ends.choose
    else elsewhere, fun question answer ends => ?_⟩
  have found : ∃ answer, Ends level question answer := ⟨answer, ends⟩
  exact (dif_pos found).trans (found.choose_spec.unique ends)

/-- What a recursion that ends asks, ends. -/
theorem Ends.of_asks {question other : Question} {answer : Answer}
    (ends : Ends level question answer) (asks : Asks level question other) :
    ∃ answer', Ends level other answer' := by
  obtain ⟨asked, given, settled, decides⟩ := ends
  obtain ⟨walk, walk', completes, elsewhere, differ⟩ := asks
  refine Classical.byContradiction fun endless => ?_
  have agrees : ∀ another, asked another → walk another = given another := fun another isAsked =>
    completes another _ (settled another isAsked)
  have agrees' : ∀ another, asked another → walk' another = given another := by
    intro another isAsked
    have apart : another ≠ other := by
      rintro rfl
      exact endless ⟨_, settled another isAsked⟩
    exact (elsewhere another apart).trans (agrees another isAsked)
  exact differ ((decides walk' agrees').trans (decides walk agrees).symm)

theorem Ends.of_completes {question : Question} {answer : Answer} {walk : Question → Answer}
    (ends : Ends level question answer) (completes : Completes level walk) :
    level walk question = answer := by
  obtain ⟨asked, given, settled, decides⟩ := ends
  exact decides walk fun other isAsked => completes other _ (settled other isAsked)

/-- A recursion that comes to a failure that is handed on fails with it. -/
theorem Ends.of_meets {question other : Question} {answer failure : Answer}
    (ends : Ends level question answer) (handsOn : HandsOn level failure)
    (meets : Meets level question other) (fails : Ends level other failure) :
    answer = failure := by
  induction meets generalizing answer with
  | refl => exact ends.unique fails
  | @step question other further asks _ inductionHypothesis =>
      obtain ⟨answer', ends'⟩ := ends.of_asks asks
      obtain rfl := inductionHypothesis ends' fails
      obtain ⟨walk, walk', completes, elsewhere, differ⟩ := asks
      have stops := handsOn walk walk' question other (completes other _ ends') elsewhere
      exact (ends.of_completes completes).symm.trans (stops.resolve_left differ)

end Recursion

end Fixity
