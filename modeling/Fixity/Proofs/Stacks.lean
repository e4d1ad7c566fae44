import Fixity.Scope

/-!
Contract: the values bound to each name of a scope.

Owns:
- `Scope.values`, all values of a name, and what each change of a scope does to them;
- `Retopped`, a row of values that differs from another one at most in the visible value;
- `Bindings.Tidy`: a name that was ever bound has a value, unless it was removed.
-/

namespace Fixity

namespace Scope

/-- All values bound to a name, the visible one first. -/
def values (scope : Scope) (name : String) : List Value := (scope.stack? name).getD []

theorem values_bind (scope : Scope) (name other : String) (value : Value) :
    (scope.bind name value).values other =
      if name = other then value :: (scope.values other).tail else scope.values other := by
  unfold values
  rw [stack?_bind]
  split
  · next same =>
    subst same
    rfl
  · rfl

theorem values_push (scope : Scope) (name other : String) (value : Value) :
    (scope.push name value).values other =
      if name = other then value :: scope.values other else scope.values other := by
  unfold values
  rw [stack?_push]
  split
  · next same =>
    subst same
    rfl
  · rfl

theorem values_remove (scope : Scope) (name other : String) :
    (scope.remove name).values other = if name = other then [] else scope.values other := by
  unfold values
  rw [stack?_remove]
  split <;> rfl

theorem stack?_pop (scope : Scope) (name : String) :
    (scope.pop name).stack? name =
      if (scope.values name).tail = [] then none else some (scope.values name).tail := by
  unfold pop values
  cases found : scope.stack? name with
  | none => simpa using found
  | some values =>
      dsimp only [Option.getD_some]
      split
      · next empty => rw [if_pos empty, stack?_remove, if_pos rfl]
      · next hidden =>
        rw [if_neg hidden]
        exact Dict.get?_insert_self _ _ _

theorem values_pop (scope : Scope) (name other : String) :
    (scope.pop name).values other =
      if name = other then (scope.values other).tail else scope.values other := by
  split
  · next same =>
    subst same
    show ((scope.pop name).stack? name).getD [] = _
    rw [stack?_pop]
    split
    · next empty => exact empty.symm
    · rfl
  · next different => exact congrArg (Option.getD · []) (stack?_pop_of_ne scope different)

/-- Names that are pushed hide a name once for each time it is among them. -/
theorem values_pushAll (scope : Scope) (named : List (String × Value)) (name : String) :
    ∃ pushed, (scope.pushAll named).values name = pushed ++ scope.values name ∧
      pushed.length = (named.map (·.1)).count name := by
  unfold pushAll
  induction named generalizing scope with
  | nil => exact ⟨[], rfl, rfl⟩
  | cons entry rest inductionHypothesis =>
      obtain ⟨pushed, same, length⟩ := inductionHypothesis (scope.push entry.1 entry.2)
      rw [values_push] at same
      by_cases this : entry.1 = name
      · rw [if_pos this] at same
        refine ⟨pushed ++ [entry.2], ?_, ?_⟩
        · rw [List.foldl_cons, same, List.append_assoc]
          rfl
        · simp [length, this]
      · rw [if_neg this] at same
        exact ⟨pushed, same, by simp [length, this]⟩

theorem values_popAll (scope : Scope) (names : List String) (name : String) :
    (scope.popAll names).values name = (scope.values name).drop (names.count name) := by
  unfold popAll
  rw [← List.count_reverse]
  induction names.reverse generalizing scope with
  | nil => rfl
  | cons first rest inductionHypothesis =>
      rw [List.foldl_cons, inductionHypothesis, values_pop]
      by_cases this : first = name
      · rw [if_pos this, ← List.drop_one, List.drop_drop]
        simp [this, Nat.add_comm]
      · simp [this]

theorem values_foldl_remove (scope : Scope) (names : List String) (name : String)
    (others : name ∉ names) : (names.foldl remove scope).values name = scope.values name := by
  induction names generalizing scope with
  | nil => rfl
  | cons first rest inductionHypothesis =>
      rw [List.mem_cons, not_or] at others
      rw [List.foldl_cons, inductionHypothesis _ others.2, values_remove,
        if_neg (Ne.symm others.1)]

end Scope

/-! ## The visible value -/

/-- The second row of values is the first one, or it is the first one with another visible value. -/
def Retopped (before after : List Value) : Prop :=
  after = before ∨ ∃ value, after = value :: before.tail

namespace Retopped

theorem refl (row : List Value) : Retopped row row := Or.inl rfl

theorem trans {first second third : List Value} (earlier : Retopped first second)
    (later : Retopped second third) : Retopped first third := by
  rcases earlier with rfl | ⟨value, rfl⟩
  · exact later
  · rcases later with rfl | ⟨other, rfl⟩
    · exact Or.inr ⟨value, rfl⟩
    · exact Or.inr ⟨other, rfl⟩

/-- What lies below the visible value is the same, and there is as much of it; only where there was
nothing, one value may have come. -/
theorem below {before after : List Value} (retopped : Retopped before after) :
    after.tail = before.tail ∧
      (after.length = before.length ∨ before.length = 0 ∧ after.length = 1) := by
  rcases retopped with rfl | ⟨value, rfl⟩
  · exact ⟨rfl, Or.inl rfl⟩
  · cases before with
    | nil => exact ⟨rfl, Or.inr ⟨rfl, rfl⟩⟩
    | cons first rest => exact ⟨rfl, Or.inl rfl⟩

/-- If values were pushed before and as many are popped afterwards, nothing of the change is left,
unless there were none. -/
theorem drop {pushed before after : List Value} (retopped : Retopped (pushed ++ before) after) :
    Retopped before (after.drop pushed.length) ∧
      (pushed ≠ [] → after.drop pushed.length = before) := by
  rcases retopped with rfl | ⟨value, rfl⟩
  · rw [List.drop_left]
    exact ⟨.refl before, fun _ => rfl⟩
  · cases pushed with
    | nil => exact ⟨Or.inr ⟨value, rfl⟩, fun some => absurd rfl some⟩
    | cons first rest =>
        have restored : (value :: (first :: rest ++ before).tail).drop (first :: rest).length =
            before := by
          simp
        exact ⟨Or.inl restored, fun _ => restored⟩

end Retopped

/-! ## Tidiness -/

/-- No name is kept without a value. -/
def Bindings.Tidy (bindings : Bindings) : Prop := ∀ name, bindings.get? name ≠ some []

namespace Bindings.Tidy

theorem empty : Tidy ∅ := by
  intro name kept
  cases kept

theorem overlay {upper lower : Bindings} (above : upper.Tidy) (below : lower.Tidy) :
    Tidy (upper.overlay lower) := by
  intro name
  rw [Dict.get?_overlay]
  cases found : upper.get? name with
  | none => exact below name
  | some values =>
      intro same
      exact above name (found.trans same)

variable {scope : Scope}

theorem bind (tidy : scope.bindings.Tidy) (name : String) (value : Value) :
    (scope.bind name value).bindings.Tidy := by
  intro other
  show (scope.bind name value).stack? other ≠ some []
  rw [Scope.stack?_bind]
  split
  · simp
  · exact tidy other

theorem push (tidy : scope.bindings.Tidy) (name : String) (value : Value) :
    (scope.push name value).bindings.Tidy := by
  intro other
  show (scope.push name value).stack? other ≠ some []
  rw [Scope.stack?_push]
  split
  · simp
  · exact tidy other

theorem remove (tidy : scope.bindings.Tidy) (name : String) :
    (scope.remove name).bindings.Tidy := by
  intro other
  show (scope.remove name).stack? other ≠ some []
  rw [Scope.stack?_remove]
  split
  · simp
  · exact tidy other

theorem pop (tidy : scope.bindings.Tidy) (name : String) : (scope.pop name).bindings.Tidy := by
  intro other
  show (scope.pop name).stack? other ≠ some []
  by_cases same : name = other
  · subst same
    rw [Scope.stack?_pop]
    split
    · simp
    · next hidden => simpa using hidden
  · rw [Scope.stack?_pop_of_ne _ same]
    exact tidy other

theorem pushAll (tidy : scope.bindings.Tidy) (named : List (String × Value)) :
    (scope.pushAll named).bindings.Tidy := by
  unfold Scope.pushAll
  induction named generalizing scope with
  | nil => exact tidy
  | cons entry rest inductionHypothesis => exact inductionHypothesis (tidy.push entry.1 entry.2)

theorem popAll (tidy : scope.bindings.Tidy) (names : List String) :
    (scope.popAll names).bindings.Tidy := by
  unfold Scope.popAll
  induction names.reverse generalizing scope with
  | nil => exact tidy
  | cons name rest inductionHypothesis => exact inductionHypothesis (tidy.pop name)

/-- Without names that have no value, rows of values tell stacks apart. -/
theorem stack?_eq {other : Scope} (tidy : scope.bindings.Tidy) (tidy' : other.bindings.Tidy)
    {name : String} (same : scope.values name = other.values name) :
    scope.stack? name = other.stack? name := by
  have here : scope.stack? name ≠ some [] := tidy name
  have there : other.stack? name ≠ some [] := tidy' name
  unfold Scope.values at same
  cases found : scope.stack? name with
  | none =>
      cases found' : other.stack? name with
      | none => rfl
      | some values =>
          rw [found, found'] at same
          exact absurd (found'.trans (congrArg some same.symm)) there
  | some values =>
      cases found' : other.stack? name with
      | none =>
          rw [found, found'] at same
          exact absurd (found.trans (congrArg some same)) here
      | some values' =>
          rw [found, found'] at same
          exact congrArg some same

end Bindings.Tidy

end Fixity
