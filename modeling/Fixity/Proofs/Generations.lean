import Mathlib.Data.List.Forall2
import Fixity.Proofs.Preservation
import Fixity.Proofs.Readers
import Fixity.Proofs.Tables

/-!
Contract: how the operators of the scopes change during evaluation.

Owns:
- `State.tables`, the tables of all scopes, and relations between them as frames;
- `OperatorTable.Precedes`: a table stays as it is or gets a greater generation;
- that no evaluation leaves that relation, so equal generations mean equal tables.
-/

namespace Fixity

namespace Scope

theorem operators_pushAll (scope : Scope) (named : List (String × Value)) :
    (scope.pushAll named).operators = scope.operators := by
  unfold pushAll
  induction named generalizing scope with
  | nil => rfl
  | cons entry rest inductionHypothesis => exact inductionHypothesis (scope.push entry.1 entry.2)

theorem operators_pop (scope : Scope) (name : String) :
    (scope.pop name).operators = scope.operators := by
  unfold pop
  split
  · rfl
  · split <;> rfl

theorem operators_popAll (scope : Scope) (names : List String) :
    (scope.popAll names).operators = scope.operators := by
  unfold popAll
  induction names.reverse generalizing scope with
  | nil => rfl
  | cons name rest inductionHypothesis =>
      rw [List.foldl_cons, inductionHypothesis, operators_pop]

end Scope

/-- The tables of the scopes, from the current one outward. -/
def State.tables (state : State) : List OperatorTable :=
  (state.scope :: state.outer).map (·.operators)

/-- The tables of two states are related one by one. -/
def State.TablesRelated (advances : OperatorTable → OperatorTable → Prop) (first second : State) :
    Prop :=
  List.Forall₂ advances first.tables second.tables

namespace State.TablesRelated

variable {advances : OperatorTable → OperatorTable → Prop}

theorem current {first second : State} (related : State.TablesRelated advances first second) :
    advances first.scope.operators second.scope.operators :=
  (List.forall₂_cons.mp related).1

theorem height {first second : State} (related : State.TablesRelated advances first second) :
    second.height = first.height := by
  have lengths := List.Forall₂.length_eq related
  simp only [State.tables, List.length_map, List.length_cons] at lengths
  exact (Nat.succ.inj lengths).symm

private theorem forall₂_trans
    (transitive : ∀ first second third, advances first second → advances second third →
      advances first third)
    {first second third : List OperatorTable} (earlier : List.Forall₂ advances first second)
    (later : List.Forall₂ advances second third) : List.Forall₂ advances first third := by
  induction earlier generalizing third with
  | nil => exact later
  | cons related _ inductionHypothesis =>
      cases later with
      | cons relatedToo rest =>
          exact .cons (transitive _ _ _ related relatedToo) (inductionHypothesis rest)

private theorem keeps_inChild {α : Type} {action : Eval α} (closure : Bindings)
    (kept : Eval.Keeps (State.TablesRelated advances) action) :
    Eval.Keeps (State.TablesRelated advances) (Eval.inChild closure action) := by
  intro state
  rw [Eval.after_inChild]
  have inner := kept
    { state with scope := state.scope.child closure, outer := state.scope :: state.outer }
  -- The scope of the call is the only one that has gone when the call is over.
  generalize action.after _ = left at inner ⊢
  unfold TablesRelated State.tables at inner ⊢
  obtain ⟨heap, scope, outer, depth, nextName, effects⟩ := left
  cases inner with
  | cons _ around =>
      cases outer with
      | nil => cases around
      | cons scope outer => exact around

private theorem keeps_inAncestor {α : Type} {action : Eval α}
    (reflexive : ∀ table, advances table table) (steps : Nat)
    (kept : Eval.Keeps (State.TablesRelated advances) action) :
    Eval.Keeps (State.TablesRelated advances) (Eval.inAncestor steps action) := by
  intro state
  rw [Eval.after_inAncestor]
  have whole := Eval.ascend_append steps state.scope state.outer
  generalize Eval.ascend steps state.scope state.outer = reached at whole ⊢
  obtain ⟨aside, found, rest⟩ := reached
  have inner := kept { state with scope := found, outer := rest }
  dsimp only at whole ⊢
  generalize action.after _ = left at inner ⊢
  unfold TablesRelated State.tables at inner ⊢
  rw [Eval.putBack_append, ← whole, List.map_append, List.map_append]
  have untouched : List.Forall₂ advances (aside.map (·.operators)) (aside.map (·.operators)) :=
    List.forall₂_same.mpr fun table _ => reflexive table
  exact List.rel_append untouched inner

/-- A relation on tables that allows definitions holds between the tables before and after any
evaluation, scope by scope. -/
theorem frame (reflexive : ∀ table, advances table table)
    (transitive : ∀ first second third, advances first second → advances second third →
      advances first third)
    (defined : ∀ {table table'} definition implementation,
      table.define definition implementation = .ok table' → advances table table') :
    Frame (State.TablesRelated advances) where
  refl state := List.forall₂_same.mpr fun table _ => reflexive table
  trans earlier later := forall₂_trans transitive earlier later
  heap state heap := List.forall₂_same.mpr fun table _ => reflexive table
  effects state effects := List.forall₂_same.mpr fun table _ => reflexive table
  nextName state number _ := List.forall₂_same.mpr fun table _ => reflexive table
  bind state name value := List.forall₂_same.mpr fun table _ => reflexive table
  remove state name := List.forall₂_same.mpr fun table _ => reflexive table
  define state definition implementation scope ok := by
    obtain ⟨table, placed, rfl⟩ := Syntax.map_eq_ok.mp ok
    exact .cons (defined definition implementation placed)
      (List.forall₂_same.mpr fun table _ => reflexive table)
  asCall kept := by
    intro state
    rw [Eval.after_asCall]
    split
    · exact List.forall₂_same.mpr fun table _ => reflexive table
    · exact kept { state with depth := state.depth + 1 }
  withNames named kept := by
    intro state
    rw [Eval.after_withNames]
    have inner := kept { state with scope := state.scope.pushAll named }
    unfold TablesRelated State.tables at inner ⊢
    rw [List.map_cons, List.map_cons, Scope.operators_pushAll] at inner
    rw [List.map_cons, List.map_cons, Scope.operators_popAll]
    exact inner
  inChild closure kept := keeps_inChild closure kept
  inAncestor steps kept := keeps_inAncestor reflexive steps kept

end State.TablesRelated

namespace OperatorTable

/-- What a table may turn into: only a table of a greater generation differs from it. -/
def Precedes (table table' : OperatorTable) : Prop :=
  table = table' ∨ table.generation < table'.generation

theorem Precedes.eq_of_generation {table table' : OperatorTable} (precedes : table.Precedes table')
    (same : table'.generation = table.generation) : table = table' := by
  rcases precedes with unchanged | greater
  · exact unchanged
  · omega

/-- Every change of the operators, in whichever scope, makes the generation of their table
greater. -/
theorem Precedes.frame : Frame (State.TablesRelated Precedes) := by
  apply State.TablesRelated.frame
  · intro table
    exact Or.inl rfl
  · intro first second third earlier later
    rcases earlier with rfl | greater
    · exact later
    · rcases later with rfl | stillGreater
      · exact Or.inr greater
      · exact Or.inr (Nat.lt_trans greater stillGreater)
  · intro table table' definition implementation ok
    have counted := (define_eq_ok ok).2.2
    exact Or.inr (by omega)

end OperatorTable

end Fixity
