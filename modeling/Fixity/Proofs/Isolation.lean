import Fixity.Proofs.Generations
import Fixity.Proofs.Watch

/-!
Contract: what a call does to the scopes around the one it runs in.

Owns:
- `Watch.reaching`, which forbids every scoped application that runs at a level or further out;
- `Eval.run_isolated`: without one, a call leaves its caller's scope, and all scopes around that, as
  they were; and a scoped application leaves alone every scope further in than the one it runs in.
-/

namespace Fixity

open Eval

/-- The scopes up to a level stay as they are, and so does the number of scopes. Evaluation goes on
further in. -/
def Comparison.further (level : Nat) : Comparison where
  Valid state := level < state.height
  Related before after :=
    after.height = before.height ∧ after.places.take (level + 1) = before.places.take (level + 1)
  mayStop := True

/-- The scope and those around it stay as they are. -/
def Comparison.untouched : Comparison where
  Valid _ := True
  Related before after := after.scope = before.scope ∧ after.outer = before.outer
  mayStop := True

/-- Forbids scoped applications that run in the scope at a level or in one around it. -/
def Watch.reaching (level : Nat) : Watch Unit where
  forbidden
    | _, .scopedApplication steps _ _, state => state.height - steps ≤ level
    | _, _, _ => false
  applied := id
  outward mark _ _ := mark

namespace Comparison

theorem further_lawful (level : Nat) : (further level).Lawful where
  refl _ := ⟨rfl, rfl⟩
  trans earlier later := ⟨later.1.trans earlier.1, later.2.trans earlier.2⟩
  valid valid related := by
    show level < _
    rw [related.1]
    exact valid
  heap _ _ := ⟨rfl, rfl⟩
  effects _ _ := ⟨rfl, rfl⟩
  nextName _ _ := ⟨rfl, rfl⟩
  bind _ _ valid := ⟨rfl, State.take_places valid _⟩
  define valid _ := ⟨rfl, State.take_places valid _⟩
  withNames named holds := by
    intro state valid
    apply holdsAt_withNames (holds _ valid) id
    intro reached ⟨same, kept⟩
    have inside : level < reached.height := by
      rw [same]
      exact valid
    exact ⟨same, (State.take_places inside _).trans (kept.trans (State.take_places valid _))⟩

end Comparison

theorem Watch.reaching_allows (level : Nat) :
    (Watch.reaching level).Allows fun _ => Comparison.further level where
  lawful _ := Comparison.further_lawful level
  stops _ _ := ⟨trivial, _, rfl⟩
  remove valid _ _ :=
    (Comparison.further_lawful level).regular.keeps_delete
      (fun _ valid => ⟨rfl, State.take_places valid _⟩) _ _ valid
  applied valid _ := valid
  asCall _ entered := Comparison.holdsAt_asCall ⟨rfl, rfl⟩ entered id fun _ kept => kept
  inChild {_ state _ _} handle valid holds := by
    have further : level < state.height := valid
    apply Comparison.holdsAt_inChild (holds (state.inward _) (Nat.lt_succ_of_lt further)) id
    intro reached ⟨same, kept⟩
    rw [State.height_inward] at same
    constructor
    · rw [State.height_leaveScope, same]
      rfl
    · rw [State.take_leaveScope (by omega) (by omega), kept, State.places_inward,
        List.take_append_of_le_length (by rw [State.length_places]; omega)]
  outward {_ steps _ _ state} _ allowed := by
    have further : ¬ state.height - steps ≤ level := fun reaches => allowed (decide_eq_true reaches)
    show level < (state.outward steps).height
    rw [State.height_outward]
    exact Nat.lt_of_not_le further
  removeOutward there _ _ :=
    (Comparison.further_lawful level).regular.keeps_delete
      (fun _ valid => ⟨rfl, State.take_places valid _⟩) _ _ there
  inAncestor {_ steps _ _ state} _ _ valid allowed holds := by
    have further : ¬ state.height - steps ≤ level := fun reaches => allowed (decide_eq_true reaches)
    apply Comparison.holdsAt_inAncestor holds id
    intro reached ⟨same, kept⟩
    refine ⟨State.height_back same, ?_⟩
    have heights := State.height_outward steps state
    rw [State.places_back, List.take_append_of_le_length (by rw [State.length_places]; omega), kept,
      State.places_outward, List.take_take, Nat.min_eq_left (by omega)]

namespace Eval

/-- A call in a scope of its own, if nothing inside it reaches the scope around. -/
private theorem holdsAt_call_untouched (host : Host) {first second : Interpreter} {state : State}
    (agree : (Comparison.further state.height).Agree first second) (handle : Nat)
    (arguments : List Value) :
    Comparison.untouched.HoldsAt state (call host first true (.function handle) arguments)
      (call host second true (.function handle) arguments) := by
  have same : Comparison.untouched.Related state state := ⟨rfl, rfl⟩
  apply Comparison.HoldsAt.call_function same
  intro function _
  have body := (Comparison.further_lawful _).regular.holds_runBody agree (.function handle) function
    arguments
  have inside : ∀ state' : State, state'.height = state.height →
      Comparison.untouched.HoldsAt state'
        (inChild function.closure (runBody first (.function handle) function arguments))
        (inChild function.closure (runBody second (.function handle) function arguments)) := by
    intro state' level
    have further : state.height < (state'.inward function.closure).height := by
      rw [State.height_inward, level]
      exact Nat.lt_succ_self _
    apply Comparison.holdsAt_inChild (body _ further) fun _ => trivial
    intro reached ⟨same, kept⟩
    rw [State.height_inward] at same
    -- Of all scopes that are left, the one of the call is the innermost.
    apply State.scope_outer_of_places
    rw [State.places_leaveScope (by omega), List.dropLast_eq_take, State.length_places, same, level,
      Nat.add_sub_cancel, kept, State.places_inward, ← level, ← State.length_places,
      List.take_left']
    rfl
  exact Comparison.holdsAt_asCall same (fun _ => inside _ rfl) id fun _ kept => kept

/-- Calls are isolated. If no scoped application inside a call in a scope of its own runs in the
caller's scope or further out, then the call leaves that scope and all scopes around it, bindings
and operators, as they were, whether it succeeds or fails. And no scoped application changes the
scopes further in than the one it runs in. -/
theorem run_isolated {host : Host} (tame : host.Tame) (bound : Nat) (state : State) :
    (∀ handle arguments,
      (Watch.reaching state.height).Unnoticed host bound ()
          (.application (.function handle) arguments) state →
        let after := (run host bound (.application (.function handle) arguments)).after state
        after.scope = state.scope ∧ after.outer = state.outer) ∧
      ∀ steps callee arguments level, state.height - steps < level →
        ((run host bound (.scopedApplication steps callee arguments)).after state).place level =
          state.place level := by
  constructor
  · intro handle arguments ⟨same, finished⟩
    cases bound with
    | zero => exact absurd rfl (finished state)
    | succ bound =>
        have agree := (Watch.reaching_allows state.height).agree_run tame bound ()
        rcases holdsAt_call_untouched host agree handle arguments with
          ⟨_, left, stopped⟩ | ⟨_, kept⟩
        · exact absurd (same.symm.trans stopped) (finished left)
        · exact kept
  · intro steps callee arguments level inside
    cases bound with
    | zero => rfl
    | succ bound =>
        have frame := OperatorTable.Precedes.frame
        have agree : frame.comparison.Agree (run host bound) (run host bound) := fun request =>
          frame.holds_iff.mpr ⟨rfl, frame.keeps_run (tame.keeps frame) bound request⟩
        have kept := frame.nested.holds_call agree
          (tame _ _ _ frame.nested.toLawful agree) false callee arguments
        have same := ((frame.holds_iff.mp kept).2 (state.outward steps)).height
        show ((inAncestor steps (call host (run host bound) false callee arguments)).after
          state).place level = _
        rw [after_inAncestor]
        exact State.place_back same inside

/-- A function that binds a name, called with the functions of the command line. -/
theorem run_isolated_binding :
    let binder : Function := ⟨[], .operation ":" (.identifier "x") (.number .zero), ∅, false, []⟩
    let state : State := .initial .empty { Heap.empty with functions := #[binder] }
    let host := CommandLine.host (CommandLine.listedFiles [])
    let request : Request := .application (.function 0) []
    (Watch.reaching 0).Unnoticed host 4 () request state ∧
      ((run host 4 request).after state).scope = state.scope := by
  intro binder state host request
  have ran : run host 4 request state = .ok .zero state := rfl
  have unnoticed : (Watch.reaching 0).Unnoticed host 4 () request state := by
    refine ⟨rfl, fun left stopped => ?_⟩
    rw [ran] at stopped
    cases stopped
  exact ⟨unnoticed, ((run_isolated (Host.tame_commandLine _) 4 state).1 0 [] unnoticed).1⟩

end Eval

end Fixity
