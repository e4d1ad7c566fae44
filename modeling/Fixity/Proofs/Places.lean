import Fixity.Proofs.Frames

/-!
Contract: scopes by their level.

Owns:
- `State.places`, the scopes from the outermost one inward, so that a scope keeps its level whatever
  is opened inside it, and `State.place`, the scope at a level;
- `State.outward`, the state in which a scoped application runs;
- what the brackets of evaluation do to the scopes of each level.
-/

namespace Fixity

open Eval

namespace State

/-- The scopes from the outermost one inward. -/
def places (state : State) : List Scope := state.outer.reverse ++ [state.scope]

/-- The level of the current scope; the outermost one has level zero. -/
def height (state : State) : Nat := state.outer.length

/-- The scope at a level. -/
def place (state : State) (level : Nat) : Scope := state.places.getD level .empty

/-- The state in the scope a number of steps outward; the scopes on the way are left out. -/
def outward (steps : Nat) (state : State) : State :=
  { state with
    scope := (ascend steps state.scope state.outer).2.1
    outer := (ascend steps state.scope state.outer).2.2 }

theorem length_places (state : State) : state.places.length = state.height + 1 := by
  simp [places, height]

/-- A state's scopes determine the current one and those around it. -/
theorem scope_outer_of_places {first second : State} (same : first.places = second.places) :
    first.scope = second.scope ∧ first.outer = second.outer := by
  obtain ⟨around, current⟩ := List.append_inj' same rfl
  exact ⟨List.head_eq_of_cons_eq current, List.reverse_inj.mp around⟩

/-! ## The scopes of each bracket -/

theorem place_height (state : State) : state.place state.height = state.scope := by
  simp [place, places, height]

theorem place_rescoped (state : State) (scope : Scope) :
    ({ state with scope := scope } : State).place state.height = scope :=
  place_height { state with scope := scope }

/-- A change of the current scope is no change at the levels further out. -/
theorem place_of_lt {state : State} {level : Nat} (further : level < state.height) (scope : Scope) :
    { state with scope := scope }.place level = state.place level := by
  have inside : level < state.outer.reverse.length := by simpa [height] using further
  simp [place, places, List.getD_eq_getElem?_getD, List.getElem?_append_left inside]

/-- A change of the current scope is no change of those around it. -/
theorem take_places {state : State} {level : Nat} (further : level < state.height)
    (scope : Scope) :
    ({ state with scope := scope } : State).places.take (level + 1) =
      state.places.take (level + 1) := by
  have bound : level + 1 ≤ state.outer.reverse.length := by
    rw [List.length_reverse]
    exact further
  unfold places
  rw [List.take_append_of_le_length bound, List.take_append_of_le_length bound]

/-- The state in which a call runs in a scope of its own. -/
def inward (closure : Bindings) (state : State) : State :=
  { state with scope := state.scope.child closure, outer := state.scope :: state.outer }

theorem places_inward (closure : Bindings) (state : State) :
    (state.inward closure).places = state.places ++ [state.scope.child closure] := by
  simp [places, inward]

theorem height_inward (closure : Bindings) (state : State) :
    (state.inward closure).height = state.height + 1 :=
  rfl

theorem places_leaveScope {state : State} (inside : 0 < state.height) :
    (leaveScope state).places = state.places.dropLast := by
  unfold height at inside
  unfold leaveScope places
  cases around : state.outer with
  | nil => simp [around] at inside
  | cons scope outer => simp

theorem height_leaveScope (state : State) : (leaveScope state).height = state.height - 1 := by
  unfold leaveScope height
  cases around : state.outer with
  | nil => simp [around]
  | cons scope outer => simp

theorem place_inward {state : State} {level : Nat} (closure : Bindings)
    (within : level ≤ state.height) : (state.inward closure).place level = state.place level := by
  have bound : level < state.places.length := by
    rw [length_places]
    omega
  unfold place
  rw [places_inward, List.getD_eq_getElem?_getD, List.getElem?_append_left bound,
    List.getD_eq_getElem?_getD]

theorem place_leaveScope {state : State} {level : Nat} (further : level < state.height) :
    (leaveScope state).place level = state.place level := by
  have bound : level < state.places.length - 1 := by
    rw [length_places]
    omega
  unfold place
  rw [places_leaveScope (by omega), List.getD_eq_getElem?_getD, List.getElem?_dropLast,
    if_pos bound, List.getD_eq_getElem?_getD]

theorem take_leaveScope {state : State} {count : Nat} (inside : 0 < state.height)
    (further : count ≤ state.height) :
    (leaveScope state).places.take count = state.places.take count := by
  rw [places_leaveScope inside, List.dropLast_eq_take, List.take_take, length_places]
  congr 1
  omega

theorem ascend_reverse (steps : Nat) (scope : Scope) (outer : List Scope) :
    ((ascend steps scope outer).2.2.reverse ++ [(ascend steps scope outer).2.1] =
        (outer.reverse ++ [scope]).take (outer.length - steps + 1)) ∧
      (ascend steps scope outer).1.reverse =
        (outer.reverse ++ [scope]).drop (outer.length - steps + 1) := by
  induction steps generalizing scope outer with
  | zero => simp [ascend, List.take_of_length_le]
  | succ steps inductionHypothesis =>
      cases outer with
      | nil => simp [ascend]
      | cons next outer =>
          have inner := inductionHypothesis next outer
          have bound : outer.length - steps + 1 ≤ (outer.reverse ++ [next]).length := by
            simp
          have shift : (next :: outer).length - (steps + 1) + 1 = outer.length - steps + 1 := by
            simp
          rw [shift, List.reverse_cons, List.take_append_of_le_length bound,
            List.drop_append_of_le_length bound]
          exact ⟨inner.1, by rw [← inner.2]; exact List.reverse_cons⟩

theorem height_outward (steps : Nat) (state : State) :
    (state.outward steps).height = state.height - steps := by
  have taken := congrArg List.length (ascend_reverse steps state.scope state.outer).1
  simp only [List.length_append, List.length_reverse, List.length_singleton, List.length_take]
    at taken
  show (ascend steps state.scope state.outer).2.2.length = state.outer.length - steps
  omega

theorem places_outward (steps : Nat) (state : State) :
    (state.outward steps).places = state.places.take (state.height - steps + 1) :=
  (ascend_reverse steps state.scope state.outer).1

theorem places_putBack (aside : List Scope) (state : State) :
    (putBack aside state).places = state.places ++ aside.reverse := by
  have behind := congrArg List.reverse (putBack_append aside state)
  simpa [places] using behind

/-- The state back from a scope further out. -/
def back (steps : Nat) (state reached : State) : State :=
  putBack (ascend steps state.scope state.outer).1 reached

/-- Back from a scope further out, the scopes up to there are those that were left there, and the
others are as they were. -/
theorem places_back (steps : Nat) (state reached : State) :
    (state.back steps reached).places =
      reached.places ++ state.places.drop (state.height - steps + 1) := by
  unfold back
  rw [places_putBack, (ascend_reverse steps state.scope state.outer).2]
  rfl

theorem place_outward {steps level : Nat} {state : State} (within : level ≤ state.height - steps) :
    (state.outward steps).place level = state.place level := by
  unfold place
  rw [places_outward, List.getD_eq_getElem?_getD, List.getD_eq_getElem?_getD,
    List.getElem?_take_of_lt (by omega)]

/-- The scopes up to the one a scoped application runs in are those that it leaves. -/
theorem place_back_of_le {steps level : Nat} {state reached : State}
    (same : reached.height = (state.outward steps).height)
    (within : level ≤ state.height - steps) :
    (state.back steps reached).place level = reached.place level := by
  have bound : level < reached.places.length := by
    rw [length_places, same, height_outward]
    omega
  unfold place
  rw [places_back, List.getD_eq_getElem?_getD, List.getElem?_append_left bound,
    List.getD_eq_getElem?_getD]

/-- The scopes further in than the one a scoped application runs in are left alone. -/
theorem place_back {steps level : Nat} {state reached : State}
    (same : reached.height = (state.outward steps).height) (inside : state.height - steps < level) :
    (state.back steps reached).place level = state.place level := by
  have length : reached.places.length = state.height - steps + 1 := by
    rw [length_places, same, height_outward]
  unfold place
  rw [places_back, List.getD_eq_getElem?_getD, List.getD_eq_getElem?_getD,
    List.getElem?_append_right (by omega), List.getElem?_drop, length]
  congr 2
  omega

theorem height_back {steps : Nat} {state reached : State}
    (same : reached.height = (state.outward steps).height) :
    (state.back steps reached).height = state.height := by
  have lengths := congrArg List.length (places_back steps state reached)
  rw [List.length_append, List.length_drop, length_places, length_places, length_places, same,
    height_outward] at lengths
  omega

/-- Scopes that were left out come back as they were. -/
theorem back_outward (steps : Nat) (state : State) :
    state.back steps (state.outward steps) = state := by
  have same : (state.back steps (state.outward steps)).places = state.places := by
    rw [places_back, places_outward, List.take_append_drop]
  obtain ⟨current, around⟩ := scope_outer_of_places same
  unfold back at *
  generalize (ascend steps state.scope state.outer).1 = aside at current around ⊢
  cases aside with
  | nil =>
      show { state with scope := _, outer := _ } = state
      rw [show (ascend steps state.scope state.outer).2.1 = state.scope from current,
        show (ascend steps state.scope state.outer).2.2 = state.outer from around]
  | cons first others =>
      show { state with scope := first, outer := _ } = state
      rw [show first = state.scope from current,
        show others ++ _ :: _ = state.outer from around]

end State

end Fixity
