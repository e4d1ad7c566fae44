import Fixity.Proofs.Readers
import Fixity.Proofs.Stacks
import Fixity.Proofs.Watch

/-!
Contract: the states that the surrounding program and evaluation can lead to.

Owns:
- `State.Tidy`: no scope, and no bindings that a function remembers, keep a name without a value;
- `State.Reachable`: the states that come from an empty environment by what the surrounding program
  does, by whole evaluations, and in the midst of one;
- that all of these are tidy, as an instance of what holds of any comparison under which every
  request is made in a valid state.
-/

namespace Fixity

open Eval

/-- No scope keeps a name without a value, and neither does what a function remembers. -/
structure State.Tidy (state : State) : Prop where
  scopes : ∀ scope ∈ state.scope :: state.outer, scope.bindings.Tidy
  closures : ∀ handle, (state.heap.function handle).closure.Tidy

namespace State.Tidy

variable {state : State}

theorem current (tidy : state.Tidy) : state.scope.bindings.Tidy :=
  tidy.scopes _ List.mem_cons_self

theorem place (tidy : state.Tidy) (level : Nat) : (state.place level).bindings.Tidy := by
  unfold State.place
  rw [List.getD_eq_getElem?_getD]
  cases found : state.places[level]? with
  | none => exact .empty
  | some scope =>
      have member := List.mem_of_getElem? found
      unfold State.places at member
      apply tidy.scopes
      simpa [or_comm] using member

/-- A change of the current scope alone. -/
theorem rescoped (tidy : state.Tidy) {scope : Scope} (changed : scope.bindings.Tidy) :
    State.Tidy { state with scope := scope } where
  scopes := by
    intro other member
    rcases List.mem_cons.mp member with rfl | around
    · exact changed
    · exact tidy.scopes other (List.mem_cons_of_mem _ around)
  closures := tidy.closures

theorem captured (tidy : state.Tidy) {heap : Heap} (captures : state.Captures heap) :
    State.Tidy { state with heap := heap } where
  scopes := tidy.scopes
  closures := by
    intro handle
    rcases captures handle with current | ⟨older, same⟩
    · rw [current]
      exact tidy.current
    · rw [same]
      exact tidy.closures older

theorem inward (tidy : state.Tidy) {closure : Bindings} (remembered : closure.Tidy) :
    (state.inward closure).Tidy where
  scopes := by
    intro scope member
    rcases List.mem_cons.mp member with rfl | around
    · exact remembered.overlay tidy.current
    · exact tidy.scopes scope around
  closures := tidy.closures

theorem leaveScope (tidy : state.Tidy) : (leaveScope state).Tidy := by
  unfold Eval.leaveScope
  cases around : state.outer with
  | nil => exact tidy
  | cons scope outer =>
      refine ⟨fun other member => tidy.scopes other (List.mem_cons_of_mem _ ?_), tidy.closures⟩
      rw [around]
      exact member

theorem outward (tidy : state.Tidy) (steps : Nat) : (state.outward steps).Tidy where
  scopes := by
    intro scope member
    apply tidy.scopes
    rw [← ascend_append steps state.scope state.outer]
    exact List.mem_append_right _ member
  closures := tidy.closures

theorem back (tidy : state.Tidy) (steps : Nat) {reached : State} (there : reached.Tidy) :
    (state.back steps reached).Tidy where
  scopes := by
    intro scope member
    unfold State.back at member
    rw [putBack_append] at member
    rcases List.mem_append.mp member with aside | left
    · apply tidy.scopes
      rw [← ascend_append steps state.scope state.outer]
      exact List.mem_append_left _ aside
    · exact there.scopes scope left
  closures := by
    unfold State.back putBack
    split
    · exact there.closures
    · exact there.closures

end State.Tidy

/-- From tidy states evaluation leads to tidy states. -/
def Comparison.tidy : Comparison where
  Valid state := state.Tidy
  Related _ after := after.Tidy
  mayStop := False

theorem Comparison.tidy_lawful : Comparison.tidy.Lawful where
  refl valid := valid
  trans _ later := later
  valid _ related := related
  heap valid captures := valid.captured captures
  effects _ valid := ⟨valid.scopes, valid.closures⟩
  nextName valid _ := ⟨valid.scopes, valid.closures⟩
  bind name value valid := valid.rescoped (valid.current.bind name value)
  define valid defined := by
    obtain ⟨table, _, rfl⟩ := Syntax.map_eq_ok.mp defined
    exact valid.rescoped valid.current
  withNames named holds := by
    intro state valid
    apply holdsAt_withNames (holds _ (valid.rescoped (valid.current.pushAll named))) id
    intro reached tidy
    exact tidy.rescoped (tidy.current.popAll _)

/-- Whatever is watched for, if it does not happen in tidy states. -/
theorem Watch.allows_tidy {μ : Type} {watch : Watch μ}
    (never : ∀ {mark request state}, state.Tidy → ¬ watch.forbidden mark request state) :
    watch.Allows fun _ => Comparison.tidy where
  lawful _ := Comparison.tidy_lawful
  stops valid forbidden := absurd forbidden (never valid)
  remove valid _ _ :=
    Comparison.tidy_lawful.regular.keeps_delete
      (fun name valid => valid.rescoped (valid.current.remove name)) _ _ valid
  applied valid _ := ⟨valid.scopes, valid.closures⟩
  asCall valid entered :=
    Comparison.holdsAt_asCall valid entered id fun _ tidy => ⟨tidy.scopes, tidy.closures⟩
  inChild handle valid holds :=
    Comparison.holdsAt_inChild (holds _ (valid.inward (valid.closures handle))) id
      fun _ tidy => tidy.leaveScope
  outward valid _ := valid.outward _
  removeOutward there _ _ :=
    Comparison.tidy_lawful.regular.keeps_delete
      (fun name valid => valid.rescoped (valid.current.remove name)) _ _ there
  inAncestor valid _ holds :=
    Comparison.holdsAt_inAncestor holds id fun _ tidy => valid.back _ tidy

/-! ## Reachable states -/

/-- Waits for a state in which a request is made. -/
noncomputable def Watch.awaiting (awaited : State) (instead : Eval Value) : Watch Unit where
  forbidden _ _ state := open Classical in decide (state = awaited)
  applied := id
  outward mark _ _ := mark
  instead := instead

/-- In the course of an evaluation some request is made in a state: to do something else there can
make a difference. -/
def Eval.Meets (host : Host) (bound : Nat) (request : Request) (state awaited : State) : Prop :=
  ∃ instead, (Watch.awaiting awaited instead).run host bound () request state ≠
    run host bound request state

namespace Comparison

variable {c : Comparison} {host : Host} (regular : c.Regular) (suits : host.Suits c)
  (goesOn : ¬ c.mayStop)
  (admits : ∀ {watch : Watch Unit},
    (∀ {mark request state}, c.Valid state → ¬ watch.forbidden mark request state) →
      watch.Admits fun _ => c)
include regular suits goesOn admits

/-- A comparison that admits every watch for what is not valid holds of whole evaluations. -/
theorem related_run (bound : Nat) (request : Request) {state : State} (valid : c.Valid state) :
    c.Related state ((run host bound request).after state) := by
  let idle : Watch Unit :=
    { forbidden := fun _ _ _ => false, applied := id, outward := fun mark _ _ => mark }
  have admitted : idle.Admits fun _ => c := admits fun _ forbidden => Bool.false_ne_true forbidden
  have same := admitted.agree_run (fun _ => regular) (fun _ => suits) bound () request state valid
  exact (same.resolve_left fun stopped => goesOn stopped.1).2

/-- All requests on the way are made in valid states. -/
theorem valid_of_meets {bound : Nat} {request : Request} {state awaited : State}
    (valid : c.Valid state) (meets : Meets host bound request state awaited) : c.Valid awaited := by
  by_contra invalid
  obtain ⟨instead, differs⟩ := meets
  have admitted : (Watch.awaiting awaited instead).Admits fun _ => c := by
    apply admits
    intro _ _ state valid forbidden
    have same : state = awaited := by simpa [Watch.awaiting] using forbidden
    exact invalid (same ▸ valid)
  have same := admitted.agree_run (fun _ => regular) (fun _ => suits) bound () request state valid
  exact differs (same.resolve_left fun stopped => goesOn stopped.1).1

end Comparison

/-- The states that come from an empty environment. -/
inductive State.Reachable : State → Prop where
  | new : Reachable (.initial .empty .empty)
  /-- Values are made or changed. -/
  | heap {state : State} {heap : Heap} : Reachable state → state.Captures heap →
      Reachable { state with heap := heap }
  | bind {state : State} (name : String) (value : Value) : Reachable state →
      Reachable { state with scope := state.scope.bind name value }
  | push {state : State} (name : String) (value : Value) : Reachable state →
      Reachable { state with scope := state.scope.push name value }
  | pop {state : State} (name : String) : Reachable state →
      Reachable { state with scope := state.scope.pop name }
  | remove {state : State} (name : String) : Reachable state →
      Reachable { state with scope := state.scope.remove name }
  | define {state : State} {definition : Syntax.Definition} {implementation : Implementation}
      {scope : Scope} : Reachable state →
      state.scope.define definition implementation = .ok scope →
      Reachable { state with scope := scope }
  /-- The scope of a call is opened. -/
  | inward {state : State} (handle : Nat) : Reachable state →
      Reachable (state.inward (state.heap.function handle).closure)
  | outward {state : State} (steps : Nat) : Reachable state → Reachable (state.outward steps)
  /-- Calls are counted, names are generated, and effects are carried out. -/
  | counted {state : State} (depth nextName : Nat) (effects : Array Effect) : Reachable state →
      Reachable { state with depth := depth, nextName := nextName, effects := effects }
  | evaluated {state : State} {host : Host} (bound : Nat) (request : Request) : host.Tame →
      Reachable state → Reachable ((run host bound request).after state)
  /-- The state in the midst of an evaluation, whenever a request is made. -/
  | met {state awaited : State} {host : Host} {bound : Nat} {request : Request} : host.Tame →
      Reachable state → Meets host bound request state awaited → Reachable awaited

namespace State

theorem Tidy.new : Tidy (.initial .empty .empty) where
  scopes := by
    intro scope member
    cases List.mem_singleton.mp member
    exact .empty
  closures _ := .empty

/-- Evaluation leads from tidy states to tidy states, and makes requests in no others. -/
theorem Tidy.meets {host : Host} (tame : host.Tame) {bound : Nat} {request : Request}
    {state awaited : State} (tidy : state.Tidy) (meets : Meets host bound request state awaited) :
    awaited.Tidy :=
  Comparison.valid_of_meets Comparison.tidy_lawful.regular (tame.suits Comparison.tidy_lawful) id
    (fun never => (Watch.allows_tidy never).toAdmits) tidy meets

theorem Tidy.run {host : Host} (tame : host.Tame) (bound : Nat) (request : Request)
    {state : State} (tidy : state.Tidy) : ((run host bound request).after state).Tidy :=
  Comparison.related_run Comparison.tidy_lawful.regular (tame.suits Comparison.tidy_lawful) id
    (fun never => (Watch.allows_tidy never).toAdmits) bound request tidy

theorem Reachable.tidy {state : State} (reachable : state.Reachable) : state.Tidy := by
  induction reachable with
  | new => exact .new
  | heap _ captures inductionHypothesis => exact inductionHypothesis.captured captures
  | bind name value _ inductionHypothesis =>
      exact inductionHypothesis.rescoped (inductionHypothesis.current.bind name value)
  | push name value _ inductionHypothesis =>
      exact inductionHypothesis.rescoped (inductionHypothesis.current.push name value)
  | pop name _ inductionHypothesis =>
      exact inductionHypothesis.rescoped (inductionHypothesis.current.pop name)
  | remove name _ inductionHypothesis =>
      exact inductionHypothesis.rescoped (inductionHypothesis.current.remove name)
  | define _ defined inductionHypothesis =>
      obtain ⟨table, _, rfl⟩ := Syntax.map_eq_ok.mp defined
      exact inductionHypothesis.rescoped inductionHypothesis.current
  | inward handle _ inductionHypothesis =>
      exact inductionHypothesis.inward (inductionHypothesis.closures handle)
  | outward steps _ inductionHypothesis => exact inductionHypothesis.outward steps
  | counted _ _ _ _ inductionHypothesis =>
      exact ⟨inductionHypothesis.scopes, inductionHypothesis.closures⟩
  | evaluated bound request tame _ inductionHypothesis =>
      exact inductionHypothesis.run tame bound request
  | met tame _ meets inductionHypothesis => exact inductionHypothesis.meets tame meets

end State

end Fixity
