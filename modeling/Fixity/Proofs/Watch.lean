import Fixity.Proofs.Preservation

/-!
Contract: evaluation under watch.

Owns:
- `Watch`, what is not to happen, told from a request, the state in which it is made and a mark that
  stands for the requests around it;
- `Watch.run`, which evaluates like `Eval.run` but does something else instead of what is forbidden;
- `Watch.Admits.agree_run`: a comparison for every mark carries over from the rules to whole
  evaluations.

An evaluation does nothing forbidden if it is the same under watch, whatever is done instead. An
evaluation that finishes does nothing forbidden if it is the same under a watch that gives up.
-/

namespace Fixity

/-- What is not to happen. -/
structure Watch (μ : Type) where
  /-- Whether a request must not be made in a state. -/
  forbidden : μ → Request → State → Bool
  /-- The mark for what happens inside the application of a function written in the language. -/
  applied : μ → μ
  /-- The mark for what happens a number of steps outward. -/
  outward : μ → Nat → State → μ
  /-- What is done instead of a forbidden request; if nothing else is said, evaluation gives up as
  if its bound were reached. -/
  instead : Eval Value := throw .exhausted

namespace Watch

open Eval

variable {μ : Type}

/-- The mark for the requests inside a request. -/
def inside (watch : Watch μ) (mark : μ) : Request → State → μ
  | .application (.function _) _, _ => watch.applied mark
  | .scopedApplication steps (.function _) _, state =>
      watch.applied (watch.outward mark steps state)
  | .scopedApplication steps _ _, state => watch.outward mark steps state
  | _, _ => mark

/-- Carries out a request within a bound, and something else instead of what is forbidden. -/
def run (watch : Watch μ) (host : Host) : (bound : Nat) → μ → Interpreter
  | 0, _, _ => throw .exhausted
  | bound + 1, mark, request => fun state =>
      if watch.forbidden mark request state then watch.instead state
      else step host bound (watch.run host bound (watch.inside mark request state)) request state

theorem run_succ (watch : Watch μ) (host : Host) (bound : Nat) (mark : μ) (request : Request)
    (state : State) :
    watch.run host (bound + 1) mark request state =
      if watch.forbidden mark request state then watch.instead state
      else step host bound (watch.run host bound (watch.inside mark request state)) request state :=
  rfl

/-- The evaluation comes to an end, and the watch has nothing to forbid on the way. -/
def Unnoticed (watch : Watch μ) (host : Host) (bound : Nat) (mark : μ) (request : Request)
    (state : State) : Prop :=
  watch.run host bound mark request state = Eval.run host bound request state ∧
    ∀ left, Eval.run host bound request state ≠ .error .exhausted left

/-- A comparison for every mark whose brackets allow whatever is not forbidden. -/
structure Admits (watch : Watch μ) (c : μ → Comparison) : Prop where
  stops : ∀ {mark request state}, (c mark).Valid state → watch.forbidden mark request state →
    (c mark).mayStop ∧ ∃ left, watch.instead state = .error .exhausted left
  remove : ∀ {mark handle arguments state}, (c mark).Valid state →
    ¬ watch.forbidden mark (.application (.builtin handle) arguments) state →
    (state.heap.builtin handle).action = .native .del →
      (c mark).HoldsAt state (Reflection.delete arguments) (Reflection.delete arguments)
  applied : ∀ {mark state}, (c mark).Valid state → state.depth + 1 ≤ maxDepth →
    (c (watch.applied mark)).Valid { state with depth := state.depth + 1 }
  asCall : ∀ {mark state} {first second : Eval Value}, (c mark).Valid state →
    (state.depth + 1 ≤ maxDepth →
      (c (watch.applied mark)).HoldsAt { state with depth := state.depth + 1 } first second) →
      (c mark).HoldsAt state (asCall first) (asCall second)
  inChild : ∀ {mark state} {first second : Eval Value} handle, (c mark).Valid state →
    (c mark).Holds first second →
      (c mark).HoldsAt state (inChild (state.heap.function handle).closure first)
        (inChild (state.heap.function handle).closure second)
  outward : ∀ {mark steps callee arguments state}, (c mark).Valid state →
    ¬ watch.forbidden mark (.scopedApplication steps callee arguments) state →
      (c (watch.outward mark steps state)).Valid (state.outward steps)
  removeOutward : ∀ {mark steps handle arguments state},
    (c (watch.outward mark steps state)).Valid (state.outward steps) →
    ¬ watch.forbidden mark (.scopedApplication steps (.builtin handle) arguments) state →
    (state.heap.builtin handle).action = .native .del →
      (c (watch.outward mark steps state)).HoldsAt (state.outward steps)
        (Reflection.delete arguments) (Reflection.delete arguments)
  inAncestor : ∀ {mark steps callee arguments state} {first second : Eval Value},
    (c mark).Valid state →
    ¬ watch.forbidden mark (.scopedApplication steps callee arguments) state →
    (c (watch.outward mark steps state)).HoldsAt (state.outward steps) first second →
      (c mark).HoldsAt state (inAncestor steps first) (inAncestor steps second)

/-- A comparison for every mark that allows whatever is not forbidden. -/
structure Allows (watch : Watch μ) (c : μ → Comparison) : Prop extends Admits watch c where
  lawful : ∀ mark, (c mark).Lawful

namespace Admits

section Rules

variable {watch : Watch μ} {c : μ → Comparison} {host : Host} (admits : watch.Admits c)
  (regular : ∀ mark, (c mark).Regular)
include admits regular

/-- The application of a function inside the scope in which it is to run. -/
private theorem holdsAt_call_function {first second : Interpreter} {mark : μ}
    (agree : (c (watch.applied mark)).Agree first second) (fresh : Bool) (handle : Nat)
    (arguments : List Value) {state : State} (valid : (c mark).Valid state) :
    (c mark).HoldsAt state (call host first fresh (.function handle) arguments)
      (call host second fresh (.function handle) arguments) := by
  apply Comparison.HoldsAt.call_function ((regular mark).refl valid)
  rintro function rfl
  have body := (regular _).holds_runBody agree (.function handle)
    (state.heap.function handle) arguments
  apply admits.asCall valid
  intro room
  have counted := admits.applied valid room
  split
  · exact admits.inChild handle counted body
  · exact body _ counted

variable (suits : ∀ mark, host.Suits (c mark))
include suits

theorem holdsAt_application {first second : Interpreter} {mark : μ} {callee : Value}
    {arguments : List Value} {state : State}
    (agree : (c (watch.inside mark (.application callee arguments) state)).Agree first second)
    (valid : (c mark).Valid state)
    (allowed : ¬ watch.forbidden mark (.application callee arguments) state) :
    (c mark).HoldsAt state (call host first true callee arguments)
      (call host second true callee arguments) := by
  cases callee with
  | function handle =>
      exact admits.holdsAt_call_function regular agree true handle arguments valid
  | builtin handle =>
      exact (regular mark).holdsAt_callBuiltin agree (suits mark _ _ agree) valid _ arguments
        (admits.remove valid allowed)
  | _ => exact (regular mark).keeps_fail _ state valid

theorem holdsAt_scopedApplication {first second : Interpreter} {mark : μ} {steps : Nat}
    {callee : Value} {arguments : List Value} {state : State}
    (agree :
      (c (watch.inside mark (.scopedApplication steps callee arguments) state)).Agree first second)
    (valid : (c mark).Valid state)
    (allowed : ¬ watch.forbidden mark (.scopedApplication steps callee arguments) state) :
    (c mark).HoldsAt state (Eval.inAncestor steps (call host first false callee arguments))
      (Eval.inAncestor steps (call host second false callee arguments)) := by
  have there := admits.outward valid allowed
  apply admits.inAncestor valid allowed
  cases callee with
  | function handle =>
      exact admits.holdsAt_call_function regular agree false handle arguments there
  | builtin handle =>
      exact (regular _).holdsAt_callBuiltin agree (suits _ _ _ agree) there _ arguments
        (admits.removeOutward there allowed)
  | _ => exact (regular _).keeps_fail _ _ there

/-- Watched and unwatched evaluation compare, at every bound and under every mark. -/
theorem agree_run (bound : Nat) (mark : μ) :
    (c mark).Agree (watch.run host bound mark) (Eval.run host bound) := by
  induction bound generalizing mark with
  | zero => exact fun request => (regular mark).keeps_throw .exhausted
  | succ bound inductionHypothesis =>
      intro request state valid
      by_cases forbidden : watch.forbidden mark request state
      · left
        rw [run_succ, if_pos forbidden]
        exact admits.stops valid forbidden
      · have watched : watch.run host (bound + 1) mark request state =
            step host bound (watch.run host bound (watch.inside mark request state)) request
              state := by
          rw [run_succ, if_neg forbidden]
        unfold Comparison.HoldsAt
        rw [watched]
        have agree := inductionHypothesis (watch.inside mark request state)
        cases request with
        | tree node => exact (regular mark).holds_tree agree (.refl bound) node state valid
        | source text =>
            exact (regular mark).holds_source agree (text.length + 1) .zero text.toList
              state valid
        | application callee arguments =>
            exact admits.holdsAt_application regular suits agree valid forbidden
        | scopedApplication steps callee arguments =>
            exact admits.holdsAt_scopedApplication regular suits agree valid forbidden

end Rules

end Admits

namespace Allows

variable {watch : Watch μ} {c : μ → Comparison} {host : Host}

/-- The same with the functions of a tame program. -/
theorem agree_run (allows : watch.Allows c) (tame : host.Tame) (bound : Nat) (mark : μ) :
    (c mark).Agree (watch.run host bound mark) (Eval.run host bound) :=
  allows.toAdmits.agree_run (fun mark => (allows.lawful mark).regular)
    (fun mark => tame.suits (allows.lawful mark)) bound mark

/-- What an evaluation does in which nothing forbidden happens. -/
theorem related_of_unnoticed (allows : watch.Allows c) (tame : host.Tame) {bound : Nat} {mark : μ}
    {request : Request} {state : State} (valid : (c mark).Valid state)
    (unnoticed : watch.Unnoticed host bound mark request state) :
    (c mark).Related state ((Eval.run host bound request).after state) := by
  obtain ⟨same, finished⟩ := unnoticed
  rcases allows.agree_run tame bound mark request state valid with ⟨_, left, stopped⟩ | compared
  · exact absurd (same.symm.trans stopped) (finished left)
  · exact compared.2

/-- A watched evaluation that comes to an end has not been interfered with. -/
theorem unnoticed (allows : watch.Allows c) (tame : host.Tame) {bound : Nat} {mark : μ}
    {request : Request} {state : State} (valid : (c mark).Valid state)
    (finished : ∀ left, watch.run host bound mark request state ≠ .error .exhausted left) :
    watch.Unnoticed host bound mark request state := by
  rcases allows.agree_run tame bound mark request state valid with ⟨_, left, stopped⟩ | compared
  · exact absurd stopped (finished left)
  · exact ⟨compared.1, fun left => compared.1 ▸ finished left⟩

end Allows

end Watch

end Fixity
