import Fixity.Proofs.Preservation

/-!
Contract: the bound of evaluation.

Owns:
- `Comparison.sooner`, under which the first evaluation does what the second one does, or its bound
  is reached;
- `Eval.run_sooner`: a greater bound makes no other difference;
- `Eval.Comes` and `Eval.Gives`, what an evaluation comes to if it is allowed enough, and that it
  comes to one thing only.
-/

namespace Fixity

open Eval

namespace Comparison

/-- The first evaluation does what the second one does, or its bound is reached. -/
def sooner : Comparison where
  Valid _ := True
  Related _ _ := True
  mayStop := True

theorem nested_sooner : sooner.Nested where
  refl _ := trivial
  trans _ _ := trivial
  valid _ _ := trivial
  heap _ _ := trivial
  effects _ _ := trivial
  nextName _ _ := trivial
  bind _ _ _ := trivial
  define _ _ := trivial
  withNames _ holds _ _ := holdsAt_withNames (holds _ trivial) id fun _ _ => trivial
  remove _ _ := trivial
  asCall holds _ _ := holdsAt_asCall trivial (fun _ => holds _ trivial) id fun _ _ => trivial
  inChild _ holds _ _ := holdsAt_inChild (holds _ trivial) id fun _ _ => trivial
  inAncestor _ holds _ _ := holdsAt_inAncestor (holds _ trivial) id fun _ _ => trivial

theorem regular_sooner : sooner.Regular := nested_sooner.toLawful.regular

end Comparison

namespace Eval

/-- A greater bound makes no difference, unless the smaller one is reached. -/
theorem run_sooner {host : Host} (tame : host.Tame) {bound more : Nat} (le : bound ≤ more) :
    Comparison.sooner.Agree (run host bound) (run host more) := by
  induction bound generalizing more with
  | zero => exact fun request state _ => .inl ⟨trivial, state, rfl⟩
  | succ bound inductionHypothesis =>
      cases more with
      | zero => cases le
      | succ more =>
          have fewer : bound ≤ more := Nat.le_of_succ_le_succ le
          have agree := inductionHypothesis fewer
          exact Comparison.nested_sooner.agree_step agree
            (tame _ _ _ Comparison.nested_sooner.toLawful agree) (.inr ⟨trivial, fewer⟩)

variable {α : Type} {state : State} {result : EStateM.Result Failure State α}

/-- What evaluations with greater and greater bounds come to, once their bound is not reached. -/
def Comes (stage : Nat → Eval α) (state : State) (result : EStateM.Result Failure State α) : Prop :=
  ∃ bound, stage bound state = result ∧ ∀ left, result ≠ .error .exhausted left

theorem Comes.of_sooner {first second : Nat → Eval α}
    (sooner : ∀ bound, ∃ more, Comparison.sooner.HoldsAt state (first bound) (second more))
    (comes : Comes first state result) : Comes second state result := by
  obtain ⟨bound, rfl, finished⟩ := comes
  obtain ⟨more, ⟨_, left, stopped⟩ | same⟩ := sooner bound
  · exact absurd stopped (finished left)
  · exact ⟨more, same.1.symm, finished⟩

/-- The state in which an evaluation ends. -/
def ended : EStateM.Result Failure State α → State
  | .ok _ reached => reached
  | .error _ reached => reached

theorem after_eq_ended (action : Eval α) (state : State) :
    action.after state = ended (action state) := by
  unfold after ended
  cases action state <;> rfl

/-- What a request comes to. -/
abbrev Gives (host : Host) (request : Request) (state : State)
    (result : EStateM.Result Failure State Value) : Prop :=
  Comes (fun bound => run host bound request) state result

/-- What evaluations come to does not change when their bounds do. -/
theorem comes_congr {first second : Nat → Eval α}
    (sooner : ∀ bound, ∃ more, Comparison.sooner.HoldsAt state (first bound) (second more))
    (sooner' : ∀ bound, ∃ more, Comparison.sooner.HoldsAt state (second bound) (first more)) :
    Comes first state result ↔ Comes second state result := by
  constructor
  · exact Comes.of_sooner sooner
  · exact Comes.of_sooner sooner'

/-- Greater bounds change nothing about what evaluations come to. -/
def Prolongs (stage : Nat → Eval α) : Prop :=
  ∀ ⦃bound more : Nat⦄, bound ≤ more → Comparison.sooner.Holds (stage bound) (stage more)

theorem prolongs_run {host : Host} (tame : host.Tame) (request : Request) :
    Prolongs fun bound => run host bound request :=
  fun _ _ le => run_sooner tame le request

theorem Comes.eventually {stage : Nat → Eval α} (prolongs : Prolongs stage)
    (comes : Comes stage state result) :
    ∃ least, ∀ bound, least ≤ bound → stage bound state = result := by
  obtain ⟨least, rfl, finished⟩ := comes
  refine ⟨least, fun bound enough => ?_⟩
  obtain ⟨_, left, stopped⟩ | same := prolongs enough state trivial
  · exact absurd stopped (finished left)
  · exact same.1.symm

/-- Evaluations come to one thing only. -/
theorem Comes.unique {stage : Nat → Eval α} (prolongs : Prolongs stage)
    {first second : EStateM.Result Failure State α} (comes : Comes stage state first)
    (comes' : Comes stage state second) : first = second := by
  obtain ⟨least, ends⟩ := comes.eventually prolongs
  obtain ⟨least', ends'⟩ := comes'.eventually prolongs
  exact (ends _ (Nat.le_max_left least least')).symm.trans (ends' _ (Nat.le_max_right _ _))

/-- A request comes to one thing only. -/
theorem Gives.unique {host : Host} (tame : host.Tame) {request : Request}
    {first second : EStateM.Result Failure State Value} (gives : Gives host request state first)
    (gives' : Gives host request state second) : first = second :=
  Comes.unique (prolongs_run tame request) gives gives'

/-- A greater bound changes nothing about what a request comes to. -/
theorem Gives.eventually {host : Host} (tame : host.Tame) {request : Request}
    {result : EStateM.Result Failure State Value} (gives : Gives host request state result) :
    ∃ least, ∀ bound, least ≤ bound → run host bound request state = result :=
  Comes.eventually (prolongs_run tame request) gives

/-- A request whose first step goes on in one way comes to what that comes to. -/
theorem gives_step_iff {host : Host} {request : Request} {inside : Nat → Eval Value}
    {result : EStateM.Result Failure State Value}
    (step : ∀ bound, run host (bound + 1) request state = inside bound state) :
    Gives host request state result ↔ Comes inside state result := by
  refine comes_congr (fun bound => ?_) fun bound => ⟨bound + 1, .inr ⟨(step bound).symm, trivial⟩⟩
  cases bound with
  | zero => exact ⟨0, .inl ⟨trivial, state, rfl⟩⟩
  | succ bound => exact ⟨bound, .inr ⟨step bound, trivial⟩⟩

section Sequences

variable {β : Type} {first : Nat → Eval β} {next : Nat → β → Eval α}

theorem Prolongs.bind (prolongs : Prolongs first)
    (continued : ∀ value, Prolongs fun bound => next bound value) :
    Prolongs fun bound => first bound >>= next bound := fun _ _ le =>
  Comparison.regular_sooner.holds_bind (prolongs le) fun value => continued value le

/-- Where two things are done one after the other, the first one fails, or the second one goes on
from what the first one has come to. -/
theorem comes_bind_iff (prolongs : Prolongs first)
    (continued : ∀ value, Prolongs fun bound => next bound value) :
    Comes (fun bound => first bound >>= next bound) state result ↔
      (∃ failure left, Comes first state (.error failure left) ∧ result = .error failure left) ∨
      ∃ value middle, Comes first state (.ok value middle) ∧
        Comes (fun bound => next bound value) middle result := by
  constructor
  · rintro ⟨bound, rfl, finished⟩
    cases ran : first bound state with
    | error failure left =>
        have stops : (first bound >>= next bound) state = .error failure left := bind_of_error ran
        refine .inl ⟨failure, left, ⟨bound, ran, fun _ same => ?_⟩, stops⟩
        cases same
        exact finished _ stops
    | ok value middle =>
        have goesOn : (first bound >>= next bound) state = next bound value middle :=
          bind_of_ok ran
        exact .inr ⟨value, middle, ⟨bound, ran, nofun⟩, bound, goesOn.symm, finished⟩
  · rintro (⟨failure, left, ⟨bound, ran, finished⟩, rfl⟩ | ⟨value, middle, comes, comes'⟩)
    · exact ⟨bound, bind_of_error ran, fun _ same => finished _ (by cases same; rfl)⟩
    · obtain ⟨least, ends⟩ := comes.eventually prolongs
      obtain ⟨least', ends'⟩ := comes'.eventually (continued value)
      obtain ⟨_, _, finished⟩ := comes'
      refine ⟨max least least', ?_, finished⟩
      exact (bind_of_ok (ends _ (Nat.le_max_left _ _))).trans (ends' _ (Nat.le_max_right _ _))

theorem comes_bind_ok_iff (prolongs : Prolongs first)
    (continued : ∀ value, Prolongs fun bound => next bound value) {last : α} {reached : State} :
    Comes (fun bound => first bound >>= next bound) state (.ok last reached) ↔
      ∃ value middle, Comes first state (.ok value middle) ∧
        Comes (fun bound => next bound value) middle (.ok last reached) := by
  rw [comes_bind_iff prolongs continued]
  simp

theorem comes_bind_error_iff (prolongs : Prolongs first)
    (continued : ∀ value, Prolongs fun bound => next bound value) {failure : Failure}
    {left : State} :
    Comes (fun bound => first bound >>= next bound) state (.error failure left) ↔
      Comes first state (.error failure left) ∨
      ∃ value middle, Comes first state (.ok value middle) ∧
        Comes (fun bound => next bound value) middle (.error failure left) := by
  rw [comes_bind_iff prolongs continued]
  refine or_congr_left ⟨?_, fun comes => ⟨failure, left, comes, rfl⟩⟩
  rintro ⟨failure', left', comes, same⟩
  cases same
  exact comes

/-- What needs no bound comes to what it does. -/
theorem comes_const_iff {action : Eval α} :
    Comes (fun _ => action) state result ↔
      action state = result ∧ ∀ left, result ≠ .error .exhausted left :=
  ⟨fun ⟨_, ran⟩ => ran, fun ran => ⟨0, ran⟩⟩

theorem prolongs_const (action : Eval α) : Prolongs fun _ => action :=
  fun _ _ _ _ _ => .inr ⟨rfl, trivial⟩

theorem comes_pure_iff {value : α} :
    Comes (fun _ => (Pure.pure value : Eval α)) state result ↔ result = .ok value state := by
  rw [comes_const_iff]
  constructor
  · rintro ⟨rfl, _⟩
    rfl
  · rintro rfl
    exact ⟨rfl, nofun⟩

end Sequences

/-- What goes on after something has come to a result only if that has. -/
theorem Comes.of_bind {β : Type} {first : Nat → Eval β} {next : Nat → β → Eval α}
    (comes : Comes (fun bound => first bound >>= next bound) state result) :
    ∃ inner, Comes first state inner := by
  obtain ⟨bound, rfl, finished⟩ := comes
  refine ⟨_, bound, rfl, fun left stopped => finished left ?_⟩
  exact bind_of_error stopped

/-- Evaluations that go through others, once their bounds are great enough, come to what the others
come to, changed in one way. -/
theorem comes_through_iff {β : Type} {stage : Nat → Eval α} {inside : Nat → Eval β} {entry : State}
    {through : EStateM.Result Failure State β → EStateM.Result Failure State α} {least more : Nat}
    (prolongs : Prolongs stage) (prolongs' : Prolongs inside)
    (stops : ∀ inner, (∃ left, through inner = .error .exhausted left) ↔
      ∃ left, inner = .error .exhausted left)
    (same : ∀ bound, least ≤ bound → stage (bound + more) state = through (inside bound entry))
    (result : EStateM.Result Failure State α) :
    Comes stage state result ↔ ∃ inner, Comes inside entry inner ∧ result = through inner := by
  constructor
  · intro comes
    obtain ⟨least', ends⟩ := comes.eventually prolongs
    obtain ⟨_, _, finished⟩ := comes
    have reached := ends (max least least' + more) (by omega)
    rw [same _ (Nat.le_max_left least least')] at reached
    refine ⟨_, ⟨max least least', rfl, fun left stopped => ?_⟩, reached.symm⟩
    obtain ⟨left', stopped'⟩ := (stops _).mpr ⟨left, stopped⟩
    exact finished left' (reached.symm.trans stopped')
  · rintro ⟨inner, comes, rfl⟩
    obtain ⟨least', ends⟩ := comes.eventually prolongs'
    obtain ⟨_, _, finished⟩ := comes
    refine ⟨max least least' + more, ?_, fun left stopped => ?_⟩
    · rw [same _ (Nat.le_max_left least least'), ends _ (Nat.le_max_right least least')]
    · obtain ⟨left', stopped'⟩ := (stops inner).mp ⟨left, stopped⟩
      exact finished left' stopped'

/-! ## Brackets -/

/-- The result of a bracket, from the result inside of it. -/
def leaving (leave : State → State) :
    EStateM.Result Failure State α → EStateM.Result Failure State α
  | .ok value state => .ok value (leave state)
  | .error failure state => .error failure (leave state)

theorem ensuring_eq_leaving (action : Eval α) (leave : State → State) (state : State) :
    ensuring action leave state = leaving leave (action state) := by
  unfold ensuring leaving
  cases action state <;> rfl

theorem leaving_eq_exhausted {leave : State → State} {inner : EStateM.Result Failure State α}
    {left : State} (stopped : leaving leave inner = .error .exhausted left) :
    ∃ left', inner = .error .exhausted left' := by
  cases inner with
  | ok value reached => cases stopped
  | error failure reached =>
      injection stopped with same
      exact ⟨reached, by rw [same]⟩

/-- A request that takes a bracket comes to what comes out of the bracket. -/
theorem gives_leaving_iff {host : Host} (tame : host.Tame) {request : Request}
    {inside : Nat → Eval Value} {entry : State} {leave : State → State} {more : Nat}
    (bracket : ∀ bound,
      run host (bound + more) request state = leaving leave (inside bound entry))
    (result : EStateM.Result Failure State Value) :
    Gives host request state result ↔
      ∃ inner, Comes inside entry inner ∧ result = leaving leave inner := by
  constructor
  · rintro ⟨bound, ran, finished⟩
    have ran : run host bound request state = result := ran
    have same : run host (bound + more) request state = result := by
      obtain ⟨_, left, stopped⟩ | ⟨same, _⟩ :=
        run_sooner tame (Nat.le_add_right bound more) request state trivial
      · exact absurd (ran.symm.trans stopped) (finished left)
      · exact same.symm.trans ran
    refine ⟨inside bound entry, ⟨bound, rfl, fun left stopped => finished (leave left) ?_⟩,
      same.symm.trans (bracket bound)⟩
    rw [← same, bracket, stopped]
    rfl
  · rintro ⟨inner, ⟨bound, rfl, finished⟩, rfl⟩
    refine ⟨bound + more, bracket bound, fun left stopped => ?_⟩
    obtain ⟨left', early⟩ := leaving_eq_exhausted stopped
    exact finished left' early

end Eval

end Fixity
