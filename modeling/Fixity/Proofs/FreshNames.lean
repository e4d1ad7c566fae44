import Fixity.Proofs.Consultations
import Fixity.Proofs.Preservation
import Mathlib.Data.List.Nodup
import Mathlib.Data.List.Perm.Subperm
import Mathlib.Data.Nat.Find

/-!
Contract: generated names are fresh.

Owns:
- the names of a scope as the names with a visible value, and generated names as distinct from one
  another while the counter has not come round;
- `State.Draws`, what the generation of a name comes to: the least number whose name is free, found
  after finitely many tries;
- `Session`, requests in any environments that share the counter, in between which anything else may
  change;
- the freshness of all names that a session generates.

Does not own: what programs do with the names.
-/

namespace Fixity

open Eval

/-! ## Bound names -/

namespace Scope

theorem isBound_iff_mem_names (scope : Scope) (name : String) :
    scope.isBound name = true ↔ name ∈ scope.names := by
  rw [names, Dict.mem_keys, Dict.get?_filter, isBound, lookup?, stack?]
  cases scope.bindings.get? name with
  | none => simp
  | some values => cases values <;> simp

theorem length_names_le (scope : Scope) : scope.names.length ≤ scope.bindings.size := by
  show (List.map Prod.fst _).length ≤ scope.bindings.entries.length
  rw [List.length_map]
  exact List.length_filter_le _ _

end Scope

/-! ## Generated names -/

namespace Reflection

theorem generatedName_of_lt {number : Nat} (small : number < UInt64.size) :
    generatedName number = "$g" ++ toString number := by
  rw [generatedName, Nat.mod_eq_of_lt small]

/-- Two generated names are the same only if their numbers are the same in 64 bits. -/
theorem generatedName_inj {first second : Nat} :
    generatedName first = generatedName second ↔ first % UInt64.size = second % UInt64.size := by
  refine ⟨fun same => ?_, fun same => by rw [generatedName, generatedName, same]⟩
  have digits := congrArg String.toList same
  simp only [generatedName, String.toList_append] at digits
  have numbers := congrArg (fun digits => Nat.ofDigitChars 10 digits 0)
    (List.append_cancel_left digits)
  simpa [Nat.toString_eq_ofList_toDigits] using numbers

/-- Among more numbers in a row than there are names, but not so many that the names come round,
one has a free name. -/
theorem exists_unbound (scope : Scope) (few : scope.names.length < UInt64.size) (start : Nat) :
    ∃ number, start ≤ number ∧ number ≤ start + scope.names.length ∧
      scope.isBound (generatedName number) = false := by
  by_contra! taken
  -- The names of one number more than there are bound names: all different, and all bound.
  have distinct :
      ((List.range' start (scope.names.length + 1)).map generatedName).Nodup := by
    refine .map_on (fun first inFirst second inSecond same => ?_) (List.nodup_range' 1)
    rw [generatedName_inj] at same
    simp only [List.mem_range'_1] at inFirst inSecond
    unfold UInt64.size at same few
    omega
  have named :
      (List.range' start (scope.names.length + 1)).map generatedName ⊆ scope.names := by
    intro name listed
    obtain ⟨number, inside, rfl⟩ := List.mem_map.mp listed
    rw [List.mem_range'_1] at inside
    exact (scope.isBound_iff_mem_names _).mp
      (Bool.not_eq_false _ ▸ taken number inside.1 (by omega))
  have longer := (List.subperm_of_subset distinct named).length_le
  rw [List.length_map, List.length_range'] at longer
  omega

/-- The loop over the numbers finds the first free name, whatever number of tries it has, as long as
it reaches it. -/
theorem firstFree_of_least {scope : Scope} {tries number free : Nat} (le : number ≤ free)
    (reached : free - number < tries) (unbound : scope.isBound (generatedName free) = false)
    (taken : ∀ earlier, number ≤ earlier → earlier < free →
      scope.isBound (generatedName earlier) = true) :
    firstFree scope tries number = some free := by
  induction tries generalizing number with
  | zero => omega
  | succ tries inductionHypothesis =>
      unfold firstFree
      by_cases last : number = free
      · rw [last, unbound]
        rfl
      · rw [taken number (Nat.le_refl _) (by omega), if_pos rfl]
        exact inductionHypothesis (by omega) (by omega) fun earlier later =>
          taken earlier (by omega)

/-- The least number from a given one on whose name is free. -/
theorem exists_least_unbound (scope : Scope) (few : scope.names.length < UInt64.size)
    (start : Nat) :
    ∃ number, start ≤ number ∧ number ≤ start + scope.names.length ∧
      scope.isBound (generatedName number) = false ∧
      ∀ earlier, start ≤ earlier → earlier < number →
        scope.isBound (generatedName earlier) = true := by
  obtain ⟨free, late, near, unbound⟩ := exists_unbound scope few start
  have candidate : ∃ number, start ≤ number ∧ scope.isBound (generatedName number) = false :=
    ⟨free, late, unbound⟩
  have least := Nat.find_spec candidate
  have first := Nat.find_min' candidate ⟨late, unbound⟩
  refine ⟨Nat.find candidate, least.1, Nat.le_trans first near, least.2, ?_⟩
  intro earlier later before
  exact Bool.of_not_eq_false fun free => Nat.find_min candidate before ⟨later, free⟩

end Reflection

namespace State

/-- The counter is below `2 ^ 64` less the number of bound names: it has not come round, and does
not before it has passed all of them. -/
def HasRoom (state : State) : Prop := state.nextName + state.scope.names.length < UInt64.size

instance (state : State) : Decidable state.HasRoom := by
  unfold HasRoom
  infer_instance

/-- What the generation of a name comes to where a number is drawn. -/
structure Draws (state : State) (number : Nat) : Prop where
  le : state.nextName ≤ number
  unbound : state.scope.isBound ("$g" ++ toString number) = false
  /-- No smaller number from the counter on would do. -/
  taken : ∀ earlier, state.nextName ≤ earlier → earlier < number →
    state.scope.isBound ("$g" ++ toString earlier) = true
  /-- There are no more tries in vain than there are bound names. -/
  near : number ≤ state.nextName + state.scope.names.length
  /-- The search needs no bound: each that lets it get as far as the number lets it end there. -/
  found : ∀ tries, number - state.nextName < tries →
    Reflection.firstFree state.scope tries state.nextName = some number
  generated : Reflection.freshName state = .ok (.node state.heap.nodes.size)
    { state with
      heap := { state.heap with
        nodes := state.heap.nodes.push (.identifier ("$g" ++ toString number)) }
      nextName := number + 1 }

theorem exists_draws {state : State} (room : state.HasRoom) : ∃ number, state.Draws number := by
  unfold HasRoom at room
  obtain ⟨number, late, near, unbound, taken⟩ :=
    Reflection.exists_least_unbound state.scope (by omega) state.nextName
  have few := state.scope.length_names_le
  have named {other : Nat} (le : other ≤ number) :
      Reflection.generatedName other = "$g" ++ toString other :=
    Reflection.generatedName_of_lt (by omega)
  have found (tries : Nat) (enough : number - state.nextName < tries) :
      Reflection.firstFree state.scope tries state.nextName = some number :=
    Reflection.firstFree_of_least late enough unbound taken
  refine ⟨number, late, named le_rfl ▸ unbound, fun earlier later before => ?_, near, found, ?_⟩
  · exact named (Nat.le_of_lt before) ▸ taken earlier later before
  · rw [Reflection.freshName_of_some (found _ (by omega)), named le_rfl]
    rfl

/-- In a state, the generation of a name answers an identifier of that name, which is not bound. -/
def Generates (state : State) (name : String) : Prop :=
  state.scope.isBound name = false ∧
    ∃ handle reached, Reflection.freshName state = .ok (.node handle) reached ∧
      reached.heap.node handle = .identifier name

theorem Draws.generates {state : State} {number : Nat} (draws : state.Draws number) :
    state.Generates ("$g" ++ toString number) :=
  ⟨draws.unbound, _, _, draws.generated, by simp [Heap.node]⟩

end State

/-! ## Sessions -/

/-- Requests in environments that share the counter of generated names. -/
inductive Session where
  | finished
  /-- A request is carried out, whatever program surrounds it. What comes later may depend on how
  it ends. -/
  | request (host : Host) (outside : host.Consults) (bound : Nat) (work : Request)
      (later : EStateM.Result Failure State Value → Session)
  /-- Anything else happens: another environment takes over, on another heap maybe, or names are
  bound and removed. Only the counter is out of reach. -/
  | elsewhere (change : State → State) (counted : ∀ state, (change state).nextName = state.nextName)
      (later : Session)

namespace Session

/-- Goes through a session with any generator in the place of `gensym`. -/
def carry : Session → (generator : Eval Value) → Eval Unit
  | finished, _, state => .ok () state
  | request host _ bound work later, generator, state =>
      let result := runWith generator host bound work state
      (later result).carry generator (ended result)
  | elsewhere change _ later, generator, state => later.carry generator (change state)

theorem consults_carry (session : Session) : Consults session.carry := by
  induction session with
  | finished => exact fun state => Consults.pure () state
  | request host outside bound work later inductionHypothesis =>
      intro state
      refine (consults_runWith outside bound work state).andThen
        (fun generator result => (later result).carry generator (ended result)) rfl
        (fun generator => rfl) fun result => ?_
      exact inductionHypothesis result (ended result)
  | elsewhere change counted later inductionHypothesis =>
      intro state
      obtain ⟨dialogue, same, counts⟩ := inductionHypothesis (change state)
      exact ⟨dialogue, same, counted state ▸ counts⟩

end Session

/-- In a dialogue with `gensym`, the numbers that are drawn ascend. -/
theorem Dialogue.Counts.exists_numbers {α : Type} {dialogue : Dialogue α} {first : Nat}
    (counts : dialogue.Counts first)
    (room : ∀ state ∈ dialogue.asked Reflection.freshName, state.HasRoom) :
    ∃ numbers : List Nat,
      List.Forall₂ State.Draws (dialogue.asked Reflection.freshName) numbers ∧
        numbers.Pairwise (· < ·) ∧ ∀ number ∈ numbers, first ≤ number ∧ number < UInt64.size := by
  -- The counter stands behind each number that is drawn, and the next question finds it there.
  induction dialogue generalizing first with
  | ended result => exact ⟨[], .nil, .nil, by simp⟩
  | asks state next inductionHypothesis =>
      obtain ⟨rfl, counted⟩ := counts
      have enough := room state (List.mem_cons_self ..)
      obtain ⟨number, draws⟩ := State.exists_draws enough
      have drawn : (Eval.ended (Reflection.freshName state)).nextName = number + 1 := by
        rw [draws.generated]
        rfl
      obtain ⟨numbers, later, ascending, within⟩ := inductionHypothesis _ (counted _)
        fun state asked => room state (List.mem_cons_of_mem _ asked)
      rw [drawn] at within
      refine ⟨number :: numbers, .cons draws later,
        .cons (fun other listed => (within other listed).1) ascending, ?_⟩
      intro other listed
      have le := draws.le
      have near := draws.near
      unfold State.HasRoom at enough
      rcases List.mem_cons.mp listed with rfl | listed
      · omega
      · have := within other listed
        omega

/-- **Generated names are fresh.** Wherever the counter has room, `gensym` ends and answers `$g`
with the least number from the counter on whose name is not bound, and leaves the counter behind
that number. A session is a dialogue with whatever stands in the place of `gensym`, which answers
every application of it. If that is `gensym` itself, all names it answers are different, and none of
them is bound in the environment where it was asked for. -/
theorem Session.generated_names_fresh :
    (∀ state : State, state.HasRoom → ∃ number, state.Draws number) ∧
    (∀ (host : Host) (bound : Nat), runWith Reflection.freshName host bound = run host bound) ∧
    (∀ (generator : Eval Value) (host : Host) (bound handle : Nat) (state : State),
      (state.heap.builtin handle).action = .native .gensym →
      runWith generator host (bound + 1) (.application (.builtin handle) []) state =
          generator state ∧
        ∀ steps, runWith generator host (bound + 1) (.scopedApplication steps (.builtin handle) [])
          state = inAncestor steps generator state) ∧
    ∀ (session : Session) (state : State),
      (∃ dialogue : Dialogue Unit, dialogue.Tells session.carry state) ∧
      ∀ dialogue : Dialogue Unit, dialogue.Tells session.carry state →
        (∀ asked ∈ dialogue.asked Reflection.freshName, asked.HasRoom) →
        ∃ names : List String,
          List.Forall₂ State.Generates (dialogue.asked Reflection.freshName) names ∧
            names.Nodup := by
  refine ⟨fun state room => State.exists_draws room, runWith_freshName,
    fun generator host bound handle state gensym => runWith_gensym generator host bound gensym,
    fun session state => ⟨session.consults_carry state, fun dialogue tells room => ?_⟩⟩
  obtain ⟨numbers, drawn, ascending, within⟩ := tells.2.exists_numbers room
  refine ⟨numbers.map fun number => "$g" ++ toString number, ?_, ?_⟩
  · exact List.forall₂_map_right_iff.mpr (drawn.imp fun _ _ draws => draws.generates)
  · refine List.Nodup.map_on (fun first inFirst second inSecond same => ?_)
      (ascending.imp Nat.ne_of_lt)
    have small := (within first inFirst).2
    have small' := (within second inSecond).2
    rw [← Reflection.generatedName_of_lt small, ← Reflection.generatedName_of_lt small',
      Reflection.generatedName_inj, Nat.mod_eq_of_lt small, Nat.mod_eq_of_lt small'] at same
    exact same

/-- A state in which `gensym` is the only builtin. -/
def State.generating (scope : Scope) (number : Nat) : State :=
  { State.initial scope { Heap.empty with builtins := #[⟨"gensym", .native .gensym⟩] } with
    nextName := number }

namespace Session

/-- `gensym` is applied in the environment of a command line and then in an empty one. -/
def twice : Session :=
  let applied := Request.application (.builtin 0) []
  .request (CommandLine.host (CommandLine.listedFiles [])) (Host.consults_commandLine _) 1 applied
    fun _ =>
      .elsewhere (fun state => .generating .empty state.nextName) (fun _ => rfl)
        (.request Library.noHost Host.consults_noHost 1 applied fun _ => .finished)

/-- What happens in `twice`, from an environment in which the first generated name is bound. -/
def dialogueOfTwice : Dialogue Unit :=
  .asks (.generating (Scope.empty.bind "$g0" .zero) 0) fun first =>
    .asks (.generating .empty (ended first).nextName) fun second => .ended (.ok () (ended second))

theorem generated_names_fresh_twice :
    let start := State.generating (Scope.empty.bind "$g0" .zero) 0
    start.HasRoom ∧ (∃ number, start.Draws number) ∧
      (start.heap.builtin 0).action = .native .gensym ∧
      runWith Reflection.freshName Library.noHost 1 (.application (.builtin 0) []) start =
        Reflection.freshName start ∧
      dialogueOfTwice.Tells twice.carry start ∧
      (∀ asked ∈ dialogueOfTwice.asked Reflection.freshName, asked.HasRoom) ∧
      ∃ names : List String,
        List.Forall₂ State.Generates (dialogueOfTwice.asked Reflection.freshName) names ∧
          names.Nodup := by
  intro start
  have room : start.HasRoom := by decide +kernel
  have tells : dialogueOfTwice.Tells twice.carry start :=
    ⟨fun _ => rfl, rfl, fun _ => ⟨rfl, fun _ => rfl⟩⟩
  have rooms : ∀ asked ∈ dialogueOfTwice.asked Reflection.freshName, asked.HasRoom := by
    decide +kernel
  obtain ⟨drawn, -, answered, fresh⟩ := generated_names_fresh
  exact ⟨room, drawn start room, rfl, (answered _ _ 0 0 start rfl).1, tells, rooms,
    (fresh twice start).2 dialogueOfTwice tells rooms⟩

end Session

end Fixity
