import Fixity.Proofs.Tidiness

/-!
Contract: what becomes of functions in the course of evaluation.

Owns:
- `History`, the definitions, copies and bindings so far; what a function kept from its definition,
  and the names it was bound to;
- `State.Runs`, evaluation as a row of elementary changes inside its brackets, with the events on
  the way, and `State.Recorded`, the states that come with a history;
- that the cells of functions are what the history says, and that later events change neither what
  a function kept nor the names it had;
- that whatever is evaluated runs through such changes, and makes no request but in recorded states.

Does not own: what a function's body sees.
-/

namespace Fixity

open Eval

/-- What a function keeps from its definition. -/
structure Origin where
  params : List String
  /-- Whether the last parameter takes all further arguments as a list. -/
  variadic : Bool
  /-- The bindings where and when the function was defined. -/
  visible : Bindings

/-- What happens to functions. -/
inductive Event where
  | defined (handle : Nat) (origin : Origin)
  | copied (handle original : Nat)
  | bound (name : String) (handle : Nat)

/-- Events, the latest one first. -/
abbrev History := List Event

namespace History

/-- What a function has kept from its definition. A copy has kept what its original had. -/
def origin? : History → Nat → Option Origin
  | [], _ => none
  | .defined defined origin :: earlier, handle =>
      if defined = handle then some origin else origin? earlier handle
  | .copied copy original :: earlier, handle =>
      if copy = handle then origin? earlier original else origin? earlier handle
  | .bound _ _ :: earlier, handle => origin? earlier handle

/-- The names that a function has been bound to. A copy has those that its original had before. -/
def names : History → Nat → List String
  | [], _ => []
  | .defined defined _ :: earlier, handle => if defined = handle then [] else names earlier handle
  | .copied copy original :: earlier, handle =>
      if copy = handle then names earlier original else names earlier handle
  | .bound name bound :: earlier, handle =>
      if bound = handle then name :: names earlier handle else names earlier handle

/-- Every definition and every copy makes a function that was not there before. -/
def Fresh : History → Prop
  | [] => True
  | .defined defined _ :: earlier => origin? earlier defined = none ∧ Fresh earlier
  | .copied copy _ :: earlier => origin? earlier copy = none ∧ Fresh earlier
  | .bound _ _ :: earlier => Fresh earlier

theorem mem_names_bound (name : String) (bound : Nat) (earlier : History) (handle : Nat)
    (other : String) :
    other ∈ names (.bound name bound :: earlier) handle ↔
      (other = name ∧ handle = bound) ∨ other ∈ names earlier handle := by
  rw [names]
  split
  · next same => simp [same]
  · next different => simp [Ne.symm different]

/-- What happens later changes nothing about what a function kept. -/
theorem origin?_append {events earlier : History} (fresh : Fresh (events ++ earlier)) {handle : Nat}
    {origin : Origin} (found : origin? earlier handle = some origin) :
    origin? (events ++ earlier) handle = some origin := by
  induction events with
  | nil => exact found
  | cons event events inductionHypothesis =>
      cases event with
      | bound _ _ => exact inductionHypothesis fresh
      | defined made _ | copied made _ =>
          have kept := inductionHypothesis fresh.2
          have different : made ≠ handle := by
            rintro rfl
            exact Option.some_ne_none _ (kept.symm.trans fresh.1)
          exact (if_neg different).trans kept

/-- A function that is there keeps its names and gets those that it is bound to later. -/
theorem mem_names_append {events earlier : History} (fresh : Fresh (events ++ earlier))
    {handle : Nat} {origin : Origin} (found : origin? earlier handle = some origin)
    (name : String) :
    name ∈ names (events ++ earlier) handle ↔
      name ∈ names earlier handle ∨ .bound name handle ∈ events := by
  induction events with
  | nil => simp
  | cons event events inductionHypothesis =>
      cases event with
      | bound _ _ =>
          rw [List.cons_append, mem_names_bound, inductionHypothesis fresh, List.mem_cons]
          simp only [Event.bound.injEq]
          tauto
      | defined made _ | copied made _ =>
          have kept := origin?_append fresh.2 found
          have different : made ≠ handle := by
            rintro rfl
            exact Option.some_ne_none _ (kept.symm.trans fresh.1)
          rw [List.cons_append, names, if_neg different, inductionHypothesis fresh.2]
          simp

end History

/-! ## Runs -/

/-- The state in which a function has another body. -/
def State.rebodied (state : State) (handle : Nat) (body : Node) : State :=
  { state with
    heap :=
      { state.heap with
        functions :=
          state.heap.functions.modify handle fun function => { function with body := body } } }

/-- The state with a copy of a function. -/
def State.copied (state : State) (original : Nat) : State :=
  { state with
    heap :=
      { state.heap with
        functions := state.heap.functions.push (state.heap.function original) } }

/-- Elementary changes one after the other, some of them between the two ends of a bracket, and the
events among them. -/
inductive State.Runs : State → History → State → Prop where
  | done (state : State) : Runs state [] state
  | followed {first second third : State} {earlier later : History} :
      Runs first earlier second → Runs second later third → Runs first (later ++ earlier) third
  /-- Values other than functions are made or changed. -/
  | heap {state : State} {heap : Heap} : heap.functions = state.heap.functions →
      Runs state [] { state with heap := heap }
  | body (state : State) (handle : Nat) (body : Node) : Runs state [] (state.rebodied handle body)
  | copied (state : State) (original : Nat) :
      Runs state [.copied state.heap.functions.size original] (state.copied original)
  | defined (state : State) (params : List String) (body : Node) (variadic : Bool) :
      Runs state [.defined state.heap.functions.size ⟨params, variadic, state.scope.bindings⟩]
        (state.captured params body variadic)
  | bound (state : State) (name : String) (handle : Nat) :
      Runs state [.bound name handle] (state.assigned name (.function handle))
  /-- Values that are no functions do not know what they are bound to. -/
  | assigned {state : State} (name : String) {value : Value} :
      (∀ handle, value ≠ .function handle) → Runs state [] (state.assigned name value)
  | removed (state : State) (name : String) :
      Runs state [] { state with scope := state.scope.remove name }
  | operator {state : State} {definition : Syntax.Definition} {implementation : Implementation}
      {scope : Scope} : state.scope.define definition implementation = .ok scope →
      Runs state [] { state with scope := scope }
  | effects (state : State) (effects : Array Effect) :
      Runs state [] { state with effects := effects }
  | nextName {state : State} {number : Nat} : state.nextName ≤ number →
      Runs state [] { state with nextName := number }
  | withNames {state reached : State} {events : History} (named : List (String × Value)) :
      Runs { state with scope := state.scope.pushAll named } events reached →
      Runs state events { reached with scope := reached.scope.popAll (named.map (·.1)) }
  | asCall {state reached : State} {events : History} :
      Runs { state with depth := state.depth + 1 } events reached →
      Runs state events (leaveCall reached)
  | inChild {state reached : State} {events : History} (handle : Nat) :
      Runs (state.inward (state.heap.function handle).closure) events reached →
      Runs state events (leaveScope reached)
  | inAncestor {state reached : State} {events : History} (steps : Nat) :
      Runs (state.outward steps) events reached → Runs state events (state.back steps reached)

/-- The states that come with a history. Between two runs evaluation may go on anywhere: in any
scopes, with any counters. -/
inductive State.Recorded (start : State) : History → State → Prop where
  | start : Recorded start [] start
  | runs {state reached : State} {history events : History} : Recorded start history state →
      Runs state events reached → Recorded start (events ++ history) reached
  | elsewhere {state there : State} {history : History} : Recorded start history state →
      there.heap = state.heap → Recorded start history there

/-! ## Cells -/

/-- What a function has kept from its definition. -/
def Function.origin (function : Function) : Origin :=
  ⟨function.params, function.variadic, function.closure⟩

/-- The functions that a history tells of are as it says. -/
structure History.Describes (history : History) (heap : Heap) : Prop where
  fresh : history.Fresh
  held : ∀ {handle origin}, history.origin? handle = some origin → handle < heap.functions.size
  kept : ∀ {handle origin}, history.origin? handle = some origin →
    (heap.function handle).origin = origin
  named : ∀ {handle origin}, history.origin? handle = some origin →
    ∀ name, name ∈ (heap.function handle).anchors ↔ name ∈ history.names handle

namespace History.Describes

variable {history : History} {heap heap' : Heap}

theorem start (heap : Heap) : Describes [] heap := ⟨trivial, nofun, nofun, nofun⟩

/-- All functions show what they showed before, but perhaps other bodies. -/
theorem unchanged (describes : history.Describes heap)
    (size : heap.functions.size ≤ heap'.functions.size)
    (same : ∀ handle, (heap'.function handle).origin = (heap.function handle).origin ∧
      (heap'.function handle).anchors = (heap.function handle).anchors) :
    history.Describes heap' where
  fresh := describes.fresh
  held found := Nat.lt_of_lt_of_le (describes.held found) size
  kept found := (same _).1.trans (describes.kept found)
  named found name := by
    rw [(same _).2]
    exact describes.named found name

theorem of_functions (describes : history.Describes heap)
    (same : heap'.functions = heap.functions) : history.Describes heap' := by
  apply describes.unchanged (Nat.le_of_eq (congrArg Array.size same.symm))
  intro handle
  unfold Heap.function
  rw [same]
  exact ⟨rfl, rfl⟩

theorem rebodied (describes : history.Describes heap) (handle : Nat) (body : Node) :
    history.Describes
      { heap with
        functions :=
          heap.functions.modify handle fun function => { function with body := body } } := by
  apply describes.unchanged (Nat.le_of_eq Array.size_modify.symm)
  intro target
  rw [Heap.function_modify]
  split
  · exact ⟨rfl, rfl⟩
  · exact ⟨rfl, rfl⟩

/-- A new function is as the event says that made it. -/
private theorem push (describes : history.Describes heap) {event : Event} {content : Function}
    (fresh : History.Fresh (event :: history))
    (others : ∀ handle, heap.functions.size ≠ handle →
      origin? (event :: history) handle = history.origin? handle ∧
        names (event :: history) handle = history.names handle)
    (made : ∀ origin, origin? (event :: history) heap.functions.size = some origin →
      content.origin = origin ∧
        ∀ name, name ∈ content.anchors ↔ name ∈ names (event :: history) heap.functions.size) :
    Describes (event :: history) { heap with functions := heap.functions.push content } := by
  have cell : ∀ {handle origin}, origin? (event :: history) handle = some origin →
      let heap' : Heap := { heap with functions := heap.functions.push content }
      handle < heap.functions.size + 1 ∧ (heap'.function handle).origin = origin ∧
        ∀ name, name ∈ (heap'.function handle).anchors ↔
          name ∈ names (event :: history) handle := by
    intro handle origin found heap'
    rw [Heap.function_push]
    by_cases new : handle = heap.functions.size
    · subst new
      rw [if_pos rfl]
      exact ⟨Nat.lt_succ_self _, made origin found⟩
    · have older := others handle (Ne.symm new)
      rw [older.1] at found
      rw [if_neg new, older.2]
      exact ⟨Nat.lt_succ_of_lt (describes.held found), describes.kept found,
        describes.named found⟩
  refine ⟨fresh, fun found => ?_, fun found => (cell found).2.1, fun found => (cell found).2.2⟩
  rw [Array.size_push]
  exact (cell found).1

private theorem origin?_size (describes : history.Describes heap) :
    history.origin? heap.functions.size = none := by
  cases found : history.origin? heap.functions.size with
  | none => rfl
  | some origin => exact absurd (describes.held found) (Nat.lt_irrefl _)

theorem defined (describes : history.Describes heap) (function : Function)
    (unnamed : function.anchors = []) :
    Describes (.defined heap.functions.size function.origin :: history)
      { heap with functions := heap.functions.push function } := by
  have fresh : Fresh (.defined heap.functions.size function.origin :: history) :=
    ⟨describes.origin?_size, describes.fresh⟩
  apply describes.push fresh
  · intro handle different
    exact ⟨if_neg different, if_neg different⟩
  · intro origin found
    rw [origin?, if_pos rfl] at found
    rw [names, if_pos rfl, unnamed]
    exact ⟨Option.some.inj found, fun _ => Iff.rfl⟩

theorem copied (describes : history.Describes heap) (original : Nat) :
    Describes (.copied heap.functions.size original :: history)
      { heap with functions := heap.functions.push (heap.function original) } := by
  have fresh : Fresh (.copied heap.functions.size original :: history) :=
    ⟨describes.origin?_size, describes.fresh⟩
  apply describes.push fresh
  · intro handle different
    exact ⟨if_neg different, if_neg different⟩
  · intro origin found
    rw [origin?, if_pos rfl] at found
    rw [names, if_pos rfl]
    exact ⟨describes.kept found, describes.named found⟩

private theorem anchors_anchor (function : Function) (name other : String) :
    other ∈ (function.anchor name).anchors ↔ other = name ∨ other ∈ function.anchors := by
  unfold Function.anchor
  split
  · next known =>
    have member : name ∈ function.anchors := by simpa using known
    constructor
    · exact Or.inr
    · rintro (rfl | known)
      · exact member
      · exact known
  · simp [or_comm]

theorem bound (describes : history.Describes heap) (name : String) (target : Nat) :
    Describes (.bound name target :: history) (heap.anchored name (.function target)) := by
  have cell : ∀ handle, ((heap.anchored name (.function target)).function handle) =
      if target = handle ∧ handle < heap.functions.size then (heap.function handle).anchor name
      else heap.function handle := fun handle => Heap.function_modify heap target handle _
  refine ⟨describes.fresh, fun {handle _} found => ?_, fun {handle _} found => ?_,
    fun {handle _} found other => ?_⟩
  · exact Nat.lt_of_lt_of_eq (describes.held found) Array.size_modify.symm
  · rw [cell, ← describes.kept found]
    split
    · unfold Function.anchor
      split <;> rfl
    · rfl
  · rw [mem_names_bound, cell, ← describes.named found other]
    split
    · next here => simp [anchors_anchor, here.1]
    · next elsewhere =>
      have held := describes.held found
      have different : handle ≠ target := by
        rintro rfl
        exact elsewhere ⟨rfl, held⟩
      simp [different]

end History.Describes

/-! ### Single functions -/

namespace History

/-- A history that tells of one function only: its definition, and the names it was bound to. -/
def solely (heap : Heap) (handle : Nat) : History :=
  (heap.function handle).anchors.map (.bound · handle) ++
    [.defined handle (heap.function handle).origin]

private theorem origin?_bound (names : List String) (bound : Nat) (earlier : History)
    (handle : Nat) :
    origin? (names.map (.bound · bound) ++ earlier) handle = origin? earlier handle := by
  induction names with
  | nil => rfl
  | cons name names inductionHypothesis => exact inductionHypothesis

theorem origin?_solely (heap : Heap) (handle : Nat) :
    origin? (solely heap handle) handle = some (heap.function handle).origin := by
  rw [solely, origin?_bound]
  exact if_pos rfl

theorem describes_solely {heap : Heap} {handle : Nat} (held : handle < heap.functions.size) :
    (solely heap handle).Describes heap := by
  have fresh : (solely heap handle).Fresh := by
    unfold solely
    induction (heap.function handle).anchors with
    | nil => exact ⟨rfl, trivial⟩
    | cons name names inductionHypothesis => exact inductionHypothesis
  have alone {other : Nat} {origin : Origin}
      (found : origin? (solely heap handle) other = some origin) :
      handle = other ∧ (heap.function other).origin = origin := by
    rw [solely, origin?_bound, origin?] at found
    split at found
    · next same =>
      subst same
      exact ⟨rfl, Option.some.inj found⟩
    · cases found
  refine ⟨fresh, fun found => ?_, fun found => (alone found).2, fun found name => ?_⟩
  · obtain ⟨rfl, _⟩ := alone found
    exact held
  · obtain ⟨rfl, _⟩ := alone found
    unfold solely
    induction (heap.function handle).anchors with
    | nil => simp [names]
    | cons first rest inductionHypothesis =>
        rw [List.map_cons, List.cons_append, mem_names_bound, ← inductionHypothesis, List.mem_cons]
        simp

end History

namespace State

variable {state reached : State} {history events : History}

private theorem heap_leaveScope (state : State) : (leaveScope state).heap = state.heap := by
  unfold leaveScope
  split <;> rfl

private theorem heap_back (steps : Nat) (state reached : State) :
    (state.back steps reached).heap = reached.heap := by
  unfold State.back putBack
  split <;> rfl

/-- The events of a run tell what it does to functions. -/
theorem Runs.describes (runs : state.Runs events reached)
    (describes : history.Describes state.heap) :
    History.Describes (events ++ history) reached.heap := by
  induction runs generalizing history with
  | done state => exact describes
  | followed _ _ first second =>
      rw [List.append_assoc]
      exact second (first describes)
  | heap same => exact describes.of_functions same
  | body state handle body => exact describes.rebodied handle body
  | copied state original => exact describes.copied original
  | defined state params body variadic =>
      exact describes.defined ⟨params, body, state.scope.bindings, variadic, []⟩ rfl
  | bound state name handle => exact describes.bound name handle
  | @assigned state name value other =>
      cases value with
      | function handle => exact absurd rfl (other handle)
      | _ => exact describes
  | removed state name => exact describes
  | operator defined => exact describes
  | effects state effects => exact describes
  | nextName larger => exact describes
  | withNames named _ inside => exact inside describes
  | asCall _ inside => exact inside describes
  | inChild handle _ inside =>
      rw [heap_leaveScope]
      exact inside describes
  | inAncestor steps _ inside =>
      rw [heap_back]
      exact inside describes

theorem Recorded.describes {start : State} (recorded : Recorded start history state) :
    history.Describes state.heap := by
  induction recorded with
  | start => exact .start _
  | runs _ runs inductionHypothesis => exact runs.describes inductionHypothesis
  | elsewhere _ same inductionHypothesis =>
      rw [same]
      exact inductionHypothesis

/-- What a history tells of a function stays true, and its names are those it had and those that it
was bound to since. -/
theorem Recorded.origin?_later {start later : State} {handle : Nat} {origin : Origin}
    (recorded : Recorded start (events ++ history) later)
    (found : history.origin? handle = some origin) :
    History.origin? (events ++ history) handle = some origin ∧
      ∀ name, name ∈ History.names (events ++ history) handle ↔
        name ∈ history.names handle ∨ .bound name handle ∈ events :=
  ⟨History.origin?_append recorded.describes.fresh found,
    History.mem_names_append recorded.describes.fresh found⟩

/-- Whatever happens, a function that is there stays, with what it kept from its definition. -/
theorem Runs.retains (runs : state.Runs events reached) {handle : Nat}
    (held : handle < state.heap.functions.size) :
    handle < reached.heap.functions.size ∧
      (reached.heap.function handle).origin = (state.heap.function handle).origin := by
  have before := History.describes_solely held
  have after := runs.describes before
  have kept := History.origin?_append after.fresh (History.origin?_solely state.heap handle)
  exact ⟨after.held kept, after.kept kept⟩

theorem Recorded.retains {start : State} (recorded : Recorded start history state) {handle : Nat}
    (held : handle < start.heap.functions.size) :
    handle < state.heap.functions.size ∧
      (state.heap.function handle).origin = (start.heap.function handle).origin := by
  induction recorded with
  | start => exact ⟨held, rfl⟩
  | runs _ runs inductionHypothesis =>
      obtain ⟨held', same⟩ := runs.retains inductionHypothesis.1
      exact ⟨held', same.trans inductionHypothesis.2⟩
  | elsewhere _ same inductionHypothesis =>
      rw [same]
      exact inductionHypothesis

/-- Copies and other bodies of functions. -/
theorem Runs.of_evolves {heap heap' : Heap} (evolves : heap.Evolves heap') :
    ∀ state : State, state.heap = heap →
      ∃ events, state.Runs events { state with heap := heap' } := by
  induction evolves with
  | cells same =>
      rintro state rfl
      exact ⟨[], .heap same⟩
  | copy heap original =>
      rintro state rfl
      exact ⟨_, .copied state original⟩
  | body heap handle body =>
      rintro state rfl
      exact ⟨[], .body state handle body⟩
  | @trans _ middle _ _ _ first second =>
      intro state here
      obtain ⟨earlier, ran⟩ := first state here
      obtain ⟨later, ranOn⟩ := second { state with heap := middle } rfl
      exact ⟨_, .followed ran ranOn⟩

end State

/-! ## Evaluation -/

/-- From states that come with a history evaluation runs through elementary changes. -/
def Comparison.recorded (start : State) (past : History) : Comparison where
  Valid state := ∃ events, State.Recorded start (events ++ past) state
  Related before after := ∃ events, before.Runs events after
  mayStop := False

namespace Comparison

variable {start : State} {past : History}

theorem recorded_elsewhere {state there : State} (valid : (recorded start past).Valid state)
    (same : there.heap = state.heap) : (recorded start past).Valid there := by
  obtain ⟨events, recorded⟩ := valid
  exact ⟨events, .elsewhere recorded same⟩

theorem recorded_regular : (recorded start past).Regular where
  refl {state} _ := ⟨[], .done state⟩
  trans := by
    rintro first second third ⟨earlier, ran⟩ ⟨later, ranOn⟩
    exact ⟨_, .followed ran ranOn⟩
  valid := by
    rintro before after ⟨events, recorded⟩ ⟨further, ran⟩
    refine ⟨further ++ events, ?_⟩
    rw [List.append_assoc]
    exact .runs recorded ran
  heap _ evolves := State.Runs.of_evolves evolves _ rfl
  effects effects _ := ⟨[], .effects _ effects⟩
  nextName _ larger := ⟨[], .nextName larger⟩
  capture params body variadic _ := ⟨_, .defined _ params body variadic⟩
  bound {state} name value _ := by
    cases value with
    | function handle => exact ⟨_, .bound state name handle⟩
    | _ => exact ⟨[], .assigned name nofun⟩
  define _ defined := ⟨[], .operator defined⟩
  withNames named holds := by
    intro state valid
    apply holdsAt_withNames (holds _ (recorded_elsewhere valid rfl)) id
    rintro reached ⟨events, ran⟩
    exact ⟨events, .withNames named ran⟩

end Comparison

/-- Whatever is watched for, if it does not happen in recorded states. -/
theorem Watch.admits_recorded {μ : Type} {watch : Watch μ} {start : State} {past : History}
    (never : ∀ {mark request state}, (Comparison.recorded start past).Valid state →
      ¬ watch.forbidden mark request state) :
    watch.Admits fun _ => Comparison.recorded start past where
  stops valid forbidden := absurd forbidden (never valid)
  remove valid _ _ :=
    Comparison.recorded_regular.keeps_delete (fun name _ => ⟨[], .removed _ name⟩) _ _ valid
  applied valid _ := Comparison.recorded_elsewhere valid rfl
  asCall valid entered := by
    apply Comparison.holdsAt_asCall (Comparison.recorded_regular.refl valid) entered id
    rintro reached ⟨events, ran⟩
    exact ⟨events, .asCall ran⟩
  inChild handle valid holds := by
    apply Comparison.holdsAt_inChild (holds _ (Comparison.recorded_elsewhere valid rfl)) id
    rintro reached ⟨events, ran⟩
    exact ⟨events, .inChild handle ran⟩
  outward valid _ := Comparison.recorded_elsewhere valid rfl
  removeOutward there _ _ :=
    Comparison.recorded_regular.keeps_delete (fun name _ => ⟨[], .removed _ name⟩) _ _ there
  inAncestor _ _ holds := by
    apply Comparison.holdsAt_inAncestor holds id
    rintro reached ⟨events, ran⟩
    exact ⟨events, .inAncestor _ ran⟩

namespace State

variable {host : Host} {start state : State} {history : History}

/-- Whatever is evaluated runs through elementary changes. -/
theorem Recorded.evaluated (modest : host.Modest) (recorded : Recorded start history state)
    (bound : Nat) (request : Request) :
    ∃ events, state.Runs events ((run host bound request).after state) :=
  Comparison.related_run Comparison.recorded_regular (modest _ Comparison.recorded_regular) id
    Watch.admits_recorded bound request ⟨[], recorded⟩

/-- In the midst of an evaluation requests are made in states with a longer history. -/
theorem Recorded.meets (modest : host.Modest) (recorded : Recorded start history state)
    {bound : Nat} {request : Request} {awaited : State}
    (meets : Meets host bound request state awaited) :
    ∃ events, Recorded start (events ++ history) awaited :=
  Comparison.valid_of_meets Comparison.recorded_regular (modest _ Comparison.recorded_regular) id
    Watch.admits_recorded ⟨[], recorded⟩ meets

end State

end Fixity
