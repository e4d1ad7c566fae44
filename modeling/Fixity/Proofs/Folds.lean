import Fixity.Proofs.Unfed

/-!
Contract: the two folds, of which one answers its last accumulator and the other all of them.

Owns:
- `Folding.Course`, how a fold goes, which is the same for both, and `Folding.Ending.answer`, what
  each makes of its end;
- `Folding.comes_fold_iff`: a fold comes to what it makes of how it goes;
- `Folding.Combines`, callables that leave nothing behind but further cells and whose answers depend
  on nothing but what their arguments stand for;
- `Folding.folds_agree`: what the two have to do with each other.

Does not own: how a callable is fed.
-/

namespace Fixity

open Eval

/-- What messages call a value: its type, or the kind of its tree. -/
def Heap.nameOf (heap : Heap) : Value → String
  | .node handle => (heap.node handle).kind.name
  | other => other.typeName

/-- A container has as many entries as it has, however they are read. -/
theorem Heap.IsRow.length_unique {heap : Heap} {α β : Type} {kind : RowKind α} {kind' : RowKind β}
    {container : Value} {entries : List α} {entries' : List β}
    (row : heap.IsRow kind container entries) (row' : heap.IsRow kind' container entries') :
    entries.length = entries'.length := by
  cases row with
  | list cell =>
      cases row' with
      | list cell' =>
          cases cell.symm.trans cell'
          rfl
  | text cell =>
      cases row' with
      | text cell' =>
          cases cell.symm.trans cell'
          rfl
  | listTree cell =>
      cases row' with
      | listTree cell' =>
          cases cell.symm.trans cell'
          rfl
      | bodyTree cell' => cases cell.symm.trans cell'
  | bodyTree cell =>
      cases row' with
      | listTree cell' => cases cell.symm.trans cell'
      | bodyTree cell' =>
          cases cell.symm.trans cell'
          rfl

/-- A value is a text with some content. -/
def Heap.IsText (heap : Heap) (value : Value) (content : String) : Prop :=
  ∃ handle, value = .text handle ∧ heap.texts[handle]? = some content

namespace Folding

/-! ## How a fold goes -/

/-- Why a fold refuses its arguments. -/
inductive Refusal where
  | callable
  | container (found : String)
  | empty

/-- The error of a refusal, in which the fold is named. -/
def Refusal.error (builtin : String) : Refusal → RuntimeError
  | callable => .notCallable ("the first argument of " ++ builtin)
  | container found => .typeError (.mismatch ("the second argument of " ++ builtin) "a list" found)
  | empty => .invalidArgument (.emptyFold builtin)

/-- How a fold ends: with accumulators, the one it began with and the answers of its callable, or
with a failure. -/
inductive Ending where
  | done (first : Value) (answers : List Value)
  | refused (refusal : Refusal)
  | failed (failure : Failure)

/-- What a fold makes of its end: a new list of the accumulators, or the last of them. -/
def Ending.answer (history : Bool) (after : State) : Ending → EStateM.Result Failure State Value
  | done first answers =>
      if history then .ok (.list after.heap.lists.size) (after.listed (first :: answers))
      else .ok ((first :: answers).getLast (List.cons_ne_nil _ _)) after
  | refused refusal => .error (.error (refusal.error (foldName history))) after
  | failed failure => .error failure after

/-- How a fold goes and the state that it leaves. It applies its callable to the last accumulator
and the next item, for one item of the container after the other. -/
inductive Course (host : Host) (function container : Value) (start : Option Value) (state : State) :
    Ending → State → Prop
  | notCallable (uncallable : ¬ function.isCallable) :
      Course host function container start state (.refused .callable) state
  | noContainer (callable : function.isCallable)
      (without : ∀ {α : Type} {kind : RowKind α} {entries : List α},
        ¬ state.heap.IsRow kind container entries) :
      Course host function container start state
        (.refused (.container (state.heap.nameOf container))) state
  | empty {α : Type} {kind : RowKind α} {entries : List α} (callable : function.isCallable)
      (row : state.heap.IsRow kind container entries)
      (begins : beginning start (kind.items entries state.heap) = none) :
      Course host function container start state (.refused .empty) (taking kind entries state)
  | done {α : Type} {kind : RowKind α} {entries : List α} {first : Value}
      {rest answers : List Value} {after : State} (callable : function.isCallable)
      (row : state.heap.IsRow kind container entries)
      (begins : beginning start (kind.items entries state.heap) = some (first, rest))
      (feeds : Feeds host function (fun last item => [last, item]) (taking kind entries state) first
        rest answers after) :
      Course host function container start state (.done first answers) after
  | failed {α : Type} {kind : RowKind α} {entries : List α} {first : Value} {rest : List Value}
      {failure : Failure} {left : State} (callable : function.isCallable)
      (row : state.heap.IsRow kind container entries)
      (begins : beginning start (kind.items entries state.heap) = some (first, rest))
      (stops : Stops host function (fun last item => [last, item]) (taking kind entries state) first
        rest failure left) :
      Course host function container start state (.failed failure) left

section Courses

variable {host : Host} {function container : Value} {start : Option Value} {state : State}

private theorem callNative_fold (interpreter : Interpreter) (history : Bool) :
    callNative interpreter (.fold history) (function :: container :: start.toList) =
      fold interpreter history function container start := by
  cases start <;> rfl

theorem fold_of_uncallable (uncallable : ¬ function.isCallable) (interpreter : Interpreter)
    (history : Bool) :
    fold interpreter history function container start state =
      (Ending.refused .callable).answer history state := by
  have refused : requireCallable function (foldName history) =
      Eval.fail (Refusal.callable.error (foldName history)) := if_neg uncallable
  unfold fold
  dsimp only
  rw [refused]
  rfl

/-- What has a cell and is no container has no items. -/
theorem items_of_no_row {heap : Heap} (holds : heap.Holds container)
    (without : ∀ {α : Type} {kind : RowKind α} {entries : List α},
      ¬ heap.IsRow kind container entries) (role : String) :
    items container role heap =
      .error (.typeError (.mismatch role "a list" (heap.nameOf container))) heap := by
  have got : (get : OnHeap Heap) heap = .ok heap heap := rfl
  cases container with
  | number | object | function | builtin => rfl
  | text handle => exact absurd (.text (Array.getElem?_eq_getElem holds)) without
  | list handle => exact absurd (.list (Array.getElem?_eq_getElem holds)) without
  | node handle =>
      refine (OnHeap.bind_of_ok got).trans ?_
      have cell : heap.nodes[handle]? = some (heap.node handle) := by
        rw [Heap.node, Array.getD_eq_getD_getElem?, Array.getElem?_eq_getElem holds]
        rfl
      show _ = EStateM.Result.error
        (RuntimeError.typeError (.mismatch role "a list" (heap.node handle).kind.name)) heap
      generalize heap.node handle = tree at cell ⊢
      cases tree with
      | list elements => exact absurd (.listTree cell) without
      | body statements => exact absurd (.bodyTree cell) without
      | number | text | identifier | operation | quoted => rfl

theorem fold_of_no_row (callable : function.isCallable) (holds : state.heap.Holds container)
    (without : ∀ {α : Type} {kind : RowKind α} {entries : List α},
      ¬ state.heap.IsRow kind container entries) (interpreter : Interpreter) (history : Bool) :
    fold interpreter history function container start state =
      (Ending.refused (.container (state.heap.nameOf container))).answer history state := by
  unfold fold
  dsimp only
  rw [requireCallable_of_callable callable, pure_bind]
  exact bind_of_error (onHeap_of_error (items_of_no_row holds without _))

private theorem comes_refused_iff {history : Bool} {refusal : Refusal}
    {result : EStateM.Result Failure State Value}
    (refuses : ∀ interpreter, fold interpreter history function container start state =
      (Ending.refused refusal).answer history state) :
    Comes (fun bound => callNative (run host bound) (.fold history)
        (function :: container :: start.toList)) state result ↔
      result = (Ending.refused refusal).answer history state := by
  simp only [callNative_fold]
  constructor
  · rintro ⟨bound, rfl, -⟩
    exact refuses _
  · rintro rfl
    exact ⟨0, refuses _, nofun⟩

/-- A fold comes to what it makes of how it goes. -/
theorem comes_fold_iff (tame : host.Tame) (holds : state.heap.Holds container) {history : Bool}
    {result : EStateM.Result Failure State Value} :
    Comes (fun bound => callNative (run host bound) (.fold history)
        (function :: container :: start.toList)) state result ↔
      ∃ ending after, Course host function container start state ending after ∧
        result = ending.answer history after := by
  let walker : Walker := .fold history start
  have walks {α : Type} {kind : RowKind α} {entries : List α} (callable : function.isCallable)
      (row : state.heap.IsRow kind container entries)
      (result : EStateM.Result Failure State Value) :
      Comes (fun bound => callNative (run host bound) (.fold history)
          (function :: container :: start.toList)) state result ↔
        walker.Walks host function (kind.items entries state.heap) (taking kind entries state)
          result :=
    comes_native_walk_iff tame walker callable row
  have finish (first : Value) (rest answers : List Value) (after : State) :
      walker.finish first rest answers after =
        (Ending.done first answers).answer history after := by
    cases history <;> rfl
  constructor
  · intro comes
    by_cases callable : function.isCallable
    case neg =>
      exact ⟨_, _, .notCallable callable,
        (comes_refused_iff (fold_of_uncallable callable · history)).mp comes⟩
    by_cases isRow : ∃ (α : Type) (kind : RowKind α) (entries : List α),
        state.heap.IsRow kind container entries
    case neg =>
      have without {α : Type} {kind : RowKind α} {entries : List α} :
          ¬ state.heap.IsRow kind container entries := fun row => isRow ⟨_, _, _, row⟩
      exact ⟨_, _, .noContainer callable without,
        (comes_refused_iff (fold_of_no_row callable holds without · history)).mp comes⟩
    obtain ⟨α, kind, entries, row⟩ := isRow
    have walked := (walks callable row _).mp comes
    cases begins : beginning start (kind.items entries state.heap) with
    | none =>
        exact ⟨_, _, .empty callable row begins, (walker.walks_of_none begins).mp walked⟩
    | some pair =>
        obtain ⟨first, rest⟩ := pair
        obtain ⟨answers, after, feeds, rfl⟩ | ⟨failure, left, stops, rfl⟩ :=
          (walker.walks_of_some begins).mp walked
        · exact ⟨_, _, .done callable row begins feeds, finish _ _ _ _⟩
        · exact ⟨_, _, .failed callable row begins stops, rfl⟩
  · rintro ⟨ending, after, course, rfl⟩
    cases course with
    | notCallable uncallable =>
        exact (comes_refused_iff (fold_of_uncallable uncallable · history)).mpr rfl
    | noContainer callable without =>
        exact (comes_refused_iff (fold_of_no_row callable holds without · history)).mpr rfl
    | empty callable row begins =>
        exact (walks callable row _).mpr ((walker.walks_of_none begins).mpr rfl)
    | done callable row begins feeds =>
        exact (walks callable row _).mpr ((walker.walks_of_some begins).mpr
          (.inl ⟨_, _, feeds, (finish _ _ _ _).symm⟩))
    | failed callable row begins stops =>
        exact (walks callable row _).mpr ((walker.walks_of_some begins).mpr
          (.inr ⟨_, _, stops, rfl⟩))

end Courses

/-! ## Callables without effects -/

section Beginning

variable {α β : Type} {stands : α → β → Prop}

theorem beginning_forall₂ {start : Option α} {items : List α} {initial : Option β}
    {meanings : List β} (starts : Option.Rel stands start initial)
    (standItems : List.Forall₂ stands items meanings) :
    (beginning start items = none ∧ beginning initial meanings = none) ∨
      ∃ first rest meaning others, beginning start items = some (first, rest) ∧
        beginning initial meanings = some (meaning, others) ∧ stands first meaning ∧
        List.Forall₂ stands rest others := by
  cases starts with
  | some stand => exact .inr ⟨_, _, _, _, rfl, rfl, stand, standItems⟩
  | none =>
      cases standItems with
      | nil => exact .inl ⟨rfl, rfl⟩
      | cons stand others => exact .inr ⟨_, _, _, _, rfl, rfl, stand, others⟩

theorem length_of_beginning {start : Option α} {items rest : List α} {first : α}
    (begins : beginning start items = some (first, rest)) :
    rest.length + 1 = items.length + start.toList.length := by
  cases start with
  | some start =>
      cases begins
      rfl
  | none =>
      cases items with
      | nil => cases begins
      | cons item others =>
          cases begins
          rfl

/-- How many items a fold has to do with when it has applied its callable some number of times:
without a start, one more. -/
def through (start : Option α) (count : Nat) : Nat := if start.isSome then count else count + 1

theorem beginning_take {start : Option α} {items rest : List α} {first : α}
    (begins : beginning start items = some (first, rest)) (count : Nat) :
    beginning start (items.take (through start count)) = some (first, rest.take count) := by
  cases start with
  | some start =>
      cases begins
      rfl
  | none =>
      cases items with
      | nil => cases begins
      | cons item others =>
          cases begins
          rfl

end Beginning

/-- A callable that leaves nothing behind but further cells, and whose answers depend on nothing but
what its arguments stand for: `combine` says what the answer stands for, if there is one. This is so
wherever a given state has got nothing but further cells. -/
structure Combines (host : Host) (function : Value) (base : State) {α : Type}
    (stands : Heap → Value → α → Prop) (combine : α → α → Option α) : Prop where
  callable : function.isCallable
  lasts {heap later : Heap} {value : Value} {meaning : α} (grows : heap.Grows later)
    (stand : stands heap value meaning) : stands later value meaning
  answers {heap : Heap} {last item : Value} {first second third : α} (grows : base.heap.Grows heap)
    (standLast : stands heap last first) (standItem : stands heap item second)
    (combined : combine first second = some third) :
    ∃ answer later, heap.Grows later ∧ stands later answer third ∧
      Eval.Gives host (.application function [last, item]) { base with heap := heap }
        (.ok answer { base with heap := later })
  fails {heap : Heap} {last item : Value} {first second : α} (grows : base.heap.Grows heap)
    (standLast : stands heap last first) (standItem : stands heap item second)
    (uncombined : combine first second = none) (answer : Value) (reached : State) :
    ¬ Eval.Gives host (.application function [last, item]) { base with heap := heap }
      (.ok answer reached)

namespace Combines

variable {α : Type} {host : Host} {function : Value} {base : State}
  {stands : Heap → Value → α → Prop} {combine : α → α → Option α}
  (combines : Combines host function base stands combine)
  {heap : Heap} (grows : base.heap.Grows heap) {first : Value} {rest : List Value} {initial : α}
  {meanings : List α} (standFirst : stands heap first initial)
  (standRest : List.Forall₂ (stands heap) rest meanings)
include combines grows standFirst standRest

/-- Each accumulator stands for what the items up to there combine to. -/
theorem of_feeds (tame : host.Tame) {answers : List Value} {after : State}
    (feeds : Feeds host function (fun last item => [last, item]) { base with heap := heap } first
      rest answers after) :
    ∃ later, heap.Grows later ∧ after = { base with heap := later } ∧
      ∀ index element, (first :: answers)[index]? = some element →
        ∃ meaning, (meanings.take index).foldlM combine initial = some meaning ∧
          stands later element meaning := by
  -- Each application begins in the heap that the one before has left, so the heap is general.
  induction meanings generalizing heap first rest initial answers with
  | nil =>
      cases standRest
      cases feeds
      refine ⟨heap, .refl heap, rfl, fun index element found => ?_⟩
      cases index with
      | zero =>
          cases found
          exact ⟨initial, rfl, standFirst⟩
      | succ index => cases found
  | cons second meanings inductionHypothesis =>
      obtain _ | ⟨standItem, standRest⟩ := standRest
      obtain _ | ⟨gives, onward⟩ := feeds
      cases combined : combine initial second with
      | none => exact absurd gives (combines.fails grows standFirst standItem combined _ _)
      | some third =>
          obtain ⟨answer, middle, growsMiddle, standAnswer, gives'⟩ :=
            combines.answers grows standFirst standItem combined
          cases Eval.Gives.unique tame gives gives'
          obtain ⟨later, growsLater, same, others⟩ := inductionHypothesis
            (grows.trans growsMiddle) standAnswer
            (standRest.imp fun _ _ => combines.lasts growsMiddle) onward
          have whole := growsMiddle.trans growsLater
          refine ⟨later, whole, same, fun index element found => ?_⟩
          cases index with
          | zero =>
              cases found
              exact ⟨initial, rfl, combines.lasts whole standFirst⟩
          | succ index =>
              obtain ⟨meaning, folded, stand⟩ := others index element found
              refine ⟨meaning, ?_, stand⟩
              rw [List.take_succ_cons, List.foldlM_cons, combined]
              exact folded

/-- If the items combine to something, there are answers, and the last accumulator stands for it. -/
theorem exists_feeds {final : α} (folded : meanings.foldlM combine initial = some final) :
    ∃ answers later, Feeds host function (fun last item => [last, item]) { base with heap := heap }
        first rest answers { base with heap := later } ∧
      stands later ((first :: answers).getLast (List.cons_ne_nil _ _)) final := by
  induction meanings generalizing heap first rest initial with
  | nil =>
      cases standRest
      cases folded
      exact ⟨[], heap, .nil _ _, standFirst⟩
  | cons second meanings inductionHypothesis =>
      obtain _ | ⟨standItem, standRest⟩ := standRest
      rw [List.foldlM_cons] at folded
      obtain ⟨third, combined, folded⟩ := Option.bind_eq_some_iff.mp folded
      obtain ⟨answer, middle, growsMiddle, standAnswer, gives⟩ :=
        combines.answers grows standFirst standItem combined
      obtain ⟨answers, later, feeds, stand⟩ := inductionHypothesis (grows.trans growsMiddle)
        standAnswer (standRest.imp fun _ _ => combines.lasts growsMiddle) folded
      exact ⟨answer :: answers, later, .cons gives feeds, stand⟩

end Combines

/-- A state that differs from another one by further cells, in which a container and perhaps a start
stand for something. -/
structure Standing {α : Type} (stands : Heap → Value → α → Prop) (base state : State)
    (container : Value) (start : Option Value) (initial : Option α) (meanings : List α) : Prop where
  grows : base.heap.Grows state.heap
  only : state = { base with heap := state.heap }
  starts : Option.Rel (stands state.heap) start initial
  items : ∃ (β : Type) (kind : RowKind β) (entries : List β),
    state.heap.IsRow kind container entries ∧
    List.Forall₂ (stands (kind.unpacked entries state.heap)) (kind.items entries state.heap)
      meanings

namespace Standing

variable {α : Type} {host : Host} (tame : host.Tame) {function container : Value}
  {base state : State} {stands : Heap → Value → α → Prop} {combine : α → α → Option α}
  (combines : Combines host function base stands combine) {start : Option Value}
  {initial : Option α} {meanings : List α}
  (standing : Standing stands base state container start initial meanings)
include tame combines standing

/-- What a fold begins with and goes on with stands for what the meanings begin and go on with. -/
private theorem begun : ∃ (heap : Heap) (items : List Value), base.heap.Grows heap ∧
    Option.Rel (stands heap) start initial ∧ List.Forall₂ (stands heap) items meanings ∧
    ∀ {handle : Nat} {history : Bool} {result : EStateM.Result Failure State Value},
      (state.heap.builtin handle).action = .native (.fold history) →
      (Eval.Gives host (.application (.builtin handle) (function :: container :: start.toList))
          state result ↔
        (Walker.fold history start).Walks host function items { base with heap := heap }
          result) := by
  obtain ⟨grows, only, starts, β, kind, entries, row, stand⟩ := standing
  have further := kind.grows_unpacked entries state.heap
  refine ⟨kind.unpacked entries state.heap, kind.items entries state.heap, grows.trans further, ?_,
    stand, fun {handle history result} action => ?_⟩
  · cases starts with
    | some stand => exact .some (combines.lasts further stand)
    | none => exact .none
  · have taken : taking kind entries state =
        { base with heap := kind.unpacked entries state.heap } := by
      unfold taking
      rw [only]
    rw [← taken]
    exact gives_walk_iff tame (.fold history start) combines.callable row action result

variable {handle : Nat}

/-- Each element of a history stands for what the items up to there combine to. -/
theorem accumulated (action : (state.heap.builtin handle).action = .native (.fold true))
    {place : Nat} {reached : State}
    (gives : Eval.Gives host
      (.application (.builtin handle) (function :: container :: start.toList)) state
      (.ok (.list place) reached))
    {index : Nat} {element : Value} (found : (reached.heap.list place)[index]? = some element) :
    ∃ first others meaning, beginning initial meanings = some (first, others) ∧
      (others.take index).foldlM combine first = some meaning ∧
      stands reached.heap element meaning := by
  obtain ⟨heap, items, grows, starts, stand, walks⟩ := standing.begun tame combines
  have walked := (walks action).mp gives
  obtain ⟨begins, -⟩ | ⟨first, rest, meaning, others, begins, begins', standFirst, standRest⟩ :=
    beginning_forall₂ starts stand
  · cases ((Walker.fold true start).walks_of_none begins).mp walked
  · obtain ⟨answers, after, feeds, same⟩ | ⟨_, _, _, same⟩ :=
      ((Walker.fold true start).walks_of_some begins).mp walked
    · cases same
      obtain ⟨later, -, rfl, each⟩ := combines.of_feeds grows standFirst standRest tame feeds
      rw [← Array.getElem?_toList, State.list_listed] at found
      obtain ⟨value, folded, standElement⟩ := each index element found
      exact ⟨_, _, value, begins', folded, combines.lasts (.push_list later _) standElement⟩
    · cases same

/-- If the items combine to something, the last accumulator is an answer that stands for it. -/
theorem reduced (action : (state.heap.builtin handle).action = .native (.fold false))
    {first final : α} {others : List α} (begins : beginning initial meanings = some (first, others))
    (folded : others.foldlM combine first = some final) :
    ∃ value reached,
      Eval.Gives host (.application (.builtin handle) (function :: container :: start.toList)) state
        (.ok value reached) ∧
      stands reached.heap value final := by
  obtain ⟨heap, items, grows, starts, stand, walks⟩ := standing.begun tame combines
  obtain ⟨-, none⟩ | ⟨first', rest, _, _, begins', same, standFirst, standRest⟩ :=
    beginning_forall₂ starts stand
  · cases none.symm.trans begins
  · cases begins.symm.trans same
    obtain ⟨answers, later, feeds, standFinal⟩ := combines.exists_feeds grows standFirst standRest
      folded
    have walked := ((Walker.fold false start).walks_of_some begins').mpr
      (.inl ⟨answers, _, feeds, rfl⟩)
    exact ⟨_, _, (walks action).mpr walked, standFinal⟩

end Standing

/-! ## The two folds -/

/-- A fold with a start has one accumulator more than its container has entries, and a fold without
one has as many. -/
theorem Course.length {host : Host} {function container : Value} {start : Option Value}
    {state after : State} {first : Value} {answers : List Value}
    (course : Course host function container start state (.done first answers) after)
    {α : Type} {kind : RowKind α} {entries : List α}
    (row : state.heap.IsRow kind container entries) :
    (first :: answers).length = entries.length + start.toList.length := by
  obtain _ | _ | _ | @⟨β, kind', entries', _, rest, _, _, callable, row', begins, feeds⟩ := course
  rw [List.length_cons, feeds.length_eq, length_of_beginning begins, RowKind.length_items,
    row'.length_unique row]

section Agreement

variable {host : Host} (tame : host.Tame) {state : State} {handles : Bool → Nat}
include tame

/-- The two folds go the same way: how one goes says for either what it comes to, also in a scope
further out. So they apply the callable to the same arguments in the same order, leave the same
behind, except for a new list, and fail alike, except for their name in what they say about their
arguments. One answers the last accumulator, the other all, which are as many as the entries of the
container, and one more with a start.

If the callable has no effects and its answers depend on nothing but its arguments, each accumulator
stands for what the fold of the items up to there answers. -/
theorem folds_agree
    (actions : ∀ history, (state.heap.builtin (handles history)).action = .native (.fold history))
    (function : Value) {container : Value} (holds : state.heap.Holds container)
    (start : Option Value) :
    let arguments := function :: container :: start.toList
    (∀ history result,
      Eval.Gives host (.application (.builtin (handles history)) arguments) state result ↔
        ∃ ending after, Course host function container start state ending after ∧
          result = ending.answer history after) ∧
    (∀ history steps result,
      Eval.Gives host (.scopedApplication steps (.builtin (handles history)) arguments) state
          result ↔
        ∃ ending after, Course host function container start (state.outward steps) ending after ∧
          result = leaving (state.back steps) (ending.answer history after)) ∧
    (∀ {first : Value} {answers : List Value} {after : State},
      Course host function container start state (.done first answers) after →
        ∀ {α : Type} {kind : RowKind α} {entries : List α},
          state.heap.IsRow kind container entries →
          (first :: answers).length = entries.length + start.toList.length) ∧
    ∀ {α : Type} {base other : State} {stands : Heap → Value → α → Prop}
      {combine : α → α → Option α} {initial : Option α} {meanings : List α} {front : Value}
      {start' : Option Value} {place index : Nat} {reached : State} {element : Value},
      Combines host function base stands combine →
      Standing stands base state container start initial meanings →
      Standing stands base other front start' initial (meanings.take (through initial index)) →
      (other.heap.builtin (handles false)).action = .native (.fold false) →
      Eval.Gives host (.application (.builtin (handles true)) arguments) state
        (.ok (.list place) reached) →
      (reached.heap.list place)[index]? = some element →
      ∃ value after meaning,
        Eval.Gives host
          (.application (.builtin (handles false)) (function :: front :: start'.toList)) other
          (.ok value after) ∧
        stands reached.heap element meaning ∧ stands after.heap value meaning := by
  intro arguments
  refine ⟨fun history result => ?_, fun history steps result => ?_, Course.length, ?_⟩
  · exact (gives_native_iff (actions history)).trans (comes_fold_iff tame holds)
  · refine (gives_native_around_iff (actions history) tame steps).trans ?_
    have holdsOutward : (state.outward steps).heap.Holds container := holds
    constructor
    · rintro ⟨inner, comes, rfl⟩
      obtain ⟨ending, after, course, rfl⟩ := (comes_fold_iff tame holdsOutward).mp comes
      exact ⟨ending, after, course, rfl⟩
    · rintro ⟨ending, after, course, rfl⟩
      exact ⟨_, (comes_fold_iff tame holdsOutward).mpr ⟨ending, after, course, rfl⟩, rfl⟩
  · intro α base other stands combine initial meanings front start' place index reached element
      combines standing standing' action gives found
    obtain ⟨first, others, meaning, begins, folded, stand⟩ :=
      standing.accumulated tame combines (actions true) gives found
    obtain ⟨value, after, gives', stand'⟩ :=
      standing'.reduced tame combines action (beginning_take begins index) folded
    exact ⟨value, after, meaning, gives', stand, stand'⟩

end Agreement

/-- Joining texts has no effects. -/
theorem combines_concat {host : Host} {base : State} {handle : Nat} {name : String}
    (cell : base.heap.builtins[handle]? = some ⟨name, .native .concat⟩) :
    Combines host (.builtin handle) base Heap.IsText
      fun first second => some (first ++ second) where
  callable := rfl
  lasts := by
    rintro heap later value content grows ⟨handle, rfl, cell⟩
    exact ⟨handle, rfl, Heap.getElem?_of_prefixed grows.texts cell⟩
  answers := by
    rintro heap _ _ first second _ grows ⟨left, rfl, cellLeft⟩ ⟨right, rfl, cellRight⟩ ⟨⟩
    have action : (heap.builtin handle).action = .native .concat := by
      rw [Heap.builtin, OnHeap.getD_of_getElem? (Heap.getElem?_of_prefixed grows.builtins cell)]
    have joined : String.join ([left, right].map heap.text) = first ++ second := by
      simp [String.join, Heap.text, OnHeap.getD_of_getElem? cellLeft,
        OnHeap.getD_of_getElem? cellRight]
    have ran (interpreter : Interpreter) :
        callNative interpreter .concat [.text left, .text right] { base with heap := heap } =
          .ok (.text heap.texts.size) { base with
            heap := { heap with texts := heap.texts.push (first ++ second) } } := by
      rw [← joined]
      rfl
    exact ⟨_, _, .push_text heap _, ⟨_, rfl, Array.getElem?_push_size⟩,
      (gives_native_iff action).mpr ⟨0, ran _, fun _ stopped => by cases stopped⟩⟩
  fails _ _ _ uncombined := by cases uncombined

/-- Texts are joined, from `"x"` through the characters of `"ab"` and of `"a"`. -/
theorem folds_agree_joining :
    let host := CommandLine.host (CommandLine.listedFiles [])
    let withTexts (texts : Array String) : State := { State.initial .empty .empty with
      heap := { Heap.empty with
        texts := texts
        builtins := #[⟨"reduce", .native (.fold false)⟩, ⟨"accumulate", .native (.fold true)⟩,
          ⟨"concat", .native .concat⟩] } }
    let state := withTexts #["x", "ab", "a"]
    let accumulated := (withTexts #["x", "ab", "a", "a", "b", "xa", "xab"]).listed
      [.text 0, .text 5, .text 6]
    Eval.Gives host (.application (.builtin 1) [.builtin 2, .text 1, .text 0]) state
        (.ok (.list 0) accumulated) ∧
      ∃ value after,
        Eval.Gives host (.application (.builtin 0) [.builtin 2, .text 2, .text 0]) state
          (.ok value after) ∧
        after.heap.IsText value "xa" := by
  intro host withTexts state accumulated
  have gives : Eval.Gives host (.application (.builtin 1) [.builtin 2, .text 1, .text 0]) state
      (.ok (.list 0) accumulated) := ⟨2, rfl, nofun⟩
  have found : (accumulated.heap.list 0)[1]? = some (.text 5) := rfl
  have combines : Combines host (.builtin 2) state Heap.IsText _ := combines_concat rfl
  have isText (heap : Heap) {handle : Nat} {content : String}
      (cell : heap.texts[handle]? = some content) : heap.IsText (.text handle) content :=
    ⟨handle, rfl, cell⟩
  have whole : Standing Heap.IsText state state (.text 1) (some (.text 0)) (some "x") ["a", "b"] :=
    ⟨.refl _, rfl, .some (isText _ rfl), Char, .text, ['a', 'b'], .ofList rfl,
      .cons (isText _ rfl) (.cons (isText _ rfl) .nil)⟩
  have front : Standing Heap.IsText state state (.text 2) (some (.text 0)) (some "x") ["a"] :=
    ⟨.refl _, rfl, .some (isText _ rfl), Char, .text, ['a'], .ofList rfl,
      .cons (isText _ rfl) .nil⟩
  let handles (history : Bool) : Nat := if history then 1 else 0
  have actions (history : Bool) :
      (state.heap.builtin (handles history)).action = .native (.fold history) := by
    cases history <;> rfl
  have holds : state.heap.Holds (.text 1) := Nat.lt_add_one_of_le (Nat.le_succ 1)
  obtain ⟨-, -, -, fronts⟩ := folds_agree (Host.tame_commandLine (CommandLine.listedFiles []))
    actions (.builtin 2) holds (some (.text 0))
  obtain ⟨value, after, meaning, gives', ⟨handle, same, cell⟩, stand⟩ :=
    fronts combines whole front rfl gives found
  cases same
  cases cell
  exact ⟨gives, value, after, gives', stand⟩

end Folding

end Fixity
