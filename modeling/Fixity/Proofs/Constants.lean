import Mathlib.Data.List.Forall2
import Fixity.Proofs.Copies
import Fixity.Proofs.Stepwise

/-!
Contract: evaluation that does nothing but add cells.

Owns:
- `Eval.Yields`, the actions that end with a value and have only added cells;
- numbers, texts without splices, lists and quotes, which do if what they hold does;
- sources of one statement, which do what it does.

Does not own: the values of names and operations.
-/

namespace Fixity.Eval

variable {α ι : Type} {state : State}

/-- An action ends with a value and has only added cells. -/
def Yields (Shows : Heap → α → Prop) (action : Eval α) (state : State) : Prop :=
  ∃ value later, action state = .ok value { state with heap := later } ∧
    state.heap.Grows later ∧ Shows later value

theorem Yields.of_eq {Shows : Heap → α → Prop} {action action' : Eval α}
    (same : action state = action' state) (yields : Yields Shows action' state) :
    Yields Shows action state := by
  obtain ⟨value, heap, ran, rest⟩ := yields
  exact ⟨value, heap, same.trans ran, rest⟩

/-- One action that only adds cells, and another one after it. -/
theorem Yields.bind {β : Type} {Shows : Heap → α → Prop} {Shows' : Heap → β → Prop}
    {action : Eval α} {next : α → Eval β} (yields : Yields Shows action state)
    (continued : ∀ value heap, state.heap.Grows heap → Shows heap value →
      Yields Shows' (next value) { state with heap := heap }) :
    Yields Shows' (action >>= next) state := by
  obtain ⟨value, heap, ran, grows, shows⟩ := yields
  obtain ⟨result, later, went, grows', shows'⟩ := continued value heap grows shows
  exact ⟨result, later, (bind_of_ok ran).trans went, grows.trans grows', shows'⟩

/-- A row of actions that end with values, each of which goes on to show what it does. -/
theorem Yields.mapM {Shows : ι → Heap → α → Prop} {action : ι → Eval α} {items : List ι}
    {source : Heap}
    (kept : ∀ item heap later value, Shows item heap value → heap.Grows later →
      Shows item later value)
    (each : ∀ item ∈ items, ∀ later, source.Grows later →
      Yields (Shows item) (action item) { state with heap := later })
    (grown : source.Grows state.heap) :
    Yields (fun later => List.Forall₂ (fun item value => Shows item later value) items)
      (items.mapM action) state := by
  induction items generalizing state with
  | nil => exact ⟨[], state.heap, rfl, .refl _, .nil⟩
  | cons item rest inductionHypothesis =>
      have first : Yields (Shows item) (action item) state :=
        each item List.mem_cons_self state.heap grown
      rw [List.mapM_cons]
      refine first.bind fun value middle grows shows => ?_
      have others : ∀ other ∈ rest, ∀ later, source.Grows later →
          Yields (Shows other) (action other) { state with heap := later } :=
        fun other member => each other (List.mem_cons_of_mem item member)
      have remaining : Yields _ (rest.mapM action) { state with heap := middle } :=
        inductionHypothesis others (grown.trans grows)
      refine remaining.bind fun values later grows' row => ?_
      exact ⟨value :: values, later, rfl, .refl later,
        .cons (kept item middle later value shows grows') row⟩

section Trees

variable {host : Host} {bound : Nat} {Shows : Heap → Value → Prop}

theorem yields_number {content : Number} (shows : Shows state.heap (.number content)) :
    Yields Shows ((run host (bound + 1)).eval (.number content)) state :=
  ⟨.number content, state.heap, rfl, .refl _, shows⟩

theorem yields_text {source content : String}
    (shows : Shows { state.heap with texts := state.heap.texts.push content }
      (.text state.heap.texts.size)) :
    Yields Shows ((run host (bound + 1)).eval (.text source [.literal content])) state := by
  refine ⟨_, _, ?_, .push_text state.heap content, shows⟩
  have written : splice (run host bound) "" [.literal content] state = .ok content state := by
    show EStateM.Result.ok ("" ++ content) state = _
    rw [String.empty_append]
  exact bind_of_ok written

theorem yields_quoted {inner : Node}
    (shows : Shows { state.heap with nodes := state.heap.nodes.push inner }
      (.node state.heap.nodes.size)) :
    Yields Shows ((run host (bound + 1)).eval (.quoted inner)) state :=
  ⟨_, _, rfl, .push_node state.heap inner, shows⟩

/-- A list of trees that end with values, each of which goes on to show what it does. -/
theorem yields_list {Part : ι → Heap → Value → Prop} {tree : ι → Node} {items : List ι}
    {source : Heap}
    (kept : ∀ item heap later value, Part item heap value → heap.Grows later →
      Part item later value)
    (each : ∀ item ∈ items, ∀ reached : State, source.Grows reached.heap →
      Yields (Part item) ((run host bound).eval (tree item)) reached)
    (grown : source.Grows state.heap)
    (shows : ∀ heap values, source.Grows heap →
      List.Forall₂ (fun item value => Part item heap value) items values →
        Shows { heap with lists := heap.lists.push values.toArray } (.list heap.lists.size)) :
    Yields Shows ((run host (bound + 1)).eval (.list (items.map tree))) state := by
  obtain ⟨values, middle, ran, grows, row⟩ :=
    Yields.mapM kept (fun item member later grown => each item member _ grown) grown
  have trees : (items.mapM fun item => (run host bound).eval (tree item)) =
      (items.map tree).mapM (run host bound).eval := by
    rw [List.mapM_map]
    rfl
  rw [trees] at ran
  refine ⟨_, _, ?_, grows.trans (.push_list middle values.toArray),
    shows middle values (grown.trans grows) row⟩
  exact bind_of_ok ran

/-- A source of one statement. -/
theorem yields_source {text : String} {statement : Syntax.Statement} {node : Node}
    (divided : Syntax.tokenize state.scope.operators.levels.isGlyph text.toList = .ok [statement])
    (parsed : Syntax.parseStatement state.scope.operators.levels
      (Syntax.parseBody state.scope.operators.levels) statement.tokens = .ok node)
    (yields : Yields Shows ((run host bound).eval node) state) :
    Yields Shows (run host (bound + 1) (.source text)) state := by
  obtain ⟨value, later, ran, grows, shows⟩ := yields
  refine ⟨value, later, ?_, grows, shows⟩
  have lengths := (Syntax.tokenize_length divided statement List.mem_cons_self).2
  have agree : Syntax.AgreeBelow text.toList.length
      (Syntax.readerFor state.scope.operators.levels text.toList)
      (Syntax.parseBody state.scope.operators.levels) := Syntax.readerFor_agree (Nat.le_refl _)
  have read := (Syntax.parseStatement_congr agree lengths).trans parsed
  show source (run host bound) (text.length + 1) .zero text.toList state = _
  rw [source_succ, divided]
  refine (bind_of_ok rfl).trans ((statements_cons _ _ _ _ _ _).trans ?_)
  rw [read]
  refine (bind_of_ok rfl).trans ((bind_of_ok ran).trans ?_)
  exact if_pos rfl

end Trees

end Fixity.Eval
