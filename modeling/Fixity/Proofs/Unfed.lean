import Fixity.Proofs.Feeding
import Fixity.Proofs.Indifference

/-!
Contract: items that wait for their turn.

Owns:
- `RowKind.Stands`, what an item of a container stands for;
- that cells which no handle leads to stay as they are while a callable is fed items;
- `Folding.walks_snapshot`: a function that walks a container feeds its callable the items that the
  container holds when the function is called, and nothing the callable does changes that.

Does not own: what the functions make of the answers.
-/

namespace Fixity

open Eval

/-! ## What items stand for -/

namespace RowKind

variable {α : Type} {kind : RowKind α} {heap : Heap}

/-- What an item stands for: itself if it is in a list, the character that is all of a text, or the
tree that is a child. -/
inductive Stands (heap : Heap) : {α : Type} → RowKind α → Value → α → Prop
  | list (value : Value) : Stands heap .list value value
  | text {handle : Nat} {character : Char}
      (cell : heap.texts[handle]? = some character.toString) :
      Stands heap .text (.text handle) character
  | listTree {handle : Nat} {tree : Node} (cell : heap.nodes[handle]? = some tree) :
      Stands heap .listTree (.node handle) tree
  | bodyTree {handle : Nat} {tree : Node} (cell : heap.nodes[handle]? = some tree) :
      Stands heap .bodyTree (.node handle) tree

private theorem forall₂_range' {stands : Value → α → Prop} {make : Nat → Value} (start : Nat)
    (entries : List α)
    (each : ∀ index entry, entries[index]? = some entry → stands (make (start + index)) entry) :
    List.Forall₂ stands ((List.range' start entries.length).map make) entries := by
  induction entries generalizing start with
  | nil => exact .nil
  | cons entry rest inductionHypothesis =>
      rw [List.length_cons, List.range'_succ, List.map_cons]
      refine .cons (each 0 entry rfl) (inductionHypothesis (start + 1) fun index other found => ?_)
      rw [Nat.add_assoc, Nat.add_comm 1]
      exact each (index + 1) other found

/-- Items stand for the entries of their row wherever the cells made for them are as they were
made. -/
theorem items_stand {entries : List α} {later : Heap}
    (texts : ∀ index text,
      (kind.unpacked entries heap).texts[heap.texts.size + index]? = some text →
        later.texts[heap.texts.size + index]? = some text)
    (nodes : ∀ index tree,
      (kind.unpacked entries heap).nodes[heap.nodes.size + index]? = some tree →
        later.nodes[heap.nodes.size + index]? = some tree) :
    List.Forall₂ (kind.Stands later) (kind.items entries heap) entries := by
  have behind {β : Type} (cells : Array β) (further : List β) (index : Nat) :
      (cells ++ further.toArray)[cells.size + index]? = further[index]? := by
    rw [Array.getElem?_append_right (Nat.le_add_right _ _), Nat.add_sub_cancel_left,
      List.getElem?_toArray]
  cases kind with
  | list => exact List.forall₂_same.mpr fun value _ => .list value
  | text =>
      refine forall₂_range' _ entries fun index character found => .text (texts index _ ?_)
      refine (behind _ _ _).trans ?_
      rw [List.getElem?_map, found]
      rfl
  | listTree =>
      exact forall₂_range' _ entries fun index tree found =>
        .listTree (nodes index tree ((behind _ _ _).trans found))
  | bodyTree =>
      exact forall₂_range' _ entries fun index tree found =>
        .bodyTree (nodes index tree ((behind _ _ _).trans found))

theorem grows_unpacked (kind : RowKind α) (entries : List α) (heap : Heap) :
    heap.Grows (kind.unpacked entries heap) := by
  cases kind with
  | list => exact .refl heap
  | text => exact { Heap.Grows.refl heap with texts := by simp [unpacked] }
  | listTree => exact { Heap.Grows.refl heap with nodes := by simp [unpacked] }
  | bodyTree => exact { Heap.Grows.refl heap with nodes := by simp [unpacked] }

theorem unpacked_append (kind : RowKind α) (earlier later : List α) (heap : Heap) :
    kind.unpacked (earlier ++ later) heap = kind.unpacked later (kind.unpacked earlier heap) := by
  cases kind <;> simp [unpacked]

theorem items_append (kind : RowKind α) (earlier later : List α) (heap : Heap) :
    kind.items (earlier ++ later) heap =
      kind.items earlier heap ++ kind.items later (kind.unpacked earlier heap) := by
  cases kind <;> simp [items, unpacked, ← List.range'_append_1]

theorem length_items (kind : RowKind α) (entries : List α) (heap : Heap) :
    (kind.items entries heap).length = entries.length := by
  cases kind <;> simp [items]

end RowKind

/-! ## Feeding with cells that no handle leads to -/

/-- The cells behind all others of a heap are found where they are, wherever the others are. -/
private theorem Gap.getElem?_grown {α : Type} {start index : Nat} {cells later : Array α} {cell : α}
    (fits : start ≤ later.size) (found : cells[start + index]? = some cell) :
    (Gap.widen ⟨start, cells.toList.drop start⟩ later)[start + index]? = some cell := by
  let gap : Gap α := ⟨start, cells.toList.drop start⟩
  have there : gap.cells[index]? = some cell := by
    rw [List.getElem?_drop, Array.getElem?_toList, found]
  have inside : index < gap.cells.length := (List.getElem?_eq_some_iff.mp there).1
  exact (gap.getElem?_further fits inside).trans there

section Hidden

variable {host : Host} (unaware : host.Unaware) {function : Value} {walker : Folding.Walker}

theorem Folding.Walker.applied_relocate (r : Relocation) (walker : Folding.Walker)
    (last item : Value) :
    walker.applied (relocate r last) (relocate r item) = relocate r (walker.applied last item) := by
  cases walker <;> rfl

theorem Folding.Walker.held_applied (walker : Folding.Walker) {heap : Heap} {last item : Value}
    (heldLast : Held heap last) (heldItem : Held heap item) :
    Held heap (walker.applied last item) := by
  have single : Held heap [item] := Relocation.held_cons heldItem fun _ member => by cases member
  cases walker with
  | map | filter => exact single
  | fold => exact Relocation.held_cons heldLast single

include unaware

/-- From a state with further cells that nothing given leads to, one application after the other
leads to a state that has them still. -/
theorem Eval.Feeds.relocated {r : Relocation} (uncounted : r.calls = 0) {shadow after : State}
    (suits : r.Suits shadow) {last : Value} {items answers : List Value}
    (heldFunction : Held shadow.heap function) (heldLast : Held shadow.heap last)
    (heldItems : Held shadow.heap items)
    (feeds : Feeds host (relocate r function) walker.applied (r.state shadow) (relocate r last)
      (relocate r items) answers after) :
    ∃ shadow', after = r.state shadow' ∧ r.Suits shadow' := by
  induction items generalizing shadow last answers with
  | nil =>
      cases feeds
      exact ⟨shadow, rfl, suits⟩
  | cons item rest inductionHypothesis =>
      obtain ⟨heldItem, heldRest⟩ := List.forall_mem_cons.mp heldItems
      obtain ⟨⟩ | @⟨_, middle, _, _, _, answer, _, answers, gives, onward⟩ := feeds
      obtain ⟨bound, ran, _⟩ := gives
      let request : Request := .application function (walker.applied last item)
      have heldRequest : Held shadow.heap request :=
        ⟨heldFunction, walker.held_applied heldLast heldItem⟩
      have tracked := Transfer.agree_uncounted (t := ⟨r, fun _ => False, fun _ => id⟩) uncounted
        unaware bound request shadow heldRequest suits
      rw [walker.applied_relocate] at ran
      have ran : run host bound (relocate r request) (r.state shadow) = .ok answer middle := ran
      rw [ran] at tracked
      -- No call is counted besides, so the shadow does not give up where the state goes on.
      generalize run host bound request shadow = inShadow at tracked
      cases tracked with
      | ok passes suits' held =>
          exact inductionHypothesis suits' (Relocates.later passes.heap heldFunction) held
            (Relocates.later passes.heap heldRest) onward

/-- Cells that were added to those of a state without dangling handles stay as they are while the
callable is given nothing that leads to them. -/
theorem Eval.Feeds.hidden {state after : State} (closed : state.Closed) {heap : Heap}
    (grows : state.heap.Grows heap) {last : Value} {items answers : List Value}
    (heldFunction : Held state.heap function) (heldLast : Held state.heap last)
    (heldItems : Held state.heap items)
    (feeds : Feeds host function walker.applied { state with heap := heap } last items answers
      after) :
    (∀ index text, heap.texts[state.heap.texts.size + index]? = some text →
      after.heap.texts[state.heap.texts.size + index]? = some text) ∧
    ∀ index tree, heap.nodes[state.heap.nodes.size + index]? = some tree →
      after.heap.nodes[state.heap.nodes.size + index]? = some tree := by
  let r := Relocation.growth state.heap heap 0
  have behind : state.heap.extent ≤ r.start := .refl _
  have begun : { state with heap := heap } = r.state state := (closed.grown grows 0).symm
  rw [begun, ← Relocates.unmoved behind heldFunction, ← Relocates.unmoved behind heldLast,
    ← Relocates.unmoved behind heldItems] at feeds
  obtain ⟨shadow, rfl, suits⟩ := feeds.relocated unaware rfl (closed.suits (.refl _)) heldFunction
    heldLast heldItems
  exact ⟨fun index text => Gap.getElem?_grown suits.fits.starts.texts,
    fun index tree => Gap.getElem?_grown suits.fits.starts.nodes⟩

end Hidden

/-! ## Items whose turn has not come -/

namespace Folding

section Waiting

variable {α : Type} {state : State} {kind : RowKind α} {container : Value} {entries : List α}
  (closed : state.Closed)
include closed

theorem closed_taking (kind : RowKind α) (entries : List α) :
    (taking kind entries state).Closed := by
  have within := (kind.grows_unpacked entries state.heap).within
  have outside : Held (taking kind entries state).heap state.scope ∧
      Held (taking kind entries state).heap state.outer :=
    ⟨Relocates.later within closed.scope, Relocates.later within closed.outer⟩
  refine ⟨?_, outside.1, outside.2⟩
  obtain ⟨lists, objects, functions, builtins⟩ := closed.heap
  cases kind <;> exact ⟨Relocates.later within lists, Relocates.later within objects,
    Relocates.later within functions, Relocates.later within builtins⟩

/-- The items in front of a place have cells when the cells up to there have been made. -/
theorem held_items (row : state.heap.IsRow kind container entries) {earlier : List α}
    (front : earlier <+: entries) :
    Held (taking kind earlier state).heap (kind.items earlier state.heap) := by
  have inRange {start count : Nat} {handle : Nat} (member : handle ∈ List.range' start count) :
      handle < start + count := by
    rw [List.mem_range'_1] at member
    omega
  intro value member
  cases row with
  | list cell =>
      exact closed.heap.lists _ (Array.mem_of_getElem? cell) value
        (Array.mem_toList_iff.mp (front.subset member))
  | text cell =>
      obtain ⟨handle, made, rfl⟩ := List.mem_map.mp member
      show handle < (state.heap.texts ++ _).size
      simpa using inRange made
  | listTree cell | bodyTree cell =>
      obtain ⟨handle, made, rfl⟩ := List.mem_map.mp member
      show handle < (state.heap.nodes ++ _).size
      simpa using inRange made

variable {host : Host} (unaware : host.Unaware) {function : Value} {walker : Walker}
  (heldFunction : Held state.heap function)
include unaware heldFunction

/-- The items behind those that the callable has been given stand for their entries still. -/
theorem waiting_stand (row : state.heap.IsRow kind container entries) {before waiting : List Value}
    (whole : kind.items entries state.heap = before ++ waiting) {first : Value} {front : List Value}
    (heldFirst : Held state.heap first ∨ first ∈ before) (given : front ⊆ before)
    {answers : List Value} {middle : State}
    (feeds : Feeds host function walker.applied (taking kind entries state) first front answers
      middle) :
    List.Forall₂ (kind.Stands middle.heap) waiting (entries.drop before.length) := by
  -- The cells of the waiting items are made last: in the state before that, nothing leads to them.
  let earlier := entries.take before.length
  let later := entries.drop before.length
  let shadow := taking kind earlier state
  have parts : entries = earlier ++ later := (List.take_append_drop _ _).symm
  have count : before.length ≤ entries.length := by
    rw [← kind.length_items entries state.heap, whole, List.length_append]
    omega
  obtain ⟨sameBefore, sameWaiting⟩ : kind.items earlier state.heap = before ∧
      kind.items later shadow.heap = waiting := by
    rw [parts, RowKind.items_append] at whole
    refine List.append_inj whole ?_
    rw [RowKind.length_items]
    exact List.length_take_of_le count
  have within := (kind.grows_unpacked earlier state.heap).within
  have heldBefore : Held shadow.heap before := by
    rw [← sameBefore]
    exact held_items closed row (List.take_prefix _ _)
  have begun : taking kind entries state =
      { shadow with heap := kind.unpacked later shadow.heap } := by
    conv => lhs; rw [parts]
    unfold taking
    rw [RowKind.unpacked_append]
    rfl
  rw [begun] at feeds
  obtain ⟨texts, nodes⟩ := feeds.hidden unaware (closed_taking closed kind earlier)
    (kind.grows_unpacked later shadow.heap) (Relocates.later within heldFunction)
    (heldFirst.elim (Relocates.later within) (heldBefore first))
    fun item member => heldBefore item (given member)
  rw [← sameWaiting]
  exact RowKind.items_stand texts nodes

/-- While a container is walked, the items whose turn has not come stand for the entries that the
container had when the walk began. -/
theorem walked_stand (row : state.heap.IsRow kind container entries)
    (heldStart : Held state.heap walker.start) {first : Value} {fed front waiting : List Value}
    (begins : walker.begin (kind.items entries state.heap) = some (first, fed))
    (parts : fed = front ++ waiting) {answers : List Value} {middle : State}
    (feeds : Feeds host function walker.applied (taking kind entries state) first front answers
      middle) :
    List.Forall₂ (kind.Stands middle.heap) waiting
      (entries.drop (entries.length - waiting.length)) := by
  subst parts
  have stand {before : List Value} (whole : kind.items entries state.heap = before ++ waiting)
      (heldFirst : Held state.heap first ∨ first ∈ before) (given : front ⊆ before) :
      List.Forall₂ (kind.Stands middle.heap) waiting
        (entries.drop (entries.length - waiting.length)) := by
    have count := congrArg List.length whole
    rw [RowKind.length_items, List.length_append] at count
    have place : entries.length - waiting.length = before.length := by omega
    rw [place]
    exact waiting_stand closed unaware heldFunction row whole heldFirst given feeds
  obtain ⟨whole, rfl | start⟩ | whole := Walker.begin_eq_some begins
  · exact stand whole (.inl trivial) (List.Subset.refl _)
  · exact stand whole (.inl (heldStart first start)) (List.Subset.refl _)
  · rw [← List.cons_append] at whole
    exact stand whole (.inr List.mem_cons_self) (List.subset_cons_self _ _)

end Waiting

section Snapshot

variable {α : Type} {host : Host} (tame : host.Tame) (unaware : host.Unaware) {state : State}
  (walker : Walker) {handle : Nat} {function container : Value} {kind : RowKind α}
  {entries : List α}
include tame unaware

/-- A function that walks a container feeds its callable, which can be anything, the items that the
container holds when the function is called, in the state that has cells for them and otherwise is
the one of the call, or the one in a scope further out. It goes on until the first failure, which is
what it comes to, and otherwise makes something of all answers.

The items stand for the entries of the container when the walk begins, and each of them still does
so when its turn comes, whatever the callable has done with those before, as long as no handle
dangled. -/
theorem walks_snapshot
    (action : (state.heap.builtin handle).action = .native walker.native)
    (callable : function.isCallable) (row : state.heap.IsRow kind container entries) :
    let items := kind.items entries state.heap
    let arguments := walker.arguments function container
    (∀ result, Eval.Gives host (.application (.builtin handle) arguments) state result ↔
      walker.Walks host function items (taking kind entries state) result) ∧
    (∀ steps result,
      Eval.Gives host (.scopedApplication steps (.builtin handle) arguments) state result ↔
        ∃ inner,
          walker.Walks host function items (taking kind entries (state.outward steps)) inner ∧
          result = leaving (state.back steps) inner) ∧
    List.Forall₂ (kind.Stands (taking kind entries state).heap) items entries ∧
    (state.Closed → Held state.heap function → Held state.heap walker.start →
      ∀ {steps : Nat} {first : Value} {front waiting answers : List Value} {middle : State},
        walker.begin items = some (first, front ++ waiting) →
        Feeds host function walker.applied (taking kind entries (state.outward steps)) first front
          answers middle →
        List.Forall₂ (kind.Stands middle.heap) waiting
          (entries.drop (entries.length - waiting.length))) := by
  intro items arguments
  refine ⟨gives_walk_iff tame walker callable row action,
    gives_walk_around_iff tame walker callable row action,
    RowKind.items_stand (fun _ _ found => found) fun _ _ found => found, ?_⟩
  intro closed heldFunction heldStart steps first front waiting answers middle begins feeds
  have around := Transfer.held_ascend steps closed.scope closed.outer
  have closedOutward : (state.outward steps).Closed := ⟨closed.heap, around.2.1, around.2.2⟩
  have rowOutward : (state.outward steps).heap.IsRow kind container entries := row
  exact walked_stand closedOutward unaware heldFunction rowOutward heldStart begins rfl feeds

end Snapshot

/-- A list that holds itself twice is walked with `pop`, which empties it meanwhile. -/
theorem walks_snapshot_emptied :
    let host := CommandLine.host (CommandLine.listedFiles [])
    let withLists (lists : Array (Array Value)) : State := { State.initial .empty .empty with
      heap := { Heap.empty with
        lists := lists
        builtins := #[⟨"map", .native .map⟩, ⟨"pop", .native .pop⟩] } }
    let state := withLists #[#[.list 0, .list 0]]
    state.Closed ∧
      Eval.Gives host (.application (.builtin 0) [.builtin 1, .list 0]) state
        (.ok (.list 1) (withLists #[#[], #[.list 0, .list 0]])) ∧
      Feeds host (.builtin 1) Walker.map.applied state .zero [.list 0] [.list 0]
        (withLists #[#[.list 0]]) ∧
      List.Forall₂ (RowKind.list.Stands (withLists #[#[.list 0]]).heap) [.list 0] [.list 0] := by
  intro host withLists state
  have closed : state.Closed := by
    have held : Held state.heap state.heap.lists := by
      intro elements member value element
      rw [List.mem_singleton.mp (Array.mem_toList_iff.mpr member)] at element
      obtain rfl : value = .list 0 := by simpa using element
      exact Nat.one_pos
    have heldBuiltins : Held state.heap state.heap.builtins := by
      intro builtin member
      obtain rfl | rfl := List.mem_pair.mp (Array.mem_toList_iff.mpr member) <;> exact trivial
    exact ⟨⟨held, fun _ member => absurd member (Array.not_mem_empty _),
      fun _ member => absurd member (Array.not_mem_empty _), heldBuiltins⟩,
      ⟨fun _ _ found => (by cases found), fun _ _ found => (by cases found)⟩,
      fun _ member => by cases member⟩
  have first : Eval.Gives host (.application (.builtin 1) [.list 0]) state
      (.ok (.list 0) (withLists #[#[.list 0]])) := ⟨1, rfl, nofun⟩
  have second : Eval.Gives host (.application (.builtin 1) [.list 0]) (withLists #[#[.list 0]])
      (.ok (.list 0) (withLists #[#[]])) := ⟨1, rfl, nofun⟩
  have feeds : Feeds host (.builtin 1) Walker.map.applied state .zero [.list 0] [.list 0]
      (withLists #[#[.list 0]]) := .cons first (.nil _ _)
  have action : (state.heap.builtin 0).action = .native Walker.map.native := rfl
  have callable : (Value.builtin 1).isCallable := rfl
  have row : state.heap.IsRow .list (.list 0) [.list 0, .list 0] := .ofArray rfl
  obtain ⟨gives, -, -, waits⟩ := walks_snapshot
    (Host.tame_commandLine (CommandLine.listedFiles []))
    (Host.unaware_commandLine (CommandLine.listedFiles [])) .map action callable row
  have heldFunction : Held state.heap (Value.builtin 1) := Nat.one_lt_two
  have begins : Walker.map.begin [.list 0, .list 0] = some (.zero, [.list 0] ++ [.list 0]) := rfl
  have fed : Feeds host (.builtin 1) Walker.map.applied
      (taking .list [.list 0, .list 0] (state.outward 0)) .zero [.list 0] [.list 0]
      (withLists #[#[.list 0]]) := feeds
  exact ⟨closed, (gives _).mpr (.inl ⟨_, _, .cons first (.cons second (.nil _ _)), rfl⟩), feeds,
    waits closed heldFunction nofun begins fed⟩

end Folding

end Fixity
