import Mathlib.Data.List.Lex
import Fixity.Proofs.Broadcasting
import Fixity.Proofs.Constants

/-!
Contract: the trees of values, and the values of these trees.

Owns:
- `Heap.listed?`, what stands at a position of a value that leads through lists only;
- `Heap.Obstructs`, the positions at which a value has no tree, and the error at each;
- the tree of a value of numbers, texts and lists, which evaluates to a copy of the value.

Does not own: the tree of a value that holds trees.

Main statement: a value without objects, callables, trees and cycles has a tree, and its value is a
copy; any other value fails at the first position that obstructs, or has a tree if none does.
-/

namespace Fixity

/-! ## Positions in lists -/

/-- A value without a literal form. -/
def Value.Unliftable : Value → Prop
  | .object _ | .function _ | .builtin _ => True
  | .number _ | .text _ | .list _ | .node _ => False

namespace Heap

/-- What a list holds. -/
def elements (heap : Heap) : Value → List Value
  | .list handle => (heap.list handle).toList
  | _ => []

/-- What stands at a position of a value, if all above it are lists. -/
def listed? (heap : Heap) (value : Value) : List Nat → Option Value
  | [] => some value
  | index :: rest => (heap.elements value)[index]?.bind fun child => heap.listed? child rest

/-- A walk from left to right that sees a list before its elements comes to one position before it
comes to the other. -/
abbrev Before : List Nat → List Nat → Prop := List.Lex (· < ·)

/-- A position at which a value has no tree: an object or a callable, or a list inside itself. -/
inductive Obstructs (heap : Heap) (root : Value) : List Nat → RuntimeError → Prop
  | unliftable {position : List Nat} {inner : Value}
      (found : heap.listed? root position = some inner) (unliftable : inner.Unliftable) :
      Obstructs heap root position (.typeError (.notLiftable inner.typeName))
  | inside {position above below : List Nat} {handle : Nat} (whole : position = above ++ below)
      (deeper : below ≠ []) (outer : heap.listed? root above = some (.list handle))
      (found : heap.listed? root position = some (.list handle)) :
      Obstructs heap root position (.cyclicValue "place in a syntax tree")

/-- The position that a walk comes to first among those that obstruct. -/
structure FirstObstructs (heap : Heap) (root : Value) (position : List Nat) (error : RuntimeError) :
    Prop where
  obstructs : heap.Obstructs root position error
  first : ∀ other error', heap.Obstructs root other error' → ¬ Before other position

variable {heap : Heap} {root value child : Value} {position : List Nat} {path : Path}

theorem listed?_append (heap : Heap) (value : Value) (position more : List Nat) :
    heap.listed? value (position ++ more) =
      (heap.listed? value position).bind fun inner => heap.listed? inner more := by
  induction position generalizing value with
  | nil => rfl
  | cons index rest inductionHypothesis =>
      rw [List.cons_append, listed?, listed?, Option.bind_assoc]
      congr 1
      funext child
      exact inductionHypothesis child

/-- What stands in something else stands in a list. -/
theorem listed?_below {below : List Nat} {inner : Value} (deeper : below ≠ [])
    (found : heap.listed? value below = some inner) :
    ∃ handle, value = .list handle ∧ handle < heap.lists.size := by
  cases below with
  | nil => exact absurd rfl deeper
  | cons index rest =>
      obtain ⟨child, atIndex, _⟩ := Option.bind_eq_some_iff.mp found
      cases value with
      | list handle =>
          refine ⟨handle, rfl, ?_⟩
          by_contra absent
          have empty : heap.list handle = #[] := by simp [list, absent]
          simp [elements, empty] at atIndex
      | _ => cases atIndex

theorem Obstructs.found {error : RuntimeError} (obstructs : heap.Obstructs root position error) :
    ∃ inner, heap.listed? root position = some inner := by
  cases obstructs with
  | unliftable found _ => exact ⟨_, found⟩
  | inside _ _ _ found => exact ⟨_, found⟩

/-- One error for each position. -/
theorem Obstructs.unique {error error' : RuntimeError}
    (obstructs : heap.Obstructs root position error)
    (obstructs' : heap.Obstructs root position error') : error = error' := by
  cases obstructs with
  | unliftable found unliftable =>
      cases obstructs' with
      | unliftable found' _ => rw [Option.some.inj (found.symm.trans found')]
      | inside _ _ _ found' =>
          rw [Option.some.inj (found.symm.trans found')] at unliftable
          cases unliftable
  | inside _ _ _ found =>
      cases obstructs' with
      | unliftable found' unliftable =>
          rw [← Option.some.inj (found.symm.trans found')] at unliftable
          cases unliftable
      | inside => rfl

/-! ## The walk -/

/-- The lists that a walk has opened on its way to a position. -/
structure Opened (heap : Heap) (root : Value) (position : List Nat) (path : Path)
    (value : Value) : Prop where
  found : heap.listed? root position = some value
  distinct : path.Nodup
  above : ∀ container, container ∈ path ↔ ∃ handle above below, container = .list handle ∧
    position = above ++ below ∧ below ≠ [] ∧ heap.listed? root above = some (.list handle)

namespace Opened

theorem start (heap : Heap) (root : Value) : Opened heap root [] [] root where
  found := rfl
  distinct := .nil
  above := by
    intro container
    refine ⟨nofun, ?_⟩
    rintro ⟨handle, above, below, _, whole, deeper, _⟩
    exact absurd (List.append_eq_nil_iff.mp whole.symm).2 deeper

theorem length_le (opened : Opened heap root position path value) :
    path.length ≤ heap.lists.size := by
  have listed : path ⊆ (List.range heap.lists.size).map Container.list := by
    intro container member
    obtain ⟨handle, above, below, rfl, whole, deeper, outer⟩ := (opened.above container).mp member
    have found := opened.found
    rw [whole, listed?_append, outer] at found
    obtain ⟨_, same, bounded⟩ := listed?_below deeper found
    cases same
    exact List.mem_map_of_mem (List.mem_range.mpr bounded)
  have bound := (opened.distinct.subperm listed).length_le
  simpa using bound

/-- A list that is open already obstructs. -/
theorem obstructs {handle : Nat} (opened : Opened heap root position path (.list handle)) :
    Container.list handle ∈ path ↔
      heap.Obstructs root position (.cyclicValue "place in a syntax tree") := by
  rw [opened.above]
  constructor
  · rintro ⟨_, above, below, ⟨⟩, whole, deeper, outer⟩
    exact .inside whole deeper outer opened.found
  · intro obstructs
    cases obstructs with
    | inside whole deeper outer found =>
        cases opened.found.symm.trans found
        exact ⟨handle, _, _, rfl, whole, deeper, outer⟩

theorem descend {handle index : Nat} (opened : Opened heap root position path (.list handle))
    (fresh : Container.list handle ∉ path)
    (atIndex : (heap.list handle).toList[index]? = some child) :
    Opened heap root (position ++ [index]) (.list handle :: path) child where
  found := by
    rw [listed?_append, opened.found]
    show (heap.list handle).toList[index]?.bind _ = _
    rw [atIndex]
    rfl
  distinct := List.nodup_cons.mpr ⟨fresh, opened.distinct⟩
  above := by
    intro container
    rw [List.mem_cons, opened.above]
    constructor
    · rintro (rfl | ⟨other, above, below, rfl, rfl, _, outer⟩)
      · exact ⟨handle, position, [index], rfl, rfl, by simp, opened.found⟩
      · exact ⟨other, above, below ++ [index], rfl, by simp, by simp, outer⟩
    · rintro ⟨other, above, below, rfl, whole, deeper, outer⟩
      obtain rfl | ⟨between, last, rfl⟩ := List.eq_nil_or_concat' below
      · exact absurd rfl deeper
      rw [← List.append_assoc] at whole
      obtain ⟨rfl, _⟩ := List.append_inj' whole rfl
      by_cases top : between = []
      · rw [top, List.append_nil] at opened
        cases opened.found.symm.trans outer
        exact .inl rfl
      · exact .inr ⟨other, above, between, rfl, rfl, top, outer⟩

/-- Below what is no list nothing obstructs. -/
theorem eq_nil_of_leaf (opened : Opened heap root position path value)
    (leaf : heap.elements value = []) {more : List Nat} {error : RuntimeError}
    (obstructs : heap.Obstructs root (position ++ more) error) : more = [] := by
  obtain ⟨inner, found⟩ := obstructs.found
  rw [listed?_append, opened.found] at found
  cases more with
  | nil => rfl
  | cons index rest =>
      rw [Option.bind_some, listed?, leaf] at found
      cases found

/-- What is no object, callable or open list does not obstruct. -/
theorem not_obstructs (opened : Opened heap root position path value)
    (liftable : ¬ value.Unliftable) (fresh : ∀ handle, value = .list handle → .list handle ∉ path)
    (error : RuntimeError) : ¬ heap.Obstructs root position error := by
  intro obstructs
  cases obstructs with
  | unliftable found unliftable =>
      cases opened.found.symm.trans found
      exact liftable unliftable
  | inside whole deeper outer found =>
      cases opened.found.symm.trans found
      exact fresh _ rfl (opened.obstructs.mpr (.inside whole deeper outer found))

end Opened

/-- What the walk from a position on comes to says which positions below it obstruct. -/
def Explained (heap : Heap) (root : Value) (position : List Nat) : Outcome Node → Prop
  | .ok _ => ∀ more error, ¬ heap.Obstructs root (position ++ more) error
  | .error error => ∃ more, heap.Obstructs root (position ++ more) error ∧
      ∀ other error', heap.Obstructs root (position ++ other) error' → ¬ Before other more

/-- An obstruction right at the top is the first one. -/
theorem Explained.top {error : RuntimeError} (obstructs : heap.Obstructs root position error) :
    Explained heap root position (.error error) :=
  ⟨[], by rwa [List.append_nil], nofun⟩

theorem Explained.leaf (opened : Opened heap root position path value)
    (leaf : heap.elements value = []) (liftable : ¬ value.Unliftable)
    (fresh : ∀ handle, value = .list handle → .list handle ∉ path) (tree : Node) :
    Explained heap root position (.ok tree) := by
  intro more error obstructs
  obtain rfl := opened.eq_nil_of_leaf leaf obstructs
  rw [List.append_nil] at obstructs
  exact opened.not_obstructs liftable fresh error obstructs

/-- A row is explained by its first entry that fails, or by all of them. -/
theorem Explained.row {handle : Nat} {walk : Value → Outcome Node}
    (opened : Opened heap root position path (.list handle))
    (fresh : Container.list handle ∉ path)
    (each : ∀ index child, (heap.list handle).toList[index]? = some child →
      Explained heap root (position ++ [index]) (walk child)) :
    Explained heap root position ((heap.list handle).toList.mapM walk >>= fun trees =>
      pure (.list trees)) := by
  have below {more : List Nat} {error : RuntimeError}
      (obstructs : heap.Obstructs root (position ++ more) error) :
      ∃ index rest child, more = index :: rest ∧ (heap.list handle).toList[index]? = some child ∧
        heap.Obstructs root (position ++ [index] ++ rest) error := by
    cases more with
    | nil =>
        rw [List.append_nil] at obstructs
        refine absurd obstructs (opened.not_obstructs nofun ?_ error)
        rintro _ ⟨⟩
        exact fresh
    | cons index rest =>
        obtain ⟨inner, found⟩ := obstructs.found
        rw [listed?_append, opened.found, Option.bind_some, listed?] at found
        obtain ⟨child, atIndex, _⟩ := Option.bind_eq_some_iff.mp found
        exact ⟨index, rest, child, rfl, atIndex, by simpa using obstructs⟩
  cases ran : (heap.list handle).toList.mapM walk with
  | ok trees =>
      intro more error obstructs
      obtain ⟨index, rest, child, rfl, atIndex, inChild⟩ := below obstructs
      obtain ⟨tree, ok⟩ := Syntax.exists_right_of_forall₂ (Syntax.mapM_eq_ok.mp ran)
        (List.mem_of_getElem? atIndex)
      have explained := each index child atIndex
      rw [ok] at explained
      exact explained rest error inChild
  | error error =>
      obtain ⟨before, child, after, row, succeed, fails⟩ := Syntax.exists_of_mapM_error ran
      have atIndex : (heap.list handle).toList[before.length]? = some child := by
        rw [row, List.getElem?_append_right (Nat.le_refl _), Nat.sub_self]
        rfl
      have explained := each before.length child atIndex
      rw [fails] at explained
      obtain ⟨more, obstructs, first⟩ := explained
      refine ⟨before.length :: more, by simpa using obstructs, fun other error' elsewhere => ?_⟩
      obtain ⟨index, rest, sibling, rfl, atIndex', inSibling⟩ := below elsewhere
      -- An earlier position is in the same entry, or in one that has been walked without failure.
      intro earlier
      cases earlier with
      | cons deeper => exact first rest error' inSibling deeper
      | rel left =>
          have explained := each index sibling atIndex'
          rw [row, List.getElem?_append_left left] at atIndex'
          obtain ⟨tree, ok⟩ := succeed sibling (List.mem_of_getElem? atIndex')
          rw [ok] at explained
          exact explained rest error' inSibling

theorem liftWithin_again {room handle : Nat} (around : Container.list handle ∈ path) :
    heap.liftWithin (room + 1) path (.list handle) =
      .error (.cyclicValue "place in a syntax tree") := by
  have again : path.enter (.list handle) "place in a syntax tree" =
      .error (.cyclicValue "place in a syntax tree") := by
    simp [Path.enter, Path.open?, Value.container?, around]
  rw [liftWithin, again]
  rfl

theorem liftWithin_list {room handle : Nat} (fresh : Container.list handle ∉ path) :
    heap.liftWithin (room + 1) path (.list handle) =
      (heap.list handle).toList.mapM (heap.liftWithin room (.list handle :: path)) >>= fun trees =>
        pure (.list trees) := by
  have inside : path.enter (.list handle) "place in a syntax tree" =
      .ok (.list handle :: path) := by
    simp [Path.enter, Path.open?, Value.container?, fresh]
  rw [liftWithin, inside]
  rfl

/-- The walk is explained from wherever it comes to. -/
theorem liftWithin_explained {room : Nat} (opened : Opened heap root position path value)
    (enough : heap.containers + 2 ≤ path.length + room) :
    Explained heap root position (heap.liftWithin room path value) := by
  induction room generalizing position path value with
  | zero =>
      -- There are no more open lists than lists, so the walk does not run out of room.
      have bounded := opened.length_le
      have lists : heap.lists.size ≤ heap.containers := Nat.le_add_right _ _
      omega
  | succ room inductionHypothesis =>
      cases value with
      | number content => exact .leaf opened rfl nofun nofun _
      | text handle => exact .leaf opened rfl nofun nofun _
      | node handle => exact .leaf opened rfl nofun nofun _
      | object handle => exact .top (.unliftable opened.found trivial)
      | function handle => exact .top (.unliftable opened.found trivial)
      | builtin handle => exact .top (.unliftable opened.found trivial)
      | list handle =>
          by_cases around : Container.list handle ∈ path
          · rw [liftWithin_again around]
            exact .top (opened.obstructs.mp around)
          · rw [liftWithin_list around]
            refine .row opened around fun index child atIndex => ?_
            exact inductionHypothesis (opened.descend around atIndex) (by
              rw [List.length_cons]
              omega)

private theorem lift_explained (heap : Heap) (root : Value) :
    Explained heap root [] (heap.lift root) :=
  liftWithin_explained (.start heap root) (by simp [room])

/-- A value has no tree, for some reason, if a position obstructs for this reason and none before it
does for any. -/
theorem lift_eq_error_iff {error : RuntimeError} :
    heap.lift root = .error error ↔ ∃ position, heap.FirstObstructs root position error := by
  have explained := lift_explained heap root
  constructor
  · intro failed
    rw [failed] at explained
    obtain ⟨position, obstructs, first⟩ := explained
    exact ⟨position, obstructs, first⟩
  · rintro ⟨position, obstructs, first⟩
    cases lifted : heap.lift root with
    | ok tree =>
        rw [lifted] at explained
        exact absurd obstructs (explained position error)
    | error error' =>
        rw [lifted] at explained
        obtain ⟨position', obstructs', first'⟩ := explained
        obtain rfl : position = position' :=
          Std.Trichotomous.trichotomous position position' (first' position error obstructs)
            (first position' error' obstructs')
        rw [obstructs.unique obstructs']

/-- A value contains itself as an element of lists. -/
def ContainsItself (heap : Heap) (value : Value) : Prop :=
  ∃ loop, loop ≠ [] ∧ heap.listed? value loop = some value

theorem lift_fails_iff :
    (∃ error, heap.lift root = .error error) ↔
      ∃ position inner, heap.listed? root position = some inner ∧
        (inner.Unliftable ∨ heap.ContainsItself inner) := by
  constructor
  · rintro ⟨error, failed⟩
    obtain ⟨position, obstructs, _⟩ := lift_eq_error_iff.mp failed
    cases obstructs with
    | unliftable found unliftable => exact ⟨position, _, found, .inl unliftable⟩
    | @inside above below handle whole deeper outer found =>
        refine ⟨above, _, outer, .inr ⟨below, deeper, ?_⟩⟩
        rw [whole, listed?_append, outer] at found
        exact found
  · rintro ⟨position, inner, found, obstacle⟩
    have obstructed : ∃ place error, heap.Obstructs root place error := by
      obtain unliftable | ⟨loop, deeper, around⟩ := obstacle
      · exact ⟨position, _, .unliftable found unliftable⟩
      · obtain ⟨handle, rfl, _⟩ := listed?_below deeper around
        refine ⟨position ++ loop, _, .inside rfl deeper found ?_⟩
        rw [listed?_append, found]
        exact around
    obtain ⟨place, error, obstructs⟩ := obstructed
    cases lifted : heap.lift root with
    | error error => exact ⟨error, rfl⟩
    | ok tree =>
        have explained := lift_explained heap root
        rw [lifted] at explained
        exact absurd obstructs (explained place error)

/-! ## Trees that evaluate to copies -/

/-- A value shows a content and has a tree, and the value of this tree shows the content again, in
new cells. -/
private structure Returns (heap : Heap) (room : Nat) (path : Path) (value : Value)
    (shown : Content × Node) : Prop where
  reads : heap.Reads value shown.1
  lifts : heap.liftWithin room path value = .ok shown.2
  back : ∀ (source : Heap) (host : Host) (bound : Nat) (state : State), room ≤ bound →
    source.Grows state.heap →
      Eval.Yields (fun later value => Made source later value shown.1)
        ((Eval.run host bound).eval shown.2) state

private theorem returns_list {room handle : Nat} (holds : heap.Holds (.list handle))
    (fresh : Container.list handle ∉ path) {shown : List (Content × Node)}
    (row :
      List.Forall₂ (Returns heap room (.list handle :: path)) (heap.list handle).toList shown) :
    Returns heap (room + 1) path (.list handle)
      (.list (shown.map Prod.fst), .list (shown.map Prod.snd)) where
  reads := by
    refine reads_list.mpr ⟨holds, ?_⟩
    rw [List.forall₂_map_right_iff]
    exact row.imp fun _ _ returns => returns.reads
  lifts := by
    have trees : (heap.list handle).toList.mapM (heap.liftWithin room (.list handle :: path)) =
        .ok (shown.map Prod.snd) := by
      rw [Syntax.mapM_eq_ok, List.forall₂_map_right_iff]
      exact row.imp fun _ _ returns => returns.lifts
    rw [liftWithin_list fresh, trees]
    rfl
  back := by
    intro source host bound state more grown
    obtain ⟨fewer, rfl⟩ := Nat.exists_eq_add_of_le' (Nat.le_trans (Nat.le_add_left 1 room) more)
    have each : ∀ pair ∈ shown, ∀ reached : State, source.Grows reached.heap →
        Eval.Yields (fun later value => Made source later value pair.1)
          ((Eval.run host fewer).eval pair.2) reached := by
      intro pair member reached grown
      obtain ⟨child, _, returns⟩ := Syntax.exists_left_of_forall₂ row member
      exact returns.back source host fewer reached (Nat.le_of_succ_le_succ more) grown
    refine Eval.yields_list (fun _ _ _ _ made grows => made.grows grows) each grown
      fun later values grown made => .list grown ?_
    rw [List.forall₂_map_right_iff]
    exact made.flip

private theorem exists_returns (held : ∀ inner, heap.Reaches root inner → heap.Holds inner)
    (acyclic : ¬ heap.Cyclic root) (plain : ∀ inner, heap.Reaches root inner → inner.isPlain)
    {room : Nat} (ancestors : Ancestors heap root path value)
    (enough : heap.containers + 2 ≤ path.length + room) :
    ∃ shown, Returns heap room path value shown := by
  have holds := held value ancestors.reached
  have isPlain := plain value ancestors.reached
  induction room generalizing path value with
  | zero =>
      have bounded := ancestors.length_le held
      omega
  | succ room inductionHypothesis =>
      cases value with
      | number content =>
          refine ⟨(.number content, .number content), .number content, rfl, ?_⟩
          intro source host bound state more _
          obtain ⟨fewer, rfl⟩ := Nat.exists_eq_add_of_le' more
          exact Eval.yields_number (.number source state.heap content)
      | text handle =>
          refine ⟨(.text (heap.text handle), .plainText (heap.text handle)), .text holds, rfl, ?_⟩
          intro source host bound state more grown
          obtain ⟨fewer, rfl⟩ := Nat.exists_eq_add_of_le' more
          exact Eval.yields_text (.text grown _)
      | list handle =>
          by_cases around : Container.list handle ∈ path
          · have stops : path.open? (.list handle) = none := by
              simp [Path.open?, Value.container?, around]
            exact absurd (ancestors.cyclic stops) acyclic
          · have opened : path.open? (.list handle) = some (.list handle :: path) := by
              simp [Path.open?, Value.container?, around]
            have each : ∀ child ∈ (heap.list handle).toList,
                ∃ shown, Returns heap room (.list handle :: path) child shown := by
              intro child member
              have below := ancestors.descend opened member
              refine inductionHypothesis below ?_ (held child below.reached)
                (plain child below.reached)
              rw [List.length_cons]
              omega
            obtain ⟨shown, row⟩ := exists_row each
            exact ⟨_, returns_list holds around row⟩
      | object handle => cases isPlain
      | function handle => cases isPlain
      | builtin handle => cases isPlain
      | node handle => cases isPlain

end Heap

/-- A value that is made of numbers, texts and lists and does not contain itself has a tree, and
evaluation of this tree, whatever is bound and whatever operators there are, ends with a value that
shows the same in new cells and changes nothing else. Any value fails to have a tree if and only if
lists lead to an object, to a callable or to a list that contains itself, and the position to which
a walk comes first, among those of objects and callables and of lists inside themselves, decides
about the error. -/
theorem OnHeap.lift_returns (heap : Heap) (value : Value) :
    ((∀ inner, heap.Reaches value inner → heap.Holds inner) → ¬ heap.Cyclic value →
      (∀ inner, heap.Reaches value inner → inner.isPlain) →
        ∃ content tree, content.Plain ∧ heap.Reads value content ∧
          lift value heap = .ok tree heap ∧ ∀ host bound state, heap.room ≤ bound →
            Eval.Yields (fun later copy => Made state.heap later copy content)
              ((Eval.run host bound).eval tree) state) ∧
    ((∃ error, lift value heap = .error error heap) ↔
      ∃ position inner, heap.listed? value position = some inner ∧
        (inner.Unliftable ∨ heap.ContainsItself inner)) ∧
    ∀ error, lift value heap = .error error heap ↔
      ∃ position, heap.FirstObstructs value position error := by
  have whole : lift value heap = ofOutcome (heap.lift value) heap := rfl
  have fails (error : RuntimeError) :
      lift value heap = .error error heap ↔ heap.lift value = .error error := by
    rw [whole]
    cases heap.lift value with
    | ok tree => exact ⟨nofun, nofun⟩
    | error other => exact ⟨by rintro ⟨⟩; rfl, by rintro ⟨⟩; rfl⟩
  refine ⟨fun held acyclic plain => ?_, ?_, fun error => (fails error).trans Heap.lift_eq_error_iff⟩
  · have enough : heap.containers + 2 ≤ ([] : Path).length + heap.room := by simp [Heap.room]
    obtain ⟨shown, returns⟩ :=
      Heap.exists_returns held acyclic plain (.start heap value) enough
    refine ⟨shown.1, shown.2, returns.reads.plain plain, returns.reads, ?_,
      fun host bound state more => returns.back state.heap host bound state more (.refl _)⟩
    have lifted : heap.lift value = .ok shown.2 := returns.lifts
    rw [whole, lifted]
    rfl
  · rw [← Heap.lift_fails_iff]
    exact exists_congr fails

/-- A list that holds another one twice has a tree. A list that holds an object and itself fails for
the object, which a walk comes to before it comes to the list again. -/
theorem OnHeap.lift_returns_shared :
    let heap := { Heap.empty with
      texts := #["a"], lists := #[#[.text 0], #[.list 0, .list 0], #[.object 0, .list 2]],
      objects := #[∅] }
    (∃ content tree, content.Plain ∧ heap.Reads (.list 1) content ∧
      lift (.list 1) heap = .ok tree heap ∧ ∀ host bound state, heap.room ≤ bound →
        Eval.Yields (fun later copy => Made state.heap later copy content)
          ((Eval.run host bound).eval tree) state) ∧
    lift (.list 2) heap = .error (.typeError (.notLiftable "object")) heap := by
  intro heap
  let values : List Value := [.list 1, .list 0, .text 0]
  have closed : ∀ value ∈ values, ∀ child ∈ heap.children value, child ∈ values := by
    simp [heap, values, Heap.children, Heap.list]
  have held : ∀ inner ∈ values, heap.Holds inner := by decide
  have plain : ∀ inner ∈ values, inner.isPlain := by decide
  have within : ∀ inner, heap.Reaches (.list 1) inner → inner ∈ values := fun inner reaches =>
    reaches.elim fun _ found => Heap.at?_of_closed closed (by simp [values]) found
  have shallow : heap.Shallow 3 (.list 1) :=
    .of_children fun child member => .of_children fun inner inside =>
      .of_children fun last below => by simp_all [heap, Heap.children, Heap.list]
  have object : heap.FirstObstructs (.list 2) [0] (.typeError (.notLiftable "object")) := by
    have found : heap.listed? (.list 2) [0] = some (.object 0) := rfl
    refine ⟨.unliftable found trivial, fun other error obstructs earlier => ?_⟩
    cases earlier with
    | nil =>
        cases obstructs with
        | unliftable top unliftable =>
            cases top
            cases unliftable
        | inside whole deeper _ _ => exact deeper (List.append_eq_nil_iff.mp whole.symm).2
    | rel left => exact Nat.not_lt_zero _ left
    | cons deeper => cases deeper
  exact ⟨(lift_returns heap (.list 1)).1 (fun inner reaches => held inner (within inner reaches))
    shallow.not_cyclic (fun inner reaches => plain inner (within inner reaches)),
    ((lift_returns heap (.list 2)).2.2 _).mpr ⟨[0], object⟩⟩

end Fixity
