import Fixity.Proofs.Copies
import Fixity.Proofs.Indifference
import Fixity.Proofs.Macros

/-!
Contract: values that are bound to several names at once.

Owns:
- `Heap.Separate`, rows of values that share no cell;
- `State.Assigned`, what has changed when values have been bound to names, one after the other;
- `Eval.Sole`, the value that stands for all names if they take no list apart;
- `Eval.Destructured`, what becomes of a value that names are bound to;
- `Eval.destructuring_gives`: all names are bound or none; a list gives each name its element, and
  other values are copied for each name.

Does not own: what a copy is.
-/

namespace Fixity

open Eval

/-! ## Copies for several names -/

/-- The values at different places of a row have no cell in common that is copied with a value. -/
def Heap.Separate (heap : Heap) (values : List Value) : Prop :=
  ∀ {index index' : Nat} {value value' inner : Value}, values[index]? = some value →
    values[index']? = some value' → heap.Reaches value inner → heap.Reaches value' inner →
    inner.Owned → index = index'

namespace OnHeap

variable {source heap : Heap} {value : Value}

private theorem containers_grows (grown : source.Grows heap) :
    source.containers ≤ heap.containers :=
  Nat.add_le_add grown.lists.length_le grown.objects.length_le

/-- Copying a value makes a copy of it or goes around, also when cells have been added. -/
theorem duplicate_walks (held : ∀ inner, source.Reaches value inner → source.Holds inner)
    (grown : source.Grows heap) :
    Walks source value (duplicate value) heap fun copy heap' =>
      Copied source heap heap' (source.at? value) (heap'.at? copy) ∧
        source.Shallow heap.room value := by
  have enough : source.containers + 2 ≤ ([] : Path).length + heap.room := by
    have more := containers_grows grown
    simp only [List.length_nil, Heap.room]
    omega
  exact .read (duplicateWithin_walks held grown (.start source value) enough)

/-- Copies for a number of names. Together they are a copy of a row, so no cell of one of them is
also one of another. -/
theorem duplicates_copied (held : ∀ inner, heap.Reaches value inner → heap.Holds inner)
    (count : Nat) :
    (count ≠ 0 → heap.Cyclic value → ∃ heap',
      (List.replicate count value).mapM duplicate heap = .error (.cyclicValue "copy") heap' ∧
        heap.Grows heap') ∧
    (count = 0 ∨ ¬ heap.Cyclic value → ∃ copies heap',
      (List.replicate count value).mapM duplicate heap = .ok copies heap' ∧ heap.Grows heap' ∧
        copies.length = count ∧
        Copied heap heap heap' (heap.under? (List.replicate count value))
          (heap'.under? copies)) := by
  constructor
  · intro many cyclic
    obtain ⟨more, rfl⟩ := Nat.exists_eq_succ_of_ne_zero many
    obtain ⟨heap', ran, grows⟩ := (duplicate_copied heap value fun position inner found =>
      held inner ⟨position, found⟩).1 cyclic
    refine ⟨heap', ?_, grows⟩
    rw [List.replicate_succ, List.mapM_cons]
    exact bind_of_error ran
  · rintro (rfl | acyclic)
    · exact ⟨[], heap, rfl, .refl heap, rfl, .nil⟩
    · obtain ⟨_, _, _, _, _, shallow⟩ | ⟨_, _, _, cyclic⟩ := duplicate_walks held (.refl heap)
      · have each : ∀ copied ∈ List.replicate count value, ∀ later, heap.Grows later →
            Walks heap value (duplicate copied) later fun copy heap' =>
              Copied heap later heap' (heap.at? copied) (heap'.at? copy) ∧
                heap.Shallow heap.room copied := by
          intro copied member later grown
          obtain rfl := List.eq_of_mem_replicate member
          obtain ⟨copy, heap', ran, grows, copied, _⟩ | walks := duplicate_walks held grown
          · exact .inl ⟨copy, heap', ran, grows, copied, shallow⟩
          · exact .inr walks
        obtain ⟨copies, heap', ran, grows, copied, length, _⟩ | ⟨_, _, _, cyclic⟩ :=
          Walks.mapM each (.refl heap)
        · exact ⟨copies, heap', ran, grows, length.trans List.length_replicate, copied⟩
        · exact absurd cyclic acyclic
      · exact absurd cyclic acyclic

end OnHeap

namespace Copied

variable {source before later : Heap} {values copies : List Value}
  (copied : Copied source before later (source.under? values) (later.under? copies))
include copied

/-- What stands in a copied row is copied. -/
theorem element {index : Nat} {value copy : Value} (original : values[index]? = some value)
    (found : copies[index]? = some copy) :
    Copied source before later (source.at? value) (later.at? copy) := by
  have inRow (position : List Nat) : source.at? value position =
      source.under? values (index :: position) := by rw [Heap.under?, original]; rfl
  have inCopies (position : List Nat) : later.at? copy position =
      later.under? copies (index :: position) := by rw [Heap.under?, found]; rfl
  refine ⟨fun position => ?_, fun position inner => ?_, fun position inner => ?_,
    fun position position' inner => ?_⟩
  · rw [inRow, inCopies]
    exact copied.alike (index :: position)
  · rw [inCopies]
    exact copied.holds (index :: position) inner
  · rw [inCopies]
    exact copied.fresh (index :: position) inner
  · rw [inCopies, inCopies]
    exact fun here there owned => (List.cons.inj (copied.single _ _ inner here there owned)).2

/-- What stands in different places of a copied row shares no cell. -/
theorem separate : later.Separate copies := by
  rintro index index' copy copy' inner found found' ⟨position, here⟩ ⟨position', there⟩ owned
  have inCopies {index : Nat} {copy : Value} (found : copies[index]? = some copy)
      {position : List Nat} (here : later.at? copy position = some inner) :
      later.under? copies (index :: position) = some inner := by
    rw [Heap.under?, found]
    exact here
  exact (List.cons.inj (copied.single _ _ inner (inCopies found here) (inCopies found' there)
    owned)).1

end Copied

/-! ## Names and their values -/

namespace State

/-- Values have been bound to names, one after the other. A name is bound to the value at its last
place; functions know the names they are bound to, and no other cell has changed. -/
structure Assigned (before : State) (names : List String) (values : List Value) (after : State) :
    Prop where
  bound : ∀ {name : String} {index : Nat}, names[index]? = some name →
    name ∉ names.drop (index + 1) → after.scope.lookup? name = values[index]?
  others : ∀ {name : String}, name ∉ names → after.scope.stack? name = before.scope.stack? name
  operators : after.scope.operators = before.scope.operators
  cells : after.heap = { before.heap with functions := after.heap.functions }
  functions : ∀ handle, ∃ anchors,
    after.heap.function handle = { before.heap.function handle with anchors := anchors }
  elsewhere : after = { before with heap := after.heap, scope := after.scope }

theorem Assigned.nil (state : State) : Assigned state [] [] state where
  bound found := by cases found
  others _ := rfl
  operators := rfl
  cells := rfl
  functions handle := ⟨_, rfl⟩
  elsewhere := rfl

private theorem function_anchored (heap : Heap) (name : String) (value : Value) (handle : Nat) :
    ∃ anchors, (heap.anchored name value).function handle =
      { heap.function handle with anchors := anchors } := by
  cases value with
  | function target =>
      have modified := Heap.function_modify heap target handle fun function => function.anchor name
      refine (exists_congr fun anchors => Eq.congr_left modified).mpr ?_
      split
      · unfold Function.anchor
        split
        · exact ⟨_, rfl⟩
        · exact ⟨_, rfl⟩
      · exact ⟨_, rfl⟩
  | _ => exact ⟨_, rfl⟩

theorem Assigned.cons {name : String} {value : Value} {names : List String} {values : List Value}
    {before after : State} (assigned : (before.assigned name value).Assigned names values after) :
    before.Assigned (name :: names) (value :: values) after where
  bound := by
    intro name' index found last
    cases index with
    | zero =>
        obtain rfl := Option.some.inj found
        have kept := assigned.others last
        unfold Scope.lookup?
        rw [kept, State.assigned, Scope.stack?_bind, if_pos rfl]
        rfl
    | succ index => exact assigned.bound found last
  others := by
    intro name' absent
    have different : name ≠ name' := by
      rintro rfl
      exact absent List.mem_cons_self
    rw [assigned.others fun member => absent (List.mem_cons_of_mem _ member), State.assigned,
      Scope.stack?_bind, if_neg different]
  operators := assigned.operators
  cells := by
    have cells := assigned.cells
    cases value <;> exact cells
  functions := by
    intro handle
    obtain ⟨anchors, same⟩ := assigned.functions handle
    obtain ⟨anchors', same'⟩ := function_anchored before.heap name value handle
    have first : (before.assigned name value).heap.function handle =
      { before.heap.function handle with anchors := anchors' } := same'
    exact ⟨anchors, by rw [same, first]⟩
  elsewhere := assigned.elsewhere

/-- Positions in values show the same as before. -/
theorem Assigned.at? {names : List String} {values : List Value} {before after : State}
    (assigned : before.Assigned names values after) (value : Value) (position : List Nat) :
    after.heap.at? value position = before.heap.at? value position := by
  have children (value : Value) : after.heap.children value = before.heap.children value := by
    rw [assigned.cells]
    cases value <;> rfl
  induction position generalizing value with
  | nil => rfl
  | cons index rest inductionHypothesis =>
      rw [Heap.at?, Heap.at?, children]
      simp only [inductionHypothesis]

theorem Assigned.separate {names : List String} {values : List Value} {before after : State}
    (assigned : before.Assigned names values after) {row : List Value}
    (separate : before.heap.Separate row) : after.heap.Separate row := by
  have reaches {value inner : Value} (there : after.heap.Reaches value inner) :
      before.heap.Reaches value inner := by
    obtain ⟨position, found⟩ := there
    exact ⟨position, (assigned.at? value position).symm.trans found⟩
  intro index index' value value' inner found found' here there
  exact separate found found' (reaches here) (reaches there)

end State

namespace Eval

/-- Values are bound to as many names. -/
theorem exists_assigned {names : List String} {values : List Value}
    (length : values.length = names.length) (state : State) :
    ∃ after, (names.zip values).forM (fun entry => assign entry.1 entry.2) state = .ok () after ∧
      state.Assigned names values after := by
  induction names generalizing values state with
  | nil =>
      obtain rfl := List.eq_nil_of_length_eq_zero length
      exact ⟨state, rfl, .nil state⟩
  | cons name names inductionHypothesis =>
      obtain _ | ⟨value, values⟩ := values
      · cases length
      · obtain ⟨after, ran, assigned⟩ :=
          inductionHypothesis (Nat.succ.inj length) (state.assigned name value)
        exact ⟨after, (bind_of_ok (assign_eq name value state)).trans ran, assigned.cons⟩

/-! ## Taking values apart -/

/-- The value that is copied for each of a number of names: the only item of a list, if the list is
not taken apart, or what is no list. -/
inductive Sole (heap : Heap) (count : Nat) : Value → Value → Prop where
  | item {handle : Nat} {only : Value} : heap.list handle = #[only] → count ≠ 1 →
      Sole heap count (.list handle) only
  | other {value : Value} : value.list? = none → Sole heap count value value

/-- What becomes of the value that a number of names are bound to. -/
inductive Destructured (names : List String) (state : State) :
    Value → EStateM.Result Failure State Value → Prop where
  /-- Each name gets the element of a list that has one for each. -/
  | apart {handle : Nat} {after : State} :
      (state.heap.list handle).size = names.length →
      state.Assigned names (state.heap.list handle).toList after →
      Destructured names state (.list handle) (.ok (.list handle) after)
  /-- Each name gets a copy of one value. -/
  | copied {value original : Value} {heap : Heap} {copies : List Value} {after : State} :
      Sole state.heap names.length value original →
      names = [] ∨ ¬ state.heap.Cyclic original → state.heap.Grows heap →
      copies.length = names.length →
      (∀ copy ∈ copies, Copied state.heap state.heap heap (state.heap.at? original)
        (heap.at? copy)) →
      State.Assigned { state with heap := heap } names copies after →
      after.heap.Separate copies →
      Destructured names state value (.ok value after)
  /-- The value can not be copied; other copies may have been made before. -/
  | cyclic {value original : Value} {heap : Heap} :
      Sole state.heap names.length value original → names ≠ [] → state.heap.Cyclic original →
      state.heap.Grows heap →
      Destructured names state value
        (.error (.error (.cyclicValue "copy")) { state with heap := heap })
  /-- A list has more elements or fewer. -/
  | mismatch {handle : Nat} :
      (state.heap.list handle).size ≠ names.length → (state.heap.list handle).size ≠ 1 →
      Destructured names state (.list handle)
        (.error (.error (.invalidAssignment
          (.countMismatch names.length (state.heap.list handle).size))) state)

/-- What is done with the value on the right of several names. -/
def destructure (names : List String) (value : Value) : Eval Value := do
  let values ← Eval.onHeap (shares names.length value)
  (names.zip values).forM fun entry => assign entry.1 entry.2
  return value

theorem shares_of_sole {heap : Heap} {count : Nat} {value original : Value}
    (sole : Sole heap count value original) :
    shares count value heap = (List.replicate count original).mapM OnHeap.duplicate heap := by
  cases sole with
  | @item handle only single several =>
      have uneven : (heap.list handle).toList.length ≠ count := by
        rw [single]
        exact Ne.symm several
      show (if _ then _ else _ : OnHeap (List Value)) heap = _
      rw [single] at uneven ⊢
      exact congrFun (if_neg uneven) heap
  | other other =>
      cases value with
      | list handle => cases other
      | _ => rfl

theorem shares_of_mismatch {heap : Heap} {count handle : Nat}
    (uneven : (heap.list handle).size ≠ count) (several : (heap.list handle).size ≠ 1) :
    shares count (.list handle) heap =
      .error (.invalidAssignment (.countMismatch count (heap.list handle).size)) heap := by
  show (if (heap.list handle).toList.length = count then _ else _ : OnHeap (List Value)) heap = _
  generalize heap.list handle = items at uneven several
  refine (congrFun (if_neg uneven) heap).trans ?_
  obtain ⟨_ | ⟨first, _ | ⟨second, rest⟩⟩⟩ := items
  · rfl
  · exact absurd rfl several
  · rfl

/-- What a value stands for is in it. -/
theorem Sole.reaches {heap : Heap} {count : Nat} {value original : Value}
    (sole : Sole heap count value original) : heap.Reaches value original := by
  cases sole with
  | @item handle only single several =>
      have items : heap.children (.list handle) = [original] := congrArg Array.toList single
      exact (Heap.contains_of_child (by rw [items]; exact List.mem_cons_self)).reaches
  | other other => exact .refl heap value

private theorem destructured_of_sole {names : List String} {value original : Value} {state : State}
    (held : ∀ inner, state.heap.Reaches value inner → state.heap.Holds inner)
    (sole : Sole state.heap names.length value original) :
    Destructured names state value (destructure names value state) := by
  obtain ⟨around, succeeds⟩ :=
    OnHeap.duplicates_copied (fun inner reaches => held inner (sole.reaches.trans reaches))
      names.length
  have shared := shares_of_sole sole
  by_cases cyclic : names ≠ [] ∧ state.heap.Cyclic original
  · obtain ⟨heap, ran, grows⟩ := around (by simpa using cyclic.1) cyclic.2
    have failed : destructure names value state =
        .error (.error (.cyclicValue "copy")) { state with heap := heap } :=
      bind_of_error (onHeap_of_error (shared.trans ran))
    rw [failed]
    exact .cyclic sole cyclic.1 cyclic.2 grows
  · have acyclic : names = [] ∨ ¬ state.heap.Cyclic original := by
      by_contra neither
      exact cyclic (not_or.mp neither |>.imp id not_not.mp)
    obtain ⟨copies, heap, ran, grows, length, copied⟩ := succeeds (by simpa using acyclic)
    obtain ⟨after, bound, assigned⟩ := exists_assigned length { state with heap := heap }
    have done : destructure names value state = .ok value after :=
      (bind_of_ok (onHeap_of_ok (shared.trans ran))).trans (bind_of_ok bound)
    rw [done]
    refine .copied sole acyclic grows length (fun copy member => ?_) assigned ?_
    · obtain ⟨index, found⟩ := List.getElem?_of_mem member
      have inside := (List.getElem?_eq_some_iff.mp found).1
      exact copied.element (List.getElem?_replicate_of_lt (Nat.lt_of_lt_of_eq inside length)) found
    · exact assigned.separate copied.separate

theorem exists_destructured (names : List String) {value : Value} {state : State}
    (held : ∀ inner, state.heap.Reaches value inner → state.heap.Holds inner) :
    Destructured names state value (destructure names value state) := by
  cases value with
  | list handle =>
      by_cases taken : (state.heap.list handle).size = names.length
      · have shared : shares names.length (.list handle) state.heap =
            .ok (state.heap.list handle).toList state.heap :=
          congrFun (if_pos taken) state.heap
        obtain ⟨after, bound, assigned⟩ :=
          exists_assigned (Array.length_toList.trans taken) state
        have done : destructure names (.list handle) state = .ok (.list handle) after :=
          (bind_of_ok (onHeap_of_ok shared)).trans (bind_of_ok bound)
        rw [done]
        exact .apart taken assigned
      · by_cases several : (state.heap.list handle).size = 1
        · obtain ⟨only, single⟩ := Array.size_eq_one_iff.mp several
          exact destructured_of_sole held (.item single fun one => taken (several.trans one.symm))
        · have failed : destructure names (.list handle) state = _ :=
            bind_of_error (onHeap_of_error (shares_of_mismatch taken several))
          rw [failed]
          exact .mismatch taken several
  | _ => exact destructured_of_sole held (.other rfl)

/-- If names can not be bound, none is, and no function comes to know a name. -/
theorem Destructured.unbound {names : List String} {value : Value} {state left : State}
    {failure : Failure} (destructured : Destructured names state value (.error failure left)) :
    ∃ heap, state.heap.Grows heap ∧ left = { state with heap := heap } := by
  cases destructured with
  | cyclic _ _ _ grows => exact ⟨_, grows, rfl⟩
  | mismatch _ _ => exact ⟨state.heap, .refl _, rfl⟩

theorem Destructured.finished {names : List String} {value : Value} {state : State}
    {result : EStateM.Result Failure State Value}
    (destructured : Destructured names state value result) (left : State) :
    result ≠ .error .exhausted left := by
  cases destructured <;> nofun

/-! ## Statements -/

section Statements

variable {host : Host} {state : State} (node : Node)

private theorem namesOf_names (fault : Node → RuntimeError) (names : List String) :
    namesOf fault (names.map .identifier) = .ok names := by
  induction names with
  | nil => rfl
  | cons name names inductionHypothesis =>
      rw [List.map_cons]
      show (namesOf fault (names.map .identifier)).map (name :: ·) = _
      rw [inductionHypothesis]
      rfl

private theorem namesOf_other (fault : Node → RuntimeError) (front : List String) {target : Node}
    (other : target.name? = none) (back : List Node) :
    namesOf fault (front.map .identifier ++ target :: back) = .error (fault target) := by
  induction front with
  | nil =>
      show namesOf fault (target :: back) = _
      unfold namesOf
      rw [other]
  | cons name front inductionHypothesis =>
      show (namesOf fault (front.map .identifier ++ target :: back)).map (name :: ·) = _
      rw [inductionHypothesis]
      rfl

/-- Targets are identifiers up to the first one that is none. -/
private theorem names_or_other (targets : List Node) :
    (∃ names : List String, targets = names.map .identifier) ∨
      ∃ (front : List String) (target : Node) (back : List Node),
        targets = front.map .identifier ++ target :: back ∧ target.name? = none := by
  induction targets with
  | nil => exact .inl ⟨[], rfl⟩
  | cons target rest inductionHypothesis =>
      cases target with
      | identifier name =>
          obtain ⟨names, rfl⟩ | ⟨front, target, back, rfl, other⟩ := inductionHypothesis
          · exact .inl ⟨name :: names, rfl⟩
          · exact .inr ⟨name :: front, target, back, rfl, other⟩
      | _ => exact .inr ⟨[], _, rest, rfl, rfl⟩

theorem run_binding_names (names : List String) (bound : Nat) :
    run host (bound + 1)
        (.tree (.operation Syntax.bindToken (.list (names.map .identifier)) node)) state =
      (run host bound (.tree node) >>= destructure names) state := by
  show (ofOutcome (namesOf _ (names.map .identifier)) >>= fun names =>
    run host bound (.tree node) >>= destructure names : Eval Value) state = _
  rw [namesOf_names]
  rfl

theorem run_binding_other (front : List String) {target : Node} (other : target.name? = none)
    (back : List Node) (bound : Nat) :
    run host (bound + 1) (.tree (.operation Syntax.bindToken
        (.list (front.map .identifier ++ target :: back)) node)) state =
      .error (.error (.invalidAssignment (.notIdentifier target.display))) state := by
  show (ofOutcome (namesOf _ (front.map .identifier ++ target :: back)) >>= fun names =>
    run host bound (.tree node) >>= destructure names : Eval Value) state = _
  rw [namesOf_other _ front other back]
  rfl

/-- A row of targets that are not all names is refused before the value is evaluated. Otherwise the
value is evaluated, and then all names are bound as its shape asks for, or none. -/
theorem destructuring_gives (tame : host.Tame) (unaware : host.Unaware) (closed : state.Closed)
    (targets : List Node) :
    let request : Request := .tree (.operation Syntax.bindToken (.list targets) node)
    (∃ front target back, targets = front ++ target :: back ∧ target.name? = none ∧
      (∀ earlier ∈ front, earlier.name? ≠ none) ∧
      ∀ bound, run host (bound + 1) request state =
        .error (.error (.invalidAssignment (.notIdentifier target.display))) state) ∨
    ∃ names : List String, targets = names.map .identifier ∧
      (∀ failure left, Gives host (.tree node) state (.error failure left) →
        Gives host request state (.error failure left)) ∧
      (∀ value reached, Gives host (.tree node) state (.ok value reached) →
        ∃ result, Gives host request state result ∧ Destructured names reached value result ∧
          ∀ failure left, result = .error failure left →
            ∃ heap, reached.heap.Grows heap ∧ left = { reached with heap := heap }) ∧
      ∀ result, Gives host request state result → ∃ inner, Gives host (.tree node) state inner := by
  intro request
  obtain ⟨names, rfl⟩ | ⟨front, target, back, rfl, other⟩ := names_or_other targets
  · have steps (result : EStateM.Result Failure State Value) : Gives host request state result ↔
        Comes (fun bound => run host bound (.tree node) >>= destructure names) state result :=
      gives_step_iff fun bound => run_binding_names node names bound
    have prolongs := prolongs_run tame (.tree node)
    have continued (value : Value) := prolongs_const (destructure names value)
    refine .inr ⟨names, rfl, fun failure left gives => ?_, fun value reached gives => ?_,
      fun result gives => ((steps result).mp gives).of_bind⟩
    · exact (steps _).mpr ((comes_bind_iff prolongs continued).mpr
        (.inl ⟨failure, left, gives, rfl⟩))
    · have ⟨bound, ran, _⟩ := gives
      have closedAfter := (closed.run unaware bound node).1
      rw [after_of_ok ran] at closedAfter
      have held : Held reached.heap value := closed.held_of_tracks (fun t uncounted =>
        t.agree_uncounted uncounted unaware bound (.tree node) state trivial) ran
      have destructured : Destructured names reached value (destructure names value reached) :=
        exists_destructured names fun inner reaches => closedAfter.heap.reached held reaches
      have comes : Comes (fun _ => destructure names value) reached _ :=
        comes_const_iff.mpr ⟨rfl, destructured.finished⟩
      refine ⟨_, (steps _).mpr ((comes_bind_iff prolongs continued).mpr
        (.inr ⟨value, reached, gives, comes⟩)), destructured, fun failure left failed => ?_⟩
      rw [failed] at destructured
      exact destructured.unbound
  · refine .inl ⟨front.map .identifier, target, back, rfl, other, ?_,
      run_binding_other node front other back⟩
    intro earlier member
    obtain ⟨name, _, rfl⟩ := List.mem_map.mp member
    exact Option.some_ne_none name

end Statements

/-- `[a, b] : [[[]]]` copies the only element for each name, with the list inside it. -/
theorem destructuring_gives_pair :
    let host := CommandLine.host (CommandLine.listedFiles [])
    let start : State := .initial .empty .empty
    let node : Node := .list [.list [.list []]]
    let reached : State := start.listed [] |>.listed [.list 0] |>.listed [.list 1]
    let request : Request := .tree (.operation Syntax.bindToken
      (.list [.identifier "a", .identifier "b"]) node)
    start.Closed ∧ Gives host (.tree node) start (.ok (.list 2) reached) ∧
      ∃ after, Gives host request start (.ok (.list 2) after) ∧
        Destructured ["a", "b"] reached (.list 2) (.ok (.list 2) after) ∧
        after.scope.lookup? "a" = some (.list 4) ∧ after.scope.lookup? "b" = some (.list 6) ∧
        (after.heap.list 4).toList = [.list 3] ∧ (after.heap.list 6).toList = [.list 5] := by
  intro host start node reached request
  have gives : Gives host (.tree node) start (.ok (.list 2) reached) := ⟨4, rfl, nofun⟩
  refine ⟨.initial, gives, ?_⟩
  obtain ⟨front, target, back, same, other, _⟩ | ⟨names, same, _, binds, _⟩ :=
    destructuring_gives node (Host.tame_commandLine (CommandLine.listedFiles []))
      (Host.unaware_commandLine (CommandLine.listedFiles [])) State.Closed.initial
      [.identifier "a", .identifier "b"]
  · have member : target ∈ [Node.identifier "a", Node.identifier "b"] := by
      rw [same]
      simp
    rcases List.mem_pair.mp member with rfl | rfl <;> cases other
  · obtain _ | ⟨first, _ | ⟨second, _ | _⟩⟩ := names <;> cases same
    obtain ⟨result, comes, destructured, _⟩ := binds _ _ gives
    have whole : Gives host request start (.ok (.list 2) _) := ⟨5, rfl, nofun⟩
    have tame : host.Tame := Host.tame_commandLine (CommandLine.listedFiles [])
    obtain rfl := Gives.unique tame comes whole
    exact ⟨_, whole, destructured, rfl, rfl, rfl, rfl⟩

end Eval

end Fixity
