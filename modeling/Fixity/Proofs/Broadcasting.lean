import Fixity.Proofs.Combining

/-!
Contract: operators on values that do not contain themselves.

Owns:
- `OnHeap.scalarPair`, an operator on two values neither of which is a list, and one equation for a
  level of an operator in these terms;
- `Visit.Standing` and `Visit.Fit`, places where a walk through two values can go on;
- `OnHeap.binary_gives`: the native walk does what `Content.combine` does with tracking.

Does not own: operands that contain themselves.

Main statements: on numbers, texts and lists an operator follows the rules for contents, without any
paths. An operator reports a value inside itself for no reason only where an object stands beside a
list with a list in it, and never as a comparison.
-/

namespace Fixity

namespace Heap

section Reads

variable {heap : Heap} {value left right : Value} {content first second : Content}

theorem Reads.isList (reads : heap.Reads value content) : content.isList = value.list?.isSome := by
  cases reads <;> rfl

theorem Reads.isText (reads : heap.Reads value content) : content.isText = value.text?.isSome := by
  cases reads <;> rfl

theorem Reads.length (reads : heap.Reads value content) : heap.length value = content.length := by
  cases reads with
  | list _ all _ => exact all
  | _ => rfl

theorem Reads.joins_iff (readsLeft : heap.Reads left first) (readsRight : heap.Reads right second)
    (operator : BinaryOperator) : Content.joins operator first second ↔
      operator = .add ∧ (left.text?.isSome ∨ right.text?.isSome) := by
  simp [Content.joins, readsLeft.isText, readsRight.isText]

theorem Reads.uneven_iff (readsLeft : heap.Reads left first)
    (readsRight : heap.Reads right second) : Content.uneven first second ↔
      left.bothLists right ∧ heap.length left ≠ heap.length right := by
  simp [Content.uneven, Value.bothLists, readsLeft.isList, readsRight.isList, readsLeft.length,
    readsRight.length, and_assoc]

theorem Reads.isObject (reads : heap.Reads value content) :
    content.isObject ↔ ∃ handle, value = .object handle := by
  cases reads with
  | object _ => exact iff_of_true rfl ⟨_, rfl⟩
  | _ => exact iff_of_false Bool.false_ne_true nofun

theorem Reads.exists_list (reads : heap.Reads value content) (isList : content.isList) :
    ∃ handle, value = .list handle := by
  cases reads with
  | list => exact ⟨_, rfl⟩
  | _ => cases isList

private theorem zip_row {α β γ δ : Type} {Fits : α → β → Prop} {Fits' : γ → δ → Prop}
    {firsts : List α} {seconds : List β} {thirds : List γ} {fourths : List δ}
    (row : List.Forall₂ Fits firsts seconds) (row' : List.Forall₂ Fits' thirds fourths) :
    List.Forall₂ (fun pair pair' => Fits pair.1 pair'.1 ∧ Fits' pair.2 pair'.2)
      (firsts.zip thirds) (seconds.zip fourths) := by
  induction row generalizing thirds fourths with
  | nil => exact .nil
  | cons here _ inductionHypothesis =>
      cases row' with
      | nil => exact .nil
      | cons here' row' => exact .cons ⟨here, here'⟩ (inductionHypothesis row')

theorem Reads.pairs (readsLeft : heap.Reads left first) (readsRight : heap.Reads right second) :
    List.Forall₂ (fun pair pair' => heap.Reads pair.1 pair'.1 ∧ heap.Reads pair.2 pair'.2)
      (heap.pairs left right) (Content.pairs first second) := by
  have alongRight {handle : Nat} {contents : List Content}
      (reads : heap.Reads (.list handle) (.list contents)) :
      List.Forall₂ (fun pair pair' => heap.Reads pair.1 pair'.1 ∧ heap.Reads pair.2 pair'.2)
        ((heap.list handle).toList.map fun element => (element, right))
        (contents.map fun element => (element, second)) := by
    rw [List.forall₂_map_left_iff, List.forall₂_map_right_iff]
    exact (reads_list.mp reads).2.imp fun _ _ here => ⟨here, readsRight⟩
  have alongLeft {handle : Nat} {contents : List Content}
      (reads : heap.Reads (.list handle) (.list contents)) :
      List.Forall₂ (fun pair pair' => heap.Reads pair.1 pair'.1 ∧ heap.Reads pair.2 pair'.2)
        ((heap.list handle).toList.map fun element => (left, element))
        (contents.map fun element => (first, element)) := by
    rw [List.forall₂_map_left_iff, List.forall₂_map_right_iff]
    exact (reads_list.mp reads).2.imp fun _ _ here => ⟨readsLeft, here⟩
  cases readsLeft with
  | list held all each =>
      have readsList := Reads.list held all each
      cases readsRight with
      | list held' all' each' =>
          exact zip_row (reads_list.mp readsList).2 (reads_list.mp (.list held' all' each')).2
      | _ => exact alongRight readsList
  | _ =>
      cases readsRight with
      | list held' all' each' => exact alongLeft (.list held' all' each')
      | _ => exact .nil

end Reads

end Heap

/-- A number, a text or a list. -/
def Value.isPlain : Value → Bool
  | number _ => true
  | text _ => true
  | list _ => true
  | _ => false

theorem Heap.Reads.plain {heap : Heap} {value : Value} {content : Content}
    (reads : heap.Reads value content) (plain : ∀ inner, heap.Reaches value inner → inner.isPlain) :
    content.Plain := by
  induction reads with
  | number content => exact .number content
  | text held => exact .text _
  | @list handle contents held all each inductionHypothesis =>
      have row : List.Forall₂ (fun child content => (∀ inner, heap.Reaches child inner →
          inner.isPlain) → content.Plain) (heap.list handle).toList contents :=
        List.forall₂_iff_zip.mpr ⟨all, fun inZip => inductionHypothesis _ inZip⟩
      refine .list fun content member => ?_
      obtain ⟨child, inList, plainBelow⟩ := Syntax.exists_left_of_forall₂ row member
      exact plainBelow fun inner reaches => plain inner (.of_child inList reaches)
  | _ => exact absurd (plain _ (.refl heap _)) (by simp [Value.isPlain])

namespace OnHeap

/-- The fault of two values that no rule accepts. -/
def invalidPair (operator : BinaryOperator) (left right : Value) : OnHeap Value := do
  throw (.invalidArguments operator.token (← display left) (← display right))

/-- An operator on two values neither of which is a list. -/
def scalarPair (operator : BinaryOperator) (left right : Value) : OnHeap Value := do
  match left, right with
  | .number first, .number second => return .number (← Number.apply operator first second)
  | .text handle, .number count =>
      if operator = .mul then newText (← Text.times ((← get).text handle) count)
      else invalidPair operator left right
  | .text first, .text second =>
      if operator.isOrdering then
        return .ofBool (Text.ordered operator ((← get).text first) ((← get).text second))
      else invalidPair operator left right
  | _, _ => invalidPair operator left right

theorem binaryWithin_succ {operator : BinaryOperator} (notEqual : operator ≠ .equal)
    (notUnequal : operator ≠ .notEqual) (room : Nat) (lefts rights : Path) (left right : Value) :
    binaryWithin operator (room + 1) lefts rights left right =
      if operator = .add ∧ (left.text?.isSome ∨ right.text?.isSome) then do
        newText ((← display left) ++ (← display right))
      else if left.list?.isSome ∨ right.list?.isSome then do
        let lefts ← lefts.enter left "broadcast over"
        let rights ← rights.enter right "broadcast over"
        mapPairs (binaryWithin operator room lefts rights) left right
      else scalarPair operator left right := by
  cases operator <;> first | contradiction | cases left <;> cases right <;> rfl

/-! ## Pairs that are not taken apart -/

section Scalars

variable {operator : BinaryOperator} {source heap : Heap} {left right : Value}
  {first second : Content}

theorem display_gives (grown : source.Grows heap) (reads : source.Reads left first)
    (acyclic : ¬ source.Cyclic left) : heap.display left = first.display := by
  rw [grown.display reads.held, reads.display acyclic]

variable (grown : source.Grows heap) (readsLeft : source.Reads left first)
  (readsRight : source.Reads right second) (acyclicLeft : ¬ source.Cyclic left)
  (acyclicRight : ¬ source.Cyclic right)

include grown readsLeft readsRight acyclicLeft acyclicRight

theorem invalidPair_gives :
    Gives (Made source) heap (invalidPair operator left right heap)
      (.error (Content.invalid operator first second)) := by
  unfold Content.invalid
  rw [← display_gives grown readsLeft acyclicLeft, ← display_gives grown readsRight acyclicRight]
  exact .error (.refl heap)

theorem join_gives :
    Gives (Made source) heap
      ((do newText ((← display left) ++ (← display right)) : OnHeap Value) heap)
      (.ok (.text (first.display ++ second.display))) := by
  rw [← display_gives grown readsLeft acyclicLeft, ← display_gives grown readsRight acyclicRight]
  exact .ok (.push_text heap _) (.text grown _)

theorem scalarPair_gives (apart : ¬ Content.joins operator first second)
    (notLeft : ¬ left.list?.isSome) (notRight : ¬ right.list?.isSome) :
    Gives (Made source) heap (scalarPair operator left right heap)
      (Content.settle operator first second) := by
  have invalid : Gives (Made source) heap (invalidPair operator left right heap)
      (.error (Content.invalid operator first second)) :=
    invalidPair_gives grown readsLeft readsRight acyclicLeft acyclicRight
  unfold Content.settle
  rw [if_neg apart]
  cases readsLeft with
  | number count =>
      cases readsRight with
      | number count' =>
          exact Gives.lift fun result => .ok (.refl heap) (.number source heap result)
      | list => exact absurd rfl notRight
      | _ => exact invalid
  | text held =>
      cases readsRight with
      | number count =>
          dsimp only [scalarPair]
          split
          · rw [← grown.text held]
            exact Gives.lift fun result => .ok (.push_text heap result) (.text grown result)
          · exact invalid
      | text held' =>
          dsimp only [scalarPair]
          split
          · rw [← grown.text held, ← grown.text held']
            exact .ok (.refl heap) (.number source heap _)
          · exact invalid
      | list => exact absurd rfl notRight
      | _ => exact invalid
  | list => exact absurd rfl notLeft
  | _ =>
      cases readsRight with
      | list => exact absurd rfl notRight
      | _ => exact invalid

end Scalars

end OnHeap

/-! ## The walk -/

/-- A walk has come to a value, and if it can go into it then only lists and objects that hold it
are open. -/
structure Visit.Standing (source : Heap) (root : Value) (visit : Visit) : Prop where
  reached : source.Reaches root visit.value
  ancestors : visit.value.container?.isSome → Ancestors source root visit.path visit.value

namespace Visit

section Standing

variable {source heap : Heap} {root : Value} {visit inner : Visit}

theorem Standing.start (source : Heap) (root : Value) : Standing source root (.start root) :=
  ⟨.refl source root, fun _ => .start source root⟩

/-- A walk meets again only what contains itself. -/
theorem Standing.cyclic (standing : Standing source root visit) (again : visit.Again) :
    source.Cyclic root := by
  cases opens : visit.value.container? with
  | none => simp [Again, Path.open?, opens] at again
  | some container => exact (standing.ancestors (by simp [opens])).cyclic again

theorem Standing.further (standing : Standing source root visit)
    (held : ∀ inner, source.Reaches root inner → source.Holds inner) (grown : source.Grows heap)
    (accompanies : visit.Accompanies heap inner)
    (notObject : ∀ handle, visit.value ≠ .object handle) : Standing source root inner := by
  obtain ⟨opened, element, same⟩ := accompanies
  cases isList : visit.value.list? with
  | none =>
      have leaf : visit.value.container? = none := by
        cases shape : visit.value <;> simp_all [Value.list?, Value.container?]
      rw [← same isList] at notObject leaf
      exact ⟨same isList ▸ standing.reached, fun opens => by simp [leaf] at opens⟩
  | some handle =>
      have member := element (by simp [isList])
      rw [grown.children (held _ standing.reached)] at member
      have opens : visit.value.container?.isSome := by
        cases shape : visit.value <;> simp_all [Value.list?, Value.container?]
      have ancestors := (standing.ancestors opens).descend opened member
      exact ⟨ancestors.reached, fun _ => ancestors⟩

end Standing

/-- An object stays where it is while a walk goes on to the elements of a list beside it. -/
theorem Accompanies.eq_of_object {heap : Heap} {visit inner : Visit} {handle : Nat}
    (accompanies : visit.Accompanies heap inner) (same : visit.value = .object handle) :
    inner.value = .object handle :=
  (accompanies.2.2 (by rw [same]; rfl)).trans same

/-- What has been entered is not entered again. -/
theorem again_of_open {path inside : Path} {value : Value} (opens : value.container?.isSome)
    (opened : path.open? value = some inside) : Again ⟨inside, value⟩ := by
  obtain ⟨container, same⟩ := Option.isSome_iff_exists.mp opens
  unfold Path.open? at opened
  simp only [same] at opened
  split at opened
  · cases opened
  · cases opened
    simp [Again, Path.open?, same]

end Visit

/-- Two places where a walk through two values can go on, with the contents there. -/
structure Visit.Fit (source : Heap) (root root' : Value) (room : Nat) (visits : Visit × Visit)
    (contents : Content × Content) : Prop where
  roomy : RoomyPair source root root' room visits
  standing : visits.1.Standing source root
  standing' : visits.2.Standing source root'
  reads : source.Reads visits.1.value contents.1
  reads' : source.Reads visits.2.value contents.2

namespace Visit.Fit

variable {source : Heap} {root root' : Value} {room : Nat} {visits : Visit × Visit}
  {contents pair' : Content × Content} {insideLeft insideRight : Path} {pair : Value × Value}
  (fit : Fit source root root' (room + 1) visits contents)
  (pairs : Pairs source visits (⟨insideLeft, pair.1⟩, ⟨insideRight, pair.2⟩))
  (reads : source.Reads pair.1 pair'.1) (reads' : source.Reads pair.2 pair'.2)

include fit pairs reads reads'

/-- A pair that is barred: a list, and an object that the walk is inside of. -/
theorem entered (barred : Content.bars contents.1 contents.2 pair') :
    ¬ (pair.1.text?.isSome ∨ pair.2.text?.isSome) ∧
      (pair.1.list?.isSome ∨ pair.2.list?.isSome) ∧
      (insideLeft.open? pair.1 = none ∨ insideRight.open? pair.2 = none) := by
  rcases by simpa [Content.bars] using barred with ⟨isObject, isList⟩ | ⟨isObject, isList⟩
  · obtain ⟨handle, same⟩ := fit.reads.isObject.mp isObject
    obtain ⟨handle', listed⟩ := reads'.exists_list isList
    have opened := pairs.2.1.1
    rw [same] at opened
    rw [show pair.1 = .object handle from pairs.2.1.eq_of_object same, listed]
    exact ⟨by simp [Value.text?], .inr rfl, .inl (again_of_open rfl opened)⟩
  · obtain ⟨handle, same⟩ := fit.reads'.isObject.mp isObject
    obtain ⟨handle', listed⟩ := reads.exists_list isList
    have opened := pairs.2.2.1
    rw [same] at opened
    rw [show pair.2 = .object handle from pairs.2.2.eq_of_object same, listed]
    exact ⟨by simp [Value.text?], .inl rfl, .inr (again_of_open rfl opened)⟩

/-- Any other pair with a list in it: the walk can go on, for beside an object there is no list. -/
theorem further (held : ∀ inner, source.Reaches root inner → source.Holds inner)
    (held' : ∀ inner, source.Reaches root' inner → source.Holds inner)
    (free : ¬ Content.bars contents.1 contents.2 pair')
    (someList : pair.1.list?.isSome ∨ pair.2.list?.isSome) :
    Fit source root root' room (⟨insideLeft, pair.1⟩, ⟨insideRight, pair.2⟩) pair' := by
  have notObject : ∀ handle, visits.1.value ≠ .object handle := by
    intro handle same
    have repeated : pair.1 = .object handle := pairs.2.1.eq_of_object same
    rw [repeated, ← reads'.isList] at someList
    have isList : pair'.2.isList := someList.resolve_left nofun
    exact free (by simp [Content.bars, fit.reads.isObject.mpr ⟨handle, same⟩, isList])
  have notObject' : ∀ handle, visits.2.value ≠ .object handle := by
    intro handle same
    have repeated : pair.2 = .object handle := pairs.2.2.eq_of_object same
    rw [repeated, ← reads.isList] at someList
    have isList : pair'.1.isList := someList.resolve_right nofun
    exact free (by simp [Content.bars, fit.reads'.isObject.mpr ⟨handle, same⟩, isList])
  exact ⟨fit.roomy.pairs held held' (.refl source) pairs,
    fit.standing.further held (.refl source) pairs.2.1 notObject,
    fit.standing'.further held' (.refl source) pairs.2.2 notObject', reads, reads'⟩

end Visit.Fit

namespace OnHeap

section Walk

variable {operator : BinaryOperator} (notEqual : operator ≠ .equal)
  (notUnequal : operator ≠ .notEqual)

include notEqual notUnequal

/-- An operator does not go into a list beside something that it is inside of already. -/
theorem binaryWithin_again {room : Nat} {lefts rights : Path} {left right : Value} {heap : Heap}
    (apart : ¬ (operator = .add ∧ (left.text?.isSome ∨ right.text?.isSome)))
    (someList : left.list?.isSome ∨ right.list?.isSome)
    (again : lefts.open? left = none ∨ rights.open? right = none) :
    binaryWithin operator room lefts rights left right heap =
      .error (.cyclicValue "broadcast over") heap := by
  cases room with
  | zero => rfl
  | succ room =>
      rw [binaryWithin_succ notEqual notUnequal, if_neg apart, if_pos someList]
      exact @enterBoth_of_again _ (⟨lefts, left⟩, ⟨rights, right⟩) again "broadcast over" _ heap

section Ends

variable {source heap : Heap} {left right : Value} {first second : Content} {room : Nat}
  {lefts rights : Path}

/-- A pair that is not taken apart, wherever the walk is. -/
theorem binaryWithin_gives_end (grown : source.Grows heap) (reads : source.Reads left first)
    (reads' : source.Reads right second) (acyclic : ¬ source.Cyclic left)
    (acyclic' : ¬ source.Cyclic right)
    (stops : Content.joins operator first second ∨ ¬ (left.list?.isSome ∨ right.list?.isSome)) :
    Gives (Made source) heap (binaryWithin operator (room + 1) lefts rights left right heap)
      (Content.combine operator true first second) := by
  rw [binaryWithin_succ notEqual notUnequal]
  split
  · next joined =>
    rw [Content.combine_of_joins ((reads.joins_iff reads' operator).mpr joined)]
    exact join_gives grown reads reads' acyclic acyclic'
  · next apart =>
    have notJoined : ¬ Content.joins operator first second :=
      mt (reads.joins_iff reads' operator).mp apart
    obtain ⟨notLeft, notRight⟩ := not_or.mp (stops.resolve_left notJoined)
    have ends : ¬ Content.descends operator first second := by
      simp [Content.descends, reads.isList, reads'.isList, notLeft, notRight]
    rw [if_neg (not_or.mpr ⟨notLeft, notRight⟩), Content.combine_of_ends ends]
    exact scalarPair_gives grown reads reads' acyclic acyclic' notJoined notLeft notRight

end Ends

variable {source : Heap} {root root' : Value}
  (held : ∀ inner, source.Reaches root inner → source.Holds inner)
  (held' : ∀ inner, source.Reaches root' inner → source.Holds inner)
  (acyclic : ¬ source.Cyclic root) (acyclic' : ¬ source.Cyclic root')

include held held' acyclic acyclic'

/-- The pairs of two values, once the walk is inside of both. A list beside an object is not gone
into a second time. -/
theorem pairs_give {room : Nat} {visits : Visit × Visit} {contents : Content × Content}
    {insideLeft insideRight : Path}
    (below : ∀ {visits : Visit × Visit} {contents : Content × Content} {heap : Heap},
      Visit.Fit source root root' room visits contents → source.Grows heap →
      Gives (Made source) heap
        (binaryWithin operator room visits.1.path visits.2.path visits.1.value visits.2.value heap)
        (Content.combine operator true contents.1 contents.2))
    (fit : Visit.Fit source root root' (room + 1) visits contents)
    (opened : visits.1.path.open? visits.1.value = some insideLeft)
    (opened' : visits.2.path.open? visits.2.value = some insideRight) :
    List.Forall₂ (fun pair pair' => ∀ heap, source.Grows heap →
        Gives (Made source) heap
          (binaryWithin operator room insideLeft insideRight pair.1 pair.2 heap)
          (if true && Content.bars contents.1 contents.2 pair' then
              .error (.cyclicValue "broadcast over")
            else Content.combine operator true pair'.1 pair'.2))
      (source.pairs visits.1.value visits.2.value) (Content.pairs contents.1 contents.2) := by
  have row := fit.reads.pairs fit.reads'
  rw [List.forall₂_iff_zip] at row ⊢
  refine ⟨row.1, fun {pair pair'} inZip heap grown => ?_⟩
  obtain ⟨reads, reads'⟩ := row.2 inZip
  have inPairs := (List.of_mem_zip inZip).1
  have pairs : Visit.Pairs source visits (⟨insideLeft, pair.1⟩, ⟨insideRight, pair.2⟩) :=
    .of_mem opened opened' inPairs
  split
  · next barred =>
    obtain ⟨noText, someList, again⟩ := fit.entered pairs reads reads' barred
    rw [binaryWithin_again notEqual notUnequal (fun joined => noText joined.2) someList again]
    exact .error (.refl heap)
  · next free =>
    by_cases someList : pair.1.list?.isSome ∨ pair.2.list?.isSome
    · exact below (fit.further pairs reads reads' held held' free someList) grown
    · have roomy := fit.roomy.pairs held held' (.refl source) pairs
      obtain ⟨less, rfl⟩ := Nat.exists_eq_add_of_le' roomy.1
      obtain ⟨_, beside, beside'⟩ := Heap.mem_pairs inPairs
      exact binaryWithin_gives_end notEqual notUnequal grown reads reads'
        (mt (fit.standing.reached.trans beside.reaches).cyclic acyclic)
        (mt (fit.standing'.reached.trans beside'.reaches).cyclic acyclic') (.inr someList)

/-- A walk that can go on does with two values what the rules do with their contents. -/
theorem binaryWithin_gives {room : Nat} {visits : Visit × Visit} {contents : Content × Content}
    {heap : Heap}
    (fit : Visit.Fit source root root' room visits contents) (grown : source.Grows heap) :
    Gives (Made source) heap
      (binaryWithin operator room visits.1.path visits.2.path visits.1.value visits.2.value heap)
      (Content.combine operator true contents.1 contents.2) := by
  induction room generalizing visits contents heap with
  | zero => exact absurd fit.roomy.1 (by decide)
  | succ room inductionHypothesis =>
      by_cases goesIn : ¬ Content.joins operator contents.1 contents.2 ∧
        (visits.1.value.list?.isSome ∨ visits.2.value.list?.isSome)
      · obtain ⟨apart, someList⟩ := goesIn
        obtain ⟨insideLeft, opened⟩ := Option.ne_none_iff_exists'.mp
          (mt fit.standing.cyclic acyclic : visits.1.path.open? visits.1.value ≠ none)
        obtain ⟨insideRight, opened'⟩ := Option.ne_none_iff_exists'.mp
          (mt fit.standing'.cyclic acyclic' : visits.2.path.open? visits.2.value ≠ none)
        have notJoined : ¬ (operator = .add ∧
            (visits.1.value.text?.isSome ∨ visits.2.value.text?.isSome)) :=
          mt (fit.reads.joins_iff fit.reads' operator).mpr apart
        have holds := held _ fit.standing.reached
        have holds' := held' _ fit.standing'.reached
        rw [binaryWithin_succ notEqual notUnequal, if_neg notJoined, if_pos someList,
          enter_of_open opened, enter_of_open opened', mapPairs_eq someList, read_apply,
          grown.pairs holds holds', grown.length holds, grown.length holds']
        split
        · next uneven =>
          rw [Content.combine_of_uneven ((fit.reads.uneven_iff fit.reads').mpr uneven),
            fit.reads.length, fit.reads'.length]
          exact .error (.refl heap)
        · next even =>
          have goesOn : Content.descends operator contents.1 contents.2 := by
            have even := mt (fit.reads.uneven_iff fit.reads').mp even
            rw [← fit.reads.isList, ← fit.reads'.isList] at someList
            simp [Content.descends, apart, someList, even]
          rw [Content.combine_of_descends goesOn]
          have row := pairs_give notEqual notUnequal held held' acyclic acyclic' inductionHypothesis
            fit opened opened'
          refine (Gives.mapM grown row).bind fun values results later grows made => ?_
          exact .ok (.push_list later values.toArray) (.list (grown.trans grows) made)
      · exact binaryWithin_gives_end notEqual notUnequal grown fit.reads fit.reads'
          (mt fit.standing.reached.cyclic acyclic)
          (mt fit.standing'.reached.cyclic acyclic')
          ((Decidable.not_and_iff_not_or_not.mp goesIn).imp_left Decidable.not_not.mp)

end Walk

section Operands

variable {operator : BinaryOperator} {heap later : Heap} {left right : Value}
  {first second : Content} {negate : Bool} {error : RuntimeError}
  (held : ∀ inner, heap.Reaches left inner → heap.Holds inner)
  (held' : ∀ inner, heap.Reaches right inner → heap.Holds inner)

include held held'

/-- An operator does with operands that do not contain themselves what it does with their contents,
in new cells. -/
theorem binary_gives (notEqual : operator ≠ .equal) (notUnequal : operator ≠ .notEqual)
    (acyclic : ¬ heap.Cyclic left) (acyclic' : ¬ heap.Cyclic right)
    (reads : heap.Reads left first) (reads' : heap.Reads right second) :
    Gives (Made heap) heap (binary operator left right heap)
      (Content.combine operator true first second) := by
  have fit : Visit.Fit heap left right heap.room (.start left, .start right) (first, second) :=
    ⟨.start heap left right, .start heap left, .start heap right, reads, reads'⟩
  exact binaryWithin_gives notEqual notUnequal held held' acyclic acyclic' fit (.refl heap)

/-- A comparison fails only for an operand that contains itself. -/
theorem cyclic_of_equality (failed : equality negate left right heap = .error error later) :
    heap.Cyclic left ∨ heap.Cyclic right := by
  have faults : Faults (.since heap) (fun _ => heap.Cyclic left ∨ heap.Cyclic right)
      (equalityWithin negate heap.room [] [] left right) := by
    refine equalityWithin_faults (fun room visits => Visit.RoomyPair heap left right room visits ∧
      visits.1.Standing heap left ∧ visits.2.Standing heap right) ?_ ?_ ?_ ?_
    · rintro visits ⟨roomy, _⟩
      exact absurd roomy.1 (by decide)
    · rintro room visits ⟨_, standing, standing'⟩ again
      exact again.imp standing.cyclic standing'.cyclic
    · rintro room visits later inner grown ⟨roomy, standing, standing'⟩ apart pairs
      obtain ⟨notObject, notObject'⟩ := Value.ne_object_of_compared apart
      exact ⟨roomy.pairs held held' grown pairs, standing.further held grown pairs.2.1 notObject,
        standing'.further held' grown pairs.2.2 notObject'⟩
    · exact ⟨.start heap left right, .start heap left, .start heap right⟩
  exact (faults heap (.refl heap)).2 error later failed

end Operands

/-- Arithmetic and orderings on operands made of numbers, texts and lists that do not contain
themselves: what comes out is what the rules make of the contents, without any paths, in cells that
are all new. A result has the length of the list operand at every level; a failure is that of the
first pair that fails, depth first and from left to right. The operands stay as they are. -/
theorem binary_broadcasts (operator : BinaryOperator) (notEqual : operator ≠ .equal)
    (notUnequal : operator ≠ .notEqual) (heap : Heap) (left right : Value)
    (held : ∀ position inner, heap.at? left position = some inner → heap.Holds inner)
    (held' : ∀ position inner, heap.at? right position = some inner → heap.Holds inner)
    (plain : ∀ position inner, heap.at? left position = some inner → inner.isPlain)
    (plain' : ∀ position inner, heap.at? right position = some inner → inner.isPlain)
    (acyclic : ¬ heap.Cyclic left) (acyclic' : ¬ heap.Cyclic right) :
    ∃ first second, heap.Reads left first ∧ heap.Reads right second ∧
      Gives (Made heap) heap (binary operator left right heap)
        (Content.combine operator false first second) ∧
      (∀ content, Content.combine operator false first second = .ok content →
        Content.Spans operator first second content) ∧
      ∀ error, Content.combine operator false first second = .error error →
        ∃ before pair after, Content.ends operator first second = before ++ pair :: after ∧
          (∀ earlier ∈ before,
            ∃ result, Content.settle operator earlier.1 earlier.2 = .ok result) ∧
          Content.settle operator pair.1 pair.2 = .error error := by
  have reached : ∀ inner, heap.Reaches left inner → heap.Holds inner :=
    fun inner ⟨position, found⟩ => held position inner found
  have reached' : ∀ inner, heap.Reaches right inner → heap.Holds inner :=
    fun inner ⟨position, found⟩ => held' position inner found
  obtain ⟨first, reads⟩ := Heap.exists_reads reached acyclic
  obtain ⟨second, reads'⟩ := Heap.exists_reads reached' acyclic'
  have plainFirst : first.Plain := reads.plain fun inner ⟨position, found⟩ =>
    plain position inner found
  have plainSecond : second.Plain := reads'.plain fun inner ⟨position, found⟩ =>
    plain' position inner found
  refine ⟨first, second, reads, reads', ?_, fun content => Content.spans_of_combine,
    fun error => Content.first_failure⟩
  rw [← plainFirst.combine_tracking plainSecond]
  exact binary_gives reached reached' notEqual notUnequal acyclic acyclic' reads reads'

/-- A list of texts that stands twice in another list, beside one text. -/
theorem binary_broadcasts_shared :
    let heap := { Heap.empty with
      texts := #["a", "b"], lists := #[#[.text 0], #[.list 0, .list 0]] }
    let row := Content.list [.number (.ofBool true)]
    ∃ value later, binary .less (.list 1) (.text 1) heap = .ok value later ∧
      heap.Grows later ∧ Made heap later value (.list [row, row]) := by
  intro heap row
  let values : List Value := [.list 1, .list 0, .text 0, .text 1]
  have closed : ∀ value ∈ values, ∀ child ∈ heap.children value, child ∈ values := by
    simp [heap, values, Heap.children, Heap.list]
  have held : ∀ inner ∈ values, heap.Holds inner := by decide
  have plain : ∀ inner ∈ values, inner.isPlain := by decide
  have within : ∀ top ∈ values, ∀ position inner, heap.at? top position = some inner →
      inner ∈ values := fun _ isTop _ _ found => Heap.at?_of_closed closed isTop found
  have shallow : heap.Shallow 3 (.list 1) :=
    .of_children fun child member => .of_children fun inner inside =>
      .of_children fun last below => by simp_all [heap, Heap.children, Heap.list]
  have shallow' : heap.Shallow 1 (.text 1) := .of_children (by simp [Heap.children])
  obtain ⟨first, second, reads, reads', gives, _⟩ :=
    binary_broadcasts .less (by decide) (by decide) heap (.list 1) (.text 1)
      (fun position inner found => held _ (within _ (by simp [values]) position inner found))
      (fun position inner found => held _ (within _ (by simp [values]) position inner found))
      (fun position inner found => plain _ (within _ (by simp [values]) position inner found))
      (fun position inner found => plain _ (within _ (by simp [values]) position inner found))
      shallow.not_cyclic shallow'.not_cyclic
  have element : heap.Reads (.list 0) (.list [.text "a"]) :=
    Heap.reads_list.mpr ⟨by decide, .cons (.text (by decide)) .nil⟩
  have elements : heap.Reads (.list 1) (.list [.list [.text "a"], .list [.text "a"]]) :=
    Heap.reads_list.mpr ⟨by decide, .cons element (.cons element .nil)⟩
  obtain rfl := reads.unique elements
  obtain rfl := reads'.unique (.text (by decide))
  have inner : Content.combine .less false (.list [.text "a"]) (.text "b") = .ok row :=
    (Content.combine_row rfl).mpr ⟨_, rfl, .cons (Content.combine_of_ends (by decide)) .nil⟩
  have outer : Content.combine .less false (.list [.list [.text "a"], .list [.text "a"]])
      (.text "b") = .ok (.list [row, row]) :=
    (Content.combine_row rfl).mpr ⟨_, rfl, .cons inner (.cons inner .nil)⟩
  have shown : heap.text 1 = "b" := rfl
  rw [shown, outer] at gives
  generalize binary .less (.list 1) (.text 1) heap = result at gives
  cases gives with
  | ok grows made => exact ⟨_, _, rfl, grows, made⟩

/-- An operator reports a value inside itself only if an operand contains itself, or where an object
stands beside a list that has a list in it. For operands that do not contain themselves it does so
exactly if such an object is the first thing that fails; the rules alone never do. -/
theorem binary_cyclicValue (operator : BinaryOperator) (heap : Heap) (left right : Value)
    (held : ∀ position inner, heap.at? left position = some inner → heap.Holds inner)
    (held' : ∀ position inner, heap.at? right position = some inner → heap.Holds inner) :
    (∀ name later, binary operator left right heap = .error (.cyclicValue name) later →
      heap.Cyclic left ∨ heap.Cyclic right ∨
        operator ≠ .equal ∧ operator ≠ .notEqual ∧ ∃ first second,
          heap.Reads left first ∧ heap.Reads right second ∧
            Content.Clashes operator first second) ∧
    (¬ heap.Cyclic left → ¬ heap.Cyclic right → operator ≠ .equal → operator ≠ .notEqual →
      ∃ first second, heap.Reads left first ∧ heap.Reads right second ∧
        ∀ name, Content.combine operator false first second ≠ .error (.cyclicValue name) ∧
          ((∃ later, binary operator left right heap = .error (.cyclicValue name) later) ↔
            Content.combine operator true first second = .error (.cyclicValue name))) := by
  have reached : ∀ inner, heap.Reaches left inner → heap.Holds inner :=
    fun inner ⟨position, found⟩ => held position inner found
  have reached' : ∀ inner, heap.Reaches right inner → heap.Holds inner :=
    fun inner ⟨position, found⟩ => held' position inner found
  have exactly (acyclic : ¬ heap.Cyclic left) (acyclic' : ¬ heap.Cyclic right)
      (notEqual : operator ≠ .equal) (notUnequal : operator ≠ .notEqual) :
      ∃ first second, heap.Reads left first ∧ heap.Reads right second ∧
        ∀ name, Content.combine operator false first second ≠ .error (.cyclicValue name) ∧
          ((∃ later, binary operator left right heap = .error (.cyclicValue name) later) ↔
            Content.combine operator true first second = .error (.cyclicValue name)) := by
    obtain ⟨first, reads⟩ := Heap.exists_reads reached acyclic
    obtain ⟨second, reads'⟩ := Heap.exists_reads reached' acyclic'
    have gives := binary_gives reached reached' notEqual notUnequal acyclic acyclic' reads reads'
    refine ⟨first, second, reads, reads', fun name =>
      ⟨Content.combine_false_ne_cyclicValue, ?_⟩⟩
    generalize binary operator left right heap = result at gives
    generalize Content.combine operator true first second = outcome at gives
    cases gives with
    | ok grows shows => exact ⟨nofun, nofun⟩
    | @error error later grows =>
        constructor
        · rintro ⟨_, same⟩
          cases same
          rfl
        · intro same
          cases same
          exact ⟨later, rfl⟩
  refine ⟨fun name later failed => ?_, exactly⟩
  by_cases notEqual : operator = .equal
  · subst notEqual
    rw [binary_equal] at failed
    exact (cyclic_of_equality reached reached' failed).imp_right .inl
  by_cases notUnequal : operator = .notEqual
  · subst notUnequal
    rw [binary_notEqual] at failed
    exact (cyclic_of_equality reached reached' failed).imp_right .inl
  refine or_iff_not_imp_left.mpr fun acyclic => or_iff_not_imp_left.mpr fun acyclic' => ?_
  obtain ⟨first, second, reads, reads', reports⟩ := exactly acyclic acyclic' notEqual notUnequal
  have combined := (reports name).2.mp ⟨later, failed⟩
  exact ⟨notEqual, notUnequal, first, second, reads, reads', Content.clashes_of_combine combined⟩

/-- An object beside a list of lists, neither of which contains itself. -/
theorem binary_cyclicValue_object :
    let heap := { Heap.empty with lists := #[#[.list 1], #[.number .one]], objects := #[∅] }
    ¬ heap.Cyclic (.list 0) ∧ ¬ heap.Cyclic (.object 0) ∧
      (∃ later, binary .mul (.list 0) (.object 0) heap =
        .error (.cyclicValue "broadcast over") later) ∧
      ∃ first second, heap.Reads (.list 0) first ∧ heap.Reads (.object 0) second ∧
        Content.Clashes .mul first second := by
  intro heap
  let values : List Value := [.list 0, .list 1, .number .one, .object 0]
  have empty : heap.children (.object 0) = [] := rfl
  have closed : ∀ value ∈ values, ∀ child ∈ heap.children value, child ∈ values := by
    simp [values, empty]
    simp [heap, Heap.children, Heap.list]
  have held : ∀ inner ∈ values, heap.Holds inner := by decide
  have within : ∀ top ∈ values, ∀ position inner, heap.at? top position = some inner →
      heap.Holds inner :=
    fun _ isTop _ _ found => held _ (Heap.at?_of_closed closed isTop found)
  have shallow : heap.Shallow 3 (.list 0) :=
    .of_children fun child member => .of_children fun inner inside =>
      .of_children fun last below => by simp_all [heap, Heap.children, Heap.list]
  have shallow' : heap.Shallow 1 (.object 0) := .of_children (by simp [empty])
  obtain ⟨later, failed⟩ : ∃ later, binary .mul (.list 0) (.object 0) heap =
      .error (.cyclicValue "broadcast over") later := ⟨_, rfl⟩
  have reports := (binary_cyclicValue .mul heap (.list 0) (.object 0)
    (within _ (by simp [values])) (within _ (by simp [values]))).1 _ later failed
  obtain ⟨_, _, clashes⟩ :=
    (reports.resolve_left shallow.not_cyclic).resolve_left shallow'.not_cyclic
  exact ⟨shallow.not_cyclic, shallow'.not_cyclic, ⟨later, failed⟩, clashes⟩

end OnHeap

end Fixity
