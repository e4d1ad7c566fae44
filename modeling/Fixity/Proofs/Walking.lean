import Fixity.Proofs.Copies
import Fixity.Proofs.Recursion
import Fixity.Proofs.Refusals

/-!
Contract: walks through values that only add cells to the heap.

Owns:
- `OnHeap.Agree`, computations that do the same wherever the first failure to tell them apart has
  not stopped them, with its rules tagged for `grind`;
- `Walk`, one level of a walk, the places it must not go into, and the walk as a recursion without
  bound (`Walk.recursion`) and within a bound (`Walk.within`);
- `Walk.Finishes`: such a recursion ends, and a place it must not go into fails it;
- `Walk.Local`, walks whose levels only look at a place and go on to certain other ones.

Main statement: a local walk finishes with what it answers within a bound, if the bound can not be
reached.
-/

namespace Fixity

/-- A kind of heaps that with each one contains all that grow from it. -/
structure Heaps where
  holds : Heap → Prop
  grown : ∀ {heap heap' : Heap}, holds heap → heap.Grows heap' → holds heap'

/-- All heaps. -/
def Heaps.all : Heaps := ⟨fun _ => True, fun _ _ => trivial⟩

/-- The heaps that grow from a given one. -/
def Heaps.since (source : Heap) : Heaps := ⟨source.Grows, fun earlier later => earlier.trans later⟩

namespace OnHeap

variable {α β : Type} {heaps : Heaps} {stop : Option (RuntimeError × Heap)}

/-- On heaps of a kind two computations do the same and leave a heap of that kind, or the second one
stops with the failure named, if one is. -/
def Agree (heaps : Heaps) (stop : Option (RuntimeError × Heap)) (first second : OnHeap α) : Prop :=
  ∀ heap, heaps.holds heap →
    (first heap = second heap ∧ heaps.holds (second.after heap)) ∨
      ∃ error heap', stop = some (error, heap') ∧ second heap = .error error heap'

namespace Agree

/-- A computation that adds cells at most agrees with itself. -/
theorem of_grows {action : OnHeap α} (grows : ∀ heap : Heap, heap.Grows (action.after heap)) :
    Agree heaps stop action action :=
  fun heap holds => .inl ⟨rfl, heaps.grown holds (grows heap)⟩

@[grind ←]
theorem pure (value : α) : Agree heaps stop (pure value) (pure value) :=
  .of_grows Heap.Grows.refl

@[grind ←]
theorem throw (error : RuntimeError) : Agree heaps stop (throw error : OnHeap α) (throw error) :=
  .of_grows Heap.Grows.refl

@[grind ←]
theorem lift (outcome : Outcome α) :
    Agree heaps stop (liftM outcome : OnHeap α) (liftM outcome) := by
  cases outcome with
  | ok value => exact .pure value
  | error error => exact .throw error

@[grind ←]
theorem bind {first second : OnHeap α} {next next' : α → OnHeap β}
    (agree : Agree heaps stop first second)
    (continued : ∀ value, Agree heaps stop (next value) (next' value)) :
    Agree heaps stop (first >>= next) (second >>= next') := by
  intro heap holds
  obtain ⟨same, kept⟩ | ⟨error, heap', stops, failed⟩ := agree heap holds
  · unfold OnHeap.after at kept
    cases ran : second heap with
    | ok value middle =>
        rw [ran] at same kept
        have afterwards := continued value middle kept
        rw [bind_of_ok same, bind_of_ok ran]
        unfold OnHeap.after at afterwards ⊢
        rw [bind_of_ok ran]
        exact afterwards
    | error error middle =>
        rw [ran] at same kept
        refine .inl ⟨by rw [bind_of_error same, bind_of_error ran], ?_⟩
        unfold OnHeap.after
        rw [bind_of_error ran]
        exact kept
  · exact .inr ⟨error, heap', stops, bind_of_error failed⟩

/-- What is read is a heap of the kind. -/
theorem read {next next' : Heap → OnHeap β}
    (continued : ∀ heap, heaps.holds heap → Agree heaps stop (next heap) (next' heap)) :
    Agree heaps stop (get >>= next) (get >>= next') :=
  fun heap holds => continued heap holds heap holds

theorem mapM {first second : α → OnHeap β} {items : List α}
    (each : ∀ item ∈ items, Agree heaps stop (first item) (second item)) :
    Agree heaps stop (items.mapM first) (items.mapM second) := by
  induction items with
  | nil => exact .pure []
  | cons item rest inductionHypothesis =>
      rw [List.mapM_cons, List.mapM_cons]
      have others := inductionHypothesis fun other member =>
        each other (List.mem_cons_of_mem _ member)
      exact .bind (each item List.mem_cons_self) fun _ => .bind others fun _ => .pure _

@[grind ←]
theorem newText (content : String) : Agree heaps stop (newText content) (newText content) :=
  .of_grows fun heap => .push_text heap content

@[grind ←]
theorem newListOf (elements : List Value) :
    Agree heaps stop (newListOf elements) (newListOf elements) :=
  .of_grows fun heap => .push_list heap elements.toArray

@[grind ←]
theorem newObject (entries : Dict Value) :
    Agree heaps stop (newObject entries) (newObject entries) :=
  .of_grows fun heap => .push_object heap entries

@[grind ←]
theorem newFunction (content : Function) :
    Agree heaps stop (newFunction content) (newFunction content) :=
  .of_grows fun heap => .push_function heap content

@[grind ←]
theorem newNode (tree : Node) : Agree heaps stop (newNode tree) (newNode tree) :=
  .of_grows fun heap => .push_node heap tree

@[grind ←]
theorem display (value : Value) : Agree heaps stop (display value) (display value) :=
  .of_grows Heap.Grows.refl

end Agree

end OnHeap

/-! ## Walks -/

/-- A walk that comes from place to place, as what one level of it does. -/
structure Walk (Place Answer : Type) where
  /-- The name of the walk in messages. -/
  operation : String
  /-- What the walk does at a place, given what it does at the others. -/
  level : (Place → OnHeap Answer) → Place → OnHeap Answer
  /-- The places that the walk would go into, but is inside of already. -/
  Again : Place → Prop

namespace Walk

variable {Place Answer : Type}

/-- The walk without a bound: it comes to a place and finds a heap there. -/
def recursion (walk : Walk Place Answer) :
    Recursion (Place × Heap) (EStateM.Result RuntimeError Heap Answer) :=
  fun answers question => walk.level (fun place heap => answers (place, heap)) question.1 question.2

/-- The walk within a number of levels. -/
def within (walk : Walk Place Answer) : Nat → Place → OnHeap Answer
  | 0, _ => throw (.cyclicValue walk.operation)
  | room + 1, place => walk.level (walk.within room) place

/-- A walk from a place finishes with a result: as a recursion without bound it ends so, and if it
meets a place that it is inside of already, it fails there and then, naming the walk. -/
structure Finishes (walk : Walk Place Answer) (place : Place) (heap : Heap)
    (result : EStateM.Result RuntimeError Heap Answer) : Prop where
  ends : walk.recursion.Ends (place, heap) result
  fails : ∀ inner heap', walk.recursion.Meets (place, heap) (inner, heap') → walk.Again inner →
    result = .error (.cyclicValue walk.operation) heap'

/-- A walk whose levels go on, from a place, to certain others only, hand their failures on, and
refuse to go into a place that the walk is inside of. -/
structure Local (walk : Walk Place Answer) (GoesOn : Heap → Place → Place → Prop) : Prop where
  refuses : ∀ (others : Place → OnHeap Answer) (place : Place) (heap : Heap), walk.Again place →
    walk.level others place heap = .error (.cyclicValue walk.operation) heap
  agree : ∀ {heaps : Heaps} {stop : Option (RuntimeError × Heap)}
    {first second : Place → OnHeap Answer} {place : Place},
    (∀ heap other, heaps.holds heap → GoesOn heap place other →
      OnHeap.Agree heaps stop (first other) (second other)) →
    OnHeap.Agree heaps stop (walk.level first place) (walk.level second place)

namespace Local

variable {walk : Walk Place Answer} {GoesOn : Heap → Place → Place → Prop}

theorem within_agree (here : walk.Local GoesOn) {heaps : Heaps}
    {stop : Option (RuntimeError × Heap)} (room : Nat) (place : Place) :
    OnHeap.Agree heaps stop (walk.within room place) (walk.within room place) := by
  induction room generalizing place with
  | zero => exact .throw _
  | succ room inductionHypothesis => exact here.agree fun _ other _ _ => inductionHypothesis other

/-- A failure further down is the failure of the walk. -/
theorem handsOn (here : walk.Local GoesOn) (error : RuntimeError) (heap : Heap) :
    walk.recursion.HandsOn (.error error heap) := by
  intro answers answers' question other failed elsewhere
  have each (place : Place) : OnHeap.Agree .all (some (error, heap))
      (fun heap => answers' (place, heap)) fun heap => answers (place, heap) := by
    intro found _
    by_cases isOther : (place, found) = other
    · exact .inr ⟨error, heap, rfl, (congrArg answers isOther).trans failed⟩
    · exact .inl ⟨elsewhere _ isOther, trivial⟩
  obtain ⟨same, _⟩ | ⟨_, _, stops, failed⟩ :=
    here.agree (fun _ place _ _ => each place) question.2 trivial
  · exact .inl same
  · cases stops
    exact .inr failed

/-- The walk within a bound is the walk without one, if every level has room for the next. -/
theorem ends (here : walk.Local GoesOn) {heaps : Heaps} {Enough : Nat → Place → Prop}
    (roomy : ∀ place, ¬ Enough 0 place)
    (further : ∀ {room place heap other}, heaps.holds heap → Enough (room + 1) place →
      GoesOn heap place other → Enough room other)
    {room : Nat} {place : Place} {heap : Heap} (holds : heaps.holds heap)
    (enough : Enough room place) :
    walk.recursion.Ends (place, heap) (walk.within room place heap) := by
  induction room generalizing place heap with
  | zero => exact absurd enough (roomy place)
  | succ room inductionHypothesis =>
      refine .intro (fun question => heaps.holds question.2 ∧ Enough room question.1)
        (fun question => walk.within room question.1 question.2)
        (fun question asked => inductionHypothesis asked.1 asked.2) fun answers agrees => ?_
      have each (other : Place) (enoughThere : Enough room other) : OnHeap.Agree heaps none
          (fun heap => answers (other, heap)) (walk.within room other) := by
        intro found holdsThere
        have itself : OnHeap.Agree heaps none (walk.within room other) (walk.within room other) :=
          here.within_agree room other
        obtain ⟨_, kept⟩ | ⟨_, _, absent, _⟩ := itself found holdsThere
        · exact .inl ⟨agrees (other, found) ⟨holdsThere, enoughThere⟩, kept⟩
        · cases absent
      obtain ⟨same, _⟩ | ⟨_, _, absent, _⟩ :=
        here.agree
          (fun heap other holdsThere goesOn => each other (further holdsThere enough goesOn))
          heap holds
      · exact same
      · cases absent

/-- A walk with room enough finishes. -/
theorem finishes (here : walk.Local GoesOn) (heaps : Heaps) (Enough : Nat → Place → Prop)
    (roomy : ∀ place, ¬ Enough 0 place)
    (further : ∀ {room place heap other}, heaps.holds heap → Enough (room + 1) place →
      GoesOn heap place other → Enough room other)
    {room : Nat} {place : Place} {heap : Heap} (holds : heaps.holds heap)
    (enough : Enough room place) : walk.Finishes place heap (walk.within room place heap) := by
  have ends := here.ends roomy further holds enough
  refine ⟨ends, fun inner heap' meets again => ?_⟩
  exact ends.of_meets (here.handsOn _ _) meets
    (.of_const fun answers => here.refuses _ inner heap' again)

end Local

end Walk

end Fixity
