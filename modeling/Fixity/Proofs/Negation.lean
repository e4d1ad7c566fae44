import Fixity.Proofs.Contents

/-!
Contract: `=` and `!=` beside each other.

Owns:
- `Heap.Mixed`, two values that have a list beside a number or a text at matching places of lists;
- `Heap.Negates`, how the results of `=` and `!=` for two values go together.

Does not own: comparisons that fail.

Main statement: where neither comparison fails, both give a number or both give lists of the same
length, down to numbers. The two numbers are not both 0. They are both 1 exactly where `=` gives 1
although the two values are mixed, for the list of answers that a mixed pair gives counts as true
either way.
-/

namespace Fixity

namespace Heap

/-- A list stands beside a number or a text, at the top or at matching places of two lists. -/
inductive Mixed (heap : Heap) : Value → Value → Prop
  | here {left right : Value} (spreads : left.spreads right) : Mixed heap left right
  | inside {left right : Value} {pair : Value × Value} (bothLists : left.bothLists right)
      (member : pair ∈ heap.pairs left right) (mixed : Mixed heap pair.1 pair.2) :
      Mixed heap left right

/-- How the results of `=` and of `!=` for two values go together: as two numbers, or as two lists
with results for the same pairs in the same order. -/
inductive Negates (heap : Heap) : Value → Value → Content → Content → Prop
  | single {left right : Value} {equal unequal : Bool} (alone : ¬ left.spreads right)
      (negated : unequal = true ↔ equal = false ∨ heap.Mixed left right) :
      Negates heap left right (.number (.ofBool equal)) (.number (.ofBool unequal))
  | spread {left right : Value} {rows : List ((Value × Value) × Content × Content)}
      (spreads : left.spreads right) (all : rows.map Prod.fst = heap.pairs left right)
      (each : ∀ row ∈ rows, Negates heap row.1.1 row.1.2 row.2.1 row.2.2) :
      Negates heap left right (.list (rows.map (·.2.1))) (.list (rows.map (·.2.2)))

variable {heap later : Heap} {left right : Value}

theorem mixed_iff_of_bothLists (bothLists : left.bothLists right) :
    heap.Mixed left right ↔ ∃ pair ∈ heap.pairs left right, heap.Mixed pair.1 pair.2 := by
  constructor
  · rintro (spreads | ⟨_, member, mixed⟩)
    · cases left <;> cases right <;> simp_all [Value.spreads, Value.bothLists, Value.list?]
    · exact ⟨_, member, mixed⟩
  · rintro ⟨pair, member, mixed⟩
    exact .inside bothLists member mixed

theorem not_mixed (alone : ¬ left.spreads right) (notLists : ¬ left.bothLists right) :
    ¬ heap.Mixed left right := by
  rintro (spreads | ⟨bothLists, _, _⟩)
  · exact alone spreads
  · exact notLists bothLists

end Heap

namespace OnHeap

/-- Of two computations that succeed, on heaps grown from a given one, the first gives what `=` does
for two values and the second what `!=` does. -/
def Opposes (source : Heap) (left right : Value) (equality inequality : OnHeap Value) : Prop :=
  ∀ {heap heap' later later' : Heap} {value value' : Value}, source.Grows heap →
    source.Grows heap' → equality heap = .ok value later → inequality heap' = .ok value' later' →
    ∃ equal unequal, Made source later value equal ∧ Made source later' value' unequal ∧
      source.Negates left right equal unequal

/-! ## Successful comparisons -/

theorem enter_eq_ok {β : Type} {path : Path} {value : Value} {operation : String}
    {next : Path → OnHeap β} {heap later : Heap} {result : β} :
    ((liftM (path.enter value operation) : OnHeap Path) >>= next) heap = .ok result later ↔
      ∃ inside, path.open? value = some inside ∧ next inside heap = .ok result later := by
  unfold Path.enter
  cases path.open? value with
  | none => exact ⟨nofun, nofun⟩
  | some inside =>
      constructor
      · intro ran
        exact ⟨inside, rfl, ran⟩
      · rintro ⟨_, same, ran⟩
        cases same
        exact ran

theorem isTruthy_ofBool (truth : Bool) : (Value.ofBool truth).isTruthy = truth := by
  cases truth <;> rfl

/-- A list counts as true, whatever answers are in it. -/
theorem isTruthy_of_reads_list {heap : Heap} {value : Value} {contents : List Content}
    (reads : heap.Reads value (.list contents)) : value.isTruthy = true := by
  cases reads
  rfl

theorem eq_ofBool_of_reads {heap : Heap} {value : Value} {truth : Bool}
    (reads : heap.Reads value (.number (.ofBool truth))) : value = .ofBool truth := by
  cases reads
  rfl

section Rows

variable {source heap heap' later later' : Heap} {room : Nat} {lefts rights : Path}
  {pairs : List (Value × Value)}

variable (each : ∀ pair ∈ pairs, Opposes source pair.1 pair.2
    (equalityWithin false room lefts rights pair.1 pair.2)
    (equalityWithin true room lefts rights pair.1 pair.2))

include each

/-- The pairs of two lists: unless all of them are equal some pair is unequal, and if all of them
are equal then only a mixed one counts as unequal too. -/
theorem allPairs_opposes (grown : source.Grows heap) (grown' : source.Grows heap')
    {equal unequal : Bool}
    (ran : allPairs (equalityWithin false room lefts rights) false pairs heap = .ok equal later)
    (ran' : allPairs (equalityWithin true room lefts rights) true pairs heap' =
      .ok unequal later') :
    unequal = true ↔ equal = false ∨ ∃ pair ∈ pairs, source.Mixed pair.1 pair.2 := by
  induction pairs generalizing heap heap' with
  | nil =>
      cases ran
      cases ran'
      simp
  | cons pair rest inductionHypothesis =>
      obtain ⟨answer, middle, first, others⟩ := bind_eq_ok.mp ran
      obtain ⟨answer', middle', first', others'⟩ := bind_eq_ok.mp ran'
      obtain ⟨content, content', made, made', negates⟩ :=
        each pair List.mem_cons_self grown grown' first first'
      rw [List.exists_mem_cons_iff]
      cases negates with
      | spread spreads all below =>
          -- two lists of answers: `=` goes on and `!=` does not
          rw [isTruthy_of_reads_list made'.reads] at others'
          cases others'
          exact iff_of_true rfl (.inr (.inl (.here spreads)))
      | @single _ _ equalHere unequalHere alone negated =>
          rw [eq_ofBool_of_reads made.reads, isTruthy_ofBool] at others
          rw [eq_ofBool_of_reads made'.reads, isTruthy_ofBool] at others'
          cases equalHere with
          | false =>
              obtain rfl : unequalHere = true := negated.mpr (.inl rfl)
              cases others
              cases others'
              exact iff_of_true rfl (.inl rfl)
          | true =>
              cases unequalHere with
              | true =>
                  cases others'
                  have mixed := (negated.mp rfl).resolve_left nofun
                  exact iff_of_true rfl (.inr (.inl mixed))
              | false =>
                  have notMixed := mt (negated.mpr ∘ .inr) nofun
                  rw [or_iff_right notMixed]
                  exact inductionHypothesis
                    (fun other member => each other (List.mem_cons_of_mem _ member))
                    (grown.trans (equalityWithin_grows first))
                    (grown'.trans (equalityWithin_grows first')) others others'

/-- The pairs of a list with a number or a text, one by one. -/
theorem mapM_opposes (grown : source.Grows heap) (grown' : source.Grows heap')
    {values values' : List Value}
    (ran : pairs.mapM (fun pair => equalityWithin false room lefts rights pair.1 pair.2) heap =
      .ok values later)
    (ran' : pairs.mapM (fun pair => equalityWithin true room lefts rights pair.1 pair.2) heap' =
      .ok values' later') :
    heap.Grows later ∧ heap'.Grows later' ∧
    ∃ rows : List ((Value × Value) × Content × Content), rows.map Prod.fst = pairs ∧
      List.Forall₂ (Made source later) values (rows.map (·.2.1)) ∧
      List.Forall₂ (Made source later') values' (rows.map (·.2.2)) ∧
      ∀ row ∈ rows, source.Negates row.1.1 row.1.2 row.2.1 row.2.2 := by
  induction pairs generalizing heap heap' values values' with
  | nil =>
      cases ran
      cases ran'
      exact ⟨.refl _, .refl _, [], rfl, .nil, .nil, nofun⟩
  | cons pair rest inductionHypothesis =>
      rw [List.mapM_cons] at ran ran'
      obtain ⟨answer, middle, first, further⟩ := bind_eq_ok.mp ran
      obtain ⟨answers, _, others, last⟩ := bind_eq_ok.mp further
      obtain ⟨answer', middle', first', further'⟩ := bind_eq_ok.mp ran'
      obtain ⟨answers', _, others', last'⟩ := bind_eq_ok.mp further'
      cases last
      cases last'
      obtain ⟨content, content', made, made', negates⟩ :=
        each pair List.mem_cons_self grown grown' first first'
      have here := equalityWithin_grows first
      have here' := equalityWithin_grows first'
      obtain ⟨grows, grows', rows, all, row, row', below⟩ := inductionHypothesis
        (fun other member => each other (List.mem_cons_of_mem _ member))
        (grown.trans here) (grown'.trans here') others others'
      refine ⟨here.trans grows, here'.trans grows', (pair, content, content') :: rows, ?_,
        .cons (made.grows grows) row, .cons (made'.grows grows') row', ?_⟩
      · rw [List.map_cons, all]
      · exact List.forall_mem_cons.mpr ⟨negates, below⟩

end Rows

/-- A comparison and its negation, level by level: they take the same pairs, those of the heap that
both started from. -/
theorem equalityWithin_opposes {source : Heap} {room : Nat} {lefts rights : Path}
    {left right : Value}
    (heldLeft : ∀ inner, source.Reaches left inner → source.Holds inner)
    (heldRight : ∀ inner, source.Reaches right inner → source.Holds inner) :
    Opposes source left right (equalityWithin false room lefts rights left right)
      (equalityWithin true room lefts rights left right) := by
  induction room generalizing lefts rights left right with
  | zero =>
      intro _ _ _ _ _ _ _ _ ran
      cases ran
  | succ room inductionHypothesis =>
      intro heap heap' later later' value value' grown grown' ran ran'
      rw [equalityWithin_succ] at ran ran'
      obtain ⟨insideLeft, openedLeft, ran⟩ := enter_eq_ok.mp ran
      obtain ⟨insideRight, openedRight, ran⟩ := enter_eq_ok.mp ran
      obtain ⟨insideLeft', openedLeft', ran'⟩ := enter_eq_ok.mp ran'
      obtain ⟨insideRight', openedRight', ran'⟩ := enter_eq_ok.mp ran'
      obtain rfl := Option.some.inj (openedLeft.symm.trans openedLeft')
      obtain rfl := Option.some.inj (openedRight.symm.trans openedRight')
      have holdsLeft := heldLeft left (.refl source left)
      have holdsRight := heldRight right (.refl source right)
      rw [read_apply, compareLevel_grows grown holdsLeft holdsRight, compareLevel] at ran
      rw [read_apply, compareLevel_grows grown' holdsLeft holdsRight, compareLevel] at ran'
      have each : ∀ pair ∈ source.pairs left right, Opposes source pair.1 pair.2
          (equalityWithin false room insideLeft insideRight pair.1 pair.2)
          (equalityWithin true room insideLeft insideRight pair.1 pair.2) := by
        intro pair member
        obtain ⟨_, below, below'⟩ := Heap.mem_pairs member
        exact inductionHypothesis
          (fun inner reaches => heldLeft inner (below.reaches.trans reaches))
          fun inner reaches => heldRight inner (below'.reaches.trans reaches)
      have single {equal unequal : Bool} (alone : ¬ left.spreads right)
          (negated : unequal = true ↔ equal = false ∨ source.Mixed left right) :
          ∃ content content', Made source later (.ofBool equal) content ∧
            Made source later' (.ofBool unequal) content' ∧
            source.Negates left right content content' :=
        ⟨_, _, .number source later _, .number source later' _, .single alone negated⟩
      split at ran
      · next spreads =>
        rw [if_pos spreads] at ran'
        obtain ⟨values, middle, row, made⟩ := bind_eq_ok.mp ran
        obtain ⟨values', middle', row', made'⟩ := bind_eq_ok.mp ran'
        cases made
        cases made'
        obtain ⟨grows, grows', rows, all, reads, reads', below⟩ :=
          mapM_opposes each grown grown' row row'
        exact ⟨_, _, .list (grown.trans grows) reads, .list (grown'.trans grows') reads',
          .spread spreads all below⟩
      · next alone =>
        rw [if_neg alone] at ran'
        split at ran
        · next bothLists =>
          rw [if_pos bothLists] at ran'
          split at ran
          · next sameLength =>
            rw [if_pos sameLength] at ran'
            obtain ⟨equal, _, all, answer⟩ := bind_eq_ok.mp ran
            obtain ⟨unequal, _, some, answer'⟩ := bind_eq_ok.mp ran'
            cases answer
            cases answer'
            refine single alone ?_
            rw [Heap.mixed_iff_of_bothLists bothLists]
            exact allPairs_opposes each grown grown' all some
          · next otherLength =>
            rw [if_neg otherLength] at ran'
            cases ran
            cases ran'
            exact single alone (iff_of_true rfl (.inl rfl))
        · next notLists =>
          rw [if_neg notLists] at ran'
          cases ran
          cases ran'
          refine single alone ?_
          rw [or_iff_left (Heap.not_mixed alone notLists)]
          cases source.equates left right <;> decide

/-- `!=` is the negation of `=` as far as a list beside a number or a text lets it be one: where
neither comparison finds a value inside itself, both give a number or both give lists of the same
length with such results at each position; of two numbers, `!=` gives 1 exactly where `=` gives 0 or
the values are mixed. So a 0 of one is a 1 of the other, but both can be 1. -/
theorem equality_negated (heap : Heap) (left right : Value)
    (heldLeft : ∀ position inner, heap.at? left position = some inner → heap.Holds inner)
    (heldRight : ∀ position inner, heap.at? right position = some inner → heap.Holds inner)
    (neither : ∀ negate later,
      equality negate left right heap ≠ .error (.cyclicValue "compare") later) :
    ∃ value later value' later' equal unequal,
      equality false left right heap = .ok value later ∧ later.Reads value equal ∧
      equality true left right heap = .ok value' later' ∧ later'.Reads value' unequal ∧
      heap.Negates left right equal unequal := by
  have succeeds (negate : Bool) :
      ∃ value later, equality negate left right heap = .ok value later := by
    cases ran : equality negate left right heap with
    | ok value later => exact ⟨value, later, rfl⟩
    | error error later =>
        obtain rfl := equality_fails ran
        exact absurd ran (neither negate later)
  obtain ⟨value, later, ran⟩ := succeeds false
  obtain ⟨value', later', ran'⟩ := succeeds true
  obtain ⟨equal, unequal, made, made', negates⟩ := equalityWithin_opposes
    (fun inner ⟨position, found⟩ => heldLeft position inner found)
    (fun inner ⟨position, found⟩ => heldRight position inner found)
    (.refl heap) (.refl heap) ran ran'
  exact ⟨value, later, value', later', equal, unequal, ran, made.reads, ran', made'.reads, negates⟩

/-- A list of lists beside its own element: equal and unequal, because of the list of answers that
the pair of a list with a text gives. -/
theorem equality_negated_mixed :
    let heap := { Heap.empty with texts := #["a"], lists := #[#[.text 0], #[.list 0]] }
    ∃ later later', equality false (.list 1) (.list 0) heap = .ok (.ofBool true) later ∧
      equality true (.list 1) (.list 0) heap = .ok (.ofBool true) later' ∧
      heap.Negates (.list 1) (.list 0) (.number (.ofBool true)) (.number (.ofBool true)) := by
  intro heap
  let values : List Value := [.list 1, .list 0, .text 0]
  have closed : ∀ value ∈ values, ∀ child ∈ heap.children value, child ∈ values := by
    simp [heap, values, Heap.children, Heap.list]
  have held : ∀ inner ∈ values, heap.Holds inner := by decide
  have within : ∀ top ∈ values, ∀ position inner, heap.at? top position = some inner →
      heap.Holds inner :=
    fun _ isTop _ _ found => held _ (Heap.at?_of_closed closed isTop found)
  obtain ⟨later, ran⟩ : ∃ later,
      equality false (.list 1) (.list 0) heap = .ok (.ofBool true) later := ⟨_, rfl⟩
  obtain ⟨later', ran'⟩ : ∃ later',
      equality true (.list 1) (.list 0) heap = .ok (.ofBool true) later' := ⟨_, rfl⟩
  have neither : ∀ negate later, equality negate (.list 1) (.list 0) heap ≠
      .error (.cyclicValue "compare") later := by
    rintro (_ | _) later failed
    · cases ran.symm.trans failed
    · cases ran'.symm.trans failed
  obtain ⟨_, _, _, _, equal, unequal, same, reads, same', reads', negates⟩ :=
    equality_negated heap (.list 1) (.list 0) (within _ (by simp [values]))
      (within _ (by simp [values])) neither
  cases ran.symm.trans same
  cases ran'.symm.trans same'
  cases reads
  cases reads'
  exact ⟨later, later', ran, ran', negates⟩

end OnHeap

end Fixity
