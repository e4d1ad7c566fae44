import Fixity.Proofs.Contents

/-!
Contract: what an operator other than `=` and `!=` makes of two contents.

Owns:
- `Content.combine`, the rules for operators as a recursion on contents, with and without the paths
  that the native walk keeps, and `Content.combine_rules`, which lists the rules in their order;
- `Content.ends`, the pairs where this recursion ends, depth first and from left to right;
- `Content.Spans`, results that have the shape of the lists they come from;
- `Content.Clashes`, an object beside a list with a list in it.

Does not own: values, cells, and the native walk.

Main statement: a combination fails as the first pair does that fails where the recursion ends, and
one that succeeds has the length of the lists at every level. The paths make a difference only where
an object clashes with a list.
-/

namespace Fixity

namespace Content

/-! ## Rules -/

def isText : Content → Bool
  | text _ => true
  | _ => false

def isList : Content → Bool
  | list _ => true
  | _ => false

def isObject : Content → Bool
  | object _ => true
  | _ => false

/-- The elements of a list. -/
def elements : Content → List Content
  | list elements => elements
  | _ => []

/-- The number of elements of a list. -/
def length (content : Content) : Nat := content.elements.length

/-- The pairs that two contents consist of: elements with elements, or every element with the one
content that is no list. -/
def pairs : Content → Content → List (Content × Content)
  | list left, list right => left.zip right
  | list left, right => left.map fun element => (element, right)
  | left, list right => right.map fun element => (left, element)
  | _, _ => []

/-- `+` with a text on either side joins display forms. -/
def joins (operator : BinaryOperator) (left right : Content) : Bool :=
  operator = .add && (left.isText || right.isText)

/-- Two lists that can not be taken apart together. -/
def uneven (left right : Content) : Bool :=
  left.isList && right.isList && left.length != right.length

/-- An operator goes on to the pairs that two contents consist of. -/
def descends (operator : BinaryOperator) (left right : Content) : Bool :=
  !joins operator left right && (left.isList || right.isList) && !uneven left right

/-- The fault of a pair that no rule accepts. -/
def invalid (operator : BinaryOperator) (left right : Content) : RuntimeError :=
  .invalidArguments operator.token left.display right.display

/-- The result of an operator on two contents that it does not take apart. -/
def settle (operator : BinaryOperator) (left right : Content) : Outcome Content :=
  if joins operator left right then .ok (.text (left.display ++ right.display))
  else
    match left, right with
    | number left, number right => number <$> Number.apply operator left right
    | list left, list right => .error (.unequalLength left.length right.length)
    | text content, number count =>
        if operator = .mul then text <$> Text.times content count
        else .error (invalid operator left right)
    | text first, text second =>
        if operator.isOrdering then .ok (.number (.ofBool (Text.ordered operator first second)))
        else .error (invalid operator left right)
    | left, right => .error (invalid operator left right)

/-- An object beside a list with a list as an element: the walk would go into the object again. -/
def bars (left right : Content) (pair : Content × Content) : Bool :=
  (left.isObject && pair.2.isList) || (right.isObject && pair.1.isList)

theorem mem_pairs {left right : Content} {pair : Content × Content}
    (member : pair ∈ pairs left right) :
    pair.1 ∈ left.elements ∧ pair.2 ∈ right.elements ∨
      pair.1 ∈ left.elements ∧ pair.2 = right ∨ pair.1 = left ∧ pair.2 ∈ right.elements := by
  cases left with
  | list left =>
      cases right with
      | list right => exact .inl (List.of_mem_zip member)
      | _ =>
          obtain ⟨element, inList, rfl⟩ := List.mem_map.mp member
          exact .inr (.inl ⟨inList, rfl⟩)
  | _ =>
      cases right with
      | list right =>
          obtain ⟨element, inList, rfl⟩ := List.mem_map.mp member
          exact .inr (.inr ⟨rfl, inList⟩)
      | _ => cases member

theorem sizeOf_of_mem_elements {content element : Content} (member : element ∈ content.elements) :
    sizeOf element < sizeOf content := by
  cases content with
  | list elements =>
      have below : sizeOf element < sizeOf elements := List.sizeOf_lt_of_mem member
      rw [list.sizeOf_spec]
      omega
  | _ => cases member

theorem sizeOf_of_mem_pairs {left right : Content} {pair : Content × Content}
    (member : pair ∈ pairs left right) :
    sizeOf pair.1 + sizeOf pair.2 < sizeOf left + sizeOf right := by
  rcases mem_pairs member with ⟨inLeft, inRight⟩ | ⟨inLeft, same⟩ | ⟨same, inRight⟩
  · exact Nat.add_lt_add (sizeOf_of_mem_elements inLeft) (sizeOf_of_mem_elements inRight)
  · rw [same]
    exact Nat.add_lt_add_right (sizeOf_of_mem_elements inLeft) _
  · rw [same]
    exact Nat.add_lt_add_left (sizeOf_of_mem_elements inRight) _

/-- The result of an operator on two contents. With tracking, as in the native walk, an object that
has been entered beside a list is not entered again. -/
def combine (operator : BinaryOperator) (tracking : Bool) (left right : Content) :
    Outcome Content :=
  if descends operator left right then do
    let results ← (pairs left right).attach.mapM fun pair =>
      if tracking && bars left right pair.1 then .error (.cyclicValue "broadcast over")
      else combine operator tracking pair.1.1 pair.1.2
    return .list results
  else
    settle operator left right
termination_by sizeOf left + sizeOf right
decreasing_by exact sizeOf_of_mem_pairs pair.2

/-- The pairs where an operator is not taken any further, depth first and from left to right. -/
def ends (operator : BinaryOperator) (left right : Content) : List (Content × Content) :=
  if descends operator left right then
    (pairs left right).attach.flatMap fun pair => ends operator pair.1.1 pair.1.2
  else
    [(left, right)]
termination_by sizeOf left + sizeOf right
decreasing_by exact sizeOf_of_mem_pairs pair.2

section Equations

variable {operator : BinaryOperator} {tracking : Bool} {left right : Content}

theorem combine_of_descends (goesOn : descends operator left right) :
    combine operator tracking left right =
      ((pairs left right).mapM fun pair =>
        if tracking && bars left right pair then .error (.cyclicValue "broadcast over")
        else combine operator tracking pair.1 pair.2).map list := by
  rw [combine, if_pos goesOn]
  conv => rhs; rw [← List.attach_map_subtype_val (pairs left right), List.mapM_map]
  rfl

theorem combine_of_ends (stops : ¬ descends operator left right) :
    combine operator tracking left right = settle operator left right := by
  rw [combine, if_neg stops]

theorem combine_of_joins (joined : joins operator left right) :
    combine operator tracking left right = .ok (.text (left.display ++ right.display)) := by
  have stops : ¬ descends operator left right := by simp [descends, joined]
  rw [combine_of_ends stops]
  unfold settle
  exact if_pos joined

theorem combine_of_uneven (apart : uneven left right) :
    combine operator tracking left right = .error (.unequalLength left.length right.length) := by
  have stops : ¬ descends operator left right := by simp [descends, apart]
  rw [combine_of_ends stops]
  cases left with
  | list left =>
      cases right with
      | list right =>
          unfold settle
          exact if_neg (by simp [joins, isText])
      | _ => cases apart
  | _ => cases apart

theorem ends_of_descends (goesOn : descends operator left right) :
    ends operator left right =
      (pairs left right).flatMap fun pair => ends operator pair.1 pair.2 := by
  rw [ends, if_pos goesOn]
  conv => rhs; rw [← List.attach_map_subtype_val (pairs left right), List.flatMap_map]

theorem ends_of_ends (stops : ¬ descends operator left right) :
    ends operator left right = [(left, right)] := by
  rw [ends, if_neg stops]

/-- The pairs that two contents consist of are smaller. -/
theorem pair_induction {motive : Content → Content → Prop}
    (step : ∀ left right, (∀ pair ∈ pairs left right, motive pair.1 pair.2) → motive left right)
    (left right : Content) : motive left right :=
  step left right fun pair _ => pair_induction step pair.1 pair.2
termination_by sizeOf left + sizeOf right
decreasing_by exact sizeOf_of_mem_pairs ‹_›

end Equations

/-- The rules one by one, in the order in which they are tried. -/
theorem combine_rules (operator : BinaryOperator) (left right : Content) :
    combine operator false left right =
      if joins operator left right then .ok (.text (left.display ++ right.display))
      else
        match left, right with
        | number first, number second => number <$> Number.apply operator first second
        | list lefts, list rights =>
            if lefts.length = rights.length then
              list <$> (lefts.zip rights).mapM fun pair => combine operator false pair.1 pair.2
            else .error (.unequalLength lefts.length rights.length)
        | list lefts, scalar =>
            list <$> lefts.mapM fun element => combine operator false element scalar
        | scalar, list rights =>
            list <$> rights.mapM fun element => combine operator false scalar element
        | text content, number count =>
            if operator = .mul then text <$> Text.times content count
            else .error (invalid operator left right)
        | text first, text second =>
            if operator.isOrdering then
              .ok (.number (.ofBool (Text.ordered operator first second)))
            else .error (invalid operator left right)
        | _, _ => .error (invalid operator left right) := by
  by_cases joined : joins operator left right
  · rw [combine_of_joins joined, if_pos joined]
  rw [if_neg joined]
  have goesOn (someList : left.isList || right.isList) (even : ¬ uneven left right) :
      combine operator false left right =
        list <$> (pairs left right).mapM fun pair => combine operator false pair.1 pair.2 := by
    rw [combine_of_descends (by simp [descends, joined, someList, even])]
    rfl
  have stops (noList : ¬ (left.isList || right.isList)) :
      combine operator false left right = settle operator left right :=
    combine_of_ends (by simp_all [descends])
  cases left with
  | list lefts =>
      cases right with
      | list rights =>
          dsimp only
          split
          · next sameLength => exact goesOn rfl (by simp [uneven, length, elements, sameLength])
          · next otherLength =>
            exact combine_of_uneven (by simp [uneven, isList, length, elements, otherLength])
      | _ => exact (goesOn rfl Bool.false_ne_true).trans (congrArg (list <$> ·) List.mapM_map)
  | _ =>
      cases right with
      | list rights =>
          exact (goesOn rfl Bool.false_ne_true).trans (congrArg (list <$> ·) List.mapM_map)
      | _ => exact (stops Bool.false_ne_true).trans (if_neg joined)


/-! ## Successes -/

/-- A result has the length of each list that it comes from, at every level that the operator is
taken to. -/
inductive Spans (operator : BinaryOperator) : Content → Content → Content → Prop
  | row {left right : Content} {results : List Content} (goesOn : descends operator left right)
      (lengths : ∀ elements, left = .list elements ∨ right = .list elements →
        results.length = elements.length)
      (each : ∀ entry ∈ (pairs left right).zip results,
        Spans operator entry.1.1 entry.1.2 entry.2) :
      Spans operator left right (.list results)
  | single {left right result : Content} (stops : ¬ descends operator left right)
      (single : ¬ result.isList) : Spans operator left right result

section Successes

variable {operator : BinaryOperator} {left right content : Content}

theorem length_pairs (goesOn : descends operator left right) {elements : List Content}
    (operand : left = .list elements ∨ right = .list elements) :
    (pairs left right).length = elements.length := by
  unfold descends uneven at goesOn
  rcases operand with rfl | rfl
  · cases right <;> simp_all [pairs, isList, length, Content.elements]
  · cases left <;> simp_all [pairs, isList, length, Content.elements]

/-- What is not taken apart gives no list. -/
theorem not_isList_of_settle (settled : settle operator left right = .ok content) :
    ¬ content.isList := by
  unfold settle at settled
  split at settled
  · cases settled
    exact Bool.false_ne_true
  · split at settled
    · obtain ⟨_, _, rfl⟩ := Syntax.map_eq_ok.mp settled
      exact Bool.false_ne_true
    · cases settled
    · split at settled
      · obtain ⟨_, _, rfl⟩ := Syntax.map_eq_ok.mp settled
        exact Bool.false_ne_true
      · cases settled
    · split at settled
      · cases settled
        exact Bool.false_ne_true
      · cases settled
    · cases settled

/-- The results for the pairs that two contents consist of, one by one. -/
theorem combine_row (goesOn : descends operator left right) :
    combine operator false left right = .ok content ↔ ∃ results, content = .list results ∧
      List.Forall₂ (fun pair result => combine operator false pair.1 pair.2 = .ok result)
        (pairs left right) results := by
  rw [combine_of_descends goesOn, Syntax.map_eq_ok]
  simp only [Syntax.mapM_eq_ok, Bool.false_and, Bool.false_eq_true, if_false]
  constructor
  · rintro ⟨results, row, rfl⟩
    exact ⟨results, rfl, row⟩
  · rintro ⟨results, rfl, row⟩
    exact ⟨results, row, rfl⟩

theorem spans_of_combine (combined : combine operator false left right = .ok content) :
    Spans operator left right content := by
  induction left, right using pair_induction generalizing content with
  | step left right inductionHypothesis =>
      by_cases goesOn : descends operator left right
      · obtain ⟨results, rfl, row⟩ := (combine_row goesOn).mp combined
        refine .row goesOn (fun elements operand => ?_) fun entry member => ?_
        · rw [← row.length_eq, length_pairs goesOn operand]
        · exact inductionHypothesis entry.1 (List.of_mem_zip member).1
            ((List.forall₂_iff_zip.mp row).2 member)
      · rw [combine_of_ends goesOn] at combined
        exact .single goesOn (not_isList_of_settle combined)

theorem settles_of_combine (combined : combine operator false left right = .ok content) :
    ∀ pair ∈ ends operator left right, ∃ result, settle operator pair.1 pair.2 = .ok result := by
  induction left, right using pair_induction generalizing content with
  | step left right inductionHypothesis =>
      by_cases goesOn : descends operator left right
      · obtain ⟨results, rfl, row⟩ := (combine_row goesOn).mp combined
        rw [ends_of_descends goesOn]
        intro pair member
        obtain ⟨outer, inRow, inside⟩ := List.mem_flatMap.mp member
        obtain ⟨result, here⟩ := Syntax.exists_right_of_forall₂ row inRow
        exact inductionHypothesis outer inRow here pair inside
      · rw [combine_of_ends goesOn] at combined
        rw [ends_of_ends goesOn]
        intro pair member
        obtain rfl := List.mem_singleton.mp member
        exact ⟨content, combined⟩

end Successes

/-! ## Failures -/

section Failures

variable {operator : BinaryOperator} {left right : Content} {error : RuntimeError}

/-- A failure is that of the first pair that fails, in the order in which the operator gets to the
pairs: those before it succeed. -/
theorem first_failure (failed : combine operator false left right = .error error) :
    ∃ before pair after, ends operator left right = before ++ pair :: after ∧
      (∀ earlier ∈ before, ∃ result, settle operator earlier.1 earlier.2 = .ok result) ∧
      settle operator pair.1 pair.2 = .error error := by
  induction left, right using pair_induction with
  | step left right inductionHypothesis =>
      by_cases goesOn : descends operator left right
      · rw [combine_of_descends goesOn, Syntax.map_eq_error] at failed
        obtain ⟨sooner, outer, later, row, succeed, fails⟩ := Syntax.exists_of_mapM_error failed
        simp only [Bool.false_and, Bool.false_eq_true, if_false] at succeed fails
        have inRow : outer ∈ pairs left right := by simp [row]
        obtain ⟨before, pair, after, inside, settles, unsettled⟩ :=
          inductionHypothesis outer inRow fails
        refine ⟨sooner.flatMap (fun pair => ends operator pair.1 pair.2) ++ before, pair,
          after ++ later.flatMap fun pair => ends operator pair.1 pair.2, ?_, ?_, unsettled⟩
        · simp [ends_of_descends goesOn, row, inside]
        · intro earlier member
          rcases List.mem_append.mp member with inSooner | inBefore
          · obtain ⟨done, isSooner, inDone⟩ := List.mem_flatMap.mp inSooner
            obtain ⟨result, ran⟩ := succeed done isSooner
            exact settles_of_combine ran earlier inDone
          · exact settles earlier inBefore
      · rw [combine_of_ends goesOn] at failed
        exact ⟨[], (left, right), [], ends_of_ends goesOn, nofun, failed⟩

end Failures

/-! ## Tracking -/

/-- An object stands beside a list that has a list as an element, where an operator gets to. -/
inductive Clashes (operator : BinaryOperator) : Content → Content → Prop
  | here {left right : Content} {pair : Content × Content} (goesOn : descends operator left right)
      (member : pair ∈ pairs left right) (bars : bars left right pair) :
      Clashes operator left right
  | inside {left right : Content} {pair : Content × Content} (goesOn : descends operator left right)
      (member : pair ∈ pairs left right) (clashes : Clashes operator pair.1 pair.2) :
      Clashes operator left right

/-- A number, a text, or a list of such contents. -/
inductive Plain : Content → Prop
  | number (content : Number) : Plain (.number content)
  | text (content : String) : Plain (.text content)
  | list {elements : List Content} (each : ∀ element ∈ elements, Plain element) :
      Plain (.list elements)

section Tracking

variable {operator : BinaryOperator} {left right : Content} {name : String}

theorem apply_ne_cyclicValue (first second : Number) :
    Number.apply operator first second ≠ .error (.cyclicValue name) := by
  unfold Number.apply Number.pow
  cases operator <;> grind

theorem times_ne_cyclicValue (content : String) (count : Number) :
    Text.times content count ≠ .error (.cyclicValue name) := by
  unfold Text.times
  grind

/-- No rule reports a value inside itself. -/
theorem settle_ne_cyclicValue : settle operator left right ≠ .error (.cyclicValue name) := by
  intro failed
  unfold settle at failed
  split at failed
  · cases failed
  · split at failed
    · exact apply_ne_cyclicValue _ _ (Syntax.map_eq_error.mp failed)
    · cases failed
    · split at failed
      · exact times_ne_cyclicValue _ _ (Syntax.map_eq_error.mp failed)
      · cases failed
    · split at failed <;> cases failed
    · cases failed

/-- Only an object beside a list with a list in it is reported as a value inside itself. -/
theorem clashes_of_combine
    (failed : combine operator true left right = .error (.cyclicValue name)) :
    Clashes operator left right := by
  induction left, right using pair_induction with
  | step left right inductionHypothesis =>
      by_cases goesOn : descends operator left right
      · rw [combine_of_descends goesOn, Syntax.map_eq_error] at failed
        obtain ⟨_, pair, _, row, _, fails⟩ := Syntax.exists_of_mapM_error failed
        have member : pair ∈ pairs left right := by simp [row]
        split at fails
        · next barred => exact .here goesOn member barred
        · exact .inside goesOn member (inductionHypothesis pair member fails)
      · rw [combine_of_ends goesOn] at failed
        exact absurd failed settle_ne_cyclicValue

theorem combine_false_ne_cyclicValue :
    combine operator false left right ≠ .error (.cyclicValue name) := by
  intro failed
  obtain ⟨_, pair, _, _, _, fails⟩ := first_failure failed
  exact settle_ne_cyclicValue fails

theorem Plain.of_mem_elements (plain : left.Plain) {element : Content}
    (member : element ∈ left.elements) : element.Plain := by
  cases plain with
  | list each => exact each element member
  | _ => cases member

theorem Plain.of_mem_pairs (plainLeft : left.Plain) (plainRight : right.Plain)
    {pair : Content × Content} (member : pair ∈ pairs left right) :
    pair.1.Plain ∧ pair.2.Plain := by
  rcases mem_pairs member with ⟨inLeft, inRight⟩ | ⟨inLeft, same⟩ | ⟨same, inRight⟩
  · exact ⟨plainLeft.of_mem_elements inLeft, plainRight.of_mem_elements inRight⟩
  · exact ⟨plainLeft.of_mem_elements inLeft, same ▸ plainRight⟩
  · exact ⟨same ▸ plainLeft, plainRight.of_mem_elements inRight⟩

/-- Among numbers, texts and lists tracking makes no difference. -/
theorem Plain.combine_tracking (plainLeft : left.Plain) (plainRight : right.Plain) :
    combine operator true left right = combine operator false left right := by
  induction left, right using pair_induction with
  | step left right inductionHypothesis =>
      by_cases goesOn : descends operator left right
      · rw [combine_of_descends goesOn, combine_of_descends goesOn]
        refine congrArg (Except.map Content.list) (Syntax.mapM_congr fun pair member => ?_)
        have free : bars left right pair = false := by
          cases plainLeft <;> cases plainRight <;> rfl
        obtain ⟨plainFirst, plainSecond⟩ := plainLeft.of_mem_pairs plainRight member
        rw [free]
        exact inductionHypothesis pair member plainFirst plainSecond
      · rw [combine_of_ends goesOn, combine_of_ends goesOn]

end Tracking

end Content

end Fixity
