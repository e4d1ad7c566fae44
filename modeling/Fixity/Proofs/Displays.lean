import Fixity.Proofs.Shapes

/-!
Contract: the display form as a relation.

Owns:
- `Heap.Displays`, what a value shows inside of given lists and objects: such a list or object met
  again is cut short, everything else is written in full;
- that the relation leaves no choice, and that the display form is what it asks for;
- that cells added to a heap change no display form, and that a list without a cycle shows the display
  forms of its elements.
-/

namespace Fixity

namespace Heap

/-- A value shows a text inside of the lists and objects of a path. -/
inductive Displays (heap : Heap) : Path → Value → String → Prop
  | listAgain {path : Path} {handle : Nat} (again : .list handle ∈ path) :
      Displays heap path (.list handle) "[...]"
  | objectAgain {path : Path} {handle : Nat} (again : .object handle ∈ path) :
      Displays heap path (.object handle) "\x7b...\x7d"
  | list {path : Path} {handle : Nat} {texts : List String} (apart : .list handle ∉ path)
      (all : texts.length = (heap.list handle).toList.length)
      (each : ∀ element ∈ (heap.list handle).toList.zip texts,
        Displays heap (.list handle :: path) element.1 element.2) :
      Displays heap path (.list handle) ("[" ++ String.intercalate ", " texts ++ "]")
  | object {path : Path} {handle : Nat} {texts : List String} (apart : .object handle ∉ path)
      (all : texts.length = (heap.object handle).entries.length)
      (each : ∀ entry ∈ (heap.object handle).entries.zip texts,
        Displays heap (.object handle :: path) entry.1.2 entry.2) :
      Displays heap path (.object handle)
        ("\x7b" ++
          String.intercalate ", " (((heap.object handle).entries.zip texts).map fun entry =>
            entry.1.1 ++ ": " ++ entry.2) ++
          "\x7d")
  | number {path : Path} (content : Number) : Displays heap path (.number content) content.display
  | text {path : Path} (handle : Nat) : Displays heap path (.text handle) (heap.text handle)
  | function {path : Path} (handle : Nat) :
      Displays heap path (.function handle)
        ("#procedure [" ++ String.intercalate ", " (heap.function handle).params ++ "]")
  | builtin {path : Path} (handle : Nat) :
      Displays heap path (.builtin handle) ("#builtin " ++ (heap.builtin handle).name)
  | node {path : Path} (handle : Nat) :
      Displays heap path (.node handle) ("`\x7b" ++ (heap.node handle).display ++ "\x7d")

variable {heap later : Heap} {path path' : Path} {root value : Value} {text text' : String}

/-- Two rows of texts for the same items are equal if no item has different texts in them. -/
private theorem texts_unique {α : Type} {items : List α} {texts texts' : List String}
    (all : texts.length = items.length) (all' : texts'.length = items.length)
    (each : ∀ item text text', (item, text) ∈ items.zip texts → (item, text') ∈ items.zip texts' →
      text = text') : texts = texts' := by
  refine List.ext_getElem (all.trans all'.symm) fun index inside inside' => ?_
  have inItems : index < items.length := all ▸ inside
  refine each items[index] _ _ ?_ ?_
  · exact List.mem_iff_getElem.mpr ⟨index, by rw [List.length_zip]; omega, by simp⟩
  · exact List.mem_iff_getElem.mpr ⟨index, by rw [List.length_zip]; omega, by simp⟩

theorem Displays.unique (shows : heap.Displays path value text)
    (shows' : heap.Displays path value text') : text = text' := by
  induction shows generalizing text' with
  | listAgain again =>
      cases shows' with
      | listAgain _ => rfl
      | list apart _ _ => exact absurd again apart
  | objectAgain again =>
      cases shows' with
      | objectAgain _ => rfl
      | object apart _ _ => exact absurd again apart
  | list apart all each inductionHypothesis =>
      cases shows' with
      | listAgain again => exact absurd again apart
      | list _ all' each' =>
          rw [texts_unique all all' fun item text text' here there =>
            inductionHypothesis (item, text) here (each' (item, text') there)]
  | object apart all each inductionHypothesis =>
      cases shows' with
      | objectAgain again => exact absurd again apart
      | object _ all' each' =>
          rw [texts_unique all all' fun item text text' here there =>
            inductionHypothesis (item, text) here (each' (item, text') there)]
  | _ => cases shows'; rfl

/-- With room enough, the display form inside a path is what is shown there. -/
theorem displays_within (held : ∀ inner, heap.Reaches root inner → heap.Holds inner) {room : Nat}
    (ancestors : Ancestors heap root path value)
    (enough : heap.containers + 2 ≤ path.length + room) :
    heap.Displays path value (heap.displayWithin room path value) := by
  induction room generalizing path value with
  | zero =>
      have bounded := ancestors.length_le held
      omega
  | succ room inductionHypothesis =>
      have further {inside : Path} {container : Container} {child : Value}
          (opens : value.container? = some container) (opened : path.open? value = some inside)
          (member : child ∈ heap.children value) :
          heap.Displays inside child (heap.displayWithin room inside child) := by
        have longer := Path.length_of_open? opens opened
        exact inductionHypothesis (ancestors.descend opened member) (by omega)
      cases value with
      | list handle =>
          by_cases again : .list handle ∈ path
          · have closed : path.open? (.list handle) = none := if_pos again
            have cut : heap.displayWithin (room + 1) path (.list handle) = "[...]" := by
              simp [displayWithin, closed]
            rw [cut]
            exact .listAgain again
          · have opened : path.open? (.list handle) = some (.list handle :: path) := if_neg again
            unfold displayWithin
            rw [opened]
            refine .list again (List.length_map _) fun element member => ?_
            rw [← List.map_prod_left_eq_zip] at member
            obtain ⟨child, inList, rfl⟩ := List.mem_map.mp member
            exact further rfl opened inList
      | object handle =>
          by_cases again : .object handle ∈ path
          · have closed : path.open? (.object handle) = none := if_pos again
            rw [displayWithin, closed]
            exact .objectAgain again
          · have opened : path.open? (.object handle) = some (.object handle :: path) :=
              if_neg again
            let texts := (heap.object handle).entries.map fun entry =>
              heap.displayWithin room (.object handle :: path) entry.2
            have zipped : (heap.object handle).entries.zip texts =
                (heap.object handle).entries.map fun entry =>
                  (entry, heap.displayWithin room (.object handle :: path) entry.2) :=
              List.map_prod_left_eq_zip.symm
            have shows : heap.Displays path (.object handle)
                ("\x7b" ++
                  String.intercalate ", " (((heap.object handle).entries.zip texts).map fun entry =>
                    entry.1.1 ++ ": " ++ entry.2) ++
                  "\x7d") :=
              .object again (List.length_map _) fun element member => by
                rw [zipped] at member
                obtain ⟨entry, inObject, rfl⟩ := List.mem_map.mp member
                exact further rfl opened (List.mem_map_of_mem inObject)
            unfold displayWithin
            rw [opened]
            rw [zipped, List.map_map] at shows
            exact shows
      | number content => exact .number content
      | text handle => exact .text handle
      | function handle => exact .function handle
      | builtin handle => exact .builtin handle
      | node handle => exact .node handle

/-- The display form of a value is what it shows, and nothing else is. -/
theorem displays_iff (held : ∀ inner, heap.Reaches value inner → heap.Holds inner) :
    heap.Displays [] value text ↔ text = heap.display value := by
  have shows : heap.Displays [] value (heap.display value) :=
    displays_within held (.start heap value) (by simp [room])
  constructor
  · exact fun shows' => shows'.unique shows
  · rintro rfl
    exact shows

/-! ## Other paths and later heaps -/

/-- What a value shows inside of a path depends on what it meets of that path. -/
theorem Displays.elsewhere (shows : heap.Displays path value text)
    (same : ∀ inner container, heap.Reaches value inner → inner.container? = some container →
      (container ∈ path ↔ container ∈ path')) : heap.Displays path' value text := by
  induction shows generalizing path' with
  | listAgain again => exact .listAgain ((same _ _ (.refl heap _) rfl).mp again)
  | objectAgain again => exact .objectAgain ((same _ _ (.refl heap _) rfl).mp again)
  | list apart all each inductionHypothesis =>
      refine .list (mt (same _ _ (.refl heap _) rfl).mpr apart) all fun element member => ?_
      refine inductionHypothesis element member fun inner container reaches opens => ?_
      rw [List.mem_cons, List.mem_cons,
        same inner container (.of_child (List.of_mem_zip member).1 reaches) opens]
  | object apart all each inductionHypothesis =>
      refine .object (mt (same _ _ (.refl heap _) rfl).mpr apart) all fun entry member => ?_
      refine inductionHypothesis entry member fun inner container reaches opens => ?_
      rw [List.mem_cons, List.mem_cons, same inner container
        (.of_child (List.mem_map_of_mem (List.of_mem_zip member).1) reaches) opens]
  | number content => exact .number content
  | text handle => exact .text handle
  | function handle => exact .function handle
  | builtin handle => exact .builtin handle
  | node handle => exact .node handle

theorem Displays.grows (shows : heap.Displays path value text) (grows : heap.Grows later)
    (held : ∀ inner, heap.Reaches value inner → heap.Holds inner) :
    later.Displays path value text := by
  induction shows with
  | listAgain again => exact .listAgain again
  | objectAgain again => exact .objectAgain again
  | @list path handle texts apart all each inductionHypothesis =>
      have same := grows.list (held _ (.refl heap _))
      refine .list apart (by rw [same]; exact all) fun element member => ?_
      rw [same] at member
      exact inductionHypothesis element member fun inner reaches =>
        held inner (.of_child (List.of_mem_zip member).1 reaches)
  | @object path handle texts apart all each inductionHypothesis =>
      have same := grows.object (held _ (.refl heap _))
      rw [← same] at all ⊢
      refine .object apart all fun entry member => ?_
      rw [same] at member
      exact inductionHypothesis entry member fun inner reaches =>
        held inner (.of_child (List.mem_map_of_mem (List.of_mem_zip member).1) reaches)
  | number content => exact .number content
  | text handle =>
      rw [← grows.text (held _ (.refl heap _))]
      exact .text handle
  | function handle =>
      rw [← grows.function (held _ (.refl heap _))]
      exact .function handle
  | builtin handle =>
      rw [← grows.builtin (held _ (.refl heap _))]
      exact .builtin handle
  | node handle =>
      rw [← grows.node (held _ (.refl heap _))]
      exact .node handle

theorem Grows.display (grows : heap.Grows later)
    (held : ∀ inner, heap.Reaches value inner → heap.Holds inner) :
    later.display value = heap.display value := by
  have heldLater : ∀ inner, later.Reaches value inner → later.Holds inner := fun inner reaches =>
    grows.holds (held inner ((grows.reaches_iff held).mp reaches))
  have shows : heap.Displays [] value (heap.display value) := (displays_iff held).mpr rfl
  exact ((displays_iff heldLater).mp (shows.grows grows held)).symm

/-- A list that does not contain itself shows the display forms of its elements. -/
theorem display_list {handle : Nat}
    (held : ∀ inner, heap.Reaches (.list handle) inner → heap.Holds inner)
    (acyclic : ¬ heap.Cyclic (.list handle)) :
    heap.display (.list handle) =
      "[" ++ String.intercalate ", " ((heap.list handle).toList.map heap.display) ++ "]" := by
  have shows : heap.Displays [] (.list handle) ("[" ++
      String.intercalate ", " ((heap.list handle).toList.map heap.display) ++ "]") := by
    refine .list (List.not_mem_nil) (List.length_map _) fun element member => ?_
    rw [← List.map_prod_left_eq_zip] at member
    obtain ⟨child, inList, rfl⟩ := List.mem_map.mp member
    have showsAlone : heap.Displays [] child (heap.display child) :=
      (displays_iff fun inner reaches => held inner (.of_child inList reaches)).mpr rfl
    refine showsAlone.elsewhere fun inner container reaches opens => ?_
    refine iff_of_false List.not_mem_nil fun member => ?_
    -- the list itself is not met again
    rw [List.mem_singleton.mp member] at opens
    obtain rfl := Ancestors.container?_inj opens (rfl : (Value.list handle).container? = _)
    exact acyclic ⟨.list handle, .refl heap _, .of_child inList reaches⟩
  exact ((displays_iff held).mp shows).symm

end Heap

end Fixity
