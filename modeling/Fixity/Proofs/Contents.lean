import Mathlib.Data.List.Forall2
import Fixity.Proofs.Pairs
import Fixity.Proofs.Readers

/-!
Contract: what values show, apart from the cells that they share.

Owns:
- `Content`, a number, a text, a list of contents, or the display form of another value;
- `Heap.Reads`, the content of a value, which every value has that does not contain itself, and
  which adding cells does not change;
- `Made`, a content in cells that are all new, and `Gives`, a computation that adds cells and ends
  as a pure one does.

Does not own: what operators make of contents.
-/

namespace Fixity

/-- What a value shows. Of objects, and of functions, builtins and trees, it is the display form. -/
inductive Content where
  | number (content : Number)
  | text (content : String)
  | list (elements : List Content)
  | object (shown : String)
  | other (shown : String)

/-- The display form of a content. -/
def Content.display : Content → String
  | number content => content.display
  | text content => content
  | list elements => "[" ++ String.intercalate ", " (elements.map display) ++ "]"
  | object shown => shown
  | other shown => shown

namespace Heap

/-- The content of a value. All that the value leads to has a cell. -/
inductive Reads (heap : Heap) : Value → Content → Prop
  | number (content : Number) : Reads heap (.number content) (.number content)
  | text {handle : Nat} (held : heap.Holds (.text handle)) :
      Reads heap (.text handle) (.text (heap.text handle))
  | list {handle : Nat} {contents : List Content} (held : heap.Holds (.list handle))
      (all : (heap.list handle).toList.length = contents.length)
      (each : ∀ element ∈ (heap.list handle).toList.zip contents,
        Reads heap element.1 element.2) :
      Reads heap (.list handle) (.list contents)
  | object {handle : Nat}
      (held : ∀ inner, heap.Reaches (.object handle) inner → heap.Holds inner) :
      Reads heap (.object handle) (.object (heap.display (.object handle)))
  | function {handle : Nat} (held : heap.Holds (.function handle)) :
      Reads heap (.function handle) (.other (heap.display (.function handle)))
  | builtin {handle : Nat} (held : heap.Holds (.builtin handle)) :
      Reads heap (.builtin handle) (.other (heap.display (.builtin handle)))
  | node {handle : Nat} (held : heap.Holds (.node handle)) :
      Reads heap (.node handle) (.other (heap.display (.node handle)))

variable {heap later : Heap} {value root : Value} {content : Content} {path : Path}

theorem reads_list {handle : Nat} {contents : List Content} :
    heap.Reads (.list handle) (.list contents) ↔ heap.Holds (.list handle) ∧
      List.Forall₂ heap.Reads (heap.list handle).toList contents := by
  rw [List.forall₂_iff_zip]
  constructor
  · rintro (_ | _ | ⟨held, all, each⟩)
    exact ⟨held, all, fun member => each _ member⟩
  · rintro ⟨held, all, each⟩
    exact .list held all fun element member => each member

theorem exists_row {α β : Type} {Fits : α → β → Prop} {items : List α}
    (each : ∀ item ∈ items, ∃ other, Fits item other) :
    ∃ others, List.Forall₂ Fits items others := by
  induction items with
  | nil => exact ⟨[], .nil⟩
  | cons item rest inductionHypothesis =>
      obtain ⟨other, fits⟩ := each item List.mem_cons_self
      obtain ⟨others, row⟩ :=
        inductionHypothesis fun another member => each another (List.mem_cons_of_mem _ member)
      exact ⟨other :: others, .cons fits row⟩

/-- What holds nothing leads to itself only. -/
theorem Reaches.eq_of_leaf {inner : Value} (leaf : heap.children value = [])
    (reaches : heap.Reaches value inner) : inner = value := by
  obtain same | ⟨child, member, _⟩ := reaches.eq_or_child
  · exact same
  · rw [leaf] at member
    cases member

theorem Reads.held (reads : heap.Reads value content) :
    ∀ inner, heap.Reaches value inner → heap.Holds inner := by
  have alone {value : Value} (leaf : heap.children value = []) (held : heap.Holds value) :
      ∀ inner, heap.Reaches value inner → heap.Holds inner := by
    rintro inner reaches
    rw [reaches.eq_of_leaf leaf]
    exact held
  induction reads with
  | number content => exact alone rfl trivial
  | text held => exact alone rfl held
  | function held => exact alone rfl held
  | builtin held => exact alone rfl held
  | node held => exact alone rfl held
  | object held => exact held
  | @list handle contents held all each inductionHypothesis =>
      intro inner reaches
      obtain rfl | ⟨child, member, below⟩ := reaches.eq_or_child
      · exact held
      · have row : List.Forall₂ (fun child _ => ∀ inner, heap.Reaches child inner →
            heap.Holds inner) (heap.list handle).toList contents :=
          List.forall₂_iff_zip.mpr ⟨all, fun inZip => inductionHypothesis _ inZip⟩
        obtain ⟨_, heldBelow⟩ := Syntax.exists_right_of_forall₂ row member
        exact heldBelow inner below

/-- A value has one content. -/
theorem Reads.unique {content' : Content} (reads : heap.Reads value content)
    (reads' : heap.Reads value content') : content = content' := by
  induction reads generalizing content' with
  | @list handle contents held all each inductionHypothesis =>
      cases reads' with
      | @list _ contents' _ all' each' =>
          have row : List.Forall₂ (fun child content => ∀ {content'}, heap.Reads child content' →
              content = content') (heap.list handle).toList contents :=
            List.forall₂_iff_zip.mpr ⟨all, fun inZip => inductionHypothesis _ inZip⟩
          have row' : List.Forall₂ heap.Reads (heap.list handle).toList contents' :=
            List.forall₂_iff_zip.mpr ⟨all', fun inZip => each' _ inZip⟩
          refine congrArg Content.list (List.ext_getElem (all.symm.trans all') ?_)
          intro index inside inside'
          have inList : index < (heap.list handle).toList.length := all ▸ inside
          exact row.get inList inside (row'.get inList inside')
  | _ => cases reads'; rfl

theorem Reads.grows (reads : heap.Reads value content) (grows : heap.Grows later) :
    later.Reads value content := by
  induction reads with
  | number content => exact .number content
  | text held =>
      rw [← grows.text held]
      exact .text (grows.holds held)
  | list held all each inductionHypothesis =>
      have same := grows.list held
      refine .list (grows.holds held) (by rw [same]; exact all) fun element member => ?_
      rw [same] at member
      exact inductionHypothesis element member
  | object held =>
      rw [← grows.display held]
      refine .object fun inner reaches => grows.holds (held inner ?_)
      exact (grows.reaches_iff held).mp reaches
  | function held =>
      rw [← grows.display (Reads.held (.function held))]
      exact .function (grows.holds held)
  | builtin held =>
      rw [← grows.display (Reads.held (.builtin held))]
      exact .builtin (grows.holds held)
  | node held =>
      rw [← grows.display (Reads.held (.node held))]
      exact .node (grows.holds held)

/-- The display form is that of the content, unless the value contains itself. -/
theorem Reads.display (reads : heap.Reads value content) (acyclic : ¬ heap.Cyclic value) :
    heap.display value = content.display := by
  induction reads with
  | @list handle contents held all each inductionHypothesis =>
      have reads : heap.Reads (.list handle) (.list contents) := .list held all each
      rw [display_list reads.held acyclic, Content.display]
      have row : (heap.list handle).toList.map heap.display = contents.map Content.display := by
        rw [← List.forall₂_eq_eq_eq, List.forall₂_map_left_iff, List.forall₂_map_right_iff,
          List.forall₂_iff_zip]
        refine ⟨all, fun {child content} inZip => ?_⟩
        refine inductionHypothesis (child, content) inZip fun ⟨inner, reaches, around⟩ => ?_
        have member : child ∈ heap.children (.list handle) := (List.of_mem_zip inZip).1
        exact acyclic ⟨inner, .of_child member reaches, around⟩
      rw [row]
  | number content => rw [Content.display]; rfl
  | text held => rw [Content.display]; rfl
  | _ => rw [Content.display]

/-- Every value has a content that does not contain itself. -/
theorem exists_reads_within (held : ∀ inner, heap.Reaches root inner → heap.Holds inner)
    (acyclic : ¬ heap.Cyclic root) {room : Nat} (ancestors : Ancestors heap root path value)
    (enough : heap.containers + 2 ≤ path.length + room) :
    ∃ content, heap.Reads value content := by
  have holds := held value ancestors.reached
  induction room generalizing path value with
  | zero =>
      have bounded := ancestors.length_le held
      omega
  | succ room inductionHypothesis =>
      cases value with
      | list handle =>
          obtain ⟨inside, opened⟩ := Option.ne_none_iff_exists'.mp
            (mt ancestors.cyclic acyclic : path.open? (.list handle) ≠ none)
          have longer := Path.length_of_open? rfl opened
          have each : ∀ child ∈ (heap.list handle).toList, ∃ content, heap.Reads child content :=
            fun child member =>
              have below := ancestors.descend opened member
              inductionHypothesis below (by omega) (held child below.reached)
          obtain ⟨contents, row⟩ := exists_row each
          exact ⟨.list contents, reads_list.mpr ⟨holds, row⟩⟩
      | number content => exact ⟨_, .number content⟩
      | text handle => exact ⟨_, .text holds⟩
      | object handle =>
          exact ⟨_, .object fun inner reaches => held inner (ancestors.reached.trans reaches)⟩
      | function handle => exact ⟨_, .function holds⟩
      | builtin handle => exact ⟨_, .builtin holds⟩
      | node handle => exact ⟨_, .node holds⟩

theorem exists_reads (held : ∀ inner, heap.Reaches value inner → heap.Holds inner)
    (acyclic : ¬ heap.Cyclic value) : ∃ content, heap.Reads value content := by
  have enough : heap.containers + 2 ≤ ([] : Path).length + heap.room := by simp [room]
  exact exists_reads_within held acyclic (.start heap value) enough

end Heap

/-! ## New contents -/

/-- A content all of whose cells are new: a heap did not have them. -/
structure Made (source heap : Heap) (value : Value) (content : Content) : Prop where
  reads : heap.Reads value content
  fresh : ∀ inner, heap.Reaches value inner → inner.Owned → ¬ source.Holds inner

namespace Made

variable {source heap later : Heap} {value : Value} {content : Content}

theorem grows (made : Made source heap value content) (grows : heap.Grows later) :
    Made source later value content :=
  ⟨made.reads.grows grows, fun inner reaches =>
    made.fresh inner ((grows.reaches_iff made.reads.held).mp reaches)⟩

theorem number (source heap : Heap) (content : Number) :
    Made source heap (.number content) (.number content) := by
  refine ⟨.number content, fun inner reaches owned => ?_⟩
  rw [reaches.eq_of_leaf rfl] at owned
  cases owned

theorem text (grown : source.Grows heap) (content : String) :
    Made source { heap with texts := heap.texts.push content } (.text heap.texts.size)
      (.text content) := by
  let later := { heap with texts := heap.texts.push content }
  have written : later.text heap.texts.size = content := Heap.getD_push _ _ _
  have reads : later.Reads (.text heap.texts.size) (.text (later.text heap.texts.size)) :=
    .text (Heap.lt_size_push _ _)
  rw [written] at reads
  refine ⟨reads, fun inner reaches owned held => ?_⟩
  rw [reaches.eq_of_leaf rfl] at held
  exact Nat.lt_irrefl _ (grown.holds held)

theorem list {values : List Value} {contents : List Content} (grown : source.Grows heap)
    (row : List.Forall₂ (Made source heap) values contents) :
    Made source { heap with lists := heap.lists.push values.toArray } (.list heap.lists.size)
      (.list contents) := by
  let later := { heap with lists := heap.lists.push values.toArray }
  have grows : heap.Grows later := .push_list heap values.toArray
  have elements : later.children (.list heap.lists.size) = values :=
    congrArg Array.toList (Heap.getD_push _ _ _)
  constructor
  · refine Heap.reads_list.mpr ⟨Heap.lt_size_push _ _, ?_⟩
    show List.Forall₂ _ (later.children (.list heap.lists.size)) _
    rw [elements]
    exact row.imp fun _ _ made => made.reads.grows grows
  · intro inner reaches owned held
    obtain rfl | ⟨child, member, below⟩ := reaches.eq_or_child
    · exact Nat.lt_irrefl _ (grown.holds held)
    · rw [elements] at member
      obtain ⟨content, made⟩ := Syntax.exists_right_of_forall₂ row member
      exact (made.grows grows).fresh inner below owned held

end Made

/-- A computation adds cells to a heap and ends as an outcome says. -/
inductive Gives {α β : Type} (Shows : Heap → α → β → Prop) (heap : Heap) :
    EStateM.Result RuntimeError Heap α → Outcome β → Prop
  | ok {value : α} {content : β} {later : Heap} (grows : heap.Grows later)
      (shows : Shows later value content) : Gives Shows heap (.ok value later) (.ok content)
  | error {error : RuntimeError} {later : Heap} (grows : heap.Grows later) :
      Gives Shows heap (.error error later) (.error error)

namespace Gives

variable {α β γ δ : Type} {source heap : Heap} {Shows : Heap → α → β → Prop}
  {Shows' : Heap → γ → δ → Prop}

theorem after {result : EStateM.Result RuntimeError Heap γ} {outcome : Outcome δ} {middle : Heap}
    (gives : Gives Shows' middle result outcome) (grows : heap.Grows middle) :
    Gives Shows' heap result outcome := by
  cases gives with
  | ok grows' shows => exact .ok (grows.trans grows') shows
  | error grows' => exact .error (grows.trans grows')

theorem bind {first : OnHeap α} {next : α → OnHeap γ} {outcome : Outcome β}
    {next' : β → Outcome δ} (gives : Gives Shows heap (first heap) outcome)
    (continued : ∀ value content later, heap.Grows later → Shows later value content →
      Gives Shows' later (next value later) (next' content)) :
    Gives Shows' heap ((first >>= next) heap) (outcome >>= next') := by
  generalize ran : first heap = result at gives
  cases gives with
  | ok grows shows =>
      rw [OnHeap.bind_of_ok ran]
      exact (continued _ _ _ grows shows).after grows
  | error grows =>
      rw [OnHeap.bind_of_error ran]
      exact .error grows

theorem lift {outcome : Outcome α} {next : α → OnHeap Value} {shown : α → Content}
    (continued : ∀ result, Gives (Made source) heap (next result heap) (.ok (shown result))) :
    Gives (Made source) heap (((liftM outcome : OnHeap α) >>= next) heap) (shown <$> outcome) := by
  cases outcome with
  | ok result => exact continued result
  | error error => exact .error (.refl heap)

/-- A row of computations, each of which ends as it would on its own. -/
theorem mapM {α β : Type} {first : α → OnHeap Value} {outcome : β → Outcome Content}
    {items : List α} {items' : List β} (grown : source.Grows heap)
    (each : List.Forall₂ (fun item item' => ∀ heap, source.Grows heap →
      Gives (Made source) heap (first item heap) (outcome item')) items items') :
    Gives (fun later => List.Forall₂ (Made source later)) heap (items.mapM first heap)
      (items'.mapM outcome) := by
  induction each generalizing heap with
  | nil => exact .ok (.refl heap) .nil
  | cons here _ inductionHypothesis =>
      rw [List.mapM_cons, List.mapM_cons]
      refine (here heap grown).bind fun value content middle grows made => ?_
      refine (inductionHypothesis (grown.trans grows)).bind
        fun values contents later grows row => ?_
      exact .ok (.refl later) (.cons (made.grows grows) row)

end Gives

end Fixity
