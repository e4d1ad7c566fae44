import Fixity.Proofs.Shapes

/-!
Contract: what a deep copy is.

Owns:
- `Heap.Alike`, values of one kind with the same content apart from what they hold;
- `Copied`, a value and its copy: alike at every position, and every cell of the copy is new and
  stands at one position only;
- the outcomes of walks, which succeed or find a cycle, and their rule for sequences.

Main statement: a value with a list or an object inside itself is not copied, every other value is,
however often its parts are shared; no cell that existed changes.
-/

namespace Fixity

/-- A value that refers to a cell of which a copy is made; builtins stay shared. -/
def Value.Owned : Value → Prop
  | .number _ => False
  | .builtin _ => False
  | _ => True

/-- Two values in two heaps show the same, apart from what their lists and objects hold. A function
shows all it consists of, the bindings at its definition among them. -/
def Heap.Alike (heap heap' : Heap) : Value → Value → Prop
  | .number content, .number content' => content = content'
  | .text handle, .text handle' => heap.text handle = heap'.text handle'
  | .list handle, .list handle' => (heap.list handle).size = (heap'.list handle').size
  | .object handle, .object handle' => (heap.object handle).keys = (heap'.object handle').keys
  | .function handle, .function handle' => heap.function handle = heap'.function handle'
  | .builtin handle, .builtin handle' => handle = handle'
  | .node handle, .node handle' => heap.node handle = heap'.node handle'
  | _, _ => False

/-- What stands at the positions of a value and of its copy, which was made while one heap grew into
another. -/
structure Copied (source before later : Heap) (original copy : List Nat → Option Value) :
    Prop where
  alike : ∀ position, Option.Rel (source.Alike later) (original position) (copy position)
  holds : ∀ position inner, copy position = some inner → later.Holds inner
  fresh : ∀ position inner, copy position = some inner → inner.Owned → ¬ before.Holds inner
  single : ∀ position position' inner, copy position = some inner → copy position' = some inner →
    inner.Owned → position = position'

namespace Copied

variable {source before middle later : Heap} {value copy : Value} {values copies : List Value}

theorem alike_grows {inner inner' : Value} (grows : middle.Grows later)
    (holds : middle.Holds inner') (alike : source.Alike middle inner inner') :
    source.Alike later inner inner' := by
  cases inner <;> cases inner' <;> try exact alike
  · exact alike.trans (grows.text holds).symm
  · exact alike.trans (congrArg Array.size (grows.list holds)).symm
  · exact alike.trans (congrArg Dict.keys (grows.object holds)).symm
  · exact alike.trans (grows.function holds).symm
  · exact alike.trans (grows.node holds).symm

/-- The same copy, looked at after further cells have been added. -/
theorem later_of_eq {original copy copy' : List Nat → Option Value}
    (copied : Copied source before middle original copy) (grows : middle.Grows later)
    (same : copy' = copy) : Copied source before later original copy' := by
  subst same
  refine ⟨fun position => ?_, fun position inner found => grows.holds (copied.holds _ _ found),
    copied.fresh, copied.single⟩
  have alike := copied.alike position
  have holds := copied.holds position
  generalize original position = seen at alike ⊢
  generalize copy' position = seen' at alike holds ⊢
  cases alike with
  | none => exact .none
  | some alike => exact .some (alike_grows grows (holds _ rfl) alike)

theorem value_grows (copied : Copied source before middle (source.at? value) (middle.at? copy))
    (grows : middle.Grows later) :
    Copied source before later (source.at? value) (later.at? copy) := by
  refine copied.later_of_eq grows (funext fun position => grows.at? ?_ position)
  rintro inner ⟨there, found⟩
  exact copied.holds there inner found

theorem row_grows
    (copied : Copied source before middle (source.under? values) (middle.under? copies))
    (grows : middle.Grows later) :
    Copied source before later (source.under? values) (later.under? copies) :=
  copied.later_of_eq grows (funext (grows.under? copied.holds))

theorem nil : Copied source before later (source.under? []) (later.under? []) := by
  have nothing : ∀ (heap : Heap) position, heap.under? [] position = none := by
    intro heap position
    cases position <;> rfl
  refine ⟨fun position => ?_, fun position inner found => ?_, fun position inner found => ?_,
    fun position _ inner found => ?_⟩
  · rw [nothing, nothing]
    exact .none
  all_goals
    rw [nothing] at found
    cases found

/-- A row of copies, the first of which was made before the others. -/
theorem cons (first : Copied source before middle (source.at? value) (middle.at? copy))
    (rest : Copied source middle later (source.under? values) (later.under? copies))
    (grown : before.Grows middle) (grows : middle.Grows later) :
    Copied source before later (source.under? (value :: values))
      (later.under? (copy :: copies)) := by
  have same : ∀ position, later.at? copy position = middle.at? copy position := by
    refine grows.at? ?_
    rintro inner ⟨there, found⟩
    exact first.holds there inner found
  have firstLater := first.value_grows grows
  -- what the first copy is made of existed before the others were made
  have apart : ∀ {position index others inner}, later.at? copy position = some inner →
      later.under? copies (index :: others) = some inner → ¬ inner.Owned := by
    intro position index others inner inFirst inRest owned
    rw [same] at inFirst
    exact rest.fresh _ inner inRest owned (first.holds position inner inFirst)
  constructor
  · rintro (_ | ⟨_ | index, others⟩)
    · exact .none
    · exact firstLater.alike others
    · exact rest.alike (index :: others)
  · rintro (_ | ⟨_ | index, others⟩) inner found
    · cases found
    · exact firstLater.holds others inner found
    · exact rest.holds (index :: others) inner found
  · rintro (_ | ⟨_ | index, others⟩) inner found owned
    · cases found
    · exact firstLater.fresh others inner found owned
    · exact fun held => rest.fresh (index :: others) inner found owned (grown.holds held)
  · rintro (_ | ⟨_ | index, others⟩) (_ | ⟨_ | index', others'⟩) inner found found' owned
    · rfl
    · cases found
    · cases found
    · cases found'
    · exact congrArg _ (firstLater.single others others' inner found found' owned)
    · exact absurd owned (apart found found')
    · cases found'
    · exact absurd owned (apart found' found)
    · have equal := rest.single (index :: others) (index' :: others') inner found found' owned
      cases equal
      rfl

/-- A new cell around a row of copies. -/
theorem cell
    (row : Copied source before middle (source.under? (source.children value))
      (middle.under? (later.children copy)))
    (grown : before.Grows middle) (grows : middle.Grows later)
    (alike : source.Alike later value copy) (holds : later.Holds copy)
    (fresh : copy.Owned → ¬ middle.Holds copy) :
    Copied source before later (source.at? value) (later.at? copy) := by
  have same := grows.under? row.holds
  have rowLater := row.row_grows grows
  -- the cell itself is newer than all that it holds
  have apart : ∀ {index others}, later.at? copy (index :: others) = some copy → ¬ copy.Owned := by
    intro index others found owned
    rw [Heap.at?_cons, same] at found
    exact fresh owned (row.holds _ copy found)
  constructor
  · rintro (_ | ⟨index, others⟩)
    · exact .some alike
    · exact rowLater.alike (index :: others)
  · rintro (_ | ⟨index, others⟩) inner found
    · cases found
      exact holds
    · exact rowLater.holds (index :: others) inner found
  · rintro (_ | ⟨index, others⟩) inner found owned
    · cases found
      exact fun held => fresh owned (grown.holds held)
    · exact rowLater.fresh (index :: others) inner found owned
  · rintro (_ | ⟨index, others⟩) (_ | ⟨index', others'⟩) inner found found' owned
    · rfl
    · cases found
      exact absurd owned (apart found')
    · cases found'
      exact absurd owned (apart found)
    · exact rowLater.single _ _ inner found found' owned

end Copied

/-! ## Walks -/

/-- A walk through a value adds cells to the heap. It succeeds with what is expected of it, or the
value goes around in itself. -/
def Walks {α : Type} (source : Heap) (root : Value) (walk : OnHeap α) (heap : Heap)
    (expected : α → Heap → Prop) : Prop :=
  (∃ result heap', walk heap = .ok result heap' ∧ heap.Grows heap' ∧ expected result heap') ∨
    (∃ heap', walk heap = .error (.cyclicValue "copy") heap' ∧ heap.Grows heap' ∧
      source.Cyclic root)

namespace Walks

variable {α β : Type} {source heap : Heap} {root : Value} {expected : α → Heap → Prop}

theorem bind {walk : OnHeap α} {next : α → OnHeap β} {expected' : β → Heap → Prop}
    (first : Walks source root walk heap expected)
    (second : ∀ result heap', heap.Grows heap' → expected result heap' →
      Walks source root (next result) heap' expected') :
    Walks source root (walk >>= next) heap expected' := by
  obtain ⟨result, heap', ran, grows, holds⟩ | ⟨heap', ran, grows, cyclic⟩ := first
  · have goesOn : (walk >>= next) heap = next result heap' := by
      show EStateM.bind walk next heap = _
      unfold EStateM.bind
      rw [ran]
    obtain ⟨result', heap'', ran', grows', holds'⟩ | ⟨heap'', ran', grows', cyclic⟩ :=
      second result heap' grows holds
    · exact Or.inl ⟨result', heap'', goesOn.trans ran', grows.trans grows', holds'⟩
    · exact Or.inr ⟨heap'', goesOn.trans ran', grows.trans grows', cyclic⟩
  · refine Or.inr ⟨heap', ?_, grows, cyclic⟩
    show EStateM.bind walk next heap = _
    unfold EStateM.bind
    rw [ran]

theorem read {next : Heap → OnHeap β} {expected : β → Heap → Prop}
    (rest : Walks source root (next heap) heap expected) :
    Walks source root (get >>= next) heap expected := rest

/-- The copies of a row are made one after the other. -/
theorem mapM {duplicate : Value → OnHeap Value} {bound : Nat} {values : List Value}
    (each : ∀ value ∈ values, ∀ heap, source.Grows heap →
      Walks source root (duplicate value) heap fun copy heap' =>
        Copied source heap heap' (source.at? value) (heap'.at? copy) ∧
          source.Shallow bound value)
    (grown : source.Grows heap) :
    Walks source root (values.mapM duplicate) heap fun copies heap' =>
      Copied source heap heap' (source.under? values) (heap'.under? copies) ∧
        copies.length = values.length ∧ ∀ value ∈ values, source.Shallow bound value := by
  induction values generalizing heap with
  | nil => exact Or.inl ⟨[], heap, rfl, .refl heap, .nil, rfl, nofun⟩
  | cons value rest inductionHypothesis =>
      rw [List.mapM_cons]
      refine (each value List.mem_cons_self heap grown).bind fun copy middle grows first => ?_
      have others := inductionHypothesis
        (fun other member => each other (List.mem_cons_of_mem _ member)) (grown.trans grows)
      refine others.bind fun copies later grows' ⟨row, sameLength, shallow⟩ => ?_
      refine Or.inl ⟨copy :: copies, later, rfl, .refl later, ?_, by simp [sameLength], ?_⟩
      · exact first.1.cons row grows grows'
      · rintro other (_ | ⟨_, member⟩)
        · exact first.2
        · exact shallow other member

end Walks

/-! ## New cells -/

namespace Heap

private theorem prefix_push {α : Type} (cells : Array α) (content : α) :
    cells.toList <+: (cells.push content).toList := by
  rw [Array.toList_push]
  exact List.prefix_append _ _

theorem getD_push {α : Type} (cells : Array α) (content absent : α) :
    (cells.push content).getD cells.size absent = content := by
  simp [Array.getD_eq_getD_getElem?]

theorem lt_size_push {α : Type} (cells : Array α) (content : α) :
    cells.size < (cells.push content).size := by simp

/-- The heap with a further cell of one kind. -/
theorem Grows.push_text (heap : Heap) (content : String) :
    heap.Grows { heap with texts := heap.texts.push content } :=
  { Grows.refl heap with texts := prefix_push _ _ }

theorem Grows.push_list (heap : Heap) (content : Array Value) :
    heap.Grows { heap with lists := heap.lists.push content } :=
  { Grows.refl heap with lists := prefix_push _ _ }

theorem Grows.push_object (heap : Heap) (content : Dict Value) :
    heap.Grows { heap with objects := heap.objects.push content } :=
  { Grows.refl heap with objects := prefix_push _ _ }

theorem Grows.push_function (heap : Heap) (content : Function) :
    heap.Grows { heap with functions := heap.functions.push content } :=
  { Grows.refl heap with functions := prefix_push _ _ }

theorem Grows.push_node (heap : Heap) (content : Node) :
    heap.Grows { heap with nodes := heap.nodes.push content } :=
  { Grows.refl heap with nodes := prefix_push _ _ }

end Heap

/-! ## Copies of values -/

namespace OnHeap

/-- What holds nothing is copied at once. -/
private theorem walks_leaf {source heap heap' : Heap} {root value copy : Value} {room : Nat}
    {walk : OnHeap Value} (ran : walk heap = .ok copy heap') (grows : heap.Grows heap')
    (leaf : source.children value = []) (leafLater : heap'.children copy = [])
    (alike : source.Alike heap' value copy) (holds : heap'.Holds copy)
    (fresh : copy.Owned → ¬ heap.Holds copy) :
    Walks source root walk heap fun copy heap' =>
      Copied source heap heap' (source.at? value) (heap'.at? copy) ∧
        source.Shallow (room + 1) value := by
  have row : Copied source heap heap (source.under? (source.children value))
      (heap.under? (heap'.children copy)) := by
    rw [leaf, leafLater]
    exact .nil
  exact Or.inl ⟨copy, heap', ran, grows, row.cell (.refl heap) grows alike holds fresh,
    .of_children (by simp [leaf])⟩

/-- Walking through a value makes a copy of it or goes around. -/
theorem duplicateWithin_walks {source : Heap} {root : Value}
    (held : ∀ inner, source.Reaches root inner → source.Holds inner) {room : Nat} {path : Path}
    {value : Value} {heap : Heap} (grown : source.Grows heap)
    (ancestors : Ancestors source root path value)
    (enough : source.containers + 2 ≤ path.length + room) :
    Walks source root (duplicateWithin room path value) heap fun copy heap' =>
      Copied source heap heap' (source.at? value) (heap'.at? copy) ∧
        source.Shallow room value := by
  induction room generalizing path value heap with
  | zero =>
      have bounded := ancestors.length_le held
      omega
  | succ room inductionHypothesis =>
      have holds := held value ancestors.reached
      cases opened : path.open? value with
      | none =>
          have failed : duplicateWithin (room + 1) path value heap =
              .error (.cyclicValue "copy") heap := by
            unfold duplicateWithin Path.enter
            rw [opened]
            rfl
          exact Or.inr ⟨heap, failed, .refl heap, ancestors.cyclic opened⟩
      | some inside =>
          have row {values : List Value} (same : values = source.children value)
              (longer : inside.length = path.length + 1) :
              Walks source root (values.mapM (duplicateWithin room inside)) heap
                fun copies heap' =>
                  Copied source heap heap' (source.under? values) (heap'.under? copies) ∧
                    copies.length = values.length ∧
                      ∀ child ∈ values, source.Shallow room child := by
            subst same
            refine Walks.mapM (fun child member heap grown => ?_) grown
            exact inductionHypothesis grown (ancestors.descend opened member) (by omega)
          unfold duplicateWithin Path.enter
          rw [opened]
          cases value with
          | number content => exact walks_leaf rfl (.refl heap) rfl rfl rfl trivial nofun
          | builtin handle =>
              exact walks_leaf rfl (.refl heap) rfl rfl rfl (grown.holds holds) nofun
          | text handle =>
              refine walks_leaf rfl (.push_text heap _) rfl rfl ?_ ?_ fun _ => Nat.lt_irrefl _
              · exact (grown.text holds).symm.trans (Heap.getD_push _ _ _).symm
              · exact Heap.lt_size_push _ _
          | function handle =>
              refine walks_leaf rfl (.push_function heap _) rfl rfl ?_ ?_ fun _ => Nat.lt_irrefl _
              · exact (grown.function holds).symm.trans (Heap.getD_push _ _ _).symm
              · exact Heap.lt_size_push _ _
          | node handle =>
              refine walks_leaf rfl (.push_node heap _) rfl rfl ?_ ?_ fun _ => Nat.lt_irrefl _
              · exact (grown.node holds).symm.trans (Heap.getD_push _ _ _).symm
              · exact Heap.lt_size_push _ _
          | list handle =>
              have originals := congrArg Array.toList (grown.list holds)
              refine .read ((row originals (Path.length_of_open? rfl opened)).bind ?_)
              rintro copies middle grows ⟨copied, sameLength, shallow⟩
              let later := { middle with lists := middle.lists.push copies.toArray }
              have content : later.list middle.lists.size = copies.toArray := Heap.getD_push _ _ _
              have made : later.children (.list middle.lists.size) = copies :=
                congrArg Array.toList content
              rw [originals] at copied sameLength shallow
              rw [← made] at copied
              refine Or.inl ⟨.list middle.lists.size, later, rfl, .push_list middle _,
                copied.cell grows (.push_list middle _) ?_ (Heap.lt_size_push _ _)
                  (fun _ => Nat.lt_irrefl _), .of_children shallow⟩
              show (source.list handle).size = (later.list middle.lists.size).size
              rw [content]
              exact sameLength.symm
          | object handle =>
              have original := grown.object holds
              refine .read ((row (congrArg Dict.values original)
                (Path.length_of_open? rfl opened)).bind ?_)
              rintro copies middle grows ⟨copied, sameLength, shallow⟩
              let entries := Dict.ofList ((heap.object handle).keys.zip copies)
              let later := { middle with objects := middle.objects.push entries }
              have content : later.object middle.objects.size = entries := Heap.getD_push _ _ _
              obtain ⟨keys, values⟩ : entries.keys = (heap.object handle).keys ∧
                  entries.values = copies := by
                refine Dict.ofList_zip (sameLength.trans ?_)
                rw [Dict.values, Dict.keys, List.length_map, List.length_map]
              have made : later.children (.object middle.objects.size) = copies :=
                (congrArg Dict.values content).trans values
              rw [original] at copied shallow
              rw [← made] at copied
              refine Or.inl ⟨.object middle.objects.size, later, rfl, .push_object middle _,
                copied.cell grows (.push_object middle _) ?_ (Heap.lt_size_push _ _)
                  (fun _ => Nat.lt_irrefl _), .of_children shallow⟩
              show (source.object handle).keys = (later.object middle.objects.size).keys
              rw [content, keys, original]

/-- A deep copy fails if and only if some list or object in the value contains itself. Otherwise the
copy shows what the value shows at every position, and all that it is made of, builtins apart, is
new and stands at one position only. In both cases all cells that existed stay as they are. All that
the value leads to has a cell. -/
theorem duplicate_copied (heap : Heap) (value : Value)
    (held : ∀ position inner, heap.at? value position = some inner → heap.Holds inner) :
    (heap.Cyclic value → ∃ heap', duplicate value heap = .error (.cyclicValue "copy") heap' ∧
      heap.Grows heap') ∧
    (¬ heap.Cyclic value → ∃ copy heap', duplicate value heap = .ok copy heap' ∧
      heap.Grows heap' ∧ Copied heap heap heap' (heap.at? value) (heap'.at? copy)) := by
  have walks : Walks heap value (duplicate value) heap _ :=
    .read (duplicateWithin_walks (fun inner ⟨position, found⟩ => held position inner found)
      (.refl heap) (.start heap value) (by simp [Heap.room]))
  obtain ⟨copy, heap', ran, grows, copied, shallow⟩ | ⟨heap', ran, grows, cyclic⟩ := walks
  · exact ⟨fun cyclic => absurd cyclic shallow.not_cyclic,
      fun _ => ⟨copy, heap', ran, grows, copied⟩⟩
  · exact ⟨fun _ => ⟨heap', ran, grows⟩, fun acyclic => absurd cyclic acyclic⟩

/-- A list that contains itself is not copied; a list that holds another one twice is. -/
theorem duplicate_copied_shared :
    let heap := { Heap.empty with lists := #[#[.list 0], #[], #[.list 1, .list 1]] }
    (∃ heap', duplicate (.list 0) heap = .error (.cyclicValue "copy") heap' ∧
      heap.Grows heap') ∧
    ∃ copy heap', duplicate (.list 2) heap = .ok copy heap' ∧ heap.Grows heap' ∧
      Copied heap heap heap' (heap.at? (.list 2)) (heap'.at? copy) := by
  intro heap
  have closed : ∀ value, heap.Holds value → ∀ child ∈ heap.children value,
      heap.Holds child := by
    rintro (_ | _ | handle | _ | _ | _ | _) held child member <;> try cases member
    match handle, held with
    | 0, _ | 2, _ => simp_all [heap, Heap.children, Heap.list, Heap.Holds]
    | 1, _ => simp [heap, Heap.children, Heap.list] at member
  have held : ∀ handle < 3, ∀ position inner, heap.at? (.list handle) position = some inner →
      heap.Holds inner := fun handle inRange _ _ found =>
    Heap.Holds.at? closed (show heap.Holds (.list handle) from inRange) found
  have around : heap.Cyclic (.list 0) := ⟨.list 0, .refl heap _, [0], by simp, rfl⟩
  have shallow : heap.Shallow 2 (.list 2) :=
    .of_children fun child member => .of_children fun inner inside => by
      simp_all [heap, Heap.children, Heap.list]
  exact ⟨(duplicate_copied heap (.list 0) (held 0 (by decide))).1 around,
    (duplicate_copied heap (.list 2) (held 2 (by decide))).2 shallow.not_cyclic⟩

end OnHeap

end Fixity
