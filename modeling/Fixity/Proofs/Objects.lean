import Fixity.Proofs.Rows

/-!
Contract: objects as maps under the keys that values have at the time of a call.

Owns:
- `Heap.readsObject_iff`: the form of a key reads an object exactly if the key leads to the object;
- `Eval.Lists`, an object's entries as the functions on whole objects show them;
- `Eval.Rewrites`, a change of one object and of nothing else.

Main statement: reading, finding, storing and removing an entry agree with the map under the key of
the value, but an object is not changed under a key that is read out of the object itself.

Does not own: the display form.
-/

namespace Fixity

/-! ## Keys that read objects -/

namespace Heap

variable {heap : Heap} {root value : Value} {path : Path} {room handle : Nat}

/-- A walk that goes into a value reads an object if this is the value, or further inside. -/
private theorem readsObject_succ {container : Container}
    (opens : value.container? = some container) (fresh : container ∉ path) :
    heap.readsObject handle (room + 1) path value ↔
      value = .object handle ∨
        ∃ child ∈ heap.children value, heap.readsObject handle room (container :: path) child := by
  have opened : path.open? value = some (container :: path) := by
    unfold Path.open?
    rw [opens]
    exact if_neg fresh
  conv_lhs => unfold readsObject
  rw [opened]
  cases value with
  | list other =>
      cases opens
      exact List.any_eq_true.trans (or_iff_right nofun).symm
  | object other =>
      cases opens
      exact (Bool.or_eq_true _ _).to_iff.trans
        (or_congr (beq_iff_eq.trans (Value.object.injEq other handle).to_iff.symm) List.any_eq_true)
  | _ => cases opens

/-- What a walk reads, it comes upon. -/
private theorem reaches_of_readsObject (reads : heap.readsObject handle room path value) :
    heap.Reaches value (.object handle) := by
  induction room generalizing path value with
  | zero => cases reads
  | succ room inductionHypothesis =>
      cases opens : value.container? with
      | none => cases value <;> cases opens <;> cases reads
      | some container =>
          by_cases again : container ∈ path
          · have closed : path.open? value = none := by
              unfold Path.open?
              rw [opens]
              exact if_pos again
            unfold readsObject at reads
            rw [closed] at reads
            cases reads
          · rcases (readsObject_succ opens again).mp reads with rfl | ⟨child, member, below⟩
            · exact .refl heap _
            · exact .of_child member (inductionHypothesis below)

/-- No list or object on the way to a position of a value is open already. -/
private def Clear (heap : Heap) (path : Path) (value : Value) (position : List Nat) : Prop :=
  ∀ front inner container, front <+: position → heap.at? value front = some inner →
    inner.container? = some container → container ∉ path

/-- A walk reads an object that stands at a position to which the way is clear. -/
private theorem readsObject_of_at? (held : ∀ inner, heap.Reaches root inner → heap.Holds inner)
    (ancestors : Ancestors heap root path value)
    (enough : heap.containers + 2 ≤ path.length + room) {position : List Nat}
    (found : heap.at? value position = some (.object handle))
    (clear : heap.Clear path value position) : heap.readsObject handle room path value := by
  -- By the length of the way: where it comes back to the value, there is a shorter one.
  induction bound : position.length using Nat.strongRecOn generalizing room path value position with
  | ind bound inductionHypothesis =>
      subst bound
      obtain ⟨room, rfl⟩ : ∃ further, room = further + 1 := by
        have bounded := ancestors.length_le held
        exact ⟨room - 1, by omega⟩
      cases position with
      | nil =>
          cases found
          exact (readsObject_succ rfl (clear [] _ _ List.nil_prefix rfl rfl)).mpr (.inl rfl)
      | cons index rest =>
          obtain ⟨child, atIndex, foundThere⟩ := Option.bind_eq_some_iff.mp found
          have member : child ∈ heap.children value := List.mem_of_getElem? atIndex
          obtain ⟨container, opens⟩ : ∃ container, value.container? = some container := by
            cases value with
            | list handle => exact ⟨_, rfl⟩
            | object handle => exact ⟨_, rfl⟩
            | _ => cases member
          have fresh := clear [] value container List.nil_prefix rfl opens
          by_cases again : ∃ front, front <+: rest ∧ heap.at? child front = some value
          · obtain ⟨front, ⟨back, rfl⟩, around⟩ := again
            have onward (more : List Nat) :
                heap.at? value (index :: front ++ more) = heap.at? value more := by
              rw [List.cons_append, Heap.at?, atIndex, Option.bind_some, at?_append, around]
              rfl
            refine inductionHypothesis back.length ?_ ancestors enough
              ((onward back).symm.trans found)
              (fun more inner container ahead there => ?_) rfl
            · rw [List.length_cons, List.length_append]
              omega
            · exact clear (index :: front ++ more) inner container
                ((List.prefix_append_right_inj (index :: front)).mpr ahead)
                ((onward more).trans there)
          · have opened : path.open? value = some (container :: path) := by
              unfold Path.open?
              rw [opens]
              exact if_neg fresh
            refine (readsObject_succ opens fresh).mpr (.inr ⟨child, member, ?_⟩)
            refine inductionHypothesis rest.length (Nat.lt_succ_self _)
              (ancestors.descend opened member) (by rw [List.length_cons]; omega) foundThere
              (fun front inner other ahead there opensInner inPath => ?_) rfl
            rcases List.mem_cons.mp inPath with rfl | inPath
            · obtain rfl := Ancestors.container?_inj opensInner opens
              exact again ⟨front, ahead, there⟩
            · refine clear (index :: front) inner other
                (List.cons_prefix_cons.mpr ⟨rfl, ahead⟩) ?_ opensInner inPath
              rw [Heap.at?, atIndex]
              exact there

/-- The form of a key reads an object exactly if the key leads to the object. -/
theorem readsObject_iff (held : ∀ inner, heap.Reaches value inner → heap.Holds inner) :
    heap.readsObject handle heap.room [] value ↔ heap.Reaches value (.object handle) := by
  refine ⟨reaches_of_readsObject, fun reaches => ?_⟩
  obtain ⟨position, found⟩ := reaches
  exact readsObject_of_at? held (.start heap value) (by simp [room]) found
    fun _ _ _ _ _ _ => List.not_mem_nil

end Heap

/-! ## Rows of new cells -/

namespace OnHeap

variable {heap : Heap}

/-- Computations that each answer a new value and keep all cells, one after the other. -/
theorem exists_mapM_new {β : Type} {action : β → OnHeap Value} (Stands : Heap → β → Value → Prop)
    (stays : ∀ {heap heap' : Heap} {item value}, heap.Grows heap' → Stands heap item value →
      Stands heap' item value)
    (each : ∀ heap item, ∃ heap' value, action item heap = .ok value heap' ∧ heap.Grows heap' ∧
      ¬ heap.Holds value ∧ Stands heap' item value) (heap : Heap) (items : List β) :
    ∃ heap' values, items.mapM action heap = .ok values heap' ∧ heap.Grows heap' ∧
      (∀ value ∈ values, ¬ heap.Holds value) ∧ List.Forall₂ (Stands heap') items values := by
  induction items generalizing heap with
  | nil => exact ⟨heap, [], rfl, .refl heap, nofun, .nil⟩
  | cons item rest inductionHypothesis =>
      obtain ⟨middle, value, ran, grows, fresh, stands⟩ := each heap item
      obtain ⟨heap', values, ranRest, growsRest, freshRest, standRest⟩ :=
        inductionHypothesis middle
      refine ⟨heap', value :: values, ?_, grows.trans growsRest, ?_, .cons (stays growsRest stands)
        standRest⟩
      · rw [List.mapM_cons, bind_of_ok ran, bind_of_ok ranRest]
        rfl
      · exact List.forall_mem_cons.mpr
          ⟨fresh, fun other member held => freshRest other member (grows.holds held)⟩

/-- The list of a row of values that were made before. -/
theorem Makes.after {action : OnHeap (List Value)} {middle : Heap} {values : List Value}
    (ran : action heap = .ok values middle) (grows : heap.Grows middle) :
    ∃ heap' row, Makes (action >>= newListOf) heap .list values heap' row ∧
      middle.Grows heap' := by
  have makes := makes_list middle values
  exact ⟨_, _, ⟨(bind_of_ok ran).trans makes.runs, makes.isRow,
    fun held => makes.fresh (grows.holds held), grows.trans makes.grows⟩, makes.grows⟩

end OnHeap

/-! ## The functions of the language -/

namespace Eval

variable {interpreter : Interpreter} {state state' : State} {handle : Nat} {entries : Dict Value}
  {key : Value}

/-- What the functions on whole objects tell of an object: the entries of a map in the order of the
keys, with new cells for all texts and lists that they answer. -/
structure Lists (interpreter : Interpreter) (state : State) (object : Value) (map : Dict Value) :
    Prop where
  sorted : (map.entries.map (·.1)).Pairwise (· < ·)
  members : ∀ name value, (name, value) ∈ map.entries ↔ map.get? name = some value
  keys : ∃ state' row texts,
    Answers (callNative interpreter .keys [object]) state .list texts state' row ∧
      (∀ text ∈ texts, ¬ state.heap.Holds text) ∧
      List.Forall₂ (fun entry text => state'.heap.IsRow .text text entry.1.toList) map.entries texts
  values : ∃ state' row,
    Answers (callNative interpreter .values [object]) state .list (map.entries.map (·.2)) state' row
  items : ∃ state' row pairs,
    Answers (callNative interpreter .items [object]) state .list pairs state' row ∧
      (∀ pair ∈ pairs, ¬ state.heap.Holds pair) ∧
      List.Forall₂ (fun entry pair => ∃ text, state'.heap.IsRow .list pair [text, entry.2] ∧
        state'.heap.IsRow .text text entry.1.toList) map.entries pairs
  len : callNative interpreter .len [object] state = .ok (.ofNat map.entries.length) state

/-- One object has other entries; all the rest of the state is as it was. -/
structure Rewrites (state : State) (handle : Nat) (entries : Dict Value) (state' : State) :
    Prop where
  rest : state' = { state with heap := { state.heap with objects := state'.heap.objects } }
  cell : state'.heap.objects[handle]? = some entries
  others : ∀ other, other ≠ handle → state'.heap.objects[other]? = state.heap.objects[other]?

theorem rewrites_modify (cell : state.heap.objects[handle]? = some entries)
    (change : Dict Value → Dict Value) :
    Rewrites state handle (change entries)
      { state with
        heap := { state.heap with objects := state.heap.objects.modify handle change } } where
  rest := rfl
  cell := Heap.getElem?_modify_self change cell
  others other different := by
    show (state.heap.objects.modify handle change)[other]? = _
    rw [Array.getElem?_modify, if_neg different.symm]

/-- A new text is a row of its characters. -/
private theorem exists_newText (heap : Heap) (content : String) :
    ∃ heap' value, OnHeap.newText content heap = .ok value heap' ∧ heap.Grows heap' ∧
      ¬ heap.Holds value ∧ heap'.IsRow .text value content.toList := by
  have makes := OnHeap.makes_text heap content.toList
  rw [String.ofList_toList] at makes
  exact ⟨_, _, makes.runs, makes.grows, makes.fresh, makes.isRow⟩

/-- The functions on whole objects tell the entries that the object has. -/
theorem lists_object (interpreter : Interpreter)
    (cell : state.heap.objects[handle]? = some entries) :
    Lists interpreter state (.object handle) entries := by
  have content : state.heap.object handle = entries := OnHeap.getD_of_getElem? cell _
  constructor
  · exact List.pairwise_map.mpr entries.ordered
  · exact fun name value => entries.get?_eq_some_iff.symm
  · obtain ⟨middle, texts, ran, grows, fresh, spell⟩ :=
      OnHeap.exists_mapM_new (fun heap (key : String) text => heap.IsRow .text text key.toList)
        (fun grows row => grows.isRow row) exists_newText state.heap entries.keys
    obtain ⟨heap', row, makes, growsFurther⟩ := OnHeap.Makes.after ran grows
    refine ⟨_, row, texts, .of_makes (makes.of_eq ?_), fresh, ?_⟩
    · show (OnHeap.newTexts (state.heap.object handle).keys >>= OnHeap.newListOf) state.heap = _
      rw [content]
      rfl
    · exact (List.forall₂_map_left_iff.mp spell).imp fun _ _ row => growsFurther.isRow row
  · have runs : callNative interpreter .values [.object handle] =
        onHeap (Entries.values (.object handle)) := rfl
    rw [runs]
    refine ⟨_, _, .of_makes ((OnHeap.makes_list state.heap entries.values).of_eq ?_)⟩
    show OnHeap.newListOf (state.heap.object handle).values state.heap = _
    rw [content]
  · let pair (entry : String × Value) : OnHeap Value := do
      OnHeap.newListOf [← OnHeap.newText entry.1, entry.2]
    have exists_pair (heap : Heap) (entry : String × Value) :
        ∃ heap' value, pair entry heap = .ok value heap' ∧ heap.Grows heap' ∧
          ¬ heap.Holds value ∧ ∃ text, heap'.IsRow .list value [text, entry.2] ∧
            heap'.IsRow .text text entry.1.toList := by
      obtain ⟨middle, text, ran, grows, _, spells⟩ := exists_newText heap entry.1
      have makes := OnHeap.makes_list middle [text, entry.2]
      exact ⟨_, _, (OnHeap.bind_of_ok ran).trans makes.runs, grows.trans makes.grows,
        fun held => makes.fresh (grows.holds held), text, makes.isRow, makes.grows.isRow spells⟩
    obtain ⟨middle, pairs, ran, grows, fresh, spell⟩ :=
      OnHeap.exists_mapM_new
        (fun heap (entry : String × Value) value =>
          ∃ text, heap.IsRow .list value [text, entry.2] ∧ heap.IsRow .text text entry.1.toList)
        (fun grows ⟨text, row, spells⟩ => ⟨text, grows.isRow row, grows.isRow spells⟩)
        exists_pair state.heap entries.entries
    obtain ⟨heap', row, makes, growsFurther⟩ := OnHeap.Makes.after ran grows
    refine ⟨_, row, pairs, .of_makes (makes.of_eq ?_), fresh, ?_⟩
    · show ((state.heap.object handle).entries.mapM pair >>= OnHeap.newListOf) state.heap = _
      rw [content]
    · exact spell.imp fun _ _ ⟨text, row, spells⟩ =>
        ⟨text, growsFurther.isRow row, growsFurther.isRow spells⟩
  · show onHeap (Collection.size (.object handle)) state = _
    have counts : Collection.size (.object handle) state.heap =
        .ok (.ofNat (state.heap.object handle).size) state.heap := rfl
    rw [onHeap_of_ok counts, content]
    rfl

private theorem read_object (content : state.heap.object handle = entries) :
    callNative interpreter .get [.object handle, key] state =
      match entries.get? (state.heap.key key) with
      | some value => .ok value state
      | none => .error (.error (.keyNotFound (state.heap.key key))) state := by
  show onHeap (Collection.read (.object handle) key) state = _
  cases stored : entries.get? (state.heap.key key) with
  | some value =>
      refine @onHeap_of_ok _ _ state _ state.heap ?_
      show (match (state.heap.object handle).get? (state.heap.key key) with
        | some value => (pure value : OnHeap Value)
        | none => throw (RuntimeError.keyNotFound (state.heap.key key))) state.heap = _
      rw [content, stored]
      rfl
  | none =>
      refine @onHeap_of_error _ _ state _ state.heap ?_
      show (match (state.heap.object handle).get? (state.heap.key key) with
        | some value => (pure value : OnHeap Value)
        | none => throw (RuntimeError.keyNotFound (state.heap.key key))) state.heap = _
      rw [content, stored]
      rfl

private theorem has_object (content : state.heap.object handle = entries) :
    callNative interpreter .haskey [.object handle, key] state =
      .ok (.ofBool (entries.contains (state.heap.key key))) state := by
  show onHeap (Entries.has (.object handle) key) state = _
  refine @onHeap_of_ok _ _ state _ state.heap ?_
  rw [← content]
  rfl

/-- A change of an object is refused if the key is read out of it. -/
private theorem changingObject_eq
    (held : ∀ inner, state.heap.Reaches key inner → state.heap.Holds inner)
    (action : OnHeap Value) :
    (state.heap.Reaches key (.object handle) →
      changingObject (.object handle) key action state = .error .conflict state) ∧
    (¬ state.heap.Reaches key (.object handle) →
      changingObject (.object handle) key action state = onHeap action state) := by
  have decides : changingObject (.object handle) key action state =
      (if state.heap.readsObject handle state.heap.room [] key then throw .conflict
        else onHeap action : Eval Value) state := rfl
  rw [decides, ← Heap.readsObject_iff held]
  constructor
  · intro reads
    rw [if_pos reads]
    rfl
  · intro apart
    rw [if_neg apart]

/-- An object is a map under the keys that values have at the time of a call. Entries are read and
found in any case. They are stored and removed unless the key leads to the object itself, whose
display form then would have to be read in the middle of the change: such a change does not finish
with a value, and nothing has been changed by then. -/
theorem object_is_map (interpreter : Interpreter)
    (cell : state.heap.objects[handle]? = some entries)
    (held : ∀ inner, state.heap.Reaches key inner → state.heap.Holds inner) :
    let object := Value.object handle
    let name := state.heap.key key
    Lists interpreter state object entries ∧
    callNative interpreter .haskey [object, key] state =
      .ok (.ofBool (entries.get? name).isSome) state ∧
    (callNative interpreter .get [object, key] state =
      match entries.get? name with
      | some value => .ok value state
      | none => .error (.error (.keyNotFound name)) state) ∧
    (state.heap.Reaches key object →
      (∀ value, callNative interpreter .set [object, key, value] state = .error .conflict state) ∧
      callNative interpreter .delkey [object, key] state = .error .conflict state) ∧
    (¬ state.heap.Reaches key object →
      (∀ value, ∃ state' entries',
        callNative interpreter .set [object, key, value] state = .ok value state' ∧
        Rewrites state handle entries' state' ∧
        (∀ other, entries'.get? other = if name = other then some value else entries.get? other) ∧
        Lists interpreter state' object entries') ∧
      ∃ state' entries',
        callNative interpreter .delkey [object, key] state =
          .ok (.ofBool (entries.get? name).isSome) state' ∧
        Rewrites state handle entries' state' ∧
        (∀ other, entries'.get? other = if name = other then none else entries.get? other) ∧
        Lists interpreter state' object entries') := by
  have content : state.heap.object handle = entries := OnHeap.getD_of_getElem? cell _
  intro object name
  refine ⟨lists_object interpreter cell, has_object content, read_object content,
    fun reads => ⟨fun value => ?_, ?_⟩, fun apart => ⟨fun value => ?_, ?_⟩⟩
  · exact (changingObject_eq held (Collection.write object key value)).1 reads
  · exact (changingObject_eq held (Entries.delete object key)).1 reads
  · have rewrites := rewrites_modify cell fun entries => entries.insert name value
    refine ⟨_, _, ?_, rewrites, fun other => entries.get?_insert name other value,
      lists_object interpreter rewrites.cell⟩
    refine ((changingObject_eq held (Collection.write object key value)).2 apart).trans ?_
    exact onHeap_of_ok rfl
  · have rewrites := rewrites_modify cell fun entries => entries.erase name
    refine ⟨_, _, ?_, rewrites, fun other => entries.get?_erase name other,
      lists_object interpreter rewrites.cell⟩
    refine ((changingObject_eq held (Entries.delete object key)).2 apart).trans ?_
    rw [← content]
    exact onHeap_of_ok rfl

/-- An object that holds a list in which it stands itself. It is no key of its own, and neither is
the list; a text is one. -/
theorem object_is_map_around :
    let interpreter : Interpreter := fun _ => throw .exhausted
    let object := Value.object 0
    let map := Dict.ofList [("a", Value.list 0)]
    let heap := { Heap.empty with texts := #["a"], lists := #[#[object]], objects := #[map] }
    let state := State.initial .empty heap
    heap.objects[0]? = some map ∧
    (∀ key ∈ [object, .list 0, .text 0], ∀ inner, heap.Reaches key inner → heap.Holds inner) ∧
    callNative interpreter .haskey [object, object] state = .ok (.ofBool false) state ∧
    callNative interpreter .delkey [object, object] state = .error .conflict state ∧
    callNative interpreter .set [object, .list 0, object] state = .error .conflict state ∧
    ∃ state' entries', callNative interpreter .set [object, .text 0, object] state =
        .ok object state' ∧
      Rewrites state 0 entries' state' ∧ entries'.get? "a" = some object := by
  intro interpreter object map heap state
  have cell : state.heap.objects[0]? = some map := rfl
  have closed : ∀ value, heap.Holds value → ∀ child ∈ heap.children value,
      heap.Holds child := by
    rintro (_ | _ | handle | handle | _ | _ | _) held child member <;> try cases member
    · obtain rfl : handle = 0 := Nat.lt_one_iff.mp held
      simp_all [heap, object, Heap.children, Heap.list, Heap.Holds]
    · obtain rfl : handle = 0 := Nat.lt_one_iff.mp held
      obtain rfl : child = .list 0 := List.mem_singleton.mp member
      exact Nat.zero_lt_one
  have held : ∀ key ∈ [object, .list 0, .text 0], ∀ inner, heap.Reaches key inner →
      heap.Holds inner := by
    intro key listed inner reaches
    obtain ⟨position, found⟩ := reaches
    have all : ∀ key ∈ [object, .list 0, .text 0], heap.Holds key := by decide
    exact Heap.Holds.at? closed (all key listed) found
  have aroundList : heap.Reaches (.list 0) object := ⟨[0], rfl⟩
  have apart : ¬ heap.Reaches (.text 0) object := by
    intro reaches
    rcases reaches.eq_or_child with same | ⟨child, member, _⟩
    · have same : Value.object 0 = .text 0 := same
      cases same
    · cases member
  obtain ⟨_, finds, _, refuses, _⟩ := object_is_map interpreter cell (held object (by simp))
  obtain ⟨_, _, _, refusesList, _⟩ := object_is_map interpreter cell (held (.list 0) (by simp))
  obtain ⟨_, _, _, _, changes⟩ := object_is_map interpreter cell (held (.text 0) (by simp))
  obtain ⟨state', entries', stores, rewrites, stored, _⟩ := (changes apart).1 object
  exact ⟨cell, held, finds, (refuses (.refl heap object)).2, (refusesList aroundList).1 object,
    state', entries', stores, rewrites, (stored "a").trans (if_pos rfl)⟩

end Eval

end Fixity
