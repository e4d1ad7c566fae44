import Fixity.Proofs.Depth

/-!
Contract: functions that refuse their arguments.

Owns:
- `OnHeap.Reads`, `OnHeap.Certain` and `OnHeap.Checked`: computations that change no cell, that can
  not fail, and that change no cell if they fail; reading first and changing last is checked;
- `Native.changing`, the native functions that change cells or remove names;
- `Eval.run_refused`: such a function that fails leaves the state as it was.
-/

namespace Fixity

namespace OnHeap

variable {α β : Type}

/-- The computation leaves the heap as it is, whether it succeeds or fails. -/
def Reads (action : OnHeap α) : Prop := ∀ heap, action.after heap = heap

/-- The computation never fails. -/
def Certain (action : OnHeap α) : Prop := ∀ heap, ∃ value heap', action heap = .ok value heap'

/-- If the computation fails, the heap is as it was. -/
def Checked (action : OnHeap α) : Prop :=
  ∀ heap error heap', action heap = .error error heap' → heap' = heap

theorem bind_of_ok {action : OnHeap α} {next : α → OnHeap β} {heap heap' : Heap} {value : α}
    (ok : action heap = .ok value heap') : (action >>= next) heap = next value heap' := by
  show EStateM.bind action next heap = _
  unfold EStateM.bind
  rw [ok]

theorem bind_of_error {action : OnHeap α} {next : α → OnHeap β} {heap heap' : Heap}
    {error : RuntimeError} (failed : action heap = .error error heap') :
    (action >>= next) heap = .error error heap' := by
  show EStateM.bind action next heap = _
  unfold EStateM.bind
  rw [failed]

theorem bind_eq_ok {action : OnHeap α} {next : α → OnHeap β} {heap later : Heap} {result : β} :
    (action >>= next) heap = .ok result later ↔
      ∃ value middle, action heap = .ok value middle ∧ next value middle = .ok result later := by
  cases ran : action heap with
  | ok value middle =>
      rw [bind_of_ok ran]
      refine ⟨fun ok => ⟨value, middle, rfl, ok⟩, ?_⟩
      rintro ⟨_, _, same, ok⟩
      cases same
      exact ok
  | error error middle =>
      rw [bind_of_error ran]
      refine ⟨nofun, ?_⟩
      rintro ⟨_, _, same, _⟩
      cases same

/-! ## Computations that only read -/

namespace Reads

@[grind ←]
theorem pure (value : α) : Reads (pure value : OnHeap α) := fun _ => rfl

@[grind ←]
theorem throw (error : RuntimeError) : Reads (throw error : OnHeap α) := fun _ => rfl

@[grind ←]
theorem get : Reads (get : OnHeap Heap) := fun _ => rfl

@[grind ←]
theorem bind {action : OnHeap α} {next : α → OnHeap β} (first : Reads action)
    (second : ∀ value, Reads (next value)) : Reads (action >>= next) := by
  intro heap
  have same := first heap
  unfold OnHeap.after at same ⊢
  cases ran : action heap with
  | ok value middle =>
      rw [ran] at same
      rw [bind_of_ok ran, ← same]
      exact second value middle
  | error error middle =>
      rw [ran] at same
      rw [bind_of_error ran]
      exact same

@[grind ←]
theorem ofOutcome (outcome : Outcome α) : Reads (ofOutcome outcome) := by
  intro heap
  cases outcome <;> rfl

@[grind ←]
theorem lift (outcome : Outcome α) : Reads (liftM outcome : OnHeap α) := .ofOutcome outcome

@[grind ←]
theorem mapM {action : α → OnHeap β} (items : List α) (each : ∀ item, Reads (action item)) :
    Reads (items.mapM action) := by
  induction items with
  | nil => exact .pure []
  | cons item rest inductionHypothesis =>
      rw [List.mapM_cons]
      exact .bind (each item) fun _ => .bind inductionHypothesis fun _ => .pure _

@[grind ←]
theorem textOf (value : Value) (role : String) : Reads (textOf value role) :=
  .bind (.lift _) fun _ => .bind .get fun _ => .pure _

@[grind ←]
theorem lifted (value : Value) : Reads (OnHeap.lift value) := .bind .get fun _ => .lift _

@[grind ←]
theorem unsupported (operation : String) (value : Value) :
    Reads (Collection.unsupported operation value) := by
  unfold Collection.unsupported
  grind

@[grind ←]
theorem nameOf (value : Value) : Reads (Reflection.nameOf value) := by
  unfold Reflection.nameOf
  grind

end Reads

/-! ## Computations that can not fail -/

namespace Certain

@[grind ←]
theorem pure (value : α) : Certain (pure value : OnHeap α) := fun heap => ⟨value, heap, rfl⟩

@[grind ←]
theorem bind {action : OnHeap α} {next : α → OnHeap β} (first : Certain action)
    (second : ∀ value, Certain (next value)) : Certain (action >>= next) := by
  intro heap
  obtain ⟨value, middle, ran⟩ := first heap
  rw [bind_of_ok ran]
  exact second value middle

@[grind ←]
theorem newText (content : String) : Certain (newText content) := fun _ => ⟨_, _, rfl⟩

@[grind ←]
theorem newListOf (elements : List Value) : Certain (newListOf elements) := fun _ => ⟨_, _, rfl⟩

@[grind ←]
theorem newNode (tree : Node) : Certain (newNode tree) := fun _ => ⟨_, _, rfl⟩

@[grind ←]
theorem modifyText (handle : Nat) (change : String → String) :
    Certain (modifyText handle change) := fun _ => ⟨_, _, rfl⟩

@[grind ←]
theorem modifyList (handle : Nat) (change : Array Value → Array Value) :
    Certain (modifyList handle change) := fun _ => ⟨_, _, rfl⟩

@[grind ←]
theorem modifyObject (handle : Nat) (change : Dict Value → Dict Value) :
    Certain (modifyObject handle change) := fun _ => ⟨_, _, rfl⟩

@[grind ←]
theorem modifyFunction (handle : Nat) (change : Function → Function) :
    Certain (modifyFunction handle change) := fun _ => ⟨_, _, rfl⟩

@[grind ←]
theorem modifyNode (handle : Nat) (change : Node → Node) :
    Certain (modifyNode handle change) := fun _ => ⟨_, _, rfl⟩

end Certain

/-! ## Computations that check before they change -/

namespace Checked

@[grind ←]
theorem of_reads {action : OnHeap α} (reads : Reads action) : Checked action := by
  intro heap error heap' failed
  have same := reads heap
  unfold OnHeap.after at same
  rw [failed] at same
  exact same

@[grind ←]
theorem of_certain {action : OnHeap α} (certain : Certain action) : Checked action := by
  intro heap error heap' failed
  obtain ⟨value, middle, ran⟩ := certain heap
  rw [ran] at failed
  cases failed

/-- What only reads may come before. -/
@[grind ←]
theorem bind {action : OnHeap α} {next : α → OnHeap β} (first : Reads action)
    (second : ∀ value, Checked (next value)) : Checked (action >>= next) := by
  intro heap error heap' failed
  have same := first heap
  unfold OnHeap.after at same
  cases ran : action heap with
  | ok value middle =>
      rw [ran] at same
      rw [bind_of_ok ran] at failed
      exact (second value middle error heap' failed).trans same
  | error error' middle =>
      rw [ran] at same
      rw [bind_of_error ran] at failed
      cases failed
      exact same

theorem write (container index value : Value) :
    Checked (Collection.write container index value) := by
  unfold Collection.write
  split <;> grind

theorem append (container value : Value) : Checked (Collection.append container value) := by
  unfold Collection.append
  split <;> grind

theorem removeLast (container : Value) : Checked (Collection.removeLast container) := by
  unfold Collection.removeLast
  split <;> grind

theorem splice (container start count : Value) (inserted : List Value) :
    Checked (Collection.splice container start count inserted) := by
  unfold Collection.splice
  apply bind (.lift _)
  intro count
  split <;> grind

theorem delete (object key : Value) : Checked (Entries.delete object key) := by
  unfold Entries.delete
  grind

theorem setOperand (side : Side) (node operand : Value) :
    Checked (Trees.setOperand side node operand) := by
  unfold Trees.setOperand Trees.mismatch
  grind

theorem setOperator (node token : Value) : Checked (Trees.setOperator node token) := by
  unfold Trees.setOperator Trees.mismatch
  grind

theorem setName (node name : Value) : Checked (Trees.setName node name) := by
  unfold Trees.setName Trees.mismatch
  grind

theorem setSource (levels : Syntax.Levels) (node text : Value) :
    Checked (Trees.setSource levels node text) := by
  unfold Trees.setSource Trees.mismatch
  grind

theorem setBody (function tree : Value) : Checked (Trees.setBody function tree) := by
  unfold Trees.setBody
  grind

end Checked

end OnHeap

/-- The native functions that change cells or remove names. -/
def Native.changing : List Native :=
  [set, push, pop, splice, delkey, setOperand .left, setOperand .right, setop, setname, settext,
    setbody, del]

namespace Eval

variable {α : Type}

/-- If the action fails, the state is as it was. -/
def Checked (action : Eval α) : Prop :=
  ∀ state failure state', action state = .error failure state' → state' = state

theorem checked_throw (failure : Failure) : Checked (throw failure : Eval α) := by
  intro state failure' state' failed
  cases failed
  rfl

theorem checked_onHeap {action : OnHeap α} (checked : action.Checked) :
    Checked (Eval.onHeap action) := by
  intro state failure state' failed
  cases ran : action state.heap with
  | ok value heap =>
      rw [onHeap_of_ok ran] at failed
      cases failed
  | error error heap =>
      rw [onHeap_of_error ran] at failed
      cases failed
      rw [checked _ _ _ ran]

theorem checked_changingObject (container key : Value) {action : OnHeap Value}
    (checked : action.Checked) : Checked (changingObject container key action) := by
  unfold changingObject
  split
  · next handle =>
    intro state failure state' failed
    change (if state.heap.readsObject handle state.heap.room [] key then throw .conflict
      else Eval.onHeap action : Eval Value) state = _ at failed
    split at failed
    · exact checked_throw _ _ _ _ failed
    · exact checked_onHeap checked _ _ _ failed
  · exact checked_onHeap checked

/-- All names are read before the first one is removed. -/
theorem checked_delete (names : List Value) : Checked (Reflection.delete names) := by
  have reads : (names.mapM Reflection.nameOf).Reads := .mapM _ fun _ => .nameOf _
  intro state failure state' failed
  cases ran : names.mapM Reflection.nameOf state.heap with
  | ok read heap =>
      unfold Reflection.delete at failed
      rw [bind_of_ok (onHeap_of_ok ran)] at failed
      cases failed
  | error error heap =>
      have refused := checked_onHeap (.of_reads reads) _ _ _ (onHeap_of_error ran)
      unfold Reflection.delete at failed
      rw [bind_of_error (onHeap_of_error ran)] at failed
      cases failed
      exact refused

theorem checked_performNative (interpreter : Interpreter) {native : Native}
    (changing : native ∈ Native.changing) {arguments : List Value}
    (accepts : native.arity.accepts arguments.length) :
    Checked (performNative interpreter native arguments) := by
  unfold Native.changing at changing
  simp only [List.mem_cons, List.not_mem_nil, or_false] at changing
  have operand {side : Side} (accepts : (Native.setOperand side).arity.accepts arguments.length) :
      Checked (performNative interpreter (.setOperand side) arguments) := by
    obtain ⟨node, operand, rfl⟩ := Arity.two accepts
    exact checked_onHeap (.setOperand side node operand)
  rcases changing with
    rfl | rfl | rfl | rfl | rfl | rfl | rfl | rfl | rfl | rfl | rfl | rfl
  · obtain ⟨container, index, value, rfl⟩ := Arity.three accepts
    exact checked_changingObject container index (.write container index value)
  · obtain ⟨container, value, rfl⟩ := Arity.two accepts
    exact checked_onHeap (.append container value)
  · obtain ⟨container, rfl⟩ := Arity.one accepts
    exact checked_onHeap (.removeLast container)
  · obtain ⟨container, start, count, inserted, rfl⟩ := Arity.threeOrMore accepts
    exact checked_onHeap (.splice container start count inserted)
  · obtain ⟨object, key, rfl⟩ := Arity.two accepts
    exact checked_changingObject object key (.delete object key)
  · exact operand accepts
  · exact operand accepts
  · obtain ⟨node, token, rfl⟩ := Arity.two accepts
    exact checked_onHeap (.setOperator node token)
  · obtain ⟨node, name, rfl⟩ := Arity.two accepts
    exact checked_onHeap (.setName node name)
  · obtain ⟨node, text, rfl⟩ := Arity.two accepts
    exact fun state =>
      checked_onHeap (.setSource state.scope.operators.levels node text) state
  · obtain ⟨function, tree, rfl⟩ := Arity.two accepts
    exact checked_onHeap (.setBody function tree)
  · exact checked_delete arguments

theorem checked_callNative (interpreter : Interpreter) {native : Native}
    (changing : native ∈ Native.changing) (arguments : List Value) :
    Checked (callNative interpreter native arguments) := by
  unfold callNative
  split
  · next accepts => exact checked_performNative interpreter changing accepts
  · exact checked_throw _

/-- Native functions that change cells or remove names find out first whether they can do all of it.
However such a function is applied, if it fails, then the whole state is as it was: every cell,
every binding and the operators, of the current scope and of those around it. -/
theorem run_refused {host : Host} {bound : Nat} {native : Native} {handle : Nat}
    {arguments : List Value} {state after : State} {failure : Failure}
    (changing : native ∈ Native.changing)
    (does : (state.heap.builtin handle).action = .native native) :
    (run host bound (.application (.builtin handle) arguments) state = .error failure after →
        after = state) ∧
      ∀ steps, run host bound (.scopedApplication steps (.builtin handle) arguments) state =
        .error failure after → after = state := by
  cases bound with
  | zero => exact ⟨checked_throw _ _ _ _, fun _ => checked_throw _ _ _ _⟩
  | succ bound =>
      have checked := checked_callNative (run host bound) changing arguments
      have called (fresh : Bool) (state' : State) (same : state'.heap = state.heap) :
          call host (run host bound) fresh (.builtin handle) arguments state' =
            callNative (run host bound) native arguments state' := by
        show callBuiltin host (run host bound) (state'.heap.builtin handle) arguments state' = _
        unfold callBuiltin
        rw [same, does]
      constructor
      · intro failed
        exact checked state _ _ ((called true state rfl).symm.trans failed)
      · intro steps failed
        cases ran : callNative (run host bound) native arguments (state.outward steps) with
        | ok value state' =>
            have succeeded : inAncestor steps
                (call host (run host bound) false (.builtin handle) arguments) state =
                .ok value (state.back steps state') := by
              show ensuring _ _ (state.outward steps) = _
              unfold ensuring
              rw [called false (state.outward steps) rfl, ran]
              rfl
            cases succeeded.symm.trans failed
        | error failure' state' =>
            have unchanged := checked _ _ _ ran
            rw [unchanged] at ran
            have refused :=
              inAncestor_of_unchanged ((called false (state.outward steps) rfl).trans ran)
            cases refused.symm.trans failed
            rfl

/-- An identifier is no operation, and can not be made an operand of itself: both arguments are the
same tree. -/
theorem run_refused_identifier :
    let heap : Heap :=
      { Heap.empty with
        builtins := #[⟨"setleft", .native (.setOperand .left)⟩]
        nodes := #[.identifier "x"] }
    let state : State := .initial .empty heap
    ∃ after, run Library.noHost 1 (.application (.builtin 0) [.node 0, .node 0]) state =
        .error (.error (.typeError (.wrongNode "setleft" "an operation" "identifier"))) after ∧
      after = state := by
  intro heap state
  have changing : Native.setOperand .left ∈ Native.changing := by decide
  have does : (state.heap.builtin 0).action = .native (.setOperand .left) := rfl
  have ran : run Library.noHost 1 (.application (.builtin 0) [.node 0, .node 0]) state =
      .error (.error (.typeError (.wrongNode "setleft" "an operation" "identifier"))) state := rfl
  exact ⟨state, ran, (run_refused changing does).1 ran⟩

end Eval

end Fixity
