import Fixity.Syntax.Escape
import Fixity.Syntax.Printer
import Fixity.Value.Heap

/-!
Contract: walks through values that may contain themselves.

Owns:
- the path of lists and objects a walk is inside of, on which no container opens twice;
- the display form, the object key of a value, deep copies, and the tree that evaluates to a value;
- exact structural equality.

A walk goes at most one level deeper than there are containers, since each level opens one that is
not on the path yet; `room` counts the levels that are left.
-/

namespace Fixity

/-- A handle through which a value can contain itself. -/
inductive Container where
  | list (handle : Nat)
  | object (handle : Nat)
deriving DecidableEq

/-- The containers that a walk is inside of, the innermost first. -/
abbrev Path := List Container

/-- The container that a value is a handle of. -/
def Value.container? : Value → Option Container
  | list handle => some (.list handle)
  | object handle => some (.object handle)
  | _ => none

/-- The path inside a value; none if the value is open already. -/
def Path.open? (path : Path) (value : Value) : Option Path :=
  match value.container? with
  | none => some path
  | some container => if container ∈ path then none else some (container :: path)

/-- The path inside a value; a value that is open already fails the named operation. -/
def Path.enter (path : Path) (value : Value) (operation : String) : Outcome Path :=
  match path.open? value with
  | some inside => .ok inside
  | none => .error (.cyclicValue operation)

namespace Heap

/-- The levels that a walk can need. -/
def room (heap : Heap) : Nat := heap.containers + 2

/-! ## Display -/

/-- The display form inside a path. A list or object met inside itself is cut short. -/
def displayWithin (heap : Heap) : (room : Nat) → Path → Value → String
  | 0, _, _ => ""
  | room + 1, path, value =>
      match path.open? value with
      | none => if value matches .object _ then "\x7b...\x7d" else "[...]"
      | some inside =>
          match value with
          | .number content => content.display
          | .text handle => heap.text handle
          | .list handle =>
              "[" ++
                String.intercalate ", "
                  ((heap.list handle).toList.map (heap.displayWithin room inside)) ++
                "]"
          | .object handle =>
              "\x7b" ++
                String.intercalate ", "
                  ((heap.object handle).entries.map fun entry =>
                    entry.1 ++ ": " ++ heap.displayWithin room inside entry.2) ++
                "\x7d"
          | .function handle =>
              "#procedure [" ++ String.intercalate ", " (heap.function handle).params ++ "]"
          | .builtin handle => "#builtin " ++ (heap.builtin handle).name
          | .node handle => "`\x7b" ++ (heap.node handle).display ++ "\x7d"

/-- The display form of a value. -/
def display (heap : Heap) (value : Value) : String := heap.displayWithin heap.room [] value

/-- The key of a value: a text itself, the name of an identifier, any other display form. -/
def key (heap : Heap) (value : Value) : String :=
  match value with
  | .text handle => heap.text handle
  | .node handle => ((heap.node handle).name?).getD (heap.display value)
  | _ => heap.display value

/-! ## Trees of values -/

/-- The tree of a value inside a path. -/
def liftWithin (heap : Heap) : (room : Nat) → Path → Value → Outcome Node
  | 0, _, _ => .error (.cyclicValue "place in a syntax tree")
  | room + 1, path, value =>
      match value with
      | .node handle => .ok (heap.node handle)
      | .number content => .ok (.number content)
      | .text handle => .ok (.plainText (heap.text handle))
      | .list handle => do
          let inside ← path.enter value "place in a syntax tree"
          let elements ← (heap.list handle).toList.mapM (heap.liftWithin room inside)
          return .list elements
      | other => .error (.typeError (.notLiftable other.typeName))

/-- A tree that evaluates to the value. Objects and callables have none. -/
def lift (heap : Heap) (value : Value) : Outcome Node := heap.liftWithin heap.room [] value

/-! ## Exact equality -/

/-- Exact equality, as far as `room` levels show. -/
def sameWithin (heap : Heap) : (room : Nat) → Value → Value → Bool
  | 0, _, _ => true
  | room + 1, left, right =>
      match left, right with
      | .number left, .number right => left.same right
      | .text left, .text right => heap.text left == heap.text right
      | .list left, .list right =>
          left == right ||
            sameAll room (heap.list left).toList (heap.list right).toList
      | .object left, .object right =>
          left == right ||
            ((heap.object left).keys == (heap.object right).keys &&
              sameAll room (heap.object left).values (heap.object right).values)
      | .function left, .function right => left == right
      | .builtin left, .builtin right => left == right
      | .node left, .node right => left == right || (heap.node left).same (heap.node right)
      | _, _ => false
where
  /-- Equality of rows of values. -/
  sameAll (room : Nat) : List Value → List Value → Bool
    | [], [] => true
    | left :: lefts, right :: rights =>
        heap.sameWithin room left right && sameAll room lefts rights
    | _, _ => false

/-- Exact structural equality; callables equal only themselves. Two walks that go on in step need as
many levels as there are pairs of containers. -/
def same (heap : Heap) (left right : Value) : Bool :=
  heap.sameWithin (heap.room * heap.room) left right

end Heap

namespace OnHeap

/-! ## Copies -/

/-- A deep copy inside a path. -/
def duplicateWithin : (room : Nat) → Path → Value → OnHeap Value
  | 0, _, _ => throw (.cyclicValue "copy")
  | room + 1, path, value => do
      let inside ← path.enter value "copy"
      match value with
      | .number content => return .number content
      | .text handle => newText ((← get).text handle)
      | .list handle => do
          let elements ← ((← get).list handle).toList.mapM (duplicateWithin room inside)
          newListOf elements
      | .object handle => do
          let object := (← get).object handle
          let values ← object.values.mapM (duplicateWithin room inside)
          newObject (Dict.ofList (object.keys.zip values))
      | .function handle => newFunction ((← get).function handle)
      | .builtin handle => return .builtin handle
      | .node handle => newNode ((← get).node handle)

/-- A deep copy that shares no cell with the value, builtins apart. -/
def duplicate (value : Value) : OnHeap Value := do
  duplicateWithin (← get).room [] value

/-- The tree that evaluates to a value. -/
def lift (value : Value) : OnHeap Node := do
  (← get).lift value

/-- The display form of a value. -/
def display (value : Value) : OnHeap String := return (← get).display value

end OnHeap

end Fixity
