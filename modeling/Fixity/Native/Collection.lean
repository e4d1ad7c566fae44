import Fixity.Text.Search
import Fixity.Value.Walk

/-!
Contract: the native functions on sequences and on containers in general.

Owns:
- positions, which must lie inside a container, and bounds, which are clamped and count from the
  end when negative;
- reading, writing, growing and shrinking lists, texts, objects and the children of trees;
- slices, splices, concatenation, ranges, splitting and joining.
-/

namespace Fixity.Collection

open OnHeap

/-- The items of a list, or copies of the children of a tree. -/
def elements (value : Value) (role : String) : OnHeap (List Value) := do
  match value with
  | .list handle => return ((← get).list handle).toList
  | .node handle =>
      let tree := (← get).node handle
      match tree.children? with
      | some children => newNodes children
      | none => throw (.typeError (.mismatch role "a list" tree.kind.name))
  | other => throw (.typeError (.mismatch role "a list" other.typeName))

/-- The error of an operation that a value has no part in. -/
def unsupported (operation : String) (value : Value) : OnHeap RuntimeError := do
  match value with
  | .node handle => return .typeError (.unsupported operation ((← get).node handle).kind.name)
  | other => return .typeError (.unsupported operation ("value of type " ++ other.typeName))

/-- An index that lies inside a container of the given length. -/
def position (index : Value) (length : Nat) : Outcome Nat := do
  let place ← index.asReal "index"
  if place < 0.0 || Float.ofNat length ≤ place then throw (.indexOutOfBounds place length)
  else Double.toCount place "index"

/-- A bound of a container of the given length: clamped, and counted from the end if negative. -/
def clamp (bound : Int) (length : Nat) : Nat :=
  if bound < 0 then (length + bound).toNat else min bound.toNat length

/-- The bound that a value stands for. -/
def boundOf (value : Value) (length : Nat) (role : String) : Outcome Nat := do
  let bound ← Double.toInteger (← value.asReal role) role
  return clamp bound length

/-- The part of a sequence from one bound up to another. -/
def between {α : Type} (start stop : Nat) (items : List α) : List α :=
  (items.take stop).drop start

/-- A sequence with `inserted` in place of the part from one bound up to another. -/
def replaceBetween {α : Type} (start stop : Nat) (inserted items : List α) : List α :=
  items.take start ++ inserted ++ items.drop stop

/-- Reads one entry. -/
def read (container index : Value) : OnHeap Value := do
  match container with
  | .list handle =>
      let items := (← get).list handle
      return items.getD (← position index items.size) .zero
  | .text handle =>
      let chars := ((← get).text handle).toList
      let place ← position index chars.length
      newText (String.ofList ((chars.drop place).take 1))
  | .object handle =>
      let key := (← get).key index
      match ((← get).object handle).get? key with
      | some value => return value
      | none => throw (.keyNotFound key)
  | .node handle =>
      match ((← get).node handle).children? with
      | some children =>
          let place ← position index children.length
          newNode (children.getD place (.body []))
      | none => throw (← unsupported "index" container)
  | _ => throw (← unsupported "index" container)

/-- Replaces one entry and answers the new value. -/
def write (container index value : Value) : OnHeap Value := do
  match container with
  | .list handle =>
      let place ← position index ((← get).list handle).size
      modifyList handle fun items => items.setIfInBounds place value
  | .text handle =>
      let replacement ← textOf value "the replacement"
      let chars := ((← get).text handle).toList
      let place ← position index chars.length
      modifyText handle fun _ =>
        String.ofList (replaceBetween place (place + 1) replacement.toList chars)
  | .object handle =>
      let key := (← get).key index
      modifyObject handle fun entries => entries.insert key value
  | .node handle =>
      let child ← lift value
      match ((← get).node handle).children? with
      | some children =>
          let place ← position index children.length
          modifyNode handle fun tree => tree.withChildren (children.set place child)
      | none => throw (← unsupported "index" container)
  | _ => throw (← unsupported "index" container)
  return value

/-- Appends a value and answers it. -/
def append (container value : Value) : OnHeap Value := do
  match container with
  | .list handle => modifyList handle fun items => items.push value
  | .text handle =>
      let suffix ← textOf value "the pushed value"
      modifyText handle fun content => content ++ suffix
  | .node handle =>
      let child ← lift value
      match ((← get).node handle).children? with
      | some children => modifyNode handle fun tree => tree.withChildren (children ++ [child])
      | none => throw (← unsupported "push onto" container)
  | _ => throw (← unsupported "push onto" container)
  return value

/-- Removes the last entry and answers it. -/
def removeLast (container : Value) : OnHeap Value := do
  match container with
  | .list handle =>
      match ((← get).list handle).back? with
      | none => throw (.emptyPop "list")
      | some last =>
          modifyList handle Array.pop
          return last
  | .text handle =>
      let chars := ((← get).text handle).toList
      match chars.getLast? with
      | none => throw (.emptyPop "text")
      | some last =>
          modifyText handle fun _ => String.ofList chars.dropLast
          newText last.toString
  | .node handle =>
      match ((← get).node handle).children? with
      | none => throw (← unsupported "pop" container)
      | some children =>
          match children.getLast? with
          | none => throw (.emptyPop "node")
          | some last =>
              modifyNode handle fun tree => tree.withChildren children.dropLast
              newNode last
  | other => throw (← unsupported "pop" other)

/-- The number of entries. -/
def size (container : Value) : OnHeap Value := do
  match container with
  | .text handle => return .ofNat ((← get).text handle).toList.length
  | .object handle => return .ofNat ((← get).object handle).size
  | other => return .ofNat (← elements other "the argument of len").length

/-- The bounds of a slice; an end before the start counts as the start. -/
def sliceBounds (start : Value) (stop : Option Value) (length : Nat) :
    Outcome (Nat × Nat) := do
  let first ← boundOf start length "slice start"
  let last ←
    match stop with
    | some value => boundOf value length "slice end"
    | none => pure length
  return (first, max first last)

/-- A new container of the entries from one bound up to another. -/
def slice (container start : Value) (stop : Option Value) : OnHeap Value := do
  match container with
  | .list handle =>
      let items := ((← get).list handle).toList
      let (first, last) ← sliceBounds start stop items.length
      newListOf (between first last items)
  | .text handle =>
      let chars := ((← get).text handle).toList
      let (first, last) ← sliceBounds start stop chars.length
      newText (String.ofList (between first last chars))
  | .node handle =>
      let tree := (← get).node handle
      match tree.children? with
      | some children =>
          let (first, last) ← sliceBounds start stop children.length
          newNode (tree.withChildren (between first last children))
      | none => throw (← unsupported "slice" container)
  | _ => throw (← unsupported "slice" container)

/-- The bounds of the part that a splice replaces. -/
def spliceBounds (start : Value) (count length : Nat) : Outcome (Nat × Nat) := do
  let first ← boundOf start length "splice start"
  return (first, min (first + count) length)

/-- Replaces a number of entries and answers the removed ones. -/
def splice (container start count : Value) (inserted : List Value) : OnHeap Value := do
  let count ← count.asCount "splice count"
  match container with
  | .list handle =>
      let items := ((← get).list handle).toList
      let (first, last) ← spliceBounds start count items.length
      modifyList handle fun _ => (replaceBetween first last inserted items).toArray
      newListOf (between first last items)
  | .text handle =>
      let pieces ← inserted.mapM fun item => textOf item "an inserted value"
      let chars := ((← get).text handle).toList
      let (first, last) ← spliceBounds start count chars.length
      modifyText handle fun _ =>
        String.ofList (replaceBetween first last (String.join pieces).toList chars)
      newText (String.ofList (between first last chars))
  | .node handle =>
      let trees ← inserted.mapM lift
      match ((← get).node handle).children? with
      | some children =>
          let (first, last) ← spliceBounds start count children.length
          modifyNode handle fun tree =>
            tree.withChildren (replaceBetween first last trees children)
          newNode (.list (between first last children))
      | none => throw (← unsupported "splice" container)
  | _ => throw (← unsupported "splice" container)

/-- A new list of the items of lists, or a new text of the characters of texts. -/
def concatenate (parts : List Value) : OnHeap Value := do
  match parts.mapM Value.list?, parts.mapM Value.text? with
  | some lists, _ =>
      let heap ← get
      newListOf (lists.flatMap fun handle => (heap.list handle).toList)
  | none, some texts =>
      let heap ← get
      newText (String.join (texts.map heap.text))
  | none, none => throw (.typeError .mixedConcatenation)

/-- The numbers from a start to a stop, both included, at the distance of a step. -/
def range (start stop : Value) (step : Option Value) : OnHeap Value := do
  let first ← start.asReal "range start"
  let last ← stop.asReal "range stop"
  let distance ←
    match step with
    | some value => value.asReal "range step"
    | none => pure 1.0
  if distance == 0.0 || !distance.isFinite then throw (.invalidArgument (.rangeStep distance))
  let places := Double.floor ((last - first) / distance + 1.0)
  let count ← Double.toCount (if places > 0.0 then places else 0.0) "range length"
  newListOf ((List.range count).map fun place => .ofReal (first + Float.ofNat place * distance))

/-- The pieces of a text between separators, or its characters if the separator is empty. -/
def split (text separator : Value) : OnHeap Value := do
  let content ← textOf text "the text to split"
  let mark ← textOf separator "the separator"
  let pieces :=
    if mark.isEmpty then content.toList.map fun char => [char]
    else Text.splitAt content.toList mark.toList
  newListOf (← newTexts (pieces.map String.ofList))

/-- The display forms of the items of a list with a separator between neighbours. -/
def join (list separator : Value) : OnHeap Value := do
  let handle ← list.asList "the list to join"
  let mark ← textOf separator "the separator"
  let heap ← get
  newText (String.intercalate mark ((heap.list handle).toList.map heap.display))

end Fixity.Collection
