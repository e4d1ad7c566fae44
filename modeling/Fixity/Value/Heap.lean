import Fixity.Value.Basic

/-!
Contract: the cells that handles refer to.

Owns:
- `Heap`, one row of cells for each kind of handle;
- reading, allocating and changing cells; a handle without a cell reads as an empty cell;
- `OnHeap`, computations that may fail and keep their changes to the heap when they do.
-/

namespace Fixity

/-- All cells, by kind and handle. -/
structure Heap where
  texts : Array String
  lists : Array (Array Value)
  objects : Array (Dict Value)
  functions : Array Function
  builtins : Array Builtin
  nodes : Array Node

namespace Heap

/-- The heap without cells. -/
def empty : Heap := ⟨#[], #[], #[], #[], #[], #[]⟩

instance : Inhabited Heap := ⟨empty⟩

def text (heap : Heap) (handle : Nat) : String := heap.texts.getD handle ""

def list (heap : Heap) (handle : Nat) : Array Value := heap.lists.getD handle #[]

def object (heap : Heap) (handle : Nat) : Dict Value := heap.objects.getD handle ∅

def function (heap : Heap) (handle : Nat) : Function :=
  heap.functions.getD handle ⟨[], .body [], ∅, false, []⟩

def builtin (heap : Heap) (handle : Nat) : Builtin :=
  heap.builtins.getD handle ⟨"", .host ""⟩

def node (heap : Heap) (handle : Nat) : Node := heap.nodes.getD handle (.body [])

/-- The number of lists and objects. -/
def containers (heap : Heap) : Nat := heap.lists.size + heap.objects.size

end Heap

/-- A computation on the heap. Changes made before a failure stay. -/
abbrev OnHeap := EStateM RuntimeError Heap

namespace OnHeap

variable {α : Type}

/-- An outcome that does not depend on the heap. -/
def ofOutcome (outcome : Outcome α) : OnHeap α := fun heap =>
  match outcome with
  | .ok value => .ok value heap
  | .error error => .error error heap

instance : MonadLift Outcome OnHeap := ⟨ofOutcome⟩

def newText (content : String) : OnHeap Value := fun heap =>
  .ok (.text heap.texts.size) { heap with texts := heap.texts.push content }

def newList (elements : Array Value) : OnHeap Value := fun heap =>
  .ok (.list heap.lists.size) { heap with lists := heap.lists.push elements }

def newObject (entries : Dict Value) : OnHeap Value := fun heap =>
  .ok (.object heap.objects.size) { heap with objects := heap.objects.push entries }

def newFunction (content : Function) : OnHeap Value := fun heap =>
  .ok (.function heap.functions.size) { heap with functions := heap.functions.push content }

def newBuiltin (content : Builtin) : OnHeap Value := fun heap =>
  .ok (.builtin heap.builtins.size) { heap with builtins := heap.builtins.push content }

def newNode (tree : Node) : OnHeap Value := fun heap =>
  .ok (.node heap.nodes.size) { heap with nodes := heap.nodes.push tree }

def modifyText (handle : Nat) (change : String → String) : OnHeap Unit := fun heap =>
  .ok () { heap with texts := heap.texts.modify handle change }

def modifyList (handle : Nat) (change : Array Value → Array Value) : OnHeap Unit := fun heap =>
  .ok () { heap with lists := heap.lists.modify handle change }

def modifyObject (handle : Nat) (change : Dict Value → Dict Value) : OnHeap Unit := fun heap =>
  .ok () { heap with objects := heap.objects.modify handle change }

def modifyFunction (handle : Nat) (change : Function → Function) : OnHeap Unit := fun heap =>
  .ok () { heap with functions := heap.functions.modify handle change }

def modifyNode (handle : Nat) (change : Node → Node) : OnHeap Unit := fun heap =>
  .ok () { heap with nodes := heap.nodes.modify handle change }

/-- The content of the text that a value must be. -/
def textOf (value : Value) (role : String) : OnHeap String := do
  let handle ← value.asText role
  return (← get).text handle

/-- The content of the syntax tree that a value must be. -/
def nodeOf (value : Value) (role : String) : OnHeap Node := do
  let handle ← value.asNode role
  return (← get).node handle

/-- New texts with the given contents. -/
def newTexts (contents : List String) : OnHeap (List Value) := contents.mapM newText

/-- New syntax trees. -/
def newNodes (trees : List Node) : OnHeap (List Value) := trees.mapM newNode

/-- A new list of the values. -/
def newListOf (elements : List Value) : OnHeap Value := newList elements.toArray

end OnHeap

end Fixity
