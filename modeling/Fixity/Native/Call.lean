import Fixity.Native.Entries
import Fixity.Native.Folding
import Fixity.Native.Numeric
import Fixity.Native.Reflection
import Fixity.Native.Trees
import Fixity.Native.Wording

/-!
Contract: the application of native functions.

Owns:
- the check of the number of arguments;
- the choice of the function that does the work;
- the refusal to read a key from the object it is about to change.
-/

namespace Fixity

namespace Heap

/-- Whether the display form of a value reads the contents of an object. -/
def readsObject (heap : Heap) (handle : Nat) : (room : Nat) → Path → Value → Bool
  | 0, _, _ => false
  | room + 1, path, value =>
      match path.open? value with
      | none => false
      | some inside =>
          match value with
          | .list list => (heap.list list).toList.any (heap.readsObject handle room inside)
          | .object object =>
              object == handle ||
                (heap.object object).values.any (heap.readsObject handle room inside)
          | _ => false

end Heap

namespace Eval

/-- A change of an object under a key, which must not be read from the object itself. -/
def changingObject (container key : Value) (action : OnHeap Value) : Eval Value := do
  match container with
  | .object handle =>
      let heap := (← get).heap
      if heap.readsObject handle heap.room [] key then throw .conflict else action
  | _ => action

/-- The result of a native function on a suitable number of arguments. -/
def performNative (interpreter : Interpreter) (native : Native) (arguments : List Value) :
    Eval Value :=
  match native, arguments with
  | .get, [container, index] => Collection.read container index
  | .set, [container, index, value] =>
      changingObject container index (Collection.write container index value)
  | .push, [container, value] => Collection.append container value
  | .pop, [container] => Collection.removeLast container
  | .len, [container] => Collection.size container
  | .slice, [container, start] => Collection.slice container start none
  | .slice, [container, start, stop] => Collection.slice container start (some stop)
  | .splice, container :: start :: count :: inserted =>
      Collection.splice container start count inserted
  | .concat, parts => Collection.concatenate parts
  | .dup, [value] => OnHeap.duplicate value
  | .range, [start, stop] => Collection.range start stop none
  | .range, [start, stop, step] => Collection.range start stop (some step)
  | .split, [text, separator] => Collection.split text separator
  | .join, [list, separator] => Collection.join list separator
  | .map, [function, container] => Folding.map interpreter function container
  | .filter, [function, container] => Folding.filter interpreter function container
  | .fold history, [function, container] =>
      Folding.fold interpreter history function container none
  | .fold history, [function, container, start] =>
      Folding.fold interpreter history function container (some start)
  | .object, [] => OnHeap.newObject ∅
  | .keys, [object] => Entries.keys object
  | .values, [object] => Entries.values object
  | .items, [object] => Entries.items object
  | .haskey, [object, key] => Entries.has object key
  | .delkey, [object, key] => changingObject object key (Entries.delete object key)
  | .part part, [argument] => Numeric.part part argument
  | .complex function, [argument] => Numeric.complex function argument
  | .real function, [argument] => Numeric.real function argument
  | .lower, [text] => Wording.lower text
  | .upper, [text] => Wording.upper text
  | .trim, [text] => Wording.trim text
  | .replace, [text, pattern, replacement] => Wording.replace text pattern replacement
  | .startsWith, [text, start] => Wording.startsWith text start
  | .endsWith, [text, ending] => Wording.endsWith text ending
  | .str, [value] => Wording.ofValue value
  | .getOperand side, [node] => Trees.operand side node
  | .setOperand side, [node, operand] => Trees.setOperand side node operand
  | .getop, [node] => Trees.operator node
  | .setop, [node, token] => Trees.setOperator node token
  | .getname, [node] => Trees.name node
  | .setname, [node, name] => Trees.setName node name
  | .gettext, [node] => Trees.source node
  | .settext, [node, text] => do Trees.setSource (← levels) node text
  | .getsubasts, [node] => Trees.children node
  | .getast, [node] => Trees.quotation node
  | .getbody, [function] => Trees.body function
  | .setbody, [function, tree] => Trees.setBody function tree
  | .getparams, [function] => Trees.parameters function
  | .test test, [value] => do return .ofBool (← Trees.passes test value)
  | .eval, [value] => Reflection.evaluate interpreter value
  | .evalAst, [value] => Reflection.evaluateTree interpreter value
  | .gensym, [] => Reflection.freshName
  | .del, names => Reflection.delete names
  | .defined, [] => Reflection.visibleNames
  | .ptable, [] => Reflection.levelTable
  | .opPriority, [token] => Reflection.priority token
  | .trycatch, arguments => Reflection.tryCatch interpreter arguments
  | .throw, [value] => Reflection.raise value
  | native, arguments => fail (.argumentCount native.arity.display arguments.length)

/-- Applies a native function. -/
def callNative (interpreter : Interpreter) (native : Native) (arguments : List Value) :
    Eval Value :=
  if native.arity.accepts arguments.length then performNative interpreter native arguments
  else fail (.argumentCount native.arity.display arguments.length)

end Eval

end Fixity
