import Fixity.Value.Walk

/-!
Contract: the native functions on objects.

Owns:
- keys, values and items, all in ascending order of the keys;
- the presence of a key and its removal.

A key is looked up by the form it has at the time of the call.
-/

namespace Fixity.Entries

open OnHeap

/-- The keys as texts. -/
def keys (object : Value) : OnHeap Value := do
  let handle ← object.asObject "the argument of keys"
  newListOf (← newTexts ((← get).object handle).keys)

/-- The values. -/
def values (object : Value) : OnHeap Value := do
  let handle ← object.asObject "the argument of values"
  newListOf ((← get).object handle).values

/-- Lists of a key and its value. -/
def items (object : Value) : OnHeap Value := do
  let handle ← object.asObject "the argument of items"
  let pairs ← ((← get).object handle).entries.mapM fun entry => do
    newListOf [← newText entry.1, entry.2]
  newListOf pairs

/-- Whether a key is present. -/
def has (object key : Value) : OnHeap Value := do
  let handle ← object.asObject "the first argument of haskey"
  let heap ← get
  return .ofBool ((heap.object handle).contains (heap.key key))

/-- Removes a key and answers whether it was present. -/
def delete (object key : Value) : OnHeap Value := do
  let handle ← object.asObject "the first argument of delkey"
  let heap ← get
  let name := heap.key key
  let present := (heap.object handle).contains name
  modifyObject handle fun entries => entries.erase name
  return .ofBool present

end Fixity.Entries
