import Fixity.Library

/-!
Contract: environments that outlive an evaluation and share one heap.

Owns:
- `World`, a tree of scopes with the heap, the call depth and the generated names they share;
- evaluation in any place of the tree, which sees the places up to the root as its outer scopes;
- places for calls that were entered from outside, and counted calls that stay open;
- sources evaluated apart, in native scopes of their own on the same heap.
-/

namespace Fixity

/-- A scope in the tree, and the place it was entered from. -/
structure Place where
  scope : Scope
  parent : Option Nat

/-- Scopes and everything they share. -/
structure World where
  heap : Heap
  places : Array Place
  depth : Nat
  nextName : Nat
  effects : Array Effect

namespace World

variable {α : Type}

/-- A world with one place, whose scope an evaluation set up. -/
def ofState (state : State) : World :=
  ⟨state.heap, #[⟨state.scope, none⟩], state.depth, state.nextName, state.effects⟩

/-- The scope of a place. -/
def scope (world : World) (index : Nat) : Scope :=
  match world.places[index]? with
  | some place => place.scope
  | none => .empty

/-- The places from one outward; `bound` limits their number. -/
def chain (places : Array Place) : (bound : Nat) → (index : Nat) → List Nat
  | 0, _ => []
  | bound + 1, index =>
      match places[index]? with
      | none => []
      | some place =>
          match place.parent with
          | some parent => index :: chain places bound parent
          | none => [index]

/-- The places from one to the root of its tree. -/
def path (world : World) (index : Nat) : List Nat :=
  chain world.places world.places.size index

/-- The place a number of steps outward, or the outermost one. -/
def ancestor (world : World) (index steps : Nat) : Nat :=
  let path := world.path index
  path.getD (min steps (path.length - 1)) index

/-- Puts scopes back into their places. -/
def writeBack (places : Array Place) (path : List Nat) (scopes : List Scope) :
    Array Place :=
  (path.zip scopes).foldl
    (fun places entry => places.modify entry.1 fun place => { place with scope := entry.2 }) places

/-- Runs an action in the scope of a place. -/
def within (world : World) (index : Nat) (action : Eval α) : Except Failure α × World :=
  let path := world.path index
  match world with
  | ⟨heap, places, depth, nextName, effects⟩ =>
      let scopes := path.filterMap fun place => (places[place]?).map (·.scope)
      let finish (state : State) : World :=
        ⟨state.heap, writeBack places path (state.scope :: state.outer), state.depth,
          state.nextName, state.effects⟩
      match action ⟨heap, scopes.headD .empty, scopes.tail, depth, nextName, effects⟩ with
      | .ok value state => (.ok value, finish state)
      | .error failure state => (.error failure, finish state)

/-- Runs an action on the heap of a world, with a scope and a call depth of its own. -/
def apart (world : World) (action : Eval α) : Except Failure α × World :=
  match world with
  | ⟨heap, places, depth, nextName, effects⟩ =>
      match action ⟨heap, .empty, [], 0, nextName, effects⟩ with
      | .ok value state => (.ok value, ⟨state.heap, places, depth, state.nextName, state.effects⟩)
      | .error failure state =>
          (.error failure, ⟨state.heap, places, depth, state.nextName, state.effects⟩)

/-- Evaluates a source in a native scope of its own. -/
def evaluateApart (world : World) (text : String) : Except Failure Value × World :=
  world.apart do
    Library.useNative
    (Eval.interpreter Library.noHost).evaluate text

/-- Runs an action on the heap of a world. -/
def onHeap (world : World) (action : OnHeap α) : Except Failure α × World :=
  world.apart (Eval.onHeap action)

/-- Evaluates a source in a place. -/
def evaluate (world : World) (host : Host) (index : Nat) (text : String) :
    Except Failure Value × World :=
  world.within index ((Eval.interpreter host).evaluate text)

/-- Changes the scope of a place. -/
def modifyScope (world : World) (index : Nat) (change : Scope → Scope) : World :=
  { world with
    places := world.places.modify index fun place => { place with scope := change place.scope } }

/-- Adds the place of a call from a given one, and answers its index. -/
def addChild (world : World) (caller : Nat) (closure : Bindings) : Nat × World :=
  let child : Place := ⟨(world.scope caller).child closure, some caller⟩
  (world.places.size, { world with places := world.places.push child })

/-- Counts a number of calls as entered, as far as the limit allows; answers how many. -/
def enterCalls (world : World) (index : Nat) : (count : Nat) → (entered : Nat) →
    (Except Failure Unit × Nat) × World
  | 0, entered => ((.ok (), entered), world)
  | count + 1, entered =>
      match world.within index Eval.enterCall with
      | (.ok (), world) => enterCalls world index count (entered + 1)
      | (.error failure, world) => ((.error failure, entered), world)

/-- Counts a number of calls as finished. -/
def leaveCalls (world : World) (count : Nat) : World := { world with depth := world.depth - count }

/-- Takes the effects out of a world. -/
def takeEffects (world : World) : Array Effect × World :=
  (world.effects, { world with effects := #[] })

end World

end Fixity
