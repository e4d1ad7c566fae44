import Fixity.Value.Basic

/-!
Contract: scopes, the places in which names are looked up.

Owns:
- `Scope`, the bindings and the operators in force;
- binding, which changes the visible value of a name, and pushing, which hides it until a pop;
- the scope of a call, in which the bindings of the function's definition hide the caller's.
-/

namespace Fixity

/-- The bindings and operators that code sees. -/
structure Scope where
  bindings : Bindings
  operators : OperatorTable

namespace Scope

/-- The scope without bindings. -/
def empty : Scope := ⟨∅, .initial⟩

instance : Inhabited Scope := ⟨empty⟩

/-- All values bound to a name, the visible one first; none if there never was one. -/
def stack? (scope : Scope) (name : String) : Option (List Value) := scope.bindings.get? name

/-- The visible value of a name. -/
def lookup? (scope : Scope) (name : String) : Option Value :=
  (scope.stack? name).bind List.head?

/-- Whether a name has a visible value. -/
def isBound (scope : Scope) (name : String) : Bool := (scope.lookup? name).isSome

/-- Changes the values bound to a name. -/
def update (scope : Scope) (name : String) (change : List Value → List Value) : Scope :=
  { scope with bindings := scope.bindings.insert name (change ((scope.stack? name).getD [])) }

/-- Replaces the visible value of a name, or gives it one. -/
def bind (scope : Scope) (name : String) (value : Value) : Scope :=
  scope.update name fun values => value :: values.tail

/-- Hides the visible value of a name behind another one. -/
def push (scope : Scope) (name : String) (value : Value) : Scope :=
  scope.update name fun values => value :: values

/-- Removes all values of a name. -/
def remove (scope : Scope) (name : String) : Scope :=
  { scope with bindings := scope.bindings.erase name }

/-- Removes the visible value of a name and brings back the one it hid. -/
def pop (scope : Scope) (name : String) : Scope :=
  match scope.stack? name with
  | none => scope
  | some values =>
      match values.tail with
      | [] => scope.remove name
      | hidden => { scope with bindings := scope.bindings.insert name hidden }

/-! ## Laws of single names -/

theorem stack?_update (scope : Scope) (name other : String) (change : List Value → List Value) :
    (scope.update name change).stack? other =
      if name = other then some (change ((scope.stack? name).getD [])) else scope.stack? other :=
  Dict.get?_insert _ _ _ _

theorem stack?_bind (scope : Scope) (name other : String) (value : Value) :
    (scope.bind name value).stack? other =
      if name = other then some (value :: ((scope.stack? name).getD []).tail)
      else scope.stack? other :=
  stack?_update scope name other _

theorem stack?_push (scope : Scope) (name other : String) (value : Value) :
    (scope.push name value).stack? other =
      if name = other then some (value :: (scope.stack? name).getD []) else scope.stack? other :=
  stack?_update scope name other _

theorem stack?_remove (scope : Scope) (name other : String) :
    (scope.remove name).stack? other = if name = other then none else scope.stack? other :=
  Dict.get?_erase _ _ _

theorem stack?_pop_of_ne (scope : Scope) {name other : String} (different : name ≠ other) :
    (scope.pop name).stack? other = scope.stack? other := by
  unfold pop
  split
  · rfl
  · split
    · rw [stack?_remove, if_neg different]
    · exact (Dict.get?_insert _ _ _ _).trans (if_neg different)

/-- Pushes values under names, in order. -/
def pushAll (scope : Scope) (named : List (String × Value)) : Scope :=
  named.foldl (fun scope entry => scope.push entry.1 entry.2) scope

/-- Pops names, the last one first. -/
def popAll (scope : Scope) (names : List String) : Scope :=
  names.reverse.foldl pop scope

/-- The names that have a visible value, ascending. -/
def names (scope : Scope) : List String :=
  (scope.bindings.filter fun _ values => !values.isEmpty).keys

/-- The scope of a call: the bindings at the function's definition hide the caller's, and the
caller's operators are copied. -/
def child (caller : Scope) (closure : Bindings) : Scope :=
  { caller with bindings := closure.overlay caller.bindings }

/-- Places and implements an operator. -/
def define (scope : Scope) (definition : Syntax.Definition) (implementation : Implementation) :
    Outcome Scope :=
  (scope.operators.define definition implementation).map fun operators =>
    { scope with operators := operators }

end Scope

end Fixity
