import Fixity.Dict
import Fixity.Native.Catalogue
import Fixity.Syntax.Level

/-!
Contract: values and what they refer to.

Owns:
- `Value`, a number or a handle to a cell that other values may share;
- the contents of function and builtin cells, binding stacks and operator tables;
- type names, truth, and the accessors that demand one type of value.

Does not own: the cells themselves.
-/

namespace Fixity

/-- A value. All but numbers are handles: two values with one handle share what it refers to. -/
inductive Value where
  | number (value : Number)
  | text (handle : Nat)
  | list (handle : Nat)
  | object (handle : Nat)
  | function (handle : Nat)
  | builtin (handle : Nat)
  | node (handle : Nat)

/-- For each name the values bound to it, the visible one first. -/
abbrev Bindings := Dict (List Value)

/-- A function written in the language. -/
structure Function where
  params : List String
  body : Node
  /-- The bindings that were visible at the definition. -/
  closure : Bindings
  /-- Whether the last parameter takes all further arguments as a list. -/
  variadic : Bool
  /-- The names the function has been bound to, in order. -/
  anchors : List String

/-- What a builtin does. -/
inductive Action where
  | native (native : Native)
  /-- Applies a callable to fixed arguments and, in the gaps, to supplied ones. -/
  | supply (callee : Value) (fixed : List (Option Value))
  /-- A function of the surrounding program, known by its name. -/
  | host (name : String)

/-- A function that is not written in the language, and the name it is displayed by. -/
structure Builtin where
  name : String
  action : Action

/-- The function behind an operator; an eager one takes values, the others take syntax trees. -/
structure Implementation where
  function : Value
  eager : Bool

/-- The grammar and the implementations in force. -/
structure OperatorTable where
  levels : Syntax.Levels
  implementations : Dict Implementation
  /-- The number of definitions so far. -/
  generation : Nat

/-- What an empty environment starts from. -/
def OperatorTable.initial : OperatorTable := ⟨Syntax.Levels.initial, ∅, 0⟩

instance : Inhabited OperatorTable := ⟨.initial⟩

/-- Places and implements an operator. -/
def OperatorTable.define (table : OperatorTable) (definition : Syntax.Definition)
    (implementation : Implementation) : Outcome OperatorTable :=
  (table.levels.define definition).map fun levels =>
    ⟨levels, table.implementations.insert definition.token implementation, table.generation + 1⟩

namespace Function

/-- Records a name the function is bound to. -/
def anchor (function : Function) (name : String) : Function :=
  if function.anchors.contains name then function
  else { function with anchors := function.anchors ++ [name] }

/-- Whether the function takes that many arguments. -/
def accepts (function : Function) (count : Nat) : Bool :=
  if function.variadic then function.params.length ≤ count + 1
  else count == function.params.length

/-- The number of arguments in messages. -/
def arity (function : Function) : String :=
  if function.variadic then "at least " ++ toString (function.params.length - 1)
  else toString function.params.length

end Function

namespace Value

instance : Inhabited Value := ⟨.number .zero⟩

/-- The number zero, the value of nothing. -/
def zero : Value := number .zero

/-- The value of a truth value. -/
def ofBool (truth : Bool) : Value := number (.ofBool truth)

/-- A real number as a value. -/
def ofReal (real : Float) : Value := number (.ofReal real)

/-- A count as a value. -/
def ofNat (count : Nat) : Value := number (.ofNat count)

/-- The name of a value's type in messages. -/
def typeName : Value → String
  | number _ => "number"
  | text _ => "text"
  | list _ => "list"
  | object _ => "object"
  | function _ => "function"
  | builtin _ => "builtin"
  | node _ => "ast node"

/-- Only the number zero is false. -/
def isTruthy : Value → Bool
  | number value => !value.isZero
  | _ => true

/-- The handle of a text. -/
def text? : Value → Option Nat
  | text handle => some handle
  | _ => none

/-- The handle of a list. -/
def list? : Value → Option Nat
  | list handle => some handle
  | _ => none

/-- Whether a value can be applied. -/
def isCallable : Value → Bool
  | function _ => true
  | builtin _ => true
  | _ => false

/-- The error of a value that is not what its place needs. -/
def mismatch (value : Value) (role expected : String) : RuntimeError :=
  .typeError (.mismatch role expected value.typeName)

/-- The number that a value must be. -/
def asNumber (value : Value) (role : String) : Outcome Number :=
  match value with
  | number content => .ok content
  | _ => .error (value.mismatch role "a number")

/-- The real number that a value must be. -/
def asReal (value : Value) (role : String) : Outcome Float :=
  match value with
  | number content =>
      if content.isReal then .ok content.real else .error (value.mismatch role "a real number")
  | _ => .error (value.mismatch role "a real number")

/-- The count that a value must be. -/
def asCount (value : Value) (role : String) : Outcome Nat :=
  (value.asReal role).bind fun real => Double.toCount real role

/-- The handle of the text that a value must be. -/
def asText (value : Value) (role : String) : Outcome Nat :=
  match value with
  | text handle => .ok handle
  | _ => .error (value.mismatch role "text")

/-- The handle of the list that a value must be. -/
def asList (value : Value) (role : String) : Outcome Nat :=
  match value with
  | list handle => .ok handle
  | _ => .error (value.mismatch role "a list")

/-- The handle of the object that a value must be. -/
def asObject (value : Value) (role : String) : Outcome Nat :=
  match value with
  | object handle => .ok handle
  | _ => .error (value.mismatch role "an object")

/-- The handle of the syntax tree that a value must be. -/
def asNode (value : Value) (role : String) : Outcome Nat :=
  match value with
  | node handle => .ok handle
  | _ => .error (value.mismatch role "an ast node")

/-- The handle of the function written in the language that a value must be. -/
def asFunction (value : Value) (role : String) : Outcome Nat :=
  match value with
  | function handle => .ok handle
  | builtin _ => .error (.typeError (.builtinForbidden role))
  | _ => .error (.notCallable role)

end Value

end Fixity
