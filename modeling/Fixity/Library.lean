import Fixity.Evaluator
import Fixity.Prelude

/-!
Contract: the scopes that programs start in.

Owns:
- the scope of the native functions and constants;
- the standard scope, in which the standard library has been evaluated;
- the addition of functions of the surrounding program.
-/

namespace Fixity.Library

/-- Binds a new builtin under its name. -/
def register (scope : Scope) (name : String) (action : Action) : OnHeap Scope := do
  return scope.bind name (← OnHeap.newBuiltin ⟨name, action⟩)

/-- Binds functions of the surrounding program under their names. -/
def registerHost (scope : Scope) (names : List String) : OnHeap Scope :=
  names.foldlM (fun scope name => register scope name (.host name)) scope

/-- The ratio of a circle's circumference to its diameter. -/
def pi : Float := 3.14159265358979323846264338327950288

/-- The base of the natural logarithm. -/
def euler : Float := 2.71828182845904523536028747135266250

/-- The scope of the native functions and constants. -/
def nativeScope : OnHeap Scope := do
  let scope ← Native.catalogue.foldlM
    (fun scope entry => register scope entry.1 (.native entry.2)) .empty
  return (scope.bind "PI" (.ofReal pi)).bind "E" (.ofReal euler)

/-- A host that adds nothing. -/
def noHost : Host := fun name _ _ => Eval.fail (.unboundIdentifier name)

/-- Makes the current scope the one of the native functions and constants. -/
def useNative : Eval Unit := do
  let scope ← Eval.onHeap nativeScope
  Eval.modifyScope fun _ => scope

/-- Makes the current scope the standard one. -/
def useStandard : Eval Unit := do
  useNative
  discard ((Eval.interpreter noHost).evaluate Prelude.source)

end Fixity.Library
