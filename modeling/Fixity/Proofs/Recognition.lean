import Fixity.Library
import Fixity.Proofs.Outline
import Fixity.Proofs.Quicksort
import Fixity.Proofs.ShortCircuit
import Fixity.Proofs.Transparency

/-!
Contract: what is known of the standard environment, section by section of its library.

Owns:
- the outlines of the states between the sections, from `Outline.native`, where only the native
  functions are bound, to `Outline.library`, behind all of them;
- that a state which `Outline.library` describes has the logical operators, the operators for trees,
  the sorting function and the control structures of the standard library.

Does not own: that the evaluation of the library leads to such a state.
-/

namespace Fixity

open Eval

/-! ## Functions -/

/-- What is known of an operator that takes trees. It knows `eval_ast`; the names of the control
structures mean nothing where it is defined. -/
def Code.macroOf (first second : String) (body : Node) : Code where
  params := [first, second]
  body := body
  variadic := false
  anchors := []
  uses := [evaluatorName]
  lacks := ["if", "ifelse", "while", "for", "cond"]

/-- What is known of a function that uses other ones. -/
def Routine.code (routine : Routine) : Code where
  params := routine.params
  body := routine.body
  variadic := routine.variadic
  anchors := [routine.name]
  uses := routine.uses
  lacks := []

namespace Sorting

/-- What is known of `qsort`. -/
def code : Code where
  params := ["a"]
  body := body
  variadic := false
  anchors := ["qsort"]
  uses := ["set", "len"]
  lacks := []

end Sorting

/-- The function of `.`: `[f, g] -> (i => f @ [g @ i])` -/
def Code.composition : Code where
  params := ["f", "g"]
  body := .operation Syntax.variadicToken (.identifier "i")
    (.operation "@" (.identifier "f")
      (.list [.operation "@" (.identifier "g") (.identifier "i")]))
  variadic := false
  anchors := []
  uses := []
  lacks := []

namespace Scope

/-- The value of a name that has one. -/
def valueOf (scope : Scope) (name : String) : Value := (scope.lookup? name).getD .zero

theorem valueOf_eq {scope : Scope} {name : String} {value : Value}
    (bound : scope.lookup? name = some value) : scope.valueOf name = value := by
  rw [valueOf, bound]
  rfl

end Scope

namespace Outline

/-! ## Between the sections -/

/-- The levels once `::`, `.` and `..` are defined, with further operators beside the native ones and
further levels for logic. -/
def grammar (applications products sums : List String) (logic : Syntax.Levels) : Syntax.Levels :=
  [⟨["'"], .left⟩, ⟨["::"], .left⟩, ⟨[".", ".."], .left⟩,
    ⟨"@" :: applications, .left⟩,
    ⟨["^"], .left⟩,
    ⟨"*" :: "/" :: products, .left⟩,
    ⟨"%" :: "+" :: "-" :: sums, .left⟩,
    ⟨["=", "!=", "<", ">", "<=", ">="], .left⟩] ++ logic ++
  [⟨["?"], .left⟩,
    ⟨["!!", "#"], .left⟩,
    ⟨["->", "=>"], .right⟩,
    ⟨[":", "<<", "<<<"], .left⟩]

/-- Only native functions and constants have names. -/
def native : Outline where
  levels := .initial
  names :=
    [("get", .native .get), ("set", .native .set), ("len", .native .len),
      ("push", .native .push), ("slice", .native .slice), ("concat", .native .concat),
      ("map", .native .map), ("filter", .native .filter), ("reduce", .native (.fold false)),
      ("floor", .native (.real .floor)), ("eval_ast", .native .evalAst),
      ("op_priority", .native .opPriority), ("setop", .native .setop),
      ("setleft", .native (.setOperand .left)), ("setright", .native (.setOperand .right)),
      ("PI", .number (.ofReal Library.pi))]
  absent := ["if", "ifelse", "while", "for", "cond"]
  operators := []

/-- Behind indexing and composition. -/
def composition : Outline :=
  { native with
    levels := grammar [] [] [] []
    operators := [("::", true, .native .get), (".", true, .function .composition),
      ("..", true, .callable)] }

/-- Behind the application to trees. -/
def macroApplication : Outline :=
  { composition with
    levels := grammar ["@:", "@-"] [] [] []
    operators := ("@:", false, .function (.macroOf "f" "g" .handing)) ::
      ("@-", false, .function (.macroOf "f" "g" .expanding)) :: composition.operators }

/-- Behind the operators as functions. -/
def operatorFunctions : Outline :=
  { macroApplication with
    names := ("add", .callable) :: ("mul", .callable) :: ("div", .callable) ::
      macroApplication.names }

/-- The body of a choice between two operands. -/
def choice (whenTrue whenFalse : Branch) : Trait :=
  .function (.macroOf "a" "b" (.choice (.outside "a") (.outside "b") whenTrue whenFalse))

/-- Behind logic, and behind the functions on lists and digits, which no later section needs. -/
def logic : Outline :=
  { operatorFunctions with
    levels := grammar ["@:", "@-"] [] [] [⟨["&&", "||", "<>"], .left⟩]
    operators := ("&&", false, choice (.test .one .zero) (.answer .zero)) ::
      ("||", false, choice (.answer .one) (.test .one .zero)) :: ("<>", true, .callable) ::
        operatorFunctions.operators }

/-- Behind the operators for functions on lists. -/
def listOperators : Outline :=
  { logic with
    levels := grammar ["@:", "@-", "@@", "@|", "@>", "@."] ["//"] ["++", "<:>"]
      [⟨["&&", "||", "<>"], .left⟩]
    operators := ["@@", "@|", "@>", "@.", "//", "++", "<:>"].map (·, true, .callable) ++
      logic.operators }

/-- The outline with functions of the library. -/
def withRoutines (outline : Outline) (routines : List Routine) : Outline :=
  { outline with
    names := routines.map (fun routine => (routine.name, .function routine.code)) ++ outline.names
    absent := outline.absent.filter (· ∉ routines.map (·.name)) }

/-- Behind the functions that build trees. -/
def treeBuilding : Outline := listOperators.withRoutines [Control.nodeop, Control.nodelist]

/-- Behind the control structures. -/
def control : Outline :=
  treeBuilding.withRoutines
    [Control.ifelse, Control.ifThen, Control.whileLoop, Control.forLoop, Control.cond]

/-- Behind the whole library. -/
def library : Outline :=
  { control with names := ("qsort", .function Sorting.code) :: control.names }

end Outline

/-! ## The standard library -/

/-- Names still mean the values, operators do what they did, and the functions are the same. There
may be further names, operators and cells. -/
structure State.Retains (state later : State) : Prop where
  names : ∀ {name value}, state.scope.lookup? name = some value →
    later.scope.lookup? name = some value
  operators : ∀ {token}, state.scope.operators.levels.contains token →
    later.scope.operators.implementations.get? token =
      state.scope.operators.implementations.get? token
  functions : ∀ {handle : Nat} {cell}, state.heap.functions[handle]? = some cell →
    later.heap.functions[handle]? = some cell
  builtins : ∀ {handle : Nat} {cell}, state.heap.builtins[handle]? = some cell →
    later.heap.builtins[handle]? = some cell

namespace Outline.Describes

section Known

variable {outline : Outline} {state later : State} (describes : outline.Describes state)
  (retains : state.Retains later)
include describes retains

/-- A name that means a native function. -/
theorem exists_builtin {name : String} {native : Native}
    (known : outline.names.lookup name = some (.native native)) :
    ∃ handle, later.scope.lookup? name = some (.builtin handle) ∧
      ∃ label, later.heap.builtins[handle]? = some ⟨label, .native native⟩ := by
  obtain ⟨_, bound, handle, label, rfl, cell⟩ := describes.names known
  exact ⟨handle, retains.names bound, label, retains.builtins cell⟩

/-- A name that means a function. -/
theorem exists_function {name : String} {code : Code}
    (known : outline.names.lookup name = some (.function code)) :
    ∃ handle closure, later.scope.lookup? name = some (.function handle) ∧
      later.heap.functions[handle]? =
        some ⟨code.params, code.body, closure, code.variadic, code.anchors⟩ ∧
      ∀ use ∈ code.uses, ∃ value,
        later.scope.lookup? use = some value ∧ Remembers closure use value := by
  obtain ⟨_, bound, handle, function, rfl, cell, fits⟩ := describes.names known
  refine ⟨handle, function.closure, retains.names bound,
    retains.functions (cell.trans (congrArg some fits.eq)), fun use used => ?_⟩
  exact (fits.uses use used).imp fun _ ⟨found, remembers⟩ => ⟨retains.names found, remembers⟩

/-- An operator that is not defined in the library. -/
theorem native_of_retains {token : String} (listed : outline.levels.contains token)
    (free : outline.operators.lookup token = none) :
    later.scope.operators.implementations.get? token = none :=
  (retains.operators (describes.levels.symm ▸ listed)).trans (describes.native free)

/-- An operator that applies a native function. -/
theorem exists_implemented {token : String} {eager : Bool} {native : Native}
    (listed : outline.levels.contains token)
    (known : outline.operators.lookup token = some (eager, .native native)) :
    ∃ handle, later.scope.operators.implementations.get? token = some ⟨.builtin handle, eager⟩ ∧
      ∃ label, later.heap.builtins[handle]? = some ⟨label, .native native⟩ := by
  obtain ⟨_, implemented, handle, label, rfl, cell⟩ := describes.implemented known
  exact ⟨handle, (retains.operators (describes.levels.symm ▸ listed)).trans implemented, label,
    retains.builtins cell⟩

/-- An operator that takes trees. -/
theorem exists_macro {token first second : String} {body : Node}
    (listed : outline.levels.contains token)
    (known : outline.operators.lookup token =
      some (false, .function (.macroOf first second body)))
    (evaluator : outline.names.lookup evaluatorName = some (.native .evalAst)) :
    ∃ operator : later.Macro token first second body,
      ∀ name ∈ ["if", "ifelse", "while", "for", "cond"], operator.closure.get? name = none := by
  obtain ⟨_, implemented, handle, function, rfl, cell, fits⟩ := describes.implemented known
  obtain ⟨evaluator, bound, label, evaluates⟩ := describes.exists_builtin retains evaluator
  obtain ⟨_, found, remembers⟩ := fits.uses evaluatorName (List.mem_singleton_self _)
  cases bound.symm.trans (retains.names found)
  obtain ⟨_, captured, visible⟩ := Option.bind_eq_some_iff.mp remembers
  obtain ⟨hidden, rfl⟩ := List.head?_eq_some_iff.mp visible
  have implemented := (retains.operators (describes.levels.symm ▸ listed)).trans implemented
  have whole : later.heap.function handle =
      ⟨[first, second], body, function.closure, false, []⟩ :=
    (OnHeap.getD_of_getElem? (retains.functions cell) _).trans fits.eq
  exact ⟨⟨handle, evaluator, function.closure, hidden, implemented, whole, captured,
    congrArg Builtin.action (OnHeap.getD_of_getElem? evaluates _)⟩, fits.lacks⟩

end Known

section Standard

variable {state later : State} (describes : library.Describes state)
  (retains : state.Retains later)
include describes retains

theorem shortCircuits : Nonempty (later.ShortCircuits .one .zero) := by
  obtain ⟨conjunction, -⟩ := describes.exists_macro retains (by decide +kernel)
    (show library.operators.lookup "&&" = some (false, choice (.test .one .zero) (.answer .zero))
      by decide +kernel) (by decide +kernel)
  obtain ⟨disjunction, -⟩ := describes.exists_macro retains (by decide +kernel)
    (show library.operators.lookup "||" = some (false, choice (.answer .one) (.test .one .zero))
      by decide +kernel) (by decide +kernel)
  exact ⟨conjunction, disjunction,
    describes.native_of_retains retains (by decide +kernel) (by decide +kernel),
    describes.native_of_retains retains (by decide +kernel) (by decide +kernel)⟩

theorem macroApplications : Nonempty later.MacroApplications := by
  obtain ⟨handing, -⟩ := describes.exists_macro retains (by decide +kernel)
    (show library.operators.lookup "@:" = some (false, .function (.macroOf "f" "g" .handing))
      by decide +kernel) (by decide +kernel)
  obtain ⟨expanding, -⟩ := describes.exists_macro retains (by decide +kernel)
    (show library.operators.lookup "@-" = some (false, .function (.macroOf "f" "g" .expanding))
      by decide +kernel) (by decide +kernel)
  exact ⟨handing, expanding,
    describes.native_of_retains retains (by decide +kernel) (by decide +kernel),
    describes.native_of_retains retains (by decide +kernel) (by decide +kernel)⟩

theorem sorts : Nonempty later.Sorts := by
  have free : ∀ token ∈ ["@", "->", "?", "#", "+", "-", "<"],
      library.levels.contains token ∧ library.operators.lookup token = none := by
    decide +kernel
  obtain ⟨get, indexing, _, reads⟩ := describes.exists_implemented retains (by decide +kernel)
    (show library.operators.lookup "::" = some (true, .native .get) by decide +kernel)
  obtain ⟨handle, closure, bound, cell, uses⟩ := describes.exists_function retains
    (show library.names.lookup "qsort" = some (.function Sorting.code) by decide +kernel)
  obtain ⟨set, boundSet, _, writes⟩ := describes.exists_builtin retains
    (show library.names.lookup "set" = some (.native .set) by decide +kernel)
  obtain ⟨length, boundLength, _, measures⟩ := describes.exists_builtin retains
    (show library.names.lookup "len" = some (.native .len) by decide +kernel)
  obtain ⟨_, found, setter⟩ := uses "set" (by decide)
  cases boundSet.symm.trans found
  obtain ⟨_, found, measure⟩ := uses "len" (by decide)
  cases boundLength.symm.trans found
  have action {handle : Nat} {label : String} {native : Native}
      (cell : later.heap.builtins[handle]? = some ⟨label, .native native⟩) :
      (later.heap.builtin handle).action = .native native :=
    congrArg Builtin.action (OnHeap.getD_of_getElem? cell _)
  have native (token : String) (member : token ∈ ["@", "->", "?", "#", "+", "-", "<"]) :=
    describes.native_of_retains retains (free token member).1 (free token member).2
  exact ⟨⟨handle, closure, get, set, length, bound, OnHeap.getD_of_getElem? cell _, setter, measure,
    action measures, indexing, native, action reads, action writes⟩⟩

/-- The functions behind the control structures, each under its name. -/
theorem equipped :
    Control.Equipped later.scope.operators later.heap later.scope.valueOf where
  natives entry member := by
    have known : ∀ entry ∈ Control.natives,
        library.names.lookup entry.1 = some (.native entry.2) := by decide +kernel
    obtain ⟨handle, bound, label, cell⟩ := describes.exists_builtin retains (known entry member)
    exact ⟨handle, label, Scope.valueOf_eq bound, cell⟩
  routines routine member := by
    have known : ∀ routine ∈ Control.routines,
        library.names.lookup routine.name = some (.function routine.code) ∧
          routine.name ∉ routine.uses := by decide +kernel
    obtain ⟨known, notOwn⟩ := known routine member
    obtain ⟨handle, closure, bound, cell, uses⟩ := describes.exists_function retains known
    refine ⟨handle, closure, [routine.name], Scope.valueOf_eq bound, cell,
      List.mem_singleton_self _, fun use used => ⟨fun same => ?_, ?_⟩⟩
    · rw [List.mem_singleton.mp same] at used
      exact notOwn used
    · obtain ⟨value, found, remembers⟩ := uses use used
      rwa [Scope.valueOf_eq found]
  native token member := by
    have free : ∀ token ∈ ["@", Syntax.conditionalToken, Syntax.partialToken, "="],
        library.levels.contains token ∧ library.operators.lookup token = none := by
      decide +kernel
    exact describes.native_of_retains retains (free token member).1 (free token member).2
  indexing := by
    obtain ⟨get, implemented, label, reads⟩ := describes.exists_implemented retains
      (by decide +kernel)
      (show library.operators.lookup "::" = some (true, .native .get) by decide +kernel)
    exact ⟨.builtin get, implemented, get, label, rfl, reads⟩

theorem controls : Nonempty later.Controls := by
  obtain ⟨expanding, lacks⟩ := describes.exists_macro retains (by decide +kernel)
    (show library.operators.lookup "@-" = some (false, .function (.macroOf "f" "g" .expanding))
      by decide +kernel) (by decide +kernel)
  refine ⟨⟨_, describes.equipped retains, expanding,
    describes.native_of_retains retains (by decide +kernel) (by decide +kernel),
    fun name member => ?_⟩⟩
  -- The names got their values behind the definition of `@-`.
  have known : ∀ name ∈ ["if", "ifelse", "while", "for", "cond"],
      (library.names.lookup name).isSome ∧ name ≠ selfName ∧ name ≠ "f" ∧ name ≠ "g" := by
    decide +kernel
  obtain ⟨known, notSelf, notFirst, notSecond⟩ := known name member
  obtain ⟨trait, known⟩ := Option.isSome_iff_exists.mp known
  obtain ⟨value, bound, -⟩ := describes.names known
  have bound := retains.names bound
  rw [State.Macro.meaning, if_neg notSelf, if_neg notSecond, if_neg notFirst, lacks name member,
    Scope.valueOf_eq bound]
  exact bound

end Standard

end Outline.Describes

end Fixity
