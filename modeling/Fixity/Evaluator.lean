import Fixity.Arithmetic
import Fixity.Native.Call

/-!
Contract: evaluation.

Owns:
- the value of every kind of tree, with the control operators and definitions;
- application, in a new scope or in one of the scopes around the current one;
- the evaluation of sources, statement by statement, with the operators each one leaves behind;
- `run`, the interpreter that carries out requests within a bound on nesting and on repetition.

Every rule is written for an arbitrary interpreter that carries out the requests inside it.
-/

namespace Fixity

namespace Eval

/-! ## Application -/

/-- The name under which a function's body finds the function itself. -/
def selfName : String := "$"

/-- The template that leaves a gap for a supplied argument. -/
def slotName : String := "_"

/-- The arguments under the names of a function's parameters. -/
def nameArguments (variadic : Bool) : List String → List Value → OnHeap (List (String × Value))
  | [], _ => return []
  | [last], arguments =>
      if variadic then return [(last, ← OnHeap.newListOf arguments)]
      else return [(last, arguments.headD .zero)]
  | param :: params, arguments => do
      let others ← nameArguments variadic params arguments.tail
      return (param, arguments.headD .zero) :: others

/-- The names that a call pushes: those the function was bound to, its parameters and its own. -/
def callNames (callee : Value) (function : Function) (arguments : List Value) :
    OnHeap (List (String × Value)) := do
  let named ← nameArguments function.variadic function.params arguments
  return function.anchors.map (fun anchor => (anchor, callee)) ++ named ++ [(selfName, callee)]

/-- Runs a function's body with its names pushed onto the current scope. -/
def runBody (interpreter : Interpreter) (callee : Value) (function : Function)
    (arguments : List Value) : Eval Value := do
  let named ← Eval.onHeap (callNames callee function arguments)
  withNames named (interpreter.eval function.body)

/-- The fixed arguments with the gaps filled, and the supplied arguments that are left over. -/
def fillSlots : List (Option Value) → List Value → List Value
  | [], supplied => supplied
  | some value :: fixed, supplied => value :: fillSlots fixed supplied
  | none :: fixed, supplied => supplied.headD .zero :: fillSlots fixed supplied.tail

/-- The number of gaps. -/
def slotCount (fixed : List (Option Value)) : Nat := fixed.countP Option.isNone

/-- Applies a builtin in the current scope. -/
def callBuiltin (host : Host) (interpreter : Interpreter) (builtin : Builtin)
    (arguments : List Value) : Eval Value :=
  match builtin.action with
  | .native native => callNative interpreter native arguments
  | .host name => host name interpreter arguments
  | .supply callee fixed =>
      if arguments.length < slotCount fixed then
        fail (.argumentCount ("at least " ++ toString (slotCount fixed)) arguments.length)
      else
        interpreter.apply callee (fillSlots fixed arguments)

/-- Applies a callable. A function runs in a new scope if `fresh`, otherwise in the current one. -/
def call (host : Host) (interpreter : Interpreter) (fresh : Bool) (callee : Value)
    (arguments : List Value) : Eval Value := do
  match callee with
  | .builtin handle => callBuiltin host interpreter ((← get).heap.builtin handle) arguments
  | .function handle =>
      let function := (← get).heap.function handle
      if function.accepts arguments.length then
        asCall
          (if fresh then inChild function.closure (runBody interpreter callee function arguments)
          else runBody interpreter callee function arguments)
      else
        fail (.argumentCount function.arity arguments.length)
  | other => fail (.notCallable ("a value of type " ++ other.typeName))

/-- The arguments that the right operand of an application stands for. -/
def argumentsOf (value : Value) : Eval (List Value) := do
  match value with
  | .list handle => return ((← get).heap.list handle).toList
  | other => return [other]

/-- The value of a callable that stands left of an operator. -/
def callable (interpreter : Interpreter) (operator : String) (node : Node) : Eval Value := do
  let callee ← interpreter.eval node
  if callee.isCallable then return callee
  else fail (.notCallable ("the left operand of " ++ operator))

/-- The value of `left @ right`, or of the application with a number of scope markers: one marker
applies in the current scope, each further one in the next scope around it. -/
def application (interpreter : Interpreter) (operator : String) (left right : Node) :
    Eval Value := do
  let callee ← callable interpreter operator left
  let arguments ← argumentsOf (← interpreter.eval right)
  match operator.length - 1 with
  | 0 => interpreter.apply callee arguments
  | steps + 1 => interpreter.applyAround steps callee arguments

/-- The value of `left ' right`: a builtin that keeps the arguments given now. -/
def partialApplication (interpreter : Interpreter) (left right : Node) : Eval Value := do
  let callee ← callable interpreter Syntax.partialToken left
  let templates :=
    match right with
    | .list elements => elements
    | other => [other]
  let fixed ← templates.mapM fun template => do
    if template.name? == some slotName then return none
    else return some (← interpreter.eval template)
  let name := (← get).heap.display callee ++ Syntax.partialToken ++ right.display
  OnHeap.newBuiltin ⟨name, .supply callee fixed⟩

/-! ## Binding and definition -/

/-- The names of a row of identifiers. -/
def namesOf (fault : Node → RuntimeError) : List Node → Outcome (List String)
  | [] => .ok []
  | node :: rest =>
      match node.name? with
      | some name => (namesOf fault rest).map (name :: ·)
      | none => .error (fault node)

/-- Binds a name; a function remembers the name. -/
def assign (name : String) (value : Value) : Eval Unit := do
  match value with
  | .function handle => OnHeap.modifyFunction handle fun function => function.anchor name
  | _ => pure ()
  modifyScope fun scope => scope.bind name value

/-- One value for each of a number of names. A list of that length is taken apart; any other value,
or the only item of a list, is copied for each name. -/
def shares (count : Nat) (value : Value) : OnHeap (List Value) := do
  match value with
  | .list handle =>
      let items := ((← get).list handle).toList
      if items.length = count then return items
      else
        match items with
        | [only] => (List.replicate count only).mapM OnHeap.duplicate
        | items => throw (.invalidAssignment (.countMismatch count items.length))
  | other => (List.replicate count other).mapM OnHeap.duplicate

/-- The value of `target : value`. -/
def binding (interpreter : Interpreter) (target value : Node) : Eval Value := do
  match target with
  | .identifier name =>
      let value ← interpreter.eval value
      assign name value
      return value
  | .list targets =>
      let names ← namesOf (fun node => .invalidAssignment (.notIdentifier node.display)) targets
      let value ← interpreter.eval value
      let values ← Eval.onHeap (shares names.length value)
      (names.zip values).forM fun entry => assign entry.1 entry.2
      return value
  | other => fail (.invalidAssignment (.badTarget other.kind.name))

/-- The value of `head -> body` or `head => body`: a function that remembers all bindings. -/
def definition (operator : String) (head body : Node) : Eval Value := do
  let params ←
    match head with
    | .identifier name => pure [name]
    | .list items =>
        Eval.ofOutcome
          (namesOf (fun node => .typeError (.parameterNotIdentifier node.display)) items)
    | other => fail (.typeError (.functionHead other.kind.name))
  let closure := (← scope).bindings
  OnHeap.newFunction ⟨params, body, closure, operator == Syntax.variadicToken, []⟩

/-- Whether a value can implement an operator. -/
def checkImplementation (operator : String) (value : Value) : Eval Unit := do
  match value with
  | .builtin _ => pure ()
  | .function handle =>
      let function := (← get).heap.function handle
      let count := function.params.length
      if count = 2 ∨ (function.variadic ∧ count = 1) then pure ()
      else fail (.argumentCount "2" count)
  | _ => fail (.notCallable ("the implementation given to " ++ operator))

/-- The parts of an operator's definition: its precedence, its associativity if given, its
function, and whether it is forced. -/
def definitionParts (form : Value) : Eval (Value × Option Value × Value × Bool) := do
  match form with
  | .list handle =>
      match ((← get).heap.list handle).toList with
      | [precedence, function] => return (precedence, none, function, false)
      | [precedence, associativity, function] =>
          return (precedence, some associativity, function, false)
      | [precedence, associativity, function, _, _] =>
          return (precedence, some associativity, function, true)
      | items => fail (.typeError (.definitionSize items.length))
  | other => return (.zero, none, other, false)

/-- Places and implements an operator in the current scope. -/
def defineOperator (definition : Syntax.Definition) (implementation : Implementation) :
    Eval Unit := do
  let scope ← (← scope).define definition implementation
  modifyScope fun _ => scope

/-- The value of `token << form` or `token <<< form`. -/
def operatorDefinition (interpreter : Interpreter) (operator : String) (left right : Node) :
    Eval Value := do
  let token ← OnHeap.textOf (← interpreter.eval left) "operator name"
  let (precedence, associativity, function, force) ←
    definitionParts (← interpreter.eval right)
  let precedence ← Eval.ofOutcome (precedence.asReal "precedence index")
  let associativity ←
    match associativity with
    | some value => do
        let text ← Eval.onHeap (OnHeap.textOf value "associativity")
        Eval.ofOutcome (Syntax.Associativity.read text)
    | none => pure .left
  checkImplementation operator function
  defineOperator ⟨token, precedence, associativity, force⟩
    ⟨function, operator == Syntax.operatorBindToken⟩
  return function

/-- The value of an operation whose operator the program has defined. -/
def userOperation (interpreter : Interpreter) (implementation : Implementation)
    (left right : Node) : Eval Value := do
  if implementation.eager then
    let left ← interpreter.eval left
    let right ← interpreter.eval right
    interpreter.apply implementation.function [left, right]
  else
    let left ← OnHeap.newNode left
    let right ← OnHeap.newNode right
    interpreter.apply implementation.function [left, right]

/-! ## Control -/

/-- The only element of a list, any other tree as it is. -/
def grouped : Node → Node
  | .list [only] => only
  | other => other

/-- The value of `condition ? [then, else]`. -/
def conditional (interpreter : Interpreter) (condition branches : Node) : Eval Value := do
  match branches with
  | .list [thenBranch, elseBranch] =>
      if (← interpreter.eval condition).isTruthy then interpreter.eval thenBranch
      else interpreter.eval elseBranch
  | .list branches =>
      fail (.typeError (.branchCount Syntax.conditionalToken branches.length))
  | _ => fail (.typeError (.branchesNotList Syntax.conditionalToken))

/-- Repeats a body, and what follows it each time, while a condition holds; the value is that of the
last body. -/
def repeatWhile (interpreter : Interpreter) (condition body : Node) (update : Option Node) :
    (bound : Nat) → (last : Value) → Eval Value
  | 0, _ => throw .exhausted
  | bound + 1, last => do
      if (← interpreter.eval condition).isTruthy then
        let last ← interpreter.eval body
        match update with
        | some node => discard (interpreter.eval node)
        | none => pure ()
        repeatWhile interpreter condition body update bound last
      else
        return last

/-- The value of `condition !! body`. -/
def whileLoop (interpreter : Interpreter) (bound : Nat) (condition body : Node) : Eval Value :=
  repeatWhile interpreter (grouped condition) (grouped body) none bound .zero

/-- The value of `[first, condition, update] # body`. -/
def forLoop (interpreter : Interpreter) (bound : Nat) (head body : Node) : Eval Value := do
  match head with
  | .list [first, condition, update] =>
      discard (interpreter.eval first)
      repeatWhile interpreter condition (grouped body) (some update) bound .zero
  | .list clauses => fail (.typeError (.clauseCount Syntax.forToken clauses.length))
  | _ => fail (.typeError (.headNotList Syntax.forToken))

/-! ## Trees -/

/-- The value of an operation that the program has not defined anew. -/
def nativeOperation (interpreter : Interpreter) (bound : Nat) (operator : String)
    (left right : Node) : Eval Value := do
  if operator = Syntax.definitionToken ∨ operator = Syntax.variadicToken then
    definition operator left right
  else if operator = Syntax.partialToken then partialApplication interpreter left right
  else if operator = Syntax.conditionalToken then conditional interpreter left right
  else if operator = Syntax.whileToken then whileLoop interpreter bound left right
  else if operator = Syntax.forToken then forLoop interpreter bound left right
  else if Syntax.isApplication operator then application interpreter operator left right
  else
    match BinaryOperator.ofToken? operator with
    | none => fail (.unknownOperator operator)
    | some binary =>
        let left ← interpreter.eval left
        let right ← interpreter.eval right
        OnHeap.binary binary left right

/-- The value of an operation. -/
def operation (interpreter : Interpreter) (bound : Nat) (operator : String) (left right : Node) :
    Eval Value := do
  if operator = Syntax.bindToken then binding interpreter left right
  else if operator = Syntax.operatorBindToken ∨ operator = Syntax.macroBindToken then
    operatorDefinition interpreter operator left right
  else
    match (← scope).operators.implementations.get? operator with
    | some implementation => userOperation interpreter implementation left right
    | none => nativeOperation interpreter bound operator left right

/-- The characters of a text literal: its pieces, expressions replaced by the display forms of their
values. -/
def splice (interpreter : Interpreter) : (written : String) → List Segment → Eval String
  | written, [] => return written
  | written, .literal characters :: segments =>
      splice interpreter (written ++ characters) segments
  | written, .splice expression :: segments => do
      let value ← interpreter.eval expression
      splice interpreter (written ++ (← get).heap.display value) segments

/-- The value of the last of a row of statements. -/
def sequence (interpreter : Interpreter) : (last : Value) → List Node → Eval Value
  | last, [] => return last
  | _, statement :: rest => do sequence interpreter (← interpreter.eval statement) rest

/-- The value of a tree. -/
def tree (interpreter : Interpreter) (bound : Nat) (node : Node) : Eval Value := do
  match node with
  | .body statements => sequence interpreter .zero statements
  | .list elements => OnHeap.newListOf (← elements.mapM interpreter.eval)
  | .number value => return .number value
  | .text _ segments => OnHeap.newText (← splice interpreter "" segments)
  | .identifier name =>
      match (← scope).lookup? name with
      | some value => return value
      | none => fail (.unboundIdentifier name)
  | .operation operator left right => operation interpreter bound operator left right
  | .quoted inner => OnHeap.newNode inner

/-! ## Sources -/

/-- How a row of statements ended. -/
inductive Progress where
  | finished (last : Value)
  /-- The operators have changed, and the rest has to be divided into statements anew. -/
  | changed (last : Value) (rest : List Char)

/-- Evaluates statements of a text until the operators change. -/
def statements (interpreter : Interpreter) (text : List Char) (generation : Nat) :
    (last : Value) → List Syntax.Statement → Eval Progress
  | last, [] => return .finished last
  | _, statement :: others => do
      let levels ← levels
      let node ←
        ofSyntax (Syntax.parseStatement levels (Syntax.readerFor levels text) statement.tokens)
      let last ← interpreter.eval node
      if (← scope).operators.generation = generation then
        statements interpreter text generation last others
      else
        return .changed last statement.rest

/-- The value of the last statement of a text. Each change of the operators leaves a shorter text,
so its length bounds the number of divisions. -/
def source (interpreter : Interpreter) : (bound : Nat) → (last : Value) → List Char → Eval Value
  | 0, last, _ => return last
  | bound + 1, last, text => do
      let operators := (← scope).operators
      let divided ← ofSyntax (Syntax.tokenize operators.levels.isGlyph text)
      match ← statements interpreter text operators.generation last divided with
      | .finished last => return last
      | .changed last rest => source interpreter bound last rest

/-! ## Requests -/

/-- Carries out a request, given an interpreter for the requests inside it. -/
def step (host : Host) (bound : Nat) (interpreter : Interpreter) : Interpreter
  | .tree node => tree interpreter bound node
  | .source text => source interpreter (text.length + 1) .zero text.toList
  | .application callee arguments => call host interpreter true callee arguments
  | .scopedApplication steps callee arguments =>
      inAncestor steps (call host interpreter false callee arguments)

/-- Carries out a request within a bound on the nesting of requests and on the number of rounds of
each loop. -/
def run (host : Host) : (bound : Nat) → Interpreter
  | 0, _ => throw .exhausted
  | bound + 1, request => step host bound (run host bound) request

/-- The bound that evaluation starts with. -/
def startBound : Nat := 1 <<< 48

/-- The interpreter with the given functions of the surrounding program. -/
def interpreter (host : Host) : Interpreter := run host startBound

end Eval

end Fixity
