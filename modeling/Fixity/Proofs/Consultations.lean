import Fixity.CommandLine
import Fixity.Proofs.Dialogues

/-!
Contract: every rule of evaluation as a dialogue with the generator of names.

Owns:
- one lemma for each rule: if the requests inside it consult the generator, so does the rule;
- `Host.Consults`, the surrounding programs whose functions come to generated names only by the
  requests they make, and that of the command line;
- `Eval.consults_runWith`: evaluation consults the generator, whatever stands in its place.

Does not own: what the generator answers.
-/

namespace Fixity

namespace Reflection

/-- The result of an attempt or, if that is an error of the language, what another action makes of
the state it leaves. -/
def recovered (fallback : Eval Value) :
    EStateM.Result Failure State Value → EStateM.Result Failure State Value
  | .error (.error _) reached => fallback reached
  | result => result

/-- What `trycatch` does with its clauses. -/
def tryClauses (interpreter : Interpreter) (clauses : List Value) : Eval Value := do
  match clauses with
  | [attempt, fallback] =>
      let attempt ← attempt.asNode "the first clause of trycatch"
      let fallback ← fallback.asNode "the second clause of trycatch"
      recovering
        (do interpreter.eval ((← get).heap.node attempt))
        (do interpreter.eval ((← get).heap.node fallback))
  | clauses => Eval.fail (.argumentCount "2 clauses" clauses.length)

end Reflection

/-- An interpreter that is told the generator carries out every request as a dialogue with it. -/
def Interpreter.Consults (interpreter : Eval Value → Interpreter) : Prop :=
  ∀ request, Eval.Consults fun generator => interpreter generator request

/-- Functions of the surrounding program that come to generated names only by the requests they
make. -/
def Host.Consults (host : Host) : Prop :=
  ∀ interpreter, Interpreter.Consults interpreter → ∀ name arguments,
    Eval.Consults fun generator => host name (interpreter generator) arguments

namespace Eval.Consults

open Eval OnHeap

variable {host : Host} {interpreter : Eval Value → Interpreter}
  (agree : Interpreter.Consults interpreter)

/-! ## Native functions -/

theorem requireCallable (function : Value) (builtin : String) :
    Consults fun _ => Folding.requireCallable function builtin := by
  unfold Folding.requireCallable
  exact .ite (.pure ()) (.fail _)

theorem changingObject (container key : Value) (action : OnHeap Value) :
    Consults fun _ => changingObject container key action := by
  cases container with
  | object handle => exact .read fun state => Consults.ite (.throw .conflict) (.onHeap action) state
  | _ => exact .onHeap action

theorem delete (names : List Value) : Consults fun _ => Reflection.delete names :=
  .bind (.onHeap _) fun _ => .bind (.modifyScope _) fun _ => .pure _

theorem visibleNames : Consults fun _ => Reflection.visibleNames :=
  .readScope fun _ => .bind (.onHeap _) fun _ => .onHeap _

theorem levelTable : Consults fun _ => Reflection.levelTable :=
  .readLevels fun _ => .bind (.onHeap _) fun _ => .onHeap _

theorem priority (token : Value) : Consults fun _ => Reflection.priority token := by
  refine .bind (.onHeap _) fun token => .readLevels fun levels => ?_
  cases levels.levelOf? token with
  | some level => exact .pure _
  | none => exact .pure _

theorem raise (value : Value) : Consults fun _ => Reflection.raise value :=
  .read fun state => Consults.fail _ state

/-- Another action may follow an attempt that fails, in the state that the attempt leaves. -/
theorem recovering {attempt fallback : Eval Value → Eval Value} (tried : Consults attempt)
    (otherwise : Consults fallback) :
    Consults fun generator => Reflection.recovering (attempt generator) (fallback generator) := by
  intro state
  refine (tried state).andThen (fun generator => Reflection.recovered (fallback generator)) rfl
    (fun generator => rfl) fun result => ?_
  cases result with
  | ok value reached => exact ⟨.ended (.ok value reached), fun _ => rfl, rfl⟩
  | error failure reached =>
      cases failure with
      | error error => exact otherwise reached
      | _ => exact ⟨.ended (.error _ reached), fun _ => rfl, rfl⟩

include agree

theorem mapping (function container : Value) :
    Consults fun generator => Folding.map (interpreter generator) function container :=
  .bind (requireCallable function "map") fun _ => .bind (.onHeap _) fun items =>
    .bind (.mapM items fun _ => agree _) fun _ => .onHeap _

theorem kept (function : Value) (passed items : List Value) :
    Consults fun generator => Folding.kept (interpreter generator) function passed items := by
  induction items generalizing passed with
  | nil => exact .pure passed.reverse
  | cons item rest inductionHypothesis => exact .bind (agree _) fun _ => inductionHypothesis _

theorem filter (function container : Value) :
    Consults fun generator => Folding.filter (interpreter generator) function container :=
  .bind (requireCallable function "filter") fun _ => .bind (.onHeap _) fun items =>
    .bind (kept agree function [] items) fun _ => .onHeap _

theorem accumulators (function accumulator : Value) (earlier items : List Value) :
    Consults fun generator =>
      Folding.accumulators (interpreter generator) function accumulator earlier items := by
  induction items generalizing accumulator earlier with
  | nil => exact .pure (accumulator :: earlier)
  | cons item rest inductionHypothesis =>
      exact .bind (agree _) fun next => inductionHypothesis next _

theorem fold (history : Bool) (function container : Value) (start : Option Value) :
    Consults fun generator =>
      Folding.fold (interpreter generator) history function container start := by
  refine .bind (requireCallable function _) fun _ => .bind (.onHeap _) fun items => ?_
  have continued (entry : Value × List Value) : Consults fun generator => do
      let results ← Folding.accumulators (interpreter generator) function entry.1 [] entry.2
      if history then OnHeap.newListOf results.reverse
      else return results.headD .zero :=
    .bind (accumulators agree function _ [] _) fun _ => .ite (.onHeap _) (.pure _)
  cases start with
  | some start => exact .bind (.pure _) continued
  | none =>
      cases items with
      | cons item rest => exact .bind (.pure _) continued
      | nil => exact .bind (.fail _) continued

theorem evaluate (value : Value) :
    Consults fun generator => Reflection.evaluate (interpreter generator) value := by
  cases value with
  | text handle => exact .read fun state => agree _ state
  | _ => exact .pure _

/-- A tree is evaluated as it is at the time. -/
theorem evalNode (handle : Nat) :
    Consults fun generator => (do (interpreter generator).eval ((← get).heap.node handle)) :=
  .read fun state => agree (.tree (state.heap.node handle)) state

theorem evaluateTree (value : Value) :
    Consults fun generator => Reflection.evaluateTree (interpreter generator) value := by
  cases value with
  | node handle => exact evalNode agree handle
  | _ => exact .pure _

theorem tryClauses (clauses : List Value) :
    Consults fun generator => Reflection.tryClauses (interpreter generator) clauses := by
  rcases clauses with _ | ⟨attempt, _ | ⟨fallback, _ | ⟨third, rest⟩⟩⟩
  · exact .fail _
  · exact .fail _
  · exact .bind (.ofOutcome _) fun attempt => .bind (.ofOutcome _) fun fallback =>
      .recovering (evalNode agree attempt) (evalNode agree fallback)
  · exact .fail _

theorem tryCatch (arguments : List Value) :
    Consults fun generator => Reflection.tryCatch (interpreter generator) arguments := by
  rcases arguments with _ | ⟨list, _ | ⟨second, rest⟩⟩
  · exact .bind (.pure _) (tryClauses agree)
  · exact .bind (.onHeap _) (tryClauses agree)
  · exact .bind (.pure _) (tryClauses agree)

/-- Every native function but the generator itself. -/
theorem performNative {native : Native} {arguments : List Value}
    (other : ¬ (native = .gensym ∧ arguments = [])) :
    Consults fun generator => performNative (interpreter generator) native arguments := by
  unfold Eval.performNative
  split
  -- Most functions only work on the heap; the others have a lemma of their own above.
  all_goals first
    | exact .onHeap _
    | exact .ofOutcome _
    | exact .changingObject _ _ _
    | exact .mapping agree _ _
    | exact .filter agree _ _
    | exact .fold agree _ _ _ _
    | exact .readLevels fun levels => .onHeap _
    | exact .bind (.onHeap _) fun passes => .pure _
    | exact .evaluate agree _
    | exact .evaluateTree agree _
    | exact absurd ⟨rfl, rfl⟩ other
    | exact .delete _
    | exact .visibleNames
    | exact .levelTable
    | exact .priority _
    | exact .tryCatch agree _
    | exact .raise _
    | exact .fail _

theorem callNative {native : Native} {arguments : List Value}
    (other : ¬ (native = .gensym ∧ arguments = [])) :
    Consults fun generator => callNative (interpreter generator) native arguments :=
  .ite (performNative agree other) (.fail _)

/-! ## Application -/

theorem runBody (callee : Value) (function : Function) (arguments : List Value) :
    Consults fun generator => runBody (interpreter generator) callee function arguments :=
  .bind (.onHeap _) fun named => .withNames (agree _) named

theorem callBuiltin (outside : host.Consults) {builtin : Builtin} {arguments : List Value}
    (other : ¬ (builtin.action = .native .gensym ∧ arguments = [])) :
    Consults fun generator => callBuiltin host (interpreter generator) builtin arguments := by
  unfold Eval.callBuiltin
  cases does : builtin.action with
  | native native =>
      exact .callNative agree fun generating => other ⟨by rw [does, generating.1], generating.2⟩
  | host name => exact outside interpreter agree name arguments
  | supply callee fixed => exact .ite (.fail _) (agree _)

/-- A call of a callable, unless it generates a name. -/
theorem call (outside : host.Consults) {state : State} (fresh : Bool) {callee : Value}
    {arguments : List Value} (other : state.heap.generates callee arguments = false) :
    ConsultsAt state fun generator =>
      call host (interpreter generator) fresh callee arguments := by
  cases callee with
  | builtin handle =>
      refine callBuiltin agree outside (fun generating => ?_) state
      unfold Heap.generates at other
      rw [generating.2] at other
      dsimp only at other
      rw [generating.1] at other
      cases other
  | function handle =>
      have body (function : Function) := runBody agree (.function handle) function arguments
      have called (function : Function) : Consults fun generator =>
          if function.accepts arguments.length then
            Eval.asCall
              (if fresh then
                Eval.inChild function.closure
                  (Eval.runBody (interpreter generator) (.function handle) function arguments)
              else Eval.runBody (interpreter generator) (.function handle) function arguments)
          else Eval.fail (.argumentCount function.arity arguments.length) :=
        .ite (.asCall (.ite (.inChild (body function) _) (body function))) (.fail _)
      exact called (state.heap.function handle) state
  | _ => exact Consults.fail _ state

/-- An application asks the generator if it generates a name. -/
theorem callWith (outside : host.Consults) (fresh : Bool) (callee : Value)
    (arguments : List Value) :
    Consults fun generator =>
      callWith generator host (interpreter generator) fresh callee arguments := by
  intro state
  cases generates : state.heap.generates callee arguments with
  | true =>
      refine ⟨.asks state .ended, fun generator => ?_, rfl, fun _ => rfl⟩
      exact if_pos generates
  | false =>
      obtain ⟨dialogue, same, counts⟩ := call agree outside fresh generates
      refine ⟨dialogue, fun generator => ?_, counts⟩
      rw [← same]
      exact if_neg (Bool.eq_false_iff.mp generates)

theorem callable (operator : String) (node : Node) :
    Consults fun generator => callable (interpreter generator) operator node :=
  .bind (agree _) fun callee => .ite (.pure callee) (.fail _)

omit agree in
theorem argumentsOf (value : Value) : Consults fun _ => argumentsOf value := by
  cases value with
  | list handle => exact .read fun state => Consults.pure _ state
  | _ => exact .pure _

theorem application (operator : String) (left right : Node) :
    Consults fun generator => application (interpreter generator) operator left right := by
  refine .bind (callable agree operator left) fun callee => .bind (agree _) fun right =>
    .bind (.argumentsOf right) fun arguments => ?_
  cases operator.length - 1 with
  | zero => exact agree _
  | succ steps => exact agree _

theorem partialApplication (left right : Node) :
    Consults fun generator => partialApplication (interpreter generator) left right :=
  .bind (callable agree _ left) fun _ =>
    .bind (.mapM _ fun _ => .ite (.pure none) (.bind (agree _) fun value => .pure (some value)))
      fun _ => .read fun state => Consults.onHeap _ state

/-! ## Binding and definition -/

omit agree in
theorem assign (name : String) (value : Value) : Consults fun _ => assign name value :=
  .of_counted fun state => by rw [after_of_ok (assign_eq name value state)]; rfl

theorem binding (target value : Node) :
    Consults fun generator => binding (interpreter generator) target value := by
  cases target with
  | identifier name => exact .bind (agree _) fun value => .bind (.assign _ _) fun _ => .pure value
  | list targets =>
      exact .bind (.ofOutcome _) fun names => .bind (agree _) fun value =>
        .bind (.onHeap _) fun values => .bind (.forM _ fun entry => .assign entry.1 entry.2)
          fun _ => .pure value
  | _ => exact .fail _

omit agree in
theorem definition (operator : String) (head body : Node) :
    Consults fun _ => definition operator head body := by
  have continued (params : List String) : Consults fun _ => (do
      let closure := (← scope).bindings
      OnHeap.newFunction ⟨params, body, closure, operator == Syntax.variadicToken, []⟩) :=
    .readScope fun _ => .onHeap _
  cases head with
  | identifier name => exact .bind (.pure _) continued
  | list items => exact .bind (.ofOutcome _) continued
  | _ => exact .bind (.fail _) continued

omit agree in
theorem checkImplementation (operator : String) (value : Value) :
    Consults fun _ => checkImplementation operator value := by
  cases value with
  | builtin handle => exact .pure ()
  | function handle => exact .read fun state => Consults.ite (.pure ()) (.fail _) state
  | _ => exact .fail _

omit agree in
theorem definitionParts (form : Value) : Consults fun _ => definitionParts form := by
  cases form with
  | list handle =>
      refine .read fun state => ?_
      split
      · exact Consults.pure _ state
      · exact Consults.pure _ state
      · exact Consults.pure _ state
      · exact Consults.fail _ state
  | _ => exact .pure _

theorem operatorDefinition (operator : String) (left right : Node) :
    Consults fun generator => operatorDefinition (interpreter generator) operator left right := by
  refine .bind (agree _) fun left => .bind (.onHeap _) fun token => .bind (agree _) fun right =>
    .bind (.definitionParts right) fun (_, associativity, _, _) =>
      .bind (.ofOutcome _) fun precedence => ?_
  cases associativity with
  | some text =>
      exact .bind (.onHeap _) fun _ => .bind (.ofOutcome _) fun _ =>
        .bind (.checkImplementation _ _) fun _ => .bind (.defineOperator _ _) fun _ => .pure _
  | none =>
      exact .bind (.pure _) fun _ =>
        .bind (.checkImplementation _ _) fun _ => .bind (.defineOperator _ _) fun _ => .pure _

theorem userOperation (implementation : Implementation) (left right : Node) :
    Consults fun generator => userOperation (interpreter generator) implementation left right :=
  .ite (.bind (agree _) fun _ => .bind (agree _) fun _ => agree _)
    (.bind (.onHeap _) fun _ => .bind (.onHeap _) fun _ => agree _)

/-! ## Control -/

theorem conditional (condition branches : Node) :
    Consults fun generator => conditional (interpreter generator) condition branches := by
  unfold Eval.conditional
  split
  · exact .bind (agree _) fun _ => .ite (agree _) (agree _)
  · exact .fail _
  · exact .fail _

theorem repeatWhile (condition body : Node) (update : Option Node) (bound : Nat) (last : Value) :
    Consults fun generator =>
      repeatWhile (interpreter generator) condition body update bound last := by
  induction bound generalizing last with
  | zero => exact .throw .exhausted
  | succ bound inductionHypothesis =>
      refine .bind (agree _) fun _ => .ite (.bind (agree _) fun last => ?_) (.pure last)
      cases update with
      | some node => exact .bind (.discard (agree _)) fun _ => inductionHypothesis last
      | none => exact .bind (.pure ()) fun _ => inductionHypothesis last

theorem forLoop (bound : Nat) (head body : Node) :
    Consults fun generator => forLoop (interpreter generator) bound head body := by
  unfold Eval.forLoop
  split
  · exact .bind (.discard (agree _)) fun _ => repeatWhile agree _ _ _ bound .zero
  · exact .fail _
  · exact .fail _

/-! ## Trees -/

theorem nativeOperation (bound : Nat) (operator : String) (left right : Node) :
    Consults fun generator =>
      nativeOperation (interpreter generator) bound operator left right := by
  refine .ite (.definition _ _ _) <| .ite (partialApplication agree _ _) <|
    .ite (conditional agree _ _) <| .ite (repeatWhile agree _ _ none bound .zero) <|
    .ite (forLoop agree bound _ _) <| .ite (application agree _ _ _) ?_
  cases BinaryOperator.ofToken? operator with
  | none => exact .fail _
  | some binary => exact .bind (agree _) fun _ => .bind (agree _) fun _ => .onHeap _

theorem operation (bound : Nat) (operator : String) (left right : Node) :
    Consults fun generator => operation (interpreter generator) bound operator left right := by
  refine .ite (binding agree _ _) <| .ite (operatorDefinition agree _ _ _) <|
    .readScope fun scope => ?_
  cases scope.operators.implementations.get? operator with
  | some implementation => exact userOperation agree implementation left right
  | none => exact nativeOperation agree bound operator left right

theorem splice (written : String) (segments : List Segment) :
    Consults fun generator => splice (interpreter generator) written segments := by
  induction segments generalizing written with
  | nil => exact .pure written
  | cons segment segments inductionHypothesis =>
      cases segment with
      | literal characters => exact inductionHypothesis (written ++ characters)
      | splice expression =>
          exact .bind (agree _) fun _ => .read fun state => inductionHypothesis _ state

theorem sequence (last : Value) (nodes : List Node) :
    Consults fun generator => Eval.sequence (interpreter generator) last nodes := by
  induction nodes generalizing last with
  | nil => exact .pure last
  | cons node rest inductionHypothesis =>
      exact .bind (agree _) fun last => inductionHypothesis last

theorem tree (bound : Nat) (node : Node) :
    Consults fun generator => tree (interpreter generator) bound node := by
  cases node with
  | body nodes => exact sequence agree .zero nodes
  | list elements => exact .bind (.mapM elements fun _ => agree _) fun _ => .onHeap _
  | number value => exact .pure _
  | text source segments => exact .bind (splice agree "" segments) fun _ => .onHeap _
  | identifier name =>
      refine .readScope fun scope => ?_
      cases scope.lookup? name with
      | some value => exact .pure value
      | none => exact .fail _
  | operation operator left right => exact operation agree bound operator left right
  | quoted inner => exact .onHeap (OnHeap.newNode inner)

/-! ## Sources -/

theorem statements (text : List Char) (generation : Nat) (last : Value)
    (divided : List Syntax.Statement) :
    Consults fun generator =>
      statements (interpreter generator) text generation last divided := by
  induction divided generalizing last with
  | nil => exact .pure (Progress.finished last)
  | cons statement others inductionHypothesis =>
      exact .readLevels fun _ => .bind (.ofOutcome _) fun _ => .bind (agree _) fun last =>
        .readScope fun _ => .ite (inductionHypothesis last) (.pure _)

theorem source (bound : Nat) (last : Value) (text : List Char) :
    Consults fun generator => source (interpreter generator) bound last text := by
  induction bound generalizing last text with
  | zero => exact .pure last
  | succ bound inductionHypothesis =>
      refine .readScope fun scope => .bind (.ofOutcome _) fun divided =>
        .bind (statements agree text _ last divided) fun progress => ?_
      cases progress with
      | finished last => exact .pure last
      | changed last rest => exact inductionHypothesis last rest

end Eval.Consults

/-! ## Requests -/

namespace Eval

/-- Whatever stands in the place of `gensym`, every request consults it, in states that its own
answers alone account for. -/
theorem consults_runWith {host : Host} (outside : host.Consults) (bound : Nat) :
    Interpreter.Consults fun generator => runWith generator host bound := by
  induction bound with
  | zero => exact fun request => .throw .exhausted
  | succ bound inductionHypothesis =>
      intro request
      cases request with
      | tree node => exact .tree inductionHypothesis bound node
      | source text =>
          exact .source inductionHypothesis (text.length + 1) .zero text.toList
      | application callee arguments =>
          exact .callWith inductionHypothesis outside true callee arguments
      | scopedApplication steps callee arguments =>
          exact .inAncestor (.callWith inductionHypothesis outside false callee arguments) steps

end Eval

/-! ## Surrounding programs -/

namespace Host

open Eval

theorem consults_noHost : Host.Consults Library.noHost :=
  fun _ _ _ _ => .fail _

theorem consults_commandLine (files : CommandLine.Files) :
    Host.Consults (CommandLine.host files) := by
  intro interpreter agree name arguments
  unfold CommandLine.host
  refine .ite (.read fun state => Consults.bind (.emit _) (fun _ => .pure _) state) ?_
  rcases arguments with _ | ⟨argument, _ | ⟨second, rest⟩⟩
  · exact .fail _
  · refine .ite (.bind (.onHeap _) fun path => ?_) <|
      .bind (.ofOutcome _) fun _ => .bind (.ofOutcome _) fun _ => .bind (.emit _) fun _ => .pure _
    rcases files path with _ | reason | content
    · exact .throw _
    · exact .fail _
    · exact agree _
  · exact .fail _

end Host

end Fixity
