import Fixity.Proofs.Generations
import Fixity.Proofs.Resumption

/-!
Contract: sources evaluated one statement at a time.

Owns:
- `Eval.byStatement`, which divides the text that is left anew before every statement, and
  `Eval.runByStatement`, the interpreter that evaluates all sources this way;
- `Eval.run_eq_runByStatement`: the interpreter that keeps the statements it has cut as long as the
  generation of the operators stays the same does just that.
-/

namespace Fixity.Eval

/-- The text from an offset in bytes on; nothing if no character starts there. -/
def textFrom (offset : Nat) (text : List Char) : List Char :=
  (Syntax.dropBytes? offset text).getD []

theorem textFrom_offsetOf {text rest : List Char} (suffix : rest <:+ text) :
    textFrom (Syntax.offsetOf text rest) text = rest := by
  unfold textFrom
  rw [Syntax.dropBytes?_offsetOf suffix]
  rfl

/-- The value of the last statement of a text. All of the text is divided by the operators in force,
its first statement is read and evaluated, and the text goes on where that statement ends. -/
def byStatement (interpreter : Interpreter) (last : Value) (text : List Char) : Eval Value := do
  let levels ← levels
  match _ : Syntax.tokenize levels.isGlyph text with
  | .error error => fail (.source error)
  | .ok [] => return last
  | .ok (statement :: _) => do
      let node ← ofSyntax (Syntax.parseStatement levels (Syntax.parseBody levels) statement.tokens)
      let last ← interpreter.eval node
      byStatement interpreter last (textFrom (Syntax.offsetOf text statement.rest) text)
termination_by text.length
decreasing_by
  have divided := ‹Syntax.tokenize _ text = _›
  rw [textFrom_offsetOf (Syntax.tokenize_rest divided).2]
  exact (Syntax.tokenize_length divided _ List.mem_cons_self).1

/-- Carries out a request, sources one statement at a time. -/
def stepByStatement (host : Host) (bound : Nat) (interpreter : Interpreter) : Interpreter
  | .source text => byStatement interpreter .zero text.toList
  | request => step host bound interpreter request

/-- Carries out a request within a bound, it and all sources inside it one statement at a time. -/
def runByStatement (host : Host) : (bound : Nat) → Interpreter
  | 0, _ => throw .exhausted
  | bound + 1, request => stepByStatement host bound (runByStatement host bound) request

/-! ## One step of each -/

section Steps

variable {α β : Type} {interpreter : Interpreter} {state : State}

theorem ofSyntax_eq_ok {result : Except SyntaxError α} {value : α} {state' : State}
    (ran : ofSyntax result state = .ok value state') : result = .ok value ∧ state' = state := by
  cases result with
  | error error => cases ran
  | ok value =>
      cases ran
      exact ⟨rfl, rfl⟩

theorem byStatement_eq (last : Value) {text : List Char} {levels : Syntax.Levels}
    (current : state.scope.operators.levels = levels) :
    byStatement interpreter last text state =
      match Syntax.tokenize levels.isGlyph text with
      | .error error => .error (.error (.source error)) state
      | .ok [] => .ok last state
      | .ok (statement :: _) =>
          (ofSyntax (Syntax.parseStatement levels (Syntax.parseBody levels) statement.tokens) >>=
            fun node => interpreter.eval node >>= fun last =>
              byStatement interpreter last statement.rest) state := by
  subst current
  rw [byStatement]
  show (match _ : Syntax.tokenize state.scope.operators.levels.isGlyph text with
    | .error error => fail (.source error)
    | .ok [] => pure last
    | .ok (statement :: _) => _ : Eval Value) state = _
  split
  · next error divided =>
    rw [divided]
    rfl
  · next divided =>
    rw [divided]
    rfl
  · next statement others divided =>
    have cut := textFrom_offsetOf (Syntax.tokenize_rest divided).2
    rw [divided]
    dsimp only
    rw [cut]

/-- What is done with the end of a row of statements. -/
def goOn (interpreter : Interpreter) (bound : Nat) : Progress → Eval Value
  | .finished last => pure last
  | .changed last rest => source interpreter bound last rest

theorem source_succ (bound : Nat) (last : Value) (text : List Char) :
    source interpreter (bound + 1) last text state =
      (ofSyntax (Syntax.tokenize state.scope.operators.levels.isGlyph text) >>= fun divided =>
        statements interpreter text state.scope.operators.generation last divided >>=
          goOn interpreter bound) state :=
  rfl

theorem statements_cons (bound : Nat) (last : Value) (text : List Char) (generation : Nat)
    (statement : Syntax.Statement) (others : List Syntax.Statement) :
    (statements interpreter text generation last (statement :: others) >>=
        goOn interpreter bound) state =
      (ofSyntax (Syntax.parseStatement state.scope.operators.levels
          (Syntax.readerFor state.scope.operators.levels text) statement.tokens) >>=
        fun node => interpreter.eval node >>= fun last state =>
          if state.scope.operators.generation = generation then
            (statements interpreter text generation last others >>= goOn interpreter bound) state
          else source interpreter bound last statement.rest state) state := by
  rw [statements]
  simp only [bind_assoc]
  show (ofSyntax _ >>= _) state = _
  apply bind_congr_at
  intro node state' _
  apply bind_congr_at
  intro last state' _
  show ((if state'.scope.operators.generation = generation then
      statements interpreter text generation last others
    else pure (.changed last statement.rest)) >>= goOn interpreter bound) state' = _
  split
  · rfl
  · rfl

end Steps

/-! ## The two evaluations -/

section Agreement

variable {interpreter : Interpreter}

/-- As long as the generation stays the same, the statements that were cut before are those into
which the text that is left falls now. -/
private theorem statements_eq_byStatement
    (within : interpreter.Keeps (State.TablesRelated OperatorTable.Precedes))
    {bound : Nat} {text : List Char} (longest : text.length ≤ bound)
    (shorter : ∀ (last : Value) (rest : List Char) (state : State), rest.length < bound →
      source interpreter bound last rest state = byStatement interpreter last rest state)
    {table : OperatorTable} (others : List Syntax.Statement) (last : Value) (left : List Char)
    (state : State) (suffix : left <:+ text)
    (divided : Syntax.tokenize table.levels.isGlyph left = .ok others)
    (current : state.scope.operators = table) :
    (statements interpreter text table.generation last others >>= goOn interpreter bound) state =
      byStatement interpreter last left state := by
  induction others generalizing last left state with
  | nil =>
      rw [byStatement_eq last (congrArg OperatorTable.levels current), divided]
      rfl
  | cons statement others inductionHypothesis =>
      rw [byStatement_eq last (congrArg OperatorTable.levels current), divided, statements_cons,
        current]
      have lengths := Syntax.tokenize_length divided statement List.mem_cons_self
      have behind := Syntax.tokenize_rest divided
      have inside := suffix.length_le
      have read : Syntax.parseStatement table.levels (Syntax.readerFor table.levels text)
            statement.tokens =
          Syntax.parseStatement table.levels (Syntax.parseBody table.levels) statement.tokens :=
        Syntax.parseStatement_congr (Syntax.readerFor_agree inside) lengths.2
      rw [read]
      apply bind_congr_at
      intro node state' parsed
      rw [(ofSyntax_eq_ok parsed).2]
      apply bind_congr_at
      intro last state' evaluated
      have counted :
          State.TablesRelated OperatorTable.Precedes state ((interpreter.eval node).after state) :=
        within (.tree node) state
      rw [after_of_ok evaluated] at counted
      by_cases same : state'.scope.operators.generation = table.generation
      · rw [if_pos same]
        have unchanged : state.scope.operators = state'.scope.operators :=
          counted.current.eq_of_generation (by rw [same, current])
        exact inductionHypothesis last statement.rest state' (behind.2.trans suffix) behind.1
          (by rw [← unchanged, current])
      · rw [if_neg same]
        exact shorter last statement.rest state' (by omega)

theorem source_eq_byStatement
    (within : interpreter.Keeps (State.TablesRelated OperatorTable.Precedes)) {bound : Nat}
    (last : Value) (text : List Char) (state : State) (longEnough : text.length < bound) :
    source interpreter bound last text state = byStatement interpreter last text state := by
  induction bound generalizing last text state with
  | zero => exact absurd longEnough (Nat.not_lt_zero _)
  | succ bound inductionHypothesis =>
      rw [source_succ]
      cases divided : Syntax.tokenize state.scope.operators.levels.isGlyph text with
      | error error =>
          rw [byStatement_eq last rfl, divided]
          rfl
      | ok statements =>
          exact statements_eq_byStatement within (Nat.le_of_lt_succ longEnough)
            (fun last rest state shorter => inductionHypothesis last rest state shorter)
            statements last text state List.suffix_rfl divided rfl

/-- Evaluation of sources, at whatever depth, agrees with evaluation that divides the text that is
left before every statement: the same value or failure, and the same state. Functions of the
surrounding program must not change the operators without their generation. -/
theorem run_eq_runByStatement {host : Host}
    (outside : host.Keeps (State.TablesRelated OperatorTable.Precedes)) (bound : Nat)
    (request : Request) (state : State) :
    run host bound request state = runByStatement host bound request state := by
  have interpreters : run host bound = runByStatement host bound := by
    induction bound with
    | zero => rfl
    | succ bound inductionHypothesis =>
        have within := OperatorTable.Precedes.frame.keeps_run outside bound
        funext request
        show step host bound (run host bound) request =
          stepByStatement host bound (runByStatement host bound) request
        rw [← inductionHypothesis]
        cases request with
        | tree node => rfl
        | application callee arguments => rfl
        | scopedApplication steps callee arguments => rfl
        | source text =>
            funext state
            apply source_eq_byStatement within
            rw [String.length_toList]
            exact Nat.lt_succ_self text.length
  rw [interpreters]

/-- The functions of the command line, in a source whose second statement needs the operator that
the first one defines. -/
theorem run_eq_runByStatement_commandLine :
    (CommandLine.host (CommandLine.listedFiles [])).Keeps
        (State.TablesRelated OperatorTable.Precedes) ∧
      run (CommandLine.host (CommandLine.listedFiles [])) 9
          (.source "\x7b<+>\x7d << [4, [a, b] -> a]; 1 <+> 2") (.initial .empty .empty) =
        runByStatement (CommandLine.host (CommandLine.listedFiles [])) 9
          (.source "\x7b<+>\x7d << [4, [a, b] -> a]; 1 <+> 2") (.initial .empty .empty) := by
  have outside : (CommandLine.host (CommandLine.listedFiles [])).Keeps
      (State.TablesRelated OperatorTable.Precedes) :=
    OperatorTable.Precedes.frame.keeps_commandLine _
  exact ⟨outside, run_eq_runByStatement outside 9 _ _⟩

end Agreement

end Fixity.Eval
