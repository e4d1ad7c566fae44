import Fixity.CommandLine
import Fixity.Proofs.Comparison

/-!
Contract: the rules of evaluation under a comparison.

Owns:
- one lemma for each rule of evaluation: with interpreters that agree on the requests inside it, the
  rule does the same and stays within the relation;
- `Comparison.Nested.agree_step`, all rules together where the comparison allows every bracket;
- `Host.Tame` and `Host.Modest`, the surrounding programs whose functions are such rules, and that
  of the command line;
- `Frame.keeps_run`: every request stays within a frame, at every bound, if the surrounding
  program's functions do.

Does not own: what a comparison requires where a name is removed, where a function is applied and
where evaluation goes to an outer scope.
-/

namespace Fixity

theorem Reflection.le_firstFree {scope : Scope} {tries number free : Nat}
    (found : firstFree scope tries number = some free) : number ≤ free := by
  induction tries generalizing number with
  | zero => cases found
  | succ tries inductionHypothesis =>
      unfold firstFree at found
      split at found
      · have later := inductionHypothesis found
        omega
      · exact Nat.le_of_eq (Option.some.inj found)

/-- What the generation of a name does, once its number is found. -/
theorem Reflection.freshName_of_some {state : State} {number : Nat}
    (found : firstFree state.scope (state.scope.bindings.size + 1) state.nextName = some number) :
    freshName state =
      Eval.onHeap (OnHeap.newNode (.identifier (generatedName number)))
        { state with nextName := number + 1 } := by
  unfold freshName
  refine (Eval.bind_of_ok rfl).trans ?_
  rw [found]
  rfl

theorem Reflection.freshName_of_none {state : State}
    (missing : firstFree state.scope (state.scope.bindings.size + 1) state.nextName = none) :
    freshName state = .error .exhausted state := by
  unfold freshName
  refine (Eval.bind_of_ok rfl).trans ?_
  rw [missing]
  rfl

/-- Functions of the surrounding program that do no more to the state than the language can: with
interpreters that agree, they do the same and stay within the relation. -/
def Host.Tame (host : Host) : Prop :=
  ∀ (c : Comparison) (first second : Interpreter), c.Lawful → c.Agree first second →
    ∀ name arguments, c.Holds (host name first arguments) (host name second arguments)

namespace Host

/-- With interpreters that agree, the functions of the surrounding program do the same and stay
within the relation. -/
def Suits (host : Host) (c : Comparison) : Prop :=
  ∀ first second : Interpreter, c.Agree first second →
    ∀ name arguments, c.Holds (host name first arguments) (host name second arguments)

/-- Functions of the surrounding program that change the state as the rules of evaluation do: they
define functions only in the current scope, and they name functions only by binding them. -/
def Modest (host : Host) : Prop := ∀ c : Comparison, c.Regular → host.Suits c

variable {host : Host}

theorem Tame.suits (tame : host.Tame) {c : Comparison} (lawful : c.Lawful) : host.Suits c :=
  fun first second agree => tame c first second lawful agree

theorem Modest.tame (modest : host.Modest) : host.Tame :=
  fun c first second lawful agree => modest c lawful.regular first second agree

end Host

namespace Comparison.Regular

open Eval OnHeap

variable {c : Comparison} {host : Host} {first second : Interpreter}

/-! ## Native functions -/

section Native

theorem keeps_requireCallable (regular : c.Regular) (function : Value) (builtin : String) :
    c.Keeps (Folding.requireCallable function builtin) := by
  unfold Folding.requireCallable
  exact holds_ite (regular.keeps_pure ()) (regular.keeps_fail _)

theorem keeps_itemsFor (regular : c.Regular) (builtin : String) (container : Value) :
    c.Keeps (Folding.itemsFor builtin container) :=
  regular.keeps_onHeap (.folded _ _)

theorem holds_mapping (regular : c.Regular) (agree : c.Agree first second)
    (function container : Value) :
    c.Holds (Folding.map first function container) (Folding.map second function container) := by
  unfold Folding.map
  apply regular.holds_bind (regular.keeps_requireCallable function "map")
  intro _
  apply regular.holds_bind (regular.keeps_itemsFor _ _)
  intro items
  apply regular.holds_bind (regular.holds_mapM (fun item => agree _) items)
  intro results
  exact regular.keeps_onHeap (.newListOf _)

theorem holds_kept (regular : c.Regular) (agree : c.Agree first second)
    (function : Value) (passed items : List Value) :
    c.Holds (Folding.kept first function passed items)
      (Folding.kept second function passed items) := by
  induction items generalizing passed with
  | nil => exact regular.keeps_pure passed.reverse
  | cons item rest inductionHypothesis =>
      unfold Folding.kept
      apply regular.holds_bind (agree _)
      intro answer
      exact inductionHypothesis _

theorem holds_filter (regular : c.Regular) (agree : c.Agree first second)
    (function container : Value) :
    c.Holds (Folding.filter first function container)
      (Folding.filter second function container) := by
  unfold Folding.filter
  apply regular.holds_bind (regular.keeps_requireCallable function "filter")
  intro _
  apply regular.holds_bind (regular.keeps_itemsFor _ _)
  intro items
  apply regular.holds_bind (regular.holds_kept agree function [] items)
  intro passed
  exact regular.keeps_onHeap (.newListOf _)

theorem holds_accumulators (regular : c.Regular) (agree : c.Agree first second)
    (function accumulator : Value) (earlier items : List Value) :
    c.Holds (Folding.accumulators first function accumulator earlier items)
      (Folding.accumulators second function accumulator earlier items) := by
  induction items generalizing accumulator earlier with
  | nil => exact regular.keeps_pure (accumulator :: earlier)
  | cons item rest inductionHypothesis =>
      unfold Folding.accumulators
      apply regular.holds_bind (agree _)
      intro next
      exact inductionHypothesis next _

theorem holds_fold (regular : c.Regular) (agree : c.Agree first second)
    (history : Bool) (function container : Value) (start : Option Value) :
    c.Holds (Folding.fold first history function container start)
      (Folding.fold second history function container start) := by
  unfold Folding.fold
  apply regular.holds_bind (regular.keeps_requireCallable function _)
  intro _
  apply regular.holds_bind (regular.keeps_itemsFor _ _)
  intro items
  extract_lets next next'
  have continued : ∀ entry, c.Holds (next entry) (next' entry) := by
    intro entry
    apply regular.holds_bind (regular.holds_accumulators agree function _ [] _)
    intro results
    exact holds_ite (regular.keeps_onHeap (.newListOf _)) (regular.keeps_pure _)
  split
  · exact regular.holds_bind (regular.keeps_pure _) continued
  · exact regular.holds_bind (regular.keeps_pure _) continued
  · exact regular.holds_bind (regular.keeps_fail _) continued

theorem holds_evaluate (regular : c.Regular) (agree : c.Agree first second) (value : Value) :
    c.Holds (Reflection.evaluate first value) (Reflection.evaluate second value) := by
  unfold Reflection.evaluate
  split
  · exact regular.holds_bind regular.keeps_get fun state => agree _
  · exact regular.keeps_pure _

theorem holds_evaluateTree (regular : c.Regular) (agree : c.Agree first second) (value : Value) :
    c.Holds (Reflection.evaluateTree first value) (Reflection.evaluateTree second value) := by
  unfold Reflection.evaluateTree
  split
  · exact regular.holds_bind regular.keeps_get fun state => agree _
  · exact regular.keeps_pure _

theorem keeps_freshName (regular : c.Regular) : c.Keeps Reflection.freshName := by
  -- Taken as a whole: the number that the counter is set to was computed from the same state.
  intro state valid
  cases found : Reflection.firstFree state.scope (state.scope.bindings.size + 1) state.nextName with
  | none => exact regular.holdsAt_refl valid (after_of_error (Reflection.freshName_of_none found))
  | some number =>
      have same := Reflection.freshName_of_some found
      have counted :=
        regular.nextName valid (Nat.le_succ_of_le (Reflection.le_firstFree found))
      have named := regular.keeps_onHeap
        (.newNode (.identifier (Reflection.generatedName number))) _ (regular.valid valid counted)
      unfold HoldsAt Eval.after
      rw [same]
      exact named.imp_right fun kept => ⟨rfl, regular.trans counted kept.2⟩

theorem keeps_delete (regular : c.Regular)
    (remove : ∀ {state} name, c.Valid state →
      c.Related state { state with scope := state.scope.remove name })
    (names : List Value) : c.Keeps (Reflection.delete names) := by
  have removed : ∀ (names : List String) (state : State), c.Valid state →
      c.Related state { state with scope := names.foldl Scope.remove state.scope } := by
    intro names
    induction names with
    | nil => exact fun _ valid => regular.refl valid
    | cons name rest inductionHypothesis =>
        intro state valid
        have one := remove name valid
        exact regular.trans one (inductionHypothesis _ (regular.valid valid one))
  have removal : ∀ names : List String,
      c.Keeps (modifyScope fun scope => names.foldl Scope.remove scope) :=
    fun names state valid => Or.inr ⟨rfl, removed names state valid⟩
  unfold Reflection.delete
  apply regular.holds_bind (regular.keeps_onHeap (.mapM _ fun _ => .nameOf _))
  intro names
  exact regular.holds_bind (removal names) fun _ => regular.keeps_pure _

theorem keeps_visibleNames (regular : c.Regular) : c.Keeps Reflection.visibleNames := by
  unfold Reflection.visibleNames
  apply regular.holds_bind regular.keeps_scope
  intro scope
  apply regular.holds_bind (regular.keeps_onHeap (.newTexts _))
  intro names
  exact regular.keeps_onHeap (.newListOf _)

theorem keeps_levelTable (regular : c.Regular) : c.Keeps Reflection.levelTable := by
  unfold Reflection.levelTable
  apply regular.holds_bind regular.keeps_levels
  intro levels
  apply regular.holds_bind (regular.keeps_onHeap (.mapM _ fun _ => .levelRow _))
  intro rows
  exact regular.keeps_onHeap (.newListOf _)

theorem keeps_priority (regular : c.Regular) (token : Value) :
    c.Keeps (Reflection.priority token) := by
  unfold Reflection.priority
  apply regular.holds_bind (regular.keeps_onHeap (.textOf _ _))
  intro token
  apply regular.holds_bind regular.keeps_levels
  intro levels
  split
  · exact regular.keeps_pure _
  · exact regular.keeps_pure _

/-- A failed attempt leaves its changes, and the other action goes on from there. An attempt that
stops early is no failure of the language. -/
theorem holds_recovering (regular : c.Regular) {attempt attempt' fallback fallback' : Eval Value}
    (tried : c.Holds attempt attempt') (otherwise : c.Holds fallback fallback') :
    c.Holds (Reflection.recovering attempt fallback)
      (Reflection.recovering attempt' fallback') := by
  intro state valid
  rcases tried state valid with ⟨stops, left, stopped⟩ | ⟨same, reached⟩
  · left
    refine ⟨stops, left, ?_⟩
    unfold Reflection.recovering
    rw [stopped]
  · unfold HoldsAt Eval.after Reflection.recovering
    unfold Eval.after at reached
    rw [same]
    cases ran : attempt' state with
    | ok value middle =>
        rw [ran] at reached
        exact Or.inr ⟨rfl, reached⟩
    | error failure middle =>
        rw [ran] at reached
        cases failure with
        | error error =>
            rcases otherwise middle (regular.valid valid reached) with stopped | ⟨same, further⟩
            · exact Or.inl stopped
            · exact Or.inr ⟨same, regular.trans reached further⟩
        | _ => exact Or.inr ⟨rfl, reached⟩

theorem holds_tryCatch (regular : c.Regular) (agree : c.Agree first second)
    (arguments : List Value) :
    c.Holds (Reflection.tryCatch first arguments) (Reflection.tryCatch second arguments) := by
  unfold Reflection.tryCatch
  extract_lets next next'
  have continued : ∀ clauses, c.Holds (next clauses) (next' clauses) := by
    intro clauses
    dsimp only [next, next']
    split
    · apply regular.holds_bind (regular.keeps_ofOutcome _)
      intro attempt
      apply regular.holds_bind (regular.keeps_ofOutcome _)
      intro fallback
      apply regular.holds_recovering
      · exact regular.holds_bind regular.keeps_get fun state => agree _
      · exact regular.holds_bind regular.keeps_get fun state => agree _
    · exact regular.keeps_fail _
  split
  · exact regular.holds_bind (regular.keeps_onHeap (.elements _ _)) continued
  · exact regular.holds_bind (regular.keeps_pure _) continued

theorem keeps_changingObject (regular : c.Regular) (container key : Value) {action : OnHeap Value}
    (evolves : action.Evolves) : c.Keeps (changingObject container key action) := by
  unfold changingObject
  split
  · apply regular.holds_bind regular.keeps_get
    intro state
    exact holds_ite (regular.keeps_throw _) (regular.keeps_onHeap evolves)
  · exact regular.keeps_onHeap evolves

/-- Every native function but the one that removes names. -/
theorem holds_performNative (regular : c.Regular) (agree : c.Agree first second) {native : Native}
    (remains : native ≠ .del) (arguments : List Value) :
    c.Holds (performNative first native arguments) (performNative second native arguments) := by
  unfold performNative
  split
  -- Most functions only work on the heap; the others have a lemma of their own above.
  all_goals first
    | exact regular.keeps_lift (by grind)
    | exact regular.keeps_changingObject _ _ (by grind)
    | exact regular.holds_mapping agree _ _
    | exact regular.holds_filter agree _ _
    | exact regular.holds_fold agree _ _ _ _
    | exact regular.holds_bind regular.keeps_levels fun levels => regular.keeps_lift (by grind)
    | exact regular.holds_bind (regular.keeps_lift (by grind)) fun passes => regular.keeps_pure _
    | exact regular.holds_evaluate agree _
    | exact regular.holds_evaluateTree agree _
    | exact regular.keeps_freshName
    | exact absurd rfl remains
    | exact regular.keeps_visibleNames
    | exact regular.keeps_levelTable
    | exact regular.keeps_priority _
    | exact regular.holds_tryCatch agree _
    | exact regular.holds_bind regular.keeps_get fun state => regular.keeps_fail _

theorem holds_callNative (regular : c.Regular) (agree : c.Agree first second) {native : Native}
    (remains : native ≠ .del) (arguments : List Value) :
    c.Holds (callNative first native arguments) (callNative second native arguments) := by
  unfold callNative
  exact holds_ite (regular.holds_performNative agree remains arguments) (regular.keeps_fail _)

end Native

/-! ## Application -/

section Application

theorem holds_runBody (regular : c.Regular) (agree : c.Agree first second) (callee : Value)
    (function : Function) (arguments : List Value) :
    c.Holds (runBody first callee function arguments)
      (runBody second callee function arguments) := by
  unfold runBody
  apply regular.holds_bind (regular.keeps_onHeap (.callNames _ _ _))
  intro named
  exact regular.withNames named (agree _)

theorem holdsAt_callBuiltin (regular : c.Regular) (agree : c.Agree first second)
    (outside : ∀ name arguments, c.Holds (host name first arguments) (host name second arguments))
    {state : State} (valid : c.Valid state) (builtin : Builtin) (arguments : List Value)
    (removed : builtin.action = .native .del →
      c.HoldsAt state (Reflection.delete arguments) (Reflection.delete arguments)) :
    c.HoldsAt state (callBuiltin host first builtin arguments)
      (callBuiltin host second builtin arguments) := by
  unfold callBuiltin
  split
  · next native does =>
    by_cases removes : native = .del
    · subst removes
      exact removed does
    · exact regular.holds_callNative agree removes arguments state valid
  · exact outside _ arguments state valid
  · exact holds_ite (regular.keeps_fail _) (agree _) state valid

theorem keeps_argumentsOf (regular : c.Regular) (value : Value) : c.Keeps (argumentsOf value) := by
  unfold argumentsOf
  split
  · exact regular.holds_bind regular.keeps_get fun state => regular.keeps_pure _
  · exact regular.keeps_pure _

theorem holds_callable (regular : c.Regular) (agree : c.Agree first second) (operator : String)
    (node : Node) : c.Holds (callable first operator node) (callable second operator node) := by
  unfold callable
  apply regular.holds_bind (agree _)
  intro callee
  exact holds_ite (regular.keeps_pure callee) (regular.keeps_fail _)

theorem holds_application (regular : c.Regular) (agree : c.Agree first second) (operator : String)
    (left right : Node) :
    c.Holds (application first operator left right) (application second operator left right) := by
  unfold application
  apply regular.holds_bind (regular.holds_callable agree operator left)
  intro callee
  apply regular.holds_bind (agree _)
  intro right
  apply regular.holds_bind (regular.keeps_argumentsOf right)
  intro arguments
  split
  · exact agree _
  · exact agree _

theorem holds_partialApplication (regular : c.Regular) (agree : c.Agree first second)
    (left right : Node) :
    c.Holds (partialApplication first left right) (partialApplication second left right) := by
  unfold partialApplication
  apply regular.holds_bind (regular.holds_callable agree _ left)
  intro callee
  apply regular.holds_bind
  · apply regular.holds_mapM
    intro template
    apply holds_ite (regular.keeps_pure none)
    exact regular.holds_bind (agree _) fun value => regular.keeps_pure (some value)
  · intro fixed
    apply regular.holds_bind regular.keeps_get
    intro state
    exact regular.keeps_onHeap (.newBuiltin _)

end Application

/-! ## Binding and definition -/

section Definition

theorem keeps_assign (regular : c.Regular) (name : String) (value : Value) :
    c.Keeps (assign name value) := by
  intro state valid
  right
  rw [after_of_ok (assign_eq name value state)]
  exact ⟨rfl, regular.bound name value valid⟩

theorem holds_binding (regular : c.Regular) (agree : c.Agree first second) (target value : Node) :
    c.Holds (binding first target value) (binding second target value) := by
  unfold binding
  split
  · apply regular.holds_bind (agree _)
    intro value
    apply regular.holds_bind (regular.keeps_assign _ value)
    intro _
    exact regular.keeps_pure value
  · apply regular.holds_bind (regular.keeps_ofOutcome _)
    intro names
    apply regular.holds_bind (agree _)
    intro value
    apply regular.holds_bind (regular.keeps_onHeap (.shares _ _))
    intro values
    have assigned : ∀ entry : String × Value, c.Keeps (assign entry.1 entry.2) :=
      fun entry => regular.keeps_assign entry.1 entry.2
    exact regular.holds_bind (regular.holds_forM assigned _) fun _ => regular.keeps_pure value
  · exact regular.keeps_fail _

/-- The only rule by which a function comes to remember anything. -/
theorem keeps_definition (regular : c.Regular) (operator : String) (head body : Node) :
    c.Keeps (definition operator head body) := by
  unfold definition
  extract_lets next
  have continued : ∀ params, c.Keeps (next params) :=
    fun params state valid => Or.inr ⟨rfl, regular.capture params body _ valid⟩
  split
  · exact regular.holds_bind (regular.keeps_pure _) continued
  · exact regular.holds_bind (regular.keeps_ofOutcome _) continued
  · exact regular.holds_bind (regular.keeps_fail _) continued

theorem keeps_checkImplementation (regular : c.Regular) (operator : String) (value : Value) :
    c.Keeps (checkImplementation operator value) := by
  unfold checkImplementation
  split
  · exact regular.keeps_pure ()
  · apply regular.holds_bind regular.keeps_get
    intro state
    exact holds_ite (regular.keeps_pure ()) (regular.keeps_fail _)
  · exact regular.keeps_fail _

theorem keeps_definitionParts (regular : c.Regular) (form : Value) :
    c.Keeps (definitionParts form) := by
  unfold definitionParts
  split
  · apply regular.holds_bind regular.keeps_get
    intro state
    split
    · exact regular.keeps_pure _
    · exact regular.keeps_pure _
    · exact regular.keeps_pure _
    · exact regular.keeps_fail _
  · exact regular.keeps_pure _

theorem holds_operatorDefinition (regular : c.Regular) (agree : c.Agree first second)
    (operator : String) (left right : Node) :
    c.Holds (operatorDefinition first operator left right)
      (operatorDefinition second operator left right) := by
  unfold operatorDefinition
  apply regular.holds_bind (agree _)
  intro left
  apply regular.holds_bind (regular.keeps_onHeap (.textOf _ _))
  intro token
  apply regular.holds_bind (agree _)
  intro right
  apply regular.holds_bind (regular.keeps_definitionParts right)
  intro (precedence, associativity, function, force)
  apply regular.holds_bind (regular.keeps_ofOutcome _)
  intro precedence
  extract_lets next
  have continued : ∀ associativity, c.Keeps (next associativity) := by
    intro associativity
    apply regular.holds_bind (regular.keeps_checkImplementation operator _)
    intro _
    apply regular.holds_bind (regular.keeps_defineOperator _ _)
    intro _
    exact regular.keeps_pure _
  split
  · apply regular.holds_bind (regular.keeps_onHeap (.textOf _ _))
    intro text
    exact regular.holds_bind (regular.keeps_ofOutcome _) continued
  · exact regular.holds_bind (regular.keeps_pure _) continued

theorem holds_userOperation (regular : c.Regular) (agree : c.Agree first second)
    (implementation : Implementation) (left right : Node) :
    c.Holds (userOperation first implementation left right)
      (userOperation second implementation left right) := by
  unfold userOperation
  apply holds_ite
  · apply regular.holds_bind (agree _)
    intro left
    apply regular.holds_bind (agree _)
    intro right
    exact agree _
  · apply regular.holds_bind (regular.keeps_onHeap (.newNode _))
    intro left
    apply regular.holds_bind (regular.keeps_onHeap (.newNode _))
    intro right
    exact agree _

end Definition

/-! ## Control -/

section Control

theorem holds_conditional (regular : c.Regular) (agree : c.Agree first second)
    (condition branches : Node) :
    c.Holds (conditional first condition branches) (conditional second condition branches) := by
  unfold conditional
  split
  · apply regular.holds_bind (agree _)
    intro answer
    exact holds_ite (agree _) (agree _)
  · exact regular.keeps_fail _
  · exact regular.keeps_fail _

theorem holds_repeatWhile (regular : c.Regular) (agree : c.Agree first second)
    (condition body : Node) (update : Option Node) {bound bound' : Nat}
    (rounds : c.Rounds bound bound') (last : Value) :
    c.Holds (repeatWhile first condition body update bound last)
      (repeatWhile second condition body update bound' last) := by
  induction bound generalizing bound' last with
  | zero =>
      rcases rounds with rfl | ⟨stops, _⟩
      · exact regular.keeps_throw .exhausted
      · exact fun state _ => Or.inl ⟨stops, state, rfl⟩
  | succ bound inductionHypothesis =>
      obtain ⟨bound', rfl, fewer⟩ := rounds.of_succ
      unfold repeatWhile
      apply regular.holds_bind (agree _)
      intro answer
      apply holds_ite _ (regular.keeps_pure last)
      apply regular.holds_bind (agree _)
      intro last
      split
      · apply regular.holds_bind (regular.holds_map _ (agree _))
        intro _
        exact inductionHypothesis fewer last
      · exact inductionHypothesis fewer last

theorem holds_forLoop (regular : c.Regular) (agree : c.Agree first second) {bound bound' : Nat}
    (rounds : c.Rounds bound bound') (head body : Node) :
    c.Holds (forLoop first bound head body) (forLoop second bound' head body) := by
  unfold forLoop
  split
  · apply regular.holds_bind (regular.holds_map _ (agree _))
    intro _
    exact regular.holds_repeatWhile agree _ _ _ rounds .zero
  · exact regular.keeps_fail _
  · exact regular.keeps_fail _

end Control

/-! ## Trees -/

section Trees

theorem holds_nativeOperation (regular : c.Regular) (agree : c.Agree first second)
    {bound bound' : Nat} (rounds : c.Rounds bound bound') (operator : String) (left right : Node) :
    c.Holds (nativeOperation first bound operator left right)
      (nativeOperation second bound' operator left right) := by
  unfold nativeOperation
  apply holds_ite (regular.keeps_definition operator left right)
  apply holds_ite (regular.holds_partialApplication agree left right)
  apply holds_ite (regular.holds_conditional agree left right)
  apply holds_ite (regular.holds_repeatWhile agree _ _ none rounds .zero)
  apply holds_ite (regular.holds_forLoop agree rounds left right)
  apply holds_ite (regular.holds_application agree operator left right)
  split
  · exact regular.keeps_fail _
  · apply regular.holds_bind (agree _)
    intro left
    apply regular.holds_bind (agree _)
    intro right
    exact regular.keeps_onHeap (.binary _ _ _)

theorem holds_operation (regular : c.Regular) (agree : c.Agree first second)
    {bound bound' : Nat} (rounds : c.Rounds bound bound') (operator : String) (left right : Node) :
    c.Holds (operation first bound operator left right)
      (operation second bound' operator left right) := by
  unfold operation
  apply holds_ite (regular.holds_binding agree left right)
  apply holds_ite (regular.holds_operatorDefinition agree operator left right)
  apply regular.holds_bind regular.keeps_scope
  intro scope
  split
  · exact regular.holds_userOperation agree _ left right
  · exact regular.holds_nativeOperation agree rounds operator left right

theorem holds_splice (regular : c.Regular) (agree : c.Agree first second) (written : String)
    (segments : List Segment) :
    c.Holds (splice first written segments) (splice second written segments) := by
  induction segments generalizing written with
  | nil => exact regular.keeps_pure written
  | cons segment segments inductionHypothesis =>
      cases segment with
      | literal characters => exact inductionHypothesis (written ++ characters)
      | splice expression =>
          unfold splice
          apply regular.holds_bind (agree _)
          intro value
          apply regular.holds_bind regular.keeps_get
          intro state
          exact inductionHypothesis _

theorem holds_sequence (regular : c.Regular) (agree : c.Agree first second) (last : Value)
    (statements : List Node) :
    c.Holds (Eval.sequence first last statements) (Eval.sequence second last statements) := by
  induction statements generalizing last with
  | nil => exact regular.keeps_pure last
  | cons statement rest inductionHypothesis =>
      unfold Eval.sequence
      apply regular.holds_bind (agree _)
      intro last
      exact inductionHypothesis last

theorem holds_tree (regular : c.Regular) (agree : c.Agree first second) {bound bound' : Nat}
    (rounds : c.Rounds bound bound') (node : Node) :
    c.Holds (tree first bound node) (tree second bound' node) := by
  cases node with
  | body statements => exact regular.holds_sequence agree .zero statements
  | list elements =>
      apply regular.holds_bind (regular.holds_mapM (fun element => agree _) elements)
      intro values
      exact regular.keeps_onHeap (.newListOf _)
  | number value => exact regular.keeps_pure _
  | text source segments =>
      apply regular.holds_bind (regular.holds_splice agree "" segments)
      intro written
      exact regular.keeps_onHeap (.newText _)
  | identifier name =>
      apply regular.holds_bind regular.keeps_scope
      intro scope
      split
      · exact regular.keeps_pure _
      · exact regular.keeps_fail _
  | operation operator left right => exact regular.holds_operation agree rounds operator left right
  | quoted inner => exact regular.keeps_onHeap (.newNode inner)

end Trees

/-! ## Sources -/

theorem holds_statements (regular : c.Regular) (agree : c.Agree first second) (text : List Char)
    (generation : Nat) (last : Value) (divided : List Syntax.Statement) :
    c.Holds (statements first text generation last divided)
      (statements second text generation last divided) := by
  induction divided generalizing last with
  | nil => exact regular.keeps_pure (Progress.finished last)
  | cons statement others inductionHypothesis =>
      unfold statements
      apply regular.holds_bind regular.keeps_levels
      intro levels
      apply regular.holds_bind (regular.keeps_ofSyntax _)
      intro node
      apply regular.holds_bind (agree _)
      intro last
      apply regular.holds_bind regular.keeps_scope
      intro scope
      exact holds_ite (inductionHypothesis last) (regular.keeps_pure _)

theorem holds_source (regular : c.Regular) (agree : c.Agree first second) (bound : Nat)
    (last : Value) (text : List Char) :
    c.Holds (source first bound last text) (source second bound last text) := by
  induction bound generalizing last text with
  | zero => exact regular.keeps_pure last
  | succ bound inductionHypothesis =>
      unfold source
      apply regular.holds_bind regular.keeps_scope
      intro scope
      apply regular.holds_bind (regular.keeps_ofSyntax _)
      intro divided
      apply regular.holds_bind (regular.holds_statements agree text _ last divided)
      intro progress
      cases progress with
      | finished last => exact regular.keeps_pure last
      | changed last rest => exact inductionHypothesis last rest

end Comparison.Regular

/-! ## Requests -/

namespace Comparison

open Eval

/-- Which function is applied, and whether it accepts its arguments, is decided by the state. -/
theorem HoldsAt.call_function {c : Comparison} {host : Host}
    {first second : Interpreter} {fresh : Bool} {handle : Nat} {arguments : List Value}
    {state : State} (refl : c.Related state state)
    (called : ∀ function, function = state.heap.function handle →
      c.HoldsAt state
        (asCall
          (if fresh then
            inChild function.closure (runBody first (.function handle) function arguments)
          else runBody first (.function handle) function arguments))
        (asCall
          (if fresh then
            inChild function.closure (runBody second (.function handle) function arguments)
          else runBody second (.function handle) function arguments))) :
    c.HoldsAt state (call host first fresh (.function handle) arguments)
      (call host second fresh (.function handle) arguments) := by
  show c.HoldsAt state
    (if (state.heap.function handle).accepts arguments.length then asCall _ else fail _)
    (if (state.heap.function handle).accepts arguments.length then asCall _ else fail _)
  split
  · exact called _ rfl
  · exact Or.inr ⟨rfl, refl⟩

namespace Nested

variable {c : Comparison} {host : Host} {first second : Interpreter}

theorem holds_call (nested : c.Nested) (agree : c.Agree first second)
    (outside : ∀ name arguments, c.Holds (host name first arguments) (host name second arguments))
    (fresh : Bool) (callee : Value) (arguments : List Value) :
    c.Holds (call host first fresh callee arguments)
      (call host second fresh callee arguments) := by
  have regular := nested.toLawful.regular
  have body := fun function => regular.holds_runBody agree callee function arguments
  unfold call
  split
  · apply regular.holds_bind regular.keeps_get
    intro state state' valid
    exact regular.holdsAt_callBuiltin agree outside valid _ arguments
      fun _ => regular.keeps_delete nested.remove arguments state' valid
  · apply regular.holds_bind regular.keeps_get
    intro state
    apply holds_ite
    · apply nested.asCall
      exact holds_ite (nested.inChild _ (body _)) (body _)
    · exact regular.keeps_fail _
  · exact regular.keeps_fail _

theorem agree_step (nested : c.Nested) (agree : c.Agree first second)
    (outside : ∀ name arguments, c.Holds (host name first arguments) (host name second arguments))
    {bound bound' : Nat} (rounds : c.Rounds bound bound') :
    c.Agree (step host bound first) (step host bound' second) := by
  intro request
  cases request with
  | tree node => exact nested.toLawful.regular.holds_tree agree rounds node
  | source text =>
      exact nested.toLawful.regular.holds_source agree (text.length + 1) .zero text.toList
  | application callee arguments => exact nested.holds_call agree outside true callee arguments
  | scopedApplication steps callee arguments =>
      exact nested.inAncestor steps (nested.holds_call agree outside false callee arguments)

end Nested

end Comparison

/-! ## Frames -/

/-- Whatever evaluation does stays within a frame. -/
theorem Frame.keeps_run {related : State → State → Prop} {host : Host} (frame : Frame related)
    (outside : host.Keeps related) (bound : Nat) :
    Interpreter.Keeps related (Eval.run host bound) := by
  have agree : frame.comparison.Agree (Eval.run host bound) (Eval.run host bound) := by
    induction bound with
    | zero => exact fun request => frame.nested.toLawful.regular.keeps_throw .exhausted
    | succ bound inductionHypothesis =>
        refine frame.nested.agree_step inductionHypothesis ?_ (.refl bound)
        intro name arguments
        have within : Interpreter.Keeps related (Eval.run host bound) :=
          fun request => (frame.holds_iff.mp (inductionHypothesis request)).2
        exact frame.holds_iff.mpr ⟨rfl, outside name _ arguments within⟩
  exact fun request => (frame.holds_iff.mp (agree request)).2

/-! ## The command line -/

namespace Host

theorem modest_commandLine (files : CommandLine.Files) : Modest (CommandLine.host files) := by
  intro c regular first second agree name arguments
  unfold CommandLine.host
  apply Comparison.holds_ite
  · apply regular.holds_bind regular.keeps_get
    intro state
    apply regular.holds_bind (regular.keeps_emit _)
    intro _
    exact regular.keeps_pure _
  · split
    · apply Comparison.holds_ite
      · apply regular.holds_bind (regular.keeps_onHeap (.textOf _ _))
        intro path
        split
        · exact agree _
        · exact regular.keeps_fail _
        · exact regular.keeps_throw _
      · apply regular.holds_bind (regular.keeps_ofOutcome _)
        intro seconds
        apply regular.holds_bind (regular.keeps_ofOutcome _)
        intro length
        apply regular.holds_bind (regular.keeps_emit _)
        intro _
        exact regular.keeps_pure _
    · exact regular.keeps_fail _

theorem tame_commandLine (files : CommandLine.Files) : Tame (CommandLine.host files) :=
  (modest_commandLine files).tame

/-- What a tame program does stays within every frame. -/
theorem Tame.keeps {host : Host} (tame : host.Tame) {related : State → State → Prop}
    (frame : Frame related) : host.Keeps related := by
  intro name interpreter arguments within
  have agree : frame.comparison.Agree interpreter interpreter :=
    fun request => frame.holds_iff.mpr ⟨rfl, within request⟩
  exact (frame.holds_iff.mp (tame _ _ _ frame.nested.toLawful agree name arguments)).2

end Host

theorem Frame.keeps_commandLine {related : State → State → Prop} (frame : Frame related)
    (files : CommandLine.Files) : Host.Keeps related (CommandLine.host files) :=
  (Host.tame_commandLine files).keeps frame

end Fixity
