import Fixity.Proofs.Bounds
import Fixity.Proofs.Macros
import Fixity.Proofs.Unseen

/-!
Contract: callables that are given some of their arguments in advance.

Owns:
- `Eval.Fixes`, what the templates on the right of `'` are fixed to, from left to right;
- `Eval.Fills`, the arguments that come from templates and further arguments, place by place;
- `Eval.Supplies`: a value does what a callable does with the filled templates, or refuses to;
- `Eval.partialApplication_gives`: `'` makes such values, they remain so whatever is evaluated, and
  they compose.
-/

namespace Fixity

namespace Eval

/-! ## Templates -/

/-- The templates on the right of `'`. -/
def templatesOf : Node → List Node
  | .list elements => elements
  | other => [other]

/-- A slot is left open. -/
def IsSlot (template : Node) : Prop := template.name? = some slotName

instance (template : Node) : Decidable (IsSlot template) :=
  inferInstanceAs (Decidable (_ = _))

/-- Nothing for a slot, the value for any other tree. -/
def fixTemplate (interpreter : Interpreter) (template : Node) : Eval (Option Value) := do
  if IsSlot template then return none
  else return some (← interpreter.eval template)

/-- The state with a further builtin, which supplies a callable with arguments. -/
def supplied (function : Value) (fixed : List (Option Value)) (right : Node) (state : State) :
    State :=
  let label := state.heap.display function ++ Syntax.partialToken ++ right.display
  { state with
    heap := { state.heap with
      builtins := state.heap.builtins.push ⟨label, .supply function fixed⟩ } }

/-- Makes that builtin. -/
def supply (function : Value) (fixed : List (Option Value)) (right : Node) : Eval Value :=
  fun state => .ok (.builtin state.heap.builtins.size) (supplied function fixed right state)

theorem partialApplication_eq (interpreter : Interpreter) (left right : Node) :
    partialApplication interpreter left right = (do
      let callee ← callable interpreter Syntax.partialToken left
      let fixed ← (templatesOf right).mapM (fixTemplate interpreter)
      supply callee fixed right) := by
  unfold partialApplication fixTemplate IsSlot
  simp only [beq_iff_eq]
  cases right <;> rfl

/-- Templates are fixed from left to right. Slots stay open; each other tree is evaluated once. -/
inductive Fixes (host : Host) : State → List Node → List (Option Value) → State → Prop where
  | nil (state : State) : Fixes host state [] [] state
  | slot {state reached : State} {template : Node} {rest : List Node}
      {fixed : List (Option Value)} : IsSlot template → Fixes host state rest fixed reached →
      Fixes host state (template :: rest) (none :: fixed) reached
  | tree {state middle reached : State} {template : Node} {rest : List Node} {value : Value}
      {fixed : List (Option Value)} : ¬ IsSlot template →
      Gives host (.tree template) state (.ok value middle) →
      Fixes host middle rest fixed reached →
      Fixes host state (template :: rest) (some value :: fixed) reached

/-- One of the templates fails when those in front of it have been fixed. -/
inductive Breaks (host : Host) : State → List Node → Failure → State → Prop where
  | here {state left : State} {template : Node} {rest : List Node} {failure : Failure} :
      ¬ IsSlot template → Gives host (.tree template) state (.error failure left) →
      Breaks host state (template :: rest) failure left
  | slot {state left : State} {template : Node} {rest : List Node} {failure : Failure} :
      IsSlot template → Breaks host state rest failure left →
      Breaks host state (template :: rest) failure left
  | tree {state middle left : State} {template : Node} {rest : List Node} {value : Value}
      {failure : Failure} : ¬ IsSlot template →
      Gives host (.tree template) state (.ok value middle) →
      Breaks host middle rest failure left →
      Breaks host state (template :: rest) failure left

section Templates

variable {host : Host} (tame : host.Tame)
include tame

private theorem prolongs_fixTemplate (template : Node) :
    Prolongs fun bound => fixTemplate (run host bound) template := fun _ _ le =>
  Comparison.holds_ite (Comparison.regular_sooner.keeps_pure _)
    (Comparison.regular_sooner.holds_map some (run_sooner tame le (.tree template)))

private theorem prolongs_templates (templates : List Node) :
    Prolongs fun bound => templates.mapM (fixTemplate (run host bound)) := fun _ _ le =>
  Comparison.regular_sooner.holds_mapM (fun template => prolongs_fixTemplate tame template le) _

omit tame in
private theorem comes_slot_iff {template : Node} (slot : IsSlot template) {state : State}
    {result : EStateM.Result Failure State (Option Value)} :
    Comes (fun bound => fixTemplate (run host bound) template) state result ↔
      result = .ok none state := by
  unfold fixTemplate
  simp only [if_pos slot]
  exact comes_pure_iff

private theorem comes_tree_iff {template : Node} (tree : ¬ IsSlot template) {state : State}
    {result : EStateM.Result Failure State (Option Value)} :
    Comes (fun bound => fixTemplate (run host bound) template) state result ↔
      (∃ failure left, Gives host (.tree template) state (.error failure left) ∧
        result = .error failure left) ∨
      ∃ value middle, Gives host (.tree template) state (.ok value middle) ∧
        result = .ok (some value) middle := by
  unfold fixTemplate
  simp only [if_neg tree]
  have continued (value : Value) := prolongs_const (Pure.pure (some value) : Eval (Option Value))
  refine (comes_bind_iff (prolongs_run tame (.tree template)) continued).trans
    (or_congr_right ?_)
  exact exists_congr fun value => exists_congr fun middle => and_congr_right fun _ =>
    comes_pure_iff

private theorem prolongs_rest (first : Option Value) (rest : List Node) :
    Prolongs fun bound => rest.mapM (fixTemplate (run host bound)) >>= fun others =>
      (Pure.pure (first :: others) : Eval (List (Option Value))) :=
  (prolongs_templates tame rest).bind fun others => prolongs_const (Pure.pure (first :: others))

theorem comes_fixes_iff {templates : List Node} {state reached : State}
    {fixed : List (Option Value)} :
    Comes (fun bound => templates.mapM (fixTemplate (run host bound))) state
        (.ok fixed reached) ↔
      Fixes host state templates fixed reached := by
  induction templates generalizing state fixed with
  | nil =>
      simp only [List.mapM_nil]
      rw [comes_pure_iff]
      constructor
      · intro same
        cases same
        exact .nil _
      · rintro ⟨⟩
        rfl
  | cons template rest inductionHypothesis =>
      simp only [List.mapM_cons]
      rw [comes_bind_ok_iff (prolongs_fixTemplate tame template) (prolongs_rest tame · rest)]
      constructor
      · rintro ⟨first, middle, comes, comes'⟩
        rw [comes_bind_ok_iff (prolongs_templates tame rest)
          fun others => prolongs_const (Pure.pure (first :: others))] at comes'
        obtain ⟨others, after, comes', last⟩ := comes'
        cases comes_pure_iff.mp last
        have goesOn := inductionHypothesis.mp comes'
        by_cases slot : IsSlot template
        · cases (comes_slot_iff slot).mp comes
          exact .slot slot goesOn
        · obtain ⟨_, _, _, same⟩ | ⟨value, _, gives, same⟩ := (comes_tree_iff tame slot).mp comes
          · cases same
          · cases same
            exact .tree slot gives goesOn
      · intro fixes
        have goesOn (first : Option Value) {middle : State} {others : List (Option Value)}
            (fixes : Fixes host middle rest others reached) :=
          (comes_bind_ok_iff (prolongs_templates tame rest)
            fun others => prolongs_const (Pure.pure (first :: others))).mpr
              ⟨others, reached, inductionHypothesis.mpr fixes, comes_pure_iff.mpr rfl⟩
        cases fixes with
        | slot slot fixes => exact ⟨none, _, (comes_slot_iff slot).mpr rfl, goesOn _ fixes⟩
        | tree tree gives fixes =>
            exact ⟨some _, _, (comes_tree_iff tame tree).mpr (.inr ⟨_, _, gives, rfl⟩),
              goesOn _ fixes⟩

theorem comes_breaks_iff {templates : List Node} {state left : State} {failure : Failure} :
    Comes (fun bound => templates.mapM (fixTemplate (run host bound))) state
        (.error failure left) ↔
      Breaks host state templates failure left := by
  induction templates generalizing state with
  | nil =>
      simp only [List.mapM_nil]
      rw [comes_pure_iff]
      constructor
      · intro same
        cases same
      · rintro ⟨⟩
  | cons template rest inductionHypothesis =>
      simp only [List.mapM_cons]
      rw [comes_bind_error_iff (prolongs_fixTemplate tame template) (prolongs_rest tame · rest)]
      have later (first : Option Value) (middle : State) :
          Comes (fun bound => rest.mapM (fixTemplate (run host bound)) >>= fun others =>
              (Pure.pure (first :: others) : Eval (List (Option Value)))) middle
              (.error failure left) ↔
            Breaks host middle rest failure left := by
        rw [comes_bind_error_iff (prolongs_templates tame rest)
          fun others => prolongs_const (Pure.pure (first :: others)), inductionHypothesis]
        simp [comes_pure_iff]
      simp only [later]
      by_cases slot : IsSlot template
      · simp only [comes_slot_iff slot]
        constructor
        · rintro (same | ⟨_, _, same, breaks⟩)
          · cases same
          · cases same
            exact .slot slot breaks
        · rintro (⟨tree, _⟩ | ⟨_, breaks⟩ | ⟨tree, _, _⟩)
          · exact absurd slot tree
          · exact .inr ⟨none, state, rfl, breaks⟩
          · exact absurd slot tree
      · simp only [comes_tree_iff tame slot]
        constructor
        · rintro ((⟨_, _, gives, same⟩ | ⟨_, _, _, same⟩) |
            ⟨_, _, ⟨_, _, _, same⟩ | ⟨_, _, gives, same⟩, breaks⟩) <;> cases same
          · exact .here slot gives
          · exact .tree slot gives breaks
        · rintro (⟨_, gives⟩ | ⟨isSlot, _⟩ | ⟨_, gives, breaks⟩)
          · exact .inl (.inl ⟨_, _, gives, rfl⟩)
          · exact absurd isSlot slot
          · exact .inr ⟨some _, _, .inr ⟨_, _, gives, rfl⟩, breaks⟩

end Templates

/-! ## Creation -/

/-- What comes to be of `callee ' right`: the callable, what is fixed, and a new builtin of both. -/
def Creates (host : Host) (state : State) (callee right : Node) (function : Value)
    (fixed : List (Option Value)) (value : Value) (after : State) : Prop :=
  ∃ middle reached, Gives host (.tree callee) state (.ok function middle) ∧ function.isCallable ∧
    Fixes host middle (templatesOf right) fixed reached ∧
    value = .builtin reached.heap.builtins.size ∧ after = supplied function fixed right reached

/-- The error for a callee that can not be called. -/
def uncallable : RuntimeError := .notCallable ("the left operand of " ++ Syntax.partialToken)

/-- Why `callee ' right` can fail: because of the callee, or because of a template. -/
def Refuses (host : Host) (state : State) (callee right : Node) (failure : Failure)
    (left : State) : Prop :=
  Gives host (.tree callee) state (.error failure left) ∨
    (∃ other, Gives host (.tree callee) state (.ok other left) ∧ other.isCallable = false ∧
      failure = .error uncallable) ∨
    ∃ function middle, Gives host (.tree callee) state (.ok function middle) ∧
      function.isCallable ∧ Breaks host middle (templatesOf right) failure left

section Creation

variable {host : Host} (tame : host.Tame) {state : State}
  (native : state.scope.operators.implementations.get? Syntax.partialToken = none)
  (callee right : Node)
include tame

private theorem prolongs_callable :
    Prolongs fun bound => callable (run host bound) Syntax.partialToken callee := fun _ _ le =>
  Comparison.regular_sooner.holds_callable (run_sooner tame le) _ _

private theorem comes_callable_iff {result : EStateM.Result Failure State Value} :
    Comes (fun bound => callable (run host bound) Syntax.partialToken callee) state result ↔
      (∃ failure left, Gives host (.tree callee) state (.error failure left) ∧
        result = .error failure left) ∨
      ∃ function middle, Gives host (.tree callee) state (.ok function middle) ∧
        result = if function.isCallable then .ok function middle
          else .error (.error uncallable) middle := by
  have continued (function : Value) := prolongs_const
    (if function.isCallable then pure function else fail uncallable : Eval Value)
  refine (comes_bind_iff (prolongs_run tame (.tree callee)) continued).trans (or_congr_right ?_)
  refine exists_congr fun function => exists_congr fun middle => and_congr_right fun _ => ?_
  rw [comes_const_iff]
  cases function.isCallable <;> exact ⟨fun same => same.1.symm, by rintro rfl; exact ⟨rfl, nofun⟩⟩

private theorem comes_callable_ok_iff {function : Value} {middle : State} :
    Comes (fun bound => callable (run host bound) Syntax.partialToken callee) state
        (.ok function middle) ↔
      Gives host (.tree callee) state (.ok function middle) ∧ function.isCallable := by
  rw [comes_callable_iff tame]
  constructor
  · rintro (⟨_, _, _, same⟩ | ⟨other, at_, gives, same⟩)
    · cases same
    · cases callable : other.isCallable
      · rw [callable] at same
        cases same
      · rw [callable] at same
        cases same
        exact ⟨gives, callable⟩
  · rintro ⟨gives, callable⟩
    exact .inr ⟨function, middle, gives, (if_pos callable).symm⟩

private theorem comes_callable_error_iff {failure : Failure} {left : State} :
    Comes (fun bound => callable (run host bound) Syntax.partialToken callee) state
        (.error failure left) ↔
      Gives host (.tree callee) state (.error failure left) ∨
        ∃ other, Gives host (.tree callee) state (.ok other left) ∧ other.isCallable = false ∧
          failure = .error uncallable := by
  rw [comes_callable_iff tame]
  constructor
  · rintro (⟨_, _, gives, same⟩ | ⟨other, at_, gives, same⟩)
    · cases same
      exact .inl gives
    · cases callable : other.isCallable
      · rw [callable] at same
        cases same
        exact .inr ⟨other, gives, callable, rfl⟩
      · rw [callable] at same
        cases same
  · rintro (gives | ⟨other, gives, callable, rfl⟩)
    · exact .inl ⟨failure, left, gives, rfl⟩
    · exact .inr ⟨other, left, gives, by rw [callable]; rfl⟩

private theorem prolongs_supply (function : Value) : Prolongs fun bound =>
    (templatesOf right).mapM (fixTemplate (run host bound)) >>= fun fixed =>
      supply function fixed right :=
  (prolongs_templates tame _).bind fun fixed => prolongs_const (supply function fixed right)

include native

omit tame in
/-- Within a bound, the operation is what `'` does. -/
private theorem gives_partial_iff (result : EStateM.Result Failure State Value) :
    Gives host (.tree (.operation Syntax.partialToken callee right)) state result ↔
      Comes (fun bound => callable (run host bound) Syntax.partialToken callee >>= fun function =>
        (templatesOf right).mapM (fixTemplate (run host bound)) >>= fun fixed =>
          supply function fixed right) state result := by
  simp only [← partialApplication_eq]
  refine gives_step_iff fun bound => ?_
  rw [(stages_run host).tree]
  exact operation_of_native (by decide) native

theorem gives_creates_iff {value : Value} {after : State} :
    Gives host (.tree (.operation Syntax.partialToken callee right)) state (.ok value after) ↔
      ∃ function fixed, Creates host state callee right function fixed value after := by
  rw [gives_partial_iff native, comes_bind_ok_iff (prolongs_callable tame callee)
    (prolongs_supply tame right)]
  simp only [comes_callable_ok_iff tame, comes_bind_ok_iff (prolongs_templates tame _)
    fun fixed => prolongs_const (supply _ fixed right), comes_fixes_iff tame, comes_const_iff]
  constructor
  · rintro ⟨function, middle, ⟨gives, callable⟩, fixed, reached, fixes, same, _⟩
    cases same
    exact ⟨function, fixed, middle, reached, gives, callable, fixes, rfl, rfl⟩
  · rintro ⟨function, fixed, middle, reached, gives, callable, fixes, rfl, rfl⟩
    exact ⟨function, middle, ⟨gives, callable⟩, fixed, reached, fixes, rfl, nofun⟩

theorem gives_refuses_iff {failure : Failure} {left : State} :
    Gives host (.tree (.operation Syntax.partialToken callee right)) state (.error failure left) ↔
      Refuses host state callee right failure left := by
  rw [gives_partial_iff native, comes_bind_error_iff (prolongs_callable tame callee)
    (prolongs_supply tame right)]
  simp only [comes_callable_ok_iff tame, comes_callable_error_iff tame,
    comes_bind_error_iff (prolongs_templates tame _)
      fun fixed => prolongs_const (supply _ fixed right), comes_breaks_iff tame, comes_const_iff]
  rw [Refuses, ← or_assoc]
  refine or_congr_right (exists_congr fun function => exists_congr fun middle => ?_)
  rw [and_assoc]
  refine and_congr_right fun _ => and_congr_right fun _ => ⟨?_, .inl⟩
  rintro (breaks | ⟨_, _, _, same, _⟩)
  · exact breaks
  · cases same

end Creation

/-! ## Filled templates -/

/-- Arguments that come from templates: what is fixed stands in its place, the slots have taken the
first of the further arguments one after the other, and the rest of these comes behind. -/
structure Fills (fixed : List (Option Value)) (arguments filled : List Value) : Prop where
  kept : ∀ {index : Nat} {value : Value}, fixed[index]? = some (some value) →
    filled[index]? = some value
  taken : ∀ {index : Nat}, fixed[index]? = some none →
    filled[index]? = arguments[slotCount (fixed.take index)]?
  surplus : filled.drop fixed.length = arguments.drop (slotCount fixed)

theorem slotCount_cons (first : Option Value) (fixed : List (Option Value)) :
    slotCount (first :: fixed) = slotCount fixed + if first.isNone then 1 else 0 :=
  List.countP_cons

theorem fills_fillSlots {fixed : List (Option Value)} {arguments : List Value}
    (enough : slotCount fixed ≤ arguments.length) :
    Fills fixed arguments (fillSlots fixed arguments) := by
  induction fixed generalizing arguments with
  | nil => exact ⟨nofun, nofun, rfl⟩
  | cons first fixed inductionHypothesis =>
      cases first with
      | some value =>
          obtain ⟨kept, taken, surplus⟩ := inductionHypothesis enough
          refine ⟨fun {index _} found => ?_, fun {index} found => ?_, surplus⟩
          · cases index with
            | zero => exact Option.some.inj found
            | succ index => exact kept found
          · cases index with
            | zero => cases found
            | succ index => exact taken found
      | none =>
          rw [slotCount_cons] at enough
          obtain _ | ⟨argument, arguments⟩ := arguments
          · cases enough
          · obtain ⟨kept, taken, surplus⟩ := inductionHypothesis (Nat.le_of_succ_le_succ enough)
            refine ⟨fun {index _} found => ?_, fun {index} found => ?_, ?_⟩
            · cases index with
              | zero => cases found
              | succ index => exact kept found
            · cases index with
              | zero => rfl
              | succ index =>
                  rw [List.take_succ_cons, slotCount_cons]
                  exact taken found
            · rw [slotCount_cons]
              exact surplus

/-! ## Application -/

/-- A value does what a callable does with filled templates, if there are enough arguments to fill
them. It refuses fewer arguments, and then does nothing. -/
structure Supplies (host : Host) (value function : Value) (fixed : List (Option Value))
    (there : State) (arguments : List Value) : Prop where
  refuses : arguments.length < slotCount fixed → ∀ bound steps,
    let refused : EStateM.Result Failure State Value := .error (.error (.argumentCount
      ("at least " ++ toString (slotCount fixed)) arguments.length)) there
    run host (bound + 1) (.application value arguments) there = refused ∧
      run host (bound + 1) (.scopedApplication steps value arguments) there = refused
  fills : slotCount fixed ≤ arguments.length → Fills fixed arguments (fillSlots fixed arguments)
  applies : slotCount fixed ≤ arguments.length → ∀ result,
    Gives host (.application value arguments) there result ↔
      Gives host (.application function (fillSlots fixed arguments)) there result
  appliesAround : slotCount fixed ≤ arguments.length → ∀ steps result,
    Gives host (.scopedApplication steps value arguments) there result ↔
      ∃ inner, Gives host (.application function (fillSlots fixed arguments))
          (there.outward steps) inner ∧
        result = leaving (there.back steps) inner

section Supplying

variable {host : Host} {there : State} {handle : Nat} {function : Value}
  {fixed : List (Option Value)}
  (action : (there.heap.builtin handle).action = .supply function fixed)
  (arguments : List Value) (fresh : Bool)
include action

private theorem call_of_few (few : arguments.length < slotCount fixed)
    (interpreter : Interpreter) :
    call host interpreter fresh (.builtin handle) arguments there =
      .error (.error (.argumentCount
        ("at least " ++ toString (slotCount fixed)) arguments.length)) there := by
  show callBuiltin host interpreter (there.heap.builtin handle) arguments there = _
  unfold callBuiltin
  rw [action]
  dsimp only
  rw [if_pos few]
  rfl

private theorem call_of_enough (enough : slotCount fixed ≤ arguments.length)
    (interpreter : Interpreter) :
    call host interpreter fresh (.builtin handle) arguments there =
      interpreter.apply function (fillSlots fixed arguments) there := by
  show callBuiltin host interpreter (there.heap.builtin handle) arguments there = _
  unfold callBuiltin
  rw [action]
  dsimp only
  rw [if_neg (Nat.not_lt.mpr enough)]

/-- A builtin that supplies a callable does so wherever it is applied. -/
theorem supplies_of_action (tame : host.Tame) :
    Supplies host (.builtin handle) function fixed there arguments where
  refuses few bound steps := by
    refine ⟨call_of_few action arguments true few _, ?_⟩
    have outside : ((there.outward steps).heap.builtin handle).action = .supply function fixed :=
      action
    exact inAncestor_of_unchanged (call_of_few outside arguments false few _)
  fills enough := fills_fillSlots enough
  applies enough result :=
    gives_step_iff fun bound => call_of_enough action arguments true enough (run host bound)
  appliesAround enough steps result := by
    have outside : ((there.outward steps).heap.builtin handle).action = .supply function fixed :=
      action
    have bracket (bound : Nat) :
        run host (bound + 1) (.scopedApplication steps (.builtin handle) arguments) there =
          leaving (there.back steps)
            (run host bound (.application function (fillSlots fixed arguments))
              (there.outward steps)) :=
      (ensuring_eq_leaving _ _ _).trans
        (congrArg _ (call_of_enough outside arguments false enough (run host bound)))
    exact gives_leaving_iff tame bracket result

end Supplying

/-! ## Later states -/

section Later

variable {host : Host} {state : State}

/-- There are as many gaps as there were slots. -/
theorem Fixes.slotCount_eq {templates : List Node} {fixed : List (Option Value)} {reached : State}
    (fixes : Fixes host state templates fixed reached) :
    slotCount fixed = templates.countP fun template => decide (IsSlot template) := by
  induction fixes with
  | nil state => rfl
  | slot slot _ inductionHypothesis =>
      rw [slotCount_cons, List.countP_cons, inductionHypothesis, decide_eq_true slot]
      rfl
  | tree tree _ _ inductionHypothesis =>
      rw [slotCount_cons, List.countP_cons, inductionHypothesis, decide_eq_false tree]
      rfl

variable (oblivious : host.Oblivious)
include oblivious

theorem Gives.later {request : Request} {value : Value} {reached : State}
    (gives : Gives host request state (.ok value reached)) : state.heap.Later reached.heap := by
  obtain ⟨bound, ran, _⟩ := gives
  have reaches := Passage.reaches_run oblivious bound request state
  rw [after_of_ok ran] at reaches
  exact reaches.heap

theorem Fixes.later {templates : List Node} {fixed : List (Option Value)} {reached : State}
    (fixes : Fixes host state templates fixed reached) : state.heap.Later reached.heap := by
  induction fixes with
  | nil state => exact .refl _
  | slot _ _ inductionHypothesis => exact inductionHypothesis
  | tree _ gives _ inductionHypothesis =>
      exact (Gives.later oblivious gives).trans inductionHypothesis

theorem Creates.later {callee right : Node} {function value : Value}
    {fixed : List (Option Value)} {after : State}
    (creates : Creates host state callee right function fixed value after) :
    state.heap.Later after.heap := by
  obtain ⟨middle, reached, gives, _, fixes, _, rfl⟩ := creates
  exact ((Gives.later oblivious gives).trans (fixes.later oblivious)).trans
    ⟨Nat.le_refl _, by simp [supplied]⟩

end Later

/-- What was made by `'` supplies the callable wherever no builtin was lost since. -/
theorem Creates.supplies {host : Host} (tame : host.Tame) {state : State} {callee right : Node}
    {function value : Value} {fixed : List (Option Value)} {after : State}
    (creates : Creates host state callee right function fixed value after) {there : State}
    (later : after.heap.Later there.heap) (arguments : List Value) :
    Supplies host value function fixed there arguments := by
  obtain ⟨middle, reached, _, _, _, rfl, rfl⟩ := creates
  refine supplies_of_action ?_ arguments tame
  rw [later.builtin (by simp [supplied])]
  unfold supplied Heap.builtin
  simp

/-- `'` evaluates the callee, then each template that is no slot, from left to right, once each.
Wherever its value is applied later, it refuses fewer arguments than there are slots; with enough of
them, it does what the callable does with the filled templates. So it is with values that `'` makes
of such values, where the templates of one fill those of the other. -/
theorem partialApplication_gives {host : Host} (tame : host.Tame) (oblivious : host.Oblivious)
    {state : State} (native : state.scope.operators.implementations.get? Syntax.partialToken = none)
    (callee right : Node) :
    let request : Request := .tree (.operation Syntax.partialToken callee right)
    (∀ value after, Gives host request state (.ok value after) ↔
      ∃ function fixed, Creates host state callee right function fixed value after) ∧
    (∀ failure left, Gives host request state (.error failure left) ↔
      Refuses host state callee right failure left) ∧
    ∀ {function value fixed after}, Creates host state callee right function fixed value after →
      slotCount fixed = (templatesOf right).countP (fun template => decide (IsSlot template)) ∧
      (∀ {there : State}, after.heap.Later there.heap →
        (∀ arguments, Supplies host value function fixed there arguments) ∧
        ∀ bound request, after.heap.Later ((run host bound request).after there).heap) ∧
      ∀ {state' callee' right' fixed' value' after'}, after.heap.Later state'.heap →
        Creates host state' callee' right' value fixed' value' after' →
        ∀ {there : State}, after'.heap.Later there.heap → ∀ arguments,
          slotCount fixed' ≤ arguments.length →
          slotCount fixed ≤ (fillSlots fixed' arguments).length → ∀ result,
            Gives host (.application value' arguments) there result ↔
              Gives host (.application function (fillSlots fixed (fillSlots fixed' arguments)))
                there result := by
  refine ⟨fun value after => gives_creates_iff tame native callee right,
    fun failure left => gives_refuses_iff tame native callee right,
    fun {function value fixed after} creates => ⟨?_, fun {there} later => ⟨?_, ?_⟩, ?_⟩⟩
  · obtain ⟨_, _, _, _, fixes, _, _⟩ := creates
    exact fixes.slotCount_eq
  · exact creates.supplies tame later
  · intro bound request
    exact later.trans (Passage.reaches_run oblivious bound request there).heap
  · intro state' callee' right' fixed' value' after' later creates' there later' arguments enough
      enough' result
    have since : after.heap.Later there.heap :=
      later.trans ((creates'.later oblivious).trans later')
    exact ((creates'.supplies tame later' arguments).applies enough result).trans
      ((creates.supplies tame since (fillSlots fixed' arguments)).applies enough' result)

/-- `f ' [_, f]`, bound to `p`, and then `p ' _`, applied to zero. -/
theorem partialApplication_gives_twice :
    let host := CommandLine.host (CommandLine.listedFiles [])
    let f : Node := .identifier "f"
    let slot : Node := .identifier slotName
    let function : Function := ⟨["first", "second"], .identifier "first", ∅, false, []⟩
    let before : State := .initial (Scope.empty.bind "f" (.function 0))
      { Heap.empty with functions := #[function] }
    let after := supplied (.function 0) [none, some (.function 0)] (.list [slot, f]) before
    let before' := { after with scope := after.scope.bind "p" (.builtin 0) }
    let after' := supplied (.builtin 0) [none] slot before'
    before.scope.operators.implementations.get? Syntax.partialToken = none ∧
    Creates host before f (.list [slot, f]) (.function 0) [none, some (.function 0)]
      (.builtin 0) after ∧
    after.heap.Later before'.heap ∧
    Creates host before' (.identifier "p") slot (.builtin 0) [none] (.builtin 1) after' ∧
    ∀ result, Gives host (.application (.builtin 1) [.zero]) after' result ↔
      Gives host (.application (.function 0) [.zero, .function 0]) after' result := by
  intro host f slot function before after before' after'
  have fixes : Fixes host before [slot, f] [none, some (.function 0)] before :=
    .slot rfl (.tree (by decide) ⟨1, rfl, nofun⟩ (.nil _))
  have creates : Creates host before f (.list [slot, f]) (.function 0)
      [none, some (.function 0)] (.builtin 0) after :=
    ⟨before, before, ⟨1, rfl, nofun⟩, rfl, fixes, rfl, rfl⟩
  have creates' : Creates host before' (.identifier "p") slot (.builtin 0) [none] (.builtin 1)
      after' :=
    ⟨before', before', ⟨1, rfl, nofun⟩, rfl, .slot rfl (.nil _), rfl, rfl⟩
  have native : before.scope.operators.implementations.get? Syntax.partialToken = none := rfl
  obtain ⟨_, _, supplies⟩ := partialApplication_gives
    (Host.tame_commandLine (CommandLine.listedFiles []))
    (Host.oblivious_commandLine (CommandLine.listedFiles [])) native f (.list [slot, f])
  obtain ⟨_, _, composes⟩ := supplies creates
  have remains : after.heap.Later before'.heap := .refl _
  exact ⟨native, creates, remains, creates', composes remains creates' (.refl _) [.zero]
    (Nat.le_refl _) (Nat.le_refl _)⟩

end Eval

end Fixity
