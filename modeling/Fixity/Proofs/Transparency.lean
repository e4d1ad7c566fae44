import Fixity.Proofs.Expansion
import Fixity.Proofs.Indifference

/-!
Contract: control structures in the place of the trees that they stand for.

Owns:
- `Eval.Unlimited.more`: an evaluation that ends without meeting the limit of calls does so however
  great its bound is;
- `Control.InPlace`, what it means that `name @- clauses` does what a tree does in its place;
- `State.Controls.expands_in_place`: where the limit of calls is not met, it does what the tree does
  that it stands for;
- `Control.sample`, a state with a small library that has the control structures.

Does not own: that the standard library has these control structures.
-/

namespace Fixity

open Eval

/-! ## The limit of calls -/

/-- Under a watch for the limit, too, a greater bound makes no difference, unless the smaller one is
reached. -/
theorem Watch.limit_sooner {host : Host} (tame : host.Tame) (instead : Eval Value)
    {bound more : Nat} (le : bound ≤ more) :
    Comparison.sooner.Agree ((limit instead).run host bound ())
      ((limit instead).run host more ()) := by
  induction bound generalizing more with
  | zero => exact fun request state _ => .inl ⟨trivial, state, rfl⟩
  | succ bound inductionHypothesis =>
      cases more with
      | zero => cases le
      | succ more =>
          have fewer : bound ≤ more := Nat.le_of_succ_le_succ le
          have agree : Comparison.sooner.Agree ((limit instead).run host bound ())
              ((limit instead).run host more ()) := inductionHypothesis fewer
          have step := Comparison.nested_sooner.agree_step agree
            (tame _ _ _ Comparison.nested_sooner.toLawful agree) (.inr ⟨trivial, fewer⟩)
          intro request state valid
          unfold Comparison.HoldsAt
          rw [run_succ, run_succ]
          split
          · exact .inr ⟨rfl, trivial⟩
          · exact step request state valid

/-- An evaluation that ends without meeting the limit does so however great its bound is. -/
theorem Eval.Unlimited.more {host : Host} (tame : host.Tame) {bound more : Nat} {request : Request}
    {state : State} (unlimited : Unlimited host bound request state)
    (finished : ∀ left, run host bound request state ≠ .error .exhausted left)
    (le : bound ≤ more) : Unlimited host more request state := by
  intro instead
  have watched : (Watch.limit instead).run host more () request state =
      (Watch.limit instead).run host bound () request state := by
    obtain ⟨_, left, stopped⟩ | same := Watch.limit_sooner tame instead le request state trivial
    · exact absurd ((unlimited instead).symm.trans stopped) (finished left)
    · exact same.1.symm
  have direct : run host more request state = run host bound request state := by
    obtain ⟨_, left, stopped⟩ | same := run_sooner tame le request state trivial
    · exact absurd stopped (finished left)
    · exact same.1.symm
  rw [watched, direct]
  exact unlimited instead

/-- An evaluation that ends within a bound that is not greater than the number of calls that are
left never meets the limit. -/
theorem Eval.unlimited_of_finished {host : Host} (tame : host.Tame) {bound : Nat}
    {request : Request} {state : State} (room : state.depth + bound ≤ maxDepth)
    (finished : ∀ left, run host bound request state ≠ .error .exhausted left) (more : Nat) :
    Unlimited host more request state := by
  obtain le | le := Nat.le_total more bound
  · exact unlimited_of_bound tame (by omega) request
  · exact (unlimited_of_bound tame room request).more tame finished le

/-- Evaluation under a watch that stops with a failure where the limit is met. -/
def Eval.Course.limited (host : Host) (failure : Failure) : Course host where
  stage bound := (Watch.limit (throw failure)).run host bound ()
  stages := stages_limit host _
  failure := failure
  beyond := by
    intro handle arguments state accepts tooDeep bound
    have forbidden : (Watch.limit (throw failure)).forbidden ()
        (.application (.function handle) arguments) state := by
      show (_ && decide (maxDepth < state.depth + 1)) = true
      rw [decide_eq_true tooDeep, Bool.and_true]
      exact accepts
    rw [Watch.run_succ, if_pos forbidden]
    rfl

/-- Further cells behind those of a state, with certain trees first, and no calls. -/
structure Relocation.Trails (added : Relocation) (state : State) (trees : List Node) : Prop where
  behind : added.start = state.heap.extent
  first : trees <+: added.nodes.cells
  uncounted : added.calls = 0

/-- The first of the further trees come right behind those that were there. -/
theorem Relocation.Trails.getElem? {added : Relocation} {state : State} {trees : List Node}
    (trails : added.Trails state trees) {heap : Heap} (within : state.heap.Within heap)
    {index : Nat} {tree : Node} (found : trees[index]? = some tree) :
    (added.heap heap).nodes[state.heap.nodes.size + index]? = some tree := by
  have start : added.nodes.start = state.heap.nodes.size := congrArg Extent.nodes trails.behind
  have fits : added.nodes.start ≤ heap.nodes.size := start ▸ within.nodes
  obtain ⟨inside, here⟩ := List.getElem?_eq_some_iff.mp found
  have further : added.nodes.cells[index]? = some tree :=
    (List.prefix_iff_getElem?.mp trails.first index inside).trans (congrArg some here)
  obtain ⟨among, _⟩ := List.getElem?_eq_some_iff.mp further
  rw [← start]
  exact (Gap.getElem?_further fits among).trans further

/-- `name @- clauses` does what a tree does that is evaluated in its place: it comes to the same
value or the same error, with the same effects on the bindings and on the cells of the state. The
cells that were added to make the tree come in between those and the ones that are made on the way,
whose handles are greater; nothing leads to them. The tree of the clauses, which is one of them,
stays what it is. -/
def Control.InPlace (host : Host) (state : State) (name : String) (clauses tree : Node) : Prop :=
  let operation : Request := .tree (.operation "@-" (.identifier name) clauses)
  ∃ added : Relocation, added.Trails state [.identifier name, clauses] ∧
    ∀ result,
      (Eval.Gives host operation state result ↔
        ∃ inner, Eval.Gives host (.tree tree) state inner ∧ result = added.result inner) ∧
      (Eval.Gives host operation state result →
        (ended result).heap.nodes[state.heap.nodes.size + 1]? = some clauses)

namespace State.Controls

variable {host : Host} {state : State} {name : String} {clauses tree : Node}

section Bounded

variable (controls : state.Controls) (unaware : host.Unaware) (closed : state.Closed)
  (expands : Control.Expands name clauses tree)
include controls unaware closed expands

/-- Under a watch for the limit, the operation gives up or does what the tree does. -/
private theorem run_watched {failure : Failure} (final : ∀ error, failure ≠ .error error) :
    ∃ least, ∀ bound, least ≤ bound →
      let watched := (Watch.limit (throw failure)).run host (bound + 4) ()
        (.tree (.operation "@-" (.identifier name) clauses)) state
      (∃ left, watched = .error failure left) ∨
        ∃ added : Relocation, added.Trails state [.identifier name, clauses] ∧
          watched = added.result (run host bound (.tree tree) state) := by
  let course : Course host := .limited host failure
  obtain ⟨least, gaveUp | ⟨heap, grows, room, runs⟩⟩ :=
    @stage_expansion _ course _ _ _ _ controls expands
  · exact ⟨least, fun bound enough => .inl (gaveUp bound enough)⟩
  · refine ⟨least, fun bound enough => ?_⟩
    have grown : state.heap.Grows heap :=
      ((Heap.Grows.push_node _ _).trans (.push_node _ _)).trans grows
    let added (calls : Nat) : Relocation := .growth state.heap heap calls
    have operands : [.identifier name, clauses] <+: (added 0).nodes.cells := by
      have trees := grows.nodes.drop state.heap.nodes.size
      rwa [show (state.operands (.identifier name) clauses).heap.nodes.toList =
        state.heap.nodes.toList ++ [.identifier name, clauses] by simp [State.operands],
        List.drop_left' (Array.length_toList)] at trees
    let t : Transfer := ⟨added 1, (· = failure), fun error same => final error same.symm⟩
    have tracked := t.agree_run (Transfer.guards_limit rfl) unaware bound (.tree tree) state
      trivial (closed.suits (.refl _))
    have entered : t.relocation.state state =
        { state with heap := heap, depth := state.depth + 1 } := closed.grown grown 1
    rw [entered] at tracked
    have whole := runs bound enough
    rw [ensuring_eq_leaving] at whole
    obtain ⟨other, left, gives, stopped⟩ | same := tracked.gaveUp_or_result
    · have same : other = failure := gives
      rw [same] at stopped
      exact .inl ⟨leaveCall left, whole.trans (congrArg (leaving leaveCall) stopped)⟩
    · refine .inr ⟨added 0, ⟨rfl, operands, rfl⟩, whole.trans ?_⟩
      exact (congrArg (leaving leaveCall) same).trans (Relocation.leaving_result_growth _ _ 0 _)

/-- Where the limit of calls is not reached, the operation does what the tree does. -/
theorem run_unlimited :
    let operation : Request := .tree (.operation "@-" (.identifier name) clauses)
    ∃ least, ∀ bound, least ≤ bound → Unlimited host (bound + 4) operation state →
      ∃ added : Relocation, added.Trails state [.identifier name, clauses] ∧
        run host (bound + 4) operation state =
          added.result (run host bound (.tree tree) state) := by
  intro operation
  obtain ⟨least, exhausts⟩ := run_watched controls unaware closed expands
    (show ∀ error, Failure.exhausted ≠ .error error from nofun)
  obtain ⟨least', conflicts⟩ := run_watched controls unaware closed expands
    (show ∀ error, Failure.conflict ≠ .error error from nofun)
  refine ⟨max least least', fun bound enough unlimited => ?_⟩
  have exhausts := exhausts bound (by omega)
  have conflicts := conflicts bound (by omega)
  dsimp only at exhausts conflicts
  rw [unlimited (throw _)] at exhausts conflicts
  -- An evaluation that gives up in two different ways does not give up.
  obtain ⟨_, exhausted⟩ | same := exhausts
  · obtain ⟨_, conflict⟩ | same := conflicts
    · cases exhausted.symm.trans conflict
    · exact same
  · exact same

end Bounded

/-- Where the limit of calls is not reached, `name @- clauses` does what the tree does that it stands
for. -/
theorem expands_in_place (controls : state.Controls) (tame : host.Tame) (unaware : host.Unaware)
    (closed : state.Closed) (expands : Control.Expands name clauses tree)
    (unlimited : ∀ bound,
      Unlimited host bound (.tree (.operation "@-" (.identifier name) clauses)) state) :
    Control.InPlace host state name clauses tree := by
  unfold Control.InPlace
  intro operation
  obtain ⟨least, same⟩ := run_unlimited controls unaware closed expands
  have same (bound : Nat) (enough : least ≤ bound) := same bound enough (unlimited _)
  by_cases ends : ∃ inner, Eval.Gives host (.tree tree) state inner
  · obtain ⟨inner, gives⟩ := ends
    obtain ⟨later, runs⟩ := gives.eventually tame
    obtain ⟨added, trails, ran⟩ := same (max least later) (Nat.le_max_left _ _)
    rw [runs _ (Nat.le_max_right _ _)] at ran
    have whole : Eval.Gives host operation state (added.result inner) := by
      obtain ⟨_, _, finished⟩ := gives
      refine ⟨_, ran, fun left stopped => ?_⟩
      obtain ⟨left', stopped⟩ := Relocation.result_eq_exhausted stopped
      exact finished left' stopped
    have within : state.heap.Within (ended inner).heap := by
      rw [← runs later (Nat.le_refl _), ← after_eq_ended]
      exact (closed.run unaware later tree).2.heap
    refine ⟨added, trails, fun result => ⟨⟨fun gives' => ⟨inner, gives, gives'.unique tame whole⟩,
      ?_⟩, fun gives' => ?_⟩⟩
    · rintro ⟨inner', gives', rfl⟩
      rw [gives'.unique tame gives]
      exact whole
    · rw [gives'.unique tame whole, Relocation.ended_result]
      exact trails.getElem? within rfl
  · -- What the operation comes to, the tree comes to; here both come to nothing.
    have never (result : EStateM.Result Failure State Value) :
        ¬ Eval.Gives host operation state result := by
      intro gives
      obtain ⟨later, runs⟩ := gives.eventually tame
      obtain ⟨added, _, ran⟩ := same (max least later) (Nat.le_max_left _ _)
      have reached : run host (max least later + 4) operation state = result :=
        runs _ (by omega)
      obtain ⟨_, _, finished⟩ := gives
      refine ends ⟨_, max least later, rfl, fun left stopped =>
        finished (added.state left) ?_⟩
      exact reached.symm.trans (ran.trans (congrArg added.result stopped))
    obtain ⟨added, trails, _⟩ := same least (Nat.le_refl _)
    exact ⟨added, trails, fun result => ⟨⟨fun gives => absurd gives (never result),
      fun ⟨inner, gives, _⟩ => absurd ⟨inner, gives⟩ ends⟩, fun gives => absurd gives
        (never result)⟩⟩

end State.Controls

/-! ## A small library -/

namespace Control

/-- The functions of a small library under their names. -/
def handles : List (String × Value) :=
  [("cond", .function 6), ("eval_ast", .builtin 0), ("for", .function 5), ("if", .function 3),
    ("ifelse", .function 2), ("len", .builtin 7), ("map", .builtin 4), ("nodelist", .function 1),
    ("nodeop", .function 0), ("push", .builtin 5), ("setleft", .builtin 1),
    ("setop", .builtin 3), ("setright", .builtin 2), ("slice", .builtin 6),
    ("while", .function 4)]

/-- The function under a name. -/
def library (name : String) : Value := (handles.lookup name).getD .zero

/-- The names with their functions. -/
def bindings : Bindings := ⟨handles.map fun entry => (entry.1, [entry.2]), by decide⟩

/-- Each of the names means its function where they were defined. -/
theorem remembers_bindings {name : String}
    (listed : name ∈ handles.map (·.1)) : Remembers bindings name (library name) := by
  simp only [handles, List.map_cons, List.map_nil, List.mem_cons, List.not_mem_nil, or_false]
    at listed
  rcases listed with rfl | rfl | rfl | rfl | rfl | rfl | rfl | rfl | rfl | rfl | rfl | rfl | rfl |
    rfl | rfl <;> rfl

/-- A state with the control structures, in which `a` and `b` are numbers. -/
def sample : State :=
  let function (routine : Routine) : Function :=
    ⟨routine.params, routine.body, bindings, routine.variadic, [routine.name]⟩
  let heap : Heap :=
    { Heap.empty with
      functions := (routines.map function).toArray.push
        ⟨["f", "g"], .expanding, bindings, false, []⟩
      builtins := #[⟨evaluatorName, .native .evalAst⟩, ⟨"setleft", .native (.setOperand .left)⟩,
        ⟨"setright", .native (.setOperand .right)⟩, ⟨"setop", .native .setop⟩,
        ⟨"map", .native .map⟩, ⟨"push", .native .push⟩, ⟨"slice", .native .slice⟩,
        ⟨"len", .native .len⟩, ⟨"get", .native .get⟩] }
  let operators : OperatorTable :=
    { OperatorTable.initial with
      implementations := ⟨[("::", ⟨.builtin 8, true⟩), ("@-", ⟨.function 7, false⟩)], by decide⟩ }
  .initial ⟨(bindings.insert "a" [.zero]).insert "b" [.number .one], operators⟩ heap

/-- Its control structures are those of the standard library. -/
def sampleControls : sample.Controls where
  library := library
  equipped :=
    { natives := by
        intro entry known
        simp only [natives, List.mem_cons, List.not_mem_nil, or_false] at known
        rcases known with rfl | rfl | rfl | rfl | rfl | rfl | rfl <;> exact ⟨_, _, rfl, rfl⟩
      routines := by
        intro routine known
        have uses : ∀ use ∈ routine.uses, use ∉ [routine.name] ∧ use ∈ handles.map (·.1) := by
          revert routine
          decide
        have cell : ∃ handle, library routine.name = .function handle ∧
            sample.heap.functions[handle]? = some
              ⟨routine.params, routine.body, bindings, routine.variadic, [routine.name]⟩ := by
          simp only [routines, List.mem_cons, List.not_mem_nil, or_false] at known
          rcases known with rfl | rfl | rfl | rfl | rfl | rfl | rfl <;> exact ⟨_, rfl, rfl⟩
        obtain ⟨handle, known, cell⟩ := cell
        exact ⟨handle, _, _, known, cell, List.mem_singleton_self _, fun use member =>
          ⟨(uses use member).1, remembers_bindings (uses use member).2⟩⟩
      native := by decide
      indexing := ⟨_, rfl, _, _, rfl, rfl⟩ }
  expanding := ⟨7, 0, _, [], rfl, rfl, rfl, rfl⟩
  outward := rfl
  named := by
    intro name known
    simp only [List.mem_cons, List.not_mem_nil, or_false] at known
    rcases known with rfl | rfl | rfl | rfl | rfl <;> rfl

theorem closed_sample : sample.Closed := by
  have held (dict : Bindings)
      (each : ∀ entry ∈ dict.entries, ∀ value ∈ entry.2, sample.heap.Holds value) :
      Held sample.heap dict :=
    fun _ _ found => each _ ((Dict.get?_eq_some_iff _).mp found)
  have operators : ∀ entry ∈ sample.scope.operators.implementations.entries,
      sample.heap.Holds entry.2.function := by decide
  refine ⟨⟨?_, ?_, ?_, ?_⟩, ⟨held _ (by decide), ?_⟩, ?_⟩
  · exact fun _ member => absurd member (Array.not_mem_empty _)
  · exact fun _ member => absurd member (Array.not_mem_empty _)
  · have known : ∀ function ∈ sample.heap.functions, function.closure = bindings := by
      simp [sample, State.initial, routines]
    intro function member
    show Held sample.heap function.closure
    rw [known function member]
    exact held _ (by decide)
  · have native : ∀ builtin ∈ sample.heap.builtins, ∃ native, builtin.action = .native native := by
      simp [sample, State.initial]
    intro builtin member
    obtain ⟨native, same⟩ := native builtin member
    show Held sample.heap builtin.action
    rw [same]
    trivial
  · exact fun _ _ found => operators _ ((Dict.get?_eq_some_iff _).mp found)
  · exact fun _ member => absurd member List.not_mem_nil

/-- Two clauses, of which the second one applies. -/
def pairs : List (Node × Node) :=
  [(.identifier "a", .identifier "a"), (.identifier "b", .identifier "b")]

/-- Whether an evaluation has come to a number other than zero. -/
def isNonzero : EStateM.Result Failure State Value → Bool
  | .ok (.number number) _ => !number.isZero
  | _ => false

/-- The whole of `cond @- [[a, a], [b, b]]`, on the command line. -/
theorem unlimited_sample (bound : Nat) :
    Unlimited (CommandLine.host (CommandLine.listedFiles [])) bound
      (.tree (.operation "@-" (.identifier "cond")
        (.list (pairs.map fun clause => .list [clause.1, clause.2])))) sample := by
  let host := CommandLine.host (CommandLine.listedFiles [])
  have ended : isNonzero (run host 100 (.tree (.operation "@-" (.identifier "cond")
      (.list (pairs.map fun clause => .list [clause.1, clause.2])))) sample) = true := by
    decide +kernel
  refine unlimited_of_finished (Host.tame_commandLine _)
    (show sample.depth + 100 ≤ maxDepth by decide) (fun left stopped => ?_) bound
  rw [stopped] at ended
  cases ended

end Control

end Fixity
