import Fixity.Proofs.Lexing
import Fixity.Proofs.Sections
import Fixity.Proofs.Stepwise

/-!
Contract: the standard environment.

Owns:
- `Library.standard`, the state in which its programs start;
- `Library.useStandard_ran`: the evaluation of the standard library ends there, without an error;
- `Library.describes_standard`, what is known of this state.

Does not own: the steps of that evaluation.
-/

namespace Fixity

open Eval

/-! ## The native functions -/

/-- Whether a value is seen to have the trait of a native function or a number. -/
def Trait.evident (heap : Heap) : Trait → Value → Bool
  | .native content, .builtin handle =>
      match heap.builtins[handle]? with
      | some ⟨_, .native content'⟩ => content = content'
      | _ => false
  | .number content, .number content' => content = content'
  | _, _ => false

theorem Trait.fits_of_evident {scope : Scope} {heap : Heap} {trait : Trait} {value : Value}
    (evident : trait.evident heap value) : trait.Fits scope heap value ∧ trait.uses = [] := by
  unfold Trait.evident at evident
  split at evident
  · next content handle =>
    split at evident
    · next label content' cell =>
      obtain rfl : content = content' := of_decide_eq_true evident
      exact ⟨⟨handle, label, rfl, cell⟩, rfl⟩
    · cases evident
  · exact ⟨congrArg Value.number (of_decide_eq_true evident).symm, rfl⟩
  · cases evident

/-- Whether a state without defined operators is seen to be as described. -/
def Outline.evident (outline : Outline) (state : State) : Bool :=
  decide (state.depth = 0 ∧ state.scope.operators.levels = outline.levels ∧
      state.scope.operators.implementations.entries = []) &&
    outline.names.all (fun entry =>
      (state.scope.lookup? entry.1).any (entry.2.evident state.heap)) &&
    outline.absent.all (fun name => (state.scope.stack? name).isNone) && outline.operators.isEmpty

theorem Outline.describes_of_evident {outline : Outline} {state : State}
    (evident : outline.evident state) : outline.Describes state := by
  unfold Outline.evident at evident
  simp only [Bool.and_eq_true, decide_eq_true_eq, List.all_eq_true, Option.any_eq_true,
    Option.isNone_iff_eq_none, List.isEmpty_iff] at evident
  obtain ⟨⟨⟨⟨depth, levels, undefined⟩, names⟩, absent⟩, operators⟩ := evident
  refine ⟨depth, levels, fun {name trait} found => ?_, absent, fun {token} _ => ?_,
    fun found => ?_, fun trait member use used => ?_⟩
  · obtain ⟨value, bound, evident⟩ := names (name, trait) (mem_of_lookup found)
    exact ⟨value, bound, (Trait.fits_of_evident evident).1⟩
  · by_contra implemented
    obtain ⟨implementation, implemented⟩ := Option.ne_none_iff_exists'.mp implemented
    have listed := (Dict.get?_eq_some_iff _).mp implemented
    rw [undefined] at listed
    cases listed
  · rw [operators] at found
    cases found
  · rw [Outline.traits, operators, List.map_nil, List.append_nil] at member
    obtain ⟨entry, listed, rfl⟩ := List.mem_map.mp member
    obtain ⟨value, bound, evident⟩ := names entry listed
    rw [(@Trait.fits_of_evident state.scope _ _ _ evident).2] at used
    cases used

/-- The native functions and constants are bound in the state that the library starts in. -/
theorem Outline.exists_native : ∃ start,
    Library.useNative (.initial .empty .empty) = .ok () start ∧ native.Describes start := by
  have checked : (match Library.useNative (.initial .empty .empty) with
      | .ok _ start => native.evident start
      | .error _ _ => false) = true := by
    decide +kernel
  revert checked
  cases ran : Library.useNative (.initial .empty .empty) with
  | error failure left => nofun
  | ok _ start => exact fun evident => ⟨start, rfl, describes_of_evident evident⟩

/-! ## The whole library -/

namespace Library

/-- The state in which programs of the standard environment start. -/
def standard : State := useStandard.after (.initial .empty .empty)

private theorem evaluate_eq (host : Host) (text : String) :
    (interpreter host).evaluate text =
      source (run host (startBound - 1)) (text.length + 1) .zero text.toList := by
  have positive : startBound = startBound - 1 + 1 := by decide +kernel
  have step (bound : Nat) : run host (bound + 1) (.source text) =
      source (run host bound) (text.length + 1) .zero text.toList := rfl
  exact (congrArg (fun bound => run host bound (.source text)) positive).trans (step _)

/-- Nothing is left to evaluate behind the last statement. -/
private theorem byStatement_nil (interpreter : Interpreter) (last : Value) (state : State) :
    byStatement interpreter last [] state = .ok last state := by
  have divided : Syntax.tokenize state.scope.operators.levels.isGlyph [] = .ok [] :=
    Syntax.tokenize_eq_ok.mpr (Syntax.statementsFrom_nil _ [])
  rw [byStatement_eq last rfl, divided]

/-- A text that leads from one outline to another one is evaluated without an error. -/
theorem exists_evaluated {outline next : Outline} {text : String} {start : State}
    (leads : ∀ bound, outline.Leads (run noHost (bound + 2 + Outline.nesting + 2)) text.toList
      next []) (describes : outline.Describes start) :
    ∃ last reached, (interpreter noHost).evaluate text start = .ok last reached ∧
      next.Describes reached := by
  obtain ⟨bound, deep⟩ : ∃ bound, startBound - 1 = bound + 2 + Outline.nesting + 2 :=
    ⟨startBound - 1 - (2 + Outline.nesting + 2), by decide +kernel⟩
  obtain ⟨reached, last, described, same⟩ := leads bound start .zero describes
  have outside : Host.Keeps (State.TablesRelated OperatorTable.Precedes) noHost :=
    fun _ _ _ _ state => OperatorTable.Precedes.frame.refl state
  have within := OperatorTable.Precedes.frame.keeps_run outside (startBound - 1)
  have longEnough : text.toList.length < text.length + 1 := by
    rw [String.length_toList]
    exact Nat.lt_succ_self _
  refine ⟨last, reached, ?_, described⟩
  rw [evaluate_eq, source_eq_byStatement within _ _ _ longEnough, deep, same, byStatement_nil]

/-- The evaluation of the standard library ends without an error, in a state that is known. -/
theorem exists_standard : ∃ reached,
    useStandard (.initial .empty .empty) = .ok () reached ∧ Outline.library.Describes reached := by
  obtain ⟨start, ran, describes⟩ := Outline.exists_native
  obtain ⟨last, reached, evaluated, described⟩ :=
    exists_evaluated (Outline.Section.leads_library noHost) describes
  have whole {text : String} (evaluated : (interpreter noHost).evaluate text start =
      .ok last reached) : (do useNative; discard ((interpreter noHost).evaluate text) : Eval Unit)
        (.initial .empty .empty) = .ok () reached :=
    (bind_of_ok ran).trans (bind_of_ok evaluated)
  exact ⟨reached, whole evaluated, described⟩

theorem useStandard_ran : useStandard (.initial .empty .empty) = .ok () standard := by
  obtain ⟨reached, ran, -⟩ := exists_standard
  rw [standard, after_of_ok ran, ran]

theorem describes_standard : Outline.library.Describes standard := by
  obtain ⟨reached, ran, described⟩ := exists_standard
  rwa [standard, after_of_ok ran]

end Library

end Fixity
