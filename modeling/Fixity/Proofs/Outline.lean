import Fixity.Proofs.Assembly
import Fixity.Proofs.Identity

/-!
Contract: what is known of a state without its cells.

Owns:
- `Trait`, what is known of a value, and `Trait.Fits`, the values of which it is true;
- `Outline`, what is known of levels, names and operators, and `Outline.Describes`, the states of
  which it is true;
- that an outline goes on to describe a state whose heap has grown, and that it can be reduced to
  another one that says less.

Does not own: what evaluation makes of outlines.
-/

namespace Fixity

open Eval

/-! ## Values -/

/-- What is known of a function. -/
structure Code where
  params : List String
  body : Node
  variadic : Bool
  /-- The names that it was bound to. -/
  anchors : List String
  /-- Names that still have the values that it remembers. -/
  uses : List String
  /-- Names that had no value when it was defined. -/
  lacks : List String
deriving DecidableEq

/-- What is known of a value. -/
inductive Trait where
  | number (content : Number)
  | text (content : String)
  | native (native : Native)
  /-- A builtin, native or not. -/
  | builtin
  | function (code : Code)
  /-- A builtin or a function. -/
  | callable
deriving DecidableEq

/-- A function is as described. -/
structure Code.Fits (scope : Scope) (code : Code) (function : Function) : Prop where
  params : function.params = code.params
  body : function.body = code.body
  variadic : function.variadic = code.variadic
  anchors : function.anchors = code.anchors
  uses : ∀ use ∈ code.uses,
    ∃ value, scope.lookup? use = some value ∧ Remembers function.closure use value
  lacks : ∀ name ∈ code.lacks, function.closure.get? name = none

/-- Only the closure of such a function is left open. -/
theorem Code.Fits.eq {scope : Scope} {code : Code} {function : Function}
    (fits : code.Fits scope function) :
    function = ⟨code.params, code.body, function.closure, code.variadic, code.anchors⟩ := by
  rw [← fits.params, ← fits.body, ← fits.variadic, ← fits.anchors]

namespace Trait

/-- A value is as described. -/
def Fits (scope : Scope) (heap : Heap) : Trait → Value → Prop
  | .number content, value => value = .number content
  | .text content, value => heap.Provides (.text content) value
  | .native content, value => heap.IsNative content value
  | .builtin, value => ∃ handle, value = .builtin handle
  | .function code, value => ∃ handle cell,
      value = .function handle ∧ heap.functions[handle]? = some cell ∧ code.Fits scope cell
  | .callable, value => value.isCallable

/-- The names whose values matter. -/
def uses : Trait → List String
  | .function code => code.uses
  | _ => []

variable {trait : Trait} {scope scope' : Scope} {heap heap' : Heap} {value : Value}

/-- A value stays as described while cells are added and the names that matter keep their values. -/
theorem Fits.later (fits : trait.Fits scope heap value) (grows : heap.Grows heap')
    (kept : ∀ use ∈ trait.uses, ∀ value, scope.lookup? use = some value →
      scope'.lookup? use = some value) :
    trait.Fits scope' heap' value := by
  cases trait with
  | number content => exact fits
  | text content => exact Heap.Provides.grows fits grows
  | native content => exact Heap.IsNative.grows fits grows
  | builtin => exact fits
  | callable => exact fits
  | function code =>
      obtain ⟨handle, content, rfl, cell, fits⟩ := fits
      refine ⟨handle, content, rfl, Heap.getElem?_of_prefixed grows.functions cell,
        { fits with uses := fun use used => ?_ }⟩
      obtain ⟨value, found, remembers⟩ := fits.uses use used
      exact ⟨value, kept use used value found, remembers⟩

theorem Fits.grows (fits : trait.Fits scope heap value) (grows : heap.Grows heap') :
    trait.Fits scope heap' value := fits.later grows fun _ _ _ found => found

/-- Whether values with one trait can be applied. -/
def applicable : Trait → Bool
  | .native _ => true
  | .builtin => true
  | .function _ => true
  | .callable => true
  | _ => false

theorem Fits.isCallable (fits : trait.Fits scope heap value) (applies : trait.applicable) :
    value.isCallable := by
  cases trait with
  | number content => cases applies
  | text content => cases applies
  | native content => exact Heap.IsNative.isCallable fits
  | builtin =>
      obtain ⟨handle, rfl⟩ := fits
      rfl
  | callable => exact fits
  | function code =>
      obtain ⟨handle, content, rfl, cell⟩ := fits
      rfl

/-- Whether one trait says all that another one says. -/
def covers : Trait → Trait → Bool
  | .function code, .function code' =>
      { code with uses := code'.uses, lacks := code'.lacks } = code' &&
        code'.uses.all (code.uses.contains ·) && code'.lacks.all (code.lacks.contains ·)
  | .native _, .builtin => true
  | trait, .callable => trait.applicable
  | trait, trait' => trait = trait'

theorem Fits.of_covers {trait' : Trait} (fits : trait.Fits scope heap value)
    (covers : trait.covers trait') : trait'.Fits scope heap value := by
  unfold Trait.covers at covers
  split at covers
  · next code code' =>
    obtain ⟨handle, content, rfl, cell, fits⟩ := fits
    simp only [Bool.and_eq_true, decide_eq_true_eq, List.all_eq_true, List.contains_iff_mem]
      at covers
    obtain ⟨⟨same, uses⟩, lacks⟩ := covers
    refine ⟨handle, content, rfl, cell, ?_⟩
    rw [← same]
    exact { fits with
      uses := fun use used => fits.uses use (uses use used)
      lacks := fun name lacking => fits.lacks name (lacks name lacking) }
  · obtain ⟨handle, label, rfl, cell⟩ := fits
    exact ⟨handle, rfl⟩
  · exact fits.isCallable covers
  · rw [← of_decide_eq_true covers]
    exact fits

end Trait

/-! ## States -/

/-- What is known of a state. -/
structure Outline where
  levels : Syntax.Levels
  /-- Names with what is known of their values. -/
  names : List (String × Trait)
  /-- Names that have never had a value. -/
  absent : List String
  /-- All operators that a program has defined, with whether they take values. -/
  operators : List (String × Bool × Trait)

namespace Outline

/-- The names with a value. -/
def bound (outline : Outline) : List String := outline.names.map (·.1)

/-- All traits of names and operators. -/
def traits (outline : Outline) : List Trait :=
  outline.names.map (·.2) ++ outline.operators.map (·.2.2)

/-- A state is as described, and no call is under way. -/
structure Describes (outline : Outline) (state : State) : Prop where
  depth : state.depth = 0
  levels : state.scope.operators.levels = outline.levels
  names : ∀ {name trait}, outline.names.lookup name = some trait →
    ∃ value, state.scope.lookup? name = some value ∧ trait.Fits state.scope state.heap value
  absent : ∀ name ∈ outline.absent, state.scope.stack? name = none
  native : ∀ {token}, outline.operators.lookup token = none →
    state.scope.operators.implementations.get? token = none
  implemented : ∀ {token eager trait}, outline.operators.lookup token = some (eager, trait) →
    ∃ value, state.scope.operators.implementations.get? token = some ⟨value, eager⟩ ∧
      trait.Fits state.scope state.heap value
  /-- The names that matter to a trait are names with a value. -/
  known : ∀ trait ∈ outline.traits, ∀ use ∈ trait.uses, use ∈ outline.bound

theorem mem_of_lookup {Content : Type} {entries : List (String × Content)} {key : String}
    {content : Content} (found : entries.lookup key = some content) : (key, content) ∈ entries := by
  obtain ⟨before, after, rfl, -⟩ := List.lookup_eq_some_iff.mp found
  exact List.mem_append_right before List.mem_cons_self

theorem lookup_cons {Content : Type} (key : String) (content : Content)
    (entries : List (String × Content)) (other : String) :
    ((key, content) :: entries).lookup other =
      if other = key then some content else entries.lookup other := by
  by_cases same : other = key
  · rw [if_pos same, same, List.lookup_cons_self]
  · rw [if_neg same, List.lookup_cons, beq_false_of_ne same]

theorem mem_traits_of_names {outline : Outline} {name : String} {trait : Trait}
    (found : outline.names.lookup name = some trait) : trait ∈ outline.traits :=
  List.mem_append_left _ (List.mem_map.mpr ⟨_, mem_of_lookup found, rfl⟩)

theorem mem_traits_of_operators {outline : Outline} {token : String} {eager : Bool} {trait : Trait}
    (found : outline.operators.lookup token = some (eager, trait)) : trait ∈ outline.traits :=
  List.mem_append_right _ (List.mem_map.mpr ⟨_, mem_of_lookup found, rfl⟩)

namespace Describes

variable {outline : Outline} {state : State}

theorem room (describes : outline.Describes state) : state.depth < maxDepth := by
  rw [describes.depth]
  decide

theorem grows (describes : outline.Describes state) {heap : Heap} (grows : state.heap.Grows heap) :
    outline.Describes { state with heap := heap } where
  depth := describes.depth
  levels := describes.levels
  names found :=
    (describes.names found).imp fun _ ⟨bound, fits⟩ => ⟨bound, fits.grows grows⟩
  absent := describes.absent
  native := describes.native
  implemented found :=
    (describes.implemented found).imp fun _ ⟨defined, fits⟩ => ⟨defined, fits.grows grows⟩
  known := describes.known

end Describes

/-- Whether one outline says all that another one says. -/
def covers (outline outline' : Outline) : Bool :=
  outline.levels = outline'.levels &&
    outline'.names.all (fun entry => (outline.names.lookup entry.1).any (·.covers entry.2)) &&
    outline'.absent.all (outline.absent.contains ·) &&
    outline.operators.all (fun entry => (outline'.operators.lookup entry.1).isSome) &&
    outline'.operators.all (fun entry => (outline.operators.lookup entry.1).any fun found =>
      found.1 = entry.2.1 && found.2.covers entry.2.2) &&
    outline'.traits.all (fun trait => trait.uses.all (outline'.bound.contains ·))

theorem Describes.of_covers {outline outline' : Outline} {state : State}
    (describes : outline.Describes state) (covers : outline.covers outline') :
    outline'.Describes state := by
  unfold Outline.covers at covers
  simp only [Bool.and_eq_true, decide_eq_true_eq, List.all_eq_true, List.contains_iff_mem,
    Option.any_eq_true] at covers
  obtain ⟨⟨⟨⟨⟨levels, names⟩, absent⟩, operators⟩, operators'⟩, known⟩ := covers
  refine ⟨describes.depth, describes.levels.trans levels, fun {name trait} found => ?_,
    fun name lacking => describes.absent name (absent name lacking), fun {token} free => ?_,
    fun {token eager trait} found => ?_, known⟩
  · obtain ⟨trait', found', covered⟩ := names (name, trait) (mem_of_lookup found)
    exact (describes.names found').imp fun _ ⟨bound, fits⟩ => ⟨bound, fits.of_covers covered⟩
  · apply describes.native
    by_contra some
    obtain ⟨⟨eager, trait⟩, found⟩ := Option.ne_none_iff_exists'.mp some
    have defined := operators (token, eager, trait) (mem_of_lookup found)
    rw [free] at defined
    cases defined
  · obtain ⟨⟨eager', trait'⟩, found', same, covered⟩ :=
      operators' (token, eager, trait) (mem_of_lookup found)
    obtain rfl : eager' = eager := same
    exact (describes.implemented found').imp fun _ ⟨defined, fits⟩ =>
      ⟨defined, fits.of_covers covered⟩

end Outline

end Fixity
