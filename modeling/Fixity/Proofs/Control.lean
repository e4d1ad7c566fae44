import Fixity.Proofs.Assembly

/-!
Contract: the functions of the standard library behind its control structures.

Owns:
- the trees of these functions, as `Routine`s, and `Control.Equipped`, the heaps that have them;
- what each of them makes of the trees it is given.

Does not own: the operator that hands it the trees and evaluates what it makes.
-/

namespace Fixity

open Eval

theorem Number.IsInteger.safe {number : Number} {whole : Int} (isInteger : number.IsInteger whole)
    (small : |whole| < 2 ^ 53) : (Value.number number).IsSafeInteger whole :=
  ⟨⟨number, rfl, isInteger⟩, small⟩

theorem Number.isZero_ofBool_false : (Number.ofBool false).isZero := by decide +kernel

theorem Number.isZero_ofBool_true : ¬ (Number.ofBool true).isZero := by decide +kernel

namespace Control

/-! ## Trees -/

/-- `name @ [arguments]` -/
def call (name : String) (arguments : List Node) : Node :=
  .operation "@" (.identifier name) (.list arguments)

/-- `tree::place` -/
def childAt (place : Number) (tree : Node) : Node := .operation "::" tree (.number place)

/-- The text of an operator. -/
def token (operator : String) : Node := .text operator [.literal operator]

/-- `nodeop`, which puts an operation together. -/
def nodeop : Routine where
  name := "nodeop"
  params := ["l", "o", "r"]
  variadic := false
  body := .body
    [.operation Syntax.bindToken (.identifier "n")
        (.quoted (.operation "?" (.identifier "x") (.identifier "y"))),
      call "setleft" [.identifier "n", .identifier "l"],
      call "setright" [.identifier "n", .identifier "r"],
      call "setop" [.identifier "n", .identifier "o"]]
  uses := ["setleft", "setright", "setop"]

/-- `nodelist`, which puts a list together. -/
def nodelist : Routine where
  name := "nodelist"
  params := ["l"]
  variadic := true
  body := .body
    [.operation Syntax.bindToken (.identifier "n") (.quoted (.list [])),
      call "map"
        [.operation Syntax.partialToken (.identifier "push") (.identifier "n"), .identifier "l"],
      .identifier "n"]
  uses := ["map", "push"]

/-- `ifelse` -/
def ifelse : Routine where
  name := "ifelse"
  params := ["a"]
  variadic := false
  body := call "nodeop"
    [childAt .zero (.identifier "a"), token "?",
      call "slice" [.identifier "a", .number .one]]
  uses := ["nodeop", "slice"]

/-- `if` -/
def ifThen : Routine where
  name := "if"
  params := ["a"]
  variadic := false
  body := call "ifelse"
    [call "nodelist"
      [childAt .zero (.identifier "a"), childAt .one (.identifier "a"), .quoted (.number .zero)]]
  uses := ["ifelse", "nodelist"]

/-- `while` -/
def whileLoop : Routine where
  name := "while"
  params := ["a"]
  variadic := false
  body := call "nodeop"
    [childAt .zero (.identifier "a"), token "!!", childAt .one (.identifier "a")]
  uses := ["nodeop"]

/-- `for` -/
def forLoop : Routine where
  name := "for"
  params := ["a"]
  variadic := false
  body := call "nodeop"
    [call "slice" [.identifier "a", .number .zero, .number (.ofNat 3)], token "#",
      childAt (.ofNat 3) (.identifier "a")]
  uses := ["nodeop", "slice"]

/-- `cond`, which uses itself for the clauses behind the first one. -/
def cond : Routine where
  name := "cond"
  params := ["l"]
  variadic := false
  body := .operation Syntax.conditionalToken
    (.operation "=" (call "len" [.identifier "l"]) (.number .zero))
    (.list
      [.quoted (.number .zero),
        call "nodeop"
          [childAt .zero (childAt .zero (.identifier "l")), token "?",
            call "nodelist"
              [childAt .one (childAt .zero (.identifier "l")),
                call "cond" [call "slice" [.identifier "l", .number .one]]]]])
  uses := ["len", "nodeop", "nodelist", "slice"]

/-- The nested conditional of a row of conditions and values. -/
def cascade : List (Node × Node) → Node
  | [] => .number .zero
  | (condition, value) :: clauses =>
      .operation Syntax.conditionalToken condition (.list [value, cascade clauses])

/-- The native functions that these use. -/
def natives : List (String × Native) :=
  [("setleft", .setOperand .left), ("setright", .setOperand .right), ("setop", .setop),
    ("map", .map), ("push", .push), ("slice", .slice), ("len", .len)]

/-- All of them. -/
def routines : List Routine := [nodeop, nodelist, ifelse, ifThen, whileLoop, forLoop, cond]

theorem proper {routine : Routine} (known : routine ∈ routines) : routine.Proper := by
  revert routine
  decide

/-- The library has these functions, and the operators that they use are native ones, but `::`,
which applies `get` to the values of its operands. -/
structure Equipped (operators : OperatorTable) (heap : Heap) (library : String → Value) :
    Prop where
  natives : ∀ entry ∈ natives, heap.IsNative entry.2 (library entry.1)
  routines : ∀ routine ∈ routines, heap.Stands library routine
  native : ∀ token ∈ ["@", Syntax.conditionalToken, Syntax.partialToken, "="],
    operators.implementations.get? token = none
  indexing : ∃ get, operators.implementations.get? "::" = some ⟨get, true⟩ ∧
    heap.IsNative .get get

namespace Equipped

variable {host : Host} {course : Course host} {operators : OperatorTable} {base later : Heap}
  {library : String → Value}

theorem grows (equipped : Equipped operators base library) (grows : base.Grows later) :
    Equipped operators later library where
  natives entry known := (equipped.natives entry known).grows grows
  routines routine known := (equipped.routines routine known).grows grows
  native := equipped.native
  indexing := equipped.indexing.imp fun _ ⟨implemented, isNative⟩ =>
    ⟨implemented, isNative.grows grows⟩

private theorem forall₂_three {α β : Type} {related : α → β → Prop} {first second third : α}
    {row : List β} (relate : List.Forall₂ related [first, second, third] row) :
    ∃ first' second' third', row = [first', second', third'] ∧ related first first' ∧
      related second second' ∧ related third third' := by
  rcases relate with _ | ⟨one, _ | ⟨two, _ | ⟨three, ⟨⟩⟩⟩⟩
  exact ⟨_, _, _, rfl, one, two, three⟩

/-- An operation of two trees. -/
theorem nodeop (equipped : Equipped operators base library) (operator : String)
    (left right : Node) :
    Delivers course operators base (library "nodeop")
      [.tree left, .text operator, .tree right] (.tree (.operation operator left right)) := by
  have known : Control.nodeop ∈ Control.routines := by simp [Control.routines]
  refine .routine (equipped.routines _ known) (proper known) rfl ?_
  rintro state arguments heap rfl grows provide started knows
  obtain rfl : state.heap = heap := started
  obtain ⟨left', operator', right', rfl, provides, provides', provides''⟩ :=
    forall₂_three provide
  let scope := state.scope.bind "n" (.node state.heap.nodes.size)
  have lookup {name : String} {value : Value} (other : name ≠ "n")
      (found : state.scope.lookup? name = some value) : scope.lookup? name = some value := by
    rw [Scope.lookup?_bind, if_neg other, found]
  have target : scope.lookup? "n" = some (.node state.heap.nodes.size) := by
    rw [Scope.lookup?_bind, if_pos rfl]
  -- Each change is made to the tree that the body starts with.
  have edit {native : Native} {material : Material} {before after : Node} {value : Value}
      {function operand : String} {heap : Heap} (edits : Edits native material before after)
      (used : (function, native) ∈ Control.natives ∧ function ∈ Control.nodeop.uses)
      (given : (Control.nodeop.params.zip [left', operator', right']).reverse.lookup operand =
        some value)
      (others : function ≠ "n" ∧ operand ≠ "n" ∧ operand ≠ selfName)
      (provides : state.heap.Provides material value)
      (shapes : state.heap.Shapes heap before) :
      Does course (call function [.identifier "n", .identifier operand])
        { state with heap := heap, scope := scope }
        (fun answer reached => ∃ heap, reached = { state with heap := heap, scope := scope } ∧
          answer = .node state.heap.nodes.size ∧ state.heap.Shapes heap after) fun _ => True :=
    Does.edit edits (equipped.native "@" (by decide))
      ((equipped.natives _ used.1).grows grows) shapes provides
      (lookup others.1 (knows.functions function (.tail _ used.2))) target
      (lookup others.2.1 (knows.params others.2.2 given))
  refine .body (.cons (.binding (.quoted ?_)))
  refine .cons ((edit (edits_operand .left _ _ _ left) (by decide) rfl (by decide) provides
    (.push state.heap _)).mono ?_)
  rintro _ _ ⟨heap, rfl, rfl, shapes⟩
  refine .cons ((edit (edits_operand .right _ _ _ right) (by decide) rfl (by decide) provides''
    shapes).mono ?_)
  rintro _ _ ⟨heap, rfl, rfl, shapes⟩
  refine .cons ((edit (edits_operator _ operator _ _) (by decide) rfl (by decide) provides'
    shapes).mono ?_)
  rintro _ _ ⟨heap, rfl, rfl, shapes⟩
  exact .nil ⟨heap, scope, rfl, shapes.grows, shapes.provides⟩

/-- Trees that are appended one after the other to a fresh list. -/
private theorem settles_push {push : Value} {pusher : Nat} {label : String} {trees done : List Node}
    {items : List Value} {state : State} (isNative : base.IsNative .push push)
    (provide : List.Forall₂ base.Provides (trees.map .tree) items)
    (cell : state.heap.builtins[pusher]? =
      some ⟨label, .supply push [some (.node base.nodes.size)]⟩)
    (shapes : base.Shapes state.heap (.list done)) :
    Settles course.failure
      (fun bound => items.mapM fun item =>
        course.stage bound (.application (.builtin pusher) [item])) state
      (fun _ reached => ∃ heap, reached = { state with heap := heap } ∧
        base.Shapes heap (.list (done ++ trees))) fun _ => True := by
  induction trees generalizing items done state with
  | nil =>
      cases provide
      exact .of_ok 0 (fun _ _ => rfl) ⟨state.heap, rfl, (List.append_nil done).symm ▸ shapes⟩
  | cons tree trees inductionHypothesis =>
      rcases provide with _ | ⟨provides, provide⟩
      refine .mapM_cons (@Applies.supplied _ _ _ _ _ _ _ _ [.node base.nodes.size]
        (congrArg Builtin.action (OnHeap.getD_of_getElem? cell _)) ?_)
      obtain ⟨handle, _, rfl, pushes⟩ := isNative.grows shapes.grows
      refine .native (congrArg Builtin.action (OnHeap.getD_of_getElem? pushes _))
        (callNative_push_tree shapes.cell (provides.grows shapes.grows)) ?_
      let pushed : Heap := { state.heap with
        nodes := state.heap.nodes.modify base.nodes.size fun list =>
          list.withChildren (done ++ [tree]) }
      have longer : base.Shapes pushed (.list (done ++ [tree])) := shapes.modify _
      refine (@inductionHypothesis _ _ { state with heap := pushed } provide cell longer).mono ?_
      rintro _ _ ⟨heap, rfl, shapes⟩
      exact ⟨heap, rfl, by rwa [List.append_assoc] at shapes⟩

/-- A list of trees. -/
theorem nodelist (equipped : Equipped operators base library) (trees : List Node) :
    Delivers course operators base (library "nodelist") (trees.map .tree)
      (.tree (.list trees)) := by
  have known : Control.nodelist ∈ Control.routines := by simp [Control.routines]
  refine .routine (equipped.routines _ known) (proper known) (Nat.le_add_left 1 _) ?_
  rintro state arguments heap rfl grows provide started knows
  have gathered : state.heap = { heap with lists := heap.lists.push arguments.toArray } := started
  have cell : state.heap.lists[heap.lists.size]? = some arguments.toArray := by
    rw [gathered]
    exact Array.getElem?_push_size
  have more : heap.Grows state.heap := gathered ▸ .push_list heap arguments.toArray
  have provide := Heap.forall₂_provides_grows provide more
  let scope := state.scope.bind "n" (.node state.heap.nodes.size)
  have lookup {name : String} {value : Value} (other : name ≠ "n")
      (found : state.scope.lookup? name = some value) : scope.lookup? name = some value := by
    rw [Scope.lookup?_bind, if_neg other, found]
  have target : scope.lookup? "n" = some (.node state.heap.nodes.size) := by
    rw [Scope.lookup?_bind, if_pos rfl]
  have map := (equipped.natives ("map", .map) (by decide)).grows (grows.trans more)
  have push := (equipped.natives ("push", .push) (by decide)).grows (grows.trans more)
  have free (token : String) (listed : token ∈ ["@", Syntax.conditionalToken, Syntax.partialToken,
      "="]) : scope.operators.implementations.get? token = none := equipped.native token listed
  refine .body (.cons (.binding (.quoted ?_)))
  refine .cons (.application (free "@" (by decide)) (.identifier
    (lookup (by decide) (knows.functions "map" (by decide))) ⟨map.isCallable, .cons (.supply
      (by decide) (free Syntax.partialToken (by decide)) (.identifier
        (lookup (by decide) (knows.functions "push" (by decide))) ⟨push.isCallable,
          .identifier target fun label => .cons (.identifier
            (lookup (by decide) (knows.params (by decide) rfl)) (.nil ?_))⟩))⟩))
  let supplied : Heap := { state.heap with
    nodes := state.heap.nodes.push (.list [])
    builtins := state.heap.builtins.push
      ⟨label, .supply (library "push") [some (.node state.heap.nodes.size)]⟩ }
  let reached : State := State.listed [.builtin state.heap.builtins.size, .list heap.lists.size]
    { state with heap := supplied, scope := scope }
  show Applies course (library "map") [.builtin state.heap.builtins.size, .list heap.lists.size]
    reached _ _
  have shapes : state.heap.Shapes reached.heap (.list []) :=
    (Heap.Shapes.push state.heap _).trans ((Heap.Grows.push_builtin _ _).trans (.push_list _ _))
  have row : (reached.heap.list heap.lists.size).toList = arguments := by
    rw [Heap.list, OnHeap.getD_of_getElem? (Heap.getElem?_of_prefixed shapes.grows.lists cell)]
  obtain ⟨handle, _, known, maps⟩ := map.grows shapes.grows
  rw [show library "map" = .builtin handle from known]
  refine .map (congrArg Builtin.action (OnHeap.getD_of_getElem? maps _)) rfl ?_
  rw [row]
  refine (settles_push push provide Array.getElem?_push_size shapes).mono ?_
  rintro results _ ⟨heap, rfl, shapes⟩
  have shapes := shapes.trans (.push_list heap results.toArray)
  exact .cons (.identifier target (.nil ⟨_, scope, rfl, shapes.grows, shapes.provides⟩))

/-! ## Bodies -/

section Bodies

variable {scope : Scope} {node : Node} {material : Material}

/-- A tree in a list of trees. -/
theorem child {elements : List Node} {found : Node} {index : Number} (place : Nat)
    (equipped : Equipped scope.operators base library)
    (prepares : Prepares course scope base node (.tree (.list elements)))
    (isInteger : index.IsInteger place) (low : place < 2 ^ 52)
    (there : elements[place]? = some found) :
    Prepares course scope base (childAt index node) (.tree found) := by
  obtain ⟨get, implemented, isNative⟩ := equipped.indexing
  exact .eager (by decide) implemented prepares (.number index)
    (.read isNative rfl isInteger low there)

/-- An application of a function of the library. -/
theorem call {name : String} {nodes : List Node} {materials : List Material}
    (equipped : Equipped scope.operators base library)
    (known : scope.lookup? name = some (library name))
    (prepare : List.Forall₂ (Prepares course scope base) nodes materials)
    (delivers : Delivers course scope.operators base (library name) materials material) :
    Prepares course scope base (Control.call name nodes) material :=
  .call (equipped.native "@" (by decide)) known prepare delivers

/-- A function with one parameter makes of its argument what its body makes of the parameter. -/
theorem of_param {routine : Routine} {param : String} {given : Material}
    (equipped : Equipped operators base library) (known : routine ∈ Control.routines)
    (single : routine.params = [param] ∧ routine.variadic = false ∧ param ≠ selfName)
    (body : ∀ scope heap, base.Grows heap → Equipped scope.operators heap library →
      (∀ name ∈ routine.name :: routine.uses, scope.lookup? name = some (library name)) →
        Prepares course scope heap (.identifier param) given →
          Prepares course scope heap routine.body material) :
    Delivers course operators base (library routine.name) [given] material := by
  obtain ⟨params, fixed, notOwn⟩ := single
  refine .of_prepares (equipped.routines _ known) (proper known) fixed
    (congrArg List.length params).symm ?_
  rintro scope heap arguments rfl grows provide knows
  rcases provide with _ | ⟨provides, ⟨⟩⟩
  refine body scope heap grows (equipped.grows grows) knows.functions ?_
  refine .identifier (knows.params notOwn ?_) provides
  rw [params]
  exact List.lookup_cons_self

end Bodies

/-! ## Parts of lists -/

/-- What is behind the first tree of a list. -/
theorem rest (equipped : Equipped operators base library) (first : Node) (others : List Node) :
    Delivers course operators base (library "slice") [.tree (.list (first :: others)), .number .one]
      (.tree (.list others)) := by
  have behind : Collection.between (Collection.limited 1 (first :: others).length)
      (max (Collection.limited 1 (first :: others).length)
        (Collection.stopOf none (first :: others).length)) (first :: others) = others := by
    have one : Collection.limited 1 (others.length + 1) = 1 := by
      unfold Collection.limited
      omega
    show List.drop _ (List.take (max _ (others.length + 1)) (first :: others)) = others
    rw [List.length_cons, one, max_eq_right (by omega), List.take_of_length_le (by simp)]
    rfl
  have sliced := @Delivers.slice host course operators base _ (first :: others) _ _ _ _
    (equipped.natives ("slice", .slice) (by decide)) (Number.isInteger_one.safe (by decide)) .none
  rw [behind] at sliced
  exact sliced

/-! ## Single operations -/

theorem ifelse (equipped : Equipped operators base library) (condition : Node)
    (branches : List Node) :
    Delivers course operators base (library "ifelse") [.tree (.list (condition :: branches))]
      (.tree (.operation "?" condition (.list branches))) := by
  have known : Control.ifelse ∈ Control.routines := by simp [Control.routines]
  refine equipped.of_param known ⟨rfl, rfl, by decide⟩ ?_
  intro scope heap grows equipped functions clauses
  have first : Prepares course scope heap (childAt .zero (.identifier "a")) (.tree condition) :=
    equipped.child 0 clauses Number.isInteger_zero (by decide) rfl
  have others : Prepares course scope heap (Control.call "slice" [.identifier "a", .number .one])
      (.tree (.list branches)) :=
    equipped.call (functions "slice" (by decide)) (.cons clauses (.cons (.number _) .nil))
      (equipped.rest condition branches)
  exact equipped.call (functions "nodeop" (by decide))
    (.cons first (.cons (.text "?" "?") (.cons others .nil))) (equipped.nodeop _ _ _)

theorem ifThen (equipped : Equipped operators base library) (condition body : Node) :
    Delivers course operators base (library "if") [.tree (.list [condition, body])]
      (.tree (.operation "?" condition (.list [body, .number .zero]))) := by
  have known : Control.ifThen ∈ Control.routines := by simp [Control.routines]
  refine equipped.of_param known ⟨rfl, rfl, by decide⟩ ?_
  intro scope heap grows equipped functions clauses
  have first := equipped.child 0 clauses Number.isInteger_zero (by decide) rfl
  have second := equipped.child 1 clauses Number.isInteger_one (by decide) rfl
  have list := equipped.call (functions "nodelist" (by decide))
    (.cons first (.cons second (.cons (.quoted (.number .zero)) .nil)))
    (equipped.nodelist [condition, body, .number .zero])
  exact equipped.call (functions "ifelse" (by decide)) (.cons list .nil)
    (equipped.ifelse condition [body, .number .zero])

theorem whileLoop (equipped : Equipped operators base library) (condition body : Node) :
    Delivers course operators base (library "while") [.tree (.list [condition, body])]
      (.tree (.operation "!!" condition body)) := by
  have known : Control.whileLoop ∈ Control.routines := by simp [Control.routines]
  refine equipped.of_param known ⟨rfl, rfl, by decide⟩ ?_
  intro scope heap grows equipped functions clauses
  have first := equipped.child 0 clauses Number.isInteger_zero (by decide) rfl
  have second := equipped.child 1 clauses Number.isInteger_one (by decide) rfl
  exact equipped.call (functions "nodeop" (by decide))
    (.cons first (.cons (.text "!!" "!!") (.cons second .nil))) (equipped.nodeop "!!" condition body)

theorem forLoop (equipped : Equipped operators base library) (first condition update body : Node) :
    Delivers course operators base (library "for")
      [.tree (.list [first, condition, update, body])]
      (.tree (.operation "#" (.list [first, condition, update]) body)) := by
  have known : Control.forLoop ∈ Control.routines := by simp [Control.routines]
  refine equipped.of_param known ⟨rfl, rfl, by decide⟩ ?_
  intro scope heap grows equipped functions clauses
  have three : (Number.ofNat 3).IsInteger (3 : Nat) := Number.isInteger_ofNat (by decide)
  have head : Prepares course scope heap
      (Control.call "slice" [.identifier "a", .number .zero, .number (.ofNat 3)])
      (.tree (.list [first, condition, update])) :=
    equipped.call (functions "slice" (by decide))
      (.cons clauses (.cons (.number _) (.cons (.number _) .nil)))
      (@Delivers.slice _ _ _ _ _ [first, condition, update, body] _ _ _ _
        (equipped.natives ("slice", .slice) (by decide)) (Number.isInteger_zero.safe (by decide))
        (.some (three.safe (by decide))))
  have last := equipped.child 3 clauses three (by decide) rfl
  exact equipped.call (functions "nodeop" (by decide))
    (.cons head (.cons (.text "#" "#") (.cons last .nil)))
    (equipped.nodeop "#" (.list [first, condition, update]) body)

/-! ## Rows of clauses -/

/-- The condition of `cond` asks whether there is a clause. -/
private theorem isEmpty {scope : Scope} {clauses : List Node}
    (equipped : Equipped scope.operators base library)
    (known : scope.lookup? "len" = some (library "len"))
    (prepares : Prepares course scope base (.identifier "l") (.tree (.list clauses))) :
    Prepares course scope base
      (.operation "=" (Control.call "len" [.identifier "l"]) (.number .zero))
      (.number (.ofBool (clauses.length = 0))) := by
  have length := equipped.call known (.cons prepares .nil)
    (.size (equipped.natives ("len", .len) (by decide)) rfl)
  exact @Prepares.arithmetic _ _ _ _ .equal _ _ _ _ _ (equipped.native "=" (by decide)) length
    (.number .zero) (Number.apply_equal_ofNat clauses.length)

theorem cond (equipped : Equipped operators base library) (clauses : List (Node × Node)) :
    Delivers course operators base (library "cond")
      [.tree (.list (clauses.map fun clause => .list [clause.1, clause.2]))]
      (.tree (cascade clauses)) := by
  have known : Control.cond ∈ Control.routines := by simp [Control.routines]
  induction clauses generalizing operators base with
  | nil =>
      refine equipped.of_param known ⟨rfl, rfl, by decide⟩ ?_
      intro scope heap grows equipped functions clauses
      exact .conditional (equipped.native _ (by decide))
        (equipped.isEmpty (functions "len" (by decide)) clauses)
        ((if_neg Number.isZero_ofBool_true).symm ▸ .quoted (.number .zero))
  | cons clause clauses inductionHypothesis =>
      refine equipped.of_param known ⟨rfl, rfl, by decide⟩ ?_
      intro scope heap grows equipped functions whole
      have condition := equipped.isEmpty (functions "len" (by decide)) whole
      have first := equipped.child 0 whole Number.isInteger_zero (by decide) rfl
      have test := equipped.child 0 first Number.isInteger_zero (by decide) rfl
      have value := equipped.child 1 first Number.isInteger_one (by decide) rfl
      have others := equipped.call (functions "slice" (by decide))
        (.cons whole (.cons (.number .one) .nil)) (equipped.rest _ _)
      have below := equipped.call (functions "cond" (by decide)) (.cons others .nil)
        (inductionHypothesis equipped)
      have branches := equipped.call (functions "nodelist" (by decide))
        (.cons value (.cons below .nil)) (equipped.nodelist [clause.2, cascade clauses])
      have operation := equipped.call (functions "nodeop" (by decide))
        (.cons test (.cons (.text "?" "?") (.cons branches .nil)))
        (equipped.nodeop "?" clause.1 (.list [clause.2, cascade clauses]))
      refine .conditional (equipped.native _ (by decide)) condition ?_
      rw [List.map_cons, List.length_cons, decide_eq_false (Nat.succ_ne_zero _),
        if_pos Number.isZero_ofBool_false]
      exact operation

end Equipped

end Control

end Fixity
