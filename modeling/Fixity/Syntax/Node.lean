import Fixity.Number

/-!
Contract: the syntax trees of the language.

Owns:
- `Node`, a tree, and `Segment`, a piece of a text literal;
- the kinds of nodes and their names in messages;
- equality of trees, where number components compare as doubles do.

Does not own: printing, parsing.
-/

namespace Fixity

mutual

/-- A syntax tree. -/
inductive Node where
  /-- A sequence of statements, worth its last one. -/
  | body (statements : List Node)
  | list (elements : List Node)
  | number (value : Number)
  /-- A text literal: its source between the braces and the pieces it evaluates to. -/
  | text (source : String) (segments : List Segment)
  | identifier (name : String)
  | operation (operator : String) (left right : Node)
  | quoted (inner : Node)

/-- A piece of a text literal. -/
inductive Segment where
  /-- Characters that stand for themselves, escapes already replaced. -/
  | literal (characters : String)
  /-- An expression whose value is displayed in place. -/
  | splice (expression : Node)

end

instance : Inhabited Node := ⟨.body []⟩

instance : Inhabited Segment := ⟨.literal ""⟩

/-- The kinds of syntax trees. -/
inductive NodeKind where
  | body
  | list
  | number
  | text
  | identifier
  | operation
  | quoted
deriving DecidableEq

/-- The name of a kind in messages. -/
def NodeKind.name : NodeKind → String
  | body => "expression body"
  | list => "list node"
  | number => "number node"
  | text => "text node"
  | identifier => "identifier"
  | operation => "operation"
  | quoted => "quoted node"

namespace Node

/-- The kind of a tree. -/
def kind : Node → NodeKind
  | body _ => .body
  | list _ => .list
  | number _ => .number
  | text _ _ => .text
  | identifier _ => .identifier
  | operation _ _ _ => .operation
  | quoted _ => .quoted

/-- The name of an identifier. -/
def name? : Node → Option String
  | identifier name => some name
  | _ => none

/-- The children of a list or of an expression body. -/
def children? : Node → Option (List Node)
  | body statements => some statements
  | list elements => some elements
  | _ => none

/-- The tree with other children, if it is a list or an expression body. -/
def withChildren (children : List Node) : Node → Node
  | body _ => body children
  | list _ => list children
  | other => other

end Node

mutual

/-- Equality of trees. -/
def Node.same : Node → Node → Bool
  | .body left, .body right => Node.sameAll left right
  | .list left, .list right => Node.sameAll left right
  | .number left, .number right => left.real == right.real && left.imaginary == right.imaginary
  | .text source segments, .text source' segments' =>
      source == source' && Segment.sameAll segments segments'
  | .identifier name, .identifier name' => name == name'
  | .operation operator left right, .operation operator' left' right' =>
      operator == operator' && Node.same left left' && Node.same right right'
  | .quoted inner, .quoted inner' => Node.same inner inner'
  | _, _ => false

/-- Equality of rows of trees. -/
def Node.sameAll : List Node → List Node → Bool
  | [], [] => true
  | left :: lefts, right :: rights => Node.same left right && Node.sameAll lefts rights
  | _, _ => false

/-- Equality of pieces. -/
def Segment.same : Segment → Segment → Bool
  | .literal characters, .literal characters' => characters == characters'
  | .splice expression, .splice expression' => Node.same expression expression'
  | _, _ => false

/-- Equality of rows of pieces. -/
def Segment.sameAll : List Segment → List Segment → Bool
  | [], [] => true
  | left :: lefts, right :: rights => Segment.same left right && Segment.sameAll lefts rights
  | _, _ => false

end

end Fixity
