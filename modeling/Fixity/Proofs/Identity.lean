import Fixity.Syntax.Node

/-!
Contract: whether two trees are the same.

Owns:
- decidable equality of trees, whose number components are compared by their bits.
-/

namespace Fixity

deriving instance DecidableEq for Number

mutual

/-- Whether two trees are the same. -/
def Node.identical : Node → Node → Bool
  | .body left, .body right => Node.allIdentical left right
  | .list left, .list right => Node.allIdentical left right
  | .number left, .number right => left = right
  | .text source segments, .text source' segments' =>
      source = source' && Segment.allIdentical segments segments'
  | .identifier name, .identifier name' => name = name'
  | .operation operator left right, .operation operator' left' right' =>
      operator = operator' && Node.identical left left' && Node.identical right right'
  | .quoted inner, .quoted inner' => Node.identical inner inner'
  | _, _ => false

/-- Whether two rows of trees are the same. -/
def Node.allIdentical : List Node → List Node → Bool
  | [], [] => true
  | left :: lefts, right :: rights => Node.identical left right && Node.allIdentical lefts rights
  | _, _ => false

/-- Whether two pieces are the same. -/
def Segment.identical : Segment → Segment → Bool
  | .literal characters, .literal characters' => characters = characters'
  | .splice expression, .splice expression' => Node.identical expression expression'
  | _, _ => false

/-- Whether two rows of pieces are the same. -/
def Segment.allIdentical : List Segment → List Segment → Bool
  | [], [] => true
  | left :: lefts, right :: rights =>
      Segment.identical left right && Segment.allIdentical lefts rights
  | _, _ => false

end

mutual

theorem Node.identical_iff : ∀ left right : Node, Node.identical left right ↔ left = right
  | .body statements, right => by
      cases right <;> simp [Node.identical, Node.allIdentical_iff statements]
  | .list elements, right => by
      cases right <;> simp [Node.identical, Node.allIdentical_iff elements]
  | .number value, right => by
      cases right <;> simp [Node.identical]
  | .text source segments, right => by
      cases right <;> simp [Node.identical, Segment.allIdentical_iff segments]
  | .identifier name, right => by
      cases right <;> simp [Node.identical]
  | .operation operator first second, right => by
      cases right <;>
        simp [Node.identical, Node.identical_iff first, Node.identical_iff second, and_assoc]
  | .quoted inner, right => by
      cases right <;> simp [Node.identical, Node.identical_iff inner]

theorem Node.allIdentical_iff : ∀ left right : List Node,
    Node.allIdentical left right ↔ left = right
  | [], right => by
      cases right <;> simp [Node.allIdentical]
  | first :: others, right => by
      cases right <;>
        simp [Node.allIdentical, Node.identical_iff first, Node.allIdentical_iff others]

theorem Segment.identical_iff : ∀ left right : Segment, Segment.identical left right ↔ left = right
  | .literal characters, right => by
      cases right <;> simp [Segment.identical]
  | .splice expression, right => by
      cases right <;> simp [Segment.identical, Node.identical_iff expression]

theorem Segment.allIdentical_iff : ∀ left right : List Segment,
    Segment.allIdentical left right ↔ left = right
  | [], right => by
      cases right <;> simp [Segment.allIdentical]
  | first :: others, right => by
      cases right <;>
        simp [Segment.allIdentical, Segment.identical_iff first, Segment.allIdentical_iff others]

end

instance : DecidableEq Node := fun left right => decidable_of_iff _ (Node.identical_iff left right)

end Fixity
