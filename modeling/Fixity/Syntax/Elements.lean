import Fixity.Syntax.Token

/-!
Contract: the division of a list literal into its elements.

Owns:
- `splitElements`, the pieces between the separators outside every group, text and comment;
- `groupBody`, a group without its delimiters.
-/

namespace Fixity.Syntax

/-- Splits a text whose piece so far is given in reverse; `depth` groups are open. -/
def elementsFrom (depth : Nat) (piece text : List Char) : List (List Char) :=
  match text with
  | [] => [piece.reverse]
  | char :: rest =>
      if char = '\x7b' then
        match _ : textInterior 0 rest with
        | some (interior, after) =>
            elementsFrom depth ('\x7d' :: interior.reverse ++ '\x7b' :: piece) after
        | none => [piece.reverse ++ char :: rest]
      else if char = '(' ∨ char = '[' then elementsFrom (depth + 1) (char :: piece) rest
      else if char = ')' ∨ char = ']' then elementsFrom (depth - 1) (char :: piece) rest
      else if char = '-' ∧ rest.head? = some '-' then
        elementsFrom depth ((rest.takeWhile (· ≠ '\n')).reverse ++ char :: piece)
          (rest.dropWhile (· ≠ '\n'))
      else if char = ',' ∧ depth = 0 then piece.reverse :: elementsFrom 0 [] rest
      else elementsFrom depth (char :: piece) rest
termination_by text.length
decreasing_by
  · have := textInterior_length ‹_›
    simp only [List.length_cons]
    omega
  · simp
  · simp
  · have := (List.dropWhile_sublist (fun char : Char => decide (char ≠ '\n')) (l := rest)).length_le
    simp only [List.length_cons]
    omega
  · simp
  · simp

/-- The pieces of a list's interior between its separators, blanks included. -/
def splitElements (interior : List Char) : List (List Char) := elementsFrom 0 [] interior

private theorem elementsFrom_length {depth : Nat} {piece text element : List Char}
    (member : element ∈ elementsFrom depth piece text) :
    element.length ≤ piece.length + text.length := by
  fun_induction elementsFrom depth piece text with
  | case1 => simp_all
  | case2 depth piece rest interior after found inductionHypothesis =>
      have := textInterior_length found
      have := inductionHypothesis member
      simp only [List.length_append, List.length_cons, List.length_reverse] at this ⊢
      omega
  | case3 => simp_all
  | case4 depth piece char rest _ _ inductionHypothesis =>
      have := inductionHypothesis member
      simp only [List.length_cons] at this ⊢
      omega
  | case5 depth piece char rest _ _ _ inductionHypothesis =>
      have := inductionHypothesis member
      simp only [List.length_cons] at this ⊢
      omega
  | case6 depth piece char rest _ _ _ _ inductionHypothesis =>
      have bound := inductionHypothesis member
      have parts := congrArg List.length
        (List.takeWhile_append_dropWhile (p := fun char : Char => decide (char ≠ '\n')) (l := rest))
      simp only [List.length_append, List.length_cons, List.length_reverse] at bound parts ⊢
      omega
  | case7 depth piece char rest _ _ _ _ _ inductionHypothesis =>
      rcases List.mem_cons.mp member with rfl | inRest
      · simp
      · have := inductionHypothesis inRest
        simp only [List.length_cons, List.length_nil] at this ⊢
        omega
  | case8 depth piece char rest _ _ _ _ _ inductionHypothesis =>
      have := inductionHypothesis member
      simp only [List.length_cons] at this ⊢
      omega

/-- No element is longer than the whole. -/
theorem splitElements_length {interior element : List Char}
    (member : element ∈ splitElements interior) : element.length ≤ interior.length := by
  simpa using elementsFrom_length member

/-- A text without the characters that make up its first `count` bytes, if whole characters do. -/
def dropBytes? : (count : Nat) → List Char → Option (List Char)
  | 0, text => some text
  | _ + 1, [] => none
  | count + 1, char :: rest =>
      if char.utf8Size ≤ count + 1 then dropBytes? (count + 1 - char.utf8Size) rest else none

/-- A group without the first `opening` bytes and the last one; nothing if it is too short or one of
the two cuts falls inside a character. -/
def groupBody (group : List Char) (opening : Nat) : List Char :=
  match dropBytes? opening group with
  | none => []
  | some rest =>
      match rest.getLast? with
      | some closer => if closer.utf8Size = 1 then rest.dropLast else []
      | none => []

end Fixity.Syntax
