/-!
Contract: pieces of texts around occurrences of a pattern.

Owns:
- splitting at the occurrences of a separator, taken from the left without overlap;
- replacement of all occurrences, an empty pattern occurring at every gap.
-/

namespace Fixity.Text

/-- What follows a pattern at the head of a text. -/
def stripPrefix? : (pattern text : List Char) → Option (List Char)
  | [], text => some text
  | _ :: _, [] => none
  | expected :: pattern, char :: text =>
      if expected = char then stripPrefix? pattern text else none

/-- Whether a text begins with a pattern. -/
def startsWith (text pattern : List Char) : Bool := (stripPrefix? pattern text).isSome

/-- Whether a text ends with a pattern. -/
def endsWith (text pattern : List Char) : Bool := startsWith text.reverse pattern.reverse

/-- Splits at a separator `first :: others`; `skip` characters still belong to the last occurrence,
and `piece` holds the current piece in reverse. -/
def splitFrom (first : Char) (others : List Char) (piece : List Char) :
    (skip : Nat) → List Char → List (List Char)
  | _, [] => [piece.reverse]
  | skip + 1, _ :: rest => splitFrom first others piece skip rest
  | 0, char :: rest =>
      if startsWith (char :: rest) (first :: others) then
        piece.reverse :: splitFrom first others [] others.length rest
      else
        splitFrom first others (char :: piece) 0 rest

/-- The pieces between the occurrences of a separator; an empty separator splits nothing. -/
def splitAt (text separator : List Char) : List (List Char) :=
  match separator with
  | [] => [text]
  | first :: others => splitFrom first others [] 0 text

/-- The text with every occurrence of a pattern replaced. -/
def replace (text pattern replacement : List Char) : List Char :=
  match pattern with
  | [] => replacement ++ text.flatMap (fun char => char :: replacement)
  | _ :: _ => (splitAt text pattern).intersperse replacement |>.flatten

end Fixity.Text
