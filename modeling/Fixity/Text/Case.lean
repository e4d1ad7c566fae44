import Fixity.Text.CaseTable

/-!
Contract: upper and lower case forms of texts.

Owns:
- the full case mappings, which may change the number of characters;
- the final form of a lower case sigma at the end of a word.
-/

namespace Fixity.Text

/-- The character that the first run covering a character maps it to. -/
def shifted (runs : List CaseRun) (char : Char) : Char :=
  match runs.find? (·.covers char.toNat) with
  | some run => Char.ofNat ((char.toNat : Int) + run.shift).toNat
  | none => char

/-- The upper case form of one character. -/
def upperChar (char : Char) : List Char :=
  if char.toNat < 0x80 then [char.toUpper]
  else
    match upperExpansions.find? (·.1 == char.toNat) with
    | some expansion => expansion.2.map Char.ofNat
    | none => [shifted upperRuns char]

/-- The upper case form of a text. -/
def upper (text : List Char) : List Char := text.flatMap upperChar

/-- Whether a character has a case. -/
def isCased (char : Char) : Bool := inRanges casedRanges char.toNat

/-- Whether a character is passed over in the search for one with a case. -/
def isIgnorable (char : Char) : Bool := inRanges caseIgnorableRanges char.toNat

/-- Whether the nearest character that counts has a case. -/
def nextIsCased (neighbours : List Char) : Bool :=
  match neighbours.dropWhile isIgnorable with
  | char :: _ => isCased char
  | [] => false

/-- The lower case form of one character between its neighbours, those before it nearest first. -/
def lowerChar (before : List Char) (char : Char) (after : List Char) : List Char :=
  if char.toNat < 0x80 then [char.toLower]
  else if char.toNat = 0x3A3 then
    if nextIsCased before && !nextIsCased after then [Char.ofNat 0x3C2] else [Char.ofNat 0x3C3]
  else if char.toNat = 0x130 then ['i', Char.ofNat 0x307]
  else [shifted lowerRuns char]

/-- The lower case form of a text behind the given characters, the nearest first. -/
def lowerFrom (before : List Char) : List Char → List Char
  | [] => []
  | char :: after => lowerChar before char after ++ lowerFrom (char :: before) after

/-- The lower case form of a text. -/
def lower (text : List Char) : List Char := lowerFrom [] text

end Fixity.Text
