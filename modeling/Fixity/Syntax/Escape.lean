import Fixity.Syntax.Node

/-!
Contract: escapes inside text literals.

Owns:
- the escaped form of a text, which no brace opens, closes or escapes;
- the character an escape sequence stands for;
- the literal node of a given text.
-/

namespace Fixity.Syntax

/-- The glyph that starts an escape sequence. -/
def escapeGlyph : Char := '\\'

/-- The written form of one character of a text. -/
def escapeChar (char : Char) : List Char :=
  if char = '\x7b' ∨ char = '\x7d' ∨ char = escapeGlyph then [escapeGlyph, char]
  else if char = '\n' then [escapeGlyph, 'n']
  else if char = '\t' then [escapeGlyph, 't']
  else if char = '\r' then [escapeGlyph, 'r']
  else [char]

/-- The written form of a text. -/
def escape (text : List Char) : List Char := text.flatMap escapeChar

/-- The character that an escaped character stands for. -/
def unescapeChar (char : Char) : Char :=
  if char = 'n' then '\n'
  else if char = 't' then '\t'
  else if char = 'r' then '\r'
  else if char = 's' then ' '
  else char

end Fixity.Syntax

namespace Fixity

/-- The literal node of a text, without interpolation. -/
def Node.plainText (text : String) : Node :=
  .text (String.ofList (Syntax.escape text.toList)) [.literal text]

end Fixity
