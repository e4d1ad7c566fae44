import Fixity.Text.Blank
import Fixity.Text.Case
import Fixity.Text.Search
import Fixity.Value.Walk

/-!
Contract: the native functions on texts.

Owns:
- case, trimming, replacement, tests of both ends;
- the display form as a text.

All of them make new texts and leave their arguments alone.
-/

namespace Fixity.Wording

open OnHeap

/-- A new text made from the characters of another one. -/
def transform (change : List Char → List Char) (role : String) (text : Value) :
    OnHeap Value := do
  newText (String.ofList (change (← textOf text role).toList))

/-- The lower case form. -/
def lower (text : Value) : OnHeap Value := transform Text.lower "the argument of lower" text

/-- The upper case form. -/
def upper (text : Value) : OnHeap Value := transform Text.upper "the argument of upper" text

/-- The text without white space at its ends. -/
def trim (text : Value) : OnHeap Value := transform Text.trim "the argument of trim" text

/-- The text with every occurrence of a pattern replaced. -/
def replace (text pattern replacement : Value) : OnHeap Value := do
  let content ← textOf text "the text"
  let pattern ← textOf pattern "the pattern"
  let replacement ← textOf replacement "the replacement"
  newText (String.ofList (Text.replace content.toList pattern.toList replacement.toList))

/-- Whether the text begins with another one. -/
def startsWith (text start : Value) : OnHeap Value := do
  let content ← textOf text "the text"
  let start ← textOf start "the prefix"
  return .ofBool (Text.startsWith content.toList start.toList)

/-- Whether the text ends with another one. -/
def endsWith (text ending : Value) : OnHeap Value := do
  let content ← textOf text "the text"
  let ending ← textOf ending "the suffix"
  return .ofBool (Text.endsWith content.toList ending.toList)

/-- The display form of any value. -/
def ofValue (value : Value) : OnHeap Value := do newText (← display value)

end Fixity.Wording
