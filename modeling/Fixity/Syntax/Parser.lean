import Fixity.Syntax.Elements
import Fixity.Syntax.Escape
import Fixity.Syntax.Level

/-!
Contract: reading syntax trees from source text.

Owns:
- `collapse`, which turns alternating operands and operators into one tree, level by level;
- `parseStatement`, `parseText` and `parseBody`, which read statements, text literals and groups;
- `parse`, the reader of whole sources.

The readers take the levels as a parameter, since programs place operators while they run. Groups
are read from the text between their delimiters, which is shorter than the text around it.
-/

namespace Fixity.Syntax

/-! ## Collapsing a statement -/

/-- A statement on its way to a tree: finished trees and operators that wait for operands. -/
inductive Item where
  | operand (node : Node)
  | operator (token : String) (level : Nat)

/-- The operation with its operands in reading order, when a row of items is passed through in the
given direction. -/
def combine (associativity : Associativity) (token : String) (behind ahead : Node) : Node :=
  match associativity with
  | .left => .operation token behind ahead
  | .right => .operation token ahead behind

/-- Passes once through the items, joining each operator of the level with the operand behind it and
the one ahead of it. The items behind are in reverse. -/
def collapsePass (associativity : Associativity) (level : Nat) (behind : List Item) :
    List Item → Except SyntaxError (List Item)
  | [] => .ok behind
  | .operand node :: ahead => collapsePass associativity level (.operand node :: behind) ahead
  | .operator token tokenLevel :: ahead =>
      if tokenLevel = level then
        match behind, ahead with
        | .operand passed :: behind, .operand next :: ahead =>
            collapsePass associativity level
              (.operand (combine associativity token passed next) :: behind) ahead
        | _, _ => .error (.missingOperand token)
      else
        collapsePass associativity level (.operator token tokenLevel :: behind) ahead

/-- Joins all operators of one level, from the left or from the right. -/
def collapseLevel (associativity : Associativity) (level : Nat) (items : List Item) :
    Except SyntaxError (List Item) :=
  match associativity with
  | .left => (collapsePass .left level [] items).map List.reverse
  | .right => collapsePass .right level [] items.reverse

/-- Joins the operators of all levels, the tightest first; `level` is the index of the first one. -/
def collapseFrom (level : Nat) : Levels → List Item → Except SyntaxError (List Item)
  | [], items => .ok items
  | entry :: entries, items =>
      (collapseLevel entry.associativity level items).bind (collapseFrom (level + 1) entries)

/-- The items of a statement after all operators have been joined. -/
def collapse (levels : Levels) (items : List Item) : Except SyntaxError (List Item) :=
  collapseFrom 0 levels items

/-! ## Reading, given a reader of shorter texts -/

/-- A reader of the text between the delimiters of a group. -/
abbrev Reader := List Char → Except SyntaxError Node

/-- Reads the interior of a list. Blanks alone are no element. -/
def parseList (reader : Reader) (interior : List Char) : Except SyntaxError Node :=
  if (Text.trim interior).isEmpty then .ok (.list [])
  else ((splitElements interior).mapM reader).map .list

/-- The pieces with the characters since the last one, given in reverse, added as a literal. -/
def addLiteral (run : List Char) (segments : List Segment) : List Segment :=
  if run.isEmpty then segments else .literal (String.ofList run.reverse) :: segments

/-- Reads the pieces of a text literal; `run` holds in reverse the characters since the last piece,
`segments` the pieces so far, latest first. -/
def segmentsFrom (reader : Reader) (run : List Char) (segments : List Segment)
    (text : List Char) : Except SyntaxError (List Segment) :=
  match text with
  | [] =>
      .ok (if segments.isEmpty then [.literal (String.ofList run.reverse)]
        else (addLiteral run segments).reverse)
  | '\\' :: [] => segmentsFrom reader run segments []
  | '\\' :: char :: rest => segmentsFrom reader (unescapeChar char :: run) segments rest
  | '\x7b' :: rest =>
      match _ : textInterior 0 rest with
      | none => .error (.incompleteGroup .interpolation 1)
      | some (interior, after) =>
          match reader interior with
          | .error error => .error error
          | .ok node => segmentsFrom reader [] (.splice node :: addLiteral run segments) after
  | char :: rest => segmentsFrom reader (char :: run) segments rest
termination_by text.length
decreasing_by
  · simp
  · simp only [List.length_cons]
    omega
  · have := textInterior_length ‹_›
    simp only [List.length_cons]
    omega
  · simp

/-- Reads the pieces of the text between the braces of a text literal. -/
def parseSegments (reader : Reader) (interior : List Char) : Except SyntaxError (List Segment) :=
  segmentsFrom reader [] [] interior

/-- Reads a token as an operand or an operator. -/
def classifyToken (levels : Levels) (reader : Reader) (token : Token) : Except SyntaxError Item :=
  match token with
  | .expression interior => (reader interior).map .operand
  | .list interior => (parseList reader interior).map .operand
  | .text interior =>
      (parseSegments reader interior).map fun segments =>
        .operand (.text (String.ofList interior) segments)
  | .quoted interior => (reader interior).map fun inner => .operand (.quoted inner)
  | .word characters =>
      let spelling := String.ofList characters
      match levels.levelOf? spelling with
      | some level => .ok (.operator spelling level)
      | none =>
          match classify characters with
          | some (.number value) => .ok (.operand (.number value))
          | some (.name name) => .ok (.operand (.identifier name))
          | none =>
              if characters.all isOperatorChar then .error (.unknownOperator spelling)
              else .error (.invalidLiteral spelling)

/-- The written form of a statement, its tokens set apart by blanks. -/
def statementText (tokens : List Token) : String :=
  String.intercalate " " (tokens.map fun token => String.ofList token.spelling)

/-- Reads one statement. -/
def parseStatement (levels : Levels) (reader : Reader) (tokens : List Token) :
    Except SyntaxError Node := do
  let items ← tokens.mapM (classifyToken levels reader)
  match ← collapse levels items with
  | [.operand node] => .ok node
  | _ => .error (.malformedStatement (statementText tokens))

/-- Whether a character belongs to an operator of the levels. -/
def Levels.isGlyph (levels : Levels) : Char → Bool :=
  let characters := levels.characters
  fun char => characters.contains char

/-- Reads the statements of a text. -/
def parseStatements (levels : Levels) (reader : Reader) (text : List Char) :
    Except SyntaxError (List Node) := do
  let statements ← tokenize levels.isGlyph text
  statements.mapM fun statement => parseStatement levels reader statement.tokens

/-- The tree of a group: its only statement, or a sequence of any other number of them. -/
def groupNode : List Node → Node
  | [node] => node
  | nodes => .body nodes

/-! ## Reading texts of bounded length -/

/-- Reads the interior of a group whose length is below a bound. -/
def readWithin (levels : Levels) : Nat → Reader
  | 0, _ => .ok (.body [])
  | bound + 1, text => (parseStatements levels (readWithin levels bound) text).map groupNode

/-- The reader of the groups inside a text. -/
def readerFor (levels : Levels) (text : List Char) : Reader := readWithin levels text.length

/-- Reads the interior of a group. -/
def parseBody (levels : Levels) (text : List Char) : Except SyntaxError Node :=
  (parseStatements levels (readerFor levels text) text).map groupNode

/-- Reads a source as a sequence of statements. -/
def parse (levels : Levels) (text : List Char) : Except SyntaxError Node :=
  (parseStatements levels (readerFor levels text) text).map .body

/-- Reads a text literal from the text between its braces. -/
def parseText (levels : Levels) (interior : List Char) : Except SyntaxError (List Segment) :=
  parseSegments (readerFor levels interior) interior

end Fixity.Syntax
