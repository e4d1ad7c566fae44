import Fixity.Proofs.Refusals
import Fixity.Proofs.Splices
import Fixity.Syntax.Printer

/-!
Contract: text nodes made from a source while a program runs.

Owns:
- what becomes of a text node that is given a new source;
- the texts that the reader of text literals accepts, beside those that stand between the braces of
  a literal: it also takes closing braces that close nothing, and an escape glyph at the end;
- when the printed form of a text node reads back as the node.

Does not own: the printed form of other trees.

Main statement: a text that can be read as the source of a text node prints as one token, and as a
tree that reads back, unless there is such a brace or such a glyph in it.
-/

namespace Fixity

open OnHeap in
/-- A text node takes a new source that can be read, and is left as it is with any other. -/
theorem Trees.setSource_text (levels : Syntax.Levels) {heap : Heap} {handle : Nat}
    {source : String} {segments : List Segment} (held : heap.node handle = .text source segments)
    (cell : Nat) :
    Trees.setSource levels (.node handle) (.text cell) heap =
      match Syntax.parseText levels (heap.text cell).toList with
      | .ok segments => .ok (.node handle) { heap with
          nodes := heap.nodes.modify handle fun _ => .text (heap.text cell) segments }
      | .error error => .error (.source error) heap := by
  have isNode : ofOutcome (Value.asNode (.node handle) "the first argument of settext") heap =
      .ok handle heap := rfl
  have isText : textOf (.text cell) "the new text" heap = .ok (heap.text cell) heap := rfl
  have whole : (get : OnHeap Heap) heap = .ok heap heap := rfl
  unfold Trees.setSource
  refine (bind_of_ok isNode).trans ((bind_of_ok isText).trans ?_)
  cases read : Syntax.parseText levels (heap.text cell).toList with
  | error error => exact bind_of_error rfl
  | ok segments =>
      refine (bind_of_ok rfl).trans ((bind_of_ok whole).trans ?_)
      rw [held]
      rfl

namespace Syntax

open Piece

/-- A text that starts with a brace starts with a text token, if it can be divided at all. -/
private theorem exists_text_token {isGlyph : Char → Bool} {rest : List Char}
    {statements : List Statement} (divided : tokenize isGlyph ('\x7b' :: rest) = .ok statements) :
    ∃ interior, ∃ statement ∈ statements, .text interior ∈ statement.tokens := by
  have ok := tokenize_eq_ok.mp divided
  cases found : textInterior 0 rest with
  | none =>
      have fails : lexeme isGlyph '\x7b' rest = .error (.incompleteGroup .text) := by
        show group .text .text (textInterior 0 rest) = _
        rw [found]
        rfl
      rw [statementsFrom_fault [] fails] at ok
      cases ok
  | some pair =>
      obtain ⟨interior, after⟩ := pair
      have first : lexeme isGlyph '\x7b' rest = .ok (.token (.text interior), after) := by
        show group .text .text (textInterior 0 rest) = _
        rw [found]
        rfl
      rw [statementsFrom_token first] at ok
      exact ⟨interior, mem_statementsFrom ok List.mem_cons_self⟩

variable {levels : Levels} {source : String} {segments : List Segment}

private theorem text_display :
    (Node.text source segments).display.toList = (Token.text source.toList).spelling := by
  simp [Node.display, Node.render, Token.spelling]

/-- Only a closed source reads back as a text node. -/
private theorem closed_of_parse
    (parsed : parse levels (Node.text source segments).display.toList =
      .ok (.body [.text source segments])) : Closed source.toList := by
  have whole : (Node.text source segments).display.toList =
      '\x7b' :: (source.toList ++ ['\x7d']) := text_display
  rw [whole, parse_eq, map_eq_ok] at parsed
  obtain ⟨nodes, read, one⟩ := parsed
  obtain rfl : nodes = [.text source segments] := Node.body.inj one
  obtain ⟨statements, divided, row⟩ := bind_eq_ok.mp read
  have statementRead := mapM_eq_ok.mp row
  rw [List.forall₂_cons_right_iff] at statementRead
  obtain ⟨statement, others, inStatement, none, rfl⟩ := statementRead
  obtain rfl : others = [] := List.forall₂_nil_right_iff.mp none
  obtain ⟨interior, _, member, inTokens⟩ := exists_text_token divided
  obtain rfl := List.mem_singleton.mp member
  have closed : Closed interior := closed_of_tokenize divided member inTokens
  obtain ⟨grouping, _, classified, same⟩ := parseStatement_iff_grouping.mp inStatement
  cases grouping with
  | join token level left right => cases same
  | leaf operand =>
      obtain rfl : operand = .text source segments := same
      obtain ⟨token, behind, stands, none, tokens⟩ :=
        (List.forall₂_cons_right_iff).mp classified
      rw [tokens] at inTokens
      obtain rfl : behind = [] := List.forall₂_nil_right_iff.mp none
      obtain rfl := List.mem_singleton.mp inTokens
      cases stands with
      | text _ => rwa [String.toList_ofList]

private theorem parse_of_closed (read : parseText levels source.toList = .ok segments)
    (closed : Closed source.toList) :
    parse levels (Node.text source segments).display.toList =
      .ok (.body [.text source segments]) := by
  have divided := tokenize_eq_ok.mp ((tokenize_text_iff levels.isGlyph).mpr closed)
  have stands := Classified.text read
  rw [String.ofList_toList] at stands
  rw [text_display]
  exact (parse_of_statement divided (parseStatement_operand stands)).1

/-- What can be read as the source of a text node is made of pieces, closing braces that close
nothing among them, and it may end in an escape glyph. Where it holds no such brace and does not end
so, the node prints as one token and as a source that reads back as the node; otherwise neither. -/
theorem parse_display_text_iff (levels : Levels) (source : String) (segments : List Segment)
    (read : parseText levels source.toList = .ok segments) :
    ∃ pieces tail, source.toList = spelled pieces ++ tail ∧
      (∀ piece ∈ pieces, piece.Legible) ∧ Ending tail ∧
      (tokenize levels.isGlyph (Token.text source.toList).spelling =
          .ok [⟨[.text source.toList], []⟩] ↔ stray ∉ pieces ∧ tail = []) ∧
      (parse levels (Node.text source segments).display.toList =
          .ok (.body [.text source segments]) ↔ stray ∉ pieces ∧ tail = []) := by
  obtain ⟨pieces, tail, whole, legible, ends⟩ := exists_pieces_of_parseText read
  have closed : Closed source.toList ↔ stray ∉ pieces ∧ tail = [] := by
    rw [whole]
    exact closed_spelled_iff ends legible
  exact ⟨pieces, tail, whole, legible, ends, (tokenize_text_iff levels.isGlyph).trans closed,
    Iff.trans ⟨closed_of_parse, parse_of_closed read⟩ closed⟩

/-- A closing brace alone can be read, and it does not read back. -/
theorem parse_display_text_brace :
    parseText [] "\x7d".toList = .ok [.literal "\x7d"] ∧
    tokenize (Levels.isGlyph []) (Token.text "\x7d".toList).spelling ≠
      .ok [⟨[.text "\x7d".toList], []⟩] ∧
    ∃ pieces tail, "\x7d".toList = spelled pieces ++ tail ∧
      (∀ piece ∈ pieces, piece.Legible) ∧ Ending tail ∧
      (tokenize (Levels.isGlyph []) (Token.text "\x7d".toList).spelling =
          .ok [⟨[.text "\x7d".toList], []⟩] ↔ stray ∉ pieces ∧ tail = []) ∧
      (parse [] (Node.text "\x7d" [.literal "\x7d"]).display.toList =
          .ok (.body [.text "\x7d" [.literal "\x7d"]]) ↔ stray ∉ pieces ∧ tail = []) := by
  have read : parseText [] "\x7d".toList = .ok [.literal "\x7d"] := by
    have whole : parseText [] (spelled [stray] ++ []) = .ok [.literal "\x7d"] :=
      (parseText_eq_ok (.inl rfl) (by simpa using .character (by decide))).mpr
        (.cons (.literal (by simp [stray, isSplice])) .nil)
    exact whole
  have unpaired : ¬ Closed "\x7d".toList := by
    intro closed
    have same : textInterior 0 ['\x7d', '\x7d'] = some (['\x7d'], []) := closed.textInterior []
    rw [textInterior_end] at same
    cases same
  exact ⟨read, mt (tokenize_text_iff _).mp unpaired,
    parse_display_text_iff [] "\x7d" [.literal "\x7d"] read⟩

end Syntax

end Fixity
