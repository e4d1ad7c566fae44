import Fixity.Proofs.Constants
import Fixity.Proofs.Splices
import Fixity.Proofs.Statements

/-!
Contract: texts that are written with escapes.

Owns:
- the written form of a text as pieces, one for each character, and its reading;
- `Arrangement`, text literals in parentheses, lists and quotes, as they are written and as trees;
- `Arrangement.Shows`, the values that arrangements stand for.

Does not own: texts with splices.

Main statement: an arrangement of literals is one token, whatever characters make up operators; it
reads as the arrangement, whatever the operators are, and its value shows the texts it was made of.
-/

namespace Fixity

namespace Syntax

/-! ## Escaped characters -/

/-- The piece that a character is written as. -/
def pieceOf (char : Char) : Piece :=
  if char = '\x7b' ∨ char = '\x7d' ∨ char = escapeGlyph then .escape char
  else if char = '\n' then .escape 'n'
  else if char = '\t' then .escape 't'
  else if char = '\r' then .escape 'r'
  else .character char

theorem pieceOf_written (char : Char) :
    (pieceOf char).spelling = escapeChar char ∧ (pieceOf char).decoded = [char] ∧
      (pieceOf char).Proper ∧ ¬ (pieceOf char).isSplice := by
  unfold pieceOf escapeChar
  by_cases special : char = '\x7b' ∨ char = '\x7d' ∨ char = escapeGlyph
  · rw [if_pos special, if_pos special]
    refine ⟨rfl, ?_, ⟨.escape char, nofun⟩, nofun⟩
    obtain rfl | rfl | rfl := special <;> rfl
  rw [if_neg special, if_neg special]
  by_cases newline : char = '\n'
  · rw [if_pos newline, if_pos newline, newline]
    exact ⟨rfl, rfl, ⟨.escape 'n', nofun⟩, nofun⟩
  rw [if_neg newline, if_neg newline]
  by_cases tabulator : char = '\t'
  · rw [if_pos tabulator, if_pos tabulator, tabulator]
    exact ⟨rfl, rfl, ⟨.escape 't', nofun⟩, nofun⟩
  rw [if_neg tabulator, if_neg tabulator]
  by_cases carriage : char = '\r'
  · rw [if_pos carriage, if_pos carriage, carriage]
    exact ⟨rfl, rfl, ⟨.escape 'r', nofun⟩, nofun⟩
  rw [if_neg carriage, if_neg carriage]
  simp only [not_or] at special
  refine ⟨rfl, rfl, ⟨.character ?_, fun same => special.2.1 (Piece.character.inj same)⟩, nofun⟩
  simpa using ⟨special.2.2, special.1⟩

theorem escape_eq_spelled (text : List Char) :
    escape text = Piece.spelled (text.map pieceOf) := by
  unfold escape Piece.spelled
  rw [List.flatMap_map]
  exact List.flatMap_congr fun char _ => (pieceOf_written char).1.symm

theorem proper_pieceOf (text : List Char) : ∀ piece ∈ text.map pieceOf, piece.Proper :=
  List.forall_mem_map.mpr fun char _ => (pieceOf_written char).2.2.1

/-- No brace in an escaped text opens or closes anything. -/
theorem closed_escape (text : List Char) : Closed (escape text) := by
  rw [escape_eq_spelled]
  exact (Piece.paired_spelled (proper_pieceOf text)).closed

/-- An escaped text reads as the text. -/
theorem parseText_escape (levels : Levels) (text : String) :
    parseText levels (escape text.toList) = .ok [.literal text] := by
  have noSplice : ∀ piece ∈ text.toList.map pieceOf, ¬ piece.isSplice :=
    List.forall_mem_map.mpr fun char _ => (pieceOf_written char).2.2.2
  have decoded : (text.toList.map pieceOf).flatMap Piece.decoded = text.toList := by
    rw [List.flatMap_map, List.flatMap_congr fun char _ => (pieceOf_written char).2.1]
    exact List.flatMap_singleton' _
  have whole : parseText levels (Piece.spelled (text.toList.map pieceOf) ++ []) =
      .ok [.literal text] := by
    refine (parseText_eq_ok (.inl rfl) fun piece member =>
      (proper_pieceOf text.toList piece member).legible).mpr ?_
    rw [Piece.runs_row noSplice]
    refine .cons ((stands_literal noSplice).mpr ?_) .nil
    rw [decoded, String.ofList_toList]
  rwa [List.append_nil, ← escape_eq_spelled] at whole

end Syntax

/-! ## Arrangements -/

/-- A text literal, alone or in parentheses, lists and quotes. -/
inductive Arrangement where
  | literal (text : String)
  | parentheses (inner : Arrangement)
  | list (elements : List Arrangement)
  | quoted (inner : Arrangement)

namespace Arrangement

open Syntax

/-- What holds of an arrangement if it holds of all that it is made of holds of all of them. -/
@[elab_as_elim, induction_eliminator]
theorem induction {motive : Arrangement → Prop} (literal : ∀ text, motive (literal text))
    (parentheses : ∀ inner, motive inner → motive (parentheses inner))
    (list : ∀ elements, (∀ element ∈ elements, motive element) → motive (list elements))
    (quoted : ∀ inner, motive inner → motive (quoted inner)) :
    (arrangement : Arrangement) → motive arrangement
  | .literal text => literal text
  | .parentheses inner =>
      parentheses inner (induction literal parentheses list quoted inner)
  | .list elements =>
      list elements fun element _ => induction literal parentheses list quoted element
  | .quoted inner => quoted inner (induction literal parentheses list quoted inner)

/-- The only token of an arrangement, its texts written with escapes. -/
def token : Arrangement → Token
  | literal text => .text (escape text.toList)
  | parentheses inner => .expression inner.token.spelling
  | list elements => .list ([','].intercalate (elements.map fun element => element.token.spelling))
  | quoted inner => .quoted inner.token.spelling

/-- The tree of an arrangement, in which parentheses leave no trace. -/
def node : Arrangement → Node
  | literal text => .plainText text
  | parentheses inner => inner.node
  | list elements => .list (elements.map node)
  | quoted inner => .quoted inner.node

/-- The number of nodes of an arrangement. -/
def size : Arrangement → Nat
  | literal _ => 1
  | parentheses inner => inner.size
  | list elements => (elements.map size).sum + 1
  | quoted _ => 1

/-- A value that an arrangement stands for: the text, a list of what the elements stand for, or the
tree of what is quoted. -/
inductive Shows (heap : Heap) : Arrangement → Value → Prop
  | literal {handle : Nat} (held : heap.Holds (.text handle)) :
      Shows heap (.literal (heap.text handle)) (.text handle)
  | parentheses {inner : Arrangement} {value : Value} (inside : Shows heap inner value) :
      Shows heap (.parentheses inner) value
  | list {elements : List Arrangement} {handle : Nat} (held : heap.Holds (.list handle))
      (all : elements.length = (heap.list handle).toList.length)
      (each : ∀ entry ∈ elements.zip (heap.list handle).toList, Shows heap entry.1 entry.2) :
      Shows heap (.list elements) (.list handle)
  | quoted {inner : Arrangement} {handle : Nat} (held : heap.Holds (.node handle))
      (tree : heap.node handle = inner.node) : Shows heap (.quoted inner) (.node handle)

theorem Shows.grows {heap later : Heap} {arrangement : Arrangement} {value : Value}
    (shows : Shows heap arrangement value) (grows : heap.Grows later) :
    Shows later arrangement value := by
  induction shows with
  | literal held =>
      rw [← grows.text held]
      exact .literal (grows.holds held)
  | parentheses _ inductionHypothesis => exact .parentheses inductionHypothesis
  | list held all each inductionHypothesis =>
      have same := grows.list held
      refine .list (grows.holds held) (by rw [same]; exact all) fun entry member => ?_
      rw [same] at member
      exact inductionHypothesis entry member
  | quoted held tree => exact .quoted (grows.holds held) ((grows.node held).trans tree)

/-! ## Reading arrangements -/

/-- A row of balanced texts with commas between them. -/
private theorem balanced_intercalate {texts : List (List Char)}
    (balanced : ∀ text ∈ texts, Balanced 0 text) : Balanced 1 ([','].intercalate texts) := by
  have comma : Balanced 1 [','] :=
    balanced_of_plain (by decide) (by simp) (by decide) (by decide)
  induction texts with
  | nil => exact balanced_of_plain (by simp) (by simp) (by simp) (by decide)
  | cons text rest inductionHypothesis =>
      have first : Balanced 1 text := (balanced text List.mem_cons_self).mono (Nat.zero_le 1)
      cases rest with
      | nil => rwa [List.intercalate_singleton]
      | cons next rest =>
          rw [List.intercalate_cons_cons]
          exact (first.append comma).append
            (inductionHypothesis fun other member => balanced other (List.mem_cons_of_mem _ member))

theorem balanced (arrangement : Arrangement) : Balanced 0 arrangement.token.spelling := by
  induction arrangement with
  | literal text =>
      rw [token]
      exact (closed_escape text.toList).balanced
  | parentheses inner inductionHypothesis =>
      rw [token]
      exact (inductionHypothesis.mono (Nat.zero_le 1)).delimited (.inl ⟨rfl, rfl⟩)
  | list elements inductionHypothesis =>
      rw [token]
      exact (balanced_intercalate (List.forall_mem_map.mpr inductionHypothesis)).delimited
        (.inr ⟨rfl, rfl⟩)
  | quoted inner inductionHypothesis =>
      have quote : Balanced 0 ['\x60'] :=
        balanced_of_plain (by decide) (by simp) (by decide) (by decide)
      rw [token]
      exact quote.append inductionHypothesis.literal.balanced

/-- An arrangement is one token, whatever characters make up operators. -/
theorem statementsFrom_spelling (arrangement : Arrangement) (isGlyph : Char → Bool) :
    statementsFrom isGlyph [] arrangement.token.spelling = .ok [⟨[arrangement.token], []⟩] := by
  cases arrangement with
  | literal text =>
      rw [token]
      exact tokenize_eq_ok.mp ((tokenize_text_iff isGlyph).mpr (closed_escape text.toList))
  | parentheses inner =>
      have inside := (inner.balanced.mono (Nat.zero_le 1)).toPassed
      rw [token]
      exact (statementsFrom_token (lexeme_expression inside [])).trans (statementsFrom_nil _ _)
  | list elements =>
      have each : ∀ text ∈ elements.map fun element => element.token.spelling, Balanced 0 text :=
        List.forall_mem_map.mpr fun element _ => element.balanced
      rw [token]
      exact (statementsFrom_token (lexeme_list (balanced_intercalate each).toPassed [])).trans
        (statementsFrom_nil _ _)
  | quoted inner =>
      rw [token]
      exact (statementsFrom_token (lexeme_quoted inner.balanced.literal [])).trans
        (statementsFrom_nil _ _)

/-- No arrangement is written with blanks alone. -/
private theorem spelling_not_blank (arrangement : Arrangement) :
    ∃ char ∈ arrangement.token.spelling, ¬ Text.isBlank char := by
  cases arrangement with
  | literal text => exact ⟨'\x7b', by rw [token]; exact List.mem_cons_self, by decide⟩
  | parentheses inner => exact ⟨'(', by rw [token]; exact List.mem_cons_self, by decide⟩
  | list elements => exact ⟨'[', by rw [token]; exact List.mem_cons_self, by decide⟩
  | quoted inner => exact ⟨'\x60', by rw [token]; exact List.mem_cons_self, by decide⟩

/-- An arrangement reads as its tree, whatever the operators are. -/
theorem classified (arrangement : Arrangement) (levels : Levels) :
    Classified levels arrangement.token (.operand arrangement.node) := by
  have inGroup {inner : Arrangement}
      (stands : Classified levels inner.token (.operand inner.node)) :
      parseBody levels inner.token.spelling = .ok inner.node :=
    (parse_of_statement (inner.statementsFrom_spelling levels.isGlyph)
      (parseStatement_operand stands)).2
  induction arrangement with
  | literal text =>
      rw [token, node]
      exact .text (parseText_escape levels text)
  | parentheses inner inductionHypothesis =>
      rw [token, node]
      exact .expression (inGroup inductionHypothesis)
  | quoted inner inductionHypothesis =>
      rw [token, node]
      exact .quoted (inGroup inductionHypothesis)
  | list elements inductionHypothesis =>
      rw [token, node]
      cases elements with
      | nil => exact .emptyList (by simp)
      | cons element rest =>
          refine .list (fun blank => ?_) ?_
          · obtain ⟨char, member, visible⟩ := element.spelling_not_blank
            refine visible (blank char ?_)
            cases rest with
            | nil =>
                rw [List.map_singleton, List.intercalate_singleton]
                exact member
            | cons next rest =>
                rw [List.map_cons, List.map_cons, List.intercalate_cons_cons]
                exact List.mem_append_left _ (List.mem_append_left _ member)
          · rw [splitElements_intercalate (by simp)
              (List.forall_mem_map.mpr fun element _ => element.balanced.toPassed),
              List.forall₂_map_left_iff, List.forall₂_map_right_iff, List.forall₂_same]
            exact fun element member => inGroup (inductionHypothesis element member)

/-! ## Evaluating arrangements -/

/-- An arrangement has a value that shows it. -/
theorem yields (arrangement : Arrangement) (host : Host) {bound : Nat} {state : State}
    (enough : arrangement.size ≤ bound) :
    Eval.Yields (fun later => arrangement.Shows later)
      ((Eval.run host bound).eval arrangement.node) state := by
  induction arrangement generalizing bound state with
  | literal text =>
      rw [size] at enough
      obtain ⟨fewer, rfl⟩ := Nat.exists_eq_add_of_le' enough
      have written : Heap.text { state.heap with texts := state.heap.texts.push text }
          state.heap.texts.size = text := Heap.getD_push _ _ _
      rw [node]
      refine Eval.yields_text ?_
      conv => arg 2; rw [← written]
      exact .literal (Heap.lt_size_push _ _)
  | parentheses inner inductionHypothesis =>
      rw [size] at enough
      obtain ⟨value, later, ran, grows, shows⟩ := inductionHypothesis enough
      rw [node]
      exact ⟨value, later, ran, grows, .parentheses shows⟩
  | quoted inner _ =>
      rw [size] at enough
      obtain ⟨fewer, rfl⟩ := Nat.exists_eq_add_of_le' enough
      rw [node]
      exact Eval.yields_quoted (.quoted (Heap.lt_size_push _ _) (Heap.getD_push _ _ _))
  | list elements inductionHypothesis =>
      rw [size] at enough
      obtain ⟨fewer, rfl⟩ := Nat.exists_eq_add_of_le' (Nat.le_trans (Nat.le_add_left 1 _) enough)
      have each : ∀ element ∈ elements, ∀ reached : State, state.heap.Grows reached.heap →
          Eval.Yields (fun later => element.Shows later)
            ((Eval.run host fewer).eval element.node) reached := by
        intro element member reached _
        have part := List.le_sum_of_mem (List.mem_map_of_mem (f := size) member)
        exact inductionHypothesis element member (by omega)
      rw [node]
      refine Eval.yields_list (fun _ _ _ _ shows grows => shows.grows grows) each (.refl _)
        fun heap values _ shows => ?_
      have grows : heap.Grows { heap with lists := heap.lists.push values.toArray } :=
        .push_list heap values.toArray
      have written : Heap.list { heap with lists := heap.lists.push values.toArray }
          heap.lists.size = values.toArray := Heap.getD_push _ _ _
      have row' := shows.imp fun _ _ inner => inner.grows grows
      refine .list (Heap.lt_size_push _ _) ?_ ?_
      · rw [written]
        exact shows.length_eq
      · rw [written]
        exact fun entry member => List.forall₂_zip row' member

/-- An arrangement of texts survives being written. It is one token, with the texts written with
escapes, whatever characters make up operators; whatever the operators are, it reads as its tree,
each text as its own literal; and evaluation adds cells, changes nothing else, and ends with a value
that shows the texts. -/
theorem survives (arrangement : Arrangement) :
    (∀ isGlyph, tokenize isGlyph arrangement.token.spelling =
      .ok [⟨[arrangement.token], []⟩]) ∧
    (∀ levels (text : String), parseText levels (escape text.toList) = .ok [.literal text]) ∧
    (∀ levels, parse levels arrangement.token.spelling = .ok (.body [arrangement.node])) ∧
    ∀ host bound state, arrangement.size ≤ bound →
      Eval.Yields (fun later => arrangement.Shows later)
        (Eval.run host (bound + 1) (.source (String.ofList arrangement.token.spelling))) state ∧
      Eval.Yields (fun later => arrangement.Shows later)
        ((Eval.run host bound).eval arrangement.node) state := by
  refine ⟨fun isGlyph => tokenize_eq_ok.mpr (arrangement.statementsFrom_spelling isGlyph),
    parseText_escape, fun levels => ?_, fun host bound state enough => ⟨?_, ?_⟩⟩
  · exact (parse_of_statement (arrangement.statementsFrom_spelling levels.isGlyph)
      (parseStatement_operand (arrangement.classified levels))).1
  · have divided : tokenize state.scope.operators.levels.isGlyph
        (String.ofList arrangement.token.spelling).toList = .ok [⟨[arrangement.token], []⟩] := by
      rw [String.toList_ofList]
      exact tokenize_eq_ok.mpr (arrangement.statementsFrom_spelling _)
    exact Eval.yields_source divided (parseStatement_operand (arrangement.classified _))
      (arrangement.yields host enough)
  · exact arrangement.yields host enough

/-- A list of a brace and of an escape glyph that is quoted in parentheses. -/
theorem survives_braces :
    let arrangement := list [literal "\x7b", quoted (parentheses (literal "\\"))]
    arrangement.size ≤ 3 ∧
    tokenize (Levels.isGlyph []) arrangement.token.spelling = .ok [⟨[arrangement.token], []⟩] ∧
    parse [] arrangement.token.spelling = .ok (.body [arrangement.node]) ∧
    Eval.Yields (fun later => arrangement.Shows later)
      (Eval.run (CommandLine.host (CommandLine.listedFiles [])) 4
        (.source (String.ofList arrangement.token.spelling))) (.initial .empty .empty) := by
  intro arrangement
  have enough : arrangement.size ≤ 3 := by simp [arrangement, size]
  obtain ⟨divided, _, parsed, yields⟩ := survives arrangement
  exact ⟨enough, divided _, parsed [], (yields _ 3 _ enough).1⟩

end Arrangement

end Fixity
