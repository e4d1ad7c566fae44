import Fixity.Proofs.Balance
import Fixity.Proofs.Lexing
import Fixity.Proofs.Literals
import Fixity.Proofs.Statements

/-!
Contract: the trees that reading a group leads to.

Owns:
- `Readable`, the trees that can be written down: no sequence of a single statement, texts that
  their own braces close, names and numbers that literals spell;
- the proof that everything read from a text is readable.

Does not own: writing trees down.
-/

namespace Fixity.Syntax

/-- A tree that a text can stand for. -/
inductive Readable (levels : Levels) : Node → Prop where
  | body {statements : List Node} (notSingle : statements.length ≠ 1)
      (each : ∀ node ∈ statements, Readable levels node) : Readable levels (.body statements)
  | list {elements : List Node} (each : ∀ node ∈ elements, Readable levels node) :
      Readable levels (.list elements)
  | number {value : Number} (part : value.real = 0.0 ∨ value.imaginary = 0.0) :
      Readable levels (.number value)
  | text {source : String} {segments : List Segment} (closed : Closed source.toList)
      (read : parseText levels source.toList = .ok segments) :
      Readable levels (.text source segments)
  | identifier {name : String} (spelled : classify name.toList = some (.name name)) :
      Readable levels (.identifier name)
  | operation {token : String} {left right : Node} (known : levels.contains token)
      (leftReadable : Readable levels left) (rightReadable : Readable levels right) :
      Readable levels (.operation token left right)
  | quoted {inner : Node} (readable : Readable levels inner) : Readable levels (.quoted inner)

variable {levels : Levels}

theorem classify_eq_number {characters : List Char} {value : Number}
    (spelled : classify characters = some (.number value)) :
    readNumber? characters = some value := by
  unfold classify at spelled
  split at spelled
  · next number read =>
    cases spelled
    exact read
  · obtain ⟨_, _, same⟩ := Option.map_eq_some_iff.mp spelled
    cases same

theorem classify_eq_name {characters : List Char} {name : String}
    (spelled : classify characters = some (.name name)) :
    readNumber? characters = none ∧ readName? characters = some name ∧
      name = String.ofList characters := by
  unfold classify at spelled
  split at spelled
  · cases spelled
  · next noNumber =>
    obtain ⟨_, read, same⟩ := Option.map_eq_some_iff.mp spelled
    cases same
    refine ⟨noNumber, read, ?_⟩
    unfold readName? at read
    split at read
    · cases read
    · split at read
      · exact (Option.some.inj read).symm
      · cases read

/-! ## Statements -/

/-- A grouping of readable operands is readable. -/
theorem Readable.of_grouping {grouping : Grouping}
    (operands : ∀ node, Item.operand node ∈ grouping.items → Readable levels node)
    (operators : ∀ token level, Item.operator token level ∈ grouping.items →
      levels.contains token) : Readable levels grouping.node := by
  induction grouping with
  | leaf operand => exact operands operand (List.mem_singleton_self _)
  | join token level left right leftHypothesis rightHypothesis =>
      refine .operation (operators token level (by simp [Grouping.items])) ?_ ?_
      · exact leftHypothesis
          (fun node member => operands node (by simp [Grouping.items, member]))
          (fun other level member => operators other level (by simp [Grouping.items, member]))
      · exact rightHypothesis
          (fun node member => operands node (by simp [Grouping.items, member]))
          (fun other level member => operators other level (by simp [Grouping.items, member]))

/-- An operand is readable if what its groups hold is. -/
theorem Classified.readable {token : Token} {node : Node}
    (reads : ∀ text inner, text.length ≤ token.interior.length →
      parseBody levels text = .ok inner → Readable levels inner)
    (closed : ∀ interior, token = .text interior → Closed interior)
    (classified : Classified levels token (.operand node)) : Readable levels node := by
  cases classified with
  | expression read => exact reads _ _ (Nat.le_refl _) read
  | emptyList blank => exact .list (by simp)
  | @list interior nodes inhabited read =>
      refine .list fun node member => ?_
      obtain ⟨element, inElements, readElement⟩ := exists_left_of_forall₂ read member
      exact reads element node (splitElements_length inElements) readElement
  | text read =>
      exact .text (by simpa using closed _ rfl) (by simpa using read)
  | quoted read => exact .quoted (reads _ _ (Nat.le_refl _) read)
  | number unknown spelled => exact .number (readNumber?_parts (classify_eq_number spelled))
  | name unknown spelled =>
      obtain ⟨_, _, rfl⟩ := classify_eq_name spelled
      exact .identifier (by simpa using spelled)

/-! ## Texts -/

/-- A text is readable if all shorter ones are. -/
private theorem Readable.of_parseStatements {text : List Char} {nodes : List Node}
    (reads : ∀ other inner, other.length < text.length →
      parseBody levels other = .ok inner → Readable levels inner)
    (parsed : parseStatements levels (parseBody levels) text = .ok nodes) :
    ∀ node ∈ nodes, Readable levels node := by
  intro node member
  obtain ⟨statements, divided, read⟩ := bind_eq_ok.mp parsed
  obtain ⟨statement, inStatements, parsedOne⟩ :=
    exists_left_of_forall₂ (mapM_eq_ok.mp read) member
  have shorter := (tokenize_length divided statement inStatements).2
  have closed : ∀ token ∈ statement.tokens, ∀ interior, token = .text interior →
      Closed interior := by
    refine statementsFrom_tokens ?_ nofun (tokenize_eq_ok.mp divided) statement inStatements
    rintro char rest token after found interior rfl
    exact closed_of_textInterior (lexeme_eq_text found)
  obtain ⟨grouping, _, classified, rfl⟩ := parseStatement_iff_grouping.mp parsedOne
  refine .of_grouping (fun operand inItems => ?_) (fun token level inItems => ?_)
  · obtain ⟨token, inTokens, stands⟩ := exists_left_of_forall₂ classified inItems
    have tokenShorter := shorter token inTokens
    exact stands.readable (fun other inner inside => reads other inner (by omega))
      (closed token inTokens)
  · obtain ⟨_, _, stands⟩ := exists_left_of_forall₂ classified inItems
    cases stands with
    | operator known => exact Levels.contains_of_levelOf? known

/-- Whatever is read from a text is readable. -/
theorem Readable.of_parseBody {text : List Char} {node : Node}
    (parsed : parseBody levels text = .ok node) : Readable levels node := by
  induction bound : text.length using Nat.strongRecOn generalizing text node with
  | ind bound inductionHypothesis =>
      subst bound
      rw [parseBody_eq, map_eq_ok] at parsed
      obtain ⟨nodes, parsed, rfl⟩ := parsed
      have each := Readable.of_parseStatements (fun other inner shorter read =>
        inductionHypothesis other.length shorter read rfl) parsed
      match nodes, each with
      | [], _ => exact .body (by decide) nofun
      | [node], each => exact each node (List.mem_singleton_self node)
      | first :: second :: rest, each => exact .body (by simp) each

end Fixity.Syntax
