import Mathlib.Logic.Relation
import Fixity.Proofs.Readers
import Fixity.Proofs.Rounds
import Fixity.Proofs.Wholeness

/-!
Contract: reading comes to an end.

Owns:
- `Call`, the calls of the readers with the texts they receive, and `Call.Makes`, the calls that a
  call makes;
- that the texts of the calls inside a text are shorter, so no chain of calls is endless;
- that what is read depends on nothing but these calls, so that it is settled once readers are
  nested more deeply than the text is long.

Does not own: what a text reads as.

Main statement: `reading_ends`, the calls of the readers and their loops come to an end for all
operators and all texts.
-/

namespace Fixity.Syntax

/-! ## Calls -/

/-- A call of a reader: with a group's interior, a row of statements, one token, or the interior of
a list or of a text literal. -/
inductive Call where
  | group (interior : List Char)
  | source (text : List Char)
  | token (spelling : List Char)
  | list (interior : List Char)
  | literal (interior : List Char)

namespace Call

/-- The text that a call receives. -/
def text : Call → List Char
  | group text | source text | token text | list text | literal text => text

/-- The calls that a call makes, if it is not stopped by an error. Tokens are told apart by their
first character, and their delimiters are cut off as bytes. -/
inductive Makes (levels : Levels) : Call → Call → Prop
  | statements (text : List Char) : Makes levels (group text) (source text)
  | token {text : List Char} {statements : List Statement} {statement : Statement} {read : Token}
      (ok : tokenize levels.isGlyph text = .ok statements) (member : statement ∈ statements)
      (inStatement : read ∈ statement.tokens) : Makes levels (source text) (token read.spelling)
  | expression (rest : List Char) :
      Makes levels (token ('(' :: rest)) (group (groupBody ('(' :: rest) 1))
  | list (rest : List Char) :
      Makes levels (token ('[' :: rest)) (list (groupBody ('[' :: rest) 1))
  | literal (rest : List Char) :
      Makes levels (token ('\x7b' :: rest)) (literal (groupBody ('\x7b' :: rest) 1))
  | quoted (rest : List Char) :
      Makes levels (token ('\x60' :: rest)) (group (groupBody ('\x60' :: rest) 2))
  | element {interior element : List Char} (inhabited : ¬ (Text.trim interior).isEmpty)
      (member : element ∈ splitElements interior) : Makes levels (list interior) (group element)
  | splice {interior inner : List Char} (spliced : Spliced interior inner) :
      Makes levels (literal interior) (group inner)

end Call

/-! ## Shorter texts -/

theorem dropBytes?_length {count : Nat} {text rest : List Char}
    (dropped : dropBytes? count text = some rest) : rest.length ≤ text.length := by
  fun_induction dropBytes? count text with
  | case1 => exact Nat.le_of_eq (congrArg List.length (Option.some.inj dropped)).symm
  | case2 => cases dropped
  | case3 count char others _ inductionHypothesis =>
      exact Nat.le_succ_of_le (inductionHypothesis dropped)
  | case4 => cases dropped

/-- A group without its delimiters is shorter, also where there is nothing to cut off. -/
theorem groupBody_length {group : List Char} (inhabited : group ≠ []) (opening : Nat) :
    (groupBody group opening).length < group.length := by
  have positive := List.length_pos_iff.mpr inhabited
  unfold groupBody
  split
  · exact positive
  · next rest dropped =>
    split
    · next closer last =>
      have shorter := dropBytes?_length dropped
      have some : rest ≠ [] := by
        rintro rfl
        cases last
      have := List.length_pos_iff.mpr some
      split
      · rw [List.length_dropLast]
        omega
      · exact positive
    · exact positive

/-- A token is not longer than the text it is read from. -/
theorem spelling_length {isGlyph : Char → Bool} {text : List Char} {statements : List Statement}
    (ok : tokenize isGlyph text = .ok statements) {statement : Statement}
    (member : statement ∈ statements) {token : Token} (inStatement : token ∈ statement.tokens) :
    token.spelling.length ≤ text.length := by
  have kept := (tokenize_whole ok).2.1
  have inTokens : token ∈ statements.flatMap (·.tokens) :=
    List.mem_flatMap.mpr ⟨statement, member, inStatement⟩
  exact ((List.sublist_flatten_of_mem (List.mem_map_of_mem inTokens)).trans kept).length_le

namespace Call

variable {levels : Levels} {call inner : Call}

/-- Calls whose calls all receive shorter texts. -/
def Cuts : Call → Prop
  | token _ | literal _ => True
  | _ => False

/-- No call hands over a longer text than it has received. -/
theorem Makes.length_le (makes : call.Makes levels inner) :
    inner.text.length ≤ call.text.length := by
  cases makes with
  | statements => exact Nat.le_refl _
  | token ok member inStatement => exact spelling_length ok member inStatement
  | expression | list | literal | quoted =>
      exact Nat.le_of_lt (groupBody_length (List.cons_ne_nil _ _) _)
  | element _ member => exact splitElements_length member
  | splice spliced => exact Nat.le_of_lt spliced.length

theorem Makes.length_lt (makes : call.Makes levels inner) (cuts : call.Cuts) :
    inner.text.length < call.text.length := by
  cases makes with
  | statements | token | element => exact cuts.elim
  | expression | list | literal | quoted => exact groupBody_length (List.cons_ne_nil _ _) _
  | splice spliced => exact spliced.length

/-- What a call leads to receives no longer text. -/
theorem length_le_of_leads (leads : Relation.ReflTransGen (Makes levels) call inner) :
    inner.text.length ≤ call.text.length := by
  induction leads with
  | refl => exact Nat.le_refl _
  | tail _ makes inductionHypothesis => exact Nat.le_trans makes.length_le inductionHypothesis

/-- Everything inside a token or a text literal is shorter. -/
theorem length_lt_of_leads (leads : Relation.TransGen (Makes levels) call inner)
    (cuts : call.Cuts) : inner.text.length < call.text.length := by
  obtain ⟨next, makes, onward⟩ := Relation.TransGen.head'_iff.mp leads
  exact Nat.lt_of_le_of_lt (length_le_of_leads onward) (makes.length_lt cuts)

/-- What reading a text leads to is shorter, apart from the tokens of the text itself. -/
theorem length_lt_of_source {text : List Char}
    (leads : Relation.TransGen (Makes levels) (source text) inner) :
    inner.text.length < text.length ∨ Makes levels (source text) inner := by
  obtain ⟨next, makes, onward⟩ := Relation.TransGen.head'_iff.mp leads
  obtain rfl | onward := Relation.reflTransGen_iff_eq_or_transGen.mp onward
  · exact .inr makes
  · cases makes with
    | token ok member inStatement =>
        exact .inl (Nat.lt_of_lt_of_le (length_lt_of_leads onward trivial)
          (spelling_length ok member inStatement))

/-- Where a call stands among those with texts of the same length. -/
def rank : Call → Nat
  | token text => 4 * text.length
  | source text => 4 * text.length + 1
  | group text => 4 * text.length + 2
  | list text | literal text => 4 * text.length + 3

theorem Makes.rank_lt (makes : call.Makes levels inner) : inner.rank < call.rank := by
  have noLonger := makes.length_le
  have shorter : call.Cuts → _ := makes.length_lt
  cases makes with
  | statements => exact Nat.lt_succ_self _
  | token => exact Nat.lt_succ_of_le (Nat.mul_le_mul_left 4 noLonger)
  | expression | list | literal | quoted | splice =>
      have cut := shorter trivial
      simp only [text, rank] at cut ⊢
      omega
  | element =>
      simp only [text, rank] at noLonger ⊢
      omega

/-- No chain of calls is endless. -/
theorem makes_wellFounded (levels : Levels) :
    WellFounded fun inner call => Makes levels call inner :=
  Subrelation.wf Makes.rank_lt (measure rank).wf

/-! ## What the calls hand over -/

/-- The interiors that a call hands to the reader of groups, itself or through calls of other
readers. -/
inductive Hands (levels : Levels) : Call → List Char → Prop
  | group {call : Call} {interior : List Char} (makes : call.Makes levels (group interior)) :
      Hands levels call interior
  | through {call next : Call} {interior : List Char} (makes : call.Makes levels next)
      (noGroup : ∀ text, next ≠ .group text) (hands : Hands levels next interior) :
      Hands levels call interior

/-- What the reading of a token hands over is what the call with its characters hands over. -/
theorem hands_token {read : Token} {interior : List Char} (hands : read.Hands interior) :
    (token read.spelling).Hands levels interior := by
  cases hands with
  | expression interior =>
      have makes : Makes levels _ _ := .expression (interior ++ [')'])
      have isBracket : (⟨[], '(', ')'⟩ : Bracket) ∈ Bracket.all := by simp [Bracket.all]
      have body : groupBody ('(' :: (interior ++ [')'])) 1 = interior :=
        groupBody_written isBracket interior
      rw [body] at makes
      exact .group makes
  | quoted interior =>
      have makes : Makes levels _ _ := .quoted ('\x7b' :: (interior ++ ['\x7d']))
      have isBracket : (⟨['\x60'], '\x7b', '\x7d'⟩ : Bracket) ∈ Bracket.all := by
        simp [Bracket.all]
      have body : groupBody ('\x60' :: '\x7b' :: (interior ++ ['\x7d'])) 2 = interior :=
        groupBody_written isBracket interior
      rw [body] at makes
      exact .group makes
  | @list interior element inhabited member =>
      have makes : Makes levels _ _ := .list (interior ++ [']'])
      have isBracket : (⟨[], '[', ']'⟩ : Bracket) ∈ Bracket.all := by simp [Bracket.all]
      have body : groupBody ('[' :: (interior ++ [']'])) 1 = interior :=
        groupBody_written isBracket interior
      rw [body] at makes
      exact .through makes (fun _ same => by cases same) (.group (.element inhabited member))
  | @text interior inner spliced =>
      have makes : Makes levels _ _ := .literal (interior ++ ['\x7d'])
      have isBracket : (⟨[], '\x7b', '\x7d'⟩ : Bracket) ∈ Bracket.all := by simp [Bracket.all]
      have body : groupBody ('\x7b' :: (interior ++ ['\x7d'])) 1 = interior :=
        groupBody_written isBracket interior
      rw [body] at makes
      exact .through makes (fun _ same => by cases same) (.group (.splice spliced))

/-- The statements of a text depend on the reader of groups at the interiors handed to it only. -/
theorem parseStatements_hands {reader other : Reader} {text : List Char}
    (agree : ∀ interior, (source text).Hands levels interior → reader interior = other interior) :
    parseStatements levels reader text = parseStatements levels other text :=
  parseStatements_agree fun _ ok _ member _ inStatement interior hands =>
    agree interior (.through (.token ok member inStatement) nofun (hands_token hands))

/-- The pieces of a text literal depend on the reader of groups at the interiors handed to it
only. -/
theorem parseSegments_hands {reader other : Reader} {text : List Char}
    (agree : ∀ interior, (literal text).Hands levels interior → reader interior = other interior) :
    parseSegments reader text = parseSegments other text :=
  segmentsFrom_agree fun interior spliced => agree interior (.group (.splice spliced))

end Call

/-! ## Nested readers -/

/-- The reader of groups whose own groups another reader reads. -/
def nest (levels : Levels) (reader : Reader) : Reader := fun text =>
  (parseStatements levels reader text).map groupNode

/-- Readers that are nested more deeply than a text is long read it whatever the innermost one
does. -/
theorem nest_settles {levels : Levels} (innermost : Reader) {depth : Nat} {text : List Char}
    (deep : text.length < depth) :
    (nest levels)^[depth] innermost text = parseBody levels text := by
  induction depth generalizing text with
  | zero => exact absurd deep (Nat.not_lt_zero _)
  | succ depth inductionHypothesis =>
      have agree : AgreeBelow text.length ((nest levels)^[depth] innermost) (parseBody levels) :=
        fun other shorter => inductionHypothesis (by omega)
      rw [Function.iterate_succ_apply', nest, parseStatements_congr agree, ← parseBody_eq]

/-! ## The end -/

/-- What it means that reading ends: the calls of the readers are nested finitely, what is read
depends on these calls only, and the loops of the readers have as many rounds as there are operators
of a level and at most twice as many turns as there are characters. -/
structure ReadingEnds (levels : Levels) : Prop where
  /-- No chain of calls is endless. -/
  finite : WellFounded fun inner call => Call.Makes levels call inner
  /-- Each call that reading a text leads to receives a shorter text, unless it is made for one of
  the tokens of the text itself. -/
  shorter : ∀ text call, Relation.TransGen (Call.Makes levels) (.source text) call →
    call.text.length < text.length ∨
      Call.Makes levels (.source text) call ∧ call.text.length ≤ text.length
  /-- Each call that is made for the inside of a token or a text literal receives a shorter text. -/
  inside : ∀ outer call, outer.Cuts → Relation.TransGen (Call.Makes levels) outer call →
    call.text.length < outer.text.length
  /-- Statements depend on the reader of groups at the interiors handed to it only. -/
  statements : ∀ reader other text,
    (∀ interior, (Call.source text).Hands levels interior → reader interior = other interior) →
      parseStatements levels reader text = parseStatements levels other text
  /-- Text literals depend on the reader of groups at the interiors handed to it only. -/
  literals : ∀ reader other text,
    (∀ interior, (Call.literal text).Hands levels interior → reader interior = other interior) →
      parseSegments reader text = parseSegments other text
  /-- Groups are read by readers nested more deeply than the text is long, whatever the innermost
  one does. -/
  settles : ∀ innermost depth text, text.length < depth →
    (nest levels)^[depth] innermost text = parseBody levels text
  /-- Sources and text literals leave their groups to that reader. -/
  entries :
    (∀ text, parse levels text = (parseStatements levels (parseBody levels) text).map .body) ∧
    ∀ text, parseText levels text = parseSegments (parseBody levels) text
  /-- Each round of a level removes one of its operators. -/
  round : ∀ associativity level items joined, round associativity level items = some (.ok joined) →
    items.countP (Item.isAt level) = joined.countP (Item.isAt level) + 1
  /-- A level is collapsed by such rounds. -/
  rounds : ∀ associativity level items, ∃ count ≤ items.countP (Item.isAt level),
    Rounds associativity level count items (collapseLevel associativity level items)
  /-- A character that the machine does not take in one turn, it takes in the next one. -/
  turn : ∀ isGlyph scanner char next past after after',
    Scanner.step isGlyph scanner char next past = .ok (false, after) →
      Scanner.step isGlyph after char next past ≠ .ok (false, after')
  /-- A text falls into statements by such turns. -/
  turns : ∀ isGlyph text, ∃ count ≤ 2 * text.length,
    Scanner.Turns isGlyph text count .initial text
      ((tokenize isGlyph text).map (·.map (Scanner.shown text)))

/-- Reading ends, whatever the operators and whatever the text. -/
theorem reading_ends (levels : Levels) : ReadingEnds levels where
  finite := Call.makes_wellFounded levels
  shorter := fun _ _ leads =>
    (Call.length_lt_of_source leads).imp_right fun makes => ⟨makes, makes.length_le⟩
  inside := fun _ _ cuts leads => Call.length_lt_of_leads leads cuts
  statements := fun _ _ _ => Call.parseStatements_hands
  literals := fun _ _ _ => Call.parseSegments_hands
  settles := fun innermost _ _ => nest_settles innermost
  entries := ⟨parse_eq, parseText_eq⟩
  round := by
    intro associativity level items joined turned
    rw [round_removes turned level, if_pos rfl]
  rounds := collapseLevel_rounds
  turn := fun _ _ _ _ _ _ _ => Scanner.taken_again
  turns := by
    intro isGlyph text
    rw [← Scanner.scan_eq]
    exact Scanner.outcome_turns .initial text

end Fixity.Syntax
