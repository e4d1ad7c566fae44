import Fixity.Proofs.Parts
import Fixity.Proofs.Scanner
import Fixity.Syntax.Elements

/-!
Contract: reading source text loses nothing, and the groups that are read are whole.

Owns:
- `Depth`, how deep a place inside a group is, counted from the group's first delimiter on;
- `Whole`, what is expected of a group: delimiters that come into balance at its last character and
  nowhere else, and an interior that is what is left when they are cut off;
- that every token that starts like a group is whole;
- that the tokens of a text are the text without white space, separators and comments.

Does not own: the machine that reads the text, and the parts of a text.

Main statement: the statements of a text hold all of it but blanks, comments and separators, their
groups are whole, and the machine that reads them never counts below zero.
-/

namespace Fixity.Syntax

/-! ## Balance -/

/-- The delimiters and braces that are open at a place, and whether the next character is escaped.
Texts count for themselves, and inside them nothing else does. -/
structure Depth where
  groups : Int
  texts : Int
  escaped : Bool

namespace Depth

/-- Outside all groups. -/
def outside : Depth := ⟨0, 0, false⟩

def next (opener closer : Char) (depth : Depth) (char : Char) : Depth :=
  if depth.escaped then { depth with escaped := false }
  else if depth.texts ≠ 0 then
    if char = '\\' then { depth with escaped := true }
    else if char = '\x7b' then { depth with texts := depth.texts + 1 }
    else if char = '\x7d' then { depth with texts := depth.texts - 1 }
    else depth
  else if char = '\x7b' then { depth with texts := 1 }
  else if char = opener then { depth with groups := depth.groups + 1 }
  else if char = closer then { depth with groups := depth.groups - 1 }
  else depth

/-- Where a text leads to. -/
def behind (opener closer : Char) (depth : Depth) (text : List Char) : Depth :=
  text.foldl (next opener closer) depth

/-- Nothing is open. -/
def Balanced (depth : Depth) : Prop := depth.groups = 0 ∧ depth.texts = 0

/-- A text that leads from one depth to another and leaves something open all the way. -/
inductive Open (opener closer : Char) : Depth → List Char → Depth → Prop where
  | nil (depth : Depth) : Open opener closer depth [] depth
  | cons {depth depth' : Depth} {char : Char} {rest : List Char}
      (isOpen : ¬ (depth.next opener closer char).Balanced)
      (onward : Open opener closer (depth.next opener closer char) rest depth') :
      Open opener closer depth (char :: rest) depth'

section Open

variable {opener closer : Char} {depth depth' depth'' : Depth} {text other : List Char}

theorem Open.append (first : Open opener closer depth text depth')
    (second : Open opener closer depth' other depth'') :
    Open opener closer depth (text ++ other) depth'' := by
  induction first with
  | nil => exact second
  | cons isOpen _ inductionHypothesis => exact .cons isOpen (inductionHypothesis second)

theorem Open.behind (isOpen : Open opener closer depth text depth') :
    depth.behind opener closer text = depth' := by
  induction isOpen with
  | nil => rfl
  | cons _ _ inductionHypothesis => exact inductionHypothesis

/-- Something is open behind every front of the text. -/
theorem Open.front (isOpen : Open opener closer depth text depth') {front : List Char}
    (isFront : front <+: text) (inhabited : front ≠ []) :
    ¬ (depth.behind opener closer front).Balanced := by
  induction isOpen generalizing front with
  | nil => exact absurd (List.prefix_nil.mp isFront) inhabited
  | @cons depth depth' char rest still onward inductionHypothesis =>
      obtain _ | ⟨first, front⟩ := front
      · exact absurd rfl inhabited
      · obtain ⟨rfl, behindFirst⟩ := List.cons_prefix_cons.mp isFront
        by_cases none : front = []
        · rw [none]
          exact still
        · exact inductionHypothesis behindFirst none

/-- One more character, behind which something is open. -/
theorem Open.one {char : Char} (next : depth.next opener closer char = depth')
    (isOpen : ¬ depth'.Balanced) : Open opener closer depth [char] depth' := by
  subst next
  exact .cons isOpen (.nil _)

/-- Inside a text literal, braces that come in pairs lead back to where they start. -/
theorem open_of_paired (paired : Paired text) (groups : Int) {texts : Int} (inText : 0 < texts) :
    Open opener closer ⟨groups, texts, false⟩ text ⟨groups, texts, false⟩ := by
  have still {texts : Int} {escaped : Bool} (inText : 0 < texts) :
      ¬ (Depth.mk groups texts escaped).Balanced := fun balanced => by
    have none : texts = 0 := balanced.2
    omega
  induction paired generalizing texts with
  | nil => exact .nil _
  | @character char rest plain _ inductionHypothesis =>
      have some : texts ≠ 0 := by omega
      simp only [List.mem_cons, List.not_mem_nil, or_false, not_or] at plain
      exact (Open.one (by simp [next, plain, some]) (still inText)).append
        (inductionHypothesis inText)
  | @escape char rest _ inductionHypothesis =>
      have some : texts ≠ 0 := by omega
      have escapes : Open opener closer ⟨groups, texts, false⟩ ['\\'] ⟨groups, texts, true⟩ :=
        Open.one (by simp [next, some]) (still inText)
      have escaped : Open opener closer ⟨groups, texts, true⟩ [char] ⟨groups, texts, false⟩ :=
        Open.one (by simp [next]) (still inText)
      exact (escapes.append escaped).append (inductionHypothesis inText)
  | @braces inner rest _ _ insideHypothesis behindHypothesis =>
      have deeper : 0 < texts + 1 := by omega
      have some : texts ≠ 0 := by omega
      have more : texts + 1 ≠ 0 := by omega
      have opens :
          Open opener closer ⟨groups, texts, false⟩ ['\x7b'] ⟨groups, texts + 1, false⟩ :=
        Open.one (by simp [next, some]) (still deeper)
      have closes :
          Open opener closer ⟨groups, texts + 1, false⟩ ['\x7d'] ⟨groups, texts, false⟩ :=
        Open.one (by simp [next, more]) (still inText)
      have whole := ((opens.append (insideHypothesis deeper)).append closes).append
        (behindHypothesis inText)
      simpa using whole

end Open

/-! ## Interiors of groups -/

section Groups

variable {kind : GroupKind} {opener closer : Char} {mode : Mode}

/-- The characters of a text literal inside a group lead back to where they start. -/
theorem open_literal {content : List Char} (paired : Paired content) {groups : Int}
    (inGroup : 0 < groups) :
    Open opener closer ⟨groups, 0, false⟩ ('\x7b' :: content ++ ['\x7d']) ⟨groups, 0, false⟩ := by
  have opens : Open opener closer ⟨groups, 0, false⟩ ['\x7b'] ⟨groups, 1, false⟩ :=
    Open.one (by simp [next]) (by simp [Balanced])
  have closes : Open opener closer ⟨groups, 1, false⟩ ['\x7d'] ⟨groups, 0, false⟩ := by
    refine Open.one (by simp [next]) ?_
    simp only [Balanced]
    omega
  exact (opens.append (open_of_paired paired groups Int.zero_lt_one)).append closes

/-- What the scanner of groups finds leads to where only the group itself is open. -/
theorem open_of_groupInterior (bracketed : Scanner.Bracketed mode opener closer kind) {depth : Nat}
    {text inner after : List Char}
    (found : groupInterior opener closer depth text = some (inner, after)) :
    Open opener closer ⟨(depth : Int) + 1, 0, false⟩ inner ⟨1, 0, false⟩ := by
  have apart : opener ≠ closer := by cases bracketed <;> decide
  fun_induction groupInterior opener closer depth text generalizing inner with
  | case1 => cases found
  | case2 => cases found
  | case3 depth rest literal afterText textFound inductionHypothesis =>
      obtain ⟨⟨inner', after'⟩, groupFound, same⟩ := Option.map_eq_some_iff.mp found
      cases same
      have paired := (closed_of_textInterior textFound).paired
      have whole := (open_literal paired (by omega)).append (inductionHypothesis groupFound)
      simpa using whole
  | case4 depth char rest _ comments inductionHypothesis => exact inductionHypothesis found
  | case5 depth char rest _ _ ends =>
      cases found
      rw [ends.2]
      exact .nil _
  | case6 depth char rest notBrace noComment inside inductionHypothesis =>
      obtain ⟨behind, foundBehind, rfl⟩ := of_map_keep [char] found
      refine (Open.one ?_ ?_).append (inductionHypothesis foundBehind)
      · rw [next, if_neg Bool.false_ne_true, if_neg (not_not.mpr rfl), if_neg notBrace, nesting]
        by_cases opens : char = opener
        · rw [if_pos opens, if_pos opens]
          rfl
        · rw [if_neg opens, if_neg opens]
          by_cases closes : char = closer
          · rw [if_pos closes, if_pos closes]
            have positive : depth ≠ 0 := fun none => inside ⟨closes, none⟩
            simp only [Depth.mk.injEq, and_true]
            omega
          · rw [if_neg closes, if_neg closes]
      · simp only [Balanced]
        omega

end Groups

end Depth

/-! ## Whole groups -/

/-- How a group starts and ends: the quote in front of it and its two delimiters. -/
structure Bracket where
  quote : List Char
  opener : Char
  closer : Char

namespace Bracket

/-- The brackets, each of which starts with a character of its own. -/
def all : List Bracket :=
  [⟨[], '(', ')'⟩, ⟨[], '[', ']'⟩, ⟨[], '\x7b', '\x7d'⟩, ⟨['\x60'], '\x7b', '\x7d'⟩]

/-- The characters in front of the interior. -/
def opening (bracket : Bracket) : List Char := bracket.quote ++ [bracket.opener]

/-- Where a text that starts with the first delimiter leads to. -/
def behind (bracket : Bracket) (text : List Char) : Depth :=
  Depth.outside.behind bracket.opener bracket.closer text

end Bracket

/-- A group with its two delimiters, which come into balance at its last character and not before.
The interior is what is left when they are cut off, and both cuts fall between characters. -/
structure Whole (bracket : Bracket) (interior spelling : List Char) : Prop where
  written : spelling = bracket.opening ++ interior ++ [bracket.closer]
  balanced : (bracket.behind (bracket.opener :: interior ++ [bracket.closer])).Balanced
  isOpen : ∀ front, front <+: bracket.opener :: interior → front ≠ [] →
    ¬ (bracket.behind front).Balanced
  opened : dropBytes? bracket.opening.length spelling = some (interior ++ [bracket.closer])
  closed : bracket.closer.utf8Size = 1
  body : groupBody spelling bracket.opening.length = interior

/-- Delimiters take up one byte each, so cutting off bytes cuts off the delimiters. -/
theorem dropBytes_opening {bracket : Bracket} (isBracket : bracket ∈ Bracket.all)
    (rest : List Char) :
    dropBytes? bracket.opening.length (bracket.opening ++ rest) = some rest := by
  simp only [Bracket.all, List.mem_cons, List.not_mem_nil, or_false] at isBracket
  rcases isBracket with rfl | rfl | rfl | rfl <;> cases rest <;> rfl

theorem closer_size {bracket : Bracket} (isBracket : bracket ∈ Bracket.all) :
    bracket.closer.utf8Size = 1 := by
  simp only [Bracket.all, List.mem_cons, List.not_mem_nil, or_false] at isBracket
  rcases isBracket with rfl | rfl | rfl | rfl <;> rfl

/-- Between its delimiters a group has its interior. -/
theorem groupBody_written {bracket : Bracket} (isBracket : bracket ∈ Bracket.all)
    (interior : List Char) :
    groupBody (bracket.opening ++ interior ++ [bracket.closer]) bracket.opening.length =
      interior := by
  rw [List.append_assoc, groupBody, dropBytes_opening isBracket]
  simp [closer_size isBracket]

/-- A group whose interior leads back to where it starts is whole. -/
theorem whole_of_open {bracket : Bracket} (isBracket : bracket ∈ Bracket.all) {interior : List Char}
    {inside : Depth} (noBalance : ¬ inside.Balanced)
    (opens : Depth.outside.next bracket.opener bracket.closer bracket.opener = inside)
    (isOpen : Depth.Open bracket.opener bracket.closer inside interior inside)
    (closes : (inside.next bracket.opener bracket.closer bracket.closer).Balanced) :
    Whole bracket interior (bracket.opening ++ interior ++ [bracket.closer]) := by
  have opened := dropBytes_opening isBracket (interior ++ [bracket.closer])
  rw [← List.append_assoc] at opened
  have through : Depth.Open bracket.opener bracket.closer Depth.outside
      (bracket.opener :: interior) inside := (Depth.Open.one opens noBalance).append isOpen
  refine ⟨rfl, ?_, fun front isFront inhabited => through.front isFront inhabited, opened,
    closer_size isBracket, groupBody_written isBracket interior⟩
  have whole := through.behind
  unfold Bracket.behind Depth.behind at *
  rw [List.foldl_append, whole]
  exact closes

/-- What is expected of a token: some characters, and a whole group if it starts like one. -/
structure Token.Sound (token : Token) : Prop where
  inhabited : token.spelling ≠ []
  group : ∀ char ∈ token.spelling.head?, char ∈ ['(', '[', '\x7b', '\x60'] →
    ∃ bracket ∈ Bracket.all, bracket.opening.head? = some char ∧
      Whole bracket token.interior token.spelling

/-- A whole group is a sound token. -/
theorem Whole.sound {bracket : Bracket} (isBracket : bracket ∈ Bracket.all) {token : Token}
    (whole : Whole bracket token.interior token.spelling) : token.Sound := by
  have head : token.spelling.head? = bracket.opening.head? := by
    rw [whole.written]
    simp only [Bracket.all, List.mem_cons, List.not_mem_nil, or_false] at isBracket
    rcases isBracket with rfl | rfl | rfl | rfl <;> rfl
  refine ⟨fun none => ?_, fun char first _ => ⟨bracket, isBracket, head.symm.trans first, whole⟩⟩
  have length := congrArg List.length whole.written
  simp [none] at length

/-- Every token at the head of a text is sound. -/
theorem lexeme_sound {isGlyph : Char → Bool} {char : Char} {rest after : List Char} {token : Token}
    (found : lexeme isGlyph char rest = .ok (.token token, after)) : token.Sound := by
  have inGroup : ¬ (Depth.mk 1 0 false).Balanced := by simp [Depth.Balanced]
  have inText : ¬ (Depth.mk 0 1 false).Balanced := by simp [Depth.Balanced]
  have through {text inner after : List Char} (found : textInterior 0 text = some (inner, after)) :
      Depth.Open '\x7b' '\x7d' ⟨0, 1, false⟩ inner ⟨0, 1, false⟩ :=
    Depth.open_of_paired (closed_of_textInterior found).paired 0 Int.zero_lt_one
  have reads := reads_of_lexeme found
  cases reads with
  | @expression _ interior _ found =>
      have isBracket : ⟨[], '(', ')'⟩ ∈ Bracket.all := by simp [Bracket.all]
      exact Whole.sound isBracket (whole_of_open isBracket inGroup rfl
        (Depth.open_of_groupInterior .expression found) ⟨rfl, rfl⟩)
  | @list _ interior _ found =>
      have isBracket : ⟨[], '[', ']'⟩ ∈ Bracket.all := by simp [Bracket.all]
      exact Whole.sound isBracket (whole_of_open isBracket inGroup rfl
        (Depth.open_of_groupInterior .list found) ⟨rfl, rfl⟩)
  | @text _ interior _ found =>
      have isBracket : ⟨[], '\x7b', '\x7d'⟩ ∈ Bracket.all := by simp [Bracket.all]
      exact Whole.sound isBracket (whole_of_open isBracket inText rfl (through found) ⟨rfl, rfl⟩)
  | @quoted _ interior _ found =>
      have isBracket : ⟨['\x60'], '\x7b', '\x7d'⟩ ∈ Bracket.all := by simp [Bracket.all]
      exact Whole.sound isBracket (whole_of_open isBracket inText rfl (through found) ⟨rfl, rfl⟩)
  | word starts =>
      obtain ⟨others, word, _⟩ := wordAt_parts isGlyph char rest
      have spelled : (Token.word (wordAt isGlyph char rest).1).spelling = char :: others := word
      refine ⟨by rw [spelled]; exact List.cons_ne_nil _ _, fun first head opens => ?_⟩
      rw [spelled] at head
      cases head
      have delimits : char ∈ delimiters := by
        simp only [List.mem_cons, List.not_mem_nil, or_false] at opens
        rcases opens with rfl | rfl | rfl | rfl <;> simp [delimiters]
      exact absurd delimits starts.1

/-! ## What is kept of a text -/

theorem Stripped.sublist {source kept : List Char} (stripped : Stripped source kept) :
    kept.Sublist source := by
  induction stripped with
  | nil => exact .slnil
  | literal _ _ inductionHypothesis => exact .append_left (.cons_cons _ inductionHypothesis) _
  | @comment line source kept _ _ inductionHypothesis =>
      exact inductionHypothesis.trans (List.sublist_append_right ('-' :: '-' :: line) _)
  | character _ _ _ inductionHypothesis => exact .cons_cons _ inductionHypothesis

theorem Encloses.sublist {source : List Char} {token : Token} (encloses : Encloses source token) :
    token.spelling.Sublist source := by
  cases encloses with
  | expression stripped => exact .cons_cons _ (stripped.sublist.append_right _)
  | list stripped => exact .cons_cons _ (stripped.sublist.append_right _)
  | text => exact .refl _
  | quoted => exact .refl _

/-- The token that a part is read as, if it is. -/
def Part.tokens : Part → List Token
  | token _ read => [read]
  | _ => []

/-- The tokens of a text, one behind the other, are the text with some characters left out. -/
theorem Divided.sublist {text : List Char} {parts : List Part} (divided : Divided text parts) :
    ((parts.flatMap Part.tokens).flatMap Token.spelling).Sublist text := by
  have token {source rest : List Char} {token : Token} {parts : List Part}
      (first : token.spelling.Sublist source)
      (behind : ((parts.flatMap Part.tokens).flatMap Token.spelling).Sublist rest) :
      (((Part.token source token :: parts).flatMap Part.tokens).flatMap Token.spelling).Sublist
        (source ++ rest) := by
    rw [List.flatMap_cons, List.flatMap_append]
    exact .append (by simpa [Part.tokens] using first) behind
  induction divided with
  | nil => exact .slnil
  | blank _ _ inductionHypothesis => exact .cons _ inductionHypothesis
  | @comment line _ _ _ _ _ inductionHypothesis =>
      exact inductionHypothesis.trans (List.sublist_append_right ('-' :: '-' :: line) _)
  | separator _ inductionHypothesis => exact .cons _ inductionHypothesis
  | group encloses _ inductionHypothesis => exact token encloses.sublist inductionHypothesis
  | word _ _ inductionHypothesis => exact token (.refl _) inductionHypothesis

/-- The tokens of all statements are those of the parts. -/
theorem statementsOf_tokens (earlier : List Token) (parts : List Part) :
    (statementsOf earlier parts).flatMap (·.tokens) =
      earlier.reverse ++ parts.flatMap Part.tokens := by
  fun_induction statementsOf earlier parts with
  | case1 earlier empty => simp [List.isEmpty_iff.mp empty]
  | case2 earlier inhabited => simp
  | case3 earlier char parts inductionHypothesis => exact inductionHypothesis
  | case4 earlier line parts inductionHypothesis => exact inductionHypothesis
  | case5 earlier source token parts inductionHypothesis =>
      rw [inductionHypothesis]
      simp [Part.tokens]
  | case6 earlier parts empty inductionHypothesis =>
      rw [inductionHypothesis, List.isEmpty_iff.mp empty]
      rfl
  | case7 earlier parts inhabited inductionHypothesis =>
      rw [List.flatMap_cons, inductionHypothesis]
      rfl

/-- No statement is empty. -/
theorem statementsOf_inhabited (earlier : List Token) (parts : List Part) :
    ∀ statement ∈ statementsOf earlier parts, statement.tokens ≠ [] := by
  fun_induction statementsOf earlier parts with
  | case1 => simp
  | case2 earlier inhabited => simpa using inhabited
  | case3 earlier char parts inductionHypothesis => exact inductionHypothesis
  | case4 earlier line parts inductionHypothesis => exact inductionHypothesis
  | case5 earlier source token parts inductionHypothesis => exact inductionHypothesis
  | case6 earlier parts empty inductionHypothesis => exact inductionHypothesis
  | case7 earlier parts inhabited inductionHypothesis =>
      exact List.forall_mem_cons.mpr ⟨by simpa using inhabited, inductionHypothesis⟩

/-! ## Reading a whole text -/

/-- A text that falls into statements is made of blanks, comments, separators and the tokens of the
statements, in order. No statement and no token is empty, and what starts like a group is a whole
group. The machine that reads the text one character at a time finds the same statements, and its
counters never fall below zero. -/
theorem tokenize_whole {isGlyph : Char → Bool} {text : List Char} {statements : List Statement}
    (ok : tokenize isGlyph text = .ok statements) :
    (∃ parts, Divided text parts ∧ statements = statementsOf [] parts ∧
        statements.flatMap (·.tokens) = parts.flatMap Part.tokens) ∧
      ((statements.flatMap (·.tokens)).flatMap Token.spelling).Sublist text ∧
      (∀ statement ∈ statements, statement.tokens ≠ [] ∧
        ∀ token ∈ statement.tokens, token.Sound) ∧
      Scanner.scan isGlyph text = .ok (statements.map (Scanner.shown text)) ∧
      ∀ scanner rest, Scanner.Passes isGlyph text scanner rest →
        0 ≤ scanner.nesting.depth ∧ 0 ≤ scanner.nesting.texts := by
  have divides := tokenize_eq_ok.mp ok
  obtain ⟨parts, divided, made⟩ := exists_divided divides
  have tokens : statements.flatMap (·.tokens) = parts.flatMap Part.tokens := by
    rw [made, statementsOf_tokens]
    rfl
  refine ⟨⟨parts, divided, made, tokens⟩, tokens ▸ divided.sublist, fun statement member => ?_, ?_,
    fun scanner rest passes => ⟨passes.sound.depth, passes.sound.texts⟩⟩
  · have sound := statementsFrom_tokens (fun _ _ _ _ found => lexeme_sound found) (by simp) divides
    exact ⟨statementsOf_inhabited [] parts statement (made ▸ member), sound statement member⟩
  · rw [Scanner.scan_eq, ok]
    rfl

/-- A statement with a comment and a brace in a text inside an expression, and a quoted text. -/
theorem tokenize_whole_nested :
    ∃ text statements, text = "a (b -- )\n+ \x7b)\\\x7d\x7d); \x60\x7b(\x7d".toList ∧
      tokenize (· == '+') text = .ok statements ∧
        statements.map (·.tokens.map Token.spelling) =
          [["a".toList, "(b \n+ \x7b)\\\x7d\x7d)".toList], ["\x60\x7b(\x7d".toList]] ∧
        (∀ statement ∈ statements, ∀ token ∈ statement.tokens, token.Sound) ∧
        Scanner.scan (· == '+') text = .ok (statements.map (Scanner.shown text)) := by
  have ok : tokenize (· == '+') "a (b -- )\n+ \x7b)\\\x7d\x7d); \x60\x7b(\x7d".toList =
      .ok [⟨[.word "a".toList, .expression "b \n+ \x7b)\\\x7d\x7d".toList],
        " \x60\x7b(\x7d".toList⟩, ⟨[.quoted "(".toList], []⟩] := by decide +kernel
  obtain ⟨_, _, sound, scanned, _⟩ := tokenize_whole ok
  exact ⟨_, _, rfl, ok, rfl, fun statement member => (sound statement member).2, scanned⟩

end Fixity.Syntax
