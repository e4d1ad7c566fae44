import Fixity.Proofs.Balance
import Fixity.Proofs.Resumption

/-!
Contract: reading source text one character at a time.

Owns:
- `Scanner`, a machine with a mode, the token and the statement that it is in the middle of, and
  counters for the nesting of groups, which are integers and could fall below zero;
- `step`, what one character does; a character that a word does not take is given to the machine
  again once the word is finished;
- that the machine reads what `tokenize` reads and fails where it fails, on the same line;
- that the counters never fall below zero.

Does not own: lexemes.
-/

namespace Fixity.Syntax

/-- What the machine is in the middle of. -/
inductive Mode where
  | start
  | operator
  | number
  | name
  | expression
  | list
  | text
  | comment
deriving DecidableEq

/-- The nesting inside a group. In an expression or a list, texts are counted on their own. -/
structure Nesting where
  depth : Int
  texts : Int
  escaped : Bool
  comment : Bool

/-- Tokens as they are written, and where their statement ends. -/
abbrev Shown := List (List Char) × Nat

structure Scanner where
  mode : Mode
  token : List Char
  tokens : List (List Char)
  statements : List Shown
  nesting : Nesting
  line : Nat
  /-- The line on which the last group was opened. -/
  groupLine : Nat

namespace Scanner

/-- The machine in front of a text. -/
def initial : Scanner := ⟨.start, [], [], [], ⟨0, 0, false, false⟩, 1, 1⟩

/-! ## Steps -/

def push (scanner : Scanner) (char : Char) : Scanner :=
  { scanner with token := scanner.token ++ [char] }

/-- Finishes a token. -/
def emit (scanner : Scanner) : Scanner :=
  { scanner with
    mode := .start
    token := []
    tokens := if scanner.token.isEmpty then scanner.tokens else scanner.tokens ++ [scanner.token] }

/-- Finishes a statement that has tokens. -/
def close (scanner : Scanner) (past : Nat) : Scanner :=
  { scanner with
    tokens := []
    statements :=
      if scanner.tokens.isEmpty then scanner.statements
      else scanner.statements ++ [(scanner.tokens, past)] }

/-- Begins a group. -/
def enter (scanner : Scanner) (mode : Mode) (char : Char) : Scanner :=
  { scanner.push char with
    mode := mode
    nesting := ⟨1, 0, false, false⟩
    groupLine := scanner.line }

/-- A character between tokens. -/
def begin (isGlyph : Char → Bool) (scanner : Scanner) (char : Char) (next : Option Char)
    (past : Nat) : Except SyntaxError Scanner :=
  if char = ';' then .ok (scanner.close past)
  else if char = '(' then .ok (scanner.enter .expression char)
  else if char = '[' then .ok (scanner.enter .list char)
  else if char = '\x7b' then .ok (scanner.enter .text char)
  else if char = '\x60' then
    if next = some '\x7b' then .ok (scanner.push char) else .error (.danglingQuote scanner.line)
  else if char = ')' ∨ char = ']' ∨ char = '\x7d' then
    .error (.unmatchedDelimiter char scanner.line)
  else if char = '-' ∧ next = some '-' then .ok { scanner with mode := .comment }
  else if Text.isBlank char then .ok scanner
  else if isGlyph char then .ok { scanner.push char with mode := .operator }
  else if char.isDigit ∨ char = negativeGlyph then .ok { scanner.push char with mode := .number }
  else if isNameStart char then .ok { scanner.push char with mode := .name }
  else .ok { scanner with tokens := scanner.tokens ++ [[char]] }

/-- Whether the word that is being read goes on with a character. -/
def takes (isGlyph : Char → Bool) (mode : Mode) (token : List Char) (char : Char) : Bool :=
  match mode with
  | .operator => isGlyph char
  | .number =>
      let marked := token.getLast? = some 'e' ∨ token.getLast? = some 'E'
      char.isDigit ∨ char ∈ ['.', 'e', 'E', 'i'] ∨ (marked ∧ char ∈ ['+', '-'])
  | .name => isNameChar char
  | _ => true

/-- A character of a word, or one behind it: that finishes the word and is not taken. -/
def word (isGlyph : Char → Bool) (scanner : Scanner) (char : Char) : Bool × Scanner :=
  if takes isGlyph scanner.mode scanner.token char then (true, scanner.push char)
  else (false, scanner.emit)

/-- A character of a text literal: whether it escapes the next one, and how many braces are open. -/
def braces (escaped : Bool) (count : Int) (char : Char) : Bool × Int :=
  if escaped then (false, count)
  else if char = '\\' then (true, count)
  else if char = '\x7b' then (false, count + 1)
  else if char = '\x7d' then (false, count - 1)
  else (false, count)

/-- Finishes a group that is not open any more. -/
def settle (scanner : Scanner) : Scanner :=
  if scanner.nesting.depth = 0 then scanner.emit else scanner

/-- A character of a text. -/
def textChar (scanner : Scanner) (char : Char) : Scanner :=
  let nesting := scanner.nesting
  let (escaped, depth) := braces nesting.escaped nesting.depth char
  let counted := { scanner.push char with nesting := { nesting with depth, escaped } }
  if char = '\x7d' ∧ ¬ nesting.escaped then counted.settle else counted

/-- A character of an expression or a list. -/
def groupChar (scanner : Scanner) (opener closer char : Char) (next : Option Char) : Scanner :=
  let nesting := scanner.nesting
  if nesting.comment then
    if char = '\n' then { scanner.push char with nesting := { nesting with comment := false } }
    else scanner
  else if 0 < nesting.texts then
    let (escaped, texts) := braces nesting.escaped nesting.texts char
    { scanner.push char with nesting := { nesting with texts, escaped } }
  else if char = '\x7b' then { scanner.push char with nesting := { nesting with texts := 1 } }
  else if char = '-' ∧ next = some '-' then
    { scanner with nesting := { nesting with comment := true } }
  else if char = opener then
    { scanner.push char with nesting := { nesting with depth := nesting.depth + 1 } }
  else if char = closer then
    settle { scanner.push char with nesting := { nesting with depth := nesting.depth - 1 } }
  else scanner.push char

/-- One turn of the machine: whether it has taken the character, and what it is then. -/
def step (isGlyph : Char → Bool) (scanner : Scanner) (char : Char) (next : Option Char)
    (past : Nat) : Except SyntaxError (Bool × Scanner) :=
  match scanner.mode with
  | .start => (scanner.begin isGlyph char next past).map (true, ·)
  | .operator | .number | .name => .ok (scanner.word isGlyph char)
  | .expression => .ok (true, scanner.groupChar '(' ')' char next)
  | .list => .ok (true, scanner.groupChar '[' ']' char next)
  | .text => .ok (true, scanner.textChar char)
  | .comment => .ok (true, if char = '\n' then { scanner with mode := .start } else scanner)

/-- Gives a character to the machine until it takes it. A machine that does not take it is between
tokens then, where it takes all characters. -/
def feed (isGlyph : Char → Bool) (scanner : Scanner) (char : Char) (next : Option Char)
    (past : Nat) : Except SyntaxError Scanner :=
  match scanner.step isGlyph char next past with
  | .error error => .error error
  | .ok (true, after) => .ok after
  | .ok (false, after) => (after.step isGlyph char next past).map Prod.snd

/-- Counts the lines. -/
def advance (scanner : Scanner) (char : Char) : Scanner :=
  { scanner with line := if char = '\n' then scanner.line + 1 else scanner.line }

/-- The statements of a text that has been read to its end. -/
def finish (scanner : Scanner) (length : Nat) : Except SyntaxError (List Shown) :=
  match scanner.mode with
  | .expression => .error (.incompleteGroup .expression scanner.groupLine)
  | .list => .error (.incompleteGroup .list scanner.groupLine)
  | .text => .error (.incompleteGroup .text scanner.groupLine)
  | _ => .ok (scanner.emit.close length).statements

/-- What the machine makes of the rest of a text. Offsets are those in the whole text. -/
def outcome (isGlyph : Char → Bool) (whole : List Char) :
    Scanner → List Char → Except SyntaxError (List Shown)
  | scanner, [] => scanner.finish (offsetOf whole [])
  | scanner, char :: rest =>
      match scanner.feed isGlyph char rest.head? (offsetOf whole rest) with
      | .error error => .error error
      | .ok after => outcome isGlyph whole (after.advance char) rest

/-- What the machine makes of a text. -/
def scan (isGlyph : Char → Bool) (text : List Char) : Except SyntaxError (List Shown) :=
  outcome isGlyph text initial text

section Turns

variable {isGlyph : Char → Bool} {whole : List Char} {scanner after : Scanner}
variable {char : Char} {rest : List Char}

theorem outcome_cons
    (fed : scanner.feed isGlyph char rest.head? (offsetOf whole rest) = .ok after) :
    outcome isGlyph whole scanner (char :: rest) =
      outcome isGlyph whole (after.advance char) rest := by
  rw [outcome, fed]

theorem outcome_error {error : SyntaxError}
    (fed : scanner.feed isGlyph char rest.head? (offsetOf whole rest) = .error error) :
    outcome isGlyph whole scanner (char :: rest) = .error error := by
  rw [outcome, fed]

/-- Between tokens the machine takes every character. -/
theorem feed_start (start : scanner.mode = .start) (char : Char) (next : Option Char)
    (past : Nat) : scanner.feed isGlyph char next past = scanner.begin isGlyph char next past := by
  unfold feed step
  rw [start]
  dsimp only
  cases scanner.begin isGlyph char next past <;> rfl

theorem feed_taken {next : Option Char} {past : Nat}
    (taken : scanner.step isGlyph char next past = .ok (true, after)) :
    scanner.feed isGlyph char next past = .ok after := by
  unfold feed
  rw [taken]

/-- A character that is not taken is read as if the machine had been between tokens. -/
theorem outcome_refused
    (refused : scanner.step isGlyph char rest.head? (offsetOf whole rest) =
      .ok (false, scanner.emit)) :
    outcome isGlyph whole scanner (char :: rest) =
      outcome isGlyph whole scanner.emit (char :: rest) := by
  have again : scanner.feed isGlyph char rest.head? (offsetOf whole rest) =
      (scanner.emit.begin isGlyph char rest.head? (offsetOf whole rest)) := by
    unfold feed
    rw [refused]
    show ((scanner.emit.begin isGlyph char _ _).map (true, ·)).map Prod.snd = _
    cases scanner.emit.begin isGlyph char rest.head? (offsetOf whole rest) <;> rfl
  unfold outcome
  rw [again, ← feed_start (show scanner.emit.mode = .start from rfl)]

end Turns

/-- A line break goes on with the next line. -/
theorem advance_lineOf {whole rest : List Char} {char : Char} (suffix : char :: rest <:+ whole)
    (mode : Mode) (token : List Char) (tokens : List (List Char)) (statements : List Shown)
    (nesting : Nesting) (groupLine : Nat) :
    (Scanner.mk mode token tokens statements nesting (lineOf whole (char :: rest))
        groupLine).advance char =
      ⟨mode, token, tokens, statements, nesting, lineOf whole rest, groupLine⟩ := by
  have counted := suffix.sublist.count_le '\n'
  have line : (if char = '\n' then lineOf whole (char :: rest) + 1
      else lineOf whole (char :: rest)) = lineOf whole rest := by
    unfold lineOf
    by_cases breaks : char = '\n'
    · rw [breaks, List.count_cons_self] at counted
      rw [if_pos breaks, breaks, List.count_cons_self]
      omega
    · rw [if_neg breaks, List.count_cons_of_ne breaks]
  unfold advance
  rw [line]

/-- A character that the machine takes. -/
theorem outcome_turn {isGlyph : Char → Bool} {whole rest : List Char} {char : Char}
    (suffix : char :: rest <:+ whole) {mode mode' : Mode} {token token' : List Char}
    {tokens tokens' : List (List Char)} {statements statements' : List Shown}
    {nesting nesting' : Nesting} {groupLine groupLine' : Nat}
    (taken : step isGlyph
      ⟨mode, token, tokens, statements, nesting, lineOf whole (char :: rest), groupLine⟩ char
        rest.head? (offsetOf whole rest) =
      .ok (true, ⟨mode', token', tokens', statements', nesting', lineOf whole (char :: rest),
        groupLine'⟩)) :
    outcome isGlyph whole
        ⟨mode, token, tokens, statements, nesting, lineOf whole (char :: rest), groupLine⟩
        (char :: rest) =
      outcome isGlyph whole
        ⟨mode', token', tokens', statements', nesting', lineOf whole rest, groupLine'⟩ rest := by
  rw [outcome_cons (feed_taken taken), advance_lineOf suffix]

/-! ## Words -/

section Words

variable {isGlyph : Char → Bool} {whole : List Char} {mode : Mode}
variable {token : List Char} {tokens : List (List Char)} {statements : List Shown}
variable {nesting : Nesting} {groupLine : Nat}

/-- The modes in which a word is read. -/
def isWord (mode : Mode) : Prop := mode = .operator ∨ mode = .number ∨ mode = .name

/-- A run of characters that a word takes one after the other. -/
def Taken (isGlyph : Char → Bool) (mode : Mode) : (token run : List Char) → Prop
  | _, [] => True
  | token, char :: run => takes isGlyph mode token char ∧ Taken isGlyph mode (token ++ [char]) run

private theorem step_word {scanner : Scanner} (words : isWord scanner.mode) (char : Char)
    (next : Option Char) (past : Nat) :
    scanner.step isGlyph char next past = .ok (scanner.word isGlyph char) := by
  unfold step
  rcases words with mode | mode | mode <;> rw [mode]

/-- A word is finished in front of a character that it does not take, or at the end of the text. -/
theorem outcome_word (words : isWord mode) (inhabited : token ≠ []) {run rest : List Char}
    (suffix : run ++ rest <:+ whole) (taken : Taken isGlyph mode token run)
    (refused : ∀ char ∈ rest.head?, ¬ takes isGlyph mode (token ++ run) char) :
    outcome isGlyph whole
        ⟨mode, token, tokens, statements, nesting, lineOf whole (run ++ rest), groupLine⟩
        (run ++ rest) =
      outcome isGlyph whole
        ⟨.start, [], tokens ++ [token ++ run], statements, nesting, lineOf whole rest, groupLine⟩
        rest := by
  induction run generalizing token with
  | nil =>
      cases rest with
      | nil => rcases words with rfl | rfl | rfl <;> simp [outcome, finish, emit, close, inhabited]
      | cons char rest =>
          have noWord : ¬ takes isGlyph mode token char := by simpa using refused char rfl
          rw [List.nil_append, outcome_refused, emit, if_neg (by simpa using inhabited),
            List.append_nil]
          rw [step_word words, word, if_neg noWord]
  | cons char run inductionHypothesis =>
      obtain ⟨first, others⟩ := taken
      rw [List.cons_append] at suffix ⊢
      rw [outcome_turn suffix ((step_word words char _ _).trans
        (congrArg Except.ok (if_pos first)))]
      rw [inductionHypothesis (by simp) ((List.suffix_cons char _).trans suffix) others
        (by simpa using refused)]
      simp

end Words

/-! ## Braces -/

/-- Characters of a text literal that leave a brace open, from one count of open braces to
another. -/
inductive Inside : Bool × Int → List Char → Bool × Int → Prop where
  | nil (state : Bool × Int) : Inside state [] state
  | cons {escaped : Bool} {count : Int} {char : Char} {run : List Char} {state : Bool × Int}
      (isOpen : 0 < (braces escaped count char).2)
      (behind : Inside (braces escaped count char) run state) :
      Inside (escaped, count) (char :: run) state

section Inside

variable {depth : Nat} {run : List Char} {state : Bool × Int}

private theorem Inside.escape (char : Char) (behind : Inside (false, (depth : Int) + 1) run state) :
    Inside (false, (depth : Int) + 1) ('\\' :: char :: run) state :=
  .cons (show (0 : Int) < depth + 1 by omega) (.cons (show (0 : Int) < depth + 1 by omega) behind)

private theorem Inside.opener (behind : Inside (false, ((depth + 1 : Nat) : Int) + 1) run state) :
    Inside (false, (depth : Int) + 1) ('\x7b' :: run) state :=
  .cons (show (0 : Int) < depth + 1 + 1 by omega) behind

private theorem Inside.closer (behind : Inside (false, (depth : Int) + 1) run state) :
    Inside (false, ((depth + 1 : Nat) : Int) + 1) ('\x7d' :: run) state := by
  have counted :
      braces false (((depth + 1 : Nat) : Int) + 1) '\x7d' = (false, (depth : Int) + 1) := by
    show (false, ((depth + 1 : Nat) : Int) + 1 - 1) = _
    rw [Int.add_sub_cancel]
    rfl
  refine .cons ?_ ?_
  · rw [counted]
    show (0 : Int) < depth + 1
    omega
  · rw [counted]
    exact behind

private theorem Inside.plain {char : Char} (noMark : char ∉ ['\\', '\x7b', '\x7d'])
    (behind : Inside (false, (depth : Int) + 1) run state) :
    Inside (false, (depth : Int) + 1) (char :: run) state := by
  simp only [List.mem_cons, List.not_mem_nil, or_false, not_or] at noMark
  have counted : braces false ((depth : Int) + 1) char = (false, (depth : Int) + 1) := by
    unfold braces
    rw [if_neg Bool.false_ne_true, if_neg noMark.1, if_neg noMark.2.1, if_neg noMark.2.2]
  refine .cons ?_ ?_
  · rw [counted]
    show (0 : Int) < depth + 1
    omega
  · rw [counted]
    exact behind

/-- What is in front of the brace that closes a text leaves one brace open. -/
theorem inside_of_textInterior {text inner after : List Char}
    (found : textInterior depth text = some (inner, after)) :
    Inside (false, (depth : Int) + 1) inner (false, 1) := by
  fun_induction textInterior depth text generalizing inner with
  | case1 => cases found
  | case2 => cases found
  | case3 depth char rest inductionHypothesis =>
      obtain ⟨behind, inside, rfl⟩ := of_map_keep ['\\', char] found
      exact .escape char (inductionHypothesis inside)
  | case4 depth rest inductionHypothesis =>
      obtain ⟨behind, inside, rfl⟩ := of_map_keep ['\x7b'] found
      exact .opener (inductionHypothesis inside)
  | case5 =>
      cases found
      exact .nil _
  | case6 rest depth inductionHypothesis =>
      obtain ⟨behind, inside, rfl⟩ := of_map_keep ['\x7d'] found
      exact .closer (inductionHypothesis inside)
  | case7 depth char rest noEscape noEscaped noOpener noCloser inductionHypothesis =>
      obtain ⟨behind, inside, rfl⟩ := of_map_keep [char] found
      exact .plain (plain_of_other noEscape noEscaped noOpener noCloser)
        (inductionHypothesis inside)

/-- A text that is not closed leaves a brace open to its end. -/
theorem inside_of_unclosed {text : List Char} (notFound : textInterior depth text = none) :
    ∃ state, Inside (false, (depth : Int) + 1) text state := by
  fun_induction textInterior depth text with
  | case1 => exact ⟨_, .nil _⟩
  | case2 depth => exact ⟨_, .cons (show (0 : Int) < depth + 1 by omega) (.nil _)⟩
  | case3 depth char rest inductionHypothesis =>
      obtain ⟨state, inside⟩ := inductionHypothesis (Option.map_eq_none_iff.mp notFound)
      exact ⟨state, .escape char inside⟩
  | case4 depth rest inductionHypothesis =>
      obtain ⟨state, inside⟩ := inductionHypothesis (Option.map_eq_none_iff.mp notFound)
      exact ⟨state, .opener inside⟩
  | case5 => cases notFound
  | case6 rest depth inductionHypothesis =>
      obtain ⟨state, inside⟩ := inductionHypothesis (Option.map_eq_none_iff.mp notFound)
      exact ⟨state, .closer inside⟩
  | case7 depth char rest noEscape noEscaped noOpener noCloser inductionHypothesis =>
      obtain ⟨state, inside⟩ := inductionHypothesis (Option.map_eq_none_iff.mp notFound)
      exact ⟨state, .plain (plain_of_other noEscape noEscaped noOpener noCloser) inside⟩

end Inside

/-! ## Texts -/

section Texts

variable {isGlyph : Char → Bool} {whole : List Char}
variable {token : List Char} {tokens : List (List Char)} {statements : List Shown}
variable {texts : Int} {comment : Bool} {groupLine : Nat}

/-- A text goes on as long as a brace is open. -/
theorem outcome_inside {state state' : Bool × Int} {run rest : List Char}
    (inside : Inside state run state') (suffix : run ++ rest <:+ whole) :
    outcome isGlyph whole
        ⟨.text, token, tokens, statements, ⟨state.2, texts, state.1, comment⟩,
          lineOf whole (run ++ rest), groupLine⟩ (run ++ rest) =
      outcome isGlyph whole
        ⟨.text, token ++ run, tokens, statements, ⟨state'.2, texts, state'.1, comment⟩,
          lineOf whole rest, groupLine⟩ rest := by
  induction inside generalizing token with
  | nil => rw [List.append_nil, List.nil_append]
  | @cons escaped count char run state isOpen behind inductionHypothesis =>
      rw [List.cons_append] at suffix ⊢
      have taken : ∀ next past,
          step isGlyph ⟨.text, token, tokens, statements, ⟨count, texts, escaped, comment⟩,
            lineOf whole (char :: (run ++ rest)), groupLine⟩ char next past =
          .ok (true, ⟨.text, token ++ [char], tokens, statements,
            ⟨(braces escaped count char).2, texts, (braces escaped count char).1, comment⟩,
              lineOf whole (char :: (run ++ rest)), groupLine⟩) := by
        intro next past
        show Except.ok (true, textChar _ char) = _
        unfold textChar settle
        dsimp only
        rw [if_neg (show ¬ (braces escaped count char).2 = 0 by omega), ite_self]
        rfl
      rw [outcome_turn suffix (taken _ _),
        inductionHypothesis ((List.suffix_cons char _).trans suffix), List.append_assoc]
      rfl

/-- A text ends at the brace that closes it. -/
theorem outcome_text {text : List Char} (suffix : text <:+ whole) :
    outcome isGlyph whole
        ⟨.text, token, tokens, statements, ⟨1, texts, false, comment⟩, lineOf whole text,
          groupLine⟩ text =
      match textInterior 0 text with
      | some (inner, after) =>
          outcome isGlyph whole
            ⟨.start, [], tokens ++ [token ++ inner ++ ['\x7d']], statements,
              ⟨0, texts, false, comment⟩, lineOf whole after, groupLine⟩ after
      | none => .error (.incompleteGroup .text groupLine) := by
  split
  · next inner after found =>
    obtain rfl := textInterior_split found
    have inside : Inside (false, 1) inner (false, 1) := inside_of_textInterior found
    refine (outcome_inside inside suffix).trans ?_
    refine outcome_turn ((List.suffix_append inner _).trans suffix) ?_
    simp [step, textChar, braces, settle, emit, push]
  · next notFound =>
    obtain ⟨state, unclosed⟩ := inside_of_unclosed notFound
    have inside : Inside (false, 1) text state := unclosed
    rw [← List.append_nil text] at suffix ⊢
    exact outcome_inside inside suffix

end Texts

/-! ## Expressions and lists -/

/-- The modes in which the interior of an expression or a list is read. -/
inductive Bracketed : Mode → (opener closer : Char) → GroupKind → Prop where
  | expression : Bracketed .expression '(' ')' .expression
  | list : Bracketed .list '[' ']' .list

section Groups

variable {isGlyph : Char → Bool} {whole : List Char} {mode : Mode} {opener closer : Char}
variable {kind : GroupKind}
variable {token : List Char} {tokens : List (List Char)} {statements : List Shown}
variable {groupLine : Nat}

theorem Bracketed.step {scanner : Scanner} (bracketed : Bracketed scanner.mode opener closer kind)
    (char : Char) (next : Option Char) (past : Nat) :
    scanner.step isGlyph char next past =
      .ok (true, scanner.groupChar opener closer char next) := by
  generalize same : scanner.mode = mode at bracketed
  unfold Scanner.step
  cases bracketed <;> rw [same]

theorem Bracketed.finish {scanner : Scanner} (bracketed : Bracketed scanner.mode opener closer kind)
    (length : Nat) : scanner.finish length = .error (.incompleteGroup kind scanner.groupLine) := by
  generalize same : scanner.mode = mode at bracketed
  unfold Scanner.finish
  cases bracketed <;> rw [same]

/-- A character inside a group. -/
theorem outcome_groupChar (bracketed : Bracketed mode opener closer kind) {char : Char}
    {rest : List Char} (suffix : char :: rest <:+ whole) {mode' : Mode} {token' : List Char}
    {tokens' : List (List Char)} {nesting nesting' : Nesting}
    (read : groupChar
      ⟨mode, token, tokens, statements, nesting, lineOf whole (char :: rest), groupLine⟩
        opener closer char rest.head? =
      ⟨mode', token', tokens', statements, nesting', lineOf whole (char :: rest), groupLine⟩) :
    outcome isGlyph whole
        ⟨mode, token, tokens, statements, nesting, lineOf whole (char :: rest), groupLine⟩
        (char :: rest) =
      outcome isGlyph whole
        ⟨mode', token', tokens', statements, nesting', lineOf whole rest, groupLine⟩ rest := by
  refine outcome_turn suffix ?_
  rw [Bracketed.step bracketed, read]

/-- A text inside a group goes on as long as one of its braces is open. -/
theorem outcome_literal (bracketed : Bracketed mode opener closer kind) {depth : Int}
    {state state' : Bool × Int} (isOpen : 0 < state.2) {run rest : List Char}
    (inside : Inside state run state') (suffix : run ++ rest <:+ whole) :
    outcome isGlyph whole
        ⟨mode, token, tokens, statements, ⟨depth, state.2, state.1, false⟩,
          lineOf whole (run ++ rest), groupLine⟩ (run ++ rest) =
      outcome isGlyph whole
        ⟨mode, token ++ run, tokens, statements, ⟨depth, state'.2, state'.1, false⟩,
          lineOf whole rest, groupLine⟩ rest := by
  induction inside generalizing token with
  | nil => rw [List.append_nil, List.nil_append]
  | @cons escaped count char run state still behind inductionHypothesis =>
      rw [List.cons_append] at suffix ⊢
      have read : ∀ next, groupChar ⟨mode, token, tokens, statements,
          ⟨depth, count, escaped, false⟩, lineOf whole (char :: (run ++ rest)), groupLine⟩ opener
            closer char next =
          ⟨mode, token ++ [char], tokens, statements,
            ⟨depth, (braces escaped count char).2, (braces escaped count char).1, false⟩,
              lineOf whole (char :: (run ++ rest)), groupLine⟩ := by
        intro next
        unfold groupChar
        rw [if_neg Bool.false_ne_true, if_pos isOpen]
        rfl
      rw [outcome_groupChar bracketed suffix (read _),
        inductionHypothesis still ((List.suffix_cons char _).trans suffix), List.append_assoc]
      rfl

theorem Bracketed.apart (bracketed : Bracketed mode opener closer kind) :
    opener ≠ '\x7b' ∧ closer ≠ '\x7b' ∧ opener ≠ '\n' ∧ closer ≠ '\n' ∧ opener ≠ '-' ∧
      closer ≠ '-' ∧ opener ≠ closer := by
  cases bracketed <;> decide

/-- A character of a group that stands in no text, starts no comment and is no delimiter. -/
theorem groupChar_plain {scanner : Scanner} {char : Char} {next : Option Char}
    (noComment : scanner.nesting.comment = false) (noText : scanner.nesting.texts = 0)
    (noBrace : char ≠ '\x7b') (noMinus : ¬ (char = '-' ∧ next = some '-'))
    (noOpener : char ≠ opener) (noCloser : char ≠ closer) :
    scanner.groupChar opener closer char next = scanner.push char := by
  unfold groupChar
  dsimp only
  rw [if_neg (by simp [noComment]), if_neg (by simp [noText]), if_neg noBrace, if_neg noMinus,
    if_neg noOpener, if_neg noCloser]

/-- A comment inside a group goes on to the end of its line, which belongs to the group again. -/
theorem outcome_hidden (bracketed : Bracketed mode opener closer kind) {depth : Int}
    (rest : List Char) (suffix : rest <:+ whole) :
    outcome isGlyph whole
        ⟨mode, token, tokens, statements, ⟨depth, 0, false, true⟩, lineOf whole rest,
          groupLine⟩ rest =
      outcome isGlyph whole
        ⟨mode, token, tokens, statements, ⟨depth, 0, false, false⟩,
          lineOf whole (rest.dropWhile (· ≠ '\n')), groupLine⟩ (rest.dropWhile (· ≠ '\n')) := by
  induction rest with
  | nil => exact (Bracketed.finish bracketed _).trans (Bracketed.finish bracketed _).symm
  | cons char rest inductionHypothesis =>
      by_cases breaks : char = '\n'
      · rw [List.dropWhile_cons_of_neg (by simp [breaks])]
        obtain ⟨_, _, noOpener, noCloser, _⟩ := bracketed.apart
        subst breaks
        have shown := @groupChar_plain opener closer ⟨mode, token, tokens, statements,
          ⟨depth, 0, false, false⟩, lineOf whole ('\n' :: rest), groupLine⟩ '\n' rest.head?
            rfl rfl (by decide) (by simp) noOpener.symm noCloser.symm
        rw [outcome_groupChar bracketed suffix shown]
        exact outcome_groupChar bracketed suffix rfl
      · rw [List.dropWhile_cons_of_pos (by simp [breaks]),
          ← inductionHypothesis ((List.suffix_cons char rest).trans suffix)]
        refine outcome_groupChar bracketed suffix ?_
        unfold groupChar
        rw [if_pos rfl, if_neg breaks]

/-- A group ends at the delimiter that closes it. -/
theorem outcome_group (bracketed : Bracketed mode opener closer kind) {depth : Nat}
    {text : List Char} (suffix : text <:+ whole) :
    outcome isGlyph whole
        ⟨mode, token, tokens, statements, ⟨(depth : Int) + 1, 0, false, false⟩, lineOf whole text,
          groupLine⟩ text =
      match groupInterior opener closer depth text with
      | some (inner, after) =>
          outcome isGlyph whole
            ⟨.start, [], tokens ++ [token ++ inner ++ [closer]], statements,
              ⟨0, 0, false, false⟩, lineOf whole after, groupLine⟩ after
      | none => .error (.incompleteGroup kind groupLine) := by
  obtain ⟨noBrace, noBrace', _, _, noMinus, noMinus', distinct⟩ := bracketed.apart
  fun_induction groupInterior opener closer depth text generalizing token with
  | case1 => exact Bracketed.finish bracketed _
  | case2 depth rest notFound =>
      have behind := (List.suffix_cons '\x7b' rest).trans suffix
      obtain ⟨state, unclosed⟩ := inside_of_unclosed notFound
      have inside : Inside (false, 1) rest state := unclosed
      rw [outcome_groupChar bracketed suffix rfl]
      rw [← List.append_nil rest] at behind ⊢
      refine (outcome_literal bracketed (by decide) inside behind).trans ?_
      exact Bracketed.finish bracketed _
  | case3 depth rest literal afterText textFound inductionHypothesis =>
      obtain rfl := textInterior_split textFound
      have behind := (List.suffix_cons '\x7b' _).trans suffix
      have closing := (List.suffix_append literal _).trans behind
      have inside : Inside (false, 1) literal (false, 1) := inside_of_textInterior textFound
      rw [outcome_groupChar bracketed suffix rfl]
      refine (outcome_literal bracketed (by decide) inside behind).trans ?_
      rw [outcome_groupChar bracketed closing rfl]
      refine (inductionHypothesis ((List.suffix_cons '\x7d' afterText).trans closing)).trans ?_
      cases groupInterior opener closer depth afterText <;> simp [push]
  | case4 depth char rest _ comments inductionHypothesis =>
      obtain ⟨rfl, follows⟩ := comments
      have behind := (List.suffix_cons '-' rest).trans suffix
      have hides : groupChar ⟨mode, token, tokens, statements, ⟨(depth : Int) + 1, 0, false, false⟩,
          lineOf whole ('-' :: rest), groupLine⟩ opener closer '-' rest.head? =
          ⟨mode, token, tokens, statements, ⟨(depth : Int) + 1, 0, false, true⟩,
            lineOf whole ('-' :: rest), groupLine⟩ := by
        rw [follows]
        rfl
      rw [outcome_groupChar bracketed suffix hides, outcome_hidden bracketed rest behind]
      exact inductionHypothesis ((List.dropWhile_suffix _).trans behind)
  | case5 depth char rest _ noComment ends =>
      obtain ⟨rfl, rfl⟩ := ends
      refine outcome_groupChar bracketed suffix ?_
      unfold groupChar
      dsimp only
      rw [if_neg (by decide), if_neg (by decide), if_neg noBrace', if_neg noComment,
        if_neg distinct.symm, if_pos rfl]
      simp [settle, emit, push]
  | case6 depth char rest notBrace noComment inside inductionHypothesis =>
      have behind := (List.suffix_cons char rest).trans suffix
      have read : groupChar ⟨mode, token, tokens, statements, ⟨(depth : Int) + 1, 0, false, false⟩,
          lineOf whole (char :: rest), groupLine⟩ opener closer char rest.head? =
          ⟨mode, token ++ [char], tokens, statements,
            ⟨(Syntax.nesting opener closer depth char : Int) + 1, 0, false, false⟩,
              lineOf whole (char :: rest), groupLine⟩ := by
        unfold Syntax.nesting
        by_cases opens : char = opener
        · unfold groupChar
          dsimp only
          rw [if_neg (by decide), if_neg (by decide), if_neg notBrace, if_neg noComment,
            if_pos opens, if_pos opens]
          rfl
        · by_cases closes : char = closer
          · have deeper : depth ≠ 0 := fun none => inside ⟨closes, none⟩
            obtain ⟨depth, rfl⟩ := Nat.exists_eq_succ_of_ne_zero deeper
            unfold groupChar
            dsimp only
            rw [if_neg (by decide), if_neg (by decide), if_neg notBrace, if_neg noComment,
              if_neg opens, if_pos closes, if_neg opens, if_pos closes]
            have counted : ((depth + 1 : Nat) : Int) + 1 - 1 = (depth : Int) + 1 := by omega
            unfold settle
            dsimp only
            rw [counted, if_neg (by omega)]
            rfl
          · rw [groupChar_plain rfl rfl notBrace noComment opens closes, if_neg opens,
              if_neg closes]
            rfl
      rw [outcome_groupChar bracketed suffix read]
      refine (inductionHypothesis behind).trans ?_
      cases groupInterior opener closer (Syntax.nesting opener closer depth char) rest <;> simp

end Groups

/-! ## Between tokens -/

section Start

variable {isGlyph : Char → Bool} {whole : List Char}
variable {tokens : List (List Char)} {statements : List Shown} {inner : Nesting} {groupLine : Nat}

/-- A character between tokens that the machine takes. -/
theorem outcome_begin {char : Char} {rest : List Char} (suffix : char :: rest <:+ whole)
    {token token' : List Char} {mode' : Mode} {tokens' : List (List Char)}
    {statements' : List Shown} {inner' : Nesting} {groupLine' : Nat}
    (taken : begin isGlyph
      ⟨.start, token, tokens, statements, inner, lineOf whole (char :: rest), groupLine⟩ char
        rest.head? (offsetOf whole rest) =
      .ok ⟨mode', token', tokens', statements', inner', lineOf whole (char :: rest), groupLine'⟩) :
    outcome isGlyph whole
        ⟨.start, token, tokens, statements, inner, lineOf whole (char :: rest), groupLine⟩
        (char :: rest) =
      outcome isGlyph whole
        ⟨mode', token', tokens', statements', inner', lineOf whole rest, groupLine'⟩ rest := by
  refine outcome_turn suffix ?_
  show (begin isGlyph _ char _ _).map (true, ·) = _
  rw [taken]
  rfl

/-- A character that starts a word does not depend on the text behind it. -/
theorem begin_word {scanner : Scanner} {char : Char} {rest : List Char} (past : Nat)
    (starts : startsWord char rest) :
    scanner.begin isGlyph char rest.head? past =
      if isGlyph char then .ok { scanner.push char with mode := .operator }
      else if char.isDigit ∨ char = negativeGlyph then
        .ok { scanner.push char with mode := .number }
      else if isNameStart char then .ok { scanner.push char with mode := .name }
      else .ok { scanner with tokens := scanner.tokens ++ [[char]] } := by
  obtain ⟨noDelimiter, noComment, notBlank⟩ := starts
  simp only [delimiters, List.mem_cons, List.not_mem_nil, or_false, not_or] at noDelimiter
  unfold begin
  rw [if_neg noDelimiter.1, if_neg noDelimiter.2.1, if_neg noDelimiter.2.2.1,
    if_neg noDelimiter.2.2.2.1, if_neg noDelimiter.2.2.2.2.1, if_neg (by simp [noDelimiter]),
    if_neg noComment, if_neg notBlank]

/-- A word that takes the characters that pass a test is taken up to the first other one. -/
theorem taken_takeWhile {mode : Mode} {test : Char → Bool}
    (takes_iff : ∀ token char, takes isGlyph mode token char = test char) (token text : List Char) :
    Taken isGlyph mode token (text.takeWhile test) ∧
      ∀ char ∈ (text.dropWhile test).head?,
        ¬ takes isGlyph mode (token ++ text.takeWhile test) char := by
  induction text generalizing token with
  | nil => exact ⟨trivial, nofun⟩
  | cons char rest inductionHypothesis =>
      by_cases passes : test char
      · obtain ⟨taken, refused⟩ := inductionHypothesis (token ++ [char])
        rw [List.takeWhile_cons_of_pos passes, List.dropWhile_cons_of_pos passes]
        refine ⟨⟨(takes_iff token char).trans passes, taken⟩, ?_⟩
        simpa using refused
      · rw [List.takeWhile_cons_of_neg passes, List.dropWhile_cons_of_neg passes]
        refine ⟨trivial, fun other head => ?_⟩
        cases head
        rw [takes_iff]
        exact passes

/-- A number is taken up to the first character that it does not go on with. -/
theorem taken_numberTail {token : List Char} {previous : Char}
    (last : token.getLast? = some previous) (text : List Char) :
    Taken isGlyph .number token (numberTail previous text).1 ∧
      ∀ char ∈ (numberTail previous text).2.head?,
        ¬ takes isGlyph .number (token ++ (numberTail previous text).1) char := by
  induction text generalizing token previous with
  | nil => exact ⟨trivial, nofun⟩
  | cons char rest inductionHypothesis =>
      have same : takes isGlyph .number token char ↔ GoesOn previous char := by
        simp [takes, last, GoesOn]
      by_cases goesOn : GoesOn previous char
      · have concat : (token ++ [char]).getLast? = some char := List.getLast?_concat
        obtain ⟨taken, refused⟩ := inductionHypothesis concat
        rw [numberTail_of_goesOn goesOn]
        exact ⟨⟨same.mpr goesOn, taken⟩, by simpa using refused⟩
      · rw [numberTail_of_not_goesOn goesOn]
        refine ⟨trivial, fun other head => ?_⟩
        cases head
        rw [List.append_nil, same]
        exact goesOn

/-- A word is one token. -/
theorem outcome_startsWord {char : Char} {rest : List Char} (suffix : char :: rest <:+ whole)
    (starts : startsWord char rest) :
    outcome isGlyph whole
        ⟨.start, [], tokens, statements, inner, lineOf whole (char :: rest), groupLine⟩
        (char :: rest) =
      outcome isGlyph whole
        ⟨.start, [], tokens ++ [(wordAt isGlyph char rest).1], statements, inner,
          lineOf whole (wordAt isGlyph char rest).2, groupLine⟩ (wordAt isGlyph char rest).2 := by
  have behind := (List.suffix_cons char rest).trans suffix
  have begun := @begin_word isGlyph ⟨.start, [], tokens, statements, inner,
    lineOf whole (char :: rest), groupLine⟩ char rest (offsetOf whole rest) starts
  -- the other characters of the word are taken one after the other
  have goesOn {mode : Mode} {run after : List Char} (words : isWord mode) (split : run ++ after = rest)
      (others : Taken isGlyph mode [char] run ∧
        ∀ next ∈ after.head?, ¬ takes isGlyph mode ([char] ++ run) next) :
      outcome isGlyph whole
          ⟨mode, [char], tokens, statements, inner, lineOf whole rest, groupLine⟩ rest =
        outcome isGlyph whole
          ⟨.start, [], tokens ++ [char :: run], statements, inner, lineOf whole after, groupLine⟩
          after := by
    subst split
    exact outcome_word words (List.cons_ne_nil char []) behind others.1 others.2
  unfold wordAt
  by_cases glyph : isGlyph char
  · rw [if_pos glyph] at begun ⊢
    rw [outcome_begin suffix begun]
    exact goesOn (Or.inl rfl) List.takeWhile_append_dropWhile
      (taken_takeWhile (fun _ _ => rfl) [char] rest)
  rw [if_neg glyph] at begun ⊢
  by_cases digit : char.isDigit ∨ char = negativeGlyph
  · rw [if_pos digit] at begun ⊢
    rw [outcome_begin suffix begun]
    exact goesOn (Or.inr (Or.inl rfl)) (numberTail_append char rest) (taken_numberTail rfl rest)
  rw [if_neg digit] at begun ⊢
  by_cases name : isNameStart char
  · rw [if_pos name] at begun ⊢
    rw [outcome_begin suffix begun]
    exact goesOn (Or.inr (Or.inr rfl)) List.takeWhile_append_dropWhile
      (taken_takeWhile (fun _ _ => rfl) [char] rest)
  rw [if_neg name] at begun ⊢
  exact outcome_begin suffix begun

/-- A comment between tokens goes on to the end of its line. -/
theorem outcome_comment (rest : List Char) (suffix : rest <:+ whole) :
    outcome isGlyph whole
        ⟨.comment, [], tokens, statements, inner, lineOf whole rest, groupLine⟩ rest =
      outcome isGlyph whole
        ⟨.start, [], tokens, statements, inner, lineOf whole (rest.dropWhile (· ≠ '\n')),
          groupLine⟩ (rest.dropWhile (· ≠ '\n')) := by
  induction rest with
  | nil => rfl
  | cons char rest inductionHypothesis =>
      by_cases breaks : char = '\n'
      · rw [List.dropWhile_cons_of_neg (by simp [breaks])]
        subst breaks
        rw [outcome_begin suffix rfl]
        exact outcome_turn suffix rfl
      · rw [List.dropWhile_cons_of_pos (by simp [breaks]),
          ← inductionHypothesis ((List.suffix_cons char rest).trans suffix)]
        refine outcome_turn suffix ?_
        show Except.ok (true, if char = '\n' then _ else _) = _
        rw [if_neg breaks]

private theorem lexeme_dangling {rest : List Char} (noBrace : rest.head? ≠ some '\x7b') :
    lexeme isGlyph '\x60' rest = .error .danglingQuote := by
  unfold lexeme
  rw [if_neg (by decide), if_neg (by decide), if_neg (by decide), if_neg (by decide), if_pos rfl]
  split
  · exact absurd rfl noBrace
  · rfl

/-- What the machine makes of the lexeme at the head of a text. The nesting that it is left with is
that of the last group. -/
theorem outcome_lexeme {char : Char} {rest : List Char} (suffix : char :: rest <:+ whole) :
    ∃ inner' groupLine',
      outcome isGlyph whole
          ⟨.start, [], tokens, statements, inner, lineOf whole (char :: rest), groupLine⟩
          (char :: rest) =
        match lexeme isGlyph char rest with
        | .error fault => .error (fault.toError (lineOf whole (char :: rest)))
        | .ok (read, after) =>
            outcome isGlyph whole
              (match read with
                | .gap => ⟨.start, [], tokens, statements, inner', lineOf whole after, groupLine'⟩
                | .separator =>
                    close ⟨.start, [], tokens, statements, inner', lineOf whole after, groupLine'⟩
                      (offsetOf whole after)
                | .token token =>
                    ⟨.start, [], tokens ++ [token.spelling], statements, inner',
                      lineOf whole after, groupLine'⟩)
              after := by
  have behind := (List.suffix_cons char rest).trans suffix
  by_cases word : startsWord char rest
  · rw [lexeme_word isGlyph word]
    exact ⟨inner, groupLine, outcome_startsWord suffix word⟩
  by_cases quotes : char = '\x60'
  · subst quotes
    by_cases brace : rest.head? = some '\x7b'
    · obtain ⟨others, rfl⟩ : ∃ others, rest = '\x7b' :: others := List.head?_eq_some_iff.mp brace
      refine ⟨⟨0, 0, false, false⟩, lineOf whole ('\x7b' :: others), ?_⟩
      have line : lineOf whole ('\x60' :: '\x7b' :: others) = lineOf whole ('\x7b' :: others) := rfl
      have read : lexeme isGlyph '\x60' ('\x7b' :: others) =
          group .text .quoted (textInterior 0 others) := rfl
      rw [outcome_begin suffix rfl, outcome_begin behind rfl, read, line]
      refine (outcome_text ((List.suffix_cons '\x7b' others).trans behind)).trans ?_
      cases textInterior 0 others <;> rfl
    · rw [lexeme_dangling brace]
      refine ⟨inner, groupLine, outcome_error ?_⟩
      rw [feed_start rfl]
      exact if_neg brace
  unfold lexeme
  by_cases separates : char = ';'
  · rw [if_pos separates]
    subst separates
    refine ⟨inner, groupLine, ?_⟩
    exact outcome_begin suffix rfl
  rw [if_neg separates]
  by_cases opensExpression : char = '('
  · rw [if_pos opensExpression]
    subst opensExpression
    refine ⟨⟨0, 0, false, false⟩, lineOf whole ('(' :: rest), ?_⟩
    rw [outcome_begin suffix rfl]
    refine (outcome_group .expression behind).trans ?_
    cases groupInterior '(' ')' 0 rest <;> rfl
  rw [if_neg opensExpression]
  by_cases opensList : char = '['
  · rw [if_pos opensList]
    subst opensList
    refine ⟨⟨0, 0, false, false⟩, lineOf whole ('[' :: rest), ?_⟩
    rw [outcome_begin suffix rfl]
    refine (outcome_group .list behind).trans ?_
    cases groupInterior '[' ']' 0 rest <;> rfl
  rw [if_neg opensList]
  by_cases opensText : char = '\x7b'
  · rw [if_pos opensText]
    subst opensText
    refine ⟨⟨0, 0, false, false⟩, lineOf whole ('\x7b' :: rest), ?_⟩
    rw [outcome_begin suffix rfl]
    refine (outcome_text behind).trans ?_
    cases textInterior 0 rest <;> rfl
  rw [if_neg opensText]
  rw [if_neg quotes]
  by_cases closes : char = ')' ∨ char = ']' ∨ char = '\x7d'
  · rw [if_pos closes]
    refine ⟨inner, groupLine, outcome_error ?_⟩
    rw [feed_start rfl]
    rcases closes with rfl | rfl | rfl <;> rfl
  rw [if_neg closes]
  by_cases comments : char = '-' ∧ rest.head? = some '-'
  · rw [if_pos comments]
    obtain ⟨rfl, follows⟩ := comments
    have hides : begin isGlyph ⟨.start, [], tokens, statements, inner, lineOf whole ('-' :: rest),
        groupLine⟩ '-' rest.head? (offsetOf whole rest) =
        .ok ⟨.comment, [], tokens, statements, inner, lineOf whole ('-' :: rest), groupLine⟩ := by
      rw [follows]
      rfl
    rw [outcome_begin suffix hides]
    exact ⟨inner, groupLine, outcome_comment rest behind⟩
  rw [if_neg comments]
  by_cases blank : Text.isBlank char
  · rw [if_pos blank]
    refine ⟨inner, groupLine, outcome_begin suffix ?_⟩
    unfold begin
    rw [if_neg separates, if_neg opensExpression, if_neg opensList, if_neg opensText, if_neg quotes,
      if_neg closes, if_neg comments, if_pos blank]
  refine absurd ⟨?_, comments, blank⟩ word
  simp only [not_or] at closes
  simp [delimiters, separates, opensExpression, opensList, opensText, quotes, closes]

/-- What the machine shows of a statement. -/
def shown (whole : List Char) (statement : Statement) : Shown :=
  (statement.tokens.map Token.spelling, offsetOf whole statement.rest)

/-- Between tokens, the machine goes on with what is left of a text as it falls into statements. -/
theorem outcome_start {earlier : List Token} {text : List Char} (suffix : text <:+ whole) :
    outcome isGlyph whole
        ⟨.start, [], earlier.reverse.map Token.spelling, statements, inner, lineOf whole text,
          groupLine⟩ text =
      match statementsFrom isGlyph earlier text with
      | .ok others => .ok (statements ++ others.map (shown whole))
      | .error (fault, stop) => .error (fault.toError (lineOf whole stop)) := by
  fun_induction statementsFrom isGlyph earlier text generalizing statements inner groupLine with
  | case1 earlier =>
      show Except.ok (close _ _).statements = _
      by_cases none : earlier.isEmpty
      · rw [if_pos none]
        simp [close, emit, List.isEmpty_iff.mp none]
      · rw [if_neg none]
        have some : earlier ≠ [] := by simpa using none
        simp [close, emit, some, shown]
  | case2 earlier char rest fault found =>
      obtain ⟨inner', groupLine', turned⟩ := outcome_lexeme suffix
      rw [found] at turned
      exact turned
  | case3 earlier char rest after found inductionHypothesis =>
      obtain ⟨inner', groupLine', turned⟩ := outcome_lexeme suffix
      rw [found] at turned
      have behind := (lexeme_suffix found).trans ((List.suffix_cons char rest).trans suffix)
      exact turned.trans (inductionHypothesis behind)
  | case4 earlier char rest token after found inductionHypothesis =>
      obtain ⟨inner', groupLine', turned⟩ := outcome_lexeme suffix
      rw [found] at turned
      have behind := (lexeme_suffix found).trans ((List.suffix_cons char rest).trans suffix)
      have tokens : earlier.reverse.map Token.spelling ++ [token.spelling] =
          (token :: earlier).reverse.map Token.spelling := by simp
      dsimp only at turned
      rw [tokens] at turned
      exact turned.trans (inductionHypothesis behind)
  | case5 earlier char rest after found empty inductionHypothesis =>
      obtain rfl := List.isEmpty_iff.mp empty
      obtain ⟨inner', groupLine', turned⟩ := outcome_lexeme suffix
      rw [found] at turned
      have behind := (lexeme_suffix found).trans ((List.suffix_cons char rest).trans suffix)
      exact turned.trans (inductionHypothesis behind)
  | case6 earlier char rest after found inhabited inductionHypothesis =>
      obtain ⟨inner', groupLine', turned⟩ := outcome_lexeme suffix
      rw [found] at turned
      have behind := (lexeme_suffix found).trans ((List.suffix_cons char rest).trans suffix)
      have some : earlier ≠ [] := by simpa using inhabited
      have closed : close ⟨.start, [], earlier.reverse.map Token.spelling, statements, inner',
          lineOf whole after, groupLine'⟩ (offsetOf whole after) =
          ⟨.start, [], [], statements ++ [shown whole ⟨earlier.reverse, after⟩], inner',
            lineOf whole after, groupLine'⟩ := by
        simp [close, some, shown]
      dsimp only at turned
      rw [closed] at turned
      refine turned.trans ((inductionHypothesis behind).trans ?_)
      cases statementsFrom isGlyph [] after <;> simp [Except.map]

end Start

/-- The machine reads what falls into statements, and fails where the division fails. -/
theorem scan_eq (isGlyph : Char → Bool) (text : List Char) :
    scan isGlyph text = (tokenize isGlyph text).map (·.map (shown text)) := by
  have first : lineOf text text = 1 := Nat.add_sub_cancel 1 _
  have read := @outcome_start isGlyph text [] ⟨0, 0, false, false⟩ 1 [] text List.suffix_rfl
  rw [first] at read
  refine read.trans ?_
  unfold tokenize
  cases statementsFrom isGlyph [] text <;> rfl

/-! ## Counters -/

/-- The machines that are passed when a text is read, each in front of what is left of the text. -/
inductive Passes (isGlyph : Char → Bool) (whole : List Char) : Scanner → List Char → Prop where
  | initial : Passes isGlyph whole initial whole
  | taken {scanner after : Scanner} {char : Char} {rest : List Char}
      (passes : Passes isGlyph whole scanner (char :: rest))
      (turned : scanner.step isGlyph char rest.head? (offsetOf whole rest) = .ok (true, after)) :
      Passes isGlyph whole (after.advance char) rest
  | refused {scanner after : Scanner} {char : Char} {rest : List Char}
      (passes : Passes isGlyph whole scanner (char :: rest))
      (turned : scanner.step isGlyph char rest.head? (offsetOf whole rest) = .ok (false, after)) :
      Passes isGlyph whole after (char :: rest)

/-- The modes in which a group is open. -/
def isGroup (mode : Mode) : Prop := mode = .expression ∨ mode = .list ∨ mode = .text

/-- The counters are not negative, and inside a group they count that group. -/
structure Sound (scanner : Scanner) : Prop where
  depth : 0 ≤ scanner.nesting.depth
  texts : 0 ≤ scanner.nesting.texts
  isOpen : isGroup scanner.mode → 0 < scanner.nesting.depth

section Sound

variable {scanner : Scanner}

theorem Sound.initial : Sound initial :=
  ⟨Int.le_refl 0, Int.le_refl 0, by simp [isGroup, Scanner.initial]⟩

theorem Sound.emit (sound : Sound scanner) : Sound scanner.emit :=
  ⟨sound.depth, sound.texts, by simp [isGroup, Scanner.emit]⟩

theorem Sound.push (sound : Sound scanner) (char : Char) : Sound (scanner.push char) :=
  ⟨sound.depth, sound.texts, sound.isOpen⟩

/-- A group that is not open any more is finished. -/
theorem sound_settle (depth : 0 ≤ scanner.nesting.depth) (texts : 0 ≤ scanner.nesting.texts) :
    Sound scanner.settle := by
  unfold settle
  split
  · exact ⟨depth, texts, by simp [isGroup, Scanner.emit]⟩
  · next still => exact ⟨depth, texts, fun _ => by omega⟩

/-- A brace is closed only where one is open. -/
theorem braces_nonneg {count : Int} (positive : 0 < count) (escaped : Bool) (char : Char) :
    0 ≤ (braces escaped count char).2 ∧
      (¬ (char = '\x7d' ∧ ¬ escaped) → 0 < (braces escaped count char).2) := by
  unfold braces
  split_ifs <;> simp_all <;> omega

theorem Sound.begin {isGlyph : Char → Bool} {after : Scanner} {char : Char} {next : Option Char}
    {past : Nat} (sound : Sound scanner) (start : scanner.mode = .start)
    (begun : scanner.begin isGlyph char next past = .ok after) : Sound after := by
  have outside (mode : Mode) (noGroup : ¬ isGroup mode) {other : Scanner}
      (same : other.nesting = scanner.nesting) (moded : other.mode = mode) : Sound other :=
    ⟨same ▸ sound.depth, same ▸ sound.texts, fun group => absurd (moded ▸ group) noGroup⟩
  have entered (mode : Mode) : Sound (scanner.enter mode char) :=
    ⟨Int.zero_le_ofNat 1, Int.le_refl 0, fun _ => Int.zero_lt_one⟩
  have noGroup : ∀ mode ∈ [Mode.start, .operator, .number, .name, .comment], ¬ isGroup mode := by
    simp [isGroup]
  unfold Scanner.begin at begun
  by_cases separates : char = ';'
  · rw [if_pos separates] at begun
    cases begun
    exact outside .start (noGroup _ (by simp)) rfl start
  rw [if_neg separates] at begun
  by_cases opensExpression : char = '('
  · rw [if_pos opensExpression] at begun
    cases begun
    exact entered .expression
  rw [if_neg opensExpression] at begun
  by_cases opensList : char = '['
  · rw [if_pos opensList] at begun
    cases begun
    exact entered .list
  rw [if_neg opensList] at begun
  by_cases opensText : char = '\x7b'
  · rw [if_pos opensText] at begun
    cases begun
    exact entered .text
  rw [if_neg opensText] at begun
  by_cases quotes : char = '\x60'
  · rw [if_pos quotes] at begun
    split at begun
    · cases begun
      exact outside .start (noGroup _ (by simp)) rfl start
    · cases begun
  rw [if_neg quotes] at begun
  by_cases closes : char = ')' ∨ char = ']' ∨ char = '\x7d'
  · rw [if_pos closes] at begun
    cases begun
  rw [if_neg closes] at begun
  by_cases comments : char = '-' ∧ next = some '-'
  · rw [if_pos comments] at begun
    cases begun
    exact outside .comment (noGroup _ (by simp)) rfl rfl
  rw [if_neg comments] at begun
  by_cases blank : Text.isBlank char
  · rw [if_pos blank] at begun
    cases begun
    exact sound
  rw [if_neg blank] at begun
  by_cases glyph : isGlyph char
  · rw [if_pos glyph] at begun
    cases begun
    exact outside .operator (noGroup _ (by simp)) rfl rfl
  rw [if_neg glyph] at begun
  by_cases digit : char.isDigit ∨ char = negativeGlyph
  · rw [if_pos digit] at begun
    cases begun
    exact outside .number (noGroup _ (by simp)) rfl rfl
  rw [if_neg digit] at begun
  by_cases name : isNameStart char
  · rw [if_pos name] at begun
    cases begun
    exact outside .name (noGroup _ (by simp)) rfl rfl
  rw [if_neg name] at begun
  cases begun
  exact outside .start (noGroup _ (by simp)) rfl start

theorem Sound.textChar (sound : Sound scanner) (group : isGroup scanner.mode) (char : Char) :
    Sound (scanner.textChar char) := by
  obtain ⟨counted, still⟩ := braces_nonneg (sound.isOpen group) scanner.nesting.escaped char
  unfold Scanner.textChar
  dsimp only
  split
  · exact sound_settle counted sound.texts
  · next noCloser => exact ⟨counted, sound.texts, fun _ => still noCloser⟩

theorem Sound.groupChar (sound : Sound scanner) (group : isGroup scanner.mode)
    (opener closer char : Char) (next : Option Char) :
    Sound (scanner.groupChar opener closer char next) := by
  have isOpen := sound.isOpen group
  unfold Scanner.groupChar
  dsimp only
  split_ifs with hidden breaks inText
  · exact ⟨sound.depth, sound.texts, sound.isOpen⟩
  · exact sound
  · exact ⟨sound.depth, (braces_nonneg inText scanner.nesting.escaped char).1, sound.isOpen⟩
  · exact ⟨sound.depth, Int.zero_le_ofNat 1, sound.isOpen⟩
  · exact ⟨sound.depth, sound.texts, sound.isOpen⟩
  · exact ⟨Int.add_nonneg sound.depth (Int.zero_le_ofNat 1), sound.texts,
      fun _ => Int.add_pos isOpen Int.zero_lt_one⟩
  · exact sound_settle (Int.sub_nonneg_of_le isOpen) sound.texts
  · exact sound.push char

/-- One turn of the machine keeps the counters sound. -/
theorem Sound.step {isGlyph : Char → Bool} {after : Scanner} {char : Char} {next : Option Char}
    {past : Nat} {taken : Bool} (sound : Sound scanner)
    (turned : scanner.step isGlyph char next past = .ok (taken, after)) : Sound after := by
  have word (turned : Except.ok (scanner.word isGlyph char) = (.ok (taken, after) :
      Except SyntaxError (Bool × Scanner))) : Sound after := by
    unfold Scanner.word at turned
    split at turned <;> cases turned
    · exact sound.push char
    · exact sound.emit
  unfold Scanner.step at turned
  split at turned
  · next start =>
    obtain ⟨begun, same, equal⟩ := map_eq_ok.mp turned
    cases equal
    exact sound.begin start same
  · exact word turned
  · exact word turned
  · exact word turned
  · next mode =>
    cases turned
    exact sound.groupChar (Or.inl mode) _ _ _ _
  · next mode =>
    cases turned
    exact sound.groupChar (Or.inr (Or.inl mode)) _ _ _ _
  · next mode =>
    cases turned
    exact sound.textChar (Or.inr (Or.inr mode)) _
  · cases turned
    split
    · exact ⟨sound.depth, sound.texts, by simp [isGroup]⟩
    · exact sound

/-- The counters are sound whenever a text is read. -/
theorem Passes.sound {isGlyph : Char → Bool} {whole rest : List Char}
    (passes : Passes isGlyph whole scanner rest) : Sound scanner := by
  induction passes with
  | initial => exact .initial
  | taken _ turned inductionHypothesis =>
      have sound := inductionHypothesis.step turned
      exact ⟨sound.depth, sound.texts, sound.isOpen⟩
  | refused _ turned inductionHypothesis => exact inductionHypothesis.step turned

end Sound

end Scanner

end Fixity.Syntax
