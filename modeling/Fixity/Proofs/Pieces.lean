import Mathlib.Data.List.SplitBy
import Fixity.Proofs.Statements
import Fixity.Proofs.Balance

/-!
Contract: what stands between the braces of a text literal.

Owns:
- `Paired`, the texts in which braces come in pairs, as a grammar without a scanner;
- `Piece`, a character, an escape sequence or a splice in braces, and the text that pieces spell;
- `runs`, the splices among pieces and the rows of pieces between them, with what they stand for;
- the reading of pieces as segments: what a text literal is read as, and what it fails with.

Does not own: tokens, and what the splices are read as.

Main statement: the scanner of text literals passes over the paired texts and no others, and these
are what pieces spell.
-/

namespace Fixity.Syntax

/-! ## Pairs of braces -/

/-- A text in which every brace that is not escaped belongs to a pair, and every escape is
complete. -/
inductive Paired : List Char → Prop
  | nil : Paired []
  | character {char : Char} {rest : List Char} (plain : char ∉ ['\\', '\x7b', '\x7d'])
      (behind : Paired rest) : Paired (char :: rest)
  | escape {char : Char} {rest : List Char} (behind : Paired rest) :
      Paired ('\\' :: char :: rest)
  | braces {inner rest : List Char} (inside : Paired inner) (behind : Paired rest) :
      Paired ('\x7b' :: inner ++ '\x7d' :: rest)

theorem Paired.closed {text : List Char} (paired : Paired text) : Closed text := by
  induction paired with
  | nil => exact closed_of_plain nofun
  | @character char rest plain _ inductionHypothesis =>
      have first : Closed [char] := closed_of_plain (by simpa using plain)
      exact first.append inductionHypothesis
  | @escape char rest _ inductionHypothesis =>
      have first : Closed ['\\', char] := fun depth behind => textInterior_escape depth char behind
      exact first.append inductionHypothesis
  | @braces inner rest _ _ insideHypothesis behindHypothesis =>
      have whole := insideHypothesis.braces.append behindHypothesis
      simpa using whole

/-- Where a deeper scan ends, a less deep one ends as well. -/
private theorem textInterior_shallower {depth : Nat} {text : List Char}
    (ends : textInterior (depth + 1) text ≠ none) : textInterior depth text ≠ none := by
  fun_induction textInterior depth text with
  | case1 => exact absurd rfl ends
  | case2 => exact absurd rfl ends
  | case3 depth char rest inductionHypothesis =>
      rw [textInterior_escape, ne_eq, Option.map_eq_none_iff] at ends
      rw [ne_eq, Option.map_eq_none_iff]
      exact inductionHypothesis ends
  | case4 depth rest inductionHypothesis =>
      rw [textInterior_opener, ne_eq, Option.map_eq_none_iff] at ends
      rw [ne_eq, Option.map_eq_none_iff]
      exact inductionHypothesis ends
  | case5 rest => exact Option.some_ne_none _
  | case6 rest depth inductionHypothesis =>
      rw [textInterior_closer, ne_eq, Option.map_eq_none_iff] at ends
      rw [ne_eq, Option.map_eq_none_iff]
      exact inductionHypothesis ends
  | case7 depth char rest noEscape noEscaped noOpener noCloser inductionHypothesis =>
      have plain := plain_of_other noEscape noEscaped noOpener noCloser
      rw [textInterior_plain plain, ne_eq, Option.map_eq_none_iff] at ends
      rw [ne_eq, Option.map_eq_none_iff]
      exact inductionHypothesis ends

/-- A closed text that starts with a brace is a closed text in braces with a closed text behind. -/
private theorem exists_braces {rest : List Char} (closed : Closed ('\x7b' :: rest)) :
    ∃ inner after, rest = inner ++ '\x7d' :: after ∧ Closed inner ∧ Closed after := by
  have whole := closed.textInterior []
  rw [List.cons_append, textInterior_opener] at whole
  obtain ⟨behind, deeper, same⟩ := of_map_keep ['\x7b'] whole
  obtain rfl : rest = behind := List.tail_eq_of_cons_eq same
  obtain ⟨⟨inner, after⟩, found⟩ := Option.ne_none_iff_exists'.mp
    (textInterior_shallower (by rw [deeper]; nofun))
  have split := textInterior_split found
  have inside := closed_of_textInterior found
  -- The deeper scan goes on behind the brace where the less deep one has ended.
  rw [split, inside, textInterior_closer, map_keep_keep] at deeper
  obtain ⟨others, foundBehind, made⟩ := of_map_keep _ deeper
  exact ⟨inner, others, by simpa using made, inside, closed_of_textInterior foundBehind⟩

theorem Closed.paired {text : List Char} (closed : Closed text) : Paired text := by
  -- By the length of the text: the two parts that a pair of braces leaves are no tails of it.
  induction bound : text.length using Nat.strongRecOn generalizing text with
  | ind bound inductionHypothesis =>
      subst bound
      have whole := closed.textInterior []
      cases text with
      | nil => exact .nil
      | cons char rest =>
          by_cases escapes : char = '\\'
          · subst escapes
            cases rest with
            | nil => cases whole
            | cons char rest =>
                rw [List.cons_append, List.cons_append, textInterior_escape] at whole
                obtain ⟨behind, found, same⟩ := of_map_keep ['\\', char] whole
                obtain rfl : rest = behind := by simpa using same
                have smaller : rest.length < ('\\' :: char :: rest).length := by
                  simp only [List.length_cons]; omega
                exact .escape
                  (inductionHypothesis rest.length smaller (closed_of_textInterior found) rfl)
          by_cases opens : char = '\x7b'
          · subst opens
            obtain ⟨inner, after, rfl, inside, behind⟩ := exists_braces closed
            have lengths : ('\x7b' :: (inner ++ '\x7d' :: after)).length =
                inner.length + after.length + 2 := by
              simp only [List.length_cons, List.length_append]; omega
            exact .braces (inductionHypothesis inner.length (by omega) inside rfl)
              (inductionHypothesis after.length (by omega) behind rfl)
          by_cases closes : char = '\x7d'
          · subst closes
            rw [List.cons_append, textInterior_end] at whole
            cases whole
          have plain : char ∉ ['\\', '\x7b', '\x7d'] := by simp [escapes, opens, closes]
          rw [List.cons_append, textInterior_plain plain] at whole
          obtain ⟨behind, found, same⟩ := of_map_keep [char] whole
          obtain rfl : rest = behind := by simpa using same
          exact .character plain (inductionHypothesis rest.length (Nat.lt_succ_self _)
            (closed_of_textInterior found) rfl)

/-- The scanner of text literals passes over the texts in which braces come in pairs. -/
theorem closed_iff_paired {text : List Char} : Closed text ↔ Paired text :=
  ⟨Closed.paired, Paired.closed⟩

/-! ## Pieces -/

/-- What a text literal is written with. -/
inductive Piece where
  | character (char : Char)
  | escape (char : Char)
  /-- An expression in braces. -/
  | splice (interior : List Char)

namespace Piece

/-- The piece as it is written. -/
def spelling : Piece → List Char
  | character char => [char]
  | escape char => [escapeGlyph, char]
  | splice interior => '\x7b' :: interior ++ ['\x7d']

/-- The text that pieces make up. -/
def spelled (pieces : List Piece) : List Char := pieces.flatMap spelling

theorem spelled_cons (piece : Piece) (rest : List Piece) :
    spelled (piece :: rest) = piece.spelling ++ spelled rest := List.flatMap_cons

/-- A piece that the reader of text literals takes for what it is. -/
inductive Legible : Piece → Prop
  | character {char : Char} (plain : char ∉ ['\\', '\x7b']) : Legible (.character char)
  | escape (char : Char) : Legible (.escape char)
  | splice {interior : List Char} (paired : Paired interior) : Legible (.splice interior)

/-- A closing brace that closes nothing. -/
def stray : Piece := .character '\x7d'

/-- A piece that can stand in a text literal: neither braces nor the escape glyph are ordinary
characters, and in a splice braces come in pairs. -/
structure Proper (piece : Piece) : Prop where
  legible : piece.Legible
  closes : piece ≠ stray

/-- Proper pieces spell the texts in which braces come in pairs. -/
theorem paired_spelled {pieces : List Piece} (proper : ∀ piece ∈ pieces, piece.Proper) :
    Paired (spelled pieces) := by
  induction pieces with
  | nil => exact .nil
  | cons piece rest inductionHypothesis =>
      have behind := inductionHypothesis fun other member =>
        proper other (List.mem_cons_of_mem _ member)
      obtain ⟨legible, closes⟩ := proper piece List.mem_cons_self
      rw [spelled_cons]
      cases legible with
      | @character char plain =>
          refine .character ?_ behind
          have noCloser : char ≠ '\x7d' := fun same => closes (congrArg Piece.character same)
          simpa [noCloser] using plain
      | escape char => exact .escape behind
      | splice paired =>
          have whole := Paired.braces paired behind
          simpa [spelling] using whole

theorem exists_spelled {text : List Char} (paired : Paired text) :
    ∃ pieces, spelled pieces = text ∧ ∀ piece ∈ pieces, piece.Proper := by
  induction paired with
  | nil => exact ⟨[], rfl, nofun⟩
  | @character char rest plain _ inductionHypothesis =>
      obtain ⟨pieces, rfl, proper⟩ := inductionHypothesis
      refine ⟨.character char :: pieces, rfl,
        List.forall_mem_cons.mpr ⟨⟨.character ?_, ?_⟩, proper⟩⟩
      · exact fun member => plain (List.mem_append_left ['\x7d'] member)
      · rintro ⟨⟩
        exact plain (by decide)
  | @escape char rest _ inductionHypothesis =>
      obtain ⟨pieces, rfl, proper⟩ := inductionHypothesis
      exact ⟨.escape char :: pieces, rfl, List.forall_mem_cons.mpr ⟨⟨.escape char, nofun⟩, proper⟩⟩
  | @braces inner rest inside _ _ inductionHypothesis =>
      obtain ⟨pieces, rfl, proper⟩ := inductionHypothesis
      refine ⟨.splice inner :: pieces, ?_,
        List.forall_mem_cons.mpr ⟨⟨.splice inside, nofun⟩, proper⟩⟩
      simp [spelled_cons, spelling]

/-! ## Rows of pieces -/

def isSplice : Piece → Bool
  | splice _ => true
  | _ => false

/-- The expressions in braces, in order. -/
def interiors (pieces : List Piece) : List (List Char) :=
  pieces.filterMap fun
    | splice interior => some interior
    | _ => none

theorem mem_interiors {pieces : List Piece} {interior : List Char} :
    interior ∈ interiors pieces ↔ .splice interior ∈ pieces := by
  unfold interiors
  rw [List.mem_filterMap]
  constructor
  · rintro ⟨piece, member, same⟩
    cases piece with
    | character char => cases same
    | escape char => cases same
    | splice other =>
        cases same
        exact member
  · exact fun member => ⟨_, member, rfl⟩

/-- The character that a piece other than a splice stands for. -/
def decoded : Piece → List Char
  | character char => [char]
  | escape char => [unescapeChar char]
  | splice _ => []

/-- Whether two neighbours belong to one row. -/
def together (piece next : Piece) : Bool := !piece.isSplice && !next.isSplice

/-- The splices, each for itself, and the rows of other pieces between them, as long as they can be.
No pieces at all are one row. -/
def runs (pieces : List Piece) : List (List Piece) :=
  if pieces.isEmpty then [[]] else pieces.splitBy together

/-- What a row of pieces is read as. -/
inductive Stands (reader : Reader) : List Piece → Segment → Prop
  | literal {run : List Piece} (noSplice : ∀ piece ∈ run, ¬ piece.isSplice) :
      Stands reader run (.literal (String.ofList (run.flatMap decoded)))
  | splice {interior : List Char} {node : Node} (read : reader interior = .ok node) :
      Stands reader [.splice interior] (.splice node)

variable {reader : Reader} {run tail : List Char} {earlier : List Segment}

theorem isChain_together {row : List Piece} (noSplice : ∀ piece ∈ row, ¬ piece.isSplice) :
    row.IsChain fun piece next => together piece next := by
  refine List.Pairwise.isChain (List.pairwise_of_forall_mem_list fun piece inRow next inRow' => ?_)
  simp [together, noSplice piece inRow, noSplice next inRow']

/-- Pieces without a splice are one run. -/
theorem runs_row {row : List Piece} (noSplice : ∀ piece ∈ row, ¬ piece.isSplice) :
    runs row = [row] := by
  cases row with
  | nil => rfl
  | cons piece row => exact List.splitBy_of_isChain (by simp) (isChain_together noSplice)

/-- A splice is a run of its own. -/
theorem splitBy_row_splice (row : List Piece) (interior : List Char) (rest : List Piece) :
    (row ++ .splice interior :: rest).splitBy together =
      row.splitBy together ++ [.splice interior] :: rest.splitBy together := by
  have apart (piece : Piece) : together piece (.splice interior) = false := by
    simp [together, isSplice]
  have apart' (piece : Piece) : together (.splice interior) piece = false := by
    simp [together, isSplice]
  rw [List.splitBy_append_cons rest fun piece _ => apart piece]
  congr 1
  exact List.splitBy_append (l := [splice interior]) fun piece last next _ => by
    cases last
    exact apart' next

end Piece

/-! ## Reading pieces -/

section Reading

open Piece

variable {reader : Reader} {run tail : List Char} {earlier : List Segment}

theorem segmentsFrom_decoded {piece : Piece} (legible : piece.Legible)
    (noSplice : ¬ piece.isSplice) (rest : List Char) :
    segmentsFrom reader run earlier (piece.spelling ++ rest) =
      segmentsFrom reader (piece.decoded.reverse ++ run) earlier rest := by
  cases legible with
  | @character char plain =>
      simp only [List.mem_cons, List.not_mem_nil, or_false, not_or] at plain
      show segmentsFrom reader run earlier (char :: rest) =
        segmentsFrom reader (char :: run) earlier rest
      rw [segmentsFrom]
      all_goals simp [plain]
  | escape char =>
      show segmentsFrom reader run earlier ('\\' :: char :: rest) =
        segmentsFrom reader (unescapeChar char :: run) earlier rest
      rw [segmentsFrom]
  | splice paired => exact absurd rfl noSplice

theorem segmentsFrom_splice {interior : List Char} (closed : Closed interior) (rest : List Char) :
    segmentsFrom reader run earlier ((Piece.splice interior).spelling ++ rest) =
      (reader interior).bind fun node =>
        segmentsFrom reader [] (.splice node :: addLiteral run earlier) rest := by
  have found := closed.textInterior rest
  have whole : (Piece.splice interior).spelling ++ rest =
      '\x7b' :: (interior ++ '\x7d' :: rest) := by simp [Piece.spelling]
  rw [whole]
  rw [segmentsFrom]
  split
  · next notFound =>
    rw [found] at notFound
    cases notFound
  · next interior' after found' =>
    rw [found] at found'
    cases found'
    cases reader interior <;> rfl

theorem segmentsFrom_unclosed {rest : List Char} (notFound : textInterior 0 rest = none) :
    segmentsFrom reader run earlier ('\x7b' :: rest) =
      .error (.incompleteGroup .interpolation 1) := by
  rw [segmentsFrom]
  split
  · rfl
  · next found =>
    rw [notFound] at found
    cases found

/-- What is left where nothing but an escape glyph can stand. -/
def Ending (tail : List Char) : Prop := tail = [] ∨ tail = [escapeGlyph]

theorem segmentsFrom_ending (ends : Ending tail) :
    segmentsFrom reader run earlier tail =
      .ok (if earlier.isEmpty then [.literal (String.ofList run.reverse)]
        else (addLiteral run earlier).reverse) := by
  obtain rfl | rfl := ends
  · rw [segmentsFrom]
  · rw [escapeGlyph, segmentsFrom, segmentsFrom]

/-- A row of pieces without a splice. -/
private theorem splitBy_row {row : List Piece} (noSplice : ∀ piece ∈ row, ¬ piece.isSplice) :
    row.splitBy together = if row.isEmpty then [] else [row] := by
  cases row with
  | nil => rfl
  | cons piece row => exact runs_row noSplice

private theorem decoded_eq_nil {row : List Piece} (noSplice : ∀ piece ∈ row, ¬ piece.isSplice) :
    (row.flatMap decoded).isEmpty = row.isEmpty := by
  cases row with
  | nil => rfl
  | cons piece row =>
      have first := noSplice piece List.mem_cons_self
      cases piece <;> simp_all [decoded, isSplice]

private theorem addLiteral_reverse :
    (addLiteral run earlier).reverse = earlier.reverse ++ addLiteral run [] := by
  unfold addLiteral
  split <;> simp

theorem stands_literal {row : List Piece} (noSplice : ∀ piece ∈ row, ¬ piece.isSplice)
    {segment : Segment} : Stands reader row segment ↔
      segment = .literal (String.ofList (row.flatMap decoded)) := by
  constructor
  · intro stands
    cases stands with
    | literal _ => rfl
    | splice _ => exact absurd rfl (noSplice _ List.mem_cons_self)
  · rintro rfl
    exact .literal noSplice

/-- A row of pieces without a splice stands for one literal, if for anything. -/
private theorem stands_row {row : List Piece} (noSplice : ∀ piece ∈ row, ¬ piece.isSplice)
    {others : List (List Piece)} {segments : List Segment} :
    List.Forall₂ (Stands reader) (row.splitBy together ++ others) segments ↔
      ∃ further, List.Forall₂ (Stands reader) others further ∧
        segments = addLiteral (row.flatMap decoded).reverse [] ++ further := by
  rw [splitBy_row noSplice, addLiteral, List.isEmpty_reverse, decoded_eq_nil noSplice,
    List.reverse_reverse]
  cases row with
  | nil => simp
  | cons piece row => simp [List.forall₂_cons_left_iff, stands_literal noSplice]

theorem stands_splice {interior : List Char} {segment : Segment} :
    Stands reader [.splice interior] segment ↔
      ∃ node, reader interior = .ok node ∧ segment = .splice node := by
  constructor
  · intro stands
    cases stands with
    | literal noSplice => exact absurd rfl (noSplice _ List.mem_cons_self)
    | splice read => exact ⟨_, read, rfl⟩
  · rintro ⟨node, read, rfl⟩
    exact .splice read

/-- The pieces are read one run after the other; `row` has been read since the last splice. -/
private theorem segmentsFrom_eq_ok (earlier : List Segment) (ends : Ending tail)
    {pieces row : List Piece} (legible : ∀ piece ∈ pieces, piece.Legible)
    (noSplice : ∀ piece ∈ row, ¬ piece.isSplice) {result : List Segment} :
    segmentsFrom reader (row.flatMap decoded).reverse earlier (spelled pieces ++ tail) =
        .ok result ↔
      ∃ segments, List.Forall₂ (Stands reader) ((row ++ pieces).splitBy together) segments ∧
        result = if (row ++ pieces).isEmpty && earlier.isEmpty then [.literal ""]
          else earlier.reverse ++ segments := by
  induction pieces generalizing row earlier with
  | nil =>
      have whole : segmentsFrom reader (row.flatMap decoded).reverse earlier (spelled [] ++ tail) =
          _ := segmentsFrom_ending ends
      have stands (segments : List Segment) :
          List.Forall₂ (Stands reader) (row.splitBy together ++ []) segments ↔ _ :=
        stands_row noSplice
      rw [List.append_nil] at stands ⊢
      rw [whole, addLiteral_reverse, List.reverse_reverse]
      simp only [stands, List.forall₂_nil_left_iff, exists_eq_left, List.append_nil,
        Except.ok.injEq, addLiteral, List.isEmpty_reverse, decoded_eq_nil noSplice,
        List.reverse_reverse]
      cases row <;> cases earlier <;> simp [eq_comm]
  | cons piece rest inductionHypothesis =>
      have others := fun other member => legible other (List.mem_cons_of_mem piece member)
      have first := legible piece List.mem_cons_self
      rw [spelled_cons, List.append_assoc]
      by_cases splices : piece.isSplice
      · cases first with
        | character plain => cases splices
        | escape char => cases splices
        | @splice interior paired =>
            rw [segmentsFrom_splice paired.closed, splitBy_row_splice]
            simp only [stands_row noSplice, List.forall₂_cons_left_iff, stands_splice]
            cases read : reader interior with
            | error error => simp [Except.bind]
            | ok node =>
                -- The row in front of the splice is complete, and the next one starts empty.
                have noRow : ∀ piece ∈ ([] : List Piece), ¬ piece.isSplice := nofun
                refine (inductionHypothesis
                  (.splice node :: addLiteral (row.flatMap decoded).reverse earlier) others
                  noRow).trans ?_
                simp [addLiteral_reverse]
      · have longer : ∀ other ∈ row ++ [piece], ¬ other.isSplice := by
          intro other member
          rcases List.mem_append.mp member with inRow | last
          · exact noSplice other inRow
          · rwa [List.mem_singleton.mp last]
        have further := inductionHypothesis earlier others longer
        rw [segmentsFrom_decoded first splices]
        simpa using further

/-- A text fails as the first of its splices does that can not be read. -/
private theorem segmentsFrom_eq_error (ends : Ending tail) {pieces : List Piece}
    (legible : ∀ piece ∈ pieces, piece.Legible) {error : SyntaxError} :
    segmentsFrom reader run earlier (spelled pieces ++ tail) = .error error ↔
      (interiors pieces).mapM reader = .error error := by
  induction pieces generalizing run earlier with
  | nil =>
      have whole : segmentsFrom reader run earlier (spelled [] ++ tail) = _ :=
        segmentsFrom_ending ends
      rw [whole]
      exact ⟨nofun, nofun⟩
  | cons piece rest inductionHypothesis =>
      have others := fun other member => legible other (List.mem_cons_of_mem piece member)
      rw [spelled_cons, List.append_assoc]
      cases legible piece List.mem_cons_self with
      | @character char plain =>
          rw [segmentsFrom_decoded (.character plain) nofun]
          exact inductionHypothesis others
      | escape char =>
          rw [segmentsFrom_decoded (.escape char) nofun]
          exact inductionHypothesis others
      | @splice interior paired =>
          have splices : interiors (.splice interior :: rest) = interior :: interiors rest := rfl
          rw [segmentsFrom_splice paired.closed, splices, List.mapM_cons]
          cases read : reader interior with
          | error other => exact ⟨by rintro ⟨⟩; rfl, by rintro ⟨⟩; rfl⟩
          | ok node =>
              refine (inductionHypothesis others).trans ?_
              cases (interiors rest).mapM reader with
              | error other => exact ⟨by rintro ⟨⟩; rfl, by rintro ⟨⟩; rfl⟩
              | ok nodes => exact ⟨nofun, nofun⟩

end Reading

/-! ## One way to divide a text -/

section Division

open Piece

variable {piece other : Piece} {pieces others : List Piece} {rest rest' tail tail' : List Char}

private theorem spelling_append_inj (legible : piece.Legible) (legible' : other.Legible)
    (same : piece.spelling ++ rest = other.spelling ++ rest') : piece = other ∧ rest = rest' := by
  cases legible with
  | @character char plain =>
      cases legible' with
      | character _ => simpa [spelling] using same
      | escape _ =>
          obtain rfl : char = escapeGlyph := List.head_eq_of_cons_eq same
          exact absurd (by decide) plain
      | splice _ =>
          obtain rfl : char = '\x7b' := List.head_eq_of_cons_eq same
          exact absurd (by decide) plain
  | escape char =>
      cases legible' with
      | character plain =>
          obtain rfl := List.head_eq_of_cons_eq same
          exact absurd (by decide) plain
      | escape _ => simpa [spelling] using same
      | splice _ => exact absurd (List.head_eq_of_cons_eq same) (by decide)
  | @splice interior paired =>
      cases legible' with
      | character plain =>
          obtain rfl := List.head_eq_of_cons_eq same
          exact absurd (by decide) plain
      | escape _ => exact absurd (List.head_eq_of_cons_eq same) (by decide)
      | @splice interior' paired' =>
          have behind : interior ++ '\x7d' :: rest = interior' ++ '\x7d' :: rest' := by
            simpa [spelling] using same
          have found := paired.closed.textInterior rest
          rw [behind, paired'.closed.textInterior rest'] at found
          cases found
          exact ⟨rfl, rfl⟩

private theorem ending_ne (ends : Ending tail) (legible : piece.Legible) :
    tail ≠ piece.spelling ++ rest := by
  obtain rfl | rfl := ends
  · cases legible <;> nofun
  · cases legible with
    | @character char plain =>
        intro same
        obtain rfl : escapeGlyph = char := List.head_eq_of_cons_eq same
        exact absurd (by decide) plain
    | escape char => nofun
    | splice paired => exact fun same => absurd (List.head_eq_of_cons_eq same) (by decide)

/-- There is one way to divide a text into pieces. -/
theorem pieces_unique (legible : ∀ piece ∈ pieces, piece.Legible)
    (legible' : ∀ piece ∈ others, piece.Legible) (ends : Ending tail) (ends' : Ending tail')
    (same : spelled pieces ++ tail = spelled others ++ tail') : pieces = others ∧ tail = tail' := by
  induction pieces generalizing others with
  | nil =>
      cases others with
      | nil => exact ⟨rfl, same⟩
      | cons other others =>
          rw [spelled_cons, List.append_assoc] at same
          exact absurd same (ending_ne ends (legible' other List.mem_cons_self))
  | cons piece pieces inductionHypothesis =>
      rw [spelled_cons, List.append_assoc] at same
      cases others with
      | nil => exact absurd same.symm (ending_ne ends' (legible piece List.mem_cons_self))
      | cons other others =>
          rw [spelled_cons, List.append_assoc] at same
          obtain ⟨rfl, behind⟩ := spelling_append_inj (legible piece List.mem_cons_self)
            (legible' other List.mem_cons_self) same
          obtain ⟨rfl, rfl⟩ := inductionHypothesis
            (fun other member => legible other (List.mem_cons_of_mem _ member))
            (fun other member => legible' other (List.mem_cons_of_mem _ member)) behind
          exact ⟨rfl, rfl⟩

end Division

/-! ## Whole texts -/

section Texts

open Piece

variable {levels : Levels} {tail : List Char} {pieces : List Piece}

/-- What the text between the braces of a text literal is read as. -/
theorem parseText_eq_ok (ends : Ending tail) (legible : ∀ piece ∈ pieces, piece.Legible)
    {segments : List Segment} :
    parseText levels (spelled pieces ++ tail) = .ok segments ↔
      List.Forall₂ (Stands (parseBody levels)) (runs pieces) segments := by
  rw [parseText_eq]
  have noRow : ∀ piece ∈ ([] : List Piece), ¬ piece.isSplice := nofun
  refine (segmentsFrom_eq_ok [] ends legible noRow).trans ?_
  cases pieces with
  | nil =>
      have one : runs [] = [[]] := rfl
      simp [one, List.forall₂_cons_left_iff, stands_literal]
  | cons piece rest => simp [runs]

/-- What reading the text between the braces of a text literal fails with. -/
theorem parseText_eq_error (ends : Ending tail) (legible : ∀ piece ∈ pieces, piece.Legible)
    {error : SyntaxError} :
    parseText levels (spelled pieces ++ tail) = .error error ↔
      (interiors pieces).mapM (parseBody levels) = .error error := by
  rw [parseText_eq]
  exact segmentsFrom_eq_error ends legible

/-- What starts with a brace that is never closed. -/
def Unclosed (text : List Char) : Prop :=
  ∃ rest, text = '\x7b' :: rest ∧ textInterior 0 rest = none

/-- A text is read as pieces up to its end, or up to a brace that is never closed. -/
theorem exists_pieces (text : List Char) :
    ∃ pieces rest, text = spelled pieces ++ rest ∧ (∀ piece ∈ pieces, piece.Legible) ∧
      (Ending rest ∨ Unclosed rest) := by
  induction bound : text.length using Nat.strongRecOn generalizing text with
  | ind bound inductionHypothesis =>
      subst bound
      have further {piece : Piece} (others : List Char) (legible : piece.Legible)
          (inhabited : piece.spelling ≠ []) (whole : text = piece.spelling ++ others) :
          ∃ pieces rest, text = spelled pieces ++ rest ∧ (∀ piece ∈ pieces, piece.Legible) ∧
            (Ending rest ∨ Unclosed rest) := by
        have shorter : others.length < text.length := by
          have positive := List.length_pos_iff.mpr inhabited
          rw [whole, List.length_append]
          omega
        obtain ⟨pieces, rest, rfl, legible', ends⟩ :=
          inductionHypothesis others.length shorter others rfl
        refine ⟨piece :: pieces, rest, ?_, List.forall_mem_cons.mpr ⟨legible, legible'⟩, ends⟩
        rw [whole, spelled_cons, List.append_assoc]
      cases text with
      | nil => exact ⟨[], [], rfl, nofun, .inl (.inl rfl)⟩
      | cons char others =>
          by_cases escapes : char = '\\'
          · subst escapes
            cases others with
            | nil => exact ⟨[], _, rfl, nofun, .inl (.inr rfl)⟩
            | cons char others => exact further others (.escape char) nofun rfl
          by_cases opens : char = '\x7b'
          · subst opens
            cases found : textInterior 0 others with
            | none => exact ⟨[], _, rfl, nofun, .inr ⟨others, rfl, found⟩⟩
            | some pair =>
                obtain ⟨interior, after⟩ := pair
                refine further after
                  (.splice (closed_of_textInterior found).paired) nofun ?_
                rw [textInterior_split found]
                simp [spelling]
          exact further others (.character (by simp [escapes, opens])) nofun rfl

/-- A text is closed if no piece of it is a closing brace and no escape is cut off. -/
theorem closed_spelled_iff (ends : Ending tail) (legible : ∀ piece ∈ pieces, piece.Legible) :
    Closed (spelled pieces ++ tail) ↔ stray ∉ pieces ∧ tail = [] := by
  constructor
  · intro closed
    obtain ⟨others, whole, proper⟩ := exists_spelled closed.paired
    obtain ⟨rfl, rfl⟩ := pieces_unique (fun piece member => (proper piece member).legible) legible
      (.inl rfl) ends (by rw [List.append_nil, whole])
    exact ⟨fun member => (proper stray member).closes rfl, rfl⟩
  · rintro ⟨closes, rfl⟩
    rw [List.append_nil]
    exact (paired_spelled fun piece member =>
      ⟨legible piece member, fun same => closes (same ▸ member)⟩).closed

private theorem segmentsFrom_unread {reader : Reader} {rest : List Char} (unclosed : Unclosed rest)
    (legible : ∀ piece ∈ pieces, piece.Legible) {run : List Char}
    {earlier segments : List Segment} :
    segmentsFrom reader run earlier (spelled pieces ++ rest) ≠ .ok segments := by
  induction pieces generalizing run earlier with
  | nil =>
      obtain ⟨others, rfl, notFound⟩ := unclosed
      have failed : segmentsFrom reader run earlier (spelled [] ++ '\x7b' :: others) = _ :=
        segmentsFrom_unclosed notFound
      rw [failed]
      nofun
  | cons piece behind inductionHypothesis =>
      have others := fun other member => legible other (List.mem_cons_of_mem piece member)
      rw [spelled_cons, List.append_assoc]
      cases legible piece List.mem_cons_self with
      | @character char plain =>
          rw [segmentsFrom_decoded (.character plain) nofun]
          exact inductionHypothesis others
      | escape char =>
          rw [segmentsFrom_decoded (.escape char) nofun]
          exact inductionHypothesis others
      | @splice interior paired =>
          rw [segmentsFrom_splice paired.closed]
          cases reader interior with
          | error error => nofun
          | ok node => exact inductionHypothesis others

/-- What can be read as the text between the braces of a text literal is written with pieces, but
for an escape glyph at its end. -/
theorem exists_pieces_of_parseText {text : List Char} {segments : List Segment}
    (read : parseText levels text = .ok segments) :
    ∃ pieces tail, text = spelled pieces ++ tail ∧ (∀ piece ∈ pieces, piece.Legible) ∧
      Ending tail := by
  obtain ⟨pieces, rest, rfl, legible, ends | unclosed⟩ := exists_pieces text
  · exact ⟨pieces, rest, rfl, legible, ends⟩
  · rw [parseText_eq] at read
    exact absurd read (segmentsFrom_unread unclosed legible)

end Texts

end Fixity.Syntax
