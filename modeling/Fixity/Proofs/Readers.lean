import Mathlib.Data.List.Forall2
import Fixity.Syntax.Parser

/-!
Contract: reading without a bound.

Owns:
- rows of readings that succeed, as readings entry by entry, and those that fail, by their first
  entry that does;
- the texts that reading hands to the reader of groups, which are shorter than the text read;
- the agreement of everything read with two readers that agree on the texts handed to them;
- the equations of `parseBody`, `parse` and `parseText`, in which groups are read by `parseBody`
  itself and no bound is left.

Does not own: what a text reads as.
-/

namespace Fixity.Syntax

/-! ## Rows of readings -/

section Rows

variable {α β ε : Type}

theorem mapM_eq_ok {read : α → Except ε β} {entries : List α} {results : List β} :
    entries.mapM read = .ok results ↔
      List.Forall₂ (fun entry result => read entry = .ok result) entries results := by
  induction entries generalizing results with
  | nil =>
      rw [List.mapM_nil, List.forall₂_nil_left_iff]
      exact ⟨fun equal => (Except.ok.inj equal).symm, fun equal => congrArg Except.ok equal.symm⟩
  | cons entry rest inductionHypothesis =>
      rw [List.mapM_cons, List.forall₂_cons_left_iff]
      cases first : read entry with
      | error error =>
          refine ⟨nofun, ?_⟩
          rintro ⟨result, _, ok, _, _⟩
          cases ok
      | ok result =>
          cases others : rest.mapM read with
          | error error =>
              refine ⟨nofun, ?_⟩
              rintro ⟨_, tail, _, inRest, _⟩
              rw [inductionHypothesis.mpr inRest] at others
              cases others
          | ok tail =>
              have inRest := inductionHypothesis.mp others
              constructor
              · intro equal
                exact ⟨result, tail, rfl, inRest, (Except.ok.inj equal).symm⟩
              · rintro ⟨_, tail', ok, inRest', rfl⟩
                have sameTail := inductionHypothesis.mpr inRest'
                rw [others] at sameTail
                rw [← Except.ok.inj ok, ← Except.ok.inj sameTail]
                rfl

/-- A row of readings fails as the first entry does that can not be read. -/
theorem exists_of_mapM_error {read : α → Except ε β} {entries : List α} {error : ε}
    (failed : entries.mapM read = .error error) :
    ∃ before entry after, entries = before ++ entry :: after ∧
      (∀ earlier ∈ before, ∃ result, read earlier = .ok result) ∧ read entry = .error error := by
  induction entries with
  | nil => cases failed
  | cons first rest inductionHypothesis =>
      rw [List.mapM_cons] at failed
      cases here : read first with
      | error other =>
          rw [here] at failed
          cases failed
          exact ⟨[], first, rest, rfl, nofun, here⟩
      | ok result =>
          rw [here] at failed
          cases others : rest.mapM read with
          | ok results =>
              rw [others] at failed
              cases failed
          | error other =>
              rw [others] at failed
              cases failed
              obtain ⟨before, entry, after, row, succeed, fails⟩ := inductionHypothesis others
              refine ⟨first :: before, entry, after, by rw [row]; rfl, ?_, fails⟩
              exact List.forall_mem_cons.mpr ⟨⟨result, here⟩, succeed⟩

theorem mapM_congr {read other : α → Except ε β} {entries : List α}
    (agree : ∀ entry ∈ entries, read entry = other entry) :
    entries.mapM read = entries.mapM other := by
  induction entries with
  | nil => rfl
  | cons entry rest inductionHypothesis =>
      rw [List.mapM_cons, List.mapM_cons, agree entry (by simp),
        inductionHypothesis fun other member => agree other (by simp [member])]

theorem exists_right_of_forall₂ {related : α → β → Prop} {entries : List α} {results : List β}
    (rows : List.Forall₂ related entries results) {entry : α} (member : entry ∈ entries) :
    ∃ result, related entry result := by
  induction rows with
  | nil => cases member
  | @cons first result rest _ head _ inductionHypothesis =>
      rcases List.mem_cons.mp member with rfl | inRest
      · exact ⟨result, head⟩
      · exact inductionHypothesis inRest

theorem exists_left_of_forall₂ {related : α → β → Prop} {entries : List α} {results : List β}
    (rows : List.Forall₂ related entries results) {result : β} (member : result ∈ results) :
    ∃ entry ∈ entries, related entry result := by
  induction rows with
  | nil => cases member
  | @cons first second _ rest head _ inductionHypothesis =>
      rcases List.mem_cons.mp member with rfl | inRest
      · exact ⟨first, List.mem_cons_self, head⟩
      · obtain ⟨entry, inEntries, related⟩ := inductionHypothesis inRest
        exact ⟨entry, List.mem_cons_of_mem _ inEntries, related⟩

theorem map_eq_ok {outcome : Except ε α} {change : α → β} {result : β} :
    outcome.map change = .ok result ↔ ∃ value, outcome = .ok value ∧ change value = result := by
  cases outcome with
  | error error => exact ⟨nofun, nofun⟩
  | ok value =>
      constructor
      · intro equal
        exact ⟨value, rfl, Except.ok.inj equal⟩
      · rintro ⟨_, same, rfl⟩
        rw [Except.ok.inj same]
        rfl

theorem map_eq_error {outcome : Except ε α} {change : α → β} {error : ε} :
    outcome.map change = .error error ↔ outcome = .error error := by
  cases outcome with
  | error other =>
      constructor
      · intro same
        exact congrArg Except.error (Except.error.inj same)
      · intro same
        exact congrArg Except.error (Except.error.inj same)
  | ok value => exact ⟨nofun, nofun⟩

theorem bind_eq_ok {outcome : Except ε α} {next : α → Except ε β} {result : β} :
    (outcome >>= next) = .ok result ↔ ∃ value, outcome = .ok value ∧ next value = .ok result := by
  cases outcome with
  | error error => exact ⟨nofun, nofun⟩
  | ok value =>
      constructor
      · intro ok
        exact ⟨value, rfl, ok⟩
      · rintro ⟨_, same, ok⟩
        rw [Except.ok.inj same]
        exact ok

end Rows

/-! ## Texts that are handed to the reader -/

/-- The texts of a text literal's splices. -/
inductive Spliced : (text inner : List Char) → Prop
  | here {rest interior after : List Char}
      (found : textInterior 0 rest = some (interior, after)) : Spliced ('\x7b' :: rest) interior
  | behindSplice {rest interior after inner : List Char}
      (found : textInterior 0 rest = some (interior, after)) (behind : Spliced after inner) :
      Spliced ('\x7b' :: rest) inner
  | behindEscape {char : Char} {rest inner : List Char} (behind : Spliced rest inner) :
      Spliced ('\\' :: char :: rest) inner
  | behind {char : Char} {rest inner : List Char} (noBrace : char ≠ '\x7b')
      (noEscape : char ≠ '\\') (behind : Spliced rest inner) : Spliced (char :: rest) inner

theorem Spliced.length {text inner : List Char} (spliced : Spliced text inner) :
    inner.length < text.length := by
  induction spliced with
  | here found =>
      have := textInterior_length found
      simp only [List.length_cons]
      omega
  | behindSplice found _ inductionHypothesis =>
      have := textInterior_length found
      simp only [List.length_cons]
      omega
  | behindEscape _ inductionHypothesis =>
      simp only [List.length_cons]
      omega
  | behind _ _ _ inductionHypothesis => exact Nat.lt_succ_of_lt inductionHypothesis

/-- The texts that the reading of a token hands to the reader. -/
inductive Token.Hands : Token → List Char → Prop
  | expression (interior : List Char) : Hands (.expression interior) interior
  | quoted (interior : List Char) : Hands (.quoted interior) interior
  | list {interior element : List Char} (inhabited : ¬ (Text.trim interior).isEmpty)
      (member : element ∈ splitElements interior) : Hands (.list interior) element
  | text {interior inner : List Char} (spliced : Spliced interior inner) :
      Hands (.text interior) inner

theorem Token.Hands.length {token : Token} {inner : List Char} (hands : token.Hands inner) :
    inner.length ≤ token.interior.length := by
  cases hands with
  | expression => exact Nat.le_refl _
  | quoted => exact Nat.le_refl _
  | list _ member => exact splitElements_length member
  | text spliced => exact Nat.le_of_lt spliced.length

section Handed

variable {levels : Levels} {reader other : Reader}

/-- Readers that agree on the splices of a text literal read it alike. -/
theorem segmentsFrom_agree {run : List Char} {segments : List Segment} {text : List Char}
    (agree : ∀ inner, Spliced text inner → reader inner = other inner) :
    segmentsFrom reader run segments text = segmentsFrom other run segments text := by
  fun_induction segmentsFrom reader run segments text with
  | case1 run segments => rw [segmentsFrom]
  | case2 run segments inductionHypothesis =>
      rw [inductionHypothesis nofun]
      conv => rhs; rw [segmentsFrom]
  | case3 run segments char rest inductionHypothesis =>
      rw [inductionHypothesis fun inner spliced => agree inner (.behindEscape spliced)]
      conv => rhs; rw [segmentsFrom]
  | case4 run segments rest notFound =>
      rw [segmentsFrom]
      split
      · rfl
      · next found =>
        rw [notFound] at found
        cases found
  | case5 run segments rest interior after found error failed =>
      rw [agree interior (.here found)] at failed
      rw [segmentsFrom]
      split
      · next notFound =>
        rw [notFound] at found
        cases found
      · next interior' after' found' =>
        rw [found] at found'
        cases found'
        rw [failed]
  | case6 run segments rest interior after found node succeeded inductionHypothesis =>
      rw [inductionHypothesis fun inner spliced => agree inner (.behindSplice found spliced)]
      rw [agree interior (.here found)] at succeeded
      conv => rhs; rw [segmentsFrom]
      split
      · next notFound =>
        rw [notFound] at found
        cases found
      · next interior' after' found' =>
        rw [found] at found'
        cases found'
        rw [succeeded]
  | case7 run segments char rest notLone notEscape notBrace inductionHypothesis =>
      have noEscape : char ≠ '\\' := fun escape => by
        cases rest with
        | nil => exact notLone escape rfl
        | cons next others => exact notEscape next others escape rfl
      rw [inductionHypothesis fun inner spliced => agree inner (.behind notBrace noEscape spliced)]
      conv => rhs; rw [segmentsFrom.eq_def]
      split <;> simp_all

/-- Readers that agree on the texts that a token hands over read it alike. -/
theorem classifyToken_agree {token : Token}
    (agree : ∀ inner, token.Hands inner → reader inner = other inner) :
    classifyToken levels reader token = classifyToken levels other token := by
  cases token with
  | expression interior =>
      show (reader interior).map _ = (other interior).map _
      rw [agree interior (.expression interior)]
  | list interior =>
      have same : parseList reader interior = parseList other interior := by
        unfold parseList
        split
        · rfl
        · next inhabited =>
          rw [mapM_congr fun element member => agree element (.list inhabited member)]
      show (parseList reader interior).map _ = (parseList other interior).map _
      rw [same]
  | text interior =>
      have same : segmentsFrom reader [] [] interior = segmentsFrom other [] [] interior :=
        segmentsFrom_agree fun inner spliced => agree inner (.text spliced)
      show (segmentsFrom reader [] [] interior).map _ = (segmentsFrom other [] [] interior).map _
      rw [same]
  | quoted interior =>
      show (reader interior).map _ = (other interior).map _
      rw [agree interior (.quoted interior)]
  | word characters => rfl

/-- Readers that agree on the texts that the tokens of a statement hand over read it alike. -/
theorem parseStatement_agree {tokens : List Token}
    (agree : ∀ token ∈ tokens, ∀ inner, token.Hands inner → reader inner = other inner) :
    parseStatement levels reader tokens = parseStatement levels other tokens := by
  have items : tokens.mapM (classifyToken levels reader) =
      tokens.mapM (classifyToken levels other) :=
    mapM_congr fun token member => classifyToken_agree (agree token member)
  unfold parseStatement
  rw [items]

/-- Readers that agree on the texts that the tokens of a text hand over read it alike. -/
theorem parseStatements_agree {text : List Char}
    (agree : ∀ statements, tokenize levels.isGlyph text = .ok statements →
      ∀ statement ∈ statements, ∀ token ∈ statement.tokens,
        ∀ inner, token.Hands inner → reader inner = other inner) :
    parseStatements levels reader text = parseStatements levels other text := by
  unfold parseStatements
  cases divided : tokenize levels.isGlyph text with
  | error error => rfl
  | ok statements =>
      exact mapM_congr fun statement member =>
        parseStatement_agree (agree statements divided statement member)

end Handed

/-! ## Readers that agree on shorter texts -/

/-- Two readers answer alike on every text shorter than a bound. -/
def AgreeBelow (bound : Nat) (reader other : Reader) : Prop :=
  ∀ text, text.length < bound → reader text = other text

section Agreement

variable {levels : Levels} {reader other : Reader} {bound : Nat}

theorem parseStatement_congr (agree : AgreeBelow bound reader other) {tokens : List Token}
    (shorter : ∀ token ∈ tokens, token.interior.length < bound) :
    parseStatement levels reader tokens = parseStatement levels other tokens :=
  parseStatement_agree fun token member inner hands =>
    agree inner (Nat.lt_of_le_of_lt hands.length (shorter token member))

theorem parseStatements_congr {text : List Char}
    (agree : AgreeBelow text.length reader other) :
    parseStatements levels reader text = parseStatements levels other text :=
  parseStatements_agree fun _ divided statement member token inStatement inner hands =>
    agree inner (Nat.lt_of_le_of_lt hands.length
      ((tokenize_length divided statement member).2 token inStatement))

end Agreement

/-! ## Reading without a bound -/

variable {levels : Levels}

/-- A text is read alike within all bounds above its length. -/
theorem readWithin_agree {bound bound' : Nat} {text : List Char} (shorter : text.length < bound)
    (shorter' : text.length < bound') :
    readWithin levels bound text = readWithin levels bound' text := by
  induction bound generalizing bound' text with
  | zero => omega
  | succ bound inductionHypothesis =>
      obtain _ | bound' := bound'
      · omega
      · have agree : AgreeBelow text.length (readWithin levels bound) (readWithin levels bound') :=
          fun other otherShorter => inductionHypothesis (by omega) (by omega)
        show (parseStatements levels (readWithin levels bound) text).map groupNode =
          (parseStatements levels (readWithin levels bound') text).map groupNode
        rw [parseStatements_congr agree]

theorem readWithin_eq {bound : Nat} {text : List Char} (shorter : text.length < bound) :
    readWithin levels bound text = parseBody levels text :=
  readWithin_agree shorter (Nat.lt_succ_self text.length)

theorem readerFor_agree {text : List Char} {bound : Nat} (within : bound ≤ text.length) :
    AgreeBelow bound (readerFor levels text) (parseBody levels) :=
  fun _ shorter => readWithin_eq (Nat.lt_of_lt_of_le shorter within)

theorem parseBody_eq (text : List Char) :
    parseBody levels text = (parseStatements levels (parseBody levels) text).map groupNode := by
  rw [← parseStatements_congr (readerFor_agree (Nat.le_refl text.length))]
  rfl

theorem parseText_eq (interior : List Char) :
    parseText levels interior = parseSegments (parseBody levels) interior :=
  segmentsFrom_agree fun inner spliced =>
    readerFor_agree (Nat.le_refl interior.length) inner spliced.length

theorem parse_eq (text : List Char) :
    parse levels text = (parseStatements levels (parseBody levels) text).map .body := by
  rw [← parseStatements_congr (readerFor_agree (Nat.le_refl text.length))]
  rfl

end Fixity.Syntax
