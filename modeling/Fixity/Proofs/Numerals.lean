import Fixity.Proofs.Integers
import Fixity.Proofs.RoundTrip

/-!
Contract: which number literals are printed as number literals.

Owns:
- `Gapless`, texts of words side by side, each cut where the one behind it starts;
- a gapless text that is read as a number is a literal of this number;
- the forms of numbers that no literal spells: infinite parts and the real part that is a negative
  zero.

Main statement: the form of a number that a literal stands for is read as a number with equal parts
exactly if its parts are finite and its real part is no negative zero.
-/

namespace Fixity.Syntax

/-! ## Words side by side -/

/-- A text without delimiters, blanks and comments. -/
def Gapless (text : List Char) : Prop :=
  (∀ char ∈ text, char ∉ delimiters ∧ ¬ Text.isBlank char) ∧ ¬ ['-', '-'] <:+: text

instance (text : List Char) : Decidable (Gapless text) := inferInstanceAs (Decidable (_ ∧ _))

/-- A word starts with the first character of its text, which goes on behind it. -/
theorem wordAt_split (isGlyph : Char → Bool) (char : Char) (rest : List Char) :
    ∃ others, (wordAt isGlyph char rest).1 = char :: others ∧
      rest = others ++ (wordAt isGlyph char rest).2 := by
  unfold wordAt
  split_ifs
  · exact ⟨_, rfl, List.takeWhile_append_dropWhile.symm⟩
  · exact ⟨_, rfl, (numberTail_append char rest).symm⟩
  · exact ⟨_, rfl, List.takeWhile_append_dropWhile.symm⟩
  · exact ⟨[], rfl, rfl⟩

/-- A gapless text is cut into words. -/
theorem Gapless.statementsFrom {text : List Char} (gapless : Gapless text)
    (isGlyph : Char → Bool) (tokens : List Token) :
    ∃ words : List (List Char), words.flatten = text ∧
      Syntax.statementsFrom isGlyph tokens text =
        Syntax.statementsFrom isGlyph ((words.map .word).reverse ++ tokens) [] := by
  induction length : text.length using Nat.strongRecOn generalizing text tokens with
  | ind length inductionHypothesis =>
      subst length
      match text, gapless with
      | [], _ => exact ⟨[], rfl, rfl⟩
      | char :: rest, ⟨plain, noComment⟩ =>
          have starts : startsWord char rest := by
            obtain ⟨noDelimiter, notBlank⟩ := plain char List.mem_cons_self
            refine ⟨noDelimiter, fun comment => noComment ?_, notBlank⟩
            obtain ⟨rfl, follows⟩ := comment
            obtain ⟨others, rfl⟩ : ∃ others, rest = '-' :: others := by
              cases rest with
              | nil => cases follows
              | cons next others => exact ⟨others, by rw [Option.some.inj follows]⟩
            exact ⟨[], others, rfl⟩
          obtain ⟨others, word, behind⟩ := wordAt_split isGlyph char rest
          have suffix : (wordAt isGlyph char rest).2 <:+ char :: rest :=
            ⟨char :: others, by rw [List.cons_append, ← behind]⟩
          have shorter : (wordAt isGlyph char rest).2.length < (char :: rest).length := by
            have total := congrArg List.length behind
            rw [List.length_append] at total
            rw [List.length_cons]
            omega
          obtain ⟨words, parts, cut⟩ := inductionHypothesis (wordAt isGlyph char rest).2.length
            shorter
            ⟨fun other member => plain other (suffix.subset member),
              fun comment => noComment (comment.trans suffix.isInfix)⟩
            (.word (wordAt isGlyph char rest).1 :: tokens) rfl
          refine ⟨(wordAt isGlyph char rest).1 :: words, ?_, ?_⟩
          · rw [List.flatten_cons, parts, word, List.cons_append, ← behind]
          · rw [statementsFrom_token (lexeme_word isGlyph starts), cut]
            simp

/-- A statement that is read as a number is one operand. -/
theorem classified_of_parseStatement {levels : Levels} {tokens : List Token} {number : Number}
    (parsed : parseStatement levels (parseBody levels) tokens = .ok (.number number)) :
    ∃ token, tokens = [token] ∧ Classified levels token (.operand (.number number)) := by
  obtain ⟨grouping, _, classified, same⟩ := parseStatement_iff_grouping.mp parsed
  cases grouping with
  | join token level left right => cases same
  | leaf operand =>
      obtain rfl : operand = .number number := same
      obtain ⟨token, rest, stands, none, rfl⟩ := List.forall₂_cons_right_iff.mp classified
      rw [List.forall₂_nil_right_iff] at none
      exact ⟨token, by rw [none], stands⟩

/-- A gapless text that is read as a number is a literal of it. -/
theorem Gapless.readNumber?_of_parseBody {levels : Levels} {text : List Char} {number : Number}
    (gapless : Gapless text) (parsed : parseBody levels text = .ok (.number number)) :
    readNumber? text = some number := by
  rw [parseBody_eq, map_eq_ok] at parsed
  obtain ⟨nodes, parsed, grouped⟩ := parsed
  obtain ⟨statements, divided, read⟩ := bind_eq_ok.mp parsed
  obtain ⟨words, parts, cut⟩ := gapless.statementsFrom levels.isGlyph []
  rw [tokenize_eq_ok, cut, statementsFrom_nil, List.append_nil, List.reverse_reverse] at divided
  obtain rfl : nodes = [.number number] := by
    unfold groupNode at grouped
    split at grouped
    · rw [grouped]
    · cases grouped
  cases words with
  | nil =>
      obtain rfl : statements = [] := (Except.ok.inj divided).symm
      cases read
  | cons word words =>
      obtain rfl : statements = [⟨(word :: words).map .word, []⟩] := by
        have inhabited : ¬ (((word :: words).map Token.word).reverse).isEmpty := by simp
        rw [if_neg inhabited] at divided
        exact (Except.ok.inj divided).symm
      have statement := (List.forall₂_cons.mp (mapM_eq_ok.mp read)).1
      obtain ⟨token, single, stands⟩ := classified_of_parseStatement statement
      rw [List.map_cons, List.cons.injEq, List.map_eq_nil_iff] at single
      obtain ⟨rfl, rfl⟩ := single
      rw [List.flatten_singleton] at parts
      subst parts
      cases stands with
      | number unknown spelled => exact classify_eq_number spelled

/-! ## Forms of numbers -/

/-- A literal is read as its number, in every table of operators. -/
theorem parseBody_renderNumber {levels : Levels} (wellFormed : levels.WellFormed) {number : Number}
    (part : number.real = 0.0 ∨ number.imaginary = 0.0)
    (printable : Printable number) :
    parseBody levels (Node.renderNumber number) = .ok (.number number) := by
  obtain ⟨presentable, readsBack⟩ := printable
  have spelled : classify (Node.renderNumber number) = some (.number number) := by
    unfold classify
    rw [readNumber?_renderNumber part presentable readsBack]
  have unknown : ¬ levels.contains (String.ofList (Node.renderNumber number)) := by
    intro known
    rw [wellFormed.classify_of_contains known] at spelled
    cases spelled
  obtain ⟨first, others, rendered, start, all⟩ := renderNumber_chars part presentable readsBack
  have divided : statementsFrom levels.isGlyph [] (Node.renderNumber number) =
      .ok [⟨[.word (Node.renderNumber number)], []⟩] := by
    have cut := lexes_number wellFormed start all [] [] nofun
    rw [← rendered, Token.spelling, List.append_nil, statementsFrom_nil] at cut
    exact cut
  exact (parse_of_statement divided (parseStatement_operand (.number unknown spelled))).2

/-- The forms of doubles that are not finite. -/
private def specialForms : List String := ["NaN", "inf", "-inf"]

private theorem gapless_of_visible {text : List Char}
    (visible : text.all fun char => delimiters.all (· != char) && !Text.isBlank char)
    (noComment : ¬ ['-', '-'] <:+: text) : Gapless text := by
  refine ⟨fun char member => ?_, noComment⟩
  have plain := List.all_eq_true.mp visible char member
  rw [Bool.and_eq_true, Bool.not_eq_true', List.all_eq_true] at plain
  refine ⟨fun delimiter => ?_, by simp [plain.2]⟩
  simpa using plain.1 char delimiter

theorem write_of_not_isFinite {value : Float} (special : ¬ value.isFinite) :
    Decimal.write value ∈ specialForms := by
  unfold Decimal.write
  cases reads : Binary.read value with
  | undefined => decide
  | infinite negative => cases negative <;> decide
  | finite number => exact absurd (Double.isFinite_of_read reads) special

theorem magnitude_isFinite (value : Float) : (magnitude value).isFinite = value.isFinite := by
  unfold magnitude
  split
  · exact Double.isFinite_neg value
  · rfl

/-- No form of a number with a part that is not finite is a literal. -/
private theorem no_literal_of_special : ∀ sign ∈ [[], [negativeGlyph]], ∀ special ∈ specialForms,
    ∀ mark ∈ [[], ['i']],
      let form := sign ++ special.toList ++ mark
      (form.all fun char => delimiters.all (· != char) && !Text.isBlank char) ∧
        ¬ ['-', '-'] <:+: form ∧ (readNumber? form).isNone := by
  decide +kernel

/-- The form of a number with a part that is not finite is not read as a number. -/
theorem no_number_of_special {levels : Levels} {value : Float} (special : ¬ value.isFinite)
    {mark : List Char} (marks : mark ∈ [[], ['i']]) (number : Number) :
    parseBody levels (Node.renderReal value ++ mark) ≠ .ok (.number number) := by
  intro parsed
  rw [renderReal_eq] at parsed
  have sign : literalSign value ∈ [[], [negativeGlyph]] := by
    unfold literalSign
    split <;> simp
  have written : Decimal.write (magnitude value) ∈ specialForms :=
    write_of_not_isFinite (by rwa [magnitude_isFinite])
  obtain ⟨visible, noComment, unread⟩ := no_literal_of_special _ sign _ written _ marks
  have read := (gapless_of_visible visible noComment).readNumber?_of_parseBody parsed
  rw [read] at unread
  cases unread

/-- A number whose imaginary part is a zero shows its real part. -/
theorem renderNumber_of_real {number : Number} (real : number.isReal) :
    Node.renderNumber number = Node.renderReal number.real := by
  unfold Node.renderNumber
  rw [if_pos real]

/-- Any other number without a real part shows its imaginary part and a mark. -/
theorem renderNumber_of_imaginary {number : Number} (noReal : number.real = 0.0)
    (imaginary : ¬ number.isReal) :
    Node.renderNumber number = Node.renderReal number.imaginary ++ ['i'] := by
  have isImaginary : number.isImaginary := by
    unfold Number.isImaginary
    rw [noReal]
    decide
  unfold Node.renderNumber
  rw [if_neg imaginary, if_pos isImaginary]

/-- The form of a negative zero, in which a minus sign has no operand on its left. -/
theorem no_number_of_negativeZero {levels : Levels} (number : Number) :
    parseBody levels (Node.renderReal (-0.0)) ≠ .ok (.number number) := by
  intro parsed
  have form : Node.renderReal (-0.0) = ['-', '0'] := by decide +kernel
  rw [form] at parsed
  have gapless : Gapless ['-', '0'] := gapless_of_visible (by decide) (by decide)
  have read := gapless.readNumber?_of_parseBody parsed
  cases read

end Fixity.Syntax

namespace Fixity.OperatorTable

open Syntax

variable {table : OperatorTable} {token : List Char} {number : Number}

/-- The form of the number of a literal is read as a number with the same parts exactly if these are
finite and the real one is no negative zero: an infinite part is written as a name, a negative zero
as a subtraction without a left operand. The decimal notation of the doubles that occur is assumed to
read back. -/
theorem Reachable.parseBody_display_number (reachable : table.Reachable)
    (spelled : classify token = some (.number number))
    (readsBack : ∀ part ∈ [number.real, number.imaginary],
      Presentable (magnitude part) → ReadsBack (magnitude part)) :
    (∃ again : Number,
      parseBody table.levels (Node.number number).display.toList = .ok (.number again) ∧
        again.real == number.real ∧ again.imaginary == number.imaginary) ↔
      number.real.isFinite ∧ number.imaginary.isFinite ∧ number.real ≠ -0.0 := by
  have wellFormed := reachable.wellFormed
  have part := readNumber?_parts (classify_eq_number spelled)
  rw [Node.display, String.toList_ofList, Node.render]
  have zeroFinite : (0.0 : Float).isFinite := by decide
  have isReal_of_zero : number.imaginary = 0.0 → number.isReal := by
    intro zero
    unfold Number.isReal
    rw [zero]
    decide
  constructor
  · rintro ⟨again, parsed, -, -⟩
    refine ⟨?_, ?_, ?_⟩
    · by_contra special
      have real : number.imaginary = 0.0 :=
        part.resolve_left fun zero => special (zero ▸ zeroFinite)
      rw [renderNumber_of_real (isReal_of_zero real),
        ← List.append_nil (Node.renderReal number.real)] at parsed
      exact no_number_of_special special (by simp) again parsed
    · by_contra special
      have notZero : ¬ number.isReal := by
        intro zero
        rcases Double.eq_zero_of_beq zero with same | same
        · exact special (same ▸ zeroFinite)
        · exact special (same ▸ (Double.isFinite_neg 0.0).trans zeroFinite)
      have noReal : number.real = 0.0 :=
        part.resolve_right fun zero => special (zero ▸ zeroFinite)
      rw [renderNumber_of_imaginary noReal notZero] at parsed
      exact no_number_of_special special (by simp) again parsed
    · intro negativeZero
      have real : number.imaginary = 0.0 := by
        refine part.resolve_left fun zero => ?_
        rw [negativeZero] at zero
        exact absurd zero (by decide)
      rw [renderNumber_of_real (isReal_of_zero real), negativeZero] at parsed
      exact no_number_of_negativeZero again parsed
  · rintro ⟨realFinite, imaginaryFinite, noNegativeZero⟩
    have realBack := readsBack number.real (by simp)
      (Presentable.magnitude ⟨realFinite, noNegativeZero⟩)
    by_cases negativeZero : number.imaginary = -0.0
    · -- An imaginary part that is a negative zero is not shown, and the zero that is read equals it.
      have noReal : number.real = 0.0 := by
        refine part.resolve_right fun zero => ?_
        rw [negativeZero] at zero
        exact absurd zero (by decide)
      have isReal : number.isReal := by
        unfold Number.isReal
        rw [negativeZero]
        decide
      have zero : Presentable 0.0 := ⟨zeroFinite, by decide⟩
      rw [noReal] at realBack
      have read : parseBody table.levels (Node.renderNumber ⟨0.0, 0.0⟩) =
          .ok (.number ⟨0.0, 0.0⟩) :=
        parseBody_renderNumber wellFormed (Or.inl rfl) ⟨zero, by simpa using realBack⟩
      rw [renderNumber_of_real (by decide)] at read
      rw [renderNumber_of_real isReal, noReal, negativeZero]
      exact ⟨⟨0.0, 0.0⟩, read, by decide, by decide⟩
    · have printable : Printable number := by
        refine ⟨⟨imaginaryFinite, negativeZero⟩, ?_⟩
        simp only [List.forall_mem_cons]
        exact ⟨realBack, readsBack number.imaginary (by simp)
          (Presentable.magnitude ⟨imaginaryFinite, negativeZero⟩), List.forall_mem_nil _⟩
      exact ⟨number, parseBody_renderNumber wellFormed part printable,
        Double.beq_self_of_isFinite realFinite, Double.beq_self_of_isFinite imaginaryFinite⟩

/-- A literal beyond the greatest double is written as a name, and the literal of a negative zero as
a subtraction; the literal of an ordinary number is read back. -/
theorem parseBody_display_number_extremes :
    let readsAgain (number : Number) := ∃ again : Number,
      parseBody initial.levels (Node.number number).display.toList = .ok (.number again) ∧
        again.real == number.real ∧ again.imaginary == number.imaginary
    (classify "1e999".toList = some (.number ⟨Binary.infinity false, 0.0⟩) ∧
      ¬ readsAgain ⟨Binary.infinity false, 0.0⟩) ∧
    (classify "~0".toList = some (.number ⟨-0.0, 0.0⟩) ∧ ¬ readsAgain ⟨-0.0, 0.0⟩) ∧
    (classify "~2.5i".toList = some (.number ⟨0.0, -2.5⟩) ∧ readsAgain ⟨0.0, -2.5⟩) := by
  intro readsAgain
  have zeroReadsBack : ReadsBack (magnitude 0.0) :=
    ⟨['0'], [], by decide, by simp, by decide +kernel, by decide +kernel⟩
  have halfReadsBack : ReadsBack (magnitude (-2.5)) :=
    ⟨['2'], ['5'], by decide, by simp, by decide +kernel, by decide +kernel⟩
  have infinite : classify "1e999".toList = some (.number ⟨Binary.infinity false, 0.0⟩) := by rfl
  have negativeZero : classify "~0".toList = some (.number ⟨-0.0, 0.0⟩) := by rfl
  have half : classify "~2.5i".toList = some (.number ⟨0.0, -2.5⟩) := by rfl
  refine ⟨⟨infinite, ?_⟩, ⟨negativeZero, ?_⟩, half, ?_⟩
  · have special : ¬ (magnitude (Binary.infinity false)).isFinite := by decide +kernel
    refine mt (Reachable.initial.parseBody_display_number infinite ?_).mp (by decide +kernel)
    simp only [List.forall_mem_cons]
    exact ⟨fun presentable => absurd presentable.1 special, fun _ => zeroReadsBack, List.forall_mem_nil _⟩
  · have noLiteral : magnitude (-0.0) = -0.0 := by decide +kernel
    refine mt (Reachable.initial.parseBody_display_number negativeZero ?_).mp (by decide +kernel)
    simp only [List.forall_mem_cons]
    exact ⟨fun presentable => absurd noLiteral presentable.2, fun _ => zeroReadsBack, List.forall_mem_nil _⟩
  · refine (Reachable.initial.parseBody_display_number half ?_).mpr (by decide +kernel)
    simp only [List.forall_mem_cons]
    exact ⟨fun _ => zeroReadsBack, fun _ => halfReadsBack, List.forall_mem_nil _⟩

end Fixity.OperatorTable
