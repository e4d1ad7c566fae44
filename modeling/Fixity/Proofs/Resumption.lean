import Fixity.Proofs.Lexing

/-!
Contract: reading on behind a statement.

Owns:
- that every lexeme and every statement leaves an end of the text it was read from;
- `tokenize_rest`: what is behind a statement falls into the statements that come after it;
- the offset in bytes of such an end: a boundary of characters, at which the text can be cut.
-/

namespace Fixity.Syntax

/-! ## Ends of a text -/

private theorem eq_some_of_map {change : List Char × List Char → List Char × List Char}
    {found : Option (List Char × List Char)} {inner after : List Char}
    (mapped : found.map change = some (inner, after))
    (behind : ∀ pair, (change pair).2 = pair.2) : ∃ inner, found = some (inner, after) := by
  obtain ⟨pair, same, equal⟩ := Option.map_eq_some_iff.mp mapped
  have second := behind pair
  rw [equal] at second
  rw [same]
  exact ⟨pair.1, congrArg some (Prod.ext rfl second.symm)⟩

theorem textInterior_suffix {depth : Nat} {text inner after : List Char}
    (found : textInterior depth text = some (inner, after)) : after <:+ text := by
  fun_induction textInterior depth text generalizing inner with
  | case1 => cases found
  | case2 => cases found
  | case3 depth char rest inductionHypothesis =>
      obtain ⟨_, inRest⟩ := eq_some_of_map found fun _ => rfl
      exact (inductionHypothesis inRest).trans (List.suffix_append ['\\', char] rest)
  | case4 depth rest inductionHypothesis =>
      obtain ⟨_, inRest⟩ := eq_some_of_map found fun _ => rfl
      exact (inductionHypothesis inRest).trans (List.suffix_cons _ rest)
  | case5 =>
      cases found
      exact List.suffix_cons _ after
  | case6 rest depth inductionHypothesis =>
      obtain ⟨_, inRest⟩ := eq_some_of_map found fun _ => rfl
      exact (inductionHypothesis inRest).trans (List.suffix_cons _ rest)
  | case7 depth char rest _ _ _ _ inductionHypothesis =>
      obtain ⟨_, inRest⟩ := eq_some_of_map found fun _ => rfl
      exact (inductionHypothesis inRest).trans (List.suffix_cons _ rest)

theorem groupInterior_suffix {opener closer : Char} {depth : Nat} {text inner after : List Char}
    (found : groupInterior opener closer depth text = some (inner, after)) : after <:+ text := by
  fun_induction groupInterior opener closer depth text generalizing inner with
  | case1 => cases found
  | case2 => cases found
  | case3 depth rest literal afterText textFound inductionHypothesis =>
      obtain ⟨_, inRest⟩ := eq_some_of_map found fun _ => rfl
      have behindText := textInterior_suffix textFound
      exact ((inductionHypothesis inRest).trans behindText).trans (List.suffix_cons _ rest)
  | case4 depth char rest _ _ inductionHypothesis =>
      have behindComment := List.dropWhile_suffix (fun char : Char => char ≠ '\n') (l := rest)
      exact ((inductionHypothesis found).trans behindComment).trans (List.suffix_cons _ rest)
  | case5 depth char =>
      cases found
      exact List.suffix_cons char after
  | case6 depth char rest _ _ _ inductionHypothesis =>
      obtain ⟨_, inRest⟩ := eq_some_of_map found fun _ => rfl
      exact (inductionHypothesis inRest).trans (List.suffix_cons _ rest)

theorem wordAt_suffix (isGlyph : Char → Bool) (char : Char) (rest : List Char) :
    (wordAt isGlyph char rest).2 <:+ rest := by
  unfold wordAt
  split
  · exact List.dropWhile_suffix isGlyph
  · split
    · exact ⟨_, numberTail_append char rest⟩
    · split
      · exact List.dropWhile_suffix isNameChar
      · exact List.suffix_rfl

theorem lexeme_suffix {isGlyph : Char → Bool} {char : Char} {rest after : List Char}
    {read : Lexeme} (ok : lexeme isGlyph char rest = .ok (read, after)) : after <:+ rest := by
  cases reads_of_lexeme ok with
  | separator => exact List.suffix_rfl
  | expression found => exact groupInterior_suffix found
  | list found => exact groupInterior_suffix found
  | text found => exact textInterior_suffix found
  | quoted found => exact (textInterior_suffix found).trans (List.suffix_cons _ _)
  | comment follows => exact List.dropWhile_suffix _
  | blank blank => exact List.suffix_rfl
  | word starts => exact wordAt_suffix isGlyph char rest

/-! ## Behind a statement -/

/-- The first statement leaves an end of the text, which falls into the other statements. -/
theorem statementsFrom_rest {isGlyph : Char → Bool} {tokens : List Token} {text : List Char}
    {statement : Statement} {others : List Statement}
    (ok : statementsFrom isGlyph tokens text = .ok (statement :: others)) :
    statementsFrom isGlyph [] statement.rest = .ok others ∧ statement.rest <:+ text := by
  fun_induction statementsFrom isGlyph tokens text with
  | case1 tokens =>
      by_cases none : tokens.isEmpty
      · rw [if_pos none] at ok
        cases ok
      · rw [if_neg none] at ok
        cases ok
        exact ⟨statementsFrom_nil isGlyph [], List.suffix_rfl⟩
  | case2 => cases ok
  | case3 tokens char rest after found inductionHypothesis =>
      have behind := (lexeme_suffix found).trans (List.suffix_cons char rest)
      exact ⟨(inductionHypothesis ok).1, (inductionHypothesis ok).2.trans behind⟩
  | case4 tokens char rest token after found inductionHypothesis =>
      have behind := (lexeme_suffix found).trans (List.suffix_cons char rest)
      exact ⟨(inductionHypothesis ok).1, (inductionHypothesis ok).2.trans behind⟩
  | case5 tokens char rest after found empty inductionHypothesis =>
      have behind := (lexeme_suffix found).trans (List.suffix_cons char rest)
      exact ⟨(inductionHypothesis ok).1, (inductionHypothesis ok).2.trans behind⟩
  | case6 tokens char rest after found inhabited inductionHypothesis =>
      obtain ⟨statements, inRest, same⟩ := map_eq_ok.mp ok
      cases same
      exact ⟨inRest, (lexeme_suffix found).trans (List.suffix_cons char rest)⟩

theorem tokenize_rest {isGlyph : Char → Bool} {text : List Char} {statement : Statement}
    {others : List Statement} (ok : tokenize isGlyph text = .ok (statement :: others)) :
    tokenize isGlyph statement.rest = .ok others ∧ statement.rest <:+ text := by
  have divided := statementsFrom_rest (tokenize_eq_ok.mp ok)
  exact ⟨tokenize_eq_ok.mpr divided.1, divided.2⟩

/-- The text behind any statement falls into the statements that come after it. -/
theorem tokenize_after {isGlyph : Char → Bool} {text : List Char} {statement : Statement}
    {before after : List Statement}
    (ok : tokenize isGlyph text = .ok (before ++ statement :: after)) :
    tokenize isGlyph statement.rest = .ok after ∧ statement.rest <:+ text := by
  induction before generalizing text with
  | nil => exact tokenize_rest ok
  | cons first before inductionHypothesis =>
      obtain ⟨inRest, suffix⟩ := tokenize_rest ok
      obtain ⟨inAfter, suffix'⟩ := inductionHypothesis inRest
      exact ⟨inAfter, suffix'.trans suffix⟩

/-! ## Offsets -/

private theorem utf8ByteSize_cons (char : Char) (rest : List Char) :
    (String.ofList (char :: rest)).utf8ByteSize =
      char.utf8Size + (String.ofList rest).utf8ByteSize := by
  rw [String.ofList_cons, String.utf8ByteSize_append, String.utf8ByteSize_singleton]

theorem dropBytes?_zero (text : List Char) : dropBytes? 0 text = some text := by
  cases text <;> rfl

/-- The characters in front of an end of a text can be dropped by their bytes. -/
theorem dropBytes?_append (front rest : List Char) :
    dropBytes? (String.ofList front).utf8ByteSize (front ++ rest) = some rest := by
  induction front with
  | nil =>
      rw [String.ofList_nil, String.utf8ByteSize_empty]
      exact dropBytes?_zero rest
  | cons char front inductionHypothesis =>
      rw [utf8ByteSize_cons]
      have positive := char.utf8Size_pos
      obtain ⟨size, counted⟩ :
          ∃ size, char.utf8Size + (String.ofList front).utf8ByteSize = size + 1 :=
        Nat.exists_eq_succ_of_ne_zero (by omega)
      have left : size + 1 - char.utf8Size = (String.ofList front).utf8ByteSize := by omega
      rw [counted, List.cons_append]
      unfold dropBytes?
      rw [if_pos (by omega), left]
      exact inductionHypothesis

/-- The offset of an end of a text is the number of bytes in front of it. -/
theorem offsetOf_append (front rest : List Char) :
    offsetOf (front ++ rest) rest = (String.ofList front).utf8ByteSize := by
  unfold offsetOf
  rw [String.ofList_append, String.utf8ByteSize_append]
  omega

/-- A text cut at the offset of one of its ends gives that end. -/
theorem dropBytes?_offsetOf {text rest : List Char} (suffix : rest <:+ text) :
    dropBytes? (offsetOf text rest) text = some rest := by
  obtain ⟨front, rfl⟩ := suffix
  rw [offsetOf_append]
  exact dropBytes?_append front rest

/-- The offset of an end of a text is that of a longer end and the offset in it. -/
theorem offsetOf_trans {text middle rest : List Char} (suffix : middle <:+ text)
    (suffix' : rest <:+ middle) :
    offsetOf text rest = offsetOf text middle + offsetOf middle rest := by
  obtain ⟨front, rfl⟩ := suffix
  obtain ⟨behind, rfl⟩ := suffix'
  rw [← List.append_assoc, offsetOf_append, List.append_assoc, offsetOf_append, offsetOf_append,
    String.ofList_append, String.utf8ByteSize_append]

/-- What a text goes on with behind some of its characters is at an offset of its own. -/
theorem offsetOf_pos {text rest : List Char} (suffix : rest <:+ text)
    (shorter : rest.length < text.length) : 0 < offsetOf text rest := by
  obtain ⟨front, rfl⟩ := suffix
  rw [offsetOf_append]
  obtain _ | ⟨char, front⟩ := front
  · exact absurd shorter (Nat.lt_irrefl _)
  · rw [utf8ByteSize_cons]
    exact Nat.add_pos_left char.utf8Size_pos _

/-- Every end of a text is at a boundary of characters in it. -/
theorem isValid_offsetOf {text rest : List Char} (suffix : rest <:+ text) :
    String.Pos.Raw.IsValid (String.ofList text) ⟨offsetOf text rest⟩ := by
  obtain ⟨front, rfl⟩ := suffix
  rw [offsetOf_append]
  exact String.Pos.Raw.isValid_iff_exists_append.mpr ⟨_, _, String.ofList_append, rfl⟩

end Fixity.Syntax
