import Mathlib.Data.List.Perm.Basic
import Mathlib.Data.List.InsertIdx
import Fixity.Value.Basic

/-!
Contract: what the tables that definitions lead to have in common.

Owns:
- `Levels.WellFormed`: no level is empty, no operator stands twice, every operator is made of
  operator characters, and the operators of the initial levels are still there;
- its proof for every table that successful definitions make of the initial one;
- the glyphs of a table and the tokens it knows, in terms of its operators.

Does not own: the index at which a definition puts its operator.
-/

namespace Fixity.Syntax.Levels

/-! ## Operators and glyphs -/

theorem mem_tokens {levels : Levels} {token : String} :
    token ∈ levels.tokens ↔ ∃ level ∈ levels, token ∈ level.operators := by
  simp [tokens, List.mem_flatMap]

theorem indexOf?_isSome {levels : Levels} {token : String} :
    (levels.indexOf? token).isSome ↔ token ∈ levels.tokens := by
  simp [indexOf?, mem_tokens, List.findIdx?_isSome]

theorem indexOf?_eq_none {levels : Levels} {token : String} :
    levels.indexOf? token = none ↔ token ∉ levels.tokens := by
  rw [← indexOf?_isSome, Option.not_isSome_iff_eq_none]

/-- A token is an operator if it is listed or applies in some scope. -/
theorem contains_iff {levels : Levels} {token : String} :
    levels.contains token ↔
      token ∈ levels.tokens ∨ (isApplication token ∧ applicationToken ∈ levels.tokens) := by
  unfold contains levelOf?
  by_cases listed : token ∈ levels.tokens
  · obtain ⟨index, found⟩ := Option.isSome_iff_exists.mp (indexOf?_isSome.mpr listed)
    simp [found, listed]
  · rw [indexOf?_eq_none.mpr listed]
    by_cases application : isApplication token
    · simp [application, listed, indexOf?_isSome]
    · simp [application, listed]

theorem contains_of_levelOf? {levels : Levels} {token : String} {level : Nat}
    (found : levels.levelOf? token = some level) : levels.contains token := by
  unfold contains
  rw [found]
  rfl

theorem levelOf?_lt_length {levels : Levels} {token : String} {level : Nat}
    (found : levels.levelOf? token = some level) : level < levels.length := by
  have inRange : ∀ {other index}, levels.indexOf? other = some index → index < levels.length := by
    intro other index at_
    exact (List.findIdx?_eq_some_iff_getElem.mp at_).1
  unfold levelOf? at found
  split at found
  · next at_ => exact inRange (Option.some.inj found ▸ at_)
  · split at found
    · exact inRange found
    · cases found

theorem mem_glyphs {levels : Levels} {char : Char} :
    char ∈ levels.glyphs ↔ char = scopeMarker ∨ ∃ token ∈ levels.tokens, char ∈ token.toList := by
  simp [glyphs, characters, List.mem_mergeSort, List.mem_flatMap]

/-- The characters of `@` with its markers, the only operators that need not be listed. -/
theorem mem_of_isApplication {token : String} (application : isApplication token) {char : Char}
    (member : char ∈ token.toList) : char = '@' ∨ char = scopeMarker := by
  unfold isApplication at application
  split at application
  · next markers spelled =>
    rw [spelled] at member
    rcases List.mem_cons.mp member with rfl | inMarkers
    · exact Or.inl rfl
    · exact Or.inr (by simpa using List.all_eq_true.mp application char inMarkers)
  · cases application

/-- Every character of an operator is a glyph. -/
theorem mem_glyphs_of_contains {levels : Levels} {token : String}
    (known : levels.contains token) {char : Char} (member : char ∈ token.toList) :
    char ∈ levels.glyphs := by
  rw [mem_glyphs]
  rcases contains_iff.mp known with listed | ⟨application, base⟩
  · exact Or.inr ⟨token, listed, member⟩
  · rcases mem_of_isApplication application member with rfl | marker
    · exact Or.inr ⟨applicationToken, base, by decide⟩
    · exact Or.inl marker

/-! ## Well-formed levels -/

/-- What every definition preserves. -/
structure WellFormed (levels : Levels) : Prop where
  inhabited : ∀ level ∈ levels, level.operators ≠ []
  distinct : levels.tokens.Nodup
  operatorText : ∀ token ∈ levels.tokens,
    token.toList ≠ [] ∧ ∀ char ∈ token.toList, isOperatorChar char
  initialStay : ∀ token ∈ initial.tokens, token ∈ levels.tokens

theorem initial_wellFormed : initial.WellFormed where
  inhabited := by decide
  distinct := by decide
  operatorText := by
    have all : ∀ token ∈ initial.tokens,
        token.toList ≠ [] ∧ token.toList.all isOperatorChar := by
      decide
    intro token member
    exact ⟨(all token member).1, List.all_eq_true.mp (all token member).2⟩
  initialStay := fun _ member => member

private theorem tokens_filter_inhabited (levels : Levels) :
    tokens (levels.filter fun level => !level.operators.isEmpty) = levels.tokens := by
  induction levels with
  | nil => rfl
  | cons level rest inductionHypothesis =>
      have spread : tokens (level :: rest) = level.operators ++ tokens rest := rfl
      rw [spread, List.filter_cons]
      by_cases emptied : level.operators.isEmpty
      · rw [if_neg (by simp [emptied]), inductionHypothesis, List.isEmpty_iff.mp emptied,
          List.nil_append]
      · rw [if_pos (by simp [emptied]), ← inductionHypothesis]
        rfl

theorem tokens_erase (levels : Levels) (token : String) :
    (levels.erase token).tokens = levels.tokens.filter (· ≠ token) := by
  unfold erase
  rw [tokens_filter_inhabited]
  simp [tokens, List.flatMap_map, List.filter_flatMap]

theorem inhabited_erase (levels : Levels) (token : String) :
    ∀ level ∈ levels.erase token, level.operators ≠ [] := by
  intro level member
  have kept := (List.mem_filter.mp member).2
  simpa using kept

/-- A token that is not listed leaves no level. -/
theorem erase_eq_self {levels : Levels} (wellFormed : levels.WellFormed) {token : String}
    (absent : token ∉ levels.tokens) : levels.erase token = levels := by
  have untouched : levels.map
      (fun level => { level with operators := level.operators.filter (· ≠ token) }) = levels := by
    refine (List.map_congr_left fun level member => ?_).trans (List.map_id levels)
    have kept : level.operators.filter (· ≠ token) = level.operators := by
      rw [List.filter_eq_self]
      intro other inLevel
      have different : other ≠ token := by
        rintro rfl
        exact absent (mem_tokens.mpr ⟨level, member, inLevel⟩)
      simpa using different
    rw [kept]
    rfl
  unfold erase
  rw [untouched, List.filter_eq_self]
  intro level member
  have := wellFormed.inhabited level member
  simpa using this

/-- What a successful definition makes of the levels that its token has left. -/
theorem define_cases {levels levels' : Levels} {definition : Definition}
    (ok : levels.define definition = .ok levels') :
    definition.token ∉ reservedTokens ∧
      (definition.token.toList ≠ [] ∧ ∀ char ∈ definition.token.toList, isOperatorChar char) ∧
      (definition.precedence.isFinite ∧ ¬ definition.precedence < 0.0) ∧
      ((Double.isFractional definition.precedence ∧
          (levels.erase definition.token).openBehind (indexAt definition.precedence) definition =
            .ok levels') ∨
        (¬ Double.isFractional definition.precedence ∧
          (levels.erase definition.token).join (indexAt definition.precedence) definition =
            .ok levels')) := by
  unfold define at ok
  dsimp only at ok
  split at ok
  · cases ok
  · next notReserved =>
    split at ok
    · cases ok
    · next operatorText =>
      have spelled :
          definition.token.toList ≠ [] ∧ ∀ char ∈ definition.token.toList, isOperatorChar char := by
        simpa using operatorText
      split at ok
      · cases ok
      · next usable =>
        have notBelow : definition.precedence.isFinite ∧ ¬ definition.precedence < 0.0 := by
          simpa using usable
        split at ok
        · next fractional => exact ⟨notReserved, spelled, notBelow, Or.inl ⟨fractional, ok⟩⟩
        · next integral => exact ⟨notReserved, spelled, notBelow, Or.inr ⟨integral, ok⟩⟩

theorem openBehind_eq_ok {levels levels' : Levels} {index : Nat} {definition : Definition}
    (ok : levels.openBehind index definition = .ok levels') :
    index < levels.length ∧
      levels' = levels.insertIdx (index + 1) ⟨[definition.token], definition.associativity⟩ := by
  unfold openBehind at ok
  split at ok
  · next inRange => exact ⟨inRange, (Except.ok.inj ok).symm⟩
  · cases ok

theorem join_eq_ok {levels levels' : Levels} {index : Nat} {definition : Definition}
    (ok : levels.join index definition = .ok levels') :
    ∃ level, levels[index]? = some level ∧
      (level.associativity = definition.associativity ∨ definition.force) ∧
      levels' = levels.set index
        ⟨level.operators ++ [definition.token], definition.associativity⟩ := by
  unfold join at ok
  split at ok
  · cases ok
  · next level found =>
    split at ok
    · cases ok
    · next agrees =>
      refine ⟨level, found, ?_, (Except.ok.inj ok).symm⟩
      by_cases same : level.associativity = definition.associativity
      · exact Or.inl same
      · exact Or.inr (by simpa [same] using agrees)

private theorem tokens_perm_of_level {before after : Levels} {level level' : Level}
    {token : String} (added : level'.operators.Perm (token :: level.operators)) :
    (tokens (before ++ level' :: after)).Perm (token :: tokens (before ++ level :: after)) := by
  have spread : ∀ middle : Level, tokens (before ++ middle :: after) =
      tokens before ++ (middle.operators ++ tokens after) := by
    intro middle
    simp [tokens]
  rw [spread, spread]
  refine ((added.append_right _).append_left _).trans ?_
  exact List.perm_middle

/-- A definition adds its token to the operators that were there. -/
theorem tokens_define {levels levels' : Levels} {definition : Definition}
    (ok : levels.define definition = .ok levels') :
    levels'.tokens.Perm (definition.token :: levels.tokens.filter (· ≠ definition.token)) := by
  rw [← tokens_erase]
  obtain ⟨_, _, _, ⟨_, opened⟩ | ⟨_, joined⟩⟩ := define_cases ok
  · obtain ⟨inRange, rfl⟩ := openBehind_eq_ok opened
    exact (List.perm_insertIdx _ _ (by omega)).flatMap_right _
  · obtain ⟨level, found, _, rfl⟩ := join_eq_ok joined
    obtain ⟨inRange, rfl⟩ := List.getElem?_eq_some_iff.mp found
    rw [List.set_eq_take_append_cons_drop, if_pos inRange]
    refine (tokens_perm_of_level (List.perm_append_singleton _ _)).trans ?_
    rw [← List.drop_eq_getElem_cons inRange, List.take_append_drop]

theorem define_wellFormed {levels levels' : Levels} (wellFormed : levels.WellFormed)
    {definition : Definition} (ok : levels.define definition = .ok levels') :
    levels'.WellFormed := by
  have operators := tokens_define ok
  obtain ⟨notReserved, operatorText, _, placed⟩ := define_cases ok
  have member : ∀ token, token ∈ levels'.tokens ↔
      token = definition.token ∨ (token ∈ levels.tokens ∧ token ≠ definition.token) := by
    intro token
    rw [operators.mem_iff]
    simp
  refine ⟨?_, ?_, ?_, ?_⟩
  · intro level inLevels
    rcases placed with ⟨_, opened⟩ | ⟨_, joined⟩
    · obtain ⟨inRange, rfl⟩ := openBehind_eq_ok opened
      rcases (List.mem_insertIdx (by omega)).mp inLevels with rfl | inErased
      · simp
      · exact inhabited_erase levels definition.token level inErased
    · obtain ⟨other, found, _, rfl⟩ := join_eq_ok joined
      rcases List.mem_or_eq_of_mem_set inLevels with inErased | rfl
      · exact inhabited_erase levels definition.token level inErased
      · simp
  · rw [operators.nodup_iff, List.nodup_cons]
    exact ⟨by simp, wellFormed.distinct.filter _⟩
  · intro token inTokens
    rcases (member token).mp inTokens with rfl | ⟨old, _⟩
    · exact operatorText
    · exact wellFormed.operatorText token old
  · intro token initially
    rw [member]
    by_cases same : token = definition.token
    · exact Or.inl same
    · exact Or.inr ⟨wellFormed.initialStay token initially, same⟩

/-- An operator is a row of operator characters, at least one. -/
theorem WellFormed.isOperatorChar_of_contains {levels : Levels} (wellFormed : levels.WellFormed)
    {token : String} (known : levels.contains token) :
    token.toList ≠ [] ∧ ∀ char ∈ token.toList, isOperatorChar char := by
  rcases contains_iff.mp known with listed | ⟨application, _⟩
  · exact wellFormed.operatorText token listed
  · refine ⟨fun blank => ?_, fun char member => ?_⟩
    · simp [isApplication, blank] at application
    · rcases mem_of_isApplication application member with rfl | rfl <;> decide

/-- Every glyph is an operator character. -/
theorem WellFormed.isOperatorChar_of_glyph {levels : Levels} (wellFormed : levels.WellFormed)
    {char : Char} (glyph : char ∈ levels.glyphs) : isOperatorChar char := by
  rcases mem_glyphs.mp glyph with rfl | ⟨token, listed, member⟩
  · decide
  · exact (wellFormed.operatorText token listed).2 char member

/-- The glyphs of the initial levels are never lost. -/
theorem WellFormed.mem_glyphs_of_initial {levels : Levels} (wellFormed : levels.WellFormed)
    {char : Char} (initially : char ∈ initial.glyphs) : char ∈ levels.glyphs := by
  rcases mem_glyphs.mp initially with rfl | ⟨token, listed, member⟩
  · exact mem_glyphs.mpr (Or.inl rfl)
  · exact mem_glyphs.mpr (Or.inr ⟨token, wellFormed.initialStay token listed, member⟩)

end Fixity.Syntax.Levels

namespace Fixity.OperatorTable

/-- The tables that successful definitions make of the initial one. -/
inductive Reachable : OperatorTable → Prop where
  | initial : Reachable .initial
  | define {table table' : OperatorTable} (definition : Syntax.Definition)
      (implementation : Implementation) (earlier : Reachable table)
      (ok : table.define definition implementation = .ok table') : Reachable table'

theorem define_eq_ok {table table' : OperatorTable} {definition : Syntax.Definition}
    {implementation : Implementation}
    (ok : table.define definition implementation = .ok table') :
    table.levels.define definition = .ok table'.levels ∧
      table'.implementations = table.implementations.insert definition.token implementation ∧
      table'.generation = table.generation + 1 := by
  unfold define at ok
  cases placed : table.levels.define definition with
  | error error => simp [placed, Except.map] at ok
  | ok levels =>
      simp only [placed, Except.map, Except.ok.injEq] at ok
      subst ok
      exact ⟨rfl, rfl, rfl⟩

theorem Reachable.wellFormed {table : OperatorTable} (reachable : table.Reachable) :
    table.levels.WellFormed := by
  induction reachable with
  | initial => exact Syntax.Levels.initial_wellFormed
  | define definition implementation earlier ok inductionHypothesis =>
      exact Syntax.Levels.define_wellFormed inductionHypothesis (define_eq_ok ok).1

end Fixity.OperatorTable
