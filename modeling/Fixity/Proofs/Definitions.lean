import Fixity.Proofs.Frames
import Fixity.Proofs.Integrality
import Fixity.Proofs.Placement

/-!
Contract: what rows of definitions, of which some may fail, make of an operator table.

Owns:
- `Levels.Moves`: the levels of the operators besides a given one, and where they go;
- `Definition.Rearranges`: where a definition puts its token and what becomes of the other levels;
- `OperatorTable.run`, the table behind a row of definitions, and what holds of all such tables.

Does not own: what the levels mean to the parser.
-/

namespace Fixity.Syntax

/-! ## Indices behind a removal -/

/-- The index of an entry once the entries before it that fail a test are gone. -/
def rank {α : Type} (keep : α → Bool) (entries : List α) (index : Nat) : Nat :=
  (entries.take index).countP keep

private theorem findIdx?_filter {α : Type} {test keep : α → Bool} (entries : List α)
    (kept : ∀ entry ∈ entries, test entry → keep entry) :
    (entries.filter keep).findIdx? test = (entries.findIdx? test).map (rank keep entries) := by
  induction entries with
  | nil => rfl
  | cons entry rest inductionHypothesis =>
      have inRest := inductionHypothesis fun other member =>
        kept other (List.mem_cons_of_mem _ member)
      have shifted : ∀ index, rank keep (entry :: rest) (index + 1) =
          rank keep rest index + if keep entry then 1 else 0 := by
        intro index
        exact List.countP_cons
      cases stays : keep entry with
      | true =>
          rw [List.filter_cons_of_pos stays, List.findIdx?_cons, List.findIdx?_cons, inRest]
          cases found : test entry with
          | true => rfl
          | false => simp [Function.comp_def, shifted, stays]
      | false =>
          have fails : test entry = false := by
            cases found : test entry with
            | true => exact absurd (kept entry List.mem_cons_self found) (by simp [stays])
            | false => rfl
          rw [List.filter_cons_of_neg (by simp [stays]), List.findIdx?_cons, inRest, fails]
          simp [Function.comp_def, shifted, stays]

private theorem rank_lt_rank {α : Type} {keep : α → Bool} {entries : List α} {entry : α}
    {index later : Nat} (found : entries[index]? = some entry) (stays : keep entry)
    (less : index < later) : rank keep entries index < rank keep entries later := by
  have next : rank keep entries (index + 1) = rank keep entries index + 1 := by
    unfold rank
    rw [List.take_add_one, List.countP_append, found]
    simp [stays]
  have grows : rank keep entries (index + 1) ≤ rank keep entries later :=
    (List.take_sublist_take_left (by omega)).countP_le
  omega

private theorem getElem?_filter_rank {α : Type} {keep : α → Bool} {entries : List α} {entry : α}
    {index : Nat} (found : entries[index]? = some entry) (stays : keep entry) :
    (entries.filter keep)[rank keep entries index]? = some entry := by
  obtain ⟨inRange, rfl⟩ := List.getElem?_eq_some_iff.mp found
  have split : entries.filter keep = (entries.take index).filter keep ++
      entries[index] :: (entries.drop (index + 1)).filter keep := by
    rw [← List.filter_cons_of_pos stays, ← List.drop_eq_getElem_cons inRange,
      ← List.filter_append, List.take_append_drop]
  unfold rank
  rw [split, List.countP_eq_length_filter, List.getElem?_append_right (Nat.le_refl _),
    Nat.sub_self]
  rfl

/-! ## The levels of the other operators -/

/-- Whether a level has an operator besides a given one. -/
def Level.hasOther (token : String) (level : Level) : Bool :=
  level.operators.any (· ≠ token)

/-- A level without an operator. -/
def Level.without (token : String) (level : Level) : Level :=
  { level with operators := level.operators.filter (· ≠ token) }

namespace Levels

variable {levels levels' levels'' : Levels} {token other : String} {index : Nat}

theorem getElem?_of_indexOf? (at_ : levels.indexOf? other = some index) :
    ∃ level, levels[index]? = some level ∧ other ∈ level.operators := by
  obtain ⟨inRange, holds, _⟩ := List.findIdx?_eq_some_iff_getElem.mp at_
  exact ⟨levels[index], List.getElem?_eq_getElem inRange, by simpa using holds⟩

/-- Where no operator stands twice, a level that has an operator is the operator's only one. -/
theorem indexOf?_of_mem (distinct : levels.tokens.Nodup) {level : Level}
    (found : levels[index]? = some level) (member : token ∈ level.operators) :
    levels.indexOf? token = some index := by
  have listed : token ∈ levels.tokens :=
    mem_tokens.mpr ⟨level, List.mem_of_getElem? found, member⟩
  obtain ⟨first, at_⟩ := Option.isSome_iff_exists.mp (indexOf?_isSome.mpr listed)
  obtain ⟨firstLevel, firstFound, firstMember⟩ := getElem?_of_indexOf? at_
  have disjoint := List.pairwise_iff_getElem.mp (List.nodup_flatMap.mp distinct).2
  obtain ⟨firstInRange, rfl⟩ := List.getElem?_eq_some_iff.mp firstFound
  obtain ⟨inRange, rfl⟩ := List.getElem?_eq_some_iff.mp found
  rcases Nat.lt_trichotomy first index with before | same | behind
  · exact absurd member (disjoint _ _ firstInRange inRange before firstMember)
  · rw [at_, same]
  · exact absurd firstMember (disjoint _ _ inRange firstInRange behind member)

/-- The levels that have operators besides a given one, in a table and in a changed one. -/
structure Moves (levels levels' : Levels) (token : String) (move : Nat → Nat) : Prop where
  indexOf? : ∀ other, other ≠ token → levels'.indexOf? other = (levels.indexOf? other).map move
  increasing : ∀ {other index later}, other ≠ token → levels.indexOf? other = some index →
    index < later → move index < move later

theorem Moves.trans {first second : Nat → Nat} (moves : Moves levels levels' token first)
    (increasing : StrictMono second)
    (indices : ∀ other, other ≠ token →
      levels''.indexOf? other = (levels'.indexOf? other).map second) :
    Moves levels levels'' token (second ∘ first) where
  indexOf? other different := by
    rw [indices other different, moves.indexOf? other different, Option.map_map]
  increasing different at_ less := increasing (moves.increasing different at_ less)

/-- What a move of levels means for any two operators. -/
theorem Moves.iff {move : Nat → Nat} (moves : Moves levels levels' token move)
    {first second : String} {index index' : Nat} (firstOther : first ≠ token)
    (secondOther : second ≠ token) (firstAt : levels.indexOf? first = some index)
    (secondAt : levels.indexOf? second = some index') :
    (move index < move index' ↔ index < index') ∧ (move index = move index' ↔ index = index') := by
  rcases Nat.lt_trichotomy index index' with less | rfl | greater
  · have := moves.increasing firstOther firstAt less
    omega
  · omega
  · have := moves.increasing secondOther secondAt greater
    omega

/-! ## Removal -/

private theorem erase_eq (levels : Levels) (token : String) :
    levels.erase token = (levels.filter (Level.hasOther token)).map (Level.without token) := by
  unfold erase
  rw [List.filter_map]
  congr 1
  apply List.filter_congr
  intro level _
  rw [Bool.eq_iff_iff]
  simp [Level.hasOther]

private theorem hasOther_of_mem {level : Level} (different : other ≠ token)
    (member : other ∈ level.operators) : level.hasOther token := by
  simp only [Level.hasOther, List.any_eq_true, decide_eq_true_eq]
  exact ⟨other, member, different⟩

theorem erase_moves (levels : Levels) (token : String) :
    Moves levels (levels.erase token) token (rank (Level.hasOther token) levels) where
  indexOf? other different := by
    have sameTest : ((fun level : Level => level.operators.contains other) ∘
        Level.without token) = fun level => level.operators.contains other := by
      funext level
      simp [Level.without, different]
    unfold indexOf?
    rw [erase_eq, List.findIdx?_map, sameTest]
    apply findIdx?_filter
    intro level _ holds
    exact hasOther_of_mem different (by simpa using holds)
  increasing different at_ less := by
    obtain ⟨level, found, member⟩ := getElem?_of_indexOf? at_
    exact rank_lt_rank found (hasOther_of_mem different member) less

theorem associativityAt?_erase (different : other ≠ token)
    (at_ : levels.indexOf? other = some index) :
    (levels.erase token).associativityAt? (rank (Level.hasOther token) levels index) =
      levels.associativityAt? index := by
  obtain ⟨level, found, member⟩ := getElem?_of_indexOf? at_
  unfold associativityAt?
  rw [erase_eq, List.getElem?_map, found,
    getElem?_filter_rank found (hasOther_of_mem different member)]
  rfl

end Levels

/-! ## Definitions -/

open Levels

/-- What a definition does to levels, in terms of those that its token has left. -/
structure Definition.Rearranges (definition : Definition) (levels levels' : Levels) : Prop where
  /-- The precedence is a number that is not negative; its whole part is the index, unless there
  are more levels than indices. -/
  precedence : ∃ number, Binary.read definition.precedence = .finite number ∧ 0 ≤ number.value ∧
    ((levels.erase definition.token).length < 2 ^ 64 →
      indexAt definition.precedence = ⌊number.value⌋₊) ∧
    (Double.isFractional definition.precedence ↔ ¬ ∃ whole : Nat, number.value = whole)
  /-- An operator of integral precedence is the last of the level with that index. -/
  joins : ¬ Double.isFractional definition.precedence →
    levels'.indexOf? definition.token = some (indexAt definition.precedence) ∧
    ∃ level, (levels.erase definition.token)[indexAt definition.precedence]? = some level ∧
      levels'[indexAt definition.precedence]? =
        some ⟨level.operators ++ [definition.token], definition.associativity⟩
  /-- An operator of fractional precedence has a level of its own, right behind that index. -/
  opens : Double.isFractional definition.precedence →
    levels'.indexOf? definition.token = some (indexAt definition.precedence + 1) ∧
    levels'[indexAt definition.precedence + 1]? =
      some ⟨[definition.token], definition.associativity⟩ ∧
    levels'.eraseIdx (indexAt definition.precedence + 1) = levels.erase definition.token
  /-- Nothing else is defined or lost. -/
  operators : ∀ token, token ∈ levels'.tokens ↔ token = definition.token ∨ token ∈ levels.tokens
  /-- Any two other operators keep the order of their levels, and share one if they did. -/
  order : ∀ {first second : String} {index index' : Nat}, first ≠ definition.token →
    second ≠ definition.token → levels.indexOf? first = some index →
      levels.indexOf? second = some index' →
        ∃ moved moved', levels'.indexOf? first = some moved ∧
          levels'.indexOf? second = some moved' ∧
            (moved < moved' ↔ index < index') ∧ (moved = moved' ↔ index = index')
  /-- The level of another operator is turned around only by force, by joining it. -/
  associativity : ∀ {other : String} {index : Nat}, other ≠ definition.token →
    levels.indexOf? other = some index →
      ∃ moved, levels'.indexOf? other = some moved ∧
        (levels'.associativityAt? moved = levels.associativityAt? index ∨
          (definition.force ∧ levels'.indexOf? definition.token = some moved))

/-- What a definition has to meet: a token that may be defined, a precedence that is an index, and
a level there, which for an integral precedence groups like the operator or may be turned around. -/
structure Definition.Fits (definition : Definition) (levels : Levels) : Prop where
  unreserved : definition.token ∉ reservedTokens
  inhabited : definition.token ≠ ""
  operatorText : ∀ char ∈ definition.token.toList, isOperatorChar char
  usable : definition.precedence.isFinite ∧ ¬ definition.precedence < 0.0
  level : ∃ level, (levels.erase definition.token)[indexAt definition.precedence]? = some level ∧
    (Double.isFractional definition.precedence ∨
      level.associativity = definition.associativity ∨ definition.force)

section Define

variable {levels levels' : Levels} {definition : Definition} {index : Nat}

private theorem openBehind_of_found {level : Level} (found : levels[index]? = some level) :
    ∃ levels', levels.openBehind index definition = .ok levels' := by
  unfold openBehind
  rw [if_pos (List.getElem?_eq_some_iff.mp found).1]
  exact ⟨_, rfl⟩

private theorem join_of_found {level : Level} (found : levels[index]? = some level)
    (agrees : level.associativity = definition.associativity ∨ definition.force) :
    ∃ levels', levels.join index definition = .ok levels' := by
  have unopposed : ¬ (level.associativity ≠ definition.associativity ∧ ¬ definition.force) := by
    rintro ⟨differs, unforced⟩
    exact agrees.elim differs unforced
  unfold join
  rw [found]
  dsimp only
  rw [if_neg unopposed]
  exact ⟨_, rfl⟩

/-- A definition succeeds exactly if it fits. -/
theorem Levels.define_isOk_iff :
    (∃ levels', levels.define definition = .ok levels') ↔ definition.Fits levels := by
  constructor
  · rintro ⟨levels', ok⟩
    obtain ⟨unreserved, ⟨inhabited, operatorText⟩, usable, placed⟩ := define_cases ok
    refine ⟨unreserved, by simpa using inhabited, operatorText, usable, ?_⟩
    rcases placed with ⟨fractional, opened⟩ | ⟨_, joined⟩
    · exact ⟨_, List.getElem?_eq_getElem (openBehind_eq_ok opened).1, Or.inl fractional⟩
    · obtain ⟨level, found, agrees, _⟩ := join_eq_ok joined
      exact ⟨level, found, Or.inr agrees⟩
  · rintro ⟨unreserved, inhabited, operatorText, ⟨finite, notBelow⟩, level, found, agrees⟩
    have spelled : ¬ (definition.token.isEmpty || !definition.token.toList.all isOperatorChar) := by
      simpa [inhabited] using operatorText
    have usable : ¬ (!definition.precedence.isFinite || definition.precedence < 0.0) := by
      simp [finite, notBelow]
    unfold define
    dsimp only
    rw [if_neg unreserved, if_neg spelled, if_neg usable]
    split
    · exact openBehind_of_found found
    · next integral => exact join_of_found found (agrees.resolve_left integral)

private theorem getElem?_of_join (ok : levels.join index definition = .ok levels') :
    ∃ level, levels[index]? = some level ∧
      (level.associativity = definition.associativity ∨ definition.force) ∧
        levels'[index]? = some ⟨level.operators ++ [definition.token], definition.associativity⟩ ∧
          ∀ other, other ≠ index → levels'[other]? = levels[other]? := by
  obtain ⟨level, found, agrees, rfl⟩ := join_eq_ok ok
  obtain ⟨inRange, _⟩ := List.getElem?_eq_some_iff.mp found
  refine ⟨level, found, agrees, List.getElem?_set_self inRange, fun other different => ?_⟩
  exact List.getElem?_set_ne (Ne.symm different)

private theorem getElem?_of_openBehind (ok : levels.openBehind index definition = .ok levels') :
    levels'[index + 1]? = some ⟨[definition.token], definition.associativity⟩ ∧
      levels'.eraseIdx (index + 1) = levels := by
  obtain ⟨inRange, rfl⟩ := openBehind_eq_ok ok
  exact ⟨by rw [List.getElem?_insertIdx_self, if_pos (by omega)], List.eraseIdx_insertIdx_self _⟩

/-- Where the levels of the other operators go: together to where the definition leaves them. -/
private theorem exists_moves (distinct : levels'.tokens.Nodup)
    (ok : levels.define definition = .ok levels') :
    ∃ move, Moves levels levels' definition.token move ∧
      ∀ {other index}, other ≠ definition.token → levels.indexOf? other = some index →
        levels'.associativityAt? (move index) = levels.associativityAt? index ∨
          (definition.force ∧ levels'.indexOf? definition.token = some (move index)) := by
  have erased := erase_moves levels definition.token
  obtain ⟨_, _, _, ⟨_, opened⟩ | ⟨_, joined⟩⟩ := define_cases ok
  · refine ⟨_, erased.trans (shiftFrom_strictMono _) fun other different =>
      indexOf?_openBehind different opened, fun different at_ => Or.inl ?_⟩
    obtain ⟨_, rfl⟩ := openBehind_eq_ok opened
    rw [← associativityAt?_erase different at_]
    unfold associativityAt?
    rw [Function.comp_apply, getElem?_insertIdx_shiftFrom]
  · refine ⟨_, erased.trans strictMono_id fun other different => ?_,
      fun {other index} different at_ => ?_⟩
    · rw [indexOf?_join different joined, Option.map_id]
      rfl
    · obtain ⟨level, found, agrees, changed, kept⟩ := getElem?_of_join joined
      rw [← associativityAt?_erase different at_, Function.comp_apply, id]
      unfold associativityAt?
      by_cases here : rank (Level.hasOther definition.token) levels index =
          indexAt definition.precedence
      · rw [here, changed, found]
        rcases agrees with same | force
        · exact Or.inl (by rw [Option.map_some, Option.map_some, same])
        · exact Or.inr ⟨force, indexOf?_of_mem distinct changed (by simp)⟩
      · exact Or.inl (by rw [kept _ here])

private theorem indexAt_lt_length (ok : levels.define definition = .ok levels') :
    indexAt definition.precedence < (levels.erase definition.token).length := by
  obtain ⟨_, _, _, ⟨_, opened⟩ | ⟨_, joined⟩⟩ := define_cases ok
  · exact (openBehind_eq_ok opened).1
  · obtain ⟨level, found, _⟩ := join_eq_ok joined
    exact (List.getElem?_eq_some_iff.mp found).1

/-- A successful definition puts its token where its precedence says and changes nothing else. -/
theorem Levels.define_rearranges (wellFormed : levels.WellFormed)
    (ok : levels.define definition = .ok levels') : definition.Rearranges levels levels' := by
  have distinct := (define_wellFormed wellFormed ok).distinct
  obtain ⟨move, moves, directions⟩ := exists_moves distinct ok
  have moved : ∀ {other index}, other ≠ definition.token → levels.indexOf? other = some index →
      levels'.indexOf? other = some (move index) := by
    intro other index different at_
    rw [moves.indexOf? other different, at_]
    rfl
  obtain ⟨_, _, ⟨finite, notBelow⟩, placed⟩ := define_cases ok
  constructor
  case precedence =>
    obtain ⟨number, reads⟩ := Double.exists_read_of_isFinite finite
    refine ⟨number, reads, Binary.value_nonneg (Double.nonneg_of_read reads notBelow),
      fun few => ?_, Double.isFractional_iff reads notBelow⟩
    have inRange := indexAt_lt_length ok
    rw [← Double.wholePart_eq_floor reads notBelow]
    unfold indexAt at inRange ⊢
    rw [Nat.shiftLeft_eq] at inRange ⊢
    omega
  case joins =>
    intro integral
    obtain ⟨_, joined⟩ := placed.resolve_left fun opened => integral opened.1
    obtain ⟨level, found, _, changed, _⟩ := getElem?_of_join joined
    exact ⟨indexOf?_of_mem distinct changed (by simp), level, found, changed⟩
  case opens =>
    intro fractional
    obtain ⟨_, opened⟩ := placed.resolve_right fun joined => joined.1 fractional
    obtain ⟨new, others⟩ := getElem?_of_openBehind opened
    exact ⟨indexOf?_of_mem distinct new (by simp), new, others⟩
  case operators =>
    intro token
    rw [(tokens_define ok).mem_iff]
    by_cases same : token = definition.token
    · simp [same]
    · simp [same]
  case order =>
    intro first second index index' firstOther secondOther firstAt secondAt
    exact ⟨_, _, moved firstOther firstAt, moved secondOther secondAt,
      moves.iff firstOther secondOther firstAt secondAt⟩
  case associativity =>
    intro other index different at_
    exact ⟨_, moved different at_, directions different at_⟩

end Define

end Fixity.Syntax

namespace Fixity.OperatorTable

open Syntax

/-! ## Rows of definitions -/

/-- The table behind a definition; one that fails leaves the table that was there. -/
def attempt (table : OperatorTable) (definition : Definition) (implementation : Implementation) :
    OperatorTable :=
  match table.define definition implementation with
  | .ok table' => table'
  | .error _ => table

/-- The table behind a row of definitions. -/
def run (table : OperatorTable) (row : List (Definition × Implementation)) : OperatorTable :=
  row.foldl (fun table entry => table.attempt entry.1 entry.2) table

/-- How many of a row of definitions succeed. -/
def successes (table : OperatorTable) : List (Definition × Implementation) → Nat
  | [] => 0
  | (definition, implementation) :: rest =>
      (if (table.define definition implementation).isOk then 1 else 0) +
        (table.attempt definition implementation).successes rest

/-- What every definition keeps. -/
structure Sound (table : OperatorTable) : Prop where
  levels : table.levels.WellFormed
  listed : ∀ token, table.implementations.contains token → token ∈ table.levels.tokens

variable {table table' : OperatorTable} {definition : Definition}
  {implementation : Implementation}

theorem attempt_of_ok (ok : table.define definition implementation = .ok table') :
    table.attempt definition implementation = table' := by
  unfold attempt
  rw [ok]

theorem attempt_of_error {error : RuntimeError}
    (failed : table.define definition implementation = .error error) :
    table.attempt definition implementation = table := by
  unfold attempt
  rw [failed]

theorem define_isOk_iff :
    (∃ table', table.define definition implementation = .ok table') ↔
      definition.Fits table.levels := by
  rw [← Levels.define_isOk_iff]
  constructor
  · rintro ⟨table', ok⟩
    exact ⟨_, (define_eq_ok ok).1⟩
  · rintro ⟨levels', ok⟩
    unfold OperatorTable.define
    rw [ok]
    exact ⟨_, rfl⟩

theorem initial_sound : initial.Sound where
  levels := Levels.initial_wellFormed
  listed token contained := by cases contained

theorem Sound.define (sound : table.Sound)
    (ok : table.define definition implementation = .ok table') : table'.Sound := by
  obtain ⟨placed, implemented, _⟩ := define_eq_ok ok
  refine ⟨Levels.define_wellFormed sound.levels placed, fun token contained => ?_⟩
  rw [(Levels.tokens_define placed).mem_iff, List.mem_cons, List.mem_filter]
  by_cases same : token = definition.token
  · exact Or.inl same
  · right
    rw [implemented, Dict.contains, Dict.get?_insert, if_neg (Ne.symm same)] at contained
    exact ⟨sound.listed token contained, by simpa using same⟩

theorem Sound.attempt (sound : table.Sound) (definition : Definition)
    (implementation : Implementation) : (table.attempt definition implementation).Sound := by
  cases outcome : table.define definition implementation with
  | ok table' => exact (attempt_of_ok outcome).symm ▸ sound.define outcome
  | error error => exact (attempt_of_error outcome).symm ▸ sound

theorem Sound.run (sound : table.Sound) (row : List (Definition × Implementation)) :
    (table.run row).Sound := by
  induction row generalizing table with
  | nil => exact sound
  | cons entry rest inductionHypothesis =>
      exact inductionHypothesis (sound.attempt entry.1 entry.2)

theorem generation_run (table : OperatorTable) (row : List (Definition × Implementation)) :
    (table.run row).generation = table.generation + table.successes row := by
  induction row generalizing table with
  | nil => rfl
  | cons entry rest inductionHypothesis =>
      obtain ⟨definition, implementation⟩ := entry
      have counted : (table.attempt definition implementation).generation = table.generation +
          if (table.define definition implementation).isOk then 1 else 0 := by
        cases outcome : table.define definition implementation with
        | ok table' =>
            rw [attempt_of_ok outcome]
            exact (define_eq_ok outcome).2.2
        | error error =>
            rw [attempt_of_error outcome]
            rfl
      show ((table.attempt definition implementation).run rest).generation = _
      rw [inductionHypothesis, counted, successes, Nat.add_assoc]

/-- Evaluation defines an operator in the table of the current scope. -/
theorem defineOperator_of_table {state : State} (here : state.scope.operators = table) :
    (∀ error, table.define definition implementation = .error error →
      Eval.defineOperator definition implementation state = .error (.error error) state) ∧
    ∀ table', table.define definition implementation = .ok table' →
      Eval.defineOperator definition implementation state =
        .ok () { state with scope := { state.scope with operators := table' } } := by
  subst here
  constructor
  · intro error failed
    apply Eval.defineOperator_of_error
    unfold Scope.define
    rw [failed]
    rfl
  · intro table' ok
    apply Eval.defineOperator_of_ok
    unfold Scope.define
    rw [ok]
    rfl

/-- Behind every row of definitions the invariant holds and every success has been counted. The next
definition succeeds exactly if it fits; a failing one changes nothing, and a successful one
rearranges the levels as its precedence says. -/
theorem define_run (row : List (Definition × Implementation)) :
    (initial.run row).Sound ∧ (initial.run row).generation = initial.successes row ∧
    ∀ (definition : Definition) (implementation : Implementation),
      ((∃ table', (initial.run row).define definition implementation = .ok table') ↔
        definition.Fits (initial.run row).levels) ∧
      (∀ error, (initial.run row).define definition implementation = .error error →
        initial.run (row ++ [(definition, implementation)]) = initial.run row ∧
        ∀ state : State, state.scope.operators = initial.run row →
          Eval.defineOperator definition implementation state = .error (.error error) state) ∧
      ∀ table', (initial.run row).define definition implementation = .ok table' →
        initial.run (row ++ [(definition, implementation)]) = table' ∧
        (∀ state : State, state.scope.operators = initial.run row →
          Eval.defineOperator definition implementation state =
            .ok () { state with scope := { state.scope with operators := table' } }) ∧
        definition.Rearranges (initial.run row).levels table'.levels := by
  have sound := initial_sound.run row
  have extended : ∀ definition implementation,
      initial.run (row ++ [(definition, implementation)]) =
        (initial.run row).attempt definition implementation := by
    intro definition implementation
    exact List.foldl_append
  refine ⟨sound, ?_, fun definition implementation => ⟨define_isOk_iff, ?_, ?_⟩⟩
  · rw [generation_run]
    exact Nat.zero_add _
  · intro error failed
    rw [extended, attempt_of_error failed]
    exact ⟨rfl, fun state here => (defineOperator_of_table here).1 error failed⟩
  · intro table' ok
    rw [extended, attempt_of_ok ok]
    exact ⟨rfl, fun state here => (defineOperator_of_table here).2 table' ok,
      Levels.define_rearranges sound.levels (define_eq_ok ok).1⟩

/-- Behind a definition and a failing one, `^` leaves its level, which was its own, and joins the
one that then has index 5. -/
theorem define_run_power :
    (initial.run [(⟨"&&", 4.5, .left, false⟩, ⟨.function 0, true⟩),
      (⟨":", 1.0, .left, false⟩, ⟨.function 0, true⟩)]).generation = 1 ∧
    ∃ table', (initial.run [(⟨"&&", 4.5, .left, false⟩, ⟨.function 0, true⟩),
        (⟨":", 1.0, .left, false⟩, ⟨.function 0, true⟩)]).define ⟨"^", 5.0, .left, false⟩
          ⟨.function 0, true⟩ = .ok table' ∧
      table'.levels.indexOf? "^" = some 5 ∧
      ∃ moved moved', table'.levels.indexOf? "+" = some moved ∧
        table'.levels.indexOf? "&&" = some moved' ∧ moved < moved' := by
  obtain ⟨sound, counted, defined⟩ := define_run [(⟨"&&", 4.5, .left, false⟩, ⟨.function 0, true⟩),
    (⟨":", 1.0, .left, false⟩, ⟨.function 0, true⟩)]
  obtain ⟨table', ok⟩ : ∃ table', (initial.run [(⟨"&&", 4.5, .left, false⟩, ⟨.function 0, true⟩),
      (⟨":", 1.0, .left, false⟩, ⟨.function 0, true⟩)]).define ⟨"^", 5.0, .left, false⟩
        ⟨.function 0, true⟩ = .ok table' := ⟨_, rfl⟩
  obtain ⟨_, _, rearranged⟩ := (defined _ _).2.2 table' ok
  refine ⟨counted, table', ok, (rearranged.joins (by decide)).1, ?_⟩
  obtain ⟨moved, moved', first, second, ordered, _⟩ := rearranged.order (by decide) (by decide)
    (rfl : (initial.run _).levels.indexOf? "+" = some 4)
    (rfl : (initial.run _).levels.indexOf? "&&" = some 5)
  exact ⟨moved, moved', first, second, ordered.mpr (by decide)⟩

end Fixity.OperatorTable
