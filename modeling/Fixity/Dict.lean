/-!
Contract: finite maps keyed by strings, held in ascending key order.

Owns:
- the ordered representation, so equal maps are equal terms;
- lookup, insertion, erasure and overlaying, each with its law on lookups;
- the maps of rows that are in order already.

Keys are ordered by code point, which is also the byte order of their UTF-8 forms.
-/

namespace Fixity

universe u v

/-- A finite map from strings whose entries ascend strictly by key. -/
structure Dict (α : Type u) where
  entries : List (String × α)
  ordered : entries.Pairwise (fun earlier later => earlier.1 < later.1)

namespace Dict

variable {α : Type u} {β : Type v}

theorem ext_entries {left right : Dict α} (same : left.entries = right.entries) :
    left = right := by
  cases left
  cases right
  cases same
  rfl

instance [DecidableEq α] : DecidableEq (Dict α) := fun left right =>
  if same : left.entries = right.entries then
    isTrue (ext_entries same)
  else
    isFalse (fun equal => same (congrArg entries equal))

/-- The map without entries. -/
def empty : Dict α := ⟨[], .nil⟩

instance : EmptyCollection (Dict α) := ⟨empty⟩

instance : Inhabited (Dict α) := ⟨empty⟩

private def entryAt (key : String) : List (String × α) → Option α
  | [] => none
  | entry :: rest => if entry.1 = key then some entry.2 else entryAt key rest

/-- The value stored under a key. -/
def get? (dict : Dict α) (key : String) : Option α :=
  entryAt key dict.entries

/-- Whether a key has an entry. -/
def contains (dict : Dict α) (key : String) : Bool :=
  (dict.get? key).isSome

/-- The number of entries. -/
def size (dict : Dict α) : Nat := dict.entries.length

/-- The keys in ascending order. -/
def keys (dict : Dict α) : List String := dict.entries.map (·.1)

/-- The values in ascending order of their keys. -/
def values (dict : Dict α) : List α := dict.entries.map (·.2)

private def insertEntry (key : String) (value : α) :
    List (String × α) → List (String × α)
  | [] => [(key, value)]
  | entry :: rest =>
      if entry.1 = key then
        (key, value) :: rest
      else if key < entry.1 then
        (key, value) :: entry :: rest
      else
        entry :: insertEntry key value rest

private theorem mem_insertEntry {key : String} {value : α} {entry : String × α} :
    ∀ {entries : List (String × α)},
      entry ∈ insertEntry key value entries → entry = (key, value) ∨ entry ∈ entries
  | [], member => by
      simpa [insertEntry] using member
  | head :: rest, member => by
      unfold insertEntry at member
      split at member
      · rcases List.mem_cons.mp member with atHead | inRest
        · exact .inl atHead
        · exact .inr (List.mem_cons_of_mem _ inRest)
      · split at member
        · exact List.mem_cons.mp member
        · rcases List.mem_cons.mp member with atHead | inRest
          · exact .inr (atHead ▸ List.mem_cons_self)
          · exact (mem_insertEntry inRest).imp_right (List.mem_cons_of_mem _)

private theorem lt_of_not_lt_of_ne {left right : String}
    (notLess : ¬ left < right) (different : right ≠ left) : right < left := by
  have leastFirst : right ≤ left := String.not_lt.mp notLess
  apply Classical.byContradiction
  intro notGreater
  exact different (String.le_antisymm leastFirst (String.not_lt.mp notGreater))

private theorem insertEntry_ordered (key : String) (value : α) :
    ∀ {entries : List (String × α)},
      entries.Pairwise (fun earlier later => earlier.1 < later.1) →
        (insertEntry key value entries).Pairwise (fun earlier later => earlier.1 < later.1)
  | [], _ => by simp [insertEntry]
  | head :: rest, ordered => by
      obtain ⟨headLeast, restOrdered⟩ := List.pairwise_cons.mp ordered
      unfold insertEntry
      split
      · next equal => exact List.pairwise_cons.mpr ⟨equal ▸ headLeast, restOrdered⟩
      · next different =>
        split
        · next less =>
          refine List.pairwise_cons.mpr ⟨fun entry member => ?_, ordered⟩
          rcases List.mem_cons.mp member with atHead | inRest
          · exact atHead ▸ less
          · exact String.lt_trans less (headLeast entry inRest)
        · next notLess =>
          refine List.pairwise_cons.mpr
            ⟨fun entry member => ?_, insertEntry_ordered key value restOrdered⟩
          rcases mem_insertEntry member with atKey | inRest
          · exact atKey ▸ lt_of_not_lt_of_ne notLess different
          · exact headLeast entry inRest

/-- Stores a value under a key, replacing the one that was there. -/
def insert (dict : Dict α) (key : String) (value : α) : Dict α :=
  ⟨insertEntry key value dict.entries, insertEntry_ordered key value dict.ordered⟩

/-- Removes a key and its value. -/
def erase (dict : Dict α) (key : String) : Dict α :=
  ⟨dict.entries.filter (fun entry => entry.1 != key), dict.ordered.filter _⟩

/-- Applies a function to every value. -/
def map (transform : α → β) (dict : Dict α) : Dict β :=
  ⟨dict.entries.map (fun entry => (entry.1, transform entry.2)),
    List.pairwise_map.mpr dict.ordered⟩

/-- Keeps the entries that pass a test. -/
def filter (keep : String → α → Bool) (dict : Dict α) : Dict α :=
  ⟨dict.entries.filter (fun entry => keep entry.1 entry.2), dict.ordered.filter _⟩

/-- The map of a list of pairs; of two pairs with one key the later one counts. -/
def ofList (pairs : List (String × α)) : Dict α :=
  pairs.foldl (fun dict pair => dict.insert pair.1 pair.2) empty

private def mergeEntry (entry : String × α)
    (mergeRest : List (String × α) → List (String × α)) :
    List (String × α) → List (String × α)
  | [] => entry :: mergeRest []
  | other :: others =>
      if entry.1 = other.1 then entry :: mergeRest others
      else if entry.1 < other.1 then entry :: mergeRest (other :: others)
      else other :: mergeEntry entry mergeRest others

private def merge : (upper lower : List (String × α)) → List (String × α)
  | [], lower => lower
  | entry :: rest, lower => mergeEntry entry (merge rest) lower

private theorem mem_mergeEntry {entry member : String × α} {rest : List (String × α)}
    (inductionHypothesis : ∀ lower, member ∈ merge rest lower → member ∈ rest ∨ member ∈ lower) :
    ∀ {lower : List (String × α)}, member ∈ mergeEntry entry (merge rest) lower →
      member = entry ∨ member ∈ rest ∨ member ∈ lower
  | [], found => by
      rcases List.mem_cons.mp found with atHead | inRest
      · exact .inl atHead
      · exact .inr (inductionHypothesis [] inRest)
  | other :: others, found => by
      unfold mergeEntry at found
      split at found
      · rcases List.mem_cons.mp found with atHead | inRest
        · exact .inl atHead
        · exact .inr ((inductionHypothesis others inRest).imp_right (List.mem_cons_of_mem _))
      · split at found
        · rcases List.mem_cons.mp found with atHead | inRest
          · exact .inl atHead
          · exact .inr (inductionHypothesis (other :: others) inRest)
        · rcases List.mem_cons.mp found with atOther | inOthers
          · exact .inr (.inr (atOther ▸ List.mem_cons_self))
          · exact (mem_mergeEntry inductionHypothesis inOthers).imp_right
              (Or.imp_right (List.mem_cons_of_mem _))

private theorem mem_merge {member : String × α} :
    ∀ {upper : List (String × α)} (lower : List (String × α)),
      member ∈ merge upper lower → member ∈ upper ∨ member ∈ lower
  | [], _, found => .inr found
  | entry :: rest, lower, found => by
      rcases mem_mergeEntry (fun lower => mem_merge lower) found with atHead | inRest | inLower
      · exact .inl (atHead ▸ List.mem_cons_self)
      · exact .inl (List.mem_cons_of_mem _ inRest)
      · exact .inr inLower

private theorem merge_ordered :
    ∀ {upper lower : List (String × α)},
      upper.Pairwise (fun earlier later => earlier.1 < later.1) →
        lower.Pairwise (fun earlier later => earlier.1 < later.1) →
          (merge upper lower).Pairwise (fun earlier later => earlier.1 < later.1)
  | [], _, _, lowerOrdered => lowerOrdered
  | entry :: rest, lower, upperOrdered, lowerOrdered => by
      obtain ⟨entryLeast, restOrdered⟩ := List.pairwise_cons.mp upperOrdered
      induction lower with
      | nil =>
          refine List.pairwise_cons.mpr ⟨fun later found => ?_, merge_ordered restOrdered .nil⟩
          exact (mem_merge [] found).elim (entryLeast later) (fun absent => by cases absent)
      | cons other others inductionHypothesis =>
          obtain ⟨otherLeast, othersOrdered⟩ := List.pairwise_cons.mp lowerOrdered
          show (mergeEntry entry (merge rest) (other :: others)).Pairwise _
          unfold mergeEntry
          split
          · next equal =>
            refine List.pairwise_cons.mpr
              ⟨fun later found => ?_, merge_ordered restOrdered othersOrdered⟩
            exact (mem_merge others found).elim (entryLeast later)
              (fun inOthers => equal ▸ otherLeast later inOthers)
          · next different =>
            split
            · next less =>
              refine List.pairwise_cons.mpr
                ⟨fun later found => ?_, merge_ordered restOrdered lowerOrdered⟩
              rcases mem_merge (other :: others) found with inRest | inLower
              · exact entryLeast later inRest
              · rcases List.mem_cons.mp inLower with atOther | inOthers
                · exact atOther ▸ less
                · exact String.lt_trans less (otherLeast later inOthers)
            · next notLess =>
              have greater : other.1 < entry.1 := lt_of_not_lt_of_ne notLess (Ne.symm different)
              refine List.pairwise_cons.mpr
                ⟨fun later found => ?_, inductionHypothesis othersOrdered⟩
              rcases mem_mergeEntry (fun lower => mem_merge lower) found with
                atEntry | inRest | inOthers
              · exact atEntry ▸ greater
              · exact String.lt_trans greater (entryLeast later inRest)
              · exact otherLeast later inOthers

/-- The entries of both maps; where both have a key, the first map's value counts. -/
def overlay (upper lower : Dict α) : Dict α :=
  ⟨merge upper.entries lower.entries, merge_ordered upper.ordered lower.ordered⟩

/-! ## Laws of lookup -/

@[simp] theorem get?_empty (key : String) : (empty : Dict α).get? key = none := rfl

private theorem entryAt_insertEntry (key other : String) (value : α) :
    ∀ {entries : List (String × α)},
      entryAt other (insertEntry key value entries) =
        if key = other then some value else entryAt other entries
  | [] => rfl
  | head :: rest => by
      have inductionHypothesis : entryAt other (insertEntry key value rest) =
          if key = other then some value else entryAt other rest :=
        entryAt_insertEntry key other value
      unfold insertEntry
      split
      · next equal => simp only [entryAt, equal]; split <;> rfl
      · next different =>
        split
        · rfl
        · simp only [entryAt, inductionHypothesis]
          split
          · next atHead =>
            rw [if_neg]
            intro same
            exact different (atHead.trans same.symm)
          · rfl

theorem get?_insert (dict : Dict α) (key other : String) (value : α) :
    (dict.insert key value).get? other =
      if key = other then some value else dict.get? other :=
  entryAt_insertEntry key other value

@[simp] theorem get?_insert_self (dict : Dict α) (key : String) (value : α) :
    (dict.insert key value).get? key = some value := by
  simp [get?_insert]

private theorem entryAt_filter_ne (key other : String) :
    ∀ {entries : List (String × α)},
      entryAt other (entries.filter (fun entry => entry.1 != key)) =
        if key = other then none else entryAt other entries
  | [] => by simp [entryAt]
  | head :: rest => by
      have inductionHypothesis : entryAt other (rest.filter (fun entry => entry.1 != key)) =
          if key = other then none else entryAt other rest :=
        entryAt_filter_ne key other
      by_cases atKey : head.1 = key
      · rw [List.filter_cons_of_neg (by simp [atKey]), inductionHypothesis]
        simp only [entryAt, atKey]
        split <;> rfl
      · rw [List.filter_cons_of_pos (by simp [atKey])]
        simp only [entryAt, inductionHypothesis]
        split
        · next atHead =>
          rw [if_neg]
          intro same
          exact atKey (atHead.trans same.symm)
        · rfl

theorem get?_erase (dict : Dict α) (key other : String) :
    (dict.erase key).get? other = if key = other then none else dict.get? other :=
  entryAt_filter_ne key other

private theorem entryAt_eq_some {key : String} {value : α} :
    ∀ {entries : List (String × α)},
      entries.Pairwise (fun earlier later => earlier.1 < later.1) →
        (entryAt key entries = some value ↔ (key, value) ∈ entries)
  | [], _ => by simp [entryAt]
  | head :: rest, ordered => by
      obtain ⟨headLeast, restOrdered⟩ := List.pairwise_cons.mp ordered
      rw [entryAt, List.mem_cons]
      split
      · next atHead =>
        constructor
        · exact fun same => .inl (Prod.ext atHead.symm (Option.some.inj same).symm)
        · rintro (same | inRest)
          · rw [← same]
          · have less := headLeast _ inRest
            rw [atHead] at less
            exact absurd less (String.lt_irrefl key)
      · next different =>
        rw [entryAt_eq_some restOrdered]
        exact (or_iff_right fun same => different (congrArg Prod.fst same).symm).symm

/-- A key has a value exactly if the two make up an entry. -/
theorem get?_eq_some_iff (dict : Dict α) {key : String} {value : α} :
    dict.get? key = some value ↔ (key, value) ∈ dict.entries :=
  entryAt_eq_some dict.ordered

theorem mem_keys (dict : Dict α) {key : String} :
    key ∈ dict.keys ↔ ∃ value, dict.get? key = some value := by
  simp [keys, get?_eq_some_iff]

private theorem entryAt_eq_none_of_lt {key : String} :
    ∀ {entries : List (String × α)},
      (∀ entry ∈ entries, key < entry.1) → entryAt key entries = none
  | [], _ => rfl
  | head :: rest, greater => by
      have headGreater := greater head List.mem_cons_self
      rw [entryAt, if_neg (fun equal => String.lt_irrefl _ (equal ▸ headGreater))]
      exact entryAt_eq_none_of_lt fun entry member =>
        greater entry (List.mem_cons_of_mem _ member)

private theorem entryAt_merge (key : String) :
    ∀ {upper lower : List (String × α)},
      upper.Pairwise (fun earlier later => earlier.1 < later.1) →
        lower.Pairwise (fun earlier later => earlier.1 < later.1) →
          entryAt key (merge upper lower) = (entryAt key upper).or (entryAt key lower)
  | [], _, _, _ => by simp [merge, entryAt]
  | entry :: rest, lower, upperOrdered, lowerOrdered => by
      obtain ⟨_, restOrdered⟩ := List.pairwise_cons.mp upperOrdered
      have inRest : ∀ {lower : List (String × α)},
          lower.Pairwise (fun earlier later => earlier.1 < later.1) →
            entryAt key (merge rest lower) = (entryAt key rest).or (entryAt key lower) :=
        fun ordered => entryAt_merge key restOrdered ordered
      show entryAt key (mergeEntry entry (merge rest) lower) = _
      induction lower with
      | nil =>
          have tail := inRest .nil
          by_cases atEntry : entry.1 = key <;> simp_all [mergeEntry, entryAt]
      | cons other others inductionHypothesis =>
          obtain ⟨otherLeast, othersOrdered⟩ := List.pairwise_cons.mp lowerOrdered
          unfold mergeEntry
          split
          · next equal =>
            have tail := inRest othersOrdered
            by_cases atEntry : entry.1 = key
            · simp [entryAt, atEntry]
            · simp [entryAt, atEntry, ← equal, tail]
          · next different =>
            split
            · have tail := inRest lowerOrdered
              by_cases atEntry : entry.1 = key
              · simp [entryAt, atEntry]
              · rw [entryAt, if_neg atEntry, tail]
                simp [entryAt, atEntry]
            · next notLess =>
              have greater : other.1 < entry.1 := lt_of_not_lt_of_ne notLess (Ne.symm different)
              have tail := inductionHypothesis othersOrdered
              by_cases atOther : other.1 = key
              · have aboveOther : entryAt key (entry :: rest) = none := by
                  apply entryAt_eq_none_of_lt
                  intro later member
                  rcases List.mem_cons.mp member with atHead | inTail
                  · exact atHead ▸ atOther ▸ greater
                  · exact String.lt_trans (atOther ▸ greater)
                      ((List.pairwise_cons.mp upperOrdered).1 later inTail)
                rw [aboveOther, entryAt, entryAt, if_pos atOther, if_pos atOther]
                rfl
              · rw [entryAt, if_neg atOther, tail]
                simp [entryAt, atOther]

/-- The first map is looked up before the second. -/
theorem get?_overlay (upper lower : Dict α) (key : String) :
    (upper.overlay lower).get? key = (upper.get? key).or (lower.get? key) :=
  entryAt_merge key upper.ordered lower.ordered

private theorem entryAt_map (transform : α → β) (key : String) :
    ∀ entries : List (String × α),
      entryAt key (entries.map (fun entry => (entry.1, transform entry.2))) =
        (entryAt key entries).map transform
  | [] => rfl
  | head :: rest => by
      simp only [List.map_cons, entryAt, entryAt_map transform key rest]
      split <;> rfl

@[simp] theorem get?_map (transform : α → β) (dict : Dict α) (key : String) :
    (dict.map transform).get? key = (dict.get? key).map transform :=
  entryAt_map transform key dict.entries

private theorem entryAt_filter (keep : String → α → Bool) (key : String) :
    ∀ {entries : List (String × α)},
      entries.Pairwise (fun earlier later => earlier.1 < later.1) →
        entryAt key (entries.filter (fun entry => keep entry.1 entry.2)) =
          (entryAt key entries).filter (keep key)
  | [], _ => rfl
  | head :: rest, ordered => by
      obtain ⟨headLeast, restOrdered⟩ := List.pairwise_cons.mp ordered
      have inRest := entryAt_filter keep key restOrdered
      simp only [List.filter_cons]
      by_cases atHead : head.1 = key
      · subst atHead
        have absent : entryAt head.1 rest = none := entryAt_eq_none_of_lt headLeast
        by_cases kept : keep head.1 head.2 <;>
          simp [entryAt, kept, inRest, absent, Option.filter]
      · by_cases kept : keep head.1 head.2 <;> simp [entryAt, kept, inRest, atHead]

theorem get?_filter (keep : String → α → Bool) (dict : Dict α) (key : String) :
    (dict.filter keep).get? key = (dict.get? key).filter (keep key) :=
  entryAt_filter keep key dict.ordered

private theorem entries_eq_of_entryAt_eq :
    ∀ {left right : List (String × α)},
      left.Pairwise (fun earlier later => earlier.1 < later.1) →
        right.Pairwise (fun earlier later => earlier.1 < later.1) →
          (∀ key, entryAt key left = entryAt key right) → left = right
  | [], [], _, _, _ => rfl
  | [], head :: _, _, _, agree => by simpa [entryAt] using agree head.1
  | head :: _, [], _, _, agree => by simpa [entryAt] using agree head.1
  | head :: rest, other :: others, leftOrdered, rightOrdered, agree => by
      obtain ⟨headLeast, restOrdered⟩ := List.pairwise_cons.mp leftOrdered
      obtain ⟨otherLeast, othersOrdered⟩ := List.pairwise_cons.mp rightOrdered
      have notBelow : ¬ head.1 < other.1 := by
        intro below
        have absent : entryAt head.1 (other :: others) = none :=
          entryAt_eq_none_of_lt fun entry member => by
            rcases List.mem_cons.mp member with rfl | inOthers
            · exact below
            · exact String.lt_trans below (otherLeast entry inOthers)
        have shared := agree head.1
        rw [absent, entryAt, if_pos rfl] at shared
        cases shared
      have notAbove : ¬ other.1 < head.1 := by
        intro above
        have absent : entryAt other.1 (head :: rest) = none :=
          entryAt_eq_none_of_lt fun entry member => by
            rcases List.mem_cons.mp member with rfl | inRest
            · exact above
            · exact String.lt_trans above (headLeast entry inRest)
        have shared := agree other.1
        rw [absent, entryAt, if_pos rfl] at shared
        cases shared
      have sameKey : head.1 = other.1 :=
        String.le_antisymm (String.not_lt.mp notAbove) (String.not_lt.mp notBelow)
      have sameValue : head.2 = other.2 := by simpa [entryAt, sameKey] using agree other.1
      have sameRest : rest = others := by
        refine entries_eq_of_entryAt_eq restOrdered othersOrdered fun key => ?_
        by_cases atHead : head.1 = key
        · subst atHead
          rw [entryAt_eq_none_of_lt headLeast, entryAt_eq_none_of_lt (sameKey ▸ otherLeast)]
        · simpa [entryAt, atHead, ← sameKey] using agree key
      rw [sameRest, Prod.ext sameKey sameValue]

/-! ## Laws of entries -/

private theorem insertEntry_last {key : String} {value : α} :
    ∀ {entries : List (String × α)}, (∀ entry ∈ entries, entry.1 < key) →
      insertEntry key value entries = entries ++ [(key, value)]
  | [], _ => rfl
  | head :: rest, less => by
      have headLess := less head List.mem_cons_self
      have different : head.1 ≠ key := fun equal => String.lt_irrefl _ (equal ▸ headLess)
      have notGreater : ¬ key < head.1 := fun greater =>
        String.lt_irrefl _ (String.lt_trans headLess greater)
      rw [insertEntry, if_neg different, if_neg notGreater,
        insertEntry_last fun entry member => less entry (List.mem_cons_of_mem _ member)]
      rfl

/-- Pairs in ascending order are the entries of their map. -/
theorem entries_ofList {pairs : List (String × α)}
    (ordered : pairs.Pairwise (fun earlier later => earlier.1 < later.1)) :
    (ofList pairs).entries = pairs := by
  have goesOn : ∀ {pairs : List (String × α)} {dict : Dict α},
      (dict.entries ++ pairs).Pairwise (fun earlier later => earlier.1 < later.1) →
        (pairs.foldl (fun dict pair => dict.insert pair.1 pair.2) dict).entries =
          dict.entries ++ pairs := by
    intro pairs
    induction pairs with
    | nil => exact fun _ => (List.append_nil _).symm
    | cons pair rest inductionHypothesis =>
        intro dict ordered
        have inserted : (dict.insert pair.1 pair.2).entries = dict.entries ++ [pair] :=
          insertEntry_last fun entry member =>
            (List.pairwise_append.mp ordered).2.2 entry member pair List.mem_cons_self
        rw [List.foldl_cons, inductionHypothesis, inserted, List.append_assoc]
        · rfl
        · rw [inserted, List.append_assoc]
          exact ordered
  exact goesOn ordered

/-- New values for the keys of a map. -/
theorem ofList_zip {dict : Dict α} {values : List β}
    (same : values.length = dict.keys.length) :
    (ofList (dict.keys.zip values)).keys = dict.keys ∧
      (ofList (dict.keys.zip values)).values = values := by
  have keys : (dict.keys.zip values).map (·.1) = dict.keys := List.map_fst_zip (by omega)
  have ordered : (dict.keys.zip values).Pairwise (fun earlier later => earlier.1 < later.1) := by
    have ascending : dict.keys.Pairwise (· < ·) := List.pairwise_map.mpr dict.ordered
    rw [← keys] at ascending
    exact List.pairwise_map.mp ascending
  constructor
  · rw [Dict.keys, entries_ofList ordered]
    exact keys
  · rw [Dict.values, entries_ofList ordered]
    exact List.map_snd_zip (by omega)

/-- Two maps with the same lookups are the same map. -/
theorem ext_get? {left right : Dict α} (agree : ∀ key, left.get? key = right.get? key) :
    left = right :=
  ext_entries (entries_eq_of_entryAt_eq left.ordered right.ordered agree)

/-! ## Laws of mapped values -/

section Map

variable (transform : α → β)

@[simp] theorem map_empty : (∅ : Dict α).map transform = ∅ := rfl

@[simp] theorem size_map (dict : Dict α) : (dict.map transform).size = dict.size :=
  List.length_map _

@[simp] theorem keys_map (dict : Dict α) : (dict.map transform).keys = dict.keys :=
  List.map_map

@[simp] theorem values_map (dict : Dict α) :
    (dict.map transform).values = dict.values.map transform := by
  show List.map _ (List.map _ _) = List.map _ (List.map _ _)
  rw [List.map_map, List.map_map]
  rfl

@[simp] theorem contains_map (dict : Dict α) (key : String) :
    (dict.map transform).contains key = dict.contains key := by
  rw [contains, get?_map, Option.isSome_map]
  rfl

theorem map_insert (dict : Dict α) (key : String) (value : α) :
    (dict.insert key value).map transform = (dict.map transform).insert key (transform value) := by
  refine ext_get? fun other => ?_
  rw [get?_map, get?_insert, get?_insert, get?_map, apply_ite (Option.map transform)]
  rfl

theorem map_erase (dict : Dict α) (key : String) :
    (dict.erase key).map transform = (dict.map transform).erase key := by
  refine ext_get? fun other => ?_
  rw [get?_map, get?_erase, get?_erase, get?_map, apply_ite (Option.map transform)]
  rfl

theorem map_overlay (upper lower : Dict α) :
    (upper.overlay lower).map transform = (upper.map transform).overlay (lower.map transform) := by
  refine ext_get? fun key => ?_
  rw [get?_map, get?_overlay, get?_overlay, get?_map, get?_map, Option.map_or]

theorem map_filter {keep : String → α → Bool} {keep' : String → β → Bool}
    (same : ∀ key value, keep' key (transform value) = keep key value) (dict : Dict α) :
    (dict.filter keep).map transform = (dict.map transform).filter keep' := by
  refine ext_get? fun key => ?_
  rw [get?_map, get?_filter, get?_filter, get?_map, Option.filter_map]
  congr 1
  exact congrArg (Option.filter · _) (funext fun value => (same key value).symm)

theorem map_ofList (pairs : List (String × α)) :
    (ofList pairs).map transform = ofList (pairs.map fun pair => (pair.1, transform pair.2)) := by
  have goesOn : ∀ (pairs : List (String × α)) (dict : Dict α),
      (pairs.foldl (fun dict pair => dict.insert pair.1 pair.2) dict).map transform =
        (pairs.map fun pair => (pair.1, transform pair.2)).foldl
          (fun dict pair => dict.insert pair.1 pair.2) (dict.map transform) := by
    intro pairs
    induction pairs with
    | nil => exact fun _ => rfl
    | cons pair rest inductionHypothesis =>
        intro dict
        rw [List.foldl_cons, List.map_cons, List.foldl_cons, inductionHypothesis, map_insert]
  exact goesOn pairs ∅

end Map

end Dict

end Fixity
