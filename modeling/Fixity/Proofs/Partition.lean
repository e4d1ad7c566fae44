import Mathlib

/-!
Contract: rows that are put in order by partition and exchange.

Owns:
- `Shuffled`, the rows that differ by the order of some of their entries;
- `Parted`, what one pass over a part of a row reaches: first the entries below a rank, then the
  others; `Parted.keep` and `Parted.exchange`, which take one more entry in;
- `Ordered`, parts in ascending order, and `Ordered.join`: two ordered parts around an entry between
  them are one.

Rows are functions of the place. An entry is placed by its rank in a linear order.
-/

namespace Fixity

variable {α β : Type} {before middle after : Nat → α} {start stop : Nat}

/-! ## Order of entries -/

/-- The rows have the same entries, in another order from `start` up to `stop`. -/
def Shuffled (start stop : Nat) (before after : Nat → α) : Prop :=
  ∃ moved : Equiv.Perm Nat, (∀ place, place < start ∨ stop ≤ place → moved place = place) ∧
    after = before ∘ moved

namespace Shuffled

theorem refl (start stop : Nat) (row : Nat → α) : Shuffled start stop row row :=
  ⟨1, fun _ _ => rfl, rfl⟩

theorem trans (first : Shuffled start stop before middle)
    (second : Shuffled start stop middle after) : Shuffled start stop before after := by
  obtain ⟨moved, fixed, rfl⟩ := first
  obtain ⟨moved', fixed', rfl⟩ := second
  refine ⟨moved * moved', fun place outside => ?_, rfl⟩
  rw [Equiv.Perm.mul_apply, fixed' place outside, fixed place outside]

theorem widen {start' stop' : Nat} (shuffled : Shuffled start stop before after)
    (first : start' ≤ start) (last : stop ≤ stop') : Shuffled start' stop' before after := by
  obtain ⟨moved, fixed, same⟩ := shuffled
  exact ⟨moved, fun place outside => fixed place (by omega), same⟩

theorem exchange (row : Nat → α) {place other : Nat} (first : start ≤ place) (last : place < stop)
    (first' : start ≤ other) (last' : other < stop) :
    Shuffled start stop row (row ∘ Equiv.swap place other) :=
  ⟨_, fun _ outside => Equiv.swap_apply_of_ne_of_ne (by omega) (by omega), rfl⟩

theorem outside (shuffled : Shuffled start stop before after) {place : Nat}
    (apart : place < start ∨ stop ≤ place) : after place = before place := by
  obtain ⟨moved, fixed, rfl⟩ := shuffled
  exact congrArg before (fixed place apart)

/-- What holds of all entries of the part that is shuffled holds of them afterwards. -/
theorem inside (shuffled : Shuffled start stop before after) (holds : α → Prop)
    (all : ∀ place, start ≤ place → place < stop → holds (before place)) {place : Nat}
    (first : start ≤ place) (last : place < stop) : holds (after place) := by
  obtain ⟨moved, fixed, rfl⟩ := shuffled
  by_cases stays : start ≤ moved place ∧ moved place < stop
  · exact all _ stays.1 stays.2
  · have same := moved.injective (fixed (moved place) (by omega))
    omega

/-- The entries up to any place behind the shuffled part are the same ones. -/
theorem perm (shuffled : Shuffled start stop before after) {count : Nat} (enough : stop ≤ count) :
    ((List.range count).map after).Perm ((List.range count).map before) := by
  obtain ⟨moved, fixed, rfl⟩ := shuffled
  have places : ((List.range count).map moved).Perm (List.range count) := by
    refine (List.perm_ext_iff_of_nodup (List.nodup_range.map moved.injective)
      List.nodup_range).mpr fun place => ?_
    simp only [List.mem_map, List.mem_range]
    constructor
    · rintro ⟨origin, within, rfl⟩
      by_contra beyond
      have same := moved.injective (fixed (moved origin) (by omega))
      omega
    · intro within
      refine ⟨moved.symm place, ?_, moved.apply_symm_apply place⟩
      by_contra beyond
      have same := fixed (moved.symm place) (by omega)
      rw [moved.apply_symm_apply] at same
      omega
  rw [← List.map_map]
  exact places.map before

end Shuffled

variable [LinearOrder β] {rank : α → β} {row : Nat → α} {pivot : β} {border place : Nat}

/-! ## Partition -/

/-- The part from `start` up to `stop` has the entries below a rank in front of a border, the others
behind it. -/
structure Parted (rank : α → β) (row : Nat → α) (pivot : β) (start border stop : Nat) : Prop where
  first : start ≤ border
  last : border ≤ stop
  below : ∀ place, start ≤ place → place < border → rank (row place) < pivot
  above : ∀ place, border ≤ place → place < stop → pivot ≤ rank (row place)

namespace Parted

theorem none (row : Nat → α) (pivot : β) (start : Nat) :
    Parted rank row pivot start start start :=
  ⟨le_rfl, le_rfl, fun _ _ _ => by omega, fun _ _ _ => by omega⟩

/-- An entry that is not below the rank stays where it is. -/
theorem keep (parted : Parted rank row pivot start border stop)
    (notBelow : pivot ≤ rank (row stop)) : Parted rank row pivot start border (stop + 1) := by
  refine ⟨parted.first, parted.last.trans (Nat.le_succ _), parted.below, fun place least most => ?_⟩
  rcases Nat.lt_succ_iff_lt_or_eq.mp most with within | rfl
  · exact parted.above place least within
  · exact notBelow

/-- An entry below the rank is exchanged with the first one behind the border. -/
theorem exchange (parted : Parted rank row pivot start border stop)
    (isBelow : rank (row stop) < pivot) :
    Parted rank (row ∘ Equiv.swap border stop) pivot start (border + 1) (stop + 1) := by
  have first := parted.first
  have last := parted.last
  refine ⟨by omega, by omega, fun place least most => ?_, fun place least most => ?_⟩
  · rcases Nat.lt_succ_iff_lt_or_eq.mp most with within | rfl
    · rw [Function.comp_apply, Equiv.swap_apply_of_ne_of_ne (by omega) (by omega)]
      exact parted.below place least within
    · rw [Function.comp_apply, Equiv.swap_apply_left]
      exact isBelow
  · rcases Nat.lt_succ_iff_lt_or_eq.mp most with within | rfl
    · rw [Function.comp_apply, Equiv.swap_apply_of_ne_of_ne (by omega) (by omega)]
      exact parted.above place (by omega) within
    · rw [Function.comp_apply, Equiv.swap_apply_right]
      exact parted.above border le_rfl (by omega)

end Parted

/-- One entry stands between the ones below it and the others. -/
structure Centered (rank : α → β) (row : Nat → α) (start center stop : Nat) : Prop where
  first : start ≤ center
  last : center < stop
  below : ∀ place, start ≤ place → place < center → rank (row place) < rank (row center)
  above : ∀ place, center < place → place < stop → rank (row center) ≤ rank (row place)

/-- The entry behind the parted ones is put at their border. -/
theorem Parted.center (parted : Parted rank row (rank (row stop)) start border stop) :
    Centered rank (row ∘ Equiv.swap border stop) start border (stop + 1) := by
  have first := parted.first
  have last := parted.last
  refine ⟨first, by omega, fun place least most => ?_, fun place least most => ?_⟩
  · rw [Function.comp_apply, Function.comp_apply, Equiv.swap_apply_left,
      Equiv.swap_apply_of_ne_of_ne (by omega) (by omega)]
    exact parted.below place least most
  · rw [Function.comp_apply, Function.comp_apply, Equiv.swap_apply_left]
    rcases Nat.lt_succ_iff_lt_or_eq.mp most with within | rfl
    · rw [Equiv.swap_apply_of_ne_of_ne (by omega) (by omega)]
      exact parted.above place least.le within
    · rw [Equiv.swap_apply_right]
      exact parted.above border le_rfl least

/-! ## Ordered parts -/

/-- The part from `start` up to `stop` is in ascending order. -/
def Ordered (rank : α → β) (row : Nat → α) (start stop : Nat) : Prop :=
  ∀ place other, start ≤ place → place ≤ other → other < stop → rank (row place) ≤ rank (row other)

namespace Ordered

theorem of_short (row : Nat → α) (short : stop ≤ start + 1) : Ordered rank row start stop := by
  intro place other least order most
  obtain rfl : place = other := by omega
  exact le_rfl

/-- Two ordered parts around an entry that stands between them are one ordered part. -/
theorem join {center : Nat} (centered : Centered rank before start center stop)
    (left : Shuffled start center before middle) (leftOrdered : Ordered rank middle start center)
    (right : Shuffled (center + 1) stop middle after)
    (rightOrdered : Ordered rank after (center + 1) stop) : Ordered rank after start stop := by
  have first := centered.first
  have last := centered.last
  have fixed : after center = before center := by
    rw [right.outside (by omega), left.outside (by omega)]
  have below : ∀ place, start ≤ place → place < center →
      rank (after place) ≤ rank (after center) := by
    intro place least most
    have lower : rank (middle place) < rank (before center) :=
      left.inside (fun entry => rank entry < rank (before center)) centered.below least most
    rw [fixed, right.outside (by omega)]
    exact lower.le
  have behind : ∀ place, center + 1 ≤ place → place < stop →
      rank (before center) ≤ rank (middle place) := by
    intro place least most
    rw [left.outside (by omega)]
    exact centered.above place least most
  have above : ∀ place, center < place → place < stop →
      rank (after center) ≤ rank (after place) := by
    intro place least most
    rw [fixed]
    exact right.inside (fun entry => rank (before center) ≤ rank entry) behind least most
  intro place other least order most
  rcases Nat.lt_trichotomy other center with front | rfl | back
  · rw [right.outside (by omega), right.outside (by omega)]
    exact leftOrdered place other least order front
  · rcases order.lt_or_eq with front | rfl
    · exact below place least front
    · exact le_rfl
  · rcases Nat.lt_trichotomy place center with front | rfl | back'
    · exact (below place least front).trans (above other back most)
    · exact above other back most
    · exact rightOrdered place other back' order most

end Ordered

end Fixity
