import Mathlib

/-!
Binary searches. `order index` compares what is searched with the item at an index: `.gt` if its
place is to the right of the item. A search narrows an interval outside of which the items are
known to be on one side; what it ends with is the place.
-/

namespace Search

/-- Along the indices the comparison falls from `.gt` over `.eq` to `.lt`. -/
structure Sloping (order : Nat → Ordering) (first stop : Nat) : Prop where
  lt : ∀ low high, first ≤ low → low < high → high < stop → order low = .lt → order high = .lt
  gt : ∀ low high, first ≤ low → low < high → high < stop → order high = .gt → order low = .gt

/-- What is searched is at the index, or belongs in front of it and is nowhere. -/
structure Located (order : Nat → Ordering) (first stop place : Nat) : Prop where
  lower : first ≤ place
  upper : place ≤ stop
  found : (place < stop ∧ order place = .eq) ∨
    ((∀ index, first ≤ index → index < place → order index = .gt) ∧
      ∀ index, place ≤ index → index < stop → order index = .lt)

/-- The items in front of `low` and those from `high` on are on the two sides. -/
structure Between (order : Nat → Ordering) (first stop low high : Nat) : Prop where
  lower : first ≤ low
  ordered : low ≤ high
  upper : high ≤ stop
  before : ∀ index, first ≤ index → index < low → order index = .gt
  after : ∀ index, high ≤ index → index < stop → order index = .lt

variable {order : Nat → Ordering} {first stop low high middle : Nat}

theorem Between.whole (bound : first ≤ stop) : Between order first stop first stop where
  lower := Nat.le_refl _
  ordered := bound
  upper := Nat.le_refl _
  before := fun _ _ _ => by omega
  after := fun _ _ _ => by omega

theorem Between.toLeft (between : Between order first stop low high)
    (sloping : Sloping order first stop) (above : low ≤ middle) (below : middle < high)
    (smaller : order middle = .lt) : Between order first stop low middle := by
  have lower := between.lower
  have upper := between.upper
  refine ⟨lower, above, by omega, between.before, ?_⟩
  intro index start bound
  rcases Nat.eq_or_lt_of_le start with same | beyond
  · rw [← same]
    exact smaller
  · exact sloping.lt middle index (by omega) beyond bound smaller

theorem Between.toRight (between : Between order first stop low high)
    (sloping : Sloping order first stop) (above : low ≤ middle) (below : middle < high)
    (larger : order middle = .gt) : Between order first stop (middle + 1) high := by
  have lower := between.lower
  have upper := between.upper
  refine ⟨by omega, by omega, upper, ?_, between.after⟩
  intro index start bound
  rcases Nat.eq_or_lt_of_le (Nat.le_of_lt_succ bound) with same | earlier
  · rw [same]
    exact larger
  · exact sloping.gt index middle start earlier (by omega) larger

theorem Between.hit (between : Between order first stop low high) (above : low ≤ middle)
    (below : middle < high) (equal : order middle = .eq) : Located order first stop middle := by
  have lower := between.lower
  have upper := between.upper
  exact ⟨by omega, by omega, Or.inl ⟨by omega, equal⟩⟩

theorem Between.closed (between : Between order first stop low low) :
    Located order first stop low :=
  ⟨between.lower, between.upper, Or.inr ⟨between.before, between.after⟩⟩

theorem Located.eq_iff {place : Nat} (located : Located order first stop place) :
    (place < stop ∧ order place = .eq) ↔ ∃ index, first ≤ index ∧ index < stop ∧ order index = .eq := by
  constructor
  · rintro ⟨bound, equal⟩
    exact ⟨place, located.lower, bound, equal⟩
  · rintro ⟨index, above, below, equal⟩
    rcases located.found with found | ⟨before, after⟩
    · exact found
    · rcases Nat.lt_or_ge index place with left | right
      · rw [before index above left] at equal
        cases equal
      · rw [after index right below] at equal
        cases equal

end Search
