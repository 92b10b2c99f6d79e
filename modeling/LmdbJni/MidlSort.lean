import LmdbJni.MidlCore
import Mathlib.Tactic.Ring
import Mathlib.Tactic.Tauto
import Mathlib.Data.List.Sort

/-!
`mdb_midl_sort` sorts. The ranges that are still to be sorted, the one at hand and those on
`istack`, are apart from each other, and two IDs that are not in one of them are in order. A range
is at most as wide as the list halved once for each range below it on the stack, so that the stack
never overflows.
-/

namespace LmdbJni

open Cells

def Descending (ids : Block Nat) (lower upper : Nat) : Prop :=
  ∀ first second, lower ≤ first → first < second → second ≤ upper →
    ids.cell second ≤ ids.cell first

/-! The insertion sort. -/

theorem shiftDown_spec (a : Nat) : ∀ i (ids : Block Nat), i + 1 < ids.size →
    ∃ stop after, shiftDown a i ids = some (stop, after) ∧ stop ≤ i ∧
      (∀ k, stop < k → k ≤ i → ids.cell k < a) ∧ (stop = 0 ∨ a ≤ ids.cell stop) ∧
      (∀ k, after.cell k =
        if stop + 2 ≤ k ∧ k ≤ i + 1 then ids.cell (k - 1) else ids.cell k) ∧
      Shuffled (stop + 1) (i + 1) (ids.put (i + 1) a) (after.put (stop + 1) a) := by
  intro i
  induction i with
  | zero =>
      intro ids inside
      refine ⟨0, ids, rfl, Nat.le_refl 0, fun k _ _ => by omega, Or.inl rfl, ?_, ?_⟩
      · intro k
        rw [if_neg (by omega)]
      · exact Shuffled.refl _ _ _
  | succ i ih =>
      intro ids inside
      by_cases stops : a ≤ ids.cell (i + 1)
      · refine ⟨i + 1, ids, ?_, Nat.le_refl _, fun k _ _ => by omega, Or.inr stops, ?_, ?_⟩
        · simp only [shiftDown, ids.get_inside (by omega : i + 1 < ids.size), Option.bind_eq_bind,
            Option.bind_some, if_pos stops, Option.pure_def]
        · intro k
          rw [if_neg (by omega)]
        · exact Shuffled.refl _ _ _
      · obtain ⟨stop, after, ran, bound, smaller, stopped, cells, shuffled⟩ :=
          ih (ids.put (i + 2) (ids.cell (i + 1))) (by simpa using by omega)
        have kept : ∀ k, k ≤ i + 1 →
            (ids.put (i + 2) (ids.cell (i + 1))).cell k = ids.cell k :=
          fun k below => ids.put_cell_other (by omega) _
        refine ⟨stop, after, ?_, by omega, ?_, ?_, ?_, ?_⟩
        · simp only [shiftDown, ids.get_inside (by omega : i + 1 < ids.size), Option.bind_eq_bind,
            Option.bind_some, if_neg stops, ids.set_inside (by omega : i + 2 < ids.size)]
          exact ran
        · intro k above below
          rcases Nat.lt_or_ge i k with last | earlier
          · have : k = i + 1 := by omega
            subst this
            omega
          · rw [← kept k (by omega)]
            exact smaller k above earlier
        · rwa [kept stop (by omega)] at stopped
        · intro k
          rw [cells, Block.put_cell, Block.put_cell]
          split_ifs <;> first | rfl | omega | (congr 1; omega)
        · have swapped : Shuffled (stop + 1) (i + 2) (ids.put (i + 2) a)
              ((ids.put (i + 2) (ids.cell (i + 1))).put (i + 1) a) := by
            have exchange := Shuffled.swap (by omega : stop + 1 ≤ i + 1)
              (by omega : i + 1 ≤ i + 2) (by omega : stop + 1 ≤ i + 2) (Nat.le_refl (i + 2))
              (ids.put (i + 2) a)
            rwa [Block.put_cell_same, Block.put_cell_other _ (by omega : i + 1 ≠ i + 2),
              Block.put_comm _ (by omega : i + 2 ≠ i + 1), Block.put_comm _ (by omega : i + 1 ≠ i + 2),
              Block.put_comm _ (by omega : i + 1 ≠ i + 2), Block.put_put] at exchange
          exact swapped.trans (shuffled.widen (Nat.le_refl _) (by omega))

/-- What storing `ids[j]` in front of the smaller IDs before it does. -/
theorem insertAt_spec {ids : Block Nat} {j : Nat} (positive : 1 ≤ j) (inside : j < ids.size) :
    ∃ stop after, insertAt ids j = some after ∧ stop < j ∧
      (∀ k, stop < k → k < j → ids.cell k < ids.cell j) ∧
      (stop = 0 ∨ ids.cell j ≤ ids.cell stop) ∧
      (∀ k, after.cell k = if k = stop + 1 then ids.cell j
        else if stop + 2 ≤ k ∧ k ≤ j then ids.cell (k - 1) else ids.cell k) ∧
      Shuffled (stop + 1) j ids after := by
  obtain ⟨i, rfl⟩ : ∃ i, j = i + 1 := ⟨j - 1, by omega⟩
  obtain ⟨stop, after, ran, bound, smaller, stopped, cells, shuffled⟩ :=
    shiftDown_spec (ids.cell (i + 1)) i ids inside
  rw [Block.put_self] at shuffled
  have sameSize : after.size = ids.size := shuffled.size
  refine ⟨stop, after.put (stop + 1) (ids.cell (i + 1)), ?_, by omega, ?_, stopped, ?_, shuffled⟩
  · simp only [insertAt, ids.get_inside inside, Option.bind_eq_bind, Option.bind_some,
      Nat.add_sub_cancel, ran]
    exact after.set_inside (by omega) _
  · intro k above below
    exact smaller k above (by omega)
  · intro k
    rw [Block.put_cell, cells]

theorem insertAt_descending {ids : Block Nat} {l j : Nat} (positive : 1 ≤ l) (above : l ≤ j)
    (inside : j < ids.size) (sorted : Descending ids l (j - 1))
    (floor : l = 1 ∨ ids.cell j ≤ ids.cell (l - 1)) :
    ∃ after, insertAt ids j = some after ∧ Shuffled l j ids after ∧ Descending after l j := by
  obtain ⟨stop, after, ran, bound, smaller, stopped, cells, shuffled⟩ :=
    insertAt_spec (by omega : 1 ≤ j) inside
  have stops : l ≤ stop + 1 := by
    by_contra early
    have below := smaller (l - 1) (by omega) (by omega)
    omega
  have larger : ∀ k, l ≤ k → k ≤ stop → ids.cell j ≤ ids.cell k := by
    intro k lower upper
    rcases Nat.lt_or_ge k stop with before | last
    · have order := sorted k stop lower before (by omega)
      omega
    · have : k = stop := by omega
      subst this
      omega
  refine ⟨after, ran, shuffled.widen stops (Nat.le_refl j), ?_⟩
  intro first second lower between upper
  rw [cells first, cells second]
  have order := sorted first second lower between
  have orderSecond := sorted first (second - 1) lower
  have orderBoth := sorted (first - 1) (second - 1)
  have firstLarger := larger first lower
  have secondSmaller := smaller (second - 1)
  split_ifs <;> omega

theorem insertionSort_spec {l : Nat} (positive : 1 ≤ l) : ∀ rounds j (ids : Block Nat),
    l ≤ j → j + rounds ≤ ids.size → Descending ids l (j - 1) →
    (l = 1 ∨ ∀ k, l ≤ k → k < j + rounds → ids.cell k ≤ ids.cell (l - 1)) →
    ∃ after, insertionSort rounds j ids = some after ∧ Shuffled l (j + rounds - 1) ids after ∧
      Descending after l (j + rounds - 1) := by
  intro rounds
  induction rounds with
  | zero =>
      intro j ids above inside sorted floor
      exact ⟨ids, rfl, Shuffled.refl _ _ _, sorted⟩
  | succ rounds ih =>
      intro j ids above inside sorted floor
      obtain ⟨next, inserted, shuffled, descending⟩ := insertAt_descending positive above
        (by omega : j < ids.size) sorted (floor.imp_right fun floor => floor j above (by omega))
      have sameSize := shuffled.size
      have floorNext : l = 1 ∨ ∀ k, l ≤ k → k < j + 1 + rounds →
          next.cell k ≤ next.cell (l - 1) := by
        refine floor.imp_right ?_
        intro floor k lower upper
        rw [shuffled.outside (Or.inl (by omega) : l - 1 < l ∨ j < l - 1)]
        rcases Nat.lt_or_ge j k with beyond | within
        · rw [shuffled.outside (Or.inr beyond)]
          exact floor k lower (by omega)
        · obtain ⟨source, sourceLower, sourceUpper, same⟩ := shuffled.inside lower within
          rw [same]
          exact floor source sourceLower (by omega)
      obtain ⟨after, ran, shuffledRest, sortedRest⟩ :=
        ih (j + 1) next (by omega) (by omega) descending floorNext
      refine ⟨after, ?_, ?_, ?_⟩
      · simp only [insertionSort, inserted, Option.bind_eq_bind, Option.bind_some, ran]
      · refine (shuffled.widen (Nat.le_refl l) (by omega)).trans ?_
        exact shuffledRest.widen (Nat.le_refl l) (by omega)
      · intro first second lower between upper
        exact sortedRest first second lower between (by omega)

/-! The partitioning. -/

theorem scanUp_spec {ids : Block Nat} {a : Nat} : ∀ fuel i guardian, i < guardian →
    guardian < ids.size → ids.cell guardian ≤ a → guardian ≤ i + fuel →
    ∃ stop, scanUp ids a fuel i = some stop ∧ i < stop ∧ stop ≤ guardian ∧
      ids.cell stop ≤ a ∧ ∀ k, i < k → k < stop → a < ids.cell k := by
  intro fuel
  induction fuel with
  | zero => intro i guardian above inside small enough; omega
  | succ fuel ih =>
      intro i guardian above inside small enough
      have read := ids.get_inside (by omega : i + 1 < ids.size)
      by_cases larger : a < ids.cell (i + 1)
      · have different : guardian ≠ i + 1 := by
          rintro rfl
          omega
        obtain ⟨stop, ran, beyond, bound, stopped, passed⟩ :=
          ih (i + 1) guardian (by omega) inside small (by omega)
        refine ⟨stop, ?_, by omega, bound, stopped, ?_⟩
        · simp only [scanUp, read, Option.bind_eq_bind, Option.bind_some, if_pos larger, ran]
        · intro k lower upper
          rcases Nat.lt_or_ge (i + 1) k with later | first
          · exact passed k later upper
          · have : k = i + 1 := by omega
            subst this
            exact larger
      · refine ⟨i + 1, ?_, by omega, by omega, by omega, fun k _ _ => by omega⟩
        simp only [scanUp, read, Option.bind_eq_bind, Option.bind_some, if_neg larger,
          Option.pure_def]

theorem scanDown_spec {ids : Block Nat} {a guardian : Nat} (large : a ≤ ids.cell guardian) :
    ∀ j, guardian < j → j ≤ ids.size →
    ∃ stop, scanDown ids a j = some stop ∧ stop < j ∧ guardian ≤ stop ∧
      a ≤ ids.cell stop ∧ ∀ k, stop < k → k < j → ids.cell k < a := by
  intro j
  induction j with
  | zero => intro below inside; omega
  | succ j ih =>
      intro below inside
      have read := ids.get_inside (by omega : j < ids.size)
      by_cases smaller : ids.cell j < a
      · have different : guardian ≠ j := by
          rintro rfl
          omega
        obtain ⟨stop, ran, before, bound, stopped, passed⟩ := ih (by omega) (by omega)
        refine ⟨stop, ?_, by omega, bound, stopped, ?_⟩
        · simp only [scanDown, read, Option.bind_eq_bind, Option.bind_some, if_pos smaller, ran]
        · intro k lower upper
          rcases Nat.lt_or_ge k j with earlier | first
          · exact passed k lower earlier
          · have : k = j := by omega
            subst this
            exact smaller
      · refine ⟨j, ?_, by omega, by omega, by omega, fun k _ _ => by omega⟩
        simp only [scanDown, read, Option.bind_eq_bind, Option.bind_some, if_neg smaller,
          Option.pure_def]

/-- The IDs from `l` to `i` are not below the pivot, those from `j` to `ir` not above it. -/
structure Parted (ids : Block Nat) (a l ir i j : Nat) : Prop where
  left : ∀ k, l ≤ k → k ≤ i → a ≤ ids.cell k
  right : ∀ k, j ≤ k → k ≤ ir → ids.cell k ≤ a

theorem exchangeLoop_spec {a l ir : Nat} : ∀ fuel i j (ids : Block Nat), l + 1 ≤ i → i ≤ j →
    j ≤ ir → ir < ids.size → (i = j → l + 2 ≤ i ∧ j < ir) → j < fuel → Parted ids a l ir i j →
    ∃ stop pivot after, exchangeLoop a fuel i j ids = some (stop, pivot, after) ∧
      l + 1 ≤ pivot ∧ pivot < stop ∧ stop ≤ ir ∧ Shuffled (l + 2) ir ids after ∧
      Parted after a l ir (stop - 1) (pivot + 1) := by
  intro fuel
  induction fuel with
  | zero => intro i j ids _ _ _ _ _ enough; omega
  | succ fuel ih =>
      intro i j ids above order below inside meet enough parted
      obtain ⟨up, upLower, upUpper, upSmall⟩ :
          ∃ up, i < up ∧ up ≤ ir ∧ ids.cell up ≤ a := by
        rcases Nat.lt_or_eq_of_le order with apart | same
        · exact ⟨j, apart, below, parted.right j (Nat.le_refl j) below⟩
        · obtain ⟨-, room⟩ := meet same
          exact ⟨j + 1, by omega, by omega, parted.right (j + 1) (by omega) (by omega)⟩
      obtain ⟨down, downLower, downUpper, downLarge⟩ :
          ∃ down, l + 1 ≤ down ∧ down < j ∧ a ≤ ids.cell down := by
        rcases Nat.lt_or_eq_of_le order with apart | same
        · exact ⟨i, above, apart, parted.left i (by omega) (Nat.le_refl i)⟩
        · obtain ⟨room, -⟩ := meet same
          exact ⟨i - 1, by omega, by omega, parted.left (i - 1) (by omega) (by omega)⟩
      obtain ⟨i', ranUp, afterI, beforeUp, smallAt, passedUp⟩ :=
        scanUp_spec ids.size i up upLower (by omega) upSmall (by omega)
      obtain ⟨j', ranDown, beforeJ, afterDown, largeAt, passedDown⟩ :=
        scanDown_spec downLarge j downUpper (by omega)
      by_cases crossed : j' < i'
      · refine ⟨i', j', ids, ?_, by omega, crossed, by omega, Shuffled.refl _ _ _, ?_, ?_⟩
        · simp only [exchangeLoop, ranUp, ranDown, Option.bind_eq_bind, Option.bind_some,
            if_pos crossed, Option.pure_def]
        · intro k lower upper
          rcases Nat.lt_or_ge i k with scanned | known
          · exact Nat.le_of_lt (passedUp k scanned (by omega))
          · exact parted.left k lower known
        · intro k lower upper
          rcases Nat.lt_or_ge k j with scanned | known
          · exact Nat.le_of_lt (passedDown k (by omega) scanned)
          · exact parted.right k known upper
      · have swapped := Shuffled.swap (by omega : l + 2 ≤ i') (by omega : i' ≤ ir)
          (by omega : l + 2 ≤ j') (by omega : j' ≤ ir) ids
        have ranSwap := ids.swap_inside (by omega : i' < ids.size) (by omega : j' < ids.size)
        generalize next_eq :
          (ids.put i' (ids.cell j')).put j' (ids.cell i') = next at swapped ranSwap
        have nextParted : Parted next a l ir i' j' := by
          subst next_eq
          constructor
          · intro k lower upper
            have scanned := passedUp k
            have known := parted.left k lower
            simp only [Block.put_cell]
            split_ifs with atJ atI
            · have : i' = j' := by omega
              subst this
              exact largeAt
            · exact largeAt
            · omega
          · intro k lower upper
            have scanned := passedDown k
            have known := parted.right k
            simp only [Block.put_cell]
            split_ifs with atJ atI
            · exact smallAt
            · have : i' = j' := by omega
              subst this
              exact smallAt
            · omega
        have sameSize := swapped.size
        obtain ⟨stop, pivot, after, ran, pivotLower, apart, stopUpper, shuffled, result⟩ :=
          ih i' j' next (by omega) (by omega) (by omega) (by omega) (by omega) (by omega) nextParted
        refine ⟨stop, pivot, after, ?_, pivotLower, apart, stopUpper, swapped.trans shuffled,
          result⟩
        simp only [exchangeLoop, ranUp, ranDown, Option.bind_eq_bind, Option.bind_some,
          if_neg crossed, ranSwap, ran]

theorem orderPair_spec {ids : Block Nat} {lower upper first second : Nat}
    (firstLower : lower ≤ first) (firstUpper : first ≤ upper) (secondLower : lower ≤ second)
    (secondUpper : second ≤ upper) (inside : upper < ids.size) (different : first ≠ second) :
    ∃ after, orderPair ids first second = some after ∧ Shuffled lower upper ids after ∧
      after.cell first = max (ids.cell first) (ids.cell second) ∧
      after.cell second = min (ids.cell first) (ids.cell second) ∧
      ∀ k, k ≠ first → k ≠ second → after.cell k = ids.cell k := by
  have firstRead := ids.get_inside (by omega : first < ids.size)
  have secondRead := ids.get_inside (by omega : second < ids.size)
  by_cases smaller : ids.cell first < ids.cell second
  · refine ⟨_, ?_, Shuffled.swap firstLower firstUpper secondLower secondUpper ids, ?_, ?_, ?_⟩
    · simp only [orderPair, firstRead, secondRead, Option.bind_eq_bind, Option.bind_some,
        if_pos smaller, ids.swap_inside (by omega : first < ids.size) (by omega : second < ids.size)]
    · rw [Block.put_cell_other _ different, Block.put_cell_same]
      omega
    · rw [Block.put_cell_same]
      omega
    · intro k notFirst notSecond
      rw [Block.put_cell_other _ notSecond, Block.put_cell_other _ notFirst]
  · refine ⟨ids, ?_, Shuffled.refl _ _ _, by omega, by omega, fun _ _ _ => rfl⟩
    simp only [orderPair, firstRead, secondRead, Option.bind_eq_bind, Option.bind_some,
      if_neg smaller, Option.pure_def]

theorem medianOfThree_spec {ids : Block Nat} {l ir : Nat} (wide : l + 2 ≤ ir)
    (inside : ir < ids.size) :
    ∃ after, medianOfThree ids l ir = some after ∧ Shuffled l ir ids after ∧
      after.cell (l + 1) ≤ after.cell l ∧ after.cell ir ≤ after.cell (l + 1) := by
  have center : l ≤ (l + ir) / 2 ∧ (l + ir) / 2 ≤ ir := by omega
  have moved := Shuffled.swap center.1 center.2 (by omega : l ≤ l + 1) (by omega : l + 1 ≤ ir) ids
  have ranSwap := ids.swap_inside (by omega : (l + ir) / 2 < ids.size)
    (by omega : l + 1 < ids.size)
  generalize (ids.put ((l + ir) / 2) (ids.cell (l + 1))).put (l + 1) (ids.cell ((l + ir) / 2)) =
    first at moved ranSwap
  have firstSize := moved.size
  obtain ⟨second, ranSecond, shuffledSecond, secondLeft, secondRight, secondRest⟩ :=
    orderPair_spec (Nat.le_refl l) (by omega : l ≤ ir) (by omega : l ≤ ir) (Nat.le_refl ir)
      (by omega : ir < first.size) (by omega)
  have secondSize := shuffledSecond.size
  obtain ⟨third, ranThird, shuffledThird, thirdLeft, thirdRight, thirdRest⟩ :=
    orderPair_spec (by omega : l ≤ l + 1) (by omega : l + 1 ≤ ir) (by omega : l ≤ ir)
      (Nat.le_refl ir) (by omega : ir < second.size) (by omega)
  have thirdSize := shuffledThird.size
  obtain ⟨after, ranAfter, shuffledAfter, afterLeft, afterRight, afterRest⟩ :=
    orderPair_spec (Nat.le_refl l) (by omega : l ≤ ir) (by omega : l ≤ l + 1)
      (by omega : l + 1 ≤ ir) (by omega : ir < third.size) (by omega)
  refine ⟨after, ?_, ?_, by omega, ?_⟩
  · simp only [medianOfThree, ranSwap, ranSecond, ranThird, ranAfter, Option.bind_eq_bind,
      Option.bind_some]
  · exact ((moved.trans shuffledSecond).trans shuffledThird).trans shuffledAfter
  · have leftKept := thirdRest l (by omega) (by omega)
    have rightKept := afterRest ir (by omega) (by omega)
    omega

/-- After the partitioning the IDs before the pivot are not below it, those up to the right part
are equal to it, and those of the right part are not above it. -/
theorem partitionIds_spec {ids : Block Nat} {l ir : Nat} (wide : l + sortSmall ≤ ir)
    (inside : ir < ids.size) :
    ∃ i j a after, partitionIds ids l ir = some (i, j, after) ∧ l + 1 ≤ j ∧ j < i ∧ i ≤ ir ∧
      Shuffled l ir ids after ∧ Parted after a l ir (i - 1) j := by
  unfold sortSmall at wide
  obtain ⟨first, ranMedian, shuffledFirst, left, right⟩ :=
    medianOfThree_spec (by omega : l + 2 ≤ ir) inside
  have firstSize := shuffledFirst.size
  generalize pivot_eq : first.cell (l + 1) = a at left right
  have parted : Parted first a l ir (l + 1) ir := by
    constructor
    · intro k lower upper
      rcases Nat.lt_or_ge k (l + 1) with same | same
      · have : k = l := by omega
        subst this
        exact left
      · have : k = l + 1 := by omega
        subst this
        exact Nat.le_of_eq pivot_eq.symm
    · intro k lower upper
      have : k = ir := by omega
      subst this
      exact right
  obtain ⟨i, j, second, ranExchange, lower, apart, upper, shuffledSecond, result⟩ :=
    exchangeLoop_spec first.size (l + 1) ir first (Nat.le_refl _) (by omega) (Nat.le_refl _)
      (by omega) (by omega) (by omega) parted
  have secondSize := shuffledSecond.size
  have pivotKept : second.cell (l + 1) = a := by
    rw [shuffledSecond.outside (Or.inl (by omega)), pivot_eq]
  have swapped := Shuffled.swap (by omega : l ≤ l + 1) (by omega : l + 1 ≤ ir)
    (by omega : l ≤ j) (by omega : j ≤ ir) second
  rw [pivotKept] at swapped
  refine ⟨i, j, a, (second.put (l + 1) (second.cell j)).put j a, ?_, lower, apart, upper, ?_, ?_, ?_⟩
  · have stored : j < (second.put (l + 1) (second.cell j)).size := by simpa using by omega
    simp only [partitionIds, ranMedian, Option.bind_eq_bind, Option.bind_some, pivot_eq,
      first.get_inside (by omega : l + 1 < first.size), ranExchange,
      second.get_inside (by omega : j < second.size),
      second.set_inside (by omega : l + 1 < second.size), Block.set_inside _ stored,
      Option.pure_def]
  · exact (shuffledFirst.trans (shuffledSecond.widen (by omega) (Nat.le_refl ir))).trans swapped
  · intro k above below
    have known := result.left k above below
    have knownAtJ := result.left j (by omega) (by omega)
    simp only [Block.put_cell]
    split_ifs <;> omega
  · intro k above below
    have known := result.right k
    simp only [Block.put_cell]
    split_ifs <;> omega

/-! The ranges that are still to be sorted, the one at hand first. -/

structure Unsorted (ids : Block Nat) (n : Nat) (ranges : List (Nat × Nat)) : Prop where
  within : ∀ range ∈ ranges, 1 ≤ range.1 ∧ range.2 ≤ n
  apart : ranges.Pairwise fun first second => first.2 < second.1 ∨ second.2 < first.1
  settled : ∀ first second, 1 ≤ first → first < second → second ≤ n →
    ids.cell second ≤ ids.cell first ∨
      ∃ range ∈ ranges, range.1 ≤ first ∧ second ≤ range.2

namespace Unsorted

variable {ids after : Block Nat} {n l ir : Nat} {rest : List (Nat × Nat)}

theorem whole (ids : Block Nat) (n : Nat) : Unsorted ids n [(1, n)] where
  within := by simp
  apart := List.pairwise_singleton _ _
  settled := fun _ _ lower _ upper => Or.inr ⟨(1, n), List.mem_singleton.mpr rfl, lower, upper⟩

theorem bounds (unsorted : Unsorted ids n ((l, ir) :: rest)) : 1 ≤ l ∧ ir ≤ n :=
  unsorted.within _ List.mem_cons_self

theorem outside (unsorted : Unsorted ids n ((l, ir) :: rest)) {range : Nat × Nat}
    (member : range ∈ rest) : ir < range.1 ∨ range.2 < l :=
  (List.pairwise_cons.mp unsorted.apart).1 range member

/-- IDs of the range at hand are not above the ID in front of it. -/
theorem floor (unsorted : Unsorted ids n ((l, ir) :: rest)) :
    l = 1 ∨ ∀ k, l ≤ k → k ≤ ir → ids.cell k ≤ ids.cell (l - 1) := by
  obtain ⟨lower, upper⟩ := unsorted.bounds
  rcases Nat.eq_or_lt_of_le lower with first | inner
  · exact Or.inl first.symm
  · refine Or.inr ?_
    intro k above below
    rcases unsorted.settled (l - 1) k (by omega) (by omega) (by omega) with ordered | common
    · exact ordered
    · obtain ⟨range, member, start, stop⟩ := common
      rcases List.mem_cons.mp member with rfl | other
      · dsimp only at start
        omega
      · have apart := unsorted.outside other
        omega

/-- The range at hand has been permuted and is now in order up to the ranges `parts`. -/
theorem refine (parts : List (Nat × Nat)) (unsorted : Unsorted ids n ((l, ir) :: rest))
    (shuffled : Shuffled l ir ids after)
    (within : ∀ part ∈ parts, l ≤ part.1 ∧ part.2 ≤ ir)
    (apart : parts.Pairwise fun first second => first.2 < second.1 ∨ second.2 < first.1)
    (settled : ∀ first second, l ≤ first → first < second → second ≤ ir →
      after.cell second ≤ after.cell first ∨
        ∃ part ∈ parts, part.1 ≤ first ∧ second ≤ part.2) :
    Unsorted after n (parts ++ rest) := by
  obtain ⟨lower, upper⟩ := unsorted.bounds
  obtain ⟨-, apartRest⟩ := List.pairwise_cons.mp unsorted.apart
  refine ⟨?_, List.pairwise_append.mpr ⟨apart, apartRest, ?_⟩, ?_⟩
  · intro range member
    rcases List.mem_append.mp member with part | other
    · have inside := within range part
      omega
    · exact unsorted.within range (List.mem_cons_of_mem _ other)
  · intro part partMember range member
    have inside := within part partMember
    have beside := unsorted.outside member
    omega
  · intro first second above between below
    have source : ∀ index, ∃ origin, after.cell index = ids.cell origin ∧
        (l ≤ index ∧ index ≤ ir ∧ l ≤ origin ∧ origin ≤ ir ∨
          (index < l ∨ ir < index) ∧ origin = index) := by
      intro index
      by_cases out : index < l ∨ ir < index
      · exact ⟨index, shuffled.outside out, Or.inr ⟨out, rfl⟩⟩
      · obtain ⟨origin, originLower, originUpper, same⟩ :=
          shuffled.inside (by omega : l ≤ index) (by omega)
        exact ⟨origin, same, Or.inl ⟨by omega, by omega, originLower, originUpper⟩⟩
    by_cases inside : l ≤ first ∧ second ≤ ir
    · refine (settled first second inside.1 between inside.2).imp_right ?_
      rintro ⟨part, member, start, stop⟩
      exact ⟨part, List.mem_append_left _ member, start, stop⟩
    · obtain ⟨firstOrigin, firstSame, firstPlace⟩ := source first
      obtain ⟨secondOrigin, secondSame, secondPlace⟩ := source second
      rw [firstSame, secondSame]
      refine (unsorted.settled firstOrigin secondOrigin (by omega) (by omega) (by omega)).imp_right ?_
      rintro ⟨range, member, start, stop⟩
      rcases List.mem_cons.mp member with rfl | other
      · dsimp only at start stop
        omega
      · have beside := unsorted.outside other
        exact ⟨range, List.mem_append_right _ other, by omega, by omega⟩

theorem descending (unsorted : Unsorted ids n []) : Descending ids 1 n := by
  intro first second lower between upper
  rcases unsorted.settled first second lower between upper with ordered | ⟨range, member, _⟩
  · exact ordered
  · cases member

end Unsorted

def width (range : Nat × Nat) : Nat := range.2 + 1 - range.1

/-- A range is as wide as the list halved for each range below it, or narrower. -/
def Narrow (n : Nat) : List (Nat × Nat) → Prop
  | [] => True
  | range :: rest => width range * 2 ^ rest.length ≤ n ∧ Narrow n rest

def work (ranges : List (Nat × Nat)) : Nat := (ranges.map fun range => 2 * width range + 1).sum

@[simp] theorem work_cons (range : Nat × Nat) (rest : List (Nat × Nat)) :
    work (range :: rest) = 2 * width range + 1 + work rest := by
  simp [work]

theorem Narrow.split {n : Nat} {range small large : Nat × Nat} {rest : List (Nat × Nat)}
    (narrow : Narrow n (range :: rest)) (smaller : width small ≤ width large)
    (both : width small + width large ≤ width range) :
    Narrow n (small :: large :: rest) := by
  obtain ⟨bound, below⟩ := narrow
  refine ⟨?_, ?_, below⟩
  · calc width small * 2 ^ (rest.length + 1) = (width small * 2) * 2 ^ rest.length := by ring
      _ ≤ width range * 2 ^ rest.length := Nat.mul_le_mul_right _ (by omega)
      _ ≤ n := bound
  · exact (Nat.mul_le_mul_right _ (by omega)).trans bound

/-- With a range that is not small at hand there is room for another one on `istack`. -/
theorem Narrow.room {n l ir : Nat} {rest : List (Nat × Nat)} (narrow : Narrow n ((l, ir) :: rest))
    (wide : l + sortSmall ≤ ir) (bound : n < 2 ^ 30) : 2 * rest.length + 2 < istackSize := by
  have product : 2 ^ rest.length < 2 ^ 30 := by
    have positive : 1 ≤ width (l, ir) := by
      unfold width
      dsimp only
      omega
    calc 2 ^ rest.length = 1 * 2 ^ rest.length := (Nat.one_mul _).symm
      _ ≤ width (l, ir) * 2 ^ rest.length := Nat.mul_le_mul_right _ positive
      _ ≤ n := narrow.1
      _ < 2 ^ 30 := bound
  have short : rest.length < 30 := (Nat.pow_lt_pow_iff_right (by omega)).mp product
  unfold istackSize
  omega

theorem insertionSort_range {ids : Block Nat} {n l ir : Nat} {rest : List (Nat × Nat)}
    (unsorted : Unsorted ids n ((l, ir) :: rest)) (inside : n < ids.size) :
    ∃ after, insertionSort (ir - l) (l + 1) ids = some after ∧ Shuffled l ir ids after ∧
      Unsorted after n rest := by
  obtain ⟨lower, upper⟩ := unsorted.bounds
  obtain ⟨after, ran, shuffled, sorted⟩ : ∃ after,
      insertionSort (ir - l) (l + 1) ids = some after ∧ Shuffled l ir ids after ∧
        Descending after l ir := by
    by_cases narrow : ir ≤ l
    · refine ⟨ids, ?_, Shuffled.refl _ _ _, fun _ _ _ _ _ => by omega⟩
      rw [Nat.sub_eq_zero_of_le narrow]
      rfl
    · have last : l + 1 + (ir - l) - 1 = ir := by omega
      have spec := insertionSort_spec lower (ir - l) (l + 1) ids (by omega) (by omega)
        (fun _ _ _ _ _ => by omega)
        (unsorted.floor.imp_right fun floor k above below => floor k above (by omega))
      rwa [last] at spec
  refine ⟨after, ran, shuffled, ?_⟩
  have refined := unsorted.refine [] shuffled (by simp) List.Pairwise.nil
    fun first second above between below => Or.inl (sorted first second above between below)
  exact refined

theorem partitionIds_ranges {ids : Block Nat} {n l ir : Nat} {rest : List (Nat × Nat)}
    (unsorted : Unsorted ids n ((l, ir) :: rest)) (inside : n < ids.size)
    (wide : l + sortSmall ≤ ir) :
    ∃ i j after, partitionIds ids l ir = some (i, j, after) ∧ l + 1 ≤ j ∧ j < i ∧ i ≤ ir ∧
      Shuffled l ir ids after ∧ Unsorted after n ((l, j - 1) :: (i, ir) :: rest) ∧
      Unsorted after n ((i, ir) :: (l, j - 1) :: rest) := by
  obtain ⟨-, upper⟩ := unsorted.bounds
  obtain ⟨i, j, a, after, ran, lower, apart, below, shuffled, parted⟩ :=
    partitionIds_spec wide (by omega : ir < ids.size)
  have settled : ∀ first second, l ≤ first → first < second → second ≤ ir →
      after.cell second ≤ after.cell first ∨ (l ≤ first ∧ second ≤ j - 1) ∨
        (i ≤ first ∧ second ≤ ir) := by
    intro first second above between under
    have left := parted.left first above
    have right := parted.right second
    omega
  refine ⟨i, j, after, ran, lower, apart, below, shuffled, ?_, ?_⟩
  · refine unsorted.refine [(l, j - 1), (i, ir)] shuffled ?_ ?_ ?_
    · simp
      omega
    · simp
      omega
    · intro first second above between under
      simpa using settled first second above between under
  · refine unsorted.refine [(i, ir), (l, j - 1)] shuffled ?_ ?_ ?_
    · simp
      omega
    · simp
      omega
    · intro first second above between under
      have cases := settled first second above between under
      simp only [List.mem_cons, List.not_mem_nil, or_false, exists_eq_or_imp, exists_eq_left]
      tauto

theorem sortLoop_spec {n : Nat} (bound : n < 2 ^ 30) : ∀ fuel l ir istack (ids : Block Nat),
    n < ids.size → Unsorted ids n ((l, ir) :: istack) → Narrow n ((l, ir) :: istack) →
    work ((l, ir) :: istack) ≤ fuel →
    ∃ after, sortLoop fuel l ir istack ids = some after ∧ Shuffled 1 n ids after ∧
      Descending after 1 n := by
  intro fuel
  induction fuel with
  | zero =>
      intro l ir istack ids inside unsorted narrow enough
      simp at enough
  | succ fuel ih =>
      intro l ir istack ids inside unsorted narrow enough
      obtain ⟨lower, upper⟩ := unsorted.bounds
      rw [work_cons] at enough
      by_cases small : ir < l + sortSmall
      · obtain ⟨next, ran, shuffled, left⟩ := insertionSort_range unsorted inside
        have shuffledAll := shuffled.widen lower upper
        have sameSize := shuffled.size
        cases istack with
        | nil =>
            refine ⟨next, ?_, shuffledAll, left.descending⟩
            simp only [sortLoop, if_pos small, ran, Option.bind_eq_bind, Option.bind_some,
              Option.pure_def]
        | cons range rest =>
            obtain ⟨start, stop⟩ := range
            obtain ⟨after, ranRest, shuffledRest, sorted⟩ :=
              ih start stop rest next (by omega) left narrow.2 (by omega)
            refine ⟨after, ?_, shuffledAll.trans shuffledRest, sorted⟩
            simp only [sortLoop, if_pos small, ran, Option.bind_eq_bind, Option.bind_some, ranRest]
      · have wide : l + sortSmall ≤ ir := by omega
        have room := narrow.room wide bound
        obtain ⟨i, j, next, ran, pivot, apart, below, shuffled, leftFirst, rightFirst⟩ :=
          partitionIds_ranges unsorted inside wide
        have shuffledAll := shuffled.widen lower upper
        have sameSize := shuffled.size
        have sums : width (l, j - 1) + width (i, ir) < width (l, ir) := by
          unfold width
          dsimp only
          omega
        have noOverflow : l + ir < 2 ^ 31 := by omega
        by_cases leftSmaller : j - l ≤ ir + 1 - i
        · have smaller : width (l, j - 1) ≤ width (i, ir) := by
            unfold width
            dsimp only
            omega
          obtain ⟨after, ranRest, shuffledRest, sorted⟩ :=
            ih l (j - 1) ((i, ir) :: istack) next (by omega) leftFirst
              (narrow.split smaller (by omega)) (by rw [work_cons, work_cons]; omega)
          refine ⟨after, ?_, shuffledAll.trans shuffledRest, sorted⟩
          simp only [sortLoop, if_neg small, guard, if_pos noOverflow, if_pos room, ran,
            Option.pure_def, Option.bind_eq_bind, Option.bind_some, if_pos leftSmaller, ranRest]
        · have smaller : width (i, ir) ≤ width (l, j - 1) := by
            unfold width
            dsimp only
            omega
          obtain ⟨after, ranRest, shuffledRest, sorted⟩ :=
            ih i ir ((l, j - 1) :: istack) next (by omega) rightFirst
              (narrow.split smaller (by omega)) (by rw [work_cons, work_cons]; omega)
          refine ⟨after, ?_, shuffledAll.trans shuffledRest, sorted⟩
          simp only [sortLoop, if_neg small, guard, if_pos noOverflow, if_pos room, ran,
            Option.pure_def, Option.bind_eq_bind, Option.bind_some, if_neg leftSmaller, ranRest]

theorem mdbMidlSort_descending (ids : Block Nat) (short : ids.cell 0 < 2 ^ 30)
    (inside : ids.cell 0 < ids.size) :
    ∃ after, mdbMidlSort ids = some after ∧ after.size = ids.size ∧
      (∀ index, index = 0 ∨ ids.cell 0 < index → after.cell index = ids.cell index) ∧
      (after.segment 1 (ids.cell 0)).Perm (ids.segment 1 (ids.cell 0)) ∧
      (after.segment 1 (ids.cell 0)).Pairwise (· ≥ ·) := by
  obtain ⟨after, ran, shuffled, sorted⟩ := sortLoop_spec short (2 * ids.cell 0 + 1) 1 (ids.cell 0)
    [] ids inside (Unsorted.whole ids _) (by simp [Narrow, width]) (by simp [work, width])
  refine ⟨after, ?_, shuffled.size, ?_, shuffled.segment_perm (Nat.le_refl 1) (by omega), ?_⟩
  · simp only [mdbMidlSort, ids.get_inside (by omega : 0 < ids.size), Option.bind_eq_bind,
      Option.bind_some, ran]
  · intro index out
    exact shuffled.outside (by omega)
  · refine Block.segment_pairwise.mpr ?_
    intro first second lower between upper
    exact sorted first second lower between (by omega)

/-- On a list of fewer than `2 ^ 30` IDs the sort ends and stays inside the list and `istack`. The
IDs are then as a plain insertion sort orders them, and the rest of the memory is as it was. -/
theorem mdbMidlSort_sorts (ids : Block Nat) (short : ids.cell 0 < 2 ^ 30)
    (inside : ids.cell 0 < ids.size) :
    ∃ after, mdbMidlSort ids = some after ∧ after.size = ids.size ∧
      after.segment 1 (ids.cell 0) =
        (ids.segment 1 (ids.cell 0)).insertionSort (· ≥ ·) ∧
      ∀ index, index = 0 ∨ ids.cell 0 < index → after.cell index = ids.cell index := by
  obtain ⟨after, ran, size, rest, same, sorted⟩ := mdbMidlSort_descending ids short inside
  refine ⟨after, ran, size, ?_, rest⟩
  have plain := List.pairwise_insertionSort (· ≥ ·) (ids.segment 1 (ids.cell 0))
  exact (same.trans (List.perm_insertionSort _ _).symm).eq_of_pairwise' sorted plain

theorem mdbMidlSort_sorts_ten : ∃ after,
    mdbMidlSort (idlOf [3, 1, 4, 1, 5, 9, 2, 6, 5, 3]) = some after ∧
      after.segment 1 10 = [9, 6, 5, 5, 4, 3, 3, 2, 1, 1] := by
  obtain ⟨after, ran, -, same, -⟩ :=
    mdbMidlSort_sorts (idlOf [3, 1, 4, 1, 5, 9, 2, 6, 5, 3]) (by decide) (by decide)
  exact ⟨after, ran, same.trans (by decide)⟩

end LmdbJni
