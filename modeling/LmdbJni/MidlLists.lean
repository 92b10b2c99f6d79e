import LmdbJni.MidlCore
import LmdbJni.Library.Search
import Mathlib.Tactic.Ring
import Mathlib.Data.List.Sort
import Mathlib.Data.Finset.Card

/-!
Searching and merging ID lists. `mdb_midl_search` and `mdb_mid2l_search` find the place of an ID in
a sorted list, `mdb_midl_xmerge` merges one list into another in its own memory, and an ID2L that
is filled with `mdb_mid2l_insert` is a finite map.
-/

namespace LmdbJni

open Cells Search

/-! The searches. -/

theorem searchLoop_spec {order : Nat → Ordering} {read : Nat → Option Ordering} {last : Nat}
    (sloping : Sloping order 1 (last + 1))
    (reads : ∀ index, 1 ≤ index → index ≤ last → read index = some (order index)) :
    ∀ fuel base cursor n val, n < fuel → Search.Between order 1 (last + 1) (base + 1) (base + 1 + n) →
      (n = 0 → (if val = .gt then cursor + 1 else cursor) = base + 1) →
      ∃ place, searchLoop read fuel base cursor n val = some place ∧ Located order 1 (last + 1) place := by
  intro fuel
  induction fuel with
  | zero => intro base cursor n val enough; omega
  | succ fuel ih =>
      intro base cursor n val enough between landing
      by_cases more : 0 < n
      · have upper := between.upper
        have look := reads (base + n / 2 + 1) (by omega) (by omega)
        cases compared : order (base + n / 2 + 1) with
        | lt =>
            obtain ⟨place, ran, located⟩ := ih base (base + n / 2 + 1) (n / 2) .lt (by omega)
              (by
                have narrowed := between.toLeft sloping (by omega) (by omega) compared
                rwa [Nat.add_right_comm] at narrowed)
              (by simp)
            refine ⟨place, ?_, located⟩
            simp only [searchLoop, if_pos more, look, compared, Option.bind_eq_bind,
              Option.bind_some, ran]
        | gt =>
            obtain ⟨place, ran, located⟩ := ih (base + n / 2 + 1) (base + n / 2 + 1)
              (n - (n / 2 + 1)) .gt (by omega)
              (by
                have narrowed := between.toRight sloping (by omega) (by omega) compared
                rwa [show base + 1 + n = base + n / 2 + 1 + 1 + (n - (n / 2 + 1)) by omega]
                  at narrowed)
              (by simp)
            refine ⟨place, ?_, located⟩
            simp only [searchLoop, if_pos more, look, compared, Option.bind_eq_bind,
              Option.bind_some, ran]
        | eq =>
            refine ⟨base + n / 2 + 1, ?_, between.hit (by omega) (by omega) compared⟩
            simp only [searchLoop, if_pos more, look, compared, Option.bind_eq_bind,
              Option.bind_some]
      · have empty : n = 0 := by omega
        subst empty
        refine ⟨base + 1, ?_, between.closed⟩
        simp only [searchLoop, if_neg more]
        exact congrArg some (landing rfl)

theorem searchLoop_whole {order : Nat → Ordering} {read : Nat → Option Ordering} {last : Nat}
    (sloping : Sloping order 1 (last + 1))
    (reads : ∀ index, 1 ≤ index → index ≤ last → read index = some (order index)) :
    ∃ place, searchLoop read (last + 1) 0 1 last .eq = some place ∧ Located order 1 (last + 1) place := by
  refine searchLoop_spec sloping reads (last + 1) 0 1 last .eq (by omega) ?_ (by simp)
  have whole : Search.Between order 1 (last + 1) 1 (last + 1) := Search.Between.whole (by omega)
  rwa [show 0 + 1 + last = last + 1 by omega]

/-- In a descending list the place found has the larger IDs in front of it, and from it on there
are the ID itself and the smaller ones. -/
theorem mdbMidlSearch_place (ids : Block Nat) (id : Nat) (inside : ids.cell 0 < ids.size)
    (sorted : (ids.segment 1 (ids.cell 0)).Pairwise (· > ·)) :
    ∃ place, mdbMidlSearch ids id = some place ∧ 1 ≤ place ∧ place ≤ ids.cell 0 + 1 ∧
      (∀ index, 1 ≤ index → index < place → id < ids.cell index) ∧
      (∀ index, place ≤ index → index ≤ ids.cell 0 → ids.cell index ≤ id) ∧
      (id ∈ ids.segment 1 (ids.cell 0) ↔ place ≤ ids.cell 0 ∧ ids.cell place = id) := by
  have falls := Block.segment_pairwise.mp sorted
  have sloping : Sloping (fun index => compare (ids.cell index) id) 1 (ids.cell 0 + 1) := by
    constructor
    · intro low high above between below smaller
      have order := falls low high above between (by omega)
      exact compare_lt_iff_lt.mpr (order.trans (compare_lt_iff_lt.mp smaller))
    · intro low high above between below larger
      have order := falls low high above between (by omega)
      exact compare_gt_iff_gt.mpr ((compare_gt_iff_gt.mp larger).trans order)
  have reads : ∀ index, 1 ≤ index → index ≤ ids.cell 0 →
      (do return compare (← ids.get index) id : Option Ordering) =
        some (compare (ids.cell index) id) := by
    intro index above below
    simp only [ids.get_inside (by omega : index < ids.size), Option.bind_eq_bind,
      Option.bind_some, Option.pure_def]
  obtain ⟨place, ran, located⟩ := searchLoop_whole sloping reads
  have lower := located.lower
  have upper := located.upper
  refine ⟨place, ?_, lower, upper, ?_, ?_, ?_⟩
  · simp only [mdbMidlSearch, ids.get_inside (by omega : 0 < ids.size), Option.bind_eq_bind,
      Option.bind_some]
    exact ran
  · intro index above before
    rcases located.found with ⟨bound, equal⟩ | ⟨larger, -⟩
    · have order := falls index place above before (by omega)
      rwa [compare_eq_iff_eq.mp equal] at order
    · exact compare_gt_iff_gt.mp (larger index above before)
  · intro index reached below
    rcases located.found with ⟨bound, equal⟩ | ⟨-, smaller⟩
    · have same := compare_eq_iff_eq.mp equal
      rcases Nat.eq_or_lt_of_le reached with rfl | beyond
      · exact Nat.le_of_eq same
      · have order := falls place index lower beyond (by omega)
        omega
    · exact Nat.le_of_lt (compare_lt_iff_lt.mp (smaller index reached (by omega)))
  · have hit := located.eq_iff
    simp only [compare_eq_iff_eq, Nat.lt_succ_iff] at hit
    rw [hit, Block.mem_segment]
    refine exists_congr fun index => ?_
    constructor
    · rintro ⟨above, below, same⟩
      exact ⟨above, by omega, same⟩
    · rintro ⟨above, below, same⟩
      exact ⟨above, by omega, same⟩

theorem mdbMidlSearch_place_found : ∃ place, mdbMidlSearch (idlOf [9, 5, 2]) 5 = some place ∧
    place ≤ 3 ∧ (idlOf [9, 5, 2]).cell place = 5 := by
  obtain ⟨place, ran, -, -, -, -, listed⟩ :=
    mdbMidlSearch_place (idlOf [9, 5, 2]) 5 (by decide) (by decide)
  exact ⟨place, ran, listed.mp (by decide)⟩

/-! Merging. -/

theorem mergeShift_spec {mergeId d : Nat} (positive : 1 ≤ d) : ∀ j (idl : Block Nat),
    j + d < idl.size → mergeId ≤ idl.cell 0 →
    ∃ stop after, mergeShift mergeId j (idl.cell j) (j + d) idl =
        some (stop, idl.cell stop, stop + d, after) ∧ stop ≤ j ∧ after.size = idl.size ∧
      mergeId ≤ idl.cell stop ∧ (∀ k, stop < k → k ≤ j → idl.cell k < mergeId) ∧
      ∀ k, after.cell k = if stop + d < k ∧ k ≤ j + d then idl.cell (k - d) else idl.cell k := by
  intro j
  induction j with
  | zero =>
      intro idl inside sentinel
      refine ⟨0, idl, ?_, Nat.le_refl 0, rfl, sentinel, fun k _ _ => by omega, ?_⟩
      · simp only [mergeShift, if_neg (by omega : ¬idl.cell 0 < mergeId)]
      · intro k
        rw [if_neg (by omega)]
  | succ j ih =>
      intro idl inside sentinel
      by_cases smaller : idl.cell (j + 1) < mergeId
      · have kept : ∀ k, k ≠ j + 1 + d →
            (idl.put (j + 1 + d) (idl.cell (j + 1))).cell k = idl.cell k :=
          fun k different => idl.put_cell_other different _
        obtain ⟨stop, after, ran, bound, size, stopped, passed, cells⟩ :=
          ih (idl.put (j + 1 + d) (idl.cell (j + 1))) (by simpa using by omega)
            (by rwa [kept 0 (by omega)])
        rw [kept j (by omega), kept stop (by omega)] at ran
        refine ⟨stop, after, ?_, by omega, size, ?_, ?_, ?_⟩
        · have read : (idl.put (j + 1 + d) (idl.cell (j + 1))).get j = some (idl.cell j) := by
            rw [Block.get_inside _ (by simpa using by omega), kept j (by omega)]
          simp only [mergeShift, if_pos smaller, idl.set_inside inside, read, Option.bind_eq_bind,
            Option.bind_some]
          rw [show j + 1 + d - 1 = j + d by omega]
          exact ran
        · rwa [kept stop (by omega)] at stopped
        · intro k above below
          rcases Nat.lt_or_ge j k with last | earlier
          · have : k = j + 1 := by omega
            subst this
            exact smaller
          · rw [← kept k (by omega)]
            exact passed k above earlier
        · intro k
          rw [cells, Block.put_cell, Block.put_cell]
          split_ifs <;> first | rfl | omega | (congr 1; omega)
      · refine ⟨j + 1, idl, ?_, Nat.le_refl _, rfl, by omega, fun k _ _ => by omega, ?_⟩
        · simp only [mergeShift, if_neg smaller]
        · intro k
          rw [if_neg (by omega)]

/-- The cells of `idl` from which `mergeLoop` has `mergeId` stored behind the larger IDs. -/
theorem mergeStep_spec {mergeId i j : Nat} {idl : Block Nat} (inside : i + 1 + j < idl.size)
    (sentinel : mergeId ≤ idl.cell 0) :
    ∃ stop shifted, mergeShift mergeId j (idl.cell j) (i + 1 + j) idl =
        some (stop, idl.cell stop, i + stop + 1, shifted) ∧ stop ≤ j ∧
      mergeId ≤ idl.cell stop ∧ (∀ k, stop < k → k ≤ j → idl.cell k < mergeId) ∧
      shifted.set (i + stop + 1) mergeId = some (shifted.put (i + stop + 1) mergeId) ∧
      shifted.size = idl.size ∧
      ∀ k, (shifted.put (i + stop + 1) mergeId).cell k =
        if k = i + stop + 1 then mergeId
        else if i + stop + 1 < k ∧ k ≤ i + 1 + j then idl.cell (k - (i + 1)) else idl.cell k := by
  obtain ⟨stop, shifted, ran, bound, size, stopped, passed, cells⟩ :=
    mergeShift_spec (by omega : 1 ≤ i + 1) j idl (by omega) sentinel
  rw [show j + (i + 1) = i + 1 + j by omega, show stop + (i + 1) = i + stop + 1 by omega] at ran
  refine ⟨stop, shifted, ran, bound, stopped, passed, shifted.set_inside (by omega) _, size, ?_⟩
  intro k
  rw [Block.put_cell, cells]
  split_ifs <;> first | rfl | omega

theorem mergeLoop_spec {merge : Block Nat} : ∀ i j (idl : Block Nat), i < merge.size →
    i + j < idl.size → (∀ k, 1 ≤ k → k ≤ i → merge.cell k ≤ idl.cell 0) →
    (merge.segment 1 i).Pairwise (· ≥ ·) → (idl.segment 1 j).Pairwise (· ≥ ·) →
    ∃ after, mergeLoop merge i j (idl.cell j) (i + j) idl = some after ∧
      after.size = idl.size ∧ (∀ k, i + j < k → after.cell k = idl.cell k) ∧
      (after.segment 1 (i + j)).Perm (idl.segment 1 j ++ merge.segment 1 i) ∧
      (after.segment 1 (i + j)).Pairwise (· ≥ ·) := by
  intro i
  induction i with
  | zero =>
      intro j idl mergeInside inside sentinel mergeSorted sorted
      refine ⟨idl, rfl, rfl, fun _ _ => rfl, ?_, ?_⟩
      · simp [Block.segment]
      · simpa using sorted
  | succ i ih =>
      intro j idl mergeInside inside sentinel mergeSorted sorted
      obtain ⟨stop, shifted, ranShift, bound, stopped, passed, stored, size, cells⟩ :=
        mergeStep_spec inside (sentinel (i + 1) (by omega) (Nat.le_refl _))
      generalize next_eq : shifted.put (i + stop + 1) (merge.cell (i + 1)) = next at stored cells
      have nextSize : next.size = idl.size := by rw [← next_eq, Block.put_size, size]
      have kept : ∀ k, k ≤ stop → next.cell k = idl.cell k := by
        intro k below
        rw [cells, if_neg (by omega), if_neg (by omega)]
      have keptSegment : next.segment 1 stop = idl.segment 1 stop :=
        Block.segment_congr fun index _ below => kept index (by omega)
      have fallsMerge := Block.segment_pairwise.mp mergeSorted
      have falls := Block.segment_pairwise.mp sorted
      have mergeFront : (merge.segment 1 i).Pairwise (· ≥ ·) := by
        rw [Block.segment_succ] at mergeSorted
        exact (List.pairwise_append.mp mergeSorted).1
      have front : (next.segment 1 stop).Pairwise (· ≥ ·) := by
        rw [keptSegment]
        exact Block.segment_pairwise.mpr fun first second above between below =>
          falls first second above between (by omega)
      obtain ⟨after, ran, afterSize, beyond, same, descending⟩ := ih stop next (by omega) (by omega)
        (fun k above below => by
          rw [kept 0 (by omega)]
          exact sentinel k above (by omega)) mergeFront front
      rw [kept stop (Nat.le_refl _)] at ran
      rw [keptSegment] at same
      have tail : after.segment (i + stop + 2) (j - stop) = idl.segment (stop + 1) (j - stop) := by
        refine Block.segment_shift idl after ?_
        intro index below
        rw [beyond _ (by omega), cells, if_neg (by omega), if_pos (by omega)]
        congr 1
        omega
      have parts : after.segment 1 (i + 1 + j) =
          after.segment 1 (i + stop) ++ (merge.cell (i + 1) :: idl.segment (stop + 1) (j - stop)) := by
        rw [show i + 1 + j = i + stop + (j - stop + 1) by omega, after.segment_append 1 (i + stop),
          Block.segment_cons, ← tail, show 1 + (i + stop) = i + stop + 1 by omega,
          beyond (i + stop + 1) (by omega), cells, if_pos rfl]
      have whole : idl.segment 1 j = idl.segment 1 stop ++ idl.segment (stop + 1) (j - stop) := by
        conv_lhs => rw [show j = stop + (j - stop) by omega]
        rw [Block.segment_append, Nat.add_comm 1 stop]
      refine ⟨after, ?_, afterSize.trans nextSize, ?_, ?_, ?_⟩
      · simp only [mergeLoop, merge.get_inside mergeInside, ranShift, stored, Option.bind_eq_bind,
          Option.bind_some, Nat.add_sub_cancel, ran]
      · intro k above
        rw [beyond k (by omega), cells, if_neg (by omega), if_neg (by omega)]
      · rw [parts, whole, Block.segment_succ, Nat.add_comm 1 i]
        refine (same.append_right _).trans (List.perm_iff_count.mpr fun id => ?_)
        simp only [List.count_append, List.count_cons, List.count_nil]
        omega
      · rw [parts]
        have atLeast : ∀ id ∈ after.segment 1 (i + stop), merge.cell (i + 1) ≤ id := by
          intro id member
          rcases List.mem_append.mp (same.mem_iff.mp member) with old | merged
          · obtain ⟨index, above, below, rfl⟩ := Block.mem_segment.mp old
            rcases Nat.lt_or_ge index stop with before | last
            · exact stopped.trans (falls index stop above before (by omega))
            · have : index = stop := by omega
              subst this
              exact stopped
          · obtain ⟨index, above, below, rfl⟩ := Block.mem_segment.mp merged
            exact fallsMerge index (i + 1) above (by omega) (by omega)
        have atMost : ∀ id ∈ idl.segment (stop + 1) (j - stop), id ≤ merge.cell (i + 1) := by
          intro id member
          obtain ⟨index, above, below, rfl⟩ := Block.mem_segment.mp member
          exact Nat.le_of_lt (passed index (by omega) (by omega))
        refine List.pairwise_append.mpr ⟨descending, List.pairwise_cons.mpr ⟨atMost, ?_⟩, ?_⟩
        · exact Block.segment_pairwise.mpr fun first second above between below =>
            falls first second (by omega) between (by omega)
        · intro large largeMember small smallMember
          rcases List.mem_cons.mp smallMember with rfl | later
          · exact atLeast large largeMember
          · exact (atMost small later).trans (atLeast large largeMember)

/-- Merging stays inside the two lists and leaves the IDs of both in descending order. -/
theorem mdbMidlXmerge_merges (idl merge : Block Nat)
    (mergeInside : merge.cell 0 < merge.size) (inside : merge.cell 0 + idl.cell 0 < idl.size)
    (ids : ∀ id ∈ merge.segment 1 (merge.cell 0), id ≤ midlLast)
    (mergeSorted : (merge.segment 1 (merge.cell 0)).Pairwise (· ≥ ·))
    (sorted : (idl.segment 1 (idl.cell 0)).Pairwise (· ≥ ·)) :
    ∃ after, mdbMidlXmerge idl merge = some after ∧ after.size = idl.size ∧
      after.cell 0 = merge.cell 0 + idl.cell 0 ∧
      (∀ index, merge.cell 0 + idl.cell 0 < index → after.cell index = idl.cell index) ∧
      (after.segment 1 (after.cell 0)).Perm
        (idl.segment 1 (idl.cell 0) ++ merge.segment 1 (merge.cell 0)) ∧
      (after.segment 1 (after.cell 0)).Pairwise (· ≥ ·) := by
  have kept : ∀ index, 1 ≤ index → (idl.put 0 midlLast).cell index = idl.cell index :=
    fun index above => idl.put_cell_other (by omega) _
  have keptSegment : (idl.put 0 midlLast).segment 1 (idl.cell 0) = idl.segment 1 (idl.cell 0) :=
    Block.segment_congr fun index above _ => kept index above
  obtain ⟨merged, ran, size, beyond, same, descending⟩ :=
    mergeLoop_spec (merge.cell 0) (idl.cell 0) (idl.put 0 midlLast) mergeInside inside
      (fun k above below => by
        rw [Block.put_cell_same]
        exact ids _ (Block.mem_segment.mpr ⟨k, above, by omega, rfl⟩)) mergeSorted
      (by rwa [keptSegment])
  have mergedSize : merged.size = idl.size := size
  have final : (merged.put 0 (merge.cell 0 + idl.cell 0)).segment 1 (merge.cell 0 + idl.cell 0) =
      merged.segment 1 (merge.cell 0 + idl.cell 0) :=
    Block.segment_congr fun index above _ => Block.put_cell_other _ (by omega) _
  refine ⟨merged.put 0 (merge.cell 0 + idl.cell 0), ?_, mergedSize, Block.put_cell_same _ _ _,
    ?_, ?_, ?_⟩
  · have read : (idl.put 0 midlLast).get (idl.cell 0) =
        some ((idl.put 0 midlLast).cell (idl.cell 0)) :=
      Block.get_inside _ (by simpa using by omega)
    simp only [mdbMidlXmerge, merge.get_inside (by omega : 0 < merge.size),
      idl.get_inside (by omega : 0 < idl.size), idl.set_inside (by omega : 0 < idl.size), read,
      Option.bind_eq_bind, Option.bind_some, ran, merged.set_inside (by omega : 0 < merged.size)]
  · intro index above
    rw [Block.put_cell_other _ (by omega), beyond index above, kept index (by omega)]
  · rw [Block.put_cell_same, final, ← keptSegment]
    exact same
  · rw [Block.put_cell_same, final]
    exact descending

/-- The merged list is what sorting the two lists together would give. -/
theorem mdbMidlXmerge_sorts (idl merge : Block Nat)
    (mergeInside : merge.cell 0 < merge.size) (inside : merge.cell 0 + idl.cell 0 < idl.size)
    (ids : ∀ id ∈ merge.segment 1 (merge.cell 0), id ≤ midlLast)
    (mergeSorted : (merge.segment 1 (merge.cell 0)).Pairwise (· ≥ ·))
    (sorted : (idl.segment 1 (idl.cell 0)).Pairwise (· ≥ ·)) :
    ∃ after, mdbMidlXmerge idl merge = some after ∧
      after.segment 1 (after.cell 0) = (idl.segment 1 (idl.cell 0) ++
        merge.segment 1 (merge.cell 0)).insertionSort (· ≥ ·) ∧
      ∀ index, merge.cell 0 + idl.cell 0 < index → after.cell index = idl.cell index := by
  obtain ⟨after, ran, -, -, beyond, same, descending⟩ :=
    mdbMidlXmerge_merges idl merge mergeInside inside ids mergeSorted sorted
  refine ⟨after, ran, ?_, beyond⟩
  have plain := List.pairwise_insertionSort (· ≥ ·)
    (idl.segment 1 (idl.cell 0) ++ merge.segment 1 (merge.cell 0))
  exact (same.trans (List.perm_insertionSort _ _).symm).eq_of_pairwise' descending plain

theorem mdbMidlXmerge_sorts_five : ∃ after,
    mdbMidlXmerge ⟨6, fun index => [2, 7, 3].getD index 0⟩ (idlOf [9, 5, 3]) = some after ∧
      after.segment 1 (after.cell 0) = [9, 7, 5, 3, 3] := by
  obtain ⟨after, ran, same, -⟩ := mdbMidlXmerge_sorts ⟨6, fun index => [2, 7, 3].getD index 0⟩
    (idlOf [9, 5, 3]) (by decide) (by decide) (by decide) (by decide) (by decide)
  exact ⟨after, ran, same.trans (by decide)⟩

/-! ID2 lists. -/

variable {π : Type}

/-- The list holds the entries, in ascending order, in a block of `MDB_IDL_UM_SIZE` cells or more. -/
structure Mid2lHolds (ids : Block (MdbId2 π)) (entries : List (MdbId2 π)) : Prop where
  count : (ids.cell 0).mid = entries.length
  cells : ids.segment 1 entries.length = entries
  sorted : entries.Pairwise fun first second => first.mid < second.mid
  bound : entries.length ≤ midlUmMax
  room : midlUmMax < ids.size

namespace Mid2lHolds

variable {ids : Block (MdbId2 π)} {entries : List (MdbId2 π)}

theorem rises (holds : Mid2lHolds ids entries) {first second : Nat} (lower : 1 ≤ first)
    (between : first < second) (upper : second ≤ entries.length) :
    (ids.cell first).mid < (ids.cell second).mid := by
  have sorted := holds.sorted
  rw [← holds.cells] at sorted
  exact Block.segment_pairwise.mp sorted first second lower between (by omega)

theorem mem_iff (holds : Mid2lHolds ids entries) {entry : MdbId2 π} :
    entry ∈ entries ↔ ∃ index, 1 ≤ index ∧ index ≤ entries.length ∧ ids.cell index = entry := by
  conv_lhs => rw [← holds.cells]
  rw [Block.mem_segment]
  refine exists_congr fun index => ?_
  constructor
  · rintro ⟨above, below, same⟩
    exact ⟨above, by omega, same⟩
  · rintro ⟨above, below, same⟩
    exact ⟨above, by omega, same⟩

/-- The entries in front of an index and those from it on. -/
theorem split (holds : Mid2lHolds ids entries) {place : Nat} (lower : 1 ≤ place)
    (upper : place ≤ entries.length + 1) :
    entries = ids.segment 1 (place - 1) ++ ids.segment place (entries.length + 1 - place) := by
  conv_lhs => rw [← holds.cells, show entries.length = place - 1 + (entries.length + 1 - place) by
    omega, Block.segment_append, show 1 + (place - 1) = place by omega]

end Mid2lHolds

theorem mdbMid2lSearch_spec {ids : Block (MdbId2 π)} {entries : List (MdbId2 π)}
    (holds : Mid2lHolds ids entries) (id : Nat) :
    ∃ place, mdbMid2lSearch ids id = some place ∧
      Located (fun index => compare id (ids.cell index).mid) 1 (entries.length + 1) place := by
  have bound := holds.bound
  have room := holds.room
  have sloping : Sloping (fun index => compare id (ids.cell index).mid) 1 (entries.length + 1) := by
    constructor
    · intro low high above between below smaller
      exact compare_lt_iff_lt.mpr
        ((compare_lt_iff_lt.mp smaller).trans (holds.rises above between (by omega)))
    · intro low high above between below larger
      exact compare_gt_iff_gt.mpr
        ((holds.rises above between (by omega)).trans (compare_gt_iff_gt.mp larger))
  have reads : ∀ index, 1 ≤ index → index ≤ entries.length →
      (do return compare id (← ids.get index).mid : Option Ordering) =
        some (compare id (ids.cell index).mid) := by
    intro index above below
    simp only [ids.get_inside (by omega : index < ids.size), Option.bind_eq_bind,
      Option.bind_some, Option.pure_def]
  obtain ⟨place, ran, located⟩ := searchLoop_whole sloping reads
  refine ⟨place, ?_, located⟩
  simp only [mdbMid2lSearch, ids.get_inside (by omega : 0 < ids.size), Option.bind_eq_bind,
    Option.bind_some, holds.count]
  exact ran

theorem shiftUp_spec {x : Nat} : ∀ i (ids : Block (MdbId2 π)), i < ids.size →
    ∃ after, shiftUp x i ids = some after ∧ after.size = ids.size ∧
      ∀ k, after.cell k = if x < k ∧ k ≤ i then ids.cell (k - 1) else ids.cell k := by
  intro i
  induction i with
  | zero =>
      intro ids inside
      refine ⟨ids, rfl, rfl, ?_⟩
      intro k
      rw [if_neg (by omega)]
  | succ i ih =>
      intro ids inside
      by_cases more : x < i + 1
      · obtain ⟨after, ran, size, cells⟩ := ih (ids.put (i + 1) (ids.cell i)) (by simpa using by omega)
        refine ⟨after, ?_, size, ?_⟩
        · simp only [shiftUp, if_pos more, ids.get_inside (by omega : i < ids.size),
            ids.set_inside inside, Option.bind_eq_bind, Option.bind_some, ran]
        · intro k
          rw [cells, Block.put_cell, Block.put_cell]
          split_ifs <;> first | rfl | omega | (congr 1; omega)
      · refine ⟨ids, ?_, rfl, ?_⟩
        · simp only [shiftUp, if_neg more]
        · intro k
          rw [if_neg (by omega)]

theorem mid2lCount_spec {ids : Block (MdbId2 π)} (inside : 0 < ids.size) (count : Nat) :
    mid2lCount ids count = some (ids.put 0 { ids.cell 0 with mid := count }) := by
  simp only [mid2lCount, ids.get_inside inside, ids.set_inside inside, Option.bind_eq_bind,
    Option.bind_some]

/-- The test after a search tells whether the list has the ID. -/
theorem mid2lHasAt_spec {ids : Block (MdbId2 π)} {entries : List (MdbId2 π)}
    (holds : Mid2lHolds ids entries) {id place : Nat}
    (located : Located (fun index => compare id (ids.cell index).mid) 1 (entries.length + 1) place) :
    mid2lHasAt ids place id = some (entries.any fun entry => entry.mid == id) := by
  have bound := holds.bound
  have room := holds.room
  have hit := located.eq_iff
  simp only [compare_eq_iff_eq, Nat.lt_succ_iff] at hit
  have anyIff : (entries.any fun entry => entry.mid == id) = true ↔
      place ≤ entries.length ∧ id = (ids.cell place).mid := by
    rw [hit, List.any_eq_true]
    constructor
    · rintro ⟨entry, member, same⟩
      obtain ⟨index, above, below, rfl⟩ := holds.mem_iff.mp member
      exact ⟨index, above, below, (beq_iff_eq.mp same).symm⟩
    · rintro ⟨index, above, below, same⟩
      exact ⟨_, holds.mem_iff.mpr ⟨index, above, below, rfl⟩, beq_iff_eq.mpr same.symm⟩
  simp only [mid2lHasAt, ids.get_inside (by omega : 0 < ids.size), Option.bind_eq_bind,
    Option.bind_some, holds.count, Option.pure_def]
  by_cases below : place ≤ entries.length
  · rw [if_pos below, ids.get_inside (by omega : place < ids.size), Option.bind_some,
      Option.some.injEq, Bool.eq_iff_iff, anyIff, beq_iff_eq]
    exact ⟨fun same => ⟨below, same.symm⟩, fun found => found.2.symm⟩
  · rw [if_neg below, Option.some.injEq, Bool.eq_iff_iff, anyIff]
    exact ⟨fun impossible => (by cases impossible), fun found => absurd found.1 below⟩

/-- Storing an entry at its place, with the later ones moved up by one. -/
theorem mid2l_stored {ids after : Block (MdbId2 π)} {entries : List (MdbId2 π)} {place : Nat}
    {id : MdbId2 π} (holds : Mid2lHolds ids entries) (lower : 1 ≤ place)
    (upper : place ≤ entries.length + 1) (space : entries.length < midlUmMax)
    (before : ∀ index, 1 ≤ index → index < place → (ids.cell index).mid < id.mid)
    (behind : ∀ index, place ≤ index → index ≤ entries.length → id.mid < (ids.cell index).mid)
    (size : after.size = ids.size) (count : (after.cell 0).mid = entries.length + 1)
    (cells : ∀ k, 1 ≤ k → after.cell k = if k = place then id
      else if place < k ∧ k ≤ entries.length + 1 then ids.cell (k - 1) else ids.cell k) :
    ∃ larger, Mid2lHolds after larger ∧ larger.Perm (id :: entries) := by
  have room := holds.room
  have parts := holds.split lower upper
  have frontKept : after.segment 1 (place - 1) = ids.segment 1 (place - 1) := by
    refine Block.segment_congr ?_
    intro index above below
    rw [cells index above, if_neg (by omega), if_neg (by omega)]
  have backMoved : after.segment (place + 1) (entries.length + 1 - place) =
      ids.segment place (entries.length + 1 - place) := by
    refine Block.segment_shift ids after ?_
    intro index below
    rw [cells _ (by omega), if_neg (by omega), if_pos (by omega)]
    congr 1
    omega
  have whole : after.segment 1 (entries.length + 1) = ids.segment 1 (place - 1) ++
      id :: ids.segment place (entries.length + 1 - place) := by
    rw [show entries.length + 1 = place - 1 + (entries.length + 1 - place + 1) by omega,
      after.segment_append 1 (place - 1), Block.segment_cons, frontKept,
      show 1 + (place - 1) = place by omega, cells place lower, if_pos rfl,
      show place - 1 + (entries.length + 1 - place + 1) - place = entries.length + 1 - place by omega,
      backMoved]
  have same : (after.segment 1 (entries.length + 1)).Perm (id :: entries) := by
    rw [whole]
    conv_rhs => rw [parts]
    exact List.perm_middle
  have length : (after.segment 1 (entries.length + 1)).length = entries.length + 1 :=
    Block.segment_length _ _ _
  refine ⟨after.segment 1 (entries.length + 1), ⟨?_, ?_, ?_, ?_, ?_⟩, same⟩
  · rw [count, length]
  · rw [length]
  · have sorted := holds.sorted
    rw [parts] at sorted
    obtain ⟨frontSorted, backSorted, crossSorted⟩ := List.pairwise_append.mp sorted
    rw [whole]
    refine List.pairwise_append.mpr ⟨frontSorted, List.pairwise_cons.mpr ⟨?_, backSorted⟩, ?_⟩
    · intro entry member
      obtain ⟨index, above, below, rfl⟩ := Block.mem_segment.mp member
      exact behind index above (by omega)
    · intro first firstMember second secondMember
      rcases List.mem_cons.mp secondMember with rfl | later
      · obtain ⟨index, above, below, rfl⟩ := Block.mem_segment.mp firstMember
        exact before index above (by omega)
      · exact crossSorted first firstMember second later
  · rw [length]
    exact space
  · rw [size]
    exact room

/-- What an insertion does: nothing if the ID is there or the list is full, and otherwise the list
holds the entry as well. -/
theorem mdbMid2lInsert_spec {ids : Block (MdbId2 π)} {entries : List (MdbId2 π)}
    (holds : Mid2lHolds ids entries) (id : MdbId2 π) :
    (∃ entry ∈ entries, entry.mid = id.mid) ∧ mdbMid2lInsert ids id = some (-1, ids) ∨
    (∀ entry ∈ entries, entry.mid ≠ id.mid) ∧ entries.length = midlUmMax ∧
      mdbMid2lInsert ids id = some (-2, ids) ∨
    (∀ entry ∈ entries, entry.mid ≠ id.mid) ∧ entries.length < midlUmMax ∧
      ∃ after larger, mdbMid2lInsert ids id = some (0, after) ∧ Mid2lHolds after larger ∧
        larger.Perm (id :: entries) := by
  have bound := holds.bound
  have room := holds.room
  obtain ⟨place, ran, located⟩ := mdbMid2lSearch_spec holds id.mid
  have lower := located.lower
  have upper := located.upper
  have test := mid2lHasAt_spec holds located
  have read := ids.get_inside (by omega : 0 < ids.size)
  by_cases present : ∃ entry ∈ entries, entry.mid = id.mid
  · refine Or.inl ⟨present, ?_⟩
    rw [show (entries.any fun entry => entry.mid == id.mid) = true by simpa using present] at test
    simp only [mdbMid2lInsert, ran, Option.bind_eq_bind, Option.bind_some,
      if_neg (by omega : ¬place < 1), test, if_true, Option.pure_def]
  · have absent : ∀ entry ∈ entries, entry.mid ≠ id.mid :=
      fun entry member equal => present ⟨entry, member, equal⟩
    rw [show (entries.any fun entry => entry.mid == id.mid) = false by simpa using absent] at test
    rcases Nat.eq_or_lt_of_le bound with full | space
    · refine Or.inr (Or.inl ⟨absent, full, ?_⟩)
      simp only [mdbMid2lInsert, ran, Option.bind_eq_bind, Option.bind_some, read, holds.count,
        if_neg (by omega : ¬place < 1), test, Bool.false_eq_true, if_false, Option.pure_def,
        if_pos (by omega : midlUmMax ≤ entries.length)]
    · refine Or.inr (Or.inr ⟨absent, space, ?_⟩)
      obtain ⟨before, behind⟩ : (∀ index, 1 ≤ index → index < place →
          (ids.cell index).mid < id.mid) ∧
          ∀ index, place ≤ index → index ≤ entries.length → id.mid < (ids.cell index).mid := by
        rcases located.found with ⟨below, equal⟩ | ⟨before, behind⟩
        · exact absurd (compare_eq_iff_eq.mp equal).symm
            (absent _ (holds.mem_iff.mpr ⟨place, lower, Nat.le_of_lt_succ below, rfl⟩))
        · exact ⟨fun index above below => compare_gt_iff_gt.mp (before index above below),
            fun index above below =>
              compare_lt_iff_lt.mp (behind index above (Nat.lt_succ_of_le below))⟩
      have counted : 0 < ids.size := by omega
      obtain ⟨shifted, ranShift, size, cells⟩ := @shiftUp_spec π place (entries.length + 1)
        (ids.put 0 { ids.cell 0 with mid := entries.length + 1 }) (by simpa using by omega)
      rw [Block.put_size] at size
      have stored : ∀ k, (shifted.put place id).cell k = if k = place then id
          else if place < k ∧ k ≤ entries.length + 1 then
            (ids.put 0 { ids.cell 0 with mid := entries.length + 1 }).cell (k - 1)
          else (ids.put 0 { ids.cell 0 with mid := entries.length + 1 }).cell k := by
        intro k
        rw [Block.put_cell, cells]
      obtain ⟨larger, largerHolds, same⟩ := mid2l_stored holds lower upper space before behind
        (by rw [Block.put_size, size] : (shifted.put place id).size = ids.size)
        (by
          rw [stored, if_neg (by omega), if_neg (by omega), Block.put_cell_same])
        (by
          intro k above
          rw [stored, Block.put_cell, Block.put_cell]
          split_ifs <;> first | rfl | omega)
      refine ⟨shifted.put place id, larger, ?_, largerHolds, same⟩
      simp only [mdbMid2lInsert, ran, Option.bind_eq_bind, Option.bind_some, read, holds.count,
        if_neg (by omega : ¬place < 1), test, Bool.false_eq_true, if_false, Option.pure_def,
        if_neg (by omega : ¬midlUmMax ≤ entries.length), mid2lCount_spec counted, ranShift,
        shifted.set_inside (by omega : place < shifted.size)]

/-- An append of an ID above all others does what an insertion does. -/
theorem mdbMid2lAppend_holds {ids : Block (MdbId2 π)} {entries : List (MdbId2 π)}
    (holds : Mid2lHolds ids entries) (space : entries.length < midlUmMax) {id : MdbId2 π}
    (above : ∀ entry ∈ entries, entry.mid < id.mid) :
    ∃ after, mdbMid2lAppend ids id = some (0, after) ∧ Mid2lHolds after (entries ++ [id]) := by
  have room := holds.room
  have counted : 0 < ids.size := by omega
  refine ⟨(ids.put 0 { ids.cell 0 with mid := entries.length + 1 }).put (entries.length + 1) id,
    ?_, ?_, ?_, ?_, ?_, room⟩
  · simp only [mdbMid2lAppend, ids.get_inside counted, holds.count, Option.bind_eq_bind,
      Option.bind_some, if_neg (by omega : ¬midlUmMax ≤ entries.length), mid2lCount_spec counted,
      Block.set_inside _ (by simp; omega : entries.length + 1 < (ids.put 0 _).size),
      Option.pure_def]
  · rw [Block.put_cell_other _ (by omega), Block.put_cell_same, List.length_append,
      List.length_singleton]
  · rw [List.length_append, List.length_singleton, Block.segment_succ, Nat.add_comm 1,
      Block.put_cell_same]
    congr 1
    refine Eq.trans (Block.segment_congr fun index lower upper => ?_) holds.cells
    rw [Block.put_cell_other _ (by omega), Block.put_cell_other _ (by omega)]
  · rw [List.pairwise_append]
    refine ⟨holds.sorted, List.pairwise_singleton _ _, ?_⟩
    intro entry member last same
    rw [List.mem_singleton.mp same]
    exact above entry member
  · simpa using space

/-! An ID2L as a finite map. -/

/-- The map has the entries of the list. -/
def Mid2lMaps (ids : Block (MdbId2 π)) (map : Nat → Option π) : Prop :=
  ∃ entries, Mid2lHolds ids entries ∧
    ∀ id ptr, map id = some ptr ↔ (⟨id, ptr⟩ : MdbId2 π) ∈ entries

theorem mid2lLookup_spec {ids : Block (MdbId2 π)} {map : Nat → Option π}
    (maps : Mid2lMaps ids map) (id : Nat) : mid2lLookup ids id = some (map id) := by
  obtain ⟨entries, holds, mem⟩ := maps
  have bound := holds.bound
  have room := holds.room
  obtain ⟨place, ran, located⟩ := mdbMid2lSearch_spec holds id
  have test := mid2lHasAt_spec holds located
  have lower := located.lower
  by_cases present : (entries.any fun entry => entry.mid == id) = true
  · obtain ⟨below, same⟩ : place ≤ entries.length ∧ id = (ids.cell place).mid := by
      have hit := located.eq_iff
      simp only [compare_eq_iff_eq, Nat.lt_succ_iff] at hit
      refine hit.mpr ?_
      obtain ⟨entry, member, equal⟩ := List.any_eq_true.mp present
      obtain ⟨index, above, below, rfl⟩ := holds.mem_iff.mp member
      exact ⟨index, above, below, (beq_iff_eq.mp equal).symm⟩
    have member : (⟨id, (ids.cell place).mptr⟩ : MdbId2 π) ∈ entries := by
      rw [same]
      exact holds.mem_iff.mpr ⟨place, lower, below, rfl⟩
    rw [(mem _ _).mpr member]
    rw [present] at test
    simp only [mid2lLookup, ran, test, Option.bind_eq_bind, Option.bind_some, if_true,
      ids.get_inside (by omega : place < ids.size), Option.pure_def]
  · rw [Bool.not_eq_true] at present
    have nothing : map id = none := by
      rw [Option.eq_none_iff_forall_ne_some]
      intro ptr mapped
      have found := List.any_eq_false.mp present _ ((mem id ptr).mp mapped)
      simp at found
    rw [present] at test
    simp only [mid2lLookup, ran, test, Option.bind_eq_bind, Option.bind_some, Bool.false_eq_true,
      if_false, Option.pure_def, nothing]

theorem mdbMid2lInsert_maps {ids : Block (MdbId2 π)} {map : Nat → Option π}
    (maps : Mid2lMaps ids map) (id : MdbId2 π) {known : Finset Nat} (small : known.card ≤ midlUmMax)
    (ours : ∀ other ptr, map other = some ptr → other ∈ known) (member : id.mid ∈ known) :
    ∃ code after, mdbMid2lInsert ids id = some (code, after) ∧
      Mid2lMaps after fun other => (map other).or (if other = id.mid then some id.mptr else none) := by
  obtain ⟨entries, holds, mem⟩ := maps
  have taken : (∃ entry ∈ entries, entry.mid = id.mid) → ∃ ptr, map id.mid = some ptr := by
    rintro ⟨entry, inside, same⟩
    refine ⟨entry.mptr, (mem _ _).mpr ?_⟩
    rw [← same]
    exact inside
  have free : (∀ entry ∈ entries, entry.mid ≠ id.mid) → map id.mid = none := by
    intro absent
    rw [Option.eq_none_iff_forall_ne_some]
    intro ptr mapped
    exact absent _ ((mem _ _).mp mapped) rfl
  rcases mdbMid2lInsert_spec holds id with ⟨present, ran⟩ | ⟨absent, full, -⟩ |
    ⟨absent, -, after, larger, ran, holdsAfter, same⟩
  · obtain ⟨ptr, mapped⟩ := taken present
    refine ⟨-1, ids, ran, entries, holds, ?_⟩
    intro other value
    dsimp only
    rw [← mem]
    by_cases hit : other = id.mid
    · subst hit
      rw [mapped, Option.some_or]
    · rw [if_neg hit, Option.or_none]
  · exfalso
    have distinct : (entries.map (·.mid)).Nodup := by
      refine List.pairwise_map.mpr (holds.sorted.imp ?_)
      intro first second less
      exact Nat.ne_of_lt less
    have subset : insert id.mid (entries.map (·.mid)).toFinset ⊆ known := by
      intro other inside
      rcases Finset.mem_insert.mp inside with rfl | old
      · exact member
      · obtain ⟨entry, entryMember, rfl⟩ := List.mem_map.mp (List.mem_toFinset.mp old)
        exact ours entry.mid entry.mptr ((mem _ _).mpr entryMember)
    have fresh : id.mid ∉ (entries.map (·.mid)).toFinset := by
      rw [List.mem_toFinset, List.mem_map]
      rintro ⟨entry, entryMember, equal⟩
      exact absent entry entryMember equal
    have count := Finset.card_le_card subset
    rw [Finset.card_insert_of_notMem fresh, List.toFinset_card_of_nodup distinct,
      List.length_map] at count
    omega
  · refine ⟨0, after, ran, larger, holdsAfter, ?_⟩
    intro other value
    dsimp only
    rw [same.mem_iff, List.mem_cons, ← mem]
    by_cases hit : other = id.mid
    · subst hit
      rw [free absent, Option.none_or, if_pos rfl]
      constructor
      · intro equal
        cases equal
        exact Or.inl rfl
      · rintro (equal | impossible)
        · rw [← equal]
        · cases impossible
    · rw [if_neg hit, Option.or_none]
      constructor
      · exact Or.inr
      · rintro (equal | mapped)
        · exact absurd (congrArg MdbId2.mid equal) hit
        · exact mapped

/-- Insertions one after the other, whatever they return. -/
def mid2lInsertAll : List (MdbId2 π) → Block (MdbId2 π) → Option (Block (MdbId2 π))
  | [], ids => some ids
  | id :: rest, ids => do mid2lInsertAll rest (← mdbMid2lInsert ids id).2

theorem mid2lInsertAll_maps {known : Finset Nat} (small : known.card ≤ midlUmMax) :
    ∀ (pairs : List (MdbId2 π)) (ids : Block (MdbId2 π)) (map : Nat → Option π),
      Mid2lMaps ids map → (∀ other ptr, map other = some ptr → other ∈ known) →
      (∀ pair ∈ pairs, pair.mid ∈ known) →
      ∃ after, mid2lInsertAll pairs ids = some after ∧
        Mid2lMaps after fun other =>
          (map other).or ((pairs.find? fun pair => pair.mid == other).map (·.mptr)) := by
  intro pairs
  induction pairs with
  | nil =>
      intro ids map maps ours members
      refine ⟨ids, rfl, ?_⟩
      simpa using maps
  | cons pair rest ih =>
      intro ids map maps ours members
      obtain ⟨code, next, ran, nextMaps⟩ :=
        mdbMid2lInsert_maps maps pair small ours (members pair List.mem_cons_self)
      obtain ⟨after, ranRest, afterMaps⟩ := ih next _ nextMaps
        (by
          intro other ptr mapped
          rcases Option.or_eq_some_iff.mp mapped with old | ⟨-, new⟩
          · exact ours other ptr old
          · split_ifs at new with same
            rw [same]
            exact members pair List.mem_cons_self)
        (fun other member => members other (List.mem_cons_of_mem _ member))
      refine ⟨after, ?_, ?_⟩
      · simp only [mid2lInsertAll, ran, Option.bind_eq_bind, Option.bind_some, ranRest]
      · convert afterMaps using 2 with other
        rw [Option.or_assoc]
        congr 1
        by_cases same : pair.mid = other
        · subst same
          simp
        · simp [List.find?_cons_of_neg, same, Ne.symm same]

/-- After any insertions into an empty list, with at most `MDB_IDL_UM_MAX` different IDs, a lookup
gives what was first inserted under the ID. -/
theorem mid2lLookup_after_inserts (ids : Block (MdbId2 π)) (pairs : List (MdbId2 π)) (id : Nat)
    (empty : (ids.cell 0).mid = 0) (room : midlUmMax < ids.size)
    (small : (pairs.map (·.mid)).toFinset.card ≤ midlUmMax) :
    (do mid2lLookup (← mid2lInsertAll pairs ids) id) =
      some ((pairs.find? fun pair => pair.mid == id).map (·.mptr)) := by
  have start : Mid2lMaps ids fun _ => none := by
    refine ⟨[], ⟨empty, rfl, List.Pairwise.nil, Nat.zero_le _, room⟩, ?_⟩
    simp
  obtain ⟨after, ran, maps⟩ := mid2lInsertAll_maps small pairs ids _ start (by simp)
    (fun pair member => List.mem_toFinset.mpr (List.mem_map_of_mem member))
  rw [ran, Option.bind_eq_bind, Option.bind_some, mid2lLookup_spec maps, Option.none_or]

theorem mid2lLookup_after_three_inserts :
    (do mid2lLookup (← mid2lInsertAll [⟨4, 10⟩, ⟨2, 20⟩, ⟨4, 30⟩]
      ⟨midlUmMax + 1, fun _ => (⟨0, 0⟩ : MdbId2 Nat)⟩) 4) = some (some 10) :=
  mid2lLookup_after_inserts _ _ 4 rfl (Nat.lt_succ_self _) (by decide)

end LmdbJni
