import LmdbJni.PageAllocCore
import LmdbJni.MidlLists
import LmdbJni.MidlCapacity

/-!
What `mdb_page_alloc` does with the page numbers it knows. `me_pghead` stays sorted; coalescing
moves whole records of the freeDB into it, in the order of their IDs and none that is too recent;
an allocation takes consecutive page numbers out of one of the three places and no other.
-/

namespace LmdbJni

open Cells

/-- `me_pghead` as a list of page numbers. -/
def headPages (pghead : Option Midl) : List Nat :=
  match pghead with
  | none => []
  | some mop => mop.contents

@[simp] theorem headPages_some (mop : Midl) : headPages (some mop) = mop.contents := rfl

/-- `me_pghead` is null or a descending list in a block of its size. -/
def HeadSound (pghead : Option Midl) : Prop :=
  ∀ mop, pghead = some mop → MidlHolds mop ⟨mop.contents, mop.allocLen, false⟩ ∧
    mop.contents.Pairwise (· > ·)

/-! Merging a record. -/

theorem mdbMidlNeed_spec {list : Midl} {ids : List Nat} {allocLen : Nat}
    (holds : MidlHolds list ⟨ids, allocLen, false⟩) (num : Nat) (memory : Bool) :
    ∃ code after, mdbMidlNeed list num memory = some (code, after) ∧
      (code = 0 → MidlHolds after ⟨ids, after.allocLen, false⟩ ∧ ids.length + num ≤ after.allocLen) := by
  have length : list.allocLen = allocLen := holds.allocLen
  have bound : ids.length ≤ allocLen := holds.bound
  have read : list.ids.get 0 = some ids.length := holds.read
  by_cases grows : list.allocLen < num + ids.length
  · cases memory with
    | true =>
        obtain ⟨enough, entries⟩ : ∃ enough,
            (num + ids.length + (num + ids.length) / 4 + 258) / 256 * 256 = enough + 2 :=
          ⟨(num + ids.length + (num + ids.length) / 4 + 258) / 256 * 256 - 2, by omega⟩
        have larger : ids.length + num ≤ enough := by omega
        have kept : ids.length ≤ enough := by omega
        refine ⟨0, list.realloc (enough + 2) enough, ?_, fun _ => ⟨holds.realloc kept, larger⟩⟩
        simp [mdbMidlNeed, read, grows, entries]
    | false =>
        refine ⟨enomem, list, ?_, ?_⟩
        · simp [mdbMidlNeed, read, grows]
        · intro impossible
          cases impossible
  · refine ⟨0, list, ?_, ?_⟩
    · simp [mdbMidlNeed, read, grows]
    · intro _
      rw [length]
      exact ⟨holds, by omega⟩

theorem headWithRoom_spec {pghead : Option Midl} (sound : HeadSound pghead) (extra : Nat)
    (memory : Bool) :
    ∃ code mop, headWithRoom pghead extra memory = some (code, mop) ∧
      (code = 0 → MidlHolds mop ⟨headPages pghead, mop.allocLen, false⟩ ∧
        (headPages pghead).length + extra ≤ mop.allocLen) := by
  cases pghead with
  | none =>
      refine ⟨_, _, rfl, ?_⟩
      intro _
      refine ⟨⟨rfl, rfl, rfl, Nat.zero_le _, fun impossible => (by cases impossible)⟩, ?_⟩
      simp [headPages, mdbMidlAlloc]
  | some mop => exact mdbMidlNeed_spec (sound mop rfl).1 extra memory

theorem pairwise_gt_of_nodup {ids : List Nat} (sorted : ids.Pairwise (· ≥ ·)) (distinct : ids.Nodup) :
    ids.Pairwise (· > ·) := by
  refine (sorted.and distinct).imp ?_
  intro first second both
  exact lt_of_le_of_ne both.1 (Ne.symm both.2)

/-- Merging the pages of a record into a list with room for them. -/
theorem xmerge_record {mop : Midl} {ids idl : List Nat}
    (holds : MidlHolds mop ⟨ids, mop.allocLen, false⟩) (sorted : ids.Pairwise (· > ·))
    (room : ids.length + idl.length ≤ mop.allocLen) (idlSorted : idl.Pairwise (· > ·))
    (small : ∀ id ∈ idl, id ≤ midlLast) (distinct : (ids ++ idl).Nodup) :
    ∃ merged, mdbMidlXmerge mop.ids (idlOf idl) = some merged ∧
      HeadSound (some { mop with ids := merged }) ∧
      ({ mop with ids := merged } : Midl).contents.Perm (ids ++ idl) := by
  have count : mop.ids.cell 0 = ids.length := holds.count
  have contents : mop.ids.segment 1 ids.length = ids := by
    rw [← count]
    exact holds.ids
  have size : mop.ids.size = mop.allocLen + 1 := holds.size
  have stored : (idlOf idl).segment 1 ((idlOf idl).cell 0) = idl := idlOf_segment idl
  obtain ⟨merged, ran, mergedSize, total, -, same, descending⟩ :=
    mdbMidlXmerge_merges mop.ids (idlOf idl) (Nat.lt_succ_self _)
      (by
        rw [size, count]
        exact Nat.lt_succ_of_le (by rwa [Nat.add_comm] at room))
      (by rwa [stored])
      (by
        rw [stored]
        exact idlSorted.imp Nat.le_of_lt)
      (by
        rw [count, contents]
        exact sorted.imp Nat.le_of_lt)
  rw [stored, count, contents] at same
  have length : (merged.segment 1 (merged.cell 0)).length = ids.length + idl.length := by
    rw [same.length_eq, List.length_append]
  refine ⟨merged, ran, ?_, same⟩
  intro list known
  cases known
  refine ⟨⟨rfl, rfl, ?_, ?_, fun impossible => (by cases impossible)⟩, ?_⟩
  · exact mergedSize.trans size
  · exact length.le.trans room
  · exact pairwise_gt_of_nodup descending (same.nodup_iff.mpr distinct)

/-! Coalescing. -/

/-- What coalescing may have done: read further records of the freeDB into `me_pghead`. -/
structure Coalesces (freeDb : List FreeRecord) (findOldest : Nat) (before after : PageSource) :
    Prop where
  records : ∃ read, unread freeDb before.pglast = read ++ unread freeDb after.pglast ∧
    (headPages after.pghead).Perm (headPages before.pghead ++ read.flatMap (·.2)) ∧
    (∀ record ∈ read, record.1 < before.pgoldest ∨ record.1 < findOldest) ∧
    (after.pghead = none → read = [])
  head : before.pghead ≠ none → after.pghead ≠ none
  last : after.pglast = before.pglast ∨
    after.pglast < before.pgoldest ∨ after.pglast < findOldest
  oldest : after.pgoldest = before.pgoldest ∨ after.pgoldest = findOldest
  nextPgno : after.nextPgno = before.nextPgno
  maxPg : after.maxPg = before.maxPg
  loose : after.loose = before.loose
  dirtyRoom : after.dirtyRoom = before.dirtyRoom
  dirty : after.dirty = before.dirty

/-- The freeDB: records in the order of their IDs, each with its pages in descending order. -/
structure FreeDbSound (freeDb : List FreeRecord) : Prop where
  ids : freeDb.Pairwise fun first second => first.1 < second.1
  sorted : ∀ record ∈ freeDb, record.2.Pairwise (· > ·)
  small : ∀ record ∈ freeDb, ∀ page ∈ record.2, page ≤ midlLast

theorem unread_split {freeDb front rest : List FreeRecord} {pglast : Nat} {record : FreeRecord}
    (ids : freeDb.Pairwise fun first second => first.1 < second.1)
    (next : unread freeDb pglast = front ++ record :: rest) :
    unread freeDb record.1 = rest ∧ ∀ other ∈ front, other.1 < record.1 := by
  have member : record ∈ unread freeDb pglast := by
    rw [next]
    exact List.mem_append_right _ List.mem_cons_self
  have later : pglast < record.1 := by simpa using (List.mem_filter.mp member).2
  have again : unread freeDb record.1 = unread (unread freeDb pglast) record.1 := by
    simp only [unread, List.filter_filter]
    refine List.filter_congr fun other _ => ?_
    rw [Bool.eq_iff_iff, Bool.and_eq_true, decide_eq_true_eq, decide_eq_true_eq]
    omega
  have sorted : (unread freeDb pglast).Pairwise fun first second => first.1 < second.1 :=
    ids.filter _
  rw [next] at sorted
  obtain ⟨-, tailSorted, cross⟩ := List.pairwise_append.mp sorted
  obtain ⟨above, -⟩ := List.pairwise_cons.mp tailSorted
  have below : ∀ other ∈ front, other.1 < record.1 :=
    fun other inside => cross other inside record List.mem_cons_self
  refine ⟨?_, below⟩
  have dropped : unread front record.1 = [] := by
    refine List.filter_eq_nil_iff.mpr ?_
    intro other inside
    have less := below other inside
    simp only [decide_eq_true_eq]
    omega
  have kept : unread rest record.1 = rest := by
    refine List.filter_eq_self.mpr ?_
    intro other inside
    simpa using above other inside
  rw [again, next]
  simp only [unread, List.filter_append] at dropped kept ⊢
  rw [dropped, List.filter_cons_of_neg (by simp), kept, List.nil_append]

theorem unread_next {freeDb rest : List FreeRecord} {pglast : Nat} {record : FreeRecord}
    (ids : freeDb.Pairwise fun first second => first.1 < second.1)
    (next : unread freeDb pglast = record :: rest) : unread freeDb record.1 = rest :=
  (@unread_split freeDb [] rest pglast record ids next).1

theorem refreshOldest_spec (findOldest last : Nat) (foundOld : Bool) (source : PageSource) :
    ∃ found oldest, refreshOldest findOldest last foundOld source =
        (found, { source with pgoldest := oldest }) ∧
      (oldest = source.pgoldest ∨ oldest = findOldest) := by
  unfold refreshOldest
  split_ifs
  · exact ⟨true, findOldest, rfl, Or.inr rfl⟩
  · exact ⟨foundOld, source.pgoldest, rfl, Or.inl rfl⟩

/-- Nothing but the oldest reader known has changed. -/
theorem Coalesces.refreshed {freeDb : List FreeRecord} {findOldest oldest : Nat}
    {source : PageSource} (known : oldest = source.pgoldest ∨ oldest = findOldest) :
    Coalesces freeDb findOldest source { source with pgoldest := oldest } where
  records := ⟨[], rfl, by simp, by simp, fun _ => rfl⟩
  head := id
  last := Or.inl rfl
  oldest := known
  nextPgno := rfl
  maxPg := rfl
  loose := rfl
  dirtyRoom := rfl
  dirty := rfl

/-- One record more has been merged. -/
theorem Coalesces.merged {freeDb rest : List FreeRecord} {findOldest oldest : Nat}
    {source after : PageSource} {record : FreeRecord} {mop : Midl}
    (ids : freeDb.Pairwise fun first second => first.1 < second.1)
    (next : unread freeDb source.pglast = record :: rest)
    (known : oldest = source.pgoldest ∨ oldest = findOldest) (old : record.1 < oldest)
    (same : mop.contents.Perm (headPages source.pghead ++ record.2))
    (further : Coalesces freeDb findOldest
      { source with pgoldest := oldest, pghead := some mop, pglast := record.1 } after) :
    Coalesces freeDb findOldest source after := by
  obtain ⟨read, split, perm, recent, empty⟩ := further.records
  have older : record.1 < source.pgoldest ∨ record.1 < findOldest := by
    rcases known with rfl | rfl
    · exact Or.inl old
    · exact Or.inr old
  have bound : ∀ id, id < oldest ∨ id < findOldest → id < source.pgoldest ∨ id < findOldest := by
    intro id either
    rcases known with rfl | rfl
    · exact either
    · exact either.elim Or.inr Or.inr
  refine ⟨⟨record :: read, ?_, ?_, ?_, ?_⟩, ?_, ?_, ?_, further.nextPgno, further.maxPg,
    further.loose, further.dirtyRoom, further.dirty⟩
  · rw [next, ← unread_next ids next, split]
    rfl
  · refine perm.trans ?_
    rw [List.flatMap_cons, ← List.append_assoc]
    exact same.append_right _
  · intro other member
    rcases List.mem_cons.mp member with rfl | later
    · exact older
    · exact bound _ (recent other later)
  · intro nothing
    exact absurd nothing (further.head (by simp))
  · intro _
    exact further.head (by simp)
  · rcases further.last with same | earlier
    · rw [same]
      exact Or.inr older
    · exact Or.inr (bound _ earlier)
  · rcases further.oldest with same | found
    · rw [same]
      exact known
    · exact Or.inr found

theorem findRange_spec {mop : Block Nat} {n2 : Nat} : ∀ i, i < mop.size →
    ∃ sought, findRange mop n2 i = some sought ∧ ∀ last, sought = some last →
      n2 < last ∧ last ≤ i ∧ mop.cell (last - n2) = mop.cell last + n2 := by
  intro i
  induction i with
  | zero =>
      intro inside
      exact ⟨none, rfl, fun _ impossible => (by cases impossible)⟩
  | succ i ih =>
      intro inside
      by_cases more : n2 < i + 1
      · by_cases fits : mop.cell (i + 1 - n2) = mop.cell (i + 1) + n2
        · refine ⟨some (i + 1), ?_, ?_⟩
          · simp only [findRange, if_pos more, mop.get_inside inside,
              mop.get_inside (by omega : i + 1 - n2 < mop.size), Option.bind_eq_bind,
              Option.bind_some, if_pos fits, Option.pure_def]
          · rintro last ⟨⟩
            exact ⟨more, Nat.le_refl _, fits⟩
        · obtain ⟨sought, ran, found⟩ := ih (by omega)
          refine ⟨sought, ?_, ?_⟩
          · simp only [findRange, if_pos more, mop.get_inside inside,
              mop.get_inside (by omega : i + 1 - n2 < mop.size), Option.bind_eq_bind,
              Option.bind_some, if_neg fits, ran]
          · intro last known
            obtain ⟨above, below, same⟩ := found last known
            exact ⟨above, by omega, same⟩
      · refine ⟨none, ?_, fun _ impossible => (by cases impossible)⟩
        simp only [findRange, if_neg more]

theorem HeadSound.inside {mop : Midl} (sound : HeadSound (some mop)) : mop.count < mop.ids.size := by
  obtain ⟨holds, -⟩ := sound mop rfl
  have size : mop.ids.size = mop.allocLen + 1 := holds.size
  have bound : mop.contents.length ≤ mop.allocLen := holds.bound
  have count : mop.count = mop.contents.length := holds.count
  omega

theorem PageSource.seek_spec {source : PageSource} (sound : HeadSound source.pghead) (n2 : Nat) :
    ∃ sought, source.seek n2 = some sought := by
  cases known : source.pghead with
  | none => exact ⟨none, by simp [PageSource.seek, known]⟩
  | some mop =>
      rw [known] at sound
      obtain ⟨sought, ran, -⟩ := @findRange_spec mop.ids n2 mop.count sound.inside
      exact ⟨sought, by simpa [PageSource.seek, known] using ran⟩

/-- A result of `coalesce`. -/
def CoalesceEnds (freeDb : List FreeRecord) (num findOldest : Nat) (source : PageSource)
    (result : Option (Coalesced × PageSource)) : Prop :=
  ∃ ended after, result = some (ended, after) ∧ HeadSound after.pghead ∧
    Coalesces freeDb findOldest source after ∧
    ∀ i, ended = .range i → after.seek (num - 1) = some (some i)

theorem CoalesceEnds.stopped {freeDb : List FreeRecord} {num findOldest oldest : Nat}
    {source : PageSource} {ended : Coalesced} (sound : HeadSound source.pghead)
    (known : oldest = source.pgoldest ∨ oldest = findOldest) (noRange : ∀ i, ended ≠ .range i) :
    CoalesceEnds freeDb num findOldest source
      (some (ended, { source with pgoldest := oldest })) :=
  ⟨ended, _, rfl, sound, Coalesces.refreshed known, fun i same => absurd same (noRange i)⟩

theorem CoalesceEnds.sought {freeDb : List FreeRecord} {num findOldest i : Nat}
    {source : PageSource} (sound : HeadSound source.pghead)
    (ran : source.seek (num - 1) = some (some i)) :
    CoalesceEnds freeDb num findOldest source (some (.range i, source)) :=
  ⟨.range i, source, rfl, sound, Coalesces.refreshed (Or.inl rfl), fun _ same => by
    cases same
    exact ran⟩

/-- What a turn of the loop has come to before it reads a record. -/
theorem beforeRecord_spec {source : PageSource} (sound : HeadSound source.pghead)
    (freeDb : List FreeRecord) (num findOldest : Nat) (retry : Int) (foundOld : Bool) :
    (∃ ended, beforeRecord num findOldest retry foundOld source = some (.inl ended) ∧
      CoalesceEnds freeDb num findOldest source (some ended)) ∨
    ∃ remaining found oldest, beforeRecord num findOldest retry foundOld source =
        some (.inr (remaining, found, { source with pgoldest := oldest })) ∧
      (oldest = source.pgoldest ∨ oldest = findOldest) := by
  obtain ⟨sought, ranSeek⟩ := source.seek_spec sound (num - 1)
  obtain ⟨found, oldest, refreshed, known⟩ :=
    refreshOldest_spec findOldest (source.pglast + 1) foundOld source
  rw [beforeRecord, ranSeek]
  cases sought with
  | some i => exact Or.inl ⟨_, rfl, CoalesceEnds.sought sound ranSeek⟩
  | none =>
      simp only [Option.bind_eq_bind, Option.bind_some, refreshed, Option.pure_def]
      generalize (if num - 1 < source.mopLen then retry - 1 else retry) = remaining
      split_ifs
      · exact Or.inl ⟨_, rfl, CoalesceEnds.stopped sound (Or.inl rfl) (by simp)⟩
      · exact Or.inl ⟨_, rfl, CoalesceEnds.stopped sound known (by simp)⟩
      · exact Or.inr ⟨_, _, _, rfl, known⟩

theorem coalesce_spec {num findOldest : Nat} {memory : Nat → Bool} {freeDb : List FreeRecord}
    (freeSound : FreeDbSound freeDb) : ∀ records retry foundOld (source : PageSource),
    records = unread freeDb source.pglast → HeadSound source.pghead →
    (headPages source.pghead ++ records.flatMap (·.2)).Nodup →
    CoalesceEnds freeDb num findOldest source
      (coalesce num findOldest memory records retry foundOld source) := by
  intro records
  induction records with
  | nil =>
      intro retry foundOld source _ sound _
      rcases beforeRecord_spec sound freeDb num findOldest retry foundOld with
        ⟨ended, ran, ends⟩ | ⟨remaining, found, oldest, ran, known⟩
      · rw [coalesce, ran]
        exact ends
      · rw [coalesce, ran]
        exact CoalesceEnds.stopped sound known (by simp)
  | cons record rest ih =>
      intro retry foundOld source next sound distinct
      rcases beforeRecord_spec sound freeDb num findOldest retry foundOld with
        ⟨ended, ran, ends⟩ | ⟨remaining, found, oldest, ran, known⟩
      · rw [coalesce, ran]
        exact ends
      · obtain ⟨foundAgain, oldestAgain, refreshed, knownAgain⟩ :=
          refreshOldest_spec findOldest record.1 found { source with pgoldest := oldest }
        have knownBoth : oldestAgain = source.pgoldest ∨ oldestAgain = findOldest :=
          knownAgain.elim (fun same => same ▸ known) Or.inr
        obtain ⟨code, mop, ranRoom, roomy⟩ :=
          headWithRoom_spec sound record.2.length (memory record.1)
        rw [coalesce, ran]
        simp only [Option.bind_eq_bind, Option.bind_some, refreshed, ranRoom, Option.pure_def]
        split_ifs with tooRecent done
        · exact CoalesceEnds.stopped sound knownBoth (by simp)
        · obtain ⟨holds, room⟩ := roomy done
          have member : record ∈ freeDb := by
            have listed : record ∈ unread freeDb source.pglast := next ▸ List.mem_cons_self
            exact (List.mem_filter.mp listed).1
          rw [List.flatMap_cons, ← List.append_assoc] at distinct
          have sorted : (headPages source.pghead).Pairwise (· > ·) := by
            cases old : source.pghead with
            | none => exact List.Pairwise.nil
            | some list => exact (sound list old).2
          obtain ⟨merged, ranMerge, mergedSound, same⟩ := xmerge_record holds sorted room
            (freeSound.sorted record member) (freeSound.small record member)
            (List.nodup_append.mp distinct).1
          obtain ⟨ended, after, ranRest, afterSound, further, ranges⟩ :=
            ih remaining foundAgain
              { source with
                pgoldest := oldestAgain
                pghead := some { mop with ids := merged }
                pglast := record.1 }
              (unread_next freeSound.ids next.symm).symm mergedSound
              ((same.append_right _).nodup_iff.mpr distinct)
          rw [ranMerge, Option.bind_some]
          exact ⟨ended, after, ranRest, afterSound,
            Coalesces.merged freeSound.ids next.symm knownBoth (by omega) same further, ranges⟩
        · exact CoalesceEnds.stopped sound knownBoth (by simp)

/-! Taking a range out of `me_pghead`. -/

theorem moveDown_spec : ∀ steps j i (mop : Block Nat), j < i → i + steps < mop.size →
    ∃ after, moveDown steps j i mop = some after ∧ after.size = mop.size ∧
      ∀ k, after.cell k = if j < k ∧ k ≤ j + steps then mop.cell (k + (i - j)) else mop.cell k := by
  intro steps
  induction steps with
  | zero =>
      intro j i mop below inside
      refine ⟨mop, rfl, rfl, ?_⟩
      intro k
      rw [if_neg (by omega)]
  | succ steps ih =>
      intro j i mop below inside
      obtain ⟨after, ran, size, cells⟩ := ih (j + 1) (i + 1) (mop.put (j + 1) (mop.cell (i + 1)))
        (by omega) (by simpa using by omega)
      refine ⟨after, ?_, size, ?_⟩
      · simp only [moveDown, mop.get_inside (by omega : i + 1 < mop.size),
          mop.set_inside (by omega : j + 1 < mop.size), Option.bind_eq_bind, Option.bind_some, ran]
      · intro k
        rw [cells, Block.put_cell, Block.put_cell]
        split_ifs <;> first | rfl | omega | (congr 1; omega)

/-- In a strictly descending list, IDs whose ends are as far apart as their indices are
consecutive. -/
theorem segment_consecutive {mop : Block Nat} {count i n2 : Nat}
    (sorted : (mop.segment 1 count).Pairwise (· > ·)) (above : n2 < i) (below : i ≤ count)
    (ends : mop.cell (i - n2) = mop.cell i + n2) :
    mop.segment (i - n2) (n2 + 1) = (List.range' (mop.cell i) (n2 + 1)).reverse := by
  have falls := Block.segment_pairwise.mp sorted
  have spread : ∀ gap index, 1 ≤ index → index + gap ≤ count →
      mop.cell (index + gap) + gap ≤ mop.cell index := by
    intro gap
    induction gap with
    | zero => intro index _ _; exact Nat.le_refl _
    | succ gap ih =>
        intro index positive bound
        have shorter := ih index positive (by omega)
        have next := falls (index + gap) (index + (gap + 1)) (by omega) (by omega) (by omega)
        omega
  refine List.ext_getElem (by simp) ?_
  intro k left right
  rw [Block.segment_length] at left
  simp only [Block.segment, List.getElem_map, List.getElem_range', List.getElem_reverse,
    List.length_range', Nat.one_mul]
  have upper := spread k (i - n2) (by omega) (by omega)
  have lower := spread (n2 - k) (i - n2 + k) (by omega) (by omega)
  rw [show i - n2 + k + (n2 - k) = i by omega] at lower
  omega

/-- The range that was found is cut out of the list. -/
theorem removeRange_spec {mop : Midl} {num i : Nat} (sound : HeadSound (some mop))
    (positive : 1 ≤ num) (above : num - 1 < i) (below : i ≤ mop.count)
    (ends : mop.ids.cell (i - (num - 1)) = mop.ids.cell i + (num - 1)) :
    ∃ ids front back, removeRange mop.ids num i = some ids ∧
      HeadSound (some { mop with ids := ids }) ∧
      mop.contents = front ++ (List.range' (mop.ids.cell i) num).reverse ++ back ∧
      ({ mop with ids := ids } : Midl).contents = front ++ back := by
  obtain ⟨holds, sorted⟩ := sound mop rfl
  have inside := sound.inside
  have read : mop.ids.get 0 = some mop.count := mop.ids.get_inside (by omega)
  obtain ⟨after, ran, size, cells⟩ := moveDown_spec (mop.count - num - (i - num)) (i - num) i
    (mop.ids.put 0 (mop.count - num)) (by omega) (by simpa using by omega)
  have whole : mop.contents = mop.ids.segment 1 (i - num) ++
      (List.range' (mop.ids.cell i) num).reverse ++ mop.ids.segment (i + 1) (mop.count - i) := by
    have run := segment_consecutive sorted above below ends
    rw [show num - 1 + 1 = num by omega] at run
    rw [← run, Midl.contents, show mop.count = i - num + num + (mop.count - i) by omega,
      Block.segment_append, Block.segment_append, show 1 + (i - num) = i - (num - 1) by omega,
      show 1 + (i - num + num) = i + 1 by omega,
      show i - num + num + (mop.count - i) - i = mop.count - i by omega]
  have count : after.cell 0 = mop.count - num := by
    rw [cells, if_neg (by omega), Block.put_cell_same]
  have rest : ({ mop with ids := after } : Midl).contents =
      mop.ids.segment 1 (i - num) ++ mop.ids.segment (i + 1) (mop.count - i) := by
    have front : after.segment 1 (i - num) = mop.ids.segment 1 (i - num) := by
      refine Block.segment_congr ?_
      intro index first last
      rw [cells, if_neg (by omega), Block.put_cell_other _ (by omega)]
    have back : after.segment (1 + (i - num)) (mop.count - i) =
        mop.ids.segment (i + 1) (mop.count - i) := by
      refine Block.segment_shift _ _ ?_
      intro index last
      rw [cells, if_pos (by omega), Block.put_cell_other _ (by omega)]
      congr 1
      omega
    rw [Midl.contents, Midl.count]
    dsimp only
    rw [count, show mop.count - num = i - num + (mop.count - i) by omega, Block.segment_append,
      front, back]
  refine ⟨after, _, _, ?_, ?_, whole, rest⟩
  · simp only [removeRange, read, mop.ids.set_inside (by omega : 0 < mop.ids.size),
      Option.bind_eq_bind, Option.bind_some, ran]
  · intro list known
    cases known
    have shorter : ({ mop with ids := after } : Midl).contents.Sublist mop.contents := by
      rw [whole, rest]
      exact (List.sublist_append_left _ _).append (List.Sublist.refl _)
    refine ⟨⟨rfl, rfl, ?_, ?_, fun impossible => (by cases impossible)⟩, sorted.sublist shorter⟩
    · exact size.trans holds.size
    · exact shorter.length_le.trans holds.bound

/-! Allocation. -/

/-- What an allocation of `num` pages has done. -/
inductive Allocates (freeDb : List FreeRecord) (num findOldest : Nat) (before : PageSource) :
    Allocated → PageSource → Prop
  | loose {page : Nat} {rest : List Nat} (single : num = 1) (known : before.loose = page :: rest) :
      Allocates freeDb num findOldest before (.page page) { before with loose := rest }
  | reused {middle : PageSource} {pgno : Nat} {head : Midl} {front back : List Nat}
      (coalesces : Coalesces freeDb findOldest before middle)
      (found : headPages middle.pghead = front ++ (List.range' pgno num).reverse ++ back)
      (left : head.contents = front ++ back) (known : middle.pghead ≠ none) :
      Allocates freeDb num findOldest before (.page pgno)
        ({ middle with pghead := some head }.addDirty pgno num)
  | extended {middle : PageSource} (coalesces : Coalesces freeDb findOldest before middle)
      (fits : middle.nextPgno + num < middle.maxPg) :
      Allocates freeDb num findOldest before (.page middle.nextPgno)
        ({ middle with nextPgno := middle.nextPgno + num }.addDirty middle.nextPgno num)
  | failed {middle : PageSource} {code : Int} (coalesces : Coalesces freeDb findOldest before middle) :
      Allocates freeDb num findOldest before (.failed code) middle

theorem take_spec {freeDb : List FreeRecord} {num findOldest : Nat} {before source : PageSource}
    (positive : 1 ≤ num) (sound : HeadSound source.pghead)
    (coalesces : Coalesces freeDb findOldest before source) (range : Option Nat)
    (sought : ∀ i, range = some i → source.seek (num - 1) = some (some i)) (pageMemory : Bool) :
    ∃ result after, source.take num range pageMemory = some (result, after) ∧
      HeadSound after.pghead ∧ Allocates freeDb num findOldest before result after := by
  cases range with
  | none =>
      unfold PageSource.take
      dsimp only
      split_ifs with full memory
      · exact ⟨_, _, rfl, sound, .failed coalesces⟩
      · exact ⟨_, _, rfl, sound, .extended coalesces (by omega)⟩
      · exact ⟨_, _, rfl, sound, .failed coalesces⟩
  | some i =>
      have seeks := sought i rfl
      cases known : source.pghead with
      | none => simp [PageSource.seek, known] at seeks
      | some mop =>
          rw [known] at sound
          have inside := sound.inside
          obtain ⟨found, ran, spec⟩ := @findRange_spec mop.ids (num - 1) mop.count inside
          simp only [PageSource.seek, known] at seeks
          rw [seeks] at ran
          cases ran
          obtain ⟨above, below, ends⟩ := spec i rfl
          obtain ⟨ids, front, back, removed, removedSound, found, left⟩ :=
            removeRange_spec sound positive above below ends
          cases pageMemory with
          | true =>
              refine ⟨.page (mop.ids.cell i),
                { source with pghead := some { mop with ids := ids } }.addDirty
                  (mop.ids.cell i) num, ?_, removedSound, ?_⟩
              · simp [PageSource.take, known, mop.ids.get_inside (by omega : i < mop.ids.size),
                  removed]
              · refine .reused coalesces ?_ left (by simp [known])
                rw [known]
                exact found
          | false =>
              refine ⟨.failed enomem, source, ?_, by rwa [known], .failed coalesces⟩
              simp [PageSource.take, known, mop.ids.get_inside (by omega : i < mop.ids.size)]

theorem PageSource.alloc_spec {num findOldest : Nat} {memory : Nat → Bool} {pageMemory : Bool}
    {freeDb : List FreeRecord} {source : PageSource} (positive : 1 ≤ num)
    (freeSound : FreeDbSound freeDb) (sound : HeadSound source.pghead)
    (distinct : (headPages source.pghead ++
      (unread freeDb source.pglast).flatMap (·.2)).Nodup) :
    ∃ result after, source.alloc num findOldest memory pageMemory freeDb = some (result, after) ∧
      HeadSound after.pghead ∧ Allocates freeDb num findOldest source result after := by
  unfold PageSource.alloc
  by_cases full : source.dirtyRoom = 0
  · rw [if_pos full]
    exact ⟨_, _, rfl, sound, .failed (Coalesces.refreshed (Or.inl rfl))⟩
  · rw [if_neg full]
    obtain ⟨ended, middle, ran, middleSound, coalesces, ranges⟩ :=
      coalesce_spec freeSound _ (num * 60) false source rfl sound distinct
    rw [ran]
    cases ended with
    | failed code => exact ⟨_, _, rfl, middleSound, .failed coalesces⟩
    | range i =>
        refine take_spec positive middleSound coalesces (some i) ?_ pageMemory
        rintro index ⟨⟩
        exact ranges i rfl
    | exhausted =>
        exact take_spec positive middleSound coalesces none
          (fun _ impossible => by cases impossible) pageMemory

theorem mdbPageAlloc_spec {num findOldest : Nat} {memory : Nat → Bool} {pageMemory : Bool}
    {freeDb : List FreeRecord} {source : PageSource} (positive : 1 ≤ num)
    (freeSound : FreeDbSound freeDb) (sound : HeadSound source.pghead)
    (distinct : (headPages source.pghead ++
      (unread freeDb source.pglast).flatMap (·.2)).Nodup) :
    ∃ result after, mdbPageAlloc num findOldest memory pageMemory freeDb source =
        some (result, after) ∧ HeadSound after.pghead ∧
      Allocates freeDb num findOldest source result after := by
  unfold mdbPageAlloc
  split
  · rename_i page rest known
    exact ⟨_, _, rfl, sound, .loose rfl known⟩
  · exact PageSource.alloc_spec positive freeSound sound distinct

/-- The pages a transaction may still allocate without making the file longer. -/
def freePages (freeDb : List FreeRecord) (source : PageSource) : List Nat :=
  source.loose ++ headPages source.pghead ++ (unread freeDb source.pglast).flatMap (·.2)

theorem Coalesces.freePages_perm {freeDb : List FreeRecord} {findOldest : Nat}
    {before after : PageSource} (coalesces : Coalesces freeDb findOldest before after) :
    (freePages freeDb after).Perm (freePages freeDb before) := by
  obtain ⟨read, split, same, -⟩ := coalesces.records
  rw [freePages, freePages, split, coalesces.loose, List.flatMap_append]
  refine List.perm_iff_count.mpr fun page => ?_
  have counts := same.count_eq page
  simp only [List.count_append] at counts ⊢
  omega

/-- An allocation gives away consecutive pages of the free ones, or new ones at the end of the
file, and keeps all others. -/
theorem Allocates.freePages_perm {freeDb : List FreeRecord} {num findOldest : Nat}
    {before after : PageSource} {result : Allocated}
    (allocates : Allocates freeDb num findOldest before result after) :
    (result.pages num ++ freePages freeDb after).Perm (freePages freeDb before ++
      List.range' before.nextPgno (after.nextPgno - before.nextPgno)) := by
  cases allocates with
  | loose single known => simp [freePages, Allocated.pages, known, single]
  | @reused middle pgno head front back coalesces found left known =>
      have unchanged : ({ middle with pghead := some head }.addDirty pgno num).nextPgno -
          before.nextPgno = 0 := by
        simp [PageSource.addDirty, coalesces.nextPgno]
      rw [unchanged, List.range'_zero, List.append_nil]
      refine List.Perm.trans ?_ coalesces.freePages_perm
      refine List.perm_iff_count.mpr fun page => ?_
      simp only [freePages, Allocated.pages, PageSource.addDirty, headPages_some, found, left,
        List.count_append, List.count_reverse]
      omega
  | @extended middle coalesces fits =>
      have added : ({ middle with nextPgno := middle.nextPgno + num }.addDirty
          middle.nextPgno num).nextPgno - before.nextPgno = num := by
        simp [PageSource.addDirty, coalesces.nextPgno]
      rw [added, Allocated.pages, coalesces.nextPgno]
      exact List.perm_append_comm.trans (coalesces.freePages_perm.append_right _)
  | failed coalesces =>
      rw [coalesces.nextPgno, Nat.sub_self, List.range'_zero, List.append_nil]
      exact coalesces.freePages_perm

theorem Coalesces.recent {freeDb : List FreeRecord} {findOldest : Nat}
    {before after : PageSource} (coalesces : Coalesces freeDb findOldest before after)
    {record : FreeRecord} (member : record ∈ unread freeDb before.pglast)
    (recent : before.pgoldest ≤ record.1) (recentFound : findOldest ≤ record.1) :
    record ∈ unread freeDb after.pglast := by
  obtain ⟨read, split, -, older, -⟩ := coalesces.records
  rw [split] at member
  rcases List.mem_append.mp member with taken | left
  · have below := older record taken
    omega
  · exact left

theorem Allocates.recent {freeDb : List FreeRecord} {num findOldest : Nat}
    {before after : PageSource} {result : Allocated}
    (allocates : Allocates freeDb num findOldest before result after) {record : FreeRecord}
    (member : record ∈ unread freeDb before.pglast) (recent : before.pgoldest ≤ record.1)
    (recentFound : findOldest ≤ record.1) : record ∈ unread freeDb after.pglast := by
  cases allocates with
  | loose single known => exact member
  | reused coalesces found left known => exact coalesces.recent member recent recentFound
  | extended coalesces fits => exact coalesces.recent member recent recentFound
  | failed coalesces => exact coalesces.recent member recent recentFound

/-- `mdb_page_alloc` ends without leaving its lists. What it gives away is consecutive and was free
or is new, all other free pages are still known, and no record was used that is as recent as the
oldest reader, both the one known before and the one found now. -/
theorem mdbPageAlloc_accounts (num findOldest : Nat) (memory : Nat → Bool) (pageMemory : Bool)
    (freeDb : List FreeRecord) (source : PageSource) (positive : 1 ≤ num)
    (freeSound : FreeDbSound freeDb) (sound : HeadSound source.pghead)
    (distinct : (freePages freeDb source).Nodup) :
    ∃ result after, mdbPageAlloc num findOldest memory pageMemory freeDb source =
        some (result, after) ∧ HeadSound after.pghead ∧
      (result.pages num ++ freePages freeDb after).Perm (freePages freeDb source ++
        List.range' source.nextPgno (after.nextPgno - source.nextPgno)) ∧
      ∀ record ∈ unread freeDb source.pglast, source.pgoldest ≤ record.1 →
        findOldest ≤ record.1 → record ∈ unread freeDb after.pglast := by
  rw [freePages, List.append_assoc] at distinct
  obtain ⟨result, after, ran, afterSound, allocates⟩ :=
    mdbPageAlloc_spec positive freeSound sound (List.nodup_append.mp distinct).2.1
  exact ⟨result, after, ran, afterSound, allocates.freePages_perm,
    fun record member recent recentFound => allocates.recent member recent recentFound⟩

theorem mdbPageAlloc_accounts_two : ∃ result after,
    mdbPageAlloc 2 3 (fun _ => true) true [(1, [8, 7]), (3, [5])]
        ⟨none, 0, 0, 9, 20, [], midlUmMax, []⟩ = some (result, after) ∧
      (3, [5]) ∈ unread [(1, [8, 7]), (3, [5])] after.pglast := by
  obtain ⟨result, after, ran, -, -, recent⟩ := mdbPageAlloc_accounts 2 3 (fun _ => true) true
    [(1, [8, 7]), (3, [5])] ⟨none, 0, 0, 9, 20, [], midlUmMax, []⟩ (by decide)
    ⟨by decide, by decide, by decide⟩ (fun _ impossible => (by cases impossible)) (by decide)
  exact ⟨result, after, ran, recent (3, [5]) (by decide) (by decide) (by decide)⟩

/-! Giving pages back. -/

theorem shiftSmaller_spec {pg gap : Nat} : ∀ i (mop : Block Nat), i + gap < mop.size →
    ∃ stop after, shiftSmaller pg i (i + gap) mop = some (stop, after) ∧ stop ≤ i ∧
      after.size = mop.size ∧ (stop = 0 ∨ pg ≤ mop.cell stop) ∧
      (∀ k, stop < k → k ≤ i → mop.cell k < pg) ∧ ∀ k, after.cell k =
        if stop + gap < k ∧ k ≤ i + gap then mop.cell (k - gap) else mop.cell k := by
  intro i
  induction i with
  | zero =>
      intro mop inside
      refine ⟨0, mop, rfl, Nat.le_refl 0, rfl, Or.inl rfl, fun k _ _ => by omega, ?_⟩
      intro k
      rw [if_neg (by omega)]
  | succ i ih =>
      intro mop inside
      have read := mop.get_inside (by omega : i + 1 < mop.size)
      by_cases smaller : mop.cell (i + 1) < pg
      · obtain ⟨stop, after, ran, bound, size, stopped, passed, cells⟩ :=
          ih (mop.put (i + 1 + gap) (mop.cell (i + 1))) (by simpa using by omega)
        have kept : ∀ k, k ≤ i + gap →
            (mop.put (i + 1 + gap) (mop.cell (i + 1))).cell k = mop.cell k :=
          fun k below => mop.put_cell_other (by omega) _
        refine ⟨stop, after, ?_, by omega, size, ?_, ?_, ?_⟩
        · simp only [shiftSmaller, read, Option.bind_eq_bind, Option.bind_some, if_pos smaller,
            mop.set_inside inside]
          rw [show i + 1 + gap - 1 = i + gap by omega]
          exact ran
        · rwa [kept stop (by omega)] at stopped
        · intro k above below
          rcases Nat.lt_or_ge i k with last | earlier
          · have : k = i + 1 := by omega
            subst this
            exact smaller
          · rw [← kept k (by omega)]
            exact passed k above earlier
        · intro k
          rw [cells, Block.put_cell, Block.put_cell]
          split_ifs <;> first | rfl | omega | (congr 1; omega)
      · refine ⟨i + 1, mop, ?_, Nat.le_refl _, rfl, Or.inr (by omega), fun k _ _ => by omega, ?_⟩
        · simp only [shiftSmaller, read, Option.bind_eq_bind, Option.bind_some, if_neg smaller,
            Option.pure_def]
        · intro k
          rw [if_neg (by omega)]

theorem segment_of_descent {ids : Block Nat} {start n id : Nat}
    (cells : ∀ k, k < n → ids.cell (start + k) = id + (n - 1 - k)) :
    ids.segment start n = (List.range' id n).reverse := by
  refine List.ext_getElem (by simp) ?_
  intro k left right
  rw [Block.segment_length] at left
  simp only [Block.segment, List.getElem_map, List.getElem_range', List.getElem_reverse,
    List.length_range', Nat.one_mul]
  exact cells k left

theorem insertRange_segments {mop : Block Nat} {pg ovpages : Nat}
    (inside : mop.cell 0 + ovpages < mop.size) :
    ∃ stop inserted, insertRange mop pg ovpages = some inserted ∧ stop ≤ mop.cell 0 ∧
      (stop = 0 ∨ pg ≤ mop.cell stop) ∧ (∀ k, stop < k → k ≤ mop.cell 0 → mop.cell k < pg) ∧
      inserted.size = mop.size ∧ inserted.cell 0 = mop.cell 0 + ovpages ∧
      inserted.segment 1 (mop.cell 0 + ovpages) = mop.segment 1 stop ++
        (List.range' pg ovpages).reverse ++ mop.segment (stop + 1) (mop.cell 0 - stop) := by
  obtain ⟨stop, shifted, shifts, bound, shiftedSize, stopped, passed, moved⟩ :=
    @shiftSmaller_spec pg ovpages (mop.cell 0) mop inside
  obtain ⟨filled, fills, filledSize, written⟩ :=
    MidlHolds.fillRange_inside stop ovpages pg shifted (by omega)
  obtain ⟨inserted, known⟩ : ∃ inserted, inserted = filled.put 0 (mop.cell 0 + ovpages) := ⟨_, rfl⟩
  have cells : ∀ k, 0 < k → inserted.cell k = filled.cell k := by
    intro k positive
    rw [known, Block.put_cell_other _ (by omega)]
  have front : inserted.segment 1 stop = mop.segment 1 stop := by
    refine Block.segment_congr ?_
    intro index first last
    rw [cells _ (by omega), written, if_neg (by omega), moved, if_neg (by omega)]
  have middle : inserted.segment (1 + stop) ovpages = (List.range' pg ovpages).reverse := by
    refine segment_of_descent ?_
    intro k below
    rw [cells _ (by omega), written, if_pos (by omega)]
    omega
  have back : inserted.segment (1 + (stop + ovpages)) (mop.cell 0 - stop) =
      mop.segment (stop + 1) (mop.cell 0 - stop) := by
    refine Block.segment_shift _ _ ?_
    intro index last
    rw [cells _ (by omega), written, if_neg (by omega), moved, if_pos (by omega)]
    congr 1
    omega
  refine ⟨stop, inserted, ?_, bound, stopped, passed, ?_, ?_, ?_⟩
  · simp only [insertRange, mop.get_inside (by omega : 0 < mop.size), shifts, fills,
      Option.bind_eq_bind, Option.bind_some, filled.set_inside (by omega : 0 < filled.size), known]
  · rw [known]
    exact filledSize.trans shiftedSize
  · rw [known, Block.put_cell_same]
  · rw [← front, ← middle, ← back, ← Block.segment_append, ← Block.segment_append]
    congr 1
    omega

/-- The pages are put where they belong in the descending list. -/
theorem insertRange_spec {mop : Midl} {ids : List Nat} {pg ovpages : Nat}
    (holds : MidlHolds mop ⟨ids, mop.allocLen, false⟩) (sorted : ids.Pairwise (· > ·))
    (room : ids.length + ovpages ≤ mop.allocLen)
    (distinct : (List.range' pg ovpages ++ ids).Nodup) :
    ∃ inserted, insertRange mop.ids pg ovpages = some inserted ∧
      HeadSound (some { mop with ids := inserted }) ∧
      ({ mop with ids := inserted } : Midl).contents.Perm (List.range' pg ovpages ++ ids) := by
  have count : mop.ids.cell 0 = ids.length := holds.count
  have size : mop.ids.size = mop.allocLen + 1 := holds.size
  obtain ⟨stop, inserted, ran, bound, stopped, passed, kept, total, contents⟩ :=
    @insertRange_segments mop.ids pg ovpages (by omega)
  rw [← total] at contents
  have whole : mop.ids.segment 1 stop ++ mop.ids.segment (stop + 1) (mop.ids.cell 0 - stop) = ids := by
    rw [Nat.add_comm stop 1, ← Block.segment_append, Nat.add_sub_cancel' bound]
    exact holds.ids
  have same : (inserted.segment 1 (inserted.cell 0)).Perm (List.range' pg ovpages ++ ids) := by
    rw [contents, ← whole]
    refine List.perm_iff_count.mpr fun page => ?_
    simp only [List.count_append, List.count_reverse]
    omega
  refine ⟨inserted, ran, ?_, same⟩
  intro list known
  cases known
  refine ⟨⟨rfl, rfl, kept.trans size, ?_, fun impossible => (by cases impossible)⟩, ?_⟩
  · have length := same.length_eq
    rw [List.length_append, List.length_range', Nat.add_comm] at length
    exact length.le.trans room
  · refine pairwise_gt_of_nodup ?_ (same.nodup_iff.mpr distinct)
    rw [← whole] at sorted
    obtain ⟨frontSorted, backSorted, across⟩ := List.pairwise_append.mp sorted
    have above : ∀ id ∈ mop.ids.segment 1 stop, pg + ovpages ≤ id := by
      intro id member
      have outside : id ∉ List.range' pg ovpages := by
        intro inside
        refine List.disjoint_of_nodup_append distinct inside ?_
        rw [← whole]
        exact List.mem_append_left _ member
      have least : pg ≤ id := by
        obtain ⟨index, first, last, rfl⟩ := Block.mem_segment.mp member
        have ends := stopped.resolve_left (by omega)
        rcases Nat.lt_or_ge index stop with earlier | final
        · have falls := Block.segment_pairwise.mp frontSorted index stop first earlier (by omega)
          exact ends.trans falls.le
        · rwa [show index = stop by omega]
      rw [List.mem_range'_1] at outside
      omega
    have below : ∀ id ∈ mop.ids.segment (stop + 1) (mop.ids.cell 0 - stop), id < pg := by
      intro id member
      obtain ⟨index, first, last, rfl⟩ := Block.mem_segment.mp member
      exact passed index (by omega) (by omega)
    rw [Midl.contents, Midl.count]
    dsimp only
    rw [contents, List.append_assoc, List.pairwise_append, List.pairwise_append,
      List.pairwise_reverse]
    refine ⟨frontSorted.imp Nat.le_of_lt, ⟨?_, backSorted.imp Nat.le_of_lt, ?_⟩, ?_⟩
    · exact List.pairwise_le_range'
    · intro first member second later
      rw [List.mem_reverse, List.mem_range'_1] at member
      exact (below second later).le.trans member.1
    · intro first member second later
      rcases List.mem_append.mp later with inserted | rest
      · rw [List.mem_reverse, List.mem_range'_1] at inserted
        exact inserted.2.le.trans (above first member)
      · exact (across first member second rest).le

/-- Pages of the transaction itself go back to `me_pghead`: they are free again and no longer
dirty, and nothing else changes. -/
theorem PageSource.giveBack_spec {source : PageSource} {pg ovpages : Nat} {memory : Bool}
    {code : Int} {after : PageSource} (sound : HeadSound source.pghead)
    (distinct : (List.range' pg ovpages ++ headPages source.pghead).Nodup)
    (gave : source.giveBack pg ovpages memory = some (code, after)) :
    HeadSound after.pghead ∧ ((code ≠ 0 ∧ after = source) ∨
      ∃ head, head.contents.Perm (List.range' pg ovpages ++ headPages source.pghead) ∧
        after = { source with
          pghead := some head
          dirty := source.dirty.erase (pg, ovpages)
          dirtyRoom := source.dirtyRoom + 1 }) := by
  cases known : source.pghead with
  | none => simp [giveBack, known] at gave
  | some mop =>
      rw [known] at sound distinct
      obtain ⟨holds, sorted⟩ := sound mop rfl
      obtain ⟨needed, roomy, ran, enough⟩ := mdbMidlNeed_spec holds ovpages memory
      simp only [giveBack, known, ran, Option.bind_eq_bind, Option.bind_some] at gave
      by_cases ready : needed = 0
      · obtain ⟨roomyHolds, room⟩ := enough ready
        obtain ⟨inserted, insert, insertedSound, same⟩ :=
          insertRange_spec roomyHolds sorted room distinct
        simp only [if_pos ready, insert, Option.bind_some, Option.pure_def, Option.some.injEq,
          Prod.mk.injEq] at gave
        obtain ⟨-, rfl⟩ := gave
        exact ⟨insertedSound, Or.inr ⟨_, same, rfl⟩⟩
      · simp only [if_neg ready, Option.pure_def, Option.some.injEq, Prod.mk.injEq] at gave
        obtain ⟨rfl, rfl⟩ := gave
        refine ⟨by rwa [known], Or.inl ⟨ready, rfl⟩⟩

end LmdbJni
