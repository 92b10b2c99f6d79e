import LmdbJni.FreelistSaveCore
import LmdbJni.PageAlloc
import LmdbJni.MidlSort

/-!
`mdb_freelist_save` loses no page and keeps none twice. Whatever the puts of its loop do to the
lists, what it has reserved when it ends is enough for the pages of `me_pghead`, under IDs of
records that have been used up; and if nothing changes any more it ends.
-/

namespace LmdbJni

open Cells

theorem sortPages_spec {pages : List Nat} (short : pages.length < 2 ^ 30) :
    ∃ sorted, sortPages pages = some sorted ∧ sorted.Perm pages ∧ sorted.Pairwise (· ≥ ·) := by
  obtain ⟨after, ran, -, -, same, sorted⟩ :=
    mdbMidlSort_descending (idlOf pages) short (Nat.lt_succ_self _)
  refine ⟨after.segment 1 pages.length, ?_, ?_, sorted⟩
  · simp only [sortPages, ran, Option.bind_eq_bind, Option.bind_some, Option.pure_def]
  · rwa [show (idlOf pages).segment 1 ((idlOf pages).cell 0) = pages from idlOf_segment pages] at same

/-! Records. -/

theorem putRecord_front {id : Nat} {slot : SaveSlot} {records : List (Nat × SaveSlot)}
    (first : ∀ record ∈ records, id < record.1) :
    putRecord id slot records = (id, slot) :: records := by
  cases records with
  | nil => rfl
  | cons record rest => rw [putRecord, if_pos (first record List.mem_cons_self)]

theorem putRecord_same (id : Nat) (slot old : SaveSlot) (rest : List (Nat × SaveSlot)) :
    putRecord id slot ((id, old) :: rest) = (id, slot) :: rest := by
  rw [putRecord, if_neg (Nat.lt_irrefl id), if_pos rfl]

theorem putRecord_append {id : Nat} {slot : SaveSlot} : ∀ {front back : List (Nat × SaveSlot)},
    (∀ record ∈ front, record.1 < id) →
    putRecord id slot (front ++ back) = front ++ putRecord id slot back := by
  intro front
  induction front with
  | nil => intro back _; rfl
  | cons record rest ih =>
      intro back below
      have earlier := below record List.mem_cons_self
      rw [List.cons_append, putRecord, if_neg (by omega), if_neg (by omega),
        ih fun other member => below other (List.mem_cons_of_mem _ member), List.cons_append]

theorem deleteRead_spec {target : Nat} {slot : SaveSlot} {back : List (Nat × SaveSlot)} :
    ∀ (front : List (Nat × SaveSlot)) (saving : Saving), (∀ record ∈ front, record.1 < target) →
      saving.pglast < target →
      deleteRead target (front ++ (target, slot) :: back) saving =
        some { saving with
          freeDb := back
          pglast := target
          headId := target
          totalRoom := 0
          headRoom := 0 } := by
  intro front
  induction front with
  | nil =>
      intro saving _ behind
      rw [List.nil_append, deleteRead, if_pos behind]
      cases back with
      | nil => simp [deleteRead]
      | cons record rest => simp [deleteRead]
  | cons record rest ih =>
      intro saving below behind
      rw [List.cons_append, deleteRead, if_pos behind,
        ih _ (fun other member => below other (List.mem_cons_of_mem _ member))
          (below record List.mem_cons_self)]

theorem deleteRead_nothing {target : Nat} {saving : Saving} (done : target ≤ saving.pglast) :
    deleteRead target saving.freeDb saving = some saving := by
  cases known : saving.freeDb with
  | nil => rw [deleteRead, if_neg (by omega), ← known]
  | cons record rest => rw [deleteRead, if_neg (by omega), ← known]

/-! The state of the loop. -/

def roomRecords (reserved : List (Nat × Nat)) : List (Nat × SaveSlot) :=
  reserved.map fun record => (record.1, .room record.2)

def pageRecords (records : List FreeRecord) : List (Nat × SaveSlot) :=
  records.map fun record => (record.1, .pages record.2)

/-- The record of the transaction itself, if it has freed pages. -/
def ownRecord (txnid : Nat) (sorted : List Nat) : List FreeRecord :=
  if sorted = [] then [] else [(txnid, sorted)]

def rooms (reserved : List (Nat × Nat)) : Nat := (reserved.map (·.2)).sum

@[simp] theorem rooms_cons (record : Nat × Nat) (rest : List (Nat × Nat)) :
    rooms (record :: rest) = record.2 + rooms rest := by
  simp [rooms]

/-- The freeDB has the reserved records, the records that have not been read and the one of the
transaction. -/
structure SaveBase (freeDb : List FreeRecord) (txnid : Nat) (saved sorted : List Nat)
    (saving : Saving) (reserved : List (Nat × Nat)) : Prop where
  records : saving.freeDb = roomRecords reserved ++
    pageRecords (unread freeDb saving.pglast ++ ownRecord txnid sorted)
  ids : reserved.Pairwise fun first second => first.1 < second.1
  bounds : ∀ record ∈ reserved, saving.headId ≤ record.1 ∧ record.1 ≤ saving.pglast
  headId : saving.headId ≤ saving.pglast
  positive : 0 < saving.pglast → 0 < saving.headId
  used : reserved ≠ [] → 0 < saving.pglast
  total : saving.totalRoom = rooms reserved
  freecnt : saving.freecnt = saved.length
  same : sorted.Perm saved
  descending : sorted.Pairwise (· ≥ ·)

/-- `head_room` is the room of the first reserved record. -/
structure SaveShape (freeDb : List FreeRecord) (txnid : Nat) (saved sorted : List Nat)
    (saving : Saving) (reserved : List (Nat × Nat)) : Prop
    extends SaveBase freeDb txnid saved sorted saving reserved where
  head : reserved = [] ∧ saving.headRoom = 0 ∨
    ∃ room rest, reserved = (saving.headId, room) :: rest ∧ saving.headRoom = room

/-- A world the loop may find after another: further records may have been read and further pages
freed, and there are pages in `me_pghead` only if records have been read. -/
structure SaveWorld.Follows (freeDb : List FreeRecord) (pglast : Nat) (freed : List Nat)
    (world : SaveWorld) : Prop where
  pglast : world.pglast = pglast ∨
    pglast < world.pglast ∧ ∃ pages, (world.pglast, pages) ∈ freeDb
  freePgs : freed.Subperm world.freePgs
  short : world.freePgs.length < 2 ^ 30
  head : world.mop ≠ [] → 0 < world.pglast

/-- The IDs of the freeDB of a transaction. -/
structure SaveIds (freeDb : List FreeRecord) (txnid : Nat) : Prop where
  sorted : freeDb.Pairwise fun first second => first.1 < second.1
  positive : ∀ record ∈ freeDb, 0 < record.1
  older : ∀ record ∈ freeDb, record.1 < txnid

section

variable {freeDb : List FreeRecord} {txnid : Nat} {saved sorted : List Nat} {saving : Saving}
  {reserved : List (Nat × Nat)} {world : SaveWorld}

theorem SaveShape.deleted (shape : SaveShape freeDb txnid saved sorted saving reserved)
    (ids : SaveIds freeDb txnid) {freed : List Nat}
    (follows : world.Follows freeDb saving.pglast freed) :
    ∃ next kept, deleteRead world.pglast saving.freeDb saving = some next ∧
      SaveShape freeDb txnid saved sorted next kept ∧ next.pglast = world.pglast ∧
      next.more = saving.more := by
  rcases follows.pglast with same | ⟨later, pages, member⟩
  · exact ⟨saving, reserved, deleteRead_nothing (Nat.le_of_eq same), shape, same.symm, rfl⟩
  · have listed : (world.pglast, pages) ∈ unread freeDb saving.pglast :=
      List.mem_filter.mpr ⟨member, by simpa using later⟩
    obtain ⟨front, back, split⟩ := List.append_of_mem listed
    obtain ⟨rest, below⟩ := unread_split ids.sorted split
    have records : saving.freeDb = (roomRecords reserved ++ pageRecords front) ++
        (world.pglast, SaveSlot.pages pages) ::
          pageRecords (unread freeDb world.pglast ++ ownRecord txnid sorted) := by
      rw [shape.records, split, ← rest]
      simp [pageRecords]
    have earlier : ∀ record ∈ roomRecords reserved ++ pageRecords front,
        record.1 < world.pglast := by
      intro record inside
      rcases List.mem_append.mp inside with room | page
      · obtain ⟨kept, keptMember, rfl⟩ := List.mem_map.mp room
        exact lt_of_le_of_lt (shape.bounds kept keptMember).2 later
      · obtain ⟨read, readMember, rfl⟩ := List.mem_map.mp page
        exact below read readMember
    have base : SaveBase freeDb txnid saved sorted
        { saving with
          freeDb := pageRecords (unread freeDb world.pglast ++ ownRecord txnid sorted)
          pglast := world.pglast
          headId := world.pglast
          totalRoom := 0
          headRoom := 0 } [] :=
      ⟨rfl, List.Pairwise.nil, by simp, Nat.le_refl _, id, by simp, rfl, shape.freecnt, shape.same,
        shape.descending⟩
    refine ⟨_, [], ?_, ⟨base, Or.inl ⟨rfl, rfl⟩⟩, rfl, rfl⟩
    rw [records]
    exact deleteRead_spec _ saving earlier later

theorem nextRoom_nonneg (maxfree1pg headId : Nat) (headRoom : Int) :
    0 ≤ nextRoom maxfree1pg headId headRoom := by
  unfold nextRoom
  split_ifs with large negative
  · have quotient : 0 ≤ headRoom / (headId : Int) := Int.ediv_nonneg (by omega) (by omega)
    have remainder := Int.emod_lt_of_pos (headRoom / headId) (by omega : (0 : Int) < maxfree1pg + 1)
    omega
  · exact Int.le_refl 0
  · omega

theorem pageRecords_later {pglast id : Nat} (old : id ≤ pglast)
    (own : id < txnid) :
    ∀ record ∈ pageRecords (unread freeDb pglast ++ ownRecord txnid sorted), id < record.1 := by
  intro record member
  obtain ⟨source, inside, rfl⟩ := List.mem_map.mp member
  rcases List.mem_append.mp inside with left | mine
  · have later := (List.mem_filter.mp left).2
    simp only [decide_eq_true_eq] at later
    exact lt_of_le_of_lt old later
  · unfold ownRecord at mine
    split_ifs at mine
    · cases mine
    · rw [List.mem_singleton.mp mine]
      exact own

/-- The first reserved record is written, over the one that is there or in front of the others. -/
theorem SaveBase.rewritten (maxfree1pg mopLen : Nat) {rest : List (Nat × Nat)}
    (base : SaveBase freeDb txnid saved sorted saving reserved) (old : saving.pglast < txnid)
    (read : 0 < saving.pglast)
    (others : reserved = rest ∧ saving.headRoom = 0 ∧ (∀ record ∈ rest, saving.headId < record.1) ∨
      ∃ room : Nat, reserved = (saving.headId, room) :: rest ∧ saving.headRoom = room) :
    SaveShape freeDb txnid saved sorted (rewriteHead maxfree1pg mopLen saving)
      ((saving.headId, (nextRoom maxfree1pg saving.headId (mopLen - rooms rest)).toNat) ::
        rest) := by
  have headId := base.headId
  have bounds := base.bounds
  have left : saving.totalRoom - saving.headRoom = rooms rest := by
    rw [base.total]
    rcases others with ⟨same, zero, -⟩ | ⟨room, same, known⟩
    · rw [same, zero, Int.sub_zero]
    · rw [same, known, rooms_cons]
      omega
  have later : ∀ record ∈ rest, saving.headId < record.1 ∧ record.1 ≤ saving.pglast := by
    rcases others with ⟨same, -, above⟩ | ⟨room, same, -⟩
    · intro record member
      exact ⟨above record member, (bounds record (same ▸ member)).2⟩
    · intro record member
      have sortedIds := base.ids
      rw [same] at sortedIds
      refine ⟨(List.pairwise_cons.mp sortedIds).1 record member, (bounds record ?_).2⟩
      rw [same]
      exact List.mem_cons_of_mem _ member
  have restIds : rest.Pairwise fun first second => first.1 < second.1 := by
    have sortedIds := base.ids
    rcases others with ⟨same, -, -⟩ | ⟨room, same, -⟩
    · rwa [same] at sortedIds
    · rw [same] at sortedIds
      exact (List.pairwise_cons.mp sortedIds).2
  have behind : ∀ record ∈ roomRecords rest ++
      pageRecords (unread freeDb saving.pglast ++ ownRecord txnid sorted),
      saving.headId < record.1 := by
    intro record member
    rcases List.mem_append.mp member with room | page
    · obtain ⟨source, inside, rfl⟩ := List.mem_map.mp room
      exact (later source inside).1
    · exact pageRecords_later headId (by omega) record page
  have nonneg := nextRoom_nonneg maxfree1pg saving.headId (mopLen - rooms rest)
  refine ⟨⟨?_, List.pairwise_cons.mpr ⟨fun record member => (later record member).1, restIds⟩, ?_,
    headId, base.positive, fun _ => read, ?_, base.freecnt, base.same, base.descending⟩,
    Or.inr ⟨_, rest, rfl, ?_⟩⟩
  · simp only [rewriteHead, left]
    rw [base.records]
    rcases others with ⟨same, -, -⟩ | ⟨room, same, -⟩
    · rw [same, putRecord_front behind]
      rfl
    · rw [same]
      exact putRecord_same _ _ _ _
  · intro record member
    rcases List.mem_cons.mp member with rfl | older
    · exact ⟨Nat.le_refl _, headId⟩
    · exact ⟨Nat.le_of_lt (later record older).1, (later record older).2⟩
  · simp only [rewriteHead, left]
    rw [rooms_cons, Nat.cast_add, Int.toNat_of_nonneg nonneg, Int.add_comm]
  · simp only [rewriteHead, left]
    exact (Int.toNat_of_nonneg nonneg).symm

/-- What a pass has come to. -/
inductive PassEnds (freeDb : List FreeRecord) (txnid : Nat) (saved sorted : List Nat)
    (world : SaveWorld) : SavePass → Prop
  | again {next : Saving} {nextSorted : List Nat} {reserved : List (Nat × Nat)}
      (shape : SaveShape freeDb txnid world.freePgs nextSorted next reserved)
      (pglast : next.pglast = world.pglast) :
      PassEnds freeDb txnid saved sorted world (.again next)
  | done {next : Saving} {reserved : List (Nat × Nat)}
      (shape : SaveShape freeDb txnid saved sorted next reserved)
      (pglast : next.pglast = world.pglast) (freed : saved.Perm world.freePgs)
      (enough : world.mop.length ≤ rooms reserved) :
      PassEnds freeDb txnid saved sorted world (.done next)

theorem SaveShape.recount {freed : List Nat} (same : saved.Perm freed)
    (shape : SaveShape freeDb txnid saved sorted saving reserved) :
    SaveShape freeDb txnid freed sorted saving reserved :=
  ⟨⟨shape.records, shape.ids, shape.bounds, shape.headId, shape.positive, shape.used, shape.total,
    shape.freecnt.trans same.length_eq, shape.same.trans same, shape.descending⟩, shape.head⟩

theorem SaveShape.others (shape : SaveShape freeDb txnid saved sorted saving reserved) :
    ∃ rest, reserved = rest ∧ saving.headRoom = 0 ∧
        (∀ record ∈ rest, saving.headId < record.1) ∨
      ∃ room : Nat, reserved = (saving.headId, room) :: rest ∧ saving.headRoom = room := by
  rcases shape.head with ⟨empty, zero⟩ | ⟨room, rest, known, same⟩
  · exact ⟨[], Or.inl ⟨empty, zero, by simp⟩⟩
  · exact ⟨rest, Or.inr ⟨room, known, same⟩⟩

theorem reserve_cases (maxfree1pg mopLen : Nat)
    (shape : SaveShape freeDb txnid saved sorted saving reserved) (old : saving.pglast < txnid)
    (head : 0 < mopLen → 0 < saving.pglast) :
    (∃ next kept, reserve maxfree1pg mopLen saving = .again next ∧
      SaveShape freeDb txnid saved sorted next kept ∧ next.pglast = saving.pglast) ∨
    ∃ next kept, reserve maxfree1pg mopLen saving = .done next ∧
      SaveShape freeDb txnid saved sorted next kept ∧ next.pglast = saving.pglast ∧
      mopLen ≤ rooms kept := by
  have total := shape.total
  have read : saving.totalRoom ≠ mopLen → 0 < saving.pglast := by
    intro different
    by_cases empty : reserved = []
    · refine head ?_
      rw [empty, show rooms [] = 0 from rfl] at total
      omega
    · exact shape.used empty
  obtain ⟨rest, others⟩ := shape.others
  unfold reserve
  split_ifs with enough fits spent full
  · exact Or.inr ⟨_, _, rfl, shape, rfl, by omega⟩
  · have same : SaveShape freeDb txnid saved sorted { saving with more := saving.more - 1 } reserved :=
      ⟨⟨shape.records, shape.ids, shape.bounds, shape.headId, shape.positive, shape.used,
        shape.total, shape.freecnt, shape.same, shape.descending⟩, shape.head⟩
    exact Or.inr ⟨_, _, rfl, same, rfl, by omega⟩
  · have same : SaveBase freeDb txnid saved sorted { saving with more := saving.more - 1 } reserved :=
      ⟨shape.records, shape.ids, shape.bounds, shape.headId, shape.positive, shape.used,
        shape.total, shape.freecnt, shape.same, shape.descending⟩
    exact Or.inl ⟨_, _, rfl, same.rewritten maxfree1pg mopLen old (read fits) others, rfl⟩
  · have lower : SaveBase freeDb txnid saved sorted
        { saving with headId := saving.headId - 1, headRoom := 0 } reserved := by
      have headId := shape.headId
      refine ⟨shape.records, shape.ids, ?_, ?_, ?_, shape.used, shape.total, shape.freecnt, shape.same,
        shape.descending⟩
      · intro record member
        have bounds := shape.bounds record member
        exact ⟨(Nat.sub_le _ _).trans bounds.1, bounds.2⟩
      · exact (Nat.sub_le _ _).trans headId
      · intro _
        dsimp only
        omega
    refine Or.inl ⟨_, _, rfl, lower.rewritten maxfree1pg mopLen old (read (by omega))
      (Or.inl ⟨rfl, rfl, ?_⟩), rfl⟩
    intro record member
    have bounds := shape.bounds record member
    dsimp only
    omega
  · exact Or.inl ⟨_, _, rfl, shape.toSaveBase.rewritten maxfree1pg mopLen old (read (by omega)) others,
      rfl⟩

theorem ownRecord_put {pglast : Nat} {next : List Nat} (ids : SaveIds freeDb txnid)
    (nonempty : next ≠ []) (below : ∀ record ∈ reserved, record.1 < txnid) :
    putRecord txnid (.pages next) (roomRecords reserved ++
        pageRecords (unread freeDb pglast ++ ownRecord txnid sorted)) =
      roomRecords reserved ++ pageRecords (unread freeDb pglast ++ ownRecord txnid next) := by
  have front : ∀ record ∈ roomRecords reserved ++ pageRecords (unread freeDb pglast),
      record.1 < txnid := by
    intro record member
    rcases List.mem_append.mp member with room | page
    · obtain ⟨source, inside, rfl⟩ := List.mem_map.mp room
      exact below source inside
    · obtain ⟨source, inside, rfl⟩ := List.mem_map.mp page
      exact ids.older source (List.mem_filter.mp inside).1
  have split : ∀ own, roomRecords reserved ++ pageRecords (unread freeDb pglast ++ own) =
      (roomRecords reserved ++ pageRecords (unread freeDb pglast)) ++ pageRecords own := by
    intro own
    simp [pageRecords]
  rw [split, split, putRecord_append front]
  congr 1
  rw [show ownRecord txnid next = [(txnid, next)] from if_neg nonempty]
  unfold ownRecord
  split_ifs
  · rfl
  · exact putRecord_same _ _ _ _

theorem savePass_spec (maxfree1pg : Nat) {freed : List Nat}
    (shape : SaveShape freeDb txnid saved sorted saving reserved) (ids : SaveIds freeDb txnid)
    (listed : saved.Subperm freed) (old : world.pglast < txnid)
    (follows : world.Follows freeDb saving.pglast freed) :
    ∃ pass, savePass maxfree1pg txnid world saving = some pass ∧
      PassEnds freeDb txnid saved sorted world pass := by
  obtain ⟨next, kept, ran, nextShape, pglast, -⟩ := shape.deleted ids follows
  have counted := nextShape.freecnt
  have whole : saved.Subperm world.freePgs := listed.trans follows.freePgs
  by_cases more : next.freecnt < world.freePgs.length
  · obtain ⟨nextSorted, ranSort, same, descending⟩ := sortPages_spec follows.short
    have nonempty : nextSorted ≠ [] := by
      rintro rfl
      have length := same.length_eq
      simp only [List.length_nil] at length
      omega
    have stored : SaveShape freeDb txnid world.freePgs nextSorted
        { next with
          freecnt := world.freePgs.length
          freeDb := putRecord txnid (.pages nextSorted) next.freeDb } kept := by
      refine ⟨⟨?_, nextShape.ids, nextShape.bounds, nextShape.headId, nextShape.positive,
        nextShape.used, nextShape.total, rfl, same, descending⟩, nextShape.head⟩
      dsimp only
      rw [nextShape.records]
      refine ownRecord_put ids nonempty ?_
      intro record member
      have bounds := nextShape.bounds record member
      omega
    refine ⟨_, ?_, .again stored pglast⟩
    simp only [savePass, ran, Option.bind_eq_bind, Option.bind_some, if_pos more, ranSort,
      Option.pure_def]
  · have equal : saved.Perm world.freePgs := whole.perm_of_length_le (by omega)
    refine ⟨reserve maxfree1pg world.mop.length next, ?_, ?_⟩
    · simp only [savePass, ran, Option.bind_eq_bind, Option.bind_some, if_neg more, Option.pure_def]
    · rcases reserve_cases maxfree1pg world.mop.length nextShape (by omega)
          (fun nonempty => pglast ▸ follows.head (List.ne_nil_of_length_pos nonempty)) with
        ⟨after, afterKept, known, afterShape, same⟩ | ⟨after, afterKept, known, afterShape, same, enough⟩
      · rw [known]
        exact .again (afterShape.recount equal) (same.trans pglast)
      · rw [known]
        exact .done afterShape (same.trans pglast) equal enough

end

/-! Runs of the loop. -/

/-- Worlds the loop may find one after the other. -/
def SaveWorlds (freeDb : List FreeRecord) (txnid : Nat) :
    (pglast : Nat) → (freed : List Nat) → List SaveWorld → Prop
  | _, _, [] => True
  | pglast, freed, world :: rest =>
      world.Follows freeDb pglast freed ∧ world.pglast < txnid ∧
        SaveWorlds freeDb txnid world.pglast world.freePgs rest

theorem savePasses_spec {maxfree1pg txnid : Nat} {freeDb : List FreeRecord}
    (ids : SaveIds freeDb txnid) : ∀ (worlds : List SaveWorld) (saving : Saving)
    (saved sorted freed : List Nat) (reserved : List (Nat × Nat)),
    SaveShape freeDb txnid saved sorted saving reserved → saved.Subperm freed →
    SaveWorlds freeDb txnid saving.pglast freed worlds → ∀ final world,
    savePasses maxfree1pg txnid worlds saving = some (final, world) →
    ∃ sorted reserved, SaveShape freeDb txnid world.freePgs sorted final reserved ∧
      final.pglast = world.pglast ∧ world.pglast < txnid ∧ world.mop.length ≤ rooms reserved := by
  intro worlds
  induction worlds with
  | nil =>
      intro saving saved sorted freed reserved shape listed valid final world ran
      cases ran
  | cons first rest ih =>
      intro saving saved sorted freed reserved shape listed valid final world ran
      obtain ⟨follows, old, validRest⟩ := valid
      obtain ⟨pass, ranPass, ends⟩ := savePass_spec maxfree1pg shape ids listed old follows
      simp only [savePasses, ranPass, Option.bind_eq_bind, Option.bind_some] at ran
      cases ends with
      | again nextShape pglast =>
          rw [← pglast] at validRest
          exact ih _ _ _ _ _ nextShape (List.Subperm.refl _) validRest final world ran
      | done nextShape pglast equal enough =>
          simp only [Option.pure_def, Option.some.injEq, Prod.mk.injEq] at ran
          obtain ⟨rfl, rfl⟩ := ran
          exact ⟨_, _, nextShape.recount equal, pglast, old, enough⟩

/-- A world that stays. -/
theorem SaveWorlds.stays {freeDb : List FreeRecord} {txnid : Nat} {last : SaveWorld} (passes : Nat) :
    ∀ (worlds : List SaveWorld) (pglast : Nat) (freed : List Nat),
      SaveWorlds freeDb txnid pglast freed (worlds ++ [last]) →
      SaveWorlds freeDb txnid pglast freed (worlds ++ List.replicate passes last) := by
  intro worlds
  induction worlds with
  | nil =>
      intro pglast freed valid
      induction passes generalizing pglast freed with
      | zero => trivial
      | succ passes ih =>
          obtain ⟨follows, old, -⟩ := valid
          have again : last.Follows freeDb last.pglast last.freePgs :=
            ⟨Or.inl rfl, (List.Subperm.refl _), follows.short, follows.head⟩
          exact ⟨follows, old, ih last.pglast last.freePgs ⟨again, old, trivial⟩⟩
  | cons first rest ih =>
      intro pglast freed valid
      exact ⟨valid.1, valid.2.1, ih first.pglast first.freePgs valid.2.2⟩

/-! The loop ends if the world stays as it is. -/

/-- What a pass lowers: the ID of the first reserved record, the passes left for a better fit, and
whether the first record is written and whether it fits. -/
def saveMeasure (maxfree1pg mopLen : Nat) (saving : Saving) : Nat :=
  3 * saving.headId + 2 * (saving.more + 1).toNat +
    (if saving.totalRoom = mopLen then 0
      else if maxfree1pg ≤ saving.headRoom ∧ 1 < saving.headId then 1 else 2)

theorem rewriteHead_measure (maxfree1pg mopLen : Nat) (saving : Saving) :
    saveMeasure maxfree1pg mopLen (rewriteHead maxfree1pg mopLen saving) ≤
      3 * saving.headId + 2 * (saving.more + 1).toNat + 2 := by
  unfold saveMeasure
  split_ifs <;> simp only [rewriteHead] <;> omega

/-- The first record is written anew: it fits, or it is full. -/
theorem rewriteHead_fits (maxfree1pg mopLen : Nat) (saving : Saving)
    (less : saving.totalRoom < mopLen) (nonneg : 0 ≤ saving.headRoom) :
    saveMeasure maxfree1pg mopLen (rewriteHead maxfree1pg mopLen saving) ≤
      3 * saving.headId + 2 * (saving.more + 1).toNat + 1 := by
  unfold saveMeasure
  simp only [rewriteHead, nextRoom]
  by_cases large : (maxfree1pg : Int) < mopLen - (saving.totalRoom - saving.headRoom) ∧
      1 < saving.headId
  · simp only [if_pos large]
    have quotient : 0 ≤ (mopLen - (saving.totalRoom - saving.headRoom)) / (saving.headId : Int) :=
      Int.ediv_nonneg (by omega) (by omega)
    generalize (mopLen - (saving.totalRoom - saving.headRoom)) / (saving.headId : Int) = share
      at quotient
    have remainder : share % (maxfree1pg + 1) ≤ share := by
      obtain ⟨count, rfl⟩ := Int.eq_ofNat_of_zero_le quotient
      exact_mod_cast Nat.mod_le count (maxfree1pg + 1)
    split_ifs <;> omega
  · simp only [if_neg large]
    split_ifs <;> omega

theorem reserve_measure (maxfree1pg mopLen : Nat) (saving next : Saving)
    (nonneg : 0 ≤ saving.headRoom) (again : reserve maxfree1pg mopLen saving = .again next) :
    saveMeasure maxfree1pg mopLen next < saveMeasure maxfree1pg mopLen saving := by
  unfold reserve at again
  split_ifs at again with enough fits spent full <;> cases again
  · have bound := rewriteHead_measure maxfree1pg mopLen { saving with more := saving.more - 1 }
    refine Nat.lt_of_le_of_lt bound ?_
    unfold saveMeasure
    rw [if_neg fits]
    dsimp only
    split_ifs <;> omega
  · have bound := rewriteHead_measure maxfree1pg mopLen
      { saving with headId := saving.headId - 1, headRoom := 0 }
    refine Nat.lt_of_le_of_lt bound ?_
    unfold saveMeasure
    rw [if_neg (by omega), if_pos full]
    dsimp only
    omega
  · have bound := rewriteHead_fits maxfree1pg mopLen saving (by omega) nonneg
    refine Nat.lt_of_le_of_lt bound ?_
    unfold saveMeasure
    rw [if_neg (by omega), if_neg full]
    omega

/-- In a world that stays as it is every pass but the first is a `reserve`. -/
theorem savePasses_reserve {maxfree1pg txnid : Nat} {freeDb : List FreeRecord}
    {world : SaveWorld} (old : world.pglast < txnid)
    (head : world.mop ≠ [] → 0 < world.pglast) :
    ∀ (fuel : Nat) (saving : Saving) (sorted : List Nat) (reserved : List (Nat × Nat)),
    SaveShape freeDb txnid world.freePgs sorted saving reserved → saving.pglast = world.pglast →
    saveMeasure maxfree1pg world.mop.length saving < fuel →
    ∃ final, savePasses maxfree1pg txnid (List.replicate fuel world) saving =
      some (final, world) := by
  intro fuel
  induction fuel with
  | zero => intro saving sorted reserved _ _ small; omega
  | succ fuel ih =>
      intro saving sorted reserved shape pglast small
      have nonneg : 0 ≤ saving.headRoom := by
        rcases shape.head with ⟨-, zero⟩ | ⟨room, -, -, same⟩
        · exact zero.ge
        · omega
      have counted := shape.freecnt
      have ran : savePass maxfree1pg txnid world saving =
          some (reserve maxfree1pg world.mop.length saving) := by
        simp only [savePass, deleteRead_nothing pglast.ge, Option.bind_eq_bind, Option.bind_some,
          if_neg (by omega : ¬saving.freecnt < world.freePgs.length), Option.pure_def]
      rw [List.replicate_succ]
      simp only [savePasses, ran, Option.bind_eq_bind, Option.bind_some]
      rcases reserve_cases maxfree1pg world.mop.length shape (by omega : saving.pglast < txnid)
          (fun nonempty => pglast ▸ head (List.ne_nil_of_length_pos nonempty)) with
        ⟨next, kept, known, nextShape, same⟩ | ⟨next, kept, known, -⟩
      · rw [known]
        have lower := reserve_measure maxfree1pg world.mop.length saving next nonneg known
        exact ih next sorted kept nextShape (same.trans pglast) (by omega)
      · rw [known]
        exact ⟨next, rfl⟩

/-- If the last of some worlds stays, the loop ends. -/
theorem savePasses_ends {maxfree1pg txnid : Nat} {freeDb : List FreeRecord}
    (ids : SaveIds freeDb txnid) : ∀ (worlds : List SaveWorld) (last : SaveWorld) (saving : Saving)
    (saved sorted freed : List Nat) (reserved : List (Nat × Nat)),
    SaveShape freeDb txnid saved sorted saving reserved → saved.Subperm freed →
    SaveWorlds freeDb txnid saving.pglast freed (worlds ++ [last]) →
    ∃ passes final world,
      savePasses maxfree1pg txnid (worlds ++ List.replicate passes last) saving =
        some (final, world) := by
  intro worlds
  induction worlds with
  | nil =>
      intro last saving saved sorted freed reserved shape listed valid
      obtain ⟨follows, old, -⟩ := valid
      obtain ⟨pass, ranPass, ends⟩ := savePass_spec maxfree1pg shape ids listed old follows
      cases ends with
      | @again next nextSorted kept nextShape pglast =>
          obtain ⟨final, ran⟩ := savePasses_reserve old follows.head
            (saveMeasure maxfree1pg last.mop.length next + 1) next nextSorted kept nextShape pglast
            (Nat.lt_succ_self _)
          refine ⟨saveMeasure maxfree1pg last.mop.length next + 1 + 1, final, last, ?_⟩
          rw [List.nil_append, List.replicate_succ]
          simp only [savePasses, ranPass, Option.bind_eq_bind, Option.bind_some, ran]
      | @done next kept nextShape pglast equal enough =>
          refine ⟨1, next, last, ?_⟩
          simp only [List.nil_append, List.replicate_one, savePasses, ranPass, Option.bind_eq_bind,
            Option.bind_some, Option.pure_def]
  | cons first rest ih =>
      intro last saving saved sorted freed reserved shape listed valid
      obtain ⟨follows, old, validRest⟩ := valid
      obtain ⟨pass, ranPass, ends⟩ := savePass_spec maxfree1pg shape ids listed old follows
      cases ends with
      | @again next nextSorted kept nextShape pglast =>
          rw [← pglast] at validRest
          obtain ⟨passes, final, world, ran⟩ :=
            ih last next _ _ _ _ nextShape (List.Subperm.refl _) validRest
          refine ⟨passes, final, world, ?_⟩
          simp only [List.cons_append, savePasses, ranPass, Option.bind_eq_bind, Option.bind_some,
            ran]
      | @done next kept nextShape pglast equal enough =>
          refine ⟨0, next, first, ?_⟩
          simp only [List.cons_append, savePasses, ranPass, Option.bind_eq_bind, Option.bind_some,
            Option.pure_def]

/-! Filling the reserved records. -/

theorem fillReserved_pages (records : List FreeRecord) :
    fillReserved (pageRecords records) [] = some records := by
  induction records with
  | nil => rfl
  | cons record rest ih =>
      simp only [pageRecords, List.map_cons, fillReserved, if_true, Option.bind_eq_bind,
        Option.pure_def]
      rw [show List.map (fun record => (record.1, SaveSlot.pages record.2)) rest =
        pageRecords rest from rfl, ih]
      rfl

theorem fillReserved_spec (records : List FreeRecord) : ∀ (reserved : List (Nat × Nat))
    (mop : List Nat), mop.length ≤ rooms reserved →
    ∃ filled, fillReserved (roomRecords reserved ++ pageRecords records) mop =
        some (filled ++ records) ∧ filled.map (·.1) = reserved.map (·.1) ∧
      (filled.flatMap (·.2)).Perm mop ∧ ∀ record ∈ filled, record.2.Sublist mop := by
  intro reserved
  induction reserved with
  | nil =>
      intro mop enough
      have empty : mop = [] := List.length_eq_zero_iff.mp (Nat.le_zero.mp enough)
      subst empty
      exact ⟨[], fillReserved_pages records, rfl, List.Perm.refl _, by simp⟩
  | cons record rest ih =>
      intro mop enough
      rw [rooms_cons] at enough
      obtain ⟨filled, ran, sameIds, same, parts⟩ :=
        ih (mop.take (mop.length - min record.2 mop.length)) (by
          rw [List.length_take]
          omega)
      refine ⟨(record.1, mop.drop (mop.length - min record.2 mop.length)) :: filled, ?_, ?_, ?_, ?_⟩
      · simp only [roomRecords, List.map_cons, List.cons_append, fillReserved, Option.bind_eq_bind,
          Option.pure_def]
        rw [show List.map (fun record => (record.1, SaveSlot.room record.2)) rest =
          roomRecords rest from rfl, ran]
        rfl
      · simp only [List.map_cons, sameIds]
      · rw [List.flatMap_cons]
        refine (List.Perm.append_left _ same).trans ?_
        refine List.perm_append_comm.trans ?_
        rw [List.take_append_drop]
      · intro other member
        rcases List.mem_cons.mp member with rfl | later
        · exact List.drop_sublist _ _
        · exact (parts other later).trans (List.take_sublist _ _)

/-! The freeDB that is saved. -/

/-- The records of used up transactions hold the pages left over, those not read are as they were,
and the transaction has a record of its own. -/
structure FreeDbSaved (freeDb : List FreeRecord) (txnid : Nat) (world : SaveWorld)
    (saved : List FreeRecord) : Prop where
  parts : ∃ filled own, saved = filled ++ unread freeDb world.pglast ++ own ∧
    (filled.flatMap (·.2)).Perm world.mop ∧
    (∀ record ∈ filled, 0 < record.1 ∧ record.1 ≤ world.pglast ∧ record.2.Sublist world.mop) ∧
    (own.flatMap (·.2)).Perm world.freePgs ∧
    ∀ record ∈ own, record.1 = txnid ∧ record.2.Pairwise (· ≥ ·)
  ids : saved.Pairwise fun first second => first.1 < second.1

theorem saved_of_shape {freeDb : List FreeRecord} {txnid : Nat} {sorted : List Nat}
    {final : Saving} {reserved : List (Nat × Nat)} {world : SaveWorld}
    (ids : SaveIds freeDb txnid)
    (shape : SaveShape freeDb txnid world.freePgs sorted final reserved)
    (pglast : final.pglast = world.pglast) (old : world.pglast < txnid)
    (enough : world.mop.length ≤ rooms reserved) :
    ∃ saved, fillReserved final.freeDb world.mop = some saved ∧
      FreeDbSaved freeDb txnid world saved := by
  obtain ⟨filled, ran, sameIds, same, parts⟩ := fillReserved_spec
    (unread freeDb final.pglast ++ ownRecord txnid sorted) reserved world.mop enough
  have bounds : ∀ record ∈ filled, 0 < record.1 ∧ record.1 ≤ world.pglast := by
    intro record member
    have listed : record.1 ∈ reserved.map (·.1) := sameIds ▸ List.mem_map_of_mem member
    obtain ⟨source, inside, equal⟩ := List.mem_map.mp listed
    have limits := shape.bounds source inside
    have read := shape.positive (shape.used (List.ne_nil_of_mem inside))
    omega
  have own : ∀ record ∈ ownRecord txnid sorted,
      record.1 = txnid ∧ record.2.Pairwise (· ≥ ·) := by
    intro record member
    unfold ownRecord at member
    split_ifs at member
    · cases member
    · rw [List.mem_singleton.mp member]
      exact ⟨rfl, shape.descending⟩
  have freed : ((ownRecord txnid sorted).flatMap (·.2)).Perm world.freePgs := by
    refine List.Perm.trans ?_ shape.same
    unfold ownRecord
    split_ifs with empty
    · rw [empty]
      exact List.Perm.refl _
    · simp
  refine ⟨filled ++ (unread freeDb final.pglast ++ ownRecord txnid sorted), ?_, ⟨filled,
    ownRecord txnid sorted, ?_, same, ?_, freed, own⟩, ?_⟩
  · rw [shape.records]
    exact ran
  · rw [pglast, List.append_assoc]
  · intro record member
    exact ⟨(bounds record member).1, (bounds record member).2, parts record member⟩
  · have filledIds : filled.Pairwise fun first second => first.1 < second.1 := by
      have mapped : (filled.map (·.1)).Pairwise (· < ·) := by
        rw [sameIds]
        exact List.pairwise_map.mpr shape.ids
      exact List.pairwise_map.mp mapped
    have ownIds : (ownRecord txnid sorted).Pairwise fun first second => first.1 < second.1 := by
      unfold ownRecord
      split_ifs
      · exact List.Pairwise.nil
      · exact List.pairwise_singleton _ _
    refine List.pairwise_append.mpr ⟨filledIds, List.pairwise_append.mpr
      ⟨ids.sorted.filter _, ownIds, ?_⟩, ?_⟩
    · intro record member mine mineMember
      rw [(own mine mineMember).1]
      exact ids.older record (List.mem_filter.mp member).1
    · intro record member later laterMember
      have limits := bounds record member
      rcases List.mem_append.mp laterMember with left | mine
      · have beyond := (List.mem_filter.mp left).2
        simp only [decide_eq_true_eq] at beyond
        omega
      · rw [(own later mine).1]
        omega

theorem savePasses_start (freeDb : List FreeRecord) (txnid : Nat) (ids : SaveIds freeDb txnid) :
    SaveShape freeDb txnid [] []
      { freeDb := freeDb.map fun record => (record.1, .pages record.2), pglast := 0, headId := 0,
        freecnt := 0, headRoom := 0, totalRoom := 0, more := 1 } [] := by
  refine ⟨⟨?_, List.Pairwise.nil, by simp, Nat.le_refl 0, id, by simp, rfl, rfl,
    List.Perm.refl _, List.Pairwise.nil⟩, Or.inl ⟨rfl, rfl⟩⟩
  have all : unread freeDb 0 = freeDb :=
    List.filter_eq_self.mpr fun record member => by simpa using ids.positive record member
  simp [roomRecords, ownRecord, all, pageRecords]

/-- The loose pages become free ones like those of `me_pghead`. -/
theorem returnLoose_spec {pghead : Option Midl} {loose mop : List Nat} (sound : HeadSound pghead)
    (short : loose.length < 2 ^ 30) (small : ∀ page ∈ loose, page ≤ midlLast)
    (distinct : (headPages pghead ++ loose).Nodup) {memory : Bool}
    (ran : returnLoose pghead loose memory = some mop) :
    mop.Perm (headPages pghead ++ loose) ∧ mop.Pairwise (· > ·) := by
  match pghead, loose with
  | none, [] =>
      cases ran
      exact ⟨List.Perm.refl _, List.Pairwise.nil⟩
  | none, _ :: _ => cases ran
  | some head, [] =>
      cases ran
      rw [List.append_nil]
      exact ⟨List.Perm.refl _, (sound head rfl).2⟩
  | some head, page :: rest =>
      obtain ⟨holds, sorted⟩ := sound head rfl
      obtain ⟨code, roomy, need, enough⟩ :=
        mdbMidlNeed_spec holds (2 * (page :: rest).length + 1) memory
      obtain ⟨pages, sort, same, descending⟩ := sortPages_spec short
      simp only [returnLoose, need, Option.bind_eq_bind, Option.bind_some] at ran
      by_cases ready : code = 0
      case neg => simp [ready] at ran
      obtain ⟨roomyHolds, room⟩ := enough ready
      have length := same.length_eq
      have apart : (head.contents ++ pages).Nodup :=
        (same.append_left head.contents).nodup_iff.mpr distinct
      obtain ⟨merged, merge, mergedSound, mergedSame⟩ := xmerge_record roomyHolds sorted
        (by omega) (pairwise_gt_of_nodup descending (List.Nodup.of_append_right apart))
        (fun id member => small id (same.subset member)) apart
      simp only [if_pos ready, sort, merge, Option.bind_some, Option.pure_def,
        Option.some.injEq] at ran
      subst ran
      exact ⟨mergedSame.trans (same.append_left _), (mergedSound _ rfl).2⟩

/-- When the save ends, every page that was left in `me_pghead` or freed by the transaction is in
one record. -/
theorem mdbFreelistSave_saved {maxfree1pg txnid : Nat} {freeDb saved : List FreeRecord}
    {worlds : List SaveWorld} {world : SaveWorld} (ids : SaveIds freeDb txnid)
    (valid : SaveWorlds freeDb txnid 0 [] worlds)
    (ran : mdbFreelistSave maxfree1pg txnid freeDb worlds = some (world, saved)) :
    FreeDbSaved freeDb txnid world saved := by
  simp only [mdbFreelistSave, Option.bind_eq_bind] at ran
  obtain ⟨⟨final, found⟩, passes, rest⟩ := Option.bind_eq_some_iff.mp ran
  obtain ⟨sorted, reserved, shape, pglast, old, enough⟩ := savePasses_spec ids worlds _ [] [] [] []
    (savePasses_start freeDb txnid ids) (List.Subperm.refl _) valid final found passes
  obtain ⟨known, filled, correct⟩ := saved_of_shape ids shape pglast old enough
  simp only [filled, Option.bind_some, Option.pure_def, Option.some.injEq, Prod.mk.injEq] at rest
  obtain ⟨rfl, rfl⟩ := rest
  exact correct

/-- Whatever the puts of the loop do to the lists, the save ends once they stop doing it; and when
it ends, every page that was left in `me_pghead` or freed by the transaction is in one record. -/
theorem mdbFreelistSave_saves (maxfree1pg txnid : Nat) (freeDb : List FreeRecord)
    (worlds : List SaveWorld) (last : SaveWorld) (ids : SaveIds freeDb txnid)
    (valid : SaveWorlds freeDb txnid 0 [] (worlds ++ [last])) :
    (∃ passes world saved,
      mdbFreelistSave maxfree1pg txnid freeDb (worlds ++ List.replicate passes last) =
        some (world, saved)) ∧
    ∀ passes world saved,
      mdbFreelistSave maxfree1pg txnid freeDb (worlds ++ List.replicate passes last) =
        some (world, saved) → FreeDbSaved freeDb txnid world saved := by
  have start := savePasses_start freeDb txnid ids
  constructor
  · obtain ⟨passes, final, world, ran⟩ := @savePasses_ends maxfree1pg txnid freeDb ids worlds last _
      [] [] [] [] start (List.Subperm.refl _) valid
    obtain ⟨sorted, reserved, shape, pglast, old, enough⟩ := savePasses_spec ids _ _ [] [] [] []
      start (List.Subperm.refl _) (SaveWorlds.stays passes worlds 0 [] valid) final world ran
    obtain ⟨saved, filled, -⟩ := saved_of_shape ids shape pglast old enough
    refine ⟨passes, world, saved, ?_⟩
    simp only [mdbFreelistSave, ran, Option.bind_eq_bind, Option.bind_some, filled, Option.pure_def]
  · intro passes world saved ran
    exact mdbFreelistSave_saved ids (SaveWorlds.stays passes worlds 0 [] valid) ran

theorem mdbFreelistSave_saves_two : ∃ passes world saved,
    mdbFreelistSave 100 6 [(2, [9, 8]), (4, [6])] (List.replicate passes ⟨2, [9], [5]⟩) =
        some (world, saved) ∧
      FreeDbSaved [(2, [9, 8]), (4, [6])] 6 world saved := by
  have follows : SaveWorld.Follows [(2, [9, 8]), (4, [6])] 0 [] ⟨2, [9], [5]⟩ :=
    ⟨Or.inr ⟨by decide, [9, 8], by decide⟩, List.nil_subperm, by decide, fun _ => by decide⟩
  obtain ⟨⟨passes, world, saved, ran⟩, correct⟩ := mdbFreelistSave_saves 100 6
    [(2, [9, 8]), (4, [6])] [] ⟨2, [9], [5]⟩ ⟨by decide, by decide, by decide⟩
    ⟨follows, by decide, trivial⟩
  exact ⟨passes, world, saved, ran, correct passes world saved ran⟩

end LmdbJni
