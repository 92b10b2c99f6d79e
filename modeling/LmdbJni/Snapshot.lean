import LmdbJni.SnapshotCore

/-!
What the steps of readers and writers keep, whatever their order. The pages of the file are
accounted for at any time; a page the writer may write is one that neither the current version nor
any reader's version has; and the meta page that is picked is the last that was written.
-/

namespace LmdbJni

variable {γ : Type}

/-- Every page of the version still has the contents it was committed with. -/
def Intact (file : Nat → γ) (version : Version γ) : Prop :=
  ∀ page ∈ version.pages, file page = version.image page

/-- Every page of a version is one of the current version, or one that was freed after the ID a
reader holds. -/
def Covers (current version : Version γ) (held : Nat) : Prop :=
  ∀ page ∈ version.pages, page ∈ current.pages ∨
    ∃ record ∈ current.freeDb, held < record.1 ∧ page ∈ record.2

/-- The pages of a version: each is used once or free once, and the freeDB is in order. -/
structure VersionSound (version : Version γ) : Prop where
  accounts : (version.pages ++ version.freeDb.flatMap (·.2)).Perm
    (List.range' 2 (version.lastPg - 1))
  ordered : FreeDbSound version.freeDb
  ids : ∀ record ∈ version.freeDb, 0 < record.1 ∧ record.1 ≤ version.txnid
  lastPg : 1 ≤ version.lastPg

/-- An ID no later than the one of any reader and the one of the last commit. -/
structure Oldest (mtiTxnid : Nat) (readers : List (ReaderSlot γ)) (oldest : Nat) : Prop where
  committed : oldest ≤ mtiTxnid
  readers : ∀ slot ∈ readers, ∀ held, slot.phase.held = some held → oldest ≤ held

/-- The two meta pages, with the current one picked. -/
structure MetasSound (metas : Bool → Version γ) (mtiTxnid : Nat) (written : Bool) (file : Nat → γ)
    (history : List (Version γ)) : Prop where
  published : (metaAt metas mtiTxnid).txnid = mtiTxnid
  known : metaAt metas mtiTxnid ∈ history
  sound : ∀ version ∈ history, VersionSound version
  newest : history.head? = some (mdbEnvPickMeta metas)
  order : history.map (·.txnid) = (List.range ((mdbEnvPickMeta metas).txnid + 1)).reverse
  pending : written = true → mdbEnvPickMeta metas = metaAt metas (mtiTxnid + 1) ∧
    (mdbEnvPickMeta metas).txnid = mtiTxnid + 1
  settled : written = false → mdbEnvPickMeta metas = metaAt metas mtiTxnid
  covered : Covers (mdbEnvPickMeta metas) (metaAt metas mtiTxnid) mtiTxnid
  intact : Intact file (metaAt metas mtiTxnid)
  intactNewest : Intact file (mdbEnvPickMeta metas)

/-- A reader that holds an ID has it in its slot, and its version is there. -/
structure SlotSound (metas : Bool → Version γ) (mtiTxnid : Nat) (file : Nat → γ)
    (history : List (Version γ)) (slot : ReaderSlot γ) : Prop where
  stored : ∀ held, slot.phase = .stored held ∨ slot.phase.held = some held →
    slot.pid ≠ 0 ∧ slot.txnid = held
  loaded : ∀ held, slot.phase = .loaded held → slot.pid ≠ 0
  version : ∀ held version, (slot.phase = .registered held ∧ version = metaAt metas held) ∨
      slot.phase = .reading held version →
    held ≤ mtiTxnid ∧ held ≤ version.txnid ∧ version ∈ history ∧
      Covers (mdbEnvPickMeta metas) version held ∧ Intact file version

/-- The freeDB that is about to be committed. -/
structure SavedSound (base : Version γ) (txn : WriteTxn γ) (freeDb : List FreeRecord) : Prop where
  accounts : (txn.pages ++ freeDb.flatMap (·.2)).Perm (List.range' 2 (txn.source.nextPgno - 2))
  ordered : FreeDbSound freeDb
  ids : ∀ record ∈ freeDb, 0 < record.1 ∧ record.1 ≤ txn.txnid
  unread : ∀ record ∈ base.freeDb, txn.source.pglast < record.1 → record ∈ freeDb
  freed : ∀ page ∈ txn.freePgs, ∃ record ∈ freeDb, record.1 = txn.txnid ∧ page ∈ record.2

/-- A write transaction over the current version. -/
structure TxnSound (base : Version γ) (readers : List (ReaderSlot γ)) (txn : WriteTxn γ) :
    Prop where
  txnid : txn.txnid = base.txnid + 1
  freeDb : txn.freeDb = base.freeDb
  accounts : (txn.pages ++ txn.freePgs ++ freePages base.freeDb txn.source).Perm
    (List.range' 2 (txn.source.nextPgno - 2))
  kept : ∀ page ∈ base.pages, page ∈ txn.pages ∨ page ∈ txn.freePgs
  fresh : ∀ page ∈ txn.source.dirtyPages, page ∉ base.pages ∧
    page ∉ (unread base.freeDb txn.source.pglast).flatMap (·.2)
  own : ∀ page ∈ txn.pages, page ∈ base.pages ∨ page ∈ txn.source.dirtyPages
  loose : ∀ page ∈ txn.source.loose, page ∈ txn.source.dirtyPages
  head : HeadSound txn.source.pghead
  bounds : 2 ≤ txn.source.nextPgno ∧ txn.source.nextPgno ≤ txn.source.maxPg ∧
    txn.source.maxPg ≤ midlLast
  last : txn.source.pglast = 0 ∨ Oldest base.txnid readers (txn.source.pglast + 1)
  oldest : Oldest base.txnid readers txn.source.pgoldest
  scan : ∀ index oldest, txn.scan = some (index, oldest) →
    Oldest base.txnid (readers.drop index) oldest
  saved : ∀ freeDb, txn.saved = some freeDb → SavedSound base txn freeDb

/-- The invariant of the system. -/
structure SystemSound (system : System γ) : Prop where
  metas : MetasSound system.metas system.mtiTxnid (system.writer.any (·.written)) system.file
    system.history
  readers : ∀ slot ∈ system.readers,
    SlotSound system.metas system.mtiTxnid system.file system.history slot
  txn : ∀ txn, system.writer = some txn → txn.written = false →
    TxnSound (metaAt system.metas system.mtiTxnid) system.readers txn
  flushed : ∀ txn, system.writer = some txn → txn.written = false →
    ∀ page, txn.flushed page = true → page ∈ txn.source.dirtyPages →
      system.file page = txn.data page
  written : ∀ txn, system.writer = some txn → txn.written = true →
    txn.txnid = system.mtiTxnid + 1 ∧
      Oldest system.mtiTxnid system.readers txn.source.pgoldest
  oldest : ∀ oldest ∈ system.oldest, Oldest system.mtiTxnid system.readers oldest

/-! The oldest reader. -/

section Oldest

variable {metas : Bool → Version γ} {mtiTxnid oldest : Nat} {readers : List (ReaderSlot γ)}

theorem ReaderStep.held {slot next : ReaderSlot γ} (steps : ReaderStep metas mtiTxnid slot next)
    {held : Nat} (holds : next.phase.held = some held) :
    slot.phase.held = some held ∨ held = mtiTxnid := by
  cases steps with
  | register same =>
      cases holds
      exact Or.inr same
  | copy => exact Or.inl holds
  | claim | load | store | retry | finish | die | release => cases holds

theorem Oldest.weaken {later lower : Nat} (known : Oldest mtiTxnid readers oldest)
    (committed : mtiTxnid ≤ later) (below : lower ≤ oldest) : Oldest later readers lower :=
  ⟨(below.trans known.committed).trans committed,
    fun slot member held holds => below.trans (known.readers slot member held holds)⟩

theorem Oldest.reader {index : Nat} {slot next : ReaderSlot γ}
    (known : Oldest mtiTxnid readers oldest) (found : readers[index]? = some slot)
    (steps : ReaderStep metas mtiTxnid slot next) :
    Oldest mtiTxnid (readers.set index next) oldest := by
  refine ⟨known.committed, ?_⟩
  intro other member held holds
  rcases List.mem_or_eq_of_mem_set member with before | rfl
  · exact known.readers other before held holds
  · rcases steps.held holds with before | rfl
    · exact known.readers slot (List.mem_of_getElem? found) held before
    · exact known.committed

theorem Oldest.drop_reader {index start : Nat} {slot next : ReaderSlot γ}
    (known : Oldest mtiTxnid (readers.drop start) oldest) (found : readers[index]? = some slot)
    (steps : ReaderStep metas mtiTxnid slot next) :
    Oldest mtiTxnid ((readers.set index next).drop start) oldest := by
  rw [List.drop_set]
  split_ifs with before
  · exact known
  · refine Oldest.reader known ?_ steps
    rw [List.getElem?_drop, Nat.add_sub_cancel' (by omega)]
    exact found

theorem Oldest.append_idle {pid start : Nat} (known : Oldest mtiTxnid (readers.drop start) oldest) :
    Oldest mtiTxnid ((readers ++ [(⟨pid, noTxnid, .idle⟩ : ReaderSlot γ)]).drop start) oldest := by
  refine ⟨known.committed, ?_⟩
  intro slot member held holds
  rw [List.drop_append] at member
  rcases List.mem_append.mp member with before | added
  · exact known.readers slot before held holds
  · rw [List.mem_singleton.mp (List.mem_of_mem_drop added)] at holds
    cases holds

end Oldest

/-! Allocation, as the transaction sees it. -/

/-- What a step of the allocator keeps of the lists. -/
structure SourceFrame (freeDb : List FreeRecord) (oldest : Nat) (pages : List Nat)
    (before after : PageSource) : Prop where
  free : (pages ++ freePages freeDb after).Perm (freePages freeDb before ++
    List.range' before.nextPgno (after.nextPgno - before.nextPgno))
  dirty : ∀ page, page ∈ after.dirtyPages → page ∈ pages ∨ page ∈ before.dirtyPages
  stays : ∀ page ∈ before.dirtyPages, page ∈ after.dirtyPages
  own : ∀ page ∈ pages, page ∈ after.dirtyPages ∨ page ∈ before.loose
  loose : ∀ page ∈ after.loose, page ∈ before.loose
  unread : ∀ record ∈ unread freeDb after.pglast, record ∈ unread freeDb before.pglast
  nextPgno : before.nextPgno ≤ after.nextPgno
  maxPg : after.maxPg = before.maxPg
  limit : after.nextPgno = before.nextPgno ∨ after.nextPgno < before.maxPg
  last : after.pglast = before.pglast ∨ after.pglast < before.pgoldest ∨ after.pglast < oldest
  pgoldest : after.pgoldest = before.pgoldest ∨ after.pgoldest = oldest

theorem Coalesces.unread_subset {freeDb : List FreeRecord} {oldest : Nat}
    {before after : PageSource} (coalesces : Coalesces freeDb oldest before after) :
    ∀ record ∈ unread freeDb after.pglast, record ∈ unread freeDb before.pglast := by
  intro record member
  obtain ⟨read, split, -⟩ := coalesces.records
  rw [split]
  exact List.mem_append_right _ member

theorem mem_dirtyPages_addDirty {source : PageSource} {pgno num page : Nat} :
    page ∈ (source.addDirty pgno num).dirtyPages ↔
      page ∈ List.range' pgno num ∨ page ∈ source.dirtyPages := by
  simp [PageSource.dirtyPages, PageSource.addDirty]

theorem Coalesces.dirtyPages {freeDb : List FreeRecord} {oldest : Nat}
    {before after : PageSource} (coalesces : Coalesces freeDb oldest before after) :
    after.dirtyPages = before.dirtyPages := by
  rw [PageSource.dirtyPages, coalesces.dirty, PageSource.dirtyPages]

theorem Allocates.frame {freeDb : List FreeRecord} {num oldest : Nat} {before after : PageSource}
    {result : Allocated} (allocates : Allocates freeDb num oldest before result after) :
    SourceFrame freeDb oldest (result.pages num) before after := by
  have free := allocates.freePages_perm
  cases allocates with
  | @loose page rest single known =>
      subst single
      refine ⟨free, fun _ => Or.inr, fun _ => id, ?_, ?_, fun _ => id, Nat.le_refl _, rfl, Or.inl rfl,
        Or.inl rfl, Or.inl rfl⟩
      · intro other member
        rw [show other = page by simpa [Allocated.pages] using member, known]
        exact Or.inr List.mem_cons_self
      · intro other member
        rw [known]
        exact List.mem_cons_of_mem _ member
  | @reused middle pgno head front back coalesces found left known =>
      have dirty : ∀ page, page ∈ ({ middle with pghead := some head }.addDirty pgno num).dirtyPages ↔
          page ∈ List.range' pgno num ∨ page ∈ before.dirtyPages := by
        intro page
        rw [mem_dirtyPages_addDirty, ← coalesces.dirtyPages]
        rfl
      exact ⟨free, fun page => (dirty page).mp, fun page member => (dirty page).mpr (Or.inr member),
        fun page member => Or.inl ((dirty page).mpr (Or.inl member)),
        fun page member => coalesces.loose ▸ member, coalesces.unread_subset, coalesces.nextPgno.ge,
        coalesces.maxPg, Or.inl coalesces.nextPgno, coalesces.last, coalesces.oldest⟩
  | @extended middle coalesces fits =>
      have dirty : ∀ page, page ∈ ({ middle with nextPgno := middle.nextPgno + num }.addDirty
          middle.nextPgno num).dirtyPages ↔
          page ∈ List.range' middle.nextPgno num ∨ page ∈ before.dirtyPages := by
        intro page
        rw [mem_dirtyPages_addDirty, ← coalesces.dirtyPages]
        rfl
      rw [coalesces.maxPg] at fits
      exact ⟨free, fun page => (dirty page).mp, fun page member => (dirty page).mpr (Or.inr member),
        fun page member => Or.inl ((dirty page).mpr (Or.inl member)),
        fun page member => coalesces.loose ▸ member, coalesces.unread_subset,
        coalesces.nextPgno.ge.trans (Nat.le_add_right _ _), coalesces.maxPg, Or.inr fits,
        coalesces.last, coalesces.oldest⟩
  | failed coalesces =>
      exact ⟨free, fun page member => Or.inr (coalesces.dirtyPages ▸ member),
        fun page member => coalesces.dirtyPages ▸ member, fun page member => (by cases member),
        fun page member => coalesces.loose ▸ member, coalesces.unread_subset, coalesces.nextPgno.ge,
        coalesces.maxPg, Or.inl coalesces.nextPgno, coalesces.last, coalesces.oldest⟩

/-! The steps of a transaction. -/

theorem range'_extend {first second : Nat} (lower : 2 ≤ first) (upper : first ≤ second) :
    List.range' 2 (second - 2) =
      List.range' 2 (first - 2) ++ List.range' first (second - first) := by
  have whole := @List.range'_append_1 2 (first - 2) (second - first)
  rw [show 2 + (first - 2) = first by omega, show first - 2 + (second - first) = second - 2 by omega]
    at whole
  exact whole.symm

section

variable {base : Version γ} {readers : List (ReaderSlot γ)} {txn : WriteTxn γ}

namespace TxnSound

theorem distinct (sound : TxnSound base readers txn) :
    (txn.pages ++ txn.freePgs ++ freePages base.freeDb txn.source).Nodup :=
  sound.accounts.nodup_iff.mpr List.nodup_range'

theorem registered (sound : TxnSound base readers txn) {slot : ReaderSlot γ}
    (member : slot ∈ readers) {held : Nat} (holds : slot.phase.held = some held) :
    txn.source.pglast = 0 ∨ txn.source.pglast < held :=
  sound.last.imp_right fun oldest => oldest.readers slot member held holds

/-- A dirty page is no page that a reader may come to. -/
theorem untouched (sound : TxnSound base readers txn) (baseSound : VersionSound base) {page : Nat}
    (dirty : page ∈ txn.source.dirtyPages) {version : Version γ} {held : Nat}
    (covers : Covers base version held)
    (registered : txn.source.pglast = 0 ∨ txn.source.pglast < held) : page ∉ version.pages := by
  intro used
  obtain ⟨current, free⟩ := sound.fresh page dirty
  rcases covers page used with inside | ⟨record, member, later, listed⟩
  · exact current inside
  · refine free (List.mem_flatMap.mpr ⟨record, List.mem_filter.mpr ⟨member, ?_⟩, listed⟩)
    have positive := (baseSound.ids record member).1
    exact decide_eq_true (by omega)

theorem source_allocates (sound : TxnSound base readers txn) (baseSound : VersionSound base)
    {num oldest : Nat} {memory : Nat → Bool} {pageMemory : Bool} {result : Allocated}
    {source : PageSource} (positive : 1 ≤ num)
    (ran : mdbPageAlloc num oldest memory pageMemory txn.freeDb txn.source = some (result, source)) :
    HeadSound source.pghead ∧
      SourceFrame base.freeDb oldest (result.pages num) txn.source source := by
  have apart : (headPages txn.source.pghead ++
      (unread base.freeDb txn.source.pglast).flatMap (·.2)).Nodup := by
    have free := List.Nodup.of_append_right sound.distinct
    rw [freePages, List.append_assoc] at free
    exact List.Nodup.of_append_right free
  obtain ⟨known, after, same, head, allocates⟩ :=
    @mdbPageAlloc_spec num oldest memory pageMemory base.freeDb txn.source positive
      baseSound.ordered sound.head apart
  rw [sound.freeDb, same] at ran
  cases ran
  exact ⟨head, allocates.frame⟩

/-- The allocator has taken pages, which become pages of the trees. -/
theorem allocated (sound : TxnSound base readers txn) {oldest : Nat} {pages : List Nat}
    {source : PageSource} {flushed : Nat → Bool} {error : Bool}
    (active : txn.saved = none) (scanned : txn.scan = some (0, oldest))
    (head : HeadSound source.pghead)
    (frame : SourceFrame base.freeDb oldest pages txn.source source) :
    TxnSound base readers { txn with
      source := source
      pages := pages ++ txn.pages
      flushed := flushed
      scan := none
      error := error } := by
  obtain ⟨lower, upper, limit⟩ := sound.bounds
  have found : Oldest base.txnid readers oldest := by simpa using sound.scan 0 oldest scanned
  have accounts : (pages ++ txn.pages ++ txn.freePgs ++ freePages base.freeDb source).Perm
      (List.range' 2 (source.nextPgno - 2)) := by
    rw [range'_extend lower frame.nextPgno]
    refine List.perm_iff_count.mpr fun page => ?_
    have before := sound.accounts.count_eq page
    have moved := frame.free.count_eq page
    simp only [List.count_append] at before moved ⊢
    omega
  have apart : ∀ page ∈ pages, page ∉ txn.pages ∧ page ∉ txn.freePgs ∧
      page ∉ (unread base.freeDb source.pglast).flatMap (·.2) := by
    have nodup := accounts.nodup_iff.mpr List.nodup_range'
    rw [List.append_assoc, List.append_assoc] at nodup
    have disjoint := List.disjoint_of_nodup_append nodup
    intro page member
    refine ⟨fun other => disjoint member ?_, fun other => disjoint member ?_,
      fun other => disjoint member ?_⟩ <;> simp only [List.mem_append, freePages, other, true_or, or_true]
  refine ⟨sound.txnid, sound.freeDb, accounts, ?_, ?_, ?_, ?_, head, ?_, ?_, ?_, ?_, ?_⟩
  · intro page member
    rcases sound.kept page member with used | freed
    · exact Or.inl (List.mem_append_right _ used)
    · exact Or.inr freed
  · intro page member
    rcases frame.dirty page member with new | old
    · obtain ⟨unused, unfreed, unread⟩ := apart page new
      refine ⟨fun inside => ?_, unread⟩
      rcases sound.kept page inside with used | freed
      · exact unused used
      · exact unfreed freed
    · obtain ⟨current, free⟩ := sound.fresh page old
      refine ⟨current, fun inside => free ?_⟩
      obtain ⟨record, member, listed⟩ := List.mem_flatMap.mp inside
      exact List.mem_flatMap.mpr ⟨record, frame.unread record member, listed⟩
  · intro page member
    rcases List.mem_append.mp member with new | old
    · rcases frame.own page new with dirty | loose
      · exact Or.inr dirty
      · exact Or.inr (frame.stays page (sound.loose page loose))
    · exact (sound.own page old).imp_right (frame.stays page)
  · intro page member
    exact frame.stays page (sound.loose page (frame.loose page member))
  · have grown := frame.nextPgno
    have fixed := frame.maxPg
    have fits := frame.limit
    dsimp only
    omega
  · rcases frame.last with same | before | now
    · exact same ▸ sound.last
    · exact Or.inr (sound.oldest.weaken (Nat.le_refl _) before)
    · exact Or.inr (found.weaken (Nat.le_refl _) now)
  · rcases frame.pgoldest with same | now
    · exact same ▸ sound.oldest
    · exact now ▸ found
  · intro index other impossible
    cases impossible
  · intro freeDb saved
    rw [show txn.saved = some freeDb from saved] at active
    cases active

/-- Page numbers move between the lists of the transaction. -/
theorem moved (sound : TxnSound base readers txn) (active : txn.saved = none)
    {pages freePgs loose : List Nat} {pghead : Option Midl} {dirty : List (Nat × Nat)}
    {dirtyRoom : Nat}
    (same : (pages ++ freePgs ++ (loose ++ headPages pghead)).Perm
      (txn.pages ++ txn.freePgs ++ (txn.source.loose ++ headPages txn.source.pghead)))
    (head : HeadSound pghead)
    (kept : ∀ page ∈ base.pages, page ∈ txn.pages → page ∈ pages ∨ page ∈ freePgs)
    (grows : ∀ page ∈ txn.freePgs, page ∈ freePgs)
    (fewer : ∀ page ∈ dirty.flatMap (fun page => List.range' page.1 page.2),
      page ∈ txn.source.dirtyPages)
    (own : ∀ page ∈ pages, page ∈ txn.pages ∧ (page ∈ txn.source.dirtyPages →
      page ∈ dirty.flatMap fun page => List.range' page.1 page.2))
    (looseDirty : ∀ page ∈ loose, page ∈ dirty.flatMap fun page => List.range' page.1 page.2) :
    TxnSound base readers { txn with
      pages := pages
      freePgs := freePgs
      source := { txn.source with
        loose := loose
        pghead := pghead
        dirty := dirty
        dirtyRoom := dirtyRoom } } := by
  refine ⟨sound.txnid, sound.freeDb, ?_, ?_, ?_, ?_, looseDirty, head, sound.bounds, sound.last,
    sound.oldest, sound.scan, ?_⟩
  · refine List.Perm.trans ?_ sound.accounts
    refine List.perm_iff_count.mpr fun page => ?_
    have counts := same.count_eq page
    simp only [freePages, List.count_append] at counts ⊢
    omega
  · intro page member
    rcases sound.kept page member with used | freed
    · exact kept page member used
    · exact Or.inr (grows page freed)
  · intro page member
    exact sound.fresh page (fewer page member)
  · intro page member
    obtain ⟨used, stays⟩ := own page member
    exact (sound.own page used).imp_right stays
  · intro freeDb saved
    rw [show txn.saved = some freeDb from saved] at active
    cases active

theorem freed (sound : TxnSound base readers txn) (active : txn.saved = none) {pgno num : Nat}
    {rest : List Nat} (used : txn.pages.Perm (List.range' pgno num ++ rest)) :
    TxnSound base readers { txn with
      pages := rest
      freePgs := txn.freePgs ++ (List.range' pgno num).reverse } := by
  refine sound.moved active ?_ sound.head ?_ ?_ (fun _ => id) ?_ sound.loose
  · change (rest ++ (txn.freePgs ++ (List.range' pgno num).reverse) ++
      (txn.source.loose ++ headPages txn.source.pghead)).Perm _
    refine List.perm_iff_count.mpr fun page => ?_
    have counts := used.count_eq page
    simp only [List.count_append, List.count_reverse] at counts ⊢
    omega
  · intro page _ inside
    rcases List.mem_append.mp (used.subset inside) with gone | stays
    · exact Or.inr (List.mem_append_right _ (List.mem_reverse.mpr gone))
    · exact Or.inl stays
  · intro page member
    exact List.mem_append_left _ member
  · intro page member
    exact ⟨used.symm.subset (List.mem_append_right _ member), id⟩

theorem loosened (sound : TxnSound base readers txn) (active : txn.saved = none) {pgno : Nat}
    {rest : List Nat} (dirty : (pgno, 1) ∈ txn.source.dirty)
    (used : txn.pages.Perm (pgno :: rest)) :
    TxnSound base readers { txn with
      pages := rest
      source := { txn.source with loose := pgno :: txn.source.loose } } := by
  have written : pgno ∈ txn.source.dirtyPages :=
    List.mem_flatMap.mpr ⟨(pgno, 1), dirty, by simp⟩
  refine sound.moved active ?_ sound.head ?_ (fun _ => id) (fun _ => id) ?_ ?_
  · refine List.perm_iff_count.mpr fun page => ?_
    have counts := used.count_eq page
    simp only [List.count_append, List.count_cons] at counts ⊢
    omega
  · intro page current inside
    rcases List.mem_cons.mp (used.subset inside) with rfl | stays
    · exact absurd current (sound.fresh page written).1
    · exact Or.inl stays
  · intro page member
    exact ⟨used.symm.subset (List.mem_cons_of_mem _ member), id⟩
  · intro page member
    rcases List.mem_cons.mp member with rfl | before
    · exact written
    · exact sound.loose page before

theorem freedLoose (sound : TxnSound base readers txn) (active : txn.saved = none) :
    TxnSound base readers { txn with
      freePgs := txn.freePgs ++ txn.source.loose
      source := { txn.source with loose := [] } } := by
  refine sound.moved active ?_ sound.head (fun _ _ => Or.inl) ?_ (fun _ => id)
    (fun _ member => ⟨member, id⟩) (fun _ impossible => (by cases impossible))
  · refine List.perm_iff_count.mpr fun page => ?_
    simp only [List.count_append, List.count_nil]
    omega
  · intro page member
    exact List.mem_append_left _ member

theorem gaveBack (sound : TxnSound base readers txn) (active : txn.saved = none) {pgno num : Nat}
    {rest : List Nat} {memory : Bool} {source : PageSource}
    (dirty : (pgno, num) ∈ txn.source.dirty)
    (used : txn.pages.Perm (List.range' pgno num ++ rest))
    (given : txn.source.giveBack pgno num memory = some (0, source)) :
    TxnSound base readers { txn with pages := rest, source := source } := by
  have written : ∀ page ∈ List.range' pgno num, page ∈ txn.source.dirtyPages :=
    fun page member => List.mem_flatMap.mpr ⟨(pgno, num), dirty, member⟩
  have nodup : (List.range' pgno num ++ (rest ++ (txn.freePgs ++
      freePages base.freeDb txn.source))).Nodup := by
    have whole := (used.append_right (txn.freePgs ++ freePages base.freeDb txn.source)).nodup_iff.mp
      (List.append_assoc _ _ _ ▸ sound.distinct)
    rwa [List.append_assoc] at whole
  have apart : ∀ page ∈ List.range' pgno num, page ∉ rest ∧ page ∉ txn.source.loose ∧
      page ∉ headPages txn.source.pghead := by
    have disjoint := List.disjoint_of_nodup_append nodup
    intro page member
    refine ⟨fun other => disjoint member ?_, fun other => disjoint member ?_,
      fun other => disjoint member ?_⟩ <;> simp only [List.mem_append, freePages, other, true_or, or_true]
  have headApart : (List.range' pgno num ++ headPages txn.source.pghead).Nodup := by
    refine List.nodup_append'.mpr ⟨List.nodup_range', ?_, ?_⟩
    · have free := List.Nodup.of_append_right sound.distinct
      rw [freePages] at free
      exact List.Nodup.of_append_right (List.Nodup.of_append_left free)
    · intro page member other
      exact (apart page member).2.2 other
  have stays : ∀ page ∈ txn.source.dirtyPages, page ∉ List.range' pgno num →
      page ∈ (txn.source.dirty.erase (pgno, num)).flatMap fun page => List.range' page.1 page.2 := by
    intro page member outside
    obtain ⟨entry, listed, inside⟩ := List.mem_flatMap.mp member
    refine List.mem_flatMap.mpr ⟨entry, (List.mem_erase_of_ne ?_).mpr listed, inside⟩
    rintro rfl
    exact outside inside
  obtain ⟨head, outcome⟩ := PageSource.giveBack_spec sound.head headApart given
  rcases outcome with ⟨impossible, -⟩ | ⟨mop, contents, rfl⟩
  · exact absurd rfl impossible
  refine sound.moved active ?_ head ?_ (fun _ => id) ?_ ?_ ?_
  · refine List.perm_iff_count.mpr fun page => ?_
    have counts := used.count_eq page
    have inserted := contents.count_eq page
    simp only [headPages_some, List.count_append] at counts inserted ⊢
    omega
  · intro page current inside
    rcases List.mem_append.mp (used.subset inside) with gone | left
    · exact absurd current (sound.fresh page (written page gone)).1
    · exact Or.inl left
  · intro page member
    obtain ⟨entry, listed, inside⟩ := List.mem_flatMap.mp member
    exact List.mem_flatMap.mpr ⟨entry, List.mem_of_mem_erase listed, inside⟩
  · intro page member
    refine ⟨used.symm.subset (List.mem_append_right _ member), fun listed => stays page listed ?_⟩
    intro inside
    exact (apart page inside).1 member
  · intro page member
    refine stays page (sound.loose page member) ?_
    intro inside
    exact (apart page inside).2.1 member

theorem saveIds (sound : TxnSound base readers txn) (baseSound : VersionSound base) :
    SaveIds txn.freeDb txn.txnid := by
  rw [sound.freeDb, sound.txnid]
  exact ⟨baseSound.ordered.ids, fun record member => (baseSound.ids record member).1,
    fun record member => Nat.lt_succ_of_le (baseSound.ids record member).2⟩

theorem pglast_lt (sound : TxnSound base readers txn) : txn.source.pglast < txn.txnid := by
  rw [sound.txnid]
  rcases sound.last with zero | oldest
  · omega
  · have committed := oldest.committed
    omega

theorem small (sound : TxnSound base readers txn) {page : Nat}
    (member : page ∈ List.range' 2 (txn.source.nextPgno - 2)) : page ≤ midlLast := by
  have bounds := sound.bounds
  rw [List.mem_range'_1] at member
  omega

theorem saves (sound : TxnSound base readers txn) (baseSound : VersionSound base)
    {freeDb : List FreeRecord} {world : SaveWorld}
    (mop : world.mop.Perm (headPages txn.source.pghead ++ txn.source.loose))
    (descending : world.mop.Pairwise (· > ·)) (last : world.pglast = txn.source.pglast)
    (freed : world.freePgs.Perm txn.freePgs)
    (saved : FreeDbSaved base.freeDb txn.txnid world freeDb) : SavedSound base txn freeDb := by
  obtain ⟨filled, own, rfl, filledPages, filledIds, ownPages, ownIds⟩ := saved.parts
  rw [last] at *
  have accounts : (txn.pages ++ (filled ++ unread base.freeDb txn.source.pglast ++ own).flatMap
      (·.2)).Perm (List.range' 2 (txn.source.nextPgno - 2)) := by
    refine List.Perm.trans ?_ sound.accounts
    refine List.perm_iff_count.mpr fun page => ?_
    have headCount := (filledPages.trans mop).count_eq page
    have freedCount := (ownPages.trans freed).count_eq page
    simp only [freePages, List.flatMap_append, List.count_append] at headCount freedCount ⊢
    omega
  have ownDistinct : (own.flatMap (·.2)).Nodup := by
    refine (ownPages.trans freed).nodup_iff.mpr ?_
    exact List.Nodup.of_append_right (List.Nodup.of_append_left sound.distinct)
  refine ⟨accounts, ⟨saved.ids, ?_, ?_⟩, ?_, ?_, ?_⟩
  · intro record member
    rcases List.mem_append.mp member with front | mine
    · rcases List.mem_append.mp front with first | rest
      · exact descending.sublist (filledIds record first).2.2
      · exact baseSound.ordered.sorted record (List.mem_filter.mp rest).1
    · exact pairwise_gt_of_nodup (ownIds record mine).2
        ((List.nodup_flatMap.mp ownDistinct).1 record mine)
  · intro record member page listed
    refine sound.small (accounts.subset (List.mem_append_right _ ?_))
    exact List.mem_flatMap.mpr ⟨record, member, listed⟩
  · have below := sound.pglast_lt
    intro record member
    rcases List.mem_append.mp member with front | mine
    · rcases List.mem_append.mp front with first | rest
      · have bounds := filledIds record first
        omega
      · have bounds := baseSound.ids record (List.mem_filter.mp rest).1
        have next := sound.txnid
        omega
    · have same := (ownIds record mine).1
      omega
  · intro record member later
    refine List.mem_append_left _ (List.mem_append_right _ ?_)
    exact List.mem_filter.mpr ⟨member, decide_eq_true later⟩
  · intro page member
    obtain ⟨record, mine, listed⟩ := List.mem_flatMap.mp ((ownPages.trans freed).symm.subset member)
    exact ⟨record, List.mem_append_right _ mine, (ownIds record mine).1, listed⟩

theorem looseSmall (sound : TxnSound base readers txn) :
    ∀ page ∈ txn.source.loose, page ≤ midlLast := by
  intro page member
  refine sound.small (sound.accounts.subset (List.mem_append_right _ ?_))
  exact List.mem_append_left _ (List.mem_append_left _ member)

theorem headLoose (sound : TxnSound base readers txn) :
    (headPages txn.source.pghead ++ txn.source.loose).Nodup := by
  have free := List.Nodup.of_append_right sound.distinct
  rw [freePages] at free
  exact List.perm_append_comm.nodup_iff.mp (List.Nodup.of_append_left free)

/-- What the invariant does not depend on. -/
theorem relabel (sound : TxnSound base readers txn) {data : Nat → γ} {flushed : Nat → Bool}
    {scan : Option (Nat × Nat)} {saved : Option (List FreeRecord)}
    (scanned : ∀ index oldest, scan = some (index, oldest) →
      Oldest base.txnid (readers.drop index) oldest)
    (saves : ∀ freeDb, saved = some freeDb → SavedSound base txn freeDb) :
    TxnSound base readers
      { txn with data := data, flushed := flushed, scan := scan, saved := saved } := by
  refine ⟨sound.txnid, sound.freeDb, sound.accounts, sound.kept, sound.fresh, sound.own,
    sound.loose, sound.head, sound.bounds, sound.last, sound.oldest, scanned, ?_⟩
  intro freeDb known
  have kept := saves freeDb known
  exact ⟨kept.accounts, kept.ordered, kept.ids, kept.unread, kept.freed⟩

/-- The scan of `mdb_find_oldest` goes on to the next slot. -/
theorem scanned (sound : TxnSound base readers txn)
    (stored : ∀ slot ∈ readers, ∀ held, slot.phase.held = some held →
      slot.pid ≠ 0 ∧ slot.txnid = held)
    {index oldest : Nat} {slot : ReaderSlot γ} (scanning : txn.scan = some (index + 1, oldest))
    (found : readers[index]? = some slot) :
    Oldest base.txnid (readers.drop index) (slot.older oldest) := by
  have before := sound.scan (index + 1) oldest scanning
  obtain ⟨inside, rfl⟩ := List.getElem?_eq_some_iff.mp found
  have lower : readers[index].older oldest ≤ oldest := by
    unfold ReaderSlot.older
    split_ifs with older
    · exact older.2.le
    · exact Nat.le_refl _
  refine ⟨lower.trans before.committed, ?_⟩
  rw [List.drop_eq_getElem_cons inside]
  intro other member held holds
  rcases List.mem_cons.mp member with rfl | later
  · obtain ⟨process, same⟩ := stored readers[index] (List.getElem_mem inside) held holds
    unfold ReaderSlot.older
    split_ifs with older
    · exact same.le
    · rw [not_and] at older
      exact same ▸ Nat.le_of_not_lt (older process)
  · exact lower.trans (before.readers other later held holds)

/-- Every step of the transaction keeps the invariant. -/
theorem step {next : WriteTxn γ} (sound : TxnSound base readers txn)
    (baseSound : VersionSound base)
    (stored : ∀ slot ∈ readers, ∀ held, slot.phase.held = some held →
      slot.pid ≠ 0 ∧ slot.txnid = held)
    (steps : TxnStep readers txn next) : TxnSound base readers next := by
  cases steps with
  | scan =>
      refine sound.relabel ?_ sound.saved
      rintro index oldest ⟨⟩
      have next := sound.txnid
      rw [List.drop_length]
      exact ⟨by omega, fun _ impossible => (by cases impossible)⟩
  | scanSlot scanning found =>
      refine sound.relabel ?_ sound.saved
      rintro index oldest ⟨⟩
      exact sound.scanned stored scanning found
  | alloc active scanned positive ran =>
      obtain ⟨head, frame⟩ := sound.source_allocates baseSound positive ran
      exact sound.allocated active scanned head frame
  | allocFailed active scanned positive ran =>
      obtain ⟨head, frame⟩ := sound.source_allocates baseSound positive ran
      exact sound.allocated active scanned head frame
  | free active used => exact sound.freed active used
  | loosen active dirty used => exact sound.loosened active dirty used
  | giveBack active dirty used given => exact sound.gaveBack active dirty used given
  | write value dirty => exact sound.relabel sound.scan sound.saved
  | freeLoose active empty => exact sound.freedLoose active
  | save active clean valid short head last freed saves =>
      refine sound.relabel sound.scan ?_
      rintro freeDb ⟨⟩
      obtain ⟨mop, descending⟩ :=
        returnLoose_spec sound.head short sound.looseSmall sound.headLoose head
      have saved := mdbFreelistSave_saved (sound.saveIds baseSound) valid saves
      rw [sound.freeDb] at saved
      exact sound.saves baseSound mop descending last freed saved

end TxnSound

theorem PageSource.giveBack_dirty {source after : PageSource} {pgno num : Nat} {memory : Bool}
    {code : Int} (given : source.giveBack pgno num memory = some (code, after)) :
    after.dirty.Sublist source.dirty := by
  unfold giveBack at given
  split at given
  · cases given
  · simp only [Option.bind_eq_bind, Option.bind_eq_some_iff] at given
    obtain ⟨needed, -, rest⟩ := given
    split_ifs at rest
    · obtain ⟨ids, -, result⟩ := Option.bind_eq_some_iff.mp rest
      cases result
      exact List.erase_sublist
    · cases rest
      exact List.Sublist.refl _

/-- A step of the transaction keeps what is known of the pages it has written to the file. -/
theorem TxnStep.flushed {next : WriteTxn γ} {file : Nat → γ} (sound : TxnSound base readers txn)
    (baseSound : VersionSound base) (steps : TxnStep readers txn next)
    (same : ∀ page, txn.flushed page = true → page ∈ txn.source.dirtyPages →
      file page = txn.data page) :
    ∀ page, next.flushed page = true → page ∈ next.source.dirtyPages →
      file page = next.data page := by
  cases steps with
  | scan | scanSlot | free | loosen | freeLoose | save => exact same
  | alloc active scanned positive ran =>
      obtain ⟨-, frame⟩ := sound.source_allocates baseSound positive ran
      intro page written dirty
      dsimp only at written
      split_ifs at written with new
      exact same page written ((frame.dirty page dirty).resolve_left new)
  | allocFailed active scanned positive ran =>
      obtain ⟨-, frame⟩ := sound.source_allocates baseSound positive ran
      intro page written dirty
      exact same page written ((frame.dirty page dirty).resolve_left (by simp [Allocated.pages]))
  | giveBack active dirty used given =>
      intro page written member
      obtain ⟨entry, listed, inside⟩ := List.mem_flatMap.mp member
      refine same page written (List.mem_flatMap.mpr ⟨entry, ?_, inside⟩)
      exact (PageSource.giveBack_dirty given).subset listed
  | @write changed value dirty =>
      intro page written member
      dsimp only at written ⊢
      by_cases other : page = changed
      · subst other
        simp at written
      · rw [Function.update_of_ne other] at written ⊢
        exact same page written member

end

/-! The meta pages and the readers. -/

section Metas

variable {metas : Bool → Version γ} {mtiTxnid : Nat} {file : Nat → γ} {history : List (Version γ)}
  {written : Bool}

theorem metaAt_setMeta_same (metas : Bool → Version γ) (version : Version γ) :
    metaAt (setMeta metas version) version.txnid = version := by
  simp [metaAt, setMeta]

theorem metaAt_setMeta (metas : Bool → Version γ) (version : Version γ) (txnid : Nat) :
    metaAt (setMeta metas version) txnid = version ∨
      metaAt (setMeta metas version) txnid = metaAt metas txnid := by
  by_cases same : (txnid % 2 == 1) = (version.txnid % 2 == 1)
  · left
    simp [metaAt, setMeta, same]
  · right
    exact Function.update_of_ne same _ _

theorem metaAt_setMeta_previous (metas : Bool → Version γ) {version : Version γ} {txnid : Nat}
    (next : version.txnid = txnid + 1) :
    metaAt (setMeta metas version) txnid = metaAt metas txnid := by
  refine Function.update_of_ne ?_ _ _
  rw [next, Ne, Bool.eq_iff_iff, beq_iff_eq, beq_iff_eq]
  omega

/-- The picked meta page is the one with the larger ID. -/
theorem mdbEnvPickMeta_eq {metas : Bool → Version γ} {txnid : Nat}
    (less : (metaAt metas txnid).txnid < (metaAt metas (txnid + 1)).txnid) :
    mdbEnvPickMeta metas = metaAt metas (txnid + 1) := by
  rcases Nat.mod_two_eq_zero_or_one txnid with even | odd
  · have next : (txnid + 1) % 2 = 1 := by omega
    simp only [metaAt, even, next] at less ⊢
    have smaller : (metas false).txnid < (metas true).txnid := by simpa using less
    simp [mdbEnvPickMeta, smaller]
  · have next : (txnid + 1) % 2 = 0 := by omega
    simp only [metaAt, odd, next] at less ⊢
    have greater : ¬(metas false).txnid < (metas true).txnid := by
      simpa using less.le
    simp [mdbEnvPickMeta, greater]

/-- A new version keeps what readers rely on. -/
theorem Covers.commit {base next version : Version γ} {held : Nat} (covers : Covers base version held)
    (kept : ∀ page ∈ base.pages, page ∈ next.pages ∨
      ∃ record ∈ next.freeDb, held < record.1 ∧ page ∈ record.2)
    (unread : ∀ record ∈ base.freeDb, held < record.1 → record ∈ next.freeDb) :
    Covers next version held := by
  intro page member
  rcases covers page member with inside | ⟨record, listed, later, freed⟩
  · exact kept page inside
  · exact Or.inr ⟨record, unread record listed later, later, freed⟩

/-- The new version has what any reader relies on. -/
theorem TxnSound.covers {base : Version γ} {readers : List (ReaderSlot γ)}
    {txn : WriteTxn γ} (sound : TxnSound base readers txn) (baseSound : VersionSound base)
    {freeDb : List FreeRecord} (saved : SavedSound base txn freeDb) {version : Version γ} {held : Nat}
    (covers : Covers base version held) (committed : held ≤ base.txnid)
    (registered : txn.source.pglast = 0 ∨ txn.source.pglast < held) (file : Nat → γ) :
    Covers (txn.version file freeDb) version held := by
  refine covers.commit ?_ ?_
  · intro page member
    rcases sound.kept page member with used | freed
    · exact Or.inl used
    · obtain ⟨record, listed, own, inside⟩ := saved.freed page freed
      have next := sound.txnid
      exact Or.inr ⟨record, listed, by omega, inside⟩
  · intro record member later
    have positive := (baseSound.ids record member).1
    exact saved.unread record member (by omega)

theorem Covers.refl (version : Version γ) (held : Nat) : Covers version version held :=
  fun _ => Or.inl

theorem held_of_version {slot : ReaderSlot γ} {held : Nat} {version : Version γ}
    (phase : (slot.phase = .registered held ∧ version = metaAt metas held) ∨
      slot.phase = .reading held version) : slot.phase.held = some held := by
  rcases phase with ⟨registered, -⟩ | reading
  · rw [registered]
    rfl
  · rw [reading]
    rfl

theorem intact_update {version : Version γ} (intact : Intact file version) {page : Nat}
    (outside : page ∉ version.pages) (value : γ) :
    Intact (Function.update file page value) version := by
  intro other member
  have different : other ≠ page := by
    rintro rfl
    exact outside member
  rw [Function.update_of_ne different]
  exact intact other member

theorem SlotSound.step {slot next : ReaderSlot γ}
    (metasSound : MetasSound metas mtiTxnid written file history)
    (sound : SlotSound metas mtiTxnid file history slot)
    (steps : ReaderStep metas mtiTxnid slot next) :
    SlotSound metas mtiTxnid file history next := by
  cases steps with
  | claim pid unused process =>
      exact ⟨by simp [ReaderPhase.held], by simp, by simp⟩
  | load process =>
      exact ⟨by simp [ReaderPhase.held], fun _ _ => process, by simp⟩
  | @store pid old txnid =>
      have process := sound.loaded txnid rfl
      exact ⟨by simpa [ReaderPhase.held] using process, by simp, by simp⟩
  | retry raced => exact ⟨by simp [ReaderPhase.held], by simp, by simp⟩
  | @register pid txnid kept same =>
      obtain ⟨process, -⟩ := sound.stored kept (Or.inl rfl)
      refine ⟨by simpa [ReaderPhase.held] using process, by simp, ?_⟩
      rintro held version (⟨⟨⟩, rfl⟩ | ⟨⟨⟩⟩)
      subst same
      exact ⟨Nat.le_refl _, metasSound.published.ge, metasSound.known, metasSound.covered,
        metasSound.intact⟩
  | @copy pid stored txnid =>
      refine ⟨?_, by simp, ?_⟩
      · rintro held (⟨⟨⟩⟩ | same)
        exact sound.stored held (Or.inr same)
      · rintro held version (⟨⟨⟩, -⟩ | ⟨⟨⟩⟩)
        exact sound.version txnid _ (Or.inl ⟨rfl, rfl⟩)
  | finish => exact ⟨by simp [ReaderPhase.held], by simp, by simp⟩
  | die => exact ⟨by simp [ReaderPhase.held], by simp, by simp⟩
  | release => exact ⟨by simp [ReaderPhase.held], by simp, by simp⟩

end Metas

/-! The steps of the system. -/

section System

variable {system : System γ}

/-- What a change of the reader table must keep. -/
theorem TxnSound.others {base : Version γ} {readers others : List (ReaderSlot γ)} {txn : WriteTxn γ}
    (sound : TxnSound base readers txn)
    (stays : ∀ start oldest, Oldest base.txnid (readers.drop start) oldest →
      Oldest base.txnid (others.drop start) oldest) : TxnSound base others txn :=
  ⟨sound.txnid, sound.freeDb, sound.accounts, sound.kept, sound.fresh, sound.own, sound.loose,
    sound.head, sound.bounds, sound.last.imp_right (stays 0 _), stays 0 _ sound.oldest,
    fun index oldest known => stays index oldest (sound.scan index oldest known), sound.saved⟩

namespace SystemSound

theorem base (sound : SystemSound system) :
    VersionSound (metaAt system.metas system.mtiTxnid) :=
  sound.metas.sound _ sound.metas.known

theorem stored (sound : SystemSound system) : ∀ slot ∈ system.readers, ∀ held,
    slot.phase.held = some held → slot.pid ≠ 0 ∧ slot.txnid = held :=
  fun slot member held holds => (sound.readers slot member).stored held (Or.inr holds)

theorem settledMetas (sound : SystemSound system)
    (settled : system.writer.any (·.written) = false) :
    MetasSound system.metas system.mtiTxnid false system.file system.history :=
  settled ▸ sound.metas

theorem openMetas (sound : SystemSound system) {txn : WriteTxn γ}
    (active : system.writer = some txn) (unwritten : txn.written = false) :
    MetasSound system.metas system.mtiTxnid false system.file system.history :=
  sound.settledMetas (by simp [active, unwritten])

/-- The reader table changes, and nothing else. -/
theorem table (sound : SystemSound system) {readers : List (ReaderSlot γ)}
    (slots : ∀ slot ∈ readers,
      SlotSound system.metas system.mtiTxnid system.file system.history slot)
    (stays : ∀ start oldest, Oldest system.mtiTxnid (system.readers.drop start) oldest →
      Oldest system.mtiTxnid (readers.drop start) oldest) :
    SystemSound { system with readers := readers } := by
  refine ⟨sound.metas, slots, ?_, sound.flushed, ?_, ?_⟩
  · intro txn active unwritten
    refine (sound.txn txn active unwritten).others ?_
    rw [show (metaAt system.metas system.mtiTxnid).txnid = system.mtiTxnid from
      sound.metas.published]
    exact stays
  · intro txn active written
    obtain ⟨next, oldest⟩ := sound.written txn active written
    exact ⟨next, stays 0 _ oldest⟩
  · intro oldest member
    exact stays 0 _ (sound.oldest oldest member)

theorem addReader (sound : SystemSound system) (pid : Nat) :
    SystemSound { system with readers := system.readers ++ [⟨pid, noTxnid, .idle⟩] } := by
  refine sound.table ?_ (fun _ _ => Oldest.append_idle)
  intro slot member
  rcases List.mem_append.mp member with before | added
  · exact sound.readers slot before
  · rw [List.mem_singleton.mp added]
    exact ⟨by simp [ReaderPhase.held], by simp, by simp⟩

theorem reader (sound : SystemSound system) {index : Nat} {slot next : ReaderSlot γ}
    (found : system.readers[index]? = some slot)
    (steps : ReaderStep system.metas system.mtiTxnid slot next) :
    SystemSound { system with readers := system.readers.set index next } := by
  refine sound.table ?_ (fun _ _ known => known.drop_reader found steps)
  intro other member
  rcases List.mem_or_eq_of_mem_set member with before | rfl
  · exact sound.readers other before
  · exact (sound.readers slot (List.mem_of_getElem? found)).step sound.metas steps

/-- There is no write transaction. -/
theorem ended (sound : SystemSound system) (settled : system.writer.any (·.written) = false)
    {oldest : List Nat}
    (known : ∀ value ∈ oldest, Oldest system.mtiTxnid system.readers value) :
    SystemSound { system with writer := none, oldest := oldest } := by
  refine ⟨?_, sound.readers, ?_, ?_, ?_, known⟩
  · exact sound.settledMetas settled
  · intro txn impossible
    cases impossible
  · intro txn impossible
    cases impossible
  · intro txn impossible
    cases impossible

theorem start (sound : SystemSound system) {oldest maxPg : Nat} (idle : system.writer = none)
    (known : oldest ∈ system.oldest)
    (mapped : (metaAt system.metas system.mtiTxnid).lastPg + 1 ≤ maxPg)
    (representable : maxPg ≤ midlLast) :
    SystemSound { system with writer := some (system.startTxn oldest maxPg) } := by
  have baseSound := sound.base
  have published := sound.metas.published
  have settled : system.writer.any (·.written) = false := by simp [idle]
  have all : unread (metaAt system.metas system.mtiTxnid).freeDb 0 =
      (metaAt system.metas system.mtiTxnid).freeDb :=
    List.filter_eq_self.mpr fun record member =>
      decide_eq_true (baseSound.ids record member).1
  have oldestKnown : Oldest (metaAt system.metas system.mtiTxnid).txnid system.readers oldest :=
    published.symm ▸ sound.oldest oldest known
  refine ⟨sound.settledMetas settled, sound.readers, ?_, ?_, ?_, sound.oldest⟩
  · rintro txn ⟨⟩ -
    refine ⟨?_, rfl, ?_, fun _ => Or.inl, ?_, fun _ => Or.inl, ?_, ?_, ?_, Or.inl rfl, oldestKnown,
      ?_, ?_⟩
    · rw [published]
      rfl
    · have accounts := baseSound.accounts
      have lastPg := baseSound.lastPg
      simp only [System.startTxn, freePages, headPages, all, List.append_nil, List.nil_append]
      rwa [show (metaAt system.metas system.mtiTxnid).lastPg + 1 - 2 =
        (metaAt system.metas system.mtiTxnid).lastPg - 1 by omega]
    · intro page impossible
      cases impossible
    · intro page impossible
      cases impossible
    · intro mop impossible
      cases impossible
    · have lastPg := baseSound.lastPg
      simp only [System.startTxn]
      omega
    · intro index value impossible
      cases impossible
    · intro freeDb impossible
      cases impossible
  · rintro txn ⟨⟩ - page impossible
    cases impossible
  · rintro txn ⟨⟩ impossible
    cases impossible

theorem txnStep (sound : SystemSound system) {txn next : WriteTxn γ}
    (active : system.writer = some txn) (unwritten : txn.written = false)
    (steps : TxnStep system.readers txn next) :
    SystemSound { system with writer := some next } := by
  have txnSound := sound.txn txn active unwritten
  have same : next.written = false := by
    cases steps <;> exact unwritten
  refine ⟨?_, sound.readers, ?_, ?_, ?_, sound.oldest⟩
  · dsimp only [Option.any_some]
    rw [same]
    exact sound.openMetas active unwritten
  · rintro known ⟨⟩ -
    exact txnSound.step sound.base sound.stored steps
  · rintro known ⟨⟩ -
    exact steps.flushed txnSound sound.base (sound.flushed txn active unwritten)
  · rintro known ⟨⟩ impossible
    rw [same] at impossible
    cases impossible

/-- A page that the transaction writes to the file is one that no reader can see. -/
theorem flush (sound : SystemSound system) {txn : WriteTxn γ} {page : Nat}
    (active : system.writer = some txn) (unwritten : txn.written = false)
    (dirty : page ∈ txn.source.dirtyPages) :
    SystemSound { system with
      file := Function.update system.file page (txn.data page)
      writer := some { txn with flushed := Function.update txn.flushed page true } } := by
  have txnSound := sound.txn txn active unwritten
  have metas := sound.openMetas active unwritten
  have current := metas.settled rfl
  have unused : ∀ version, ∀ held, Covers (mdbEnvPickMeta system.metas) version held →
      (txn.source.pglast = 0 ∨ txn.source.pglast < held) → page ∉ version.pages := by
    intro version held covers registered
    rw [current] at covers
    exact txnSound.untouched sound.base dirty covers registered
  have base : page ∉ (metaAt system.metas system.mtiTxnid).pages := (txnSound.fresh page dirty).1
  refine ⟨?_, ?_, ?_, ?_, ?_, sound.oldest⟩
  · dsimp only [Option.any_some]
    rw [unwritten]
    exact ⟨metas.published, metas.known, metas.sound, metas.newest, metas.order, metas.pending,
      metas.settled, metas.covered, intact_update metas.intact base _,
      intact_update metas.intactNewest (current ▸ base) _⟩
  · intro slot member
    have slotSound := sound.readers slot member
    refine ⟨slotSound.stored, slotSound.loaded, ?_⟩
    intro held version phase
    obtain ⟨published, before, known, covers, intact⟩ := slotSound.version held version phase
    have registered := txnSound.registered member (held_of_version phase)
    exact ⟨published, before, known, covers, intact_update intact (unused version held covers registered) _⟩
  · rintro known ⟨⟩ -
    exact txnSound.relabel txnSound.scan txnSound.saved
  · rintro known ⟨⟩ - other written member
    dsimp only at written ⊢
    by_cases same : other = page
    · rw [same, Function.update_self]
    · rw [Function.update_of_ne same] at written ⊢
      exact sound.flushed txn active unwritten other written member
  · rintro known ⟨⟩ impossible
    rw [show txn.written = true from impossible] at unwritten
    cases unwritten

theorem versionSound {base : Version γ} {readers : List (ReaderSlot γ)} {txn : WriteTxn γ}
    (sound : TxnSound base readers txn) {freeDb : List FreeRecord}
    (saved : SavedSound base txn freeDb) (file : Nat → γ) :
    VersionSound (txn.version file freeDb) := by
  have bounds := sound.bounds
  refine ⟨?_, saved.ordered, saved.ids, ?_⟩
  · have accounts := saved.accounts
    simp only [WriteTxn.version]
    rwa [show txn.source.nextPgno - 1 - 1 = txn.source.nextPgno - 2 by omega]
  · simp only [WriteTxn.version]
    omega

theorem writeMeta (sound : SystemSound system) {txn : WriteTxn γ} {freeDb : List FreeRecord}
    (active : system.writer = some txn) (unwritten : txn.written = false)
    (saved : txn.saved = some freeDb)
    (flushed : ∀ page ∈ txn.pages, page ∈ txn.source.dirtyPages → txn.flushed page = true) :
    SystemSound { system with
      metas := setMeta system.metas (txn.version system.file freeDb)
      writer := some { txn with written := true }
      history := txn.version system.file freeDb :: system.history } := by
  have txnSound := sound.txn txn active unwritten
  have metas := sound.openMetas active unwritten
  have savedSound := txnSound.saved freeDb saved
  have current := metas.settled rfl
  have published := metas.published
  have next : (txn.version system.file freeDb).txnid = system.mtiTxnid + 1 := by
    rw [← published]
    exact txnSound.txnid
  have previous := metaAt_setMeta_previous system.metas next
  have latest : metaAt (setMeta system.metas (txn.version system.file freeDb))
      (system.mtiTxnid + 1) = txn.version system.file freeDb := by
    rw [← next]
    exact metaAt_setMeta_same _ _
  have picked : mdbEnvPickMeta (setMeta system.metas (txn.version system.file freeDb)) =
      txn.version system.file freeDb := by
    rw [mdbEnvPickMeta_eq (by rw [previous, latest, published, next]; omega), latest]
  have intact : Intact system.file (txn.version system.file freeDb) := by
    intro page member
    simp only [WriteTxn.version, WriteTxn.view]
    split_ifs with dirty
    · exact sound.flushed txn active unwritten page (flushed page member dirty) dirty
    · rfl
  have commits : ∀ version held, Covers (mdbEnvPickMeta system.metas) version held →
      held ≤ system.mtiTxnid → (txn.source.pglast = 0 ∨ txn.source.pglast < held) →
      Covers (txn.version system.file freeDb) version held := by
    intro version held covers committed registered
    rw [current] at covers
    exact txnSound.covers sound.base savedSound covers (published.symm ▸ committed) registered _
  refine ⟨?_, ?_, ?_, ?_, ?_, sound.oldest⟩
  · refine ⟨?_, ?_, ?_, ?_, ?_, ?_, ?_, ?_, ?_, ?_⟩
    · exact previous.symm ▸ published
    · exact List.mem_cons_of_mem _ (previous.symm ▸ metas.known)
    · intro version member
      rcases List.mem_cons.mp member with rfl | before
      · exact versionSound txnSound savedSound system.file
      · exact metas.sound version before
    · rw [picked, List.head?_cons]
    · rw [picked, List.map_cons, metas.order, current, published, next,
        @List.range_succ (system.mtiTxnid + 1), List.reverse_append, List.reverse_singleton, List.singleton_append]
    · intro _
      rw [picked, latest]
      exact ⟨rfl, next⟩
    · intro impossible
      cases impossible
    · rw [picked, previous]
      refine commits _ _ (current.symm ▸ Covers.refl _ _) (Nat.le_refl _) ?_
      exact txnSound.last.imp_right fun oldest => published ▸ oldest.committed
    · exact previous.symm ▸ metas.intact
    · exact picked.symm ▸ intact
  · intro slot member
    have slotSound := sound.readers slot member
    refine ⟨slotSound.stored, slotSound.loaded, ?_⟩
    have stays : ∀ held version, (slot.phase = .registered held ∧
          version = metaAt system.metas held) ∨ slot.phase = .reading held version →
        held ≤ system.mtiTxnid ∧ held ≤ version.txnid ∧
          version ∈ txn.version system.file freeDb :: system.history ∧
          Covers (mdbEnvPickMeta (setMeta system.metas (txn.version system.file freeDb)))
            version held ∧ Intact system.file version := by
      intro held version phase
      obtain ⟨committed, before, known, covers, readable⟩ := slotSound.version held version phase
      have registered := txnSound.registered member (held_of_version phase)
      exact ⟨committed, before, List.mem_cons_of_mem _ known,
        picked.symm ▸ commits version held covers committed registered, readable⟩
    rintro held version (⟨registered, rfl⟩ | reading)
    · obtain ⟨committed, same⟩ := stays held _ (Or.inl ⟨registered, rfl⟩)
      rcases metaAt_setMeta system.metas (txn.version system.file freeDb) held with new | old
      · dsimp only
        rw [new, picked, next]
        exact ⟨committed, by omega, List.mem_cons_self, Covers.refl _ _, intact⟩
      · dsimp only
        rw [old]
        exact ⟨committed, same⟩
    · exact stays held version (Or.inr reading)
  · rintro known ⟨⟩ impossible
    cases impossible
  · rintro known ⟨⟩ impossible
    cases impossible
  · rintro known ⟨⟩ -
    exact ⟨next, published ▸ txnSound.oldest⟩

/-- `mti_txnid` becomes the ID of the meta page that was written. -/
theorem published (sound : SystemSound system) (written : system.writer.any (·.written) = true)
    {oldest : List Nat}
    (known : ∀ value ∈ oldest, Oldest system.mtiTxnid system.readers value) :
    SystemSound { system with
      mtiTxnid := system.mtiTxnid + 1
      writer := none
      oldest := oldest } := by
  obtain ⟨picked, next⟩ := sound.metas.pending written
  have intact := sound.metas.intactNewest
  have newest := sound.metas.newest
  refine ⟨?_, ?_, ?_, ?_, ?_, ?_⟩
  · refine ⟨picked ▸ next, ?_, sound.metas.sound, newest, sound.metas.order, ?_,
      fun _ => picked, picked ▸ Covers.refl _ _, picked ▸ intact, intact⟩
    · rw [← picked]
      exact List.mem_of_mem_head? newest
    · intro impossible
      cases impossible
  · intro slot member
    have slotSound := sound.readers slot member
    refine ⟨slotSound.stored, slotSound.loaded, ?_⟩
    intro held version phase
    obtain ⟨committed, rest⟩ := slotSound.version held version phase
    exact ⟨Nat.le_succ_of_le committed, rest⟩
  · intro txn impossible
    cases impossible
  · intro txn impossible
    cases impossible
  · intro txn impossible
    cases impossible
  · intro value member
    exact (known value member).weaken (Nat.le_succ _) (Nat.le_refl _)

theorem recover (sound : SystemSound system) :
    SystemSound { system with
      mtiTxnid := (mdbEnvPickMeta system.metas).txnid
      writer := none } := by
  cases written : system.writer.any (·.written) with
  | true =>
      rw [(sound.metas.pending written).2]
      exact sound.published written sound.oldest
  | false =>
      rw [(sound.settledMetas written).settled rfl, sound.metas.published]
      exact sound.ended written sound.oldest

/-- Every step keeps the invariant. -/
theorem step {next : System γ} (sound : SystemSound system) (steps : SystemStep system next) :
    SystemSound next := by
  cases steps with
  | addReader pid process => exact sound.addReader pid
  | reader found steps => exact sound.reader found steps
  | start idle known mapped representable => exact sound.start idle known mapped representable
  | txn active unwritten steps => exact sound.txnStep active unwritten steps
  | flush active unwritten dirty => exact sound.flush active unwritten dirty
  | writeMeta active unwritten saved flushed =>
      exact sound.writeMeta active unwritten saved flushed
  | @publish txn active written =>
      obtain ⟨next, oldest⟩ := sound.written txn active written
      rw [next]
      refine sound.published (by simp [active, written]) ?_
      intro value member
      rcases List.mem_cons.mp member with rfl | before
      · exact oldest
      · exact sound.oldest value before
  | @abort txn active unwritten =>
      have txnSound := sound.txn txn active unwritten
      refine sound.ended (by simp [active, unwritten]) ?_
      intro value member
      rcases List.mem_cons.mp member with rfl | before
      · exact sound.metas.published ▸ txnSound.oldest
      · exact sound.oldest value before
  | recover => exact sound.recover
  | reopen =>
      have empty : SystemSound { system with
          mtiTxnid := (mdbEnvPickMeta system.metas).txnid
          writer := none
          readers := [] } := by
        refine sound.recover.table (fun _ impossible => (by cases impossible)) ?_
        intro start oldest known
        rw [List.drop_nil]
        exact ⟨known.committed, fun _ impossible => (by cases impossible)⟩
      refine empty.ended rfl ?_
      intro value member
      rw [List.mem_singleton.mp member]
      exact ⟨Nat.zero_le _, fun _ impossible => (by cases impossible)⟩

end SystemSound

theorem system_new_sound (file : Nat → γ) : SystemSound (.new file) := by
  have version : VersionSound ({ txnid := 0, lastPg := 1, pages := [], freeDb := [], image := file } :
      Version γ) :=
    ⟨List.Perm.refl _, ⟨List.Pairwise.nil, by simp, by simp⟩, by simp, Nat.le_refl 1⟩
  refine ⟨?_, ?_, ?_, ?_, ?_, ?_⟩
  · refine ⟨rfl, List.mem_cons_self, ?_, rfl, rfl, ?_, fun _ => rfl, Covers.refl _ _, ?_, ?_⟩
    · intro known member
      rw [List.mem_singleton.mp member]
      exact version
    · intro impossible
      cases impossible
    · intro page impossible
      cases impossible
    · intro page impossible
      cases impossible
  · intro slot impossible
    cases impossible
  · intro txn impossible
    cases impossible
  · intro txn impossible
    cases impossible
  · intro txn impossible
    cases impossible
  · intro value member
    rw [List.mem_singleton.mp member]
    exact ⟨Nat.le_refl 0, fun _ impossible => (by cases impossible)⟩

theorem Reachable.sound {file : Nat → γ} (reached : Reachable file system) : SystemSound system := by
  induction reached with
  | start => exact system_new_sound file
  | step _ steps ih => exact ih.step steps

/-- A reader reads a version that was committed with one page, and a writer has freed that page. -/
theorem reader_over_writer_reachable : ∃ (system : System Nat) (version : Version Nat),
    Reachable (fun _ => 0) system ∧ ⟨7, 1, .reading 1 version⟩ ∈ system.readers ∧
      version.pages = [2] ∧ version.image 2 = 5 ∧
      ∃ txn, system.writer = some txn ∧ txn.written = false ∧ txn.freePgs = [2] := by
  have started := Reachable.start.step (@SystemStep.start Nat (.new fun _ => 0) 0 9 rfl
    (List.mem_singleton_self 0) (by decide) (by decide))
  have scanned := started.step (.txn rfl rfl .scan)
  have allocated := scanned.step (.txn rfl rfl
    (@TxnStep.alloc _ _ _ 0 1 2 (fun _ => true) true _ rfl rfl (Nat.le_refl 1) rfl))
  have changed := allocated.step (.txn rfl rfl (@TxnStep.write _ _ _ 2 5 (by decide)))
  have flushed := changed.step (@SystemStep.flush _ _ _ 2 rfl rfl (by decide))
  have follows : SaveWorld.Follows [] 0 [] ⟨0, [], []⟩ :=
    ⟨Or.inl rfl, List.Subperm.refl _, by decide, by simp⟩
  have saved := flushed.step (.txn rfl rfl (@TxnStep.save _ _ _ 100 [⟨0, [], []⟩] _ _ true rfl rfl
    ⟨follows, by decide, trivial⟩ (by decide) rfl rfl (List.Perm.refl _) rfl))
  have written := saved.step (.writeMeta rfl rfl rfl (by decide))
  have published := written.step (.publish rfl rfl)
  have claimed := published.step (.addReader 7 (by decide))
  have loaded := claimed.step (@SystemStep.reader _ _ 0 _ _ rfl (.load (by decide)))
  have stored := loaded.step (@SystemStep.reader _ _ 0 _ _ rfl .store)
  have registered := stored.step (@SystemStep.reader _ _ 0 _ _ rfl (.register rfl))
  have reading := registered.step (@SystemStep.reader _ _ 0 _ _ rfl .copy)
  have again := reading.step (@SystemStep.start _ _ 0 9 rfl (by decide) (by decide) (by decide))
  have freed := again.step (.txn rfl rfl (@TxnStep.free _ _ _ 2 1 [] rfl (List.Perm.refl _)))
  exact ⟨_, _, freed, List.mem_cons_self, rfl, rfl, _, rfl, rfl, rfl⟩

/-- A reader that has copied its meta page reads a version that was committed, no older than the
ID it has registered, and every page of it as it was committed: no step of any writer changes it
under the reader, also not while the writer looks for the oldest reader. -/
theorem reader_snapshot_intact {file : Nat → γ} {slot : ReaderSlot γ} {held : Nat}
    {version : Version γ} (reached : Reachable file system) (member : slot ∈ system.readers)
    (reading : slot.phase = .reading held version) :
    version ∈ system.history ∧ held ≤ version.txnid ∧
      ∀ page ∈ version.pages, system.file page = version.image page := by
  obtain ⟨-, before, known, -, intact⟩ :=
    (reached.sound.readers slot member).version held version (Or.inr reading)
  exact ⟨known, before, intact⟩

theorem reader_snapshot_intact_over_writer : ∃ (system : System Nat) (version : Version Nat),
    ⟨7, 1, .reading 1 version⟩ ∈ system.readers ∧ version.pages = [2] ∧ system.file 2 = 5 := by
  obtain ⟨system, version, reached, member, pages, image, -⟩ := reader_over_writer_reachable
  obtain ⟨-, -, intact⟩ := reader_snapshot_intact reached member rfl
  exact ⟨system, version, member, pages, (intact 2 (by simp [pages])).trans image⟩

/-- At whatever point the writer or all the processes end, the meta page that is picked next is the
last one that was written, all of its pages are in the file as they were committed, and the IDs of
the versions have no gap. -/
theorem recovery_finds_last_commit {file : Nat → γ} (reached : Reachable file system) :
    system.history.head? = some (mdbEnvPickMeta system.metas) ∧
      (∀ page ∈ (mdbEnvPickMeta system.metas).pages,
        system.file page = (mdbEnvPickMeta system.metas).image page) ∧
      system.history.map (·.txnid) =
        (List.range ((mdbEnvPickMeta system.metas).txnid + 1)).reverse := by
  have metas := reached.sound.metas
  exact ⟨metas.newest, metas.intactNewest, metas.order⟩

theorem recovery_finds_last_commit_over_writer : ∃ system : System Nat,
    (∃ txn, system.writer = some txn ∧ txn.freePgs = [2]) ∧
      system.history.head? = some (mdbEnvPickMeta system.metas) := by
  obtain ⟨system, version, reached, -, -, -, txn, active, -, freed⟩ := reader_over_writer_reachable
  exact ⟨system, ⟨txn, active, freed⟩, (recovery_finds_last_commit reached).1⟩

end System

end LmdbJni
