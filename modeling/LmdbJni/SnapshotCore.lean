import LmdbJni.FreelistSave

/-!
The readers and the writer of an environment, any number of processes over one data file and one
lock file. A reader puts the ID of the last commit into its slot of the reader table, reads the
meta page of that ID and then any page of the map; it takes no lock. The writer holds `me_wmutex`,
takes page numbers from `mdb_page_alloc`, writes them to the file, writes the meta page that is not
the current one and last of all `mti_txnid`.

Each step is one access to memory that others see, so that the scan of the reader table in
`mdb_find_oldest`, the registration of a reader and the two writes of a commit are all interleaved
with the steps of others. The order of the B+tree operations is not fixed: a step may allocate, free
or write any page the writer may touch. Spilling a page is a write to the file ahead of the commit.
Nested transactions, `MDB_WRITEMAP` and the wrap of `mti_txnid` are left out. A meta page is written
and copied as a whole, writing it does not fail and neither does `mdb_midl_append`, and a spill does
not give back `mt_dirty_room`.
-/

namespace LmdbJni

variable {γ : Type}

/-- A meta page and what its roots lead to: the pages of the trees with their contents, and the
records of the freeDB. -/
structure Version (γ : Type) where
  txnid : Nat
  lastPg : Nat
  pages : List Nat
  freeDb : List FreeRecord
  image : Nat → γ

def noTxnid : Nat := 2 ^ 64 - 1

/-- How far a reader is in `mdb_txn_renew0`. -/
inductive ReaderPhase (γ : Type)
  | idle
  | loaded (txnid : Nat)
  | stored (txnid : Nat)
  | registered (txnid : Nat)
  | reading (txnid : Nat) (version : Version γ)

structure ReaderSlot (γ : Type) where
  pid : Nat
  txnid : Nat
  phase : ReaderPhase γ

/-- The ID a reader relies on once it has seen it in `mti_txnid` after its own store. -/
def ReaderPhase.held : ReaderPhase γ → Option Nat
  | registered txnid => some txnid
  | reading txnid _ => some txnid
  | _ => none

/-- A write transaction. `pages` are the pages of its trees, `data` what it has in memory for the
dirty ones, and `scan` the slots `mdb_find_oldest` has yet to look at and the oldest so far. -/
structure WriteTxn (γ : Type) where
  txnid : Nat
  freeDb : List FreeRecord
  source : PageSource
  pages : List Nat
  freePgs : List Nat
  data : Nat → γ
  flushed : Nat → Bool
  scan : Option (Nat × Nat)
  error : Bool
  saved : Option (List FreeRecord)
  written : Bool

def PageSource.dirtyPages (source : PageSource) : List Nat :=
  source.dirty.flatMap fun page => List.range' page.1 page.2

/-- `oldest` holds what the processes have in `me_pgoldest`, and `history` all the versions that
were ever written, the last one first. -/
structure System (γ : Type) where
  metas : Bool → Version γ
  mtiTxnid : Nat
  file : Nat → γ
  readers : List (ReaderSlot γ)
  writer : Option (WriteTxn γ)
  oldest : List Nat
  history : List (Version γ)

def metaAt (metas : Bool → Version γ) (txnid : Nat) : Version γ := metas (txnid % 2 == 1)

def setMeta (metas : Bool → Version γ) (version : Version γ) : Bool → Version γ :=
  Function.update metas (version.txnid % 2 == 1) version

def mdbEnvPickMeta (metas : Bool → Version γ) : Version γ :=
  metas (decide ((metas false).txnid < (metas true).txnid))

/-- `mdb_env_init_meta` and `mdb_env_setup_locks` for a new environment. -/
def System.new (file : Nat → γ) : System γ :=
  let version := { txnid := 0, lastPg := 1, pages := [], freeDb := [], image := file }
  { metas := fun _ => version
    mtiTxnid := 0
    file := file
    readers := []
    writer := none
    oldest := [0]
    history := [version] }

def System.startTxn (system : System γ) (oldest maxPg : Nat) : WriteTxn γ :=
  let base := metaAt system.metas system.mtiTxnid
  { txnid := system.mtiTxnid + 1
    freeDb := base.freeDb
    source := {
      pghead := none
      pglast := 0
      pgoldest := oldest
      nextPgno := base.lastPg + 1
      maxPg := maxPg
      loose := []
      dirtyRoom := midlUmMax
      dirty := [] }
    pages := base.pages
    freePgs := []
    data := system.file
    flushed := fun _ => false
    scan := none
    error := false
    saved := none
    written := false }

def ReaderSlot.older (slot : ReaderSlot γ) (oldest : Nat) : Nat :=
  if slot.pid ≠ 0 ∧ slot.txnid < oldest then slot.txnid else oldest

def WriteTxn.view (txn : WriteTxn γ) (file : Nat → γ) (page : Nat) : γ :=
  if page ∈ txn.source.dirtyPages then txn.data page else file page

def WriteTxn.version (txn : WriteTxn γ) (file : Nat → γ) (freeDb : List FreeRecord) : Version γ :=
  { txnid := txn.txnid
    lastPg := txn.source.nextPgno - 1
    pages := txn.pages
    freeDb := freeDb
    image := txn.view file }

inductive ReaderStep (metas : Bool → Version γ) (mtiTxnid : Nat) :
    ReaderSlot γ → ReaderSlot γ → Prop
  | claim {slot : ReaderSlot γ} (pid : Nat) (unused : slot.pid = 0) (process : pid ≠ 0) :
      ReaderStep metas mtiTxnid slot ⟨pid, noTxnid, .idle⟩
  | load {pid txnid : Nat} (process : pid ≠ 0) :
      ReaderStep metas mtiTxnid ⟨pid, txnid, .idle⟩ ⟨pid, txnid, .loaded mtiTxnid⟩
  | store {pid old txnid : Nat} :
      ReaderStep metas mtiTxnid ⟨pid, old, .loaded txnid⟩ ⟨pid, txnid, .stored txnid⟩
  /-- `while(r->mr_txnid != ti->mti_txnid)`. -/
  | retry {pid txnid kept : Nat} (raced : txnid ≠ mtiTxnid) :
      ReaderStep metas mtiTxnid ⟨pid, txnid, .stored kept⟩ ⟨pid, txnid, .idle⟩
  | register {pid txnid kept : Nat} (same : txnid = mtiTxnid) :
      ReaderStep metas mtiTxnid ⟨pid, txnid, .stored kept⟩ ⟨pid, txnid, .registered txnid⟩
  | copy {pid stored txnid : Nat} :
      ReaderStep metas mtiTxnid ⟨pid, stored, .registered txnid⟩
        ⟨pid, stored, .reading txnid (metaAt metas txnid)⟩
  | finish {pid stored txnid : Nat} {version : Version γ} :
      ReaderStep metas mtiTxnid ⟨pid, stored, .reading txnid version⟩ ⟨pid, noTxnid, .idle⟩
  | die {pid stored : Nat} {phase : ReaderPhase γ} :
      ReaderStep metas mtiTxnid ⟨pid, stored, phase⟩ ⟨pid, stored, .idle⟩
  /-- `mr_pid = 0`, by the reader itself or by `mdb_reader_check`. -/
  | release {pid stored : Nat} :
      ReaderStep metas mtiTxnid ⟨pid, stored, .idle⟩ ⟨0, stored, .idle⟩

inductive TxnStep (readers : List (ReaderSlot γ)) : WriteTxn γ → WriteTxn γ → Prop
  | scan {txn : WriteTxn γ} :
      TxnStep readers txn { txn with scan := some (readers.length, txn.txnid - 1) }
  | scanSlot {txn : WriteTxn γ} {index oldest : Nat} {slot : ReaderSlot γ}
      (scanning : txn.scan = some (index + 1, oldest)) (found : readers[index]? = some slot) :
      TxnStep readers txn { txn with scan := some (index, slot.older oldest) }
  | alloc {txn : WriteTxn γ} {oldest num pgno : Nat} {memory : Nat → Bool} {pageMemory : Bool}
      {source : PageSource} (active : txn.saved = none) (scanned : txn.scan = some (0, oldest))
      (positive : 1 ≤ num)
      (allocated : mdbPageAlloc num oldest memory pageMemory txn.freeDb txn.source =
        some (.page pgno, source)) :
      TxnStep readers txn { txn with
        source := source
        pages := List.range' pgno num ++ txn.pages
        flushed := fun page => if page ∈ List.range' pgno num then false else txn.flushed page
        scan := none }
  | allocFailed {txn : WriteTxn γ} {oldest num : Nat} {memory : Nat → Bool} {pageMemory : Bool}
      {code : Int} {source : PageSource} (active : txn.saved = none)
      (scanned : txn.scan = some (0, oldest)) (positive : 1 ≤ num)
      (failed : mdbPageAlloc num oldest memory pageMemory txn.freeDb txn.source =
        some (.failed code, source)) :
      TxnStep readers txn { txn with source := source, scan := none, error := true }
  /-- `mdb_midl_append` or `mdb_midl_append_range` to `mt_free_pgs`: the pages leave the trees. -/
  | free {txn : WriteTxn γ} {pgno num : Nat} {rest : List Nat} (active : txn.saved = none)
      (used : txn.pages.Perm (List.range' pgno num ++ rest)) :
      TxnStep readers txn { txn with
        pages := rest
        freePgs := txn.freePgs ++ (List.range' pgno num).reverse }
  | loosen {txn : WriteTxn γ} {pgno : Nat} {rest : List Nat} (active : txn.saved = none)
      (dirty : (pgno, 1) ∈ txn.source.dirty) (used : txn.pages.Perm (pgno :: rest)) :
      TxnStep readers txn { txn with
        pages := rest
        source := { txn.source with loose := pgno :: txn.source.loose } }
  | giveBack {txn : WriteTxn γ} {pgno num : Nat} {rest : List Nat} {memory : Bool}
      {source : PageSource} (active : txn.saved = none)
      (dirty : (pgno, num) ∈ txn.source.dirty)
      (used : txn.pages.Perm (List.range' pgno num ++ rest))
      (given : txn.source.giveBack pgno num memory = some (0, source)) :
      TxnStep readers txn { txn with pages := rest, source := source }
  | write {txn : WriteTxn γ} {page : Nat} (value : γ) (dirty : page ∈ txn.source.dirtyPages) :
      TxnStep readers txn { txn with
        data := Function.update txn.data page value
        flushed := Function.update txn.flushed page false }
  /-- `Put loose page numbers in mt_free_pgs`. -/
  | freeLoose {txn : WriteTxn γ} (active : txn.saved = none) (empty : txn.source.pghead = none) :
      TxnStep readers txn { txn with
        freePgs := txn.freePgs ++ txn.source.loose
        source := { txn.source with loose := [] } }
  /-- `mdb_freelist_save` ends, with the lists of the transaction as it has found them last. -/
  | save {txn : WriteTxn γ} {maxfree1pg : Nat} {worlds : List SaveWorld} {world : SaveWorld}
      {freeDb : List FreeRecord} {memory : Bool} (active : txn.saved = none)
      (clean : txn.error = false)
      (valid : SaveWorlds txn.freeDb txn.txnid 0 [] worlds)
      (short : txn.source.loose.length < 2 ^ 30)
      (head : returnLoose txn.source.pghead txn.source.loose memory = some world.mop)
      (last : world.pglast = txn.source.pglast) (freed : world.freePgs.Perm txn.freePgs)
      (saves : mdbFreelistSave maxfree1pg txn.txnid txn.freeDb worlds = some (world, freeDb)) :
      TxnStep readers txn { txn with saved := some freeDb }

inductive SystemStep : System γ → System γ → Prop
  | addReader {system : System γ} (pid : Nat) (process : pid ≠ 0) :
      SystemStep system { system with
        readers := system.readers ++ [⟨pid, noTxnid, .idle⟩] }
  | reader {system : System γ} {index : Nat} {slot next : ReaderSlot γ}
      (found : system.readers[index]? = some slot)
      (steps : ReaderStep system.metas system.mtiTxnid slot next) :
      SystemStep system { system with readers := system.readers.set index next }
  | start {system : System γ} {oldest maxPg : Nat} (idle : system.writer = none)
      (known : oldest ∈ system.oldest)
      (mapped : (metaAt system.metas system.mtiTxnid).lastPg + 1 ≤ maxPg)
      (representable : maxPg ≤ midlLast) :
      SystemStep system { system with writer := some (system.startTxn oldest maxPg) }
  | txn {system : System γ} {txn next : WriteTxn γ} (active : system.writer = some txn)
      (unwritten : txn.written = false) (steps : TxnStep system.readers txn next) :
      SystemStep system { system with writer := some next }
  /-- `mdb_page_flush` or `mdb_page_spill` writes a page to the file. -/
  | flush {system : System γ} {txn : WriteTxn γ} {page : Nat}
      (active : system.writer = some txn) (unwritten : txn.written = false)
      (dirty : page ∈ txn.source.dirtyPages) :
      SystemStep system { system with
        file := Function.update system.file page (txn.data page)
        writer := some { txn with flushed := Function.update txn.flushed page true } }
  | writeMeta {system : System γ} {txn : WriteTxn γ} {freeDb : List FreeRecord}
      (active : system.writer = some txn) (unwritten : txn.written = false)
      (saved : txn.saved = some freeDb)
      (flushed : ∀ page ∈ txn.pages, page ∈ txn.source.dirtyPages → txn.flushed page = true) :
      SystemStep system { system with
        metas := setMeta system.metas (txn.version system.file freeDb)
        writer := some { txn with written := true }
        history := txn.version system.file freeDb :: system.history }
  /-- `env->me_txns->mti_txnid = txn->mt_txnid`, and the end of the transaction. -/
  | publish {system : System γ} {txn : WriteTxn γ} (active : system.writer = some txn)
      (written : txn.written = true) :
      SystemStep system { system with
        mtiTxnid := txn.txnid
        writer := none
        oldest := txn.source.pgoldest :: system.oldest }
  | abort {system : System γ} {txn : WriteTxn γ} (active : system.writer = some txn)
      (unwritten : txn.written = false) :
      SystemStep system { system with
        writer := none
        oldest := txn.source.pgoldest :: system.oldest }
  /-- The process of the writer has ended with `me_wmutex`: `mdb_mutex_failed`. -/
  | recover {system : System γ} :
      SystemStep system { system with
        mtiTxnid := (mdbEnvPickMeta system.metas).txnid
        writer := none }
  | reopen {system : System γ} :
      SystemStep system { system with
        mtiTxnid := (mdbEnvPickMeta system.metas).txnid
        readers := []
        writer := none
        oldest := [0] }

inductive Reachable (file : Nat → γ) : System γ → Prop
  | start : Reachable file (.new file)
  | step {before after : System γ} (reached : Reachable file before)
      (steps : SystemStep before after) : Reachable file after

end LmdbJni
