import LmdbJni.AutoTransactionCore
import LmdbJni.NativeBuffer
import LmdbJni.ZeroCopy

/-!
How the calls with a transaction of their own end. Whatever the native calls return: the
transaction is ended, every `NativeBuffer` with memory of its own is deleted exactly once, a call
that throws leaves the committed contents alone, and a call that returns has committed the
operation LMDB was handed.

Two things go wrong. LMDB is handed the offset of an array as a native address when a view of an
array is put, and the `NativeBuffer` over the text of an error code is never deleted.
-/

namespace LmdbJni

open ByteStore Execution Wrapping
open AutoWorld (onBytes onHeap onTxn)

/-- Made by `Util.checkErrorCode`. -/
def Throwable.isCode : Throwable → Bool
  | .lmdbError _ => true
  | _ => false

/-! The live views of the native heap. -/

/-- The computation neither makes nor deletes a view. -/
def KeepsLive {α : Type} (body : HeapMethod α) : Prop :=
  ∀ heap, Ends (fun before _ after => after.live = before.live)
    (fun before error after => after.live = before.live ∧ error.isCode = false) heap (body.run heap)

/-- It makes one view of this size if it returns, and none if it throws. -/
def AddsView (capacity : Int) (body : HeapMethod Unit) : Prop :=
  ∀ heap, Ends (fun before _ after => ∃ view, after.live = view :: before.live ∧
      view.capacity = capacity ∧ view.self ≠ 0)
    (fun before error after => after.live = before.live ∧ error.isCode = false) heap (body.run heap)

section Live

variable {α β : Type} {capacity : Int}

theorem KeepsLive.bind {body : HeapMethod α} {next : α → HeapMethod β} (first : KeepsLive body)
    (rest : ∀ value, KeepsLive (next value)) : KeepsLive (body >>= next) := by
  intro heap
  refine ends_bind (first heap) fun value middle kept => ?_
  refine (rest value middle).mono (fun _ _ same => same.trans kept) ?_
  rintro error after ⟨same, plain⟩
  exact ⟨same.trans kept, plain⟩

theorem KeepsLive.bindAdds {body : HeapMethod α} {next : α → HeapMethod Unit}
    (first : KeepsLive body) (rest : ∀ value, AddsView capacity (next value)) :
    AddsView capacity (body >>= next) := by
  intro heap
  refine ends_bind (first heap) fun value middle kept => ?_
  refine (rest value middle).mono ?_ ?_
  · rintro answer after ⟨view, live, shape⟩
    exact ⟨view, by rw [live, kept], shape⟩
  · rintro error after ⟨same, plain⟩
    exact ⟨same.trans kept, plain⟩

theorem keepsLive_pure (value : α) : KeepsLive (pure value) := fun _ => rfl

theorem keepsLive_throw {error : Throwable} (plain : error.isCode = false) :
    KeepsLive (throw error : HeapMethod α) :=
  fun _ => ⟨rfl, plain⟩

theorem keepsLive_get : KeepsLive (get : HeapMethod NativeHeap) := fun _ => rfl

theorem keepsLive_modify {change : NativeHeap → NativeHeap}
    (same : ∀ heap, (change heap).live = heap.live) : KeepsLive (modify change) :=
  fun heap => same heap

theorem keepsLive_ite {condition : Prop} [Decidable condition] {first second : HeapMethod α}
    (left : KeepsLive first) (right : KeepsLive second) :
    KeepsLive (if condition then first else second) := by
  split
  · exact left
  · exact right

theorem keepsLive_checkAllocated (object : NativeObject) :
    KeepsLive (object.checkAllocated : HeapMethod Unit) :=
  keepsLive_ite (keepsLive_throw rfl) (keepsLive_pure _)

theorem keepsLive_store (id : Nat) (allocation : Allocation) :
    KeepsLive (Allocation.store id allocation) :=
  keepsLive_modify fun _ => rfl

theorem keepsLive_allocation (size block : Int) : KeepsLive (Allocation.create size block) := by
  unfold Allocation.create
  split
  · exact (keepsLive_throw rfl).bind fun _ _ => rfl
  · exact fun _ => rfl

theorem keepsLive_retain (id : Nat) : KeepsLive (Allocation.retain id) := by
  unfold Allocation.retain
  refine keepsLive_get.bind fun heap => ?_
  exact (keepsLive_checkAllocated _).bind fun _ => keepsLive_store id _

theorem keepsLive_release (id : Nat) : KeepsLive (Allocation.release id) := by
  unfold Allocation.release
  refine keepsLive_get.bind fun heap => (keepsLive_checkAllocated _).bind fun _ => ?_
  refine (keepsLive_store id _).bind fun _ => ?_
  exact keepsLive_ite (keepsLive_throw rfl)
    (keepsLive_ite (keepsLive_store id _) (keepsLive_pure _))

theorem addsView_make (allocation : Nat) (self : Int) :
    AddsView capacity (NativeBuffer.make allocation self capacity) := by
  unfold NativeBuffer.make
  split
  · exact fun _ => ⟨rfl, rfl⟩
  · rename_i present
    exact (keepsLive_retain allocation).bindAdds fun _ _ => ⟨_, rfl, rfl, present⟩

theorem addsView_createAlone (block : Int) :
    AddsView capacity (NativeBuffer.createAlone capacity block) := by
  unfold NativeBuffer.createAlone
  refine (keepsLive_allocation capacity block).bindAdds fun allocation => ?_
  exact keepsLive_get.bindAdds fun heap => addsView_make allocation _

theorem keepsLive_current : KeepsLive Pool.current := by
  unfold Pool.current
  refine keepsLive_get.bind fun heap => ?_
  cases heap.pools with
  | nil => exact keepsLive_throw rfl
  | cons pool rest => exact keepsLive_pure _

theorem keepsLive_storePool (pool : Pool) : KeepsLive (Pool.store pool) :=
  keepsLive_modify fun _ => rfl

theorem keepsLive_deletePool : KeepsLive Pool.delete := by
  unfold Pool.delete
  refine keepsLive_current.bind fun pool => ?_
  cases pool.allocation with
  | none => exact keepsLive_pure _
  | some allocation =>
      exact (keepsLive_release allocation).bind fun _ => keepsLive_storePool _

theorem keepsLive_allocate (block : Int) : KeepsLive (Pool.allocate block) := by
  unfold Pool.allocate
  refine keepsLive_current.bind fun pool => (keepsLive_allocation _ block).bind fun allocation => ?_
  refine (keepsLive_storePool _).bind fun _ => (keepsLive_retain allocation).bind fun _ => ?_
  exact keepsLive_get.bind fun heap => keepsLive_storePool _

theorem addsView_carve : AddsView capacity (Pool.carve capacity) := by
  unfold Pool.carve
  refine keepsLive_current.bindAdds fun pool => ?_
  cases pool.allocation with
  | none => exact fun _ => ⟨rfl, rfl⟩
  | some allocation =>
      intro heap
      exact ends_bind (addsView_make allocation pool.pos heap) fun _ middle added => added

theorem addsView_createPooled (block : Int) : AddsView capacity (Pool.create capacity block) := by
  unfold Pool.create
  refine keepsLive_current.bindAdds fun pool => ?_
  split
  · exact addsView_createAlone block
  · have room : KeepsLive (Pool.makeRoom capacity) :=
      keepsLive_current.bind fun pool => keepsLive_ite keepsLive_deletePool (keepsLive_pure _)
    have chunk : KeepsLive (Pool.ensureChunk block) :=
      keepsLive_current.bind fun pool => keepsLive_ite (keepsLive_allocate block) (keepsLive_pure _)
    exact room.bindAdds fun _ => chunk.bindAdds fun _ => addsView_carve

theorem addsView_create (block : Int) : AddsView capacity (NativeBuffer.create capacity block) := by
  unfold NativeBuffer.create
  refine keepsLive_get.bindAdds fun heap => ?_
  cases heap.pools with
  | nil => exact addsView_createAlone block
  | cons pool rest => exact addsView_createPooled block

/-- `delete()` takes the view from the live ones. -/
theorem run_deleteFirst {heap : NativeHeap} {view : NativeBuffer} {rest : List NativeBuffer}
    (sound : Sound heap) (live : heap.live = view :: rest) :
    ∃ after, (NativeBuffer.delete 0).run heap = .ok () after ∧ Sound after ∧ after.live = rest := by
  obtain ⟨after, ran, settled, -⟩ := sound.deleteView (by simp [live] : 0 < heap.live.length)
  refine ⟨after, ran, settled, ?_⟩
  have found : heap.live[0]? = some view := by rw [live]; rfl
  have kept := keepsLive_release view.allocation { heap with live := heap.live.eraseIdx 0 }
  simp only [NativeBuffer.delete, EStateM.run_bind, EStateM.run_get, found, EStateM.run_modify]
    at ran
  rw [ran] at kept
  exact Eq.trans kept (by simp [live])

end Live

/-! Inside the transaction. -/

/-- How many buffers the exception leaves: one over the text of its code. -/
def Outcomes.texts (outcomes : Outcomes) : Throwable → Nat
  | .lmdbError rc => if outcomes.strerror rc = 0 then 0 else 1
  | _ => 0

theorem Outcomes.texts_of_plain (outcomes : Outcomes) {error : Throwable}
    (plain : error.isCode = false) : outcomes.texts error = 0 := by
  cases error with
  | lmdbError rc => cases plain
  | _ => rfl

def deletedOnce (count : Nat) : List BufferRecord := List.replicate count ⟨true, 1⟩

def errorTexts (count : Nat) : List BufferRecord := List.replicate count ⟨false, 0⟩

/-- What the code between begin and commit leaves behind, however it ends. -/
structure Leaves {κ : Type} (texts : Nat) (before after : AutoWorld κ) : Prop where
  committed : after.lmdb.committed = before.lmdb.committed
  codes : before.lmdb.codes <+: after.lmdb.codes
  txn : after.txn = before.txn
  buffers : ∃ count, after.ledger = before.ledger ++ deletedOnce count ++ errorTexts texts
  live : after.heap.live = before.heap.live
  sound : Sound before.heap → Sound after.heap

/-- It also does `effect` to LMDB if it returns. -/
def Passes {κ α : Type} (outcomes : Outcomes) (effect : Lmdb κ → α → Lmdb κ → Prop) :
    AutoWorld κ → EStateM.Result Throwable (AutoWorld κ) α → Prop :=
  Ends (fun before value after => Leaves 0 before after ∧ effect before.lmdb value after.lmdb)
    fun before error after => Leaves (outcomes.texts error) before after

/-- The computation only looks at the world. -/
def Looks {κ α : Type} (body : AutoMethod κ α) : Prop :=
  ∀ world, Ends (fun before _ after => after = before)
    (fun before error after => after = before ∧ error.isCode = false) world (body.run world)

section Body

variable {κ α β : Type} {outcomes : Outcomes} {effect : Lmdb κ → α → Lmdb κ → Prop}
  {world : AutoWorld κ}

theorem Leaves.refl (world : AutoWorld κ) : Leaves 0 world world :=
  ⟨rfl, List.prefix_rfl, rfl, ⟨0, by simp [deletedOnce, errorTexts]⟩, rfl, id⟩

theorem Leaves.trans {texts : Nat} {first second third : AutoWorld κ} (left : Leaves 0 first second)
    (right : Leaves texts second third) : Leaves texts first third := by
  obtain ⟨count, ledger⟩ := left.buffers
  obtain ⟨more, later⟩ := right.buffers
  refine ⟨right.committed.trans left.committed, left.codes.trans right.codes,
    right.txn.trans left.txn, ⟨count + more, ?_⟩, right.live.trans left.live,
    fun sound => right.sound (left.sound sound)⟩
  rw [later, ledger]
  simp [deletedOnce, errorTexts, ← List.replicate_append_replicate]

theorem Leaves.plain {before after : AutoWorld κ} {error : Throwable} (left : Leaves 0 before after)
    (plain : error.isCode = false) : Leaves (outcomes.texts error) before after :=
  (outcomes.texts_of_plain plain).symm ▸ left

theorem looks_pure (value : α) : Looks (pure value : AutoMethod κ α) := fun _ => rfl

theorem looks_throw {error : Throwable} (plain : error.isCode = false) :
    Looks (throw error : AutoMethod κ α) :=
  fun _ => ⟨rfl, plain⟩

theorem looks_get : Looks (get : AutoMethod κ (AutoWorld κ)) := fun _ => rfl

theorem Looks.bind {body : AutoMethod κ β} {next : β → AutoMethod κ α} (first : Looks body)
    (rest : ∀ value, Looks (next value)) : Looks (body >>= next) := by
  intro world
  refine ends_bind (first world) ?_
  rintro value _ rfl
  exact rest value _

theorem Looks.discard {body : AutoMethod κ α} (looks : Looks body) :
    Looks (discard body : AutoMethod κ Unit) := by
  intro world
  have ended := looks world
  rw [run_discard]
  cases ran : body.run world with
  | ok value after =>
      rw [ran] at ended
      exact ended
  | error error after =>
      rw [ran] at ended
      exact ended

theorem looks_checkAllocated (object : NativeObject) :
    Looks (object.checkAllocated : AutoMethod κ Unit) := by
  unfold NativeObject.checkAllocated
  split
  · exact looks_throw rfl
  · exact looks_pure _

theorem looks_pointer (object : NativeObject) : Looks (object.pointer : AutoMethod κ Int) :=
  (looks_checkAllocated object).bind fun _ => looks_pure _

theorem looks_handles : Looks (AutoWorld.handles : AutoMethod κ Unit) := by
  unfold AutoWorld.handles
  refine looks_get.bind fun world => (looks_pointer _).discard.bind fun _ => ?_
  exact looks_get.bind fun world => (looks_pointer _).discard

theorem looks_checkOpen : Looks (Env.checkOpen : AutoMethod κ Unit) := by
  refine looks_get.bind fun world => ?_
  split
  · exact looks_throw rfl
  · exact looks_pure _

theorem looks_toByteArray (value : Value) :
    Looks (onBytes value.toByteArray : AutoMethod κ (Option (List UInt8))) := by
  intro world
  unfold onBytes
  rw [run_zoom]
  by_cases null : value.mvData = 0
  · simp only [Value.toByteArray, null]
    rfl
  by_cases large : value.mvSize > 2147483647
  · simp only [Value.toByteArray, null, large]
    exact ⟨rfl, rfl⟩
  by_cases negative : wrap32 value.mvSize < 0
  · simp only [Value.toByteArray, null, large, negative]
    exact ⟨rfl, rfl⟩
  · simp only [Value.toByteArray, null, large, negative]
    rfl

theorem Looks.passes {body : AutoMethod κ α} (looks : Looks body) (world : AutoWorld κ) :
    Passes outcomes (fun before _ after => after = before) world (body.run world) := by
  refine (looks world).mono ?_ ?_
  · rintro value _ rfl
    exact ⟨.refl _, rfl⟩
  · rintro error _ ⟨rfl, plain⟩
    exact (Leaves.refl _).plain plain

theorem Looks.bindPasses {body : AutoMethod κ β} {next : β → AutoMethod κ α} (first : Looks body)
    (rest : ∀ value, Passes outcomes effect world ((next value).run world)) :
    Passes outcomes effect world ((body >>= next).run world) := by
  have looked : Ends (fun before _ after => after = before)
      (fun before error after => Leaves (outcomes.texts error) before after) world
      (body.run world) := by
    refine (first world).mono (fun _ _ same => same) ?_
    rintro error _ ⟨rfl, plain⟩
    exact (Leaves.refl _).plain plain
  refine ends_bind looked ?_
  rintro value _ rfl
  exact rest value

theorem passes_throw {error : Throwable} (plain : error.isCode = false) :
    Passes outcomes effect world ((throw error : AutoMethod κ α).run world) :=
  (Leaves.refl world).plain plain

/-- A view whose size is an `int` is copied out whole. -/
theorem passes_getNewBytes {view : DirectBuffer} {next : List UInt8 → AutoMethod κ α}
    (bounded : view.capacity ≤ 2147483647)
    (rest : Passes outcomes effect world ((next (view.contents world.memory)).run world)) :
    Passes outcomes effect world
      ((onBytes (view.getNewBytes 0 view.capacity) >>= next).run world) := by
  rw [EStateM.run_bind, onBytes, run_zoom]
  by_cases negative : view.capacity < 0
  · rw [run_getNewBytes_clamped, if_pos negative]
    exact passes_throw rfl
  · rw [run_getNewBytes view 0 world.memory (by omega) (by omega) (by omega) bounded, Int.add_zero]
    exact rest

/-! Buffers. -/

/-- `malloc` keeps its contract, and the chunk of a pool does not get too many views. -/
def MayCreate (heap : NativeHeap) (events : List HeapEvent) : Prop :=
  Along HeapEvent.step (fun heap event => event.Valid heap ∧ event.Few heap) heap events

structure Created (data : List UInt8) (block : Int) (before : AutoWorld κ) (buffer : BufferRef)
    (after : AutoWorld κ) : Prop where
  serial : buffer.serial = before.ledger.length
  ledger : after.ledger = before.ledger ++ [⟨true, 0⟩]
  heap : after.heap = HeapEvent.step before.heap (.create data.length block)
  sound : Sound after.heap
  live : after.heap.live = buffer.view :: before.heap.live
  size : buffer.view.capacity = data.length
  present : buffer.view.self ≠ 0
  memory : after.memory = write before.memory .native buffer.view.self data
  lmdb : after.lmdb = before.lmdb
  txn : after.txn = before.txn

theorem ends_createBuffer {data : List UInt8} {block : Int} (sound : Sound world.heap)
    (valid : HeapEvent.Valid world.heap (.create data.length block))
    (few : HeapEvent.Few world.heap (.create data.length block)) :
    Ends (Created data block) (fun before error after => Leaves (outcomes.texts error) before after)
      world ((createBuffer data block).run world) := by
  have settled := (create_sound sound valid few).1
  have stepped : HeapEvent.step world.heap (.create data.length block) =
      finalState ((NativeBuffer.create data.length block).run world.heap) := rfl
  have added := @addsView_create data.length block world.heap
  simp only [createBuffer, onHeap, EStateM.run_bind, run_zoom]
  cases ran : (NativeBuffer.create data.length block).run world.heap with
  | ok value heap =>
      rw [ran] at added stepped
      rw [stepped] at settled
      obtain ⟨view, live, size, present⟩ := added
      simp only [EStateM.run_get, live]
      exact ⟨rfl, rfl, stepped.symm, settled, live, size, present, rfl, rfl, rfl⟩
  | error error heap =>
      rw [ran] at added stepped
      rw [stepped] at settled
      exact Leaves.plain ⟨rfl, List.prefix_rfl, rfl, ⟨0, by simp [deletedOnce, errorTexts]⟩, added.1,
        fun _ => settled⟩ added.2

theorem modify_created (ledger : List BufferRecord) (count texts : Nat) :
    (ledger ++ [BufferRecord.mk true 0] ++ deletedOnce count ++ errorTexts texts).modify
        ledger.length (fun made => { made with deletes := made.deletes + 1 }) =
      ledger ++ deletedOnce (count + 1) ++ errorTexts texts := by
  induction ledger with
  | nil => rfl
  | cons record rest ih => simpa using ih

/-- The deletion in the `finally` block. -/
theorem Created.deleted {data : List UInt8} {block : Int} {buffer : BufferRef}
    {middle after : AutoWorld κ} {texts : Nat} (created : Created data block world buffer middle)
    (left : Leaves texts middle after) :
    ∃ last, (deleteBuffer buffer).run after = .ok () last ∧ Leaves texts world last ∧
      last.lmdb = after.lmdb := by
  obtain ⟨count, further⟩ := left.buffers
  have kept : after.heap.live = buffer.view :: world.heap.live := left.live.trans created.live
  obtain ⟨heap, ran, settled, live⟩ := run_deleteFirst (left.sound created.sound) kept
  have first : after.heap.live.idxOf buffer.view = 0 := by
    rw [kept, List.idxOf_cons_self]
  refine ⟨{ after with
    heap := heap
    ledger := after.ledger.modify buffer.serial
      fun made => { made with deletes := made.deletes + 1 } }, ?_, ?_, rfl⟩
  · simp only [deleteBuffer, onHeap, EStateM.run_bind, EStateM.run_modify, EStateM.run_get,
      run_zoom, first, ran]
  · refine ⟨left.committed.trans (congrArg Lmdb.committed created.lmdb), created.lmdb ▸ left.codes,
      left.txn.trans created.txn, ⟨count + 1, ?_⟩, live, fun _ => settled⟩
    rw [further, created.ledger, created.serial, modify_created]

theorem passes_withBuffer {data : List UInt8} {block : Int} {body : BufferRef → AutoMethod κ α}
    {later : List HeapEvent} (sound : Sound world.heap)
    (provided : MayCreate world.heap (.create data.length block :: later))
    (inner : ∀ buffer middle, Created data block world buffer middle → MayCreate middle.heap later →
      Passes outcomes effect middle ((body buffer).run middle)) :
    Passes outcomes effect world ((withBuffer data block body).run world) := by
  obtain ⟨⟨valid, few⟩, rest⟩ := provided
  refine ends_bind (ends_createBuffer sound valid few) fun buffer middle created => ?_
  have same := created.lmdb
  refine ends_tryCleanup (inner buffer middle created (created.heap ▸ rest)) ?_ ?_
  · rintro value after ⟨left, done⟩
    obtain ⟨last, ran, leaves, lmdb⟩ := created.deleted left
    rw [ran]
    exact ⟨leaves, by rwa [lmdb, ← same]⟩
  · intro error after left
    obtain ⟨last, ran, leaves, -⟩ := created.deleted left
    rw [ran]
    exact leaves

theorem run_slice {buffer : BufferRef} (present : buffer.view.self ≠ 0) (world : AutoWorld κ) :
    buffer.slice.run world = .ok ⟨buffer.view.capacity, buffer.view.self⟩ world := by
  simp [BufferRef.slice, NativeObject.pointer, NativeObject.checkAllocated,
    NativeObject.isAllocated, present]

/-- LMDB finds the bytes of the array behind the slice of its buffer. -/
def BufferShows (world : AutoWorld κ) (buffer : BufferRef) (data : List UInt8) : Prop :=
  buffer.view.self ≠ 0 ∧
    (Value.mk buffer.view.capacity buffer.view.self).denote world.memory = data

theorem Created.shows {data : List UInt8} {block : Int} {buffer : BufferRef} {after : AutoWorld κ}
    (created : Created data block world buffer after) : BufferShows after buffer data := by
  refine ⟨created.present, ?_⟩
  rw [Value.denote, created.size, created.memory, Int.toNat_natCast, read_write]

/-- The next buffer lies elsewhere. -/
theorem Created.still_shows {data next : List UInt8} {block nextBlock : Int}
    {buffer nextBuffer : BufferRef} {middle after : AutoWorld κ}
    (first : Created data block world buffer middle)
    (second : Created next nextBlock middle nextBuffer after) : BufferShows after buffer data := by
  refine ⟨first.present, ?_⟩
  have disjoint := second.sound.laid.disjoint
  rw [second.live, first.live] at disjoint
  have apart := List.rel_of_pairwise_cons disjoint (List.mem_cons_self)
  rw [first.size, second.size] at apart
  rw [Value.denote, first.size, second.memory, Int.toNat_natCast,
    read_write_apart _ _ _ _ _ _ apart, first.memory, read_write]

/-! The native call of the operation. -/

/-- What it does, and what its code has to be for the call to return. -/
def Called (apply : Operation → κ → κ) (outcomes : Outcomes) (operation : Operation)
    (accepted : Int → Prop) (before after : Lmdb κ) : Prop :=
  after = before.operate apply operation outcomes.operation ∧ accepted outcomes.operation

variable {apply : Operation → κ → κ} {accepted : Int → Prop}

theorem passes_called {operation : Operation} {next : Unit → AutoMethod κ α}
    (rest : ∀ world, Passes outcomes
      (fun before _ after => after = before ∧ accepted outcomes.operation) world
      ((next ()).run world)) :
    Passes outcomes (fun before _ after => Called apply outcomes operation accepted before after)
      world ((onLmdb (·.operate apply operation outcomes.operation) >>= next).run world) := by
  have left : Leaves 0 world { world with
      lmdb := world.lmdb.operate apply operation outcomes.operation } :=
    ⟨rfl, List.prefix_append _ _, rfl, ⟨0, by simp [deletedOnce, errorTexts]⟩, rfl, id⟩
  refine ends_bind (show Ends (fun before _ after => after = { before with
    lmdb := before.lmdb.operate apply operation outcomes.operation }) _ world _ from rfl) ?_
  rintro value _ rfl
  refine (rest _).mono ?_ fun error after further => left.trans further
  rintro answer after ⟨further, same, accepts⟩
  exact ⟨left.trans further, same, accepts⟩

theorem passes_operate {operation : Memory → Operation} {next : Int → AutoMethod κ α}
    (rest : ∀ world, Passes outcomes
      (fun before _ after => after = before ∧ accepted outcomes.operation) world
      ((next outcomes.operation).run world)) :
    Passes outcomes (fun before _ after =>
        Called apply outcomes (operation world.memory) accepted before after)
      world ((operate apply outcomes operation >>= next).run world) := by
  simp only [operate, bind_assoc, pure_bind]
  refine looks_handles.bindPasses fun _ => ?_
  rw [EStateM.run_bind, EStateM.run_get]
  exact @passes_called _ _ _ _ _ _ _ (fun _ => next outcomes.operation) rest

theorem run_checkErrorCode {rc : Int} (failed : rc ≠ 0) (world : AutoWorld κ) :
    (Util.checkErrorCode outcomes rc).run world = .error (.lmdbError rc)
      { world with ledger := world.ledger ++ errorTexts (outcomes.texts (.lmdbError rc)) } := by
  by_cases null : outcomes.strerror rc = 0
  · simp [Util.checkErrorCode, Util.string, failed, null, Outcomes.texts, errorTexts]
  · simp [Util.checkErrorCode, Util.string, failed, null, Outcomes.texts, errorTexts]

theorem passes_checkErrorCode {rc : Int} {body : AutoMethod κ α} (fine : rc = 0 → accepted rc)
    (rest : Looks body) (world : AutoWorld κ) :
    Passes outcomes (fun before _ after => after = before ∧ accepted rc) world
      ((Util.checkErrorCode outcomes rc >>= fun _ => body).run world) := by
  by_cases zero : rc = 0
  · subst zero
    refine (rest.passes world).mono ?_ fun error after left => left
    rintro value after ⟨left, same⟩
    exact ⟨left, same, fine rfl⟩
  · rw [EStateM.run_bind, run_checkErrorCode zero]
    exact ⟨rfl, List.prefix_rfl, rfl, ⟨0, by simp [deletedOnce]⟩, rfl, id⟩

theorem passes_accepted {rc : Int} {body : AutoMethod κ α} (fine : accepted rc)
    (looks : Looks body) (world : AutoWorld κ) :
    Passes outcomes (fun before _ after => after = before ∧ accepted rc) world
      (body.run world) := by
  refine (looks.passes world).mono ?_ fun error after left => left
  rintro value after ⟨left, same⟩
  exact ⟨left, same, fine⟩

end Body

/-! The body of each call. -/

namespace AutoCall

def Accepts : AutoCall → Int → Prop
  | put _ _ flags, rc => rc = 0 ∨ (Int.land flags mdbNoOverwrite ≠ 0 ∧ rc = mdbKeyExist)
  | putBuffer _ _ _, rc => rc = 0
  | delete _ _, rc => rc = 0 ∨ rc = mdbNotFound
  | deleteBuffer _ _, rc => rc = 0 ∨ rc = mdbNotFound
  | get _, rc => rc = 0 ∨ rc = mdbNotFound
  | openDatabase _ _, rc => rc = 0

/-- What the caller asks for, given how the bytes of a view that is put are read. -/
def asks (bytes : DirectBuffer → List UInt8) (memory : Memory) : AutoCall → Option Operation
  | put (some key) (some value) flags => some (.mutate (.put key value flags))
  | putBuffer (some key) (some value) flags =>
      some (.mutate (.put (bytes key) (bytes value) flags))
  | delete (some key) value => some (.mutate (.del key value))
  | deleteBuffer (some key) value =>
      some (.mutate (.del (key.contents memory) (value.map (·.contents memory))))
  | get (some key) => some (.get key)
  | openDatabase name flags => some (.openDatabase name flags)
  | _ => none

/-- The operation the caller asks for; none with an argument that must not be `null`. -/
def request (memory : Memory) (call : AutoCall) : Option Operation :=
  call.asks (·.contents memory) memory

/-- The operation LMDB is handed. -/
def handed (memory : Memory) (call : AutoCall) : Option Operation :=
  call.asks (·.handed memory) memory

/-- LMDB finds the bytes of the views at their addresses. -/
def Reaches (memory : Memory) : AutoCall → Prop
  | putBuffer (some key) (some value) _ =>
      key.handed memory = key.contents memory ∧ value.handed memory = value.contents memory
  | _ => True

def writes : AutoCall → Bool
  | get _ => false
  | _ => true

/-- The capacities of views to be copied are `int`s. -/
def Typed : AutoCall → Prop
  | deleteBuffer key value =>
      (∀ view, key = some view → view.capacity ≤ 2147483647) ∧
      ∀ view, value = some view → view.capacity ≤ 2147483647
  | _ => True

/-- The buffers the call makes. -/
def creates (outcomes : Outcomes) (memory : Memory) : AutoCall → List HeapEvent
  | put (some key) (some value) _ =>
      [.create key.length outcomes.keyBlock, .create value.length outcomes.valueBlock]
  | delete (some key) value => .create key.length outcomes.keyBlock ::
      value.toList.map fun value => .create value.length outcomes.valueBlock
  | deleteBuffer (some key) value => .create (key.contents memory).length outcomes.keyBlock ::
      (value.map (·.contents memory)).toList.map fun value =>
        .create value.length outcomes.valueBlock
  | get (some key) => [.create key.length outcomes.keyBlock]
  | _ => []

end AutoCall

section Calls

variable {κ α : Type} {apply : Operation → κ → κ} {outcomes : Outcomes} {world : AutoWorld κ}

/-- The body hands LMDB the operation of the call. -/
def Executes (apply : Operation → κ → κ) (outcomes : Outcomes) (call : AutoCall)
    (world : AutoWorld κ) (body : AutoMethod κ α) : Prop :=
  Passes outcomes (fun before _ after => ∃ operation, call.handed world.memory = some operation ∧
    Called apply outcomes operation call.Accepts before after) world (body.run world)

theorem executes_of_called {call : AutoCall} {body : AutoMethod κ α} {operation : Operation}
    (handed : call.handed world.memory = some operation)
    (passes : Passes outcomes
      (fun before _ after => Called apply outcomes operation call.Accepts before after) world
      (body.run world)) : Executes apply outcomes call world body := by
  unfold Executes Passes
  refine Ends.mono passes ?_ fun _ _ left => left
  rintro value after ⟨left, called⟩
  exact ⟨left, operation, handed, called⟩

theorem passes_putSlices {keySlice valueSlice : Value} {key value : List UInt8} {flags : Int}
    (keyBytes : keySlice.denote world.memory = key)
    (valueBytes : valueSlice.denote world.memory = value) :
    Passes outcomes (fun before _ after => Called apply outcomes (.mutate (.put key value flags))
        (AutoCall.put (some key) (some value) flags).Accepts before after) world
      ((putSlices apply outcomes keySlice valueSlice flags).run world) := by
  subst keyBytes valueBytes
  refine passes_operate fun world => ?_
  split
  · rename_i existing
    exact passes_accepted (Or.inr existing) (looks_toByteArray _) world
  · exact passes_checkErrorCode Or.inl (looks_pure none) world

theorem executes_put {key value : Option (List UInt8)} {flags : Int} (sound : Sound world.heap)
    (provided : MayCreate world.heap
      ((AutoCall.put key value flags).creates outcomes world.memory)) :
    Executes apply outcomes (.put key value flags) world
      (putBytesIn apply outcomes key value flags) := by
  cases key with
  | none => exact passes_throw rfl
  | some key =>
      cases value with
      | none => exact passes_throw rfl
      | some value =>
          refine executes_of_called rfl ?_
          refine passes_withBuffer sound provided fun keyBuffer middle first later => ?_
          refine passes_withBuffer first.sound later fun valueBuffer ready second _ => ?_
          rw [EStateM.run_bind, run_slice first.present]
          dsimp only
          rw [EStateM.run_bind, run_slice second.present]
          exact passes_putSlices (first.still_shows second).2 second.shows.2

theorem executes_putBuffer (key value : Option DirectBuffer) (flags : Int) :
    Executes apply outcomes (.putBuffer key value flags) world
      (putBufferIn apply outcomes key value flags) := by
  cases key with
  | none => exact passes_throw rfl
  | some key =>
      cases value with
      | none => exact passes_throw rfl
      | some value =>
          refine executes_of_called rfl ?_
          simp only [putBufferIn, checkArgNotNull, pure_bind]
          split
          · exact passes_throw rfl
          · exact passes_operate (passes_checkErrorCode id (looks_pure _))

theorem passes_deleteSlices {keySlice : Value} {valueSlice : Option Value} {key : List UInt8}
    {value : Option (List UInt8)} (keyBytes : keySlice.denote world.memory = key)
    (valueBytes : valueSlice.map (·.denote world.memory) = value) :
    Passes outcomes (fun before _ after => Called apply outcomes (.mutate (.del key value))
        (AutoCall.delete (some key) value).Accepts before after) world
      ((deleteSlices apply outcomes keySlice valueSlice).run world) := by
  subst keyBytes valueBytes
  refine passes_operate fun world => ?_
  split
  · rename_i missing
    exact passes_accepted (Or.inr missing) (looks_pure false) world
  · exact passes_checkErrorCode Or.inl (looks_pure true) world

theorem passes_delete {key : List UInt8} {value : Option (List UInt8)} (sound : Sound world.heap)
    (provided : MayCreate world.heap
      ((AutoCall.delete (some key) value).creates outcomes world.memory)) :
    Passes outcomes (fun before _ after => Called apply outcomes (.mutate (.del key value))
        (AutoCall.delete (some key) value).Accepts before after) world
      ((deleteBytesIn apply outcomes (some key) value).run world) := by
  refine passes_withBuffer sound provided fun keyBuffer middle first later => ?_
  cases value with
  | none =>
      rw [withNullable, EStateM.run_bind, run_slice first.present]
      exact passes_deleteSlices first.shows.2 rfl
  | some value =>
      refine passes_withBuffer first.sound later fun valueBuffer ready second _ => ?_
      rw [EStateM.run_bind, run_slice first.present]
      dsimp only
      rw [EStateM.run_bind, BufferRef.sliceNullable, EStateM.run_map, run_slice second.present]
      exact passes_deleteSlices (first.still_shows second).2 (congrArg some second.shows.2)

theorem executes_delete {key value : Option (List UInt8)} (sound : Sound world.heap)
    (provided : MayCreate world.heap ((AutoCall.delete key value).creates outcomes world.memory)) :
    Executes apply outcomes (.delete key value) world
      (deleteBytesIn apply outcomes key value) := by
  cases key with
  | none => exact passes_throw rfl
  | some key => exact executes_of_called rfl (passes_delete sound provided)

theorem executes_deleteBuffer {key : DirectBuffer} {value : Option DirectBuffer}
    (sound : Sound world.heap) (typed : (AutoCall.deleteBuffer (some key) value).Typed)
    (provided : MayCreate world.heap
      ((AutoCall.deleteBuffer (some key) value).creates outcomes world.memory)) :
    Executes apply outcomes (.deleteBuffer (some key) value) world
      (deleteBufferIn apply outcomes key value) := by
  refine executes_of_called rfl (passes_getNewBytes (typed.1 key rfl) ?_)
  cases value with
  | none => exact passes_delete sound provided
  | some value => exact passes_getNewBytes (typed.2 value rfl) (passes_delete sound provided)

theorem executes_get {key : Option (List UInt8)} (sound : Sound world.heap)
    (provided : MayCreate world.heap ((AutoCall.get key).creates outcomes world.memory)) :
    Executes apply outcomes (.get key) world (getBytesIn apply outcomes key) := by
  cases key with
  | none => exact passes_throw rfl
  | some key =>
      refine executes_of_called rfl ?_
      refine passes_withBuffer sound provided fun keyBuffer middle created _ => ?_
      rw [EStateM.run_bind, run_slice created.present]
      dsimp only
      rw [← created.shows.2]
      refine passes_operate fun world => ?_
      split
      · rename_i missing
        exact passes_accepted (Or.inr missing) (looks_pure none) world
      · exact passes_checkErrorCode Or.inl (looks_toByteArray _) world

theorem executes_openDatabase (name : Option JavaString) (flags : Int) :
    Executes apply outcomes (.openDatabase name flags) world
      (openDatabaseIn apply outcomes name flags) := by
  refine executes_of_called rfl ?_
  refine looks_checkOpen.bindPasses fun _ => looks_get.bindPasses fun _ => ?_
  refine (looks_pointer _).discard.bindPasses fun _ => ?_
  refine passes_called (passes_checkErrorCode id ?_)
  by_cases null : outcomes.dbi = 0
  · simp only [NativeObject.create, null, if_true]
    exact looks_throw rfl
  · simp only [NativeObject.create, null, if_false]
    exact looks_pure _

/-! Begin and end. -/

/-- On every path: `made` are the buffers of the call, none of its views is live any more, and the
transaction it began has been ended. -/
structure Settles (outcomes : Outcomes) (made : List BufferRecord) (before after : AutoWorld κ) :
    Prop where
  ledger : after.ledger = before.ledger ++ made
  live : after.heap.live = before.heap.live
  ended : ∃ codes calls, after.lmdb.codes = before.lmdb.codes ++ codes ∧
    after.txn.calls = before.txn.calls ++ calls ∧
    ((NativeFunction.begin, 0) ∈ codes → outcomes.handle ≠ 0 →
      ∃ call ∈ calls, call.releases ∧ call.handle = outcomes.handle)

/-- Every native call succeeded, and what is committed has the operation applied. -/
structure Performed (apply : Operation → κ → κ) (outcomes : Outcomes) (call : AutoCall)
    (operation : Operation) (before after : AutoWorld κ) : Prop where
  accepted : call.Accepts outcomes.operation
  codes : after.lmdb.codes = before.lmdb.codes ++
    [(.begin, 0), (.operate operation, outcomes.operation)] ++
      if call.writes then [(.commit, 0)] else []
  committed : after.lmdb.committed =
    if outcomes.operation = 0 then operation.effect apply before.lmdb.committed
    else before.lmdb.committed

/-- A call that returns has performed what LMDB was handed. -/
def Done (apply : Operation → κ → κ) (outcomes : Outcomes) (call : AutoCall)
    (before after : AutoWorld κ) : Prop :=
  (∃ count, Settles outcomes (deletedOnce count) before after) ∧
    ∃ operation, call.handed before.memory = some operation ∧
      Performed apply outcomes call operation before after

/-- A call that throws has performed nothing. -/
def Undone (outcomes : Outcomes) (before : AutoWorld κ) (error : Throwable)
    (after : AutoWorld κ) : Prop :=
  (∃ count, Settles outcomes (deletedOnce count ++ errorTexts (outcomes.texts error))
    before after) ∧ after.lmdb.committed = before.lmdb.committed

theorem undone_refl {error : Throwable} (plain : error.isCode = false) (world : AutoWorld κ) :
    Undone outcomes world error world := by
  refine ⟨⟨0, ?_, rfl, [], [], by simp, by simp, by simp⟩, rfl⟩
  simp [outcomes.texts_of_plain plain, deletedOnce, errorTexts]

/-- The world in which the body of the call starts. -/
def AutoWorld.begun (outcomes : Outcomes) (readOnly : Bool) (world : AutoWorld κ) : AutoWorld κ :=
  { world with
    lmdb := world.lmdb.begin 0
    txn := { world.txn with object := ⟨⟨outcomes.handle⟩, readOnly⟩ } }

theorem ends_createTransaction (outcomes : Outcomes) (readOnly : Bool) (world : AutoWorld κ) :
    Ends (fun before _ after => outcomes.handle ≠ 0 ∧ after = before.begun outcomes readOnly)
      (Undone outcomes) world ((Env.createTransaction outcomes readOnly).run world) := by
  by_cases opened : world.isOpen = true
  swap
  · have ran : (Env.createTransaction outcomes readOnly).run world =
        .error (.lmdbException "Environment not open yet." (-1)) world := by
      simp [Env.createTransaction, Env.checkOpen, opened]
    rw [ran]
    exact undone_refl rfl world
  by_cases closed : world.env.self = 0
  · have ran : (Env.createTransaction outcomes readOnly).run world =
        .error (.lmdbException "Native object has been freed." (-1)) world := by
      simp [Env.createTransaction, Env.checkOpen, opened, closed, run_discard,
        NativeObject.pointer, NativeObject.checkAllocated, NativeObject.isAllocated]
    rw [ran]
    exact undone_refl rfl world
  have began : (Env.createTransaction outcomes readOnly).run world = (do
      Util.checkErrorCode outcomes outcomes.begin
      Env.newTransaction outcomes readOnly : AutoMethod κ Unit).run
        { world with lmdb := world.lmdb.begin outcomes.begin } := by
    simp [Env.createTransaction, Env.checkOpen, opened, closed, run_discard, onLmdb,
      NativeObject.pointer, NativeObject.checkAllocated, NativeObject.isAllocated]
  rw [began, EStateM.run_bind]
  by_cases failed : outcomes.begin = 0
  swap
  · rw [run_checkErrorCode failed]
    refine ⟨⟨0, rfl, rfl, [(.begin, outcomes.begin)], [], rfl, by simp, ?_⟩, rfl⟩
    intro begun
    have zero : 0 = outcomes.begin := by simpa using begun
    exact absurd zero.symm failed
  rw [failed]
  by_cases null : outcomes.handle = 0
  · unfold Env.newTransaction
    rw [null]
    refine ⟨⟨0, ?_, rfl, [(.begin, 0)], [], rfl, by simp, ?_⟩, rfl⟩
    · simp [Outcomes.texts, deletedOnce, errorTexts]
    · simp [null]
  · simp only [Env.newTransaction, Transaction.create, NativeObject.create, null, if_false]
    exact ⟨null, rfl⟩

/-- What `close()` leaves of the transaction. -/
def TxnWorld.closed (txn : TxnWorld) : TxnWorld :=
  if txn.object.self = 0 then txn else
    { object := { txn.object with self := 0 }
      calls := txn.calls ++ [⟨.abort, txn.object.self⟩] }

theorem run_close (world : AutoWorld κ) :
    (onTxn Transaction.close).run world = .ok () { world with txn := world.txn.closed } := by
  by_cases freed : world.txn.object.self = 0
  · simp [onTxn, run_zoom, Transaction.close, Transaction.abort, TxnWorld.closed, freed]
  · simp [onTxn, run_zoom, Transaction.close, Transaction.abort, Transaction.callNative,
      Transaction.setSelf, TxnWorld.closed, freed]

theorem closed_releases {txn : TxnWorld} {first more : List TxnCall} {handle : Int}
    (present : handle ≠ 0) (calls : txn.calls = first ++ more)
    (held : txn.object.self = handle ∨ ∃ call ∈ more, call.releases ∧ call.handle = handle) :
    ∃ later, txn.closed.calls = first ++ later ∧
      ∃ call ∈ later, call.releases ∧ call.handle = handle := by
  unfold TxnWorld.closed
  by_cases freed : txn.object.self = 0
  · rcases held with live | released
    · exact absurd (live.symm.trans freed) present
    · exact ⟨more, by simp [freed, calls], released⟩
  · refine ⟨more ++ [⟨.abort, txn.object.self⟩], by simp [freed, calls], ?_⟩
    rcases held with live | ⟨call, member, releases⟩
    · exact ⟨⟨.abort, txn.object.self⟩, by simp, rfl, live⟩
    · exact ⟨call, by simp [member], releases⟩

theorem run_commitTransaction {world : AutoWorld κ} (live : world.txn.object.self ≠ 0) :
    (commitTransaction outcomes).run world =
      if outcomes.commit = 0 then
        .ok () { world with
          lmdb := world.lmdb.commit outcomes.commit
          txn :=
            { object := { world.txn.object with self := 0 }
              calls := world.txn.calls ++ [⟨.commit, world.txn.object.self⟩] } }
      else
        .error (.lmdbError outcomes.commit) { world with
          lmdb := world.lmdb.commit outcomes.commit
          txn := { world.txn with
            calls := world.txn.calls ++ [⟨.commit, world.txn.object.self⟩] }
          ledger := world.ledger ++ errorTexts (outcomes.texts (.lmdbError outcomes.commit)) } := by
  have called : (commitTransaction outcomes).run world = (do
      Util.checkErrorCode outcomes outcomes.commit
      onTxn (Transaction.setSelf 0) : AutoMethod κ Unit).run { world with
        lmdb := world.lmdb.commit outcomes.commit
        txn := { world.txn with
          calls := world.txn.calls ++ [⟨.commit, world.txn.object.self⟩] } } := by
    simp [commitTransaction, onLmdb, onTxn, run_zoom, Transaction.callNative, live]
  rw [called, EStateM.run_bind]
  by_cases done : outcomes.commit = 0
  · rw [if_pos done, done]
    rfl
  · rw [if_neg done, run_checkErrorCode done]

/-- Closing the transaction, which its own commit may have ended before. -/
theorem settles_close {readOnly : Bool} {world after : AutoWorld κ} {made : List BufferRecord}
    {more : List TxnCall} (present : outcomes.handle ≠ 0) (ledger : after.ledger = world.ledger ++ made)
    (live : after.heap.live = world.heap.live)
    (codes : (world.begun outcomes readOnly).lmdb.codes <+: after.lmdb.codes)
    (calls : after.txn.calls = world.txn.calls ++ more)
    (held : after.txn.object.self = outcomes.handle ∨
      ∃ call ∈ more, call.releases ∧ call.handle = outcomes.handle) :
    Settles outcomes made world { after with txn := after.txn.closed } := by
  obtain ⟨later, closed, released⟩ := closed_releases present calls held
  have begun : world.lmdb.codes <+: (world.begun outcomes readOnly).lmdb.codes :=
    List.prefix_append _ _
  obtain ⟨added, extended⟩ := begun.trans codes
  exact ⟨ledger, live, added, later, extended.symm, closed, fun _ _ => released⟩

/-- The body has ended, and `close()` aborts the transaction. -/
theorem Leaves.settles_abort {readOnly : Bool} {texts : Nat} {world middle : AutoWorld κ}
    (left : Leaves texts (world.begun outcomes readOnly) middle) (present : outcomes.handle ≠ 0) :
    ∃ count, Settles outcomes (deletedOnce count ++ errorTexts texts) world
      { middle with txn := middle.txn.closed } := by
  obtain ⟨count, created⟩ := left.buffers
  have object := congrArg (·.object.self) left.txn
  have calls := congrArg TxnWorld.calls left.txn
  exact ⟨count, settles_close present (created.trans (List.append_assoc _ _ _)) left.live left.codes
    (calls.trans (List.append_nil _).symm) (.inl object)⟩

theorem ends_inReadTransaction {call : AutoCall} {body : AutoMethod κ α}
    (executes : Executes apply outcomes call (world.begun outcomes true) body)
    (reads : ∀ operation, call.handed world.memory = some operation →
      ∀ contents, operation.effect apply contents = contents) (reader : call.writes = false) :
    Ends (fun before _ after => Done apply outcomes call before after) (Undone outcomes) world
      ((inReadTransaction outcomes body).run world) := by
  refine ends_bind (ends_createTransaction outcomes true world) ?_
  rintro ⟨⟩ _ ⟨present, rfl⟩
  unfold Executes Passes at executes
  refine ends_tryResource executes ?_ ?_
  · rintro value middle ⟨left, operation, handed, called, accepts⟩
    rw [run_close]
    have settles := left.settles_abort present
    simp only [errorTexts, List.replicate_zero, List.append_nil] at settles
    refine ⟨settles, operation, handed, accepts, ?_, ?_⟩
    · rw [reader]
      simp [called, Lmdb.operate, Lmdb.begin, AutoWorld.begun]
    · rw [reads operation handed, ite_self]
      exact left.committed
  · intro error middle left
    rw [run_close]
    exact ⟨left.settles_abort present, left.committed⟩

theorem ends_inWriteTransaction {call : AutoCall} {body : AutoMethod κ α}
    (executes : Executes apply outcomes call (world.begun outcomes false) body)
    (writer : call.writes = true) :
    Ends (fun before _ after => Done apply outcomes call before after) (Undone outcomes) world
      ((inWriteTransaction outcomes body).run world) := by
  refine ends_bind (ends_createTransaction outcomes false world) ?_
  rintro ⟨⟩ _ ⟨present, rfl⟩
  have committed : Ends (fun _ _ after =>
        Done apply outcomes call world { after with txn := after.txn.closed })
      (fun _ error after => Undone outcomes world error { after with txn := after.txn.closed })
      (world.begun outcomes false) ((do
        let answer ← body
        commitTransaction outcomes
        return answer).run (world.begun outcomes false)) := by
    have aborted : Ends (fun before _ after => Leaves 0 before after ∧
          ∃ operation, call.handed world.memory = some operation ∧
            Called apply outcomes operation call.Accepts before.lmdb after.lmdb)
        (fun _ error after => Undone outcomes world error { after with txn := after.txn.closed })
        (world.begun outcomes false) (body.run (world.begun outcomes false)) := by
      unfold Executes Passes at executes
      exact executes.mono (fun _ _ done => done) fun _ _ left =>
        ⟨left.settles_abort present, left.committed⟩
    refine ends_bind aborted ?_
    rintro value middle ⟨left, operation, handed, called, accepts⟩
    obtain ⟨count, created⟩ := left.buffers
    have ledger : middle.ledger = world.ledger ++ deletedOnce count := by
      simpa [errorTexts, AutoWorld.begun] using created
    have self : middle.txn.object.self = outcomes.handle := congrArg (·.object.self) left.txn
    have calls : middle.txn.calls = world.txn.calls := congrArg (·.calls) left.txn
    have codes (rc : Int) : (world.begun outcomes false).lmdb.codes <+:
        (middle.lmdb.commit rc).codes := left.codes.trans (List.prefix_append _ _)
    rw [EStateM.run_bind, run_commitTransaction (self ▸ present), self, calls]
    by_cases done : outcomes.commit = 0
    · rw [if_pos done]
      refine ⟨⟨count, settles_close present ledger left.live (codes _) rfl
        (.inr ⟨_, List.mem_singleton_self _, rfl, rfl⟩)⟩, operation, handed, accepts, ?_, ?_⟩
      · rw [writer]
        simp [called, done, Lmdb.commit, Lmdb.operate, Lmdb.begin, AutoWorld.begun]
      · simp [called, done, Lmdb.commit, Lmdb.operate, Lmdb.begin, AutoWorld.begun]
    · rw [if_neg done]
      refine ⟨⟨count, settles_close present (by rw [ledger, List.append_assoc]) left.live (codes _)
        rfl (.inl self)⟩, ?_⟩
      simp [Lmdb.commit, done, left.committed, AutoWorld.begun, Lmdb.begin]
  refine ends_tryResource committed ?_ ?_
  · intro value middle done
    rw [run_close]
    exact done
  · intro error middle undone
    rw [run_close]
    exact undone

theorem ends_guarded {β : Type} {value : Option β} {name : String} {next : β → AutoMethod κ α}
    {done : AutoWorld κ → α → AutoWorld κ → Prop}
    (rest : ∀ given, value = some given →
      Ends done (Undone outcomes) world ((next given).run world)) :
    Ends done (Undone outcomes) world ((checkArgNotNull value name >>= next).run world) := by
  cases value with
  | none => exact undone_refl rfl world
  | some given => exact rest given rfl

end Calls

namespace AutoCall

variable {κ : Type} {apply : Operation → κ → κ} {call : AutoCall} {outcomes : Outcomes}
  {world : AutoWorld κ}

/-- What always holds. -/
def Ended (apply : Operation → κ → κ) (outcomes : Outcomes) (world : AutoWorld κ)
    (call : AutoCall) : Prop :=
  Ends (fun before _ after => Done apply outcomes call before after) (Undone outcomes) world
    ((call.perform apply outcomes).run world)

theorem ended (sound : Sound world.heap) (typed : call.Typed)
    (provided : MayCreate world.heap (call.creates outcomes world.memory)) :
    call.Ended apply outcomes world := by
  cases call with
  | put key value flags =>
      exact ends_guarded fun _ _ => ends_map
        (ends_inWriteTransaction (executes_put sound provided) rfl)
  | putBuffer key value flags =>
      exact ends_guarded fun _ _ => ends_map
        (ends_inWriteTransaction (executes_putBuffer key value flags) rfl)
  | delete key value =>
      exact ends_guarded fun _ _ => ends_map
        (ends_inWriteTransaction (executes_delete sound provided) rfl)
  | deleteBuffer key value =>
      refine ends_guarded fun given present => ends_map ?_
      subst present
      exact ends_inWriteTransaction (executes_deleteBuffer sound typed provided) rfl
  | get key =>
      refine ends_guarded fun given present => ends_map ?_
      subst present
      refine ends_inReadTransaction (executes_get sound provided) ?_ rfl
      rintro operation handed contents
      cases handed
      rfl
  | openDatabase name flags =>
      exact ends_map (ends_inWriteTransaction (executes_openDatabase name flags) rfl)

/-- What the call should do: every buffer is deleted exactly once, and a call that returns has
performed what the caller asked for. -/
def Kept (apply : Operation → κ → κ) (outcomes : Outcomes) (world : AutoWorld κ)
    (call : AutoCall) : Prop :=
  Ends (fun before _ after =>
      (∃ made, Settles outcomes made before after ∧ ∀ record ∈ made, record.deletes = 1) ∧
        ∃ operation, call.request before.memory = some operation ∧
          Performed apply outcomes call operation before after)
    (fun before _ after =>
      (∃ made, Settles outcomes made before after ∧ ∀ record ∈ made, record.deletes = 1) ∧
        after.lmdb.committed = before.lmdb.committed)
    world ((call.perform apply outcomes).run world)

/-- A call that returns was about views LMDB can read, and one that throws leaves no text. -/
def Harmless (apply : Operation → κ → κ) (outcomes : Outcomes) (world : AutoWorld κ)
    (call : AutoCall) : Prop :=
  Ends (fun before _ _ => call.Reaches before.memory)
    (fun _ error _ => outcomes.texts error = 0) world ((call.perform apply outcomes).run world)

end AutoCall

/-- The log tells the operations of two descriptions of one run apart. -/
theorem Performed.same {κ : Type} {apply : Operation → κ → κ} {outcomes : Outcomes}
    {call : AutoCall} {first second : Operation} {before after : AutoWorld κ}
    (left : Performed apply outcomes call first before after)
    (right : Performed apply outcomes call second before after) : first = second := by
  have codes := left.codes.symm.trans right.codes
  simpa using codes

/-- The byte 1 in an array, the byte 7 at a native address. -/
def openWorld : AutoWorld (List Operation) where
  isOpen := true
  env := ⟨1⟩
  database := ⟨2⟩
  memory := fun region address =>
    if region = .array 0 ∧ address = 16 then 1
    else if region = .native ∧ address = 32768 then 7 else 0
  heap := .empty
  ledger := []
  txn := ⟨⟨⟨0⟩, false⟩, []⟩
  lmdb := ⟨[], [], []⟩

end LmdbJni
