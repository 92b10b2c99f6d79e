import LmdbJni.CursorCore

/-!
What `Cursor.get` and `Cursor.seek` make of the answer of LMDB. `Delivers` says that a native
call has left an entry behind: the two `MDB_val` structures denote its bytes. An entry arrives
in Java unless its key or its value is longer than a Java array can be.
-/

namespace LmdbJni

open ByteStore Execution Wrapping

structure Delivers (result : NativeReturn) (entry : List UInt8 × List UInt8) : Prop where
  rc : result.rc = 0
  keyData : result.slots.keyData ≠ 0
  valData : result.slots.valData ≠ 0
  keySize : result.slots.keySize = entry.1.length
  valSize : result.slots.valSize = entry.2.length
  denote : result.slots.denote result.memory = entry

def Entry.ofPair (entry : List UInt8 × List UInt8) : Entry := ⟨some entry.1, some entry.2⟩

/-- Both parts fit into a Java array. -/
def Fitting (entry : List UInt8 × List UInt8) : Prop :=
  entry.1.length ≤ 2147483647 ∧ entry.2.length ≤ 2147483647

instance (entry : List UInt8 × List UInt8) : Decidable (Fitting entry) :=
  inferInstanceAs (Decidable (_ ∧ _))

theorem Delivers.key {result : NativeReturn} {entry : List UInt8 × List UInt8}
    (delivers : Delivers result entry) :
    read result.memory .native result.slots.keyData entry.1.length = entry.1 := by
  have shown := congrArg Prod.fst delivers.denote
  simpa only [Slots.denote, delivers.keySize, Int.toNat_natCast] using shown

theorem Delivers.value {result : NativeReturn} {entry : List UInt8 × List UInt8}
    (delivers : Delivers result entry) :
    read result.memory .native result.slots.valData entry.2.length = entry.2 := by
  have shown := congrArg Prod.snd delivers.denote
  simpa only [Slots.denote, delivers.valSize, Int.toNat_natCast] using shown

/-- An answer that shows an entry at a fixed place. -/
def placeEntry (entry : List UInt8 × List UInt8) (memory : Memory) : NativeReturn where
  rc := 0
  slots := ⟨entry.1.length, 4096, entry.2.length, 4096 + entry.1.length⟩
  memory := write (write memory .native 4096 entry.1) .native (4096 + entry.1.length) entry.2

theorem placeEntry_delivers (entry : List UInt8 × List UInt8) (memory : Memory) :
    Delivers (placeEntry entry memory) entry := by
  refine ⟨rfl, by simp [placeEntry], by simp only [placeEntry]; omega, rfl, rfl, ?_⟩
  have key : read (write (write memory .native 4096 entry.1) .native
      (4096 + entry.1.length) entry.2) .native 4096 entry.1.length = entry.1 := by
    rw [read_write_apart _ _ _ _ _ _ (by unfold Apart; omega), read_write]
  simp only [placeEntry, Slots.denote, Int.toNat_natCast, read_write, key]

theorem run_toByteArray {value : Value} {bytes : List UInt8} {memory : Memory}
    (data : value.mvData ≠ 0) (size : value.mvSize = bytes.length)
    (shown : read memory .native value.mvData bytes.length = bytes)
    (fits : bytes.length ≤ 2147483647) :
    value.toByteArray.run memory = .ok (some bytes) memory := by
  have small : ¬value.mvSize > 2147483647 := by omega
  have length : wrap32 value.mvSize = bytes.length := by
    rw [size]
    exact wrap32_natCast fits
  have nonneg : ¬(bytes.length : Int) < 0 := by omega
  simp [Value.toByteArray, data, small, length, nonneg, shown]

theorem run_toByteArray_large {value : Value} (memory : Memory) (data : value.mvData ≠ 0)
    (large : 2147483647 < value.mvSize) :
    value.toByteArray.run memory =
      .error (.arrayIndexOutOfBounds "Native slice is larger than the maximum Java array")
        memory := by
  simp [Value.toByteArray, data, large]

section Copying

variable {σ : Type} {result : NativeReturn} {state : NativeState σ}

theorem run_copyEntry {entry : List UInt8 × List UInt8} (memory : state.memory = result.memory)
    (delivers : Delivers result entry) (fits : Fitting entry) :
    (copyEntry result).run state = .ok (some (.ofPair entry)) state := by
  have key : result.slots.key.toByteArray.run state.memory = .ok (some entry.1) state.memory :=
    run_toByteArray delivers.keyData delivers.keySize (memory ▸ delivers.key) fits.1
  have value : result.slots.value.toByteArray.run state.memory =
      .ok (some entry.2) state.memory :=
    run_toByteArray delivers.valData delivers.valSize (memory ▸ delivers.value) fits.2
  simp [copyEntry, delivers.rc, mdbNotFound, checkErrorCode, besideEngine, run_zoom, key, value,
    Entry.ofPair]

theorem run_copyEntry_large {entry : List UInt8 × List UInt8}
    (memory : state.memory = result.memory) (delivers : Delivers result entry)
    (large : ¬Fitting entry) :
    (copyEntry result).run state =
      .error (.arrayIndexOutOfBounds "Native slice is larger than the maximum Java array")
        state := by
  by_cases keyFits : entry.1.length ≤ 2147483647
  · have key : result.slots.key.toByteArray.run state.memory = .ok (some entry.1) state.memory :=
      run_toByteArray delivers.keyData delivers.keySize (memory ▸ delivers.key) keyFits
    have valueLarge : ¬entry.2.length ≤ 2147483647 := fun fits => large ⟨keyFits, fits⟩
    have size : 2147483647 < result.slots.value.mvSize := by
      simp only [Slots.value, delivers.valSize]
      omega
    simp [copyEntry, delivers.rc, mdbNotFound, checkErrorCode, besideEngine, run_zoom, key,
      run_toByteArray_large _ delivers.valData size]
  · have size : 2147483647 < result.slots.key.mvSize := by
      simp only [Slots.key, delivers.keySize]
      omega
    simp [copyEntry, delivers.rc, mdbNotFound, checkErrorCode, besideEngine, run_zoom,
      run_toByteArray_large _ delivers.keyData size]

theorem run_copyEntry_missing (missing : result.rc = mdbNotFound) :
    (copyEntry result).run state = .ok none state := by
  simp [copyEntry, missing]

theorem run_copyEntry_failed (nonzero : result.rc ≠ 0) (present : result.rc ≠ mdbNotFound) :
    (copyEntry result).run state = .error (.lmdbError result.rc) state := by
  simp [copyEntry, nonzero, present, checkErrorCode]

theorem run_mdbCursorGet (native : EngineGet σ) (slots : Slots) (state : NativeState σ) :
    (mdbCursorGet native slots).run state =
      .ok (native slots state).1 ⟨(native slots state).1.memory, (native slots state).2⟩ := rfl

theorem run_get {cursor : NativeObject} (live : cursor.self ≠ 0) (native : GetOp → EngineGet σ)
    (op : GetOp) (state : NativeState σ) :
    (Cursor.get cursor native op).run state =
      (copyEntry (native op ⟨0, 0, 0, 0⟩ state).1).run
        ⟨(native op ⟨0, 0, 0, 0⟩ state).1.memory, (native op ⟨0, 0, 0, 0⟩ state).2⟩ := by
  simp [Cursor.get, run_discard, NativeObject.pointer, NativeObject.checkAllocated,
    NativeObject.isAllocated, live, run_mdbCursorGet]

theorem run_seekEntry {cursor : NativeObject} (live : cursor.self ≠ 0)
    (native : SeekOp → EngineGet σ) (op : SeekOp) (key : List UInt8) (block : Int)
    (state : NativeState σ) :
    (Cursor.seek cursor native op key (some block)).run state =
      let handed : NativeState σ := { state with memory := write state.memory .native block key }
      (copyEntry (native op ⟨key.length, block, 0, 0⟩ handed).1).run
        ⟨(native op ⟨key.length, block, 0, 0⟩ handed).1.memory,
          (native op ⟨key.length, block, 0, 0⟩ handed).2⟩ := by
  simp [Cursor.seek, createNativeBuffer, besideEngine, run_zoom, run_discard,
    NativeObject.pointer, NativeObject.checkAllocated, NativeObject.isAllocated, live,
    run_mdbCursorGet]

end Copying

end LmdbJni
