import LmdbJni.BufferCursorIndex

/-!
`putBytes` and `getBytes` between a `DirectBuffer` and a `byte[]`. Both check a count that is
clamped to what is left in the buffer and to the length of the whole array. `putBytes` then
copies the unclamped `length`; neither takes the offset into account.
-/

namespace LmdbJni

open ByteStore Execution Wrapping

/-- What a `byte[]` argument shows when the call is made. -/
def ArrayRef.contents (platform : Platform) (memory : Memory) (array : ArrayRef)
    (bounded : array.length ≤ 2147483647) : JavaArray where
  elements := read memory (.array array.id) platform.arrayBaseOffset array.length
  beyond index := memory (.array array.id) (platform.arrayBaseOffset + index)
  bounded := by simpa using bounded

/-- The `count` positions from `start` on lie in `[0, size)`. -/
def Inside (start count size : Int) : Prop :=
  count = 0 ∨ (0 ≤ start ∧ start + count ≤ size)

instance (start count size : Int) : Decidable (Inside start count size) := by
  unfold Inside
  infer_instance

/-- A failed copy changes nothing, a copy that returns a count moves that many bytes between
ranges that fit, and changes nothing else. -/
def ExactCopy (source : Region) (sourceStart : Int) (target : Region) (targetStart : Int)
    (fits : Int → Prop) (memory : Memory) : EStateM.Result Throwable Memory Int → Prop
  | .error _ after => after = memory
  | .ok count after => 0 ≤ count ∧ fits count ∧
      read after target targetStart count.toNat = read memory source sourceStart count.toNat ∧
      OnlyWithin target targetStart count memory after

section Copies

variable {platform : Platform} {buffer : DirectBuffer} {array : ArrayRef} {memory : Memory}

/-- The range of the array and the range of the buffer both fit. -/
def Fit (buffer : DirectBuffer) (array : ArrayRef) (index offset count : Int) : Prop :=
  Inside offset count array.length ∧ Inside index count buffer.capacity

instance (buffer : DirectBuffer) (array : ArrayRef) (index offset count : Int) :
    Decidable (Fit buffer array index offset count) := by
  unfold Fit
  infer_instance

theorem slice_contents (bounded : array.length ≤ 2147483647) (offset : Int) (count : Nat) :
    (array.contents platform memory bounded).slice offset count =
      read memory (.array array.id) (platform.arrayBaseOffset + offset) count := by
  have cell (index : Int) : (array.contents platform memory bounded).byteAt index =
      memory (.array array.id) (platform.arrayBaseOffset + index) := by
    simp only [JavaArray.byteAt, JavaArray.length, ArrayRef.contents, read_length]
    split
    · rename_i inside
      have bound : index.toNat < array.length := by omega
      rw [List.getD_eq_getElem _ _ (by simpa using bound)]
      simp only [ByteStore.read, List.getElem_map, List.getElem_range]
      rw [Int.toNat_of_nonneg inside.1]
    · rfl
  simp only [JavaArray.slice, cell, ByteStore.read, Int.add_assoc]

theorem clamp_le (buffer : DirectBuffer) (index length available : Int) :
    buffer.clamp index length available ≤ length := by
  unfold DirectBuffer.clamp
  omega

/-- `putBytes` is exact if it is refused or if the whole `length` fits on both sides. -/
theorem putBytes_exact_iff (bounded : array.length ≤ 2147483647) (index offset length : Int) :
    ExactCopy (.array array.id) (platform.arrayBaseOffset + offset) buffer.region
        (buffer.addressOffset + index) (Fit buffer array index offset) memory
        ((buffer.putBytes index (array.contents platform memory bounded) offset length).run
          memory) ↔
      ¬buffer.InBounds index (buffer.clamp index length array.length) ∨
        Fit buffer array index offset length := by
  have size : (array.contents platform memory bounded).length = array.length := by
    simp [JavaArray.length, ArrayRef.contents]
  rw [Payload.run_putBytes, size, slice_contents]
  by_cases accepted : buffer.InBounds index (buffer.clamp index length array.length)
  · have positive : 0 ≤ length := accepted.2.1.trans (clamp_le buffer index length array.length)
    have written := read_write memory buffer.region (buffer.addressOffset + index)
      (read memory (.array array.id) (platform.arrayBaseOffset + offset) length.toNat)
    have only := write_onlyWithin memory buffer.region (buffer.addressOffset + index)
      (read memory (.array array.id) (platform.arrayBaseOffset + offset) length.toNat)
    rw [read_length] at written only
    rw [Int.toNat_of_nonneg positive] at only
    rw [if_pos accepted]
    constructor
    · rintro ⟨-, fits, -⟩
      exact .inr fits
    · rintro (refused | fits)
      · exact absurd accepted refused
      · exact ⟨positive, fits, written, only⟩
  · rw [if_neg accepted]
    exact ⟨fun _ => .inl accepted, fun _ => rfl⟩

theorem run_getBytes (index offset length : Int) :
    (buffer.getBytes platform index array offset length).run memory =
      if buffer.InBounds index (buffer.clamp index length array.length) then
        .ok (buffer.clamp index length array.length)
          (copy memory buffer.region (buffer.addressOffset + index) (.array array.id)
            (platform.arrayBaseOffset + offset) (buffer.clamp index length array.length).toNat)
      else .error (.indexOutOfBounds
        s!"index={index}, length={buffer.clamp index length array.length}, capacity={buffer.capacity}")
        memory := by
  unfold DirectBuffer.getBytes
  rw [run_bind_guard (buffer.run_boundsCheck index _ memory)]
  rfl

/-- `getBytes` is exact if it is refused or if the clamped count fits on both sides. -/
theorem getBytes_exact_iff (index offset length : Int) :
    ExactCopy buffer.region (buffer.addressOffset + index) (.array array.id)
        (platform.arrayBaseOffset + offset) (Fit buffer array index offset) memory
        ((buffer.getBytes platform index array offset length).run memory) ↔
      ¬buffer.InBounds index (buffer.clamp index length array.length) ∨
        Fit buffer array index offset (buffer.clamp index length array.length) := by
  rw [run_getBytes]
  generalize buffer.clamp index length array.length = count
  by_cases accepted : buffer.InBounds index count
  · have positive : 0 ≤ count := accepted.2.1
    have copied := read_copy memory buffer.region (buffer.addressOffset + index)
      (.array array.id) (platform.arrayBaseOffset + offset) (le_refl count.toNat)
    have only := copy_onlyWithin memory buffer.region (buffer.addressOffset + index)
      (.array array.id) (platform.arrayBaseOffset + offset) count.toNat
    rw [Int.toNat_of_nonneg positive] at only
    rw [if_pos accepted]
    constructor
    · rintro ⟨-, fits, -⟩
      exact .inr fits
    · rintro (refused | fits)
      · exact absurd accepted refused
      · exact ⟨positive, fits, copied, only⟩
  · rw [if_neg accepted]
    exact ⟨fun _ => .inl accepted, fun _ => rfl⟩

end Copies

/-- What a write of `data[offset..offset+length)` has left at `index` of the view is that part
of the array, and there is such a part. -/
def SliceStored (view : DirectBuffer) (index : Int) (data : JavaArray) (offset length : Int)
    (after : Memory) : Prop :=
  Inside offset length data.length ∧
    read after view.region (view.addressOffset + index) length.toNat =
      (data.elements.drop offset.toNat).take length.toNat

theorem sliceStored_iff {view : DirectBuffer} {index : Int} {data : JavaArray}
    {offset length : Int} {before : Memory} :
    SliceStored view index data offset length (write before view.region
        (view.addressOffset + index) (data.slice offset length.toNat)) ↔
      Inside offset length data.length := by
  have written := read_write before view.region (view.addressOffset + index)
    (data.slice offset length.toNat)
  rw [JavaArray.slice_length] at written
  refine and_iff_left_of_imp fun inside => written.trans ?_
  rcases inside with rfl | ⟨lower, upper⟩
  · rfl
  · by_cases positive : 0 ≤ length
    · exact data.slice_inside lower (by omega)
    · have zero : length.toNat = 0 := by omega
      rw [zero]
      rfl

section Slices

variable {platform : Platform} {world after : World} {data : JavaArray} {offset length : Int}

theorem keyWriteSlice_stores_iff (representable : world.object.keyWriteIndex ≤ 2147483647)
    (ran : (keyWriteSlice platform data offset length).run world = .ok () after) :
    SliceStored after.object.key world.object.keyWriteIndex data offset length after.memory ↔
      Inside offset length data.length := by
  have ended := keyWrite_cases platform (.slice data offset length) world representable
  rw [show (KeyWrite.slice data offset length).perform platform =
    keyWriteSlice platform data offset length from rfl, ran] at ended
  cases ended with
  | accepted ready_eq payload_eq accepts =>
      subst ready_eq payload_eq
      have index := (KeyWrite.slice data offset length).safe_keyWriteIndex platform world.object
      rw [← index]
      simp only [Payload.stored, KeyWrite.payload, Payload.spill, List.append_nil, World.writeKey]
      exact sliceStored_iff

theorem valWriteSlice_stores_iff {allocated : Option Int}
    (representable : world.object.valWriteIndex ≤ 2147483647)
    (ran : (valWriteSlice platform allocated data offset length).run world = .ok () after) :
    SliceStored after.object.value world.object.valWriteIndex data offset length after.memory ↔
      Inside offset length data.length := by
  have ended := valWrite_cases platform allocated (.slice data offset length) world representable
  rw [show (ValWrite.slice data offset length).perform platform allocated =
    valWriteSlice platform allocated data offset length from rfl, ran] at ended
  cases ended with
  | @accepted ready payload writable ensured payload_eq accepts =>
      subst payload_eq
      have index : ready.object.valWriteIndex = world.object.valWriteIndex := by
        rw [ensured.valWriteIndex]
        simp [World.safeVal, BufferCursor.setSafeValMemoryLocation_eq]
      rw [← index]
      simp only [Payload.stored, ValWrite.payload, Payload.spill, List.append_nil, World.writeVal]
      exact sliceStored_iff

/-- Exactly when the two copies and the two writes of a part of an array keep to their ranges. -/
theorem byte_copies_exact_iff {buffer : DirectBuffer} {array : ArrayRef} {memory : Memory}
    {index : Int} {allocated : Option Int} (bounded : array.length ≤ 2147483647)
    (keyIndex : world.object.keyWriteIndex ≤ 2147483647)
    (valIndex : world.object.valWriteIndex ≤ 2147483647) :
    (ExactCopy (.array array.id) (platform.arrayBaseOffset + offset) buffer.region
        (buffer.addressOffset + index) (Fit buffer array index offset) memory
        ((buffer.putBytes index (array.contents platform memory bounded) offset length).run
          memory) ↔
      ¬buffer.InBounds index (buffer.clamp index length array.length) ∨
        Fit buffer array index offset length) ∧
    (ExactCopy buffer.region (buffer.addressOffset + index) (.array array.id)
        (platform.arrayBaseOffset + offset) (Fit buffer array index offset) memory
        ((buffer.getBytes platform index array offset length).run memory) ↔
      ¬buffer.InBounds index (buffer.clamp index length array.length) ∨
        Fit buffer array index offset (buffer.clamp index length array.length)) ∧
    (∀ after, (keyWriteSlice platform data offset length).run world = .ok () after →
      (SliceStored after.object.key world.object.keyWriteIndex data offset length after.memory ↔
        Inside offset length data.length)) ∧
    (∀ after, (valWriteSlice platform allocated data offset length).run world = .ok () after →
      (SliceStored after.object.value world.object.valWriteIndex data offset length after.memory ↔
        Inside offset length data.length)) :=
  ⟨putBytes_exact_iff bounded index offset length, getBytes_exact_iff index offset length,
    fun _ ran => keyWriteSlice_stores_iff keyIndex ran,
    fun _ ran => valWriteSlice_stores_iff valIndex ran⟩

theorem putBytes_exact_of_three :
    ExactCopy (.array 0) (16 + 1) .native (4096 + 5)
      (Fit (.wrapAddress 4096 8) ⟨0, 4⟩ 5 1) (fun _ _ => 7)
      ((DirectBuffer.putBytes (.wrapAddress 4096 8) 5
        (ArrayRef.contents sampleHost (fun _ _ => 7) ⟨0, 4⟩ (by decide)) 1 3).run
        (fun _ _ => 7)) :=
  (@byte_copies_exact_iff sampleHost sampleWorld (zeros 0 (by decide)) 1 3 (.wrapAddress 4096 8)
    ⟨0, 4⟩ (fun _ _ => 7) 5 none (by decide) (by decide) (by decide)).1.mpr (.inr (by decide))

/-- `putBytes` and `getBytes` of four bytes at offset 2 of an array of four go past its end, and
`keyWriteBytes` stores what `putBytes` finds there. -/
theorem byte_copies_leave_array :
    let buffer := DirectBuffer.wrapAddress 4096 8
    let data : JavaArray := ⟨[1, 2, 3, 4], fun _ => 7, by decide⟩
    ¬ExactCopy (.array 0) (16 + 2) .native (4096 + 0) (Fit buffer ⟨0, 4⟩ 0 2) (fun _ _ => 7)
      ((buffer.putBytes 0 (ArrayRef.contents sampleHost (fun _ _ => 7) ⟨0, 4⟩ (by decide)) 2
        4).run (fun _ _ => 7)) ∧
    ¬ExactCopy .native (4096 + 0) (.array 0) (16 + 2) (Fit buffer ⟨0, 4⟩ 0 2) (fun _ _ => 7)
      ((buffer.getBytes sampleHost 0 ⟨0, 4⟩ 2 4).run (fun _ _ => 7)) ∧
    ∃ after, (keyWriteSlice sampleHost data 2 4).run sampleWorld = .ok () after ∧
      read after.memory .native after.object.key.addressOffset 4 = [3, 4, 7, 7] := by
  refine ⟨fun exact => ?_, fun exact => ?_, _, rfl, ?_⟩
  · exact absurd ((@putBytes_exact_iff sampleHost (.wrapAddress 4096 8) ⟨0, 4⟩ _ (by decide)
      0 2 4).mp exact) (by decide)
  · exact absurd ((@getBytes_exact_iff sampleHost (.wrapAddress 4096 8) ⟨0, 4⟩ _ 0 2 4).mp exact)
      (by decide)
  · decide +kernel

end Slices

end LmdbJni
