import LmdbJni.BufferCursorRunCore
import LmdbJni.DirectBufferPuts

/-!
What one call on a `BufferCursor` can do. Navigations and submissions are settled by the
return code of the native call (`navigated`, `Submit.answer`); `KeyWritten`, `Ensured` and
`ValWritten` list the ways a write call can end. Later modules argue about these and never
take the methods apart again.
-/

namespace LmdbJni

open ByteStore Execution Wrapping

namespace BufferCursor

theorem setSafeKeyMemoryLocation_eq (platform : Platform) (object : BufferCursor) :
    object.setSafeKeyMemoryLocation platform = { object with
      key := if object.keyDatbaseMemoryLocation then
        .wrapByteBuffer platform object.keyByteBuffer else object.key
      keyDatbaseMemoryLocation := false } := by
  unfold setSafeKeyMemoryLocation
  cases object
  split <;> simp_all

theorem setSafeValMemoryLocation_eq (platform : Platform) (object : BufferCursor) :
    object.setSafeValMemoryLocation platform = { object with
      value := if object.valDatbaseMemoryLocation then
        .wrapByteBuffer platform object.valueByteBuffer else object.value
      valDatbaseMemoryLocation := false } := by
  unfold setSafeValMemoryLocation
  cases object
  split <;> simp_all

end BufferCursor

def World.returned (world : World) (result : NativeReturn) : World :=
  { world with
    memory := result.memory
    object := { world.object with
      cursor := { world.object.cursor with slots := result.slots } } }

theorem run_callNative (native : Slots → Memory → NativeReturn) (world : World) :
    (callNative native).run world =
      .ok (native world.object.cursor.slots world.memory).rc
        (world.returned (native world.object.cursor.slots world.memory)) := rfl

theorem run_update (change : BufferCursor → BufferCursor) (world : World) :
    (update change).run world = .ok () { world with object := change world.object } := rfl

theorem run_pointer (cursor : Cursor) (world : World) (live : cursor.self ≠ 0) :
    (discard cursor.pointer : Method Unit).run world = .ok () world := by
  rw [run_discard]
  unfold NativeObject.pointer NativeObject.checkAllocated NativeObject.isAllocated
  simp [live]

/-- The overloads for strings and whole views are calls that a run has anyway. -/
theorem keyWrite_overloads (platform : Platform) (world : World) :
    (∀ data bounded, (keyWriteString platform data bounded).run world =
      ((KeyWrite.utf8 (.ofString data bounded)).perform platform).run world) ∧
    ∀ source, (keyWriteBuffer platform source).run world =
      ((KeyWrite.buffer source (source.buffer world.object).capacity).perform platform).run world :=
  ⟨fun _ _ => rfl, fun _ => rfl⟩

theorem valWrite_overloads (platform : Platform) (allocated : Option Int) (world : World) :
    (∀ data bounded, (valWriteString platform allocated data bounded).run world =
      ((ValWrite.utf8 (.ofString data bounded)).perform platform allocated).run world) ∧
    ∀ source, (valWriteBuffer platform allocated source).run world =
      ((ValWrite.buffer source 0 (source.buffer world.object).capacity).perform platform
        allocated).run world :=
  ⟨fun _ _ => rfl, fun _ => rfl⟩

/-- How a navigation ends, by the return code of the native call. -/
def navigated (world : World) (result : NativeReturn) : EStateM.Result Throwable World Bool :=
  let after := world.returned result
  if result.rc = mdbNotFound then
    .ok false { after with object := after.object.setDatabaseMemoryLocation mdbNotFound }
  else if result.rc = 0 then
    .ok true { after with
      object := after.object.wrapBufferAddress.setDatabaseMemoryLocation 0 }
  else .error (.lmdbError result.rc) after

inductive Navigated (world : World) (result : NativeReturn) :
    EStateM.Result Throwable World Bool → Prop
  | missing (code : result.rc = mdbNotFound) :
      Navigated world result (.ok false { world.returned result with
        object := (world.returned result).object.setDatabaseMemoryLocation mdbNotFound })
  | found (code : result.rc = 0) :
      Navigated world result (.ok true { world.returned result with
        object := (world.returned result).object.wrapBufferAddress.setDatabaseMemoryLocation 0 })
  | failed (nonzero : result.rc ≠ 0) (present : result.rc ≠ mdbNotFound) :
      Navigated world result (.error (.lmdbError result.rc) (world.returned result))

theorem navigated_cases (world : World) (result : NativeReturn) :
    Navigated world result (navigated world result) := by
  unfold navigated
  split
  · rename_i missing
    exact .missing missing
  · split
    · rename_i found
      exact .found found
    · rename_i present nonzero
      exact .failed nonzero present

theorem run_navigate (native : GetOp → NativeGet) (op : GetOp) {world : World}
    (live : world.object.cursor.self ≠ 0) :
    (navigate native op).run world =
      navigated world (native op world.object.cursor.slots world.memory) := by
  simp only [navigate, position, EStateM.run_bind, EStateM.run_get, run_pointer _ _ live,
    run_callNative, navigated]
  by_cases missing : (native op world.object.cursor.slots world.memory).rc = mdbNotFound
  · simp [missing, run_update, mdbNotFound]
  · by_cases found : (native op world.object.cursor.slots world.memory).rc = 0
    · simp [found, run_update, mdbNotFound, checkErrorCode]
    · simp [missing, found, checkErrorCode]

def seeking (object : BufferCursor) : BufferCursor :=
  let object := wrapWrittenKey object
  { object with cursor := { object.cursor with slots := { object.cursor.slots with
    keySize := object.key.capacity, keyData := object.key.addressOffset } } }

theorem wrapWrittenKey_cursor (object : BufferCursor) :
    (wrapWrittenKey object).cursor = object.cursor := by
  unfold wrapWrittenKey
  split <;> rfl

theorem run_seek (native : SeekOp → NativeGet) (op : SeekOp) {world : World}
    (live : world.object.cursor.self ≠ 0) :
    (seek native op).run world =
      let prepared := { world with object := seeking world.object }
      navigated prepared (native op prepared.object.cursor.slots world.memory) := by
  have live' : (wrapWrittenKey world.object).cursor.self ≠ 0 := by
    rwa [wrapWrittenKey_cursor]
  simp only [seek, seekPosition, setSlots, EStateM.run_bind, EStateM.run_get, run_update, run_pointer _ _ live',
    run_callNative, navigated]
  by_cases missing : (native op (seeking world.object).cursor.slots world.memory).rc = mdbNotFound
  · simp_all [mdbNotFound, seeking]
  · by_cases found : (native op (seeking world.object).cursor.slots world.memory).rc = 0
    · simp_all [run_update, mdbNotFound, checkErrorCode, seeking]
    · simp_all [checkErrorCode, seeking]

/-- The two `MDB_val` structures a submission fills in. -/
def BufferCursor.pendingSlots (object : BufferCursor) : Slots where
  keySize := if object.keyWriteIndex ≠ 0 then object.keyWriteIndex else object.key.capacity
  keyData := object.key.addressOffset
  valSize := if object.valWriteIndex ≠ 0 then object.valWriteIndex else object.value.capacity
  valData := object.value.addressOffset

def World.submitting (world : World) (flags : Int) : World :=
  let slots := world.object.pendingSlots
  let handed := slots.denote world.memory
  { world with
    object := { world.object with
      keyWriteIndex := 0
      valWriteIndex := 0
      cursor := { world.object.cursor with slots := slots } }
    submissions := ⟨handed.1, handed.2, flags⟩ :: world.submissions }

theorem run_cursorPut (key value : DirectBuffer) (flags : Int) (native : NativePut)
    {world : World} (live : world.object.cursor.self ≠ 0) :
    (cursorPut key value flags native).run world =
      let slots : Slots := ⟨key.capacity, key.addressOffset, value.capacity, value.addressOffset⟩
      let handed := slots.denote world.memory
      let result := native flags slots world.memory
      .ok result.rc (World.returned { world with
        submissions := ⟨handed.1, handed.2, flags⟩ :: world.submissions } result) := by
  simp only [cursorPut, setSlots, EStateM.run_bind, EStateM.run_get, run_update, run_pointer, live,
    ne_eq, not_false_eq_true]
  rfl

theorem run_submit (flags : Int) (native : NativePut) {world : World}
    (live : world.object.cursor.self ≠ 0) :
    (submit flags native).run world =
      let result := native flags world.object.pendingSlots world.memory
      .ok result.rc ((world.submitting flags).returned result) := by
  simp only [submit, EStateM.run_bind, EStateM.run_get, run_update]
  rw [run_cursorPut _ _ _ _ (by exact live)]
  unfold World.submitting BufferCursor.pendingSlots
  by_cases keyWritten : world.object.keyWriteIndex = 0 <;>
    by_cases valWritten : world.object.valWriteIndex = 0 <;>
      simp [keyWritten, valWritten, DirectBuffer.wrapAddress, World.returned]

def Submit.flags : Submit → Int
  | put => mdbNoOverwrite
  | overwrite => 0
  | append => mdbAppend

/-- How a submission ends, by the return code of the native call. -/
def Submit.answer (call : Submit) (rc : Int) (world : World) :
    EStateM.Result Throwable World Bool :=
  if rc = 0 then .ok true world
  else if rc = mdbKeyExist ∧ call ≠ .append then .ok false world
  else .error (.lmdbError rc) world

theorem run_storedOrThrow {call : Submit} (reports : call ≠ .append) (rc : Int) (world : World) :
    (storedOrThrow rc).run world = call.answer rc world := by
  unfold storedOrThrow Submit.answer
  simp only [reports, ne_eq, not_false_eq_true, and_true]
  split
  · rfl
  · split <;> rfl

theorem run_submission (call : Submit) (native : NativePut) {world : World}
    (live : world.object.cursor.self ≠ 0) :
    (call.perform native).run world =
      let result := native call.flags world.object.pendingSlots world.memory
      call.answer result.rc ((world.submitting call.flags).returned result) := by
  cases call with
  | put =>
      simp only [Submit.perform, put, EStateM.run_bind, run_submit _ _ live, Submit.flags]
      exact run_storedOrThrow (by decide) _ _
  | overwrite =>
      simp only [Submit.perform, overwrite, EStateM.run_bind, run_submit _ _ live, Submit.flags]
      exact run_storedOrThrow (by decide) _ _
  | append =>
      simp only [Submit.perform, append, EStateM.run_bind, run_submit _ _ live, Submit.flags,
        Submit.answer, checkErrorCode]
      by_cases stored : (native mdbAppend world.object.pendingSlots world.memory).rc = 0 <;>
        simp [stored]

theorem run_submission_freed (call : Submit) (native : NativePut) {world : World}
    (freed : world.object.cursor.self = 0) :
    ∃ error after, (call.perform native).run world = .error error after := by
  cases call <;>
    simp [Submit.perform, put, overwrite, append, submit, cursorPut, setSlots, update, run_discard,
      NativeObject.pointer, NativeObject.checkAllocated, NativeObject.isAllocated, freed]

theorem finalState_answer (call : Submit) (rc : Int) (world : World) :
    finalState (call.answer rc world) = world := by
  unfold Submit.answer
  split
  · rfl
  · split <;> rfl

/-! Writes. -/

namespace KeyWrite

/-- The method's first statement: `keyWriteFloat` and `keyWriteDouble` differ from the rest. -/
def safe (platform : Platform) : KeyWrite → BufferCursor → BufferCursor
  | float _, object => object.setSafeValMemoryLocation platform
  | double _, object => object.setSafeValMemoryLocation platform
  | _, object => object.setSafeKeyMemoryLocation platform

def payload (object : BufferCursor) : KeyWrite → Payload
  | boolean data => .boolean data
  | byte data => .byte data
  | int data => .int data
  | long data => .long data
  | float data => .float data
  | double data => .double data
  | utf8 data => .utf8 data
  | bytes data => .bytes data
  | slice data offset length => .slice data offset length
  | buffer source capacity => .buffer (source.buffer object) 0 capacity

end KeyWrite

theorem run_putKey (put : BufferCursor → EStateM Throwable Memory Unit) (length : Int)
    (world : World) :
    (putKey put length).run world =
      match (put world.object).run world.memory with
      | .ok _ memory => .ok () { world with
          memory := memory, object := world.object.advanceKey length }
      | .error error memory => .error error { world with memory := memory } := by
  simp only [putKey, inMemory, EStateM.run_bind, EStateM.run_get, run_zoom]
  cases (put world.object).run world.memory <;> rfl

theorem KeyWrite.perform_eq (platform : Platform) (call : KeyWrite) (object : BufferCursor) :
    call.perform platform = (do
      update (call.safe platform)
      putKey (fun object =>
        (call.payload object).put platform object.key object.keyWriteIndex)
        (call.payload object).length) := by
  cases call <;> rfl

/-- The state in which a key write calls its put. -/
def KeyWrite.ready (platform : Platform) (call : KeyWrite) (world : World) : World :=
  { world with object := call.safe platform world.object }

def World.writeKey (world : World) (bytes : List UInt8) : World :=
  { world with
    memory := write world.memory world.object.key.region
      (world.object.key.addressOffset + world.object.keyWriteIndex) bytes }

def World.writeVal (world : World) (bytes : List UInt8) : World :=
  { world with
    memory := write world.memory world.object.value.region
      (world.object.value.addressOffset + world.object.valWriteIndex) bytes }

inductive KeyWritten (platform : Platform) (call : KeyWrite) (world : World) :
    EStateM.Result Throwable World Unit → Prop
  | accepted {ready : World} {payload : Payload} (ready_eq : ready = call.ready platform world)
      (payload_eq : payload = call.payload ready.object)
      (accepts : payload.Accepts ready.object.key ready.object.keyWriteIndex) :
      KeyWritten platform call world (.ok () { ready with
        memory := (ready.writeKey (payload.stored ready.memory ++ payload.spill platform)).memory
        object := ready.object.advanceKey payload.length })
  | rejected {ready : World} {payload : Payload} {leftover : List UInt8} {message : String}
      (ready_eq : ready = call.ready platform world)
      (payload_eq : payload = call.payload ready.object)
      (rejects : ¬payload.Accepts ready.object.key ready.object.keyWriteIndex)
      (leaves : payload.Leaves ready.object.key ready.object.keyWriteIndex leftover) :
      KeyWritten platform call world
        (.error (.indexOutOfBounds message) (ready.writeKey leftover))

@[simp] theorem KeyWrite.safe_keyWriteIndex (platform : Platform) (call : KeyWrite)
    (object : BufferCursor) : (call.safe platform object).keyWriteIndex = object.keyWriteIndex := by
  cases call <;> simp [KeyWrite.safe, BufferCursor.setSafeKeyMemoryLocation_eq,
    BufferCursor.setSafeValMemoryLocation_eq]

theorem keyWrite_cases (platform : Platform) (call : KeyWrite) (world : World)
    (representable : world.object.keyWriteIndex ≤ 2147483647) :
    KeyWritten platform call world ((call.perform platform).run world) := by
  have index : (call.ready platform world).object.keyWriteIndex ≤ 2147483647 := by
    simpa [KeyWrite.ready] using representable
  rw [call.perform_eq platform (call.ready platform world).object, EStateM.run_bind, run_update]
  change KeyWritten platform call world ((putKey _ _).run (call.ready platform world))
  rw [run_putKey]
  rcases Payload.put_cases platform (call.payload (call.ready platform world).object)
      (call.ready platform world).object.key (call.ready platform world).memory index with
    ⟨accepts, run⟩ | ⟨rejects, message, leftover, leaves, run⟩
  · rw [run]
    exact .accepted rfl rfl accepts
  · rw [run]
    exact .rejected rfl rfl rejects leaves

theorem growCapacity_bounds {turns : Nat} {start minimum grown : Int}
    (found : growCapacity turns start minimum = some grown) (small : start ≤ 2147483647) :
    minimum ≤ grown ∧ (grown = start ∨ start < minimum) ∧ grown ≤ 2147483647 := by
  induction turns generalizing start with
  | zero => simp [growCapacity] at found
  | succ turns ih =>
      rw [growCapacity] at found
      split at found
      · rename_i below
        split at found
        · cases found
        · have further := ih found (wrap32_upper _)
          exact ⟨further.1, .inr below, further.2.2⟩
      · rename_i enough
        cases found
        exact ⟨by omega, .inl rfl, small⟩

theorem ByteBuffer.fresh_valid {capacity : Int}
    (representable : 0 ≤ capacity ∧ capacity ≤ 2147483647) :
    (0 : Int) ≤ 0 ∧ 0 ≤ capacity ∧ capacity ≤ capacity ∧ capacity ≤ 2147483647 := by
  omega

theorem ByteBuffer.run_allocateDirect (address : Int) {capacity : Int}
    (representable : 0 ≤ capacity ∧ capacity ≤ 2147483647) (memory : Memory) :
    (allocateDirect (some address) capacity).run memory =
      .ok ⟨.direct address, 0, capacity, capacity, fresh_valid representable⟩
        (write memory .native address (List.replicate capacity.toNat 0)) := by
  simp only [allocateDirect, representable, and_self, dite_true]
  rfl

theorem ByteBuffer.allocateDirect_ok {allocated : Option Int} {capacity : Int}
    {before after : Memory} {buffer : ByteBuffer}
    (provided : (allocateDirect allocated capacity).run before = .ok buffer after) :
    ∃ address, allocated = some address ∧
      ∃ representable : 0 ≤ capacity ∧ capacity ≤ 2147483647,
      buffer = ⟨.direct address, 0, capacity, capacity, fresh_valid representable⟩ ∧
      after = write before .native address (List.replicate capacity.toNat 0) := by
  by_cases representable : 0 ≤ capacity ∧ capacity ≤ 2147483647
  · cases allocated with
    | none =>
        simp only [allocateDirect, representable, and_self, dite_true] at provided
        cases provided
    | some address =>
        rw [run_allocateDirect address representable] at provided
        cases provided
        exact ⟨address, rfl, representable, rfl, rfl⟩
  · simp only [allocateDirect, representable, dite_false] at provided
    cases provided

theorem ByteBuffer.run_put (platform : Platform) (target source : ByteBuffer)
    (fits : source.remaining ≤ target.remaining) (memory : Memory) :
    ∃ buffer, buffer.backing = target.backing ∧ buffer.limit = target.limit ∧
      buffer.capacity = target.capacity ∧
      (target.put platform source).run memory =
        .ok buffer (copy memory source.region (source.base platform + source.position)
          target.region (target.base platform + target.position) source.remaining.toNat) := by
  simp only [put, fits, dite_true]
  refine ⟨_, ?_, ?_, ?_, rfl⟩ <;> rfl

/-- The state after the value buffer has been replaced by a larger one. -/
def World.grow (platform : Platform) (world : World) (buffer : ByteBuffer) : World :=
  let old := world.object.valueByteBuffer
  { world with
    memory := copy
      (write world.memory .native (buffer.base platform) (List.replicate buffer.capacity.toNat 0))
      old.region (old.base platform) .native (buffer.base platform) old.limit.toNat
    object := { world.object with
      valueByteBuffer := buffer
      value := .wrapByteBuffer platform buffer } }

theorem run_replaceValueBuffer (platform : Platform) (address : Int) {capacity : Int}
    (world : World) (room : world.object.valueByteBuffer.capacity ≤ capacity)
    (representable : capacity ≤ 2147483647) :
    ∃ buffer : ByteBuffer, buffer.backing = .direct address ∧ buffer.limit = capacity ∧
      buffer.capacity = capacity ∧
      (replaceValueBuffer platform (some address) capacity).run world =
        .ok () (world.grow platform buffer) := by
  have valid := world.object.valueByteBuffer.valid
  have range : 0 ≤ capacity ∧ capacity ≤ 2147483647 := by omega
  have fits : world.object.valueByteBuffer.rewind.remaining ≤
      (⟨.direct address, 0, capacity, capacity, by omega⟩ : ByteBuffer).remaining := by
    simp only [ByteBuffer.remaining, ByteBuffer.rewind]
    omega
  obtain ⟨buffer, backing, limit, capacity_eq, run⟩ := ByteBuffer.run_put platform _ _ fits
    (write world.memory .native address (List.replicate capacity.toNat 0))
  refine ⟨buffer, backing, limit, capacity_eq, ?_⟩
  have base : buffer.base platform = address := by simp [ByteBuffer.base, backing]
  simp only [replaceValueBuffer, inMemory, EStateM.run_bind, EStateM.run_get, run_zoom,
    ByteBuffer.run_allocateDirect address range, run, run_update, World.grow, base, capacity_eq]
  simp [ByteBuffer.rewind, ByteBuffer.base, ByteBuffer.region, ByteBuffer.remaining]

/-- The states `ensureValueWritableBytes` can return in. -/
inductive Ensured (platform : Platform) (allocated : Option Int) (length : Int) (world : World) :
    World → Prop
  | enough (room : length ≤
      wrap32 (world.object.valueByteBuffer.capacity - world.object.valWriteIndex)) :
      Ensured platform allocated length world world
  | grown {address : Int} {buffer : ByteBuffer} (provided : allocated = some address)
      (backing : buffer.backing = .direct address) (limit : buffer.limit = buffer.capacity)
      (short : wrap32 (world.object.valueByteBuffer.capacity - world.object.valWriteIndex) < length)
      (larger : world.object.valueByteBuffer.capacity ≤ buffer.capacity)
      (doubled : growCapacity 33
        (if world.object.valueByteBuffer.capacity = 0 then 1
          else world.object.valueByteBuffer.capacity)
        (wrap32 (world.object.valWriteIndex + length)) = some buffer.capacity) :
      Ensured platform allocated length world (world.grow platform buffer)

theorem ensure_cases (platform : Platform) (allocated : Option Int) (length : Int) (world : World) :
    (∃ after, Ensured platform allocated length world after ∧
      (ensureValueWritableBytes platform allocated length).run world = .ok () after) ∨
    (wrap32 (world.object.valueByteBuffer.capacity - world.object.valWriteIndex) < length ∧
      (growCapacity 33 (if world.object.valueByteBuffer.capacity = 0 then 1
          else world.object.valueByteBuffer.capacity)
          (wrap32 (world.object.valWriteIndex + length)) = none ∨ allocated = none) ∧
      ∃ error, (ensureValueWritableBytes platform allocated length).run world =
        .error error world) := by
  have valid := world.object.valueByteBuffer.valid
  simp only [ensureValueWritableBytes, EStateM.run_bind, EStateM.run_get]
  by_cases enough : length ≤
      wrap32 (world.object.valueByteBuffer.capacity - world.object.valWriteIndex)
  · rw [if_pos enough]
    exact .inl ⟨world, .enough enough, rfl⟩
  · rw [if_neg enough]
    cases grown : growCapacity 33 (if world.object.valueByteBuffer.capacity = 0 then 1
        else world.object.valueByteBuffer.capacity)
        (wrap32 (world.object.valWriteIndex + length)) with
    | none =>
        exact .inr ⟨by omega, .inl rfl, .illegalState "Maximum size of 2gb exceeded", by simp⟩
    | some newCapacity =>
        obtain ⟨reached, start, representable⟩ := growCapacity_bounds grown (by split <;> omega)
        have larger : world.object.valueByteBuffer.capacity ≤ newCapacity := by
          split at start <;> omega
        cases allocated with
        | none =>
            have range : 0 ≤ newCapacity ∧ newCapacity ≤ 2147483647 := by omega
            refine .inr ⟨by omega, .inr rfl, .outOfMemory "Direct buffer memory", ?_⟩
            simp [replaceValueBuffer, inMemory, run_zoom, ByteBuffer.allocateDirect, range]
            rfl
        | some address =>
            obtain ⟨buffer, backing, limit, rfl, run⟩ :=
              run_replaceValueBuffer platform address world larger representable
            exact .inl ⟨_, .grown rfl backing limit (by omega) larger grown, run⟩

namespace ValWrite

def payload (object : BufferCursor) : ValWrite → Payload
  | boolean data => .boolean data
  | byte data => .byte data
  | int data => .int data
  | long data => .long data
  | float data => .float data
  | double data => .double data
  | utf8 data => .utf8 data
  | bytes data => .bytes data
  | slice data offset length => .slice data offset length
  | buffer source sourceIndex length => .buffer (source.buffer object) sourceIndex length

theorem perform_eq (platform : Platform) (allocated : Option Int) (call : ValWrite)
    (object : BufferCursor) :
    call.perform platform allocated =
      putVal platform allocated (fun object =>
        (call.payload object).put platform object.value object.valWriteIndex)
        (call.payload object).length := by
  cases call <;> rfl

theorem length_payload (call : ValWrite) (first second : BufferCursor) :
    (call.payload first).length = (call.payload second).length := by
  cases call <;> rfl

end ValWrite

def World.safeVal (platform : Platform) (world : World) : World :=
  { world with object := world.object.setSafeValMemoryLocation platform }

inductive ValWritten (platform : Platform) (allocated : Option Int) (call : ValWrite)
    (world : World) : EStateM.Result Throwable World Unit → Prop
  | readOnly (refused : world.object.isReadOnly = true) {error : Throwable} :
      ValWritten platform allocated call world (.error error world)
  | noRoom (writable : world.object.isReadOnly = false) {error : Throwable} :
      ValWritten platform allocated call world (.error error (world.safeVal platform))
  | accepted {ready : World} {payload : Payload} (writable : world.object.isReadOnly = false)
      (ensured : Ensured platform allocated payload.length (world.safeVal platform) ready)
      (payload_eq : payload = call.payload ready.object)
      (accepts : payload.Accepts ready.object.value ready.object.valWriteIndex) :
      ValWritten platform allocated call world (.ok () { ready with
        memory := (ready.writeVal (payload.stored ready.memory ++ payload.spill platform)).memory
        object := ready.object.advanceVal payload.length })
  | rejected {ready : World} {payload : Payload} {leftover : List UInt8} {message : String}
      (writable : world.object.isReadOnly = false)
      (ensured : Ensured platform allocated payload.length (world.safeVal platform) ready)
      (payload_eq : payload = call.payload ready.object)
      (rejects : ¬payload.Accepts ready.object.value ready.object.valWriteIndex)
      (leaves : payload.Leaves ready.object.value ready.object.valWriteIndex leftover) :
      ValWritten platform allocated call world
        (.error (.indexOutOfBounds message) (ready.writeVal leftover))

@[simp] theorem Ensured.valWriteIndex {platform : Platform} {allocated : Option Int} {length : Int}
    {world after : World} (ensured : Ensured platform allocated length world after) :
    after.object.valWriteIndex = world.object.valWriteIndex := by
  cases ensured <;> rfl

theorem run_putVal (platform : Platform) (allocated : Option Int)
    (put : BufferCursor → EStateM Throwable Memory Unit) (length : Int) {world : World}
    (writable : world.object.isReadOnly = false) :
    (putVal platform allocated put length).run world =
      match (ensureValueWritableBytes platform allocated length).run (world.safeVal platform) with
      | .ok _ ready =>
          match (put ready.object).run ready.memory with
          | .ok _ memory => .ok () { ready with
              memory := memory, object := ready.object.advanceVal length }
          | .error error memory => .error error { ready with memory := memory }
      | .error error after => .error error after := by
  simp only [putVal, EStateM.run_bind, EStateM.run_get, writable, Bool.false_eq_true, if_false,
    run_update, inMemory, run_zoom, World.safeVal]
  cases (ensureValueWritableBytes platform allocated length).run { world with
      object := world.object.setSafeValMemoryLocation platform } with
  | ok _ ready =>
      dsimp only
      cases (put ready.object).run ready.memory <;> rfl
  | error error after => rfl

theorem valWrite_cases (platform : Platform) (allocated : Option Int) (call : ValWrite)
    (world : World) (representable : world.object.valWriteIndex ≤ 2147483647) :
    ValWritten platform allocated call world ((call.perform platform allocated).run world) := by
  rw [call.perform_eq platform allocated world.object]
  cases refused : world.object.isReadOnly with
  | true =>
      simp only [putVal, EStateM.run_bind, EStateM.run_get, refused, if_true]
      exact .readOnly refused
  | false =>
      rw [run_putVal platform allocated _ _ refused]
      rcases ensure_cases platform allocated (call.payload world.object).length
          (world.safeVal platform) with ⟨ready, ensured, run⟩ | ⟨-, -, error, run⟩
      · rw [call.length_payload world.object ready.object] at ensured
        have index : ready.object.valWriteIndex ≤ 2147483647 := by
          rw [ensured.valWriteIndex]
          simpa [World.safeVal, BufferCursor.setSafeValMemoryLocation_eq] using representable
        rw [run]
        rcases Payload.put_cases platform (call.payload ready.object) ready.object.value
            ready.memory index with
          ⟨accepts, put⟩ | ⟨rejects, message, leftover, leaves, put⟩
        · simp only [put, call.length_payload world.object ready.object]
          exact .accepted refused ensured rfl accepts
        · simp only [put]
          exact .rejected refused ensured rfl rejects leaves
      · rw [run]
        exact .noRoom refused

namespace Event

variable (platform : Platform) (world : World)

theorem step_keyWrite (call : KeyWrite) :
    step platform world (.keyWrite call) = finalState ((call.perform platform).run world) :=
  finalState_bind_pure _ _ _

theorem step_valWrite (call : ValWrite) (allocated : Option Int) :
    step platform world (.valWrite call allocated) =
      finalState ((call.perform platform allocated).run world) :=
  finalState_bind_pure _ _ _

theorem reply_keyWrite (call : KeyWrite) :
    reply platform world (.keyWrite call) =
      (outcome ((call.perform platform).run world)).map fun _ => true :=
  outcome_bind_pure _ _ _

theorem reply_valWrite (call : ValWrite) (allocated : Option Int) :
    reply platform world (.valWrite call allocated) =
      (outcome ((call.perform platform allocated).run world)).map fun _ => true :=
  outcome_bind_pure _ _ _

/-- The native call a navigation makes. -/
def nativeReturn (world : World) : Event → Option NativeReturn
  | position op native => some (native op world.object.cursor.slots world.memory)
  | seek op native => some (native op (seeking world.object).cursor.slots world.memory)
  | _ => none

/-- The state in which it is made. -/
def prepared (world : World) : Event → World
  | seek _ _ => { world with object := seeking world.object }
  | _ => world

theorem navigation_cases {world : World} {event : Event} {result : NativeReturn}
    (live : world.object.cursor.self ≠ 0) (called : event.nativeReturn world = some result) :
    Navigated (event.prepared world) result ((event.perform platform).run world) := by
  cases event with
  | position op native =>
      cases called
      exact run_navigate native op live ▸ navigated_cases _ _
  | seek op native =>
      cases called
      exact run_seek native op live ▸ navigated_cases _ _
  | _ => cases called

theorem step_submit (call : Submit) (native : NativePut)
    (live : world.object.cursor.self ≠ 0) :
    step platform world (.submit call native) =
      (world.submitting call.flags).returned
        (native call.flags world.object.pendingSlots world.memory) :=
  (congrArg finalState (run_submission call native live)).trans (finalState_answer _ _ _)

end Event

/-- What every cursor keeps from the start, whatever is called on it. -/
structure BufferCursor.Grounded (object : BufferCursor) : Prop where
  live : object.cursor.self ≠ 0
  valueDirect : object.valueByteBuffer.isDirect = true
  keyIndex : object.keyWriteIndex ≤ 2147483647
  valIndex : object.valWriteIndex ≤ 2147483647

theorem KeyWritten.effect {platform : Platform} {call : KeyWrite} {world : World}
    {result : EStateM.Result Throwable World Unit}
    (written : KeyWritten platform call world result) (grounded : world.object.Grounded) :
    (finalState result).object.Grounded ∧
      (finalState result).object.validPosition = world.object.validPosition := by
  have safe : (call.safe platform world.object).Grounded ∧
      (call.safe platform world.object).validPosition = world.object.validPosition := by
    obtain ⟨live, valueDirect, keyIndex, valIndex⟩ := grounded
    cases call <;> simp only [KeyWrite.safe, BufferCursor.setSafeKeyMemoryLocation_eq,
      BufferCursor.setSafeValMemoryLocation_eq, and_true] <;>
        exact ⟨live, valueDirect, keyIndex, valIndex⟩
  cases written with
  | accepted ready_eq payload_eq accepts =>
      subst ready_eq
      exact ⟨⟨safe.1.live, safe.1.valueDirect, wrap32_upper _, safe.1.valIndex⟩, safe.2⟩
  | rejected ready_eq payload_eq rejects leaves =>
      subst ready_eq
      exact safe

theorem ValWritten.effect {platform : Platform} {allocated : Option Int} {call : ValWrite}
    {world : World} {result : EStateM.Result Throwable World Unit}
    (written : ValWritten platform allocated call world result)
    (grounded : world.object.Grounded) :
    (finalState result).object.Grounded ∧
      (finalState result).object.validPosition = world.object.validPosition := by
  have safe : (world.safeVal platform).object.Grounded ∧
      (world.safeVal platform).object.validPosition = world.object.validPosition := by
    obtain ⟨live, valueDirect, keyIndex, valIndex⟩ := grounded
    simp only [World.safeVal, BufferCursor.setSafeValMemoryLocation_eq, and_true]
    exact ⟨live, valueDirect, keyIndex, valIndex⟩
  have kept {length : Int} {ready : World}
      (ensured : Ensured platform allocated length (world.safeVal platform) ready) :
      ready.object.Grounded ∧ ready.object.validPosition = world.object.validPosition := by
    cases ensured with
    | enough room => exact safe
    | grown provided backing limit short larger doubled =>
        refine ⟨⟨safe.1.live, ?_, safe.1.keyIndex, safe.1.valIndex⟩, safe.2⟩
        simp [World.grow, ByteBuffer.isDirect, backing]
  cases written with
  | readOnly refused => exact ⟨grounded, rfl⟩
  | noRoom writable => exact safe
  | accepted writable ensured payload_eq accepts =>
      have ready := kept ensured
      exact ⟨⟨ready.1.live, ready.1.valueDirect, ready.1.keyIndex, wrap32_upper _⟩, ready.2⟩
  | rejected writable ensured payload_eq rejects leaves =>
      have ready := kept ensured
      exact ready

theorem Navigated.grounded {world : World} {result : NativeReturn}
    {ended : EStateM.Result Throwable World Bool} (navigated : Navigated world result ended)
    (grounded : world.object.Grounded) : (finalState ended).object.Grounded := by
  have reset : (0 : Int) ≤ 2147483647 := by decide
  cases navigated with
  | missing code => exact ⟨grounded.live, grounded.valueDirect, reset, reset⟩
  | found code => exact ⟨grounded.live, grounded.valueDirect, reset, reset⟩
  | failed nonzero present =>
      exact ⟨grounded.live, grounded.valueDirect, grounded.keyIndex, grounded.valIndex⟩

theorem seeking_grounded {object : BufferCursor} (grounded : object.Grounded) :
    (seeking object).Grounded := by
  unfold seeking wrapWrittenKey
  split <;> exact ⟨grounded.live, grounded.valueDirect, grounded.keyIndex, grounded.valIndex⟩

theorem step_grounded (platform : Platform) {world : World} (event : Event)
    (grounded : world.object.Grounded) : (event.step platform world).object.Grounded := by
  have navigation {result : NativeReturn} (called : event.nativeReturn world = some result)
      (ready : (event.prepared world).object.Grounded) :
      (event.step platform world).object.Grounded :=
    (Event.navigation_cases platform grounded.live called).grounded ready
  cases event with
  | position op native => exact navigation rfl grounded
  | seek op native => exact navigation rfl (seeking_grounded grounded)
  | keyWrite call =>
      rw [Event.step_keyWrite]
      exact ((keyWrite_cases platform call world grounded.keyIndex).effect grounded).1
  | valWrite call allocated =>
      rw [Event.step_valWrite]
      exact ((valWrite_cases platform allocated call world grounded.valIndex).effect grounded).1
  | submit call native =>
      rw [Event.step_submit platform world call native grounded.live]
      exact ⟨grounded.live, grounded.valueDirect, by simp [World.returned, World.submitting],
        by simp [World.returned, World.submitting]⟩
  | program change => exact grounded

theorem run_grounded (platform : Platform) {world : World} (events : List Event)
    (grounded : world.object.Grounded) :
    (run (Event.step platform) world events).object.Grounded :=
  @run_invariant _ _ _ (fun world : World => world.object.Grounded) _ _ grounded
    fun _ event kept => step_grounded platform event kept

end LmdbJni
