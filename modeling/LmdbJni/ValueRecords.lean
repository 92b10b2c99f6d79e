import LmdbJni.BufferCursorCopy
import LmdbJni.BufferCursorPending
import LmdbJni.DirectBufferScalars

/-!
Value records. The fields of a record are written one after the other with `valWrite*`, from a
cursor that has just been moved or has just submitted. Whatever the value buffer holds by then
and however often it has to grow, `overwrite` hands the concatenation of the encodings to LMDB,
and an entry with that value is read back field by field at the running offsets. The exception is
a navigation that throws: it leaves the pending bytes, and the record is appended to them.
-/

namespace LmdbJni

open ByteStore Execution Wrapping

inductive RecordField
  | boolean (data : Bool)
  | byte (data : BitVec 32)
  | int (data : BitVec 32)
  | long (data : BitVec 64)
  | double (data : BitVec 64)
  | bytes (data : JavaArray)

namespace RecordField

def write : RecordField → ValWrite
  | boolean data => .boolean data
  | byte data => .byte data
  | int data => .int data
  | long data => .long data
  | double data => .double data
  | bytes data => .bytes data

def encode : RecordField → List UInt8
  | boolean data => [if data then 1 else 0]
  | byte data => [UInt8.ofNat data.toNat]
  | int data => ByteOrder.bigEndian.encode 4 data.toNat
  | long data => ByteOrder.bigEndian.encode 8 data.toNat
  | double data => ByteOrder.bigEndian.encode 8 data.toNat
  | bytes data => data.elements

/-- The accessor that reads the field at a position. -/
def accessor (pos : Int) : RecordField → Accessor
  | boolean _ => .valBoolean pos
  | byte _ => .valByte pos
  | int _ => .valInt pos
  | long _ => .valLong pos
  | double _ => .valDouble pos
  | bytes data => .valBytesAt pos data.length

/-- What it returns; of a `byte` argument only the low eight bits are stored. -/
def datum : RecordField → Datum
  | boolean data => .boolean data
  | byte data => .byte (UInt8.ofNat data.toNat)
  | int data => .int data
  | long data => .long data
  | double data => .double data
  | bytes data => .bytes data.elements

theorem whole (field : RecordField) (object : BufferCursor) :
    (field.write.payload object).Whole := by
  cases field <;> trivial

theorem size_eq (field : RecordField) (object : BufferCursor) :
    (field.write.payload object).size = field.encode.length := by
  cases field with
  | bytes data => rfl
  | _ => simp [write, ValWrite.payload, Payload.size, Payload.length, encode]

theorem length_eq (field : RecordField) (object : BufferCursor) :
    (field.write.payload object).length = field.encode.length := by
  cases field with
  | bytes data => rfl
  | _ => simp [write, ValWrite.payload, Payload.length, encode]

theorem stored_eq (platform : Platform) (field : RecordField) (object : BufferCursor)
    (memory : Memory) :
    (field.write.payload object).stored memory ++
      (field.write.payload object).spill platform = field.encode := by
  cases field <;> simp [write, ValWrite.payload, Payload.stored, Payload.spill, encode]

end RecordField

/-- What holds of the value side of a writing cursor after every call. -/
structure BufferCursor.ValueReady (platform : Platform) (object : BufferCursor) : Prop where
  writable : object.isReadOnly = false
  limit : object.valueByteBuffer.limit = object.valueByteBuffer.capacity
  view : object.valDatbaseMemoryLocation = false →
    object.value = .wrapByteBuffer platform object.valueByteBuffer

/-- The value side of a writing cursor without a condition on the limit: the buffer is one of
those accepted, and it is the one the view shows. -/
structure BufferCursor.ValueShown (accepts : ByteBuffer → Prop) (platform : Platform)
    (object : BufferCursor) : Prop where
  writable : object.isReadOnly = false
  buffer : accepts object.valueByteBuffer
  view : object.valDatbaseMemoryLocation = false →
    object.value = .wrapByteBuffer platform object.valueByteBuffer

theorem BufferCursor.valueReady_iff {platform : Platform} {object : BufferCursor} :
    object.ValueReady platform ↔
      object.ValueShown (fun buffer => buffer.limit = buffer.capacity) platform :=
  ⟨fun ready => ⟨ready.writable, ready.limit, ready.view⟩,
    fun shown => ⟨shown.writable, shown.buffer, shown.view⟩⟩

section Ready

variable {platform : Platform} {world : World} {accepts : ByteBuffer → Prop}

theorem BufferCursor.ValueShown.safe {object : BufferCursor}
    (shown : object.ValueShown accepts platform) :
    (object.setSafeValMemoryLocation platform).ValueShown accepts platform := by
  rw [BufferCursor.setSafeValMemoryLocation_eq]
  refine ⟨shown.writable, shown.buffer, fun _ => ?_⟩
  cases database : object.valDatbaseMemoryLocation with
  | true => rfl
  | false => exact shown.view database

theorem KeyWrite.safe_valueShown (call : KeyWrite) {object : BufferCursor}
    (shown : object.ValueShown accepts platform) :
    (call.safe platform object).ValueShown accepts platform := by
  have key : (object.setSafeKeyMemoryLocation platform).ValueShown accepts platform := by
    rw [BufferCursor.setSafeKeyMemoryLocation_eq]
    exact ⟨shown.writable, shown.buffer, shown.view⟩
  cases call with
  | float data => exact shown.safe
  | double data => exact shown.safe
  | _ => exact key

theorem Ensured.valueShown {allocated : Option Int} {length : Int} {after : World}
    (ensured : Ensured platform allocated length world after)
    (replaceable : ∀ buffer : ByteBuffer, buffer.limit = buffer.capacity → accepts buffer)
    (shown : world.object.ValueShown accepts platform) :
    after.object.ValueShown accepts platform := by
  cases ensured with
  | enough room => exact shown
  | grown provided backing limit short larger doubled =>
      exact ⟨shown.writable, replaceable _ limit, fun _ => rfl⟩

theorem prepared_valueShown (event : Event) (shown : world.object.ValueShown accepts platform) :
    (event.prepared world).object.ValueShown accepts platform := by
  cases event with
  | seek op native =>
      simp only [Event.prepared, seeking, wrapWrittenKey]
      split <;> exact ⟨shown.writable, shown.buffer, shown.view⟩
  | _ => exact shown

theorem Navigated.valueShown {result : NativeReturn}
    {ended : EStateM.Result Throwable World Bool} (navigated : Navigated world result ended)
    (shown : world.object.ValueShown accepts platform) :
    (finalState ended).object.ValueShown accepts platform := by
  cases navigated with
  | missing code => exact ⟨shown.writable, shown.buffer, fun own => by cases own⟩
  | found code => exact ⟨shown.writable, shown.buffer, fun own => by cases own⟩
  | failed nonzero present => exact ⟨shown.writable, shown.buffer, shown.view⟩

theorem step_valueShown (event : Event)
    (replaceable : ∀ buffer : ByteBuffer, buffer.limit = buffer.capacity → accepts buffer)
    (grounded : world.object.Grounded) (shown : world.object.ValueShown accepts platform) :
    (event.step platform world).object.ValueShown accepts platform := by
  have navigation {result : NativeReturn} (called : event.nativeReturn world = some result) :
      (event.step platform world).object.ValueShown accepts platform :=
    (Event.navigation_cases platform grounded.live called).valueShown
      (prepared_valueShown event shown)
  cases event with
  | position op native => exact navigation rfl
  | seek op native => exact navigation rfl
  | keyWrite call =>
      rw [Event.step_keyWrite]
      have ended := keyWrite_cases platform call world grounded.keyIndex
      have safe := call.safe_valueShown shown
      generalize (call.perform platform).run world = result at ended
      cases ended with
      | accepted ready_eq payload_eq accepted =>
          subst ready_eq
          exact ⟨safe.writable, safe.buffer, safe.view⟩
      | rejected ready_eq payload_eq rejects leaves =>
          subst ready_eq
          exact safe
  | valWrite call allocated =>
      rw [Event.step_valWrite]
      have ended := valWrite_cases platform allocated call world grounded.valIndex
      generalize (call.perform platform allocated).run world = result at ended
      cases ended with
      | readOnly refused => exact shown
      | noRoom writable => exact shown.safe
      | accepted writable ensured payload_eq accepted =>
          have grown := ensured.valueShown replaceable shown.safe
          exact ⟨grown.writable, grown.buffer, grown.view⟩
      | rejected writable ensured payload_eq rejects leaves =>
          exact ensured.valueShown replaceable shown.safe
  | submit call native =>
      rw [Event.step_submit platform world call native grounded.live]
      exact ⟨shown.writable, shown.buffer, shown.view⟩
  | program change => exact shown

theorem step_valueReady (event : Event) (grounded : world.object.Grounded)
    (ready : world.object.ValueReady platform) :
    (event.step platform world).object.ValueReady platform :=
  BufferCursor.valueReady_iff.mpr (step_valueShown event (fun _ limit => limit) grounded
    (BufferCursor.valueReady_iff.mp ready))

theorem created_valueReady {cursor : Cursor} {maxValueSize : Int}
    {keyBlock valueBlock : Option Int} {before after : Memory} {object : BufferCursor}
    (writable : cursor.isReadOnly = false)
    (created : (newBufferCursor platform cursor maxValueSize keyBlock valueBlock).run before =
      .ok object after) : object.ValueReady platform := by
  obtain ⟨key, value, -, -, representable, made⟩ := newBufferCursor_ok created
  obtain ⟨-, -, rfl⟩ := BufferCursor.create_ok made
  exact ⟨writable, rfl, fun _ => rfl⟩

end Ready

/-- A navigation or a submission, whether it returns or throws. -/
def Event.Settles : Event → Prop
  | position _ _ | seek _ _ | submit _ _ => True
  | _ => False

/-- The call leaves nothing pending on the value side. A navigation that throws does so only where
nothing was pending before. -/
def Event.Clears (platform : Platform) (world : World) (event : Event) : Prop :=
  match event with
  | position _ _ | seek _ _ =>
      (∃ answer, event.reply platform world = .ok answer) ∨ world.object.valWriteIndex = 0
  | submit _ _ => True
  | _ => False

/-- A write that has to grow the value buffer gets a block outside the old one. -/
def Event.Provides (platform : Platform) (world : World) : Event → Prop
  | valWrite call allocated =>
      let object := world.object
      object.valueByteBuffer.capacity < object.valWriteIndex + (call.payload object).length →
      ∀ capacity, call.Requests object capacity → ∃ address, allocated = some address ∧
        Apart address capacity (object.valueByteBuffer.base platform)
          object.valueByteBuffer.capacity
  | _ => True

/-- The value side in the middle of a record. -/
structure RecordBegun (platform : Platform) (world : World) (written : List UInt8) : Prop where
  grounded : world.object.Grounded
  ready : world.object.ValueReady platform
  index : world.object.valWriteIndex = written.length
  room : written.length ≤ world.object.valueByteBuffer.capacity
  begun : written ≠ [] → world.object.valDatbaseMemoryLocation = false
  bytes : read world.memory .native (world.object.valueByteBuffer.base platform)
    written.length = written

theorem prepared_valWriteIndex (world : World) (event : Event) :
    (event.prepared world).object.valWriteIndex = world.object.valWriteIndex := by
  cases event with
  | seek op native =>
      simp only [Event.prepared, seeking, wrapWrittenKey]
      split <;> rfl
  | _ => rfl

/-- A navigation that returns leaves nothing pending, and one that throws leaves what there was. -/
theorem Event.navigated_valWriteIndex {platform : Platform} {world : World} {event : Event}
    {result : NativeReturn} (live : world.object.cursor.self ≠ 0)
    (called : event.nativeReturn world = some result) :
    (∃ answer, event.reply platform world = .ok answer) ∧
        (event.step platform world).object.valWriteIndex = 0 ∨
      (∃ error, event.reply platform world = .error error) ∧
        (event.step platform world).object.valWriteIndex = world.object.valWriteIndex := by
  have ended := Event.navigation_cases platform live called
  have prepared := prepared_valWriteIndex world event
  unfold Event.step Event.reply
  generalize (event.perform platform).run world = ending at ended ⊢
  cases ended with
  | missing code => exact .inl ⟨⟨false, rfl⟩, rfl⟩
  | found code => exact .inl ⟨⟨true, rfl⟩, rfl⟩
  | failed nonzero present => exact .inr ⟨⟨_, rfl⟩, prepared⟩

theorem Event.Settles.clears_iff {platform : Platform} {world : World} {event : Event}
    (settles : event.Settles) (live : world.object.cursor.self ≠ 0) :
    event.Clears platform world ↔ (event.step platform world).object.valWriteIndex = 0 := by
  have navigation {result : NativeReturn} (called : event.nativeReturn world = some result) :
      ((∃ answer, event.reply platform world = .ok answer) ∨ world.object.valWriteIndex = 0) ↔
        (event.step platform world).object.valWriteIndex = 0 := by
    rcases Event.navigated_valWriteIndex live called with ⟨returned, cleared⟩ | ⟨⟨error, thrown⟩, kept⟩
    · exact iff_of_true (.inl returned) cleared
    · rw [kept, thrown]
      simp
  cases event with
  | position op native => exact navigation rfl
  | seek op native => exact navigation rfl
  | submit call native =>
      rw [Event.step_submit platform world call native live]
      exact iff_of_true trivial rfl
  | _ => exact settles.elim

theorem RecordBegun.start {platform : Platform} {world : World} (grounded : world.object.Grounded)
    (ready : world.object.ValueReady platform) (index : world.object.valWriteIndex = 0) :
    RecordBegun platform world [] := by
  have valid := world.object.valueByteBuffer.valid
  refine ⟨grounded, ready, index, ?_, fun some => absurd rfl some, rfl⟩
  simp only [List.length_nil]
  omega

/-- The write index is an `int` after every call. -/
theorem step_valIndex_lower {platform : Platform} {world : World} (event : Event)
    (grounded : world.object.Grounded) (lower : -2147483648 ≤ world.object.valWriteIndex) :
    -2147483648 ≤ (event.step platform world).object.valWriteIndex := by
  have navigation {result : NativeReturn} (called : event.nativeReturn world = some result) :
      -2147483648 ≤ (event.step platform world).object.valWriteIndex := by
    rcases Event.navigated_valWriteIndex grounded.live called with ⟨-, cleared⟩ | ⟨-, kept⟩
    · rw [cleared]
      decide
    · rwa [kept]
  cases event with
  | position op native => exact navigation rfl
  | seek op native => exact navigation rfl
  | keyWrite call =>
      rw [Event.step_keyWrite]
      have ended := keyWrite_cases platform call world grounded.keyIndex
      have safe : (call.safe platform world.object).valWriteIndex = world.object.valWriteIndex := by
        cases call <;> simp [KeyWrite.safe, BufferCursor.setSafeKeyMemoryLocation_eq,
          BufferCursor.setSafeValMemoryLocation_eq]
      generalize (call.perform platform).run world = result at ended
      cases ended with
      | accepted ready_eq payload_eq accepted =>
          subst ready_eq
          exact safe ▸ lower
      | rejected ready_eq payload_eq rejects leaves =>
          subst ready_eq
          exact safe ▸ lower
  | valWrite call allocated =>
      rw [Event.step_valWrite]
      have ended := valWrite_cases platform allocated call world grounded.valIndex
      have safe : (world.safeVal platform).object.valWriteIndex = world.object.valWriteIndex := by
        simp [World.safeVal, BufferCursor.setSafeValMemoryLocation_eq]
      generalize (call.perform platform allocated).run world = result at ended
      cases ended with
      | readOnly refused => exact lower
      | noRoom writable => exact safe ▸ lower
      | accepted writable ensured payload_eq accepted => exact wrap32_lower _
      | rejected writable ensured payload_eq rejects leaves =>
          exact (ensured.valWriteIndex.trans safe) ▸ lower
  | submit call native =>
      rw [Event.step_submit platform world call native grounded.live]
      simp [World.returned, World.submitting]
  | program change => exact lower

/-- The doubling loop finds a capacity for every record of at most a gigabyte. -/
theorem growCapacity_reaches {turns : Nat} {start minimum : Int} (positive : 1 ≤ start)
    (small : minimum ≤ 1073741824) (enough : minimum ≤ start * 2 ^ turns) :
    ∃ grown, growCapacity (turns + 1) start minimum = some grown := by
  induction turns generalizing start with
  | zero =>
      have reached : ¬start < minimum := by omega
      exact ⟨start, by simp [growCapacity, reached]⟩
  | succ turns ih =>
      by_cases below : start < minimum
      · have doubled : wrap32 (start * 2) = start * 2 := wrap32_of_mem (by omega) (by omega)
        have nonzero : start * 2 ≠ 0 := by omega
        rw [Int.pow_succ', ← Int.mul_assoc] at enough
        obtain ⟨grown, found⟩ := ih (by omega) enough
        refine ⟨grown, ?_⟩
        rw [growCapacity, if_pos below, doubled, if_neg nonzero, found]
      · exact ⟨start, by rw [growCapacity, if_neg below]⟩

section Writing

variable {platform : Platform} {world : World} {written : List UInt8} {field : RecordField}
  {allocated : Option Int}

theorem RecordBegun.ensured (begun : RecordBegun platform world written)
    (provides : Event.Provides platform world (.valWrite field.write allocated))
    (small : written.length + field.encode.length ≤ 1073741824) :
    ∃ ready, Ensured platform allocated field.encode.length (world.safeVal platform) ready ∧
      (ensureValueWritableBytes platform allocated field.encode.length).run
        (world.safeVal platform) = .ok () ready ∧
      read ready.memory .native (ready.object.valueByteBuffer.base platform) written.length =
        written := by
  have valid := world.object.valueByteBuffer.valid
  have index := begun.index
  have room := begun.room
  have safeBuffer : (world.safeVal platform).object.valueByteBuffer =
      world.object.valueByteBuffer := by
    simp [World.safeVal, BufferCursor.setSafeValMemoryLocation_eq]
  have safeIndex : (world.safeVal platform).object.valWriteIndex = written.length := by
    simpa [World.safeVal, BufferCursor.setSafeValMemoryLocation_eq] using index
  have difference : wrap32 (world.object.valueByteBuffer.capacity - written.length) =
      world.object.valueByteBuffer.capacity - written.length :=
    wrap32_of_mem (by omega) (by omega)
  have total : wrap32 ((written.length : Int) + field.encode.length) =
      written.length + field.encode.length := wrap32_of_mem (by omega) (by omega)
  simp only [Event.Provides, ValWrite.Requests, field.length_eq, index, total] at provides
  rcases ensure_cases platform allocated field.encode.length (world.safeVal platform) with
    ⟨ready, ensured, run⟩ | ⟨short, missing, error, run⟩
  · refine ⟨ready, ensured, run, ?_⟩
    cases ensured with
    | enough room => rw [safeBuffer]; exact begun.bytes
    | @grown address buffer provided backing limit short larger doubled =>
        rw [safeBuffer, safeIndex, difference] at short
        rw [safeBuffer, safeIndex, total] at doubled
        obtain ⟨block, given, apart⟩ := provides (by omega) _ doubled
        cases provided.symm.trans given
        have kept := @read_grow platform (world.safeVal platform) address buffer
          (by rw [safeBuffer]; exact begun.grounded.valueDirect) backing
          (by rw [safeBuffer]; exact apart) written.length
          (by rw [safeBuffer, begun.ready.limit]; exact room)
        rw [safeBuffer] at kept
        exact kept.trans begun.bytes
  · rw [safeBuffer, safeIndex, difference] at short
    rw [safeBuffer, safeIndex, total] at missing
    obtain ⟨capacity, found⟩ := @growCapacity_reaches 32
      (if world.object.valueByteBuffer.capacity = 0 then 1
        else world.object.valueByteBuffer.capacity)
      (written.length + field.encode.length) (by split <;> omega) (by omega)
      (by split <;> omega)
    obtain ⟨block, given, -⟩ := provides (by omega) capacity found
    rcases missing with none | none
    · rw [found] at none
      cases none
    · rw [given] at none
      cases none

theorem RecordBegun.extend (begun : RecordBegun platform world written)
    (provides : Event.Provides platform world (.valWrite field.write allocated))
    (small : written.length + field.encode.length ≤ 1073741824) :
    ∃ after, (field.write.perform platform allocated).run world = .ok () after ∧
      RecordBegun platform after (written ++ field.encode) := by
  have step := Event.step_valWrite platform world field.write allocated
  have grounded := step_grounded platform (.valWrite field.write allocated) begun.grounded
  have settled := step_valueReady (.valWrite field.write allocated) begun.grounded begun.ready
  obtain ⟨ready, ensured, run, bytes⟩ := begun.ensured provides small
  have readyValue := ensured.valueShown (fun _ limit => limit)
    (BufferCursor.valueReady_iff.mp begun.ready).safe
  have readyIndex : ready.object.valWriteIndex = written.length := by
    rw [ensured.valWriteIndex]
    simpa [World.safeVal, BufferCursor.setSafeValMemoryLocation_eq] using begun.index
  have own : ready.object.valDatbaseMemoryLocation = false := by
    cases ensured <;> simp [World.grow, World.safeVal, BufferCursor.setSafeValMemoryLocation_eq]
  have view := readyValue.view own
  have valid := ready.object.valueByteBuffer.valid
  have room : (written.length : Int) + field.encode.length ≤
      ready.object.valueByteBuffer.capacity := by
    have safeIndex := ensured.valWriteIndex.symm.trans readyIndex
    have reached := ensured.room (by omega) (by omega) (by omega)
    omega
  have accepts : (field.write.payload ready.object).Accepts ready.object.value
      ready.object.valWriteIndex := by
    apply Payload.accepts_of_room (field.whole _)
    · omega
    · rw [view]
      exact valid.2.2.2
    · rw [view, readyIndex, field.size_eq]
      exact room
  have representable : ready.object.valWriteIndex ≤ 2147483647 := by omega
  rcases Payload.put_cases platform (field.write.payload ready.object) ready.object.value
      ready.memory representable with
    ⟨-, put⟩ | ⟨rejects, -⟩
  · have ran : (field.write.perform platform allocated).run world = .ok () { ready with
        memory := (ready.writeVal field.encode).memory
        object := ready.object.advanceVal field.encode.length } := by
      rw [field.write.perform_eq platform allocated world.object, field.length_eq,
        run_putVal platform allocated _ _ begun.ready.writable, run]
      simp only [put, field.stored_eq]
      rfl
    rw [step, ran] at grounded settled
    have region := BufferCursor.region_wrapByteBuffer platform grounded.valueDirect
    refine ⟨_, ran, grounded, settled, ?_, ?_, fun _ => own, ?_⟩
    · simp only [BufferCursor.advanceVal, readyIndex, List.length_append]
      rw [wrap32_of_mem (by omega) (by omega)]
      omega
    · simp only [BufferCursor.advanceVal, List.length_append]
      omega
    · have extended := read_write_extend ready.memory .native
        (ready.object.valueByteBuffer.base platform) written.length field.encode
      rw [bytes] at extended
      simp only [finalState_ok, BufferCursor.advanceVal] at region
      simp only [World.writeVal, BufferCursor.advanceVal, view, region, readyIndex,
        List.length_append]
      exact extended
  · exact absurd accepts rejects

/-- The calls that write a record; each comes with the block the allocator has for it. -/
def writeRecord (platform : Platform) : List (RecordField × Option Int) → Method Unit
  | [] => pure ()
  | (field, allocated) :: rest => do
      field.write.perform platform allocated
      writeRecord platform rest

def RecordField.event (entry : RecordField × Option Int) : Event :=
  .valWrite entry.1.write entry.2

def recordBytes (entries : List (RecordField × Option Int)) : List UInt8 :=
  entries.flatMap fun entry => entry.1.encode

theorem RecordBegun.record {entries : List (RecordField × Option Int)}
    (begun : RecordBegun platform world written)
    (provides : Along (Event.step platform) (Event.Provides platform) world
      (entries.map RecordField.event))
    (small : written.length + (recordBytes entries).length ≤ 1073741824) :
    ∃ after, (writeRecord platform entries).run world = .ok () after ∧
      RecordBegun platform after (written ++ recordBytes entries) := by
  induction entries generalizing world written with
  | nil => exact ⟨world, rfl, by simpa [recordBytes] using begun⟩
  | cons entry rest ih =>
      obtain ⟨field, allocated⟩ := entry
      obtain ⟨first, others⟩ := provides
      change Event.Provides platform world (.valWrite field.write allocated) at first
      simp only [recordBytes, List.flatMap_cons, List.length_append] at small
      obtain ⟨middle, ran, reached⟩ := begun.extend first (by omega)
      have next : Event.step platform world (RecordField.event (field, allocated)) = middle := by
        rw [RecordField.event, Event.step_valWrite, ran, finalState_ok]
      rw [next] at others
      obtain ⟨after, rested, finished⟩ := ih reached others
        (by simp only [recordBytes, List.length_append]; omega)
      refine ⟨after, ?_, by simpa [recordBytes] using finished⟩
      rw [writeRecord, EStateM.run_bind, ran]
      exact rested

theorem RecordBegun.submitted (begun : RecordBegun platform world written)
    (present : written ≠ []) : (world.object.pendingSlots.denote world.memory).2 = written := by
  have index := begun.index
  have length : written.length ≠ 0 := fun empty => present (List.length_eq_zero_iff.mp empty)
  simp only [Slots.denote, BufferCursor.pendingSlots]
  rw [if_pos (by omega), index, begun.ready.view (begun.begun present), Int.toNat_natCast]
  exact begun.bytes

end Writing

section Reading

variable {platform : Platform} {world : World}

/-- The cursor stands on an entry whose value is `bytes`. -/
structure World.Shows (world : World) (address : Int) (bytes : List UInt8) : Prop where
  valid : world.object.validPosition = true
  view : world.object.value = .wrapAddress address bytes.length
  representable : bytes.length ≤ 2147483647
  bytes : read world.memory .native address bytes.length = bytes

theorem shows_navigated {event : Event} {result : NativeReturn} {value : List UInt8}
    (live : world.object.cursor.self ≠ 0) (called : event.nativeReturn world = some result)
    (found : result.rc = 0) (size : result.slots.valSize = value.length)
    (representable : value.length ≤ 2147483647)
    (there : read result.memory .native result.slots.valData value.length = value) :
    (event.step platform world).Shows result.slots.valData value := by
  have ended := Event.navigation_cases platform live called
  unfold Event.step
  generalize (event.perform platform).run world = ending at ended
  cases ended with
  | missing code => exact absurd (found.symm.trans code) (by decide)
  | found code =>
      refine ⟨by simp [BufferCursor.setDatabaseMemoryLocation], ?_, representable, there⟩
      simp only [finalState_ok, BufferCursor.setDatabaseMemoryLocation,
        BufferCursor.wrapBufferAddress, World.returned, size]
      rw [wrap32_natCast representable]
  | failed nonzero present => exact absurd found nonzero

theorem World.Shows.run_value {α : Type} {address : Int} {bytes : List UInt8}
    {body : DirectBuffer → EStateM Throwable Memory α} {answer : α}
    (shows : world.Shows address bytes)
    (ran : (body (.wrapAddress address bytes.length)).run world.memory =
      .ok answer world.memory) :
    (readThrough BufferCursor.value body).run world = .ok answer world := by
  rw [run_readThrough _ _ shows.valid, shows.view]
  exact run_inMemory ran

theorem run_map_ok {σ τ α β : Type} {body : EStateM τ σ α} {state : σ} {answer : α} (read : α → β)
    (ran : body.run state = .ok answer state) :
    (read <$> body).run state = .ok (read answer) state := by
  rw [EStateM.run_map, ran]
  rfl

theorem run_getScalar_encoded {view : DirectBuffer} {pos : Int} {width value : Nat}
    {memory : Memory} (inside : view.InBounds pos width) (bound : value < 256 ^ width)
    (cells : read memory view.region (view.addressOffset + pos) width =
      ByteOrder.bigEndian.encode width value) :
    (view.getScalar platform width pos .bigEndian).run memory = .ok value memory := by
  rw [run_getScalar _ _ _ _ _ _ inside, cells, ByteOrder.decode_encode _ bound]

/-- A field of the value is read back by its accessor at its offset. -/
theorem World.Shows.field {address : Int} {front rest : List UInt8} {field : RecordField}
    (shows : world.Shows address (front ++ field.encode ++ rest)) :
    ((field.accessor front.length).perform platform).run world = .ok field.datum world := by
  have segment := read_segment shows.bytes
  have representable := shows.representable
  simp only [List.length_append] at representable
  have inside : (DirectBuffer.wrapAddress address (front ++ field.encode ++ rest).length).InBounds
      front.length field.encode.length := by
    refine ⟨Int.natCast_nonneg _, Int.natCast_nonneg _, ?_⟩
    rw [wrap32_of_mem (by omega) (by omega)]
    simp only [DirectBuffer.wrapAddress, List.length_append]
    omega
  cases field with
  | boolean data =>
      have answer := run_map_ok (· == 1) (run_getByte _ _ world.memory inside)
      have cell : world.memory .native (address + front.length) = if data then 1 else 0 := by
        simpa [ByteStore.read, RecordField.encode] using segment
      have same : ((if data then 1 else 0 : UInt8) == 1) = data := by
        cases data <;> rfl
      rw [show world.memory (DirectBuffer.wrapAddress address _).region
        ((DirectBuffer.wrapAddress address _).addressOffset + front.length) = _ from cell, same]
        at answer
      exact run_map_ok Datum.boolean (shows.run_value answer)
  | byte data =>
      have answer := run_getByte _ _ world.memory inside
      have cell : world.memory .native (address + front.length) = UInt8.ofNat data.toNat := by
        simpa [ByteStore.read, RecordField.encode] using segment
      rw [show world.memory (DirectBuffer.wrapAddress address _).region
        ((DirectBuffer.wrapAddress address _).addressOffset + front.length) = _ from cell] at answer
      exact run_map_ok Datum.byte (shows.run_value answer)
  | int data =>
      have run := @run_getScalar_encoded platform _ _ 4 data.toNat _ inside data.isLt segment
      have answer := run_map_ok (BitVec.ofNat 32) run
      rw [BitVec.ofNat_toNat, BitVec.setWidth_eq] at answer
      exact run_map_ok Datum.int (shows.run_value answer)
  | long data =>
      have run := @run_getScalar_encoded platform _ _ 8 data.toNat _ inside data.isLt segment
      have answer := run_map_ok (BitVec.ofNat 64) run
      rw [BitVec.ofNat_toNat, BitVec.setWidth_eq] at answer
      exact run_map_ok Datum.long (shows.run_value answer)
  | double data =>
      have run := @run_getScalar_encoded platform _ _ 8 data.toNat _ inside data.isLt segment
      have answer := run_map_ok (BitVec.ofNat 64) run
      rw [BitVec.ofNat_toNat, BitVec.setWidth_eq] at answer
      exact run_map_ok Datum.double (shows.run_value answer)
  | bytes data =>
      have answer := run_getNewBytes
        (.wrapAddress address (front ++ (RecordField.bytes data).encode ++ rest).length)
        front.length world.memory (Int.natCast_nonneg _) data.length_nonneg
        (by simp only [DirectBuffer.wrapAddress, JavaArray.length, RecordField.encode,
              List.length_append]; omega)
        (by simp only [DirectBuffer.wrapAddress, List.length_append]; omega)
      have length : data.length.toNat = data.elements.length := rfl
      rw [length, show read world.memory (DirectBuffer.wrapAddress address _).region
        ((DirectBuffer.wrapAddress address _).addressOffset + front.length)
        data.elements.length = data.elements from segment] at answer
      exact run_map_ok Datum.bytes (shows.run_value answer)

/-- What was stored is read back: on every navigation that delivers an entry with this value,
`valLength` is its length and every field is returned at the sum of the lengths before it. -/
def ReadsBack (platform : Platform) (entries : List (RecordField × Option Int)) : Prop :=
  ∀ (world : World) (event : Event) (result : NativeReturn), world.object.cursor.self ≠ 0 →
    event.nativeReturn world = some result → result.rc = 0 →
    result.slots.valSize = (recordBytes entries).length →
    read result.memory .native result.slots.valData (recordBytes entries).length =
      recordBytes entries →
    let shown := event.step platform world
    valLength shown.object = (recordBytes entries).length ∧
    ∀ front field allocated rest, entries = front ++ (field, allocated) :: rest →
      ((field.accessor (recordBytes front).length).perform platform).run shown =
        .ok field.datum shown

theorem record_reads_back {entries : List (RecordField × Option Int)}
    (representable : (recordBytes entries).length ≤ 2147483647) :
    ReadsBack platform entries := by
  intro world event result live called found size there
  have shows := @shows_navigated platform world event result _ live called found size
    representable there
  constructor
  · simp only [valLength, shows.valid, shows.view, if_true]
    rfl
  · rintro front field allocated rest rfl
    have split : recordBytes (front ++ (field, allocated) :: rest) =
        recordBytes front ++ field.encode ++ recordBytes rest := by
      simp [recordBytes]
    rw [split] at shows
    exact shows.field

end Reading

/-- Every record of 1 to 2^30 bytes written from this state: every write succeeds, `valWriteIndex` is
the length of the record, `overwrite` hands the record to LMDB, and it reads back. -/
def RecordsRoundTrip (platform : Platform) (world : World) : Prop :=
  ∀ (entries : List (RecordField × Option Int)) (native : NativePut),
    Along (Event.step platform) (Event.Provides platform) world (entries.map RecordField.event) →
    1 ≤ (recordBytes entries).length → (recordBytes entries).length ≤ 1073741824 →
    ∃ written, (writeRecord platform entries).run world = .ok () written ∧
      written.object.valWriteIndex = (recordBytes entries).length ∧
      (∃ handed, (Event.step platform written (.submit .overwrite native)).submissions =
        handed :: written.submissions ∧ handed.value = recordBytes entries) ∧
      ReadsBack platform entries

section RoundTrip

variable {platform : Platform} {world : World}

theorem RecordBegun.roundTrips (begun : RecordBegun platform world []) :
    RecordsRoundTrip platform world := by
  intro entries native provides present small
  obtain ⟨written, ran, record⟩ := begun.record provides (by simpa using small)
  rw [List.nil_append] at record
  refine ⟨written, ran, record.index, ?_, record_reads_back (by omega)⟩
  refine ⟨_, congrArg World.submissions
    (Event.step_submit platform written .overwrite native record.grounded.live), ?_⟩
  apply record.submitted
  rintro empty
  simp [empty] at present

/-- Already a record of one byte shows what was pending. -/
theorem RecordsRoundTrip.index (grounded : world.object.Grounded)
    (lower : -2147483648 ≤ world.object.valWriteIndex) (trips : RecordsRoundTrip platform world) :
    world.object.valWriteIndex = 0 := by
  have upper := grounded.valIndex
  let block := world.object.valueByteBuffer.base platform + world.object.valueByteBuffer.capacity
  have provides : Along (Event.step platform) (Event.Provides platform) world
      ([(RecordField.byte 0, some block)].map RecordField.event) :=
    ⟨fun _ _ _ => ⟨block, rfl, .inr (.inr (.inr (Int.le_refl _)))⟩, trivial⟩
  have size : (recordBytes [(.byte 0, some block)]).length = 1 := rfl
  obtain ⟨written, ran, index, -⟩ := trips [(.byte 0, some block)]
    (fun _ slots memory => ⟨0, slots, memory⟩) provides (by omega) (by omega)
  have ended := valWrite_cases platform (some block) (RecordField.byte 0).write world upper
  simp only [writeRecord, EStateM.run_bind] at ran
  generalize ((RecordField.byte 0).write.perform platform (some block)).run world = result
    at ran ended
  cases ended with
  | accepted writable ensured payload_eq accepts =>
      cases ran
      subst payload_eq
      have kept := ensured.valWriteIndex
      simp only [World.safeVal, BufferCursor.setSafeValMemoryLocation_eq] at kept
      simp only [BufferCursor.advanceVal, kept, RecordField.length_eq] at index
      change wrap32 (world.object.valWriteIndex + 1) = 1 at index
      unfold wrap32 at index
      omega
  | _ => cases ran

end RoundTrip

/-- After any run of a writing cursor that ends with a navigation or a submission, records make the
round trip exactly if that call left nothing pending: it was a submission, it returned, or nothing
was pending before it. -/
theorem records_round_trip_iff {platform : Platform} {cursor : Cursor} {maxValueSize : Int}
    {keyBlock valueBlock : Option Int} {before after : Memory} {object : BufferCursor}
    {history : List Event} {last : Event}
    (live : cursor.self ≠ 0) (writable : cursor.isReadOnly = false)
    (created : (newBufferCursor platform cursor maxValueSize keyBlock valueBlock).run before =
      .ok object after)
    (settles : last.Settles) :
    RecordsRoundTrip platform (run (Event.step platform) ⟨after, object, []⟩ (history ++ [last])) ↔
      last.Clears platform (run (Event.step platform) ⟨after, object, []⟩ history) := by
  have reached (events : List Event) :
      (run (Event.step platform) ⟨after, object, []⟩ events).object.Grounded ∧
      (run (Event.step platform) ⟨after, object, []⟩ events).object.ValueReady platform ∧
      -2147483648 ≤ (run (Event.step platform) ⟨after, object, []⟩ events).object.valWriteIndex := by
    have opened := Opened.owned live created
    refine @run_invariant _ _ _ (fun world : World => world.object.Grounded ∧
      world.object.ValueReady platform ∧ -2147483648 ≤ world.object.valWriteIndex) _ _ ?_ ?_
    · refine ⟨opened.grounded, created_valueReady writable created, ?_⟩
      obtain ⟨key, value, -, -, representable, made⟩ := newBufferCursor_ok created
      obtain ⟨-, -, rfl⟩ := BufferCursor.create_ok made
      simp
    · rintro world event ⟨grounded, ready, lower⟩
      exact ⟨step_grounded platform event grounded, step_valueReady event grounded ready,
        step_valIndex_lower event grounded lower⟩
  obtain ⟨grounded, ready, lower⟩ := reached (history ++ [last])
  rw [settles.clears_iff (reached history).1.live]
  have ended : run (Event.step platform) ⟨after, object, []⟩ (history ++ [last]) =
      last.step platform (run (Event.step platform) ⟨after, object, []⟩ history) := by
    rw [run_append]
    rfl
  rw [ended] at grounded ready lower ⊢
  exact ⟨fun trips => trips.index grounded lower,
    fun index => (RecordBegun.start grounded ready index).roundTrips⟩

theorem records_round_trip_after_first :
    RecordsRoundTrip sampleHost (run (Event.step sampleHost) sampleWorld [.position .first foundEntry]) :=
  (@records_round_trip_iff sampleHost ⟨⟨1⟩, ⟨0, 0, 0, 0⟩, false⟩ 16 (some 4096) (some 8192)
    (fun _ _ => 0) sampleWorld.memory sampleWorld.object [] (.position .first foundEntry)
    (by decide) rfl (run_newBufferCursor sampleHost _ 4096 8192 _ (by decide)) trivial).mpr
    (.inl ⟨true, rfl⟩)

def refusedRead : GetOp → NativeGet := fun _ slots memory => ⟨22, slots, memory⟩

/-- `firstDup()` on a cursor that stands nowhere throws `EINVAL` and leaves the pending byte. -/
theorem failed_firstDup_keeps_pending :
    let failed := run (Event.step sampleHost) sampleWorld
      [.valWrite (.byte 9) none, .position .firstDup refusedRead]
    Event.reply sampleHost (run (Event.step sampleHost) sampleWorld [.valWrite (.byte 9) none])
      (.position .firstDup refusedRead) = .error (.lmdbError 22) ∧
    (run (Event.step sampleHost) failed [.valWrite (.byte 1) none,
      .submit .overwrite acceptedPut]).submissions.map Submission.value = [[9, 1]] ∧
    ¬RecordsRoundTrip sampleHost failed := by
  refine ⟨rfl, by decide, fun trips => ?_⟩
  have grounded := run_grounded sampleHost
    [.valWrite (.byte 9) none, .position .firstDup refusedRead] sampleWorld_opened.grounded
  exact absurd (trips.index grounded (by decide)) (by decide)

end LmdbJni
