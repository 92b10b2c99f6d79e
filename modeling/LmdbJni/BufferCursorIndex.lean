import LmdbJni.BufferCursorSteps

/-!
Where the two write indices of a `BufferCursor` can be. `Consistent` ties the views and
indices to the scratch buffers; every call keeps it as long as the call `Fits`. What `Fits`
leaves out are the calls that carry an index past its buffer: the copies from a `byte[]`
into the key, whose bounds check looks at a clamped length, `float` and `double` keys
written through a view of database memory, and totals beyond an `int`.
-/

namespace LmdbJni

open ByteStore Execution Wrapping

namespace BufferCursor

def IndicesInside (object : BufferCursor) : Prop :=
  0 ≤ object.keyWriteIndex ∧ object.keyWriteIndex ≤ object.keyByteBuffer.capacity ∧
  0 ≤ object.valWriteIndex ∧ object.valWriteIndex ≤ object.valueByteBuffer.capacity

instance (object : BufferCursor) : Decidable object.IndicesInside := by
  unfold IndicesInside
  infer_instance

/-- The key view starts at the scratch buffer and does not reach past its end. -/
def KeyViewInside (platform : Platform) (object : BufferCursor) : Prop :=
  object.key.region = .native ∧
  object.key.addressOffset = object.keyByteBuffer.base platform ∧
  0 ≤ object.key.capacity ∧ object.key.capacity ≤ object.keyByteBuffer.capacity

structure Consistent (platform : Platform) (object : BufferCursor) : Prop where
  live : object.cursor.self ≠ 0
  keyDirect : object.keyByteBuffer.isDirect = true
  valueDirect : object.valueByteBuffer.isDirect = true
  indices : object.IndicesInside
  keyView : object.keyDatbaseMemoryLocation = false → object.KeyViewInside platform
  valView : object.valDatbaseMemoryLocation = false →
    object.value = .wrapByteBuffer platform object.valueByteBuffer

theorem create_ok {platform : Platform} {cursor : Cursor} {key value : ByteBuffer}
    {object : BufferCursor}
    (created : create cursor (.wrapByteBuffer platform key) (.wrapByteBuffer platform value) =
      .ok object) :
    key.isDirect = true ∧ value.isDirect = true ∧ object =
      { cursor, keyByteBuffer := key, valueByteBuffer := value, isReadOnly := cursor.isReadOnly
        key := .wrapByteBuffer platform key, value := .wrapByteBuffer platform value
        keyDatbaseMemoryLocation := false, valDatbaseMemoryLocation := false
        keyWriteIndex := 0, valWriteIndex := 0, validPosition := false } := by
  unfold create at created
  simp only [DirectBuffer.wrapByteBuffer] at created
  cases keyDirect : key.isDirect <;> cases valueDirect : value.isDirect <;>
    simp_all [bind, Except.bind, pure, Except.pure, throw, throwThe, MonadExceptOf.throw]
  exact created.symm

theorem region_wrapByteBuffer (platform : Platform) {buffer : ByteBuffer}
    (direct : buffer.isDirect = true) :
    (DirectBuffer.wrapByteBuffer platform buffer).region = .native := by
  cases backing : buffer.backing with
  | direct address => simp [DirectBuffer.region, DirectBuffer.wrapByteBuffer, backing]
  | heap array offset readOnly => simp [ByteBuffer.isDirect, backing] at direct

theorem create_consistent {platform : Platform} {cursor : Cursor} {key value : ByteBuffer}
    {object : BufferCursor} (live : cursor.self ≠ 0)
    (created : create cursor (.wrapByteBuffer platform key) (.wrapByteBuffer platform value) =
      .ok object) :
    object.Consistent platform := by
  obtain ⟨keyDirect, valueDirect, rfl⟩ := create_ok created
  have keyValid := key.valid
  have valueValid := value.valid
  refine ⟨live, keyDirect, valueDirect, ?_, fun _ => ⟨?_, rfl, ?_, le_refl _⟩, fun _ => rfl⟩
  · unfold IndicesInside
    simp only
    omega
  · exact region_wrapByteBuffer platform keyDirect
  · simp only [DirectBuffer.wrapByteBuffer]
    omega

namespace Consistent

variable {platform : Platform} {object : BufferCursor}

theorem safeKey (consistent : object.Consistent platform) :
    (object.setSafeKeyMemoryLocation platform).Consistent platform := by
  have valid := object.keyByteBuffer.valid
  rw [setSafeKeyMemoryLocation_eq]
  refine ⟨consistent.live, consistent.keyDirect, consistent.valueDirect, consistent.indices,
    fun _ => ?_, consistent.valView⟩
  cases database : object.keyDatbaseMemoryLocation with
  | true =>
      refine ⟨region_wrapByteBuffer platform consistent.keyDirect, rfl, ?_, le_refl _⟩
      simp only [if_true, DirectBuffer.wrapByteBuffer]
      omega
  | false => exact consistent.keyView database

theorem safeVal (consistent : object.Consistent platform) :
    (object.setSafeValMemoryLocation platform).Consistent platform := by
  rw [setSafeValMemoryLocation_eq]
  refine ⟨consistent.live, consistent.keyDirect, consistent.valueDirect, consistent.indices,
    consistent.keyView, fun _ => ?_⟩
  cases database : object.valDatbaseMemoryLocation with
  | true => rfl
  | false => exact consistent.valView database

theorem safe (consistent : object.Consistent platform) (call : KeyWrite) :
    (call.safe platform object).Consistent platform := by
  cases call <;> first | exact consistent.safeKey | exact consistent.safeVal

theorem returned {world : World} (consistent : world.object.Consistent platform)
    (result : NativeReturn) : (world.returned result).object.Consistent platform :=
  ⟨consistent.live, consistent.keyDirect, consistent.valueDirect, consistent.indices,
    consistent.keyView, consistent.valView⟩

/-- Views, flags and indices as `setDatabaseMemoryLocation` leaves them need no check. -/
theorem located (consistent : object.Consistent platform) (rc : Int) (key value : DirectBuffer) :
    (setDatabaseMemoryLocation rc { object with key := key, value := value }).Consistent
      platform := by
  have keyValid := object.keyByteBuffer.valid
  have valueValid := object.valueByteBuffer.valid
  refine ⟨consistent.live, consistent.keyDirect, consistent.valueDirect, ?_, ?_, ?_⟩
  · simp only [IndicesInside, setDatabaseMemoryLocation]
    omega
  · exact fun database => absurd database (by simp [setDatabaseMemoryLocation])
  · exact fun database => absurd database (by simp [setDatabaseMemoryLocation])

theorem navigated {world : World} {result : NativeReturn}
    {ended : EStateM.Result Throwable World Bool} (consistent : world.object.Consistent platform)
    (navigation : Navigated world result ended) :
    (finalState ended).object.Consistent platform := by
  have after := consistent.returned result
  cases navigation with
  | missing code => exact after.located mdbNotFound _ _
  | found code => exact after.located 0 _ _
  | failed nonzero present => exact after

theorem seeking (consistent : object.Consistent platform) :
    (LmdbJni.seeking object).Consistent platform := by
  have inside := consistent.indices
  unfold LmdbJni.seeking wrapWrittenKey
  split
  · refine ⟨consistent.live, consistent.keyDirect, consistent.valueDirect, inside,
      fun database => ?_, consistent.valView⟩
    exact ⟨rfl, (consistent.keyView database).2.1, inside.1, inside.2.1⟩
  · exact ⟨consistent.live, consistent.keyDirect, consistent.valueDirect, inside,
      consistent.keyView, consistent.valView⟩

theorem submitting {world : World} (consistent : world.object.Consistent platform) (flags : Int) :
    (world.submitting flags).object.Consistent platform := by
  have keyValid := world.object.keyByteBuffer.valid
  have valueValid := world.object.valueByteBuffer.valid
  refine ⟨consistent.live, consistent.keyDirect, consistent.valueDirect, ?_, consistent.keyView,
    consistent.valView⟩
  simp only [IndicesInside, World.submitting]
  omega

end Consistent

end BufferCursor

/-- The key buffer has 511 bytes. -/
theorem keyBuffer_representable : (0 : Int) ≤ 511 ∧ (511 : Int) ≤ 2147483647 := by
  omega

theorem newBufferCursor_ok {platform : Platform} {cursor : Cursor} {maxValueSize : Int}
    {keyBlock valueBlock : Option Int} {before after : Memory} {object : BufferCursor}
    (created : (newBufferCursor platform cursor maxValueSize keyBlock valueBlock).run before =
      .ok object after) :
    ∃ keyAddress valueAddress, keyBlock = some keyAddress ∧ valueBlock = some valueAddress ∧
      ∃ representable : 0 ≤ maxValueSize ∧ maxValueSize ≤ 2147483647,
      BufferCursor.create cursor
        (.wrapByteBuffer platform
          ⟨.direct keyAddress, 0, 511, 511, ByteBuffer.fresh_valid keyBuffer_representable⟩)
        (.wrapByteBuffer platform ⟨.direct valueAddress, 0, maxValueSize, maxValueSize,
          ByteBuffer.fresh_valid representable⟩) =
        .ok object := by
  unfold newBufferCursor at created
  obtain ⟨key, middle, keyMade, rest⟩ := run_bind_ok created
  obtain ⟨value, last, valueMade, finished⟩ := run_bind_ok rest
  obtain ⟨keyAddress, rfl, _, rfl, -⟩ := ByteBuffer.allocateDirect_ok keyMade
  obtain ⟨valueAddress, rfl, representable, rfl, -⟩ := ByteBuffer.allocateDirect_ok valueMade
  refine ⟨keyAddress, valueAddress, rfl, rfl, representable, ?_⟩
  split at finished
  · rename_i made equation
    cases finished
    exact equation
  · cases finished

/-- The state after `bufferCursor(tx, maxValueSize)`, from the two blocks it is given. -/
def World.fresh (platform : Platform) (cursor : Cursor) (maxValueSize : Int)
    (keyAddress valueAddress : Int) (memory : Memory)
    (representable : 0 ≤ maxValueSize ∧ maxValueSize ≤ 2147483647) : World where
  memory := write (write memory .native keyAddress (List.replicate 511 0)) .native valueAddress
    (List.replicate maxValueSize.toNat 0)
  object :=
    let keyByteBuffer :=
      ⟨.direct keyAddress, 0, 511, 511, ByteBuffer.fresh_valid keyBuffer_representable⟩
    let valueByteBuffer :=
      ⟨.direct valueAddress, 0, maxValueSize, maxValueSize, ByteBuffer.fresh_valid representable⟩
    { cursor, keyByteBuffer, valueByteBuffer, isReadOnly := cursor.isReadOnly
      key := .wrapByteBuffer platform keyByteBuffer
      value := .wrapByteBuffer platform valueByteBuffer
      keyDatbaseMemoryLocation := false, valDatbaseMemoryLocation := false
      keyWriteIndex := 0, valWriteIndex := 0, validPosition := false }
  submissions := []

theorem run_newBufferCursor (platform : Platform) (cursor : Cursor) {maxValueSize : Int}
    (keyAddress valueAddress : Int) (memory : Memory)
    (representable : 0 ≤ maxValueSize ∧ maxValueSize ≤ 2147483647) :
    let world := World.fresh platform cursor maxValueSize keyAddress valueAddress memory
      representable
    (newBufferCursor platform cursor maxValueSize (some keyAddress) (some valueAddress)).run memory =
      .ok world.object world.memory := by
  unfold newBufferCursor
  rw [EStateM.run_bind, ByteBuffer.run_allocateDirect keyAddress (by omega)]
  simp only
  rw [EStateM.run_bind, ByteBuffer.run_allocateDirect valueAddress representable]
  rfl

theorem World.fresh_opened (platform : Platform) {cursor : Cursor} {maxValueSize : Int}
    (keyAddress valueAddress : Int) (memory : Memory)
    (representable : 0 ≤ maxValueSize ∧ maxValueSize ≤ 2147483647) (live : cursor.self ≠ 0) :
    Opened platform
      (World.fresh platform cursor maxValueSize keyAddress valueAddress memory representable) :=
  .owned live (run_newBufferCursor platform cursor keyAddress valueAddress memory representable)

def sampleHost : Platform := ⟨.littleEndian, 16⟩

def sampleWorld : World :=
  .fresh sampleHost ⟨⟨1⟩, ⟨0, 0, 0, 0⟩, false⟩ 16 4096 8192 (fun _ _ => 0) (by decide)

def foundEntry : GetOp → NativeGet := fun _ _ memory => ⟨0, ⟨8, 100000, 1, 200000⟩, memory⟩

theorem sampleWorld_opened : Opened sampleHost sampleWorld :=
  World.fresh_opened sampleHost 4096 8192 _ (by decide) (by decide)

theorem Opened.consistent {platform : Platform} {world : World} (opened : Opened platform world) :
    world.object.Consistent platform := by
  cases opened with
  | owned live created =>
      obtain ⟨keyAddress, valueAddress, -, -, representable, made⟩ := newBufferCursor_ok created
      exact BufferCursor.create_consistent live made
  | passed live created => exact BufferCursor.create_consistent live created

theorem Opened.grounded {platform : Platform} {world : World} (opened : Opened platform world) :
    world.object.Grounded := by
  have consistent := opened.consistent
  have keyValid := world.object.keyByteBuffer.valid
  have valueValid := world.object.valueByteBuffer.valid
  obtain ⟨-, keyUpper, -, valUpper⟩ := consistent.indices
  exact ⟨consistent.live, consistent.valueDirect, by omega, by omega⟩

/-- A key write that cannot carry the index past the buffer. The bounds check of the copies from
a `byte[]` is made on a clamped length, that of `float` and `double` on a view that may show
database memory. -/
def KeyWrite.Fits (platform : Platform) (object : BufferCursor) (call : KeyWrite) : Prop :=
  let index := object.keyWriteIndex
  let size := (call.payload object).size
  let view := (call.safe platform object).key
  match call with
  | bytes _ => index + size ≤ object.keyByteBuffer.capacity ∨ view.capacity < index
  | slice _ _ _ => index + size ≤ object.keyByteBuffer.capacity ∨ view.capacity < index
  | float _ => index + size ≤ 2147483647 ∧
      (index + size ≤ object.keyByteBuffer.capacity ∨ view.capacity < index + size)
  | double _ => index + size ≤ 2147483647 ∧
      (index + size ≤ object.keyByteBuffer.capacity ∨ view.capacity < index + size)
  | _ => index + size ≤ 2147483647

def ValWrite.Fits (object : BufferCursor) (call : ValWrite) : Prop :=
  object.isReadOnly = true ∨ object.valWriteIndex + (call.payload object).size ≤ 2147483647

def Event.Fits (platform : Platform) (world : World) : Event → Prop
  | keyWrite call => call.Fits platform world.object
  | valWrite call _ => call.Fits world.object
  | _ => True

theorem clamp_rejects {target : DirectBuffer} {index length available : Int}
    (lower : 0 ≤ target.capacity) (behind : target.capacity < index)
    (representable : index ≤ 2147483647) :
    ¬target.InBounds index (target.clamp index length available) := by
  rintro ⟨-, positive, -⟩
  simp only [DirectBuffer.clamp] at positive
  rw [wrap32_of_mem (by omega) (by omega)] at positive
  omega

theorem KeyWrite.size_payload (call : KeyWrite) (first second : BufferCursor) :
    (call.payload first).size = (call.payload second).size := by
  cases call <;> rfl

theorem ValWrite.size_payload (call : ValWrite) (first second : BufferCursor) :
    (call.payload first).size = (call.payload second).size := by
  cases call <;> rfl

theorem KeyWrite.safe_keyByteBuffer (platform : Platform) (call : KeyWrite)
    (object : BufferCursor) : (call.safe platform object).keyByteBuffer = object.keyByteBuffer := by
  cases call <;> simp [KeyWrite.safe, BufferCursor.setSafeKeyMemoryLocation_eq,
    BufferCursor.setSafeValMemoryLocation_eq]

/-- An accepted key write that fits ends inside the buffer. -/
theorem keyWrite_inside {platform : Platform} {object : BufferCursor} {call : KeyWrite}
    (consistent : object.Consistent platform) (fits : call.Fits platform object)
    (accepts : (call.payload (call.safe platform object)).Accepts (call.safe platform object).key
      object.keyWriteIndex) :
    object.keyWriteIndex + (call.payload object).size ≤ object.keyByteBuffer.capacity := by
  obtain ⟨lower, upper, -⟩ := consistent.indices
  have valid := object.keyByteBuffer.valid
  have view := consistent.safeKey.keyView (by simp [BufferCursor.setSafeKeyMemoryLocation_eq])
  have buffer := KeyWrite.safe_keyByteBuffer platform (.boolean true) object
  obtain ⟨-, -, nonneg, bounded⟩ := view
  rw [show (object.setSafeKeyMemoryLocation platform).keyByteBuffer = object.keyByteBuffer from
    buffer] at bounded
  cases call with
  | bytes data =>
      rcases fits with inside | behind
      · exact inside
      · exact absurd accepts (clamp_rejects nonneg behind (by omega))
  | slice data offset length =>
      rcases fits with inside | behind
      · exact inside
      · exact absurd accepts (clamp_rejects nonneg behind (by omega))
  | float data =>
      obtain ⟨representable, inside | behind⟩ := fits
      · exact inside
      · exact absurd (Payload.accepts_inside accepts trivial representable) (not_le.mpr behind)
  | double data =>
      obtain ⟨representable, inside | behind⟩ := fits
      · exact inside
      · exact absurd (Payload.accepts_inside accepts trivial representable) (not_le.mpr behind)
  | _ => exact (Payload.accepts_inside accepts trivial fits).trans bounded

theorem keyWrite_consistent {platform : Platform} {world : World} {call : KeyWrite}
    (consistent : world.object.Consistent platform) (fits : call.Fits platform world.object) :
    (finalState ((call.perform platform).run world)).object.Consistent platform := by
  have valid := world.object.keyByteBuffer.valid
  have safe := consistent.safe call
  obtain ⟨lower, upper, valIndex⟩ := consistent.indices
  have ended := keyWrite_cases platform call world (by omega)
  generalize (call.perform platform).run world = result at ended
  cases ended with
  | accepted ready_eq payload_eq accepts =>
      subst ready_eq payload_eq
      simp only [KeyWrite.ready, KeyWrite.safe_keyWriteIndex] at accepts
      have inside := keyWrite_inside consistent fits accepts
      have positive := Payload.size_nonneg accepts
      have size_eq := call.size_payload (call.safe platform world.object) world.object
      have advanced : wrap32 ((call.safe platform world.object).keyWriteIndex +
          (call.payload (call.safe platform world.object)).length) =
          world.object.keyWriteIndex + (call.payload world.object).size := by
        rw [KeyWrite.safe_keyWriteIndex, Payload.length_eq_size (by omega), size_eq]
        exact wrap32_of_mem (by omega) (by omega)
      refine ⟨safe.live, safe.keyDirect, safe.valueDirect, ?_, safe.keyView, safe.valView⟩
      simp only [finalState_ok, BufferCursor.IndicesInside, BufferCursor.advanceKey,
        KeyWrite.ready, advanced, KeyWrite.safe_keyByteBuffer]
      exact ⟨by omega, inside, safe.indices.2.2⟩
  | rejected ready_eq payload_eq rejects leaves =>
      subst ready_eq
      exact safe

theorem Ensured.room {platform : Platform} {allocated : Option Int} {length : Int}
    {world ready : World} (ensured : Ensured platform allocated length world ready)
    (lower : 0 ≤ world.object.valWriteIndex) (upper : world.object.valWriteIndex ≤ 2147483647)
    (representable : world.object.valWriteIndex + length ≤ 2147483647) :
    world.object.valWriteIndex + length ≤ ready.object.valueByteBuffer.capacity := by
  have valid := world.object.valueByteBuffer.valid
  cases ensured with
  | enough room =>
      rw [wrap32_of_mem (by omega) (by omega)] at room
      omega
  | grown provided backing limit short larger doubled =>
      obtain ⟨reached, -, -⟩ := growCapacity_bounds doubled (by split <;> omega)
      by_cases negative : world.object.valWriteIndex + length < -2147483648
      · simp only [World.grow]
        omega
      · rwa [wrap32_of_mem (by omega) (by omega)] at reached

/-- After `ensureValueWritableBytes` the value view is the whole buffer. -/
theorem Ensured.consistent {platform : Platform} {allocated : Option Int} {length : Int}
    {world ready : World} (ensured : Ensured platform allocated length world ready)
    (consistent : world.object.Consistent platform) : ready.object.Consistent platform := by
  obtain ⟨keyLower, keyUpper, lower, upper⟩ := consistent.indices
  cases ensured with
  | enough room => exact consistent
  | grown provided backing limit short larger doubled =>
      refine ⟨consistent.live, consistent.keyDirect, ?_, ?_, consistent.keyView, fun _ => rfl⟩
      · simp [World.grow, ByteBuffer.isDirect, backing]
      · exact ⟨keyLower, keyUpper, lower, upper.trans larger⟩

/-- What holds when a value write that fits calls its put. -/
structure ValWrite.Ready (platform : Platform) (call : ValWrite) (world ready : World) : Prop where
  consistent : ready.object.Consistent platform
  safe : ready.object.valDatbaseMemoryLocation = false
  index : ready.object.valWriteIndex = world.object.valWriteIndex
  length : (call.payload ready.object).length = (call.payload world.object).size
  room : world.object.valWriteIndex + (call.payload world.object).size ≤
    ready.object.valueByteBuffer.capacity
  key : ready.object.key = world.object.key
  keyIndex : ready.object.keyWriteIndex = world.object.keyWriteIndex
  keyByteBuffer : ready.object.keyByteBuffer = world.object.keyByteBuffer
  keyLocation : ready.object.keyDatbaseMemoryLocation = world.object.keyDatbaseMemoryLocation

theorem Ensured.ready {platform : Platform} {allocated : Option Int} {call : ValWrite}
    {world ready : World}
    (ensured : Ensured platform allocated (call.payload ready.object).length
      (world.safeVal platform) ready)
    (consistent : world.object.Consistent platform) (fits : call.Fits world.object)
    (writable : world.object.isReadOnly = false) : call.Ready platform world ready := by
  have representable := fits.resolve_left (by simp [writable])
  have valid := world.object.valueByteBuffer.valid
  obtain ⟨-, -, lower, upper⟩ := consistent.indices
  have index : (world.safeVal platform).object.valWriteIndex = world.object.valWriteIndex := by
    simp [World.safeVal, BufferCursor.setSafeValMemoryLocation_eq]
  have length_eq : (call.payload ready.object).length = (call.payload world.object).size := by
    have size_eq := call.size_payload ready.object world.object
    rw [Payload.length_eq_size (by omega), size_eq]
  have settled := ensured.consistent consistent.safeVal
  have room := ensured.room (by omega) (by omega) (by rwa [length_eq, index])
  rw [length_eq, index] at room
  refine ⟨settled, ?_, ensured.valWriteIndex.trans index, length_eq, room, ?_, ?_, ?_, ?_⟩ <;>
    cases ensured <;>
      simp [World.grow, World.safeVal, BufferCursor.setSafeValMemoryLocation_eq]

theorem valWrite_consistent {platform : Platform} {world : World} {call : ValWrite}
    {allocated : Option Int} (consistent : world.object.Consistent platform)
    (fits : call.Fits world.object) :
    (finalState ((call.perform platform allocated).run world)).object.Consistent platform := by
  have valid := world.object.valueByteBuffer.valid
  obtain ⟨-, -, lower, upper⟩ := consistent.indices
  have ended := valWrite_cases platform allocated call world (by omega)
  generalize (call.perform platform allocated).run world = result at ended
  cases ended with
  | readOnly refused => exact consistent
  | noRoom writable => exact consistent.safeVal
  | @accepted ready payload writable ensured payload_eq accepts =>
      subst payload_eq
      have state := ensured.ready consistent fits writable
      have bounded := ready.object.valueByteBuffer.valid
      have room := state.room
      have positive := Payload.size_nonneg accepts
      rw [call.size_payload ready.object world.object] at positive
      obtain ⟨keyLower, keyUpper, -, -⟩ := state.consistent.indices
      refine ⟨state.consistent.live, state.consistent.keyDirect, state.consistent.valueDirect, ?_,
        state.consistent.keyView, state.consistent.valView⟩
      have advanced : wrap32 (ready.object.valWriteIndex + (call.payload ready.object).length) =
          world.object.valWriteIndex + (call.payload world.object).size := by
        rw [state.length, state.index]
        exact wrap32_of_mem (by omega) (by omega)
      simp only [finalState_ok, BufferCursor.IndicesInside, BufferCursor.advanceVal, advanced]
      exact ⟨keyLower, keyUpper, by omega, room⟩
  | @rejected ready payload leftover message writable ensured payload_eq rejects leaves =>
      subst payload_eq
      exact (ensured.ready consistent fits writable).consistent

/-- Every call that fits keeps the cursor consistent, whether it returns or throws. -/
theorem step_consistent {platform : Platform} {world : World} {event : Event}
    (consistent : world.object.Consistent platform) (fits : event.Fits platform world) :
    (event.step platform world).object.Consistent platform := by
  have navigation {result : NativeReturn} (called : event.nativeReturn world = some result)
      (ready : (event.prepared world).object.Consistent platform) :
      (event.step platform world).object.Consistent platform :=
    ready.navigated (Event.navigation_cases platform consistent.live called)
  cases event with
  | position op native => exact navigation rfl consistent
  | seek op native => exact navigation rfl consistent.seeking
  | keyWrite call =>
      rw [Event.step_keyWrite]
      exact keyWrite_consistent consistent fits
  | valWrite call allocated =>
      rw [Event.step_valWrite]
      exact valWrite_consistent consistent fits
  | submit call native =>
      rw [Event.step_submit platform world call native consistent.live]
      exact (consistent.submitting call.flags).returned _
  | program change => exact consistent

theorem run_consistent {platform : Platform} {world : World} {events : List Event}
    (opened : Opened platform world)
    (fits : Along (Event.step platform) (Event.Fits platform) world events) :
    (run (Event.step platform) world events).object.Consistent platform :=
  fits.invariant opened.consistent fun _ _ consistent allowed => step_consistent consistent allowed

theorem keyWrite_throws {platform : Platform} {world : World} {call : KeyWrite}
    (consistent : world.object.Consistent platform) (fits : call.Fits platform world.object)
    (past : world.object.keyByteBuffer.capacity <
      world.object.keyWriteIndex + (call.payload world.object).size) :
    (∃ error, Event.reply platform world (.keyWrite call) = .error error) ∧
      (Event.step platform world (.keyWrite call)).object.keyWriteIndex =
        world.object.keyWriteIndex := by
  have valid := world.object.keyByteBuffer.valid
  obtain ⟨lower, upper, -⟩ := consistent.indices
  rw [Event.reply_keyWrite, Event.step_keyWrite]
  have ended := keyWrite_cases platform call world (by omega)
  generalize (call.perform platform).run world = result at ended
  cases ended with
  | accepted ready_eq payload_eq accepts =>
      subst ready_eq payload_eq
      simp only [KeyWrite.ready, KeyWrite.safe_keyWriteIndex] at accepts
      exact absurd (keyWrite_inside consistent fits accepts) (by omega)
  | @rejected ready payload leftover message ready_eq payload_eq rejects leaves =>
      subst ready_eq
      exact ⟨⟨.indexOutOfBounds message, rfl⟩, call.safe_keyWriteIndex platform world.object⟩

/-- In every run of calls that fit, both indices stay inside their buffers, and a key write that
would pass the capacity throws and leaves the index where it was. -/
theorem indices_stay_inside {platform : Platform} {world : World} {events : List Event}
    (opened : Opened platform world)
    (fits : Along (Event.step platform) (Event.Fits platform) world events) :
    let reached := run (Event.step platform) world events
    reached.object.IndicesInside ∧
    ∀ call : KeyWrite, call.Fits platform reached.object →
      reached.object.keyByteBuffer.capacity <
        reached.object.keyWriteIndex + (call.payload reached.object).size →
      (∃ error, Event.reply platform reached (.keyWrite call) = .error error) ∧
      (Event.step platform reached (.keyWrite call)).object.keyWriteIndex =
        reached.object.keyWriteIndex :=
  have consistent := run_consistent opened fits
  ⟨consistent.indices, fun _ allowed past => keyWrite_throws consistent allowed past⟩

def zeros (count : Nat) (bounded : count ≤ 2147483647) : JavaArray :=
  ⟨List.replicate count 0, fun _ => 0, by simpa using bounded⟩

theorem indices_stay_inside_after_two_writes :
    (run (Event.step sampleHost) sampleWorld
      [.keyWrite (.bytes (zeros 3 (by decide))), .valWrite (.int 7) none]).object.IndicesInside := by
  refine (@indices_stay_inside sampleHost sampleWorld
    [.keyWrite (.bytes (zeros 3 (by decide))), .valWrite (.int 7) none] sampleWorld_opened ?_).1
  exact ⟨.inl (by decide), .inr (by decide), trivial⟩

/-- 600 bytes go into a key buffer of 511 without an exception. -/
theorem keyWriteBytes_passes_capacity :
    Opened sampleHost sampleWorld ∧
    Event.reply sampleHost sampleWorld (.keyWrite (.bytes (zeros 600 (by decide)))) = .ok true ∧
    ¬(Event.step sampleHost sampleWorld
      (.keyWrite (.bytes (zeros 600 (by decide))))).object.IndicesInside :=
  ⟨sampleWorld_opened, by decide +kernel, by decide +kernel⟩

end LmdbJni
