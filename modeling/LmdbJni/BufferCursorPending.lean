import LmdbJni.BufferCursorFrame

/-!
What a `BufferCursor` hands to LMDB. `Pending` is the specification: the bytes written on
each side since the last navigation or submission, and the entry the last navigation
delivered. A submission is `Faithful` if every side that has a specified content is handed
over with it.

`Undisturbed` is what the surroundings of the cursor guarantee, `Sound` the condition on the
calls themselves. It leaves out submissions of a side whose writes were all empty (index 0
stands for "nothing written"), `float` and `double` keys written while a view shows database
memory, `float`s whose spill leaves the buffer, slices outside their array, a view of the
cursor passed as the source of a write on its own side while it is re-wrapped, and sizes
beyond an `int`.
-/

namespace LmdbJni

open ByteStore Execution Wrapping

structure Pending where
  key : Option (List UInt8)
  value : Option (List UInt8)
  entry : Option (List UInt8 × List UInt8)

namespace Pending

def empty : Pending := ⟨none, none, none⟩

def expectedKey (pending : Pending) : Option (List UInt8) :=
  pending.key <|> pending.entry.map Prod.fst

def expectedValue (pending : Pending) : Option (List UInt8) :=
  pending.value <|> pending.entry.map Prod.snd

end Pending

/-- The bytes a write call asks for: big-endian scalars, strings with their terminator, the
addressed part of an array or buffer. -/
def Payload.encoding (memory : Memory) : Payload → List UInt8
  | slice data offset length => (data.elements.drop offset.toNat).take length.toNat
  | payload => payload.stored memory

def Event.pend (platform : Platform) (world : World) (pending : Pending) (event : Event) :
    Pending :=
  let after := event.step platform world
  match event with
  | position _ _ | seek _ _ =>
      if returnsTrue (event.reply platform world) then
        { Pending.empty with entry := some (after.object.cursor.slots.denote after.memory) }
      else .empty
  | keyWrite call =>
      { pending with
        key := some (pending.key.getD [] ++ (call.payload world.object).encoding world.memory) }
  | valWrite call _ =>
      { pending with
        value := some (pending.value.getD [] ++ (call.payload world.object).encoding world.memory) }
  | submit _ _ => .empty
  | program _ => pending

def Event.trackPending (platform : Platform) (state : World × Pending) (event : Event) :
    World × Pending :=
  (event.step platform state.1, event.pend platform state.1 state.2)

/-- A submission hands over what is specified for each side. -/
def Event.Faithful (platform : Platform) (state : World × Pending) (event : Event) : Prop :=
  match event with
  | submit call _ => ∃ handed, (event.step platform state.1).submissions =
        handed :: state.1.submissions ∧ handed.flags = call.flags ∧
      (∀ bytes, state.2.expectedKey = some bytes → handed.key = bytes) ∧
      (∀ bytes, state.2.expectedValue = some bytes → handed.value = bytes)
  | _ => True

/-- A block the allocator can hand out for the new value buffer: nothing in use overlaps it. -/
structure FreshBlock (platform : Platform) (object : BufferCursor) (address capacity : Int) :
    Prop where
  keyBuffer : Apart address capacity (object.keyByteBuffer.base platform)
    object.keyByteBuffer.capacity
  valueBuffer : Apart address capacity (object.valueByteBuffer.base platform)
    object.valueByteBuffer.capacity
  keyView : Apart address capacity object.key.addressOffset object.key.capacity

/-- The part of memory a write call reads its bytes from lies outside the block. -/
def Payload.ReadsOutside (address capacity : Int) : Payload → Prop
  | buffer source sourceIndex length => source.region = .native →
      Apart address capacity (source.addressOffset + sourceIndex) length
  | _ => True

/-- The capacity the doubling loop asks for. -/
def ValWrite.Requests (object : BufferCursor) (call : ValWrite) (capacity : Int) : Prop :=
  growCapacity 33
    (if object.valueByteBuffer.capacity = 0 then 1 else object.valueByteBuffer.capacity)
    (wrap32 (object.valWriteIndex + (call.payload object).length)) = some capacity

/-- What the surroundings guarantee: no call throws, LMDB delivers entries outside the scratch
buffers, new blocks are fresh, other code leaves the buffers and the entry alone. -/
def Event.Undisturbed (platform : Platform) (world : World) (event : Event) : Prop :=
  let object := world.object
  (∃ answer, event.reply platform world = .ok answer) ∧
  (∀ result, event.nativeReturn world = some result → result.rc = 0 →
    Apart result.slots.valData result.slots.valSize (object.keyByteBuffer.base platform)
      object.keyByteBuffer.capacity ∧
    Apart result.slots.keyData result.slots.keySize (object.valueByteBuffer.base platform)
      object.valueByteBuffer.capacity) ∧
  match event with
  | valWrite call (some address) => ∀ capacity, call.Requests object capacity →
      FreshBlock platform object address capacity ∧
      (call.payload object).ReadsOutside address capacity
  | program change =>
      SameOn .native (object.keyByteBuffer.base platform) object.keyByteBuffer.capacity
        world.memory (change world.memory) ∧
      SameOn .native (object.valueByteBuffer.base platform) object.valueByteBuffer.capacity
        world.memory (change world.memory) ∧
      SameOn .native object.key.addressOffset object.key.capacity world.memory
        (change world.memory) ∧
      SameOn .native object.value.addressOffset object.value.capacity world.memory
        (change world.memory)
  | _ => True

def KeyWrite.Sound (platform : Platform) (object : BufferCursor) : KeyWrite → Prop
  | float data => object.valDatbaseMemoryLocation = false ∧ object.KeyViewInside platform ∧
      object.keyWriteIndex + 4 + ((Payload.float data).spill platform).length ≤
        object.keyByteBuffer.capacity
  | double _ => object.valDatbaseMemoryLocation = false ∧ object.KeyViewInside platform
  | slice data offset length => 0 ≤ offset ∧ offset + length ≤ data.length
  | buffer .ownKey _ => object.keyDatbaseMemoryLocation = false
  | _ => True

def ValWrite.Sound (platform : Platform) (object : BufferCursor) (call : ValWrite) : Prop :=
  object.valWriteIndex + (call.payload object).size ≤ 2147483647 ∧
  match call with
  | float _ => platform.nativeByteOrder = .bigEndian ∨
      SpillRoom object.valueByteBuffer.capacity object.valWriteIndex
  | slice data offset length => 0 ≤ offset ∧ offset + length ≤ data.length
  | buffer .ownValue _ length => object.valDatbaseMemoryLocation = false ∧
      object.valWriteIndex + length ≤ object.valueByteBuffer.capacity
  | _ => True

def Event.Sound (platform : Platform) (state : World × Pending) : Event → Prop
  | keyWrite call => call.Sound platform state.1.object
  | valWrite call _ => call.Sound platform state.1.object
  | submit _ _ => state.2.key ≠ some [] ∧ state.2.value ≠ some []
  | event => ∀ result, event.nativeReturn state.1 = some result → result.rc = 0 →
      0 ≤ result.slots.keySize ∧ result.slots.keySize ≤ 2147483647 ∧
      0 ≤ result.slots.valSize ∧ result.slots.valSize ≤ 2147483647

/-- The limit every key keeps. -/
def Event.KeyTotal (world : World) : Event → Prop
  | keyWrite call => world.object.keyWriteIndex + (call.payload world.object).size ≤ 511
  | _ => True

/-- The two scratch buffers of a cursor that owns them. -/
structure Placed (platform : Platform) (object : BufferCursor) : Prop where
  consistent : object.Consistent platform
  keyCapacity : object.keyByteBuffer.capacity = 511
  limit : object.valueByteBuffer.limit = object.valueByteBuffer.capacity
  scratch : Apart (object.keyByteBuffer.base platform) object.keyByteBuffer.capacity
    (object.valueByteBuffer.base platform) object.valueByteBuffer.capacity

/-- The key scratch buffer holds what was written, or the key view shows what was delivered. -/
structure KeySide (platform : Platform) (world : World) (written delivered : Option (List UInt8)) :
    Prop where
  index : world.object.keyWriteIndex = (written.getD []).length
  view : written ≠ none → world.object.KeyViewInside platform
  bytes : read world.memory .native (world.object.keyByteBuffer.base platform)
    (written.getD []).length = written.getD []
  entry : written = none → ∀ key, delivered = some key →
    read world.memory .native world.object.key.addressOffset world.object.key.capacity.toNat =
      key ∧
    Apart (world.object.valueByteBuffer.base platform) world.object.valueByteBuffer.capacity
      world.object.key.addressOffset world.object.key.capacity

structure ValSide (platform : Platform) (world : World) (written delivered : Option (List UInt8)) :
    Prop where
  index : world.object.valWriteIndex = (written.getD []).length
  view : written ≠ none → world.object.valDatbaseMemoryLocation = false
  bytes : read world.memory .native (world.object.valueByteBuffer.base platform)
    (written.getD []).length = written.getD []
  entry : written = none → ∀ value, delivered = some value →
    read world.memory .native world.object.value.addressOffset
      world.object.value.capacity.toNat = value ∧
    Apart (world.object.keyByteBuffer.base platform) world.object.keyByteBuffer.capacity
      world.object.value.addressOffset world.object.value.capacity

/-- The cursor holds what is pending. -/
structure Holds (platform : Platform) (world : World) (pending : Pending) : Prop where
  placed : Placed platform world.object
  key : KeySide platform world pending.key (pending.entry.map Prod.fst)
  value : ValSide platform world pending.value (pending.entry.map Prod.snd)

/-- A change inside the key scratch buffer leaves the value side alone. -/
theorem ValSide.keep {platform : Platform} {world after : World}
    {written delivered : Option (List UInt8)} (side : ValSide platform world written delivered)
    (placed : Placed platform world.object)
    (only : OnlyWithin .native (world.object.keyByteBuffer.base platform)
      world.object.keyByteBuffer.capacity world.memory after.memory)
    (keyBuffer : after.object.keyByteBuffer = world.object.keyByteBuffer)
    (valueBuffer : after.object.valueByteBuffer = world.object.valueByteBuffer)
    (value : after.object.value = world.object.value)
    (location : after.object.valDatbaseMemoryLocation = world.object.valDatbaseMemoryLocation)
    (index : after.object.valWriteIndex = world.object.valWriteIndex) :
    ValSide platform after written delivered := by
  obtain ⟨-, -, -, upper⟩ := placed.consistent.indices
  have short := side.index
  refine ⟨index.trans side.index, fun some => location.trans (side.view some), ?_, ?_⟩
  · rw [valueBuffer, read_congr (only.sameOn (placed.scratch.shrink (by omega)))]
    exact side.bytes
  · intro none bytes found
    obtain ⟨shown, apart⟩ := side.entry none bytes found
    rw [value, keyBuffer, read_congr (only.sameOn apart.natural)]
    exact ⟨shown, apart⟩

/-- A change inside the value scratch buffer, possibly a new one, leaves the key side alone. -/
theorem KeySide.keep {platform : Platform} {world after : World}
    {written delivered : Option (List UInt8)} (side : KeySide platform world written delivered)
    (consistent : world.object.Consistent platform)
    (only : OnlyWithin .native (after.object.valueByteBuffer.base platform)
      after.object.valueByteBuffer.capacity world.memory after.memory)
    (scratch : Apart (after.object.valueByteBuffer.base platform)
      after.object.valueByteBuffer.capacity (world.object.keyByteBuffer.base platform)
      world.object.keyByteBuffer.capacity)
    (outside : written = none → delivered ≠ none →
      Apart (after.object.valueByteBuffer.base platform)
        after.object.valueByteBuffer.capacity world.object.key.addressOffset
        world.object.key.capacity)
    (keyBuffer : after.object.keyByteBuffer = world.object.keyByteBuffer)
    (key : after.object.key = world.object.key)
    (index : after.object.keyWriteIndex = world.object.keyWriteIndex) :
    KeySide platform after written delivered := by
  obtain ⟨-, upper, -⟩ := consistent.indices
  have short := side.index
  refine ⟨index.trans side.index, ?_, ?_, ?_⟩
  · intro some
    simpa only [BufferCursor.KeyViewInside, key, keyBuffer] using side.view some
  · rw [keyBuffer, read_congr (only.sameOn (scratch.shrink (by omega)))]
    exact side.bytes
  · intro none bytes found
    obtain ⟨shown, -⟩ := side.entry none bytes found
    have apart := outside none (by simp [found])
    rw [key, read_congr (only.sameOn apart.natural)]
    exact ⟨shown, apart⟩

theorem KeyWrite.Sound.contained {platform : Platform} {object : BufferCursor} {call : KeyWrite}
    (sound : call.Sound platform object) (capacity : object.keyByteBuffer.capacity = 511)
    (total : object.keyWriteIndex + (call.payload object).size ≤ 511) :
    call.Contained platform object := by
  have representable : object.keyWriteIndex + (call.payload object).size ≤ 2147483647 := by
    omega
  have inside : object.keyWriteIndex + (call.payload object).size ≤
      object.keyByteBuffer.capacity := by
    omega
  cases call with
  | bytes data => exact ⟨.inl inside, trivial⟩
  | slice data offset length => exact ⟨.inl inside, trivial⟩
  | float data => exact ⟨⟨representable, .inl inside⟩, sound.1, .inr sound.2⟩
  | double data => exact ⟨⟨representable, .inl inside⟩, sound.1, .inr sound.2⟩
  | utf8 data =>
      refine ⟨representable, .inl ?_⟩
      simp only [KeyWrite.payload, Payload.size] at inside
      omega
  | _ => exact ⟨representable, trivial⟩

theorem ValWrite.Sound.contained {platform : Platform} {object : BufferCursor} {call : ValWrite}
    (sound : call.Sound platform object) : call.Contained platform object := by
  cases call with
  | float data => exact ⟨.inr sound.1, .inr sound.2⟩
  | _ => exact ⟨.inr sound.1, trivial⟩

/-- The bytes an accepted key write stores are the ones it was asked to write. -/
theorem KeyWrite.Sound.stored {platform : Platform} {object : BufferCursor} {call : KeyWrite}
    {index : Int} (memory : Memory) (sound : call.Sound platform object)
    (accepts : (call.payload (call.safe platform object)).Accepts
      (call.safe platform object).key index) :
    (call.payload (call.safe platform object)).stored memory =
      (call.payload object).encoding memory := by
  cases call with
  | slice data offset length =>
      have positive := Payload.size_nonneg accepts
      simp only [KeyWrite.payload, Payload.size, Payload.length] at positive
      exact data.slice_inside sound.1 (by have := sound.2; omega)
  | buffer source capacity =>
      cases source with
      | other buffer => rfl
      | ownKey =>
          simp [KeyWrite.payload, Source.buffer, KeyWrite.safe, Payload.encoding,
            BufferCursor.setSafeKeyMemoryLocation_eq,
            show object.keyDatbaseMemoryLocation = false from sound]
      | ownValue =>
          simp [KeyWrite.payload, Source.buffer, KeyWrite.safe, Payload.encoding,
            BufferCursor.setSafeKeyMemoryLocation_eq]
  | _ => rfl

theorem KeyWrite.safe_valueByteBuffer (platform : Platform) (call : KeyWrite)
    (object : BufferCursor) :
    (call.safe platform object).valueByteBuffer = object.valueByteBuffer := by
  cases call <;> simp [KeyWrite.safe, BufferCursor.setSafeKeyMemoryLocation_eq,
    BufferCursor.setSafeValMemoryLocation_eq]

theorem KeyWrite.safe_valWriteIndex (platform : Platform) (call : KeyWrite)
    (object : BufferCursor) : (call.safe platform object).valWriteIndex = object.valWriteIndex := by
  cases call <;> simp [KeyWrite.safe, BufferCursor.setSafeKeyMemoryLocation_eq,
    BufferCursor.setSafeValMemoryLocation_eq]

theorem KeyWrite.safe_placed {platform : Platform} {object : BufferCursor}
    (placed : Placed platform object) (call : KeyWrite) :
    Placed platform (call.safe platform object) := by
  have keyBuffer := call.safe_keyByteBuffer platform object
  have valueBuffer := call.safe_valueByteBuffer platform object
  exact ⟨placed.consistent.safe call, keyBuffer ▸ placed.keyCapacity,
    by rw [valueBuffer]; exact placed.limit,
    by rw [keyBuffer, valueBuffer]; exact placed.scratch⟩

theorem holds_keyWrite {platform : Platform} {world : World} {pending : Pending}
    {call : KeyWrite} (holds : Holds platform world pending)
    (sound : call.Sound platform world.object)
    (total : world.object.keyWriteIndex + (call.payload world.object).size ≤ 511)
    (returned : ∃ answer, Event.reply platform world (.keyWrite call) = .ok answer) :
    Holds platform (Event.step platform world (.keyWrite call))
      (Event.pend platform world pending (.keyWrite call)) := by
  have placed := holds.placed
  have contained := sound.contained placed.keyCapacity total
  have settled := step_consistent placed.consistent (show Event.Fits platform world
    (.keyWrite call) from contained.1)
  obtain ⟨only, value_eq, flag_eq⟩ := keyWrite_staysInScratch placed.consistent contained
  obtain ⟨lower, upper, -⟩ := placed.consistent.indices
  have valid := world.object.keyByteBuffer.valid
  rw [Event.reply_keyWrite] at returned
  rw [Event.step_keyWrite] at *
  have ended := keyWrite_cases platform call world (by omega)
  generalize (call.perform platform).run world = result at *
  cases ended with
  | rejected ready_eq payload_eq rejects leaves =>
      obtain ⟨answer, impossible⟩ := returned
      cases impossible
  | accepted ready_eq payload_eq accepts =>
      subst ready_eq payload_eq
      have index := call.safe_keyWriteIndex platform world.object
      have keyBuffer := call.safe_keyByteBuffer platform world.object
      have safe := KeyWrite.safe_placed placed call
      simp only [KeyWrite.ready, index] at accepts
      obtain ⟨view, -⟩ := keyWrite_lands placed.consistent contained accepts
      have size_eq := call.size_payload (call.safe platform world.object) world.object
      have positive := Payload.size_nonneg accepts
      have stored_eq := sound.stored world.memory accepts
      have stored_length := Payload.stored_length world.memory accepts
      rw [stored_eq, size_eq] at stored_length
      refine ⟨⟨settled, safe.keyCapacity, safe.limit, safe.scratch⟩, ?_, ?_⟩
      · refine ⟨?_, fun _ => view, ?_, fun none => by simp [Event.pend] at none⟩
        · simp only [finalState_ok, KeyWrite.ready, BufferCursor.advanceKey, Event.pend,
            Option.getD_some, List.length_append, index]
          rw [Payload.length_eq_size (by omega), size_eq, wrap32_of_mem (by omega) (by omega),
            holds.key.index]
          omega
        · obtain ⟨region, address, -, -⟩ := view
          simp only [finalState_ok, KeyWrite.ready, World.writeKey, BufferCursor.advanceKey,
            Event.pend, Option.getD_some, List.length_append, region, address, keyBuffer, index,
            stored_eq, holds.key.index]
          rw [read_write_extend_left, holds.key.bytes]
      · exact holds.value.keep placed only keyBuffer
          (call.safe_valueByteBuffer platform world.object) value_eq flag_eq
          (call.safe_valWriteIndex platform world.object)

/-- Room for a value write is found in the buffer or in a new block. -/
theorem Ensured.origin_of_inside {platform : Platform} {allocated : Option Int} {call : ValWrite}
    {world ready : World}
    (ensured : Ensured platform allocated (call.payload ready.object).length
      (world.safeVal platform) ready)
    (lower : 0 ≤ world.object.valWriteIndex)
    (upper : world.object.valWriteIndex ≤ world.object.valueByteBuffer.capacity) :
    ready = world.safeVal platform ∨
    (world.object.valueByteBuffer.capacity <
        world.object.valWriteIndex + (call.payload world.object).length ∧
      ∃ address buffer, allocated = some address ∧ buffer.backing = .direct address ∧
        buffer.limit = buffer.capacity ∧ call.Requests world.object buffer.capacity ∧
        ready = (world.safeVal platform).grow platform buffer) := by
  have valid := world.object.valueByteBuffer.valid
  have safe : (world.safeVal platform).object.valueByteBuffer = world.object.valueByteBuffer ∧
      (world.safeVal platform).object.valWriteIndex = world.object.valWriteIndex := by
    simp [World.safeVal, BufferCursor.setSafeValMemoryLocation_eq]
  generalize length_eq : (call.payload ready.object).length = length at ensured
  rw [call.length_payload ready.object world.object] at length_eq
  cases ensured with
  | enough room => exact .inl rfl
  | @grown address buffer provided backing limit short larger doubled =>
      rw [safe.1, safe.2] at *
      rw [wrap32_of_mem (by omega) (by omega)] at short
      refine .inr ⟨by omega, address, buffer, provided, backing, limit, ?_, rfl⟩
      rw [← length_eq] at doubled
      exact doubled

theorem Ensured.origin {platform : Platform} {allocated : Option Int} {call : ValWrite}
    {world ready : World}
    (ensured : Ensured platform allocated (call.payload ready.object).length
      (world.safeVal platform) ready)
    (consistent : world.object.Consistent platform) :
    ready = world.safeVal platform ∨
    (world.object.valueByteBuffer.capacity <
        world.object.valWriteIndex + (call.payload world.object).length ∧
      ∃ address buffer, allocated = some address ∧ buffer.backing = .direct address ∧
        buffer.limit = buffer.capacity ∧ call.Requests world.object buffer.capacity ∧
        ready = (world.safeVal platform).grow platform buffer) :=
  ensured.origin_of_inside consistent.indices.2.2.1 consistent.indices.2.2.2

/-- The bytes of the old value buffer are found at the start of the new one. -/
theorem read_grow {platform : Platform} {world : World} {address : Int} {buffer : ByteBuffer}
    (direct : world.object.valueByteBuffer.isDirect = true)
    (backing : buffer.backing = .direct address)
    (fresh : Apart address buffer.capacity (world.object.valueByteBuffer.base platform)
      world.object.valueByteBuffer.capacity)
    {count : Nat} (short : count ≤ world.object.valueByteBuffer.limit) :
    read (world.grow platform buffer).memory .native (buffer.base platform) count =
      read world.memory .native (world.object.valueByteBuffer.base platform) count := by
  have valid := buffer.valid
  have base : buffer.base platform = address := by simp [ByteBuffer.base, backing]
  have oldValid := world.object.valueByteBuffer.valid
  have region : world.object.valueByteBuffer.region = .native := by
    unfold ByteBuffer.isDirect at direct
    unfold ByteBuffer.region
    split <;> simp_all
  have zeroed := write_onlyWithin world.memory .native (buffer.base platform)
    (List.replicate buffer.capacity.toNat (0 : UInt8))
  simp only [World.grow, region]
  rw [read_copy _ _ _ _ _ (by omega)]
  apply read_congr
  apply zeroed.sameOn
  rw [List.length_replicate, base]
  unfold Apart at *
  omega

theorem safeVal_key (platform : Platform) (world : World) :
    (world.safeVal platform).object.key = world.object.key := by
  simp [World.safeVal, BufferCursor.setSafeValMemoryLocation_eq]

/-- A source outside the new block reads the same before and after the buffer is replaced. -/
theorem read_source {before after : Memory} {address capacity : Int} {source : DirectBuffer}
    {index length : Int} (only : OnlyWithin .native address capacity before after)
    (outside : (Payload.buffer source index length).ReadsOutside address capacity) :
    read after source.region (source.addressOffset + index) length.toNat =
      read before source.region (source.addressOffset + index) length.toNat := by
  apply read_congr
  by_cases native : source.region = .native
  · rw [native]
    exact only.sameOn (outside native).natural
  · exact only.sameOn_of_ne native

/-- A source that is the same view before and after the buffer is replaced delivers the same
bytes. -/
theorem Ensured.stored_source {platform : Platform} {allocated : Option Int} {source : Source}
    {sourceIndex length : Int} {world ready : World}
    (ensured : Ensured platform allocated
      ((ValWrite.buffer source sourceIndex length).payload ready.object).length
      (world.safeVal platform) ready)
    (lower : 0 ≤ world.object.valWriteIndex)
    (upper : world.object.valWriteIndex ≤ world.object.valueByteBuffer.capacity)
    (outside : ∀ address capacity, allocated = some address →
      (ValWrite.buffer source sourceIndex length).Requests world.object capacity →
      ((ValWrite.buffer source sourceIndex length).payload world.object).ReadsOutside address
        capacity)
    (same : source.buffer ready.object = source.buffer world.object) :
    ((ValWrite.buffer source sourceIndex length).payload ready.object).stored ready.memory =
      ((ValWrite.buffer source sourceIndex length).payload world.object).stored
        world.memory := by
  have only := ensured.onlyWithin
  simp only [ValWrite.payload, Payload.stored, same]
  rcases ensured.origin_of_inside lower upper with
    rfl | ⟨-, address, buffer, provided, backing, -, requested, rfl⟩
  · rfl
  · have base : buffer.base platform = address := by simp [ByteBuffer.base, backing]
    have written : OnlyWithin .native address buffer.capacity world.memory
        ((world.safeVal platform).grow platform buffer).memory := base ▸ only
    exact read_source written (outside address buffer.capacity provided requested)

theorem Ensured.key {platform : Platform} {allocated : Option Int} {length : Int}
    {world ready : World}
    (ensured : Ensured platform allocated length (world.safeVal platform) ready) :
    ready.object.key = world.object.key := by
  cases ensured with
  | enough room => exact safeVal_key platform world
  | grown provided backing limit short larger doubled => exact safeVal_key platform world

theorem ValWrite.Sound.stored {platform : Platform} {allocated : Option Int} {call : ValWrite}
    {world ready : World} {index : Int} (sound : call.Sound platform world.object)
    (consistent : world.object.Consistent platform)
    (ensured : Ensured platform allocated (call.payload ready.object).length
      (world.safeVal platform) ready)
    (accepts : (call.payload ready.object).Accepts ready.object.value index)
    (outside : ∀ address capacity, allocated = some address →
      call.Requests world.object capacity →
      (call.payload world.object).ReadsOutside address capacity) :
    (call.payload ready.object).stored ready.memory =
      (call.payload world.object).encoding world.memory := by
  obtain ⟨-, -, lower, upper⟩ := consistent.indices
  cases call with
  | slice data offset length =>
      have positive := Payload.size_nonneg accepts
      simp only [ValWrite.payload, Payload.size, Payload.length] at positive
      exact data.slice_inside sound.2.1 (by have := sound.2.2; omega)
  | buffer source sourceIndex length =>
      apply ensured.stored_source lower upper outside
      cases source with
      | other buffer => rfl
      | ownKey => exact ensured.key
      | ownValue =>
          rcases ensured.origin consistent with rfl | ⟨short, -⟩
          · simp [Source.buffer, World.safeVal, BufferCursor.setSafeValMemoryLocation_eq,
              sound.2.1]
          · have room := sound.2.2
            simp only [ValWrite.payload, Payload.length] at short
            omega
  | _ => rfl

theorem Ensured.placed {platform : Platform} {allocated : Option Int} {call : ValWrite}
    {world ready : World} (placed : Placed platform world.object)
    (ensured : Ensured platform allocated (call.payload ready.object).length
      (world.safeVal platform) ready)
    (settled : ready.object.Consistent platform)
    (fresh : ∀ address capacity, allocated = some address → call.Requests world.object capacity →
      FreshBlock platform world.object address capacity) :
    Placed platform ready.object := by
  rcases ensured.origin placed.consistent with
    rfl | ⟨-, address, buffer, provided, backing, limit, requested, rfl⟩
  · refine ⟨settled, ?_, ?_, ?_⟩ <;>
      simp only [World.safeVal, BufferCursor.setSafeValMemoryLocation_eq]
    · exact placed.keyCapacity
    · exact placed.limit
    · exact placed.scratch
  · have base : buffer.base platform = address := by simp [ByteBuffer.base, backing]
    have block := fresh address buffer.capacity provided requested
    refine ⟨settled, ?_, limit, ?_⟩ <;>
      simp only [World.grow, World.safeVal, BufferCursor.setSafeValMemoryLocation_eq]
    · exact placed.keyCapacity
    · rw [base]
      exact block.keyBuffer.symm

/-- The value bytes written so far are found at the start of the buffer the put goes to. -/
theorem Ensured.read_value {platform : Platform} {allocated : Option Int} {call : ValWrite}
    {world ready : World} (placed : Placed platform world.object)
    (ensured : Ensured platform allocated (call.payload ready.object).length
      (world.safeVal platform) ready)
    (fresh : ∀ address capacity, allocated = some address → call.Requests world.object capacity →
      FreshBlock platform world.object address capacity)
    {count : Nat} (short : count ≤ world.object.valueByteBuffer.capacity) :
    read ready.memory .native (ready.object.valueByteBuffer.base platform) count =
      read world.memory .native (world.object.valueByteBuffer.base platform) count := by
  have safe : (world.safeVal platform).object.valueByteBuffer = world.object.valueByteBuffer := by
    simp [World.safeVal, BufferCursor.setSafeValMemoryLocation_eq]
  rcases ensured.origin placed.consistent with
    rfl | ⟨-, address, buffer, provided, backing, limit, requested, rfl⟩
  · rw [safe]
    rfl
  · have block := fresh address buffer.capacity provided requested
    have kept := @read_grow platform (world.safeVal platform) address buffer
      (by rw [safe]; exact placed.consistent.valueDirect) backing
      (by rw [safe]; exact block.valueBuffer) count (by rw [safe, placed.limit]; exact short)
    rw [safe] at kept
    exact kept

theorem holds_valWrite {platform : Platform} {world : World} {pending : Pending}
    {call : ValWrite} {allocated : Option Int} (holds : Holds platform world pending)
    (sound : call.Sound platform world.object)
    (undisturbed : Event.Undisturbed platform world (.valWrite call allocated)) :
    Holds platform (Event.step platform world (.valWrite call allocated))
      (Event.pend platform world pending (.valWrite call allocated)) := by
  obtain ⟨returned, -, provision⟩ := undisturbed
  have block (address capacity : Int) (provided : allocated = some address)
      (requested : call.Requests world.object capacity) :
      FreshBlock platform world.object address capacity ∧
        (call.payload world.object).ReadsOutside address capacity := by
    subst provided
    exact provision capacity requested
  have fresh (address capacity : Int) (provided : allocated = some address)
      (requested : call.Requests world.object capacity) :=
    (block address capacity provided requested).1
  have placed := holds.placed
  have contained := sound.contained
  have settled := step_consistent placed.consistent (show Event.Fits platform world
    (.valWrite call allocated) from contained.1)
  obtain ⟨only, key_eq, flag_eq⟩ := @valWrite_staysInScratch platform world call allocated
    placed.consistent contained
  obtain ⟨-, -, lower, upper⟩ := placed.consistent.indices
  have valid := world.object.valueByteBuffer.valid
  rw [Event.reply_valWrite] at returned
  rw [Event.step_valWrite] at *
  have ended := valWrite_cases platform allocated call world (by omega)
  generalize (call.perform platform allocated).run world = result at *
  cases ended with
  | readOnly refused =>
      obtain ⟨answer, impossible⟩ := returned
      cases impossible
  | noRoom writable =>
      obtain ⟨answer, impossible⟩ := returned
      cases impossible
  | rejected writable ensured payload_eq rejects leaves =>
      obtain ⟨answer, impossible⟩ := returned
      cases impossible
  | @accepted ready payload writable ensured payload_eq accepts =>
      subst payload_eq
      have state := ensured.ready placed.consistent contained.1 writable
      have readyPlaced := ensured.placed placed state.consistent fresh
      have stored_eq := sound.stored placed.consistent ensured accepts
        fun address capacity provided requested => (block address capacity provided requested).2
      have size_eq := call.size_payload ready.object world.object
      have positive := Payload.size_nonneg accepts
      have stored_length := Payload.stored_length ready.memory accepts
      rw [stored_eq, size_eq] at stored_length
      have room := state.room
      have bounded := ready.object.valueByteBuffer.valid
      have written := holds.value.index
      have held := ensured.read_value placed fresh (show ((pending.value.getD []).length : Int) ≤ _
        by omega)
      rw [holds.value.bytes] at held
      refine ⟨⟨settled, readyPlaced.keyCapacity, readyPlaced.limit, readyPlaced.scratch⟩, ?_, ?_⟩
      · refine holds.key.keep placed.consistent only ?_ ?_ state.keyByteBuffer key_eq
          state.keyIndex
        · have scratch := readyPlaced.scratch.symm
          rwa [state.keyByteBuffer] at scratch
        · intro unwritten found
          rcases ensured.origin placed.consistent with
            rfl | ⟨-, address, buffer, provided, backing, -, requested, rfl⟩
          · obtain ⟨key, delivered⟩ := Option.ne_none_iff_exists'.mp found
            have apart := (holds.key.entry unwritten key delivered).2
            simpa [World.safeVal, BufferCursor.setSafeValMemoryLocation_eq,
              BufferCursor.advanceVal] using apart
          · have base : buffer.base platform = address := by simp [ByteBuffer.base, backing]
            have apart := (fresh address buffer.capacity provided requested).keyView
            rw [← base] at apart
            exact apart
      · refine ⟨?_, fun _ => state.safe, ?_, fun none => by simp [Event.pend] at none⟩
        · simp only [finalState_ok, BufferCursor.advanceVal, Event.pend, Option.getD_some,
            List.length_append, state.index, state.length]
          rw [wrap32_of_mem (by omega) (by omega), written]
          omega
        · have view := state.consistent.valView state.safe
          have region := BufferCursor.region_wrapByteBuffer platform state.consistent.valueDirect
          simp only [finalState_ok, World.writeVal, BufferCursor.advanceVal, Event.pend,
            Option.getD_some, List.length_append, state.index, written, stored_eq, view, region]
          exact (read_write_extend_left _ _ _ _ _ _).trans (congrArg (· ++ _) held)

/-- With nothing written and nothing delivered a side only needs its index at zero. -/
theorem KeySide.idle {platform : Platform} {world : World}
    (index : world.object.keyWriteIndex = 0) : KeySide platform world none none :=
  ⟨index, fun absent => absurd rfl absent, rfl, fun _ _ found => by cases found⟩

theorem ValSide.idle {platform : Platform} {world : World}
    (index : world.object.valWriteIndex = 0) : ValSide platform world none none :=
  ⟨index, fun absent => absurd rfl absent, rfl, fun _ _ found => by cases found⟩

theorem Placed.transfer {platform : Platform} {before after : BufferCursor}
    (placed : Placed platform before) (consistent : after.Consistent platform)
    (keyBuffer : after.keyByteBuffer = before.keyByteBuffer)
    (valueBuffer : after.valueByteBuffer = before.valueByteBuffer) : Placed platform after :=
  ⟨consistent, by rw [keyBuffer]; exact placed.keyCapacity,
    by rw [valueBuffer]; exact placed.limit,
    by rw [keyBuffer, valueBuffer]; exact placed.scratch⟩

theorem prepared_buffers (world : World) (event : Event) :
    (event.prepared world).object.keyByteBuffer = world.object.keyByteBuffer ∧
      (event.prepared world).object.valueByteBuffer = world.object.valueByteBuffer := by
  cases event with
  | seek op native =>
      simp only [Event.prepared, seeking, wrapWrittenKey]
      split <;> exact ⟨rfl, rfl⟩
  | _ => exact ⟨rfl, rfl⟩

theorem holds_navigation {platform : Platform} {world : World} {pending : Pending}
    {event : Event} {result : NativeReturn} (holds : Holds platform world pending)
    (called : event.nativeReturn world = some result)
    (undisturbed : event.Undisturbed platform world)
    (sized : result.rc = 0 → 0 ≤ result.slots.keySize ∧ result.slots.keySize ≤ 2147483647 ∧
      0 ≤ result.slots.valSize ∧ result.slots.valSize ≤ 2147483647)
    (fits : event.Fits platform world) :
    Holds platform (event.step platform world) (event.pend platform world pending) := by
  have placed := holds.placed
  have settled := step_consistent placed.consistent fits
  obtain ⟨keyBuffer, valueBuffer⟩ := prepared_buffers world event
  obtain ⟨⟨answer, returned⟩, delivered, -⟩ := undisturbed
  have pend_eq : event.pend platform world pending =
      if Event.returnsTrue (event.reply platform world) then
        { Pending.empty with entry := some ((event.step platform world).object.cursor.slots.denote
          (event.step platform world).memory) }
      else .empty := by
    cases event <;> first | rfl | cases called
  have ended := Event.navigation_cases platform placed.consistent.live called
  rw [pend_eq]
  unfold Event.step Event.reply at *
  generalize (event.perform platform).run world = ending at *
  cases ended with
  | missing code =>
      simp only [outcome_ok, finalState_ok] at *
      refine ⟨placed.transfer settled keyBuffer valueBuffer, ?_, ?_⟩
      · exact KeySide.idle rfl
      · exact ValSide.idle rfl
  | found code =>
      obtain ⟨keyLower, keyUpper, valLower, valUpper⟩ := sized code
      obtain ⟨valueApart, keyApart⟩ := delivered result called code
      have keySize := wrap32_of_mem (by omega) keyUpper
      have valSize := wrap32_of_mem (by omega) valUpper
      simp only [outcome_ok, finalState_ok] at *
      refine ⟨placed.transfer settled keyBuffer valueBuffer, ?_, ?_⟩
      · refine ⟨rfl, fun absent => absurd rfl absent, rfl, fun _ key found => ?_⟩
        cases found
        simp only [BufferCursor.setDatabaseMemoryLocation, BufferCursor.wrapBufferAddress,
          World.returned, DirectBuffer.wrapAddress, keySize, valueBuffer]
        exact ⟨rfl, keyApart.symm⟩
      · refine ⟨rfl, fun absent => absurd rfl absent, rfl, fun _ value found => ?_⟩
        cases found
        simp only [BufferCursor.setDatabaseMemoryLocation, BufferCursor.wrapBufferAddress,
          World.returned, DirectBuffer.wrapAddress, valSize, keyBuffer]
        exact ⟨rfl, valueApart.symm⟩
  | failed nonzero present => cases returned

theorem holds_submit {platform : Platform} {world : World} {pending : Pending} (call : Submit)
    (native : NativePut) (holds : Holds platform world pending) :
    Holds platform (Event.step platform world (.submit call native))
      (Event.pend platform world pending (.submit call native)) := by
  have placed := holds.placed
  have settled := step_consistent placed.consistent
    (show Event.Fits platform world (.submit call native) from trivial)
  rw [Event.step_submit platform world call native placed.consistent.live] at *
  exact ⟨placed.transfer settled rfl rfl, .idle rfl, .idle rfl⟩

theorem holds_program {platform : Platform} {world : World} {pending : Pending}
    {change : Memory → Memory} (holds : Holds platform world pending)
    (undisturbed : Event.Undisturbed platform world (.program change)) :
    Holds platform (Event.step platform world (.program change))
      (Event.pend platform world pending (.program change)) := by
  obtain ⟨-, -, keyBuffer, valueBuffer, keyView, valView⟩ := undisturbed
  obtain ⟨-, keyUpper, -, valUpper⟩ := holds.placed.consistent.indices
  have keyIndex := holds.key.index
  have valIndex := holds.value.index
  show Holds platform { world with memory := change world.memory } pending
  refine ⟨holds.placed, ⟨keyIndex, holds.key.view, ?_, ?_⟩, ⟨valIndex, holds.value.view, ?_, ?_⟩⟩
  · rw [read_congr (keyBuffer.shrink (le_refl _) (by omega))]
    exact holds.key.bytes
  · intro unwritten key found
    rw [read_congr keyView.natural]
    exact holds.key.entry unwritten key found
  · rw [read_congr (valueBuffer.shrink (le_refl _) (by omega))]
    exact holds.value.bytes
  · intro unwritten value found
    rw [read_congr valView.natural]
    exact holds.value.entry unwritten value found

/-- The key half of what a submission hands over. -/
theorem KeySide.denote {platform : Platform} {world : World}
    {written delivered : Option (List UInt8)} {bytes : List UInt8}
    (side : KeySide platform world written delivered) (nonempty : written ≠ some [])
    (expected : (written <|> delivered) = some bytes) :
    (world.object.pendingSlots.denote world.memory).1 = bytes := by
  have index := side.index
  simp only [Slots.denote, BufferCursor.pendingSlots]
  cases written with
  | none =>
      simp only [Option.getD_none, List.length_nil, Nat.cast_zero] at index
      simp only [index, ne_eq, not_true_eq_false, if_false]
      exact (side.entry rfl bytes expected).1
  | some stored =>
      have length : stored.length ≠ 0 := by
        intro empty
        exact nonempty (by rw [List.length_eq_zero_iff.mp empty])
      simp only [Option.getD_some] at index
      cases expected
      rw [if_pos (by omega), index, (side.view (by simp)).2.1, Int.toNat_natCast]
      exact side.bytes

theorem ValSide.denote {platform : Platform} {world : World}
    {written delivered : Option (List UInt8)} {bytes : List UInt8}
    (side : ValSide platform world written delivered)
    (consistent : world.object.Consistent platform) (nonempty : written ≠ some [])
    (expected : (written <|> delivered) = some bytes) :
    (world.object.pendingSlots.denote world.memory).2 = bytes := by
  have index := side.index
  simp only [Slots.denote, BufferCursor.pendingSlots]
  cases written with
  | none =>
      simp only [Option.getD_none, List.length_nil, Nat.cast_zero] at index
      simp only [index, ne_eq, not_true_eq_false, if_false]
      exact (side.entry rfl bytes expected).1
  | some stored =>
      have length : stored.length ≠ 0 := by
        intro empty
        exact nonempty (by rw [List.length_eq_zero_iff.mp empty])
      have view := consistent.valView (side.view (by simp))
      simp only [Option.getD_some] at index
      cases expected
      rw [if_pos (by omega), index, view, Int.toNat_natCast]
      exact side.bytes

theorem holds_faithful {platform : Platform} {world : World} {pending : Pending} {event : Event}
    (holds : Holds platform world pending) (sound : event.Sound platform (world, pending)) :
    event.Faithful platform (world, pending) := by
  cases event with
  | submit call native =>
      have live := holds.placed.consistent.live
      refine ⟨_, congrArg World.submissions (Event.step_submit platform world call native live),
        rfl, fun bytes expected => ?_, fun bytes expected => ?_⟩
      · exact holds.key.denote sound.1 expected
      · exact holds.value.denote holds.placed.consistent sound.2 expected
  | _ => trivial

theorem holds_step {platform : Platform} {world : World} {pending : Pending} {event : Event}
    (holds : Holds platform world pending) (undisturbed : event.Undisturbed platform world)
    (total : event.KeyTotal world) (sound : event.Sound platform (world, pending)) :
    Holds platform (event.step platform world) (event.pend platform world pending) := by
  cases event with
  | position op native =>
      exact holds_navigation holds rfl undisturbed (sound _ rfl) trivial
  | seek op native =>
      exact holds_navigation holds rfl undisturbed (sound _ rfl) trivial
  | keyWrite call => exact holds_keyWrite holds sound total undisturbed.1
  | valWrite call allocated => exact holds_valWrite holds sound undisturbed
  | submit call native => exact holds_submit call native holds
  | program change => exact holds_program holds undisturbed

theorem holds_created {platform : Platform} {cursor : Cursor} {maxValueSize : Int}
    {keyBlock valueBlock : Option Int} {before after : Memory} {object : BufferCursor}
    (live : cursor.self ≠ 0)
    (created : (newBufferCursor platform cursor maxValueSize keyBlock valueBlock).run before =
      .ok object after)
    (apart : ∀ key value, keyBlock = some key → valueBlock = some value →
      Apart key 511 value maxValueSize) :
    Holds platform ⟨after, object, []⟩ .empty := by
  have consistent := (Opened.owned live created).consistent
  obtain ⟨key, value, keyGiven, valueGiven, representable, made⟩ := newBufferCursor_ok created
  obtain ⟨-, -, rfl⟩ := BufferCursor.create_ok made
  exact ⟨⟨consistent, rfl, rfl, apart key value keyGiven valueGiven⟩, .idle rfl, .idle rfl⟩

/-- In every run of sound calls on a cursor that owns its buffers, every submission hands over
the bytes written since the last navigation or submission, or else the delivered entry. -/
theorem submissions_hand_over_pending {platform : Platform} {cursor : Cursor} {maxValueSize : Int}
    {keyBlock valueBlock : Option Int} {before after : Memory} {object : BufferCursor}
    {events : List Event} (live : cursor.self ≠ 0)
    (created : (newBufferCursor platform cursor maxValueSize keyBlock valueBlock).run before =
      .ok object after)
    (apart : ∀ key value, keyBlock = some key → valueBlock = some value →
      Apart key 511 value maxValueSize)
    (undisturbed : Along (Event.trackPending platform)
      (fun state event => event.Undisturbed platform state.1 ∧ event.KeyTotal state.1)
      (⟨after, object, []⟩, .empty) events)
    (sound : Along (Event.trackPending platform) (Event.Sound platform)
      (⟨after, object, []⟩, .empty) events) :
    Along (Event.trackPending platform) (Event.Faithful platform)
      (⟨after, object, []⟩, .empty) events := by
  refine @Along.transfer _ _ _ _ _ (fun state => Holds platform state.1 state.2) _ _
    (undisturbed.and sound) (holds_created live created apart) ?_ ?_
  · rintro ⟨world, pending⟩ event holds ⟨⟨undisturbed, total⟩, sound⟩
    exact holds_step holds undisturbed total sound
  · rintro ⟨world, pending⟩ event holds ⟨-, sound⟩
    exact holds_faithful holds sound

def acceptedPut : NativePut := fun _ slots memory => ⟨0, slots, memory⟩

theorem submissions_hand_over_two_writes :
    Along (Event.trackPending sampleHost) (Event.Faithful sampleHost) (sampleWorld, .empty)
      [.keyWrite (.int 7), .valWrite (.long 9) none, .submit .put acceptedPut] := by
  refine @submissions_hand_over_pending sampleHost ⟨⟨1⟩, ⟨0, 0, 0, 0⟩, false⟩ 16 (some 4096)
    (some 8192) (fun _ _ => 0) sampleWorld.memory sampleWorld.object
    [.keyWrite (.int 7), .valWrite (.long 9) none, .submit .put acceptedPut] (by decide)
    (run_newBufferCursor sampleHost _ 4096 8192 _ (by decide)) ?_ ?_ ?_
  · rintro key value ⟨⟩ ⟨⟩
    decide
  · refine ⟨⟨⟨⟨true, rfl⟩, ?_, trivial⟩, ?_⟩, ⟨⟨⟨true, rfl⟩, ?_, trivial⟩, trivial⟩,
      ⟨⟨⟨true, rfl⟩, ?_, trivial⟩, trivial⟩, trivial⟩
    · rintro result ⟨⟩
    · unfold Event.KeyTotal
      decide
    · rintro result ⟨⟩
    · rintro result ⟨⟩
  · refine ⟨trivial, ⟨?_, trivial⟩, ⟨?_, ?_⟩, trivial⟩
    · decide
    · decide +kernel
    · decide +kernel

/-- An empty value, written and submitted, is handed over as the whole scratch buffer. -/
theorem empty_value_hands_over_scratch :
    Along (Event.trackPending sampleHost)
      (fun state event => event.Undisturbed sampleHost state.1 ∧ event.KeyTotal state.1)
      (sampleWorld, .empty) [.keyWrite (.byte 1),
        .valWrite (.bytes (zeros 0 (by decide))) none, .submit .overwrite acceptedPut] ∧
    ¬Along (Event.trackPending sampleHost) (Event.Faithful sampleHost) (sampleWorld, .empty)
      [.keyWrite (.byte 1), .valWrite (.bytes (zeros 0 (by decide))) none,
        .submit .overwrite acceptedPut] := by
  constructor
  · refine ⟨⟨⟨⟨true, rfl⟩, ?_, trivial⟩, ?_⟩, ⟨⟨⟨true, rfl⟩, ?_, trivial⟩, trivial⟩,
      ⟨⟨⟨true, rfl⟩, ?_, trivial⟩, trivial⟩, trivial⟩
    · rintro result ⟨⟩
    · unfold Event.KeyTotal
      decide
    · rintro result ⟨⟩
    · rintro result ⟨⟩
  · rintro ⟨-, -, ⟨handed, submitted, -, -, value⟩, -⟩
    have empty := value [] rfl
    have length := congrArg (fun list => list.head?.map fun handed => handed.value.length) submitted
    simp only [List.head?_cons, Option.map_some, empty] at length
    revert length
    decide +kernel

end LmdbJni
