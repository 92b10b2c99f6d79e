import LmdbJni.BufferCursorIndex

/-!
Which memory a write call changes. A key write should change the key's scratch buffer only
and leave the value view alone, and the other way round; it does so when it is `Contained`.
Left out are `float` and `double` keys written while a view shows database memory, byte and
string copies that run past the buffer, the four bytes that a `float` spills behind itself
on a little-endian host, and totals beyond an `int`.
-/

namespace LmdbJni

open ByteStore Execution Wrapping

/-- What a write call may touch: its own side's scratch buffer, and nothing of the other side. -/
def Event.StaysInScratch (platform : Platform) (world : World) (event : Event) : Prop :=
  let after := event.step platform world
  match event with
  | keyWrite _ =>
      OnlyWithin .native (world.object.keyByteBuffer.base platform)
        world.object.keyByteBuffer.capacity world.memory after.memory ∧
      after.object.value = world.object.value ∧
      after.object.valDatbaseMemoryLocation = world.object.valDatbaseMemoryLocation
  | valWrite _ _ =>
      OnlyWithin .native (after.object.valueByteBuffer.base platform)
        after.object.valueByteBuffer.capacity world.memory after.memory ∧
      after.object.key = world.object.key ∧
      after.object.keyDatbaseMemoryLocation = world.object.keyDatbaseMemoryLocation
  | _ => True

def KeyWrite.Contained (platform : Platform) (object : BufferCursor) (call : KeyWrite) : Prop :=
  let index := object.keyWriteIndex
  let view := (call.safe platform object).key
  call.Fits platform object ∧
  match call with
  | utf8 data =>
      index + data.size ≤ object.keyByteBuffer.capacity ∨ view.capacity < index
  | float data =>
      object.valDatbaseMemoryLocation = false ∧
      (view.capacity < index + 4 ∨ (object.KeyViewInside platform ∧
        index + 4 + ((Payload.float data).spill platform).length ≤ object.keyByteBuffer.capacity))
  | double _ =>
      object.valDatbaseMemoryLocation = false ∧
      (view.capacity < index + 8 ∨ object.KeyViewInside platform)
  | _ => True

/-- The capacity at which the doubling stops has room for four more bytes. -/
def SpillRoom (capacity index : Int) : Prop :=
  ∀ grown, growCapacity 33 (if capacity = 0 then 1 else capacity) (index + 4) = some grown →
    index + 8 ≤ grown

instance (capacity index : Int) : Decidable (SpillRoom capacity index) :=
  match found : growCapacity 33 (if capacity = 0 then 1 else capacity) (index + 4) with
  | none => isTrue fun grown reached => by rw [found] at reached; cases reached
  | some grown =>
      decidable_of_iff (index + 8 ≤ grown)
        ⟨fun room other reached => by rw [found] at reached; cases reached; exact room,
          fun room => room grown found⟩

def ValWrite.Contained (platform : Platform) (object : BufferCursor) (call : ValWrite) : Prop :=
  call.Fits object ∧
  match call with
  | float _ => object.isReadOnly = true ∨ platform.nativeByteOrder = .bigEndian ∨
      SpillRoom object.valueByteBuffer.capacity object.valWriteIndex
  | _ => True

def Event.Contained (platform : Platform) (world : World) : Event → Prop
  | keyWrite call => call.Contained platform world.object
  | valWrite call _ => call.Contained platform world.object
  | _ => True

theorem Event.Contained.fits {platform : Platform} {world : World} {event : Event}
    (contained : event.Contained platform world) : event.Fits platform world := by
  cases event with
  | keyWrite call => exact contained.1
  | valWrite call allocated => exact contained.1
  | _ => trivial

theorem writeKey_onlyWithin {platform : Platform} {world : World} {bytes : List UInt8}
    (inside : world.object.KeyViewInside platform) (lower : 0 ≤ world.object.keyWriteIndex)
    (room : world.object.keyWriteIndex + bytes.length ≤ world.object.keyByteBuffer.capacity) :
    OnlyWithin .native (world.object.keyByteBuffer.base platform)
      world.object.keyByteBuffer.capacity world.memory (world.writeKey bytes).memory := by
  obtain ⟨region, address, -, -⟩ := inside
  have written := write_onlyWithin world.memory world.object.key.region
    (world.object.key.addressOffset + world.object.keyWriteIndex) bytes
  rw [region, address] at written
  simp only [World.writeKey, region, address]
  exact written.widen (by omega) (by omega)

theorem KeyWrite.safe_value {platform : Platform} {object : BufferCursor} {call : KeyWrite}
    (contained : call.Contained platform object) :
    (call.safe platform object).value = object.value ∧
      (call.safe platform object).valDatbaseMemoryLocation = object.valDatbaseMemoryLocation := by
  cases call with
  | float data =>
      simp [KeyWrite.safe, BufferCursor.setSafeValMemoryLocation_eq, contained.2.1]
  | double data =>
      simp [KeyWrite.safe, BufferCursor.setSafeValMemoryLocation_eq, contained.2.1]
  | _ => simp [KeyWrite.safe, BufferCursor.setSafeKeyMemoryLocation_eq]

theorem KeyWrite.spill_payload (platform : Platform) (call : KeyWrite)
    (first second : BufferCursor) :
    (call.payload first).spill platform = (call.payload second).spill platform := by
  cases call <;> rfl

theorem ValWrite.spill_payload (platform : Platform) (call : ValWrite)
    (first second : BufferCursor) :
    (call.payload first).spill platform = (call.payload second).spill platform := by
  cases call <;> rfl

/-- The bytes of an accepted call, spill included, end inside the scratch buffer. -/
theorem keyWrite_lands {platform : Platform} {object : BufferCursor} {call : KeyWrite}
    (consistent : object.Consistent platform) (contained : call.Contained platform object)
    (accepts : (call.payload (call.safe platform object)).Accepts (call.safe platform object).key
      object.keyWriteIndex) :
    (call.safe platform object).KeyViewInside platform ∧
      object.keyWriteIndex + (call.payload object).size +
        ((call.payload object).spill platform).length ≤ object.keyByteBuffer.capacity := by
  have inside := keyWrite_inside consistent contained.1 accepts
  have view := consistent.safeKey.keyView (by simp [BufferCursor.setSafeKeyMemoryLocation_eq])
  cases call with
  | float data =>
      obtain ⟨fits, writable, short | ⟨keyView, room⟩⟩ := contained
      · exact absurd (Payload.accepts_inside accepts trivial fits.1) (not_le.mpr short)
      · refine ⟨?_, room⟩
        simpa [BufferCursor.KeyViewInside, KeyWrite.safe,
          BufferCursor.setSafeValMemoryLocation_eq] using keyView
  | double data =>
      obtain ⟨fits, writable, short | keyView⟩ := contained
      · exact absurd (Payload.accepts_inside accepts trivial fits.1) (not_le.mpr short)
      · refine ⟨?_, by simpa [Payload.spill, KeyWrite.payload] using inside⟩
        simpa [BufferCursor.KeyViewInside, KeyWrite.safe,
          BufferCursor.setSafeValMemoryLocation_eq] using keyView
  | _ => exact ⟨view, by simpa [Payload.spill, KeyWrite.payload] using inside⟩

/-- What a rejected call leaves behind lies inside the scratch buffer. -/
theorem keyWrite_leaves {platform : Platform} {object : BufferCursor} {call : KeyWrite}
    {leftover : List UInt8} (consistent : object.Consistent platform)
    (contained : call.Contained platform object)
    (leaves : (call.payload (call.safe platform object)).Leaves (call.safe platform object).key
      object.keyWriteIndex leftover) :
    leftover = [] ∨ ((call.safe platform object).KeyViewInside platform ∧
      object.keyWriteIndex + leftover.length ≤ object.keyByteBuffer.capacity) := by
  have valid := object.keyByteBuffer.valid
  obtain ⟨lower, upper, -⟩ := consistent.indices
  have view := consistent.safeKey.keyView (by simp [BufferCursor.setSafeKeyMemoryLocation_eq])
  cases call with
  | utf8 data =>
      rcases leaves with empty | ⟨rfl, copied⟩
      · exact .inl empty
      · rcases contained.2 with inside | behind
        · exact .inr ⟨view, inside⟩
        · exact absurd copied (clamp_rejects view.2.2.1 behind (by omega))
  | _ => exact .inl leaves

theorem keyWrite_staysInScratch {platform : Platform} {world : World} {call : KeyWrite}
    (consistent : world.object.Consistent platform)
    (contained : call.Contained platform world.object) :
    Event.StaysInScratch platform world (.keyWrite call) := by
  have valid := world.object.keyByteBuffer.valid
  have other := KeyWrite.safe_value contained
  have index : (call.ready platform world).object.keyWriteIndex = world.object.keyWriteIndex :=
    call.safe_keyWriteIndex platform world.object
  have buffer : (call.ready platform world).object.keyByteBuffer = world.object.keyByteBuffer :=
    call.safe_keyByteBuffer platform world.object
  obtain ⟨lower, upper, -⟩ := consistent.indices
  have written {bytes : List UInt8} (view : (call.ready platform world).object.KeyViewInside platform)
      (room : world.object.keyWriteIndex + bytes.length ≤ world.object.keyByteBuffer.capacity) :
      OnlyWithin .native (world.object.keyByteBuffer.base platform)
        world.object.keyByteBuffer.capacity world.memory
        ((call.ready platform world).writeKey bytes).memory := by
    have only := @writeKey_onlyWithin platform (call.ready platform world) bytes view
      (by omega) (by rw [index, buffer]; exact room)
    rwa [buffer] at only
  simp only [Event.StaysInScratch, Event.step_keyWrite]
  have ended := keyWrite_cases platform call world (by omega)
  generalize (call.perform platform).run world = result at ended
  cases ended with
  | accepted ready_eq payload_eq accepts =>
      subst ready_eq payload_eq
      refine ⟨?_, other⟩
      rw [index] at accepts
      obtain ⟨view, room⟩ := keyWrite_lands consistent contained accepts
      apply written view
      rw [List.length_append, Nat.cast_add, Payload.stored_length _ accepts,
        call.size_payload _ world.object, call.spill_payload platform _ world.object]
      omega
  | rejected ready_eq payload_eq rejects leaves =>
      subst ready_eq payload_eq
      refine ⟨?_, other⟩
      rw [index] at leaves
      rcases keyWrite_leaves consistent contained leaves with rfl | ⟨view, room⟩
      · simp only [finalState_error, World.writeKey, write_nil]
        exact .refl _ _ _ _
      · exact written view room

/-- Replacing the value buffer writes to the new buffer only. -/
theorem Ensured.onlyWithin {platform : Platform} {allocated : Option Int} {length : Int}
    {world ready : World} (ensured : Ensured platform allocated length world ready) :
    OnlyWithin .native (ready.object.valueByteBuffer.base platform)
      ready.object.valueByteBuffer.capacity world.memory ready.memory := by
  cases ensured with
  | enough room => exact .refl _ _ _ _
  | @grown address buffer provided backing limit short larger doubled =>
      have valid := buffer.valid
      have oldValid := world.object.valueByteBuffer.valid
      have zeroed := write_onlyWithin world.memory .native (buffer.base platform)
        (List.replicate buffer.capacity.toNat (0 : UInt8))
      rw [List.length_replicate] at zeroed
      have copied := copy_onlyWithin (write world.memory .native (buffer.base platform)
        (List.replicate buffer.capacity.toNat (0 : UInt8))) world.object.valueByteBuffer.region
        (world.object.valueByteBuffer.base platform) .native (buffer.base platform)
        world.object.valueByteBuffer.limit.toNat
      exact (zeroed.widen (le_refl _) (by simp only [World.grow]; omega)).trans
        (copied.widen (le_refl _) (by simp only [World.grow]; omega))

theorem Ensured.spillRoom {platform : Platform} {allocated : Option Int} {world ready : World}
    (ensured : Ensured platform allocated 4 world ready)
    (spare : SpillRoom world.object.valueByteBuffer.capacity world.object.valWriteIndex)
    (lower : 0 ≤ world.object.valWriteIndex)
    (room : world.object.valWriteIndex + 4 ≤ ready.object.valueByteBuffer.capacity) :
    world.object.valWriteIndex + 8 ≤ ready.object.valueByteBuffer.capacity := by
  have valid := world.object.valueByteBuffer.valid
  cases ensured with
  | enough enough =>
      refine spare _ ?_
      rw [if_neg (by omega), growCapacity, if_neg (by omega)]
  | @grown address buffer provided backing limit short larger doubled =>
      have bounded := buffer.valid
      simp only [World.grow] at room ⊢
      rw [wrap32_of_mem (by omega) (by omega)] at doubled
      exact spare _ doubled

/-- A value write is made through a view of the whole value buffer. -/
theorem writeVal_onlyWithin {platform : Platform} {world : World} {bytes : List UInt8}
    (consistent : world.object.Consistent platform)
    (safe : world.object.valDatbaseMemoryLocation = false)
    (room : world.object.valWriteIndex + bytes.length ≤ world.object.valueByteBuffer.capacity) :
    OnlyWithin .native (world.object.valueByteBuffer.base platform)
      world.object.valueByteBuffer.capacity world.memory (world.writeVal bytes).memory := by
  have view := consistent.valView safe
  have region := BufferCursor.region_wrapByteBuffer platform consistent.valueDirect
  obtain ⟨-, -, lower, -⟩ := consistent.indices
  have written := write_onlyWithin world.memory world.object.value.region
    (world.object.value.addressOffset + world.object.valWriteIndex) bytes
  simp only [World.writeVal]
  rw [view, region] at *
  exact written.widen (by simp only [DirectBuffer.wrapByteBuffer]; omega)
    (by simp only [DirectBuffer.wrapByteBuffer]; omega)

/-- The bytes of an accepted value write, spill included, end inside the value buffer. -/
theorem valWrite_lands {platform : Platform} {allocated : Option Int} {call : ValWrite}
    {world ready : World} (consistent : world.object.Consistent platform)
    (contained : call.Contained platform world.object)
    (writable : world.object.isReadOnly = false)
    (ensured : Ensured platform allocated (call.payload ready.object).length
      (world.safeVal platform) ready) :
    world.object.valWriteIndex + (call.payload world.object).size +
      ((call.payload world.object).spill platform).length ≤
      ready.object.valueByteBuffer.capacity := by
  have state := ensured.ready consistent contained.1 writable
  have room := state.room
  cases call with
  | float data =>
      rcases contained.2 with refused | bigEndian | spare
      · simp [writable] at refused
      · simpa [ValWrite.payload, Payload.spill, bigEndian] using room
      · have safe : (world.safeVal platform).object.valWriteIndex = world.object.valWriteIndex ∧
            (world.safeVal platform).object.valueByteBuffer = world.object.valueByteBuffer := by
          simp [World.safeVal, BufferCursor.setSafeValMemoryLocation_eq]
        have spilled := @Ensured.spillRoom platform allocated _ _ ensured (by rwa [safe.1, safe.2])
          (by rw [safe.1]; exact consistent.indices.2.2.1) (by rw [safe.1]; exact room)
        rw [safe.1] at spilled
        have short := Payload.spill_length_le platform (.float data)
        simp only [ValWrite.payload, Payload.size, Payload.length] at *
        omega
  | _ => simpa [ValWrite.payload, Payload.spill] using room

theorem valWrite_leaves {call : ValWrite} {object : BufferCursor} {target : DirectBuffer}
    {index : Int} {leftover : List UInt8}
    (leaves : (call.payload object).Leaves target index leftover) :
    leftover.length ≤ (call.payload object).size ∨ leftover = [] := by
  cases call with
  | utf8 data =>
      rcases leaves with empty | ⟨rfl, -⟩
      · exact .inr empty
      · left
        simp only [ValWrite.payload, Payload.size, ByteString.size]
        omega
  | _ => exact .inr leaves

theorem valWrite_staysInScratch {platform : Platform} {world : World} {call : ValWrite}
    {allocated : Option Int} (consistent : world.object.Consistent platform)
    (contained : call.Contained platform world.object) :
    Event.StaysInScratch platform world (.valWrite call allocated) := by
  have valid := world.object.valueByteBuffer.valid
  obtain ⟨-, -, lower, upper⟩ := consistent.indices
  simp only [Event.StaysInScratch, Event.step_valWrite]
  have ended := valWrite_cases platform allocated call world (by omega)
  generalize (call.perform platform allocated).run world = result at ended
  cases ended with
  | readOnly refused => exact ⟨.refl _ _ _ _, rfl, rfl⟩
  | noRoom writable =>
      refine ⟨.refl _ _ _ _, ?_, ?_⟩ <;>
        simp [World.safeVal, BufferCursor.setSafeValMemoryLocation_eq]
  | @accepted ready payload writable ensured payload_eq accepts =>
      subst payload_eq
      have state := ensured.ready consistent contained.1 writable
      have lands := valWrite_lands consistent contained writable ensured
      refine ⟨?_, state.key, state.keyLocation⟩
      apply ensured.onlyWithin.trans
      apply writeVal_onlyWithin state.consistent state.safe
      rw [List.length_append, Nat.cast_add, Payload.stored_length _ accepts, state.index,
        call.size_payload _ world.object, call.spill_payload platform _ world.object]
      omega
  | @rejected ready payload leftover message writable ensured payload_eq rejects leaves =>
      subst payload_eq
      have state := ensured.ready consistent contained.1 writable
      have room := state.room
      refine ⟨?_, state.key, state.keyLocation⟩
      apply ensured.onlyWithin.trans
      rcases valWrite_leaves leaves with short | rfl
      · apply writeVal_onlyWithin state.consistent state.safe
        rw [call.size_payload _ world.object] at short
        rw [state.index]
        omega
      · simp only [finalState_error, World.writeVal, write_nil]
        exact .refl _ _ _ _

/-- In every run of contained calls, every write stays in its own scratch buffer and leaves the
other side's view alone. -/
theorem writes_stay_in_scratch {platform : Platform} {world : World} {events : List Event}
    (opened : Opened platform world)
    (contained : Along (Event.step platform) (Event.Contained platform) world events) :
    Along (Event.step platform) (Event.StaysInScratch platform) world events := by
  refine contained.transfer opened.consistent
    (fun _ _ consistent allowed => step_consistent consistent allowed.fits) ?_
  intro reached event consistent allowed
  cases event with
  | keyWrite call => exact keyWrite_staysInScratch consistent allowed
  | valWrite call allocated => exact valWrite_staysInScratch consistent allowed
  | _ => trivial

theorem writes_stay_in_scratch_after_first :
    Along (Event.step sampleHost) (Event.StaysInScratch sampleHost) sampleWorld
      [.position .first foundEntry, .keyWrite (.int 7), .valWrite (.float 1) (some 30000)] := by
  refine @writes_stay_in_scratch sampleHost sampleWorld
    [.position .first foundEntry, .keyWrite (.int 7), .valWrite (.float 1) (some 30000)]
    sampleWorld_opened ?_
  refine ⟨trivial, ⟨?_, trivial⟩, ⟨.inr ?_, .inr (.inr ?_)⟩, trivial⟩
  · unfold KeyWrite.Fits
    decide
  · decide
  · decide

/-- After `first`, `keyWriteDouble` writes into the page that holds the entry, and it turns the
value view away from the entry. -/
theorem keyWriteDouble_writes_database :
    Opened sampleHost sampleWorld ∧
    ¬Along (Event.step sampleHost) (Event.StaysInScratch sampleHost) sampleWorld
      [.position .first foundEntry, .keyWrite (.double 0x0102030405060708)] := by
  refine ⟨sampleWorld_opened, ?_⟩
  rintro ⟨-, ⟨only, -⟩, -⟩
  have kept := only .native 100000 (by decide)
  revert kept
  decide +kernel

end LmdbJni
