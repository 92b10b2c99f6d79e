import LmdbJni.BufferCursorPending

/-!
What a failing call leaves behind: the bytes the next `overwrite()` would hand over, and the
room that is left in the key. Many methods change views, lengths and indices before the step
that can fail. `Keeps` lists the states in which that does no harm: submissions with nothing
written, seeks with nothing written or a full key view, writes on a side whose view already
is the scratch buffer, and value writes that need no new buffer or have a first byte to keep.
-/

namespace LmdbJni

open ByteStore Execution Wrapping

/-- The key and value an `overwrite()` called now hands to LMDB. -/
def handedByOverwrite (world : World) : Option Submission :=
  (finalState ((overwrite acceptedPut).run world)).submissions.head?

/-- How many more bytes fit into the key. -/
def keyRoom (platform : Platform) (world : World) : Int :=
  (world.object.setSafeKeyMemoryLocation platform).key.capacity - world.object.keyWriteIndex

def Event.Fails (platform : Platform) (world : World) (event : Event) : Prop :=
  match event with
  | seek _ _ | keyWrite _ | valWrite _ _ => ∃ error, event.reply platform world = .error error
  | submit _ _ =>
      (∃ error, event.reply platform world = .error error) ∨
        event.reply platform world = .ok false
  | _ => False

def Event.Preserves (platform : Platform) (world : World) (event : Event) : Prop :=
  handedByOverwrite (event.step platform world) = handedByOverwrite world ∧
  keyRoom platform (event.step platform world) = keyRoom platform world

/-- Native code that fails leaves the pending bytes alone, and new blocks are fresh. -/
def Event.Harmless (platform : Platform) (world : World) : Event → Prop
  | seek op native =>
      let after := (native op (seeking world.object).cursor.slots world.memory).memory
      let slots := world.object.pendingSlots
      SameOn .native slots.keyData slots.keySize world.memory after ∧
      SameOn .native slots.valData slots.valSize world.memory after
  | submit call native =>
      let slots := world.object.pendingSlots
      let after := (native call.flags slots world.memory).memory
      SameOn .native slots.keyData slots.keySize world.memory after ∧
      SameOn .native slots.valData slots.valSize world.memory after
  | valWrite call (some address) => ∀ capacity, call.Requests world.object capacity →
      Apart address capacity world.object.pendingSlots.keyData
        world.object.pendingSlots.keySize ∧
      Apart address capacity (world.object.valueByteBuffer.base platform)
        world.object.valueByteBuffer.capacity
  | _ => True

def BufferCursor.KeySettled (platform : Platform) (object : BufferCursor) : Prop :=
  object.keyDatbaseMemoryLocation = false ∨
    object.key = .wrapByteBuffer platform object.keyByteBuffer

def BufferCursor.ValSettled (platform : Platform) (object : BufferCursor) : Prop :=
  object.value = .wrapByteBuffer platform object.valueByteBuffer

def KeyWrite.Keeps (platform : Platform) (object : BufferCursor) : KeyWrite → Prop
  | float _ | double _ =>
      object.valDatbaseMemoryLocation = false ∨ object.ValSettled platform
  | utf8 data => object.KeySettled platform ∧ (data.size = 0 ∨ object.keyWriteIndex < 0 ∨
      (0 < object.keyWriteIndex ∧
        Apart (object.key.addressOffset + object.keyWriteIndex) data.size
          object.pendingSlots.valData object.pendingSlots.valSize))
  | _ => object.KeySettled platform

def ValWrite.Keeps (platform : Platform) (object : BufferCursor) (allocated : Option Int)
    (call : ValWrite) : Prop :=
  object.isReadOnly = true ∨
  (object.ValSettled platform ∧
    (∀ data, call = .utf8 data → object.valWriteIndex + data.size + 1 ≤ 2147483647) ∧
    (allocated = none ∨
      object.valWriteIndex + (call.payload object).size ≤ object.valueByteBuffer.capacity ∨
      (object.valWriteIndex ≠ 0 ∧ object.valWriteIndex ≤ object.valueByteBuffer.limit)))

def Event.Keeps (platform : Platform) (world : World) : Event → Prop
  | seek _ _ => world.object.keyWriteIndex = 0 ∨ world.object.keyDatbaseMemoryLocation = true ∨
      world.object.keyWriteIndex = world.object.key.capacity
  | keyWrite call => call.Keeps platform world.object
  | valWrite call allocated => call.Keeps platform world.object allocated
  | submit _ _ => world.object.keyWriteIndex = 0 ∧
      (world.object.valWriteIndex = 0 ∨ world.object.valWriteIndex = world.object.value.capacity)
  | _ => True

theorem handedByOverwrite_eq {world : World} (live : world.object.cursor.self ≠ 0) :
    handedByOverwrite world =
      some ⟨(world.object.pendingSlots.denote world.memory).1,
        (world.object.pendingSlots.denote world.memory).2, 0⟩ := by
  have run := run_submission .overwrite acceptedPut live
  unfold handedByOverwrite
  change (finalState ((Submit.overwrite.perform acceptedPut).run world)).submissions.head? = _
  rw [run, finalState_answer]
  rfl

/-- Nothing handed over changes if the slots and the bytes they denote stay the same. -/
theorem handed_congr {before after : World} (liveBefore : before.object.cursor.self ≠ 0)
    (liveAfter : after.object.cursor.self ≠ 0)
    (slots : after.object.pendingSlots = before.object.pendingSlots)
    (key : SameOn .native before.object.pendingSlots.keyData before.object.pendingSlots.keySize
      before.memory after.memory)
    (value : SameOn .native before.object.pendingSlots.valData
      before.object.pendingSlots.valSize before.memory after.memory) :
    handedByOverwrite after = handedByOverwrite before := by
  rw [handedByOverwrite_eq liveBefore, handedByOverwrite_eq liveAfter, slots]
  simp only [Slots.denote, read_congr key.natural, read_congr value.natural]

theorem keyRoom_congr {platform : Platform} {before after : World}
    (key : after.object.key = before.object.key)
    (location : after.object.keyDatbaseMemoryLocation = before.object.keyDatbaseMemoryLocation)
    (buffer : after.object.keyByteBuffer = before.object.keyByteBuffer)
    (index : after.object.keyWriteIndex = before.object.keyWriteIndex) :
    keyRoom platform after = keyRoom platform before := by
  simp only [keyRoom, BufferCursor.setSafeKeyMemoryLocation_eq, key, location, buffer, index]

/-- The key room is what the bounds check of a one-byte write looks at. -/
theorem keyWriteByte_returns_iff {platform : Platform} {world : World} (data : BitVec 32)
    (representable : world.object.keyWriteIndex < 2147483647) :
    (∃ answer, Event.reply platform world (.keyWrite (.byte data)) = .ok answer) ↔
      0 ≤ world.object.keyWriteIndex ∧ 1 ≤ keyRoom platform world := by
  have ended := keyWrite_cases platform (.byte data) world (by omega)
  have accepted : (Payload.byte data).Accepts
      (world.object.setSafeKeyMemoryLocation platform).key world.object.keyWriteIndex ↔
      0 ≤ world.object.keyWriteIndex ∧ 1 ≤ keyRoom platform world := by
    unfold Payload.Accepts DirectBuffer.InBounds keyRoom
    constructor
    · rintro ⟨lower, -, upper⟩
      rw [wrap32_of_mem (by omega) (by omega)] at upper
      omega
    · rintro ⟨lower, room⟩
      refine ⟨lower, by decide, ?_⟩
      rw [wrap32_of_mem (by omega) (by omega)]
      omega
  rw [Event.reply_keyWrite]
  generalize ((KeyWrite.byte data).perform platform).run world = ending at *
  cases ended with
  | accepted ready_eq payload_eq accepts =>
      subst ready_eq payload_eq
      simp only [KeyWrite.ready, KeyWrite.safe_keyWriteIndex] at accepts
      exact iff_of_true ⟨true, rfl⟩ (accepted.mp accepts)
  | rejected ready_eq payload_eq rejects leaves =>
      subst ready_eq payload_eq
      simp only [KeyWrite.ready, KeyWrite.safe_keyWriteIndex] at rejects
      refine iff_of_false ?_ (mt accepted.mpr rejects)
      rintro ⟨answer, impossible⟩
      cases impossible

theorem submit_preserves {platform : Platform} {world : World} {call : Submit}
    {native : NativePut} (grounded : world.object.Grounded)
    (harmless : Event.Harmless platform world (.submit call native))
    (keeps : Event.Keeps platform world (.submit call native)) :
    Event.Preserves platform world (.submit call native) := by
  obtain ⟨keyUnwritten, valUnwritten⟩ := keeps
  have after := step_grounded platform (.submit call native) grounded
  unfold Event.Preserves
  rw [Event.step_submit platform world call native grounded.live] at *
  constructor
  · refine handed_congr grounded.live after.live ?_ harmless.1 harmless.2
    simp only [World.returned, World.submitting, BufferCursor.pendingSlots, keyUnwritten]
    rcases valUnwritten with unwritten | full
    · simp [unwritten]
    · by_cases empty : world.object.value.capacity = 0 <;> simp [full, empty]
  · simp only [keyRoom, World.returned, World.submitting, keyUnwritten,
      BufferCursor.setSafeKeyMemoryLocation_eq]

theorem seek_preserves {platform : Platform} {world : World} {op : SeekOp}
    {native : SeekOp → NativeGet} (grounded : world.object.Grounded)
    (harmless : Event.Harmless platform world (.seek op native))
    (keeps : Event.Keeps platform world (.seek op native))
    (fails : Event.Fails platform world (.seek op native)) :
    Event.Preserves platform world (.seek op native) := by
  obtain ⟨error, thrown⟩ := fails
  have after := step_grounded platform (.seek op native) grounded
  have ended := Event.navigation_cases platform grounded.live
    (show Event.nativeReturn world (.seek op native) = some _ from rfl)
  unfold Event.Preserves
  unfold Event.step Event.reply at *
  generalize ((Event.seek op native).perform platform).run world = ending at *
  cases ended with
  | missing code => cases thrown
  | found code => cases thrown
  | failed nonzero present =>
      have slots : (seeking world.object).pendingSlots = world.object.pendingSlots := by
        simp only [seeking, wrapWrittenKey, BufferCursor.pendingSlots]
        split <;> simp_all [DirectBuffer.wrapAddress]
      refine ⟨handed_congr grounded.live after.live slots harmless.1 harmless.2, ?_⟩
      simp only [keyRoom, finalState_error, World.returned, Event.prepared, seeking, wrapWrittenKey,
        BufferCursor.setSafeKeyMemoryLocation_eq]
      rcases keeps with unwritten | shown | full
      · simp [unwritten]
      · simp only [shown, if_true]
        split <;> rfl
      · split <;> simp [DirectBuffer.wrapAddress, full, apply_ite DirectBuffer.capacity]

/-- A key view that is settled is not changed by the step back to scratch memory. -/
theorem KeyWrite.Keeps.safe {platform : Platform} {object : BufferCursor} {call : KeyWrite}
    (keeps : call.Keeps platform object) :
    (call.safe platform object).key = object.key ∧
    (call.safe platform object).value = object.value ∧
    ((call.safe platform object).setSafeKeyMemoryLocation platform).key =
      (object.setSafeKeyMemoryLocation platform).key := by
  have key (settled : object.KeySettled platform) :
      (object.setSafeKeyMemoryLocation platform).key = object.key := by
    rw [BufferCursor.setSafeKeyMemoryLocation_eq]
    rcases settled with scratch | wrapped
    · simp [scratch]
    · simp [← wrapped]
  have value (settled : object.valDatbaseMemoryLocation = false ∨ object.ValSettled platform) :
      (object.setSafeValMemoryLocation platform).value = object.value := by
    rw [BufferCursor.setSafeValMemoryLocation_eq]
    rcases settled with scratch | wrapped
    · simp [scratch]
    · simp [← show object.value = _ from wrapped]
  cases call with
  | float data =>
      refine ⟨?_, value keeps, ?_⟩ <;>
        simp [KeyWrite.safe, BufferCursor.setSafeKeyMemoryLocation_eq,
          BufferCursor.setSafeValMemoryLocation_eq]
  | double data =>
      refine ⟨?_, value keeps, ?_⟩ <;>
        simp [KeyWrite.safe, BufferCursor.setSafeKeyMemoryLocation_eq,
          BufferCursor.setSafeValMemoryLocation_eq]
  | utf8 data =>
      refine ⟨key keeps.1, ?_, ?_⟩ <;>
        simp [KeyWrite.safe, BufferCursor.setSafeKeyMemoryLocation_eq]
  | _ =>
      refine ⟨key keeps, ?_, ?_⟩ <;>
        simp [KeyWrite.safe, BufferCursor.setSafeKeyMemoryLocation_eq]

/-- The bytes a rejected key write has stored lie behind the pending key. -/
theorem KeyWrite.Keeps.leftover {platform : Platform} {world : World} {call : KeyWrite}
    {leftover : List UInt8} (keeps : call.Keeps platform world.object)
    (leaves : (call.payload (call.safe platform world.object)).Leaves
      (call.safe platform world.object).key world.object.keyWriteIndex leftover) :
    let after := write world.memory world.object.key.region
      (world.object.key.addressOffset + world.object.keyWriteIndex) leftover
    let slots := world.object.pendingSlots
    SameOn .native slots.keyData slots.keySize world.memory after ∧
      SameOn .native slots.valData slots.valSize world.memory after := by
  have nothing (empty : leftover = []) : write world.memory world.object.key.region
      (world.object.key.addressOffset + world.object.keyWriteIndex) leftover = world.memory := by
    rw [empty, write_nil]
  cases call with
  | utf8 data =>
      rcases leaves with empty | ⟨rfl, inside⟩
      · rw [nothing empty]
        exact ⟨.refl _ _ _ _, .refl _ _ _ _⟩
      · rcases keeps.2 with empty | negative | ⟨written, apart⟩
        · rw [nothing (List.length_eq_zero_iff.mp (by simpa [ByteString.size] using empty))]
          exact ⟨.refl _ _ _ _, .refl _ _ _ _⟩
        · exact absurd inside.1 (by omega)
        · have only := write_onlyWithin world.memory world.object.key.region
            (world.object.key.addressOffset + world.object.keyWriteIndex) data.bytes
          by_cases native : world.object.key.region = .native
          · rw [native] at only ⊢
            refine ⟨only.sameOn ?_, only.sameOn apart⟩
            simp only [Apart, BufferCursor.pendingSlots]
            split <;> omega
          · exact ⟨only.sameOn_of_ne (Ne.symm native), only.sameOn_of_ne (Ne.symm native)⟩
  | _ =>
      rw [nothing leaves]
      exact ⟨.refl _ _ _ _, .refl _ _ _ _⟩

theorem keyWrite_preserves {platform : Platform} {world : World} {call : KeyWrite}
    (grounded : world.object.Grounded)
    (keeps : Event.Keeps platform world (.keyWrite call))
    (fails : Event.Fails platform world (.keyWrite call)) :
    Event.Preserves platform world (.keyWrite call) := by
  obtain ⟨error, thrown⟩ := fails
  have after := step_grounded platform (.keyWrite call) grounded
  have ended := keyWrite_cases platform call world grounded.keyIndex
  unfold Event.Preserves
  rw [Event.reply_keyWrite] at thrown
  rw [Event.step_keyWrite] at *
  generalize (call.perform platform).run world = ending at *
  cases ended with
  | accepted ready_eq payload_eq accepts => cases thrown
  | rejected ready_eq payload_eq rejects leaves =>
      subst ready_eq payload_eq
      obtain ⟨key, value, scratch⟩ := KeyWrite.Keeps.safe keeps
      have index := call.safe_keyWriteIndex platform world.object
      have valIndex := call.safe_valWriteIndex platform world.object
      simp only [KeyWrite.ready, index] at leaves
      have kept := KeyWrite.Keeps.leftover keeps leaves
      constructor
      · refine handed_congr grounded.live after.live ?_ ?_ ?_
        · simp [KeyWrite.ready, World.writeKey, BufferCursor.pendingSlots, key, value, valIndex]
        · simpa [KeyWrite.ready, World.writeKey, key] using kept.1
        · simpa [KeyWrite.ready, World.writeKey, key] using kept.2
      · simp only [keyRoom, finalState_error, KeyWrite.ready, World.writeKey, index, scratch]

/-- A rejected write for which there was room leaves nothing behind. -/
theorem Payload.leaves_nothing {target : DirectBuffer} {index : Int} {payload : Payload}
    {leftover : List UInt8} (bounded : target.capacity ≤ 2147483647)
    (room : 0 ≤ index → ∀ data, payload = .utf8 data → index + data.size + 1 ≤ target.capacity)
    (rejects : ¬payload.Accepts target index) (leaves : payload.Leaves target index leftover) :
    leftover = [] := by
  cases payload with
  | utf8 data =>
      rcases leaves with empty | ⟨-, inside⟩
      · exact empty
      · have lower := inside.1
        have positive : 0 ≤ data.size := by simp [ByteString.size]
        have enough := room lower data rfl
        have terminator := @wrap32_of_mem (index + data.size) (by omega) (by omega)
        have behind := @wrap32_of_mem (index + data.size + 1) (by omega) (by omega)
        refine absurd ⟨inside, ?_, by decide, ?_⟩ rejects <;> simp only [terminator, behind] <;>
          omega
  | _ => exact leaves

/-- Going back to scratch memory changes only a flag if the value view is there already. -/
theorem safeVal_settled {platform : Platform} {world : World}
    (settled : world.object.ValSettled platform) :
    world.safeVal platform =
      { world with object := { world.object with valDatbaseMemoryLocation := false } } := by
  have view : world.object.value = _ := settled
  simp only [World.safeVal, BufferCursor.setSafeValMemoryLocation_eq, ← view, ite_self]

theorem safeVal_preserves {platform : Platform} {world : World} (grounded : world.object.Grounded)
    (settled : world.object.ValSettled platform) :
    handedByOverwrite (world.safeVal platform) = handedByOverwrite world ∧
      keyRoom platform (world.safeVal platform) = keyRoom platform world := by
  rw [safeVal_settled settled]
  exact ⟨handed_congr grounded.live (by exact grounded.live) rfl (.refl _ _ _ _) (.refl _ _ _ _),
    keyRoom_congr rfl rfl rfl rfl⟩

/-- Moving a value with a first byte to a larger buffer does not change what is pending. -/
theorem grow_handed {platform : Platform} {world : World} {address : Int} {buffer : ByteBuffer}
    (grounded : world.object.Grounded) (settled : world.object.ValSettled platform)
    (backing : buffer.backing = .direct address)
    (only : OnlyWithin .native address buffer.capacity world.memory
      (world.grow platform buffer).memory)
    (keyApart : Apart address buffer.capacity world.object.pendingSlots.keyData
      world.object.pendingSlots.keySize)
    (valueApart : Apart address buffer.capacity (world.object.valueByteBuffer.base platform)
      world.object.valueByteBuffer.capacity)
    (written : world.object.valWriteIndex ≠ 0)
    (copied : world.object.valWriteIndex ≤ world.object.valueByteBuffer.limit) :
    handedByOverwrite (world.grow platform buffer) = handedByOverwrite world := by
  have view : world.object.value = _ := settled
  have valid := world.object.valueByteBuffer.valid
  have key := read_congr (only.sameOn keyApart.natural)
  have value := read_grow grounded.valueDirect backing valueApart
    (show ((world.object.valWriteIndex.toNat : Nat) : Int) ≤ _ by omega)
  have slots : (world.grow platform buffer).object.pendingSlots =
      { world.object.pendingSlots with
        valSize := world.object.valWriteIndex, valData := buffer.base platform } := by
    simp only [BufferCursor.pendingSlots, World.grow, DirectBuffer.wrapByteBuffer, ne_eq, written,
      not_false_eq_true, if_true]
    rfl
  have before : world.object.pendingSlots =
      { world.object.pendingSlots with
        valSize := world.object.valWriteIndex
        valData := world.object.valueByteBuffer.base platform } := by
    simp [BufferCursor.pendingSlots, written, view, DirectBuffer.wrapByteBuffer]
  rw [handedByOverwrite_eq grounded.live, handedByOverwrite_eq (by exact grounded.live), slots]
  conv_rhs => rw [before]
  simp only [Slots.denote, key, value]

theorem ensured_preserves {platform : Platform} {allocated : Option Int} {length : Int}
    {world ready : World} (ensured : Ensured platform allocated length world ready)
    (grounded : world.object.Grounded) (settled : world.object.ValSettled platform)
    (fresh : ∀ address capacity, allocated = some address →
      growCapacity 33 (if world.object.valueByteBuffer.capacity = 0 then 1
        else world.object.valueByteBuffer.capacity)
        (wrap32 (world.object.valWriteIndex + length)) = some capacity →
      Apart address capacity world.object.pendingSlots.keyData
        world.object.pendingSlots.keySize ∧
      Apart address capacity (world.object.valueByteBuffer.base platform)
        world.object.valueByteBuffer.capacity)
    (movable : allocated = none ∨
      world.object.valWriteIndex + length ≤ world.object.valueByteBuffer.capacity ∨
      (world.object.valWriteIndex ≠ 0 ∧
        world.object.valWriteIndex ≤ world.object.valueByteBuffer.limit)) :
    handedByOverwrite ready = handedByOverwrite world ∧
      keyRoom platform ready = keyRoom platform world ∧ ready.object.ValSettled platform := by
  have only := ensured.onlyWithin
  have valid := world.object.valueByteBuffer.valid
  have index := grounded.valIndex
  cases ensured with
  | enough room => exact ⟨rfl, rfl, settled⟩
  | @grown address buffer provided backing limit short larger doubled =>
      have base : buffer.base platform = address := by simp [ByteBuffer.base, backing]
      obtain ⟨keyApart, valueApart⟩ := fresh address buffer.capacity provided doubled
      refine ⟨?_, keyRoom_congr rfl rfl rfl rfl, rfl⟩
      have written : world.object.valWriteIndex ≠ 0 ∧
          world.object.valWriteIndex ≤ world.object.valueByteBuffer.limit := by
        rcases movable with none | inside | moved
        · rw [none] at provided
          cases provided
        · by_cases lower : 0 ≤ world.object.valWriteIndex
          · rw [wrap32_of_mem (by omega) (by omega)] at short
            omega
          · omega
        · exact moved
      exact grow_handed grounded settled backing (base ▸ only) keyApart valueApart written.1
        written.2

theorem valWrite_preserves {platform : Platform} {world : World} {call : ValWrite}
    {allocated : Option Int} (grounded : world.object.Grounded)
    (harmless : Event.Harmless platform world (.valWrite call allocated))
    (keeps : Event.Keeps platform world (.valWrite call allocated))
    (fails : Event.Fails platform world (.valWrite call allocated)) :
    Event.Preserves platform world (.valWrite call allocated) := by
  obtain ⟨error, thrown⟩ := fails
  have ended := valWrite_cases platform allocated call world grounded.valIndex
  unfold Event.Preserves
  rw [Event.reply_valWrite] at thrown
  rw [Event.step_valWrite] at *
  generalize (call.perform platform allocated).run world = ending at *
  cases ended with
  | readOnly refused => exact ⟨rfl, rfl⟩
  | noRoom writable =>
      obtain ⟨settled, -, -⟩ := keeps.resolve_left (by simp [writable])
      exact safeVal_preserves grounded settled
  | accepted writable ensured payload_eq accepts => cases thrown
  | @rejected ready payload leftover message writable ensured payload_eq rejects leaves =>
      subst payload_eq
      obtain ⟨settled, terminated, movable⟩ := keeps.resolve_left (by simp [writable])
      have safe := safeVal_preserves grounded settled
      have index := ensured.valWriteIndex
      rw [safeVal_settled settled] at ensured safe index
      have valid := world.object.valueByteBuffer.valid
      have length_eq (lower : 0 ≤ world.object.valWriteIndex) :
          (call.payload ready.object).length = (call.payload world.object).size := by
        rw [call.length_payload ready.object world.object]
        cases call with
        | utf8 data =>
            have short := terminated data rfl
            apply Payload.length_eq_size
            simp only [ValWrite.payload, Payload.size]
            omega
        | _ => rfl
      obtain ⟨handed, room, view⟩ := ensured_preserves ensured
        (by exact ⟨grounded.live, grounded.valueDirect, grounded.keyIndex, grounded.valIndex⟩)
        settled
        (by
          intro address capacity provided doubled
          subst provided
          rw [call.length_payload ready.object world.object] at doubled
          exact harmless capacity doubled)
        (by
          by_cases lower : 0 ≤ world.object.valWriteIndex
          · rwa [length_eq lower]
          · exact .inr (.inr ⟨by simp only; omega, by simp only; omega⟩))
      have empty : leftover = [] := by
        refine Payload.leaves_nothing ?_ ?_ rejects leaves
        · rw [view]
          exact ready.object.valueByteBuffer.valid.2.2.2
        · intro lower data same
          have requested : call = .utf8 data := by
            cases call <;> cases same
            rfl
          have short := terminated data requested
          rw [index] at lower ⊢
          have room := ensured.room lower grounded.valIndex (by
            rw [length_eq lower, requested]
            simpa only [ValWrite.payload, Payload.size, ← add_assoc] using short)
          rw [length_eq lower, requested] at room
          simp only [ValWrite.payload, Payload.size] at room
          simp only [show ready.object.value = _ from view, DirectBuffer.wrapByteBuffer]
          omega
      have unchanged : ready.writeVal leftover = ready := by
        rw [World.writeVal, empty, write_nil]
      rw [finalState_error, unchanged]
      exact ⟨handed.trans safe.1, room.trans safe.2⟩

/-- In every state a cursor can reach, a call that fails leaves the pending entry and the room
in the key as they were, under the conditions of `Keeps`. -/
theorem failures_keep_pending {platform : Platform} {world : World}
    (opened : Opened platform world) (events : List Event) :
    Along (Event.step platform) (fun world event => event.Harmless platform world →
      event.Keeps platform world → event.Fails platform world → event.Preserves platform world)
      world events := by
  refine @along_of_invariant _ _ _ _ (fun world => world.object.Grounded) _ _ opened.grounded
    (fun world event grounded => step_grounded platform event grounded) ?_
  intro world event grounded harmless keeps fails
  cases event with
  | seek op native => exact seek_preserves grounded harmless keeps fails
  | keyWrite call => exact keyWrite_preserves grounded keeps fails
  | valWrite call allocated => exact valWrite_preserves grounded harmless keeps fails
  | submit call native => exact submit_preserves grounded harmless keeps
  | _ => exact fails.elim

theorem failures_keep_pending_byte :
    let world := run (Event.step sampleHost) sampleWorld
      [.keyWrite (.byte 1), .valWrite (.byte 2) none]
    let rejected := Event.keyWrite (.slice (zeros 0 (by decide)) 0 (-1))
    rejected.Fails sampleHost world ∧ rejected.Preserves sampleHost world := by
  have fails : Event.Fails sampleHost (run (Event.step sampleHost) sampleWorld
      [.keyWrite (.byte 1), .valWrite (.byte 2) none])
      (.keyWrite (.slice (zeros 0 (by decide)) 0 (-1))) := ⟨_, rfl⟩
  refine ⟨fails, (failures_keep_pending sampleWorld_opened [.keyWrite (.byte 1),
    .valWrite (.byte 2) none, .keyWrite (.slice (zeros 0 (by decide)) 0 (-1))]).2.2.1 trivial ?_ fails⟩
  exact .inl rfl

def existingPut : NativePut := fun _ slots memory => ⟨mdbKeyExist, slots, memory⟩

/-- After a put that finds the key present, an overwrite hands over the whole key buffer. -/
theorem refused_put_loses_pending :
    let world := run (Event.step sampleHost) sampleWorld
      [.keyWrite (.byte 1), .valWrite (.byte 2) none]
    let refused := Event.submit .put existingPut
    Opened sampleHost sampleWorld ∧ refused.Harmless sampleHost world ∧
    refused.reply sampleHost world = .ok false ∧
    (handedByOverwrite world).map (fun handed => handed.key.length) = some 1 ∧
    (handedByOverwrite (refused.step sampleHost world)).map (fun handed => handed.key.length) =
      some 511 ∧
    ¬refused.Preserves sampleHost world := by
  have before : (handedByOverwrite (run (Event.step sampleHost) sampleWorld
      [.keyWrite (.byte 1), .valWrite (.byte 2) none])).map
        (fun handed => handed.key.length) = some 1 := by
    decide +kernel
  have after : (handedByOverwrite (Event.step sampleHost (run (Event.step sampleHost) sampleWorld
      [.keyWrite (.byte 1), .valWrite (.byte 2) none]) (.submit .put existingPut))).map
        (fun handed => handed.key.length) = some 511 := by
    decide +kernel
  refine ⟨sampleWorld_opened, ⟨.refl _ _ _ _, .refl _ _ _ _⟩, rfl, before, after, ?_⟩
  rintro ⟨handed, -⟩
  rw [handed, before] at after
  cases after

end LmdbJni
