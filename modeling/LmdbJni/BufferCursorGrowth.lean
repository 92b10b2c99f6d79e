import LmdbJni.ValueRecords

/-!
The growth of the value buffer. `ensureValueWritableBytes` doubles an `int` until it reaches the
capacity it needs, allocates a buffer of that capacity and copies the old one through the
`ByteBuffer` API. The first part settles what the loop ends with for every capacity, write index
and request, the second what becomes of the bytes that were pending.
-/

namespace LmdbJni

open ByteStore Execution Wrapping

section Loop

/-- `while (newCapacity < minNewCapacity)`, without a bound on its turns. `none` is the exception
for a capacity that has been doubled to zero. -/
inductive Doubling (minimum : Int) : Int → Option Int → Prop
  | reached {current : Int} (enough : minimum ≤ current) : Doubling minimum current (some current)
  | exceeded {current : Int} (below : current < minimum) (zero : wrap32 (current * 2) = 0) :
      Doubling minimum current none
  | turn {current : Int} {ended : Option Int} (below : current < minimum)
      (nonzero : wrap32 (current * 2) ≠ 0) (rest : Doubling minimum (wrap32 (current * 2)) ended) :
      Doubling minimum current ended

theorem wrap32_shifted_out (start : Int) {doublings : Nat} (many : 32 ≤ doublings) :
    wrap32 (start * 2 ^ doublings) = 0 := by
  obtain ⟨further, rfl⟩ := Nat.exists_eq_add_of_le many
  have multiple : start * 2 ^ (32 + further) = 4294967296 * (start * 2 ^ further) := by
    rw [pow_add]
    ring
  rw [multiple]
  unfold wrap32
  omega

/-- After 32 doublings nothing is left of an `int`, so a value that is not zero has turns left. -/
theorem growCapacity_ends {start minimum : Int} {turns doublings : Nat}
    (nonzero : wrap32 (start * 2 ^ doublings) ≠ 0) (enough : 32 ≤ turns + doublings) :
    Doubling minimum (wrap32 (start * 2 ^ doublings))
      (growCapacity turns (wrap32 (start * 2 ^ doublings)) minimum) := by
  induction turns generalizing doublings with
  | zero => exact absurd (wrap32_shifted_out start (by omega)) nonzero
  | succ turns ih =>
      have doubled : wrap32 (wrap32 (start * 2 ^ doublings) * 2) =
          wrap32 (start * 2 ^ (doublings + 1)) := by
        rw [wrap32_mul, pow_succ, mul_assoc]
      rw [growCapacity]
      by_cases below : wrap32 (start * 2 ^ doublings) < minimum
      · rw [if_pos below]
        by_cases zero : wrap32 (wrap32 (start * 2 ^ doublings) * 2) = 0
        · rw [if_pos zero]
          exact .exceeded below zero
        · rw [if_neg zero]
          refine .turn below zero ?_
          rw [doubled] at zero ⊢
          exact ih zero (by omega)
      · rw [if_neg below]
        exact .reached (by omega)

/-- The capacity the loop starts from. -/
def BufferCursor.startCapacity (object : BufferCursor) : Int :=
  if object.valueByteBuffer.capacity = 0 then 1 else object.valueByteBuffer.capacity

theorem BufferCursor.startCapacity_bounds (object : BufferCursor) :
    1 ≤ object.startCapacity ∧ object.startCapacity ≤ 2147483647 ∧
      object.valueByteBuffer.capacity ≤ object.startCapacity := by
  have valid := object.valueByteBuffer.valid
  unfold startCapacity
  split <;> omega

/-- The loop of `ensureValueWritableBytes(minWritableBytes)` ends. -/
def BufferCursor.LoopEnds (object : BufferCursor) (minWritableBytes : Int) : Prop :=
  let minimum := wrap32 (object.valWriteIndex + minWritableBytes)
  Doubling minimum object.startCapacity (growCapacity 33 object.startCapacity minimum)

theorem BufferCursor.loop_ends (object : BufferCursor) (minWritableBytes : Int) :
    object.LoopEnds minWritableBytes := by
  obtain ⟨positive, representable, -⟩ := object.startCapacity_bounds
  have start : wrap32 (object.startCapacity * 2 ^ 0) = object.startCapacity := by
    rw [pow_zero, mul_one, wrap32_of_mem (by omega) representable]
  have ended := @growCapacity_ends object.startCapacity
    (wrap32 (object.valWriteIndex + minWritableBytes)) 33 0 (by rw [start]; omega) (by omega)
  rw [start] at ended
  exact ended

/-- A return leaves room for the bytes asked for in a buffer that has not shrunk, an exception
leaves everything as it was. -/
def RoomEnsured (minWritableBytes : Int) (world : World) :
    EStateM.Result Throwable World Unit → Prop
  | .ok _ after =>
      after.object.valWriteIndex = world.object.valWriteIndex ∧
      world.object.valueByteBuffer.capacity ≤ after.object.valueByteBuffer.capacity ∧
      minWritableBytes ≤ after.object.valueByteBuffer.capacity - world.object.valWriteIndex
  | .error _ after =>
      after.object.valueByteBuffer = world.object.valueByteBuffer ∧
      after.object.value = world.object.value ∧
      after.object.valWriteIndex = world.object.valWriteIndex

variable {platform : Platform} {address minWritableBytes : Int} {world : World}

theorem Ensured.capacity_le {allocated : Option Int} {after : World}
    (ensured : Ensured platform allocated minWritableBytes world after) :
    world.object.valueByteBuffer.capacity ≤ after.object.valueByteBuffer.capacity := by
  cases ensured with
  | enough room => exact le_refl _
  | grown provided backing limit short larger doubled => exact larger

theorem room_ensured (lower : 0 ≤ world.object.valWriteIndex)
    (upper : world.object.valWriteIndex ≤ world.object.valueByteBuffer.capacity)
    (representable : world.object.valWriteIndex + minWritableBytes ≤ 2147483647) :
    RoomEnsured minWritableBytes world
      ((ensureValueWritableBytes platform (some address) minWritableBytes).run world) := by
  rcases ensure_cases platform (some address) minWritableBytes world with
    ⟨after, ensured, run⟩ | ⟨-, -, error, run⟩
  · have valid := world.object.valueByteBuffer.valid
    have room := ensured.room lower (by omega) representable
    rw [run]
    exact ⟨ensured.valWriteIndex, ensured.capacity_le, by omega⟩
  · rw [run]
    exact ⟨rfl, rfl, rfl⟩

/-- With a sum that overflows the loop is not entered: the old capacity is allocated again. -/
theorem overflow_leaves_no_room
    (upper : world.object.valWriteIndex ≤ world.object.valueByteBuffer.capacity)
    (request : minWritableBytes ≤ 2147483647)
    (overflows : 2147483647 < world.object.valWriteIndex + minWritableBytes) :
    ¬RoomEnsured minWritableBytes world
      ((ensureValueWritableBytes platform (some address) minWritableBytes).run world) := by
  have valid := world.object.valueByteBuffer.valid
  obtain ⟨positive, -, -⟩ := world.object.startCapacity_bounds
  have negative : wrap32 (world.object.valWriteIndex + minWritableBytes) < 0 := by
    unfold wrap32
    omega
  have kept : growCapacity 33 world.object.startCapacity
      (wrap32 (world.object.valWriteIndex + minWritableBytes)) =
        some world.object.startCapacity := by
    rw [growCapacity, if_neg (by omega)]
  have same : world.object.startCapacity = world.object.valueByteBuffer.capacity := by
    unfold BufferCursor.startCapacity
    rw [if_neg (by omega)]
  rcases ensure_cases platform (some address) minWritableBytes world with
    ⟨after, ensured, run⟩ | ⟨-, missing, -⟩
  · rw [run]
    rintro ⟨-, -, room⟩
    cases ensured with
    | enough sufficient =>
        omega
    | grown provided backing limit short larger doubled =>
        have capacity := kept.symm.trans doubled
        injection capacity with capacity
        simp only [World.grow] at room
        omega
  · rcases missing with thrown | failed
    · cases kept.symm.trans thrown
    · cases failed

theorem room_ensured_iff (lower : 0 ≤ world.object.valWriteIndex)
    (upper : world.object.valWriteIndex ≤ world.object.valueByteBuffer.capacity)
    (request : 0 ≤ minWritableBytes ∧ minWritableBytes ≤ 2147483647) :
    world.object.LoopEnds minWritableBytes ∧
    (RoomEnsured minWritableBytes world
        ((ensureValueWritableBytes platform (some address) minWritableBytes).run world) ↔
      world.object.valWriteIndex + minWritableBytes ≤ 2147483647) := by
  refine ⟨world.object.loop_ends minWritableBytes, fun ensured => ?_,
    room_ensured lower upper⟩
  by_contra overflows
  exact overflow_leaves_no_room upper request.2 (by omega) ensured

/-- The cursor after 16 bytes have filled its buffer. -/
def filledWorld : World :=
  { sampleWorld with object := { sampleWorld.object with valWriteIndex := 16 } }

theorem room_ensured_twenty :
    RoomEnsured 20 filledWorld
      ((ensureValueWritableBytes sampleHost (some 100000) 20).run filledWorld) :=
  (room_ensured_iff (by decide) (by decide) (by decide)).2.mpr (by decide)

theorem overflowing_request_returns :
    ¬RoomEnsured 2147483647 filledWorld
      ((ensureValueWritableBytes sampleHost (some 100000) 2147483647).run filledWorld) :=
  overflow_leaves_no_room (by decide) (by decide) (by decide)

end Loop

section Pending

/-- The bytes `[0, valWriteIndex)` of the value view. -/
def World.pendingVal (world : World) : List UInt8 :=
  read world.memory world.object.value.region world.object.value.addressOffset
    world.object.valWriteIndex.toNat

/-- One `valWrite*` call, with the block the allocator has for it. -/
structure ValCall where
  write : ValWrite
  allocated : Option Int

namespace ValCall

def step (platform : Platform) (world : World) (call : ValCall) : World :=
  finalState ((call.write.perform platform call.allocated).run world)

def Returns (platform : Platform) (world : World) (call : ValCall) : Prop :=
  ∃ after, (call.write.perform platform call.allocated).run world = .ok () after

/-- The `ensureValueWritableBytes` of the call. -/
def ensure (platform : Platform) (world : World) (call : ValCall) :
    EStateM.Result Throwable World Unit :=
  (ensureValueWritableBytes platform call.allocated (call.write.payload world.object).length).run
    (world.safeVal platform)

/-- It leaves the pending bytes as they are. -/
def GrowthKeeps (platform : Platform) (world : World) (call : ValCall) : Prop :=
  ∀ ready, call.ensure platform world = .ok () ready →
    ready.pendingVal = (world.safeVal platform).pendingVal

/-- The bytes the caller passes. -/
def given (world : World) (call : ValCall) : List UInt8 :=
  (call.write.payload world.object).stored world.memory

/-- The bytes the call finds in its source once there is room for them. -/
def taken (platform : Platform) (world : World) (call : ValCall) : List UInt8 :=
  match call.ensure platform world with
  | .ok _ ready => (call.write.payload ready.object).stored ready.memory
  | .error _ _ => []

/-- The block of a new buffer overlaps neither the old buffer nor the bytes the call reads. -/
def Allocates (platform : Platform) (world : World) (call : ValCall) : Prop :=
  ∀ address capacity, call.allocated = some address →
    call.write.Requests world.object capacity →
    Apart address capacity (world.object.valueByteBuffer.base platform)
      world.object.valueByteBuffer.capacity ∧
    (call.write.payload world.object).ReadsOutside address capacity

def Fits (world : World) (call : ValCall) : Prop :=
  world.object.valWriteIndex + (call.write.payload world.object).size ≤ 2147483647

/-- When the buffer has to grow, nothing but zeros is pending behind its limit. -/
def Covered (platform : Platform) (world : World) (call : ValCall) : Prop :=
  let buffer := world.object.valueByteBuffer
  buffer.capacity < world.object.valWriteIndex + (call.write.payload world.object).size →
  ∀ index, buffer.limit ≤ index → index < world.object.valWriteIndex →
    world.memory .native (buffer.base platform + index) = 0

/-- Where a new buffer begins and how large it is, if the call needs one. -/
def grown (world : World) (call : ValCall) : Option (Int × Int) :=
  let buffer := world.object.valueByteBuffer
  if buffer.capacity < world.object.valWriteIndex + (call.write.payload world.object).size then do
    let address ← call.allocated
    let capacity ← growCapacity 33 (if buffer.capacity = 0 then 1 else buffer.capacity)
      (wrap32 (world.object.valWriteIndex + (call.write.payload world.object).length))
    return (address, capacity)
  else none

/-- What the value view of the cursor shows once it is the view of a scratch buffer with room: a
new buffer has the bytes up to the limit of the old one, and zeros behind them. -/
def viewByte (platform : Platform) (world : World) (call : ValCall) (index : Int) : UInt8 :=
  let buffer := world.object.valueByteBuffer
  match call.grown world with
  | none => world.memory .native (buffer.base platform + index)
  | some (address, capacity) =>
      if index < buffer.limit then world.memory .native (buffer.base platform + index)
      else if index < capacity then 0 else world.memory .native (address + index)

/-- A call whose source is the value view of the cursor itself: the bytes of the view are the same
before and after the view is moved. -/
def SourceStands (platform : Platform) (world : World) (call : ValCall) : Prop :=
  match call.write with
  | .buffer .ownValue sourceIndex length =>
      ∀ index, sourceIndex ≤ index → index < sourceIndex + length →
        call.viewByte platform world index =
          world.memory world.object.value.region (world.object.value.addressOffset + index)
  | _ => True

structure Keeps (platform : Platform) (world : World) (call : ValCall) : Prop where
  fits : call.Fits world
  covered : call.Covered platform world
  source : call.SourceStands platform world

end ValCall

/-- The value side of a cursor to which values are being written. -/
structure World.Appending (platform : Platform) (world : World) : Prop where
  grounded : world.object.Grounded
  shown : world.object.ValueShown (fun _ => True) platform
  lower : 0 ≤ world.object.valWriteIndex
  upper : world.object.valWriteIndex ≤ world.object.valueByteBuffer.capacity
  begun : world.object.valWriteIndex ≠ 0 → world.object.valDatbaseMemoryLocation = false

variable {platform : Platform} {world : World} {call : ValCall}

theorem World.safeVal_fields (platform : Platform) (world : World) :
    (world.safeVal platform).object.valueByteBuffer = world.object.valueByteBuffer ∧
    (world.safeVal platform).object.valWriteIndex = world.object.valWriteIndex ∧
    (world.safeVal platform).object.key = world.object.key ∧
    (world.safeVal platform).object.valDatbaseMemoryLocation = false ∧
    (world.safeVal platform).memory = world.memory := by
  simp [World.safeVal, BufferCursor.setSafeValMemoryLocation_eq]

theorem pendingVal_eq (shown : world.object.ValueShown (fun _ => True) platform)
    (direct : world.object.valueByteBuffer.isDirect = true)
    (own : world.object.valDatbaseMemoryLocation = false) :
    world.pendingVal = read world.memory .native (world.object.valueByteBuffer.base platform)
      world.object.valWriteIndex.toNat := by
  unfold World.pendingVal
  rw [shown.view own, BufferCursor.region_wrapByteBuffer platform direct]
  rfl

theorem World.safeVal_pendingVal (shown : world.object.ValueShown (fun _ => True) platform)
    (direct : world.object.valueByteBuffer.isDirect = true) :
    (world.safeVal platform).pendingVal =
      read world.memory .native (world.object.valueByteBuffer.base platform)
        world.object.valWriteIndex.toNat := by
  obtain ⟨buffer, index, -, own, memory⟩ := world.safeVal_fields platform
  have direct' : (world.safeVal platform).object.valueByteBuffer.isDirect = true := by
    rw [buffer]
    exact direct
  rw [pendingVal_eq shown.safe direct' own, buffer, index, memory]

theorem grow_behind_limit {buffer : ByteBuffer} {index : Nat}
    (behind : world.object.valueByteBuffer.limit ≤ index) (inside : index < buffer.capacity) :
    (world.grow platform buffer).memory .native (buffer.base platform + index) = 0 := by
  have valid := world.object.valueByteBuffer.valid
  have copied := copy_onlyWithin
    (write world.memory .native (buffer.base platform)
      (List.replicate buffer.capacity.toNat (0 : UInt8)))
    world.object.valueByteBuffer.region (world.object.valueByteBuffer.base platform) .native
    (buffer.base platform) world.object.valueByteBuffer.limit.toNat
  have untouched := copied .native (buffer.base platform + index) (by omega)
  have within : index < (List.replicate buffer.capacity.toNat (0 : UInt8)).length := by
    rw [List.length_replicate]
    omega
  have zeroed := write_inside world.memory .native (buffer.base platform)
    (List.replicate buffer.capacity.toNat (0 : UInt8)) within
  rw [List.getElem_replicate] at zeroed
  exact untouched.trans zeroed

/-- Growth keeps the pending bytes exactly when those behind the limit are zeros. -/
theorem read_grow_iff {address : Int} {buffer : ByteBuffer} {count : Int}
    (direct : world.object.valueByteBuffer.isDirect = true)
    (backing : buffer.backing = .direct address)
    (larger : world.object.valueByteBuffer.capacity ≤ buffer.capacity)
    (fresh : Apart address buffer.capacity (world.object.valueByteBuffer.base platform)
      world.object.valueByteBuffer.capacity)
    (inside : count ≤ world.object.valueByteBuffer.capacity) :
    read (world.grow platform buffer).memory .native (buffer.base platform) count.toNat =
        read world.memory .native (world.object.valueByteBuffer.base platform) count.toNat ↔
      ∀ index, world.object.valueByteBuffer.limit ≤ index → index < count →
        world.memory .native (world.object.valueByteBuffer.base platform + index) = 0 := by
  have valid := world.object.valueByteBuffer.valid
  have copied := read_eq_iff.mp (@read_grow platform world address buffer direct backing fresh
    world.object.valueByteBuffer.limit.toNat (by omega))
  rw [read_eq_iff]
  constructor
  · intro same index behind below
    have zero := @grow_behind_limit platform world buffer index.toNat (by omega) (by omega)
    have equal := same index.toNat (by omega)
    rw [Int.toNat_of_nonneg (by omega)] at zero equal
    exact equal.symm.trans zero
  · intro zeros index below
    by_cases behind : world.object.valueByteBuffer.limit ≤ index
    · rw [grow_behind_limit behind (by omega), zeros index behind (by omega)]
    · exact copied index (by omega)

/-- A call that returns has found room, and has stored the bytes of its source there. -/
theorem ValCall.Returns.appended (returns : call.Returns platform world)
    (appending : world.Appending platform) :
    ∃ ready, call.ensure platform world = .ok () ready ∧
      Ensured platform call.allocated (call.write.payload world.object).length
        (world.safeVal platform) ready ∧
      (call.write.payload ready.object).Accepts ready.object.value ready.object.valWriteIndex ∧
      call.step platform world = { ready with
        memory := (ready.writeVal ((call.write.payload ready.object).stored ready.memory ++
          (call.write.payload ready.object).spill platform)).memory
        object := ready.object.advanceVal (call.write.payload world.object).length } := by
  obtain ⟨after, returned⟩ := returns
  have representable : (world.safeVal platform).object.valWriteIndex ≤ 2147483647 := by
    rw [(world.safeVal_fields platform).2.1]
    exact appending.grounded.valIndex
  unfold ValCall.step ValCall.ensure
  rw [call.write.perform_eq platform call.allocated world.object,
    run_putVal platform call.allocated _ _ appending.shown.writable] at returned ⊢
  rcases ensure_cases platform call.allocated (call.write.payload world.object).length
      (world.safeVal platform) with
    ⟨ready, ensured, run⟩ | ⟨-, -, error, run⟩
  · rw [run] at returned ⊢
    rcases Payload.put_cases platform (call.write.payload ready.object) ready.object.value
        ready.memory (ensured.valWriteIndex.trans_le representable) with
      ⟨accepts, put⟩ | ⟨-, message, leftover, -, put⟩
    · refine ⟨ready, rfl, ensured, accepts, ?_⟩
      simp only [put]
      rfl
    · simp only [put] at returned
      cases returned
  · rw [run] at returned
    cases returned

theorem World.Appending.pendingVal (appending : world.Appending platform) :
    (world.safeVal platform).pendingVal = world.pendingVal := by
  have direct := appending.grounded.valueDirect
  rw [World.safeVal_pendingVal appending.shown direct]
  cases own : world.object.valDatbaseMemoryLocation with
  | false => rw [pendingVal_eq appending.shown direct own]
  | true =>
      have none : world.object.valWriteIndex = 0 := by
        by_contra some
        rw [appending.begun some] at own
        cases own
      simp [World.pendingVal, none]

theorem Ensured.own {allocated : Option Int} {length : Int} {ready : World}
    (ensured : Ensured platform allocated length world ready)
    (own : world.object.valDatbaseMemoryLocation = false) :
    ready.object.valDatbaseMemoryLocation = false := by
  cases ensured with
  | enough room => exact own
  | grown provided backing limit short larger doubled => exact own

theorem Ensured.appending {allocated : Option Int} {length : Int} {ready : World}
    (ensured : Ensured platform allocated length (world.safeVal platform) ready)
    (appending : world.Appending platform) :
    ready.Appending platform ∧ ready.object.valDatbaseMemoryLocation = false ∧
      ready.object.valWriteIndex = world.object.valWriteIndex := by
  obtain ⟨buffer, index, -, own, -⟩ := world.safeVal_fields platform
  have grounded : (world.safeVal platform).object.Grounded := by
    obtain ⟨live, valueDirect, keyIndex, valIndex⟩ := appending.grounded
    simp only [World.safeVal, BufferCursor.setSafeValMemoryLocation_eq]
    exact ⟨live, valueDirect, keyIndex, valIndex⟩
  have shown := ensured.valueShown (fun _ _ => trivial) appending.shown.safe
  have readyIndex := ensured.valWriteIndex.trans index
  have larger := ensured.capacity_le
  have lower := appending.lower
  have upper := appending.upper
  rw [buffer] at larger
  have readyOwn := ensured.own own
  have readyGrounded : ready.object.Grounded := by
    cases ensured with
    | enough room => exact grounded
    | grown provided backing limit short larger doubled =>
        refine ⟨grounded.live, ?_, grounded.keyIndex, grounded.valIndex⟩
        simp [World.grow, ByteBuffer.isDirect, backing]
  exact ⟨⟨readyGrounded, shown, by omega, by omega, fun _ => readyOwn⟩, readyOwn, readyIndex⟩

/-- Both lists are as long as the call says. -/
theorem ValCall.Returns.lengths (returns : call.Returns platform world)
    (appending : world.Appending platform) :
    0 ≤ (call.write.payload world.object).size ∧
      ((call.given world).length : Int) = (call.write.payload world.object).size ∧
      ((call.taken platform world).length : Int) = (call.write.payload world.object).size := by
  obtain ⟨ready, run, -, accepts, -⟩ := returns.appended appending
  have size := call.write.size_payload ready.object world.object
  have positive := Payload.size_nonneg accepts
  rw [size] at positive
  refine ⟨positive, Payload.stored_length_of_nonneg world.memory positive, ?_⟩
  simp only [ValCall.taken, run]
  rw [Payload.stored_length ready.memory accepts, size]

/-- One call, from the state in which it has found room. -/
theorem ValCall.Returns.extends (returns : call.Returns platform world)
    (appending : world.Appending platform) (fits : call.Fits world)
    (keeps : call.GrowthKeeps platform world) :
    (call.step platform world).Appending platform ∧
      (call.step platform world).object.valWriteIndex =
        world.object.valWriteIndex + (call.write.payload world.object).size ∧
      (call.step platform world).pendingVal = world.pendingVal ++ call.taken platform world := by
  obtain ⟨positive, -, length⟩ := returns.lengths appending
  obtain ⟨ready, run, ensured, accepts, stepped⟩ := returns.appended appending
  obtain ⟨readyAppending, own, index⟩ := ensured.appending appending
  have lower := appending.lower
  unfold ValCall.Fits at fits
  have payloadLength := @Payload.length_eq_size (call.write.payload world.object) (by omega)
  have room := ensured.room (by rw [(world.safeVal_fields platform).2.1]; exact lower)
    (by rw [(world.safeVal_fields platform).2.1]; omega)
    (by rw [(world.safeVal_fields platform).2.1, payloadLength]; exact fits)
  rw [(world.safeVal_fields platform).2.1, payloadLength] at room
  have advanced : (call.step platform world).object.valWriteIndex =
      world.object.valWriteIndex + (call.write.payload world.object).size := by
    rw [stepped]
    simp only [BufferCursor.advanceVal, index, payloadLength]
    exact wrap32_of_mem (by omega) fits
  have taken : call.taken platform world =
      (call.write.payload ready.object).stored ready.memory := by
    simp only [ValCall.taken, run]
  have direct := readyAppending.grounded.valueDirect
  have shown : (call.step platform world).object.ValueShown (fun _ => True) platform := by
    rw [stepped]
    exact ⟨readyAppending.shown.writable, trivial, readyAppending.shown.view⟩
  have afterOwn : (call.step platform world).object.valDatbaseMemoryLocation = false := by
    rw [stepped]
    exact own
  have grounded : (call.step platform world).object.Grounded := by
    rw [ValCall.step, ← Event.step_valWrite]
    exact step_grounded platform _ appending.grounded
  have buffer : (call.step platform world).object.valueByteBuffer =
      ready.object.valueByteBuffer := by
    rw [stepped]
    rfl
  refine ⟨⟨grounded, shown, by omega, by rw [advanced, buffer]; exact room, fun _ => afterOwn⟩,
    advanced, ?_⟩
  have kept := (keeps ready run).trans appending.pendingVal
  rw [pendingVal_eq readyAppending.shown direct own, index] at kept
  have total : (call.step platform world).object.valWriteIndex.toNat =
      world.object.valWriteIndex.toNat + (call.taken platform world).length := by
    omega
  rw [pendingVal_eq shown grounded.valueDirect afterOwn, total, buffer, stepped, ← kept, taken]
  simp only [World.writeVal]
  rw [readyAppending.shown.view own, BufferCursor.region_wrapByteBuffer platform direct, index]
  have natural : world.object.valWriteIndex = (world.object.valWriteIndex.toNat : Int) := by
    omega
  rw [natural]
  exact read_write_extend_left ready.memory .native _ _ _ _

theorem ValCall.growthKeeps_iff (returns : call.Returns platform world)
    (appending : world.Appending platform) (fits : call.Fits world)
    (allocates : call.Allocates platform world) :
    call.GrowthKeeps platform world ↔ call.Covered platform world := by
  obtain ⟨positive, -, -⟩ := returns.lengths appending
  obtain ⟨ready, run, ensured, -, -⟩ := returns.appended appending
  obtain ⟨buffer_eq, index_eq, -, -, memory_eq⟩ := world.safeVal_fields platform
  have lower := appending.lower
  have upper := appending.upper
  have direct := appending.grounded.valueDirect
  have valid := world.object.valueByteBuffer.valid
  unfold ValCall.Fits at fits
  have length := @Payload.length_eq_size (call.write.payload world.object) (by omega)
  have difference : wrap32 (world.object.valueByteBuffer.capacity -
      world.object.valWriteIndex) =
        world.object.valueByteBuffer.capacity - world.object.valWriteIndex :=
    wrap32_of_mem (by omega) (by omega)
  have unique : call.GrowthKeeps platform world ↔
      ready.pendingVal = (world.safeVal platform).pendingVal := by
    refine ⟨fun keeps => keeps ready run, fun same other otherRun => ?_⟩
    cases run.symm.trans otherRun
    exact same
  have readyPending : ready.pendingVal = read ready.memory .native
      (ready.object.valueByteBuffer.base platform) world.object.valWriteIndex.toNat := by
    obtain ⟨readyAppending, own, index⟩ := ensured.appending appending
    rw [pendingVal_eq readyAppending.shown readyAppending.grounded.valueDirect own, index]
  rw [unique, readyPending, World.safeVal_pendingVal appending.shown direct]
  cases ensured with
  | enough room =>
      rw [buffer_eq, index_eq, length, difference] at room
      rw [buffer_eq, memory_eq]
      exact iff_of_true rfl fun short => by omega
  | @grown address buffer provided backing limit short larger doubled =>
      rw [buffer_eq, index_eq, length, difference] at short
      rw [buffer_eq] at larger
      rw [buffer_eq, index_eq] at doubled
      obtain ⟨apart, -⟩ := allocates address buffer.capacity provided doubled
      have exact_iff := @read_grow_iff platform (world.safeVal platform) address buffer
        world.object.valWriteIndex (by rw [buffer_eq]; exact direct) backing
        (by rw [buffer_eq]; exact larger) (by rw [buffer_eq]; exact apart)
        (by rw [buffer_eq]; exact upper)
      rw [buffer_eq, memory_eq] at exact_iff
      refine exact_iff.trans ⟨fun zeros _ => zeros, fun covered => covered ?_⟩
      omega

/-- The scratch buffer that has room shows what `viewByte` says. -/
theorem Ensured.viewByte {ready : World} {index : Nat}
    (ensured : Ensured platform call.allocated (call.write.payload world.object).length
      (world.safeVal platform) ready)
    (appending : world.Appending platform) (fits : call.Fits world)
    (allocates : call.Allocates platform world) :
    ready.memory .native (ready.object.valueByteBuffer.base platform + index) =
      call.viewByte platform world index := by
  obtain ⟨buffer_eq, index_eq, -, -, memory_eq⟩ := world.safeVal_fields platform
  have lower := appending.lower
  have upper := appending.upper
  have direct := appending.grounded.valueDirect
  have valid := world.object.valueByteBuffer.valid
  unfold ValCall.Fits at fits
  have length := @Payload.length_eq_size (call.write.payload world.object) (by omega)
  have difference : wrap32 (world.object.valueByteBuffer.capacity -
      world.object.valWriteIndex) =
        world.object.valueByteBuffer.capacity - world.object.valWriteIndex :=
    wrap32_of_mem (by omega) (by omega)
  have within := ensured.onlyWithin
  cases ensured with
  | enough room =>
      rw [buffer_eq, index_eq, length, difference] at room
      have none : call.grown world = none := if_neg (by omega)
      simp only [ValCall.viewByte, none, buffer_eq, memory_eq]
  | @grown address buffer provided backing limit short larger doubled =>
      rw [buffer_eq, index_eq, length, difference] at short
      rw [buffer_eq, index_eq] at doubled
      obtain ⟨apart, -⟩ := allocates address buffer.capacity provided doubled
      have base : buffer.base platform = address := by simp [ByteBuffer.base, backing]
      have some : call.grown world = some (address, buffer.capacity) := by
        simp only [ValCall.grown]
        rw [if_pos (by omega), provided, doubled]
        rfl
      simp only [ValCall.viewByte, some]
      split_ifs with before inside
      · have kept := read_eq_iff.mp (@read_grow platform (world.safeVal platform) address buffer
          (by rw [buffer_eq]; exact direct) backing (by rw [buffer_eq]; exact apart)
          world.object.valueByteBuffer.limit.toNat (by rw [buffer_eq]; omega)) index (by omega)
        rwa [buffer_eq, memory_eq] at kept
      · exact grow_behind_limit (by rw [buffer_eq]; omega) inside
      · have outside := within .native (buffer.base platform + index)
          (fun covered => by simp only [World.grow] at covered; omega)
        rw [memory_eq, base] at outside
        simpa only [World.grow, base] using outside

theorem ValCall.taken_own_iff {sourceIndex length : Int} {allocated : Option Int}
    (returns : ValCall.Returns platform world ⟨.buffer .ownValue sourceIndex length, allocated⟩)
    (appending : world.Appending platform)
    (fits : ValCall.Fits world ⟨.buffer .ownValue sourceIndex length, allocated⟩)
    (allocates :
      ValCall.Allocates platform world ⟨.buffer .ownValue sourceIndex length, allocated⟩) :
    ValCall.taken platform world ⟨.buffer .ownValue sourceIndex length, allocated⟩ =
        ValCall.given world ⟨.buffer .ownValue sourceIndex length, allocated⟩ ↔
      ValCall.SourceStands platform world ⟨.buffer .ownValue sourceIndex length, allocated⟩ := by
  obtain ⟨ready, run, ensured, accepts, -⟩ := returns.appended appending
  obtain ⟨readyAppending, own, -⟩ := ensured.appending appending
  obtain ⟨-, sourceLower, lengthLower, -⟩ := accepts
  have taken : ValCall.taken platform world ⟨.buffer .ownValue sourceIndex length, allocated⟩ =
      read ready.memory .native
        (ready.object.valueByteBuffer.base platform + sourceIndex) length.toNat := by
    simp only [ValCall.taken, run, ValWrite.payload, Source.buffer, Payload.stored]
    rw [readyAppending.shown.view own,
      BufferCursor.region_wrapByteBuffer platform readyAppending.grounded.valueDirect]
    rfl
  rw [taken]
  simp only [ValCall.given, ValWrite.payload, Source.buffer, Payload.stored]
  rw [read_eq_iff]
  have shows (index : Nat) := @Ensured.viewByte platform world
    ⟨.buffer .ownValue sourceIndex length, allocated⟩ ready index ensured appending fits allocates
  constructor
  · intro same index above below
    have equal := same (index - sourceIndex).toNat (by omega)
    have shown := shows index.toNat
    rw [Int.toNat_of_nonneg (by omega)] at equal shown
    rw [← shown]
    simpa only [add_assoc, add_sub_cancel] using equal
  · intro stands index below
    have equal := stands (sourceIndex + index) (by omega) (by omega)
    have shown := shows (sourceIndex + index).toNat
    rw [Int.toNat_of_nonneg (by omega)] at shown
    rw [add_assoc, add_assoc, shown, equal]

theorem ValCall.taken_eq_given (returns : call.Returns platform world)
    (appending : world.Appending platform) (fits : call.Fits world)
    (allocates : call.Allocates platform world) (stands : call.SourceStands platform world) :
    call.taken platform world = call.given world := by
  obtain ⟨ready, run, ensured, -, -⟩ := returns.appended appending
  have taken : call.taken platform world =
      (call.write.payload ready.object).stored ready.memory := by
    simp only [ValCall.taken, run]
  obtain ⟨write, allocated⟩ := call
  cases write with
  | buffer source sourceIndex length =>
      have outside (address capacity : Int) (provided : allocated = some address)
          (requested : (ValWrite.buffer source sourceIndex length).Requests world.object
            capacity) :=
        (allocates address capacity provided requested).2
      cases source with
      | other buffer =>
          exact taken.trans
            (ensured.stored_source appending.lower appending.upper outside rfl)
      | ownKey =>
          exact taken.trans
            (ensured.stored_source appending.lower appending.upper outside ensured.key)
      | ownValue => exact (ValCall.taken_own_iff returns appending fits allocates).mpr stands
  | _ => exact taken

section Sequence

variable {calls : List ValCall}

theorem pending_collects (appending : world.Appending platform)
    (returns : Along (ValCall.step platform) (ValCall.Returns platform) world calls)
    (fits : Along (ValCall.step platform) ValCall.Fits world calls)
    (keeps : Along (ValCall.step platform) (ValCall.GrowthKeeps platform) world calls) :
    (run (ValCall.step platform) world calls).pendingVal =
      world.pendingVal ++ collect (ValCall.step platform) (ValCall.taken platform) world calls := by
  induction calls generalizing world with
  | nil => simp [collect]
  | cons call rest ih =>
      obtain ⟨next, -, pending⟩ := returns.1.extends appending fits.1 keeps.1
      rw [run_cons, ih next returns.2 fits.2 keeps.2, pending, collect, List.append_assoc]

/-- Writes that add up to what an `int` can count fit one by one. -/
theorem fits_of_total (appending : world.Appending platform)
    (returns : Along (ValCall.step platform) (ValCall.Returns platform) world calls)
    (keeps : Along (ValCall.step platform) (ValCall.GrowthKeeps platform) world calls)
    (total : world.object.valWriteIndex +
      (collect (ValCall.step platform) ValCall.given world calls).length ≤ 2147483647) :
    Along (ValCall.step platform) ValCall.Fits world calls := by
  induction calls generalizing world with
  | nil => trivial
  | cons call rest ih =>
      obtain ⟨-, given, -⟩ := returns.1.lengths appending
      rw [collect, List.length_append] at total
      have first : call.Fits world := by
        unfold ValCall.Fits
        omega
      obtain ⟨next, index, -⟩ := returns.1.extends appending first keeps.1
      exact ⟨first, ih next returns.2 keeps.2 (by rw [index]; omega)⟩

/-- What each call gives in the state it meets holds all along a sequence that keeps going. -/
theorem along_sequence {allowed holds : World → ValCall → Prop}
    (appending : world.Appending platform)
    (returns : Along (ValCall.step platform) (ValCall.Returns platform) world calls)
    (along : Along (ValCall.step platform) allowed world calls)
    (proceeds : ∀ world call, allowed world call → world.Appending platform →
      call.Returns platform world → call.Fits world ∧ call.GrowthKeeps platform world)
    (conclude : ∀ world call, allowed world call → world.Appending platform →
      call.Returns platform world → holds world call) :
    Along (ValCall.step platform) holds world calls := by
  refine (along.and returns).transfer appending ?_ ?_
  · rintro world call appending ⟨allowed, returned⟩
    obtain ⟨fits, keeps⟩ := proceeds world call allowed appending returned
    exact (returned.extends appending fits keeps).1
  · rintro world call appending ⟨allowed, returned⟩
    exact conclude world call allowed appending returned

theorem ValCall.sourceStands_of_eq (returns : call.Returns platform world)
    (appending : world.Appending platform) (fits : call.Fits world)
    (allocates : call.Allocates platform world)
    (same : call.taken platform world = call.given world) : call.SourceStands platform world := by
  obtain ⟨write, allocated⟩ := call
  cases write with
  | buffer source sourceIndex length =>
      cases source with
      | ownValue => exact (ValCall.taken_own_iff returns appending fits allocates).mp same
      | _ => trivial
  | _ => trivial

theorem run_calls_grounded (calls : List ValCall) (grounded : world.object.Grounded) :
    (run (ValCall.step platform) world calls).object.Grounded := by
  refine @run_invariant _ _ (ValCall.step platform) (fun world : World => world.object.Grounded)
    world calls grounded ?_
  intro world call grounded
  rw [ValCall.step, ← Event.step_valWrite]
  exact step_grounded platform _ grounded

theorem sequence_appends (appending : world.Appending platform)
    (returns : Along (ValCall.step platform) (ValCall.Returns platform) world calls)
    (allocates : Along (ValCall.step platform) (ValCall.Allocates platform) world calls)
    (keeps : Along (ValCall.step platform) (ValCall.Keeps platform) world calls) :
    Along (ValCall.step platform) (ValCall.GrowthKeeps platform) world calls ∧
      (run (ValCall.step platform) world calls).pendingVal =
        world.pendingVal ++ collect (ValCall.step platform) ValCall.given world calls := by
  have proceeds (world : World) (call : ValCall)
      (facts : call.Keeps platform world ∧ call.Allocates platform world)
      (appending : world.Appending platform) (returned : call.Returns platform world) :
      call.Fits world ∧ call.GrowthKeeps platform world :=
    ⟨facts.1.fits, (ValCall.growthKeeps_iff returned appending facts.1.fits facts.2).mpr
      facts.1.covered⟩
  have growth := along_sequence appending returns (keeps.and allocates) proceeds proceeds
  have same : Along (ValCall.step platform) (fun world call =>
      call.taken platform world = call.given world) world calls := by
    refine along_sequence appending returns (keeps.and allocates) proceeds ?_
    rintro world call ⟨keeps, allocates⟩ appending returned
    exact ValCall.taken_eq_given returned appending keeps.fits allocates keeps.source
  have fits := growth.mono fun _ _ facts => facts.1
  have kept := growth.mono fun _ _ facts => facts.2
  rw [pending_collects appending returns fits kept, collect_congr same]
  exact ⟨kept, rfl⟩

theorem sequence_keeps_iff (appending : world.Appending platform)
    (settled : world.object.valWriteIndex = 0)
    (returns : Along (ValCall.step platform) (ValCall.Returns platform) world calls)
    (allocates : Along (ValCall.step platform) (ValCall.Allocates platform) world calls) :
    (Along (ValCall.step platform) (ValCall.GrowthKeeps platform) world calls ∧
      (run (ValCall.step platform) world calls).pendingVal =
        collect (ValCall.step platform) ValCall.given world calls) ↔
    Along (ValCall.step platform) (ValCall.Keeps platform) world calls := by
  have empty : world.pendingVal = [] := by
    simp [World.pendingVal, settled]
  constructor
  · rintro ⟨growth, gathered⟩
    have representable : (run (ValCall.step platform) world calls).object.valWriteIndex ≤
        2147483647 := (run_calls_grounded calls appending.grounded).valIndex
    have count : (run (ValCall.step platform) world calls).object.valWriteIndex.toNat =
        (collect (ValCall.step platform) ValCall.given world calls).length := by
      simpa [World.pendingVal] using congrArg List.length gathered
    have fits := fits_of_total appending returns growth (by omega)
    have pending := pending_collects appending returns fits growth
    rw [gathered, empty, List.nil_append] at pending
    have lengths : Along (ValCall.step platform) (fun world call =>
        (call.taken platform world).length = (call.given world).length) world calls := by
      refine along_sequence appending returns (fits.and growth)
        (fun _ _ proceeds _ _ => proceeds) ?_
      intro world call _ appending returned
      obtain ⟨-, given, taken⟩ := returned.lengths appending
      omega
    have equal := along_of_collect_eq lengths pending.symm
    refine along_sequence appending returns ((fits.and growth).and (allocates.and equal))
      (fun _ _ facts _ _ => facts.1) ?_
    rintro world call ⟨⟨fits, growth⟩, allocates, same⟩ appending returned
    exact ⟨fits, (ValCall.growthKeeps_iff returned appending fits allocates).mp growth,
      ValCall.sourceStands_of_eq returned appending fits allocates same⟩
  · intro keeps
    have appended := sequence_appends appending returns allocates keeps
    rwa [empty, List.nil_append] at appended

theorem Opened.shown (opened : Opened platform world)
    (writable : world.object.isReadOnly = false) :
    world.object.ValueShown (fun _ => True) platform :=
  ⟨writable, trivial, opened.consistent.valView⟩

theorem Opened.appending (opened : Opened platform world)
    (writable : world.object.isReadOnly = false) (history : List Event)
    (settled : (run (Event.step platform) world history).object.valWriteIndex = 0) :
    (run (Event.step platform) world history).Appending platform := by
  have kept := @run_invariant _ _ (Event.step platform) (fun world : World =>
    world.object.Grounded ∧ world.object.ValueShown (fun _ => True) platform) world history
    ⟨opened.grounded, opened.shown writable⟩ (fun world event facts =>
      ⟨step_grounded platform event facts.1,
        step_valueShown event (fun _ _ => trivial) facts.1 facts.2⟩)
  have valid := (run (Event.step platform) world history).object.valueByteBuffer.valid
  exact ⟨kept.1, kept.2, by omega, by omega, fun some => absurd settled some⟩

/-- While a value is pending, its view is that of the scratch buffer. -/
def BufferCursor.ValBegun (object : BufferCursor) : Prop :=
  object.valWriteIndex ≠ 0 → object.valDatbaseMemoryLocation = false

theorem Opened.valBegun (opened : Opened platform world) : world.object.ValBegun := by
  cases opened with
  | owned live created =>
      obtain ⟨key, value, -, -, representable, made⟩ := newBufferCursor_ok created
      obtain ⟨-, -, rfl⟩ := BufferCursor.create_ok made
      exact fun some => absurd rfl some
  | passed live created =>
      obtain ⟨-, -, rfl⟩ := BufferCursor.create_ok created
      exact fun some => absurd rfl some

theorem Navigated.valBegun {result : NativeReturn} {ended : EStateM.Result Throwable World Bool}
    (navigated : Navigated world result ended) (begun : world.object.ValBegun) :
    (finalState ended).object.ValBegun := by
  cases navigated with
  | missing code => exact fun some => absurd rfl some
  | found code => exact fun some => absurd rfl some
  | failed nonzero present => exact begun

theorem step_valBegun (event : Event) (grounded : world.object.Grounded)
    (begun : world.object.ValBegun) : (event.step platform world).object.ValBegun := by
  have navigation {result : NativeReturn} (called : event.nativeReturn world = some result)
      (ready : (event.prepared world).object.ValBegun) :
      (event.step platform world).object.ValBegun :=
    (Event.navigation_cases platform grounded.live called).valBegun ready
  cases event with
  | position op native => exact navigation rfl begun
  | seek op native =>
      refine navigation rfl ?_
      simp only [Event.prepared, seeking, wrapWrittenKey]
      split <;> exact begun
  | keyWrite call =>
      rw [Event.step_keyWrite]
      have safe : (call.safe platform world.object).ValBegun := by
        intro some
        rw [KeyWrite.safe_valWriteIndex] at some
        cases call <;> simp [KeyWrite.safe, BufferCursor.setSafeKeyMemoryLocation_eq,
          BufferCursor.setSafeValMemoryLocation_eq, begun some]
      have ended := keyWrite_cases platform call world grounded.keyIndex
      generalize (call.perform platform).run world = result at ended
      cases ended with
      | accepted ready_eq payload_eq accepted =>
          subst ready_eq
          exact safe
      | rejected ready_eq payload_eq rejects leaves =>
          subst ready_eq
          exact safe
  | valWrite call allocated =>
      rw [Event.step_valWrite]
      have own := (world.safeVal_fields platform).2.2.2.1
      have ended := valWrite_cases platform allocated call world grounded.valIndex
      generalize (call.perform platform allocated).run world = result at ended
      cases ended with
      | readOnly refused => exact begun
      | noRoom writable => exact fun _ => own
      | accepted writable ensured payload_eq accepted => exact fun _ => ensured.own own
      | rejected writable ensured payload_eq rejects leaves => exact fun _ => ensured.own own
  | submit call native =>
      rw [Event.step_submit platform world call native grounded.live]
      exact fun some => absurd rfl some
  | program change => exact begun

/-- Between two values too, as long as no write overflowed. -/
theorem Opened.appending_of_fits {history : List Event} (opened : Opened platform world)
    (writable : world.object.isReadOnly = false)
    (fits : Along (Event.step platform) (Event.Fits platform) world history) :
    (run (Event.step platform) world history).Appending platform := by
  have consistent := run_consistent opened fits
  obtain ⟨-, -, lower, upper⟩ := consistent.indices
  have kept := @run_invariant _ _ (Event.step platform) (fun world : World =>
    world.object.Grounded ∧ world.object.ValueShown (fun _ => True) platform ∧
      world.object.ValBegun) world history
    ⟨opened.grounded, opened.shown writable, opened.valBegun⟩ (fun world event facts =>
      ⟨step_grounded platform event facts.1,
        step_valueShown event (fun _ _ => trivial) facts.1 facts.2.1,
        step_valBegun event facts.1 facts.2.2⟩)
  exact ⟨kept.1, kept.2.1, lower, upper, kept.2.2⟩

theorem growth_keeps_pending_iff {history : List Event} (opened : Opened platform world)
    (writable : world.object.isReadOnly = false) :
    let start := run (Event.step platform) world history
    start.object.valWriteIndex = 0 →
    Along (ValCall.step platform) (ValCall.Returns platform) start calls →
    Along (ValCall.step platform) (ValCall.Allocates platform) start calls →
    ((Along (ValCall.step platform) (ValCall.GrowthKeeps platform) start calls ∧
        (run (ValCall.step platform) start calls).pendingVal =
          collect (ValCall.step platform) ValCall.given start calls) ↔
      Along (ValCall.step platform) (ValCall.Keeps platform) start calls) := by
  intro start settled returns allocates
  exact sequence_keeps_iff (opened.appending writable history settled) settled returns allocates

/-- A direct buffer of four bytes whose limit the caller has set. -/
def callerBuffer (limit : Int) (inside : 0 ≤ limit ∧ limit ≤ 4) : ByteBuffer :=
  ⟨.direct 8192, 0, limit, 4, le_refl 0, inside.1, inside.2, by decide⟩

/-- `Database.bufferCursor(tx, key, value)` over that buffer. -/
def passedWorld (limit : Int) (inside : 0 ≤ limit ∧ limit ≤ 4) : World where
  memory := fun _ _ => 0
  object :=
    { cursor := sampleWorld.object.cursor, keyByteBuffer := sampleWorld.object.keyByteBuffer
      valueByteBuffer := callerBuffer limit inside, isReadOnly := false
      key := .wrapByteBuffer sampleHost sampleWorld.object.keyByteBuffer
      value := .wrapByteBuffer sampleHost (callerBuffer limit inside)
      keyDatbaseMemoryLocation := false, valDatbaseMemoryLocation := false
      keyWriteIndex := 0, valWriteIndex := 0, validPosition := false }
  submissions := []

theorem passedWorld_opened (limit : Int) (inside : 0 ≤ limit ∧ limit ≤ 4) :
    Opened sampleHost (passedWorld limit inside) := by
  have created : BufferCursor.create sampleWorld.object.cursor
      (.wrapByteBuffer sampleHost sampleWorld.object.keyByteBuffer)
      (.wrapByteBuffer sampleHost (callerBuffer limit inside)) =
        .ok (passedWorld limit inside).object := rfl
  exact .passed (by decide) created

/-- Four bytes fill the buffer, the fifth makes it grow. -/
def fiveBytes : List ValCall := [⟨.int 0x01020304, none⟩, ⟨.byte 5, some 65536⟩]

theorem fiveBytes_allocates (limit : Int) (inside : 0 ≤ limit ∧ limit ≤ 4) :
    Along (ValCall.step sampleHost) (ValCall.Allocates sampleHost) (passedWorld limit inside)
      fiveBytes := by
  refine ⟨fun address capacity provided _ => (by cases provided), ?_, trivial⟩
  intro address capacity provided requested
  cases provided
  have eight : growCapacity 33 4 5 = some 8 := by decide
  have apart : Apart 65536 8 8192 4 := by decide
  cases eight.symm.trans requested
  exact ⟨apart, trivial⟩

theorem growth_keeps_pending_five :
    (run (ValCall.step sampleHost) (passedWorld 4 (by decide)) fiveBytes).pendingVal =
      collect (ValCall.step sampleHost) ValCall.given (passedWorld 4 (by decide)) fiveBytes := by
  have kept := @growth_keeps_pending_iff sampleHost (passedWorld 4 (by decide)) fiveBytes []
    (passedWorld_opened _ _) rfl rfl ⟨⟨_, rfl⟩, ⟨_, rfl⟩, trivial⟩ (fiveBytes_allocates _ _)
  refine (kept.mpr ⟨⟨?_, ?_, trivial⟩, ⟨?_, ?_, trivial⟩, trivial⟩).2
  · unfold ValCall.Fits
    decide
  · exact fun short => absurd short (by decide)
  · unfold ValCall.Fits
    decide
  · intro _ index behind below
    have four : (4 : Int) ≤ index := behind
    have inside : index < 4 := below
    omega

theorem growth_drops_bytes_behind_limit :
    let world := passedWorld 2 (by decide)
    Opened sampleHost world ∧
    Along (ValCall.step sampleHost) (ValCall.Returns sampleHost) world fiveBytes ∧
    Along (ValCall.step sampleHost) (ValCall.Allocates sampleHost) world fiveBytes ∧
    (run (ValCall.step sampleHost) world fiveBytes).pendingVal = [1, 2, 0, 0, 5] ∧
    collect (ValCall.step sampleHost) ValCall.given world fiveBytes = [1, 2, 3, 4, 5] :=
  ⟨passedWorld_opened _ _, ⟨⟨_, rfl⟩, ⟨_, rfl⟩, trivial⟩, fiveBytes_allocates _ _,
    by decide +kernel, by decide +kernel⟩

end Sequence

end Pending

end LmdbJni
