import LmdbJni.DirectBufferBounds
import LmdbJni.NativeBuffer

/-!
`NativeBuffer.write` and `read` on the two kinds of platform. With `Unsafe` the offset in the
array is checked and then forgotten: the copy starts at the first element. `buffer_copy` honours
it. The two agree exactly where the offset is zero or nothing is copied, and the sums in the
checks may overflow on top of that.
-/

namespace LmdbJni

open ByteStore Execution Wrapping

def IsLong (value : Int) : Prop := -9223372036854775808 ≤ value ∧ value ≤ 9223372036854775807

/-- The arguments of a call, the capacity of the buffer and the length of the array. -/
structure NativeCopy where
  position : Int
  offset : Int
  length : Int
  capacity : Int
  arrayLength : Nat

namespace NativeCopy

/-- What the argument checks let through. -/
def Accepted (call : NativeCopy) : Prop :=
  0 ≤ call.length ∧ 0 ≤ call.offset ∧ 0 ≤ call.position ∧
    wrap64 (call.position + call.length) ≤ call.capacity ∧
    wrap32 (call.offset + call.length) ≤ call.arrayLength

instance (call : NativeCopy) : Decidable call.Accepted := inferInstanceAs (Decidable (_ ∧ _))

structure Ranged (call : NativeCopy) : Prop where
  position : IsLong call.position
  offset : IsInt call.offset
  length : IsInt call.length
  capacity : IsLong call.capacity
  array : call.arrayLength ≤ 2147483647

/-- `write` and `read` do the same whether there is an `Unsafe` or not. -/
def BranchesAgree (call : NativeCopy) : Prop :=
  ∀ (platform : Platform) (allocation array : Nat) (self : Int) (memory : Memory),
    let buffer : NativeBuffer := ⟨allocation, self, call.capacity⟩
    let bytes : ArrayRef := ⟨array, call.arrayLength⟩
    (buffer.write .copyMemory platform call.position bytes call.offset call.length).run memory =
      (buffer.write .bufferCopy platform call.position bytes call.offset call.length).run memory ∧
    (buffer.read .copyMemory platform call.position bytes call.offset call.length).run memory =
      (buffer.read .bufferCopy platform call.position bytes call.offset call.length).run memory

/-- Accepted arguments are inside the array and the buffer. -/
def ChecksBound (call : NativeCopy) : Prop :=
  call.Accepted → 0 ≤ call.offset ∧ call.offset + call.length ≤ call.arrayLength ∧
    call.position + call.length ≤ call.capacity

def Sound (call : NativeCopy) : Prop :=
  call.Accepted → (call.offset = 0 ∨ call.length = 0) ∧
    call.position + call.length ≤ 9223372036854775807

end NativeCopy

theorem NativeBuffer.run_checkRange {σ : Type} (call : NativeCopy) {allocation array : Nat}
    {self : Int} (exceeds : String) :
    ∃ error, ∀ state : σ,
      (NativeBuffer.checkRange ⟨allocation, self, call.capacity⟩ call.position
        ⟨array, call.arrayLength⟩ call.offset call.length exceeds).run state =
      if self ≠ 0 ∧ call.Accepted then .ok () state else .error error state := by
  unfold NativeBuffer.checkRange NativeObject.checkAllocated NativeObject.isAllocated
    NativeCopy.Accepted
  by_cases freed : self = 0
  · refine ⟨.lmdbException "Native object has been freed." (-1), fun state => ?_⟩
    simp [freed]
  by_cases negative : call.length < 0
  · refine ⟨.illegalArgument "length cannot be negative", fun state => ?_⟩
    simp [freed, negative, Int.not_le.mpr negative]
  by_cases before : call.offset < 0
  · refine ⟨.illegalArgument "offset cannot be negative", fun state => ?_⟩
    simp [freed, negative, before, Int.not_le.mpr before]
  by_cases below : call.position < 0
  · refine ⟨.illegalArgument "at cannot be negative", fun state => ?_⟩
    simp [freed, negative, before, below, Int.not_le.mpr below]
  by_cases beyond : call.capacity < wrap64 (call.position + call.length)
  · refine ⟨.arrayIndexOutOfBounds "at + length exceeds the capacity of this object",
      fun state => ?_⟩
    simp [freed, negative, before, below, beyond, Int.not_le.mpr beyond]
  · refine ⟨.arrayIndexOutOfBounds exceeds, fun state => ?_⟩
    by_cases behind : (call.arrayLength : Int) < wrap32 (call.offset + call.length)
    · simp [freed, negative, before, below, beyond, behind, Int.not_le.mpr behind]
    · simp [freed, negative, before, below, beyond, behind, Int.not_lt.mp negative,
        Int.not_lt.mp before, Int.not_lt.mp below, Int.not_lt.mp beyond, Int.not_lt.mp behind]

namespace NativeCopy

/-- Where a mover starts in the array. -/
def skipped (call : NativeCopy) : Mover → Int
  | .copyMemory => 0
  | .bufferCopy => call.offset

def written (mover : Mover) (platform : Platform) (array : Nat) (self : Int) (memory : Memory)
    (call : NativeCopy) : Memory :=
  copy memory (.array array) (platform.arrayBaseOffset + call.skipped mover) .native
    (wrap64 (self + call.position)) call.length.toNat

def fetched (mover : Mover) (platform : Platform) (array : Nat) (self : Int) (memory : Memory)
    (call : NativeCopy) : Memory :=
  copy memory .native (wrap64 (self + call.position)) (.array array)
    (platform.arrayBaseOffset + call.skipped mover) call.length.toNat

theorem run_write (call : NativeCopy) {allocation array : Nat} {self : Int} :
    ∃ error, ∀ (mover : Mover) (platform : Platform) (memory : Memory),
      (NativeBuffer.write mover platform ⟨allocation, self, call.capacity⟩ call.position
        ⟨array, call.arrayLength⟩ call.offset call.length).run memory =
      if self ≠ 0 ∧ call.Accepted then .ok () (call.written mover platform array self memory)
      else .error error memory := by
  obtain ⟨error, checked⟩ := @NativeBuffer.run_checkRange Memory call allocation array self
    "offset + length exceed the length of the source buffer"
  refine ⟨error, fun mover platform memory => ?_⟩
  unfold NativeBuffer.write
  rw [run_bind_guard (checked memory)]
  cases mover with
  | copyMemory =>
      rw [written, skipped, Int.add_zero]
      rfl
  | bufferCopy => rfl

theorem run_read (call : NativeCopy) {allocation array : Nat} {self : Int} :
    ∃ error, ∀ (mover : Mover) (platform : Platform) (memory : Memory),
      (NativeBuffer.read mover platform ⟨allocation, self, call.capacity⟩ call.position
        ⟨array, call.arrayLength⟩ call.offset call.length).run memory =
      if self ≠ 0 ∧ call.Accepted then .ok () (call.fetched mover platform array self memory)
      else .error error memory := by
  obtain ⟨error, checked⟩ := @NativeBuffer.run_checkRange Memory call allocation array self
    "offset + length exceed the length of the target buffer"
  refine ⟨error, fun mover platform memory => ?_⟩
  unfold NativeBuffer.read
  rw [run_bind_guard (checked memory)]
  cases mover with
  | copyMemory =>
      rw [fetched, skipped, Int.add_zero]
      rfl
  | bufferCopy => rfl

variable {call : NativeCopy} {platform : Platform} {array : Nat} {self : Int} {memory : Memory}

theorem movers_agree (starts : call.offset = 0 ∨ call.length = 0) :
    call.written .copyMemory platform array self memory =
        call.written .bufferCopy platform array self memory ∧
      call.fetched .copyMemory platform array self memory =
        call.fetched .bufferCopy platform array self memory := by
  unfold written fetched skipped
  rcases starts with zero | none
  · rw [zero]
    exact ⟨rfl, rfl⟩
  · rw [none]
    exact ⟨(write_nil ..).trans (write_nil ..).symm, (write_nil ..).trans (write_nil ..).symm⟩

theorem branchesAgree_of_sound (sound : call.Sound) : call.BranchesAgree := by
  intro platform allocation array self memory buffer bytes
  obtain ⟨_, writes⟩ := @run_write call allocation array self
  obtain ⟨_, reads⟩ := @run_read call allocation array self
  rw [writes, writes, reads, reads]
  by_cases accepted : self ≠ 0 ∧ call.Accepted
  · obtain ⟨written, fetched⟩ := @movers_agree call platform array self memory
      (sound accepted.2).1
    rw [written, fetched]
    exact ⟨rfl, rfl⟩
  · rw [if_neg accepted, if_neg accepted, if_neg accepted, if_neg accepted]
    exact ⟨rfl, rfl⟩

/-- An array in which only the element at the offset is set. -/
def markedArray (offset : Int) : Memory := fun _ address => if address = 16 + offset then 1 else 0

theorem marked_first {offset length : Int} (positive : 0 < length)
    (same : ByteStore.read (markedArray offset) (.array 0) 16 length.toNat =
      ByteStore.read (markedArray offset) (.array 0) (16 + offset) length.toNat) : offset = 0 := by
  have first := read_eq_iff.mp same 0 (by omega)
  by_contra nonzero
  simp [markedArray, nonzero] at first

theorem offset_of_agree (agree : call.BranchesAgree) (accepted : call.Accepted) :
    call.offset = 0 ∨ call.length = 0 := by
  by_cases none : call.length = 0
  · exact .inr none
  · have positive := accepted.1
    refine .inl (@marked_first call.offset call.length (by omega) ?_)
    obtain ⟨_, writes⟩ := @run_write call 0 0 1
    have same := (agree ⟨.littleEndian, 16⟩ 0 0 1 (markedArray call.offset)).1
    rw [writes, writes, if_pos ⟨by decide, accepted⟩, if_pos ⟨by decide, accepted⟩] at same
    injection same with _ stored
    have bytes := write_injective (by simp) stored
    exact bytes

theorem branches_agree_iff (ranged : call.Ranged) :
    call.BranchesAgree ∧ call.ChecksBound ↔ call.Sound := by
  obtain ⟨position, offset, length, capacity, array⟩ := ranged
  unfold IsLong IsInt at *
  constructor
  · rintro ⟨agree, bound⟩ accepted
    have inside := (bound accepted).2.2
    exact ⟨offset_of_agree agree accepted, by omega⟩
  · intro sound
    refine ⟨branchesAgree_of_sound sound, fun accepted => ?_⟩
    obtain ⟨starts, representable⟩ := sound accepted
    obtain ⟨_, lower, below, buffer, behind⟩ := accepted
    rw [wrap64_of_mem (by omega) (by omega)] at buffer
    rw [wrap32_of_mem (by omega) (by omega)] at behind
    exact ⟨lower, behind, buffer⟩

end NativeCopy

section Create

/-- The call `create(data, offset, length)` makes on the buffer it has obtained. -/
def NativeCopy.creating (offset length : Int) (arrayLength : Nat) : NativeCopy :=
  ⟨0, offset, length, length, arrayLength⟩

/-- `create(data, offset, length).toByteArray()` gives back `data[offset..offset+length)`,
whatever pools are there and whichever block `malloc` returns. -/
def RoundTrips (offset length : Int) (arrayLength : Nat) : Prop :=
  ∀ (mover : Mover) (platform : Platform) (world after : BufferWorld) (data fresh : Nat)
    (block : Int) (rc : NativeBuffer),
    (BufferWorld.createFrom mover platform ⟨data, arrayLength⟩ offset length block).run world =
      .ok rc after →
    ∃ last, (rc.toByteArray mover platform fresh).run after.memory =
      .ok (read world.memory (.array data) (platform.arrayBaseOffset + offset) length.toNat) last

variable {heap after : NativeHeap} {capacity block : Int}

/-- The newest view has the capacity asked for. -/
def NativeHeap.Newest (heap : NativeHeap) (capacity : Int) : Prop :=
  ∃ view rest, heap.live = view :: rest ∧ view.capacity = capacity ∧ view.self ≠ 0

theorem make_newest {allocation : Nat} {self : Int}
    (made : (NativeBuffer.make allocation self capacity).run heap = .ok () after) :
    after.Newest capacity := by
  unfold NativeBuffer.make at made
  by_cases freed : self = 0
  · simp [freed] at made
  · simp only [freed, if_false] at made
    obtain ⟨_, middle, -, stored⟩ := run_bind_ok made
    cases stored
    exact ⟨_, _, rfl, rfl, freed⟩

theorem createAlone_newest
    (made : (NativeBuffer.createAlone capacity block).run heap = .ok () after) :
    after.Newest capacity := by
  unfold NativeBuffer.createAlone at made
  obtain ⟨allocation, middle, -, rest⟩ := run_bind_ok made
  obtain ⟨_, _, _, last⟩ := run_bind_ok rest
  exact make_newest last

theorem carve_newest (made : (Pool.carve capacity).run heap = .ok () after) :
    after.Newest capacity := by
  unfold Pool.carve at made
  obtain ⟨pool, middle, -, rest⟩ := run_bind_ok made
  cases chunk : pool.allocation with
  | none =>
      simp only [chunk] at rest
      cases rest
  | some allocation =>
      simp only [chunk] at rest
      obtain ⟨_, viewed, made, stored⟩ := run_bind_ok rest
      have newest := make_newest made
      cases stored
      exact newest

theorem create_newest (made : (NativeBuffer.create capacity block).run heap = .ok () after) :
    after.Newest capacity := by
  unfold NativeBuffer.create at made
  obtain ⟨current, middle, -, rest⟩ := run_bind_ok made
  cases pools : current.pools with
  | nil =>
      simp only [pools] at rest
      exact createAlone_newest rest
  | cons pool others =>
      simp only [pools] at rest
      unfold Pool.create at rest
      obtain ⟨pool, state, -, rest⟩ := run_bind_ok rest
      by_cases large : pool.chunk ≤ capacity
      · rw [if_pos large] at rest
        exact createAlone_newest rest
      · rw [if_neg large] at rest
        obtain ⟨_, _, _, rest⟩ := run_bind_ok rest
        obtain ⟨_, _, _, rest⟩ := run_bind_ok rest
        exact carve_newest rest

variable {mover : Mover} {platform : Platform} {offset length : Int} {arrayLength data : Nat}
  {rc : NativeBuffer}

theorem createFrom_ok {world after : BufferWorld}
    (made : (BufferWorld.createFrom mover platform ⟨data, arrayLength⟩ offset length block).run
      world = .ok rc after) :
    rc.self ≠ 0 ∧ rc.capacity = length ∧
      (NativeCopy.creating offset length arrayLength).Accepted ∧
      after.memory = (NativeCopy.creating offset length arrayLength).written mover platform data
        rc.self world.memory := by
  unfold BufferWorld.createFrom at made
  obtain ⟨_, created, madeHeap, rest⟩ := run_bind_ok made
  obtain ⟨heap, ran, rfl⟩ := zoom_ok madeHeap
  obtain ⟨current, middle, gotten, rest⟩ := run_bind_ok rest
  cases gotten
  obtain ⟨view, others, live, capacity, allocated⟩ := create_newest ran
  simp only [live] at rest
  obtain ⟨_, stored, wrote, returned⟩ := run_bind_ok rest
  cases returned
  obtain ⟨allocation, self, size⟩ := rc
  obtain rfl : size = length := capacity
  obtain ⟨memory, inner, rfl⟩ := zoom_ok wrote
  obtain ⟨error, writes⟩ := @NativeCopy.run_write
    (NativeCopy.creating offset size arrayLength) allocation data self
  have written := (writes mover platform world.memory).symm.trans inner
  by_cases accepted : self ≠ 0 ∧ (NativeCopy.creating offset size arrayLength).Accepted
  · rw [if_pos accepted] at written
    injection written with _ stored
    exact ⟨allocated, rfl, accepted.2, stored.symm⟩
  · rw [if_neg accepted] at written
    cases written

/-- Reading from offset zero into a new array. -/
theorem fetched_read {call : NativeCopy} {self : Int} {fresh : Nat} {memory : Memory}
    (start : call.offset = 0) :
    read (call.fetched mover platform fresh self memory) (.array fresh) platform.arrayBaseOffset
        call.length.toNat =
      read memory .native (wrap64 (self + call.position)) call.length.toNat := by
  have skipped : call.skipped mover = 0 := by
    cases mover with
    | copyMemory => rfl
    | bufferCopy => exact start
  rw [NativeCopy.fetched, skipped, Int.add_zero]
  exact read_copy _ _ _ _ _ (le_refl _)

/-- The second copy starts at the first element, which is right: the array is a new one. -/
theorem toByteArray_returns (fresh : Nat) (memory : Memory) (allocated : rc.self ≠ 0)
    (lower : 0 ≤ rc.capacity) (upper : rc.capacity ≤ 2147483647) :
    ∃ last, (rc.toByteArray mover platform fresh).run memory =
      .ok (read memory .native (wrap64 (rc.self + 0)) rc.capacity.toNat) last := by
  obtain ⟨allocation, self, capacity⟩ := rc
  simp only at lower upper allocated
  have natural : ((capacity.toNat : Nat) : Int) = capacity := Int.toNat_of_nonneg lower
  let call : NativeCopy := ⟨0, 0, capacity.toNat, capacity, capacity.toNat⟩
  have accepted : self ≠ 0 ∧ call.Accepted := by
    refine ⟨allocated, by simp [call], le_refl 0, le_refl 0, ?_, ?_⟩
    · simp only [call, Int.zero_add]
      rw [wrap64_of_mem (by omega) (by omega)]
      omega
    · simp only [call, Int.zero_add]
      rw [wrap32_of_mem (by omega) (by omega)]
  have large : ¬capacity > 2147483647 := by omega
  have negative : ¬capacity < 0 := by omega
  let zeroed := ByteStore.write memory (.array fresh) platform.arrayBaseOffset
    (List.replicate capacity.toNat 0)
  have native : read zeroed .native (wrap64 (self + 0)) capacity.toNat =
      read memory .native (wrap64 (self + 0)) capacity.toNat :=
    read_congr ((write_onlyWithin memory (.array fresh) platform.arrayBaseOffset _).sameOn_of_ne
      nofun)
  obtain ⟨error, reads⟩ := @NativeCopy.run_read call allocation fresh self
  have ran := reads mover platform zeroed
  rw [if_pos accepted] at ran
  have result := @fetched_read mover platform call self fresh zeroed rfl
  refine ⟨call.fetched mover platform fresh self zeroed, ?_⟩
  simp only [NativeBuffer.toByteArray, large, negative, if_false]
  have filled : (modify fun memory : Memory => ByteStore.write memory (.array fresh)
      platform.arrayBaseOffset (List.replicate capacity.toNat 0) :
        EStateM Throwable Memory PUnit).run memory = .ok ⟨⟩ zeroed := rfl
  rw [run_bind_of_ok filled, run_bind_of_ok ran]
  exact congrArg (EStateM.Result.ok · _) (result.trans native)

/-- What `create(data, offset, length).toByteArray()` returns, from where the mover starts. -/
theorem round_trip {world after : BufferWorld} {fresh : Nat} (representable : IsInt length)
    (made : (BufferWorld.createFrom mover platform ⟨data, arrayLength⟩ offset length block).run
      world = .ok rc after) :
    ∃ last, (rc.toByteArray mover platform fresh).run after.memory =
      .ok (read world.memory (.array data) (platform.arrayBaseOffset +
        (NativeCopy.creating offset length arrayLength).skipped mover) length.toNat) last := by
  obtain ⟨allocated, rfl, accepted, stored⟩ := createFrom_ok made
  obtain ⟨last, ran⟩ := @toByteArray_returns mover platform rc fresh after.memory allocated accepted.1
    representable.2
  refine ⟨last, ran.trans (congrArg (EStateM.Result.ok · _) ?_)⟩
  rw [stored]
  exact read_copy _ _ _ _ _ (le_refl _)

theorem createFrom_empty (memory : Memory)
    (accepted : (NativeCopy.creating offset length arrayLength).Accepted) :
    ∃ after, (BufferWorld.createFrom mover platform ⟨data, arrayLength⟩ offset length 1).run
      ⟨NativeHeap.empty, memory⟩ = .ok ⟨0, 1, length⟩ after := by
  obtain ⟨error, writes⟩ := @NativeCopy.run_write
    (NativeCopy.creating offset length arrayLength) 0 data 1
  have wrote := writes mover platform memory
  rw [if_pos ⟨by decide, accepted⟩] at wrote
  let heap : NativeHeap := { NativeHeap.empty.extend length 1 with live := [⟨0, 1, length⟩] }
  have created : (NativeBuffer.create length 1).run NativeHeap.empty = .ok () heap :=
    @run_createAlone NativeHeap.empty length 1 (by decide)
  have madeHeap : (BufferWorld.onHeap (NativeBuffer.create length 1)).run
      ⟨NativeHeap.empty, memory⟩ = .ok () ⟨heap, memory⟩ := run_zoom_of_ok created
  have wroteMemory : (BufferWorld.onMemory ((⟨0, 1, length⟩ : NativeBuffer).write mover platform 0
      ⟨data, arrayLength⟩ offset length)).run ⟨heap, memory⟩ = .ok () ⟨heap, _⟩ :=
    run_zoom_of_ok wrote
  refine ⟨⟨heap, (NativeCopy.creating offset length arrayLength).written mover platform data 1
    memory⟩, ?_⟩
  unfold BufferWorld.createFrom
  rw [run_bind_of_ok madeHeap]
  exact run_bind_of_ok wroteMemory

theorem round_trips_iff (representable : IsInt length) :
    RoundTrips offset length arrayLength ↔
      ((NativeCopy.creating offset length arrayLength).Accepted → offset = 0 ∨ length = 0) := by
  constructor
  · intro trips accepted
    have positive : 0 ≤ length := accepted.1
    by_cases none : length = 0
    · exact .inr none
    · refine .inl (@NativeCopy.marked_first offset length (by omega) ?_)
      obtain ⟨after, made⟩ := @createFrom_empty .copyMemory ⟨.littleEndian, 16⟩ offset length
        arrayLength 0 (NativeCopy.markedArray offset) accepted
      obtain ⟨_, expected⟩ := trips _ _ _ _ _ 1 _ _ made
      obtain ⟨_, returned⟩ := @round_trip 1 .copyMemory _ offset length arrayLength 0 _ _ _ 1
        representable made
      rw [returned] at expected
      injection expected
  · intro starts mover platform world after data fresh block rc made
    obtain ⟨last, returned⟩ := @round_trip block mover platform offset length arrayLength data rc
      world after fresh representable made
    refine ⟨last, returned.trans (congrArg (EStateM.Result.ok · _) ?_)⟩
    rcases starts (createFrom_ok made).2.2.1 with zero | none
    · cases mover with
      | copyMemory => rw [zero]; rfl
      | bufferCopy => rfl
    · rw [none]
      rfl

end Create

/-- One statement for the three parts: the branches, the checks, and the way there and back. -/
theorem native_copies_iff {call : NativeCopy} (ranged : call.Ranged) :
    (call.BranchesAgree ∧ call.ChecksBound ↔ call.Sound) ∧
    (RoundTrips call.offset call.length call.arrayLength ↔
      ((NativeCopy.creating call.offset call.length call.arrayLength).Accepted →
        call.offset = 0 ∨ call.length = 0)) :=
  ⟨NativeCopy.branches_agree_iff ranged, round_trips_iff ranged.length⟩

theorem native_copies_at_start :
    (⟨2, 0, 3, 8, 3⟩ : NativeCopy).BranchesAgree ∧ RoundTrips 0 3 3 := by
  have ranged : (⟨2, 0, 3, 8, 3⟩ : NativeCopy).Ranged :=
    ⟨⟨by decide, by decide⟩, ⟨by decide, by decide⟩, ⟨by decide, by decide⟩,
      ⟨by decide, by decide⟩, by decide⟩
  obtain ⟨branches, trips⟩ := native_copies_iff ranged
  exact ⟨(branches.mpr fun _ => ⟨.inl rfl, by decide⟩).1, trips.mpr fun _ => .inl rfl⟩

/-- `10, 20, 30, 40` in every array. -/
def countedMemory : Memory := fun _ address => UInt8.ofNat (10 * (address - 15).toNat)

theorem copyMemory_ignores_offset :
    let buffer : NativeBuffer := ⟨0, 1000, 8⟩
    let call : NativeCopy := ⟨0, 1, 2, 8, 4⟩
    call.Accepted ∧
    read (finalState ((buffer.write .copyMemory ⟨.littleEndian, 16⟩ 0 ⟨0, 4⟩ 1 2).run
      countedMemory)) .native 1000 2 = [10, 20] ∧
    read (finalState ((buffer.write .bufferCopy ⟨.littleEndian, 16⟩ 0 ⟨0, 4⟩ 1 2).run
      countedMemory)) .native 1000 2 = [20, 30] ∧
    ¬call.BranchesAgree := by
  refine ⟨by decide, by decide, by decide, fun agree => ?_⟩
  rcases NativeCopy.offset_of_agree agree (by decide) with zero | none
  · cases zero
  · cases none

end LmdbJni
