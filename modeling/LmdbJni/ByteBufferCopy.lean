import LmdbJni.DirectBufferPuts

/-!
Copies between a `DirectBuffer` and a `java.nio.ByteBuffer`. Two buffers with the same contents,
position, limit and capacity, one with an array behind it and one direct, are given to the same
call. A read-only heap buffer is taken for a direct one and the call throws. Otherwise `getBytes`
treats them alike; the branch of `putBytes` for an array counts the start index twice, so the two
`putBytes` treat them alike only where nothing is transferred or the copy starts at zero.
-/

namespace LmdbJni

open ByteStore Execution Wrapping

/-- `DirectBuffer` finds the memory behind the buffer. -/
def Backing.Shown : Backing → Prop
  | .direct _ => True
  | .heap _ _ readOnly => readOnly = false

instance (backing : Backing) : Decidable backing.Shown := by
  cases backing <;> unfold Backing.Shown <;> infer_instance

structure BufferShape where
  position : Int
  limit : Int
  capacity : Int
  valid : 0 ≤ position ∧ position ≤ limit ∧ limit ≤ capacity ∧ capacity ≤ 2147483647

namespace BufferShape

def remaining (shape : BufferShape) : Int := shape.limit - shape.position

def buffer (shape : BufferShape) (backing : Backing) : ByteBuffer :=
  ⟨backing, shape.position, shape.limit, shape.capacity, shape.valid⟩

/-- A buffer over a part of an array and a direct one with the same contents. -/
structure Alike (platform : Platform) (shape : BufferShape) (memory : Memory) (array : ArrayRef)
    (arrayOffset address : Int) : Prop where
  lower : 0 ≤ arrayOffset
  upper : arrayOffset + shape.capacity ≤ array.length
  contents : read memory (.array array.id) (platform.arrayBaseOffset + arrayOffset)
    shape.capacity.toNat = read memory .native address shape.capacity.toNat

end BufferShape

inductive BufferCopy
  | getBytes (index length : Int)
  | putBytes (index length : Int)
  | putBytesAt (index srcIndex length : Int)

namespace BufferCopy

def perform (platform : Platform) (view : DirectBuffer) (buffer : ByteBuffer) :
    BufferCopy → EStateM Throwable Memory (Int × ByteBuffer)
  | getBytes index length => view.getBytesByteBuffer platform index buffer length
  | putBytes index length => view.putBytesByteBuffer platform index buffer length
  | putBytesAt index srcIndex length => do
      let count ← view.putBytesByteBufferAt platform index buffer srcIndex length
      return (count, buffer)

def index : BufferCopy → Int
  | getBytes index _ | putBytes index _ | putBytesAt index _ _ => index

/-- Where the copy starts in the `ByteBuffer`. -/
def start (shape : BufferShape) : BufferCopy → Int
  | getBytes _ _ | putBytes _ _ => shape.position
  | putBytesAt _ srcIndex _ => srcIndex

/-- The number of bytes, by the clamping of the call. -/
def count (shape : BufferShape) (capacity : Int) : BufferCopy → Int
  | getBytes index length => min (min shape.remaining (wrap32 (capacity - index))) length
  | putBytes index length => min (min shape.remaining length) (wrap32 (capacity - index))
  | putBytesAt index srcIndex length =>
      min (min length (wrap32 (capacity - index))) (wrap32 (shape.capacity - srcIndex))

/-- The bytes that are to be transferred. -/
def source (platform : Platform) (view : DirectBuffer) (memory : Memory) (shape : BufferShape)
    (backing : Backing) (count : Int) (copy : BufferCopy) : List UInt8 :=
  let buffer := shape.buffer backing
  match copy with
  | getBytes index _ => read memory view.region (view.addressOffset + index) count.toNat
  | putBytes _ _ | putBytesAt _ _ _ =>
      read memory buffer.region (buffer.base platform + copy.start shape) count.toNat

/-- The memory with these bytes in their place. -/
def transferred (platform : Platform) (view : DirectBuffer) (memory : Memory)
    (shape : BufferShape) (backing : Backing) (count : Int) (copy : BufferCopy) : Memory :=
  let buffer := shape.buffer backing
  let bytes := copy.source platform view memory shape backing count
  match copy with
  | getBytes _ _ =>
      write memory buffer.region (buffer.base platform + copy.start shape) bytes
  | putBytes index _ | putBytesAt index _ _ =>
      write memory view.region (view.addressOffset + index) bytes

/-- The two calls end alike: with the same exception and nothing changed, or with the same count,
bytes and position, and nothing else changed. -/
def EndsAlike (platform : Platform) (view : DirectBuffer) (memory : Memory) (shape : BufferShape)
    (heap direct : Backing) (copy : BufferCopy) : Prop :=
  (∃ error, ∀ backing ∈ [heap, direct],
    (copy.perform platform view (shape.buffer backing)).run memory = .error error memory) ∨
  ∃ count position,
    copy.source platform view memory shape heap count =
      copy.source platform view memory shape direct count ∧
    ∀ backing ∈ [heap, direct], ∃ buffer : ByteBuffer,
      buffer.backing = backing ∧ buffer.position = position ∧
      buffer.limit = shape.limit ∧ buffer.capacity = shape.capacity ∧
      (copy.perform platform view (shape.buffer backing)).run memory =
        .ok (count, buffer) (copy.transferred platform view memory shape backing count)

/-- The bounds check accepts the clamped count. -/
def Accepted (shape : BufferShape) (capacity : Int) (copy : BufferCopy) : Prop :=
  0 ≤ copy.index ∧ 0 ≤ copy.count shape capacity ∧
    wrap32 (copy.index + copy.count shape capacity) ≤ capacity

/-- Either the call is refused, or the heap buffer shows its array and nothing is put that does not
come from the start of the buffer. -/
def Sound (shape : BufferShape) (capacity : Int) (readOnly : Bool) (copy : BufferCopy) : Prop :=
  copy.Accepted shape capacity → readOnly = false ∧
    match copy with
    | getBytes _ _ => True
    | putBytes _ _ | putBytesAt _ _ _ => 0 < copy.count shape capacity → copy.start shape = 0

/-- The address a put really copies from. -/
def reached (platform : Platform) (shape : BufferShape) (backing : Backing)
    (copy : BufferCopy) : Int :=
  match backing with
  | .heap _ arrayOffset _ =>
      platform.arrayBaseOffset + arrayOffset + copy.start shape + copy.start shape
  | .direct address => address + copy.start shape

/-- What the call really makes of the memory. -/
def performed (platform : Platform) (view : DirectBuffer) (memory : Memory)
    (shape : BufferShape) (backing : Backing) (count : Int) (copy : BufferCopy) : Memory :=
  let buffer := shape.buffer backing
  match copy with
  | getBytes index _ =>
      ByteStore.copy memory view.region (view.addressOffset + index) buffer.region
        (buffer.base platform + copy.start shape) count.toNat
  | putBytes index _ | putBytesAt index _ _ =>
      ByteStore.copy memory buffer.region (copy.reached platform shape backing) view.region
        (view.addressOffset + index) count.toNat

/-- The position after the call. -/
def finish (shape : BufferShape) (count : Int) : BufferCopy → Int
  | getBytes _ _ | putBytes _ _ => shape.position + count
  | putBytesAt _ _ _ => shape.position

/-- How a call ends. What is behind the buffer matters to the memory, and to the cast where there is
no array to be seen. -/
inductive Ended (platform : Platform) (view : DirectBuffer) (memory : Memory)
    (shape : BufferShape) (backing : Backing) (copy : BufferCopy) :
    EStateM.Result Throwable Memory (Int × ByteBuffer) → Prop
  | accepted {count : Int} {buffer : ByteBuffer} (count_eq : count = copy.count shape view.capacity)
      (inside : view.InBounds copy.index count) (shown : backing.Shown)
      (behind : buffer.backing = backing)
      (position : buffer.position = copy.finish shape count) (limit : buffer.limit = shape.limit)
      (capacity : buffer.capacity = shape.capacity) :
      Ended platform view memory shape backing copy
        (.ok (count, buffer) (copy.performed platform view memory shape backing count))
  | hidden (inside : view.InBounds copy.index (copy.count shape view.capacity))
      (hides : ¬backing.Shown) :
      Ended platform view memory shape backing copy (.error .classCast memory)
  | rejected {count : Int} (count_eq : count = copy.count shape view.capacity)
      (outside : ¬view.InBounds copy.index count) :
      Ended platform view memory shape backing copy (.error (.indexOutOfBounds
        s!"index={copy.index}, length={count}, capacity={view.capacity}") memory)

end BufferCopy

variable {platform : Platform} {view : DirectBuffer} {memory : Memory} {shape : BufferShape}
  {backing : Backing} {copy : BufferCopy}

/-- The last step of the calls that move the position. -/
theorem BufferShape.run_advance (shape : BufferShape) (backing : Backing) {count : Int}
    (positive : 0 ≤ count) (clamped : count ≤ shape.remaining) (memory : Memory) :
    ∃ buffer : ByteBuffer, buffer.backing = backing ∧
      buffer.position = shape.position + count ∧ buffer.limit = shape.limit ∧
      buffer.capacity = shape.capacity ∧
      ((shape.buffer backing).setPosition (wrap32 (shape.position + count)) >>=
        fun buffer => pure (count, buffer) : EStateM Throwable Memory (Int × ByteBuffer)).run
          memory = .ok (count, buffer) memory := by
  have valid := shape.valid
  unfold remaining at clamped
  have moved : wrap32 (shape.position + count) = shape.position + count :=
    wrap32_of_mem (by omega) (by omega)
  have inside : 0 ≤ shape.position + count ∧ shape.position + count ≤ shape.limit := by omega
  refine ⟨⟨backing, shape.position + count, shape.limit, shape.capacity, inside.1, inside.2,
    shape.valid.2.2⟩, rfl, rfl, rfl, rfl, ?_⟩
  have bounded : 0 ≤ shape.position + count ∧
      shape.position + count ≤ (shape.buffer backing).limit := inside
  simp only [moved, ByteBuffer.setPosition, bounded, and_self, dite_true]
  rfl

theorem run_baseOffset (platform : Platform) (shape : BufferShape) (backing : Backing)
    (memory : Memory) :
    (DirectBuffer.baseOffset platform (shape.buffer backing)).run memory =
      if backing.Shown then .ok ((shape.buffer backing).base platform) memory
      else .error .classCast memory := by
  cases backing with
  | direct address => rfl
  | heap array arrayOffset readOnly => cases readOnly <;> rfl

theorem run_putBytesByteBufferAt (platform : Platform) (view : DirectBuffer) (shape : BufferShape)
    (backing : Backing) (index srcIndex length : Int) (memory : Memory) :
    let copy := BufferCopy.putBytesAt index srcIndex length
    let count := copy.count shape view.capacity
    (view.putBytesByteBufferAt platform index (shape.buffer backing) srcIndex length).run memory =
      if view.InBounds index count then
        if backing.Shown then .ok count (copy.performed platform view memory shape backing count)
        else .error .classCast memory
      else .error (.indexOutOfBounds
        s!"index={index}, length={count}, capacity={view.capacity}") memory := by
  unfold DirectBuffer.putBytesByteBufferAt
  rw [run_bind_guard (view.run_boundsCheck _ _ memory)]
  simp only [EStateM.run_bind, run_baseOffset]
  cases backing with
  | direct address => rfl
  | heap array arrayOffset readOnly => cases readOnly <;> rfl

namespace BufferCopy

theorem ended_getBytes (index length : Int) :
    (getBytes index length).Ended platform view memory shape backing
      (((getBytes index length).perform platform view (shape.buffer backing)).run memory) := by
  have clamped : (getBytes index length).count shape view.capacity ≤ shape.remaining := by
    simp only [count]
    omega
  simp only [perform]
  unfold DirectBuffer.getBytesByteBuffer
  rw [run_bind_guard (view.run_boundsCheck _ _ memory)]
  split
  · rename_i inside
    by_cases shown : backing.Shown
    · have base := run_baseOffset platform shape backing memory
      rw [if_pos shown] at base
      rw [run_bind_of_ok base]
      obtain ⟨buffer, behind, position, limit, capacity, ran⟩ :=
        shape.run_advance backing inside.2.1 clamped
          ((getBytes index length).performed platform view memory shape backing
            ((getBytes index length).count shape view.capacity))
      refine Eq.subst (motive := Ended platform view memory shape backing (getBytes index length))
        ran.symm ?_
      exact .accepted rfl inside shown behind position limit capacity
    · have base := run_baseOffset platform shape backing memory
      rw [if_neg shown] at base
      rw [run_bind_of_error base]
      exact .hidden inside shown
  · rename_i outside
    exact .rejected rfl outside

/-- The inner call clamps the count once more and leaves it as it is. -/
theorem count_again (shape : BufferShape) (capacity index length : Int) :
    (putBytesAt index shape.position ((putBytes index length).count shape capacity)).count
      shape capacity = (putBytes index length).count shape capacity := by
  have valid := shape.valid
  have room : wrap32 (shape.capacity - shape.position) =
      shape.capacity - shape.position := wrap32_of_mem (by omega) (by omega)
  simp only [count, room, BufferShape.remaining]
  omega

theorem ended_putBytes (index length : Int) :
    (putBytes index length).Ended platform view memory shape backing
      (((putBytes index length).perform platform view (shape.buffer backing)).run memory) := by
  have clamped : (putBytes index length).count shape view.capacity ≤ shape.remaining := by
    simp only [count]
    omega
  have put := run_putBytesByteBufferAt platform view shape backing index shape.position
    ((putBytes index length).count shape view.capacity) memory
  simp only [count_again] at put
  simp only [perform]
  unfold DirectBuffer.putBytesByteBuffer
  rw [run_bind_guard (view.run_boundsCheck _ _ memory)]
  split
  · rename_i inside
    change view.InBounds index ((putBytes index length).count shape view.capacity) at inside
    rw [if_pos inside] at put
    by_cases shown : backing.Shown
    · rw [if_pos shown] at put
      obtain ⟨buffer, behind, position, limit, capacity, ran⟩ :=
        shape.run_advance backing inside.2.1 clamped
          ((putBytes index length).performed platform view memory shape backing
            ((putBytes index length).count shape view.capacity))
      refine Eq.subst (motive := Ended platform view memory shape backing (putBytes index length))
        ((run_bind_of_ok put).trans ran).symm ?_
      exact .accepted rfl inside shown behind position limit capacity
    · rw [if_neg shown] at put
      refine Eq.subst (motive := Ended platform view memory shape backing (putBytes index length))
        (run_bind_of_error put).symm ?_
      exact .hidden inside shown
  · rename_i outside
    exact .rejected rfl outside

theorem ended (platform : Platform) (view : DirectBuffer) (memory : Memory)
    (shape : BufferShape) (backing : Backing) (copy : BufferCopy) :
    copy.Ended platform view memory shape backing
      ((copy.perform platform view (shape.buffer backing)).run memory) := by
  cases copy with
  | getBytes index length => exact ended_getBytes index length
  | putBytes index length => exact ended_putBytes index length
  | putBytesAt index srcIndex length =>
      simp only [perform, EStateM.run_bind, run_putBytesByteBufferAt]
      by_cases inside : view.InBounds index
          ((putBytesAt index srcIndex length).count shape view.capacity)
      · by_cases shown : backing.Shown
        · rw [if_pos inside, if_pos shown]
          exact .accepted rfl inside shown rfl rfl rfl rfl
        · rw [if_pos inside, if_neg shown]
          exact .hidden inside shown
      · rw [if_neg inside]
        exact .rejected rfl inside

theorem run_inside (inside : view.InBounds copy.index (copy.count shape view.capacity))
    (shown : backing.Shown) :
    let count := copy.count shape view.capacity
    ∃ buffer : ByteBuffer, buffer.backing = backing ∧
      buffer.position = copy.finish shape count ∧ buffer.limit = shape.limit ∧
      buffer.capacity = shape.capacity ∧
      (copy.perform platform view (shape.buffer backing)).run memory =
        .ok (count, buffer) (copy.performed platform view memory shape backing count) := by
  have ended := copy.ended platform view memory shape backing
  generalize (copy.perform platform view (shape.buffer backing)).run memory = result at ended
  cases ended with
  | accepted count_eq accepted shown behind position limit capacity =>
      subst count_eq
      exact ⟨_, behind, position, limit, capacity, rfl⟩
  | hidden accepted hides => exact absurd shown hides
  | rejected count_eq outside =>
      subst count_eq
      exact absurd inside outside

theorem run_hidden (inside : view.InBounds copy.index (copy.count shape view.capacity))
    (hides : ¬backing.Shown) :
    (copy.perform platform view (shape.buffer backing)).run memory = .error .classCast memory := by
  have ended := copy.ended platform view memory shape backing
  generalize (copy.perform platform view (shape.buffer backing)).run memory = result at ended
  cases ended with
  | accepted count_eq accepted shown behind position limit capacity => exact absurd shown hides
  | hidden accepted hides => rfl
  | rejected count_eq outside =>
      subst count_eq
      exact absurd inside outside

theorem run_outside (outside : ¬view.InBounds copy.index (copy.count shape view.capacity)) :
    (copy.perform platform view (shape.buffer backing)).run memory = .error (.indexOutOfBounds
      s!"index={copy.index}, length={copy.count shape view.capacity}, capacity={view.capacity}")
        memory := by
  have ended := copy.ended platform view memory shape backing
  generalize (copy.perform platform view (shape.buffer backing)).run memory = result at ended
  cases ended with
  | accepted count_eq accepted shown behind position limit capacity =>
      subst count_eq
      exact absurd accepted outside
  | hidden accepted hides => exact absurd accepted outside
  | rejected count_eq rejected =>
      subst count_eq
      rfl

variable {array : ArrayRef} {arrayOffset address : Int} {readOnly : Bool}

/-- Contents that agree as a whole agree where a put reads them. -/
theorem source_eq (alike : shape.Alike platform memory array arrayOffset address)
    {count : Int} (lower : 0 ≤ copy.start shape) (upper : copy.start shape + count ≤ shape.capacity) :
    copy.source platform view memory shape (.heap array arrayOffset readOnly) count =
      copy.source platform view memory shape (.direct address) count := by
  have same := read_eq_iff.mp alike.contents
  have slice : read memory (.array array.id)
      (platform.arrayBaseOffset + arrayOffset + copy.start shape) count.toNat =
        read memory .native (address + copy.start shape) count.toNat := by
    rw [read_eq_iff]
    intro index below
    have here := same ((copy.start shape).toNat + index) (by omega)
    rw [Nat.cast_add, Int.toNat_of_nonneg lower, ← Int.add_assoc, ← Int.add_assoc] at here
    exact here
  cases copy with
  | getBytes index length => rfl
  | putBytes index length => exact slice
  | putBytesAt index srcIndex length => exact slice

/-- A call that copies nothing, or from the start, does what it is meant to do. -/
theorem performed_heap {count : Int} (starts : copy.start shape = 0 ∨ count ≤ 0) :
    copy.performed platform view memory shape (.heap array arrayOffset readOnly) count =
      copy.transferred platform view memory shape (.heap array arrayOffset readOnly) count := by
  have bytes : read memory (.array array.id)
      (copy.reached platform shape (.heap array arrayOffset readOnly)) count.toNat =
        read memory (.array array.id)
          (platform.arrayBaseOffset + arrayOffset + copy.start shape) count.toNat := by
    rcases starts with zero | none
    · rw [reached, zero, Int.add_zero, Int.add_zero]
    · rw [Int.toNat_of_nonpos none]
      rfl
  cases copy with
  | getBytes index length => rfl
  | putBytes index length => exact congrArg (write memory _ _) bytes
  | putBytesAt index srcIndex length => exact congrArg (write memory _ _) bytes

theorem performed_direct {count : Int} :
    copy.performed platform view memory shape (.direct address) count =
      copy.transferred platform view memory shape (.direct address) count := by
  cases copy <;> rfl

/-- A put that is sound stays inside the buffer, or copies nothing. -/
theorem Sound.starts (sound : copy.Sound shape view.capacity readOnly)
    (inside : view.InBounds copy.index (copy.count shape view.capacity)) :
    copy.start shape = 0 ∨ copy.count shape view.capacity ≤ 0 ∨
      ∃ index length, copy = getBytes index length := by
  by_cases none : copy.count shape view.capacity ≤ 0
  · exact .inr (.inl none)
  · cases copy with
    | getBytes index length => exact .inr (.inr ⟨index, length, rfl⟩)
    | putBytes index length => exact .inl ((sound inside).2 (by omega))
    | putBytesAt index srcIndex length => exact .inl ((sound inside).2 (by omega))

theorem count_le_capacity (starts : copy.start shape = 0) :
    copy.count shape view.capacity ≤ shape.capacity := by
  have valid := shape.valid
  cases copy with
  | getBytes index length =>
      simp only [count, BufferShape.remaining]
      omega
  | putBytes index length =>
      simp only [count, BufferShape.remaining]
      omega
  | putBytesAt index srcIndex length =>
      simp only [start] at starts
      have room : wrap32 (shape.capacity - srcIndex) = shape.capacity := by
        rw [starts, Int.sub_zero]
        exact wrap32_of_mem (by omega) (by omega)
      simp only [count, room]
      omega

/-- Where the copy starts at zero, copies nothing or is a `getBytes`, the bytes are the right ones
and the same for both buffers. -/
theorem Sound.bytes (sound : copy.Sound shape view.capacity readOnly)
    (inside : view.InBounds copy.index (copy.count shape view.capacity))
    (alike : shape.Alike platform memory array arrayOffset address) :
    let count := copy.count shape view.capacity
    copy.performed platform view memory shape (.heap array arrayOffset readOnly) count =
        copy.transferred platform view memory shape (.heap array arrayOffset readOnly) count ∧
      copy.source platform view memory shape (.heap array arrayOffset readOnly) count =
        copy.source platform view memory shape (.direct address) count := by
  rcases sound.starts inside with zero | none | ⟨index, length, rfl⟩
  · have room := @count_le_capacity view shape copy zero
    exact ⟨performed_heap (.inl zero), source_eq alike (by omega) (by omega)⟩
  · refine ⟨performed_heap (.inr none), ?_⟩
    cases copy <;> simp only [source, Int.toNat_of_nonpos none, read_zero]
  · exact ⟨rfl, rfl⟩

theorem endsAlike_of_sound (sound : copy.Sound shape view.capacity readOnly)
    (alike : shape.Alike platform memory array arrayOffset address) :
    copy.EndsAlike platform view memory shape (.heap array arrayOffset readOnly) (.direct address) := by
  by_cases inside : view.InBounds copy.index (copy.count shape view.capacity)
  · obtain ⟨performed, same⟩ := sound.bytes inside alike
    refine .inr ⟨copy.count shape view.capacity,
      copy.finish shape (copy.count shape view.capacity), same, ?_⟩
    intro backing member
    have shown : backing.Shown := by
      simp only [List.mem_cons, List.not_mem_nil, or_false] at member
      rcases member with rfl | rfl
      · exact (sound inside).1
      · trivial
    obtain ⟨buffer, behind, position, limit, capacity, run⟩ :=
      @run_inside platform view memory shape backing copy inside shown
    refine ⟨buffer, behind, position, limit, capacity, run.trans ?_⟩
    simp only [List.mem_cons, List.not_mem_nil, or_false] at member
    rcases member with rfl | rfl
    · rw [performed]
    · rw [performed_direct]
  · exact .inl ⟨_, fun backing _ => run_outside inside⟩

/-- If the two end alike and the call is not refused, the heap buffer shows its array. -/
theorem EndsAlike.shown
    (alike : copy.EndsAlike platform view memory shape (.heap array arrayOffset readOnly)
      (.direct address))
    (inside : view.InBounds copy.index (copy.count shape view.capacity)) : readOnly = false := by
  by_contra hidden
  have thrown := @run_hidden platform view memory shape (.heap array arrayOffset readOnly) copy
    inside hidden
  obtain ⟨_, -, -, -, -, direct⟩ :=
    @run_inside platform view memory shape (.direct address) copy inside trivial
  rcases alike with ⟨error, failed⟩ | ⟨count, position, -, ends⟩
  · have impossible := failed (.direct address) (by simp)
    rw [direct] at impossible
    cases impossible
  · obtain ⟨_, -, -, -, -, ended⟩ := ends (.heap array arrayOffset readOnly) (by simp)
    rw [thrown] at ended
    cases ended

/-- If the two end alike, a put finds the byte it starts with where the array branch looks. -/
theorem EndsAlike.first_byte
    (alike : copy.EndsAlike platform view memory shape (.heap array arrayOffset readOnly)
      (.direct address))
    (puts : ∀ index length, copy ≠ getBytes index length)
    (inside : view.InBounds copy.index (copy.count shape view.capacity))
    (present : 0 < copy.count shape view.capacity) :
    memory (.array array.id)
        (platform.arrayBaseOffset + arrayOffset + copy.start shape + copy.start shape) =
      memory .native (address + copy.start shape) := by
  obtain ⟨buffer, -, -, -, -, run⟩ :=
    @run_inside platform view memory shape (.heap array arrayOffset readOnly) copy inside
      (alike.shown inside)
  rcases alike with ⟨error, failed⟩ | ⟨count, position, same, ends⟩
  · have impossible := failed (.heap array arrayOffset readOnly) (List.mem_cons_self ..)
    rw [run] at impossible
    cases impossible
  · obtain ⟨other, -, -, -, -, ended⟩ := ends (.heap array arrayOffset readOnly) (List.mem_cons_self ..)
    rw [run] at ended
    injection ended with answer stored
    have count_eq := congrArg Prod.fst answer
    simp only at count_eq
    subst count_eq
    have bytes : read memory (.array array.id)
        (copy.reached platform shape (.heap array arrayOffset readOnly))
          (copy.count shape view.capacity).toNat =
        read memory .native (address + copy.start shape)
          (copy.count shape view.capacity).toNat := by
      cases copy with
      | getBytes index length => exact absurd rfl (puts index length)
      | putBytes index length => exact (write_injective (by simp [source]) stored).trans same
      | putBytesAt index srcIndex length =>
          exact (write_injective (by simp [source]) stored).trans same
    have first := read_eq_iff.mp bytes 0 (by omega)
    rw [Nat.cast_zero, Int.add_zero, Int.add_zero] at first
    exact first

/-- One byte that is set at the start of the copy, in an array and in native memory. -/
def markedMemory (start : Int) : Memory := fun region address =>
  match region with
  | .native => if address = start then 1 else 0
  | .array _ => if address = 16 + start then 1 else 0

theorem marked_alike (shape : BufferShape) (start : Int) :
    shape.Alike ⟨.littleEndian, 16⟩ (markedMemory start) ⟨0, shape.capacity.toNat⟩ 0 0 := by
  have valid := shape.valid
  refine ⟨le_refl 0, by simp only [Int.zero_add]; omega, ?_⟩
  rw [read_eq_iff]
  intro index _
  simp [markedMemory]

theorem sound_of_endsAlike {capacity : Int}
    (ends : ∀ memory, shape.Alike ⟨.littleEndian, 16⟩ memory ⟨0, shape.capacity.toNat⟩ 0 0 →
      copy.EndsAlike ⟨.littleEndian, 16⟩ ⟨some ⟨1, capacity.toNat⟩, none, 16, capacity⟩ memory
        shape (.heap ⟨0, shape.capacity.toNat⟩ 0 readOnly) (.direct 0)) :
    copy.Sound shape capacity readOnly := by
  intro accepted
  have inside : DirectBuffer.InBounds ⟨some ⟨1, capacity.toNat⟩, none, 16, capacity⟩
      copy.index (copy.count shape capacity) := accepted
  have marked := ends (markedMemory (copy.start shape)) (marked_alike shape (copy.start shape))
  have start_zero (puts : ∀ index length, copy ≠ getBytes index length)
      (present : 0 < copy.count shape capacity) : copy.start shape = 0 := by
    have first := marked.first_byte puts inside present
    by_contra nonzero
    simp [markedMemory, nonzero] at first
  refine ⟨marked.shown inside, ?_⟩
  cases copy with
  | getBytes index length => trivial
  | putBytes index length => exact start_zero (fun _ _ => nofun)
  | putBytesAt index srcIndex length => exact start_zero (fun _ _ => nofun)

end BufferCopy

/-- For every kind of heap buffer, with or without an array to be seen. -/
theorem backing_irrelevant_iff (copy : BufferCopy) (shape : BufferShape) (capacity : Int)
    (readOnly : Bool) :
    (∀ (platform : Platform) (view : DirectBuffer) (memory : Memory) (array : ArrayRef)
        (arrayOffset address : Int), view.capacity = capacity →
        shape.Alike platform memory array arrayOffset address →
        copy.EndsAlike platform view memory shape (.heap array arrayOffset readOnly)
          (.direct address)) ↔
      copy.Sound shape capacity readOnly := by
  constructor
  · intro ends
    apply BufferCopy.sound_of_endsAlike
    intro memory alike
    exact ends _ _ memory _ _ _ rfl alike
  · rintro sound platform view memory array arrayOffset address rfl alike
    exact BufferCopy.endsAlike_of_sound sound alike

/-- `10, 20, 30, 40` in an array and in native memory. -/
def tensMemory : Memory := fun region address =>
  match region with
  | .native => UInt8.ofNat (10 * (address + 1).toNat)
  | .array _ => UInt8.ofNat (10 * (address - 15).toNat)

def fourBytes : BufferShape := ⟨0, 4, 4, by decide⟩

theorem tensMemory_alike : fourBytes.Alike ⟨.littleEndian, 16⟩ tensMemory ⟨0, 4⟩ 0 0 :=
  ⟨by decide, by decide, by decide⟩

theorem backing_irrelevant_at_start :
    (BufferCopy.putBytesAt 0 0 4).EndsAlike ⟨.littleEndian, 16⟩ (.wrapAddress 1000 8) tensMemory
      fourBytes (.heap ⟨0, 4⟩ 0 false) (.direct 0) :=
  (backing_irrelevant_iff (.putBytesAt 0 0 4) fourBytes 8 false).mpr (fun _ => ⟨rfl, fun _ => rfl⟩)
    _ _ _ _ _ _ rfl tensMemory_alike

theorem array_start_counted_twice :
    let copy := BufferCopy.putBytesAt 0 1 2
    let view := DirectBuffer.wrapAddress 1000 8
    fourBytes.Alike ⟨.littleEndian, 16⟩ tensMemory ⟨0, 4⟩ 0 0 ∧
    read (finalState ((copy.perform ⟨.littleEndian, 16⟩ view
      (fourBytes.buffer (.direct 0))).run tensMemory)) .native 1000 2 = [20, 30] ∧
    read (finalState ((copy.perform ⟨.littleEndian, 16⟩ view
      (fourBytes.buffer (.heap ⟨0, 4⟩ 0 false))).run tensMemory)) .native 1000 2 = [30, 40] ∧
    ¬copy.EndsAlike ⟨.littleEndian, 16⟩ view tensMemory fourBytes (.heap ⟨0, 4⟩ 0 false)
      (.direct 0) := by
  refine ⟨tensMemory_alike, by decide, by decide, fun ends => ?_⟩
  have first := ends.first_byte (fun _ _ => nofun) (by decide) (by decide)
  revert first
  decide

end LmdbJni
