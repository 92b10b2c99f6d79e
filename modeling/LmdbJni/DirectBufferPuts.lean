import LmdbJni.DirectBufferCore

/-!
What the `put` methods of `DirectBuffer` do to memory. A `Payload` is one call of such a
method, with the byte order `BufferCursor` asks for; `Payload.put_cases` is the only place
where the methods are taken apart.
-/

namespace LmdbJni

open ByteStore Execution Wrapping

namespace DirectBuffer

def InBounds (buffer : DirectBuffer) (index length : Int) : Prop :=
  0 ≤ index ∧ 0 ≤ length ∧ wrap32 (index + length) ≤ buffer.capacity

instance (buffer : DirectBuffer) (index length : Int) :
    Decidable (buffer.InBounds index length) := by
  unfold InBounds
  infer_instance

def clamp (buffer : DirectBuffer) (index length available : Int) : Int :=
  min (min length (wrap32 (buffer.capacity - index))) available

theorem run_boundsCheck (buffer : DirectBuffer) (index length : Int) (memory : Memory) :
    (buffer.boundsCheck index length).run memory =
      if buffer.InBounds index length then .ok () memory
      else .error (.indexOutOfBounds
        s!"index={index}, length={length}, capacity={buffer.capacity}") memory := by
  by_cases inside : buffer.InBounds index length
  · obtain ⟨lower, positive, upper⟩ := inside
    have accepted : ¬(index < 0 ∨ length < 0 ∨ wrap32 (index + length) > buffer.capacity) := by
      omega
    simp only [boundsCheck, accepted, InBounds, lower, positive, upper, and_self, if_true, if_false]
    rfl
  · have rejected : index < 0 ∨ length < 0 ∨ wrap32 (index + length) > buffer.capacity := by
      unfold InBounds at inside
      omega
    simp only [boundsCheck, rejected, inside, if_true, if_false]
    rfl

end DirectBuffer

inductive Payload
  | boolean (data : Bool)
  | byte (data : BitVec 32)
  | int (data : BitVec 32)
  | long (data : BitVec 64)
  | float (data : BitVec 32)
  | double (data : BitVec 64)
  | utf8 (data : ByteString)
  | bytes (data : JavaArray)
  | slice (data : JavaArray) (offset length : Int)
  | buffer (buffer : DirectBuffer) (sourceIndex length : Int)

namespace Payload

def put (platform : Platform) : Payload → DirectBuffer → Int → EStateM Throwable Memory Unit
  | boolean data, target, index => target.putByte index (if data then 1 else 0)
  | byte data, target, index => target.putByte index (UInt8.ofNat data.toNat)
  | int data, target, index => target.putInt platform index data .bigEndian
  | long data, target, index => target.putLong platform index data .bigEndian
  | float data, target, index => target.putFloat platform index data .bigEndian
  | double data, target, index => target.putDouble platform index data .bigEndian
  | utf8 data, target, index => target.putString index data
  | bytes data, target, index => discard <| target.putBytes index data 0 data.length
  | slice data offset length, target, index => discard <| target.putBytes index data offset length
  | buffer source sourceIndex length, target, index =>
      target.putBytesFrom index source sourceIndex length

def length : Payload → Int
  | boolean _ => 1
  | byte _ => 1
  | int _ => 4
  | long _ => 8
  | float _ => 4
  | double _ => 8
  | utf8 data => wrap32 (data.size + 1)
  | bytes data => data.length
  | slice _ _ length => length
  | buffer _ _ length => length

/-- `length` without the overflow of `data.size() + 1`. -/
def size : Payload → Int
  | utf8 data => data.size + 1
  | payload => payload.length

/-- The upper half of the `long` that `putFloat` stores on a little-endian host. -/
def signBytes (data : BitVec 32) : List UInt8 :=
  let bits := BitVec.ofNat 32 (ByteOrder.reverseBytes 4 data.toNat)
  ByteOrder.lowBytes 4 ((bits.signExtend 64).toNat / 256 ^ 4)

def spill (platform : Platform) : Payload → List UInt8
  | float data => if platform.nativeByteOrder = .littleEndian then signBytes data else []
  | _ => []

theorem spill_length_le (platform : Platform) (payload : Payload) :
    (payload.spill platform).length ≤ 4 := by
  cases payload with
  | float data =>
      simp only [spill]
      split <;> simp [signBytes]
  | _ => simp [spill]

/-- The bytes a call copies to its target, without the spill. -/
def stored (memory : Memory) : Payload → List UInt8
  | boolean data => [if data then 1 else 0]
  | byte data => [UInt8.ofNat data.toNat]
  | int data => ByteOrder.bigEndian.encode 4 data.toNat
  | long data => ByteOrder.bigEndian.encode 8 data.toNat
  | float data => ByteOrder.bigEndian.encode 4 data.toNat
  | double data => ByteOrder.bigEndian.encode 8 data.toNat
  | utf8 data => data.bytes ++ [0]
  | bytes data => data.elements
  | slice data offset length => data.slice offset length.toNat
  | buffer source sourceIndex length =>
      read memory source.region (source.addressOffset + sourceIndex) length.toNat

/-- What the bounds checks of the call let through. -/
def Accepts (target : DirectBuffer) (index : Int) : Payload → Prop
  | boolean _ => target.InBounds index 1
  | byte _ => target.InBounds index 1
  | int _ => target.InBounds index 4
  | long _ => target.InBounds index 8
  | float _ => target.InBounds index 4
  | double _ => target.InBounds index 8
  | utf8 data => target.InBounds index (target.clamp index data.size data.size) ∧
      target.InBounds (wrap32 (index + data.size)) 1
  | bytes data => target.InBounds index (target.clamp index data.length data.length)
  | slice data _ length => target.InBounds index (target.clamp index length data.length)
  | buffer source sourceIndex length => target.InBounds index length ∧
      source.InBounds sourceIndex length

instance (target : DirectBuffer) (index : Int) (payload : Payload) :
    Decidable (payload.Accepts target index) :=
  match payload with
  | boolean _ => inferInstanceAs (Decidable (target.InBounds index 1))
  | byte _ => inferInstanceAs (Decidable (target.InBounds index 1))
  | int _ => inferInstanceAs (Decidable (target.InBounds index 4))
  | long _ => inferInstanceAs (Decidable (target.InBounds index 8))
  | float _ => inferInstanceAs (Decidable (target.InBounds index 4))
  | double _ => inferInstanceAs (Decidable (target.InBounds index 8))
  | utf8 _ => inferInstanceAs (Decidable (_ ∧ _))
  | bytes _ => inferInstanceAs (Decidable (target.InBounds index _))
  | slice _ _ _ => inferInstanceAs (Decidable (target.InBounds index _))
  | buffer _ _ _ => inferInstanceAs (Decidable (_ ∧ _))

/-- What a rejected call has already written. -/
def Leaves (target : DirectBuffer) (index : Int) (leftover : List UInt8) : Payload → Prop
  | utf8 data => leftover = [] ∨ (leftover = data.bytes ∧
      target.InBounds index (target.clamp index data.size data.size))
  | _ => leftover = []

/-- The two ways a call can end: its bytes are stored at the index, or it is rejected. -/
def PutCases (platform : Platform) (payload : Payload) (target : DirectBuffer) (index : Int)
    (memory : Memory) : Prop :=
  (payload.Accepts target index ∧ (payload.put platform target index).run memory =
    .ok () (write memory target.region (target.addressOffset + index)
      (payload.stored memory ++ payload.spill platform))) ∨
  (¬payload.Accepts target index ∧ ∃ message leftover, payload.Leaves target index leftover ∧
    (payload.put platform target index).run memory = .error (.indexOutOfBounds message)
      (write memory target.region (target.addressOffset + index) leftover))

theorem run_putByte (target : DirectBuffer) (index : Int) (value : UInt8) (memory : Memory) :
    (target.putByte index value).run memory =
      if target.InBounds index 1 then
        .ok () (write memory target.region (target.addressOffset + index) [value])
      else .error (.indexOutOfBounds
        s!"index={index}, length={(1 : Int)}, capacity={target.capacity}") memory := by
  unfold DirectBuffer.putByte
  rw [run_bind_guard (target.run_boundsCheck index 1 memory)]
  rfl

theorem unsafePut_swapped (platform : Platform) (target : DirectBuffer) (width : Nat)
    (index : Int) (value : Nat) (order : ByteOrder) (memory : Memory) :
    (target.unsafePut platform width index
      (DirectBuffer.swapUnlessNative platform width order value)).run memory =
      .ok () (write memory target.region (target.addressOffset + index)
        (order.encode width value)) := by
  have encoded : platform.nativeByteOrder.encode width
      (DirectBuffer.swapUnlessNative platform width order value) = order.encode width value := by
    unfold DirectBuffer.swapUnlessNative
    split
    · rename_i different
      exact ByteOrder.encode_reverseBytes different width value
    · rename_i same
      rw [not_not.mp same]
  unfold DirectBuffer.unsafePut
  rw [encoded]
  rfl

theorem run_putScalar (platform : Platform) (target : DirectBuffer) (width : Nat) (index : Int)
    (value : Nat) (order : ByteOrder) (memory : Memory) :
    (target.putScalar platform width index value order).run memory =
      if target.InBounds index width then
        .ok () (write memory target.region (target.addressOffset + index)
          (order.encode width value))
      else .error (.indexOutOfBounds
        s!"index={index}, length={(width : Int)}, capacity={target.capacity}") memory := by
  unfold DirectBuffer.putScalar
  rw [run_bind_guard (target.run_boundsCheck index width memory), unsafePut_swapped]

/-- The swapped branch of `putFloat` stores the four bytes and the sign bytes behind them. -/
theorem encode_signExtend (data : BitVec 32) :
    ByteOrder.littleEndian.encode 8
      ((BitVec.ofNat 32 (ByteOrder.reverseBytes 4 data.toNat)).signExtend 64).toNat =
      ByteOrder.bigEndian.encode 4 data.toNat ++ signBytes data := by
  have bound : ByteOrder.reverseBytes 4 data.toNat < 2 ^ 32 := by
    have below := ByteOrder.ofLowBytes_lt (ByteOrder.lowBytes 4 data.toNat).reverse
    simpa [ByteOrder.reverseBytes] using below
  have low : ((BitVec.ofNat 32 (ByteOrder.reverseBytes 4 data.toNat)).signExtend 64).toNat %
      256 ^ 4 = ByteOrder.reverseBytes 4 data.toNat := by
    rw [BitVec.toNat_signExtend, BitVec.toNat_setWidth, BitVec.toNat_ofNat]
    split <;> omega
  have halves := ByteOrder.lowBytes_add 4 4
    ((BitVec.ofNat 32 (ByteOrder.reverseBytes 4 data.toNat)).signExtend 64).toNat
  simp only [ByteOrder.encode]
  rw [halves, ← ByteOrder.lowBytes_mod 4, low, ByteOrder.lowBytes_reverseBytes]
  rfl

theorem run_putFloat (platform : Platform) (target : DirectBuffer) (index : Int)
    (data : BitVec 32) (memory : Memory) :
    (target.putFloat platform index data .bigEndian).run memory =
      if target.InBounds index 4 then
        .ok () (write memory target.region (target.addressOffset + index)
          (ByteOrder.bigEndian.encode 4 data.toNat ++ (float data).spill platform))
      else .error (.indexOutOfBounds
        s!"index={index}, length={(4 : Int)}, capacity={target.capacity}") memory := by
  unfold DirectBuffer.putFloat
  rw [run_bind_guard (target.run_boundsCheck index 4 memory)]
  cases order : platform.nativeByteOrder with
  | bigEndian =>
      simp [spill, order, DirectBuffer.unsafePut]
  | littleEndian =>
      simp [spill, order, DirectBuffer.unsafePut, encode_signExtend]

theorem run_putBytes (target : DirectBuffer) (index : Int) (source : JavaArray)
    (offset length : Int) (memory : Memory) :
    (target.putBytes index source offset length).run memory =
      if target.InBounds index (target.clamp index length source.length) then
        .ok length (write memory target.region (target.addressOffset + index)
          (source.slice offset length.toNat))
      else .error (.indexOutOfBounds
        s!"index={index}, length={target.clamp index length source.length}, capacity={target.capacity}")
        memory := by
  unfold DirectBuffer.putBytes
  rw [run_bind_guard (target.run_boundsCheck index _ memory)]
  rfl

theorem run_putBytesFrom (target : DirectBuffer) (index : Int) (source : DirectBuffer)
    (sourceIndex length : Int) (memory : Memory) :
    (target.putBytesFrom index source sourceIndex length).run memory =
      if target.InBounds index length then
        if source.InBounds sourceIndex length then
          .ok () (write memory target.region (target.addressOffset + index)
            (read memory source.region (source.addressOffset + sourceIndex) length.toNat))
        else .error (.indexOutOfBounds
          s!"index={sourceIndex}, length={length}, capacity={source.capacity}") memory
      else .error (.indexOutOfBounds
        s!"index={index}, length={length}, capacity={target.capacity}") memory := by
  unfold DirectBuffer.putBytesFrom
  rw [run_bind_guard (target.run_boundsCheck index length memory),
    run_bind_guard (source.run_boundsCheck sourceIndex length memory)]
  rfl

theorem run_putString (target : DirectBuffer) (index : Int) (data : ByteString)
    (memory : Memory) :
    (target.putString index data).run memory =
      if target.InBounds index (target.clamp index data.size data.size) then
        if target.InBounds (wrap32 (index + data.size)) 1 then
          .ok () (write (write memory target.region (target.addressOffset + index) data.bytes)
            target.region (target.addressOffset + wrap32 (index + data.size)) [0])
        else .error (.indexOutOfBounds
          s!"index={wrap32 (index + data.size)}, length={(1 : Int)}, capacity={target.capacity}")
          (write memory target.region (target.addressOffset + index) data.bytes)
      else .error (.indexOutOfBounds
        s!"index={index}, length={target.clamp index data.size data.size}, capacity={target.capacity}")
        memory := by
  have whole : data.getBytes.slice 0 data.size.toNat = data.bytes := data.getBytes.slice_whole
  unfold DirectBuffer.putString
  simp only [ByteString.getBytes_length, EStateM.run_bind, run_discard, run_putBytes, whole]
  by_cases copied : target.InBounds index (target.clamp index data.size data.size)
  · simp only [copied, if_true]
    exact run_putByte target _ 0 _
  · simp only [copied, if_false]

theorem putCases_of_rejected {payload : Payload} {target : DirectBuffer} {index : Int}
    {memory : Memory} {platform : Platform} {message : String}
    (rejected : ¬payload.Accepts target index) (leaves : payload.Leaves target index [])
    (run : (payload.put platform target index).run memory =
      .error (.indexOutOfBounds message) memory) :
    payload.PutCases platform target index memory := by
  refine .inr ⟨rejected, message, [], leaves, ?_⟩
  rw [run, write_nil]

theorem putCases_of_run {payload : Payload} {target : DirectBuffer} {index : Int}
    {memory : Memory} {platform : Platform} {bytes : List UInt8} {message : String}
    (leaves : payload.Leaves target index [])
    (bytes_eq : bytes = payload.stored memory ++ payload.spill platform)
    (run : (payload.put platform target index).run memory =
      if payload.Accepts target index then
        .ok () (write memory target.region (target.addressOffset + index) bytes)
      else .error (.indexOutOfBounds message) memory) :
    payload.PutCases platform target index memory := by
  by_cases inside : payload.Accepts target index
  · refine .inl ⟨inside, ?_⟩
    rw [run, if_pos inside, bytes_eq]
  · exact putCases_of_rejected inside leaves (run.trans (if_neg inside))

theorem run_discard_putBytes (target : DirectBuffer) (index : Int) (source : JavaArray)
    (offset length : Int) (memory : Memory) :
    (discard (target.putBytes index source offset length) : EStateM Throwable Memory Unit).run
      memory =
      if target.InBounds index (target.clamp index length source.length) then
        .ok () (write memory target.region (target.addressOffset + index)
          (source.slice offset length.toNat))
      else .error (.indexOutOfBounds
        s!"index={index}, length={target.clamp index length source.length}, capacity={target.capacity}")
        memory := by
  rw [run_discard, run_putBytes]
  by_cases inside : target.InBounds index (target.clamp index length source.length) <;>
    simp [inside]

theorem putCases_utf8 (platform : Platform) (data : ByteString) (target : DirectBuffer)
    {index : Int} (memory : Memory) (representable : index ≤ 2147483647) :
    (utf8 data).PutCases platform target index memory := by
  have run := run_putString target index data memory
  by_cases copied : target.InBounds index (target.clamp index data.size data.size)
  · by_cases closed : target.InBounds (wrap32 (index + data.size)) 1
    · left
      refine ⟨⟨copied, closed⟩, run.trans ?_⟩
      have small := data.bounded
      have lower := closed.1
      have above := copied.1
      have unwrapped : wrap32 (index + data.size) = index + data.bytes.length := by
        unfold wrap32 ByteString.size at *
        omega
      rw [if_pos copied, if_pos closed, unwrapped]
      simp only [stored, spill, List.append_nil]
      rw [write_append, Int.add_assoc]
    · right
      rw [if_pos copied, if_neg closed] at run
      exact ⟨fun accepted => closed accepted.2, _, data.bytes, .inr ⟨rfl, copied⟩, run⟩
  · exact putCases_of_rejected (fun accepted => copied accepted.1) (.inl rfl)
      (run.trans (if_neg copied))

theorem put_cases (platform : Platform) (payload : Payload) (target : DirectBuffer) {index : Int}
    (memory : Memory) (representable : index ≤ 2147483647) :
    payload.PutCases platform target index memory := by
  cases payload with
  | boolean data => exact putCases_of_run rfl rfl (run_putByte target index _ memory)
  | byte data => exact putCases_of_run rfl rfl (run_putByte target index _ memory)
  | int data =>
      exact putCases_of_run rfl (List.append_nil _).symm
        (run_putScalar platform target 4 index _ _ memory)
  | long data =>
      exact putCases_of_run rfl (List.append_nil _).symm
        (run_putScalar platform target 8 index _ _ memory)
  | float data => exact putCases_of_run rfl rfl (run_putFloat platform target index _ memory)
  | double data =>
      exact putCases_of_run rfl (List.append_nil _).symm
        (run_putScalar platform target 8 index _ _ memory)
  | utf8 data => exact putCases_utf8 platform data target memory representable
  | bytes data =>
      refine putCases_of_run rfl ?_ (run_discard_putBytes target index data 0 _ memory)
      rw [data.slice_whole]
      exact (List.append_nil _).symm
  | slice data offset length =>
      exact putCases_of_run rfl (List.append_nil _).symm
        (run_discard_putBytes target index data offset length memory)
  | buffer source sourceIndex length =>
      have run := run_putBytesFrom target index source sourceIndex length memory
      by_cases room : target.InBounds index length
      · rw [if_pos room] at run
        by_cases inside : source.InBounds sourceIndex length
        · refine .inl ⟨⟨room, inside⟩, ?_⟩
          simp only [spill, List.append_nil]
          exact run.trans (if_pos inside)
        · exact putCases_of_rejected (fun accepted => inside accepted.2) rfl
            (run.trans (if_neg inside))
      · exact putCases_of_rejected (fun accepted => room accepted.1) rfl
          (run.trans (if_neg room))

/-- The calls whose bounds check looks at the whole length; the two copies from a `byte[]` check
a clamped one. -/
def Checked : Payload → Prop
  | bytes _ => False
  | slice _ _ _ => False
  | _ => True

theorem accepts_inside {payload : Payload} {target : DirectBuffer} {index : Int}
    (accepts : payload.Accepts target index) (checked : payload.Checked)
    (representable : index + payload.size ≤ 2147483647) :
    index + payload.size ≤ target.capacity := by
  cases payload with
  | bytes data => exact checked.elim
  | slice data offset length => exact checked.elim
  | utf8 data =>
      obtain ⟨⟨lower, -⟩, closed, -, upper⟩ := accepts
      simp only [size, ByteString.size] at *
      unfold wrap32 at *
      omega
  | buffer source sourceIndex length =>
      obtain ⟨⟨lower, positive, upper⟩, -⟩ := accepts
      simp only [size, Payload.length] at *
      rwa [wrap32_of_mem (by omega) (by omega)] at upper
  | _ =>
      obtain ⟨lower, positive, upper⟩ := accepts
      simp only [size, Payload.length] at *
      rwa [wrap32_of_mem (by omega) (by omega)] at upper

/-- The calls whose bytes are all in the call itself. -/
def Whole : Payload → Prop
  | slice _ _ _ => False
  | buffer _ _ _ => False
  | _ => True

theorem accepts_of_room {payload : Payload} {target : DirectBuffer} {index : Int}
    (whole : payload.Whole) (lower : 0 ≤ index) (capacity : target.capacity ≤ 2147483647)
    (room : index + payload.size ≤ target.capacity) : payload.Accepts target index := by
  have inside {start length : Int} (above : 0 ≤ start) (positive : 0 ≤ length)
      (upper : start + length ≤ target.capacity) : target.InBounds start length := by
    refine ⟨above, positive, ?_⟩
    rwa [wrap32_of_mem (by omega) (by omega)]
  have clamped {length : Int} (positive : 0 ≤ length)
      (upper : index + length ≤ target.capacity) : target.clamp index length length = length := by
    unfold DirectBuffer.clamp
    rw [wrap32_of_mem (by omega) (by omega)]
    omega
  cases payload with
  | slice data offset length => exact whole.elim
  | buffer source sourceIndex length => exact whole.elim
  | utf8 data =>
      simp only [size] at room
      have positive : 0 ≤ data.size := Int.natCast_nonneg _
      refine ⟨?_, ?_⟩
      · rw [clamped positive (by omega)]
        exact inside lower positive (by omega)
      · rw [wrap32_of_mem (by omega) (by omega)]
        exact inside (by omega) (by decide) (by omega)
  | bytes data =>
      simp only [size, Payload.length] at room
      simp only [Accepts]
      rw [clamped data.length_nonneg room]
      exact inside lower data.length_nonneg room
  | _ => exact inside lower (by decide) room

theorem size_nonneg {payload : Payload} {target : DirectBuffer} {index : Int}
    (accepts : payload.Accepts target index) : 0 ≤ payload.size := by
  cases payload with
  | utf8 data => simp only [size, ByteString.size]; omega
  | bytes data => exact data.length_nonneg
  | slice data offset length =>
      obtain ⟨-, positive, -⟩ := accepts
      simp only [DirectBuffer.clamp, size, Payload.length] at *
      omega
  | buffer source sourceIndex length => exact accepts.1.2.1
  | _ => simp [size, Payload.length]

theorem length_eq_size {payload : Payload} (representable : payload.size ≤ 2147483647) :
    payload.length = payload.size := by
  cases payload with
  | utf8 data =>
      simp only [size, Payload.length, ByteString.size] at *
      exact wrap32_of_mem (by omega) (by omega)
  | _ => rfl

theorem stored_length_of_nonneg {payload : Payload} (memory : Memory)
    (positive : 0 ≤ payload.size) : ((payload.stored memory).length : Int) = payload.size := by
  cases payload <;> simp_all [stored, size, Payload.length, ByteString.size, JavaArray.length]

theorem stored_length {payload : Payload} {target : DirectBuffer} {index : Int} (memory : Memory)
    (accepts : payload.Accepts target index) :
    ((payload.stored memory).length : Int) = payload.size :=
  stored_length_of_nonneg memory (size_nonneg accepts)

end Payload

end LmdbJni
