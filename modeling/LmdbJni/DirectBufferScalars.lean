import LmdbJni.DirectBufferPuts

/-!
The scalar accessors of `DirectBuffer`. A `Scalar` is a value with the accessor pair that
transfers it; the order is `none` for the overloads in native order. A pair `Transfers` the
value if the put stores its encoding and nothing else and the matching get returns it.

Two puts store more than the value is wide. `putFloat` in the order that is not native stores
eight bytes and `putChar` four, so both do their work only where the excess bytes are there
already and, on a big-endian host, where the excess is the value itself.
-/

namespace LmdbJni

open ByteStore Execution Wrapping

inductive Scalar
  | boolean (value : Bool)
  | byte (value : UInt8)
  | char (value : BitVec 16)
  | short (value : BitVec 16) (order : Option ByteOrder)
  | int (value : BitVec 32) (order : Option ByteOrder)
  | long (value : BitVec 64) (order : Option ByteOrder)
  | float (value : BitVec 32) (order : Option ByteOrder)
  | double (value : BitVec 64) (order : Option ByteOrder)

namespace Scalar

def width : Scalar → Nat
  | boolean _ => 1
  | byte _ => 1
  | char _ => 2
  | short _ _ => 2
  | int _ _ => 4
  | long _ _ => 8
  | float _ _ => 4
  | double _ _ => 8

def bits : Scalar → Nat
  | boolean value => value.toNat
  | byte value => value.toNat
  | char value => value.toNat
  | short value _ => value.toNat
  | int value _ => value.toNat
  | long value _ => value.toNat
  | float value _ => value.toNat
  | double value _ => value.toNat

def order (platform : Platform) : Scalar → ByteOrder
  | short _ order => order.getD platform.nativeByteOrder
  | int _ order => order.getD platform.nativeByteOrder
  | long _ order => order.getD platform.nativeByteOrder
  | float _ order => order.getD platform.nativeByteOrder
  | double _ order => order.getD platform.nativeByteOrder
  | _ => platform.nativeByteOrder

def encoding (platform : Platform) (scalar : Scalar) : List UInt8 :=
  (scalar.order platform).encode scalar.width scalar.bits

def put (platform : Platform) (buffer : DirectBuffer) (index : Int) :
    Scalar → EStateM Throwable Memory Unit
  | boolean value => buffer.putBoolean index value
  | byte value => buffer.putByte index value
  | char value => buffer.putChar platform index value
  | short value none => buffer.putShortNative platform index value
  | short value (some order) => buffer.putShort platform index value order
  | int value none => buffer.putIntNative platform index value
  | int value (some order) => buffer.putInt platform index value order
  | long value none => buffer.putLongNative platform index value
  | long value (some order) => buffer.putLong platform index value order
  | float value none => buffer.putFloatNative platform index value
  | float value (some order) => buffer.putFloat platform index value order
  | double value none => buffer.putDoubleNative platform index value
  | double value (some order) => buffer.putDouble platform index value order

/-- The matching get; its result as a bit pattern. -/
def get (platform : Platform) (buffer : DirectBuffer) (index : Int) :
    Scalar → EStateM Throwable Memory Nat
  | boolean _ => Bool.toNat <$> buffer.getBoolean index
  | byte _ => UInt8.toNat <$> buffer.getByte index
  | char _ => BitVec.toNat <$> buffer.getChar platform index
  | short _ none => BitVec.toNat <$> buffer.getShortNative platform index
  | short _ (some order) => BitVec.toNat <$> buffer.getShort platform index order
  | int _ none => BitVec.toNat <$> buffer.getIntNative platform index
  | int _ (some order) => BitVec.toNat <$> buffer.getInt platform index order
  | long _ none => BitVec.toNat <$> buffer.getLongNative platform index
  | long _ (some order) => BitVec.toNat <$> buffer.getLong platform index order
  | float _ none => BitVec.toNat <$> buffer.getFloatNative platform index
  | float _ (some order) => BitVec.toNat <$> buffer.getFloat platform index order
  | double _ none => BitVec.toNat <$> buffer.getDoubleNative platform index
  | double _ (some order) => BitVec.toNat <$> buffer.getDouble platform index order

def Transfers (platform : Platform) (buffer : DirectBuffer) (index : Int) (memory : Memory)
    (scalar : Scalar) : Prop :=
  ∃ after, (scalar.put platform buffer index).run memory = .ok () after ∧
    read after buffer.region (buffer.addressOffset + index) scalar.width =
      scalar.encoding platform ∧
    OnlyWithin buffer.region (buffer.addressOffset + index) scalar.width memory after ∧
    (scalar.get platform buffer index).run after = .ok scalar.bits after

/-- The length the bounds check of the put is made for. -/
def checked : Scalar → Nat
  | char _ => 4
  | scalar => scalar.width

/-- What the put stores behind the encoding, or on a big-endian host in front of it. -/
def excess (platform : Platform) : Scalar → List UInt8
  | char _ => [0, 0]
  | float value (some order) =>
      if platform.nativeByteOrder = order then [] else Payload.signBytes value
  | _ => []

def stored (platform : Platform) (scalar : Scalar) : List UInt8 :=
  match platform.nativeByteOrder with
  | .littleEndian => scalar.encoding platform ++ scalar.excess platform
  | .bigEndian => (scalar.excess platform).reverse ++ scalar.encoding platform

theorem encoding_length (platform : Platform) (scalar : Scalar) :
    (scalar.encoding platform).length = scalar.width := by
  simp [encoding]

theorem bits_lt (scalar : Scalar) : scalar.bits < 256 ^ scalar.width := by
  cases scalar with
  | boolean value => cases value <;> decide
  | byte value => exact value.toNat_lt
  | char value => exact value.isLt
  | short value order => exact value.isLt
  | int value order => exact value.isLt
  | long value order => exact value.isLt
  | float value order => exact value.isLt
  | double value order => exact value.isLt

end Scalar

section Accessors

variable (platform : Platform) (buffer : DirectBuffer) (width : Nat) (index : Int)
  (memory : Memory)

theorem run_putNative (value : Nat) :
    (buffer.putNative platform width index value).run memory =
      if buffer.InBounds index width then
        .ok () (write memory buffer.region (buffer.addressOffset + index)
          (platform.nativeByteOrder.encode width value))
      else .error (.indexOutOfBounds
        s!"index={index}, length={(width : Int)}, capacity={buffer.capacity}") memory := by
  unfold DirectBuffer.putNative
  rw [run_bind_guard (buffer.run_boundsCheck index width memory)]
  rfl

theorem run_putBoolean (value : Bool) :
    (buffer.putBoolean index value).run memory =
      if buffer.InBounds index 1 then
        .ok () (write memory buffer.region (buffer.addressOffset + index)
          [if value then 1 else 0])
      else .error (.indexOutOfBounds
        s!"index={index}, length={(1 : Int)}, capacity={buffer.capacity}") memory := by
  unfold DirectBuffer.putBoolean
  rw [run_bind_guard (buffer.run_boundsCheck index 1 memory)]
  rfl

theorem run_putFloat_ordered (value : BitVec 32) (order : ByteOrder) :
    (buffer.putFloat platform index value order).run memory =
      if buffer.InBounds index 4 then
        .ok () (write memory buffer.region (buffer.addressOffset + index)
          ((Scalar.float value (some order)).stored platform))
      else .error (.indexOutOfBounds
        s!"index={index}, length={(4 : Int)}, capacity={buffer.capacity}") memory := by
  have forward := Payload.encode_signExtend value
  simp only [ByteOrder.encode] at forward
  unfold DirectBuffer.putFloat
  rw [run_bind_guard (buffer.run_boundsCheck index 4 memory)]
  cases native : platform.nativeByteOrder <;> cases order <;>
    simp [Scalar.stored, Scalar.encoding, Scalar.excess, Scalar.order, Scalar.width, Scalar.bits,
      DirectBuffer.unsafePut, ByteOrder.encode, native, forward]

theorem run_getByte (inside : buffer.InBounds index 1) :
    (buffer.getByte index).run memory =
      .ok (memory buffer.region (buffer.addressOffset + index)) memory := by
  unfold DirectBuffer.getByte
  rw [run_bind_guard (buffer.run_boundsCheck index 1 memory), if_pos inside]
  rfl

theorem run_getBoolean (inside : buffer.InBounds index 1) :
    (buffer.getBoolean index).run memory =
      .ok (memory buffer.region (buffer.addressOffset + index) != 0) memory := by
  unfold DirectBuffer.getBoolean
  rw [run_bind_guard (buffer.run_boundsCheck index 1 memory), if_pos inside]
  rfl

theorem run_getNative (inside : buffer.InBounds index width) :
    (buffer.getNative platform width index).run memory =
      .ok (platform.nativeByteOrder.decode
        (read memory buffer.region (buffer.addressOffset + index) width)) memory := by
  unfold DirectBuffer.getNative
  rw [run_bind_guard (buffer.run_boundsCheck index width memory), if_pos inside]
  rfl

theorem run_getScalar (order : ByteOrder) (inside : buffer.InBounds index width) :
    (buffer.getScalar platform width index order).run memory =
      .ok (order.decode (read memory buffer.region (buffer.addressOffset + index) width))
        memory := by
  have swapped (bytes : List UInt8) (length : bytes.length = width) :
      DirectBuffer.swapUnlessNative platform width order
        (platform.nativeByteOrder.decode bytes) = order.decode bytes := by
    unfold DirectBuffer.swapUnlessNative
    split
    · rename_i different
      rw [← length, ByteOrder.reverseBytes_decode different]
    · rename_i same
      rw [not_not.mp same]
  unfold DirectBuffer.getScalar
  rw [run_bind_guard (buffer.run_boundsCheck index width memory), if_pos inside,
    ← swapped _ (read_length _ _ _ _)]
  rfl

theorem run_getNewBytes_clamped (index length : Int) (memory : Memory) :
    let count := min length (wrap32 (buffer.capacity - index))
    (buffer.getNewBytes index length).run memory =
      if length < 0 then .error (.negativeArraySize length) memory
      else if buffer.InBounds index count then
        .ok (read memory buffer.region (buffer.addressOffset + index) count.toNat ++
          List.replicate (length - count).toNat 0) memory
      else .error (.indexOutOfBounds
        s!"index={index}, length={count}, capacity={buffer.capacity}") memory := by
  intro count
  have least : min count length = count := by
    omega
  unfold DirectBuffer.getNewBytes
  by_cases negative : length < 0
  · rw [if_pos negative, if_pos negative]
    rfl
  · rw [if_neg negative, if_neg negative]
    simp only [← show count = min length (wrap32 (buffer.capacity - index)) from rfl, least]
    exact run_bind_guard (buffer.run_boundsCheck index count memory)

theorem run_getNewBytes {length : Int} (lower : 0 ≤ index) (positive : 0 ≤ length)
    (upper : index + length ≤ buffer.capacity) (representable : buffer.capacity ≤ 2147483647) :
    (buffer.getNewBytes index length).run memory =
      .ok (read memory buffer.region (buffer.addressOffset + index) length.toNat) memory := by
  have count : min length (wrap32 (buffer.capacity - index)) = length := by
    rw [wrap32_of_mem (by omega) (by omega)]
    omega
  have inside : buffer.InBounds index length := by
    refine ⟨lower, positive, ?_⟩
    rwa [wrap32_of_mem (by omega) (by omega)]
  rw [run_getNewBytes_clamped, if_neg (not_lt.mpr positive), count, if_pos inside, Int.sub_self,
    Int.toNat_zero, List.replicate_zero, List.append_nil]

end Accessors

namespace Scalar

variable {platform : Platform} {buffer : DirectBuffer} {index : Int} {memory : Memory}

theorem stored_of_plain {scalar : Scalar} (plain : scalar.excess platform = []) :
    scalar.stored platform = scalar.encoding platform := by
  unfold stored
  rw [plain]
  cases platform.nativeByteOrder <;> simp

theorem stored_char (value : BitVec 16) :
    platform.nativeByteOrder.encode 4 value.toNat = (char value).stored platform := by
  have high : value.toNat / 256 / 256 = 0 := by omega
  cases native : platform.nativeByteOrder <;>
    simp [stored, encoding, excess, order, width, bits, ByteOrder.encode, ByteOrder.lowBytes,
      native, high]

theorem encoding_boolean (value : Bool) :
    [if value then 1 else 0] = (boolean value).encoding platform := by
  cases value <;> cases native : platform.nativeByteOrder <;>
    simp [encoding, order, width, bits, ByteOrder.encode, ByteOrder.lowBytes, native]

theorem encoding_byte (value : UInt8) : [value] = (byte value).encoding platform := by
  cases native : platform.nativeByteOrder <;>
    simp [encoding, order, width, bits, ByteOrder.encode, ByteOrder.lowBytes, native]

theorem run_put_of_plain {scalar : Scalar} {message : String}
    (plain : scalar.excess platform = []) (same : scalar.checked = scalar.width)
    (run : (scalar.put platform buffer index).run memory =
      if buffer.InBounds index scalar.width then
        .ok () (write memory buffer.region (buffer.addressOffset + index)
          (scalar.encoding platform))
      else .error (.indexOutOfBounds message) memory) :
    ∃ message, (scalar.put platform buffer index).run memory =
      if buffer.InBounds index scalar.checked then
        .ok () (write memory buffer.region (buffer.addressOffset + index)
          (scalar.stored platform))
      else .error (.indexOutOfBounds message) memory := by
  refine ⟨message, ?_⟩
  rw [stored_of_plain plain, same]
  exact run

theorem run_put (platform : Platform) (buffer : DirectBuffer) (index : Int) (memory : Memory)
    (scalar : Scalar) :
    ∃ message, (scalar.put platform buffer index).run memory =
      if buffer.InBounds index scalar.checked then
        .ok () (write memory buffer.region (buffer.addressOffset + index)
          (scalar.stored platform))
      else .error (.indexOutOfBounds message) memory := by
  cases scalar with
  | boolean value =>
      exact run_put_of_plain rfl rfl (encoding_boolean value ▸
        run_putBoolean buffer index memory value)
  | byte value =>
      exact run_put_of_plain rfl rfl (encoding_byte value ▸
        Payload.run_putByte buffer index value memory)
  | char value =>
      exact ⟨_, stored_char value ▸ run_putNative platform buffer 4 index memory value.toNat⟩
  | short value order =>
      cases order with
      | none => exact run_put_of_plain rfl rfl (run_putNative platform buffer 2 index memory _)
      | some order =>
          exact run_put_of_plain rfl rfl
            (Payload.run_putScalar platform buffer 2 index value.toNat order memory)
  | int value order =>
      cases order with
      | none => exact run_put_of_plain rfl rfl (run_putNative platform buffer 4 index memory _)
      | some order =>
          exact run_put_of_plain rfl rfl
            (Payload.run_putScalar platform buffer 4 index value.toNat order memory)
  | long value order =>
      cases order with
      | none => exact run_put_of_plain rfl rfl (run_putNative platform buffer 8 index memory _)
      | some order =>
          exact run_put_of_plain rfl rfl
            (Payload.run_putScalar platform buffer 8 index value.toNat order memory)
  | float value order =>
      cases order with
      | none => exact run_put_of_plain rfl rfl (run_putNative platform buffer 4 index memory _)
      | some order => exact ⟨_, run_putFloat_ordered platform buffer index memory value order⟩
  | double value order =>
      cases order with
      | none => exact run_put_of_plain rfl rfl (run_putNative platform buffer 8 index memory _)
      | some order =>
          exact run_put_of_plain rfl rfl
            (Payload.run_putScalar platform buffer 8 index value.toNat order memory)

theorem run_map_bits {width : Nat} {body : EStateM Throwable Memory Nat} {value : BitVec width}
    {found : Nat} (ran : body.run memory = .ok found memory) (decoded : found = value.toNat) :
    (BitVec.toNat <$> (BitVec.ofNat width <$> body)).run memory = .ok value.toNat memory := by
  simp [EStateM.run_map, ran, decoded]

theorem run_get {scalar : Scalar} (inside : buffer.InBounds index scalar.width)
    (there : read memory buffer.region (buffer.addressOffset + index) scalar.width =
      scalar.encoding platform) :
    (scalar.get platform buffer index).run memory = .ok scalar.bits memory := by
  have decoded : (scalar.order platform).decode
      (read memory buffer.region (buffer.addressOffset + index) scalar.width) = scalar.bits := by
    rw [there]
    exact ByteOrder.decode_encode _ scalar.bits_lt
  have native (width : Nat) (inside : buffer.InBounds index width) :=
    run_getNative platform buffer width index memory inside
  have ordered (width : Nat) (order : ByteOrder) (inside : buffer.InBounds index width) :=
    run_getScalar platform buffer width index memory order inside
  cases scalar with
  | boolean value =>
      rw [← encoding_boolean] at there
      have cell : memory buffer.region (buffer.addressOffset + index) = if value then 1 else 0 := by
        simpa [ByteStore.read, width] using there
      simp only [get, EStateM.run_map, run_getBoolean buffer index memory inside, cell]
      cases value <;> rfl
  | byte value =>
      rw [← encoding_byte] at there
      have cell : memory buffer.region (buffer.addressOffset + index) = value := by
        simpa [ByteStore.read, width] using there
      simp only [get, EStateM.run_map, run_getByte buffer index memory inside, cell]
      rfl
  | char value => exact run_map_bits (native 2 inside) decoded
  | short value order =>
      cases order with
      | none => exact run_map_bits (native 2 inside) decoded
      | some order => exact run_map_bits (ordered 2 order inside) decoded
  | int value order =>
      cases order with
      | none => exact run_map_bits (native 4 inside) decoded
      | some order => exact run_map_bits (ordered 4 order inside) decoded
  | long value order =>
      cases order with
      | none => exact run_map_bits (native 8 inside) decoded
      | some order => exact run_map_bits (ordered 8 order inside) decoded
  | float value order =>
      cases order with
      | none => exact run_map_bits (native 4 inside) decoded
      | some order => exact run_map_bits (ordered 4 order inside) decoded
  | double value order =>
      cases order with
      | none => exact run_map_bits (native 8 inside) decoded
      | some order => exact run_map_bits (ordered 8 order inside) decoded

/-- The pair transfers the value exactly if the bytes stored first are its encoding and the
others were there before. -/
theorem transfers_iff_split {scalar : Scalar} {first rest : List UInt8}
    (inside : buffer.InBounds index scalar.width)
    (split : scalar.stored platform = first ++ rest) (length : first.length = scalar.width) :
    scalar.Transfers platform buffer index memory ↔
      buffer.InBounds index scalar.checked ∧ first = scalar.encoding platform ∧
      read memory buffer.region (buffer.addressOffset + index + scalar.width) rest.length =
        rest := by
  obtain ⟨message, run⟩ := scalar.run_put platform buffer index memory
  have only := write_append_onlyWithin_iff memory buffer.region (buffer.addressOffset + index)
    first rest
  have shown := read_write_left memory buffer.region (buffer.addressOffset + index) first rest
  rw [split] at run
  rw [length] at only shown
  constructor
  · rintro ⟨after, ran, encoded, within, -⟩
    rw [run] at ran
    split at ran
    · rename_i accepted
      cases ran
      exact ⟨accepted, shown.symm.trans encoded, only.mp within⟩
    · cases ran
  · rintro ⟨accepted, rfl, there⟩
    rw [if_pos accepted] at run
    exact ⟨_, run, shown, only.mpr there, run_get inside shown⟩

theorem transfers_iff_little {scalar : Scalar} (native : platform.nativeByteOrder = .littleEndian)
    (inside : buffer.InBounds index scalar.width) :
    scalar.Transfers platform buffer index memory ↔
      buffer.InBounds index scalar.checked ∧
      read memory buffer.region (buffer.addressOffset + index + scalar.width)
        (scalar.excess platform).length = scalar.excess platform := by
  have split : scalar.stored platform = scalar.encoding platform ++ scalar.excess platform := by
    simp [stored, native]
  rw [transfers_iff_split inside split (scalar.encoding_length platform)]
  simp

theorem transfers_iff_big {scalar : Scalar} (native : platform.nativeByteOrder = .bigEndian)
    (inside : buffer.InBounds index scalar.width)
    (length : (scalar.excess platform).length = scalar.width) :
    scalar.Transfers platform buffer index memory ↔
      buffer.InBounds index scalar.checked ∧
      (scalar.excess platform).reverse = scalar.encoding platform ∧
      read memory buffer.region (buffer.addressOffset + index + scalar.width) scalar.width =
        (scalar.excess platform).reverse := by
  have split : scalar.stored platform =
      (scalar.excess platform).reverse ++ scalar.encoding platform := by
    simp [stored, native]
  rw [transfers_iff_split inside split (by rw [List.length_reverse, length]),
    scalar.encoding_length]
  constructor
  · rintro ⟨accepted, same, there⟩
    exact ⟨accepted, same, there.trans same.symm⟩
  · rintro ⟨accepted, same, there⟩
    exact ⟨accepted, same, there.trans same⟩

theorem transfers_of_plain {scalar : Scalar} (plain : scalar.excess platform = [])
    (same : scalar.checked = scalar.width) (inside : buffer.InBounds index scalar.width) :
    scalar.Transfers platform buffer index memory := by
  have split : scalar.stored platform = scalar.encoding platform ++ [] := by
    rw [stored_of_plain plain, List.append_nil]
  exact (transfers_iff_split inside split (scalar.encoding_length platform)).mpr
    ⟨same ▸ inside, rfl, rfl⟩

/-- Where the two puts that store too much do no harm. -/
def Harmless (platform : Platform) (buffer : DirectBuffer) (index : Int) (memory : Memory) :
    Scalar → Prop
  | char value => buffer.InBounds index 4 ∧
      (platform.nativeByteOrder = .littleEndian ∨ value = 0) ∧
      read memory buffer.region (buffer.addressOffset + index + 2) 2 = [0, 0]
  | float value (some order) => platform.nativeByteOrder = order ∨
      (platform.nativeByteOrder = .littleEndian ∧
        read memory buffer.region (buffer.addressOffset + index + 4) 4 =
          Payload.signBytes value) ∨
      (platform.nativeByteOrder = .bigEndian ∧ (value = 0 ∨ value = BitVec.allOnes 32) ∧
        read memory buffer.region (buffer.addressOffset + index + 4) 4 =
          Payload.signBytes value)
  | _ => True

/-- The excess of a swapped `float` is the sign of the swapped value, four times. -/
theorem signBytes_eq (value : BitVec 32) :
    Payload.signBytes value = List.replicate 4 0 ∨
      Payload.signBytes value = List.replicate 4 255 := by
  simp only [Payload.signBytes]
  generalize BitVec.ofNat 32 (ByteOrder.reverseBytes 4 value.toNat) = bits
  have below := bits.isLt
  rw [BitVec.toNat_signExtend, BitVec.toNat_setWidth, Nat.mod_eq_of_lt (by omega)]
  cases bits.msb with
  | false =>
      have high : (bits.toNat + if false = true then 2 ^ 64 - 2 ^ 32 else 0) / 256 ^ 4 = 0 := by
        simp only [Bool.false_eq_true, if_false]
        omega
      rw [high]
      exact .inl (by decide)
  | true =>
      have high : (bits.toNat + if true = true then 2 ^ 64 - 2 ^ 32 else 0) / 256 ^ 4 =
          4294967295 := by
        simp only [if_true]
        omega
      rw [high]
      exact .inr (by decide)

theorem signBytes_length (value : BitVec 32) : (Payload.signBytes value).length = 4 := by
  rcases signBytes_eq value with zeros | ones
  · rw [zeros]
    rfl
  · rw [ones]
    rfl

theorem signBytes_reverse (value : BitVec 32) :
    (Payload.signBytes value).reverse = Payload.signBytes value := by
  rcases signBytes_eq value with zeros | ones
  · rw [zeros, List.reverse_replicate]
  · rw [ones, List.reverse_replicate]

theorem encode_eq_zeros_iff (value : BitVec 16) :
    [0, 0] = ByteOrder.bigEndian.encode 2 value.toNat ↔ value = 0 := by
  constructor
  · intro same
    have number := @ByteOrder.decode_encode .bigEndian 2 value.toNat value.isLt
    rw [← same] at number
    exact BitVec.eq_of_toNat_eq (number.symm.trans (by decide))
  · rintro rfl
    decide

theorem encode_eq_signBytes_iff (value : BitVec 32) :
    Payload.signBytes value = ByteOrder.littleEndian.encode 4 value.toNat ↔
      value = 0 ∨ value = BitVec.allOnes 32 := by
  constructor
  · intro same
    have number := @ByteOrder.decode_encode .littleEndian 4 value.toNat value.isLt
    rw [← same] at number
    rcases signBytes_eq value with zeros | ones
    · rw [zeros] at number
      exact .inl (BitVec.eq_of_toNat_eq (number.symm.trans (by decide)))
    · rw [ones] at number
      exact .inr (BitVec.eq_of_toNat_eq (number.symm.trans (by decide)))
  · rintro (rfl | rfl)
    · decide
    · decide

/-- Within the bounds of its own width every accessor pair transfers its value, with these two
exceptions: `putFloat` in the order that is not native, and `putChar`. -/
theorem scalars_transfer_iff {scalar : Scalar} (representable : buffer.capacity ≤ 2147483647)
    (lower : 0 ≤ index) (upper : index + scalar.width ≤ buffer.capacity) :
    scalar.Transfers platform buffer index memory ↔
      scalar.Harmless platform buffer index memory := by
  have inside : buffer.InBounds index scalar.width := by
    refine ⟨lower, Int.natCast_nonneg _, ?_⟩
    rwa [wrap32_of_mem (by omega) (by omega)]
  have plain (empty : scalar.excess platform = []) (same : scalar.checked = scalar.width) :
      scalar.Transfers platform buffer index memory ↔ True :=
    iff_true_intro (transfers_of_plain empty same inside)
  cases scalar with
  | char value =>
      cases native : platform.nativeByteOrder with
      | littleEndian =>
          rw [transfers_iff_little native inside]
          simp [Harmless, native, checked, width, excess]
      | bigEndian =>
          rw [transfers_iff_big native inside rfl]
          simp only [excess, encoding, order, native, List.reverse_cons, List.reverse_nil,
            List.nil_append, List.cons_append, encode_eq_zeros_iff, Harmless, checked, width, bits,
            reduceCtorEq, false_or]
          rfl
  | float value order =>
      cases order with
      | none => exact plain rfl rfl
      | some order =>
          by_cases same : platform.nativeByteOrder = order
          · have empty : (float value (some order)).excess platform = [] := by
              simp [excess, same]
            rw [plain empty rfl]
            simp [Harmless, same]
          · have excess_eq : (float value (some order)).excess platform =
                Payload.signBytes value := by
              simp [excess, same]
            cases native : platform.nativeByteOrder with
            | littleEndian =>
                have swapped : order = .bigEndian := by
                  cases order with
                  | bigEndian => rfl
                  | littleEndian => exact absurd native same
                subst swapped
                rw [transfers_iff_little native inside, excess_eq]
                simp only [Harmless, native, checked, signBytes_length, true_and, false_or,
                  reduceCtorEq, false_and, or_false]
                exact and_iff_right inside
            | bigEndian =>
                have swapped : order = .littleEndian := by
                  cases order with
                  | bigEndian => exact absurd native same
                  | littleEndian => rfl
                subst swapped
                rw [transfers_iff_big native inside (by rw [excess_eq, signBytes_length]; rfl),
                  excess_eq, signBytes_reverse]
                simp only [Harmless, native, encoding, Scalar.order, Option.getD_some, width, bits,
                  checked, reduceCtorEq, false_and, false_or, true_and, encode_eq_signBytes_iff]
                exact and_iff_right inside
  | boolean value => exact plain rfl rfl
  | byte value => exact plain rfl rfl
  | short value order => exact plain rfl rfl
  | int value order => exact plain rfl rfl
  | long value order => exact plain rfl rfl
  | double value order => exact plain rfl rfl

theorem scalars_transfer_long :
    (long 0x0102030405060708 (some .bigEndian)).Transfers ⟨.littleEndian, 16⟩
      (.wrapAddress 4096 9) 1 (fun _ _ => 7) :=
  (@scalars_transfer_iff ⟨.littleEndian, 16⟩ (.wrapAddress 4096 9) 1 (fun _ _ => 7)
    (long 0x0102030405060708 (some .bigEndian)) (by decide) (by decide) (by decide)).mpr trivial

/-- On a little-endian host, `putFloat(0, 1f, BIG_ENDIAN)` clears the four bytes behind the
`float` and `putChar(0, 'A')` the two behind the `char`. -/
theorem puts_clear_neighbours :
    let host : Platform := ⟨.littleEndian, 16⟩
    let buffer := DirectBuffer.wrapAddress 4096 8
    (0 : Int) + 4 ≤ buffer.capacity ∧
    ¬(float 0x3F800000 (some .bigEndian)).Transfers host buffer 0 (fun _ _ => 7) ∧
    ¬(char 65).Transfers host buffer 0 (fun _ _ => 7) := by
  refine ⟨by decide, ?_, ?_⟩
  · rw [transfers_iff_little rfl (by decide)]
    decide
  · rw [transfers_iff_little rfl (by decide)]
    decide

end Scalar

end LmdbJni
