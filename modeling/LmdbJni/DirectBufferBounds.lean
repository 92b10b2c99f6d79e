import LmdbJni.DirectBufferScalars
import LmdbJni.Library.Confinement

/-!
The bounds check of `DirectBuffer` and the memory behind it. The sum of index and length is an
`int`, so the check also lets through every pair whose sum does not fit into one. A scalar
accessor, or the copy from another view, is confined to the views involved exactly if its checks
are not met in this way; `putFloat` in the order that is not native stores eight bytes behind a
check for four and needs room for them.
-/

namespace LmdbJni

open ByteStore Confinement Execution Wrapping

def IsInt (value : Int) : Prop := -2147483648 ≤ value ∧ value ≤ 2147483647

instance (value : Int) : Decidable (IsInt value) := inferInstanceAs (Decidable (_ ∧ _))

/-- The bytes of a view. -/
def DirectBuffer.Bytes (view : DirectBuffer) : Region → Int → Prop :=
  Span view.region view.addressOffset view.capacity

inductive ScalarKind
  | boolean
  | byte
  | char
  | short (order : Option ByteOrder)
  | int (order : Option ByteOrder)
  | long (order : Option ByteOrder)
  | float (order : Option ByteOrder)
  | double (order : Option ByteOrder)

def ScalarKind.scalar (value : Nat) : ScalarKind → Scalar
  | boolean => .boolean (value % 2 = 1)
  | byte => .byte (UInt8.ofNat value)
  | char => .char (BitVec.ofNat 16 value)
  | short order => .short (BitVec.ofNat 16 value) order
  | int order => .int (BitVec.ofNat 32 value) order
  | long order => .long (BitVec.ofNat 64 value) order
  | float order => .float (BitVec.ofNat 32 value) order
  | double order => .double (BitVec.ofNat 64 value) order

inductive ScalarAccessor
  | get (kind : ScalarKind)
  | put (kind : ScalarKind)
  | getShortVolatile
  | putShortVolatile
  | getIntVolatile
  | putIntVolatile
  | putIntOrdered
  | addIntOrdered
  | compareAndSetInt
  | getLongVolatile
  | putLongVolatile
  | putLongOrdered
  | addLongOrdered
  | compareAndSetLong

namespace ScalarAccessor

/-- The call with its arguments as bit patterns, and its result as one. -/
def perform (platform : Platform) (view : DirectBuffer) (index : Int) (value expected : Nat) :
    ScalarAccessor → EStateM Throwable Memory Nat
  | get kind => (kind.scalar 0).get platform view index
  | put kind => (fun _ => 0) <$> (kind.scalar value).put platform view index
  | getShortVolatile => BitVec.toNat <$> view.getShortVolatile platform index
  | putShortVolatile => (fun _ => 0) <$> view.putShortVolatile platform index (.ofNat 16 value)
  | getIntVolatile => BitVec.toNat <$> view.getIntVolatile platform index
  | putIntVolatile => (fun _ => 0) <$> view.putIntVolatile platform index (.ofNat 32 value)
  | putIntOrdered => (fun _ => 0) <$> view.putIntOrdered platform index (.ofNat 32 value)
  | addIntOrdered => (fun _ => 0) <$> view.addIntOrdered platform index (.ofNat 32 value)
  | compareAndSetInt => Bool.toNat <$>
      view.compareAndSetInt platform index (.ofNat 32 expected) (.ofNat 32 value)
  | getLongVolatile => BitVec.toNat <$> view.getLongVolatile platform index
  | putLongVolatile => (fun _ => 0) <$> view.putLongVolatile platform index (.ofNat 64 value)
  | putLongOrdered => (fun _ => 0) <$> view.putLongOrdered platform index (.ofNat 64 value)
  | addLongOrdered => (fun _ => 0) <$> view.addLongOrdered platform index (.ofNat 64 value)
  | compareAndSetLong => Bool.toNat <$>
      view.compareAndSetLong platform index (.ofNat 64 expected) (.ofNat 64 value)

/-- The length the bounds check is made for. -/
def checked : ScalarAccessor → Nat
  | get kind => (kind.scalar 0).width
  | put kind => (kind.scalar 0).checked
  | getShortVolatile | putShortVolatile => 2
  | getIntVolatile | putIntVolatile | putIntOrdered | addIntOrdered | compareAndSetInt => 4
  | getLongVolatile | putLongVolatile | putLongOrdered | addLongOrdered | compareAndSetLong => 8

/-- The number of bytes loaded or stored. -/
def touched (platform : Platform) : ScalarAccessor → Nat
  | put (.float (some order)) => if platform.nativeByteOrder = order then 4 else 8
  | accessor => accessor.checked

/-- What an accessor does once its check is passed. -/
inductive Acts (platform : Platform) (view : DirectBuffer) (index : Int)
    (accessor : ScalarAccessor) : Prop
  | loads (answer : List UInt8 → Nat)
      (zeros : answer (List.replicate (accessor.touched platform) 0) = 0)
      (zero : ∀ bytes, bytes.length = accessor.touched platform → answer bytes = 0 →
        ∀ byte ∈ bytes, byte = 0)
      (ran : view.InBounds index accessor.checked → ∀ value expected memory,
        (accessor.perform platform view index value expected).run memory =
          .ok (answer (read memory view.region (view.addressOffset + index)
            (accessor.touched platform))) memory)
  | stores (answer : Nat → Nat → List UInt8 → Nat) (stored : Nat → Nat → List UInt8 → List UInt8)
      (fits : ∀ value expected bytes,
        (stored value expected bytes).length ≤ accessor.touched platform)
      (changes : ∃ value expected fill other, other ≠ fill ∧
        stored value expected (List.replicate (accessor.touched platform) fill) =
          List.replicate (accessor.touched platform) other)
      (ran : view.InBounds index accessor.checked → ∀ value expected memory,
        (accessor.perform platform view index value expected).run memory =
          .ok (answer value expected (read memory view.region (view.addressOffset + index)
              (accessor.touched platform)))
            (write memory view.region (view.addressOffset + index)
              (stored value expected (read memory view.region (view.addressOffset + index)
                (accessor.touched platform)))))

section Acts

variable {platform : Platform} {view : DirectBuffer} {index : Int} {accessor : ScalarAccessor}

theorem acts_bits (order : ByteOrder) (bits width : Nat) {body : EStateM Throwable Memory Nat}
    (size : 2 ^ bits = 256 ^ width) (wide : accessor.touched platform = width)
    (performed : ∀ value expected, accessor.perform platform view index value expected =
      BitVec.toNat <$> (BitVec.ofNat bits <$> body))
    (ran : view.InBounds index accessor.checked → ∀ memory, body.run memory =
      .ok (order.decode (read memory view.region (view.addressOffset + index)
        (accessor.touched platform))) memory) :
    Acts platform view index accessor := by
  refine .loads (fun bytes => (BitVec.ofNat bits (order.decode bytes)).toNat) ?_ ?_ ?_
  · rw [ByteOrder.decode_zeros]
    simp
  · intro bytes length answer
    have bound := order.decode_lt bytes
    rw [length, wide, ← size] at bound
    rw [BitVec.toNat_ofNat, Nat.mod_eq_of_lt bound] at answer
    exact ByteOrder.decode_eq_zero answer
  · intro inside value expected memory
    rw [performed, EStateM.run_map, EStateM.run_map, ran inside]
    rfl

theorem acts_put (stored : Nat → List UInt8)
    (length : ∀ value, (stored value).length = accessor.touched platform)
    (zeros : stored 0 = List.replicate (accessor.touched platform) 0)
    (ran : view.InBounds index accessor.checked → ∀ value expected memory,
      (accessor.perform platform view index value expected).run memory =
        .ok 0 (write memory view.region (view.addressOffset + index) (stored value))) :
    Acts platform view index accessor :=
  .stores (fun _ _ _ => 0) (fun value _ _ => stored value) (fun value _ _ => (length value).le)
    ⟨0, 0, 1, 0, by decide, zeros⟩ ran

theorem acts_get (kind : ScalarKind) : Acts platform view index (get kind) := by
  have native (width : Nat) (inside : view.InBounds index width) (memory : Memory) :=
    run_getNative platform view width index memory inside
  have ordered (width : Nat) (order : ByteOrder) (inside : view.InBounds index width)
      (memory : Memory) := run_getScalar platform view width index memory order inside
  have single (memory : Memory) : read memory view.region (view.addressOffset + index) 1 =
      [memory view.region (view.addressOffset + index)] := by
    simp [ByteStore.read]
  cases kind with
  | boolean =>
      refine .loads (fun bytes => (bytes.headD 0 != 0).toNat) rfl ?_ ?_
      · intro bytes length answer byte member
        obtain ⟨only, rfl⟩ := List.length_eq_one_iff.mp length
        cases List.mem_singleton.mp member
        simpa using answer
      · intro inside value expected memory
        change (Bool.toNat <$> view.getBoolean index).run memory = _
        rw [EStateM.run_map, run_getBoolean view index memory inside]
        change _ = EStateM.Result.ok ((read memory view.region (view.addressOffset + index) 1).headD 0
          != 0).toNat memory
        rw [single]
        rfl
  | byte =>
      refine .loads (fun bytes => (bytes.headD 0).toNat) rfl ?_ ?_
      · intro bytes length answer byte member
        obtain ⟨only, rfl⟩ := List.length_eq_one_iff.mp length
        cases List.mem_singleton.mp member
        exact UInt8.toNat_inj.mp answer
      · intro inside value expected memory
        change (UInt8.toNat <$> view.getByte index).run memory = _
        rw [EStateM.run_map, run_getByte view index memory inside]
        change _ = EStateM.Result.ok
          ((read memory view.region (view.addressOffset + index) 1).headD 0).toNat memory
        rw [single]
        rfl
  | char => exact acts_bits _ 16 2 (by norm_num) rfl (fun _ _ => rfl) (native 2)
  | short order =>
      cases order with
      | none => exact acts_bits _ 16 2 (by norm_num) rfl (fun _ _ => rfl) (native 2)
      | some order => exact acts_bits _ 16 2 (by norm_num) rfl (fun _ _ => rfl) (ordered 2 order)
  | int order =>
      cases order with
      | none => exact acts_bits _ 32 4 (by norm_num) rfl (fun _ _ => rfl) (native 4)
      | some order => exact acts_bits _ 32 4 (by norm_num) rfl (fun _ _ => rfl) (ordered 4 order)
  | long order =>
      cases order with
      | none => exact acts_bits _ 64 8 (by norm_num) rfl (fun _ _ => rfl) (native 8)
      | some order => exact acts_bits _ 64 8 (by norm_num) rfl (fun _ _ => rfl) (ordered 8 order)
  | float order =>
      cases order with
      | none => exact acts_bits _ 32 4 (by norm_num) rfl (fun _ _ => rfl) (native 4)
      | some order => exact acts_bits _ 32 4 (by norm_num) rfl (fun _ _ => rfl) (ordered 4 order)
  | double order =>
      cases order with
      | none => exact acts_bits _ 64 8 (by norm_num) rfl (fun _ _ => rfl) (native 8)
      | some order => exact acts_bits _ 64 8 (by norm_num) rfl (fun _ _ => rfl) (ordered 8 order)

theorem stored_length (kind : ScalarKind) (value : Nat) :
    ((kind.scalar value).stored platform).length = (put kind).touched platform := by
  cases kind with
  | float order =>
      cases order with
      | none => cases native : platform.nativeByteOrder <;>
          simp [Scalar.stored, Scalar.encoding, Scalar.excess, ScalarKind.scalar, touched, checked,
            Scalar.checked, Scalar.width, native]
      | some order =>
          by_cases same : platform.nativeByteOrder = order
          · rw [Scalar.stored_of_plain (by simp [ScalarKind.scalar, Scalar.excess, same])]
            simp [Scalar.encoding, ScalarKind.scalar, Scalar.width, touched, same]
          · cases native : platform.nativeByteOrder <;>
              simp [Scalar.stored, Scalar.encoding, Scalar.excess, ScalarKind.scalar, touched,
                Scalar.width, Payload.signBytes, native, native ▸ same]
  | _ => cases native : platform.nativeByteOrder <;>
      simp [Scalar.stored, Scalar.encoding, Scalar.excess, ScalarKind.scalar, touched, checked,
        Scalar.checked, Scalar.width, native]

theorem stored_zero (kind : ScalarKind) :
    (kind.scalar 0).stored platform = List.replicate ((put kind).touched platform) 0 := by
  have bits : (kind.scalar 0).bits = 0 := by
    cases kind <;> rfl
  have excess : (kind.scalar 0).excess platform =
      List.replicate ((kind.scalar 0).excess platform).length 0 := by
    cases kind with
    | char => rfl
    | float order =>
        cases order with
        | none => rfl
        | some order =>
            have signs : Payload.signBytes 0#32 = List.replicate 4 0 := by decide
            by_cases same : platform.nativeByteOrder = order <;>
              simp [ScalarKind.scalar, Scalar.excess, same, signs]
    | _ => rfl
  have encoding : (kind.scalar 0).encoding platform =
      List.replicate (kind.scalar 0).width 0 := by
    rw [Scalar.encoding, bits, ByteOrder.encode_zero]
  rw [← stored_length kind 0]
  unfold Scalar.stored
  rw [encoding, excess]
  cases platform.nativeByteOrder <;> simp [List.replicate_append_replicate]

theorem acts_putScalar (kind : ScalarKind) : Acts platform view index (put kind) := by
  refine acts_put (fun value => (kind.scalar value).stored platform) (stored_length kind)
    (stored_zero kind) ?_
  intro inside value expected memory
  obtain ⟨message, ran⟩ := (kind.scalar value).run_put platform view index memory
  have same : (kind.scalar value).checked = (put kind).checked := by
    cases kind <;> rfl
  rw [same, if_pos inside] at ran
  change ((fun _ => 0) <$> (kind.scalar value).put platform view index).run memory = _
  rw [EStateM.run_map, ran]
  rfl

theorem acts_putNative {width : Nat} (bits : Nat) (wide : accessor.touched platform = width)
    (check : accessor.checked = width)
    (performed : ∀ value expected, accessor.perform platform view index value expected =
      (fun _ => 0) <$> view.putNative platform width index (BitVec.ofNat bits value).toNat) :
    Acts platform view index accessor := by
  refine acts_put (fun value => platform.nativeByteOrder.encode width (BitVec.ofNat bits value).toNat)
    (fun value => by rw [ByteOrder.encode_length, wide]) ?_ ?_
  · rw [BitVec.toNat_ofNat, Nat.zero_mod, ByteOrder.encode_zero, wide]
  · intro inside value expected memory
    rw [check] at inside
    rw [performed, EStateM.run_map, run_putNative, if_pos inside]
    rfl

theorem run_addOrdered {width : Nat} (increment : Nat) (inside : view.InBounds index width)
    (memory : Memory) :
    (view.addOrdered platform width index increment).run memory =
      .ok () (write memory view.region (view.addressOffset + index)
        (platform.nativeByteOrder.encode width (platform.nativeByteOrder.decode
          (read memory view.region (view.addressOffset + index) width) + increment))) := by
  unfold DirectBuffer.addOrdered
  rw [run_bind_guard (view.run_boundsCheck index width memory), if_pos inside]
  rfl

theorem run_compareAndSet {width : Nat} (expected update : Nat)
    (inside : view.InBounds index width) (memory : Memory) :
    (view.compareAndSet platform width index expected update).run memory =
      let same := platform.nativeByteOrder.decode
        (read memory view.region (view.addressOffset + index) width) = expected
      .ok (decide same) (write memory view.region (view.addressOffset + index)
        (if same then platform.nativeByteOrder.encode width update else [])) := by
  unfold DirectBuffer.compareAndSet
  rw [run_bind_guard (view.run_boundsCheck index width memory), if_pos inside]
  by_cases same : platform.nativeByteOrder.decode
      (read memory view.region (view.addressOffset + index) width) = expected
  · simp [DirectBuffer.unsafeGet, DirectBuffer.unsafePut, same]
  · simp [DirectBuffer.unsafeGet, same, write_nil]

theorem acts_addOrdered {width : Nat} (bits : Nat) (wide : accessor.touched platform = width)
    (check : accessor.checked = width)
    (ones : ∀ order : ByteOrder, order.encode width (BitVec.ofNat bits (2 ^ bits - 1)).toNat =
      List.replicate width 255)
    (performed : ∀ value expected, accessor.perform platform view index value expected =
      (fun _ => 0) <$> view.addOrdered platform width index (BitVec.ofNat bits value).toNat) :
    Acts platform view index accessor := by
  refine .stores (fun _ _ _ => 0) (fun value _ bytes => platform.nativeByteOrder.encode width
    (platform.nativeByteOrder.decode bytes + (BitVec.ofNat bits value).toNat)) ?_ ?_ ?_
  · intro value expected bytes
    rw [ByteOrder.encode_length, wide]
  · refine ⟨2 ^ bits - 1, 0, 0, 255, by decide, ?_⟩
    rw [wide, ByteOrder.decode_zeros, Nat.zero_add, ones]
  · intro inside value expected memory
    rw [check] at inside
    rw [performed, EStateM.run_map, run_addOrdered _ inside, wide]
    rfl

theorem acts_compareAndSet {width : Nat} (bits : Nat) (wide : accessor.touched platform = width)
    (check : accessor.checked = width)
    (ones : ∀ order : ByteOrder, order.encode width (BitVec.ofNat bits (2 ^ bits - 1)).toNat =
      List.replicate width 255)
    (performed : ∀ value expected, accessor.perform platform view index value expected =
      Bool.toNat <$> view.compareAndSet platform width index (BitVec.ofNat bits expected).toNat
        (BitVec.ofNat bits value).toNat) :
    Acts platform view index accessor := by
  refine .stores
    (fun _ expected bytes => (decide (platform.nativeByteOrder.decode bytes =
      (BitVec.ofNat bits expected).toNat)).toNat)
    (fun value expected bytes =>
      if platform.nativeByteOrder.decode bytes = (BitVec.ofNat bits expected).toNat then
        platform.nativeByteOrder.encode width (BitVec.ofNat bits value).toNat else []) ?_ ?_ ?_
  · intro value expected bytes
    split
    · rw [ByteOrder.encode_length, wide]
    · exact Nat.zero_le _
  · refine ⟨2 ^ bits - 1, 0, 0, 255, by decide, ?_⟩
    rw [wide, ByteOrder.decode_zeros, if_pos (by simp), ones]
  · intro inside value expected memory
    rw [check] at inside
    rw [performed, EStateM.run_map, run_compareAndSet _ _ inside, wide]
    rfl

theorem ones_int (order : ByteOrder) :
    order.encode 4 (BitVec.ofNat 32 (2 ^ 32 - 1)).toNat = List.replicate 4 255 := by
  cases order <;> decide

theorem ones_long (order : ByteOrder) :
    order.encode 8 (BitVec.ofNat 64 (2 ^ 64 - 1)).toNat = List.replicate 8 255 := by
  cases order <;> decide

theorem acts (platform : Platform) (view : DirectBuffer) (index : Int)
    (accessor : ScalarAccessor) : Acts platform view index accessor := by
  have native (width : Nat) (inside : view.InBounds index width) (memory : Memory) :=
    run_getNative platform view width index memory inside
  cases accessor with
  | get kind => exact acts_get kind
  | put kind => exact acts_putScalar kind
  | getShortVolatile => exact acts_bits _ 16 2 (by norm_num) rfl (fun _ _ => rfl) (native 2)
  | putShortVolatile => exact acts_putNative 16 rfl rfl fun _ _ => rfl
  | getIntVolatile => exact acts_bits _ 32 4 (by norm_num) rfl (fun _ _ => rfl) (native 4)
  | putIntVolatile => exact acts_putNative 32 rfl rfl fun _ _ => rfl
  | putIntOrdered => exact acts_putNative 32 rfl rfl fun _ _ => rfl
  | addIntOrdered => exact acts_addOrdered 32 rfl rfl ones_int fun _ _ => rfl
  | compareAndSetInt => exact acts_compareAndSet 32 rfl rfl ones_int fun _ _ => rfl
  | getLongVolatile => exact acts_bits _ 64 8 (by norm_num) rfl (fun _ _ => rfl) (native 8)
  | putLongVolatile => exact acts_putNative 64 rfl rfl fun _ _ => rfl
  | putLongOrdered => exact acts_putNative 64 rfl rfl fun _ _ => rfl
  | addLongOrdered => exact acts_addOrdered 64 rfl rfl ones_long fun _ _ => rfl
  | compareAndSetLong => exact acts_compareAndSet 64 rfl rfl ones_long fun _ _ => rfl

end Acts

/-- The check is not passed by an overflow, and what it is passed for is what is touched. -/
def Safe (platform : Platform) (accessor : ScalarAccessor) (capacity index : Int) : Prop :=
  0 ≤ index → index + accessor.checked ≤ 2147483647 ∧
    (index + accessor.checked ≤ capacity → index + accessor.touched platform ≤ capacity)

theorem checked_range (accessor : ScalarAccessor) : 0 < accessor.checked ∧ accessor.checked ≤ 8 := by
  cases accessor with
  | get kind => cases kind <;> simp [checked, ScalarKind.scalar, Scalar.width]
  | put kind => cases kind <;> simp [checked, ScalarKind.scalar, Scalar.checked, Scalar.width]
  | _ => simp [checked]

theorem checked_le_touched (platform : Platform) (accessor : ScalarAccessor) :
    accessor.checked ≤ accessor.touched platform := by
  unfold touched
  split
  · split <;> simp [checked, ScalarKind.scalar, Scalar.checked, Scalar.width]
  · exact le_refl _

end ScalarAccessor

namespace DirectBuffer

variable {view : DirectBuffer} {index length : Int}

/-- The sum of two accepted arguments that is not an `int` any more. -/
def Overflows (index length : Int) : Prop :=
  0 ≤ index ∧ 0 ≤ length ∧ 2147483647 < index + length

instance (index length : Int) : Decidable (Overflows index length) :=
  inferInstanceAs (Decidable (_ ∧ _ ∧ _))

theorem inBounds_iff (capacity : 0 ≤ view.capacity ∧ view.capacity ≤ 2147483647)
    (indexInt : IsInt index) (lengthInt : IsInt length) :
    view.InBounds index length ↔
      (0 ≤ index ∧ 0 ≤ length ∧ index + length ≤ view.capacity) ∨ Overflows index length := by
  unfold InBounds Overflows
  unfold IsInt at *
  unfold wrap32
  omega

theorem returns_iff (capacity : 0 ≤ view.capacity ∧ view.capacity ≤ 2147483647)
    (indexInt : IsInt index) (lengthInt : IsInt length) (memory : Memory) :
    (∃ after, (view.boundsCheck index length).run memory = .ok () after) ↔
      (0 ≤ index ∧ 0 ≤ length ∧ index + length ≤ view.capacity) ∨ Overflows index length := by
  rw [← inBounds_iff capacity indexInt lengthInt, run_boundsCheck]
  by_cases inside : view.InBounds index length <;> simp [inside]

end DirectBuffer

namespace ScalarAccessor

variable {platform : Platform} {view : DirectBuffer} {index : Int} {accessor : ScalarAccessor}

theorem fails_boundsCheck {length : Int} (outside : ¬view.InBounds index length) :
    Fails (view.boundsCheck index length) := by
  intro memory
  rw [DirectBuffer.run_boundsCheck, if_neg outside]
  exact ⟨_, _, rfl⟩

/-- Where the check fails nothing is touched. -/
theorem fails (outside : ¬view.InBounds index accessor.checked) (value expected : Nat) :
    Fails (accessor.perform platform view index value expected) := by
  cases accessor with
  | get kind =>
      cases kind with
      | boolean => exact ((fails_boundsCheck outside).bind _).map _
      | byte => exact ((fails_boundsCheck outside).bind _).map _
      | char => exact (((fails_boundsCheck outside).bind _).map _).map _
      | short order => cases order <;> exact (((fails_boundsCheck outside).bind _).map _).map _
      | int order => cases order <;> exact (((fails_boundsCheck outside).bind _).map _).map _
      | long order => cases order <;> exact (((fails_boundsCheck outside).bind _).map _).map _
      | float order => cases order <;> exact (((fails_boundsCheck outside).bind _).map _).map _
      | double order => cases order <;> exact (((fails_boundsCheck outside).bind _).map _).map _
  | put kind =>
      have refused : Fails ((kind.scalar value).put platform view index) := by
        intro memory
        obtain ⟨message, ran⟩ := (kind.scalar value).run_put platform view index memory
        have same : (kind.scalar value).checked = (put kind).checked := by
          cases kind <;> rfl
        rw [same, if_neg outside] at ran
        exact ⟨_, _, ran⟩
      exact refused.map _
  | getShortVolatile => exact (((fails_boundsCheck outside).bind _).map _).map _
  | getIntVolatile => exact (((fails_boundsCheck outside).bind _).map _).map _
  | getLongVolatile => exact (((fails_boundsCheck outside).bind _).map _).map _
  | _ => exact ((fails_boundsCheck outside).bind _).map _

theorem confined_of_inside (lower : 0 ≤ index)
    (upper : index + accessor.touched platform ≤ view.capacity)
    (inside : view.InBounds index accessor.checked) (value expected : Nat) :
    Confined view.Bytes (accessor.perform platform view index value expected) := by
  have within : ∀ address, view.addressOffset + index ≤ address →
      address < view.addressOffset + index + accessor.touched platform →
      view.Bytes view.region address := fun address above below =>
    ⟨rfl, by omega, by omega⟩
  cases acts platform view index accessor with
  | loads answer zeros zero ran => exact confined_read (ran inside value expected) within
  | stores answer stored fits changes ran =>
      exact confined_transfer (ran inside value expected)
        (fun bytes _ => fits value expected bytes) within within

/-- A last byte behind the view shows in the answer, or is changed. -/
theorem not_confined_of_outside (beyond : view.capacity < index + accessor.touched platform)
    (touches : 0 < accessor.touched platform) (inside : view.InBounds index accessor.checked)
    (confined : ∀ value expected,
      Confined view.Bytes (accessor.perform platform view index value expected)) : False := by
  let last := view.addressOffset + index + accessor.touched platform - 1
  have outside : ¬view.Bytes view.region last := by
    rintro ⟨_, _, below⟩
    simp only [last] at below
    omega
  have position : last = view.addressOffset + index + (accessor.touched platform - 1 : Nat) := by
    simp only [last]
    omega
  cases acts platform view index accessor with
  | loads answer zeros zero ran =>
      let before : Memory := fun _ _ => 0
      let other : Memory := write before view.region last [1]
      have same : ∀ region address, view.Bytes region address →
          other region address = before region address := by
        intro region address held
        apply write_onlyWithin
        rintro ⟨rfl, above, below⟩
        have equal : address = last := by
          simp only [List.length_singleton] at below
          omega
        exact outside (equal ▸ held)
      obtain ⟨-, replay⟩ := confined 0 0 before _ _ (ran inside 0 0 before)
      obtain ⟨final, answered, -⟩ := replay other same
      rw [ran inside 0 0 other] at answered
      have blank : read before view.region (view.addressOffset + index)
          (accessor.touched platform) = List.replicate (accessor.touched platform) 0 := by
        simp [ByteStore.read, before]
      rw [blank, zeros] at answered
      simp only [EStateM.Result.ok.injEq] at answered
      have member : 1 ∈ read other view.region (view.addressOffset + index)
          (accessor.touched platform) := by
        refine List.mem_map.mpr ⟨accessor.touched platform - 1, List.mem_range.mpr (by omega), ?_⟩
        rw [← position]
        simp [other, write]
      exact absurd (zero _ (read_length _ _ _ _) answered.1 1 member) (by decide)
  | stores answer stored fits changes ran =>
      obtain ⟨value, expected, fill, new, different, changed⟩ := changes
      let before : Memory := fun _ _ => fill
      have uniform : read before view.region (view.addressOffset + index)
          (accessor.touched platform) = List.replicate (accessor.touched platform) fill := by
        simp [ByteStore.read, before]
      obtain ⟨kept, -⟩ := confined value expected before _ _ (ran inside value expected before)
      have untouched := kept view.region last outside
      rw [uniform, changed, position, write_inside _ _ _ _ (by simp; omega)] at untouched
      exact different (by simpa [before] using untouched)

theorem confined_iff (capacity : 0 ≤ view.capacity ∧ view.capacity ≤ 2147483647)
    (indexInt : IsInt index) :
    (∀ value expected,
      Confined view.Bytes (accessor.perform platform view index value expected)) ↔
      accessor.Safe platform view.capacity index := by
  have range := accessor.checked_range
  have wide := accessor.checked_le_touched platform
  have lengthInt : IsInt accessor.checked := by
    unfold IsInt
    omega
  have bounds := DirectBuffer.inBounds_iff capacity indexInt lengthInt
  constructor
  · intro confined lower
    by_contra exposed
    have inside : view.InBounds index accessor.checked := by
      rw [bounds]
      unfold DirectBuffer.Overflows
      omega
    refine not_confined_of_outside ?_ (by omega) inside confined
    omega
  · intro safe value expected
    by_cases inside : view.InBounds index accessor.checked
    · have lower := inside.1
      obtain ⟨small, room⟩ := safe lower
      have fits : index + accessor.checked ≤ view.capacity := by
        have cases := bounds.mp inside
        unfold DirectBuffer.Overflows at cases
        omega
      exact confined_of_inside lower (room fits) inside value expected
    · exact (fails inside value expected).confined

end ScalarAccessor

/-! The copy from another view. -/

section Copy

variable {capacity sourceCapacity index sourceIndex length : Int}

/-- The copy stays inside the two views, wherever they are. -/
def CopyConfined (capacity sourceCapacity index sourceIndex length : Int) : Prop :=
  ∀ view source : DirectBuffer, view.capacity = capacity → source.capacity = sourceCapacity →
    Confined (fun region address => view.Bytes region address ∨ source.Bytes region address)
      (view.putBytesFrom index source sourceIndex length)

/-- If both checks are passed, neither of them is by an overflow. -/
def CopySafe (capacity sourceCapacity index sourceIndex length : Int) : Prop :=
  0 ≤ index → 0 ≤ sourceIndex → 0 ≤ length →
    (index + length ≤ capacity ∨ 2147483647 < index + length) →
    (sourceIndex + length ≤ sourceCapacity ∨ 2147483647 < sourceIndex + length) →
    index + length ≤ 2147483647 ∧ sourceIndex + length ≤ 2147483647

theorem copyConfined_of_safe (capacityInt : 0 ≤ capacity ∧ capacity ≤ 2147483647)
    (sourceInt : 0 ≤ sourceCapacity ∧ sourceCapacity ≤ 2147483647) (indexInt : IsInt index)
    (sourceIndexInt : IsInt sourceIndex) (lengthInt : IsInt length)
    (safe : CopySafe capacity sourceCapacity index sourceIndex length) :
    CopyConfined capacity sourceCapacity index sourceIndex length := by
  rintro view source rfl rfl
  by_cases inside : view.InBounds index length ∧ source.InBounds sourceIndex length
  · have viewBounds := (DirectBuffer.inBounds_iff capacityInt indexInt lengthInt).mp inside.1
    have sourceBounds := (DirectBuffer.inBounds_iff sourceInt sourceIndexInt lengthInt).mp inside.2
    unfold DirectBuffer.Overflows at viewBounds sourceBounds
    obtain ⟨small, sourceSmall⟩ := safe (by omega) (by omega) (by omega) (by omega) (by omega)
    refine @confined_transfer _ _ _ _ _ _ _ source.region view.region
      (source.addressOffset + sourceIndex) (view.addressOffset + index) length.toNat length.toNat
      (fun _ => ()) id ?_ (fun bytes same => same.le) ?_ ?_
    · intro memory
      rw [Payload.run_putBytesFrom, if_pos inside.1, if_pos inside.2]
      rfl
    · intro address above below
      exact Or.inr ⟨rfl, by omega, by omega⟩
    · intro address above below
      exact Or.inl ⟨rfl, by omega, by omega⟩
  · apply Fails.confined
    intro memory
    rw [Payload.run_putBytesFrom]
    by_cases first : view.InBounds index length
    · rw [if_pos first, if_neg fun second => inside ⟨first, second⟩]
      exact ⟨_, _, rfl⟩
    · rw [if_neg first]
      exact ⟨_, _, rfl⟩

theorem copySafe_of_confined (capacityInt : 0 ≤ capacity ∧ capacity ≤ 2147483647)
    (sourceInt : 0 ≤ sourceCapacity ∧ sourceCapacity ≤ 2147483647) (indexInt : IsInt index)
    (sourceIndexInt : IsInt sourceIndex) (lengthInt : IsInt length)
    (confined : CopyConfined capacity sourceCapacity index sourceIndex length) :
    CopySafe capacity sourceCapacity index sourceIndex length := by
  intro lower sourceLower positive bound sourceBound
  -- a native view and a view of an array have no byte in common
  let view : DirectBuffer := .wrapAddress 0 capacity
  let source : DirectBuffer := ⟨some ⟨0, 0⟩, none, 0, sourceCapacity⟩
  have accepted : view.InBounds index length :=
    (DirectBuffer.inBounds_iff capacityInt indexInt lengthInt).mpr (by
      simp only [view, DirectBuffer.wrapAddress, DirectBuffer.Overflows]
      omega)
  have sourceAccepted : source.InBounds sourceIndex length :=
    (DirectBuffer.inBounds_iff sourceInt sourceIndexInt lengthInt).mpr (by
      simp only [source, DirectBuffer.Overflows]
      omega)
  have ran : ∀ memory, (view.putBytesFrom index source sourceIndex length).run memory =
      .ok () (write memory .native (0 + index)
        (read memory (.array 0) (0 + sourceIndex) length.toNat)) := by
    intro memory
    rw [Payload.run_putBytesFrom, if_pos accepted, if_pos sourceAccepted]
    rfl
  have stored : ∀ memory : Memory, 0 < length →
      write memory .native (0 + index) (read memory (.array 0) (0 + sourceIndex) length.toNat)
        .native (0 + index + (length.toNat - 1 : Nat)) =
      memory (.array 0) (0 + sourceIndex + (length.toNat - 1 : Nat)) := by
    intro memory some
    rw [write_inside _ _ _ _ (by rw [read_length]; omega)]
    simp [ByteStore.read]
  unfold IsInt at *
  have small : index + length ≤ 2147483647 := by
    by_contra large
    let before : Memory := fun region _ => if region = .native then 0 else 1
    obtain ⟨kept, -⟩ := confined view source rfl rfl before _ _ (ran before)
    have untouched := kept .native (0 + index + (length.toNat - 1 : Nat)) (by
      rintro (⟨-, -, below⟩ | ⟨other, -, -⟩)
      · simp only [view, DirectBuffer.wrapAddress] at below
        omega
      · cases other)
    rw [stored before (by omega)] at untouched
    simp [before] at untouched
  refine ⟨small, ?_⟩
  by_contra large
  let before : Memory := fun _ _ => 0
  let other : Memory := write before (.array 0) (0 + sourceIndex + (length.toNat - 1 : Nat)) [1]
  have same : ∀ region address, view.Bytes region address ∨ source.Bytes region address →
      other region address = before region address := by
    intro region address held
    apply write_onlyWithin
    rintro ⟨rfl, above, below⟩
    rcases held with ⟨different, -, -⟩ | ⟨-, -, below⟩
    · cases different
    · simp only [source] at below
      omega
  obtain ⟨-, replay⟩ := confined view source rfl rfl before _ _ (ran before)
  obtain ⟨final, again, agrees⟩ := replay other same
  rw [ran other] at again
  cases again
  have shown := agrees .native (0 + index + (length.toNat - 1 : Nat)) (Or.inl ⟨rfl, by
    simp only [view, DirectBuffer.wrapAddress]
    omega, by
    simp only [view, DirectBuffer.wrapAddress]
    omega⟩)
  rw [stored before (by omega), stored other (by omega)] at shown
  simp [other, before, write] at shown

end Copy

theorem bounds_sound_iff {platform : Platform} {view : DirectBuffer} {accessor : ScalarAccessor}
    {sourceCapacity index sourceIndex length : Int} {memory : Memory}
    (capacityInt : 0 ≤ view.capacity ∧ view.capacity ≤ 2147483647)
    (sourceInt : 0 ≤ sourceCapacity ∧ sourceCapacity ≤ 2147483647) (indexInt : IsInt index)
    (sourceIndexInt : IsInt sourceIndex) (lengthInt : IsInt length) :
    (((∃ after, (view.boundsCheck index length).run memory = .ok () after) ↔
        0 ≤ index ∧ 0 ≤ length ∧ index + length ≤ view.capacity) ↔
      ¬DirectBuffer.Overflows index length) ∧
    ((∀ value expected,
        Confined view.Bytes (accessor.perform platform view index value expected)) ↔
      accessor.Safe platform view.capacity index) ∧
    (CopyConfined view.capacity sourceCapacity index sourceIndex length ↔
      CopySafe view.capacity sourceCapacity index sourceIndex length) := by
  refine ⟨?_, ScalarAccessor.confined_iff capacityInt indexInt, ?_⟩
  · rw [DirectBuffer.returns_iff capacityInt indexInt lengthInt]
    unfold DirectBuffer.Overflows
    omega
  · exact ⟨copySafe_of_confined capacityInt sourceInt indexInt sourceIndexInt lengthInt,
      copyConfined_of_safe capacityInt sourceInt indexInt sourceIndexInt lengthInt⟩

/-- Sixteen bytes, a `long` and a copy of eight bytes that end with them. -/
theorem bounds_sound_sixteen :
    ((∃ after, ((DirectBuffer.wrapAddress 4096 16).boundsCheck 8 8).run (fun _ _ => 0) =
        .ok () after) ↔ (0 : Int) ≤ 8 ∧ (0 : Int) ≤ 8 ∧ (8 : Int) + 8 ≤ 16) ∧
    (∀ value expected, Confined (DirectBuffer.wrapAddress 4096 16).Bytes
      ((ScalarAccessor.put (.long none)).perform ⟨.littleEndian, 16⟩
        (.wrapAddress 4096 16) 8 value expected)) ∧
    CopyConfined 16 32 8 24 8 := by
  have sound := @bounds_sound_iff ⟨.littleEndian, 16⟩ (.wrapAddress 4096 16) (.put (.long none))
    32 8 24 8 (fun _ _ => 0) (by decide) (by decide) (by decide) (by decide) (by decide)
  refine ⟨sound.1.mpr (by decide), sound.2.1.mpr ?_, sound.2.2.mpr ?_⟩
  · intro _
    decide
  · intro _ _ _ _ _
    decide

/-- The check of an empty view lets the index 2147483647 through, and `getByte` loads there. -/
theorem overflow_passes_check :
    ¬((∃ after, ((DirectBuffer.wrapAddress 4096 0).boundsCheck 2147483647 1).run (fun _ _ => 0) =
        .ok () after) ↔
      (0 : Int) ≤ 2147483647 ∧ (0 : Int) ≤ 1 ∧ (2147483647 : Int) + 1 ≤ 0) ∧
    ¬∀ value expected, Confined (DirectBuffer.wrapAddress 4096 0).Bytes
      ((ScalarAccessor.get .byte).perform ⟨.littleEndian, 16⟩ (.wrapAddress 4096 0) 2147483647
        value expected) := by
  constructor
  · rw [DirectBuffer.returns_iff (by decide) (by decide) (by decide)]
    decide
  · rw [ScalarAccessor.confined_iff (by decide) (by decide)]
    intro safe
    exact absurd (safe (by decide)).1 (by decide)

end LmdbJni
