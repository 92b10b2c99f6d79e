import Mathlib

/-!
Fixed-width encodings of natural numbers as byte strings, least or most significant
byte first, and the byte swap that turns one order into the other.
-/

inductive ByteOrder
  | bigEndian
  | littleEndian
  deriving DecidableEq, Repr

namespace ByteOrder

def lowBytes : Nat → Nat → List UInt8
  | 0, _ => []
  | width + 1, value => UInt8.ofNat value :: lowBytes width (value / 256)

def ofLowBytes : List UInt8 → Nat
  | [] => 0
  | byte :: rest => byte.toNat + 256 * ofLowBytes rest

def encode (order : ByteOrder) (width value : Nat) : List UInt8 :=
  match order with
  | littleEndian => lowBytes width value
  | bigEndian => (lowBytes width value).reverse

def decode (order : ByteOrder) (bytes : List UInt8) : Nat :=
  match order with
  | littleEndian => ofLowBytes bytes
  | bigEndian => ofLowBytes bytes.reverse

def reverseBytes (width value : Nat) : Nat := ofLowBytes (lowBytes width value).reverse

@[simp] theorem lowBytes_length (width value : Nat) : (lowBytes width value).length = width := by
  induction width generalizing value with
  | zero => rfl
  | succ width ih => simp [lowBytes, ih]

@[simp] theorem encode_length (order : ByteOrder) (width value : Nat) :
    (order.encode width value).length = width := by
  cases order <;> simp [encode]

theorem ofLowBytes_lt (bytes : List UInt8) : ofLowBytes bytes < 256 ^ bytes.length := by
  induction bytes with
  | nil => simp [ofLowBytes]
  | cons byte rest ih =>
      have bound := byte.toNat_lt
      simp only [ofLowBytes, List.length_cons, Nat.pow_succ]
      omega

theorem lowBytes_ofLowBytes (bytes : List UInt8) :
    lowBytes bytes.length (ofLowBytes bytes) = bytes := by
  induction bytes with
  | nil => rfl
  | cons byte rest ih =>
      have bound : byte.toNat < 256 := byte.toNat_lt
      have low : (byte.toNat + 256 * ofLowBytes rest) / 256 = ofLowBytes rest := by omega
      have head : UInt8.ofNat (byte.toNat + 256 * ofLowBytes rest) = byte := by
        apply UInt8.toNat_inj.mp
        rw [UInt8.toNat_ofNat']
        omega
      simp only [List.length_cons, ofLowBytes, lowBytes, low, head, ih]

theorem ofLowBytes_lowBytes {width value : Nat} (bound : value < 256 ^ width) :
    ofLowBytes (lowBytes width value) = value := by
  induction width generalizing value with
  | zero =>
      have zero : value = 0 := by simpa using bound
      rw [zero]
      rfl
  | succ width ih =>
      have rest : value / 256 < 256 ^ width := by
        rw [Nat.pow_succ] at bound
        omega
      rw [lowBytes, ofLowBytes, ih rest, UInt8.toNat_ofNat']
      omega

theorem lowBytes_add (first second value : Nat) :
    lowBytes (first + second) value =
      lowBytes first value ++ lowBytes second (value / 256 ^ first) := by
  induction first generalizing value with
  | zero => simp [lowBytes]
  | succ first ih =>
      have split : first + 1 + second = (first + second) + 1 := by omega
      rw [split, lowBytes, lowBytes, ih, Nat.pow_succ', Nat.div_div_eq_div_mul]
      rfl

theorem lowBytes_mod (width value : Nat) :
    lowBytes width (value % 256 ^ width) = lowBytes width value := by
  induction width generalizing value with
  | zero => rfl
  | succ width ih =>
      have head : UInt8.ofNat (value % 256 ^ (width + 1)) = UInt8.ofNat value := by
        apply UInt8.toNat_inj.mp
        rw [UInt8.toNat_ofNat', UInt8.toNat_ofNat', Nat.pow_succ']
        exact Nat.mod_mul_right_mod value (2 ^ 8) (256 ^ width)
      have rest : value % 256 ^ (width + 1) / 256 = value / 256 % 256 ^ width := by
        rw [Nat.pow_succ', Nat.mod_mul_right_div_self]
      rw [lowBytes, lowBytes, head, rest, ih]

theorem lowBytes_reverseBytes (width value : Nat) :
    lowBytes width (reverseBytes width value) = (lowBytes width value).reverse := by
  have swapped := lowBytes_ofLowBytes (lowBytes width value).reverse
  simpa [reverseBytes] using swapped

/-- Storing a number in one order writes the bytes of its swap in the other order. -/
theorem encode_reverseBytes {native order : ByteOrder} (different : native ≠ order)
    (width value : Nat) :
    native.encode width (reverseBytes width value) = order.encode width value := by
  cases native <;> cases order <;> simp_all [encode, lowBytes_reverseBytes]

/-- Loading in one order and swapping reads the number stored in the other order. -/
theorem reverseBytes_decode {native order : ByteOrder} (different : native ≠ order)
    (bytes : List UInt8) :
    reverseBytes bytes.length (native.decode bytes) = order.decode bytes := by
  have forward := lowBytes_ofLowBytes bytes
  have backward := lowBytes_ofLowBytes bytes.reverse
  rw [List.length_reverse] at backward
  cases native <;> cases order <;> simp_all [decode, reverseBytes]

theorem decode_encode (order : ByteOrder) {width value : Nat} (bound : value < 256 ^ width) :
    order.decode (order.encode width value) = value := by
  cases order <;> simp [decode, encode, ofLowBytes_lowBytes bound]

theorem decode_lt (order : ByteOrder) (bytes : List UInt8) :
    order.decode bytes < 256 ^ bytes.length := by
  cases order with
  | littleEndian => exact ofLowBytes_lt bytes
  | bigEndian =>
      have bound := ofLowBytes_lt bytes.reverse
      rwa [List.length_reverse] at bound

theorem ofLowBytes_eq_zero {bytes : List UInt8} (zero : ofLowBytes bytes = 0) :
    ∀ byte ∈ bytes, byte = 0 := by
  induction bytes with
  | nil => simp
  | cons byte rest ih =>
      simp only [ofLowBytes] at zero
      intro other member
      cases member with
      | head => exact UInt8.toNat_inj.mp (by simpa using (by omega : byte.toNat = 0))
      | tail _ member => exact ih (by omega) other member

theorem decode_eq_zero {order : ByteOrder} {bytes : List UInt8} (zero : order.decode bytes = 0) :
    ∀ byte ∈ bytes, byte = 0 := by
  cases order with
  | littleEndian => exact ofLowBytes_eq_zero zero
  | bigEndian =>
      intro byte member
      exact ofLowBytes_eq_zero zero byte (List.mem_reverse.mpr member)

theorem encode_zero (order : ByteOrder) (width : Nat) :
    order.encode width 0 = List.replicate width 0 := by
  have low : lowBytes width 0 = List.replicate width 0 := by
    induction width with
    | zero => rfl
    | succ width ih => simp [lowBytes, List.replicate_succ, ih]
  cases order <;> simp [encode, low]

theorem decode_zeros (order : ByteOrder) (width : Nat) :
    order.decode (List.replicate width 0) = 0 := by
  have low : ofLowBytes (List.replicate width 0) = 0 := by
    induction width with
    | zero => rfl
    | succ width ih => simp [List.replicate_succ, ofLowBytes, ih]
  cases order with
  | littleEndian => exact low
  | bigEndian => simpa [decode] using low

end ByteOrder
