import Mathlib

/-!
Two's-complement arithmetic on signed integers of 32 and 64 bits, carried out on `Int`.
Every overflowing operation is written as an operation on `Int` followed by `wrap32` or `wrap64`.
-/

namespace Wrapping

/-- The representative of `value` modulo `2 ^ 32` in `[-2 ^ 31, 2 ^ 31)`. -/
def wrap32 (value : Int) : Int := (value + 2147483648) % 4294967296 - 2147483648

theorem wrap32_lower (value : Int) : -2147483648 ≤ wrap32 value := by
  unfold wrap32
  omega

theorem wrap32_upper (value : Int) : wrap32 value ≤ 2147483647 := by
  unfold wrap32
  omega

theorem wrap32_of_mem {value : Int} (lower : -2147483648 ≤ value) (upper : value ≤ 2147483647) :
    wrap32 value = value := by
  unfold wrap32
  omega

theorem wrap32_natCast {value : Nat} (upper : value ≤ 2147483647) :
    wrap32 value = value :=
  wrap32_of_mem (by omega) (by omega)

theorem wrap32_mul (left right : Int) : wrap32 (wrap32 left * right) = wrap32 (left * right) := by
  obtain ⟨quotient, split⟩ : ∃ quotient, wrap32 left = left + 4294967296 * quotient :=
    ⟨-((left + 2147483648) / 4294967296), by unfold wrap32; omega⟩
  have product : wrap32 left * right = left * right + 4294967296 * (quotient * right) := by
    rw [split]
    ring
  rw [product]
  unfold wrap32
  omega

/-- The representative of `value` modulo `2 ^ 64` in `[-2 ^ 63, 2 ^ 63)`. -/
def wrap64 (value : Int) : Int :=
  (value + 9223372036854775808) % 18446744073709551616 - 9223372036854775808

theorem wrap64_of_mem {value : Int} (lower : -9223372036854775808 ≤ value)
    (upper : value ≤ 9223372036854775807) : wrap64 value = value := by
  unfold wrap64
  omega

end Wrapping
