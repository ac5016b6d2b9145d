-- Signed results of a fixed width, which an overflow leaves undefined.
import Mathlib.Data.Int.Notation

/-- The least value of 64 bits. -/
def INT64_MIN : ℤ := -9223372036854775808

/-- A result of 64 bits. There is none when it overflows. -/
def i64 (x : ℤ) : Option ℤ := if INT64_MIN ≤ x ∧ x < 9223372036854775808 then some x else none

def i32 (x : ℤ) : Option ℤ := if -2147483648 ≤ x ∧ x < 2147483648 then some x else none

theorem eq_of_i64 {x y : ℤ} (h : i64 x = some y) : y = x := by
  unfold i64 at h
  split at h
  · exact (Option.some.inj h).symm
  · cases h

theorem eq_of_i32 {x y : ℤ} (h : i32 x = some y) : y = x := by
  unfold i32 at h
  split at h
  · exact (Option.some.inj h).symm
  · cases h
