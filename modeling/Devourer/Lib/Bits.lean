-- Masks as sets of bit positions: how many positions a mask has, and what
-- the clearing of its lowest bit leaves.
import Mathlib.Data.Nat.BitIndices
import Mathlib.Data.Nat.Bitwise
import Mathlib.Data.List.Perm.Subperm
import Mathlib.Algebra.Ring.Parity

namespace Bits

/-- The number of bits that are set. -/
def count (v : ℕ) : ℕ := v.bitIndices.length

@[simp] theorem count_zero : count 0 = 0 := by simp [count]

@[simp] theorem count_double (q : ℕ) : count (2 * q) = count q := by simp [count]

@[simp] theorem count_double_add_one (q : ℕ) : count (2 * q + 1) = count q + 1 := by simp [count]

theorem and_pred_odd (q : ℕ) : (2 * q + 1) &&& (2 * q + 1 - 1) = 2 * q := by
  rw [Nat.add_sub_cancel]
  apply Nat.eq_of_testBit_eq
  intro i
  rw [Nat.testBit_and]
  cases i with
  | zero => simp
  | succ i =>
    have hdiv : (2 * q + 1) / 2 = q := by omega
    simp [Nat.testBit_succ, hdiv]

theorem and_pred_even (q : ℕ) : (2 * q) &&& (2 * q - 1) = 2 * (q &&& (q - 1)) := by
  apply Nat.eq_of_testBit_eq
  intro i
  rw [Nat.testBit_and]
  cases i with
  | zero => simp
  | succ i =>
    have hdiv : (2 * q - 1) / 2 = q - 1 := by omega
    simp [Nat.testBit_succ, hdiv]

/-- `v & (v - 1)` is `v` without its lowest bit. -/
theorem count_and_pred {v : ℕ} (hv : v ≠ 0) : count (v &&& (v - 1)) + 1 = count v := by
  induction v using Nat.strong_induction_on with
  | _ v ih =>
    rcases Nat.even_or_odd' v with ⟨q, rfl | rfl⟩
    · have hq : q ≠ 0 := by omega
      rw [and_pred_even, count_double, count_double]
      exact ih q (by omega) hq
    · rw [and_pred_odd, count_double, count_double_add_one]

/-- A mask below `2 ^ n` has at most `n` bits. -/
theorem count_le {v n : ℕ} (h : v < 2 ^ n) : count v ≤ n := by
  have hsub : v.bitIndices ⊆ List.range n := by
    intro i hi
    have hle := Nat.two_pow_le_of_mem_bitIndices hi
    exact List.mem_range.mpr ((Nat.pow_lt_pow_iff_right (by omega)).mp (hle.trans_lt h))
  have hperm := List.subperm_of_subset Nat.bitIndices_nodup hsub
  simpa [count] using hperm.length_le

/-- A mask meets a single bit where it has it. -/
theorem and_bit_ne_zero (v i : ℕ) : v &&& 2 ^ i ≠ 0 ↔ v.testBit i := by
  rw [Nat.and_two_pow]
  by_cases h : v.testBit i
  · simp [h]
  · simp [h]

/-- The positions below `n` that are set. -/
def positions (n v : ℕ) : List ℕ := (List.range n).filter (v.testBit ·)

theorem positions_nodup (n v : ℕ) : (positions n v).Nodup := List.nodup_range.filter _

theorem mem_positions {n v : ℕ} (h : v < 2 ^ n) {i : ℕ} : i ∈ positions n v ↔ v.testBit i := by
  rw [positions, List.mem_filter, List.mem_range, and_iff_right_iff_imp]
  intro hi
  have hle := Nat.ge_two_pow_of_testBit hi
  exact (Nat.pow_lt_pow_iff_right (by omega)).mp (hle.trans_lt h)

theorem positions_perm {n v : ℕ} (h : v < 2 ^ n) : (positions n v).Perm v.bitIndices := by
  rw [List.perm_ext_iff_of_nodup (positions_nodup n v) Nat.bitIndices_nodup]
  intro i
  rw [mem_positions h, Nat.mem_bitIndices]

theorem length_positions {n v : ℕ} (h : v < 2 ^ n) : (positions n v).length = count v :=
  (positions_perm h).length_eq

/-- The mask of the first `n` positions has `n` bits. -/
theorem count_full (n : ℕ) : count (2 ^ n - 1) = n := by
  induction n with
  | zero => simp
  | succ n ih =>
    have hpos : 0 < 2 ^ n := Nat.two_pow_pos n
    have hfull : 2 ^ (n + 1) - 1 = 2 * (2 ^ n - 1) + 1 := by omega
    rw [hfull, count_double_add_one, ih]

end Bits
