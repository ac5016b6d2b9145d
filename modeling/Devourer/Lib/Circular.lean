-- Places of a ring of `n` cells, counted from one of them on.
import Mathlib.Data.Nat.Notation
import Mathlib.Tactic.SplitIfs

namespace Circular

/-- How many cells there are from `r` up to `w`. -/
def ahead (n r w : ℕ) : ℕ := (w + n - r) % n

variable {n r w j k : ℕ}

theorem ahead_lt (hr : r < n) : ahead n r w < n := Nat.mod_lt _ (by omega)

theorem ahead_eq (hr : r < n) (hw : w < n) :
    ahead n r w = if r ≤ w then w - r else w + n - r := by
  unfold ahead
  split
  · have hsplit : w + n - r = w - r + n := by omega
    rw [hsplit, Nat.add_mod_right]
    exact Nat.mod_eq_of_lt (by omega)
  · exact Nat.mod_eq_of_lt (by omega)

theorem cell_eq (hr : r < n) (hk : k < n) :
    (r + k) % n = if r + k < n then r + k else r + k - n := by
  split
  · exact Nat.mod_eq_of_lt ‹_›
  · rw [Nat.mod_eq_sub_mod (by omega)]
    exact Nat.mod_eq_of_lt (by omega)

theorem ahead_eq_zero (hr : r < n) (hw : w < n) : ahead n r w = 0 ↔ r = w := by
  rw [ahead_eq hr hw]
  split <;> omega

@[simp] theorem ahead_self (hr : r < n) : ahead n r r = 0 := (ahead_eq_zero hr hr).mpr rfl

theorem cell_ahead (hr : r < n) (hw : w < n) : (r + ahead n r w) % n = w := by
  rw [cell_eq hr (ahead_lt hr), ahead_eq hr hw]
  split_ifs <;> omega

theorem ahead_cell (hr : r < n) (hk : k < n) : ahead n r ((r + k) % n) = k := by
  rw [ahead_eq hr (Nat.mod_lt _ (by omega)), cell_eq hr hk]
  split_ifs <;> omega

theorem cell_inj (hr : r < n) (hj : j < n) (hk : k < n) (h : (r + j) % n = (r + k) % n) :
    j = k := by
  rw [← ahead_cell hr hj, h, ahead_cell hr hk]

theorem cell_ahead_succ (hr : r < n) (hw : w < n) :
    (r + (ahead n r w + 1)) % n = (w + 1) % n := by
  rw [← Nat.add_assoc, Nat.add_mod, cell_ahead hr hw, ← Nat.add_mod_mod, Nat.add_mod]
  simp

/-- The far end moves on. -/
theorem ahead_succ_right (hr : r < n) (hw : w < n) (h : ahead n r w + 1 < n) :
    ahead n r ((w + 1) % n) = ahead n r w + 1 := by
  rw [← cell_ahead_succ hr hw, ahead_cell hr h]

/-- The far end moves on to the near one. -/
theorem ahead_succ_full (hr : r < n) (hw : w < n) (h : ahead n r w + 1 = n) :
    (w + 1) % n = r := by
  rw [← cell_ahead_succ hr hw, h, Nat.add_mod_right, Nat.mod_eq_of_lt hr]

/-- The near end moves on. -/
theorem ahead_succ_left (hr : r < n) (hw : w < n) (h : r ≠ w) :
    ahead n ((r + 1) % n) w + 1 = ahead n r w := by
  have hne : ahead n r w ≠ 0 := fun h0 => h ((ahead_eq_zero hr hw).mp h0)
  have hlt := ahead_lt (w := w) hr
  have hnext : (r + 1) % n < n := Nat.mod_lt _ (by omega)
  rw [ahead_eq hnext hw, ahead_eq hr hw, cell_eq hr (by omega)]
  rw [ahead_eq hr hw] at hne
  split_ifs at hne ⊢ <;> omega

theorem cell_succ (r k n : ℕ) : ((r + 1) % n + k) % n = (r + (k + 1)) % n := by
  rw [Nat.mod_add_mod, Nat.add_assoc, Nat.add_comm 1 k]

end Circular
