-- A buffer of which only the first bytes are in reach: reads and moves that
-- fail at the limit and beyond it.
import Devourer.Lib.Octets

/-- A buffer, and how many of its bytes are in reach. -/
structure Reach where
  bytes : Bytes
  limit : ℕ
  inside : limit ≤ bytes.length

namespace Reach

/-- The first `n` bytes of a buffer, or all that it has. -/
def upto (b : Bytes) (n : ℕ) : Reach := ⟨b, min n b.length, Nat.min_le_right _ _⟩

/-- The `n` bytes from `off` on. -/
def read (w : Reach) (off n : ℕ) : Option Bytes :=
  if off + n ≤ w.limit then some ((w.bytes.drop off).take n) else none

/-- A buffer after `n` bytes of it are moved from `src` to `dst`. The two places may overlap. -/
def moved (b : Bytes) (dst src n : ℕ) : Bytes :=
  b.take dst ++ ((b.drop src).take n ++ b.drop (dst + n))

theorem length_moved {b : Bytes} {dst src n : ℕ} (hdst : dst + n ≤ b.length)
    (hsrc : src + n ≤ b.length) : (moved b dst src n).length = b.length := by
  simp only [moved, List.length_append, List.length_take, List.length_drop]
  omega

/-- `n` bytes moved from `src` to `dst`. -/
def move (w : Reach) (dst src n : ℕ) : Option Reach :=
  if h : dst + n ≤ w.limit ∧ src + n ≤ w.limit then
    some ⟨moved w.bytes dst src n, w.limit, by
      rw [length_moved (Nat.le_trans h.1 w.inside) (Nat.le_trans h.2 w.inside)]
      exact w.inside⟩
  else none

@[simp] theorem bytes_upto (b : Bytes) (n : ℕ) : (upto b n).bytes = b := rfl

theorem limit_upto {b : Bytes} {n : ℕ} (h : n ≤ b.length) : (upto b n).limit = n :=
  Nat.min_eq_left h

theorem read_eq {w : Reach} {off n : ℕ} (h : off + n ≤ w.limit) :
    w.read off n = some ((w.bytes.drop off).take n) := if_pos h

/-- What is read with less in reach is read with more. -/
theorem read_of_less {v w : Reach} (hbytes : v.bytes = w.bytes) (hlimit : v.limit ≤ w.limit)
    {off n : ℕ} {x : Bytes} (h : v.read off n = some x) : w.read off n = some x := by
  unfold read at h ⊢
  split at h
  · next hin => rw [if_pos (by omega), ← hbytes, h]
  · cases h

theorem move_eq {w : Reach} {dst src n : ℕ} (hdst : dst + n ≤ w.limit) (hsrc : src + n ≤ w.limit) :
    ∃ w', w.move dst src n = some w' ∧ w'.bytes = moved w.bytes dst src n ∧ w'.limit = w.limit :=
  ⟨_, dif_pos ⟨hdst, hsrc⟩, rfl, rfl⟩

/-! ## What a move writes and what it leaves -/

variable {b : Bytes} {dst src n : ℕ}

/-- The bytes behind the place that was written. -/
theorem drop_moved (hdst : dst + n ≤ b.length) (hsrc : src + n ≤ b.length) {k : ℕ}
    (hk : dst + n ≤ k) : (moved b dst src n).drop k = b.drop k := by
  have hfront : (b.take dst ++ (b.drop src).take n).length = dst + n := by
    simp only [List.length_append, List.length_take, List.length_drop]
    omega
  obtain ⟨j, rfl⟩ := Nat.exists_eq_add_of_le hk
  rw [moved, ← List.append_assoc, ← List.drop_drop, List.drop_left' hfront, List.drop_drop]

/-- From the place that was written on, the moved bytes and what stood behind them. -/
theorem drop_dst_moved (hdst : dst + n ≤ b.length) :
    (moved b dst src n).drop dst = (b.drop src).take n ++ b.drop (dst + n) := by
  have hfront : (b.take dst).length = dst := by
    rw [List.length_take]
    omega
  rw [moved, List.drop_left' hfront]

end Reach
