-- A ring of fixed depth: it remembers the last values written and forgets
-- the older ones.
import Mathlib.Data.List.Basic
import Mathlib.Data.List.GetD

/-- The cells, the cell that is written next, and how many have been written. -/
structure RingBuffer (α : Type) (d : ℕ) where
  seen : List α
  depth : seen.length = d
  head : ℕ := 0
  count : ℕ := 0

namespace RingBuffer

variable {α : Type} {d : ℕ}

def empty (d : ℕ) (v : α) : RingBuffer α d := { seen := List.replicate d v, depth := by simp }

def contains [BEq α] (r : RingBuffer α d) (v : α) : Bool := (r.seen.take r.count).any (· == v)

def remember (r : RingBuffer α d) (v : α) : RingBuffer α d where
  seen := r.seen.set r.head v
  depth := by rw [List.length_set, r.depth]
  head := (r.head + 1) % d
  count := if r.count < d then r.count + 1 else r.count

/-- The ring after the values of a history, the latest first. -/
structure Holds (r : RingBuffer α d) (past : List α) : Prop where
  head : r.head = past.length % d
  count : r.count = min past.length d
  cells : ∀ i, i < min past.length d → r.seen[(past.length - 1 - i) % d]? = past[i]?

theorem holds_empty (d : ℕ) (v : α) : Holds (empty d v) [] where
  head := by simp [empty]
  count := by simp [empty]
  cells := by simp

/-- Two values of the last `d` stand in different cells. -/
theorem cell_ne {n i d : ℕ} (hi : i + 1 ≤ n) (hd : i + 1 < d) : (n - (i + 1)) % d ≠ n % d := by
  intro h
  have hzero := Nat.sub_mod_eq_zero_of_mod_eq h.symm
  rw [Nat.sub_sub_self hi, Nat.mod_eq_of_lt hd] at hzero
  omega

theorem Holds.remember {r : RingBuffer α d} {past : List α} (h : Holds r past)
    (hd : 0 < d) (v : α) :
    Holds (r.remember v) (v :: past) where
  head := by
    simp only [RingBuffer.remember, List.length_cons, h.head, Nat.mod_add_mod]
  count := by
    simp only [RingBuffer.remember, List.length_cons, h.count]
    split <;> omega
  cells := by
    intro i hi
    simp only [List.length_cons, Nat.add_sub_cancel] at hi ⊢
    have hlt : past.length % d < r.seen.length := by
      rw [r.depth]
      exact Nat.mod_lt _ hd
    simp only [RingBuffer.remember, h.head]
    cases i with
    | zero =>
      rw [Nat.sub_zero, List.getElem?_set_self hlt]
      rfl
    | succ i =>
      have hne := cell_ne (n := past.length) (i := i) (d := d) (by omega) (by omega)
      rw [List.getElem?_set_ne hne.symm, List.getElem?_cons_succ, ← h.cells i (by omega)]
      congr 2
      omega

/-- Every written cell holds one of the last `d` values. -/
theorem exists_age {n j d : ℕ} (hj : j < min n d) : ∃ i, i < min n d ∧ (n - 1 - i) % d = j := by
  by_cases hn : n ≤ d
  · refine ⟨n - 1 - j, by omega, ?_⟩
    have hback : n - 1 - (n - 1 - j) = j := by omega
    rw [hback]
    exact Nat.mod_eq_of_lt (by omega)
  · have hd : 0 < d := by omega
    refine ⟨(n - 1 - j) % d, ?_, ?_⟩
    · have hlt := Nat.mod_lt (n - 1 - j) hd
      omega
    · have hsplit := Nat.div_add_mod (n - 1 - j) d
      have hage : n - 1 - (n - 1 - j) % d = d * ((n - 1 - j) / d) + j := by omega
      rw [hage, Nat.mul_add_mod]
      exact Nat.mod_eq_of_lt (by omega)

/-- The ring contains exactly the last `d` values. -/
theorem Holds.contains_iff [BEq α] [LawfulBEq α] {r : RingBuffer α d} {past : List α}
    (h : Holds r past)
    (v : α) : r.contains v = true ↔ v ∈ past.take d := by
  unfold contains
  rw [List.any_eq_true]
  constructor
  · rintro ⟨x, hx, hv⟩
    obtain rfl := eq_of_beq hv
    obtain ⟨j, hj, hcell⟩ := List.mem_take_iff_getElem.mp hx
    rw [h.count] at hj
    obtain ⟨i, hi, hij⟩ := exists_age (n := past.length) (d := d) (j := j) (by omega)
    have hpast := h.cells i hi
    rw [hij, List.getElem?_eq_getElem (by omega), hcell] at hpast
    have hmem : (past.take d)[i]? = some x := by
      rw [List.getElem?_take_of_lt (by omega), ← hpast]
    exact List.mem_of_getElem? hmem
  · intro hv
    obtain ⟨i, hi, hcell⟩ := List.mem_take_iff_getElem.mp hv
    have hpast := h.cells i (by omega)
    have hsome : past[i]? = some v := by
      rw [List.getElem?_eq_getElem (by omega), hcell]
    rw [hsome] at hpast
    refine ⟨v, ?_, beq_self_eq_true v⟩
    have hwritten : (past.length - 1 - i) % d < r.count := by
      rw [h.count]
      have hle := Nat.mod_le (past.length - 1 - i) d
      have hlt := Nat.mod_lt (past.length - 1 - i) (y := d) (by omega)
      omega
    have hmem : (r.seen.take r.count)[(past.length - 1 - i) % d]? = some v := by
      rw [List.getElem?_take_of_lt hwritten, hpast]
    exact List.mem_of_getElem? hmem

end RingBuffer
