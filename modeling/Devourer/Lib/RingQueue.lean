-- A queue in a ring of cells. One end fills the cells and the other empties
-- them, and the cell in front of the emptying end is left unused: so equal ends
-- say that the queue is empty.
import Devourer.Lib.Circular
import Mathlib.Data.List.Basic

/-- The cells, the one that is filled next, and the one that is emptied next. -/
structure RingQueue (α : Type*) where
  cells : List α
  head : ℕ
  tail : ℕ
  head_lt : head < cells.length
  tail_lt : tail < cells.length

namespace RingQueue

variable {α : Type*} (r : RingQueue α)

def count : ℕ := Circular.ahead r.cells.length r.tail r.head

theorem cell_lt (k : ℕ) : (r.tail + k) % r.cells.length < r.cells.length :=
  Nat.mod_lt _ (Nat.lt_of_le_of_lt (Nat.zero_le _) r.tail_lt)

/-- The `k`th cell from the emptying end on. -/
def cell (k : ℕ) : α := r.cells.get ⟨(r.tail + k) % r.cells.length, r.cell_lt k⟩

/-- The values in the queue, oldest first. -/
def queued : List α := (List.range r.count).map r.cell

def Full : Prop := (r.head + 1) % r.cells.length = r.tail

def put (v : α) : RingQueue α where
  cells := r.cells.set r.head v
  head := (r.head + 1) % r.cells.length
  tail := r.tail
  head_lt := by
    rw [List.length_set]
    exact Nat.mod_lt _ (Nat.lt_of_le_of_lt (Nat.zero_le _) r.head_lt)
  tail_lt := by
    rw [List.length_set]
    exact r.tail_lt

def take : RingQueue α where
  cells := r.cells
  head := r.head
  tail := (r.tail + 1) % r.cells.length
  head_lt := r.head_lt
  tail_lt := Nat.mod_lt _ (Nat.lt_of_le_of_lt (Nat.zero_le _) r.tail_lt)

@[simp] theorem length_queued : r.queued.length = r.count := by
  rw [queued, List.length_map, List.length_range]

theorem getElem?_cell (k : ℕ) : r.cells[(r.tail + k) % r.cells.length]? = some (r.cell k) :=
  List.getElem?_eq_getElem (r.cell_lt k)

theorem cell_zero : r.cells[r.tail]? = some (r.cell 0) := by
  have hcell := r.getElem?_cell 0
  rw [Nat.add_zero, Nat.mod_eq_of_lt r.tail_lt] at hcell
  exact hcell

/-! ## How much is in it -/

theorem count_lt : r.count < r.cells.length := Circular.ahead_lt r.tail_lt

theorem count_eq_zero : r.count = 0 ↔ r.tail = r.head :=
  Circular.ahead_eq_zero r.tail_lt r.head_lt

theorem full_iff : r.Full ↔ r.count + 1 = r.cells.length := by
  constructor
  · intro hfull
    by_contra hne
    have hlt : r.count + 1 < r.cells.length := by
      have := r.count_lt
      omega
    have hmoved := Circular.ahead_succ_right r.tail_lt r.head_lt hlt
    rw [hfull, Circular.ahead_self r.tail_lt] at hmoved
    omega
  · intro hcount
    exact Circular.ahead_succ_full r.tail_lt r.head_lt hcount

theorem count_put (v : α) (h : ¬r.Full) : (r.put v).count = r.count + 1 := by
  have hlt : r.count + 1 < r.cells.length := by
    have hne := (not_congr r.full_iff).mp h
    have := r.count_lt
    omega
  unfold count put
  dsimp only
  rw [List.length_set]
  exact Circular.ahead_succ_right r.tail_lt r.head_lt hlt

theorem count_take (h : r.tail ≠ r.head) : r.take.count + 1 = r.count :=
  Circular.ahead_succ_left r.tail_lt r.head_lt h

/-! ## What is in it -/

/-- The cell that is filled is the first one behind those in the queue. -/
theorem cell_count : (r.tail + r.count) % r.cells.length = r.head :=
  Circular.cell_ahead r.tail_lt r.head_lt

theorem cell_put_old (v : α) {k : ℕ} (hk : k < r.count) : (r.put v).cell k = r.cell k := by
  have hne : r.head ≠ (r.tail + k) % r.cells.length := by
    intro heq
    rw [← r.cell_count] at heq
    have hsame := Circular.cell_inj r.tail_lt r.count_lt (Nat.lt_trans hk r.count_lt) heq
    omega
  have hnew := (r.put v).getElem?_cell k
  unfold put at hnew
  dsimp only at hnew
  rw [List.length_set, List.getElem?_set_ne hne, r.getElem?_cell] at hnew
  exact (Option.some.inj hnew).symm

theorem cell_put_new (v : α) : (r.put v).cell r.count = v := by
  have hnew := (r.put v).getElem?_cell r.count
  unfold put at hnew
  dsimp only at hnew
  rw [List.length_set, r.cell_count, List.getElem?_set_self r.head_lt] at hnew
  exact (Option.some.inj hnew).symm

/-- A value that is put in stands behind all others. -/
theorem queued_put (v : α) (h : ¬r.Full) : (r.put v).queued = r.queued ++ [v] := by
  unfold queued
  rw [r.count_put v h, List.range_succ, List.map_append, List.map_singleton, r.cell_put_new v]
  congr 1
  apply List.map_congr_left
  intro k hk
  exact r.cell_put_old v (List.mem_range.mp hk)

theorem cell_take (k : ℕ) : r.take.cell k = r.cell (k + 1) := by
  have hcell := r.take.getElem?_cell k
  unfold take at hcell
  dsimp only at hcell
  rw [Circular.cell_succ, r.getElem?_cell] at hcell
  exact (Option.some.inj hcell).symm

/-- What is taken out is the oldest value. -/
theorem queued_take (h : r.tail ≠ r.head) : r.queued = r.cell 0 :: r.take.queued := by
  unfold queued
  rw [← r.count_take h, List.range_succ_eq_map, List.map_cons, List.map_map]
  congr 1
  apply List.map_congr_left
  intro k _
  exact (r.cell_take k).symm

/-- A value that is put in leaves the cell alone that is emptied next. -/
theorem put_tail (v : α) (h : r.tail ≠ r.head) : (r.put v).cells[r.tail]? = r.cells[r.tail]? :=
  List.getElem?_set_ne h.symm

end RingQueue
