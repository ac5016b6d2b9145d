-- What a meter keeps of its samples: the last of them, in an array that is
-- written round and round, and how many in a row met a condition.
import Mathlib.Algebra.Order.BigOperators.Group.List
import Mathlib.Algebra.Order.Field.Rat
import Mathlib.Data.List.Rotate
import Mathlib.Data.List.TakeWhile

/-! ## Windows -/

/-- The cells of the array, how many of them are live, and the one that is written next. -/
structure Window (α : Type) where
  cells : List α
  n : ℕ := 0
  head : ℕ := 0

namespace Window

variable {α : Type}

def empty (size : ℕ) (v : α) : Window α := { cells := List.replicate size v }

/-- A window of no depth has no live cell. -/
def push (depth : ℕ) (w : Window α) (v : α) : Window α where
  cells := w.cells.set w.head v
  n := if w.n < depth then w.n + 1 else w.n
  head := (w.head + 1) % if depth = 0 then 1 else depth

def live (w : Window α) : List α := w.cells.take w.n

def mean (w : Window ℚ) : ℚ := if w.n = 0 then 0 else w.live.sum / w.n

/-- The window after the samples of a history, the latest first. -/
structure Holds (depth : ℕ) (past : List α) (w : Window α) : Prop where
  size : depth ≤ w.cells.length
  n : w.n = min past.length depth
  head : w.head = past.length % if depth = 0 then 1 else depth
  order : w.live.drop w.head ++ w.live.take w.head = (past.take depth).reverse

theorem holds_empty {depth size : ℕ} (h : depth ≤ size) (v : α) :
    (empty size v).Holds depth [] where
  size := by simpa [empty] using h
  n := by simp [empty]
  head := by simp [empty]
  order := by simp [empty, live]

/-- A window that is not full yet writes behind its live cells. -/
theorem Holds.push_filling {depth : ℕ} {past : List α} {w : Window α} (h : w.Holds depth past)
    (hlt : past.length < depth) (v : α) : (w.push depth v).Holds depth (v :: past) := by
  have hn : w.n = past.length := by rw [h.n]; omega
  have hdepth : depth ≠ 0 := by omega
  have hhead : w.head = past.length := by rw [h.head, if_neg hdepth, Nat.mod_eq_of_lt hlt]
  have hsize := h.size
  have hlive : w.live = past.reverse := by
    have horder := h.order
    have hlen : w.live.length ≤ w.head := by simp [live, hn, hhead]
    rwa [List.drop_of_length_le hlen, List.take_of_length_le hlen, List.nil_append,
      List.take_of_length_le hlt.le] at horder
  have hlive' : (w.push depth v).live = (v :: past).reverse := by
    have hlt' : past.length < (w.cells.set past.length v).length := by
      rw [List.length_set]
      omega
    rw [List.reverse_cons, ← hlive]
    simp only [live, push, hn, hhead, if_pos hlt]
    rw [List.take_succ_eq_append_getElem hlt', List.take_set_of_le le_rfl, List.getElem_set_self]
  have hhead' : (w.push depth v).head = (past.length + 1) % depth := by
    rw [push, hhead, if_neg hdepth]
  refine ⟨?_, ?_, ?_, ?_⟩
  · simpa [push] using hsize
  · simp only [push, hn, if_pos hlt, List.length_cons]
    omega
  · rw [hhead', if_neg hdepth, List.length_cons]
  · have htake : (v :: past).take depth = v :: past := List.take_of_length_le hlt
    rw [hlive', hhead', htake]
    by_cases hfull : past.length + 1 = depth
    · rw [hfull, Nat.mod_self, List.drop_zero, List.take_zero, List.append_nil]
    · have hlen : (v :: past).reverse.length ≤ past.length + 1 := by simp
      rw [Nat.mod_eq_of_lt (by omega), List.drop_of_length_le hlen, List.take_of_length_le hlen,
        List.nil_append]

/-- A full window writes over its oldest cell. -/
theorem Holds.push_full {depth : ℕ} {past : List α} {w : Window α} (h : w.Holds depth past)
    (hle : depth ≤ past.length) (hd : 0 < depth) (v : α) :
    (w.push depth v).Holds depth (v :: past) := by
  have hn : w.n = depth := by rw [h.n]; omega
  have hsize := h.size
  have hhead : w.head < depth := by
    rw [h.head, if_neg hd.ne']
    exact Nat.mod_lt _ hd
  have hlen : w.live.length = depth := by simp [live, hn, hsize]
  have hlive' : (w.push depth v).live = w.live.take w.head ++ v :: w.live.drop (w.head + 1) := by
    have hset : (w.push depth v).live = w.live.set w.head v := by
      simp only [live, push, hn, lt_self_iff_false, if_false]
      rw [List.take_set]
    rw [hset, List.set_eq_take_cons_drop _ (by omega)]
  -- The oldest cell is the one at the head, so without it the rest is in order.
  have hrest :
      w.live.drop (w.head + 1) ++ w.live.take w.head = (past.take (depth - 1)).reverse := by
    have horder := h.order
    have hsplit : past.take depth = past.take (depth - 1) ++ [past[depth - 1]] := by
      rw [← List.take_succ_eq_append_getElem (by omega)]
      congr 1
      omega
    rw [List.drop_eq_getElem_cons (by omega), hsplit, List.reverse_append,
      List.cons_append] at horder
    exact (List.cons.inj horder).2
  have hhead' : (w.push depth v).head = (w.head + 1) % depth := by
    rw [push, if_neg hd.ne']
  refine ⟨?_, ?_, ?_, ?_⟩
  · simpa [push] using hsize
  · simp only [push, hn, lt_self_iff_false, if_false, List.length_cons]
    omega
  · rw [hhead', h.head, if_neg hd.ne', List.length_cons, Nat.mod_add_mod]
  · have htake : (v :: past).take depth = v :: past.take (depth - 1) := by
      obtain ⟨m, rfl⟩ : ∃ m, depth = m + 1 := ⟨depth - 1, by omega⟩
      rfl
    rw [htake, List.reverse_cons, ← hrest, hlive', hhead']
    have hfront : (w.live.take w.head).length = w.head := by
      rw [List.length_take]
      omega
    by_cases hend : w.head + 1 = depth
    · rw [hend, Nat.mod_self, List.drop_zero, List.take_zero, List.append_nil,
        List.drop_of_length_le (by omega), List.nil_append]
    · have hlen : (w.live.take w.head ++ [v]).length = w.head + 1 := by
        rw [List.length_append, hfront, List.length_singleton]
      rw [Nat.mod_eq_of_lt (by omega), List.append_cons, ← hlen, List.drop_left, List.take_left,
        hlen, List.append_assoc]

theorem Holds.push {depth : ℕ} {past : List α} {w : Window α} (h : w.Holds depth past) (v : α) :
    (w.push depth v).Holds depth (v :: past) := by
  by_cases hlt : past.length < depth
  · exact h.push_filling hlt v
  · rcases Nat.eq_zero_or_pos depth with rfl | hd
    · have hn : w.n = 0 := by simpa using h.n
      exact ⟨Nat.zero_le _, by simp [Window.push, hn], by simp [Window.push, Nat.mod_one],
        by simp [Window.push, live, hn]⟩
    · exact h.push_full (by omega) hd v

/-- The last `depth` samples in the order of their cells. -/
def laid (depth : ℕ) (past : List α) : List α :=
  let kept := (past.take depth).reverse
  kept.rotate (kept.length - past.length % kept.length)

/-- The oldest sample of a full window is the one that is written over next. -/
theorem Holds.live_eq {depth : ℕ} {past : List α} {w : Window α} (h : w.Holds depth past) :
    w.live = laid depth past := by
  have hlen : w.live.length = min past.length depth := by
    have hsize := h.size
    rw [live, List.length_take, h.n]
    omega
  have hkept : (past.take depth).reverse.length = w.live.length := by
    rw [List.length_reverse, List.length_take, hlen, min_comm]
  have hrotate : w.live.rotate (past.length % w.live.length) = (past.take depth).reverse := by
    rw [← h.order]
    rcases Nat.lt_or_ge past.length depth with hlt | hle
    · -- not full: the head is where the samples end
      have hfull : w.live.length = past.length := by rw [hlen, min_eq_left hlt.le]
      have hhead : w.head = w.live.length := by
        rw [h.head, if_neg (by omega), Nat.mod_eq_of_lt hlt, hfull]
      rw [hhead, hfull, Nat.mod_self, List.rotate_zero, ← hfull, List.drop_length, List.take_length,
        List.nil_append]
    · rcases Nat.eq_zero_or_pos depth with rfl | hd
      · have hnil : w.live = [] := List.length_eq_zero_iff.mp (by rw [hlen, Nat.min_zero])
        rw [hnil, List.rotate_nil, List.drop_nil, List.take_nil, List.append_nil]
      · have hhead : w.head = past.length % w.live.length := by
          rw [h.head, if_neg hd.ne', hlen, min_eq_right hle]
        have hlt : past.length % w.live.length < w.live.length :=
          Nat.mod_lt _ (by rw [hlen, min_eq_right hle]; exact hd)
        rw [hhead, List.rotate_eq_drop_append_take hlt.le]
  rcases Nat.eq_zero_or_pos w.live.length with h0 | hpos
  · have hnil : w.live = [] := List.length_eq_zero_iff.mp h0
    rw [laid, List.length_eq_zero_iff.mp (hkept.trans h0), List.rotate_nil, hnil]
  · have hlt := Nat.mod_lt past.length hpos
    rw [laid, hkept, ← hrotate, List.rotate_rotate, Nat.add_sub_cancel' hlt.le, List.rotate_length]

/-- The live cells are the last `depth` samples, in some order. -/
theorem Holds.live_perm {depth : ℕ} {past : List α} {w : Window α} (h : w.Holds depth past) :
    w.live.Perm (past.take depth) := by
  have hrotate : (w.live.drop w.head ++ w.live.take w.head).Perm w.live := by
    refine List.perm_append_comm.trans ?_
    rw [List.take_append_drop]
  rw [h.order] at hrotate
  exact hrotate.symm.trans (List.reverse_perm _)

theorem Holds.mean {depth : ℕ} {past : List ℚ} {w : Window ℚ} (h : w.Holds depth past)
    (hn : w.n ≠ 0) :
    w.mean = (past.take depth).sum / (past.take depth).length := by
  rw [Window.mean, if_neg hn, h.live_perm.sum_eq, h.n, List.length_take, min_comm]

end Window

/-! ## Streaks -/

/-- A counter of the samples in a row that met a condition. -/
def tally (met : Bool) (run : UInt32) : UInt32 := if met then run + 1 else 0

/-- The counter is the length of the streak, as far as it does not wrap. -/
theorem tally_streak {α : Type} (met : α → Bool) (past : List α) (v : α) :
    tally (met v) (UInt32.ofNat (past.takeWhile met).length) =
      UInt32.ofNat ((v :: past).takeWhile met).length := by
  unfold tally
  split
  · next hv =>
    rw [List.takeWhile_cons_of_pos hv, List.length_cons, UInt32.ofNat_add]
    rfl
  · next hv =>
    rw [List.takeWhile_cons_of_neg hv]
    rfl

/-- Even a counter that wraps is no more than the length of the streak. -/
theorem tally_le {α : Type} {met : α → Bool} {run : UInt32} {past : List α}
    (h : run.toNat ≤ (past.takeWhile met).length) (v : α) :
    (tally (met v) run).toNat ≤ ((v :: past).takeWhile met).length := by
  unfold tally
  split
  · next hv =>
    rw [List.takeWhile_cons_of_pos hv, List.length_cons, UInt32.toNat_add]
    have hone : UInt32.toNat 1 = 1 := rfl
    have hle := Nat.mod_le (run.toNat + UInt32.toNat 1) (2 ^ 32)
    omega
  · exact Nat.zero_le _

/-- The latest samples of a streak all met its condition. -/
theorem forall_of_le_tally {α : Type} {met : α → Bool} {past : List α} {k : ℕ}
    (h : k ≤ (past.takeWhile met).length) :
    k ≤ past.length ∧ ∀ v ∈ past.take k, met v = true := by
  have hpre := List.takeWhile_prefix met (l := past)
  refine ⟨h.trans hpre.length_le, ?_⟩
  intro v hv
  have hsub : past.take k = (past.takeWhile met).take k := by
    obtain ⟨rest, hrest⟩ := hpre
    rw [← hrest, List.take_append_of_le_length h, hrest]
  rw [hsub] at hv
  exact List.mem_takeWhile_imp (List.mem_of_mem_take hv)
