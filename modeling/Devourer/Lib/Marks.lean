-- Bytes of an array that values are or-ed into, and writes of which one goes
-- to each address.
import Mathlib.Data.List.Nodup
import Mathlib.Data.List.Range
import Mathlib.Data.Nat.Bitwise

namespace Marks

/-! ## Bytes -/

def bit (b : UInt8) (j : ℕ) : Bool := b.toNat.testBit j

/-- The byte at a place, with a value or-ed into it. -/
def mark (cells : List UInt8) (i : ℕ) (v : UInt8) : List UInt8 := cells.set i (cells.getD i 0 ||| v)

@[simp] theorem length_mark (cells : List UInt8) (i : ℕ) (v : UInt8) :
    (mark cells i v).length = cells.length := by
  simp [mark]

theorem bit_mark {cells : List UInt8} {i : ℕ} (h : i < cells.length) (v : UInt8) (a j : ℕ) :
    bit ((mark cells i v).getD a 0) j ↔ bit (cells.getD a 0) j ∨ i = a ∧ bit v j := by
  unfold mark bit
  rw [List.getD_eq_getElem?_getD, List.getElem?_set]
  by_cases hia : i = a
  · subst hia
    simp [h]
  · simp [hia]

variable {α : Type*} {f : α → ℕ} {v : α → UInt8}

/-- A bit is set that was, or that one of the values has at its place. -/
theorem bit_marks {ks : List α} {cells : List UInt8} (h : ∀ k ∈ ks, f k < cells.length) (a j : ℕ) :
    bit ((ks.foldl (fun cells k => mark cells (f k) (v k)) cells).getD a 0) j ↔
      bit (cells.getD a 0) j ∨ ∃ k ∈ ks, f k = a ∧ bit (v k) j := by
  induction ks generalizing cells with
  | nil => simp
  | cons k ks ih =>
    have hk := h k List.mem_cons_self
    rw [List.foldl_cons, ih fun k' hk' => by simpa using h k' (List.mem_cons_of_mem k hk'),
      bit_mark hk, List.exists_mem_cons_iff, or_assoc]

/-! ## Writes -/

variable {κ β : Type*} [DecidableEq κ]

/-- What is written to an address, if one write goes there. -/
def only_write (ws : List (κ × β)) (a : κ) : Option β :=
  match ws.filter (·.1 = a) with
  | [w] => some w.2
  | _ => none

theorem only_write_range (addr : ℕ → κ) (val : ℕ → β) {n i : ℕ} (h : i < n)
    (hinj : ∀ j < n, addr j = addr i → j = i) :
    only_write ((List.range n).map fun j => (addr j, val j)) (addr i) = some (val i) := by
  have hfilter : ((List.range n).map fun j => (addr j, val j)).filter (·.1 = addr i) =
      [(addr i, val i)] := by
    have hone : (List.range n).filter (fun j => decide (addr j = addr i)) = [i] := by
      have hsame : (List.range n).filter (fun j => decide (addr j = addr i)) =
          (List.range n).filter (· == i) := by
        apply List.filter_congr
        intro j hj
        rw [List.mem_range] at hj
        rw [Bool.eq_iff_iff, decide_eq_true_eq, beq_iff_eq]
        exact ⟨hinj j hj, fun hji => by rw [hji]⟩
      rw [hsame, List.filter_beq, List.count_eq_one_of_mem List.nodup_range (List.mem_range.mpr h)]
      rfl
    rw [List.filter_map]
    exact congrArg (List.map _) hone
  rw [only_write, hfilter]

end Marks
