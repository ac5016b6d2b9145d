-- The values from a number up to a bound in equal steps, and lists that two
-- selections pick from one list.
import Mathlib.Data.Int.Notation
import Mathlib.Data.List.Basic
import Mathlib.Tactic.Ring

namespace Progression

/-- `a`, `a + step`, ... up to `b`. -/
def values (a b step : ℤ) : List ℤ :=
  (List.range ((b - a) / step + 1).toNat).map fun k : ℕ => a + (k : ℤ) * step

variable {a b step v : ℤ}

theorem values_nil (hstep : 1 ≤ step) (h : b < a) : values a b step = [] := by
  have hneg : (b - a) / step < 0 := Int.ediv_neg_of_neg_of_pos (by omega) (by omega)
  rw [values, Int.toNat_of_nonpos (by omega)]
  rfl

theorem values_cons (hstep : 1 ≤ step) (h : a ≤ b) :
    values a b step = a :: values (a + step) b step := by
  have hback : b - a = b - (a + step) + 1 * step := by ring
  have hdiv : (b - a) / step = (b - (a + step)) / step + 1 := by
    rw [hback, Int.add_mul_ediv_right _ _ (by omega)]
  have hpos : 0 ≤ (b - a) / step := Int.ediv_nonneg (by omega) (by omega)
  have hcount : ((b - a) / step + 1).toNat = ((b - (a + step)) / step + 1).toNat + 1 := by omega
  rw [values, values, hcount, List.range_succ_eq_map, List.map_cons, List.map_map]
  congr 1
  · simp
  · apply List.map_congr_left
    intro k _
    simp only [Function.comp_apply, Nat.succ_eq_add_one]
    push_cast
    ring

/-- The first value is the least. -/
theorem le_of_mem_values (hstep : 1 ≤ step) (h : v ∈ values a b step) : a ≤ v := by
  obtain ⟨k, -, rfl⟩ := List.mem_map.mp h
  have hmul : 0 ≤ (k : ℤ) * step := Int.mul_nonneg (by omega) (by omega)
  omega

theorem length_filterMap_le {α β : Type} {f g : α → Option β} {l : List α}
    (hfg : ∀ x ∈ l, g x ≠ none → f x = g x) : (l.filterMap g).length ≤ (l.filterMap f).length := by
  induction l with
  | nil => simp
  | cons x l ih =>
    have hrest := ih fun y hy => hfg y (List.mem_cons_of_mem _ hy)
    cases hg : g x with
    | none =>
      rw [List.filterMap_cons_none hg]
      cases hf : f x with
      | none => rwa [List.filterMap_cons_none hf]
      | some y => simpa [List.filterMap_cons_some hf] using Nat.le_succ_of_le hrest
    | some y =>
      have hf : f x = some y := (hfg x List.mem_cons_self (by simp [hg])).trans hg
      simpa [List.filterMap_cons_some hf, List.filterMap_cons_some hg] using hrest

/-- Where one selection takes all that another takes, as the same, and both give the same list,
neither takes more. -/
theorem eq_of_filterMap_eq {α β : Type} {f g : α → Option β} {l : List α}
    (hfg : ∀ x ∈ l, g x ≠ none → f x = g x) (h : l.filterMap f = l.filterMap g) :
    ∀ x ∈ l, f x = g x := by
  induction l with
  | nil => simp
  | cons x l ih =>
    have htail : ∀ y ∈ l, g y ≠ none → f y = g y := fun y hy => hfg y (List.mem_cons_of_mem _ hy)
    have hhead : f x = g x := by
      cases hg : g x with
      | some y => exact (hfg x List.mem_cons_self (by simp [hg])).trans hg
      | none =>
        cases hf : f x with
        | none => rfl
        | some y =>
          rw [List.filterMap_cons_some hf, List.filterMap_cons_none hg] at h
          have hlen := length_filterMap_le htail
          rw [← h, List.length_cons] at hlen
          omega
    have hrest : l.filterMap f = l.filterMap g := by
      cases hg : g x with
      | none =>
        rwa [List.filterMap_cons_none (hhead.trans hg), List.filterMap_cons_none hg] at h
      | some y =>
        rw [List.filterMap_cons_some (hhead.trans hg), List.filterMap_cons_some hg] at h
        exact List.tail_eq_of_cons_eq h
    intro y hy
    rcases List.mem_cons.mp hy with rfl | hy
    · exact hhead
    · exact ih htail hrest y hy

end Progression
