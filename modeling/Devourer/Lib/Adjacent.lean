-- Sums over the successive pairs of a list, and which parts of the list
-- have the same sum by themselves.
import Mathlib.Algebra.GroupWithZero.Nat
import Mathlib.Algebra.Order.Monoid.Unbundled.Basic
import Mathlib.Data.List.Chain
import Mathlib.Data.Nat.Notation

namespace Adjacent

variable {α : Type*} (c : α → α → ℕ)

/-- The sum of the costs of each element and the one behind it. -/
def total : List α → ℕ
  | a :: b :: l => c a b + total (b :: l)
  | _ => 0

/-- The cost of the pair where two lists meet. -/
def joint (u v : List α) : ℕ :=
  match u.getLast?, v.head? with
  | some a, some b => c a b
  | _, _ => 0

/-- Two lists meet without a cost. -/
def Meet (u v : List α) : Prop := ∀ a ∈ u.getLast?, ∀ b ∈ v.head?, c a b = 0

variable {c}

theorem joint_eq_zero {u v : List α} : joint c u v = 0 ↔ Meet c u v := by
  unfold joint Meet
  cases u.getLast? with
  | none => simp
  | some a => cases v.head? <;> simp

theorem total_append (u v : List α) : total c (u ++ v) = total c u + joint c u v + total c v := by
  induction u with
  | nil => simp [total, joint]
  | cons a u ih =>
    cases u with
    | nil => cases v <;> simp [total, joint]
    | cons b u =>
      have hjoint : joint c (a :: b :: u) v = joint c (b :: u) v := by
        simp [joint, List.getLast?_cons_cons]
      rw [List.cons_append, List.cons_append, total, total, hjoint, ← List.cons_append, ih]
      omega

/-! ## A list in parts -/

/-- The parts that have elements. -/
abbrev filled (ws : List (List α)) : List (List α) := ws.filter fun w => !w.isEmpty

theorem head?_flatten (ws : List (List α)) : ws.flatten.head? =
    (filled ws).head?.bind List.head? := by
  induction ws with
  | nil => rfl
  | cons w ws ih => cases w <;> simp [ih]

theorem meet_flatten {w : List α} {ws : List (List α)} :
    Meet c w ws.flatten ↔ ∀ v ∈ (filled ws).head?, Meet c w v := by
  unfold Meet
  rw [head?_flatten]
  cases (filled ws).head? <;> simp

/-- The parts leave out the pairs where they meet, and nothing else. -/
theorem sum_total (ws : List (List α)) :
    (ws.map (total c)).sum ≤ total c ws.flatten ∧
      ((ws.map (total c)).sum = total c ws.flatten ↔ (filled ws).IsChain (Meet c)) := by
  induction ws with
  | nil => simp [total]
  | cons w ws ih =>
    obtain ⟨hle, hiff⟩ := ih
    rw [List.map_cons, List.sum_cons, List.flatten_cons, total_append]
    cases w with
    | nil =>
      have hjoint : joint c [] ws.flatten = 0 := joint_eq_zero.mpr (by simp [Meet])
      rw [hjoint]
      simpa [total] using ⟨hle, hiff⟩
    | cons a w =>
      have hfilled : filled ((a :: w) :: ws) = (a :: w) :: filled ws := rfl
      rw [hfilled, List.isChain_cons, ← meet_flatten, ← joint_eq_zero, ← hiff]
      omega

/-- Amounts that are at most the sums of the parts make up the sum of the whole exactly where each
is the sum of its part and the parts meet without a cost. -/
theorem sum_eq_total_iff {t : List α → ℕ} {ws : List (List α)} (h : ∀ w ∈ ws, t w ≤ total c w) :
    (ws.map t).sum = total c ws.flatten ↔
      (∀ w ∈ ws, t w = total c w) ∧ (filled ws).IsChain (Meet c) := by
  obtain ⟨hle, hiff⟩ := sum_total (c := c) ws
  have hparts : (ws.map t).sum ≤ (ws.map (total c)).sum ∧
      ((ws.map t).sum = (ws.map (total c)).sum ↔ ∀ w ∈ ws, t w = total c w) := by
    clear hle hiff
    induction ws with
    | nil => simp
    | cons w ws ih =>
      obtain ⟨hle, hiff⟩ := ih fun v hv => h v (List.mem_cons_of_mem w hv)
      have hw := h w List.mem_cons_self
      rw [List.forall_mem_cons, ← hiff, List.map_cons, List.map_cons, List.sum_cons, List.sum_cons]
      omega
  rw [← hparts.2, ← hiff]
  omega

end Adjacent
