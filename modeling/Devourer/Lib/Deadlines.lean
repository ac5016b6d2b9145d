-- A row of members with deadlines. The one with the earliest deadline is
-- served next, the first of those that share it, and gets another deadline.
import Mathlib.Data.Finset.Card
import Mathlib.Data.Finset.Range
import Mathlib.Data.Nat.Notation
import Mathlib.Order.Basic
import Devourer.Lib.Runs

namespace Deadlines

variable {α : Type*} [LinearOrder α] {n : ℕ} {d : ℕ → α} {i j : ℕ}

/-- The member `j` comes before `i`. -/
def Before (d : ℕ → α) (j i : ℕ) : Prop := d j < d i ∨ d j = d i ∧ j < i

instance : Decidable (Before d j i) := inferInstanceAs (Decidable (_ ∨ _))

/-- Of the first `n` members, `i` is served next. -/
def Next (n : ℕ) (d : ℕ → α) (i : ℕ) : Prop := i < n ∧ ∀ j < n, ¬ Before d j i

/-- How many of the first `n` members come before `i`. -/
def ahead (n : ℕ) (d : ℕ → α) (i : ℕ) : ℕ := ((Finset.range n).filter (Before d · i)).card

theorem not_before_self (d : ℕ → α) (i : ℕ) : ¬ Before d i i := by
  rintro (h | h)
  · exact lt_irrefl _ h
  · exact lt_irrefl _ h.2

theorem before_of_next (h : Next n d j) (hi : i < n) (hij : i ≠ j) : Before d j i := by
  have hnot := h.2 i hi
  rcases lt_trichotomy (d j) (d i) with hlt | heq | hgt
  · exact .inl hlt
  · rcases Nat.lt_or_gt_of_ne hij with hless | hmore
    · exact absurd (.inr ⟨heq.symm, hless⟩) hnot
    · exact .inr ⟨heq, hmore⟩
  · exact absurd (.inl hgt) hnot

theorem ahead_lt (hi : i < n) : ahead n d i < n := by
  have hsub : (Finset.range n).filter (Before d · i) ⊂ Finset.range n := by
    apply Finset.filter_ssubset.mpr
    exact ⟨i, Finset.mem_range.mpr hi, not_before_self d i⟩
  have hcard := Finset.card_lt_card hsub
  rwa [Finset.card_range] at hcard

/-- The loop that looks for an earlier deadline ends on the member that is next. -/
theorem next_of_loop (n : ℕ) (d : ℕ → α) :
    Next (n + 1) d
      ((List.range' 1 n).foldl (fun best i => if d i < d best then i else best) 0) := by
  induction n with
  | zero =>
    refine ⟨Nat.zero_lt_one, ?_⟩
    intro j hj
    obtain rfl : j = 0 := by omega
    exact not_before_self d 0
  | succ n ih =>
    rw [List.range'_1_concat, List.foldl_append, List.foldl_cons, List.foldl_nil, Nat.add_comm 1 n]
    obtain ⟨hlt, hnext⟩ := ih
    generalize (List.range' 1 n).foldl (fun best i => if d i < d best then i else best) 0 = best
      at hlt hnext ⊢
    split
    · rename_i hearlier
      refine ⟨Nat.lt_succ_self _, ?_⟩
      rintro j hj (h | ⟨heq, h⟩)
      · rcases Nat.lt_succ_iff_lt_or_eq.mp hj with hj | rfl
        · exact hnext j hj (.inl (h.trans hearlier))
        · exact lt_irrefl _ h
      · exact hnext j h (.inl (heq.trans_lt hearlier))
    · rename_i hlater
      refine ⟨Nat.lt_succ_of_lt hlt, ?_⟩
      intro j hj
      rcases Nat.lt_succ_iff_lt_or_eq.mp hj with hj | rfl
      · exact hnext j hj
      · rintro (h | ⟨-, h⟩)
        · exact hlater h
        · omega

/-- A member gets another deadline. -/
def serve (d : ℕ → α) (s : ℕ × α) : ℕ → α := Function.update d s.1 s.2

/-- One member less is ahead of `i` once another is served and gets a later deadline than it. -/
theorem ahead_serve {v : α} (hj : Next n d j) (hi : i < n) (hij : i ≠ j) (hv : d i < v) :
    ahead n (serve d (j, v)) i + 1 = ahead n d i := by
  have hkeep : serve d (j, v) i = d i := Function.update_of_ne hij _ _
  have hmem : j ∈ (Finset.range n).filter (Before d · i) :=
    Finset.mem_filter.mpr ⟨Finset.mem_range.mpr hj.1, before_of_next hj hi hij⟩
  have hrest : (Finset.range n).filter (Before (serve d (j, v)) · i) =
      ((Finset.range n).filter (Before d · i)).erase j := by
    ext k
    rw [Finset.mem_erase, Finset.mem_filter, Finset.mem_filter]
    by_cases hk : k = j
    · subst hk
      have hself : serve d (k, v) k = v := Function.update_self _ _ _
      have hafter : ¬ Before (serve d (k, v)) k i := by
        unfold Before
        rw [hself, hkeep]
        rintro (h | ⟨h, -⟩)
        · exact lt_asymm h hv
        · exact hv.ne' h
      simp [hafter]
    · have hother : serve d (j, v) k = d k := Function.update_of_ne hk _ _
      unfold Before
      rw [hother, hkeep]
      simp [hk]
  unfold ahead
  rw [hrest, Finset.card_erase_add_one hmem]

/-- As long as `i` waits, those that are served before it are no more than were ahead of it. -/
theorem length_le_ahead {t : α} (hi : i < n) (hdue : d i ≤ t) {served : List (ℕ × α)}
    (h : Runs.Along serve (fun d s => Next n d s.1 ∧ t < s.2) d served)
    (hwait : i ∉ served.map Prod.fst) : served.length ≤ ahead n d i := by
  induction served generalizing d with
  | nil => exact Nat.zero_le _
  | cons s served ih =>
    rw [List.map_cons, List.mem_cons, not_or] at hwait
    obtain ⟨⟨hnext, hlate⟩, hrest⟩ := h
    have hkeep : serve d s i = d i := Function.update_of_ne hwait.1 _ _
    have hless := ahead_serve hnext hi hwait.1 (hdue.trans_lt hlate)
    have hlen := ih (hkeep ▸ hdue) hrest hwait.2
    rw [List.length_cons]
    exact (Nat.succ_le_succ hlen).trans_eq hless

/-- Whoever's deadline has passed is served within as many turns as there are members, when each
that is served gets a deadline yet to come. -/
theorem served_in_turn {t : α} (hi : i < n) (hdue : d i ≤ t) {served : List (ℕ × α)}
    (h : Runs.Along serve (fun d s => Next n d s.1 ∧ t < s.2) d served) (hlen : n ≤ served.length) :
    i ∈ (served.take n).map Prod.fst := by
  by_contra hwait
  have hmost := length_le_ahead hi hdue (h.take serve n) hwait
  have hless : ahead n d i < n := ahead_lt hi
  rw [List.length_take, Nat.min_eq_left hlen] at hmost
  exact absurd hmost hless.not_ge

end Deadlines
