-- A scan for the best member of a list: those that are not kept are skipped,
-- and a member replaces the best so far where it beats it.
import Mathlib.Data.List.Induction

namespace Pick

variable {α : Type*} (keep : α → Bool) (beats : α → α → Bool)

def turn (best : Option α) (x : α) : Option α :=
  if !keep x then best
  else
    match best with
    | none => some x
    | some b => if beats x b then some x else some b

/-- The best of a list, the first of it where none beats another. -/
def best (l : List α) : Option α := l.foldl (turn keep beats) none

variable {keep beats} {l : List α} {x b : α}

theorem best_snoc (l : List α) (x : α) :
    best keep beats (l ++ [x]) = turn keep beats (best keep beats l) x := by
  unfold best
  rw [List.foldl_append]
  rfl

theorem turn_kept (hx : keep x = true) (so_far : Option α) :
    ∃ b, turn keep beats so_far x = some b := by
  unfold turn
  rw [hx]
  cases so_far with
  | none => exact ⟨x, rfl⟩
  | some b =>
    by_cases h : beats x b = true
    · exact ⟨x, by simp [h]⟩
    · exact ⟨b, by simp [h]⟩

theorem turn_skipped (hx : keep x = false) (so_far : Option α) :
    turn keep beats so_far x = so_far := by
  unfold turn
  rw [hx]
  rfl

theorem best_eq_none : best keep beats l = none ↔ ∀ x ∈ l, keep x = false := by
  induction l using List.reverseRecOn with
  | nil => simp [best]
  | append_singleton l x ih =>
    rw [best_snoc, List.forall_mem_append, List.forall_mem_singleton]
    cases hx : keep x with
    | false =>
      rw [turn_skipped hx, ih]
      simp
    | true =>
      obtain ⟨b, hb⟩ : ∃ b, turn keep beats (best keep beats l) x = some b := turn_kept hx _
      rw [hb]
      simp

theorem best_mem (h : best keep beats l = some b) : b ∈ l ∧ keep b = true := by
  induction l using List.reverseRecOn generalizing b with
  | nil => cases h
  | append_singleton l x ih =>
    rw [best_snoc] at h
    cases hx : keep x with
    | false =>
      rw [turn_skipped hx] at h
      obtain ⟨hmem, hkeep⟩ := ih h
      exact ⟨List.mem_append_left _ hmem, hkeep⟩
    | true =>
      unfold turn at h
      rw [hx] at h
      cases hbest : best keep beats l with
      | none =>
        rw [hbest] at h
        obtain rfl : x = b := by simpa using h
        exact ⟨by simp, hx⟩
      | some c =>
        rw [hbest] at h
        obtain ⟨hmem, hkeep⟩ := ih hbest
        by_cases hc : beats x c = true
        · obtain rfl : x = b := by simpa [hc] using h
          exact ⟨by simp, hx⟩
        · obtain rfl : c = b := by simpa [hc] using h
          exact ⟨List.mem_append_left _ hmem, hkeep⟩

/-- What the scan leaves of a kept member and the best before it is above both. -/
theorem turn_dominates {below : α → α → Prop} (hrefl : ∀ x, below x x)
    (hwin : ∀ x c, keep x = true → keep c = true → beats x c = true → below c x)
    (hlose : ∀ x c, keep x = true → keep c = true → beats x c = false → below x c)
    (hx : keep x = true) {so_far : Option α} (hkept : ∀ c, so_far = some c → keep c = true)
    (h : turn keep beats so_far x = some b) :
    below x b ∧ ∀ c, so_far = some c → below c b := by
  unfold turn at h
  rw [hx] at h
  cases so_far with
  | none =>
    obtain rfl : x = b := by simpa using h
    exact ⟨hrefl x, by simp⟩
  | some c =>
    have hc := hkept c rfl
    cases hbeats : beats x c with
    | true =>
      obtain rfl : x = b := by simpa [hbeats] using h
      refine ⟨hrefl x, ?_⟩
      rintro _ ⟨⟩
      exact hwin x c hx hc hbeats
    | false =>
      obtain rfl : c = b := by simpa [hbeats] using h
      refine ⟨hlose x c hx hc hbeats, ?_⟩
      rintro _ ⟨⟩
      exact hrefl c

/-- The best is above every member that is kept, in each order that the replacements respect. -/
theorem best_dominates {below : α → α → Prop} (hrefl : ∀ x, below x x)
    (htrans : ∀ x y z, below x y → below y z → below x z)
    (hwin : ∀ x c, keep x = true → keep c = true → beats x c = true → below c x)
    (hlose : ∀ x c, keep x = true → keep c = true → beats x c = false → below x c)
    (h : best keep beats l = some b) (hx : x ∈ l) (hkeep : keep x = true) : below x b := by
  induction l using List.reverseRecOn generalizing b x with
  | nil => cases hx
  | append_singleton l y ih =>
    rw [best_snoc] at h
    rw [List.mem_append, List.mem_singleton] at hx
    cases hy : keep y with
    | false =>
      rw [turn_skipped hy] at h
      rcases hx with hx | rfl
      · exact ih h hx hkeep
      · rw [hy] at hkeep
        cases hkeep
    | true =>
      obtain ⟨hlast, hbefore⟩ := turn_dominates hrefl hwin hlose hy
        (fun c hc => (best_mem hc).2) h
      rcases hx with hx | rfl
      · cases hbest : best keep beats l with
        | none =>
          rw [best_eq_none.mp hbest x hx] at hkeep
          cases hkeep
        | some c => exact htrans x c b (ih hbest hx hkeep) (hbefore c hbest)
      · exact hlast

end Pick
