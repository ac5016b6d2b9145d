-- Draws by rejection from a stream of words, the shuffle that they drive, and
-- what is even about them.
import Mathlib.Data.Int.CardIntervalMod
import Mathlib.Data.List.Perm.Basic

namespace Shuffle

variable {σ ω α : Type*}

/-! ## Draws -/

/-- Take words until one is accepted, `fuel` words at most. -/
def draw (next : σ → ω × σ) (accept : ω → Bool) : ℕ → σ → Option (ω × σ)
  | 0, _ => none
  | fuel + 1, s =>
    if accept (next s).1 then some (next s) else draw next accept fuel (next s).2

variable {next : σ → ω × σ} {accept : ω → Bool}

/-- A draw fails when all the words that it may take are rejected. -/
theorem draw_eq_none_iff (fuel : ℕ) (s : σ) :
    draw next accept fuel s = none ↔
      ∀ i < fuel, accept (next ((fun s => (next s).2)^[i] s)).1 = false := by
  induction fuel generalizing s with
  | zero => simp [draw]
  | succ fuel ih =>
    unfold draw
    split
    · rename_i hw
      refine iff_of_false nofun ?_
      intro h
      have hfirst := h 0 (Nat.succ_pos _)
      rw [Function.iterate_zero_apply, hw] at hfirst
      cases hfirst
    · rename_i hw
      rw [ih]
      constructor
      · intro h i hi
        cases i with
        | zero => simpa using hw
        | succ i =>
          rw [Function.iterate_succ_apply]
          exact h i (by omega)
      · intro h i hi
        have hnext := h (i + 1) (by omega)
        rw [Function.iterate_succ_apply] at hnext
        exact hnext

/-! ## The shuffle -/

theorem swapIfInBounds_perm (p : Array α) (i j : ℕ) : (p.swapIfInBounds i j).Perm p := by
  rw [Array.swapIfInBounds_def]
  split
  · split
    · exact Array.swap_perm _ _
    · exact Array.Perm.refl _
  · exact Array.Perm.refl _

/-- The shuffle from position `i` down: each place trades with a place at or below it, that `pick`
chooses. -/
def shuffle (pick : ℕ → σ → Option (ℕ × σ)) : ℕ → Array α → σ → Option (Array α)
  | i + 2, p, s =>
    match pick (i + 2) s with
    | none => none
    | some (j, s) => shuffle pick (i + 1) (p.swapIfInBounds (i + 1) j) s
  | _, p, _ => some p

/-- Whatever is picked, nothing is lost and nothing is doubled. -/
theorem shuffle_perm {pick : ℕ → σ → Option (ℕ × σ)} {n : ℕ} {p q : Array α} {s : σ}
    (h : shuffle pick n p s = some q) : q.Perm p := by
  induction n generalizing p s with
  | zero =>
    obtain rfl : p = q := Option.some.inj h
    exact Array.Perm.refl _
  | succ n ih =>
    cases n with
    | zero =>
      obtain rfl : p = q := Option.some.inj h
      exact Array.Perm.refl _
    | succ i =>
      unfold shuffle at h
      split at h
      · cases h
      · rename_i j s' hpick
        exact (ih h).trans (swapIfInBounds_perm p (i + 1) j)

/-! ## Residues -/

/-- Below a multiple of `bound` each residue is met equally often. -/
theorem residues_even {limit bound : ℕ} (hbound : 0 < bound) (hdvd : bound ∣ limit) {j : ℕ}
    (hj : j < bound) : limit.count (· % bound = j) = limit / bound := by
  have hmod : (fun r => r % bound = j) = (· ≡ j [MOD bound]) := by
    funext r
    rw [Nat.ModEq, Nat.mod_eq_of_lt hj]
  have hcount := Nat.count_modEq_card limit hbound j
  rw [Nat.mod_eq_zero_of_dvd hdvd, if_neg (Nat.not_lt_zero _)] at hcount
  simpa [hmod] using hcount

end Shuffle
