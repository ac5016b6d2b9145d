-- The significand of a double: rounding to 53 bits, to the nearest and to
-- even on a tie. The range of the exponent is left out.
import Mathlib.Data.Int.Log
import Mathlib.Data.Rat.Floor
import Mathlib.Tactic.Ring
import Mathlib.Tactic.Positivity
import Mathlib.Tactic.NormNum

namespace Doubles

/-- The nearest integer, the even one of two. -/
def nearest (q : ℚ) : ℤ :=
  let f := ⌊q⌋
  if q - f < 1 / 2 then f
  else if 1 / 2 < q - f then f + 1
  else if f % 2 = 0 then f
  else f + 1

/-- The place of the last of 53 bits. -/
def ulp (q : ℚ) : ℚ := 2 ^ (Int.log 2 |q| - 52)

def round (q : ℚ) : ℚ := if q = 0 then 0 else nearest (q / ulp q) * ulp q

/-- The cast of a double to an integer: towards zero. -/
def truncate (q : ℚ) : ℤ := q.num.tdiv q.den

theorem nearest_intCast (z : ℤ) : nearest z = z := by
  unfold nearest
  simp

@[simp] theorem truncate_intCast (z : ℤ) : truncate z = z := by
  unfold truncate
  simp

/-- What is a whole number of last places stands as it is. -/
theorem round_of_multiple {q : ℚ} {z : ℤ} (h : q = z * ulp q) : round q = q := by
  unfold round
  split
  · next h0 => exact h0.symm
  · have hpos : ulp q ≠ 0 := zpow_ne_zero _ two_ne_zero
    have hdiv : q / ulp q = z := by
      rw [div_eq_iff hpos]
      exact h
    rw [hdiv, nearest_intCast]
    exact h.symm

/-- Every integer up to 2 ^ 53 is a double. -/
theorem round_intCast {z : ℤ} (h : |z| ≤ 2 ^ 53) : round z = z := by
  by_cases h0 : z = 0
  · subst h0
    simp [round]
  · have habs : (0 : ℚ) < |(z : ℚ)| := by
      rw [abs_pos]
      exact_mod_cast h0
    have hone : (1 : ℚ) ≤ |(z : ℚ)| := by
      have : 1 ≤ |z| := Int.one_le_abs h0
      exact_mod_cast this
    have hle : (2 : ℚ) ^ Int.log 2 |(z : ℚ)| ≤ |(z : ℚ)| := by
      exact_mod_cast Int.zpow_log_le_self (b := 2) (by decide) habs
    have hlow : 0 ≤ Int.log 2 |(z : ℚ)| := by
      rw [← Int.zpow_le_iff_le_log (by decide) habs]
      simpa using hone
    have hmax : |(z : ℚ)| ≤ 2 ^ 53 := by exact_mod_cast h
    obtain ⟨e, he⟩ := Int.eq_ofNat_of_zero_le hlow
    have hulp : ulp z = 2 ^ ((e : ℤ) - 52) := by
      unfold ulp
      rw [he]
    rw [he] at hle
    have hpow : (2 : ℚ) ^ e ≤ 2 ^ 53 := by
      have h1 : (2 : ℚ) ^ (e : ℤ) = 2 ^ e := zpow_natCast 2 e
      rw [h1] at hle
      exact le_trans hle hmax
    have he53 : e ≤ 53 := (pow_le_pow_iff_right₀ (by norm_num)).mp hpow
    by_cases hsmall : e ≤ 52
    · -- the last place is a fraction of one
      apply round_of_multiple (z := z * 2 ^ (52 - e))
      rw [hulp]
      have hexp : (e : ℤ) - 52 = -((52 - e : ℕ) : ℤ) := by omega
      rw [hexp, zpow_neg, zpow_natCast]
      push_cast
      rw [mul_assoc, mul_inv_cancel₀ (by positivity), mul_one]
    · -- only the power itself is left
      have he' : e = 53 := by omega
      subst he'
      have heq : |(z : ℚ)| = 2 ^ 53 := by
        apply le_antisymm hmax
        have h1 : (2 : ℚ) ^ ((53 : ℕ) : ℤ) = 2 ^ 53 := zpow_natCast 2 53
        rwa [h1] at hle
      have hulp2 : ulp z = 2 := by
        rw [hulp]
        norm_num
      rcases abs_eq (by positivity : (0 : ℚ) ≤ 2 ^ 53) |>.mp heq with hz | hz
      · apply round_of_multiple (z := 2 ^ 52)
        rw [hulp2, hz]
        norm_num
      · apply round_of_multiple (z := -2 ^ 52)
        rw [hulp2, hz]
        norm_num

end Doubles
