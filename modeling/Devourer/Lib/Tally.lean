-- Sums over a finite family of which one member changes.
import Mathlib.Algebra.BigOperators.Fin
import Mathlib.Algebra.Order.BigOperators.Group.Finset

namespace Tally

variable {ι α M : Type*} [DecidableEq ι] [AddCommMonoid M]

/-- The value of the member goes, and that of what replaces it comes. -/
theorem sum_update (S : Finset ι) (f : ι → α) {i : ι} (hi : i ∈ S) (v : α) (g : α → M) :
    (∑ j ∈ S, g (Function.update f i v j)) + g (f i) = (∑ j ∈ S, g (f j)) + g v := by
  have hrest : ∑ j ∈ S.erase i, g (Function.update f i v j) = ∑ j ∈ S.erase i, g (f j) := by
    apply Finset.sum_congr rfl
    intro j hj
    rw [Function.update_of_ne (Finset.ne_of_mem_erase hj)]
  rw [← Finset.add_sum_erase S _ hi, ← Finset.add_sum_erase S (fun j => g (f j)) hi, hrest,
    Function.update_self]
  ac_rfl

end Tally
