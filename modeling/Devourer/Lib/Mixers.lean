-- Words mixed one to one: a word xored with its own shift, a word times a
-- unit, and a one-to-one function one of whose values gives way to another.
import Mathlib.Algebra.Group.Units.Equiv
import Mathlib.Data.BitVec
import Mathlib.Data.Fintype.EquivFin
import Mathlib.Data.UInt

namespace Mixers

/-! ## A word xored with its own shift -/

section xorshift

variable {w n : ℕ}

theorem shifted_again {z : BitVec w} (h : z >>> n = z) (k : ℕ) : z >>> (n * k) = z := by
  induction k with
  | zero => simp
  | succ k ih => rw [Nat.mul_succ, BitVec.shiftRight_add, ih, h]

/-- A word that a shift leaves as it is has lost every bit. -/
theorem zero_of_shifted {z : BitVec w} (hn : 0 < n) (h : z >>> n = z) : z = 0#w := by
  rw [← shifted_again h w]
  exact BitVec.ushiftRight_eq_zero (Nat.le_mul_of_pos_left w hn)

theorem xorshift_injective (hn : 0 < n) :
    Function.Injective fun x : BitVec w => x ^^^ (x >>> n) := by
  intro x y h
  have hsame : (x ^^^ y) ^^^ ((x ^^^ y) >>> n) = 0#w := by
    calc (x ^^^ y) ^^^ ((x ^^^ y) >>> n)
        = (x ^^^ x >>> n) ^^^ (y ^^^ y >>> n) := by
          rw [BitVec.ushiftRight_xor_distrib]
          ac_rfl
      _ = 0#w := BitVec.xor_eq_zero_iff.mpr h
  have hshift : (x ^^^ y) >>> n = x ^^^ y := (BitVec.xor_eq_zero_iff.mp hsame).symm
  exact BitVec.xor_eq_zero_iff.mp (zero_of_shifted hn hshift)

end xorshift

/-! ## 32-bit words -/

theorem words_finite : Finite UInt32 :=
  Finite.of_injective (fun x => BitVec.equivFin x.toBitVec)
    (BitVec.equivFin.injective.comp fun _ _ => UInt32.eq_of_toBitVec_eq)

theorem word_xorshift_bijective {n : UInt32} (hn : 0 < n.toNat % 32) :
    Function.Bijective fun x : UInt32 => x ^^^ (x >>> n) := by
  have hfinite := words_finite
  apply Finite.injective_iff_bijective.mp
  intro x y h
  have hbits := congrArg UInt32.toBitVec h
  simp only [UInt32.toBitVec_xor, UInt32.toBitVec_shiftRight, BitVec.ushiftRight_eq'] at hbits
  apply UInt32.eq_of_toBitVec_eq
  apply xorshift_injective _ hbits
  simpa using hn

/-- A sum in which one term is a multiple of an odd word, given with its inverse. -/
theorem word_affine_bijective {u v : UInt32} (huv : u * v = 1) (c d : UInt32) :
    Function.Bijective fun x : UInt32 => c + x * u + d := by
  open UInt32.CommRing in
  have hu : IsUnit u := IsUnit.of_mul_eq_one v huv
  have hmul : Function.Bijective fun x => x * u := IsUnit.isUnit_iff_mulRight_bijective.mp hu
  exact (AddGroup.addRight_bijective d).comp ((AddGroup.addLeft_bijective c).comp hmul)

/-! ## One value in the place of another -/

section instead

variable {α β : Type*}

/-- `g` keeps all arguments apart but two, the one that `f` takes to `z` and
the one that it takes to `o`; it takes both of these to `o`. -/
def merges_only (f g : α → β) (z o : β) : Prop :=
  ∃ a b, (∀ x, f x = z ↔ x = a) ∧ (∀ x, f x = o ↔ x = b) ∧ a ≠ b ∧ g a = o ∧ g b = o ∧
    ∀ x y, x ≠ y → (g x = g y ↔ (x = a ∧ y = b) ∨ (x = b ∧ y = a))

theorem merges_only.eq_or {f g : α → β} {z o : β} (h : merges_only f g z o) {x y : α}
    (hxy : g x = g y) : x = y ∨ g x = o := by
  obtain ⟨a, b, _, _, _, ha, hb, hmerged⟩ := h
  by_cases hne : x = y
  · exact .inl hne
  · obtain ⟨rfl, _⟩ | ⟨rfl, _⟩ := (hmerged x y hne).mp hxy
    · exact .inr ha
    · exact .inr hb

variable [DecidableEq β]

/-- A value, or `o` in the place of `z`. -/
def instead (z o v : β) : β := if v = z then o else v

theorem instead_eq_iff {z o : β} (hzo : z ≠ o) (v v' : β) :
    instead z o v = instead z o v' ↔ v = v' ∨ (v = z ∧ v' = o) ∨ (v = o ∧ v' = z) := by
  unfold instead
  by_cases hv : v = z <;> by_cases hv' : v' = z
  · simp [hv, hv']
  · simp [hv, hv', hzo, Ne.symm hv', eq_comm]
  · simp [hv, hv', hzo]
  · simp [hv, hv']

/-- A one-to-one function that takes every value merges two arguments once one
of its values gives way to another. -/
theorem instead_merges_only {f : α → β} {z o : β} (hf : Function.Bijective f) (hzo : z ≠ o) :
    merges_only f (fun x => instead z o (f x)) z o := by
  obtain ⟨a, ha⟩ := hf.surjective z
  obtain ⟨b, hb⟩ := hf.surjective o
  have hz : ∀ x, f x = z ↔ x = a := fun x => by rw [← ha, hf.injective.eq_iff]
  have ho : ∀ x, f x = o ↔ x = b := fun x => by rw [← hb, hf.injective.eq_iff]
  refine ⟨a, b, hz, ho, ?_, by simp [instead, ha], by simp [instead, hb], fun x y hxy => ?_⟩
  · rintro rfl
    exact hzo (ha.symm.trans hb)
  · rw [instead_eq_iff hzo, hz, ho, hz, ho]
    simp [hf.injective.eq_iff, hxy]

end instead

end Mixers
