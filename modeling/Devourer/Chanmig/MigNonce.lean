-- The nonces of the migration messages. The mixer is one to one in the epoch
-- and in the generation, but for the value that stands in for 0.
import Devourer.Chanmig.MigEffects
import Devourer.Lib.Mixers

open Mixers

namespace devourer.chanmig

/-- The shifts of the mixer and the product between them. -/
def scrambled (h : UInt32) : UInt32 :=
  let h := h ^^^ (h >>> 15)
  let h := h * 2246822519
  h ^^^ (h >>> 13)

/-- The mixed value of a nonce, before 1 stands in for 0. -/
def mig_mixed (epoch gen salt : UInt32) : UInt32 :=
  scrambled (epoch * 2654435761 + gen * 40503 + salt * 2246822519)

theorem mig_mix_nonce_eq (epoch gen salt : UInt32) :
    mig_mix_nonce epoch gen salt = instead 0 1 (mig_mixed epoch gen salt) := by
  show (if mig_mixed epoch gen salt ≠ 0 then mig_mixed epoch gen salt else 1) = _
  unfold instead
  split <;> simp_all

/-! ## What is mixed one to one -/

theorem scrambled_bijective : Function.Bijective scrambled := by
  have hfirst : Function.Bijective fun h : UInt32 => h ^^^ (h >>> 15) :=
    word_xorshift_bijective (by decide)
  have hproduct : Function.Bijective fun h : UInt32 => h * 2246822519 := by
    simpa using word_affine_bijective (u := 2246822519) (v := 3066638151) (by decide) 0 0
  have hlast : Function.Bijective fun h : UInt32 => h ^^^ (h >>> 13) :=
    word_xorshift_bijective (by decide)
  exact hlast.comp (hproduct.comp hfirst)

theorem mixed_gen_bijective (epoch salt : UInt32) :
    Function.Bijective fun gen => mig_mixed epoch gen salt :=
  scrambled_bijective.comp (word_affine_bijective (v := 1650947975) (by decide) _ _)

theorem mixed_epoch_bijective (gen salt : UInt32) :
    Function.Bijective fun epoch => mig_mixed epoch gen salt := by
  have hsum : Function.Bijective fun epoch : UInt32 =>
      0 + epoch * 2654435761 + (gen * 40503 + salt * 2246822519) :=
    word_affine_bijective (v := 244002641) (by decide) _ _
  simp only [UInt32.zero_add, ← UInt32.add_assoc] at hsum
  exact scrambled_bijective.comp hsum

/-! ## The nonces -/

theorem gens_merge_only (epoch salt : UInt32) :
    merges_only (fun gen => mig_mixed epoch gen salt)
      (fun gen => mig_mix_nonce epoch gen salt) 0 1 := by
  simp only [mig_mix_nonce_eq]
  exact instead_merges_only (mixed_gen_bijective epoch salt) (by decide)

theorem epochs_merge_only (gen salt : UInt32) :
    merges_only (fun epoch => mig_mixed epoch gen salt)
      (fun epoch => mig_mix_nonce epoch gen salt) 0 1 := by
  simp only [mig_mix_nonce_eq]
  exact instead_merges_only (mixed_epoch_bijective gen salt) (by decide)

/-- Two commits of a drone that bear one nonce are of one generation, unless
the nonce is 1. -/
theorem MigResponder.Sealed.same_gen {r r' : MigResponder} (h : r.Sealed) (h' : r'.Sealed)
    (hepoch : r.epoch_ = r'.epoch_) (hnonce : r.drone_nonce_ = r'.drone_nonce_) :
    r.gen_ = r'.gen_ ∨ r.drone_nonce_ = 1 := by
  rw [h.mixed, h'.mixed, ← hepoch] at hnonce
  rw [h.mixed]
  exact (gens_merge_only r.epoch_ 0xD2).eq_or hnonce

/-- No nonce is 0. Of two generations of an epoch the nonces differ, but for
the one whose mixed value is 0 and the one whose mixed value is 1; both of
these have the nonce 1. So it is with two epochs of a generation. -/
theorem the_nonces_separate (salt : UInt32) :
    (∀ epoch gen, mig_mix_nonce epoch gen salt ≠ 0) ∧
    (∀ epoch, merges_only (fun gen => mig_mixed epoch gen salt)
      (fun gen => mig_mix_nonce epoch gen salt) 0 1) ∧
    (∀ gen, merges_only (fun epoch => mig_mixed epoch gen salt)
      (fun epoch => mig_mix_nonce epoch gen salt) 0 1) :=
  ⟨fun epoch gen => mig_mix_nonce_ne_zero epoch gen salt,
    fun epoch => gens_merge_only epoch salt, fun gen => epochs_merge_only gen salt⟩

end devourer.chanmig
