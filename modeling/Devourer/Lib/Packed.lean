-- Fields packed into one word, each under a mask and at a shift, and blocks
-- of one length laid in a row.
import Devourer.Lib.Memory

namespace Packed

/-- Where a field stands in a word. -/
structure Field (w : ℕ) where
  sh : ℕ
  msk : BitVec w
  deriving DecidableEq

variable {w : ℕ} {f g : Field w} {v x y : BitVec w}

def Field.put (f : Field w) (v : BitVec w) : BitVec w := (v &&& f.msk) <<< f.sh

def Field.get (f : Field w) (x : BitVec w) : BitVec w := (x >>> f.sh) &&& f.msk

/-- No bit of the mask is shifted out. -/
def Field.Fits (f : Field w) : Prop := (f.msk <<< f.sh) >>> f.sh = f.msk

/-- The two fields share no bit. -/
def Field.Apart (f g : Field w) : Prop := (f.msk <<< f.sh) &&& (g.msk <<< g.sh) = 0#w

instance (f : Field w) : Decidable f.Fits := inferInstanceAs (Decidable (_ = _))

instance : DecidableRel (Field.Apart (w := w)) := fun _ _ => inferInstanceAs (Decidable (_ = _))

/-- The fields of a word, ored into it one after another. -/
def pack (l : List (Field w × BitVec w)) : BitVec w := l.foldl (fun x p => x ||| p.1.put p.2) 0#w

/-! ## Reading a field -/

@[simp] theorem get_zero (f : Field w) : f.get 0#w = 0#w := by simp [Field.get]

theorem get_or (f : Field w) (x y : BitVec w) : f.get (x ||| y) = f.get x ||| f.get y := by
  apply BitVec.eq_of_getLsbD_eq
  intro j hj
  simp [Field.get, Bool.and_or_distrib_right]

theorem get_put (h : f.Fits) (v : BitVec w) : f.get (f.put v) = v &&& f.msk := by
  apply BitVec.eq_of_getLsbD_eq
  intro j hj
  have hbit := congrArg (BitVec.getLsbD · j) h
  simp only [BitVec.getLsbD_ushiftRight, BitVec.getLsbD_shiftLeft] at hbit
  simp only [Field.get, Field.put, BitVec.getLsbD_and, BitVec.getLsbD_ushiftRight,
    BitVec.getLsbD_shiftLeft, Nat.add_sub_cancel_left]
  by_cases hm : f.msk.getLsbD j
  · have hlt : f.sh + j < w := by
      by_contra hge
      simp [hge, hm] at hbit
    simp [hlt, hm]
  · simp [hm]

theorem get_put_apart (h : f.Apart g) (v : BitVec w) : f.get (g.put v) = 0#w := by
  apply BitVec.eq_of_getLsbD_eq
  intro j hj
  have hbit := congrArg (BitVec.getLsbD · (f.sh + j)) h
  simp only [BitVec.getLsbD_and, BitVec.getLsbD_shiftLeft, BitVec.getLsbD_zero,
    Nat.add_sub_cancel_left] at hbit
  simp only [Field.get, Field.put, BitVec.getLsbD_and, BitVec.getLsbD_ushiftRight,
    BitVec.getLsbD_shiftLeft, BitVec.getLsbD_zero]
  by_cases hlt : f.sh + j < w
  · by_cases hlow : f.sh + j < g.sh
    · simp [hlow]
    · by_cases hm : f.msk.getLsbD j
      · have hg : g.msk.getLsbD (f.sh + j - g.sh) = false := by simpa [hlt, hlow, hm] using hbit
        simp [hg]
      · simp [hm]
  · simp [hlt]

theorem Field.Apart.symm (h : f.Apart g) : g.Apart f := by
  unfold Field.Apart at h ⊢
  rwa [BitVec.and_comm]

/-- The ored-in fields before it do not matter. -/
theorem get_foldl (f : Field w) (l : List (Field w × BitVec w)) (x : BitVec w) :
    f.get (l.foldl (fun x p => x ||| p.1.put p.2) x) = f.get x ||| f.get (pack l) := by
  induction l generalizing x with
  | nil => simp [pack]
  | cons p l ih =>
    rw [pack, List.foldl_cons, List.foldl_cons, ih, ih (0#w ||| p.1.put p.2), get_or, get_or]
    simp [BitVec.or_assoc]

theorem get_pack_cons (f : Field w) (p : Field w × BitVec w) (l : List (Field w × BitVec w)) :
    f.get (pack (p :: l)) = f.get (p.1.put p.2) ||| f.get (pack l) := by
  rw [pack, List.foldl_cons, get_foldl, BitVec.zero_or]

/-- No field there, nothing to read. -/
theorem get_pack_apart {l : List (Field w × BitVec w)} (h : ∀ p ∈ l, f.Apart p.1) :
    f.get (pack l) = 0#w := by
  induction l with
  | nil => simp [pack]
  | cons p l ih =>
    rw [get_pack_cons, get_put_apart (h p List.mem_cons_self),
      ih fun q hq => h q (List.mem_cons_of_mem _ hq), BitVec.zero_or]

/-- Of fields that are apart each is read back. -/
theorem get_pack {l : List (Field w × BitVec w)} (h : (l.map Prod.fst).Pairwise Field.Apart)
    (hm : (f, v) ∈ l) (hf : f.Fits) : f.get (pack l) = v &&& f.msk := by
  induction l with
  | nil => cases hm
  | cons p l ih =>
    rw [List.map_cons, List.pairwise_cons] at h
    obtain ⟨hp, hl⟩ := h
    rw [get_pack_cons]
    rcases List.mem_cons.mp hm with rfl | hm
    · have hrest : f.get (pack l) = 0#w := by
        apply get_pack_apart
        intro q hq
        exact hp q.1 (List.mem_map_of_mem hq)
      rw [get_put hf, hrest, BitVec.or_zero]
    · have hapart : f.Apart p.1 := (hp f (List.mem_map.mpr ⟨_, hm, rfl⟩)).symm
      rw [get_put_apart hapart, BitVec.zero_or, ih hl hm]

/-- The number that a field of a packed word holds. -/
theorem toNat_get_pack {l : List (Field w × BitVec w)} {n : ℕ}
    (h : (l.map Prod.fst).Pairwise Field.Apart) (hm : (f, BitVec.ofNat w n) ∈ l) (hf : f.Fits)
    (hn : n < 2 ^ w) : (f.get (pack l)).toNat = n &&& f.msk.toNat := by
  rw [get_pack h hm hf, BitVec.toNat_and, BitVec.toNat_ofNat, Nat.mod_eq_of_lt hn]

/-! ## Words of fewer bytes than the word has -/

/-- No bit of the fields stands at `k` or above. -/
def Below (k : ℕ) (l : List (Field w × BitVec w)) : Prop :=
  ∀ f ∈ l.map Prod.fst, (f.msk <<< f.sh) >>> k = 0#w

theorem getLsbD_pack_below {l : List (Field w × BitVec w)} {k j : ℕ} (h : Below k l) (hj : k ≤ j) :
    (pack l).getLsbD j = false := by
  have hput : ∀ p ∈ l, (p.1.put p.2).getLsbD j = false := by
    intro p hp
    have hbit := congrArg (BitVec.getLsbD · (j - k)) (h p.1 (List.mem_map_of_mem hp))
    have hsum : k + (j - k) = j := by omega
    simp only [BitVec.getLsbD_ushiftRight, BitVec.getLsbD_shiftLeft, BitVec.getLsbD_zero,
      hsum] at hbit
    simp only [Field.put, BitVec.getLsbD_shiftLeft, BitVec.getLsbD_and]
    by_cases hm : p.1.msk.getLsbD (j - p.1.sh)
    · have hout : j < w → j < p.1.sh := by simpa [hm] using hbit
      by_cases hlt : j < w
      · simp [hout hlt]
      · simp [hlt]
    · simp [hm]
  have hfold : ∀ (l : List (Field w × BitVec w)) (x : BitVec w), x.getLsbD j = false →
      (∀ p ∈ l, (p.1.put p.2).getLsbD j = false) →
        (l.foldl (fun x p => x ||| p.1.put p.2) x).getLsbD j = false := by
    intro l
    induction l with
    | nil => intro x hx _; exact hx
    | cons p l ih =>
      intro x hx hl
      apply ih
      · rw [BitVec.getLsbD_or, hx, hl p List.mem_cons_self, Bool.or_false]
      · exact fun q hq => hl q (List.mem_cons_of_mem _ hq)
  exact hfold l 0#w (by simp) hput

/-- A word whose high bits are clear is read back from its low bytes. -/
theorem getLe_of_low {n : ℕ} {v : BitVec w} (hv : ∀ j, 8 * n ≤ j → v.getLsbD j = false)
    {f : ℕ → UInt8} (hf : ∀ i, i < n → f i = byteAt (Wire.putLe n v) i) : Wire.getLe w n f = v := by
  apply BitVec.eq_of_getLsbD_eq
  intro j hj
  rw [Wire.getLsbD_getLe]
  by_cases hlt : j < 8 * n
  · have hi : j / 8 < n := by omega
    have hbit : 8 * (j / 8) + j % 8 = j := Nat.div_add_mod j 8
    rw [hf _ hi, Wire.byteAt_putLe n v hi]
    simp [hj, hlt, hbit, Nat.mod_lt]
  · rw [hv j (by omega)]
    simp [hlt]

/-! ## Blocks of one length -/

theorem length_blocks {m : ℕ} {f : ℕ → Bytes} (hf : ∀ u, (f u).length = m) (n : ℕ) :
    ((List.range n).flatMap f).length = m * n := by
  induction n with
  | zero => simp
  | succ n ih =>
    rw [List.range_succ, List.flatMap_append, List.length_append, ih, List.flatMap_singleton, hf,
      Nat.mul_succ]

/-- A byte of a block, counted from the first block on. -/
theorem byteAt_blocks {m : ℕ} {f : ℕ → Bytes} (hf : ∀ u, (f u).length = m) {n u i : ℕ} (hu : u < n)
    (hi : i < m) : byteAt ((List.range n).flatMap f) (m * u + i) = byteAt (f u) i := by
  induction n with
  | zero => omega
  | succ n ih =>
    have hlen := length_blocks hf n
    rw [List.range_succ, List.flatMap_append, List.flatMap_singleton]
    by_cases hlt : u < n
    · have hmul : m * (u + 1) ≤ m * n := Nat.mul_le_mul_left m hlt
      rw [Nat.mul_succ] at hmul
      rw [byteAt_append_left _ (by omega), ih hlt]
    · have hun : u = n := by omega
      rw [byteAt_append_right _ (by rw [hlen, hun]; omega), hlen, hun, Nat.add_sub_cancel_left]

end Packed
