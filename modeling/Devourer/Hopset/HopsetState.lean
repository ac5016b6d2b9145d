-- The state of an adaptive hopset: the base channels in play as a mask, and
-- the generation and the slot that the mask is in force from.
import Devourer.Lib.Bits

namespace devourer.hopset

/-- An authority does not commit at the ceiling. -/
def kGenCeiling : UInt32 := 0xFFFFFF00

def kMaxBaseChannels : UInt64 := 64

theorem and_pred_lt {v : UInt64} (hv : v ≠ 0) : (v &&& (v - 1)).toNat < v.toNat := by
  have hpos : 0 < v.toNat := by
    rw [Nat.pos_iff_ne_zero]
    intro h
    exact hv (UInt64.toNat_inj.mp h)
  have hsub : (v - 1).toNat = v.toNat - 1 :=
    UInt64.toNat_sub_of_le _ _ (UInt64.le_iff_toNat_le.mpr hpos)
  rw [UInt64.toNat_and, hsub]
  have hle : v.toNat &&& (v.toNat - 1) ≤ v.toNat - 1 := Nat.and_le_right
  omega

/-- One bit is cleared in each round of the loop. -/
def popcount64 (v : UInt64) : UInt32 :=
  if v = 0 then 0 else popcount64 (v &&& (v - 1)) + 1
termination_by v.toNat
decreasing_by exact and_pred_lt (by assumption)

def full_mask (n : UInt64) : UInt64 := if n ≥ 64 then ~~~0 else (1 <<< n) - 1

/-- The search from bit `i` on, `left` bits before the end of the word. -/
def nth_set_bit_from (mask : UInt64) : (left i j : ℕ) → Except String ℕ
  | 0, _, _ => throw "nth_set_bit past popcount"
  | left + 1, i, j =>
    if mask &&& 1 <<< UInt64.ofNat i ≠ 0 then
      if j = 0 then pure i else nth_set_bit_from mask left (i + 1) (j - 1)
    else nth_set_bit_from mask left (i + 1) j

/-- The index of the `j`th set bit, the lowest first. -/
def nth_set_bit (mask : UInt64) (j : ℕ) : Except String ℕ := nth_set_bit_from mask 64 0 j

/-- A mask selects real positions only, and keeps enough of them in play. -/
def mask_valid (mask n : UInt64) (min_active : UInt32) : Bool :=
  if n = 0 ∨ n > kMaxBaseChannels then false
  else if mask &&& ~~~(full_mask n) ≠ 0 then false
  else popcount64 mask ≥ min_active

/-- The committed state that both ends hold. -/
structure HopsetState where
  epoch : UInt32 := 0
  generation : UInt32 := 0
  active_mask : UInt64 := 0
  activate_round : UInt64 := 0
  activate_slot : UInt64 := 0
  deriving DecidableEq

/-- A generation below the ceiling has a next one. -/
theorem generation_succ {g : UInt32} (h : g < kGenCeiling) : (g + 1).toNat = g.toNat + 1 := by
  have hlt : g.toNat < 4294967040 := UInt32.lt_iff_toNat_lt.mp h
  have hone : UInt32.toNat 1 = 1 := rfl
  rw [UInt32.toNat_add, hone]
  exact Nat.mod_eq_of_lt (by omega)

/-! ## Masks -/

theorem popcount64_zero : popcount64 0 = 0 := by
  rw [popcount64]
  rfl

theorem popcount64_step {v : UInt64} (hv : v ≠ 0) :
    popcount64 v = popcount64 (v &&& (v - 1)) + 1 := by
  rw [popcount64, if_neg hv]

theorem count_le_64 (v : UInt64) : Bits.count v.toNat ≤ 64 := Bits.count_le v.toNat_lt

/-- The loop counts the bits. -/
theorem popcount64_eq (v : UInt64) : (popcount64 v).toNat = Bits.count v.toNat := by
  induction v using popcount64.induct with
  | case1 => rw [popcount64_zero]; simp
  | case2 v hv ih =>
    have hcount : Bits.count (v &&& (v - 1)).toNat + 1 = Bits.count v.toNat := by
      have hv' : v.toNat ≠ 0 := fun h => hv (UInt64.toNat_inj.mp h)
      have hone : (1 : UInt64) ≤ v := UInt64.le_iff_toNat_le.mpr (Nat.pos_of_ne_zero hv')
      rw [UInt64.toNat_and, UInt64.toNat_sub_of_le _ _ hone]
      exact Bits.count_and_pred hv'
    have hle := count_le_64 v
    have hone : UInt32.toNat 1 = 1 := rfl
    rw [popcount64_step hv, UInt32.toNat_add, ih, hone, hcount]
    exact Nat.mod_eq_of_lt (by omega)

theorem full_mask_toNat {n : UInt64} (hn : n ≤ 64) : (full_mask n).toNat = 2 ^ n.toNat - 1 := by
  unfold full_mask
  split
  · rename_i hge
    obtain rfl := UInt64.le_antisymm hn hge
    rfl
  · rename_i hlt
    have hlt' : n.toNat < 64 := UInt64.lt_iff_toNat_lt.mp (UInt64.not_le.mp hlt)
    have hpow : 2 ^ n.toNat < 2 ^ 64 := Nat.pow_lt_pow_right (by omega) hlt'
    have hpos : 0 < 2 ^ n.toNat := Nat.two_pow_pos _
    have hone : UInt64.toNat 1 = 1 := rfl
    have hshift : ((1 : UInt64) <<< n).toNat = 2 ^ n.toNat := by
      rw [UInt64.toNat_shiftLeft, Nat.mod_eq_of_lt hlt', hone, Nat.one_shiftLeft]
      exact Nat.mod_eq_of_lt hpow
    rw [UInt64.toNat_sub_of_le _ _ (UInt64.le_iff_toNat_le.mpr (by rw [hshift]; exact hpos)),
      hshift]
    rfl

theorem one_shift_toNat {i : ℕ} (hi : i < 64) :
    ((1 : UInt64) <<< UInt64.ofNat i).toNat = 2 ^ i := by
  have hto : (UInt64.ofNat i).toNat = i :=
    UInt64.toNat_ofNat_of_lt' (hi.trans (by decide))
  have hone : UInt64.toNat 1 = 1 := rfl
  rw [UInt64.toNat_shiftLeft, hto, Nat.mod_eq_of_lt hi, hone, Nat.one_shiftLeft]
  exact Nat.mod_eq_of_lt (Nat.pow_lt_pow_right (by omega) hi)

theorem and_bit_ne_zero {mask : UInt64} {i : ℕ} (hi : i < 64) :
    mask &&& 1 <<< UInt64.ofNat i ≠ 0 ↔ mask.toNat.testBit i := by
  rw [ne_eq, ← UInt64.toNat_inj, UInt64.toNat_and, one_shift_toNat hi, UInt64.toNat_zero]
  exact Bits.and_bit_ne_zero _ _

/-- The search gives the bits that are set, in their order. -/
theorem nth_set_bit_from_eq (mask : UInt64) (left i j : ℕ) (h : i + left ≤ 64) {c : ℕ}
    (hc : ((List.range' i left).filter (mask.toNat.testBit ·))[j]? = some c) :
    nth_set_bit_from mask left i j = .ok c := by
  induction left generalizing i j with
  | zero => simp at hc
  | succ left ih =>
    rw [List.range'_succ, List.filter_cons] at hc
    unfold nth_set_bit_from
    by_cases hbit : mask.toNat.testBit i
    · rw [if_pos ((and_bit_ne_zero (by omega)).mpr hbit)]
      rw [if_pos hbit] at hc
      cases j with
      | zero =>
        rw [List.getElem?_cons_zero, Option.some_inj] at hc
        rw [if_pos rfl, hc]
        rfl
      | succ j =>
        rw [List.getElem?_cons_succ] at hc
        exact ih (i + 1) j (by omega) hc
    · rw [if_neg (mt (and_bit_ne_zero (by omega)).mp hbit)]
      rw [if_neg hbit] at hc
      exact ih (i + 1) j (by omega) hc

theorem nth_set_bit_eq {mask : UInt64} {j : ℕ} (hj : j < (Bits.positions 64 mask.toNat).length) :
    nth_set_bit mask j = .ok (Bits.positions 64 mask.toNat)[j] := by
  apply nth_set_bit_from_eq mask 64 0 j le_rfl
  rw [← List.range_eq_range']
  exact List.getElem?_eq_getElem hj

/-- A part of the base has at most as many channels as the base. -/
theorem popcount64_le_of_le {v n : UInt64} (hn : n ≤ 64) (h : v ≤ full_mask n) :
    (popcount64 v).toNat ≤ n.toNat := by
  have hle := UInt64.le_iff_toNat_le.mp h
  rw [full_mask_toNat hn] at hle
  have hpos : 0 < 2 ^ n.toNat := Nat.two_pow_pos _
  rw [popcount64_eq]
  exact Bits.count_le (by omega)

theorem popcount64_full {n : UInt64} (hn : n ≤ 64) :
    (popcount64 (full_mask n)).toNat = n.toNat := by
  rw [popcount64_eq, full_mask_toNat hn, Bits.count_full]

/-- A mask that leaves nothing outside another is part of it. -/
theorem le_of_and_not {v f : UInt64} (h : v &&& ~~~f = 0) : v ≤ f := by
  have hbits : v.toBitVec &&& ~~~f.toBitVec = 0#64 := congrArg UInt64.toBitVec h
  have hsplit : v.toBitVec &&& (f.toBitVec ||| ~~~f.toBitVec) = v.toBitVec := by
    rw [BitVec.or_not_self, BitVec.and_allOnes]
  rw [BitVec.and_or_distrib_left, hbits, BitVec.or_zero] at hsplit
  have hsub : v &&& f = v := UInt64.toBitVec_inj.mp hsplit
  rw [← hsub]
  exact UInt64.le_iff_toNat_le.mpr (by rw [UInt64.toNat_and]; exact Nat.and_le_right)

theorem and_le_left (v f : UInt64) : v &&& f ≤ v :=
  UInt64.le_iff_toNat_le.mpr (by rw [UInt64.toNat_and]; exact Nat.and_le_left)

/-- A legal mask has at most as many channels as the base, however large the base is. -/
theorem popcount64_le_base {mask n : UInt64} (h : mask &&& ~~~(full_mask n) = 0) :
    (popcount64 mask).toNat ≤ n.toNat := by
  by_cases hn : n ≤ 64
  · exact popcount64_le_of_le hn (le_of_and_not h)
  · have hle := count_le_64 mask
    have hlt : 64 < n.toNat := UInt64.lt_iff_toNat_lt.mp (UInt64.not_le.mp hn)
    rw [popcount64_eq]
    omega

end devourer.hopset
