-- The tables that tell a receiver which tones to leave out: one bit for each
-- tone on one family of chips, one nibble on the other.
import Devourer.Lib.Marks
import Devourer.Lib.Wire
import Devourer.ToneMask

namespace devourer.tonemask

open Marks

/-! ## The writes -/

/-- A write of a register, or of the field of a mask in it. -/
inductive BbWrite
  | write32 (addr : UInt16) (value : UInt32)
  | set_bb (addr : UInt16) (mask : UInt32) (value : UInt32)
  deriving DecidableEq

structure CsiMaskSpec where
  valid : Bool := false
  f_lo_khz : UInt32 := 0
  f_hi_khz : UInt32 := 0
  wgt : UInt8 := 7

def CsiMaskSpec.tones (spec : CsiMaskSpec) (fc_mhz bw_mhz : UInt32) : List ℤ :=
  enumerate_tones fc_mhz bw_mhz spec.f_lo_khz spec.f_hi_khz

/-! ## One bit for each tone -/

def idx_11ac (k : ℤ) : ℕ :=
  if 0 ≤ k then if 127 ≤ k.toNat then 127 else k.toNat
  else
    let a := (-k).toNat
    let idx := 128 + (128 - if 128 ≤ a then 128 else a)
    if 256 ≤ idx then 255 else idx

def shadow_11ac (tones : List ℤ) : List UInt8 :=
  tones.foldl (fun shadow k => mark shadow (idx_11ac k / 8) (1 <<< UInt8.ofNat (idx_11ac k % 8)))
    (List.replicate 32 0)

/-- The dword of four bytes of the shadow. -/
def dword (shadow : List UInt8) (i : ℕ) : UInt32 :=
  UInt32.ofBitVec (Wire.getLe 32 4 fun j => byteAt shadow (i * 4 + j))

/-- The writes, and how many tones are masked. -/
def csi_mask_apply_11ac (fc_mhz bw_mhz : UInt32) (spec : CsiMaskSpec) : List BbWrite × ℕ :=
  let tones := spec.tones fc_mhz bw_mhz
  let shadow := shadow_11ac tones
  ((List.range 8).map (fun i => .write32 (UInt16.ofNat (0x880 + i * 4)) (dword shadow i)) ++
    [.set_bb 0x874 0x1 (if tones.isEmpty then 0 else 1)], tones.length)

/-! ## One nibble for each tone -/

def idx_jgr3 (tone_num : ℕ) (k : ℤ) : ℕ :=
  if 0 ≤ k then if tone_num - 1 ≤ k.toNat then tone_num - 1 else k.toNat
  else
    let a := (-k).toNat
    (tone_num <<< 1) - if tone_num ≤ a then tone_num else a

def nib (wgt : UInt8) : UInt8 := 0x8 ||| (wgt &&& 0x7)

def table_jgr3 (tone_num : ℕ) (wgt : UInt8) (tones : List ℤ) : List UInt8 :=
  tones.foldl (fun table k =>
    let idx := idx_jgr3 tone_num k
    if 256 ≤ idx then table
    else mark table (idx / 2) (if idx % 2 = 1 then nib wgt <<< 4 else nib wgt))
    (List.replicate 128 0)

/-- `rf_bw` is what the register of the RF bandwidth reads. -/
def tone_num (rf_bw : UInt8) : ℕ := if (rf_bw &&& 0xc) >>> 2 = 0x2 then 128 else 64

def csi_mask_apply_jgr3 (rf_bw : UInt8) (fc_mhz bw_mhz : UInt32) (spec : CsiMaskSpec) :
    List BbWrite × ℕ :=
  let tones := spec.tones fc_mhz bw_mhz
  let table := table_jgr3 (tone_num rf_bw) spec.wgt tones
  ([.set_bb 0x1ee8 0x3 0x3, .set_bb 0x1d94 0xc0000000 0x1] ++
    (List.range (tone_num rf_bw)).flatMap (fun a =>
      [.set_bb 0x1d94 0x00ff0000 (UInt32.ofNat a),
        .set_bb 0x1d94 0x000000ff (table.getD a 0).toUInt32]) ++
    [.set_bb 0x1ee8 0x3 0x0, .set_bb 0xc0c 0x8 (if tones.isEmpty then 0 else 1)], tones.length)

/-! ## What the tables hold -/

def dword_writes : List BbWrite → List (UInt16 × UInt32)
  | [] => []
  | .write32 addr value :: ws => (addr, value) :: dword_writes ws
  | .set_bb _ _ _ :: ws => dword_writes ws

/-- Bit `i` of the array of the dwords from 0x880 on, where each of them is written once. -/
def bit_array (ws : List BbWrite) (i : ℕ) : Option Bool :=
  (only_write (dword_writes ws) (UInt16.ofNat (0x880 + i / 32 * 4))).map (·.toNat.testBit (i % 32))

/-- The data that goes through the window at 0x1d94, each with the address that was set before. -/
def window_writes (addr : UInt32) : List BbWrite → List (UInt32 × UInt32)
  | [] => []
  | .write32 _ _ :: ws => window_writes addr ws
  | .set_bb reg mask value :: ws =>
    if reg = 0x1d94 ∧ mask = 0x00ff0000 then window_writes value ws
    else if reg = 0x1d94 ∧ mask = 0x000000ff then (addr, value) :: window_writes addr ws
    else window_writes addr ws

/-- Entry `i` of the table behind the window, two of them at each address. -/
def nibble_table (ws : List BbWrite) (i : ℕ) : Option ℕ :=
  (only_write (window_writes 0 ws) (UInt32.ofNat (i / 2))).map (·.toNat / 16 ^ (i % 2) % 16)

/-- The entry of a tone among those of `n` positive and `n` negative ones: a negative one counts
back from the end. Tone `n` has no entry of its own, and is at the highest positive one. -/
def Entry (n : ℕ) (k : ℤ) (i : ℕ) : Prop :=
  (0 ≤ k ∧ k < n ∧ (i : ℤ) = k) ∨ (k < 0 ∧ (i : ℤ) = 2 * n + k) ∨ (k = n ∧ i + 1 = n)

theorem idx_11ac_iff {k : ℤ} (h : |k| ≤ 128) (i : ℕ) : idx_11ac k = i ↔ Entry 128 k i := by
  rw [abs_le] at h
  unfold idx_11ac Entry
  dsimp only
  split_ifs <;> omega

theorem idx_jgr3_iff {n : ℕ} (hn : 0 < n) {k : ℤ} (h : |k| ≤ n) (i : ℕ) :
    idx_jgr3 n k = i ↔ Entry n k i := by
  rw [abs_le] at h
  unfold idx_jgr3 Entry
  dsimp only
  rw [Nat.shiftLeft_eq]
  split_ifs <;> omega

theorem entry_lt {n : ℕ} {k : ℤ} {i : ℕ} (h : Entry n k i) : i < 2 * n := by
  unfold Entry at h
  omega

/-! ## The bits -/

theorem bit_one : ∀ r < 8, ∀ j < 8, bit (1 <<< UInt8.ofNat r) j ↔ r = j := by
  simp only [bit]
  decide

/-- A bit of the shadow is set for a tone at its place, and for no other reason. -/
theorem bit_shadow {tones : List ℤ} (h : ∀ k ∈ tones, |k| ≤ 128) (i : ℕ) :
    bit ((shadow_11ac tones).getD (i / 8) 0) (i % 8) ↔ ∃ k ∈ tones, Entry 128 k i := by
  have hin : ∀ k ∈ tones, idx_11ac k / 8 < (List.replicate 32 (0 : UInt8)).length := by
    intro k hk
    have hlt := entry_lt ((idx_11ac_iff (h k hk) _).mp rfl)
    rw [List.length_replicate]
    omega
  rw [shadow_11ac, bit_marks hin]
  have hzero : ¬ bit ((List.replicate 32 (0 : UInt8)).getD (i / 8) 0) (i % 8) := by
    rw [List.getD_eq_getElem?_getD, List.getElem?_replicate]
    split <;> simp [bit]
  rw [or_iff_right hzero]
  apply exists_congr
  intro k
  apply and_congr_right
  intro hk
  rw [bit_one _ (by omega) _ (by omega), ← idx_11ac_iff (h k hk)]
  omega

theorem testBit_dword (shadow : List UInt8) (i : ℕ) :
    (dword shadow (i / 32)).toNat.testBit (i % 32) = bit (shadow.getD (i / 8) 0) (i % 8) := by
  have hlt : i % 32 < 32 := by omega
  have hbits := Wire.getLsbD_getLe 32 4 (fun j => byteAt shadow (i / 32 * 4 + j)) (i % 32)
  have hplace : i / 32 * 4 + i % 32 / 8 = i / 8 := by omega
  have hlane : i % 32 % 8 = i % 8 := by omega
  simp only [hlt, decide_true, Bool.true_and, hplace, hlane] at hbits
  exact hbits

theorem dword_writes_eq (n : ℕ) (addr : ℕ → UInt16) (value : ℕ → UInt32) (reg : UInt16)
    (mask enable : UInt32) :
    dword_writes ((List.range n).map (fun i => .write32 (addr i) (value i)) ++
      [.set_bb reg mask enable]) = (List.range n).map fun i => (addr i, value i) := by
  induction List.range n with
  | nil => rfl
  | cons i is ih => rw [List.map_cons, List.cons_append, dword_writes, ih, List.map_cons]

/-- The array has a bit for each tone, and no others. -/
theorem bits_of_tones {fc_mhz bw_mhz : UInt32} (spec : CsiMaskSpec)
    (h : ∀ k ∈ spec.tones fc_mhz bw_mhz, |k| ≤ 128) {i : ℕ} (hi : i < 256) :
    ∃ b, bit_array (csi_mask_apply_11ac fc_mhz bw_mhz spec).1 i = some b ∧
      (b = true ↔ ∃ k ∈ spec.tones fc_mhz bw_mhz, Entry 128 k i) := by
  refine ⟨_, ?_, bit_shadow h i⟩
  rw [bit_array, csi_mask_apply_11ac]
  dsimp only
  rw [dword_writes_eq, only_write_range (fun j => UInt16.ofNat (0x880 + j * 4)) _
    (show i / 32 < 8 by omega), Option.map_some, testBit_dword]
  intro j hj hsame
  have hnat := congrArg UInt16.toNat hsame
  rw [UInt16.toNat_ofNat', UInt16.toNat_ofNat'] at hnat
  omega

/-! ## The nibbles -/

theorem nib_lt (wgt : UInt8) : (nib wgt).toNat < 16 := by
  rw [nib, UInt8.toNat_or, UInt8.toNat_and]
  exact Nat.or_lt_two_pow (show 8 < 2 ^ 4 by decide)
    (Nat.and_lt_two_pow _ (show 7 < 2 ^ 4 by decide))

/-- A bit of one of the two halves of a byte. -/
theorem bit_half {m : UInt8} (hm : m.toNat < 16) {r l j : ℕ} (hr : r < 2)
    (hl : l < 2) (hj : j < 4) :
    bit (if r = 1 then m <<< 4 else m) (4 * l + j) ↔ r = l ∧ bit m j := by
  have hshift : (m <<< 4).toNat = m.toNat * 2 ^ 4 := by
    rw [UInt8.toNat_shiftLeft, show (4 : UInt8).toNat % 8 = 4 from rfl, Nat.shiftLeft_eq,
      Nat.mod_eq_of_lt (by omega)]
  have hhigh : m.toNat.testBit (4 + j) = false :=
    Nat.testBit_lt_two_pow (lt_of_lt_of_le hm (by
      rw [Nat.pow_add]
      exact Nat.le_mul_of_pos_right _ (Nat.two_pow_pos j)))
  unfold bit
  obtain rfl | rfl : r = 0 ∨ r = 1 := by omega
  · obtain rfl | rfl : l = 0 ∨ l = 1 := by omega
    · simp
    · simp [hhigh]
  · obtain rfl | rfl : l = 0 ∨ l = 1 := by omega
    · rw [if_pos rfl, hshift, Nat.testBit_mul_two_pow]
      simp [hj]
    · rw [if_pos rfl, hshift, Nat.testBit_mul_two_pow]
      simp

/-- A bit of half of a byte is set by the tones at its place. -/
theorem bit_table {n : ℕ} (hn : 0 < n) (hn' : n ≤ 128) (wgt : UInt8) {tones : List ℤ}
    (h : ∀ k ∈ tones, |k| ≤ n) (i : ℕ) {j : ℕ} (hj : j < 4) :
    bit ((table_jgr3 n wgt tones).getD (i / 2) 0) (4 * (i % 2) + j) ↔
      (∃ k ∈ tones, Entry n k i) ∧ bit (nib wgt) j := by
  have hlt : ∀ k ∈ tones, idx_jgr3 n k < 2 * n := by
    intro k hk
    exact entry_lt ((idx_jgr3_iff hn (h k hk) _).mp rfl)
  have htable : table_jgr3 n wgt tones = tones.foldl (fun table k =>
      mark table (idx_jgr3 n k / 2) (if idx_jgr3 n k % 2 = 1 then nib wgt <<< 4 else nib wgt))
      (List.replicate 128 0) := by
    apply List.foldl_ext
    intro table k hk
    have := hlt k hk
    exact if_neg (by omega)
  have hin : ∀ k ∈ tones, idx_jgr3 n k / 2 < (List.replicate 128 (0 : UInt8)).length := by
    intro k hk
    have := hlt k hk
    rw [List.length_replicate]
    omega
  have hzero : ¬ bit ((List.replicate 128 (0 : UInt8)).getD (i / 2) 0) (4 * (i % 2) + j) := by
    rw [List.getD_eq_getElem?_getD, List.getElem?_replicate]
    split <;> simp [bit]
  rw [htable, bit_marks hin, or_iff_right hzero]
  constructor
  · rintro ⟨k, hk, hplace, hbit⟩
    rw [bit_half (nib_lt wgt) (by omega) (by omega) hj] at hbit
    refine ⟨⟨k, hk, (idx_jgr3_iff hn (h k hk) i).mp ?_⟩, hbit.2⟩
    omega
  · rintro ⟨⟨k, hk, hentry⟩, hbit⟩
    have hidx := (idx_jgr3_iff hn (h k hk) i).mpr hentry
    refine ⟨k, hk, by rw [hidx], ?_⟩
    rw [bit_half (nib_lt wgt) (by omega) (by omega) hj]
    exact ⟨by rw [hidx], hbit⟩

/-- Half of a byte of the table is marked for a tone at its place, and is 0 without one. -/
theorem half_table {n : ℕ} (hn : 0 < n) (hn' : n ≤ 128) (wgt : UInt8) {tones : List ℤ}
    (h : ∀ k ∈ tones, |k| ≤ n) (i : ℕ) (marked : Prop) [Decidable marked]
    (hmarked : marked ↔ ∃ k ∈ tones, Entry n k i) :
    ((table_jgr3 n wgt tones).getD (i / 2) 0).toNat / 16 ^ (i % 2) % 16 =
      if marked then (nib wgt).toNat else 0 := by
  apply Nat.eq_of_testBit_eq
  intro j
  rw [show 16 = 2 ^ 4 from rfl, ← Nat.pow_mul, Nat.testBit_mod_two_pow, Nat.testBit_div_two_pow]
  by_cases hj : j < 4
  · have hbit := bit_table hn hn' wgt h i hj
    rw [← hmarked] at hbit
    rw [Bool.eq_iff_iff, Bool.and_eq_true, decide_eq_true_eq, and_iff_right hj, Nat.add_comm j]
    refine hbit.trans ?_
    by_cases hm : marked
    · rw [if_pos hm]
      exact and_iff_right hm
    · rw [if_neg hm]
      simp [hm]
  · have hpow : 2 ^ 4 ≤ 2 ^ j := Nat.pow_le_pow_right (by decide) (by omega)
    have hnone : (nib wgt).toNat.testBit j = false :=
      Nat.testBit_lt_two_pow (lt_of_lt_of_le (nib_lt wgt) hpow)
    simp only [hj, decide_false, Bool.false_and]
    split
    · exact hnone.symm
    · simp

theorem window_writes_eq (addr : UInt32) (n : ℕ) (data : ℕ → UInt32) (enable : UInt32) :
    window_writes addr ((List.range n).flatMap (fun a =>
        [.set_bb 0x1d94 0x00ff0000 (UInt32.ofNat a), .set_bb 0x1d94 0x000000ff (data a)]) ++
        [.set_bb 0x1ee8 0x3 0x0, .set_bb 0xc0c 0x8 enable]) =
      (List.range n).map fun a => (UInt32.ofNat a, data a) := by
  induction List.range n generalizing addr with
  | nil => simp [window_writes]
  | cons a as ih =>
    rw [List.flatMap_cons, List.append_assoc, List.map_cons, ← ih (UInt32.ofNat a)]
    simp [window_writes]

/-- The table has a marked entry for each tone, and no others. -/
theorem nibbles_of_tones {rf_bw : UInt8} {fc_mhz bw_mhz : UInt32} (spec : CsiMaskSpec)
    (h : ∀ k ∈ spec.tones fc_mhz bw_mhz, |k| ≤ tone_num rf_bw) {i : ℕ} (hi : i < 2 * tone_num rf_bw)
    (marked : Prop) [Decidable marked]
    (hmarked : marked ↔ ∃ k ∈ spec.tones fc_mhz bw_mhz, Entry (tone_num rf_bw) k i) :
    nibble_table (csi_mask_apply_jgr3 rf_bw fc_mhz bw_mhz spec).1 i =
      some (if marked then (nib spec.wgt).toNat else 0) := by
  have hn : 0 < tone_num rf_bw ∧ tone_num rf_bw ≤ 128 := by
    unfold tone_num
    split <;> omega
  have hwindow : window_writes 0 (csi_mask_apply_jgr3 rf_bw fc_mhz bw_mhz spec).1 =
      (List.range (tone_num rf_bw)).map fun a => (UInt32.ofNat a,
        ((table_jgr3 (tone_num rf_bw) spec.wgt (spec.tones fc_mhz bw_mhz)).getD a 0).toUInt32) := by
    rw [← window_writes_eq 0]
    rw [csi_mask_apply_jgr3, List.append_assoc]
    rfl
  rw [nibble_table, hwindow, only_write_range UInt32.ofNat _ (show i / 2 < tone_num rf_bw by omega),
    Option.map_some, UInt8.toNat_toUInt32, half_table hn.1 hn.2 spec.wgt h i marked hmarked]
  intro j hj hsame
  have hnat := congrArg UInt32.toNat hsame
  rw [UInt32.toNat_ofNat', UInt32.toNat_ofNat'] at hnat
  omega

/-! ## A slice -/

/-- The tones of a slice are in order and are those that it covers up to the edge of the band, and
each table marks their entries and no others, with tone `k_edge` at the highest positive entry where
it has none of its own. -/
theorem the_slice_is_masked (channel bw sec_bw : UInt32) (sec_ch : ℤ) (spec : CsiMaskSpec)
    (rf_bw : UInt8) (hfc : find_fc_mhz channel sec_bw sec_ch ≠ 0)
    (hbw : bw = 20 ∨ bw = 40 ∨ bw = 80) (hslice : spec.f_lo_khz ≤ spec.f_hi_khz)
    (hrf : (rf_bw &&& 0xc) >>> 2 = 0x2 ↔ bw = 80) :
    let fc := find_fc_mhz channel sec_bw sec_ch
    let tones := enumerate_tones fc bw spec.f_lo_khz spec.f_hi_khz
    tones.Pairwise (· < ·) ∧
      (∀ k, k ∈ tones ↔
        Covered fc spec.f_lo_khz spec.f_hi_khz k ∧ |k| ≤ ((8 * bw.toNat / 5 : ℕ) : ℤ)) ∧
      (∀ i < 256, ∃ b, bit_array (csi_mask_apply_11ac fc bw spec).1 i = some b ∧
        (b = true ↔ ∃ k ∈ tones, Entry 128 k i)) ∧
      ∀ i < 2 * (if bw = 80 then 128 else 64), ∃ v,
        nibble_table (csi_mask_apply_jgr3 rf_bw fc bw spec).1 i = some v ∧
          ((∃ k ∈ tones, Entry (if bw = 80 then 128 else 64) k i) → v = (nib spec.wgt).toNat) ∧
          ((¬ ∃ k ∈ tones, Entry (if bw = 80 then 128 else 64) k i) → v = 0) := by
  intro fc tones
  obtain ⟨horder, hmem⟩ := enumerate_tones_spec bw hfc (find_fc_mhz_le _ _ _) hslice
  have hnum : tone_num rf_bw = if bw = 80 then 128 else 64 := by
    unfold tone_num
    by_cases h80 : bw = 80
    · rw [if_pos h80, if_pos (hrf.mpr h80)]
    · rw [if_neg h80, if_neg (mt hrf.mp h80)]
  have hedge : (bw * 8 / 5).toNat = 8 * bw.toNat / 5 ∧ 8 * bw.toNat / 5 ≤ tone_num rf_bw ∧
      tone_num rf_bw ≤ 128 := by
    rw [hnum]
    rcases hbw with rfl | rfl | rfl <;> decide
  rw [hedge.1] at hmem
  have hin : ∀ k ∈ tones, |k| ≤ tone_num rf_bw := by
    intro k hk
    have := ((hmem k).mp hk).2
    omega
  refine ⟨horder, hmem, fun i hi => bits_of_tones spec ?_ hi, fun i hi => ?_⟩
  · intro k hk
    have := hin k hk
    omega
  · rw [← hnum] at hi ⊢
    classical
    refine ⟨_, nibbles_of_tones spec hin hi _ Iff.rfl, fun h => if_pos h, fun h => if_neg h⟩

/-- The upper 20 MHz of the 80 MHz around channel 42. -/
theorem the_upper_slice_of_channel_36 :
    (enumerate_tones (find_fc_mhz 36 80 kSecDontCare) 80 5230000 5250000).Pairwise (· < ·) ∧
      ∀ k, k ∈ enumerate_tones (find_fc_mhz 36 80 kSecDontCare) 80 5230000 5250000 ↔
        Covered (find_fc_mhz 36 80 kSecDontCare) 5230000 5250000 k ∧ |k| ≤ ((128 : ℕ) : ℤ) := by
  obtain ⟨horder, hmem, -⟩ := the_slice_is_masked 36 80 80 kSecDontCare
    { f_lo_khz := 5230000, f_hi_khz := 5250000 } 8 (by decide) (by decide) (by decide) (by decide)
  exact ⟨horder, hmem⟩

/-- Without a center there are no tones, also where a slice around 0 would cover some. -/
theorem no_tones_without_a_center :
    ¬ ∀ (channel sec_bw bw : UInt32) (sec_ch : ℤ) (f_lo_khz f_hi_khz : UInt32),
      (bw = 20 ∨ bw = 40 ∨ bw = 80) → f_lo_khz < f_hi_khz →
        ∀ k, k ∈ enumerate_tones (find_fc_mhz channel sec_bw sec_ch) bw f_lo_khz f_hi_khz ↔
          InSlice (find_fc_mhz channel sec_bw sec_ch) f_lo_khz f_hi_khz k ∧
            |k| ≤ ((8 * bw.toNat / 5 : ℕ) : ℤ) := by
  intro h
  have hzero := (h 0 20 20 kSecDontCare 0 1000 (.inl rfl) (by decide) 0).mpr
    ⟨⟨by decide, by decide⟩, by decide⟩
  exact absurd hzero (by decide)

end devourer.tonemask
