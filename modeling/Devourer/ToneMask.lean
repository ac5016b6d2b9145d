-- The tones of a slice of a channel: the center frequency of the channel, and
-- which subcarriers around it the slice covers.
import Devourer.SweepSpec

namespace devourer.tonemask

/-! ## The center of a channel -/

def kSecDontCare : ℤ := 0
def kSecAbove : ℤ := 1
def kSecBelow : ℤ := 2

def start_40m : List UInt32 :=
  [20, 28, 36, 44, 52, 60, 68, 76, 84, 92, 100, 108, 116, 124, 132, 140, 149, 157, 165, 173, 181,
    189, 197, 205, 213, 221, 229, 237, 245]

def start_80m : List UInt32 :=
  [20, 36, 52, 68, 84, 100, 116, 132, 149, 165, 181, 197, 213, 229]

/-- The center of the block that a channel is in. A channel from the last start on stays as
it is. -/
def block_center (start : List UInt32) (off channel : UInt32) : UInt32 :=
  (((start.zip start.tail).find? fun p => channel < p.2).map (·.1 + off)).getD channel

/-- 0 for a combination that there is not. -/
def find_fc_mhz (channel bw : UInt32) (sec_ch : ℤ) : UInt32 :=
  if 1 ≤ channel ∧ channel ≤ 14 then
    let fc := 2412 + (channel - 1) * 5
    if bw = 80 then 0
    else if bw = 40 ∧ sec_ch = kSecAbove then if 10 ≤ channel then 0 else fc + 10
    else if bw = 40 ∧ sec_ch = kSecBelow then if channel ≤ 2 then 0 else fc - 10
    else fc
  else if 16 ≤ channel ∧ channel ≤ 253 then
    let channel :=
      if bw = 40 then block_center start_40m 2 channel
      else if bw = 80 then block_center start_80m 6 channel
      else channel
    5080 + (channel - 16) * 5
  else 0

/-! ## The tones -/

def div_ceil (a b : ℤ) : ℤ := if 0 ≤ a then (a + b - 1).tdiv b else -(-a).tdiv b

def div_floor (a b : ℤ) : ℤ := if 0 ≤ a then a.tdiv b else -(-a + b - 1).tdiv b

/-- The nearest tone to an offset from the center, in steps of a tenth of a tone. -/
def nearest_tone (offset_khz : ℤ) : ℤ :=
  let k10 := (offset_khz * 32).tdiv 1000
  int_of_long ((k10 + if 0 ≤ k10 then 5 else -5).tdiv 10)

def enumerate_tones (fc_mhz bw_mhz f_lo_khz f_hi_khz : UInt32) : List ℤ :=
  if fc_mhz = 0 ∨ f_hi_khz < f_lo_khz then []
  else
    let fc_khz : ℤ := fc_mhz.toNat * 1000
    let k_edge : ℤ := (bw_mhz * 8 / 5).toNat
    let lo2 := (f_lo_khz.toNat - fc_khz) * 2
    let hi2 := (f_hi_khz.toNat - fc_khz) * 2
    let k_lo := int_of_long (div_ceil lo2 625)
    let k_hi := int_of_long (div_floor hi2 625)
    let p :=
      if k_hi < k_lo ∧ f_lo_khz = f_hi_khz then
        (nearest_tone (f_lo_khz.toNat - fc_khz), nearest_tone (f_lo_khz.toNat - fc_khz))
      else (k_lo, k_hi)
    ((List.range (p.2 + 1 - p.1).toNat).map fun n : ℕ => p.1 + (n : ℤ)).filter
      fun k => ¬ (k < -k_edge ∨ k_edge < k)

/-! ## What a slice covers -/

/-- The tone `k` lies in a slice. Twice the frequencies are whole numbers of kHz. -/
def InSlice (fc_mhz f_lo_khz f_hi_khz : UInt32) (k : ℤ) : Prop :=
  2 * (f_lo_khz.toNat : ℤ) ≤ 2000 * fc_mhz.toNat + 625 * k ∧
    2000 * (fc_mhz.toNat : ℤ) + 625 * k ≤ 2 * f_hi_khz.toNat

/-- The tone `k` is the nearest one to a frequency. -/
def Nearest (fc_mhz f_khz : UInt32) (k : ℤ) : Prop :=
  ∀ j : ℤ, j ≠ k → |2000 * (fc_mhz.toNat : ℤ) + 625 * k - 2 * f_khz.toNat| <
    |2000 * (fc_mhz.toNat : ℤ) + 625 * j - 2 * f_khz.toNat|

/-- The tones that a slice is to have: those that lie in it, or the nearest one to a frequency that
lies between two. -/
def Covered (fc_mhz f_lo_khz f_hi_khz : UInt32) (k : ℤ) : Prop :=
  InSlice fc_mhz f_lo_khz f_hi_khz k ∨
    f_lo_khz = f_hi_khz ∧ (∀ j, ¬ InSlice fc_mhz f_lo_khz f_hi_khz j) ∧ Nearest fc_mhz f_lo_khz k

/-! ## The bounds of a slice -/

theorem tdiv_of_nonpos {a : ℤ} (h : a ≤ 0) (b : ℤ) : a.tdiv b = -(-a / b) := by
  rw [← Int.neg_neg a, Int.neg_tdiv, Int.tdiv_eq_ediv_of_nonneg (by omega), Int.neg_neg]

theorem div_ceil_le {a k : ℤ} : div_ceil a 625 ≤ k ↔ a ≤ 625 * k := by
  unfold div_ceil
  split
  · rw [Int.tdiv_eq_ediv_of_nonneg (by omega)]
    omega
  · rw [Int.tdiv_eq_ediv_of_nonneg (by omega)]
    omega

theorem le_div_floor {a k : ℤ} : k ≤ div_floor a 625 ↔ 625 * k ≤ a := by
  unfold div_floor
  split
  · rw [Int.tdiv_eq_ediv_of_nonneg (by omega)]
    omega
  · rw [Int.tdiv_eq_ediv_of_nonneg (by omega)]
    omega

/-- The rounding in tenths of a tone comes to less than half of a tone: it is never a tie, since a
frequency is a whole number of kHz and half of a tone is not. -/
theorem round_tone (d : ℤ) :
    let k10 := (d * 32).tdiv 1000
    let k := (k10 + if 0 ≤ k10 then 5 else -5).tdiv 10
    2 * (625 * k - 2 * d) < 625 ∧ -625 < 2 * (625 * k - 2 * d) := by
  dsimp only
  by_cases hd : 0 ≤ d
  · have hk10 : (d * 32).tdiv 1000 = d * 32 / 1000 := Int.tdiv_eq_ediv_of_nonneg (by omega)
    rw [hk10, if_pos (by omega), Int.tdiv_eq_ediv_of_nonneg (by omega)]
    omega
  · have hk10 : (d * 32).tdiv 1000 = -(-(d * 32) / 1000) := tdiv_of_nonpos (by omega) 1000
    rw [hk10]
    by_cases hzero : 0 ≤ -(-(d * 32) / 1000)
    · have hnone : -(d * 32) / 1000 = 0 := by omega
      rw [if_pos hzero, hnone]
      simp
      omega
    · rw [if_neg hzero, tdiv_of_nonpos (by omega)]
      omega

theorem nearest_tone_spec {d : ℤ} (h : -2 ^ 33 ≤ d) (h' : d ≤ 2 ^ 33) :
    2 * (625 * nearest_tone d - 2 * d) < 625 ∧ -625 < 2 * (625 * nearest_tone d - 2 * d) := by
  obtain ⟨hlow, hhigh⟩ := round_tone d
  unfold nearest_tone
  rw [int_of_long_eq (by omega) (by omega)]
  exact ⟨hlow, hhigh⟩

/-! ## The center -/

theorem block_center_bounds {start : List UInt32} {off channel : UInt32}
    (hstart : ∀ s ∈ start, 16 ≤ s.toNat ∧ s.toNat ≤ 245) (hoff : off.toNat ≤ 6)
    (hchannel : 16 ≤ channel.toNat ∧ channel.toNat ≤ 253) :
    16 ≤ (block_center start off channel).toNat ∧ (block_center start off channel).toNat ≤ 253 := by
  unfold block_center
  cases hfind : (start.zip start.tail).find? fun p => channel < p.2 with
  | none => exact hchannel
  | some p =>
    have hp := hstart p.1 (List.of_mem_zip (List.mem_of_find?_eq_some hfind)).1
    rw [Option.map_some, Option.getD_some, UInt32.toNat_add]
    omega

theorem toNat_raster (base first channel n : UInt32) (h : first.toNat ≤ channel.toNat)
    (hn : base.toNat + (channel.toNat - first.toNat) * 5 + n.toNat < 2 ^ 32) :
    (base + (channel - first) * 5 + n).toNat =
      base.toNat + (channel.toNat - first.toNat) * 5 + n.toNat := by
  have hsub : (channel - first).toNat = channel.toNat - first.toNat := UInt32.toNat_sub_of_le _ _ h
  have hfive : (5 : UInt32).toNat = 5 := rfl
  rw [UInt32.toNat_add, UInt32.toNat_add, UInt32.toNat_mul, hsub, hfive]
  omega

/-- A center is in the bands. -/
theorem find_fc_mhz_le (channel bw : UInt32) (sec_ch : ℤ) :
    (find_fc_mhz channel bw sec_ch).toNat ≤ 6265 := by
  have hzero : (0 : UInt32).toNat = 0 := rfl
  have hten : (10 : UInt32).toNat = 10 := rfl
  unfold find_fc_mhz
  by_cases h24 : 1 ≤ channel ∧ channel ≤ 14
  · rw [if_pos h24]
    have hlow : 1 ≤ channel.toNat ∧ channel.toNat ≤ 14 := h24
    have hbase : (2412 : UInt32).toNat = 2412 := rfl
    have hone : (1 : UInt32).toNat = 1 := rfl
    have hfc := toNat_raster 2412 1 channel 0 hlow.1 (by omega)
    have hup := toNat_raster 2412 1 channel 10 hlow.1 (by omega)
    rw [UInt32.add_zero] at hfc
    dsimp only
    split_ifs with h80 h40 h10 h40' h2
    · omega
    · omega
    · omega
    · omega
    · rw [UInt32.toNat_sub_of_le _ _ (by rw [UInt32.le_iff_toNat_le]; omega)]
      omega
    · omega
  · rw [if_neg h24]
    by_cases h5 : 16 ≤ channel ∧ channel ≤ 253
    · rw [if_pos h5]
      have hhigh : 16 ≤ channel.toNat ∧ channel.toNat ≤ 253 := h5
      have hbase : (5080 : UInt32).toNat = 5080 := rfl
      have hfirst : (16 : UInt32).toNat = 16 := rfl
      have hlast : ∀ c : UInt32, 16 ≤ c.toNat ∧ c.toNat ≤ 253 →
          (5080 + (c - 16) * 5).toNat ≤ 6265 := by
        intro c hc
        have hfc := toNat_raster 5080 16 c 0 hc.1 (by omega)
        rw [UInt32.add_zero] at hfc
        omega
      apply hlast
      split_ifs
      · exact block_center_bounds (by simp [start_40m]) (by decide) hhigh
      · exact block_center_bounds (by simp [start_80m]) (by decide) hhigh
      · exact hhigh
    · rw [if_neg h5]
      omega

/-! ## The tones of a slice -/

theorem mem_ascending {lo hi edge k : ℤ} :
    k ∈ ((List.range (hi + 1 - lo).toNat).map fun n : ℕ => lo + (n : ℤ)).filter
        (fun k => ¬ (k < -edge ∨ edge < k)) ↔ (lo ≤ k ∧ k ≤ hi) ∧ |k| ≤ edge := by
  rw [List.mem_filter, List.mem_map, abs_le, decide_eq_true_eq]
  constructor
  · rintro ⟨⟨n, hn, rfl⟩, hedge⟩
    rw [List.mem_range] at hn
    omega
  · rintro ⟨hk, hedge⟩
    refine ⟨⟨(k - lo).toNat, ?_, ?_⟩, by omega⟩
    · rw [List.mem_range]
      omega
    · omega

theorem pairwise_ascending (lo : ℤ) (n : ℕ) (p : ℤ → Bool) :
    (((List.range n).map fun n : ℕ => lo + (n : ℤ)).filter p).Pairwise (· < ·) := by
  apply List.Pairwise.filter
  rw [List.pairwise_map]
  exact List.pairwise_lt_range.imp fun h => by omega

variable {fc_mhz f_lo_khz f_hi_khz : UInt32}

/-- The tone that the rounding gives is the nearest one, and the only one that is. -/
theorem nearest_iff (hle : fc_mhz.toNat ≤ 6265) {k : ℤ} :
    Nearest fc_mhz f_lo_khz k ↔ k = nearest_tone (f_lo_khz.toNat - fc_mhz.toNat * 1000) := by
  have hf := f_lo_khz.toNat_lt
  obtain ⟨hhigh, hlow⟩ := nearest_tone_spec
    (d := f_lo_khz.toNat - fc_mhz.toNat * 1000) (by omega) (by omega)
  generalize nearest_tone (f_lo_khz.toNat - fc_mhz.toNat * 1000) = t at hhigh hlow ⊢
  have hcloser : Nearest fc_mhz f_lo_khz t := by
    intro j hj
    rcases abs_cases (2000 * (fc_mhz.toNat : ℤ) + 625 * t - 2 * f_lo_khz.toNat) with h | h <;>
      rcases abs_cases (2000 * (fc_mhz.toNat : ℤ) + 625 * j - 2 * f_lo_khz.toNat) with h' | h' <;>
      omega
  constructor
  · intro hk
    by_contra hne
    exact absurd (hk t (Ne.symm hne)) (lt_asymm (hcloser k hne))
  · rintro rfl
    exact hcloser

/-- The tones of a slice in order, and no others. -/
theorem enumerate_tones_spec (bw_mhz : UInt32) (hfc : fc_mhz ≠ 0) (hle : fc_mhz.toNat ≤ 6265)
    (hslice : f_lo_khz ≤ f_hi_khz) :
    (enumerate_tones fc_mhz bw_mhz f_lo_khz f_hi_khz).Pairwise (· < ·) ∧
      ∀ k, k ∈ enumerate_tones fc_mhz bw_mhz f_lo_khz f_hi_khz ↔
        Covered fc_mhz f_lo_khz f_hi_khz k ∧ |k| ≤ ((bw_mhz * 8 / 5).toNat : ℤ) := by
  have hlo := f_lo_khz.toNat_lt
  have hhi := f_hi_khz.toNat_lt
  have hceil : ∀ k, div_ceil ((f_lo_khz.toNat - fc_mhz.toNat * 1000) * 2) 625 ≤ k ↔
      (f_lo_khz.toNat - fc_mhz.toNat * 1000 : ℤ) * 2 ≤ 625 * k := fun k => div_ceil_le
  have hfloor : ∀ k, k ≤ div_floor ((f_hi_khz.toNat - fc_mhz.toNat * 1000) * 2) 625 ↔
      625 * k ≤ (f_hi_khz.toNat - fc_mhz.toNat * 1000 : ℤ) * 2 := fun k => le_div_floor
  unfold enumerate_tones
  rw [if_neg (by rw [not_or, UInt32.not_lt]; exact ⟨hfc, hslice⟩)]
  dsimp only
  generalize div_ceil ((f_lo_khz.toNat - fc_mhz.toNat * 1000) * 2) 625 = k_lo at hceil ⊢
  generalize div_floor ((f_hi_khz.toNat - fc_mhz.toNat * 1000) * 2) 625 = k_hi at hfloor ⊢
  have hlo1 := hceil (2 ^ 30)
  have hlo2 := hceil (-2 ^ 30)
  have hhi1 := hfloor (2 ^ 30)
  have hhi2 := hfloor (-2 ^ 30)
  rw [int_of_long_eq (by omega) (by omega), int_of_long_eq (by omega) (by omega)]
  have hin : ∀ k, InSlice fc_mhz f_lo_khz f_hi_khz k ↔ k_lo ≤ k ∧ k ≤ k_hi := by
    intro k
    rw [hceil, hfloor, InSlice]
    omega
  refine ⟨pairwise_ascending _ _ _, fun k => ?_⟩
  rw [mem_ascending, Covered]
  by_cases hsingle : k_hi < k_lo ∧ f_lo_khz = f_hi_khz
  · rw [if_pos hsingle, nearest_iff hle]
    have hnone : ∀ j, ¬ InSlice fc_mhz f_lo_khz f_hi_khz j := by
      intro j hj
      have := (hin j).mp hj
      omega
    constructor
    · rintro ⟨hk, hedge⟩
      exact ⟨.inr ⟨hsingle.2, hnone, by omega⟩, hedge⟩
    · rintro ⟨hk | ⟨-, -, hk⟩, hedge⟩
      · exact absurd hk (hnone k)
      · exact ⟨by omega, hedge⟩
  · rw [if_neg hsingle, ← hin]
    apply and_congr_left'
    constructor
    · exact .inl
    · rintro (hk | ⟨hsame, hnone, -⟩)
      · exact hk
      · have hempty := hnone k_lo
        rw [hin] at hempty
        exact absurd ⟨by omega, hsame⟩ hsingle

end devourer.tonemask
