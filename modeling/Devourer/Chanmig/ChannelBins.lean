-- The bins of a channel: the 20 MHz channels of its block, four numbers apart,
-- that the scout tunes one after the other.
import Mathlib.Algebra.Order.Ring.Rat
import Mathlib.Data.List.Pairwise
import Mathlib.Tactic.IntervalCases
import Mathlib.Tactic.Linarith
import Mathlib.Tactic.Ring
import Devourer.Chanmig.ChannelDef

/-- Intervals laid end to end cover the interval from the first to the last, and no more. -/
theorem tiled (a h x : ℚ) (hh : 0 ≤ h) (k : ℕ) :
    (a - h ≤ x ∧ x ≤ a + 2 * h * k + h) ↔
      ∃ i ≤ k, a + 2 * h * i - h ≤ x ∧ x ≤ a + 2 * h * i + h := by
  constructor
  · rintro ⟨hlo, hhi⟩
    induction k with
    | zero => exact ⟨0, le_rfl, by simpa using hlo, by simpa using hhi⟩
    | succ k ih =>
      -- The last interval has what is beyond the end of the others.
      by_cases hx : x ≤ a + 2 * h * k + h
      · obtain ⟨i, hi, hbin⟩ := ih hx
        exact ⟨i, by omega, hbin⟩
      · refine ⟨k + 1, le_rfl, ?_, hhi⟩
        push_cast
        linarith
  · rintro ⟨i, hi, hlo, hhi⟩
    have hi0 : 0 ≤ 2 * h * i := by positivity
    have hik : 2 * h * i ≤ 2 * h * k := by gcongr
    constructor
    · linarith
    · linarith

namespace devourer.chanmig

open ChannelWidth_t

theorem toNat_ofInt16 (x : Int) : (UInt16.ofInt x).toNat = (x % 65536).toNat := by
  rw [UInt16.ofInt, UInt16.toNat_ofNat']
  omega

theorem chan_to_freq_2g {ch : ℕ} (h13 : ch ≤ 13) :
    (chan_to_freq ch).toNat = 2407 + 5 * ch := by
  rw [chan_to_freq, if_neg (by omega), if_pos (by omega), toNat_ofInt16]
  omega

theorem chan_to_freq_5g {ch : ℕ} (h15 : 15 ≤ ch) (h253 : ch ≤ 253) :
    (chan_to_freq ch).toNat = 5000 + 5 * ch := by
  rw [chan_to_freq, if_neg (by omega), if_neg (by omega), toNat_ofInt16]
  omega

namespace ChannelDef

/-! ## Channels on the grid -/

def InBand (d : ChannelDef) : Prop :=
  d.band = 2 ∧ 1 ≤ d.primary ∧ d.primary ≤ 14 ∨ d.band = 5 ∧ 16 ≤ d.primary ∧ d.primary ≤ 253

/-- How far the primary is up its raster. -/
def rel (d : ChannelDef) : Int := d.primary.toNat - anchor5 d.primary

/-- The channels that `normalize` gives back. -/
inductive OnGrid (d : ChannelDef) : Prop
  | single
      (hw : d.width = CHANNEL_WIDTH_20 ∨ d.width = CHANNEL_WIDTH_5 ∨ d.width = CHANNEL_WIDTH_10)
      (ho : d.offset = 0)
  | up (hw : d.width = CHANNEL_WIDTH_40) (hb : d.band = 2) (hp : d.primary.toNat + 4 ≤ 13)
      (ho : d.offset = 1)
  | down (hw : d.width = CHANNEL_WIDTH_40) (hb : d.band = 2) (hp : 5 ≤ d.primary)
      (hn : d.primary ≠ 14) (ho : d.offset = 2)
  | pair (hw : d.width = CHANNEL_WIDTH_40) (hb : d.band ≠ 2) (hr : 0 ≤ d.rel) (h4 : d.rel % 4 = 0)
      (ho : d.offset = if d.rel % 8 = 0 then 1 else 2)
  | quad (hw : d.width = CHANNEL_WIDTH_80) (hb : d.band ≠ 2) (hr : 0 ≤ d.rel) (h4 : d.rel % 4 = 0)
      (ho : d.offset = UInt8.ofInt (d.rel % 16 / 4 + 1))

theorem fill_offset_eq {d c : ChannelDef} {derived : UInt8} (h : fill_offset d derived = .ok c) :
    c = { d with offset := derived } := by
  unfold fill_offset at h
  split at h
  · exact (Except.ok.inj h).symm
  · split at h
    · next hd =>
      cases h
      rw [← hd]
    · cases h

/-- A pair of the 2.4 GHz band keeps to the channels below 14. -/
theorem normalize40_2g_onGrid {d c : ChannelDef} (hw : d.width = CHANNEL_WIDTH_40) (hb : d.band = 2)
    (h : normalize40_2g d = .ok c) : c.OnGrid ∧ ∃ o, c = { d with offset := o } := by
  unfold normalize40_2g at h
  simp only [Bool.and_eq_true, Bool.not_eq_true', decide_eq_true_eq, decide_eq_false_iff_not] at h
  split_ifs at h with h14 hnone ho hboth hup ho1 hup ho2 hdn
  · cases h
    exact ⟨.up hw hb hup rfl, _, rfl⟩
  · cases h
    have hdn : 5 ≤ d.primary := by
      by_contra hdn
      exact hnone ⟨hup, hdn⟩
    exact ⟨.down hw hb hdn h14 rfl, _, rfl⟩
  · cases h
    exact ⟨.up hw hb hup ho1, _, rfl⟩
  · cases h
    exact ⟨.down hw hb hdn h14 ho2, _, rfl⟩

/-- What `normalize` accepts is in its band and on the grid, and only its offset may be new. -/
theorem normalize_onGrid {d c : ChannelDef} (h : normalize d = .ok c) :
    c.InBand ∧ c.OnGrid ∧ ∃ o, c = { d with offset := o } := by
  unfold normalize at h
  split at h
  · cases h
  · split at h
    · cases h
    · split at h
      · cases h
      · next hband h2 h5 =>
        have hin : d.InBand := by
          unfold InBand
          grind
        suffices hg : c.OnGrid ∧ ∃ o, c = { d with offset := o } by
          obtain ⟨hg, o, rfl⟩ := hg
          exact ⟨hin, hg, o, rfl⟩
        have hsingle (hw : d.width = CHANNEL_WIDTH_20 ∨ d.width = CHANNEL_WIDTH_5 ∨
            d.width = CHANNEL_WIDTH_10)
            (h : (if d.offset ≠ 0 then Except.error DefError.BadOffset else .ok d) = .ok c) :
            c.OnGrid ∧ ∃ o, c = { d with offset := o } := by
          split at h
          · cases h
          · next ho => cases h; exact ⟨.single hw (not_not.mp ho), _, rfl⟩
        dsimp only at h
        split at h
        · next hw => exact hsingle (.inl hw) h
        · next hw => exact hsingle (.inr (.inl hw)) h
        · next hw => exact hsingle (.inr (.inr hw)) h
        · next hw =>
          split at h
          · next hb => exact normalize40_2g_onGrid hw hb h
          · next hb =>
            split at h
            · cases h
            · next hr =>
              obtain ⟨hr, h4⟩ := not_or.mp hr
              rw [fill_offset_eq h]
              exact ⟨.pair hw hb (not_lt.mp hr) (not_not.mp h4) rfl, _, rfl⟩
        · next hw =>
          split at h
          · cases h
          · next hb =>
            split at h
            · cases h
            · next hr =>
              obtain ⟨hr, h4⟩ := not_or.mp hr
              rw [fill_offset_eq h]
              exact ⟨.quad hw hb (not_lt.mp hr) (not_not.mp h4) rfl, _, rfl⟩
        · cases h

theorem fill_offset_self {d : ChannelDef} {derived : UInt8} (ho : d.offset = derived) :
    fill_offset d derived = .ok d := by
  unfold fill_offset
  split
  · next h0 => rw [← ho]
  · rfl

/-- What is in its band and on the grid is as `normalize` leaves it. -/
theorem normalize_of_onGrid {d : ChannelDef} (hin : d.InBand) (h : d.OnGrid) :
    normalize d = .ok d := by
  have hband : ¬ (d.band ≠ 2 ∧ d.band ≠ 5) := by
    unfold InBand at hin
    grind
  have h2 : ¬ (d.band = 2 ∧ (d.primary < 1 ∨ d.primary > 14)) := by
    unfold InBand at hin
    grind
  have h5 : ¬ (d.band = 5 ∧ (d.primary < 16 ∨ d.primary > 253)) := by
    unfold InBand at hin
    grind
  unfold normalize
  rw [if_neg hband, if_neg h2, if_neg h5]
  cases h with
  | single hw ho =>
    rcases hw with hw | hw | hw
    all_goals
      simp only [hw, ho]
      rfl
  | up hw hb hp ho =>
    have h14 : d.primary ≠ 14 := by
      intro h14
      rw [h14] at hp
      contradiction
    simp [hw, hb, normalize40_2g, h14, hp, ho]
  | down hw hb hp h14 ho =>
    simp [hw, hb, normalize40_2g, h14, hp, ho]
  | pair hw hb hr h4 ho =>
    unfold rel at hr h4 ho
    simp only [hw, hb, if_false, if_neg (not_or.mpr ⟨not_lt.mpr hr, not_not.mpr h4⟩)]
    exact fill_offset_self ho
  | quad hw hb hr h4 ho =>
    unfold rel at hr h4 ho
    simp only [hw, hb, if_false, if_neg (not_or.mpr ⟨not_lt.mpr hr, not_not.mpr h4⟩)]
    exact fill_offset_self ho

/-! ## Rows of channels -/

/-- The block ends at the last channel of the synthesizer or before it. -/
def OnSynth (d : ChannelDef) : Prop :=
  d.center_halfmhz + d.span_halfmhz / 2 ≤ 2 * (chan_to_freq 253).toNat + 20

def Narrow (d : ChannelDef) : Prop := d.width = CHANNEL_WIDTH_5 ∨ d.width = CHANNEL_WIDTH_10

/-- A row of channels that stays in a band: 14 is no neighbour of another. -/
def RowIn (band : UInt8) (lo k : ℕ) : Prop :=
  band = 2 ∧ 1 ≤ lo ∧ (lo + 4 * k ≤ 13 ∨ lo = 14 ∧ k = 0) ∨ band = 5 ∧ 16 ≤ lo ∧ lo + 4 * k ≤ 253

theorem RowIn.freq {band : UInt8} {lo k i : ℕ} (h : RowIn band lo k) (hi : i ≤ k) :
    (chan_to_freq ((lo + 4 * i : ℕ) : Int)).toNat = (chan_to_freq lo).toNat + 20 * i := by
  rcases h with ⟨-, h1, h13 | ⟨rfl, rfl⟩⟩ | ⟨-, h16, h253⟩
  · rw [chan_to_freq_2g (by omega), chan_to_freq_2g (by omega)]
    omega
  · rw [Nat.le_zero.mp hi]
    rfl
  · rw [chan_to_freq_5g (by omega) (by omega), chan_to_freq_5g (by omega) (by omega)]
    omega

/-- The block is a row of channels from `lo` on, with `k` behind it. -/
structure Row (d : ChannelDef) (lo k : ℕ) : Prop where
  bins : (constituent_bins d).map UInt8.toNat = (List.range (k + 1)).map (lo + 4 * ·)
  band : RowIn d.band lo k
  center : d.center_halfmhz = 2 * (chan_to_freq lo).toNat + 20 * k
  span : d.span_halfmhz = 40 * (k + 1) ∨ d.Narrow ∧ k = 0 ∧ d.span_halfmhz ≤ 40

theorem row_of_single {d : ChannelDef} (hin : d.InBand)
    (hw : d.width = CHANNEL_WIDTH_20 ∨ d.width = CHANNEL_WIDTH_5 ∨ d.width = CHANNEL_WIDTH_10) :
    d.Row d.primary.toNat 0 where
  bins := by rcases hw with hw | hw | hw <;> simp [constituent_bins, hw]
  band := by
    rcases hin with ⟨hb, h1, h14⟩ | ⟨hb, h16, h253⟩
    · left
      rw [UInt8.le_iff_toNat_le] at h1 h14
      refine ⟨hb, h1, ?_⟩
      have h14' : d.primary.toNat ≤ 14 := h14
      omega
    · exact .inr ⟨hb, h16, h253⟩
  center := by rcases hw with hw | hw | hw <;> simp [center_halfmhz, hw]
  span := by
    rcases hw with hw | hw | hw
    · left
      simp [span_halfmhz, hw]
    · right
      simp [span_halfmhz, hw, Narrow]
    · right
      simp [span_halfmhz, hw, Narrow]

theorem row_of_pair {d : ChannelDef} {lo : ℕ} (hw : d.width = CHANNEL_WIDTH_40)
    (hlo : d.primary.toNat = if d.offset = 1 then lo else lo + 4) (hband : RowIn d.band lo 1) :
    d.Row lo 1 where
  bins := by
    have h253 : lo + 4 ≤ 253 := by
      unfold RowIn at hband
      omega
    split at hlo
    · next ho =>
      simp [constituent_bins, hw, ho, List.range_succ, hlo]
      omega
    · next ho =>
      simp [constituent_bins, hw, ho, List.range_succ, hlo, UInt8.toNat_sub]
      omega
  band := hband
  center := by
    have hfreq := hband.freq (le_refl 1)
    split at hlo
    · next ho => simp [center_halfmhz, hw, ho, hlo]
    · next ho =>
      simp only [center_halfmhz, hw, ho, hlo, if_false]
      rw [mul_one] at hfreq
      omega
  span := by
    left
    simp [span_halfmhz, hw]

theorem row_of_quad {d : ChannelDef} {lo pos : ℕ} (hw : d.width = CHANNEL_WIDTH_80)
    (hpos : pos < 4) (ho : d.offset = UInt8.ofNat (pos + 1)) (hlo : d.primary.toNat = lo + 4 * pos)
    (hband : RowIn d.band lo 3) : d.Row lo 3 where
  bins := by
    have h253 : lo + 12 ≤ 253 := by
      unfold RowIn at hband
      omega
    interval_cases pos
    all_goals
      simp [constituent_bins, hw, ho, List.range_succ, hlo, UInt8.toNat_sub]
      omega
  band := hband
  center := by
    have hfreq := hband.freq (show pos ≤ 3 by omega)
    rw [← hlo] at hfreq
    simp only [center_halfmhz, hw, ho, hfreq]
    interval_cases pos <;> simp [off_ch] <;> omega
  span := by
    left
    simp [span_halfmhz, hw]

theorem band5_of_inBand {d : ChannelDef} (hin : d.InBand) (hb : d.band ≠ 2) :
    d.band = 5 ∧ 16 ≤ d.primary.toNat ∧ d.primary.toNat ≤ 253 := by
  rcases hin with ⟨hb2, -⟩ | h
  · exact absurd hb2 hb
  · exact h

/-- The raster starts at 36 and again at 149. -/
theorem rel_cases {d : ChannelDef} (hr : 0 ≤ d.rel) :
    36 ≤ d.primary.toNat ∧ d.rel = d.primary.toNat - 36 ∨
      149 ≤ d.primary.toNat ∧ d.rel = d.primary.toNat - 149 := by
  unfold rel anchor5 at hr ⊢
  split
  · next h => exact .inr ⟨h, rfl⟩
  · next h =>
    rw [if_neg h] at hr
    exact .inl ⟨by omega, rfl⟩

theorem row_of_onGrid {d : ChannelDef} (hin : d.InBand) (h : d.OnGrid) (hs : d.OnSynth) :
    ∃ lo k, d.Row lo k := by
  have h6265 : (chan_to_freq 253).toNat = 6265 := chan_to_freq_5g (by decide) le_rfl
  rw [OnSynth, h6265] at hs
  cases h with
  | single hw ho => exact ⟨_, _, row_of_single hin hw⟩
  | up hw hb hp ho =>
    have h1 : 1 ≤ d.primary.toNat := by
      rcases hin with ⟨-, h1, -⟩ | ⟨hb5, -⟩
      · exact h1
      · rw [hb] at hb5
        cases hb5
    exact ⟨d.primary.toNat, 1, row_of_pair hw (by rw [if_pos ho]) (.inl ⟨hb, h1, .inl hp⟩)⟩
  | down hw hb hp h14 ho =>
    have h5 : 5 ≤ d.primary.toNat := hp
    have h13 : d.primary.toNat ≤ 13 := by
      have hne : d.primary.toNat ≠ 14 := fun h => h14 (UInt8.toNat_inj.mp h)
      rcases hin with ⟨-, -, h⟩ | ⟨hb5, -⟩
      · have h : d.primary.toNat ≤ 14 := h
        omega
      · rw [hb] at hb5
        cases hb5
    refine ⟨d.primary.toNat - 4, 1, row_of_pair hw ?_ (.inl ⟨hb, by omega, by omega⟩)⟩
    rw [ho, if_neg (by decide)]
    omega
  | pair hw hb hr h4 ho =>
    obtain ⟨hb5, h16, h253⟩ := band5_of_inBand hin hb
    have hrel := rel_cases hr
    have hfreq := chan_to_freq_5g (by omega) h253
    simp only [center_halfmhz, span_halfmhz, hw, hfreq] at hs
    split at ho
    · -- The primary is the lower channel, so the other one is above it.
      rw [if_pos ho] at hs
      refine ⟨d.primary.toNat, 1, row_of_pair hw (by rw [if_pos ho]) (.inr ⟨hb5, h16, by omega⟩)⟩
    · refine ⟨d.primary.toNat - 4, 1, row_of_pair hw ?_ (.inr ⟨hb5, by omega, by omega⟩)⟩
      rw [ho, if_neg (by decide)]
      omega
  | quad hw hb hr h4 ho =>
    obtain ⟨hb5, h16, h253⟩ := band5_of_inBand hin hb
    have hrel := rel_cases hr
    have hfreq := chan_to_freq_5g (by omega) h253
    obtain ⟨pos, hpos⟩ : ∃ pos : ℕ, d.rel % 16 / 4 = pos := ⟨(d.rel % 16 / 4).toNat, by omega⟩
    have hpos4 : pos < 4 := by omega
    have ho' : d.offset = UInt8.ofNat (pos + 1) := by
      rw [ho, hpos]
      interval_cases pos <;> rfl
    simp only [center_halfmhz, span_halfmhz, hw, hfreq, ho'] at hs
    have hend : d.primary.toNat + 12 ≤ 253 + 4 * pos := by
      clear ho ho' hpos hrel
      interval_cases pos <;> simp [off_ch] at hs <;> omega
    refine ⟨d.primary.toNat - 4 * pos, 3, row_of_quad hw hpos4 ho' ?_ (.inr ⟨hb5, ?_, ?_⟩)⟩
    · omega
    · omega
    · omega

/-! ## The bins of a row -/

/-- The frequencies of the block, in half MHz. -/
def Occupies (d : ChannelDef) (x : ℚ) : Prop :=
  d.center_halfmhz - (d.span_halfmhz : ℚ) / 2 ≤ x ∧ x ≤ d.center_halfmhz + (d.span_halfmhz : ℚ) / 2

/-- The channel that a bin is tuned as. -/
def bin_def (band ch : UInt8) : ChannelDef := { band, primary := ch }

/-- What the bins of a channel are to its block. -/
structure BinsFit (d : ChannelDef) : Prop where
  legal : ∀ b ∈ constituent_bins d, validate (bin_def d.band b) = true
  ascending : (constituent_bins d).Pairwise (· < ·)
  cover : ∀ x, d.Occupies x → ∃ b ∈ constituent_bins d, (bin_def d.band b).Occupies x
  /-- A narrowband block is within its only bin; any other is all of its bins. -/
  narrow : d.Narrow → constituent_bins d = [d.primary]
  wide : ¬ d.Narrow → ∀ b ∈ constituent_bins d, ∀ x, (bin_def d.band b).Occupies x → d.Occupies x

theorem validate_of_onGrid {d : ChannelDef} (hin : d.InBand) (h : d.OnGrid) :
    validate d = true := by
  rw [validate, normalize_of_onGrid hin h]
  rfl

namespace Row

variable {d : ChannelDef} {lo k : ℕ} (h : d.Row lo k)
include h

theorem mem_bins {b : UInt8} : b ∈ constituent_bins d ↔ ∃ i ≤ k, b.toNat = lo + 4 * i := by
  have hmem : b ∈ constituent_bins d ↔ b.toNat ∈ (constituent_bins d).map UInt8.toNat := by
    rw [List.mem_map]
    constructor
    · exact fun hb => ⟨b, hb, rfl⟩
    · rintro ⟨c, hc, hcb⟩
      rwa [← UInt8.toNat_inj.mp hcb]
  rw [hmem, h.bins, List.mem_map]
  constructor
  · rintro ⟨i, hi, hb⟩
    have hi := List.mem_range.mp hi
    exact ⟨i, by omega, hb.symm⟩
  · rintro ⟨i, hi, hb⟩
    exact ⟨i, List.mem_range.mpr (by omega), hb.symm⟩

theorem ascending : (constituent_bins d).Pairwise (· < ·) := by
  have hrange : ((constituent_bins d).map UInt8.toNat).Pairwise (· < ·) := by
    rw [h.bins, List.pairwise_map]
    refine List.pairwise_lt_range.imp ?_
    omega
  rw [List.pairwise_map] at hrange
  exact hrange.imp UInt8.lt_iff_toNat_lt.mpr

theorem legal {b : UInt8} (hb : b ∈ constituent_bins d) : validate (bin_def d.band b) = true := by
  obtain ⟨i, hi, hbi⟩ := h.mem_bins.mp hb
  refine validate_of_onGrid ?_ (.single (.inl rfl) rfl)
  rcases h.band with ⟨hband, h1, hlo⟩ | ⟨hband, h16, h253⟩
  · left
    refine ⟨hband, ?_, ?_⟩
    · change 1 ≤ b.toNat
      omega
    · change b.toNat ≤ 14
      omega
  · right
    refine ⟨hband, ?_, ?_⟩
    · change 16 ≤ b.toNat
      omega
    · change b.toNat ≤ 253
      omega

/-- The place of a bin. -/
theorem occupies_bin {b : UInt8} {i : ℕ} (hi : i ≤ k) (hb : b.toNat = lo + 4 * i) (x : ℚ) :
    (bin_def d.band b).Occupies x ↔
      2 * (chan_to_freq lo).toNat + 2 * 20 * i - 20 ≤ x ∧
        x ≤ 2 * (chan_to_freq lo).toNat + 2 * 20 * i + (20 : ℚ) := by
  have hfreq := h.band.freq hi
  have hc : (bin_def d.band b).center_halfmhz = 2 * (chan_to_freq lo).toNat + 40 * i := by
    change 2 * ((chan_to_freq b.toNat).toNat : Int) = _
    rw [hb, hfreq]
    push_cast
    ring
  have hs : (bin_def d.band b).span_halfmhz = 40 := rfl
  unfold Occupies
  rw [hc, hs]
  push_cast
  constructor
  all_goals
    rintro ⟨h1, h2⟩
    constructor <;> linarith

/-- A block of whole channels goes from the lower edge of its first to the upper one of its last. -/
theorem occupies_iff (hs : d.span_halfmhz = 40 * (k + 1)) (x : ℚ) :
    d.Occupies x ↔
      ∃ i ≤ k, 2 * (chan_to_freq lo).toNat + 2 * 20 * i - 20 ≤ x ∧
        x ≤ 2 * (chan_to_freq lo).toNat + 2 * 20 * i + (20 : ℚ) := by
  rw [← tiled _ 20 x (by norm_num) k, Occupies, h.center, hs]
  push_cast
  constructor
  all_goals
    rintro ⟨h1, h2⟩
    constructor <;> linarith

theorem cover {x : ℚ} (hx : d.Occupies x) :
    ∃ b ∈ constituent_bins d, (bin_def d.band b).Occupies x := by
  have hbin : ∀ i ≤ k, ∃ b ∈ constituent_bins d, b.toNat = lo + 4 * i := by
    intro i hi
    have hmem : lo + 4 * i ∈ (constituent_bins d).map UInt8.toNat := by
      rw [h.bins]
      exact List.mem_map.mpr ⟨i, List.mem_range.mpr (by omega), rfl⟩
    exact List.mem_map.mp hmem
  rcases h.span with hs | ⟨-, rfl, hs⟩
  · obtain ⟨i, hi, hx⟩ := (h.occupies_iff hs x).mp hx
    obtain ⟨b, hb, hbi⟩ := hbin i hi
    exact ⟨b, hb, (h.occupies_bin hi hbi x).mpr hx⟩
  · obtain ⟨b, hb, hb0⟩ := hbin 0 le_rfl
    refine ⟨b, hb, (h.occupies_bin le_rfl hb0 x).mpr ?_⟩
    have hs : (d.span_halfmhz : ℚ) ≤ 40 := by exact_mod_cast hs
    rw [Occupies, h.center] at hx
    push_cast at hx ⊢
    constructor <;> linarith [hx.1, hx.2]

theorem wide {b : UInt8} (hw : ¬ d.Narrow) (hb : b ∈ constituent_bins d) {x : ℚ}
    (hx : (bin_def d.band b).Occupies x) : d.Occupies x := by
  rcases h.span with hs | ⟨hn, -⟩
  · obtain ⟨i, hi, hbi⟩ := h.mem_bins.mp hb
    exact (h.occupies_iff hs x).mpr ⟨i, hi, (h.occupies_bin hi hbi x).mp hx⟩
  · exact absurd hn hw

theorem binsFit : d.BinsFit where
  legal := fun _ => h.legal
  ascending := h.ascending
  cover := fun _ => h.cover
  narrow := by
    rintro (hw | hw) <;> rw [constituent_bins, hw]
  wide := fun hw _ hb _ => h.wide hw hb

end Row

end ChannelDef

end devourer.chanmig
