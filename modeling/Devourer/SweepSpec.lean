-- The list of bins of a sweep or a hop: channels, ranges of channels and
-- ranges of frequencies, and which specs keep to the channels that there are.
import Devourer.Chanmig.ChannelBins
import Devourer.Chanmig.SurveyJsonl
import Devourer.Lib.Progression

namespace devourer

open chanmig (isspace isdigit isxdigit split_at)
open Progression

/-! ## Numbers -/

def LONG_MAX : ℤ := 9223372036854775807
def LONG_MIN : ℤ := -9223372036854775808

/-- The base that `strtol` takes from a text by its prefix, and the digits behind the prefix. -/
def base_digits : List Char → ℕ × List Char
  | '0' :: x :: h :: t =>
    if (x = 'x' ∨ x = 'X') ∧ isxdigit h then (16, (h :: t).takeWhile isxdigit)
    else (8, ('0' :: x :: h :: t).takeWhile fun c => '0' ≤ c && c ≤ '7')
  | '0' :: t => (8, ('0' :: t).takeWhile fun c => '0' ≤ c && c ≤ '7')
  | t => (10, t.takeWhile isdigit)

/-- `strtol` of base 0 on 64 bits: 0 where there is no number, and the nearest end of the range
where the number does not fit. -/
def strtol0 (t : List Char) : ℤ :=
  let s := t.dropWhile isspace
  let neg := s.head? = some '-'
  let s := if neg ∨ s.head? = some '+' then s.tail else s
  let p := base_digits s
  let n : ℤ := p.2.foldl (fun n c => p.1 * n + FlatJson.hexVal c) 0
  if neg then max LONG_MIN (-n) else min LONG_MAX n

/-- The cast of a `long` to `int`. -/
def int_of_long (v : ℤ) : ℤ := (Int32.ofInt v).toInt

/-! ## Channels of frequencies -/

/-- 0 for a frequency outside of the bands. -/
def freq_to_chan (freq_mhz : UInt16) : ℤ :=
  let f : ℤ := freq_mhz.toNat
  if f = 2484 then 14
  else if 2412 ≤ f ∧ f ≤ 2472 then (f - 2407) / 5
  else if 5000 ≤ f ∧ f ≤ 6265 then (f - 5000) / 5
  else 0

/-! ## Tokens -/

inductive SweepToken
  | number (n : ℤ)
  | range (a b step : ℤ) (step_pos : 1 ≤ step)
  deriving DecidableEq

/-- The text of a token: the step is behind a slash, and a dash that is not the first character
parts the ends of a range. -/
def read_token (tok : List Char) : SweepToken :=
  let slash := split_at '/' tok
  let step := ((slash.2.map strtol0).getD 1)
  match slash.1 with
  | [] => .number (strtol0 [])
  | c :: rest =>
    match split_at '-' rest with
    | (_, none) => .number (strtol0 (c :: rest))
    | (before, some after) =>
      .range (strtol0 (c :: before)) (strtol0 after) (max 1 step) (le_max_left 1 step)

/-- The bin of one value of a range that starts at `a`. -/
def range_bin (a v : ℤ) : Option ℤ :=
  let ch := if 1000 ≤ a then freq_to_chan (UInt16.ofInt v) else int_of_long v
  if 0 < ch then some ch else none

/-- The loop of a range from `v` on. It has no meaning where `v += step` overflows. -/
def range_bins (a b step : ℤ) (h : 1 ≤ step) (v : ℤ) : Option (List ℤ) :=
  if v ≤ b then
    if v + step ≤ LONG_MAX then
      (range_bins a b step h (v + step)).map ((range_bin a v).toList ++ ·)
    else none
  else some []
termination_by (b + 1 - v).toNat
decreasing_by omega

def SweepToken.bins : SweepToken → Option (List ℤ)
  | number n => some (if 0 < int_of_long n then [int_of_long n] else [])
  | range a b step h =>
    if a ≤ 0 ∨ b < a then some []
    else if 1000 ≤ a ∧ step < 5 then range_bins a b 5 (by decide) a
    else range_bins a b step h a

/-! ## Specs -/

/-- The texts between the commas. An empty one is skipped. -/
def sweep_tokens (spec : List Char) : List SweepToken :=
  ((spec.splitOn ',').filter (· ≠ [])).map read_token

/-- The bins of the tokens, one after another. -/
def bins_of : List SweepToken → Option (List ℤ)
  | [] => some []
  | t :: ts => do
    let out ← t.bins
    let rest ← bins_of ts
    some (out ++ rest)

def parse_sweep_spec (spec : List Char) : Option (List ℤ) := bins_of (sweep_tokens spec)

/-! ## What the grammar says -/

/-- The step of a range as the loop takes it: frequencies go by the grid of 5 MHz. -/
def bin_step (a step : ℤ) : ℤ := if 1000 ≤ a ∧ step < 5 then 5 else step

/-- The bin of a frequency lies less than 5 MHz from it, and a range of channels is all of its
values that are channels. -/
def SweepToken.Meant (t : SweepToken) : Prop :=
  match t with
  | number _ => True
  | range a b step _ =>
    (1000 ≤ a → t.bins = some ((values a b (bin_step a step)).filterMap (range_bin a)) ∧
        ∀ v ∈ values a b (bin_step a step), ∀ ch, range_bin a v = some ch →
          |((chan_to_freq ch).toNat : ℤ) - v| < 5) ∧
      (a < 1000 → t.bins = some ((values a b step).filter fun v => 1 ≤ v ∧ v ≤ 253))

/-- The parser ends with channels that there are, and each range has its meaning. -/
structure SweepSound (spec : List Char) : Prop where
  channels : ∃ out, parse_sweep_spec spec = some out ∧ ∀ ch ∈ out, 1 ≤ ch ∧ ch ≤ 253
  meant : ∀ t ∈ sweep_tokens spec, t.Meant

/-- The frequencies that `freq_to_chan` has a channel for. -/
def Driven (f : ℤ) : Prop := f = 2484 ∨ (2412 ≤ f ∧ f ≤ 2472) ∨ (5005 ≤ f ∧ f ≤ 6265)

/-- A number is at most 253 as an `int`. A range from 0 or below has no value that is a channel. One
from above 0 ends before the last `long`, and each of its values that comes out as a channel is that
channel: no frequency of 5005..5074 MHz, none that is in the bands by its low 16 bits only, and no
number above 253. -/
def SweepToken.Plain : SweepToken → Prop
  | number n => int_of_long n ≤ 253
  | range a b step _ =>
    (a ≤ 0 → ∀ v ∈ values a b step, ¬ (1 ≤ v ∧ v ≤ 253)) ∧
      (0 < a → a ≤ b →
        (∀ v ∈ values a b (bin_step a step), v + bin_step a step ≤ LONG_MAX) ∧
          (1000 ≤ a → ∀ v ∈ values a b (bin_step a step), Driven (v % 65536) →
            v < 65536 ∧ ¬ (5005 ≤ v ∧ v ≤ 5074)) ∧
          (a < 1000 → ∀ v ∈ values a b step, 253 < v → int_of_long v ≤ 0))

/-! ## One value -/

theorem int_of_long_eq {v : ℤ} (h : -2147483648 ≤ v) (h' : v < 2147483648) : int_of_long v = v := by
  rw [int_of_long, Int32.toInt_ofInt]
  apply Int.bmod_eq_of_le
  · show -(2147483648 : ℤ) ≤ v
    omega
  · show v < (2147483648 : ℤ)
    omega

theorem freq_to_chan_pos {f : UInt16} : 0 < freq_to_chan f ↔ Driven (f.toNat : ℤ) := by
  unfold freq_to_chan Driven
  dsimp only
  split
  · omega
  · split
    · omega
    · split <;> omega

/-- The channel of a frequency is one that there is, and its center says where the frequency is,
but for the ones below 5075 MHz. -/
theorem freq_to_chan_near {f : UInt16} (h : 0 < freq_to_chan f) :
    freq_to_chan f ≤ 253 ∧
      (|((chan_to_freq (freq_to_chan f)).toNat : ℤ) - f.toNat| < 5 ↔
        ¬ (5005 ≤ f.toNat ∧ f.toNat ≤ 5074)) ∧
      (chan_to_freq (freq_to_chan f)).toNat ≤ 6265 := by
  have hdriven := freq_to_chan_pos.mp h
  generalize hch : freq_to_chan f = ch at h ⊢
  lift ch to ℕ using h.le
  unfold freq_to_chan at hch
  dsimp only at hch
  rcases hdriven with hf | hf | hf
  · rw [if_pos hf] at hch
    have h14 : ch = 14 := by omega
    have hcenter : (chan_to_freq (14 : ℕ)).toNat = 2484 := rfl
    rw [h14, hcenter, abs_lt]
    omega
  · rw [if_neg (by omega), if_pos hf] at hch
    have hcenter : (chan_to_freq ch).toNat = 2407 + 5 * ch := chanmig.chan_to_freq_2g (by omega)
    rw [hcenter, abs_lt]
    omega
  · rw [if_neg (by omega), if_neg (by omega), if_pos (by omega)] at hch
    rcases lt_trichotomy ch 14 with hlow | rfl | hhigh
    · have hcenter : (chan_to_freq ch).toNat = 2407 + 5 * ch := chanmig.chan_to_freq_2g (by omega)
      rw [hcenter, abs_lt]
      omega
    · have hcenter : (chan_to_freq (14 : ℕ)).toNat = 2484 := rfl
      rw [hcenter, abs_lt]
      omega
    · have hcenter : (chan_to_freq ch).toNat = 5000 + 5 * ch :=
        chanmig.chan_to_freq_5g hhigh (by omega)
      rw [hcenter, abs_lt]
      omega

/-! ## One range -/

/-- The loop gives the bins of the values in order, unless it runs over the last `long`. -/
theorem range_bins_eq (a b step : ℤ) (h : 1 ≤ step) (v : ℤ) :
    range_bins a b step h v =
      if ∀ w ∈ values v b step, w + step ≤ LONG_MAX then
        some ((values v b step).filterMap (range_bin a))
      else none := by
  fun_induction range_bins a b step h v with
  | case1 v hle hin ih =>
    have hall : (∀ w ∈ values v b step, w + step ≤ LONG_MAX) ↔
        ∀ w ∈ values (v + step) b step, w + step ≤ LONG_MAX := by
      simp [values_cons h hle, hin]
    simp only [hall, ih]
    split
    · rw [values_cons h hle, Option.map_some]
      cases hbin : range_bin a v with
      | none => simp [List.filterMap_cons_none hbin]
      | some ch => simp [List.filterMap_cons_some hbin]
    · rfl
  | case2 v hle hout =>
    have hnot : ¬ ∀ w ∈ values v b step, w + step ≤ LONG_MAX := by
      simp [values_cons h hle, hout]
    rw [if_neg hnot]
  | case3 v hgt => simp [values_nil h (by omega : b < v)]

variable {a b step : ℤ}

theorem one_le_bin_step (h : 1 ≤ step) : 1 ≤ bin_step a step := by
  unfold bin_step
  split <;> omega

/-- A range that is not dropped goes through the loop with the step of its kind. -/
theorem bins_of_range (h : 1 ≤ step) (ha : 0 < a) (hb : a ≤ b) :
    (SweepToken.range a b step h).bins =
      if ∀ v ∈ values a b (bin_step a step), v + bin_step a step ≤ LONG_MAX then
        some ((values a b (bin_step a step)).filterMap (range_bin a))
      else none := by
  rw [SweepToken.bins, if_neg (by omega)]
  by_cases hfine : 1000 ≤ a ∧ step < 5
  · have hstep : bin_step a step = 5 := if_pos hfine
    rw [if_pos hfine, range_bins_eq, hstep]
  · have hstep : bin_step a step = step := if_neg hfine
    rw [if_neg hfine, range_bins_eq, hstep]

theorem bins_of_dropped (h : 1 ≤ step) (hdrop : a ≤ 0 ∨ b < a) :
    (SweepToken.range a b step h).bins = some [] := if_pos hdrop

/-- The bin of a frequency. -/
theorem range_bin_freq (ha : 1000 ≤ a) {v ch : ℤ} :
    range_bin a v = some ch ↔ Driven (v % 65536) ∧ freq_to_chan (UInt16.ofInt v) = ch := by
  have hpos := freq_to_chan_pos (f := UInt16.ofInt v)
  rw [chanmig.toNat_ofInt16, Int.toNat_of_nonneg (Int.emod_nonneg v (by decide))] at hpos
  rw [range_bin, if_pos ha, ← hpos]
  split
  · next h => simp [h]
  · next h => simp [h]

/-- A frequency range keeps to its values exactly where no value comes out as another band. -/
theorem freq_range_near (ha : 1000 ≤ a) {v : ℤ} (hv : 1000 ≤ v) :
    (∀ ch, range_bin a v = some ch → |((chan_to_freq ch).toNat : ℤ) - v| < 5) ↔
      (Driven (v % 65536) → v < 65536 ∧ ¬ (5005 ≤ v ∧ v ≤ 5074)) := by
  have hnat : ((UInt16.ofInt v).toNat : ℤ) = v % 65536 := by
    rw [chanmig.toNat_ofInt16]
    exact Int.toNat_of_nonneg (Int.emod_nonneg v (by decide))
  by_cases hdriven : Driven (v % 65536)
  case neg => simp [range_bin_freq ha, hdriven]
  simp only [range_bin_freq ha, hdriven, true_and, forall_eq', true_imp_iff]
  have hpos : 0 < freq_to_chan (UInt16.ofInt v) := by
    rw [freq_to_chan_pos, hnat]
    exact hdriven
  obtain ⟨-, hnear, htop⟩ := freq_to_chan_near hpos
  by_cases hlow : v < 65536
  · have hsame : (UInt16.ofInt v).toNat = v := by omega
    have hband : (5005 ≤ (UInt16.ofInt v).toNat ∧ (UInt16.ofInt v).toNat ≤ 5074) ↔
        5005 ≤ v ∧ v ≤ 5074 := by omega
    rw [hsame, hband] at hnear
    rw [hnear]
    exact (and_iff_right hlow).symm
  · refine iff_of_false ?_ fun h => hlow h.1
    rw [abs_lt]
    omega

/-- The bin of a channel. -/
theorem range_bin_chan (ha : a < 1000) {v : ℤ} (hv : 1 ≤ v) :
    range_bin a v = Option.guard (fun v => decide (1 ≤ v ∧ v ≤ 253)) v ↔
      (253 < v → int_of_long v ≤ 0) := by
  have hchan : ¬ 1000 ≤ a := by omega
  rw [range_bin, if_neg hchan]
  by_cases hin : v ≤ 253
  · have hsame : int_of_long v = v := int_of_long_eq (by omega) (by omega)
    simp [Option.guard, hsame, hin, hv, show 0 < v by omega]
  · have hbig : 253 < v := by omega
    by_cases hpos : 0 < int_of_long v
    · simp [Option.guard, hin, hpos, hbig]
    · simp [Option.guard, hin, hpos, show int_of_long v ≤ 0 by omega]

/-! ## One token -/

/-- The token comes out as channels, and a range has its meaning. -/
def SweepToken.Sound (t : SweepToken) : Prop :=
  (∃ out, t.bins = some out ∧ ∀ ch ∈ out, 1 ≤ ch ∧ ch ≤ 253) ∧ t.Meant

theorem sound_number_iff (n : ℤ) : (SweepToken.number n).Sound ↔ (SweepToken.number n).Plain := by
  rw [SweepToken.Sound, SweepToken.Plain, SweepToken.bins, SweepToken.Meant, and_true]
  by_cases hpos : 0 < int_of_long n
  · simp [hpos]
    omega
  · simp [hpos]
    omega

/-- A range whose last value is below its first gives nothing, as it should. -/
theorem sound_empty_range (h : 1 ≤ step) (hb : b < a) :
    (SweepToken.range a b step h).Sound ∧ (SweepToken.range a b step h).Plain := by
  have hbins := bins_of_dropped h (Or.inr hb : a ≤ 0 ∨ b < a)
  have hnil : values a b step = [] := values_nil h hb
  have hnil' : values a b (bin_step a step) = [] := values_nil (one_le_bin_step h) hb
  refine ⟨⟨⟨[], hbins, by simp⟩, ?_, ?_⟩, ?_, ?_⟩
  · intro ha
    simp [hbins, hnil']
  · intro ha
    simp [hbins, hnil]
  · intro ha
    simp [hnil]
  · intro ha hle
    omega

/-- A range from 0 or below gives nothing, whatever channels are among its values. -/
theorem sound_low_iff (h : 1 ≤ step) (ha : a ≤ 0) :
    (SweepToken.range a b step h).Sound ↔ (SweepToken.range a b step h).Plain := by
  have hbins := bins_of_dropped h (Or.inl ha : a ≤ 0 ∨ b < a)
  have hchan : a < 1000 := by omega
  rw [SweepToken.Sound, SweepToken.Meant, SweepToken.Plain, hbins]
  simp only [ha, hchan, hchan.not_ge, ha.not_gt, true_imp_iff, false_imp_iff, and_true, true_and]
  constructor
  · rintro ⟨-, hmeant⟩ v hv hin
    have hnil := Option.some.inj hmeant
    have hmem : v ∈ (values a b step).filter fun v => 1 ≤ v ∧ v ≤ 253 :=
      List.mem_filter.mpr ⟨hv, decide_eq_true hin⟩
    rw [← hnil] at hmem
    cases hmem
  · intro hnone
    refine ⟨⟨[], rfl, by simp⟩, congrArg some (Eq.symm ?_)⟩
    rw [List.filter_eq_nil_iff]
    intro v hv
    simpa using hnone v hv

theorem sound_freq_iff (h : 1 ≤ step) (ha : 1000 ≤ a) (hb : a ≤ b) :
    (SweepToken.range a b step h).Sound ↔ (SweepToken.range a b step h).Plain := by
  have hbins := bins_of_range h (by omega : 0 < a) hb
  have hvalue : ∀ v ∈ values a b (bin_step a step), 1000 ≤ v := by
    intro v hv
    have hle := le_of_mem_values (one_le_bin_step h) hv
    omega
  have hchan : ¬ a < 1000 := by omega
  have hpos : 0 < a := by omega
  rw [SweepToken.Sound, SweepToken.Meant, SweepToken.Plain, hbins]
  simp only [ha, hb, hpos, hpos.not_ge, hchan, true_imp_iff, false_imp_iff, and_true, true_and]
  constructor
  · rintro ⟨-, hmeant, hnear⟩
    refine ⟨?_, fun v hv => (freq_range_near ha (hvalue v hv)).mp (hnear v hv)⟩
    by_contra hover
    rw [if_neg hover] at hmeant
    cases hmeant
  · rintro ⟨hin, hplain⟩
    rw [if_pos hin]
    refine ⟨⟨_, rfl, ?_⟩, rfl, fun v hv => (freq_range_near ha (hvalue v hv)).mpr (hplain v hv)⟩
    intro ch hch
    obtain ⟨v, -, hbin⟩ := List.mem_filterMap.mp hch
    obtain ⟨hdriven, hfreq⟩ := (range_bin_freq ha).mp hbin
    have hdriven' : 0 < freq_to_chan (UInt16.ofInt v) := by
      rw [freq_to_chan_pos, chanmig.toNat_ofInt16,
        Int.toNat_of_nonneg (Int.emod_nonneg v (by decide))]
      exact hdriven
    have hle := (freq_to_chan_near hdriven').1
    omega

theorem sound_chan_iff (h : 1 ≤ step) (ha : 0 < a) (ha' : a < 1000) (hb : a ≤ b) :
    (SweepToken.range a b step h).Sound ↔ (SweepToken.range a b step h).Plain := by
  have hfreq : ¬ 1000 ≤ a := by omega
  have hstep : bin_step a step = step := if_neg fun hfine => hfreq hfine.1
  have hbins := bins_of_range h ha hb
  rw [hstep] at hbins
  have hvalue : ∀ v ∈ values a b step, 1 ≤ v := by
    intro v hv
    have hle := le_of_mem_values h hv
    omega
  rw [SweepToken.Sound, SweepToken.Meant, SweepToken.Plain, hbins, hstep,
    ← List.filterMap_eq_filter]
  simp only [ha, ha', hb, hfreq, ha.not_ge, true_imp_iff, false_imp_iff, true_and]
  constructor
  · rintro ⟨-, hmeant⟩
    by_cases hin : ∀ v ∈ values a b step, v + step ≤ LONG_MAX
    · rw [if_pos hin] at hmeant
      refine ⟨hin, fun v hv => (range_bin_chan ha' (hvalue v hv)).mp ?_⟩
      apply eq_of_filterMap_eq _ (Option.some.inj hmeant) v hv
      intro w hw htaken
      apply (range_bin_chan ha' (hvalue w hw)).mpr
      intro hbig
      exact absurd (by simp [Option.guard, show ¬ w ≤ 253 by omega]) htaken
    · rw [if_neg hin] at hmeant
      cases hmeant
  · rintro ⟨hin, hplain⟩
    have hsame : (values a b step).filterMap (range_bin a) =
        (values a b step).filterMap (Option.guard fun v => decide (1 ≤ v ∧ v ≤ 253)) := by
      apply List.filterMap_congr
      intro v hv
      exact (range_bin_chan ha' (hvalue v hv)).mpr (hplain v hv)
    rw [if_pos hin, hsame]
    refine ⟨⟨_, rfl, ?_⟩, rfl⟩
    intro ch hch
    rw [List.filterMap_eq_filter] at hch
    simpa using (List.mem_filter.mp hch).2

theorem sound_token_iff (t : SweepToken) : t.Sound ↔ t.Plain := by
  cases t with
  | number n => exact sound_number_iff n
  | range a b step h =>
    rcases lt_or_ge b a with hb | hb
    · obtain ⟨hsound, hplain⟩ := sound_empty_range h hb
      exact iff_of_true hsound hplain
    · rcases le_or_gt a 0 with hlow | hpos
      · exact sound_low_iff h hlow
      · rcases le_or_gt 1000 a with hfreq | hchan
        · exact sound_freq_iff h hfreq hb
        · exact sound_chan_iff h hpos hchan hb

/-! ## The whole spec -/

theorem bins_of_channels (ts : List SweepToken) :
    (∃ out, bins_of ts = some out ∧ ∀ ch ∈ out, 1 ≤ ch ∧ ch ≤ 253) ↔
      ∀ t ∈ ts, ∃ out, t.bins = some out ∧ ∀ ch ∈ out, 1 ≤ ch ∧ ch ≤ 253 := by
  induction ts with
  | nil => simp [bins_of]
  | cons t ts ih =>
    rw [List.forall_mem_cons, ← ih, bins_of]
    constructor
    · rintro ⟨out, hout, hch⟩
      obtain ⟨first, hfirst, hout⟩ := Option.bind_eq_some_iff.mp hout
      obtain ⟨rest, hrest, hout⟩ := Option.bind_eq_some_iff.mp hout
      rw [← Option.some.inj hout] at hch
      exact ⟨⟨first, hfirst, fun ch h => hch ch (List.mem_append_left _ h)⟩,
        rest, hrest, fun ch h => hch ch (List.mem_append_right _ h)⟩
    · rintro ⟨⟨first, hfirst, hch⟩, rest, hrest, hch'⟩
      refine ⟨first ++ rest, by simp [hfirst, hrest], ?_⟩
      intro ch h
      rcases List.mem_append.mp h with h | h
      · exact hch ch h
      · exact hch' ch h

theorem sweep_sound_iff (spec : List Char) :
    SweepSound spec ↔ ∀ t ∈ sweep_tokens spec, t.Plain := by
  constructor
  · rintro ⟨hchannels, hmeant⟩ t ht
    exact (sound_token_iff t).mp ⟨(bins_of_channels _).mp hchannels t ht, hmeant t ht⟩
  · intro h
    have hsound : ∀ t ∈ sweep_tokens spec, t.Sound := fun t ht => (sound_token_iff t).mpr (h t ht)
    exact ⟨(bins_of_channels _).mpr fun t ht => (hsound t ht).1, fun t ht => (hsound t ht).2⟩

theorem bins_of_append (ts us : List SweepToken) :
    bins_of (ts ++ us) = (bins_of ts).bind fun out => (bins_of us).map (out ++ ·) := by
  induction ts with
  | nil => simp [bins_of]
  | cons t ts ih =>
    rw [List.cons_append, bins_of, bins_of, ih]
    cases t.bins <;> cases bins_of ts <;> cases bins_of us <;> simp

theorem sweep_tokens_join (s t : List Char) :
    sweep_tokens (s ++ ',' :: t) = sweep_tokens s ++ sweep_tokens t := by
  simp [sweep_tokens, List.splitOn_append_cons_self]

/-- The parser ends, with channels that there are and each range as the grammar says, exactly where
every token is plain. The bins of joined specs are those of the one and then those of the other. -/
theorem the_sweep_is_sound_iff (spec : List Char) :
    (SweepSound spec ∧ ∀ s t, spec = s ++ ',' :: t → parse_sweep_spec spec =
        (parse_sweep_spec s).bind fun out => (parse_sweep_spec t).map (out ++ ·)) ↔
      ∀ t ∈ sweep_tokens spec, t.Plain := by
  rw [sweep_sound_iff, and_iff_left]
  rintro s t rfl
  rw [parse_sweep_spec, sweep_tokens_join, bins_of_append]
  rfl

/-- A number above 253, a frequency of 5 GHz below its first channel, one that is on 2.4 GHz by its
low 16 bits, and a range from 0 whose other values are channels. -/
theorem bins_out_of_band :
    ¬ SweepSound "300".toList ∧ ¬ SweepSound "5005-5005".toList ∧
      ¬ SweepSound "67948-67948".toList ∧ ¬ SweepSound "0-5".toList := by
  refine ⟨fun h => ?_, fun h => ?_, fun h => ?_, fun h => ?_⟩
  · have htokens : sweep_tokens "300".toList = [.number 300] := by decide +kernel
    have hmem : SweepToken.number 300 ∈ sweep_tokens "300".toList := by
      rw [htokens]
      exact List.mem_singleton.mpr rfl
    have hplain : int_of_long 300 ≤ 253 := (sweep_sound_iff _).mp h _ hmem
    exact absurd hplain (by decide)
  · have htokens : sweep_tokens "5005-5005".toList = [.range 5005 5005 1 le_rfl] := by
      decide +kernel
    have hmem : SweepToken.range 5005 5005 1 le_rfl ∈ sweep_tokens "5005-5005".toList := by
      rw [htokens]
      exact List.mem_singleton.mpr rfl
    have hplain := ((sweep_sound_iff _).mp h _ hmem).2
    have hband :=
      (hplain (by decide) (by decide)).2.1 (by decide) 5005 (by decide) (by simp [Driven])
    exact hband.2 (by simp)
  · have htokens : sweep_tokens "67948-67948".toList = [.range 67948 67948 1 le_rfl] := by
      decide +kernel
    have hmem : SweepToken.range 67948 67948 1 le_rfl ∈ sweep_tokens "67948-67948".toList := by
      rw [htokens]
      exact List.mem_singleton.mpr rfl
    have hplain := ((sweep_sound_iff _).mp h _ hmem).2
    have hband :=
      (hplain (by decide) (by decide)).2.1 (by decide) 67948 (by decide) (by simp [Driven])
    exact absurd hband.1 (by simp)
  · have htokens : sweep_tokens "0-5".toList = [.range 0 5 1 le_rfl] := by decide +kernel
    have hmem : SweepToken.range 0 5 1 le_rfl ∈ sweep_tokens "0-5".toList := by
      rw [htokens]
      exact List.mem_singleton.mpr rfl
    have hplain := ((sweep_sound_iff _).mp h _ hmem).1 (by decide)
    exact hplain 1 (by decide) (by decide)

end devourer
