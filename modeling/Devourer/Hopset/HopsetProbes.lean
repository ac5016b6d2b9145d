-- The probes of the channels that are left out. In each window of rounds one
-- slot is lent to a channel outside the mask: the round, the place and the
-- channel are drawn from one stream of words for the window.
import Devourer.Hopset.HopsetSchedule

namespace devourer.hopset

open HopSchedule (Returns draw limit)

/-- `struct SlotInfo`. -/
structure SlotInfo where
  base_index : ℕ
  is_probe : Bool
  deriving DecidableEq

namespace AdaptiveScheduleView

/-- The tag `P`, the generation, the mask, the window and the counter. -/
def probe_word (v : AdaptiveScheduleView) (window counter : UInt64) : UInt64 :=
  HopSchedule.siphash24 v.keys_.sched
    (0x50 :: (Wire.putLe 4 v.st_.generation.toBitVec ++ Wire.putLe 8 v.st_.active_mask.toBitVec ++
      Wire.putLe 8 window.toBitVec ++ Wire.putLe 8 counter.toBitVec))

/-- The draw of a window, which moves the counter on. -/
def probe_draw (probe_word : UInt64 → UInt64 → UInt64) (window counter bound : UInt64) :
    Option (UInt64 × UInt64) :=
  draw (probe_word window) bound counter

/-- The channels that are left out. -/
def excluded (v : AdaptiveScheduleView) : UInt64 := full_mask v.n_ &&& ~~~v.st_.active_mask

/-- A slot that is not lent. -/
def plain (word : UInt64 → UInt64 → UInt64) (v : AdaptiveScheduleView) (slot : UInt64) :
    Returns SlotInfo := do
  let base_index ← channel_index_by word v slot
  return { base_index, is_probe := false }

/-- `slot_info`, by any words; the code asks `v.probe_word` and `v.word`. -/
def slot_info_by (probe_word word : UInt64 → UInt64 → UInt64) (v : AdaptiveScheduleView)
    (slot : UInt64) : Returns SlotInfo :=
  if v.probe_period_ = 0 ∨ v.st_.generation = 0 then v.plain word slot
  else
    let x := (popcount64 v.excluded).toUInt64
    if x = 0 then v.plain word slot
    else
      let k := (popcount64 v.st_.active_mask).toUInt64
      -- a division by zero, from which nothing comes back
      if k = 0 then ExceptT.mk none
      else
        let period := v.probe_period_.toUInt64
        let rel := slot - v.st_.activate_slot
        let round := rel / k
        let pos := rel % k
        let window := round / period
        do
          let (probe_round, counter) ← (probe_draw probe_word window 0 period : Option _)
          if round % period ≠ probe_round then v.plain word slot
          else
            let (probe_pos, counter) ← (probe_draw probe_word window counter k : Option _)
            if pos ≠ probe_pos then v.plain word slot
            else
              let (pick, _) ← (probe_draw probe_word window counter x : Option _)
              let base_index ← ExceptT.mk (some (nth_set_bit v.excluded pick.toNat))
              return { base_index, is_probe := true }

def slot_info (v : AdaptiveScheduleView) (slot : UInt64) : Returns SlotInfo :=
  slot_info_by v.probe_word v.word v slot

/-! ## The draws of a window -/

/-- A draw is below its bound. -/
theorem draw_lt {word : UInt64 → UInt64} {bound counter r c : UInt64}
    (h : draw word bound counter = some (r, c)) (hb : bound ≠ 0) : r < bound := by
  unfold draw at h
  rw [Option.map_eq_some_iff] at h
  obtain ⟨⟨u, c'⟩, -, heq⟩ := h
  obtain ⟨rfl, -⟩ := Prod.mk.inj heq
  exact UInt64.mod_lt _ (UInt64.pos_iff_ne_zero.mpr hb)

/-- The slot of a window that is lent, and the channel that it is lent to. -/
structure Drawn (probe_word : UInt64 → UInt64 → UInt64) (v : AdaptiveScheduleView)
    (window : UInt64) where
  round : UInt64
  pos : UInt64
  pick : UInt64
  counter₁ : UInt64
  counter₂ : UInt64
  counter₃ : UInt64
  draws_round :
    probe_draw probe_word window 0 v.probe_period_.toUInt64 = some (round, counter₁)
  draws_pos : probe_draw probe_word window counter₁ (popcount64 v.st_.active_mask).toUInt64 =
    some (pos, counter₂)
  draws_pick : probe_draw probe_word window counter₂ (popcount64 v.excluded).toUInt64 =
    some (pick, counter₃)

variable {probe_word word : UInt64 → UInt64 → UInt64} {v : AdaptiveScheduleView}

/-- With a period, a later generation, and a channel left out. -/
structure Probing (v : AdaptiveScheduleView) : Prop where
  period : v.probe_period_ ≠ 0
  generation : v.st_.generation ≠ 0
  left_out : v.excluded ≠ 0
  active : v.st_.active_mask ≠ 0

theorem popcount64_ne_zero {m : UInt64} (h : m ≠ 0) : (popcount64 m).toUInt64 ≠ 0 := by
  intro h0
  have hto := congrArg UInt64.toNat h0
  rw [popcount64_wide, popcount64_eq] at hto
  rw [← UInt64.toNat_inj.ne] at h
  exact absurd (Bits.count_and_pred (v := m.toNat) h) (by rw [hto]; simp)

/-- A probe is not a plain slot. -/
theorem plain_ne_probe (slot : UInt64) (i : ℕ) :
    v.plain word slot ≠ pure { base_index := i, is_probe := true } := by
  unfold plain
  intro h
  generalize channel_index_by word v slot = found at h
  rcases found with _ | _ | j
  · cases h
  · cases h
  · cases h

/-- A draw that ends hands its word on. -/
theorem lift_bind {α β : Type} (a : α) (f : α → Returns β) :
    (liftM (some a) : Returns α) >>= f = f a := rfl

/-- A slot of a window with its draws: the one that is drawn is a probe, any other is plain. -/
theorem slot_info_drawn (h : Probing v) {slot round pos window : UInt64}
    (hround : (slot - v.st_.activate_slot) / (popcount64 v.st_.active_mask).toUInt64 = round)
    (hpos : (slot - v.st_.activate_slot) % (popcount64 v.st_.active_mask).toUInt64 = pos)
    (hwindow : round / v.probe_period_.toUInt64 = window) (d : Drawn probe_word v window) :
    slot_info_by probe_word word v slot =
      if round % v.probe_period_.toUInt64 = d.round ∧ pos = d.pos then do
        let base_index ← ExceptT.mk (some (nth_set_bit v.excluded d.pick.toNat))
        return { base_index, is_probe := true }
      else v.plain word slot := by
  unfold slot_info_by
  rw [if_neg (not_or.mpr ⟨h.period, h.generation⟩)]
  simp only [if_neg (popcount64_ne_zero h.left_out), if_neg (popcount64_ne_zero h.active), hround,
    hpos, hwindow, d.draws_round, d.draws_pos, d.draws_pick, lift_bind]
  by_cases hr : round % v.probe_period_.toUInt64 = d.round
  · rw [if_neg (not_not.mpr hr)]
    by_cases hp : pos = d.pos
    · rw [if_neg (not_not.mpr hp), if_pos ⟨hr, hp⟩]
    · rw [if_pos hp, if_neg fun hc => hp hc.2]
  · rw [if_pos hr, if_neg fun hc => hr hc.1]

/-! ## Windows -/

/-- The window, the round in it and the place of its slot `j`. -/
theorem window_split {period k w j : ℕ} (hj : j < period * k) :
    (w * (period * k) + j) / k / period = w ∧ (w * (period * k) + j) / k % period = j / k ∧
      (w * (period * k) + j) % k = j % k := by
  have hk : 0 < k := Nat.pos_of_ne_zero fun h => by simp [h] at hj
  have hround : j / k < period := (Nat.div_lt_iff_lt_mul hk).mpr hj
  have hsplit : w * (period * k) + j = k * (period * w) + j := by ring
  have hdiv : (w * (period * k) + j) / k = period * w + j / k := by
    rw [hsplit, Nat.mul_add_div hk]
  refine ⟨?_, ?_, ?_⟩
  · rw [hdiv, Nat.mul_add_div (Nat.zero_lt_of_lt hround), Nat.div_eq_of_lt hround, Nat.add_zero]
  · rw [hdiv, Nat.mul_add_mod, Nat.mod_eq_of_lt hround]
  · rw [hsplit, Nat.mul_add_mod]

/-- Slot `j` of window `w`, counted from the activation. -/
def window_slot (v : AdaptiveScheduleView) (w j : ℕ) : UInt64 :=
  UInt64.ofNat (v.st_.activate_slot.toNat +
    (w * (v.probe_period_.toNat * (popcount64 v.st_.active_mask).toNat) + j))

/-- The place in its window that is lent. -/
def Drawn.place {v : AdaptiveScheduleView} {window : UInt64} (d : Drawn probe_word v window) : ℕ :=
  d.round.toNat * (popcount64 v.st_.active_mask).toNat + d.pos.toNat

/-- The slot that is drawn is a probe, any other slot of the window is plain. -/
theorem slot_info_window (h : Probing v) {w j : ℕ}
    (hj : j < v.probe_period_.toNat * (popcount64 v.st_.active_mask).toNat)
    (hw : (w + 1) * (v.probe_period_.toNat * (popcount64 v.st_.active_mask).toNat) ≤ 2 ^ 64)
    (d : Drawn probe_word v (UInt64.ofNat w)) :
    slot_info_by probe_word word v (v.window_slot w j) =
      if j = d.place then do
        let base_index ← ExceptT.mk (some (nth_set_bit v.excluded d.pick.toNat))
        return { base_index, is_probe := true }
      else v.plain word (v.window_slot w j) := by
  have hkk := popcount64_wide v.st_.active_mask
  have hpp : v.probe_period_.toUInt64.toNat = v.probe_period_.toNat := UInt32.toNat_toUInt64 _
  have hposlt := UInt64.lt_iff_toNat_lt.mp (draw_lt d.draws_pos (popcount64_ne_zero h.active))
  rw [hkk] at hposlt
  obtain ⟨hwin, hround, hpos⟩ := window_split (w := w) hj
  unfold Drawn.place
  set k := (popcount64 v.st_.active_mask).toNat with hk
  set period := v.probe_period_.toNat with hperiod
  have hlt : w * (period * k) + j < 2 ^ 64 := by
    rw [Nat.add_mul, Nat.one_mul] at hw
    omega
  have hrel : v.window_slot w j - v.st_.activate_slot = UInt64.ofNat (w * (period * k) + j) :=
    sub_activate _ _
  have hto : (UInt64.ofNat (w * (period * k) + j)).toNat = w * (period * k) + j :=
    UInt64.toNat_ofNat_of_lt' hlt
  have hwlt : w < 2 ^ 64 := by
    have hpos : 0 < period * k := by omega
    have := Nat.le_mul_of_pos_right w hpos
    omega
  have hwindow : UInt64.ofNat (w * (period * k) + j) / (popcount64 v.st_.active_mask).toUInt64 /
      v.probe_period_.toUInt64 = UInt64.ofNat w := by
    rw [← UInt64.toNat_inj, UInt64.toNat_div, UInt64.toNat_div, hto, hkk, hpp, hwin,
      UInt64.toNat_ofNat_of_lt' hwlt]
  rw [slot_info_drawn h (by rw [hrel]) (by rw [hrel]) hwindow d]
  have hplace : UInt64.ofNat (w * (period * k) + j) / (popcount64 v.st_.active_mask).toUInt64 %
        v.probe_period_.toUInt64 = d.round ∧
      UInt64.ofNat (w * (period * k) + j) % (popcount64 v.st_.active_mask).toUInt64 = d.pos ↔
      j = d.round.toNat * k + d.pos.toNat := by
    rw [← UInt64.toNat_inj, ← UInt64.toNat_inj, UInt64.toNat_mod, UInt64.toNat_div,
      UInt64.toNat_mod, hto, hkk, hpp, hround, hpos]
    constructor
    · rintro ⟨hr, hp⟩
      rw [← hr, ← hp, Nat.mul_comm, Nat.div_add_mod]
    · intro heq
      have hkpos : 0 < k := by omega
      subst heq
      constructor
      · rw [Nat.mul_comm, Nat.mul_add_div hkpos, Nat.div_eq_of_lt hposlt, Nat.add_zero]
      · rw [Nat.mul_comm, Nat.mul_add_mod, Nat.mod_eq_of_lt hposlt]
  simp only [hplace]

theorem Drawn.place_lt (h : Probing v) {window : UInt64} (d : Drawn probe_word v window) :
    d.place < v.probe_period_.toNat * (popcount64 v.st_.active_mask).toNat := by
  have hpp : v.probe_period_.toUInt64.toNat = v.probe_period_.toNat := UInt32.toNat_toUInt64 _
  have hperiod : v.probe_period_.toUInt64 ≠ 0 := by
    intro h0
    rw [h0] at hpp
    exact h.period (UInt32.toNat_inj.mp hpp.symm)
  have hround := UInt64.lt_iff_toNat_lt.mp (draw_lt d.draws_round hperiod)
  have hpos := UInt64.lt_iff_toNat_lt.mp (draw_lt d.draws_pos (popcount64_ne_zero h.active))
  rw [hpp] at hround
  rw [popcount64_wide] at hpos
  unfold Drawn.place
  calc d.round.toNat * (popcount64 v.st_.active_mask).toNat + d.pos.toNat
      < (d.round.toNat + 1) * (popcount64 v.st_.active_mask).toNat := by
        rw [Nat.add_mul, Nat.one_mul]
        omega
    _ ≤ _ := Nat.mul_le_mul_right _ hround

/-- The channel that a probe goes to is one that is left out. -/
theorem Drawn.channel (h : Probing v) {window : UInt64} (d : Drawn probe_word v window) :
    ∃ i, nth_set_bit v.excluded d.pick.toNat = .ok i ∧ v.excluded.toNat.testBit i := by
  have hpick := UInt64.lt_iff_toNat_lt.mp (draw_lt d.draws_pick (popcount64_ne_zero h.left_out))
  rw [popcount64_wide, popcount64_eq, ← Bits.length_positions v.excluded.toNat_lt] at hpick
  refine ⟨_, nth_set_bit_eq hpick, ?_⟩
  exact (Bits.mem_positions v.excluded.toNat_lt).mp (List.getElem_mem hpick)

/-- A slot is a probe of a channel. -/
def Probes (probe_word word : UInt64 → UInt64 → UInt64) (v : AdaptiveScheduleView) (slot : UInt64)
    (i : ℕ) : Prop :=
  slot_info_by probe_word word v slot = pure { base_index := i, is_probe := true }

/-- Each window of a later generation with channels left out lends one slot: it is a probe of a
channel that is left out, and every other slot of the window is plain. Without a period, with the
full mask or in generation 0 every slot is plain. -/
theorem each_window_lends_one_slot (probe_word word : UInt64 → UInt64 → UInt64)
    (v : AdaptiveScheduleView) :
    (∀ w : ℕ, v.st_.generation ≥ 1 → v.probe_period_ ≥ 1 → 1 ≤ popcount64 v.st_.active_mask →
      v.excluded ≠ 0 →
      (w + 1) * (v.probe_period_.toNat * (popcount64 v.st_.active_mask).toNat) ≤ 2 ^ 64 →
      Nonempty (Drawn probe_word v (UInt64.ofNat w)) →
      ∃ j < v.probe_period_.toNat * (popcount64 v.st_.active_mask).toNat,
        (∃ i, Probes probe_word word v (v.window_slot w j) i ∧ v.excluded.toNat.testBit i) ∧
        ∀ j' < v.probe_period_.toNat * (popcount64 v.st_.active_mask).toNat, j' ≠ j →
          slot_info_by probe_word word v (v.window_slot w j') = v.plain word (v.window_slot w j') ∧
          ∀ i, ¬ Probes probe_word word v (v.window_slot w j') i) ∧
    (v.probe_period_ = 0 ∨ v.excluded = 0 ∨ v.st_.generation = 0 → ∀ slot,
      slot_info_by probe_word word v slot = v.plain word slot ∧
      ∀ i, ¬ Probes probe_word word v slot i) := by
  constructor
  · intro w hgen hperiod hk hx hfit ⟨d⟩
    have h : Probing v := by
      refine ⟨?_, ?_, hx, ?_⟩
      · intro h0
        exact absurd (h0 ▸ hperiod) (by decide)
      · intro h0
        exact absurd (h0 ▸ hgen) (by decide)
      · intro h0
        rw [h0, popcount64_zero] at hk
        exact absurd hk (by decide)
    obtain ⟨i, hi, hleft⟩ := d.channel h
    refine ⟨d.place, d.place_lt h, ⟨i, ?_, hleft⟩, ?_⟩
    · unfold Probes
      rw [slot_info_window h (d.place_lt h) hfit d, if_pos rfl, hi]
      rfl
    · intro j' hj' hne
      have hplain : slot_info_by probe_word word v (v.window_slot w j') = v.plain word _ :=
        (slot_info_window h hj' hfit d).trans (if_neg hne)
      refine ⟨hplain, ?_⟩
      intro i hprobe
      exact plain_ne_probe _ i (hplain.symm.trans hprobe)
  · intro hinert slot
    have hplain : slot_info_by probe_word word v slot = v.plain word slot := by
      unfold slot_info_by
      by_cases hfirst : v.probe_period_ = 0 ∨ v.st_.generation = 0
      · rw [if_pos hfirst]
      · have hx : v.excluded = 0 := by
          rcases hinert with h | h | h
          · exact absurd (.inl h) hfirst
          · exact h
          · exact absurd (.inr h) hfirst
        rw [if_neg hfirst]
        dsimp only
        rw [hx, popcount64_zero]
        exact if_pos rfl
    refine ⟨hplain, ?_⟩
    intro i hprobe
    exact plain_ne_probe _ i (hplain.symm.trans hprobe)

/-- Three of five channels in play, with a probe in every four rounds. -/
def demoProbed : AdaptiveScheduleView := demoView.set_probe_period 4

/-- The draws of window 1, under the words of a real key. -/
def demoDrawn : Drawn demoProbed.probe_word demoProbed (UInt64.ofNat 1) where
  round := 0
  pos := 2
  pick := 0
  counter₁ := 1
  counter₂ := 2
  counter₃ := 3
  draws_round := by decide +kernel
  draws_pos := by decide +kernel
  draws_pick := by decide +kernel

theorem a_window_of_twelve :
    ∃ j < 12, (∃ i, Probes demoProbed.probe_word demoProbed.word demoProbed
        (demoProbed.window_slot 1 j) i ∧ demoProbed.excluded.toNat.testBit i) ∧
      ∀ j' < 12, j' ≠ j →
        demoProbed.slot_info (demoProbed.window_slot 1 j') =
          demoProbed.plain demoProbed.word (demoProbed.window_slot 1 j') := by
  have hsize : demoProbed.probe_period_.toNat *
      (popcount64 demoProbed.st_.active_mask).toNat = 12 := by decide +kernel
  have h := (each_window_lends_one_slot demoProbed.probe_word demoProbed.word demoProbed).1 1
    (by decide) (by decide) (by decide +kernel) (by decide) (by rw [hsize]; decide) ⟨demoDrawn⟩
  rw [hsize] at h
  obtain ⟨j, hj, hprobe, hrest⟩ := h
  exact ⟨j, hj, hprobe, fun j' hj' hne => (hrest j' hj' hne).1⟩

end AdaptiveScheduleView

end devourer.hopset
