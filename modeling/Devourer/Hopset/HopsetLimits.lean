-- The limits of the authority over whole runs. Whatever is proposed, the
-- hopset keeps its floor, and it changes by small steps at long intervals.
import Devourer.Lib.Runs
import Devourer.Hopset.AuthorityMoves

namespace devourer.hopset

open HopsetAction HopsetAuthority

/-- The range of the parameters that a base and a floor make sense in. -/
structure HopsetParams.Sound (p : HopsetParams) : Prop where
  n_base_pos : 1 ≤ p.n_base
  n_base_le : p.n_base ≤ 64
  min_active_pos : 1 ≤ p.min_active
  min_active_le : p.min_active.toNat ≤ p.n_base.toNat

/-- A hopset within its bounds: it is part of the base, enough of the base is in play, and not
too much is left out. A round then has slots in it. -/
structure HopsetAuthority.Lawful (s : HopsetAuthority) : Prop where
  base : s.cur_.active_mask &&& ~~~(full_mask s.p_.n_base) = 0
  floor : s.p_.min_active ≤ popcount64 s.cur_.active_mask
  share : (popcount64 (full_mask s.p_.n_base &&& ~~~s.cur_.active_mask)).toNat * 100 ≤
    s.p_.max_excluded_frac_pct.toNat * s.p_.n_base.toNat
  rounds : s.active_count ≠ 0

/-- The authority, and what its calls have done: the slot of the last call, the slot of the call
that started the last commit and whether the limits on a change bound it, and the slot of the
last activation. -/
structure Ledger where
  authority : HopsetAuthority
  last : UInt64 := 0
  accepted : Option (Bool × UInt64) := none
  activated : Option UInt64 := none

namespace Ledger

def step (w : Ledger) (i : Op × UInt64) : Ledger :=
  let t := w.authority.feed i.1 i.2
  { authority := t.1
    last := i.2
    accepted := if !w.authority.committing_ && t.1.committing_ then some (i.1.limited, i.2)
      else w.accepted
    activated := if activations t.2 = [] then w.activated else some i.2 }

def run (w : Ledger) (is : List (Op × UInt64)) : Ledger := Runs.after step w is

/-- The slots do not go back. -/
def Onward (w : Ledger) (i : Op × UInt64) : Prop := w.last ≤ i.2

/-- A call either leaves the state in force, or puts the next generation in force. -/
def Counts (w : Ledger) (i : Op × UInt64) : Prop :=
  let t := w.authority.feed i.1 i.2
  (activations t.2 = [] ∧ t.1.cur_ = w.authority.cur_) ∨
    (activations t.2 = [t.1.cur_] ∧
      t.1.cur_.generation.toNat = w.authority.cur_.generation.toNat + 1)

/-- The limits on a change: how many channels it flips, and how many rounds of the generation in
force there are between the last activation and the call that asked for it. -/
structure Small (c : Core) (activated : Option UInt64) (mask t : UInt64) : Prop where
  delta : c.p.max_mask_delta ≠ 0 → popcount64 (mask ^^^ c.cur.active_mask) ≤ c.p.max_mask_delta
  gap : ∀ t0, activated = some t0 →
    (c.round_of t0).toNat + c.p.min_update_gap_rounds.toNat ≤ (c.round_of t).toNat

/-- A state that is put in force was asked for by a call, within the limits that bind it. -/
def Limits (w : Ledger) (i : Op × UInt64) : Prop :=
  ∀ st ∈ activations (w.authority.feed i.1 i.2).2, ∃ limited t, w.accepted = some (limited, t) ∧
    (limited = true → Small w.authority.core w.activated st.active_mask t)

/-! ## What a mask that passes the checks keeps -/

/-- The bounds of a mask. -/
structure Fits (p : HopsetParams) (mask : UInt64) : Prop where
  base : mask &&& ~~~(full_mask p.n_base) = 0
  floor : p.min_active ≤ popcount64 mask
  share : (popcount64 (full_mask p.n_base &&& ~~~mask)).toNat * 100 ≤
    p.max_excluded_frac_pct.toNat * p.n_base.toNat

theorem fits_full {p : HopsetParams} (hp : p.Sound) : Fits p (full_mask p.n_base) where
  base := by simp
  floor := by
    rw [UInt32.le_iff_toNat_le, popcount64_full hp.n_base_le]
    exact hp.min_active_le
  share := by
    have hnone : full_mask p.n_base &&& ~~~(full_mask p.n_base) = 0 := by simp
    rw [hnone, popcount64_zero]
    simp

/-- The share of the base that is left out, as the check computes it. -/
theorem excluded_share {p : HopsetParams} (hp : p.Sound) {mask : UInt64}
    (h : ¬ (p.max_excluded_frac_pct < 100 ∧
      (popcount64 (full_mask p.n_base &&& ~~~mask) * 100).toUInt64 >
        p.max_excluded_frac_pct.toUInt64 * p.n_base)) :
    (popcount64 (full_mask p.n_base &&& ~~~mask)).toNat * 100 ≤
      p.max_excluded_frac_pct.toNat * p.n_base.toNat := by
  have hn : p.n_base.toNat ≤ 64 := UInt64.le_iff_toNat_le.mp hp.n_base_le
  have hout : (popcount64 (full_mask p.n_base &&& ~~~mask)).toNat ≤ p.n_base.toNat :=
    popcount64_le_of_le hp.n_base_le (and_le_left _ _)
  by_cases hpct : p.max_excluded_frac_pct < 100
  · have hpct' : p.max_excluded_frac_pct.toNat < 100 := UInt32.lt_iff_toNat_lt.mp hpct
    have hle : (popcount64 (full_mask p.n_base &&& ~~~mask) * 100).toUInt64 ≤
        p.max_excluded_frac_pct.toUInt64 * p.n_base := UInt64.not_lt.mp fun hgt => h ⟨hpct, hgt⟩
    have hprod : p.max_excluded_frac_pct.toNat * p.n_base.toNat ≤ 99 * 64 :=
      Nat.mul_le_mul (by omega) hn
    rw [UInt64.le_iff_toNat_le, UInt32.toNat_toUInt64, UInt32.toNat_mul, UInt64.toNat_mul,
      UInt32.toNat_toUInt64] at hle
    have hhundred : UInt32.toNat 100 = 100 := rfl
    rw [hhundred, Nat.mod_eq_of_lt (by omega), Nat.mod_eq_of_lt (by omega)] at hle
    exact hle
  · have hpct' : 100 ≤ p.max_excluded_frac_pct.toNat :=
      UInt32.le_iff_toNat_le.mp (UInt32.not_lt.mp hpct)
    calc (popcount64 (full_mask p.n_base &&& ~~~mask)).toNat * 100
        ≤ p.n_base.toNat * p.max_excluded_frac_pct.toNat := Nat.mul_le_mul hout hpct'
      _ = p.max_excluded_frac_pct.toNat * p.n_base.toNat := Nat.mul_comm _ _

/-- What the checks on a mask let through. -/
theorem fits_of_mask_reason {s : HopsetAuthority} (hp : s.p_.Sound) {mask : UInt64}
    (h : s.mask_reason mask = .None) :
    Fits s.p_ mask ∧ s.cur_.generation + 1 < kGenCeiling := by
  obtain ⟨hgen, hbase, hfloor, hshare⟩ := mask_reason_none h
  exact ⟨⟨hbase, hfloor, excluded_share hp hshare⟩, hgen⟩

theorem rounds_of_fits {c : Core} (hp : c.p.Sound) (h : Fits c.p c.cur.active_mask) :
    c.active_count ≠ 0 := by
  unfold Core.active_count
  split
  · intro hzero
    have hpos := hp.n_base_pos
    rw [hzero] at hpos
    exact absurd hpos (by decide)
  · intro hzero
    have hnat := congrArg UInt64.toNat hzero
    rw [UInt32.toNat_toUInt64] at hnat
    have hfloor := UInt32.le_iff_toNat_le.mp (UInt32.le_trans hp.min_active_pos h.floor)
    have hone : UInt32.toNat 1 = 1 := rfl
    have hzero' : UInt64.toNat 0 = 0 := rfl
    omega

/-! ## The invariant -/

/-- The limits that the commit in the air has passed. -/
structure Pending (c : Core) (accepted : Option (Bool × UInt64)) (activated : Option UInt64) :
    Prop where
  fits : Fits c.p c.pend.active_mask
  generation : c.pend.generation = c.cur.generation + 1
  room : c.cur.generation + 1 < kGenCeiling
  asked : ∃ limited t, accepted = some (limited, t) ∧
    (limited = true → Small c activated c.pend.active_mask t)

/-- The hopset in force is within its bounds, and the authority's record of the last activation
is right. -/
structure Kept (c : Core) (last : UInt64) (accepted : Option (Bool × UInt64))
    (activated : Option UInt64) : Prop where
  sound : c.p.Sound
  fits : Fits c.p c.cur.active_mask
  below : c.cur.generation < kGenCeiling
  begun : c.cur.activate_slot ≤ last
  known : c.have_activation = activated.isSome
  recorded : ∀ t0, activated = some t0 →
    c.last_activation_round = c.round_of t0 ∧ c.cur.activate_slot ≤ t0 ∧ t0 ≤ last
  pending : c.committing = true → Pending c accepted activated

def Keeps (w : Ledger) : Prop := Kept w.authority.core w.last w.accepted w.activated

theorem lawful_of_keeps {w : Ledger} (h : Keeps w) : w.authority.Lawful :=
  ⟨h.fits.base, h.fits.floor, h.fits.share, rounds_of_fits h.sound h.fits⟩

/-- What the check on the interval lets through, in rounds that do not wrap. -/
theorem small_of_change_reason {s : HopsetAuthority} {last now mask : UInt64}
    {accepted : Option (Bool × UInt64)} {activated : Option UInt64}
    (h : Kept s.core last accepted activated) (hnow : last ≤ now)
    (hc : s.change_reason mask now = .None) : Small s.core activated mask now := by
  unfold change_reason at hc
  split at hc
  · cases hc
  · rename_i hdelta
    split at hc
    · cases hc
    · rename_i hgap
      constructor
      · intro hon
        exact UInt32.not_lt.mp fun hgt => hdelta ⟨hon, hgt⟩
      · intro t0 ht0
        obtain ⟨hround, hbegun, hlast⟩ := h.recorded t0 ht0
        have hmono := s.core.round_of_mono hbegun (UInt64.le_trans hlast hnow)
        by_cases hoff : s.p_.min_update_gap_rounds = 0
        · have hoff' : s.core.p.min_update_gap_rounds = 0 := hoff
          rw [hoff']
          exact hmono
        · have hhave : s.have_activation_ = true := by
            have hknown : s.have_activation_ = activated.isSome := h.known
            rw [hknown, ht0]
            rfl
          have hge : s.p_.min_update_gap_rounds ≤
              s.core.round_of now - s.core.last_activation_round :=
            UInt64.not_lt.mp fun hlt => hgap ⟨hoff, hhave, hlt⟩
          rw [hround, UInt64.le_iff_toNat_le,
            UInt64.toNat_sub_of_le _ _ (UInt64.le_iff_toNat_le.mpr hmono)] at hge
          have hgap' : s.core.p.min_update_gap_rounds.toNat =
              s.p_.min_update_gap_rounds.toNat := rfl
          omega

/-- The slot goes on and nothing else happens. -/
theorem Kept.later {c : Core} {last now : UInt64} {accepted : Option (Bool × UInt64)}
    {activated : Option UInt64} (h : Kept c last accepted activated) (hnow : last ≤ now) :
    Kept c now accepted activated where
  sound := h.sound
  fits := h.fits
  below := h.below
  begun := UInt64.le_trans h.begun hnow
  known := h.known
  recorded := by
    intro t0 ht0
    obtain ⟨hround, hbegun, hlast⟩ := h.recorded t0 ht0
    exact ⟨hround, hbegun, UInt64.le_trans hlast hnow⟩
  pending := h.pending

/-- A commit is started, for a call that passed the checks. -/
theorem kept_commits {s : HopsetAuthority} {last now mask earliest : UInt64} {op : Op}
    {accepted : Option (Bool × UInt64)} {activated : Option UInt64}
    (h : Kept s.core last accepted activated) (hnow : last ≤ now)
    (hop : op.asks = some (mask, earliest)) (hopen : s.opens now op = true)
    (replays : ProposalReplayRing) :
    Kept { s.core with
      pend := s.next mask earliest now, committing := true, replays := replays } now
      (some (op.limited, now)) activated := by
  obtain ⟨-, hmask, hchange⟩ := opens_spec hopen hop
  obtain ⟨hfits, hroom⟩ := fits_of_mask_reason h.sound hmask
  have hlater := h.later hnow
  refine ⟨h.sound, h.fits, h.below, hlater.begun, h.known, hlater.recorded, fun _ => ?_⟩
  refine ⟨hfits, rfl, hroom, op.limited, now, rfl, fun hl => ?_⟩
  have hsmall := small_of_change_reason h hnow (hchange hl)
  exact ⟨hsmall.delta, hsmall.gap⟩

/-- The commit is put in force. -/
theorem kept_activates {s : HopsetAuthority} {last now : UInt64}
    {accepted : Option (Bool × UInt64)} {activated : Option UInt64}
    (h : Kept s.core last accepted activated) (hc : s.committing_ = true)
    (hd : s.pend_.activate_slot ≤ now) :
    Kept { s.core with
      cur := s.pend_
      committing := false
      last_activation_round := { s with cur_ := s.pend_ }.round_of now
      have_activation := true } now accepted (some now) := by
  obtain ⟨hfits, hgen, hroom, -⟩ := h.pending hc
  refine ⟨h.sound, hfits, ?_, hd, rfl, ?_, fun hf => by cases hf⟩
  · exact hgen ▸ hroom
  · intro t0 ht0
    obtain rfl := Option.some.inj ht0
    exact ⟨rfl, hd, UInt64.le_refl _⟩

/-! ## Runs -/

/-- What one call leaves of the record, by the move that it makes. -/
theorem keeps_move {s : HopsetAuthority} {last now : UInt64} {op : Op} {c : Core}
    {l : List HopsetState} {accepted : Option (Bool × UInt64)} {activated : Option UInt64}
    (h : Kept s.core last accepted activated) (hnow : last ≤ now) (hm : Move s now op c l) :
    Kept c now (if !s.committing_ && c.committing then some (op.limited, now) else accepted)
      (if l = [] then activated else some now) := by
  cases hm with
  | rest =>
    have hsame : (!s.committing_ && s.core.committing) = false := Bool.not_and_self s.committing_
    rw [hsame]
    exact h.later hnow
  | commits hop hopen =>
    obtain ⟨hc, -⟩ := opens_spec hopen hop
    rw [hc]
    exact kept_commits h hnow hop hopen _
  | activates hc hd =>
    rw [hc]
    exact kept_activates h hc hd

/-- The generation counts the activations. -/
theorem counts_move {s : HopsetAuthority} {last now : UInt64} {op : Op} {c : Core}
    {l : List HopsetState} {accepted : Option (Bool × UInt64)} {activated : Option UInt64}
    (h : Kept s.core last accepted activated) (hm : Move s now op c l) :
    (l = [] ∧ c.cur = s.cur_) ∨
      (l = [c.cur] ∧ c.cur.generation.toNat = s.cur_.generation.toNat + 1) := by
  cases hm with
  | rest => exact .inl ⟨rfl, rfl⟩
  | commits => exact .inl ⟨rfl, rfl⟩
  | activates hc =>
    have hgen : s.pend_.generation = s.cur_.generation + 1 := (h.pending hc).generation
    exact .inr ⟨rfl, (congrArg UInt32.toNat hgen).trans (generation_succ h.below)⟩

/-- A state that is put in force is the one that passed the checks. -/
theorem limits_move {s : HopsetAuthority} {last now : UInt64} {op : Op} {c : Core}
    {l : List HopsetState} {accepted : Option (Bool × UInt64)} {activated : Option UInt64}
    (h : Kept s.core last accepted activated) (hm : Move s now op c l) :
    ∀ st ∈ l, ∃ limited t, accepted = some (limited, t) ∧
      (limited = true → Small s.core activated st.active_mask t) := by
  intro st hst
  cases hm with
  | rest => cases hst
  | commits => cases hst
  | activates hc =>
    obtain rfl := List.mem_singleton.mp hst
    exact (h.pending hc).asked

theorem keeps_step {w : Ledger} (h : Keeps w) (i : Op × UInt64) (hi : Onward w i) :
    Keeps (step w i) := keeps_move h hi (feed_moves w.authority i.1 i.2).move

/-- The authority as it is built, before any call. -/
def fresh (params : HopsetParams) (epoch : UInt32) : Ledger where
  authority := init params epoch

theorem keeps_fresh {params : HopsetParams} (hp : params.Sound) (epoch : UInt32) :
    Keeps (fresh params epoch) where
  sound := hp
  fits := fits_full hp
  below := show (0 : UInt32) < kGenCeiling by decide
  begun := UInt64.le_refl _
  known := rfl
  recorded := by
    intro t0 ht0
    cases ht0
  pending := by
    intro hc
    cases hc

/-- No run of calls takes the hopset out of its bounds: whatever is asked for, it stays within
them, each activation is the next generation, and each one that the operator did not ask for is
small and comes long enough after the last. -/
theorem the_hopset_cannot_be_herded (params : HopsetParams) (hp : params.Sound) (epoch : UInt32)
    (is : List (Op × UInt64)) (hslots : Runs.Along step Onward (fresh params epoch) is) :
    (∀ n, (run (fresh params epoch) (is.take n)).authority.Lawful) ∧
      Runs.Along step Counts (fresh params epoch) is ∧
      Runs.Along step Limits (fresh params epoch) is := by
  have h0 := keeps_fresh hp epoch
  have hkept : ∀ n, Keeps (run (fresh params epoch) (is.take n)) := by
    intro n
    exact Runs.after_keeps_along step _ h0 (fun w i hi h => keeps_step h i hi) _
      (hslots.take step n)
  have hlaw : Runs.Along step (fun w i => Counts w i ∧ Limits w i) (fresh params epoch) is := by
    refine Runs.along_imp step (P := Keeps) _ h0 (fun w i h hi => keeps_step h i hi) ?_ is hslots
    intro w i h _
    exact ⟨counts_move h (feed_moves w.authority i.1 i.2).move,
      limits_move h (feed_moves w.authority i.1 i.2).move⟩
  refine ⟨fun n => lawful_of_keeps (hkept n), ?_, ?_⟩
  · exact hlaw.mono step fun _ _ h => h.1
  · exact hlaw.mono step fun _ _ h => h.2

/-- A base of three channels. -/
def demoParams : HopsetParams := { n_base := 3 }

theorem demoParams_sound : demoParams.Sound :=
  ⟨by decide, by decide, by decide, by decide⟩

/-- A proposal without the third channel, and the tick that puts it in force. -/
def demoChange : List (Op × UInt64) :=
  [(.proposal { active_mask := 3, rx_nonce := 1 }, 10), (.tick, 40)]

theorem onward_demoChange : Runs.Along step Onward (fresh demoParams 7) demoChange :=
  ⟨show (0 : UInt64) ≤ 10 by decide, show (10 : UInt64) ≤ 40 by decide, trivial⟩

/-- The proposal is accepted, its state is put in force, and the laws hold of it. -/
theorem a_change_within_the_limits :
    let w := run (fresh demoParams 7) demoChange
    w.authority.cur_.active_mask = 3 ∧ w.authority.cur_.generation = 1 ∧
      w.accepted = some (true, 10) ∧ w.activated = some 40 ∧ w.authority.Lawful ∧
      Runs.Along step Counts (fresh demoParams 7) demoChange ∧
      Runs.Along step Limits (fresh demoParams 7) demoChange := by
  intro w
  obtain ⟨hlaw, hcounts, hlimits⟩ :=
    the_hopset_cannot_be_herded demoParams demoParams_sound 7 demoChange onward_demoChange
  refine ⟨?_, ?_, ?_, ?_, hlaw 2, hcounts, hlimits⟩
  · decide +kernel
  · decide +kernel
  · decide +kernel
  · decide +kernel

end Ledger

end devourer.hopset
