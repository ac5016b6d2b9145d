-- The receiver's policy: which channel to take out of the hopset and which to
-- give back, from what the slots on each channel delivered.
import Mathlib.Algebra.Order.Field.Rat
import Mathlib.Data.Rat.Floor
import Devourer.Hopset.HopsetState
import Devourer.Lib.Samples

namespace devourer.hopset

/-! ## Explanations -/

def reason_bit (k : UInt32) : UInt32 := 1 <<< k

def RB_DELIVERY_FLOOR : UInt32 := reason_bit 0
def RB_PERSISTENT : UInt32 := reason_bit 1
def RB_HEALTHY_ALT : UInt32 := reason_bit 2
def RB_CRC_DOMINANT : UInt32 := reason_bit 3
def RB_ENERGY_INTERFERENCE : UInt32 := reason_bit 4
def RB_WEAK_SIGNAL : UInt32 := reason_bit 5
def RB_SYNC_LOSS : UInt32 := reason_bit 6
def RB_PROBE_RECOVERY : UInt32 := reason_bit 7
def RB_PROBE_EVIDENCE : UInt32 := reason_bit 8

/-- Why a decision holds. -/
inductive HopsetHold
  | None
  | InsufficientRounds
  | Cooldown
  | ProposalOutstanding
  | NoImpairment
  | NotPersistent
  | BroadDegradation
  | NoHealthyAlternative
  | MinActiveFloor
  | MaxExcludedFrac
  | ProbeHysteresisPending
  deriving DecidableEq

/-! ## Hashes of a configuration -/

/-- One word into an FNV-1a hash, the low byte first. -/
def fnv_fold (h : UInt32) (v : UInt64) : UInt32 :=
  (List.range 8).foldl
    (fun h i => (h ^^^ ((v >>> (8 * UInt64.ofNat i)) &&& 0xff).toUInt32) * 16777619) h

/-- A number as fixed point: what a cast to a signed integer leaves of it. -/
def fixed_point (d : ℚ) : UInt64 :=
  let x := d * 10000 + 1 / 2
  UInt64.ofInt (if 0 ≤ x then x.floor else x.ceil)

def fnv_hash (words : List UInt64) : UInt32 := words.foldl fnv_fold 2166136261

structure HopsetPolicyConfig where
  min_obs_rounds : UInt32 := 8
  impaired_rounds : UInt32 := 5
  exclude_delivery : ℚ := 3 / 10
  healthy_delivery : ℚ := 7 / 10
  min_active : UInt32 := 3
  update_cooldown_rounds : UInt64 := 10
  restore_delivery : ℚ := 7 / 10
  restore_probes : UInt32 := 3
  broad_degrade_frac : ℚ := 1 / 2
  max_excluded_frac : ℚ := 1 / 2
  ring_rounds : UInt32 := 16

namespace HopsetPolicyConfig

def policy_hash (cfg : HopsetPolicyConfig) : UInt32 :=
  fnv_hash
    [cfg.min_obs_rounds.toUInt64, cfg.impaired_rounds.toUInt64, fixed_point cfg.exclude_delivery,
      fixed_point cfg.healthy_delivery, cfg.min_active.toUInt64, cfg.update_cooldown_rounds,
      fixed_point cfg.restore_delivery, cfg.restore_probes.toUInt64,
      fixed_point cfg.broad_degrade_frac, fixed_point cfg.max_excluded_frac,
      cfg.ring_rounds.toUInt64]

/-- How many visits a channel's mean is over. -/
def depth (cfg : HopsetPolicyConfig) : ℕ :=
  if cfg.ring_rounds < 64 then cfg.ring_rounds.toNat else 64

end HopsetPolicyConfig

/-! ## Observations and decisions -/

/-- A closed slot. -/
structure SlotObservation where
  round : UInt64 := 0
  base_index : UInt32 := 0
  is_probe : Bool := false
  /-- The marker of the transmitter arrived. -/
  decoded : Bool := false
  frames : UInt32 := 0
  crc_errs : UInt32 := 0
  /-- A link verdict, or 255. It only explains. -/
  verdict : UInt8 := 255
  deriving DecidableEq

def delivery_of (o : SlotObservation) : ℚ :=
  if !o.decoded then 0
  else if o.frames = 0 then 1
  else
    let good := if o.frames > o.crc_errs then o.frames - o.crc_errs else 0
    good.toNat / o.frames.toNat

structure HopsetChanScore where
  visits : UInt32 := 0
  decoded : UInt32 := 0
  delivery : ℚ := 0
  probe_delivery : ℚ := 0
  probes : UInt32 := 0
  impaired_run : UInt32 := 0
  active : Bool := false
  scored : Bool := false

namespace HopsetDecision

inductive Kind
  | Hold
  | ProposeExclude
  | ProposeRestore
  deriving DecidableEq

end HopsetDecision

structure HopsetDecision where
  kind : HopsetDecision.Kind := .Hold
  proposed_mask : UInt64 := 0
  reason_bitmap : UInt32 := 0
  observation_count : UInt32 := 0
  hold : HopsetHold := .None
  target_index : ℕ := 0
  policy_hash : UInt32 := 0
  chans : List HopsetChanScore := []

/-! ## The policy -/

/-- The mask of one channel. -/
def bit (i : ℕ) : UInt64 := 1 <<< UInt64.ofNat i

def has_bit (mask : UInt64) (i : ℕ) : Bool := mask &&& bit i ≠ 0

theorem has_bit_eq {mask : UInt64} {i : ℕ} (hi : i < 64) :
    has_bit mask i = mask.toNat.testBit i := by
  rw [Bool.eq_iff_iff, has_bit, decide_eq_true_eq]
  exact and_bit_ne_zero hi

theorem and_bit {mask : UInt64} {i : ℕ} (hi : i < 64) (h : has_bit mask i = true) :
    mask &&& bit i = bit i := by
  rw [has_bit_eq hi] at h
  apply UInt64.toNat_inj.mp
  rw [UInt64.toNat_and, bit, one_shift_toNat hi, Nat.and_two_pow, h]
  simp

theorem testBit_not {mask : UInt64} {i : ℕ} (hi : i < 64) :
    (~~~mask).toNat.testBit i = !mask.toNat.testBit i := by
  rw [← UInt64.toNat_toBitVec, ← UInt64.toNat_toBitVec, BitVec.testBit_toNat, BitVec.testBit_toNat,
    UInt64.toBitVec_not, BitVec.getLsbD_not, decide_eq_true hi, Bool.true_and]

theorem has_bit_not {mask : UInt64} {i : ℕ} (hi : i < 64) :
    has_bit (~~~mask) i = !has_bit mask i := by
  rw [has_bit_eq hi, has_bit_eq hi, testBit_not hi]

/-- Taking a channel out of a mask that has it changes that bit only. -/
theorem xor_exclude {mask : UInt64} {i : ℕ} (hi : i < 64) (h : has_bit mask i = true) :
    (mask &&& ~~~bit i) ^^^ mask = bit i := by
  have hsplit : (mask &&& ~~~bit i) ^^^ mask = mask &&& bit i := by
    apply UInt64.toBitVec_inj.mp
    apply BitVec.eq_of_getLsbD_eq
    intro j hj
    simp only [UInt64.toBitVec_xor, UInt64.toBitVec_and, UInt64.toBitVec_not, BitVec.getLsbD_xor,
      BitVec.getLsbD_and, BitVec.getLsbD_not, hj, decide_true, Bool.true_and]
    cases mask.toBitVec.getLsbD j <;> cases (bit i).toBitVec.getLsbD j <;> rfl
  rw [hsplit, and_bit hi h]

theorem xor_restore {mask : UInt64} {i : ℕ} (hi : i < 64) (h : has_bit mask i = false) :
    (mask ||| bit i) ^^^ mask = bit i := by
  have hsplit : (mask ||| bit i) ^^^ mask = ~~~mask &&& bit i := by
    apply UInt64.toBitVec_inj.mp
    apply BitVec.eq_of_getLsbD_eq
    intro j hj
    simp only [UInt64.toBitVec_xor, UInt64.toBitVec_and, UInt64.toBitVec_or, UInt64.toBitVec_not,
      BitVec.getLsbD_xor, BitVec.getLsbD_and, BitVec.getLsbD_or, BitVec.getLsbD_not, hj,
      decide_true, Bool.true_and]
    cases mask.toBitVec.getLsbD j <;> cases (bit i).toBitVec.getLsbD j <;> rfl
  rw [hsplit, and_bit hi (by rw [has_bit_not hi, h]; rfl)]

def kVerdictInterference : UInt8 := 2
def kVerdictWeak : UInt8 := 3
def kRing : ℕ := 64

namespace HopsetPolicy

/-- What is known of a channel since its place in the mask last changed. -/
structure Chan where
  ring : Window ℚ := Window.empty kRing 0
  probe_ring : Window ℚ := Window.empty kRing 0
  visits : UInt32 := 0
  decoded : UInt32 := 0
  probes : UInt32 := 0
  impaired_run : UInt32 := 0
  probe_good_run : UInt32 := 0
  crc_dominant : Bool := false
  sync_loss : Bool := false
  energy_interference : Bool := false
  weak_signal : Bool := false
  saw_probe : Bool := false

end HopsetPolicy

structure HopsetPolicy where
  cfg_ : HopsetPolicyConfig
  n_ : UInt64
  /-- The channels below `n_`. -/
  ch_ : ℕ → HopsetPolicy.Chan := fun _ => {}
  mask_ : UInt64 := 0
  last_round_ : UInt64 := 0
  last_update_round_ : UInt64 := 0
  rounds_seen_ : UInt32 := 0
  any_seen_ : Bool := false
  have_update_ : Bool := false
  outstanding_ : Bool := false

namespace HopsetPolicy

def create (cfg : HopsetPolicyConfig) (n_base : UInt64) : Except String HopsetPolicy :=
  if n_base = 0 ∨ n_base > kMaxBaseChannels then throw "base hopset size out of range"
  else pure { cfg_ := cfg, n_ := n_base, mask_ := full_mask n_base }

/-- A probe counts toward a restoration. -/
def ingest_probe (cfg : HopsetPolicyConfig) (c : Chan) (o : SlotObservation) : Chan :=
  let d := delivery_of o
  { c with
    probe_ring := c.probe_ring.push cfg.depth d
    probe_good_run := tally (d > cfg.restore_delivery) c.probe_good_run
    probes := c.probes + 1
    saw_probe := true }

def ingest_visit (cfg : HopsetPolicyConfig) (c : Chan) (o : SlotObservation) : Chan :=
  let d := delivery_of o
  { c with
    ring := c.ring.push cfg.depth d
    visits := c.visits + 1
    decoded := if d > 0 then c.decoded + 1 else c.decoded
    impaired_run := tally (d < cfg.exclude_delivery) c.impaired_run
    crc_dominant := c.crc_dominant || (o.frames > 0 && o.crc_errs * 2 ≥ o.frames)
    sync_loss := c.sync_loss || (!o.decoded && o.frames = 0)
    energy_interference := c.energy_interference || o.verdict = kVerdictInterference
    weak_signal := c.weak_signal || o.verdict = kVerdictWeak }

/-- A visit that is not a probe is the round score of its channel. -/
def ingest (p : HopsetPolicy) (o : SlotObservation) : HopsetPolicy :=
  if o.base_index.toNat ≥ p.n_.toNat then p
  else
    let rounds_seen_ :=
      if !p.any_seen_ then 1
      else if o.round ≠ p.last_round_ then p.rounds_seen_ + 1
      else p.rounds_seen_
    let i := o.base_index.toNat
    let c := if o.is_probe then ingest_probe p.cfg_ (p.ch_ i) o else ingest_visit p.cfg_ (p.ch_ i) o
    { p with
      any_seen_ := true
      rounds_seen_
      last_round_ := o.round
      ch_ := Function.update p.ch_ i c }

/-- A channel whose place in the mask changes starts from a clean slate. -/
def on_activation (p : HopsetPolicy) (mask now_round : UInt64) : HopsetPolicy :=
  { p with
    ch_ := fun i => if i < p.n_.toNat ∧ has_bit (mask ^^^ p.mask_) i then {} else p.ch_ i
    mask_ := mask
    last_update_round_ := now_round
    have_update_ := true
    outstanding_ := false }

/-- An attempt that was refused spends the budget too. -/
def clear_outstanding (p : HopsetPolicy) (now_round : UInt64) : HopsetPolicy :=
  { p with outstanding_ := false, last_update_round_ := now_round, have_update_ := true }

def window_delivery (c : Chan) : ℚ := c.ring.mean

def summarize (p : HopsetPolicy) : List HopsetChanScore :=
  (List.range p.n_.toNat).map fun i =>
    let c := p.ch_ i
    { visits := c.visits
      decoded := c.decoded
      delivery := window_delivery c
      probe_delivery := c.probe_ring.mean
      probes := c.probes
      impaired_run := c.impaired_run
      active := has_bit p.mask_ i
      scored := c.ring.n ≠ 0 || c.probe_ring.n ≠ 0 }

def hold (d : HopsetDecision) (h : HopsetHold) : HopsetDecision :=
  { d with kind := .Hold, hold := h }

/-- The channels of the base that are out of the mask. -/
def excluded (p : HopsetPolicy) : UInt64 := full_mask p.n_ &&& ~~~p.mask_

/-- The first excluded channel that its probes have cleared. -/
def restorable (p : HopsetPolicy) : Option ℕ :=
  (List.range p.n_.toNat).find? fun i =>
    has_bit p.excluded i && (p.ch_ i).probe_good_run ≥ p.cfg_.restore_probes

def probe_pending (p : HopsetPolicy) : Bool :=
  (List.range p.n_.toNat).any fun i => has_bit p.excluded i && (p.ch_ i).saw_probe

/-- What the loop over the active channels has. -/
structure Scan where
  /-- The worst channel and its mean. -/
  worst : Option (ℕ × ℚ) := none
  impaired_active : ℕ := 0
  active_scored : ℕ := 0
  any_impaired : Bool := false

/-- The run of impaired visits triggers, and the mean only ranks. -/
def scan_chan (p : HopsetPolicy) (s : Scan) (i : ℕ) : Scan :=
  let c := p.ch_ i
  if !has_bit p.mask_ i || c.ring.n = 0 then s
  else
    let w := window_delivery c
    { worst :=
        if c.impaired_run ≥ p.cfg_.impaired_rounds ∧ s.worst.all (w < ·.2) then some (i, w)
        else s.worst
      impaired_active :=
        if w < p.cfg_.healthy_delivery then s.impaired_active + 1 else s.impaired_active
      active_scored := s.active_scored + 1
      any_impaired := s.any_impaired || c.impaired_run > 0 }

def scan (p : HopsetPolicy) : Scan := (List.range p.n_.toNat).foldl p.scan_chan {}

/-- An active channel other than the worst whose mean is healthy. -/
def healthy_alt (p : HopsetPolicy) (worst : ℕ) : Bool :=
  (List.range p.n_.toNat).any fun i =>
    has_bit p.mask_ i && i ≠ worst && (p.ch_ i).ring.n ≠ 0 &&
      window_delivery (p.ch_ i) ≥ p.cfg_.healthy_delivery

def floor_active (min_active : UInt32) : UInt32 := if min_active < 3 then 3 else min_active

/-- The share of the base that a mask leaves out. -/
def excluded_share (n mask : UInt64) : ℚ :=
  (popcount64 (full_mask n &&& ~~~mask)).toNat / n.toNat

def exclude_reasons (c : Chan) : UInt32 :=
  RB_DELIVERY_FLOOR ||| RB_PERSISTENT ||| RB_HEALTHY_ALT |||
    (if c.crc_dominant then RB_CRC_DOMINANT else 0) |||
    (if c.sync_loss then RB_SYNC_LOSS else 0) |||
    (if c.energy_interference then RB_ENERGY_INTERFERENCE else 0) |||
    (if c.weak_signal then RB_WEAK_SIGNAL else 0)

/-- Exclusion. When most of the band degrades together, no channel is at fault. -/
def decide_exclude (p : HopsetPolicy) (d : HopsetDecision) : HopsetDecision × HopsetPolicy :=
  let s := p.scan
  match s.worst with
  | none =>
    (hold d (if p.probe_pending then .ProbeHysteresisPending
      else if s.any_impaired then .NotPersistent else .NoImpairment), p)
  | some (worst, _) =>
    let after := p.mask_ &&& ~~~bit worst
    if s.active_scored ≠ 0 ∧
        (s.impaired_active / s.active_scored : ℚ) ≥ p.cfg_.broad_degrade_frac then
      (hold d .BroadDegradation, p)
    else if !p.healthy_alt worst then (hold d .NoHealthyAlternative, p)
    else if popcount64 after < floor_active p.cfg_.min_active then (hold d .MinActiveFloor, p)
    else if excluded_share p.n_ after > p.cfg_.max_excluded_frac then (hold d .MaxExcludedFrac, p)
    else
      ({ d with
          kind := .ProposeExclude
          target_index := worst
          proposed_mask := after
          reason_bitmap := exclude_reasons (p.ch_ worst) },
        { p with outstanding_ := true })

/-- A restoration comes before an exclusion. -/
def decide (p : HopsetPolicy) (now_round : UInt64) : HopsetDecision × HopsetPolicy :=
  let d : HopsetDecision :=
    { policy_hash := p.cfg_.policy_hash, observation_count := p.rounds_seen_, chans := p.summarize }
  if p.rounds_seen_ < p.cfg_.min_obs_rounds then (hold d .InsufficientRounds, p)
  else if p.outstanding_ then (hold d .ProposalOutstanding, p)
  else if p.have_update_ ∧ now_round - p.last_update_round_ < p.cfg_.update_cooldown_rounds then
    (hold d .Cooldown, p)
  else
    match p.restorable with
    | some i =>
      ({ d with
          kind := .ProposeRestore
          target_index := i
          proposed_mask := p.mask_ ||| bit i
          reason_bitmap := RB_PROBE_RECOVERY ||| RB_PROBE_EVIDENCE },
        { p with outstanding_ := true })
    | none => p.decide_exclude d

/-! ## What a decision rests on -/

/-- The ways a proposal comes about. -/
structure ExcludeSpec (p : HopsetPolicy) (d : HopsetDecision) : Prop where
  target : d.target_index < p.n_.toNat
  active : has_bit p.mask_ d.target_index = true
  mask : d.proposed_mask = p.mask_ &&& ~~~bit d.target_index
  floor : floor_active p.cfg_.min_active ≤ popcount64 d.proposed_mask
  share : excluded_share p.n_ d.proposed_mask ≤ p.cfg_.max_excluded_frac
  run : p.cfg_.impaired_rounds ≤ (p.ch_ d.target_index).impaired_run
  healthy : ∃ i < p.n_.toNat, has_bit p.mask_ i = true ∧ i ≠ d.target_index ∧
    (p.ch_ i).ring.n ≠ 0 ∧ p.cfg_.healthy_delivery ≤ window_delivery (p.ch_ i)

structure RestoreSpec (p : HopsetPolicy) (d : HopsetDecision) : Prop where
  target : d.target_index < p.n_.toNat
  excluded : has_bit p.excluded d.target_index = true
  mask : d.proposed_mask = p.mask_ ||| bit d.target_index
  run : p.cfg_.restore_probes ≤ (p.ch_ d.target_index).probe_good_run

/-- The loop ends on an active channel with a run that is long enough. -/
theorem scan_worst {p : HopsetPolicy} {worst : ℕ} {w : ℚ} (h : p.scan.worst = some (worst, w)) :
    worst < p.n_.toNat ∧ has_bit p.mask_ worst = true ∧
      p.cfg_.impaired_rounds ≤ (p.ch_ worst).impaired_run := by
  have hfold : ∀ is : List ℕ, (∀ i ∈ is, i < p.n_.toNat) → ∀ s : Scan,
      (∀ b ∈ s.worst, b.1 < p.n_.toNat ∧ has_bit p.mask_ b.1 = true ∧
        p.cfg_.impaired_rounds ≤ (p.ch_ b.1).impaired_run) →
      ∀ b ∈ (is.foldl p.scan_chan s).worst, b.1 < p.n_.toNat ∧ has_bit p.mask_ b.1 = true ∧
        p.cfg_.impaired_rounds ≤ (p.ch_ b.1).impaired_run := by
    intro is his
    induction is with
    | nil => exact fun s hs => hs
    | cons i is ih =>
      intro s hs
      refine ih (fun j hj => his j (List.mem_cons_of_mem _ hj)) _ ?_
      unfold scan_chan
      dsimp only
      split
      · exact hs
      · next hact =>
        simp only [Bool.or_eq_true, Bool.not_eq_true', not_or, Bool.not_eq_false] at hact
        intro b hb
        dsimp only at hb
        split at hb
        · next hrun =>
          obtain rfl := Option.some.inj hb
          exact ⟨his i List.mem_cons_self, hact.1, hrun.1⟩
        · exact hs b hb
  exact hfold _ (fun i hi => List.mem_range.mp hi) {} nofun _ h

/-- A decision holds and changes nothing, or it is a proposal that is outstanding from then on. -/
inductive Decided (p : HopsetPolicy) (r : HopsetDecision × HopsetPolicy) : Prop
  | hold (hk : r.1.kind = .Hold) (hp : r.2 = p)
  | exclude (hk : r.1.kind = .ProposeExclude) (hs : p.ExcludeSpec r.1)
      (hp : r.2 = { p with outstanding_ := true })
  | restore (hk : r.1.kind = .ProposeRestore) (hs : p.RestoreSpec r.1)
      (hp : r.2 = { p with outstanding_ := true })

theorem healthy_alt_iff {p : HopsetPolicy} {worst : ℕ} :
    p.healthy_alt worst = true ↔ ∃ i < p.n_.toNat, has_bit p.mask_ i = true ∧ i ≠ worst ∧
      (p.ch_ i).ring.n ≠ 0 ∧ p.cfg_.healthy_delivery ≤ window_delivery (p.ch_ i) := by
  simp [healthy_alt, and_assoc]

theorem decide_exclude_decided (p : HopsetPolicy) (d : HopsetDecision) :
    p.Decided (p.decide_exclude d) := by
  unfold decide_exclude
  dsimp only
  split
  · exact .hold rfl rfl
  · next worst w hworst =>
    obtain ⟨hlt, hactive, hrun⟩ := scan_worst hworst
    split
    · exact .hold rfl rfl
    · split
      · exact .hold rfl rfl
      · next hhealthy =>
        split
        · exact .hold rfl rfl
        · next hfloor =>
          split
          · exact .hold rfl rfl
          · next hshare =>
            refine .exclude rfl ⟨hlt, hactive, rfl, ?_, not_lt.mp hshare, hrun, ?_⟩ rfl
            · exact UInt32.not_lt.mp hfloor
            · rw [Bool.not_eq_true', Bool.not_eq_false] at hhealthy
              exact healthy_alt_iff.mp hhealthy

theorem decide_decided (p : HopsetPolicy) (now_round : UInt64) :
    p.Decided (p.decide now_round) := by
  unfold decide
  dsimp only
  split
  · exact .hold rfl rfl
  · split
    · exact .hold rfl rfl
    · split
      · exact .hold rfl rfl
      · split
        · next i hi =>
          have hmem := List.mem_of_find?_eq_some hi
          have hpred := List.find?_some hi
          rw [Bool.and_eq_true, decide_eq_true_eq] at hpred
          exact .restore rfl ⟨List.mem_range.mp hmem, hpred.1, rfl, hpred.2⟩ rfl
        · exact p.decide_exclude_decided _

/-- Nothing is proposed while a proposal is outstanding. -/
theorem decide_outstanding {p : HopsetPolicy} (h : p.outstanding_ = true) (now_round : UInt64) :
    (p.decide now_round).1.kind = .Hold := by
  unfold decide
  dsimp only
  split
  · rfl
  · rfl

end HopsetPolicy

end devourer.hopset
