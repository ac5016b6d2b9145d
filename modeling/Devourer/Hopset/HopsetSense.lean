-- The transmitter's own view of the band: what each quiet window says of its
-- channel, and the candidate that it makes of them. No sensor is not a clean
-- band.
import Devourer.Hopset.HopsetPolicy
import Devourer.Lib.DoubleOps

namespace devourer.hopset

open DoubleOps

def RB_TX_CCA_HIGH : UInt32 := reason_bit 11
def RB_TX_NHM_BUSY : UInt32 := reason_bit 12
def RB_TX_IGI_ELEVATED : UInt32 := reason_bit 13
def RB_TX_POST_BURST : UInt32 := reason_bit 14
def RB_TX_PRE_BURST : UInt32 := reason_bit 15
def RB_TX_CLEANER_ALT : UInt32 := reason_bit 16
def RB_TX_PERSISTENT : UInt32 := reason_bit 17
def RB_TX_IGI_RAILED : UInt32 := reason_bit 19

/-! ## Samples -/

/-- Which question a sample answers. -/
inductive SensePhase
  | PreBurst
  | PostBurst
  deriving DecidableEq

def kTsRetuneFailed : UInt16 := 1
def kTsReadFailed : UInt16 := 2
def kTsCounterSuspect : UInt16 := 4
/-- Taken without the barrier that discards the counters of the channel before. -/
def kTsBarrierMissed : UInt16 := 8
def kTsTruncated : UInt16 := 16

structure TxSenseSample (F : Type) [DoubleOps F] where
  round : UInt64 := 0
  base_index : UInt32 := 0
  phase : SensePhase := .PreBurst
  window_us : UInt32 := 0
  probe : Bool := false
  valid_fa : Bool := false
  fa_ofdm : UInt32 := 0
  fa_cck : UInt32 := 0
  cca_ofdm : UInt32 := 0
  cca_cck : UInt32 := 0
  valid_cck : Bool := false
  valid_igi : Bool := false
  igi : UInt8 := 0
  valid_nhm : Bool := false
  nhm_busy_pct : UInt8 := 0
  nhm_duration : UInt16 := 0
  /-- An occupancy that is handed over, with no hardware behind it. -/
  injected : Bool := false
  injected_occupancy : F := 0.0
  flags : UInt16 := 0

def kSrcCca : UInt8 := 1
def kSrcFa : UInt8 := 2
def kSrcIgi : UInt8 := 4
def kSrcNhm : UInt8 := 8
def kSrcInjected : UInt8 := 16

structure TxSenseConfig (F : Type) [DoubleOps F] where
  min_window_us : UInt32 := 800
  max_counts_per_ms : UInt32 := 1000
  igi_floor : UInt8 := 0x1c
  igi_ceiling : UInt8 := 0x7f
  cca_rate_sat : F := 3.0
  fa_rate_sat : F := 3.0
  igi_span : F := 32.0
  w_cca : F := 0.30
  w_fa : F := 0.35
  w_igi : F := 0.15
  w_nhm : F := 0.20
  min_samples_per_chan : UInt32 := 12
  min_channels_scored : UInt32 := 3
  ring_samples : UInt32 := 24
  min_obs_rounds : UInt32 := 24
  occupancy_dirty : F := 0.60
  dirty_run : UInt32 := 10
  cleaner_margin : F := 0.30
  min_cleaner_chans : UInt32 := 2
  broad_occupancy_frac : F := 0.50
  broad_spread_min : F := 0.25
  require_post_burst : Bool := true
  restore_occupancy : F := 0.25
  restore_probes : UInt32 := 3
  cooldown_rounds : UInt64 := 40
  min_active : UInt32 := 3
  max_excluded_frac : F := 0.50

variable {F : Type} [DoubleOps F]

/-- What a hash has of a double. -/
def foldd (d : F) : UInt64 := UInt64.ofInt (toInt (d * 10000.0 + 0.5))

namespace TxSenseConfig

def policy_hash (cfg : TxSenseConfig F) : UInt32 :=
  fnv_hash
    [cfg.min_window_us.toUInt64, cfg.max_counts_per_ms.toUInt64, cfg.igi_floor.toUInt64,
      cfg.igi_ceiling.toUInt64, foldd cfg.cca_rate_sat, foldd cfg.fa_rate_sat,
      foldd cfg.igi_span, foldd cfg.w_cca, foldd cfg.w_fa, foldd cfg.w_igi,
      foldd cfg.w_nhm, cfg.min_samples_per_chan.toUInt64, cfg.min_channels_scored.toUInt64,
      cfg.ring_samples.toUInt64, cfg.min_obs_rounds.toUInt64, foldd cfg.occupancy_dirty,
      cfg.dirty_run.toUInt64, foldd cfg.cleaner_margin, cfg.min_cleaner_chans.toUInt64,
      foldd cfg.broad_occupancy_frac, foldd cfg.broad_spread_min,
      if cfg.require_post_burst then 1 else 0, foldd cfg.restore_occupancy,
      cfg.restore_probes.toUInt64, cfg.cooldown_rounds, cfg.min_active.toUInt64,
      foldd cfg.max_excluded_frac]

def depth (cfg : TxSenseConfig F) : ℕ :=
  if cfg.ring_samples < 64 then cfg.ring_samples.toNat else 64

end TxSenseConfig

/-! ## Scores -/

structure SenseScore (F : Type) [DoubleOps F] where
  occupancy : F := 0.0
  sources : UInt8 := 0

def clamp01 (v : F) : F := if v < 0.0 then 0.0 else if v > 1.0 then 1.0 else v

def win_ms (s : TxSenseSample F) : F := ofInt s.window_us.toNat / 1000.0

/-- A gain index on a rail is no reading. -/
def igi_counts (s : TxSenseSample F) (cfg : TxSenseConfig F) : Bool :=
  s.valid_igi && s.igi > cfg.igi_floor && s.igi < cfg.igi_ceiling

def nhm_counts (s : TxSenseSample F) : Bool :=
  s.valid_nhm && s.nhm_duration > 0 && s.nhm_busy_pct > 0 && s.nhm_busy_pct < 100

/-- What the sources of a sample add up to: the weighted occupancies, the weights, the sources. -/
structure Weighed (F : Type) [DoubleOps F] where
  acc : F := 0.0
  wsum : F := 0.0
  src : UInt8 := 0

def weigh (w occ : F) (source : UInt8) (s : Weighed F) : Weighed F :=
  { acc := s.acc + w * clamp01 occ, wsum := s.wsum + w, src := s.src ||| source }

/-- The counters of the other modulation count only where they were reset. -/
def weigh_fa (s : TxSenseSample F) (cfg : TxSenseConfig F) (x : Weighed F) : Weighed F :=
  if s.valid_fa then
    let cca := s.cca_ofdm + if s.valid_cck then s.cca_cck else 0
    let fa := s.fa_ofdm + if s.valid_cck then s.fa_cck else 0
    weigh cfg.w_fa (ofInt fa.toNat / win_ms s / cfg.fa_rate_sat) kSrcFa
      (weigh cfg.w_cca (ofInt cca.toNat / win_ms s / cfg.cca_rate_sat) kSrcCca x)
  else x

def weigh_igi (s : TxSenseSample F) (cfg : TxSenseConfig F) (x : Weighed F) : Weighed F :=
  if igi_counts s cfg then
    weigh cfg.w_igi ((ofInt s.igi.toNat - ofInt cfg.igi_floor.toNat) / cfg.igi_span) kSrcIgi x
  else x

def weigh_nhm (s : TxSenseSample F) (cfg : TxSenseConfig F) (x : Weighed F) : Weighed F :=
  if nhm_counts s then weigh cfg.w_nhm (ofInt s.nhm_busy_pct.toNat / 100.0) kSrcNhm x else x

/-- The occupancy that a sample shows. There is none when no source was valid. -/
def score_sample (s : TxSenseSample F) (cfg : TxSenseConfig F) : Option (SenseScore F) :=
  if win_ms s ≤ 0.0 then none
  else if s.injected then
    some { occupancy := clamp01 s.injected_occupancy, sources := kSrcInjected }
  else
    let x := weigh_nhm s cfg (weigh_igi s cfg (weigh_fa s cfg {}))
    if x.src = 0 ∨ x.wsum ≤ 0.0 then none
    else some { occupancy := x.acc / x.wsum, sources := x.src }

/-! ## Evidence and candidates -/

structure TxPhaseEvidence (F : Type) [DoubleOps F] where
  samples : UInt32 := 0
  dropped : UInt32 := 0
  occupancy : F := 0.0
  occupancy_max : F := 0.0
  dirty_run : UInt32 := 0
  clean_run : UInt32 := 0
  sources_seen : UInt8 := 0
  scored : Bool := false
  igi_railed : Bool := false

structure TxChanEvidence (F : Type) [DoubleOps F] where
  pre : TxPhaseEvidence F := {}
  post : TxPhaseEvidence F := {}
  active : Bool := false
  sensor_absent : Bool := false
  probe_good_run : UInt32 := 0
  probes : UInt32 := 0

namespace TxChanEvidence

def have_evidence (e : TxChanEvidence F) : Bool := e.post.scored || e.pre.scored

/-- What is seen after the burst is the sharper of the two. -/
def occupancy (e : TxChanEvidence F) : F :=
  if e.post.scored then e.post.occupancy else e.pre.occupancy

end TxChanEvidence

inductive TxSenseHold
  | None
  | SensorAbsent
  | InsufficientRounds
  | InsufficientSamples
  | InsufficientChannels
  | Cooldown
  | ProposalOutstanding
  | NoOccupancy
  | NotPersistent
  | PostBurstMissing
  | BroadOccupancy
  | FlatBand
  | NoCleanerAlternative
  | MinActiveFloor
  | MaxExcludedFrac
  deriving DecidableEq

namespace TxSenseCandidate

inductive Kind
  | None
  | ProposeExclude
  | ProposeRestore
  deriving DecidableEq

end TxSenseCandidate

structure TxSenseCandidate (F : Type) [DoubleOps F] where
  kind : TxSenseCandidate.Kind := .None
  target_index : ℕ := 0
  proposed_mask : UInt64 := 0
  reason_bitmap : UInt32 := 0
  hold : TxSenseHold := .None
  sample_count : UInt32 := 0
  policy_hash : UInt32 := 0
  broad_occupancy : Bool := false
  flat_band : Bool := false
  band_min_occ : F := 0.0
  band_max_occ : F := 0.0
  chans_with_evidence : ℕ := 0
  chans : List (TxChanEvidence F) := []

/-! ## The sensor -/

namespace HopsetSensor

/-- What one phase has shown of a channel. -/
structure Phase (F : Type) [DoubleOps F] where
  ring : Window F := Window.empty 64 0.0
  samples : UInt32 := 0
  dropped : UInt32 := 0
  dirty_run : UInt32 := 0
  clean_run : UInt32 := 0
  sources_seen : UInt8 := 0
  igi_railed : Bool := false

structure Chan (F : Type) [DoubleOps F] where
  pre : Phase F := {}
  post : Phase F := {}
  sensor_absent : Bool := false
  probe_good_run : UInt32 := 0
  probes : UInt32 := 0

namespace Chan

def have_evidence (c : Chan F) : Bool := c.pre.ring.n ≠ 0 || c.post.ring.n ≠ 0

/-- The sum goes by the cells, not by the age of the samples. -/
def mean (p : Phase F) : F :=
  if p.ring.n = 0 then 0.0 else p.ring.live.foldl (· + ·) 0.0 / ofInt p.ring.n

def occupancy (c : Chan F) : F := if c.post.ring.n ≠ 0 then mean c.post else mean c.pre

def phase (c : Chan F) : SensePhase → Phase F
  | .PreBurst => c.pre
  | .PostBurst => c.post

def set_phase (c : Chan F) (k : SensePhase) (p : Phase F) : Chan F :=
  match k with
  | .PreBurst => { c with pre := p }
  | .PostBurst => { c with post := p }

end Chan

end HopsetSensor

structure HopsetSensor (F : Type) [DoubleOps F] where
  cfg_ : TxSenseConfig F
  n_ : UInt64
  /-- The channels below `n_`. -/
  ch_ : ℕ → HopsetSensor.Chan F := fun _ => {}
  mask_ : UInt64 := 0
  last_round_ : UInt64 := 0
  last_update_round_ : UInt64 := 0
  rounds_seen_ : UInt32 := 0
  total_samples_ : UInt32 := 0
  any_seen_ : Bool := false
  have_update_ : Bool := false
  outstanding_ : Bool := false

namespace HopsetSensor

def create (cfg : TxSenseConfig F) (n_base : UInt64) : Except String (HopsetSensor F) :=
  if n_base = 0 ∨ n_base > kMaxBaseChannels then throw "base hopset size out of range"
  else pure { cfg_ := cfg, n_ := n_base, mask_ := full_mask n_base }

/-- Counters beyond what a window can have. -/
def implausible (cfg : TxSenseConfig F) (s : TxSenseSample F) : Bool :=
  let cap : F := ofInt cfg.max_counts_per_ms.toNat * win_ms s
  s.valid_fa && (ofInt s.cca_ofdm.toNat > cap || ofInt s.cca_cck.toNat > cap ||
    ofInt s.fa_ofdm.toNat > cap || ofInt s.fa_cck.toNat > cap)

def drop_flags : UInt16 :=
  kTsRetuneFailed ||| kTsReadFailed ||| kTsTruncated ||| kTsBarrierMissed ||| kTsCounterSuspect

def Phase.drop (p : Phase F) : Phase F := { p with dropped := p.dropped + 1 }

/-- A score, kept in the window and counted in the runs. -/
def Phase.take (cfg : TxSenseConfig F) (p : Phase F) (sc : SenseScore F) : Phase F :=
  { p with
    sources_seen := p.sources_seen ||| sc.sources
    ring := p.ring.push cfg.depth sc.occupancy
    samples := p.samples + 1
    dirty_run := tally (sc.occupancy ≥ cfg.occupancy_dirty) p.dirty_run
    clean_run := tally (sc.occupancy < cfg.occupancy_dirty) p.clean_run }

/-- What a sample does to its channel, and whether it was scored. -/
def ingest_chan (cfg : TxSenseConfig F) (c : Chan F) (s : TxSenseSample F) : Chan F × Bool :=
  let p := c.phase s.phase
  if s.flags &&& drop_flags ≠ 0 then (c.set_phase s.phase p.drop, false)
  else if s.window_us < cfg.min_window_us then (c.set_phase s.phase p.drop, false)
  else if implausible cfg s then (c.set_phase s.phase p.drop, false)
  else
    let railed := s.valid_igi && (s.igi ≤ cfg.igi_floor || s.igi ≥ cfg.igi_ceiling)
    let p := { p with igi_railed := p.igi_railed || railed }
    match score_sample s cfg with
    | none =>
      let c := c.set_phase s.phase p.drop
      (if c.pre.ring.n = 0 ∧ c.post.ring.n = 0 then { c with sensor_absent := true } else c, false)
    | some sc =>
      let c := { c.set_phase s.phase (p.take cfg sc) with sensor_absent := false }
      (if s.probe then
        { c with
          probes := c.probes + 1
          probe_good_run := tally (sc.occupancy ≤ cfg.restore_occupancy) c.probe_good_run }
      else c, true)

def ingest (x : HopsetSensor F) (s : TxSenseSample F) : HopsetSensor F :=
  if s.base_index.toNat ≥ x.n_.toNat then x
  else
    let rounds_seen_ :=
      if !x.any_seen_ then 1
      else if s.round ≠ x.last_round_ then x.rounds_seen_ + 1
      else x.rounds_seen_
    let i := s.base_index.toNat
    let r := ingest_chan x.cfg_ (x.ch_ i) s
    { x with
      any_seen_ := true
      rounds_seen_
      last_round_ := s.round
      ch_ := Function.update x.ch_ i r.1
      total_samples_ := if r.2 then x.total_samples_ + 1 else x.total_samples_ }

def on_activation (x : HopsetSensor F) (mask now_round : UInt64) : HopsetSensor F :=
  { x with
    ch_ := fun i => if i < x.n_.toNat ∧ has_bit (mask ^^^ x.mask_) i then {} else x.ch_ i
    mask_ := mask
    last_update_round_ := now_round
    have_update_ := true
    outstanding_ := false }

def clear_outstanding (x : HopsetSensor F) (now_round : UInt64) : HopsetSensor F :=
  { x with outstanding_ := false, last_update_round_ := now_round, have_update_ := true }

def ph_scored (cfg : TxSenseConfig F) (p : Phase F) : Bool := p.samples ≥ cfg.min_samples_per_chan

def worse_phase (c : Chan F) : Phase F := if c.post.ring.n ≥ c.pre.ring.n then c.post else c.pre

def samples_of (cfg : TxSenseConfig F) (c : Chan F) : UInt32 :=
  if cfg.require_post_burst then c.post.samples else c.pre.samples + c.post.samples

/-- Either phase will do for a read of a channel. -/
def scored (cfg : TxSenseConfig F) (c : Chan F) : Bool :=
  ph_scored cfg c.pre || ph_scored cfg c.post

def build_reasons (c : Chan F) : UInt32 :=
  let p := if c.post.ring.n ≠ 0 then c.post else c.pre
  (if p.sources_seen &&& kSrcCca ≠ 0 then RB_TX_CCA_HIGH else 0) |||
    (if p.sources_seen &&& kSrcNhm ≠ 0 then RB_TX_NHM_BUSY else 0) |||
    (if p.sources_seen &&& kSrcIgi ≠ 0 then RB_TX_IGI_ELEVATED else 0) |||
    (if c.post.ring.n ≠ 0 then RB_TX_POST_BURST else 0) |||
    (if c.pre.ring.n ≠ 0 then RB_TX_PRE_BURST else 0) |||
    (if p.igi_railed then RB_TX_IGI_RAILED else 0) |||
    RB_TX_CLEANER_ALT ||| RB_TX_PERSISTENT

/-- `fill` of the source. -/
def phase_evidence (cfg : TxSenseConfig F) (p : Phase F) : TxPhaseEvidence F where
  samples := p.samples
  dropped := p.dropped
  occupancy := Chan.mean p
  occupancy_max := p.ring.live.foldl (fun mx v => if v > mx then v else mx) 0.0
  dirty_run := p.dirty_run
  clean_run := p.clean_run
  sources_seen := p.sources_seen
  scored := p.samples ≥ cfg.min_samples_per_chan
  igi_railed := p.igi_railed

def summarize (x : HopsetSensor F) : List (TxChanEvidence F) :=
  (List.range x.n_.toNat).map fun i =>
    { pre := phase_evidence x.cfg_ (x.ch_ i).pre
      post := phase_evidence x.cfg_ (x.ch_ i).post
      active := has_bit x.mask_ i
      sensor_absent := (x.ch_ i).sensor_absent
      probe_good_run := (x.ch_ i).probe_good_run
      probes := (x.ch_ i).probes }

/-- The active channels that there is a read of. -/
def evident (x : HopsetSensor F) : List ℕ :=
  (List.range x.n_.toNat).filter fun i =>
    has_bit x.mask_ i && (x.ch_ i).have_evidence && scored x.cfg_ (x.ch_ i)

def band_stats (x : HopsetSensor F) (d : TxSenseCandidate F) : TxSenseCandidate F :=
  let occs := x.evident.map fun i => (x.ch_ i).occupancy
  let mn := occs.foldl (fun mn o => if o < mn then o else mn) 2.0
  let mx := occs.foldl (fun mx o => if o > mx then o else mx) (-1.0)
  let dirty_n := occs.countP (· ≥ x.cfg_.occupancy_dirty)
  let band_min_occ := if occs.length ≠ 0 then mn else 0.0
  let band_max_occ := if occs.length ≠ 0 then mx else 0.0
  { d with
    chans_with_evidence := occs.length
    band_min_occ
    band_max_occ
    broad_occupancy :=
      occs.length ≠ 0 ∧ ofInt dirty_n / ofInt occs.length ≥ x.cfg_.broad_occupancy_frac
    flat_band :=
      occs.length ≥ x.cfg_.min_channels_scored.toNat ∧
        band_max_occ - band_min_occ < x.cfg_.broad_spread_min }

def hold (d : TxSenseCandidate F) (h : TxSenseHold) : TxSenseCandidate F :=
  { d with kind := .None, hold := h }

/-- The first excluded channel that its probes have cleared. -/
def restorable (x : HopsetSensor F) : Option ℕ :=
  (List.range x.n_.toNat).find? fun i =>
    has_bit (full_mask x.n_ &&& ~~~x.mask_) i && (x.ch_ i).probe_good_run ≥ x.cfg_.restore_probes

/-- What the loop over the active channels has. -/
structure Scan (F : Type) where
  /-- The worst channel and its occupancy. -/
  worst : Option (ℕ × F) := none
  any_dirty : Bool := false
  post_missing : Bool := false

/-- The run that counts is that of the phase which gates. -/
def scan_chan (x : HopsetSensor F) (s : Scan F) (i : ℕ) : Scan F :=
  let c := x.ch_ i
  if !has_bit x.mask_ i || !c.have_evidence then s
  else
    let gate := if x.cfg_.require_post_burst then c.post else worse_phase c
    let s := { s with any_dirty := s.any_dirty || gate.dirty_run > 0 }
    if gate.dirty_run < x.cfg_.dirty_run then s
    else if x.cfg_.require_post_burst && !ph_scored x.cfg_ c.post then
      { s with post_missing := true }
    else if s.worst.all (c.occupancy > ·.2) then { s with worst := some (i, c.occupancy) }
    else s

def scan (x : HopsetSensor F) : Scan F := (List.range x.n_.toNat).foldl x.scan_chan {}

/-- Dirt before the burst that nothing after the burst bears out. -/
def pre_only (x : HopsetSensor F) : Bool :=
  (List.range x.n_.toNat).any fun i =>
    has_bit x.mask_ i && ph_scored x.cfg_ (x.ch_ i).pre &&
      (x.ch_ i).pre.dirty_run ≥ x.cfg_.dirty_run && !ph_scored x.cfg_ (x.ch_ i).post

/-- The active channels that are cleaner than the worst by the margin. -/
def cleaner (x : HopsetSensor F) (worst : ℕ) (worst_occ : F) : ℕ :=
  (List.range x.n_.toNat).countP fun i =>
    i ≠ worst && has_bit x.mask_ i && (x.ch_ i).have_evidence &&
      (x.ch_ i).occupancy ≤ worst_occ - x.cfg_.cleaner_margin

/-- The share of the base that a mask leaves out. -/
def excluded_share (n mask : UInt64) : F :=
  ofInt (popcount64 (full_mask n &&& ~~~mask)).toNat / ofInt n.toNat

/-- One clean channel is what a jammer leaves that herds, so it takes more. -/
def evaluate_exclude (x : HopsetSensor F) (d : TxSenseCandidate F) :
    TxSenseCandidate F × HopsetSensor F :=
  let s := x.scan
  match s.worst with
  | none =>
    if s.post_missing || x.cfg_.require_post_burst && x.pre_only then (hold d .PostBurstMissing, x)
    else (hold d (if s.any_dirty then .NotPersistent else .NoOccupancy), x)
  | some (worst, worst_occ) =>
    let after := x.mask_ &&& ~~~bit worst
    if samples_of x.cfg_ (x.ch_ worst) < x.cfg_.min_samples_per_chan then
      (hold d .InsufficientSamples, x)
    else if d.flat_band then (hold d .FlatBand, x)
    else if d.broad_occupancy then (hold d .BroadOccupancy, x)
    else if x.cleaner worst worst_occ < x.cfg_.min_cleaner_chans.toNat then
      (hold d .NoCleanerAlternative, x)
    else if popcount64 after < HopsetPolicy.floor_active x.cfg_.min_active then
      (hold d .MinActiveFloor, x)
    else if excluded_share x.n_ after > x.cfg_.max_excluded_frac then
      (hold d .MaxExcludedFrac, x)
    else
      ({ d with
          kind := .ProposeExclude
          target_index := worst
          proposed_mask := after
          reason_bitmap := build_reasons (x.ch_ worst) },
        { x with outstanding_ := true })

/-- The facts of the band are in the candidate even when it has no proposal. -/
def evaluate (x : HopsetSensor F) (now_round : UInt64) :
    TxSenseCandidate F × HopsetSensor F :=
  let d := x.band_stats
    { policy_hash := x.cfg_.policy_hash, sample_count := x.total_samples_, chans := x.summarize }
  if x.rounds_seen_ < x.cfg_.min_obs_rounds then (hold d .InsufficientRounds, x)
  else if x.outstanding_ then (hold d .ProposalOutstanding, x)
  else if x.have_update_ ∧ now_round - x.last_update_round_ < x.cfg_.cooldown_rounds then
    (hold d .Cooldown, x)
  else if d.chans_with_evidence = 0 then
    if (List.range x.n_.toNat).any fun i => (x.ch_ i).sensor_absent then (hold d .SensorAbsent, x)
    else (hold d .InsufficientSamples, x)
  else
    match x.restorable with
    | some i =>
      ({ d with
          kind := .ProposeRestore
          target_index := i
          proposed_mask := x.mask_ ||| bit i
          reason_bitmap := 0 },
        { x with outstanding_ := true })
    | none =>
      if d.chans_with_evidence < x.cfg_.min_channels_scored.toNat then
        (hold d .InsufficientChannels, x)
      else x.evaluate_exclude d

end HopsetSensor

end devourer.hopset
