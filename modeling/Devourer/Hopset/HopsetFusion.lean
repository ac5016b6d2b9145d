-- What becomes of the views of both ends: the receiver's proposal, unless the
-- transmitter has grounds of its own to object, and the transmitter's only
-- where the mode lets it speak.
import Devourer.Hopset.HopsetPolicy
import Devourer.Hopset.HopsetSense

namespace devourer.hopset

open DoubleOps

def RB_ORIGIN_SHIFT : UInt32 := 9
def RB_ORIGIN_MASK : UInt32 := 3 <<< RB_ORIGIN_SHIFT
def RB_TX_SENSOR_ABSENT : UInt32 := reason_bit 18
def RB_FUSE_TX_DISAGREES : UInt32 := reason_bit 20
def RB_FUSE_VETO_BROAD : UInt32 := reason_bit 21
def RB_FUSE_VETO_REMAIN : UInt32 := reason_bit 22
def RB_TX_REEXAMINED : UInt32 := reason_bit 23

inductive FusionMode
  /-- The transmitter observes and never acts. -/
  | RxAuthoritative
  | RxPlusTxVeto
  | EitherEndpoint
  | TxFailsafe
  deriving DecidableEq

def FusionMode.toUInt64 : FusionMode → UInt64
  | RxAuthoritative => 0
  | RxPlusTxVeto => 1
  | EitherEndpoint => 2
  | TxFailsafe => 3

inductive DecisionOrigin
  | Rx
  | Tx
  | Fused
  | Failsafe
  deriving DecidableEq

def DecisionOrigin.toUInt32 : DecisionOrigin → UInt32
  | Rx => 0
  | Tx => 1
  | Fused => 2
  | Failsafe => 3

/-- The origin rides in bits of the reason bitmap that were spare. -/
def rb_set_origin (bm : UInt32) (o : DecisionOrigin) : UInt32 :=
  bm &&& ~~~RB_ORIGIN_MASK ||| o.toUInt32 <<< RB_ORIGIN_SHIFT

inductive FusedAction
  | Hold
  | Exclude
  | Restore
  | Delay
  deriving DecidableEq

inductive FusionVeto
  | None
  | BroadTxDegradation
  | RemainingWorse
  | SensorAbsent
  | InsufficientTxEvidence
  deriving DecidableEq

inductive FusionHold
  | None
  | RxHeld
  | ModeForbidsTxOrigin
  | FeedbackAlive
  | VetoDelay
  | VetoReject
  deriving DecidableEq

/-- The peer was never heard. -/
def kNoFeedback : UInt64 := ~~~0

structure FusionConfig (F : Type) [DoubleOps F] where
  mode : FusionMode := .RxPlusTxVeto
  feedback_timeout_rounds : UInt64 := 30
  veto_on_broad_tx : Bool := true
  veto_on_remaining_worse : Bool := true
  remaining_worse_margin : F := 0.20
  veto_min_chans_scored : UInt32 := 3
  veto_broad_floor : F := 0.35
  max_consecutive_delays : UInt32 := 3
  reexamine_tx_exclusions : Bool := true
  reexamine_grace_rounds : UInt64 := 30
  /-- Against a delivery of the receiver's, which is a rational. -/
  corroborate_delivery : ℚ := 1 / 2

variable {F : Type} [DoubleOps F]

def FusionConfig.policy_hash (cfg : FusionConfig F) : UInt32 :=
  fnv_hash
    [cfg.mode.toUInt64, cfg.feedback_timeout_rounds, if cfg.veto_on_broad_tx then 1 else 0,
      if cfg.veto_on_remaining_worse then 1 else 0, foldd cfg.remaining_worse_margin,
      cfg.veto_min_chans_scored.toUInt64, foldd cfg.veto_broad_floor,
      cfg.max_consecutive_delays.toUInt64, if cfg.reexamine_tx_exclusions then 1 else 0,
      cfg.reexamine_grace_rounds, fixed_point cfg.corroborate_delivery]

structure FusedDecision (F : Type) [DoubleOps F] where
  origin : DecisionOrigin := .Rx
  action : FusedAction := .Hold
  mask : UInt64 := 0
  target_index : ℕ := 0
  reason_bitmap : UInt32 := 0
  hold : FusionHold := .None
  veto : FusionVeto := .None
  feedback_age_rounds : UInt64 := 0
  fusion_hash : UInt32 := 0
  rx_wanted_exclude : Bool := false
  tx_wanted_exclude : Bool := false
  endpoints_disagree_on_target : Bool := false
  tx_evidence_valid : Bool := false
  tx_target_occupancy : F := 0.0
  tx_band_min_occupancy : F := 0.0
  tx_band_max_occupancy : F := 0.0

/-- What the host has at a decision point. -/
structure FusionInput (F : Type) [DoubleOps F] where
  rx : Option HopsetDecision := none
  tx : Option (TxSenseCandidate F) := none
  active_mask : UInt64 := 0
  feedback_age_rounds : UInt64 := kNoFeedback
  now_round : UInt64 := 0
  tx_originated_mask : UInt64 := 0
  feedback_fresh_since_round : UInt64 := 0
  consecutive_delays : UInt32 := 0

/-! ## The veto -/

def tx_has (tx : TxSenseCandidate F) (i : ℕ) : Bool := tx.chans[i]?.any (·.have_evidence)

def tx_occ (tx : TxSenseCandidate F) (i : ℕ) : F := tx.chans[i]?.elim 0.0 (·.occupancy)

/-- The other active channels. -/
def survivors (tx : TxSenseCandidate F) (active_mask : UInt64) (target : ℕ) : List ℕ :=
  (List.range tx.chans.length).filter fun i => i ≠ target && has_bit active_mask i

/-- The band is uniform and dirty. A uniform band that is quiet is no doubt. -/
def broad_tx (cfg : FusionConfig F) (tx : TxSenseCandidate F) : Bool :=
  tx.broad_occupancy || (tx.flat_band && tx.band_max_occ ≥ cfg.veto_broad_floor)

/-- Every survivor was measured and is worse here than the target. -/
def remaining_worse (cfg : FusionConfig F) (tx : TxSenseCandidate F) (active_mask : UInt64)
    (target : ℕ) : Bool :=
  survivors tx active_mask target ≠ [] &&
    (survivors tx active_mask target).all fun i =>
      tx_has tx i && tx_occ tx i ≥ tx_occ tx target + cfg.remaining_worse_margin

/-- The grounds against an exclusion of the receiver's. Without evidence of its own the transmitter
has nothing to say. -/
def veto_for (cfg : FusionConfig F) (tx : TxSenseCandidate F) (active_mask : UInt64) (target : ℕ)
    (consecutive_delays : UInt32) : FusionVeto :=
  if tx.chans_with_evidence = 0 then
    if tx.chans.any (·.sensor_absent) then .SensorAbsent else .InsufficientTxEvidence
  else if tx.chans_with_evidence < cfg.veto_min_chans_scored.toNat ∨ !tx_has tx target then
    .InsufficientTxEvidence
  else if cfg.veto_on_broad_tx ∧ consecutive_delays < cfg.max_consecutive_delays ∧
      broad_tx cfg tx then
    .BroadTxDegradation
  else if cfg.veto_on_remaining_worse ∧ remaining_worse cfg tx active_mask target then
    .RemainingWorse
  else .None

/-! ## The fusion -/

def feedback_fresh (cfg : FusionConfig F) (inp : FusionInput F) : Bool :=
  inp.feedback_age_rounds ≠ kNoFeedback && inp.feedback_age_rounds ≤ cfg.feedback_timeout_rounds

/-- The receiver has delivered too little on a channel itself. -/
def corroborated (cfg : FusionConfig F) (rx : HopsetDecision) (i : ℕ) : Bool :=
  rx.chans[i]?.any fun c => c.scored && c.delivery < cfg.corroborate_delivery

/-- The first exclusion of the transmitter's that nothing corroborates, once the receiver has had
time to form a view. -/
def reexamined (cfg : FusionConfig F) (inp : FusionInput F) : Option ℕ :=
  if cfg.reexamine_tx_exclusions ∧ inp.tx_originated_mask ≠ 0 ∧ feedback_fresh cfg inp ∧
      inp.now_round ≥ inp.feedback_fresh_since_round + cfg.reexamine_grace_rounds then
    (List.range kMaxBaseChannels.toNat).find? fun i =>
      has_bit inp.tx_originated_mask i && !corroborated cfg (inp.rx.getD {}) i
  else none

/-- What every call reports and nobody acts on. -/
def report (cfg : FusionConfig F) (inp : FusionInput F) (rx : HopsetDecision)
    (tx : TxSenseCandidate F) :
    FusedDecision F :=
  let rx_wants : Bool := rx.kind = .ProposeExclude
  let tx_wants : Bool := tx.kind = .ProposeExclude
  let disagree :=
    rx_wants != tx_wants || (rx_wants && tx_wants && rx.target_index ≠ tx.target_index)
  let valid : Bool := tx.chans_with_evidence > 0
  { fusion_hash := cfg.policy_hash
    feedback_age_rounds := inp.feedback_age_rounds
    rx_wanted_exclude := rx_wants
    tx_wanted_exclude := tx_wants
    tx_evidence_valid := valid
    tx_band_min_occupancy := tx.band_min_occ
    tx_band_max_occupancy := tx.band_max_occ
    tx_target_occupancy :=
      if rx_wants && tx_has tx rx.target_index then tx_occ tx rx.target_index
      else if tx_wants && tx_has tx tx.target_index then tx_occ tx tx.target_index
      else 0.0
    endpoints_disagree_on_target := disagree
    reason_bitmap :=
      (if disagree then RB_FUSE_TX_DISAGREES else 0) |||
        if !valid && tx.chans.any (·.sensor_absent) then RB_TX_SENSOR_ABSENT else 0 }

/-- The receiver's exclusion, which only the two grounds of the veto keep back. -/
def fuse_exclude (d : FusedDecision F) (rx : HopsetDecision) (v : FusionVeto) : FusedDecision F :=
  let reasons := d.reason_bitmap ||| rx.reason_bitmap
  let d := { d with veto := v, target_index := rx.target_index }
  match v with
  | .BroadTxDegradation =>
    { d with
      origin := .Fused
      action := .Delay
      hold := .VetoDelay
      reason_bitmap := rb_set_origin (reasons ||| RB_FUSE_VETO_BROAD) .Fused }
  | .RemainingWorse =>
    { d with
      origin := .Fused
      action := .Hold
      hold := .VetoReject
      reason_bitmap := rb_set_origin (reasons ||| RB_FUSE_VETO_REMAIN) .Fused }
  | _ =>
    { d with
      origin := .Rx
      action := .Exclude
      mask := rx.proposed_mask
      reason_bitmap := rb_set_origin reasons .Rx }

def tx_speaks (d : FusedDecision F) (tx : TxSenseCandidate F) (origin : DecisionOrigin) :
    FusedDecision F :=
  { d with
    origin
    action := if tx.kind = .ProposeRestore then .Restore else .Exclude
    mask := tx.proposed_mask
    target_index := tx.target_index
    reason_bitmap := rb_set_origin (d.reason_bitmap ||| tx.reason_bitmap) origin }

/-- The receiver had nothing to say. Whether the transmitter may speak is for the mode. -/
def fuse_tx (cfg : FusionConfig F) (inp : FusionInput F) (d : FusedDecision F)
    (tx : TxSenseCandidate F) :
    FusedDecision F :=
  if tx.kind = .None then { d with origin := .Rx, action := .Hold, hold := .RxHeld }
  else
    let d := { d with target_index := tx.target_index }
    match cfg.mode with
    | .RxAuthoritative | .RxPlusTxVeto =>
      { d with origin := .Rx, action := .Hold, hold := .ModeForbidsTxOrigin }
    | .TxFailsafe =>
      if feedback_fresh cfg inp then
        { d with origin := .Rx, action := .Hold, hold := .FeedbackAlive }
      else tx_speaks d tx .Failsafe
    | .EitherEndpoint => tx_speaks d tx .Tx

/-- Giving a channel back outranks taking one away. -/
def fuse (cfg : FusionConfig F) (inp : FusionInput F) : FusedDecision F :=
  let rx := inp.rx.getD {}
  let tx := inp.tx.getD {}
  let d := report cfg inp rx tx
  match reexamined cfg inp with
  | some i =>
    { d with
      origin := .Fused
      action := .Restore
      target_index := i
      mask := inp.active_mask ||| bit i
      reason_bitmap := rb_set_origin (d.reason_bitmap ||| RB_TX_REEXAMINED) .Fused }
  | none =>
    match rx.kind with
    | .ProposeRestore =>
      { d with
        origin := .Rx
        action := .Restore
        mask := rx.proposed_mask
        target_index := rx.target_index
        reason_bitmap := rb_set_origin (d.reason_bitmap ||| rx.reason_bitmap) .Rx }
    | .ProposeExclude =>
      fuse_exclude d rx
        (if cfg.mode = .RxAuthoritative then .None
          else veto_for cfg tx inp.active_mask rx.target_index inp.consecutive_delays)
    | .Hold => fuse_tx cfg inp d tx

end devourer.hopset
