-- The gate between the advice and the migration protocol: a move is proposed
-- only when a row of conditions holds, and how often is bounded by a cooldown,
-- a residency, a move cap and a backoff for each channel.
import Mathlib.Data.Rat.Defs
import Mathlib.Data.List.Basic
import Mathlib.Algebra.Order.Ring.Int
import Devourer.Lib.Runs
import Devourer.Lib.Signed
import Devourer.Chanmig.ChannelDef

namespace devourer.chanmig

/-! ## The advice -/

inductive Reason
  | RecommendBetterCandidate
  | HoldActiveHealthy
  | HoldImpairmentNotPersistent
  | HoldImpairmentNotChannel
  | HoldBroadDegradation
  | HoldCooldown
  | HoldPrimaryTelemetryStale
  | HoldNoQualifiedCandidate
  | HoldImprovementMargin
  | HoldScoutUnhealthy
  | RejEvidenceStale
  | RejInsufficientObservation
  | RejInsufficientRounds
  | RejIncompleteWidth
  | RejIllegalDef
  | RejNoIr
  | RejOccupied
  | RejBursty
  | RejOverlapPenalty
  | RejMixedAdapter
  | RejScoutUnhealthy
  | RejActiveChannel
  deriving DecidableEq

section

-- What the code computes in doubles, for any numbers with these operations.
variable (F : Type)

structure CandidateScore where
  def_ : ChannelDef
  score : F
  confidence : F

structure Decision where
  /-- `Kind::Recommend`, and else `Kind::Hold`. -/
  recommend : Bool := false
  primary_reason : Reason := .HoldPrimaryTelemetryStale
  target : ChannelDef := {}
  ranking : List (CandidateScore F) := []
  evidence_gen : UInt64 := 0

/-! ## The gate -/

inductive MigMode
  | Off
  | Advisory
  | Manual
  | Automatic
  deriving DecidableEq

inductive GateVerdict
  | Hold
  | Propose
  | AbortInFlight
  | ProposeRollback
  deriving DecidableEq

inductive GateReason
  | ModeOff
  | Advisory
  | NotImpaired
  | FaultWeakLink
  | FaultBroadband
  | FaultSaturation
  | FaultScout
  | FaultUsb
  | TelemetryUnhealthy
  | ClockUnsynced
  | ScoutStale
  | EvidenceStale
  | EvidenceIncomplete
  | Illegal
  | MarginLow
  | ConfidenceLow
  | Cooldown
  | MoveCap
  | Residency
  | HolddownChannel
  | Backoff
  | InFlight
  | Pinned
  | Inhibited
  | ApproveRequired
  | ControlMarginLow
  | NoRescueVerified
  | ProbationActive
  | ProbationRollback
  | MaterialChange
  | Propose
  deriving DecidableEq

structure GatePolicy where
  confidence_min : F
  cooldown_ms : ℤ := 300000
  residency_ms : ℤ := 120000
  move_cap : ℤ := 10
  holddown_base_ms : ℤ := 60000
  holddown_cap_ms : ℤ := 3600000
  control_margin_min : F
  material_change_frac : F

structure GateInputs where
  mode : MigMode := .Advisory
  rec_ : Option (Decision F) := none
  telemetry_ok : Bool := true
  clock_synced : Bool := true
  scout_healthy : Bool := true
  scout_survey_age_ms : ℤ := 0
  scout_max_age_ms : ℤ := 60000
  usb_ok : Bool := true
  control_link_margin : F
  rescue_verified : Bool := true
  in_flight : Bool := false
  probation_active : Bool := false
  probation_delivery_ok : Bool := true
  approve_next : Bool := false
  inhibit_until_ms : ℤ := INT64_MIN
  pinned : Option ChannelDef := none

/-- `INT64_MIN` stands for "never" in the times. -/
structure GateState where
  last_move_ms : ℤ := INT64_MIN
  moves_session : ℤ := 0
  residency_start_ms : ℤ := INT64_MIN
  rollback_streak : ℤ := 0
  /-- The key and the time of each channel that is held down. -/
  holddowns : List (UInt32 × ℤ) := []
  have_frozen : Bool := false
  frozen_gen : UInt64 := 0
  frozen_target : ChannelDef := {}
  frozen_score : F

end

structure GateOutcome where
  verdict : GateVerdict := .Hold
  reason : GateReason := .Advisory
  target : ChannelDef := {}
  evidence_gen : UInt64 := 0

def gate_reason_for_hold : Reason → GateReason
  | .HoldActiveHealthy | .HoldImpairmentNotPersistent => .NotImpaired
  | .HoldImpairmentNotChannel => .FaultWeakLink
  | .HoldBroadDegradation => .FaultBroadband
  | .HoldScoutUnhealthy => .FaultScout
  | .HoldPrimaryTelemetryStale => .TelemetryUnhealthy
  | .HoldImprovementMargin => .MarginLow
  | .HoldCooldown => .Cooldown
  | .HoldNoQualifiedCandidate => .EvidenceIncomplete
  | _ => .NotImpaired

def hold (r : GateReason) : GateOutcome := { verdict := .Hold, reason := r }

namespace GateState

variable {F : Type}

def holddown_for (st : GateState F) (key : UInt32) : ℤ :=
  match st.holddowns.find? (·.1 == key) with
  | some h => h.2
  | none => INT64_MIN

/-- The time of the first entry of a key, or a new entry. -/
def set_holddown_in (key : UInt32) (until_ms : ℤ) : List (UInt32 × ℤ) → List (UInt32 × ℤ)
  | [] => [(key, until_ms)]
  | h :: hs => if h.1 == key then (key, until_ms) :: hs else h :: set_holddown_in key until_ms hs

def set_holddown (st : GateState F) (key : UInt32) (until_ms : ℤ) : GateState F :=
  { st with holddowns := set_holddown_in key until_ms st.holddowns }

end GateState

namespace MigGate

variable {F : Type} [Zero F] [Sub F] [Mul F] [OfScientific F] [LT F] [DecidableLT F]

/-- The operator's overrides and the mode. -/
def overrides (inp : GateInputs F) (now_ms : ℤ) : Option GateReason :=
  if inp.mode = .Off then some .ModeOff
  else if inp.pinned.isSome then some .Pinned
  else if inp.inhibit_until_ms ≠ INT64_MIN ∧ now_ms < inp.inhibit_until_ms then some .Inhibited
  else none

def probation (inp : GateInputs F) : GateOutcome :=
  if !inp.probation_delivery_ok then { verdict := .ProposeRollback, reason := .ProbationRollback }
  else hold .ProbationActive

/-- The score of a channel in the ranking, or 0. -/
def score_of (rec_ : Decision F) (target : ChannelDef) : F :=
  match rec_.ranking.find? (·.def_.same_rf target) with
  | some c => c.score
  | none => 0

/-- A migration in flight is aborted only when the evidence for it changed. -/
def in_flight (inp : GateInputs F) (st : GateState F) (pol : GatePolicy F) : GateOutcome :=
  match inp.rec_ with
  | none => hold .InFlight
  | some rec_ =>
    if st.have_frozen && rec_.recommend then
      let target_moved := !rec_.target.same_rf st.frozen_target
      let score_dropped : Bool :=
        score_of rec_ st.frozen_target < st.frozen_score - pol.material_change_frac * 0.1
      if target_moved || score_dropped then { verdict := .AbortInFlight, reason := .MaterialChange }
      else hold .InFlight
    else hold .InFlight

def health (inp : GateInputs F) : Option GateReason :=
  if !inp.telemetry_ok then some .TelemetryUnhealthy
  else if !inp.clock_synced then some .ClockUnsynced
  else if !inp.usb_ok then some .FaultUsb
  else if !inp.scout_healthy then some .FaultScout
  else if inp.scout_survey_age_ms > inp.scout_max_age_ms then some .ScoutStale
  else none

/-- The advice, if it is to move and its target is ranked with confidence. -/
def recommended (inp : GateInputs F) (pol : GatePolicy F) : Except GateReason (Decision F) :=
  match inp.rec_ with
  | none => .error .NotImpaired
  | some rec_ =>
    if !rec_.recommend then .error (gate_reason_for_hold rec_.primary_reason)
    else
      match rec_.ranking.find? (·.def_.same_rf rec_.target) with
      | none => .error .EvidenceIncomplete
      | some c => if c.confidence < pol.confidence_min then .error .ConfidenceLow else .ok rec_

/-- `start != INT64_MIN && now - start < limit`. -/
def within (now_ms start limit : ℤ) : Option Bool :=
  if start ≠ INT64_MIN then (i64 (now_ms - start)).map (· < limit) else some false

/-- The gates against oscillation. -/
def oscillation (st : GateState F) (pol : GatePolicy F) (key : UInt32) (now_ms : ℤ) :
    Option (Option GateReason) := do
  let cooling ← within now_ms st.last_move_ms pol.cooldown_ms
  if cooling then some (some .Cooldown)
  else do
    let settling ← within now_ms st.residency_start_ms pol.residency_ms
    if settling then some (some .Residency)
    else if st.moves_session ≥ pol.move_cap then some (some .MoveCap)
    else
      let hd := st.holddown_for key
      if hd ≠ INT64_MIN ∧ now_ms < hd then some (some .HolddownChannel) else some none

/-- Whether the move can be completed, and was approved where it must be. -/
def completes (inp : GateInputs F) (pol : GatePolicy F) : Option GateReason :=
  if inp.control_link_margin < pol.control_margin_min then some .ControlMarginLow
  else if !inp.rescue_verified then some .NoRescueVerified
  else if inp.mode = .Manual ∧ !inp.approve_next then some .ApproveRequired
  else none

/-- The proposal, with the evidence frozen for the test of a material change. -/
def propose (st : GateState F) (rec_ : Decision F) : GateOutcome × GateState F :=
  ({ verdict := .Propose, reason := .Propose, target := rec_.target,
      evidence_gen := rec_.evidence_gen },
    { st with
      have_frozen := true
      frozen_gen := rec_.evidence_gen
      frozen_target := rec_.target
      frozen_score := score_of rec_ rec_.target })

end MigGate

section

variable {F : Type} [Zero F] [Sub F] [Mul F] [OfScientific F] [LT F] [DecidableLT F]

/-- There is no result where the arithmetic on the times overflows. -/
def mig_gate_decide (inp : GateInputs F) (st : GateState F) (pol : GatePolicy F) (now_ms : ℤ) :
    Option (GateOutcome × GateState F) :=
  match MigGate.overrides inp now_ms with
  | some r => some (hold r, st)
  | none =>
    if inp.probation_active then some (MigGate.probation inp, st)
    else if inp.in_flight then some (MigGate.in_flight inp st pol, st)
    else if inp.mode = .Advisory then some (hold .Advisory, st)
    else
      match MigGate.health inp with
      | some r => some (hold r, st)
      | none =>
        match MigGate.recommended inp pol with
        | .error r => some (hold r, st)
        | .ok rec_ =>
          match MigGate.oscillation st pol rec_.target.key now_ms with
          | none => none
          | some (some r) => some (hold r, st)
          | some none =>
            match MigGate.completes inp pol with
            | some r => some (hold r, st)
            | none => some (MigGate.propose st rec_)

def mig_gate_on_confirmed (st : GateState F) (now_ms : ℤ) : Option (GateState F) := do
  let moves_session ← i32 (st.moves_session + 1)
  return { st with
    last_move_ms := now_ms
    residency_start_ms := now_ms
    moves_session
    rollback_streak := 0
    have_frozen := false }

/-- The doubling loop, with the turns that are left to it. -/
def MigGate.doubled (cap : ℤ) : ℕ → ℤ → Option ℤ
  | 0, backoff => some backoff
  | n + 1, backoff =>
    if backoff < cap then do
      let twice ← i64 (backoff * 2)
      MigGate.doubled cap n twice
    else some backoff

/-- How long a channel is held down at a streak of rollbacks. -/
def MigGate.backoff (pol : GatePolicy F) (rollback_streak : ℤ) : Option ℤ := do
  let backoff ← MigGate.doubled pol.holddown_cap_ms (rollback_streak - 1).toNat pol.holddown_base_ms
  return if backoff > pol.holddown_cap_ms then pol.holddown_cap_ms else backoff

def mig_gate_on_rolledback (st : GateState F) (target : ChannelDef) (pol : GatePolicy F)
    (now_ms : ℤ) : Option (GateState F) := do
  let rollback_streak ← i32 (st.rollback_streak + 1)
  let backoff ← MigGate.backoff pol rollback_streak
  let until_ms ← i64 (now_ms + backoff)
  return { st.set_holddown target.key until_ms with
    rollback_streak
    have_frozen := false
    last_move_ms := now_ms }

end

end devourer.chanmig
