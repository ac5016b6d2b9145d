-- The drone machine. It validates a proposal, fixes the activation on its own
-- clock, and arms it once the ground has echoed its nonce.
import Devourer.Lib.Runs
import Devourer.Chanmig.MigTypes
import Devourer.Chanmig.ReplayWindow

namespace devourer.chanmig

open MigAction

/-- What the drone validates a target against. The occupancy is a fraction of the air time. -/
structure MigCaps where
  bands : UInt8 := 0x02 ||| 0x04
  widths : UInt8 := 0xFF
  /-- Empty for any legal channel. -/
  allowed : List ChannelDef := []
  probe : Bool := false
  veto_busy_frac : Rat := 3 / 5

namespace MigCaps

def band_ok (c : MigCaps) (band : UInt8) : Bool :=
  if band = 2 then c.bands &&& 0x02 != 0
  else if band = 5 then c.bands &&& 0x04 != 0
  else false

def width_ok (c : MigCaps) (w : ChannelWidth_t) : Bool :=
  c.widths.toUInt32 &&& (1 <<< w.toUInt8.toUInt32) != 0

def allowed_ok (c : MigCaps) (d : ChannelDef) : Bool :=
  c.allowed.isEmpty || c.allowed.any (·.same_rf d)

end MigCaps

namespace MigResponder

inductive Phase
  | None
  | Draining
  | Retuning
  | RollbackRetune
  deriving DecidableEq

inductive ProbePhase
  | None
  | Drain
  | Retune
  | Sampling
  | Return
  deriving DecidableEq

def kProbeSampleNow : UInt8 := 200
def kSettleStatusMs : Int := 8000

end MigResponder

open MigResponder in
/-- `class MigResponder`, one field for each data member. -/
structure MigResponder where
  p_ : MigParams
  link_id_ : UInt32
  epoch_ : UInt32
  current_ : ChannelDef
  caps_ : MigCaps
  st_ : MigState := .Stable
  phase_ : Phase := .None
  rw_ : ReplayWindow := {}
  gen_ : UInt32 := 0
  ground_epoch_ : UInt32 := 0
  ground_nonce_ : UInt32 := 0
  drone_nonce_ : UInt32 := 0
  commit_target_ : ChannelDef := {}
  commit_source_ : ChannelDef := {}
  commit_rescue_ : ChannelDef := {}
  fallback_mode_ : UInt8 := 0
  activate_tsf_ : UInt64 := 0
  rollback_deadline_tsf_ : UInt64 := 0
  armed_ : Bool := false
  ack_deadline_ms_ : Int := 0
  next_commit_ms_ : Int := 0
  hold_down_until_ms_ : Int := 0
  next_status_ms_ : Int := 0
  settle_status_until_ms_ : Int := 0
  drain_deadline_ms_ : Int := 0
  cached_commit_ : MigMsg := {}
  pp_ : ProbePhase := .None
  probe_busy_ : Rat := 0
  probe_valid_ : Bool := false
  probe_veto_ : Bool := false

namespace MigResponder

/-- The constructor. -/
def init (params : MigParams) (link_id drone_epoch : UInt32) (current : ChannelDef)
    (caps : MigCaps) : MigResponder :=
  { p_ := params, link_id_ := link_id, epoch_ := drone_epoch, current_ := current, caps_ := caps }

/-! ## Messages and actions -/

def base (r : MigResponder) (t : MigMsgType) : MigMsg := { type := t, link_id := r.link_id_ }

def ev (r : MigResponder) : MigAction := EmitEvent r.st_.toUInt8

@[simp] theorem sent_ev (r : MigResponder) : r.ev.sent = none := rfl

def validation_msg (r : MigResponder) (target : ChannelDef) (method result : UInt8)
    (reason : MigReason) : MigAction :=
  send { r.base .MT_VALIDATION with
    drone_epoch := r.epoch_
    generation := r.gen_
    target := target
    method := method
    result := result
    reason := reason.toUInt8
    nhm_busy_pct := UInt8.ofInt (r.probe_busy_ * 100).floor
    energy_valid := if r.probe_valid_ then 1 else 0 } false

def abort_msg (r : MigResponder) (reason : MigReason) (effective : UInt8) : MigAction :=
  send { r.base .MT_ABORT with
    role := 1
    sender_epoch := r.epoch_
    generation := r.gen_
    reason := reason.toUInt8
    effective := effective } false

/-- The source's `ground_epoch` argument is not used and is left out. -/
def status_reject (r : MigResponder) (gen : UInt32) (reason : MigReason) : MigAction :=
  send { r.base .MT_STATUS with
    role := 1
    sender_epoch := r.epoch_
    generation := gen
    state := MigState.Stable.toUInt8
    current := r.current_
    reason := reason.toUInt8 } false

def make_status (r : MigResponder) : MigMsg :=
  { r.base .MT_STATUS with
    role := 1
    sender_epoch := r.epoch_
    generation := r.gen_
    state := r.st_.toUInt8
    current := r.current_ }

def make_commit (r : MigResponder) : MigMsg :=
  { r.base .MT_COMMIT with
    drone_epoch := r.epoch_
    ground_epoch := r.ground_epoch_
    generation := r.gen_
    target := r.commit_target_
    activate_tsf := r.activate_tsf_
    confirm_window_us := UInt32.ofInt (r.p_.verify_ms * 1000)
    rollback_deadline_tsf := r.rollback_deadline_tsf_
    rescue := r.commit_rescue_
    ground_nonce_echo := r.ground_nonce_
    drone_nonce := r.drone_nonce_
    armed := 0 }

@[simp] theorem retune_ne_ev (c : ChannelDef) (r : MigResponder) : RetuneTo c ≠ r.ev := by simp [ev]

@[simp] theorem retune_ne_validation_msg (c d : ChannelDef) (r : MigResponder) (x y : UInt8)
    (why : MigReason) : RetuneTo c ≠ r.validation_msg d x y why := retune_ne_send _ _ _

@[simp] theorem retune_ne_abort_msg (c : ChannelDef) (r : MigResponder) (why : MigReason)
    (x : UInt8) : RetuneTo c ≠ r.abort_msg why x := retune_ne_send _ _ _

@[simp] theorem retune_ne_status_reject (c : ChannelDef) (r : MigResponder) (g : UInt32)
    (why : MigReason) : RetuneTo c ≠ r.status_reject g why := retune_ne_send _ _ _

def fallback_channel (r : MigResponder) : ChannelDef :=
  if r.fallback_mode_ = 1 then r.commit_rescue_ else r.commit_source_

/-! ## A proposal -/

/-- The instant checks: legality, capabilities, the allowed list. -/
def validate_target (r : MigResponder) (t : ChannelDef) : MigReason :=
  if !validate t then .IllegalTarget
  else if !r.caps_.band_ok t.band then .UnsupportedWidth
  else if !r.caps_.width_ok t.width then .UnsupportedWidth
  else if t.no_ir then .IllegalTarget
  else if !r.caps_.allowed_ok t then .IllegalTarget
  else .None

/-- Builds the commit and sets the timers of `Committed` from the stashed proposal. -/
def enter_committed (r : MigResponder) (now : Int) (now_tsf : UInt64) :
    MigResponder × List MigAction :=
  let activate_tsf := now_tsf + UInt64.ofInt (r.p_.countdown_ms * 1000)
  let r := { r with
    drone_nonce_ := mig_mix_nonce r.epoch_ r.gen_ 0xD2
    activate_tsf_ := activate_tsf
    rollback_deadline_tsf_ := activate_tsf + UInt64.ofInt (r.p_.rollback_ms * 1000)
    armed_ := false
    ack_deadline_ms_ := now + r.p_.ack_timeout_ms
    next_commit_ms_ := now + r.p_.commit_interval_ms
    next_status_ms_ := now + r.p_.status_interval_ms }
  let r := { r with cached_commit_ := r.make_commit, st_ := .Committed }
  (r, [send r.cached_commit_ true, r.ev])

def enter_probe (r : MigResponder) : MigResponder × List MigAction :=
  let r := { r with
    st_ := .Validating
    pp_ := .Drain
    probe_veto_ := false
    probe_valid_ := false }
  (r, [StartDrain, r.ev])

/-- The accepted proposal, as `enter_committed` and the probe use it. -/
def stash (r : MigResponder) (m : MigMsg) : MigResponder :=
  { r with
    gen_ := m.generation
    ground_epoch_ := m.ground_epoch
    ground_nonce_ := m.ground_nonce
    commit_target_ := m.target
    commit_source_ := m.source
    commit_rescue_ := m.rescue
    fallback_mode_ := m.fallback_mode }

def clear_in_flight (r : MigResponder) : MigResponder := { r with rw_ := r.rw_.clear_in_flight }

/-- The last part of `on_proposal`: a generation that the window calls fresh. -/
def on_fresh_proposal (r : MigResponder) (m : MigMsg) (now : Int) (now_tsf : UInt64) :
    MigResponder × List MigAction :=
  if r.st_ ≠ .Stable ∨ now < r.hold_down_until_ms_ then
    (r.clear_in_flight, [r.status_reject m.generation .Busy])
  else if !m.source.same_rf r.current_ then
    (r.clear_in_flight, [r.status_reject m.generation .SourceMismatch])
  else
    let vr := r.validate_target m.target
    if vr ≠ .None then
      (r.clear_in_flight, [r.status_reject m.generation vr, r.validation_msg m.target 0 1 vr])
    else if r.caps_.probe then (r.stash m).enter_probe
    else (r.stash m).enter_committed now now_tsf

/-- The classification of `on_proposal`, once the epoch is settled. -/
def admit_generation (r : MigResponder) (m : MigMsg) (now : Int) (now_tsf : UInt64) :
    MigResponder × List MigAction :=
  let c := r.rw_.classify_proposal m.generation
  let r := { r with rw_ := c.1 }
  match c.2 with
  | .replay => (r, [])
  | .idempotent => (r, if r.st_ = .Committed then [send r.cached_commit_ true] else [])
  | .fresh => r.on_fresh_proposal m now now_tsf

/-- The epoch check of `on_proposal`. A proposal may introduce an epoch. -/
def admit_epoch (r : MigResponder) (m : MigMsg) (now : Int) (now_tsf : UInt64) :
    MigResponder × List MigAction :=
  let e := r.rw_.accept_epoch m.ground_epoch true
  let r := { r with rw_ := e.1 }
  if !e.2 then (r, [r.status_reject m.generation .StaleEpoch])
  else r.admit_generation m now now_tsf

/-- A proposal of another epoch than the known peer's: the ground restarted. -/
def epoch_change (r : MigResponder) (m : MigMsg) : Bool :=
  r.rw_.have_peer && m.ground_epoch != r.rw_.peer_epoch

/-- The drone has left the source channel of its exchange. -/
def moved (r : MigResponder) : Bool := r.gen_ != 0 && !r.current_.same_rf r.commit_source_

def on_proposal (r : MigResponder) (m : MigMsg) (now : Int) (now_tsf : UInt64) :
    MigResponder × List MigAction :=
  if r.epoch_change m ∧ r.st_ ≠ .Stable then
    let moved := r.moved
    let r := { r with phase_ := .None, rw_ := (r.rw_.accept_epoch m.ground_epoch true).1 }
    if moved then
      let r := { r with st_ := .Rollback }.clear_in_flight
      (r, [RetuneTo r.commit_source_, r.status_reject m.generation .Busy, r.ev])
    else
      -- still on the source: orphan the exchange and evaluate again
      { r with st_ := .Stable }.admit_epoch m now now_tsf
  else r.admit_epoch m now now_tsf

/-! ## The rest of an exchange -/

/-- The ground ack: it echoes the nonce of the drone. Its sender is not looked at. -/
def on_status (r : MigResponder) (m : MigMsg) : MigResponder × List MigAction :=
  if r.st_ = .Committed ∧ m.peer_nonce_echo = r.drone_nonce_ ∧ m.generation = r.gen_ then
    ({ r with armed_ := true }, [])
  else (r, [])

def on_confirm (r : MigResponder) (m : MigMsg) (now : Int) : MigResponder × List MigAction :=
  if r.st_ = .Verifying ∧ m.generation = r.gen_ ∧ m.drone_nonce_echo = r.drone_nonce_ then
    let r := { r with
      st_ := .Stable
      current_ := r.commit_target_
      settle_status_until_ms_ := now + kSettleStatusMs
      next_status_ms_ := now }
    (r, [StopMarkers, r.ev, GateNotify 0, Done 0])
  else (r, [])

/-- The repeated commit of `tick_committed`. The host stamps each one anew. -/
def tick_commit (r : MigResponder) (now : Int) : MigResponder × List MigAction :=
  if now ≥ r.next_commit_ms_ then
    ({ r with next_commit_ms_ := now + r.p_.commit_interval_ms }, [send r.cached_commit_ true])
  else (r, [])

/-- The activation of `tick_committed`, a drain budget early. -/
def tick_activate (r : MigResponder) (now : Int) (now_tsf : UInt64) :
    MigResponder × List MigAction :=
  if r.armed_ ∧ now_tsf + UInt64.ofInt r.p_.drain_deadline_ms * 1000 ≥ r.activate_tsf_ then
    let r := { r with
      st_ := .Switching
      phase_ := .Draining
      drain_deadline_ms_ := now + r.p_.drain_deadline_ms }
    (r, [StartDrain, r.ev])
  else (r, [])

def tick_committed (r : MigResponder) (now : Int) (now_tsf : UInt64) :
    MigResponder × List MigAction :=
  if !r.armed_ ∧ now ≥ r.ack_deadline_ms_ then
    -- no ack came: abort, and never activate unheard
    let r := { r with
      st_ := .Stable
      settle_status_until_ms_ := now + kSettleStatusMs
      next_status_ms_ := now }.clear_in_flight
    (r, [r.abort_msg .NoAck 0, r.ev])
  else
    let a := r.tick_commit now
    let t := a.1.tick_activate now now_tsf
    (t.1, a.2 ++ t.2)

def tick_verifying (r : MigResponder) (now_tsf : UInt64) : MigResponder × List MigAction :=
  if now_tsf ≥ r.rollback_deadline_tsf_ then
    let r := { r with st_ := .Rollback }
    (r, [StopMarkers, RetuneTo r.fallback_channel, r.ev])
  else (r, [])

def finish_rollback (r : MigResponder) (now : Int) : MigResponder × List MigAction :=
  let r := { r with
    st_ := .Stable
    hold_down_until_ms_ := now + r.p_.proposal_hold_down_ms
    settle_status_until_ms_ := now + kSettleStatusMs
    next_status_ms_ := now }.clear_in_flight
  (r, [StopMarkers, r.ev, GateNotify 1, Done 1])

/-! ## The entry points -/

def on_message (r : MigResponder) (m : MigMsg) (now : Int) (now_tsf : UInt64) :
    MigResponder × List MigAction :=
  match m.type with
  | .MT_PROPOSAL => r.on_proposal m now now_tsf
  | .MT_STATUS => r.on_status m
  | .MT_CONFIRM => r.on_confirm m now
  | _ => (r, [])

/-- The periodic status, which goes on for a while after the drone has settled. -/
def tick_status (r : MigResponder) (now : Int) : MigResponder × List MigAction :=
  if now ≥ r.next_status_ms_ ∧ (r.st_ ≠ .Stable ∨ now < r.settle_status_until_ms_) ∧ r.gen_ ≠ 0 then
    ({ r with next_status_ms_ := now + r.p_.status_interval_ms }, [send r.make_status false])
  else (r, [])

/-- The part of `on_tick` that depends on the state. -/
def tick_state (r : MigResponder) (now : Int) (now_tsf : UInt64) : MigResponder × List MigAction :=
  match r.st_ with
  | .Committed => r.tick_committed now now_tsf
  | .Switching =>
    -- the drain never finished: drop what is pending and retune anyway
    if r.phase_ = .Draining ∧ now ≥ r.drain_deadline_ms_ then
      ({ r with phase_ := .Retuning }, [RetuneTo r.commit_target_])
    else (r, [])
  | .Verifying => r.tick_verifying now_tsf
  | _ => (r, [])

def on_tick (r : MigResponder) (now : Int) (now_tsf : UInt64) : MigResponder × List MigAction :=
  let a := r.tick_status now
  let t := a.1.tick_state now now_tsf
  (t.1, a.2 ++ t.2)

def on_drain_done (r : MigResponder) : MigResponder × List MigAction :=
  if r.st_ = .Switching ∧ r.phase_ = .Draining then
    ({ r with phase_ := .Retuning }, [RetuneTo r.commit_target_])
  else if r.st_ = .Validating ∧ r.pp_ = .Drain then
    ({ r with pp_ := .Retune }, [RetuneTo r.commit_target_])
  else (r, [])

/-- The occupancy that the host sampled on the target of a probe. -/
def on_probe_sample (r : MigResponder) (busy_frac : Rat) (valid : Bool) :
    MigResponder × List MigAction :=
  if r.st_ ≠ .Validating ∨ r.pp_ ≠ .Sampling then (r, [])
  else
    let r := { r with
      probe_busy_ := busy_frac
      probe_valid_ := valid
      probe_veto_ := valid && decide (busy_frac > r.caps_.veto_busy_frac)
      pp_ := .Return }
    (r, [RetuneTo r.commit_source_])

/-- A retune of the switch has finished, or has failed. -/
def on_switch_retune (r : MigResponder) (ok : Bool) (now : Int) : MigResponder × List MigAction :=
  match r.phase_ with
  | .Retuning =>
    if ok then
      let r := { r with current_ := r.commit_target_, st_ := .Verifying }
      (r, [ArmMarkers r.commit_target_, ResumePump, r.ev])
    else
      ({ r with phase_ := .RollbackRetune, current_ := r.fallback_channel },
        [RetuneTo r.fallback_channel])
  | .RollbackRetune =>
    if ok then { r with current_ := r.fallback_channel }.finish_rollback now
    else
      -- even the fallback failed: rescue and abort
      let r := { r with
        current_ := r.commit_rescue_
        st_ := .Stable
        hold_down_until_ms_ := now + r.p_.proposal_hold_down_ms }
      (r, [RetuneTo r.commit_rescue_, r.abort_msg .RetuneFail 1, GateNotify 1, Done 2])
  | _ => (r, [])

/-- A retune of the probe has finished, or has failed. -/
def on_probe_retune (r : MigResponder) (ok : Bool) (now : Int) (now_tsf : UInt64) :
    MigResponder × List MigAction :=
  match r.pp_ with
  | .Retune =>
    if ok then
      ({ r with current_ := r.commit_target_, pp_ := .Sampling }, [EmitEvent kProbeSampleNow])
    else
      ({ r with probe_veto_ := true, probe_valid_ := false, pp_ := .Return },
        [RetuneTo r.commit_source_])
  | .Return =>
    let r := { r with current_ := if ok then r.commit_source_ else r.commit_rescue_, pp_ := .None }
    if !ok then
      let r := { r with st_ := .Stable }.clear_in_flight
      (r, [ResumePump, r.validation_msg r.commit_target_ 1 1 .RetuneFail,
        r.status_reject r.gen_ .RetuneFail, r.ev])
    else if r.probe_veto_ then
      let r := { r with st_ := .Stable }.clear_in_flight
      (r, [ResumePump, r.validation_msg r.commit_target_ 1 1 .Veto,
        r.status_reject r.gen_ .Veto, r.ev])
    else
      let c := r.enter_committed now now_tsf
      (c.1, ResumePump :: c.1.validation_msg c.1.commit_target_ 1 0 .None :: c.2)
  | _ => (r, [])

def on_retune_done (r : MigResponder) (ok : Bool) (now : Int) (now_tsf : UInt64) :
    MigResponder × List MigAction :=
  match r.st_ with
  | .Switching => r.on_switch_retune ok now
  | .Rollback => { r with current_ := r.fallback_channel }.finish_rollback now
  | .Validating => r.on_probe_retune ok now now_tsf
  | _ => (r, [])

/-! ## Runs -/

/-- What the host can call, with the clocks that it reads for it. -/
inductive Op
  | message (m : MigMsg) (now : Int) (now_tsf : UInt64)
  | tick (now : Int) (now_tsf : UInt64)
  | drain_done
  | probe_sample (busy_frac : Rat) (valid : Bool)
  | retune_done (ok : Bool) (now : Int) (now_tsf : UInt64)

def feed (r : MigResponder) : Op → MigResponder × List MigAction
  | .message m now now_tsf => r.on_message m now now_tsf
  | .tick now now_tsf => r.on_tick now now_tsf
  | .drain_done => r.on_drain_done
  | .probe_sample busy_frac valid => r.on_probe_sample busy_frac valid
  | .retune_done ok now now_tsf => r.on_retune_done ok now now_tsf

def step (r : MigResponder) (op : Op) : MigResponder := (r.feed op).1

def run (r : MigResponder) (ops : List Op) : MigResponder := Runs.after step r ops

end MigResponder

end devourer.chanmig
