-- The ground machine. It proposes a target, acks the commit of the drone,
-- follows the drone's schedule, and scans to reunite when it loses it.
import Devourer.Chanmig.MigTypes

namespace devourer.chanmig

open MigAction

/-- `class MigProposer`, one field for each data member. -/
structure MigProposer where
  p_ : MigParams
  link_id_ : UInt32
  epoch_ : UInt32
  source_ : ChannelDef
  current_ : ChannelDef
  st_ : MigState := .Stable
  gen_ : UInt32 := 0
  nonce_ : UInt32 := 0
  evidence_gen_ : UInt32 := 0
  target_ : ChannelDef := {}
  rescue_ : ChannelDef := {}
  tries_ : Int := 0
  next_send_ms_ : Int := 0
  drone_epoch_ : UInt32 := 0
  drone_nonce_ : UInt32 := 0
  commit_target_ : ChannelDef := {}
  commit_rescue_ : ChannelDef := {}
  activate_tsf_ : UInt64 := 0
  commit_tx_tsf_ : UInt64 := 0
  activate_local_ms_ : Int := 0
  retune_at_ms_ : Int := 0
  next_status_ms_ : Int := 0
  verify_deadline_ms_ : Int := 0
  blank_until_ms_ : Int := 0
  next_confirm_ms_ : Int := 0
  follow_deadline_ms_ : Int := 0
  markers_seen_ : Int := 0
  video_seen_ : Int := 0
  got_gen_marker_ : Bool := false
  verified_ : Bool := false
  wrong_channel_ : UInt32 := 0
  follow_channel_ : ChannelDef := {}
  follow_pending_ : Bool := false
  recov_pattern_ : List ChannelDef := [{}, {}, {}, {}]
  recov_len_ : Nat := 0
  recov_idx_ : Nat := 0
  recov_next_ms_ : Int := 0
  recov_start_ms_ : Int := 0

namespace MigProposer

/-- The constructor. -/
def init (params : MigParams) (link_id ground_epoch : UInt32) (source : ChannelDef) : MigProposer :=
  { p_ := params
    link_id_ := link_id
    epoch_ := ground_epoch
    source_ := source
    current_ := source }

/-! ## Messages and actions -/

def make_proposal (s : MigProposer) : MigMsg :=
  { type := .MT_PROPOSAL
    link_id := s.link_id_
    ground_epoch := s.epoch_
    generation := s.gen_
    source := s.source_
    target := s.target_
    evidence_gen := s.evidence_gen_
    fallback_mode := 0
    rescue := s.rescue_
    ground_nonce := s.nonce_ }

/-- The commit-ack: a status that echoes the nonce of the drone. -/
def make_status_ack (s : MigProposer) : MigMsg :=
  { type := .MT_STATUS
    link_id := s.link_id_
    role := 0
    sender_epoch := s.epoch_
    generation := s.gen_
    state := s.st_.toUInt8
    current := s.current_
    peer_nonce_echo := s.drone_nonce_ }

def make_confirm (s : MigProposer) : MigMsg :=
  { type := .MT_CONFIRM
    link_id := s.link_id_
    ground_epoch := s.epoch_
    generation := s.gen_
    drone_nonce_echo := s.drone_nonce_
    marker_count := UInt16.ofInt s.markers_seen_
    video_frames := UInt16.ofInt s.video_seen_ }

def ev (s : MigProposer) : MigAction := EmitEvent s.st_.toUInt8

@[simp] theorem sent_ev (s : MigProposer) : s.ev.sent = none := rfl

/-- The code of an exchange that ended on a channel: 0 if that is the committed target. -/
def code_at (s : MigProposer) (c : ChannelDef) : UInt8 :=
  if c.same_rf s.commit_target_ then 0 else 1

def recov_channel (s : MigProposer) : ChannelDef := s.recov_pattern_.getD s.recov_idx_ {}

/-! ## The steps of an exchange -/

/-- The operator's or the gate's trigger. It does nothing unless the machine is stable. -/
def start (s : MigProposer) (target : ChannelDef) (evidence_gen : UInt32) (rescue : ChannelDef)
    (now : Int) : MigProposer × List MigAction :=
  if s.st_ ≠ .Stable then (s, [])
  else
    let s := { s with
      gen_ := s.gen_ + 1
      nonce_ := mig_mix_nonce s.epoch_ (s.gen_ + 1) 0xA1
      target_ := target
      rescue_ := rescue
      evidence_gen_ := evidence_gen
      st_ := .Proposed
      tries_ := 1
      next_send_ms_ := now + s.p_.proposal_interval_ms }
    (s, [send s.make_proposal true, s.ev])

/-- The ack of `tick_committed`. -/
def tick_ack (s : MigProposer) (now : Int) : MigProposer × List MigAction :=
  if now ≥ s.next_status_ms_ then
    ({ s with next_status_ms_ := now + s.p_.commit_interval_ms }, [send s.make_status_ack false])
  else (s, [])

/-- The retune of `tick_committed`. -/
def tick_activate (s : MigProposer) (now : Int) : MigProposer × List MigAction :=
  if now ≥ s.retune_at_ms_ then
    let s := { s with st_ := .Switching, blank_until_ms_ := now + s.p_.blank_window_ms }
    (s, [RetuneTo s.commit_target_, s.ev])
  else (s, [])

def tick_committed (s : MigProposer) (now : Int) : MigProposer × List MigAction :=
  let a := s.tick_ack now
  let t := a.1.tick_activate now
  (t.1, a.2 ++ t.2)

/-- The first half of `on_commit` in `Proposed`: the machine as it enters `Committed`. -/
def adopt_commit (s : MigProposer) (m : MigMsg) (now : Int) : MigProposer :=
  -- the difference is unsigned, and so is the division
  let offset_ms : Int := ((m.activate_tsf - m.tx_tsf) / 1000).toNat
  let activate_local_ms := now + offset_ms
  let retune_at_ms := activate_local_ms - s.p_.lead_ms
  { s with
    drone_epoch_ := m.drone_epoch
    drone_nonce_ := m.drone_nonce
    commit_target_ := m.target
    commit_rescue_ := m.rescue
    activate_tsf_ := m.activate_tsf
    commit_tx_tsf_ := m.tx_tsf
    activate_local_ms_ := activate_local_ms
    retune_at_ms_ := if retune_at_ms < now then now else retune_at_ms
    st_ := .Committed
    next_status_ms_ := now
    follow_deadline_ms_ := activate_local_ms + s.p_.rollback_ms + 2000 }

/-- The nonce and generation gate of `on_commit`. -/
def commit_matches (s : MigProposer) (m : MigMsg) : Bool :=
  m.generation == s.gen_ && m.ground_nonce_echo == s.nonce_

def on_commit (s : MigProposer) (m : MigMsg) (now : Int) : MigProposer × List MigAction :=
  if !s.commit_matches m then (s, [])
  else match s.st_ with
    | .Proposed =>
      -- the first ack goes out at once
      let t := (s.adopt_commit m now).tick_committed now
      (t.1, (s.adopt_commit m now).ev :: t.2)
    | .Committed => (s, [send s.make_status_ack false])
    | _ => (s, [])

/-- Goes where the drone says it settled. -/
def follow_drone (s : MigProposer) (chan : ChannelDef) : MigProposer × List MigAction :=
  if s.current_.same_rf chan then
    let s := { s with st_ := .Stable, current_ := chan }
    let code := s.code_at chan
    let confirm := if chan.same_rf s.commit_target_ then [send s.make_confirm true] else []
    (s, confirm ++ [s.ev, GateNotify code, Done code])
  else
    let s := { s with follow_channel_ := chan, follow_pending_ := true, st_ := .Switching }
    (s, [RetuneTo chan, s.ev])

def on_status (s : MigProposer) (m : MigMsg) : MigProposer × List MigAction :=
  if s.st_ = .Proposed ∧ m.reason ≠ 0 then
    ({ s with st_ := .Stable, current_ := s.source_ }, [EmitEvent m.reason, Done 1])
  else if m.role = 1 ∧ m.generation = s.gen_ ∧
      (s.st_ = .Committed ∨ s.st_ = .Switching ∨ s.st_ = .Verifying) ∧
      m.state = MigState.Stable.toUInt8 then
    s.follow_drone m.current
  else (s, [])

/-- Starts to confirm once the markers or the video prove the channel. -/
def maybe_confirm (s : MigProposer) (now : Int) : MigProposer × List MigAction :=
  if !s.verified_ ∧ (s.markers_seen_ ≥ s.p_.verify_markers ∨ s.video_seen_ ≥ s.p_.verify_video) then
    let s := { s with verified_ := true, next_confirm_ms_ := now + s.p_.commit_interval_ms }
    (s, [send s.make_confirm true])
  else (s, [])

def recover_to (s : MigProposer) (c : ChannelDef) : MigProposer × List MigAction :=
  let s := { s with st_ := .Stable, current_ := c }
  (s, [s.ev, GateNotify (s.code_at c), Done (s.code_at c)])

def enter_recovery (s : MigProposer) (now : Int) : MigProposer :=
  let s := { s with
    recov_pattern_ := [s.source_, s.commit_target_, s.source_, s.commit_rescue_]
    recov_len_ := 4
    recov_idx_ := 0
    recov_start_ms_ := now
    recov_next_ms_ := now + s.p_.recovery_dwell_ms
    st_ := .Recovery }
  { s with current_ := s.recov_channel }

def on_marker (s : MigProposer) (m : MigMsg) (now : Int) : MigProposer × List MigAction :=
  if m.generation ≠ s.gen_ ∨ m.drone_epoch ≠ s.drone_epoch_ then (s, [])
  else match s.st_ with
    | .Verifying =>
      if !m.aired_on.same_rf s.commit_target_ then
        ({ s with wrong_channel_ := s.wrong_channel_ + 1 }, [])
      else if now < s.blank_until_ms_ then (s, [])
      else
        let s := { s with got_gen_marker_ := true, markers_seen_ := s.markers_seen_ + 1 }
        s.maybe_confirm now
    | .Recovery => s.recover_to m.aired_on
    | _ => (s, [])

/-- An abort is taken in any state and for any generation. -/
def on_abort (s : MigProposer) (m : MigMsg) (now : Int) : MigProposer × List MigAction :=
  if m.effective = 0 then
    let s := { s with st_ := .Stable, current_ := s.source_ }
    (s, [s.ev, Done 1])
  else
    let s := s.enter_recovery now
    (s, [s.ev, RetuneTo s.recov_channel])

def tick_proposed (s : MigProposer) (now : Int) : MigProposer × List MigAction :=
  if now < s.next_send_ms_ then (s, [])
  else if s.tries_ ≥ s.p_.proposal_max_tries then
    let s := { s with st_ := .Stable, current_ := s.source_ }
    (s, [s.ev, Done 1])
  else
    let s := { s with tries_ := s.tries_ + 1, next_send_ms_ := now + s.p_.proposal_interval_ms }
    (s, [send s.make_proposal true])

/-- The repeated confirm of `tick_verifying`. -/
def tick_confirm (s : MigProposer) (now : Int) : MigProposer × List MigAction :=
  if s.verified_ ∧ now ≥ s.next_confirm_ms_ then
    let s := { s with next_confirm_ms_ := now + s.p_.commit_interval_ms }
    (s, [send s.make_confirm true])
  else (s, [])

/-- The backstop of `tick_verifying`: the drone has not said in time where it settled. -/
def tick_follow (s : MigProposer) (now : Int) : MigProposer × List MigAction :=
  if now ≥ s.follow_deadline_ms_ then
    let s := s.enter_recovery now
    (s, [s.ev, RetuneTo s.recov_channel])
  else (s, [])

def tick_verifying (s : MigProposer) (now : Int) : MigProposer × List MigAction :=
  let a := s.tick_confirm now
  let t := a.1.tick_follow now
  (t.1, a.2 ++ t.2)

def tick_recovery (s : MigProposer) (now : Int) : MigProposer × List MigAction :=
  if now < s.recov_next_ms_ then (s, [])
  else
    let s := { s with
      recov_idx_ := (s.recov_idx_ + 1) % s.recov_len_
      recov_next_ms_ := now + s.p_.recovery_dwell_ms }
    -- the code of an exhausted recovery
    let e := if now - s.recov_start_ms_ > s.p_.recovery_giveup_ms then [EmitEvent 255] else []
    (s, RetuneTo s.recov_channel :: e)

/-! ## The entry points -/

def on_message (s : MigProposer) (m : MigMsg) (now : Int) : MigProposer × List MigAction :=
  match m.type with
  | .MT_COMMIT => s.on_commit m now
  | .MT_STATUS => s.on_status m
  | .MT_MARKER => s.on_marker m now
  | .MT_ABORT => s.on_abort m now
  | _ => (s, [])

def on_tick (s : MigProposer) (now : Int) : MigProposer × List MigAction :=
  match s.st_ with
  | .Proposed => s.tick_proposed now
  | .Committed => s.tick_committed now
  | .Verifying => s.tick_verifying now
  | .Recovery => s.tick_recovery now
  | _ => (s, [])

/-- The host has retuned its receiver. -/
def on_retune_done (s : MigProposer) : MigProposer × List MigAction :=
  if s.st_ ≠ .Switching then (s, [])
  else if s.follow_pending_ then
    let s := { s with follow_pending_ := false, st_ := .Stable, current_ := s.follow_channel_ }
    let code := s.code_at s.follow_channel_
    (s, [s.ev, GateNotify code, Done code])
  else
    let s := { s with
      st_ := .Verifying
      verify_deadline_ms_ := s.activate_local_ms_ + s.p_.verify_ms
      markers_seen_ := 0
      video_seen_ := 0
      got_gen_marker_ := false
      verified_ := false
      current_ := s.commit_target_ }
    (s, [s.ev])

/-- A video frame decoded on the current channel. -/
def on_video (s : MigProposer) (now : Int) : MigProposer × List MigAction :=
  match s.st_ with
  | .Verifying =>
    if now < s.blank_until_ms_ ∨ !s.got_gen_marker_ then (s, [])
    else { s with video_seen_ := s.video_seen_ + 1 }.maybe_confirm now
  | .Recovery => s.recover_to s.recov_channel
  | _ => (s, [])

/-! ## Runs -/

/-- What the host can call, with the clock that it reads for it. -/
inductive Op
  | start (target : ChannelDef) (evidence_gen : UInt32) (rescue : ChannelDef) (now : Int)
  | message (m : MigMsg) (now : Int)
  | tick (now : Int)
  | retune_done
  | video (now : Int)

def feed (s : MigProposer) : Op → MigProposer × List MigAction
  | .start target evidence_gen rescue now => s.start target evidence_gen rescue now
  | .message m now => s.on_message m now
  | .tick now => s.on_tick now
  | .retune_done => s.on_retune_done
  | .video now => s.on_video now

end MigProposer

end devourer.chanmig
