-- The receiver, which follows the schedule. It proposes, arms the commits of
-- the authority and puts them in force at their slot, and takes the state in
-- force from a beacon when it has missed one.
import Devourer.Hopset.HopsetTypes

namespace devourer.hopset

open HopsetAction

inductive HopsetFollower.State
  | Synced
  | Proposing
  | Pending
  | Recovering
  deriving DecidableEq

/-- `class HopsetFollower`, one field for each data member. -/
structure HopsetFollower where
  p_ : HopsetParams
  epoch_ : UInt32
  st_ : HopsetFollower.State := .Synced
  cur_ : HopsetState
  pend_ : HopsetState := {}
  prop_ : HopsetMsg := {}
  tries_ : UInt32 := 0
  last_prop_slot_ : UInt64 := 0
  last_status_slot_ : UInt64 := 0
  have_status_anchor_ : Bool := false
  have_auth_ : Bool := false
  auth_epoch_ : UInt32 := 0
  last_mismatch_gen_ : UInt32 := 0
  prev_generation_ : UInt32 := 0
  activated_slot_ : UInt64 := 0
  have_prev_ : Bool := false

namespace HopsetFollower

/-- The constructor. -/
def init (params : HopsetParams) (epoch : UInt32) : HopsetFollower :=
  { p_ := params
    epoch_ := epoch
    cur_ := { generation := 0, active_mask := full_mask params.n_base } }

def drop (s : HopsetFollower) (r : HopsetReason) : HopsetFollower × List HopsetAction :=
  (s, [Event .Reject r])

/-- The epoch is adopted from any commit or status that passes the checks. -/
def adopt_epoch (s : HopsetFollower) (e : UInt32) : HopsetFollower :=
  if !s.have_auth_ ∨ s.auth_epoch_ ≠ e then { s with have_auth_ := true, auth_epoch_ := e } else s

/-- The pending state is put in force. -/
def activate (s : HopsetFollower) : HopsetFollower × List HopsetAction :=
  let s := { s with
    prev_generation_ := s.cur_.generation
    have_prev_ := true
    activated_slot_ := s.pend_.activate_slot
    cur_ := s.pend_
    st_ := .Synced }
  (s, [Activate s.cur_, Event .Activate .None s.cur_])

def resync_check (s : HopsetFollower) : HopsetFollower × List HopsetAction :=
  if s.st_ = .Recovering then ({ s with st_ := .Synced }, [Event .Recover .None s.cur_])
    else (s, [])

/-- A slot that is too far ahead. -/
def beyond (s : HopsetFollower) (slot now_slot : UInt64) : Bool :=
  slot > now_slot && slot - now_slot > s.p_.max_lead_slots

/-! ## The entry points -/

/-- Asks the authority for a change of the mask. -/
def propose (s : HopsetFollower) (mask : UInt64) (observation_count reason_bitmap nonce : UInt32)
    (now_slot : UInt64) : HopsetFollower × List HopsetAction :=
  if s.st_ ≠ .Synced then s.drop .Busy
  else
    let s := { s with
      prop_ :=
        { type := .HT_PROPOSAL
          link_id := s.p_.link_id
          rx_epoch := s.epoch_
          generation := 0
          active_mask := mask
          base_fp := s.p_.base_fp
          observation_count := observation_count
          reason_bitmap := reason_bitmap
          rx_nonce := nonce }
      tries_ := 1
      last_prop_slot_ := now_slot
      st_ := .Proposing }
    (s, [SendControl s.prop_, Event .Propose .None {} s.prop_])

/-- What is wrong with a commit, apart from its age. -/
def commit_reason (s : HopsetFollower) (m : HopsetMsg) : HopsetReason :=
  if m.base_fp ≠ s.p_.base_fp then .BadBaseFp
  else if m.generation ≥ kGenCeiling then .GenCeiling
  else if !mask_valid m.active_mask s.p_.n_base s.p_.min_active then
    if m.active_mask &&& ~~~(full_mask s.p_.n_base) ≠ 0 then .BadMask else .LowDiversity
  else .None

/-- The commit that is armed already. -/
def repeats (s : HopsetFollower) (m : HopsetMsg) : Bool :=
  s.st_ == .Pending && m.generation == s.pend_.generation &&
    m.active_mask == s.pend_.active_mask && m.activate_slot == s.pend_.activate_slot

/-- A commit for a proposal that is not the one in the air. -/
def misdirected (s : HopsetFollower) (m : HopsetMsg) : Bool :=
  m.rx_epoch_echo == s.epoch_ && s.epoch_ != 0 &&
    (s.st_ != .Proposing || m.rx_nonce_echo != s.prop_.rx_nonce)

/-- The state that a commit announces. -/
def of_commit (m : HopsetMsg) : HopsetState :=
  { epoch := m.tx_epoch
    generation := m.generation
    active_mask := m.active_mask
    activate_round := m.activate_round
    activate_slot := m.activate_slot }

/-- A commit that passes the checks: one whose slot has passed is joined at once. -/
def arm (s : HopsetFollower) (m : HopsetMsg) (now_slot : UInt64) :
    HopsetFollower × List HopsetAction :=
  let event := if s.st_ = .Recovering then HopsetEvent.Recover else .Commit
  let s := { s.adopt_epoch m.tx_epoch with pend_ := of_commit m }
  if m.activate_slot ≤ now_slot then
    (s.activate.1, Event event .None s.pend_ :: s.activate.2)
  else ({ s with st_ := .Pending }, [Event event .None s.pend_])

def on_commit (s : HopsetFollower) (m : HopsetMsg) (now_slot : UInt64) :
    HopsetFollower × List HopsetAction :=
  let same_epoch : Bool := s.have_auth_ && m.tx_epoch == s.auth_epoch_
  if s.commit_reason m ≠ .None then s.drop (s.commit_reason m)
  else if same_epoch ∧ s.repeats m then (s, [])
  else if same_epoch ∧ m.generation ≤ s.cur_.generation then s.drop .ReplayGen
  else if s.misdirected m then s.drop .NonceMismatch
  else if s.beyond m.activate_slot now_slot then s.drop .ActivationWindow
  else s.arm m now_slot

/-- The state that a beacon says is in force. -/
def of_status (s : HopsetFollower) (m : HopsetMsg) : HopsetState :=
  { epoch := m.sender_epoch
    generation := m.generation
    active_mask := if m.generation = 0 then full_mask s.p_.n_base else m.active_mask
    activate_round := 0
    activate_slot := m.activate_slot }

/-- A beacon of a newer generation, or of another boot, is taken over outright. -/
def recover (s : HopsetFollower) (m : HopsetMsg) : HopsetFollower × List HopsetAction :=
  let s := { s.adopt_epoch m.sender_epoch with pend_ := s.of_status m }
  (s.activate.1, Event .Recover .None s.pend_ :: s.activate.2)

def on_status (s : HopsetFollower) (m : HopsetMsg) (now_slot : UInt64) :
    HopsetFollower × List HopsetAction :=
  let same_epoch : Bool := s.have_auth_ && m.sender_epoch == s.auth_epoch_
  if m.role ≠ 1 then (s, [])
  else if m.base_fp ≠ s.p_.base_fp then s.drop .BadBaseFp
  else if m.reason ≠ HopsetReason.None.toUInt8 ∧ s.st_ = .Proposing ∧
      m.rx_nonce_echo = s.prop_.rx_nonce then
    ({ s with st_ := .Synced }, [Event .Reject (.ofUInt8 m.reason)])
  else if !mask_valid m.active_mask s.p_.n_base s.p_.min_active ∧ m.generation ≠ 0 then
    s.drop .BadMask
  else if s.beyond m.activate_slot now_slot then s.drop .ActivationWindow
  else if same_epoch ∧ m.generation < s.cur_.generation then s.drop .ReplayGen
  else if same_epoch ∧ m.generation = s.cur_.generation then s.resync_check
  else s.recover m

/-- A marker on the air names the generation of the transmitter. -/
def on_marker (s : HopsetFollower) (marker_gen : UInt32) (fp_matches : Bool)
    (marker_slot : UInt64) :
    HopsetFollower × List HopsetAction :=
  let known : Bool := (marker_gen = s.cur_.generation ∨
    s.st_ = .Pending ∧ marker_gen = s.pend_.generation) ∧ fp_matches
  if known then (s, [])
  -- a frame of the generation just left, which crossed the boundary in flight
  else if s.have_prev_ ∧ marker_gen = s.prev_generation_ ∧
      marker_slot < s.activated_slot_ + s.p_.stale_marker_slots then (s, [])
  else if s.st_ = .Recovering ∧ marker_gen = s.last_mismatch_gen_ then (s, [])
  else
    let s := { s with last_mismatch_gen_ := marker_gen, st_ := .Recovering }
    (s, [Event .GenMismatch .None s.cur_ { generation := marker_gen }])

def status_msg (s : HopsetFollower) : HopsetMsg :=
  { type := .HT_STATUS
    link_id := s.p_.link_id
    role := 0
    sender_epoch := s.epoch_
    generation := s.cur_.generation
    active_mask := s.cur_.active_mask
    base_fp := s.p_.base_fp
    activate_slot := s.cur_.activate_slot
    reason := HopsetReason.None.toUInt8 }

/-- The heartbeat of `on_tick`. A slot that goes back moves its anchor. -/
def tick_status (s : HopsetFollower) (now_slot : UInt64) : HopsetFollower × List HopsetAction :=
  if !s.have_status_anchor_ ∨ now_slot < s.last_status_slot_ then
    ({ s with have_status_anchor_ := true, last_status_slot_ := now_slot }, [])
  else if s.p_.follower_status_slots ≠ 0 ∧ s.st_ ≠ .Recovering ∧
      now_slot - s.last_status_slot_ ≥ s.p_.follower_status_slots then
    ({ s with last_status_slot_ := now_slot }, [SendControl s.status_msg])
  else (s, [])

/-- The retry is due. -/
def retry_due (s : HopsetFollower) (now_slot : UInt64) : Bool :=
  s.st_ == .Proposing && now_slot - s.last_prop_slot_ ≥ s.p_.proposal_backoff_slots

def on_tick (s : HopsetFollower) (now_slot : UInt64) : HopsetFollower × List HopsetAction :=
  if s.st_ = .Pending ∧ now_slot ≥ s.pend_.activate_slot then s.activate
  else if s.retry_due now_slot ∧ s.tries_ ≥ s.p_.proposal_retries then
    ({ s with st_ := .Synced }, [Event .Reject .Timeout])
  else if s.retry_due now_slot then
    let t := { s with tries_ := s.tries_ + 1, last_prop_slot_ := now_slot }.tick_status now_slot
    (t.1, SendControl s.prop_ :: t.2)
  else s.tick_status now_slot

/-! ## Runs -/

/-- What the host can call, each at a slot. -/
inductive Op
  | propose (mask : UInt64) (observation_count reason_bitmap nonce : UInt32)
  | commit (m : HopsetMsg)
  | status (m : HopsetMsg)
  | marker (marker_gen : UInt32) (fp_matches : Bool) (marker_slot : UInt64)
  | tick

def feed (s : HopsetFollower) (op : Op) (now_slot : UInt64) : HopsetFollower × List HopsetAction :=
  match op with
  | .propose mask observation_count reason_bitmap nonce =>
    s.propose mask observation_count reason_bitmap nonce now_slot
  | .commit m => s.on_commit m now_slot
  | .status m => s.on_status m now_slot
  | .marker marker_gen fp_matches marker_slot => s.on_marker marker_gen fp_matches marker_slot
  | .tick => s.on_tick now_slot

end HopsetFollower

end devourer.hopset
