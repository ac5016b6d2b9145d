-- The transmitter, which is the authority on the schedule. It judges the
-- proposals, airs the commit of the next state until its slot comes, and
-- beacons the state in force.
import Devourer.Hopset.HopsetWire

namespace devourer.hopset

open HopsetAction

/-- `class HopsetAuthority`, one field for each data member. -/
structure HopsetAuthority where
  p_ : HopsetParams
  epoch_ : UInt32
  cur_ : HopsetState
  pend_ : HopsetState := {}
  committing_ : Bool := false
  pend_echo_epoch_ : UInt32 := 0
  pend_echo_nonce_ : UInt32 := 0
  pend_reasons_ : UInt32 := 0
  last_commit_slot_ : UInt64 := 0
  last_status_slot_ : UInt64 := 0
  last_activation_round_ : UInt64 := 0
  have_activation_ : Bool := false
  last_feedback_round_ : UInt64 := 0
  have_feedback_ : Bool := false
  replays_ : ProposalReplayRing := ProposalReplayRing.fresh

namespace HopsetAuthority

/-- The constructor: generation 0 is the fixed schedule over the whole base. -/
def init (params : HopsetParams) (epoch : UInt32) : HopsetAuthority :=
  { p_ := params
    epoch_ := epoch
    cur_ := { epoch := epoch, generation := 0, active_mask := full_mask params.n_base } }

/-- The length of a round of the current generation, in slots. -/
def active_count (s : HopsetAuthority) : UInt64 :=
  if s.cur_.generation = 0 then s.p_.n_base else (popcount64 s.cur_.active_mask).toUInt64

/-- The round of a slot in the current generation's numbering. -/
def round_of (s : HopsetAuthority) (slot : UInt64) : UInt64 :=
  (slot - s.cur_.activate_slot) / s.active_count

/-! ## Messages -/

def commit_msg (s : HopsetAuthority) (now_slot : UInt64) : HopsetMsg :=
  { type := .HT_COMMIT
    link_id := s.p_.link_id
    tx_epoch := s.epoch_
    rx_epoch_echo := s.pend_echo_epoch_
    generation := s.pend_.generation
    active_mask := s.pend_.active_mask
    base_fp := s.p_.base_fp
    activate_round := s.pend_.activate_round
    activate_slot := s.pend_.activate_slot
    current_round := s.round_of now_slot
    rx_nonce_echo := s.pend_echo_nonce_
    reason_bitmap := s.pend_reasons_ }

def status_msg (s : HopsetAuthority) (now_slot : UInt64) (reason : HopsetReason) : HopsetMsg :=
  { type := .HT_STATUS
    link_id := s.p_.link_id
    role := 1
    sender_epoch := s.epoch_
    generation := s.cur_.generation
    active_mask := s.cur_.active_mask
    base_fp := s.p_.base_fp
    current_round := s.round_of now_slot
    activate_slot := s.cur_.activate_slot
    reason := reason.toUInt8 }

def push_commit (s : HopsetAuthority) (now_slot : UInt64) : HopsetAuthority × List HopsetAction :=
  ({ s with last_commit_slot_ := now_slot }, [SendControl (s.commit_msg now_slot)])

def local_reject (s : HopsetAuthority) (r : HopsetReason) : HopsetAuthority × List HopsetAction :=
  (s, [Event .Reject r])

/-- The answer to a proposal that is turned down. -/
def reject (s : HopsetAuthority) (m : HopsetMsg) (r : HopsetReason) (now_slot : UInt64) :
    HopsetAuthority × List HopsetAction :=
  (s, [SendControl { s.status_msg now_slot r with rx_nonce_echo := m.rx_nonce }, Event .Reject r])

/-! ## The limits -/

/-- What is wrong with a mask, whoever asks for it. -/
def mask_reason (s : HopsetAuthority) (mask : UInt64) : HopsetReason :=
  if s.cur_.generation + 1 ≥ kGenCeiling then .GenCeiling
  else if mask &&& ~~~(full_mask s.p_.n_base) ≠ 0 then .BadMask
  else if popcount64 mask < s.p_.min_active then .LowDiversity
  else if s.p_.max_excluded_frac_pct < 100 ∧
      (popcount64 (full_mask s.p_.n_base &&& ~~~mask) * 100).toUInt64 >
        s.p_.max_excluded_frac_pct.toUInt64 * s.p_.n_base then .LowDiversity
  else if mask = s.cur_.active_mask ∧ s.cur_.generation ≠ 0 then .NoChange
  else .None

/-- The two limits on a change that the operator does not make. -/
def change_reason (s : HopsetAuthority) (mask now_slot : UInt64) : HopsetReason :=
  if s.p_.max_mask_delta ≠ 0 ∧ popcount64 (mask ^^^ s.cur_.active_mask) > s.p_.max_mask_delta then
    .MaskDelta
  else if s.p_.min_update_gap_rounds ≠ 0 ∧ s.have_activation_ ∧
      s.round_of now_slot - s.last_activation_round_ < s.p_.min_update_gap_rounds then .Cooldown
  else .None

/-- What is wrong with a change that is not the operator's. -/
def limit_reason (s : HopsetAuthority) (mask now_slot : UInt64) : HopsetReason :=
  if s.mask_reason mask ≠ .None then s.mask_reason mask else s.change_reason mask now_slot

/-- What is wrong with a proposal that is no replay. -/
def proposal_reason (s : HopsetAuthority) (m : HopsetMsg) (now_slot : UInt64) : HopsetReason :=
  if s.committing_ then .Busy
  else if m.generation ≠ 0 ∧ m.generation ≠ s.cur_.generation + 1 then .NonMonotonicGen
  else s.limit_reason m.active_mask now_slot

/-! ## Commits -/

/-- The round that a commit takes force in. -/
def act_round (s : HopsetAuthority) (earliest_round now_slot : UInt64) : UInt64 :=
  let lead := if s.p_.lead_rounds < 8 then 8 else s.p_.lead_rounds
  let act_round := s.round_of now_slot + lead
  if earliest_round > act_round then earliest_round else act_round

/-- The state that a commit announces. -/
def next (s : HopsetAuthority) (mask earliest_round now_slot : UInt64) : HopsetState :=
  { generation := s.cur_.generation + 1
    active_mask := mask
    activate_round := s.act_round earliest_round now_slot
    activate_slot := s.cur_.activate_slot + s.act_round earliest_round now_slot * s.active_count
    epoch := s.epoch_ }

def start_commit (s : HopsetAuthority) (mask earliest_round now_slot : UInt64) :
    HopsetAuthority × List HopsetAction :=
  let t := { s with pend_ := s.next mask earliest_round now_slot, committing_ := true }.push_commit
    now_slot
  (t.1, t.2 ++ [Event .Commit .None t.1.pend_])

/-! ## The entry points -/

/-- The peer is alive. -/
def note_feedback (s : HopsetAuthority) (now_slot : UInt64) : HopsetAuthority :=
  { s with last_feedback_round_ := s.round_of now_slot, have_feedback_ := true }

def kNoFeedbackAge : UInt64 := ~~~0

/-- The rounds since the peer was last heard. The round it was heard in is one of the numbering of
its own generation. -/
def feedback_age_rounds (s : HopsetAuthority) (now_slot : UInt64) : UInt64 :=
  if !s.have_feedback_ then kNoFeedbackAge
  else
    let r := s.round_of now_slot
    if r > s.last_feedback_round_ then r - s.last_feedback_round_ else 0

/-- A proposal that passes every check. -/
def accept (s : HopsetAuthority) (m : HopsetMsg) (now_slot : UInt64) :
    HopsetAuthority × List HopsetAction :=
  let t := { s with
    replays_ := s.replays_.remember m.rx_epoch m.rx_nonce
    pend_echo_epoch_ := m.rx_epoch
    pend_echo_nonce_ := m.rx_nonce }.start_commit m.active_mask m.earliest_activate_round now_slot
  (t.1, t.2 ++ [Event .Propose .None {} m])

/-- `on_proposal` after it has noted that the peer is alive. -/
def judge (s : HopsetAuthority) (m : HopsetMsg) (now_slot : UInt64) :
    HopsetAuthority × List HopsetAction :=
  if m.base_fp ≠ s.p_.base_fp then s.reject m .BadBaseFp now_slot
  else if s.replays_.contains m.rx_epoch m.rx_nonce then
    -- the exchange that is being committed is answered again, any other is a replay
    if s.committing_ ∧ m.rx_epoch = s.pend_echo_epoch_ ∧ m.rx_nonce = s.pend_echo_nonce_ then
      s.push_commit now_slot
    else s.reject m .ReplayGen now_slot
  else if s.proposal_reason m now_slot ≠ .None then
    s.reject m (s.proposal_reason m now_slot) now_slot
  else s.accept m now_slot

def on_proposal (s : HopsetAuthority) (m : HopsetMsg) (now_slot : UInt64) :
    HopsetAuthority × List HopsetAction :=
  (s.note_feedback now_slot).judge m now_slot

/-- A change that the transmitter decides from its own sensing. -/
def start_local_change (s : HopsetAuthority) (mask now_slot : UInt64) (reason_bitmap : UInt32) :
    HopsetAuthority × List HopsetAction :=
  if s.committing_ then s.local_reject .Busy
  else if s.limit_reason mask now_slot ≠ .None then s.local_reject (s.limit_reason mask now_slot)
  else { s with
    pend_echo_epoch_ := 0
    pend_echo_nonce_ := 0
    pend_reasons_ := reason_bitmap }.start_commit mask 0 now_slot

/-- The operator's change. The limits on a change do not bind it. -/
def start_change (s : HopsetAuthority) (mask now_slot : UInt64) :
    HopsetAuthority × List HopsetAction :=
  if s.committing_ then s.local_reject .Busy
  else if s.mask_reason mask ≠ .None then s.local_reject (s.mask_reason mask)
  else { s with
    pend_echo_epoch_ := 0
    pend_echo_nonce_ := 0
    pend_reasons_ := 0 }.start_commit mask 0 now_slot

/-- The host's own objection to a proposal. -/
def reject_proposal (s : HopsetAuthority) (m : HopsetMsg) (reason : HopsetReason)
    (now_slot : UInt64) : HopsetAuthority × List HopsetAction := s.reject m reason now_slot

/-- The swap of `on_tick`. -/
def activate (s : HopsetAuthority) (now_slot : UInt64) : HopsetAuthority × List HopsetAction :=
  let s := { s with cur_ := s.pend_, committing_ := false }
  let s := { s with last_activation_round_ := s.round_of now_slot, have_activation_ := true }
  (s, [Activate s.cur_, Event .Activate .None s.cur_])

/-- The commit's part of `on_tick`. -/
def tick_commit (s : HopsetAuthority) (now_slot : UInt64) : HopsetAuthority × List HopsetAction :=
  if s.committing_ then
    if now_slot ≥ s.pend_.activate_slot then s.activate now_slot
    else if now_slot - s.last_commit_slot_ ≥ s.p_.commit_repeat_slots then s.push_commit now_slot
    else (s, [])
  else (s, [])

/-- The beacon of `on_tick`, with its interval spread by the slot. -/
def tick_status (s : HopsetAuthority) (now_slot : UInt64) : HopsetAuthority × List HopsetAction :=
  if now_slot - s.last_status_slot_ ≥ s.p_.status_interval_slots + now_slot % 7 then
    let s := { s with last_status_slot_ := now_slot }
    (s, [SendControl (s.status_msg now_slot .None)])
  else (s, [])

def on_tick (s : HopsetAuthority) (now_slot : UInt64) : HopsetAuthority × List HopsetAction :=
  let a := s.tick_commit now_slot
  let t := a.1.tick_status now_slot
  (t.1, a.2 ++ t.2)

/-! ## Runs -/

/-- What the host can call, each at a slot. -/
inductive Op
  | proposal (m : HopsetMsg)
  | local_change (mask : UInt64) (reason_bitmap : UInt32)
  | change (mask : UInt64)
  | reject_proposal (m : HopsetMsg) (reason : HopsetReason)
  | feedback
  | tick

def feed (s : HopsetAuthority) (op : Op) (now_slot : UInt64) :
    HopsetAuthority × List HopsetAction :=
  match op with
  | .proposal m => s.on_proposal m now_slot
  | .local_change mask reason_bitmap => s.start_local_change mask now_slot reason_bitmap
  | .change mask => s.start_change mask now_slot
  | .reject_proposal m reason => s.reject_proposal m reason now_slot
  | .feedback => (s.note_feedback now_slot, [])
  | .tick => s.on_tick now_slot

end HopsetAuthority

end devourer.hopset
