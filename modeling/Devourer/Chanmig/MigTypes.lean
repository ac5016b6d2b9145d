-- The messages, states, reasons and actions that both migration machines
-- speak, and the timers they are built with.
import Devourer.Chanmig.ChannelDef

namespace devourer.chanmig

inductive MigMsgType
  | MT_PROPOSAL
  | MT_COMMIT
  | MT_STATUS
  | MT_CONFIRM
  | MT_ABORT
  | MT_MARKER
  | MT_VALIDATION
  deriving DecidableEq

namespace MigMsgType

def toUInt8 : MigMsgType → UInt8
  | MT_PROPOSAL => 1
  | MT_COMMIT => 2
  | MT_STATUS => 3
  | MT_CONFIRM => 4
  | MT_ABORT => 5
  | MT_MARKER => 6
  | MT_VALIDATION => 7

/-- The type of a byte, if it is in the range of the types. -/
def ofUInt8 (b : UInt8) : Option MigMsgType :=
  if b = 1 then some MT_PROPOSAL
  else if b = 2 then some MT_COMMIT
  else if b = 3 then some MT_STATUS
  else if b = 4 then some MT_CONFIRM
  else if b = 5 then some MT_ABORT
  else if b = 6 then some MT_MARKER
  else if b = 7 then some MT_VALIDATION
  else none

@[simp] theorem ofUInt8_toUInt8 (t : MigMsgType) : ofUInt8 t.toUInt8 = some t := by
  cases t <;> rfl

theorem toUInt8_ofUInt8 {b : UInt8} {t : MigMsgType} (h : ofUInt8 b = some t) : t.toUInt8 = b := by
  unfold ofUInt8 at h
  repeat' split at h
  all_goals cases h
  all_goals
    subst b
    rfl

end MigMsgType

/-- Both roles use this enumeration. A role only visits the states that mean something to it. -/
inductive MigState
  | Stable
  | Proposed
  | Validating
  | Committed
  | Switching
  | Verifying
  | Confirmed
  | Rollback
  | Recovery
  deriving DecidableEq

/-- The byte that a status carries. -/
def MigState.toUInt8 : MigState → UInt8
  | Stable => 0
  | Proposed => 1
  | Validating => 2
  | Committed => 3
  | Switching => 4
  | Verifying => 5
  | Confirmed => 6
  | Rollback => 7
  | Recovery => 8

inductive MigReason
  | None
  | BadMac
  | BadVersion
  | BadType
  | BadLinkId
  | Truncated
  | ReplayGen
  | StaleEpoch
  | SourceMismatch
  | UnknownChannel
  | UnsupportedWidth
  | IllegalTarget
  | ActivationBounds
  | Busy
  | NoAck
  | RetuneFail
  | Veto
  | NonceMismatch
  deriving DecidableEq

def MigReason.toUInt8 : MigReason → UInt8
  | None => 0
  | BadMac => 1
  | BadVersion => 2
  | BadType => 3
  | BadLinkId => 4
  | Truncated => 5
  | ReplayGen => 6
  | StaleEpoch => 7
  | SourceMismatch => 8
  | UnknownChannel => 9
  | UnsupportedWidth => 10
  | IllegalTarget => 11
  | ActivationBounds => 12
  | Busy => 13
  | NoAck => 14
  | RetuneFail => 15
  | Veto => 16
  | NonceMismatch => 17

/-- The decoded control message: a flat superset, of which each type fills its own fields. -/
structure MigMsg where
  type : MigMsgType := .MT_PROPOSAL
  link_id : UInt32 := 0
  ground_epoch : UInt32 := 0
  drone_epoch : UInt32 := 0
  sender_epoch : UInt32 := 0
  generation : UInt32 := 0
  ground_nonce : UInt32 := 0
  drone_nonce : UInt32 := 0
  ground_nonce_echo : UInt32 := 0
  drone_nonce_echo : UInt32 := 0
  peer_nonce_echo : UInt32 := 0
  source : ChannelDef := {}
  target : ChannelDef := {}
  rescue : ChannelDef := {}
  current : ChannelDef := {}
  aired_on : ChannelDef := {}
  evidence_gen : UInt32 := 0
  evidence_digest : UInt64 := 0
  earliest_tsf : UInt64 := 0
  latest_tsf : UInt64 := 0
  fallback_mode : UInt8 := 0
  activate_tsf : UInt64 := 0
  rollback_deadline_tsf : UInt64 := 0
  confirm_window_us : UInt32 := 0
  armed : UInt8 := 0
  role : UInt8 := 0
  state : UInt8 := 0
  marker_count : UInt16 := 0
  video_frames : UInt16 := 0
  first_marker_tsfl : UInt32 := 0
  reason : UInt8 := 0
  effective : UInt8 := 0
  seq : UInt32 := 0
  marker_flags : UInt8 := 0
  method : UInt8 := 0
  result : UInt8 := 0
  obs_age_ms : UInt32 := 0
  obs_dur_ms : UInt32 := 0
  cca_delta : UInt32 := 0
  fa_delta : UInt32 := 0
  igi : UInt8 := 0
  nhm_busy_pct : UInt8 := 0
  energy_valid : UInt8 := 0
  cost_est_ms : UInt16 := 0
  tx_tsf : UInt64 := 0

/-- What a machine asks its host to do. -/
inductive MigAction
  | SendUnicast (msg : MigMsg)
  | SendBroadcast (msg : MigMsg)
  | RetuneTo (channel : ChannelDef)
  | StartDrain
  | ResumePump
  | ArmMarkers (channel : ChannelDef)
  | StopMarkers
  | EmitEvent (code : UInt8)
  | GateNotify (code : UInt8)
  | Done (code : UInt8)

namespace MigAction

/-- The message that an action sends, if it sends one. -/
def sent : MigAction → Option MigMsg
  | SendUnicast m => some m
  | SendBroadcast m => some m
  | _ => none

@[simp] theorem sent_retune (c : ChannelDef) : (RetuneTo c).sent = none := rfl
@[simp] theorem sent_drain : StartDrain.sent = none := rfl
@[simp] theorem sent_resume : ResumePump.sent = none := rfl
@[simp] theorem sent_arm (c : ChannelDef) : (ArmMarkers c).sent = none := rfl
@[simp] theorem sent_stop : StopMarkers.sent = none := rfl
@[simp] theorem sent_event (c : UInt8) : (EmitEvent c).sent = none := rfl
@[simp] theorem sent_gate (c : UInt8) : (GateNotify c).sent = none := rfl
@[simp] theorem sent_done (c : UInt8) : (Done c).sent = none := rfl

/-- `send`: the peer's own address, or everyone. -/
def send (m : MigMsg) (unicast : Bool) : MigAction :=
  if unicast then SendUnicast m else SendBroadcast m

@[simp] theorem sent_send (m : MigMsg) (unicast : Bool) : (send m unicast).sent = some m := by
  cases unicast <;> rfl

/-- Every message that a list of actions sends has a property. -/
def AllSent (P : MigMsg → Prop) (acts : List MigAction) : Prop :=
  ∀ a ∈ acts, ∀ m, a.sent = some m → P m

variable {P : MigMsg → Prop} {acts acts' : List MigAction}

@[simp] theorem allSent_nil : AllSent P [] := fun _ ha => by simp at ha

@[simp] theorem allSent_cons (a : MigAction) :
    AllSent P (a :: acts) ↔ (∀ m, a.sent = some m → P m) ∧ AllSent P acts := List.forall_mem_cons

@[simp] theorem allSent_append :
    AllSent P (acts ++ acts') ↔ AllSent P acts ∧ AllSent P acts' := List.forall_mem_append

theorem allSent_send {m : MigMsg} {unicast : Bool} (hm : P m) (h : AllSent P acts) :
    AllSent P (send m unicast :: acts) := by
  rw [allSent_cons, sent_send]
  refine ⟨?_, h⟩
  intro m' hm'
  cases hm'
  exact hm

theorem allSent_silent {a : MigAction} (ha : a.sent = none) (h : AllSent P acts) :
    AllSent P (a :: acts) := by
  rw [allSent_cons, ha]
  exact ⟨by simp, h⟩

theorem AllSent.imp {Q : MigMsg → Prop} (hPQ : ∀ m, P m → Q m) (h : AllSent P acts) :
    AllSent Q acts := fun a ha m hm => hPQ m (h a ha m hm)

@[simp] theorem retune_ne_send (c : ChannelDef) (m : MigMsg) (unicast : Bool) :
    RetuneTo c ≠ send m unicast := by
  cases unicast <;> simp [send]

/-- The channel that an action retunes to, if it retunes. -/
def tuned : MigAction → Option ChannelDef
  | RetuneTo c => some c
  | _ => none

/-- What an action does to the video pump: it stops it, resumes it, or neither. -/
def pumped : MigAction → Option Bool
  | StartDrain => some false
  | ResumePump => some true
  | _ => none

/-- The channels that a list of actions retunes to, in order. -/
def tunes (acts : List MigAction) : List ChannelDef := acts.filterMap tuned

/-- What a list of actions does to the pump, in order. -/
def pumps (acts : List MigAction) : List Bool := acts.filterMap pumped

theorem mem_tunes {c : ChannelDef} : c ∈ tunes acts ↔ RetuneTo c ∈ acts := by
  unfold tunes
  rw [List.mem_filterMap]
  constructor
  · rintro ⟨a, ha, hc⟩
    cases a <;> simp only [tuned, Option.some.injEq, reduceCtorEq] at hc
    subst hc
    exact ha
  · intro h
    exact ⟨_, h, rfl⟩

end MigAction

/-- The timers of the machines, in milliseconds. -/
structure MigParams where
  proposal_interval_ms : Int := 200
  proposal_max_tries : Int := 25
  commit_interval_ms : Int := 100
  status_interval_ms : Int := 500
  ack_timeout_ms : Int := 2000
  countdown_ms : Int := 500
  lead_ms : Int := 40
  drain_deadline_ms : Int := 20
  blank_window_ms : Int := 5
  verify_ms : Int := 3000
  verify_markers : Int := 3
  verify_video : Int := 10
  rollback_ms : Int := 5000
  recovery_dwell_ms : Int := 500
  recovery_giveup_ms : Int := 60000
  proposal_hold_down_ms : Int := 10000

/-- The deterministic nonce of an epoch and a generation. It is never 0. -/
def mig_mix_nonce (epoch gen salt : UInt32) : UInt32 :=
  let h := epoch * 2654435761 + gen * 40503 + salt * 2246822519
  let h := h ^^^ (h >>> 15)
  let h := h * 2246822519
  let h := h ^^^ (h >>> 13)
  if h ≠ 0 then h else 1

theorem mig_mix_nonce_ne_zero (epoch gen salt : UInt32) : mig_mix_nonce epoch gen salt ≠ 0 := by
  unfold mig_mix_nonce
  intro h
  simp only at h
  split at h
  · contradiction
  · exact absurd h (by decide)

end devourer.chanmig
