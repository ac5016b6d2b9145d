-- The messages, reasons and actions that the two hopset machines speak, and
-- the limits they are built with.
import Devourer.Hopset.HopsetState

namespace devourer.hopset

inductive HopsetMsgType
  | HT_PROPOSAL
  | HT_COMMIT
  | HT_STATUS
  deriving DecidableEq

inductive HopsetReason
  | None
  | BadMac
  | BadVersion
  | BadType
  | BadLinkId
  | Truncated
  | StaleEpoch
  | ReplayGen
  | NonMonotonicGen
  | GenCeiling
  | BadBaseFp
  | BadMask
  | LowDiversity
  | ActivationWindow
  | NoChange
  | Busy
  | NonceMismatch
  | Timeout
  | MaskDelta
  | Cooldown
  | TxVeto
  /-- A byte off the wire is cast unchecked. -/
  | other (v : UInt8) (h : 20 < v)
  deriving DecidableEq

/-- The byte that a status carries. -/
def HopsetReason.toUInt8 : HopsetReason → UInt8
  | None => 0
  | BadMac => 1
  | BadVersion => 2
  | BadType => 3
  | BadLinkId => 4
  | Truncated => 5
  | StaleEpoch => 6
  | ReplayGen => 7
  | NonMonotonicGen => 8
  | GenCeiling => 9
  | BadBaseFp => 10
  | BadMask => 11
  | LowDiversity => 12
  | ActivationWindow => 13
  | NoChange => 14
  | Busy => 15
  | NonceMismatch => 16
  | Timeout => 17
  | MaskDelta => 18
  | Cooldown => 19
  | TxVeto => 20
  | other v _ => v

/-- The cast of a byte. -/
def HopsetReason.ofUInt8 (b : UInt8) : HopsetReason :=
  if h : 20 < b then other b h
  else [None, BadMac, BadVersion, BadType, BadLinkId, Truncated, StaleEpoch, ReplayGen,
    NonMonotonicGen, GenCeiling, BadBaseFp, BadMask, LowDiversity, ActivationWindow, NoChange, Busy,
    NonceMismatch, Timeout, MaskDelta, Cooldown, TxVeto].getD b.toNat None

/-- The decoded control message: a flat superset, of which each type fills its own fields. -/
structure HopsetMsg where
  type : HopsetMsgType := .HT_PROPOSAL
  link_id : UInt32 := 0
  rx_epoch : UInt32 := 0
  tx_epoch : UInt32 := 0
  sender_epoch : UInt32 := 0
  /-- 0 for a change of the authority's own. -/
  rx_epoch_echo : UInt32 := 0
  rx_nonce : UInt32 := 0
  rx_nonce_echo : UInt32 := 0
  /-- In a proposal, 0 asks for the next. -/
  generation : UInt32 := 0
  active_mask : UInt64 := 0
  base_fp : UInt32 := 0
  activate_round : UInt64 := 0
  activate_slot : UInt64 := 0
  current_round : UInt64 := 0
  observation_count : UInt32 := 0
  reason_bitmap : UInt32 := 0
  /-- 0 leaves the choice to the authority. -/
  earliest_activate_round : UInt64 := 0
  /-- 0 is a follower and 1 the authority. -/
  role : UInt8 := 0
  reason : UInt8 := 0
  deriving DecidableEq

inductive HopsetEvent
  | Propose
  | Commit
  | Activate
  | Reject
  | GenMismatch
  | Recover
  deriving DecidableEq

/-- What a machine asks its host to do. An event carries what its reporter fills in. -/
inductive HopsetAction
  | SendControl (msg : HopsetMsg)
  | Activate (state : HopsetState)
  | Event (event : HopsetEvent) (reason : HopsetReason := .None) (state : HopsetState := {})
    (msg : HopsetMsg := {})
  deriving DecidableEq

/-- The limits and intervals of the host, in slots where not said otherwise. -/
structure HopsetParams where
  /-- The size of the base hopset, 1 to 64. -/
  n_base : UInt64 := 0
  base_fp : UInt32 := 0
  link_id : UInt32 := 0
  min_active : UInt32 := 2
  lead_rounds : UInt64 := 8
  max_lead_slots : UInt64 := 4096
  commit_repeat_slots : UInt64 := 4
  status_interval_slots : UInt64 := 24
  follower_status_slots : UInt64 := 0
  proposal_retries : UInt32 := 8
  proposal_backoff_slots : UInt64 := 16
  /-- The channels that one update may change. 0 turns the check off, here and below. -/
  max_mask_delta : UInt32 := 1
  min_update_gap_rounds : UInt64 := 10
  max_excluded_frac_pct : UInt32 := 50
  stale_marker_slots : UInt64 := 2

namespace HopsetAction

def sent : HopsetAction → Option HopsetMsg
  | SendControl m => some m
  | _ => none

def activated : HopsetAction → Option HopsetState
  | Activate st => some st
  | _ => none

/-- The messages that a list of actions sends. -/
def sends (acts : List HopsetAction) : List HopsetMsg := acts.filterMap sent

/-- The states that a list of actions puts in force. -/
def activations (acts : List HopsetAction) : List HopsetState := acts.filterMap activated

variable {acts acts' : List HopsetAction}

@[simp] theorem sends_nil : sends [] = [] := rfl
@[simp] theorem sends_send (m : HopsetMsg) : sends (SendControl m :: acts) = m :: sends acts := rfl
@[simp] theorem sends_activate (st : HopsetState) : sends (Activate st :: acts) = sends acts := rfl
@[simp] theorem sends_event (e : HopsetEvent) (r : HopsetReason) (st : HopsetState)
    (m : HopsetMsg) :
    sends (Event e r st m :: acts) = sends acts := rfl
@[simp] theorem sends_append : sends (acts ++ acts') = sends acts ++ sends acts' :=
  List.filterMap_append

@[simp] theorem activations_nil : activations [] = [] := rfl
@[simp] theorem activations_send (m : HopsetMsg) :
    activations (SendControl m :: acts) = activations acts := rfl
@[simp] theorem activations_activate (st : HopsetState) :
    activations (Activate st :: acts) = st :: activations acts := rfl
@[simp] theorem activations_event (e : HopsetEvent) (r : HopsetReason) (st : HopsetState)
    (m : HopsetMsg) : activations (Event e r st m :: acts) = activations acts := rfl
@[simp] theorem activations_append :
    activations (acts ++ acts') = activations acts ++ activations acts' := List.filterMap_append

theorem mem_activations {st : HopsetState} : st ∈ activations acts ↔ Activate st ∈ acts := by
  unfold activations
  rw [List.mem_filterMap]
  constructor
  · rintro ⟨a, ha, hst⟩
    cases a <;> simp only [activated, Option.some.injEq, reduceCtorEq] at hst
    subst hst
    exact ha
  · intro h
    exact ⟨_, h, rfl⟩

end HopsetAction

end devourer.hopset
