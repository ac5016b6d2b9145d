-- Every move of the follower: it arms a commit, joins one whose slot has
-- passed, takes over a beacon, puts what it armed in force, or stays.
import Devourer.Hopset.HopsetFollower

namespace devourer.hopset.HopsetFollower

open HopsetAction

/-- What the laws of the follower are about. -/
structure Hold where
  st : State
  cur : HopsetState
  pend : HopsetState
  have_auth : Bool
  auth_epoch : UInt32

def hold (s : HopsetFollower) : Hold where
  st := s.st_
  cur := s.cur_
  pend := s.pend_
  have_auth := s.have_auth_
  auth_epoch := s.auth_epoch_

/-- What a call does to the states that the follower holds. -/
inductive Move (s : HopsetFollower) (now : UInt64) : Op → Hold → Prop
  | rest {op : Op} : Move s now op s.hold
  | turns {op : Op} {st : State} (h : st ≠ .Pending) : Move s now op { s.hold with st := st }
  | arms {m : HopsetMsg}
    (hage : s.have_auth_ = true → m.tx_epoch = s.auth_epoch_ → s.cur_.generation < m.generation)
    (hd : now < m.activate_slot) :
    Move s now (.commit m)
      { s.hold with
        st := .Pending
        pend := of_commit m
        have_auth := true
        auth_epoch := m.tx_epoch }
  | joins {m : HopsetMsg}
    (hage : s.have_auth_ = true → m.tx_epoch = s.auth_epoch_ → s.cur_.generation < m.generation)
    (hd : m.activate_slot ≤ now) :
    Move s now (.commit m)
      { s.hold with
        st := .Synced
        cur := of_commit m
        pend := of_commit m
        have_auth := true
        auth_epoch := m.tx_epoch }
  | recovers {m : HopsetMsg} (hrole : m.role = 1)
    (hage : s.have_auth_ = true → m.sender_epoch = s.auth_epoch_ →
      s.cur_.generation < m.generation) :
    Move s now (.status m)
      { s.hold with
        st := .Synced
        cur := s.of_status m
        pend := s.of_status m
        have_auth := true
        auth_epoch := m.sender_epoch }
  | activates (hst : s.st_ = .Pending) (hd : s.pend_.activate_slot ≤ now) :
    Move s now .tick { s.hold with st := .Synced, cur := s.pend_ }

/-- What a follower airs: proposals, and statuses that no follower heeds. -/
def Airs (m : HopsetMsg) : Prop := m.type = .HT_PROPOSAL ∨ m.type = .HT_STATUS ∧ m.role = 0

/-- The move that a call makes. The proposal that is kept for a retry stays a proposal. -/
structure Moves (s : HopsetFollower) (now : UInt64) (op : Op)
    (t : HopsetFollower × List HopsetAction) : Prop where
  move : Move s now op t.1.hold
  prop : s.prop_.type = .HT_PROPOSAL → t.1.prop_.type = .HT_PROPOSAL
  sends : s.prop_.type = .HT_PROPOSAL → ∀ m ∈ sends t.2, Airs m

variable {s : HopsetFollower} {now : UInt64} {op : Op}

/-- A call that sends nothing and keeps its proposal. -/
theorem Moves.silent {t : HopsetFollower × List HopsetAction} (hm : Move s now op t.1.hold)
    (hp : t.1.prop_ = s.prop_) (hs : HopsetAction.sends t.2 = []) : Moves s now op t := by
  refine ⟨hm, ?_, ?_⟩
  · intro h
    rw [hp]
    exact h
  · intro _ m hmem
    rw [hs] at hmem
    cases hmem

theorem moves_drop (r : HopsetReason) : Moves s now op (s.drop r) := .silent .rest rfl rfl

theorem adopt_epoch_hold (s : HopsetFollower) (e : UInt32) :
    (s.adopt_epoch e).hold = { s.hold with have_auth := true, auth_epoch := e } := by
  unfold adopt_epoch
  split
  · rfl
  · rename_i h
    obtain ⟨hauth, hepoch⟩ := not_or.mp h
    have hauth' : s.have_auth_ = true := by simpa using hauth
    have hepoch' : s.auth_epoch_ = e := not_not.mp hepoch
    simp only [hold, hauth', hepoch']

theorem adopt_epoch_prop (s : HopsetFollower) (e : UInt32) : (s.adopt_epoch e).prop_ = s.prop_ := by
  unfold adopt_epoch
  split <;> rfl

/-! ## Messages -/

theorem moves_arm (m : HopsetMsg)
    (hage : s.have_auth_ = true → m.tx_epoch = s.auth_epoch_ → s.cur_.generation < m.generation) :
    Moves s now (.commit m) (s.arm m now) := by
  have hhold := adopt_epoch_hold s m.tx_epoch
  have hprop := adopt_epoch_prop s m.tx_epoch
  unfold arm
  simp only
  split
  · rename_i hd
    refine .silent ?_ hprop rfl
    have hjoin : ({ s.adopt_epoch m.tx_epoch with pend_ := of_commit m }.activate).1.hold =
        { (s.adopt_epoch m.tx_epoch).hold with
          st := .Synced
          cur := of_commit m
          pend := of_commit m } := rfl
    rw [hjoin, hhold]
    exact .joins hage hd
  · rename_i hd
    refine .silent ?_ hprop rfl
    have harm : ({ s.adopt_epoch m.tx_epoch with pend_ := of_commit m, st_ := .Pending } :
        HopsetFollower).hold =
        { (s.adopt_epoch m.tx_epoch).hold with st := .Pending, pend := of_commit m } := rfl
    rw [harm, hhold]
    exact .arms hage (UInt64.not_le.mp hd)

theorem moves_on_commit (m : HopsetMsg) : Moves s now (.commit m) (s.on_commit m now) := by
  unfold on_commit
  simp only
  split
  · exact moves_drop _
  · split
    · exact .silent .rest rfl rfl
    · split
      · exact moves_drop _
      · rename_i hage
        split
        · exact moves_drop _
        · split
          · exact moves_drop _
          · refine moves_arm m ?_
            intro hauth hepoch
            by_contra hle
            refine hage ⟨?_, UInt32.not_lt.mp hle⟩
            simp [hauth, hepoch]

theorem moves_recover (m : HopsetMsg) (hrole : m.role = 1)
    (hage : s.have_auth_ = true → m.sender_epoch = s.auth_epoch_ →
      s.cur_.generation < m.generation) : Moves s now (.status m) (s.recover m) := by
  have hhold := adopt_epoch_hold s m.sender_epoch
  have hprop := adopt_epoch_prop s m.sender_epoch
  refine .silent ?_ hprop rfl
  have htake : (s.recover m).1.hold =
      { (s.adopt_epoch m.sender_epoch).hold with
        st := .Synced
        cur := s.of_status m
        pend := s.of_status m } := rfl
  rw [htake, hhold]
  exact .recovers hrole hage

theorem moves_on_status (m : HopsetMsg) : Moves s now (.status m) (s.on_status m now) := by
  unfold on_status
  simp only
  split
  · exact .silent .rest rfl rfl
  · rename_i hrole
    split
    · exact moves_drop _
    · split
      · exact .silent (.turns (by simp)) rfl rfl
      · split
        · exact moves_drop _
        · split
          · exact moves_drop _
          · split
            · exact moves_drop _
            · rename_i hold'
              split
              · unfold resync_check
                split
                · exact .silent (.turns (by simp)) rfl rfl
                · exact .silent .rest rfl rfl
              · rename_i hsame
                refine moves_recover m (not_not.mp hrole) ?_
                intro hauth hepoch
                have hboth : (s.have_auth_ && m.sender_epoch == s.auth_epoch_) = true := by
                  simp [hauth, hepoch]
                have hge := UInt32.not_lt.mp fun hlt => hold' ⟨hboth, hlt⟩
                have hne : m.generation ≠ s.cur_.generation := fun heq => hsame ⟨hboth, heq⟩
                exact UInt32.lt_of_le_of_ne hge hne.symm

/-! ## The other calls -/

theorem moves_propose (mask : UInt64) (observation_count reason_bitmap nonce : UInt32) :
    Moves s now (.propose mask observation_count reason_bitmap nonce)
      (s.propose mask observation_count reason_bitmap nonce now) := by
  unfold propose
  split
  · exact moves_drop _
  · refine ⟨.turns (by simp), fun _ => rfl, ?_⟩
    intro _ m hm
    simp only [sends_send, sends_event, sends_nil, List.mem_singleton] at hm
    subst hm
    exact .inl rfl

theorem moves_marker (marker_gen : UInt32) (fp_matches : Bool) (marker_slot : UInt64) :
    Moves s now (.marker marker_gen fp_matches marker_slot)
      (s.on_marker marker_gen fp_matches marker_slot) := by
  unfold on_marker
  simp only
  split
  · exact .silent .rest rfl rfl
  · split
    · exact .silent .rest rfl rfl
    · split
      · exact .silent .rest rfl rfl
      · exact .silent (.turns (by simp)) rfl rfl

/-- The heartbeat leaves what the follower holds. -/
theorem tick_status_hold (s : HopsetFollower) (now : UInt64) :
    (s.tick_status now).1.hold = s.hold ∧ (s.tick_status now).1.prop_ = s.prop_ ∧
      ∀ m ∈ HopsetAction.sends (s.tick_status now).2, Airs m := by
  unfold tick_status
  split
  · refine ⟨rfl, rfl, ?_⟩
    intro m hm
    cases hm
  · split
    · refine ⟨rfl, rfl, ?_⟩
      intro m hm
      simp only [sends_send, sends_nil, List.mem_singleton] at hm
      subst hm
      exact .inr ⟨rfl, rfl⟩
    · refine ⟨rfl, rfl, ?_⟩
      intro m hm
      cases hm

theorem moves_tick_status {s' : HopsetFollower} (hh : s'.hold = s.hold) (hp : s'.prop_ = s.prop_)
    (first : List HopsetAction)
    (hf : s.prop_.type = .HT_PROPOSAL → ∀ m ∈ HopsetAction.sends first, Airs m) :
    Moves s now .tick ((s'.tick_status now).1, first ++ (s'.tick_status now).2) := by
  obtain ⟨hhold, hprop, hsends⟩ := tick_status_hold s' now
  refine ⟨?_, ?_, ?_⟩
  · show Move s now .tick (s'.tick_status now).1.hold
    rw [hhold, hh]
    exact .rest
  · intro h
    show (s'.tick_status now).1.prop_.type = .HT_PROPOSAL
    rw [hprop, hp]
    exact h
  · intro h m hm
    simp only [sends_append, List.mem_append] at hm
    rcases hm with hm | hm
    · exact hf h m hm
    · exact hsends m hm

theorem moves_on_tick (s : HopsetFollower) (now : UInt64) : Moves s now .tick (s.on_tick now) := by
  unfold on_tick
  split
  · rename_i hd
    exact .silent (.activates hd.1 hd.2) rfl rfl
  · split
    · exact .silent (.turns (by simp)) rfl rfl
    · split
      · let s' := { s with tries_ := s.tries_ + 1, last_prop_slot_ := now }
        have hh : s'.hold = s.hold := rfl
        refine moves_tick_status hh rfl [SendControl s.prop_] ?_
        intro h m hm
        simp only [sends_send, sends_nil, List.mem_singleton] at hm
        subst hm
        exact .inl h
      · exact moves_tick_status rfl rfl [] fun _ m hm => by cases hm

/-- Every call makes one of the moves. -/
theorem feed_moves (s : HopsetFollower) (op : Op) (now : UInt64) :
    Moves s now op (s.feed op now) := by
  cases op with
  | propose mask observation_count reason_bitmap nonce => exact moves_propose _ _ _ _
  | commit m => exact moves_on_commit m
  | status m => exact moves_on_status m
  | marker marker_gen fp_matches marker_slot => exact moves_marker _ _ _
  | tick => exact moves_on_tick s now

end devourer.hopset.HopsetFollower
