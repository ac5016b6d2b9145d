-- Every move of the ground: where an exchange stands, how a call can end it,
-- and which retunes it asks for. The laws of the ground's runs rest on these.
import Devourer.Chanmig.MigEffects

namespace devourer.chanmig.MigProposer

open MigAction

/-- Where the ground stands. -/
structure Post where
  st : MigState
  gen : UInt32
  nonce : UInt32
  drone_epoch : UInt32
  source : ChannelDef
  current : ChannelDef
  /-- The target of the adopted commit. -/
  target : ChannelDef
  follow : ChannelDef
  following : Bool
  /-- The channel that the recovery scan is on. -/
  scan : ChannelDef

def post (s : MigProposer) : Post where
  st := s.st_
  gen := s.gen_
  nonce := s.nonce_
  drone_epoch := s.drone_epoch_
  source := s.source_
  current := s.current_
  target := s.commit_target_
  follow := s.follow_channel_
  following := s.follow_pending_
  scan := s.recov_channel

namespace Post

/-- A status of the drone's own that says where it has settled. -/
def heeds (v : Post) (m : MigMsg) : Bool :=
  m.role == 1 && m.generation == v.gen &&
    (v.st == .Committed || v.st == .Switching || v.st == .Verifying) &&
    m.state == MigState.Stable.toUInt8

/-- The channel that a message ends the exchange on, as the ground takes it. -/
def endsOn (v : Post) (m : MigMsg) : Option ChannelDef :=
  match m.type with
  | .MT_STATUS =>
    if v.st = .Proposed ∧ m.reason ≠ 0 then some v.source
    else if v.heeds m ∧ v.current.same_rf m.current then some m.current
    else none
  | .MT_MARKER =>
    if m.generation = v.gen ∧ m.drone_epoch = v.drone_epoch ∧ v.st = .Recovery then some m.aired_on
    else none
  | .MT_ABORT => if m.effective = 0 then some v.source else none
  | _ => none

/-- The channel that a call ends the exchange on. A recovery ends where a frame is heard, and a
retune to follow the drone ends where the drone is. -/
def ends (v : Post) : Op → Option ChannelDef
  | .message m _ => v.endsOn m
  | .video _ => if v.st = .Recovery then some v.scan else none
  | .retune_done => if v.st = .Switching ∧ v.following then some v.follow else none
  | _ => none

/-- The scan of a recovery begins at the source. -/
def lost (v : Post) : Post := { v with st := .Recovery, scan := v.source, current := v.source }

end Post

def Op.isRetuneDone : Op → Bool
  | .retune_done => true
  | _ => false

/-- What a call does to the post, and the channels that it retunes to. -/
inductive Move (v : Post) : Op → Post → List ChannelDef → Prop
  | rest {op : Op} (h : v.ends op = none) (hr : op.isRetuneDone = true → v.st ≠ .Switching) :
    Move v op v []
  | settles {op : Op} {c : ChannelDef} (h : v.ends op = some c) :
    Move v op
      { v with st := .Stable, current := c, following := !op.isRetuneDone && v.following } []
  | switches (h : v.st = .Switching) (hf : v.following = false) :
    Move v .retune_done { v with st := .Verifying, current := v.target } []
  /-- The drone has settled elsewhere. -/
  | follows {m : MigMsg} {now : Int} (ht : m.type = .MT_STATUS) (h : v.heeds m = true)
    (hc : v.current.same_rf m.current ≠ true) :
    Move v (.message m now)
      { v with st := .Switching, follow := m.current, following := true } [m.current]
  | starts {target : ChannelDef} {evidence_gen : UInt32} {rescue : ChannelDef} {now : Int}
    {nonce : UInt32} (h : v.st = .Stable) :
    Move v (.start target evidence_gen rescue now)
      { v with st := .Proposed, gen := v.gen + 1, nonce := nonce } []
  | givesUp {now : Int} (h : v.st = .Proposed) :
    Move v (.tick now) { v with st := .Stable, current := v.source } []
  | adopts {m : MigMsg} {now : Int} (ht : m.type = .MT_COMMIT) (h : v.st = .Proposed)
    (hg : m.generation = v.gen) (hn : m.ground_nonce_echo = v.nonce) :
    Move v (.message m now)
      { v with st := .Committed, drone_epoch := m.drone_epoch, target := m.target } []
  /-- The commit comes when its activation is already due. -/
  | adoptsLate {m : MigMsg} {now : Int} (ht : m.type = .MT_COMMIT) (h : v.st = .Proposed)
    (hg : m.generation = v.gen) (hn : m.ground_nonce_echo = v.nonce) :
    Move v (.message m now)
      { v with st := .Switching, drone_epoch := m.drone_epoch, target := m.target } [m.target]
  | activates {now : Int} (h : v.st = .Committed) :
    Move v (.tick now) { v with st := .Switching } [v.target]
  | loses {now : Int} (h : v.st = .Verifying) : Move v (.tick now) v.lost [v.source]
  /-- An abort that says that the drone rolled back is taken in any state. -/
  | aborts {m : MigMsg} {now : Int} (ht : m.type = .MT_ABORT) (he : m.effective ≠ 0) :
    Move v (.message m now) v.lost [v.source]
  | scans {now : Int} {c : ChannelDef} (h : v.st = .Recovery) :
    Move v (.tick now) { v with scan := c } [c]

theorem Post.heeds_state {v : Post} {m : MigMsg} (h : v.heeds m = true) :
    v.st = .Committed ∨ v.st = .Switching ∨ v.st = .Verifying := by
  simp only [Post.heeds, Bool.and_eq_true, Bool.or_eq_true, beq_iff_eq] at h
  exact or_assoc.mp h.1.2

/-- A call that ends the exchange does that and nothing else. -/
theorem Move.of_ends {v v' : Post} {op : Op} {cs : List ChannelDef} {c : ChannelDef}
    (hm : Move v op v' cs) (h : v.ends op = some c) :
    v' = { v with st := .Stable, current := c, following := !op.isRetuneDone && v.following } ∧
      cs = [] := by
  cases hm with
  | rest hn => exact absurd (hn.symm.trans h) (by simp)
  | settles hc =>
    obtain rfl := Option.some.inj (hc.symm.trans h)
    exact ⟨rfl, rfl⟩
  | switches hst hf => simp [Post.ends, hf] at h
  | follows ht hh hc =>
    rcases Post.heeds_state hh with hst | hst | hst <;>
      simp [Post.ends, Post.endsOn, ht, hc, hst] at h
  | adopts ht | adoptsLate ht => simp [Post.ends, Post.endsOn, ht] at h
  | aborts ht he => simp [Post.ends, Post.endsOn, ht, he] at h
  | starts | givesUp | activates | loses | scans => simp [Post.ends] at h

/-- The move that a call makes. -/
def Moves (s : MigProposer) (op : Op) (t : MigProposer × List MigAction) : Prop :=
  Move s.post op t.1.post (tunes t.2)

/-! ## Messages -/

theorem tick_committed_moves (s : MigProposer) (now : Int) :
    ((s.tick_committed now).1.post = s.post ∧ tunes (s.tick_committed now).2 = []) ∨
      ((s.tick_committed now).1.post = { s.post with st := .Switching } ∧
        tunes (s.tick_committed now).2 = [s.commit_target_]) := by
  unfold tick_committed tick_ack tick_activate
  simp only
  split <;> split
  · exact .inr ⟨rfl, rfl⟩
  · exact .inl ⟨rfl, rfl⟩
  · exact .inr ⟨rfl, rfl⟩
  · exact .inl ⟨rfl, rfl⟩

theorem moves_on_commit (s : MigProposer) (m : MigMsg) (now : Int) (ht : m.type = .MT_COMMIT) :
    Moves s (.message m now) (s.on_commit m now) := by
  have hrest : Move s.post (.message m now) s.post [] :=
    .rest (by simp [Post.ends, Post.endsOn, ht]) (by simp [Op.isRetuneDone])
  unfold on_commit
  split
  · exact hrest
  · rename_i hm
    have hm' : m.generation = s.gen_ ∧ m.ground_nonce_echo = s.nonce_ := by
      simpa [commit_matches] using hm
    split
    · rename_i hst
      unfold Moves
      rcases tick_committed_moves (s.adopt_commit m now) now with ⟨hp, htn⟩ | ⟨hp, htn⟩
      · have htn' : tunes ((s.adopt_commit m now).ev ::
            ((s.adopt_commit m now).tick_committed now).2) = [] := htn
        rw [htn', hp]
        exact .adopts ht hst hm'.1 hm'.2
      · have htn' : tunes ((s.adopt_commit m now).ev ::
            ((s.adopt_commit m now).tick_committed now).2) = [m.target] := htn
        rw [htn', hp]
        exact .adoptsLate ht hst hm'.1 hm'.2
    · exact hrest
    · exact hrest

/-- The drone has settled where the ground is. -/
theorem follow_drone_here (s : MigProposer) (chan : ChannelDef)
    (h : s.current_.same_rf chan = true) :
    (s.follow_drone chan).1.post = { s.post with st := .Stable, current := chan } ∧
      tunes (s.follow_drone chan).2 = [] := by
  unfold follow_drone
  rw [if_pos h]
  refine ⟨rfl, ?_⟩
  simp only
  split <;> rfl

theorem heeds_iff (s : MigProposer) (m : MigMsg) :
    s.post.heeds m = true ↔ m.role = 1 ∧ m.generation = s.gen_ ∧
      (s.st_ = .Committed ∨ s.st_ = .Switching ∨ s.st_ = .Verifying) ∧
      m.state = MigState.Stable.toUInt8 := by
  simp only [Post.heeds, Bool.and_eq_true, Bool.or_eq_true, beq_iff_eq, or_assoc, and_assoc]
  rfl

theorem moves_on_status (s : MigProposer) (m : MigMsg) (now : Int) (ht : m.type = .MT_STATUS) :
    Moves s (.message m now) (s.on_status m) := by
  unfold on_status
  split
  · rename_i h
    have he : s.post.ends (.message m now) = some s.source_ := by
      simp only [Post.ends, Post.endsOn, ht]
      exact if_pos h
    exact .settles he
  · rename_i h
    split
    · rename_i hh
      have hheeds := (heeds_iff s m).mpr hh
      by_cases hsame : s.current_.same_rf m.current = true
      · have he : s.post.ends (.message m now) = some m.current := by
          simp only [Post.ends, Post.endsOn, ht]
          exact (if_neg h).trans (if_pos ⟨hheeds, hsame⟩)
        obtain ⟨hp, htn⟩ := follow_drone_here s m.current hsame
        unfold Moves
        rw [hp, htn]
        exact .settles he
      · unfold follow_drone
        rw [if_neg hsame]
        exact .follows ht hheeds hsame
    · rename_i hh
      refine .rest ?_ (by simp [Op.isRetuneDone])
      simp only [Post.ends, Post.endsOn, ht]
      exact (if_neg h).trans (if_neg fun hc => hh ((heeds_iff s m).mp hc.1))

theorem maybe_confirm_idle (s : MigProposer) (now : Int) :
    (s.maybe_confirm now).1.post = s.post ∧ tunes (s.maybe_confirm now).2 = [] := by
  unfold maybe_confirm
  split <;> exact ⟨rfl, rfl⟩

theorem moves_on_marker (s : MigProposer) (m : MigMsg) (now : Int) (ht : m.type = .MT_MARKER) :
    Moves s (.message m now) (s.on_marker m now) := by
  have hrest : s.st_ ≠ .Recovery → Move s.post (.message m now) s.post [] := by
    intro hst
    refine .rest ?_ (by simp [Op.isRetuneDone])
    simp only [Post.ends, Post.endsOn, ht]
    exact if_neg fun hc => hst hc.2.2
  unfold on_marker
  split
  · rename_i h
    refine .rest ?_ (by simp [Op.isRetuneDone])
    simp only [Post.ends, Post.endsOn, ht]
    exact if_neg fun hc => h.elim (· hc.1) (· hc.2.1)
  · rename_i h
    obtain ⟨hg, he⟩ := not_or.mp h
    split
    · rename_i hst
      have hst' : s.st_ ≠ .Recovery := by simp [hst]
      split
      · exact hrest hst'
      · split
        · exact hrest hst'
        · unfold Moves
          obtain ⟨hp, htn⟩ := maybe_confirm_idle
            { s with got_gen_marker_ := true, markers_seen_ := s.markers_seen_ + 1 } now
          rw [hp, htn]
          exact hrest hst'
    · rename_i hst
      have hends : s.post.ends (.message m now) = some m.aired_on := by
        simp only [Post.ends, Post.endsOn, ht]
        exact if_pos ⟨Decidable.not_not.mp hg, Decidable.not_not.mp he, hst⟩
      exact .settles hends
    · rename_i hst
      exact hrest hst

theorem moves_on_abort (s : MigProposer) (m : MigMsg) (now : Int) (ht : m.type = .MT_ABORT) :
    Moves s (.message m now) (s.on_abort m now) := by
  unfold on_abort
  split
  · rename_i h
    have he : s.post.ends (.message m now) = some s.source_ := by
      simp only [Post.ends, Post.endsOn, ht]
      exact if_pos h
    exact .settles he
  · rename_i h
    exact .aborts ht h

theorem moves_on_message (s : MigProposer) (m : MigMsg) (now : Int) :
    Moves s (.message m now) (s.on_message m now) := by
  unfold on_message
  split
  · rename_i ht; exact moves_on_commit s m now ht
  · rename_i ht; exact moves_on_status s m now ht
  · rename_i ht; exact moves_on_marker s m now ht
  · rename_i ht; exact moves_on_abort s m now ht
  · refine .rest ?_ (by simp [Op.isRetuneDone])
    simp only [Post.ends, Post.endsOn]

/-! ## The other calls -/

theorem moves_tick (s : MigProposer) (now : Int) : Moves s (.tick now) (s.on_tick now) := by
  have hrest : Move s.post (.tick now) s.post [] := .rest rfl (by simp [Op.isRetuneDone])
  unfold on_tick
  split
  · rename_i hst
    unfold tick_proposed
    split
    · exact hrest
    · split
      · exact .givesUp hst
      · exact hrest
  · rename_i hst
    unfold Moves
    rcases tick_committed_moves s now with ⟨hp, htn⟩ | ⟨hp, htn⟩
    · rw [hp, htn]
      exact hrest
    · rw [hp, htn]
      exact .activates hst
  · rename_i hst
    have hv : Moves s (.tick now) (s.tick_verifying now) := by
      unfold tick_verifying tick_confirm tick_follow
      simp only
      split <;> split
      · exact .loses hst
      · exact hrest
      · exact .loses hst
      · exact hrest
    exact hv
  · rename_i hst
    unfold tick_recovery
    split
    · exact hrest
    · unfold Moves
      simp only
      split <;> exact .scans hst
  · exact hrest

theorem moves_retune_done (s : MigProposer) : Moves s .retune_done s.on_retune_done := by
  unfold on_retune_done
  split
  · rename_i hst
    refine .rest ?_ fun _ => hst
    exact if_neg fun hc => hst hc.1
  · rename_i hst
    have hst' : s.st_ = .Switching := Decidable.not_not.mp hst
    split
    · rename_i hf
      have he : s.post.ends .retune_done = some s.follow_channel_ := if_pos ⟨hst', hf⟩
      exact .settles he
    · rename_i hf
      exact .switches hst' (Bool.eq_false_iff.mpr hf)

theorem moves_video (s : MigProposer) (now : Int) : Moves s (.video now) (s.on_video now) := by
  have hrest : s.st_ ≠ .Recovery → Move s.post (.video now) s.post [] := by
    intro hst
    exact .rest (if_neg hst) (by simp [Op.isRetuneDone])
  unfold on_video
  split
  · rename_i hst
    have hst' : s.st_ ≠ .Recovery := by simp [hst]
    split
    · exact hrest hst'
    · unfold Moves
      obtain ⟨hp, htn⟩ := maybe_confirm_idle { s with video_seen_ := s.video_seen_ + 1 } now
      rw [hp, htn]
      exact hrest hst'
  · rename_i hst
    have he : s.post.ends (.video now) = some s.recov_channel := if_pos hst
    exact .settles he
  · rename_i hst
    exact hrest hst

/-- Every call makes one of the moves. -/
theorem feed_moves (s : MigProposer) (op : Op) : Moves s op (s.feed op) := by
  cases op with
  | start target evidence_gen rescue now =>
    unfold feed start
    simp only
    split
    · exact .rest rfl (by simp [Op.isRetuneDone])
    · rename_i hst
      exact .starts (Decidable.not_not.mp hst)
  | message m now => exact moves_on_message s m now
  | tick now => exact moves_tick s now
  | retune_done => exact moves_retune_done s
  | video now => exact moves_video s now

end devourer.chanmig.MigProposer
