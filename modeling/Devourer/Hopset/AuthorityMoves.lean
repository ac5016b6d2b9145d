-- Every move of the authority: it starts a commit, puts one in force, or
-- stays as it is; and what it says of itself each time.
import Devourer.Hopset.HopsetAuthority

namespace devourer.hopset.HopsetAuthority

open HopsetAction

/-- What the laws of the authority are about. -/
structure Core where
  p : HopsetParams
  epoch : UInt32
  cur : HopsetState
  pend : HopsetState
  committing : Bool
  last_activation_round : UInt64
  have_activation : Bool
  replays : ProposalReplayRing

def core (s : HopsetAuthority) : Core where
  p := s.p_
  epoch := s.epoch_
  cur := s.cur_
  pend := s.pend_
  committing := s.committing_
  last_activation_round := s.last_activation_round_
  have_activation := s.have_activation_
  replays := s.replays_

namespace Core

def active_count (c : Core) : UInt64 :=
  if c.cur.generation = 0 then c.p.n_base else (popcount64 c.cur.active_mask).toUInt64

def round_of (c : Core) (slot : UInt64) : UInt64 := (slot - c.cur.activate_slot) / c.active_count

theorem round_of_toNat (c : Core) {slot : UInt64} (h : c.cur.activate_slot ≤ slot) :
    (c.round_of slot).toNat = (slot.toNat - c.cur.activate_slot.toNat) / c.active_count.toNat := by
  rw [round_of, UInt64.toNat_div, UInt64.toNat_sub_of_le _ _ h]

/-- Rounds go on with the slots. -/
theorem round_of_mono (c : Core) {a b : UInt64} (ha : c.cur.activate_slot ≤ a) (hab : a ≤ b) :
    (c.round_of a).toNat ≤ (c.round_of b).toNat := by
  rw [c.round_of_toNat ha, c.round_of_toNat (UInt64.le_trans ha hab)]
  have hle := UInt64.le_iff_toNat_le.mp hab
  exact Nat.div_le_div_right (by omega)

end Core

namespace Op

/-- The mask and the earliest round that a call asks for. -/
def asks : Op → Option (UInt64 × UInt64)
  | proposal m => some (m.active_mask, m.earliest_activate_round)
  | local_change mask _ => some (mask, 0)
  | change mask => some (mask, 0)
  | _ => none

/-- The limits on a change bind everyone but the operator. -/
def limited : Op → Bool
  | change _ => false
  | _ => true

/-- The ring after a call that is granted. -/
def remembers (r : ProposalReplayRing) : Op → ProposalReplayRing
  | proposal m => r.remember m.rx_epoch m.rx_nonce
  | _ => r

end Op

/-- The call starts a commit. -/
def opens (s : HopsetAuthority) (now : UInt64) : Op → Bool
  | .proposal m => m.base_fp = s.p_.base_fp ∧ s.replays_.contains m.rx_epoch m.rx_nonce = false ∧
      s.proposal_reason m now = .None
  | .local_change mask _ => s.committing_ = false ∧ s.limit_reason mask now = .None
  | .change mask => s.committing_ = false ∧ s.mask_reason mask = .None
  | _ => false

/-- What a call does, and the states that it puts in force. -/
inductive Move (s : HopsetAuthority) (now : UInt64) : Op → Core → List HopsetState → Prop
  | rest {op : Op} (h : s.opens now op = false) : Move s now op s.core []
  | commits {op : Op} {mask earliest : UInt64} (hop : op.asks = some (mask, earliest))
    (h : s.opens now op = true) :
    Move s now op
      { s.core with
        pend := s.next mask earliest now
        committing := true
        replays := op.remembers s.replays_ } []
  | activates (hc : s.committing_ = true) (hd : s.pend_.activate_slot ≤ now) :
    Move s now .tick
      { s.core with
        cur := s.pend_
        committing := false
        last_activation_round := { s with cur_ := s.pend_ }.round_of now
        have_activation := true } [s.pend_]

/-- The slot that the state in force is anchored at has passed. -/
theorem Move.begun {s : HopsetAuthority} {last now : UInt64} {op : Op} {c : Core}
    {l : List HopsetState} (hm : Move s now op c l) (h : s.cur_.activate_slot ≤ last)
    (hnow : last ≤ now) : c.cur.activate_slot ≤ now := by
  cases hm with
  | rest | commits => exact UInt64.le_trans h hnow
  | activates _ hd => exact hd

theorem Move.epoch {s : HopsetAuthority} {now : UInt64} {op : Op} {c : Core} {l : List HopsetState}
    (hm : Move s now op c l) : c.epoch = s.epoch_ := by
  cases hm <;> rfl

/-- What an authority says of itself: the state in force, or the one it is committing. -/
inductive Tells (c : Core) (m : HopsetMsg) : Prop
  | status (type : m.type = .HT_STATUS) (sender : m.sender_epoch = c.epoch)
    (generation : m.generation = c.cur.generation) (mask : m.active_mask = c.cur.active_mask)
    (slot : m.activate_slot = c.cur.activate_slot)
  | commit (type : m.type = .HT_COMMIT) (sender : m.tx_epoch = c.epoch)
    (committing : c.committing = true) (generation : m.generation = c.pend.generation)
    (mask : m.active_mask = c.pend.active_mask) (slot : m.activate_slot = c.pend.activate_slot)

/-- The move that a call makes, with every message it sends true of the authority after it. -/
structure Moves (s : HopsetAuthority) (now : UInt64) (op : Op)
    (t : HopsetAuthority × List HopsetAction) : Prop where
  move : Move s now op t.1.core (activations t.2)
  tells : ∀ m ∈ sends t.2, Tells t.1.core m

theorem tells_status (s : HopsetAuthority) (now : UInt64) (r : HopsetReason) :
    Tells s.core (s.status_msg now r) := .status rfl rfl rfl rfl rfl

theorem tells_commit (s : HopsetAuthority) (now : UInt64) (h : s.committing_ = true) :
    Tells s.core (s.commit_msg now) := .commit rfl rfl h rfl rfl rfl

/-! ## What is granted -/

/-- The checks that a granted mask has passed. -/
theorem mask_reason_none {s : HopsetAuthority} {mask : UInt64} (h : s.mask_reason mask = .None) :
    s.cur_.generation + 1 < kGenCeiling ∧ mask &&& ~~~(full_mask s.p_.n_base) = 0 ∧
      s.p_.min_active ≤ popcount64 mask ∧
      ¬ (s.p_.max_excluded_frac_pct < 100 ∧
        (popcount64 (full_mask s.p_.n_base &&& ~~~mask) * 100).toUInt64 >
          s.p_.max_excluded_frac_pct.toUInt64 * s.p_.n_base) := by
  unfold mask_reason at h
  split at h
  · cases h
  · rename_i hgen
    split at h
    · cases h
    · rename_i hbase
      split at h
      · cases h
      · rename_i hfloor
        split at h
        · cases h
        · rename_i hshare
          exact ⟨UInt32.not_le.mp hgen, not_not.mp hbase, UInt32.not_lt.mp hfloor, hshare⟩

theorem limit_reason_none {s : HopsetAuthority} {mask now : UInt64} :
    s.limit_reason mask now = .None ↔
      s.mask_reason mask = .None ∧ s.change_reason mask now = .None := by
  unfold limit_reason
  split
  · rename_i h
    exact ⟨fun h' => absurd h' h, fun h' => absurd h'.1 h⟩
  · rename_i h
    exact ⟨fun h' => ⟨not_not.mp h, h'⟩, fun h' => h'.2⟩

theorem proposal_reason_none {s : HopsetAuthority} {m : HopsetMsg} {now : UInt64} :
    s.proposal_reason m now = .None ↔ s.committing_ = false ∧
      ¬ (m.generation ≠ 0 ∧ m.generation ≠ s.cur_.generation + 1) ∧
      s.limit_reason m.active_mask now = .None := by
  unfold proposal_reason
  split
  · rename_i h
    simp [h]
  · rename_i h
    split
    · rename_i h'
      exact ⟨fun he => by simp at he, fun he => absurd h' he.2.1⟩
    · rename_i h'
      exact ⟨fun he => ⟨Bool.eq_false_iff.mpr h, h', he⟩, fun he => he.2.2⟩

/-- The checks that every granted change has passed. -/
theorem opens_spec {s : HopsetAuthority} {now : UInt64} {op : Op} {mask earliest : UInt64}
    (h : s.opens now op = true) (hop : op.asks = some (mask, earliest)) :
    s.committing_ = false ∧ s.mask_reason mask = .None ∧
      (op.limited = true → s.change_reason mask now = .None) := by
  cases op with
  | proposal m =>
    have hm := Prod.mk.inj (Option.some.inj hop)
    obtain ⟨rfl, rfl⟩ := hm
    simp only [opens, decide_eq_true_eq] at h
    obtain ⟨hc, -, hl⟩ := proposal_reason_none.mp h.2.2
    obtain ⟨hmask, hchange⟩ := limit_reason_none.mp hl
    exact ⟨hc, hmask, fun _ => hchange⟩
  | local_change mask' r =>
    have hm := Prod.mk.inj (Option.some.inj hop)
    obtain ⟨rfl, rfl⟩ := hm
    simp only [opens, decide_eq_true_eq] at h
    obtain ⟨hmask, hchange⟩ := limit_reason_none.mp h.2
    exact ⟨h.1, hmask, fun _ => hchange⟩
  | change mask' =>
    have hm := Prod.mk.inj (Option.some.inj hop)
    obtain ⟨rfl, rfl⟩ := hm
    simp only [opens, decide_eq_true_eq] at h
    exact ⟨h.1, h.2, fun hl => by cases hl⟩
  | reject_proposal m r => cases hop
  | feedback => cases hop
  | tick => cases hop

/-! ## The calls -/

theorem moves_reject {s : HopsetAuthority} {now : UInt64} {op : Op} (h : s.opens now op = false)
    {s' : HopsetAuthority} (hs : s'.core = s.core) (m : HopsetMsg) (r : HopsetReason) :
    Moves s now op (s'.reject m r now) := by
  constructor
  · show Move s now op s'.core []
    rw [hs]
    exact .rest h
  · intro m' hm'
    have heq : m' = { s'.status_msg now r with rx_nonce_echo := m.rx_nonce } := by
      simpa [reject] using hm'
    rw [heq]
    exact .status rfl rfl rfl rfl rfl

theorem moves_push {s : HopsetAuthority} {now : UInt64} {op : Op} (h : s.opens now op = false)
    {s' : HopsetAuthority} (hs : s'.core = s.core) (hc : s'.committing_ = true) :
    Moves s now op (s'.push_commit now) := by
  constructor
  · show Move s now op s'.core []
    rw [hs]
    exact .rest h
  · intro m hm
    have heq : m = s'.commit_msg now := by simpa [push_commit] using hm
    rw [heq]
    exact tells_commit s' now hc

/-- A call that says nothing and leaves the core. -/
theorem moves_silent {s : HopsetAuthority} {now : UInt64} {op : Op} (h : s.opens now op = false)
    {t : HopsetAuthority × List HopsetAction} (hs : t.1.core = s.core) (ha : activations t.2 = [])
    (hm : sends t.2 = []) : Moves s now op t := by
  constructor
  · rw [hs, ha]
    exact .rest h
  · intro m hmem
    rw [hm] at hmem
    cases hmem

/-- The next state is a function of the limits, the epoch and the state in force. -/
theorem next_congr {s s' : HopsetAuthority} (hp : s'.p_ = s.p_) (he : s'.epoch_ = s.epoch_)
    (hc : s'.cur_ = s.cur_) (mask earliest now : UInt64) :
    s'.next mask earliest now = s.next mask earliest now := by
  cases s
  cases s'
  subst hp he hc
  rfl

/-- A granted call, whatever the commit echoes. -/
theorem moves_start {s s' : HopsetAuthority} {now : UInt64} {op : Op} {mask earliest : UInt64}
    (hop : op.asks = some (mask, earliest)) (h : s.opens now op = true)
    (hs : s'.core = { s.core with replays := op.remembers s.replays_ }) (extra : List HopsetAction)
    (ha : activations extra = []) (hm : sends extra = []) :
    Moves s now op ((s'.start_commit mask earliest now).1,
      (s'.start_commit mask earliest now).2 ++ extra) := by
  have hnext : s'.next mask earliest now = s.next mask earliest now :=
    next_congr (congrArg Core.p hs) (congrArg Core.epoch hs) (congrArg Core.cur hs) _ _ _
  have hcore : (s'.start_commit mask earliest now).1.core =
      { s.core with
        pend := s.next mask earliest now
        committing := true
        replays := op.remembers s.replays_ } := by
    have hstart : (s'.start_commit mask earliest now).1.core =
        { s'.core with pend := s'.next mask earliest now, committing := true } := rfl
    rw [hstart, hs, hnext]
  constructor
  · rw [activations_append, ha, hcore]
    exact .commits hop h
  · intro m hmem
    rw [sends_append, hm, List.append_nil] at hmem
    have heq : m =
        { s' with pend_ := s'.next mask earliest now, committing_ := true }.commit_msg now := by
      simpa [start_commit, push_commit] using hmem
    rw [heq]
    exact .commit rfl rfl rfl rfl rfl rfl

theorem moves_on_proposal (s : HopsetAuthority) (m : HopsetMsg) (now : UInt64) :
    Moves s now (.proposal m) (s.on_proposal m now) := by
  have hcore : (s.note_feedback now).core = s.core := rfl
  have hreason : (s.note_feedback now).proposal_reason m now = s.proposal_reason m now := rfl
  unfold on_proposal judge
  split
  · rename_i hfp
    have hclosed : s.opens now (.proposal m) = false := decide_eq_false fun h => hfp h.1
    exact moves_reject hclosed hcore m _
  · rename_i hfp
    split
    · rename_i hring
      have hclosed : s.opens now (.proposal m) = false :=
        decide_eq_false fun h => absurd (h.2.1.symm.trans hring) (by simp)
      split
      · rename_i hc
        exact moves_push hclosed hcore hc.1
      · exact moves_reject hclosed hcore m _
    · rename_i hring
      split
      · rename_i hr
        rw [hreason] at hr
        have hclosed : s.opens now (.proposal m) = false := decide_eq_false fun h => hr h.2.2
        exact moves_reject hclosed hcore m _
      · rename_i hr
        rw [hreason] at hr
        have hopen : s.opens now (.proposal m) = true :=
          decide_eq_true ⟨not_not.mp hfp, Bool.eq_false_iff.mpr hring, not_not.mp hr⟩
        exact moves_start rfl hopen rfl _ rfl rfl

theorem moves_local_change (s : HopsetAuthority) (mask now : UInt64) (reason_bitmap : UInt32) :
    Moves s now (.local_change mask reason_bitmap)
      (s.start_local_change mask now reason_bitmap) := by
  unfold start_local_change
  split
  · rename_i hc
    have hclosed : s.opens now (.local_change mask reason_bitmap) = false :=
      decide_eq_false fun h => absurd (h.1.symm.trans hc) (by simp)
    exact moves_silent hclosed rfl rfl rfl
  · rename_i hc
    split
    · rename_i hr
      have hclosed : s.opens now (.local_change mask reason_bitmap) = false :=
        decide_eq_false fun h => hr h.2
      exact moves_silent hclosed rfl rfl rfl
    · rename_i hr
      have hopen : s.opens now (.local_change mask reason_bitmap) = true :=
        decide_eq_true ⟨Bool.eq_false_iff.mpr hc, not_not.mp hr⟩
      let s' : HopsetAuthority := { s with
        pend_echo_epoch_ := 0
        pend_echo_nonce_ := 0
        pend_reasons_ := reason_bitmap }
      have hs : s'.core = s.core := rfl
      have h := moves_start rfl hopen hs [] rfl rfl
      rw [List.append_nil] at h
      exact h

theorem moves_change (s : HopsetAuthority) (mask now : UInt64) :
    Moves s now (.change mask) (s.start_change mask now) := by
  unfold start_change
  split
  · rename_i hc
    have hclosed : s.opens now (.change mask) = false :=
      decide_eq_false fun h => absurd (h.1.symm.trans hc) (by simp)
    exact moves_silent hclosed rfl rfl rfl
  · rename_i hc
    split
    · rename_i hr
      have hclosed : s.opens now (.change mask) = false := decide_eq_false fun h => hr h.2
      exact moves_silent hclosed rfl rfl rfl
    · rename_i hr
      have hopen : s.opens now (.change mask) = true :=
        decide_eq_true ⟨Bool.eq_false_iff.mpr hc, not_not.mp hr⟩
      let s' : HopsetAuthority := { s with
        pend_echo_epoch_ := 0
        pend_echo_nonce_ := 0
        pend_reasons_ := 0 }
      have hs : s'.core = s.core := rfl
      have h := moves_start rfl hopen hs [] rfl rfl
      rw [List.append_nil] at h
      exact h

theorem moves_tick_commit (s : HopsetAuthority) (now : UInt64) :
    Moves s now .tick (s.tick_commit now) := by
  unfold tick_commit
  split
  · rename_i hc
    split
    · rename_i hd
      refine ⟨.activates hc hd, ?_⟩
      intro m hm
      cases hm
    · split
      · exact moves_push rfl rfl hc
      · exact moves_silent rfl rfl rfl rfl
  · exact moves_silent rfl rfl rfl rfl

theorem tick_status_core (s : HopsetAuthority) (now : UInt64) :
    (s.tick_status now).1.core = s.core ∧ activations (s.tick_status now).2 = [] ∧
      ∀ m ∈ sends (s.tick_status now).2, Tells s.core m := by
  unfold tick_status
  split
  · refine ⟨rfl, rfl, ?_⟩
    intro m hm
    have heq : m = { s with last_status_slot_ := now }.status_msg now .None := by simpa using hm
    rw [heq]
    exact tells_status _ now _
  · refine ⟨rfl, rfl, ?_⟩
    intro m hm
    cases hm

theorem moves_on_tick (s : HopsetAuthority) (now : UInt64) : Moves s now .tick (s.on_tick now) := by
  have ha := moves_tick_commit s now
  obtain ⟨hcore, hact, htells⟩ := tick_status_core (s.tick_commit now).1 now
  unfold on_tick
  constructor
  · simp only [activations_append, hact, List.append_nil, hcore]
    exact ha.move
  · intro m hm
    simp only [sends_append, List.mem_append] at hm
    simp only [hcore]
    rcases hm with hm | hm
    · exact ha.tells m hm
    · exact htells m hm

/-- Every call makes one of the moves, and says nothing that is not so. -/
theorem feed_moves (s : HopsetAuthority) (op : Op) (now : UInt64) :
    Moves s now op (s.feed op now) := by
  cases op with
  | proposal m => exact moves_on_proposal s m now
  | local_change mask reason_bitmap => exact moves_local_change s mask now reason_bitmap
  | change mask => exact moves_change s mask now
  | reject_proposal m reason => exact moves_reject rfl rfl m reason
  | feedback => exact moves_silent rfl rfl rfl rfl
  | tick => exact moves_on_tick s now

end devourer.hopset.HopsetAuthority
