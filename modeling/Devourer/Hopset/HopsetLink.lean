-- The authority and a follower, over a network that may drop, repeat, delay
-- and reorder what they send. What the follower holds is what was committed.
import Devourer.Lib.Network
import Devourer.Hopset.AuthorityMoves
import Devourer.Hopset.FollowerMoves

namespace devourer.hopset

open HopsetAction

/-- A message, with the slot that its sender sent it in. -/
structure Frame where
  msg : HopsetMsg
  slot : UInt64

/-- The two ends. The rest is no part of the program: the states that the authority committed and
the slots that the follower was called at, the latest first, and the slot of the authority's last
call. -/
structure HopsetLink where
  authority : HopsetAuthority
  follower : HopsetFollower
  committed : List HopsetState := []
  slots : List UInt64 := []
  clock : UInt64 := 0

namespace HopsetLink

/-- What can happen at one end, apart from a message. The authority may be asked for anything, by
a proposal from anywhere too. -/
inductive Input
  | authority (op : HopsetAuthority.Op) (now : UInt64)
  | propose (mask : UInt64) (observation_count reason_bitmap nonce : UInt32) (now : UInt64)
  | marker (marker_gen : UInt32) (fp_matches : Bool) (marker_slot now : UInt64)
  | tick (now : UInt64)

/-- The end that a message reaches, and its slot. -/
inductive Ear
  | authority (now : UInt64)
  | follower (now : UInt64)

def frames (now : UInt64) (acts : List HopsetAction) : List Frame :=
  (sends acts).map fun m => ⟨m, now⟩

/-- The committed states after a call of the authority: a call that starts a commit adds one. -/
def commits (before after : HopsetAuthority) (committed : List HopsetState) : List HopsetState :=
  if !before.committing_ && after.committing_ then after.pend_ :: committed else committed

def by_authority (l : HopsetLink) (op : HopsetAuthority.Op) (now : UInt64) :
    HopsetLink × List Frame :=
  let t := l.authority.feed op now
  ({ l with authority := t.1, committed := commits l.authority t.1 l.committed, clock := now },
    frames now t.2)

def by_follower (l : HopsetLink) (op : HopsetFollower.Op) (now : UInt64) :
    HopsetLink × List Frame :=
  let t := l.follower.feed op now
  ({ l with follower := t.1, slots := now :: l.slots }, frames now t.2)

def act (l : HopsetLink) : Input → HopsetLink × List Frame
  | .authority op now => l.by_authority op now
  | .propose mask observation_count reason_bitmap nonce now =>
    l.by_follower (.propose mask observation_count reason_bitmap nonce) now
  | .marker marker_gen fp_matches marker_slot now =>
    l.by_follower (.marker marker_gen fp_matches marker_slot) now
  | .tick now => l.by_follower .tick now

/-- The call that the host of the authority makes of a message. -/
def authority_call (m : HopsetMsg) : Option HopsetAuthority.Op :=
  match m.type with
  | .HT_PROPOSAL => some (.proposal m)
  | .HT_STATUS => if m.role = 0 then some .feedback else none
  | .HT_COMMIT => none

/-- The call that the host of the follower makes of a message. -/
def follower_call (m : HopsetMsg) : Option HopsetFollower.Op :=
  match m.type with
  | .HT_COMMIT => some (.commit m)
  | .HT_STATUS => some (.status m)
  | .HT_PROPOSAL => none

def take (l : HopsetLink) : Ear → Frame → HopsetLink × List Frame
  | .authority now, f =>
    match authority_call f.msg with
    | some op => l.by_authority op now
    | none => (l, [])
  | .follower now, f =>
    match follower_call f.msg with
    | some op => l.by_follower op now
    | none => (l, [])

/-- The link as a network in which nothing that was sent is ever lost. -/
def network : Network HopsetLink Input Ear Frame := ⟨act, take⟩

abbrev World := Network.World HopsetLink Frame
abbrev Op := Network.Op Input Ear

/-- The slots of the authority do not go back, and no message reaches the follower before the
slot that it was sent in. -/
def InOrder (w : World) : Op → Prop
  | .act (.authority _ now) => w.parties.clock ≤ now
  | .act _ => True
  | .deliver (.authority now) _ => w.parties.clock ≤ now
  | .deliver (.follower now) k => ∀ f, w.pool[k]? = some f → f.slot ≤ now

/-- A state that the follower holds for a generation of its own number. -/
def Held (l : HopsetLink) (st : HopsetState) : Prop :=
  (st = l.follower.cur_ ∨ l.follower.st_ = .Pending ∧ st = l.follower.pend_) ∧ st.generation ≠ 0

/-- The authority committed this state, and no other, for its generation. -/
structure Agrees (l : HopsetLink) (st : HopsetState) : Prop where
  epoch : st.epoch = l.authority.epoch_
  committed : ∃ d ∈ l.committed, d.generation = st.generation
  same : ∀ d ∈ l.committed, d.generation = st.generation →
    d.active_mask = st.active_mask ∧ d.activate_slot = st.activate_slot

/-- The slot of a numbered state is among these, or before one of them. -/
def Begun (st : HopsetState) (slots : List UInt64) : Prop :=
  st.generation ≠ 0 → ∃ t ∈ slots, st.activate_slot ≤ t

/-- The follower has been called at the slot of what it has in force, or after it. -/
def Reached (l : HopsetLink) : Prop := Begun l.follower.cur_ l.slots

/-- The follower's last slot is not before the slot of what it has in force. -/
def InForce (l : HopsetLink) : Prop :=
  l.follower.cur_.generation ≠ 0 →
    ∀ t, l.slots.head? = some t → l.follower.cur_.activate_slot ≤ t

/-! ## What the authority has committed -/

/-- The committed states are of one epoch and of different generations, and nothing else is in
force or in the air. -/
structure Logged (c : HopsetAuthority.Core) (committed : List HopsetState) : Prop where
  epoch : ∀ d ∈ committed, d.epoch = c.epoch
  counted : ∀ d ∈ committed, d.generation ≠ 0
  bound : ∀ d ∈ committed, d.generation.toNat ≤ c.cur.generation.toNat ∨
    c.committing = true ∧ d = c.pend
  once : ∀ d ∈ committed, ∀ d' ∈ committed, d.generation = d'.generation → d = d'
  cur : c.cur.generation = 0 ∨ c.cur ∈ committed
  pend : c.committing = true → c.pend ∈ committed ∧ c.pend.generation = c.cur.generation + 1 ∧
    c.pend.generation < kGenCeiling
  below : c.cur.generation < kGenCeiling

/-- The next generation is the first that has not been committed. -/
theorem logged_commits {s : HopsetAuthority} {now mask earliest : UInt64} {op : HopsetAuthority.Op}
    {committed : List HopsetState} (h : Logged s.core committed)
    (hop : op.asks = some (mask, earliest)) (hopen : s.opens now op = true)
    (replays : ProposalReplayRing) :
    Logged { s.core with pend := s.next mask earliest now, committing := true, replays := replays }
      (s.next mask earliest now :: committed) := by
  obtain ⟨hc, hmask, -⟩ := HopsetAuthority.opens_spec hopen hop
  have hroom := (HopsetAuthority.mask_reason_none hmask).1
  have hnext : (s.next mask earliest now).generation.toNat = s.cur_.generation.toNat + 1 :=
    generation_succ h.below
  have hold : ∀ d ∈ committed, d.generation.toNat ≤ s.cur_.generation.toNat := by
    intro d hd
    rcases h.bound d hd with hle | ⟨hcom, -⟩
    · exact hle
    · exact absurd (hc.symm.trans hcom) (by simp)
  have hnew : ∀ d ∈ committed, d.generation ≠ (s.next mask earliest now).generation := by
    intro d hd heq
    have hle := hold d hd
    rw [heq, hnext] at hle
    omega
  refine ⟨?_, ?_, ?_, ?_, ?_, ?_, h.below⟩
  · intro d hd
    rcases List.mem_cons.mp hd with rfl | hd
    · rfl
    · exact h.epoch d hd
  · intro d hd
    rcases List.mem_cons.mp hd with rfl | hd
    · intro hzero
      have hnat := congrArg UInt32.toNat hzero
      rw [hnext] at hnat
      exact absurd hnat (by simp)
    · exact h.counted d hd
  · intro d hd
    rcases List.mem_cons.mp hd with rfl | hd
    · exact .inr ⟨rfl, rfl⟩
    · exact .inl (hold d hd)
  · intro d hd d' hd' heq
    rcases List.mem_cons.mp hd with rfl | hd <;> rcases List.mem_cons.mp hd' with rfl | hd'
    · rfl
    · exact absurd heq.symm (hnew d' hd')
    · exact absurd heq (hnew d hd)
    · exact h.once d hd d' hd' heq
  · rcases h.cur with hzero | hmem
    · exact .inl hzero
    · exact .inr (List.mem_cons_of_mem _ hmem)
  · intro _
    exact ⟨List.mem_cons_self, rfl, hroom⟩

theorem logged_activates {s : HopsetAuthority} {committed : List HopsetState}
    (h : Logged s.core committed) (hc : s.committing_ = true) (round : UInt64) :
    Logged { s.core with
      cur := s.pend_
      committing := false
      last_activation_round := round
      have_activation := true } committed := by
  obtain ⟨hmem, hgen, hlt⟩ := h.pend hc
  have hnext : s.pend_.generation.toNat = s.cur_.generation.toNat + 1 :=
    (congrArg UInt32.toNat hgen).trans (generation_succ h.below)
  refine ⟨h.epoch, h.counted, ?_, h.once, .inr hmem, ?_, hlt⟩
  · intro d hd
    left
    show d.generation.toNat ≤ s.pend_.generation.toNat
    rcases h.bound d hd with hle | ⟨-, rfl⟩
    · have hle' : d.generation.toNat ≤ s.cur_.generation.toNat := hle
      rw [hnext]
      omega
    · exact Nat.le_refl _
  · intro hf
    cases hf

/-- The log after a call. -/
theorem logged_move {s : HopsetAuthority} {now : UInt64} {op : HopsetAuthority.Op}
    {c : HopsetAuthority.Core} {l : List HopsetState} {committed : List HopsetState}
    (h : Logged s.core committed) (hm : HopsetAuthority.Move s now op c l) :
    Logged c (if !s.committing_ && c.committing then c.pend :: committed else committed) := by
  cases hm with
  | rest =>
    have hsame : (!s.committing_ && s.core.committing) = false := Bool.not_and_self s.committing_
    rw [hsame]
    exact h
  | commits hop hopen =>
    have hc := (HopsetAuthority.opens_spec hopen hop).1
    rw [hc]
    exact logged_commits h hop hopen _
  | activates hc =>
    rw [hc]
    exact logged_activates h hc _

/-! ## What is in flight -/

/-- A state of this generation, mask and slot was committed. -/
def Committed (committed : List HopsetState) (generation : UInt32) (mask slot : UInt64) : Prop :=
  ∃ d ∈ committed, d.generation = generation ∧ d.active_mask = mask ∧ d.activate_slot = slot

theorem Committed.mono {old new : List HopsetState} {generation : UInt32} {mask slot : UInt64}
    (h : Committed old generation mask slot) (hsub : old ⊆ new) :
    Committed new generation mask slot := by
  obtain ⟨d, hd, heq⟩ := h
  exact ⟨d, hsub hd, heq⟩

/-- A frame that carries a state carries a committed one, or says that none is in force. -/
structure Traced (epoch : UInt32) (committed : List HopsetState) (m : HopsetMsg) : Prop where
  commit : m.type = .HT_COMMIT →
    m.tx_epoch = epoch ∧ Committed committed m.generation m.active_mask m.activate_slot
  status : m.type = .HT_STATUS → m.role = 1 → m.sender_epoch = epoch ∧
    (m.generation = 0 ∨ Committed committed m.generation m.active_mask m.activate_slot)

theorem Traced.mono {epoch : UInt32} {old new : List HopsetState} {m : HopsetMsg}
    (h : Traced epoch old m) (hsub : old ⊆ new) : Traced epoch new m := by
  constructor
  · intro ht
    obtain ⟨he, hc⟩ := h.commit ht
    exact ⟨he, hc.mono hsub⟩
  · intro ht hr
    obtain ⟨he, hz | hc⟩ := h.status ht hr
    · exact ⟨he, .inl hz⟩
    · exact ⟨he, .inr (hc.mono hsub)⟩

theorem traced_of_tells {c : HopsetAuthority.Core} {committed : List HopsetState} {m : HopsetMsg}
    (h : Logged c committed) (hm : HopsetAuthority.Tells c m) : Traced c.epoch committed m := by
  cases hm with
  | status type sender generation mask slot =>
    constructor
    · intro ht
      exact absurd (type.symm.trans ht) (by simp)
    · intro _ _
      refine ⟨sender, ?_⟩
      rw [generation, mask, slot]
      rcases h.cur with hz | hmem
      · exact .inl hz
      · exact .inr ⟨c.cur, hmem, rfl, rfl, rfl⟩
  | commit type sender committing generation mask slot =>
    constructor
    · intro _
      refine ⟨sender, ?_⟩
      rw [generation, mask, slot]
      exact ⟨c.pend, (h.pend committing).1, rfl, rfl, rfl⟩
    · intro ht
      exact absurd (type.symm.trans ht) (by simp)

theorem traced_of_airs {epoch : UInt32} {committed : List HopsetState} {m : HopsetMsg}
    (h : HopsetFollower.Airs m) : Traced epoch committed m := by
  constructor
  · intro ht
    rcases h with h | ⟨h, -⟩
    · exact absurd (h.symm.trans ht) (by simp)
    · exact absurd (h.symm.trans ht) (by simp)
  · intro ht hr
    rcases h with h | ⟨-, h⟩
    · exact absurd (h.symm.trans ht) (by simp)
    · exact absurd (h.symm.trans hr) (by decide)

/-! ## What the follower holds -/

/-- The state in force is none or a committed one, and what is pending is a committed one. -/
structure Holding (epoch : UInt32) (committed : List HopsetState) (v : HopsetFollower.Hold) :
    Prop where
  cur : v.cur.generation = 0 ∨ v.cur.epoch = epoch ∧
    Committed committed v.cur.generation v.cur.active_mask v.cur.activate_slot
  pend : v.st = .Pending → v.pend.epoch = epoch ∧
    Committed committed v.pend.generation v.pend.active_mask v.pend.activate_slot

theorem Holding.mono {epoch : UInt32} {old new : List HopsetState} {v : HopsetFollower.Hold}
    (h : Holding epoch old v) (hsub : old ⊆ new) : Holding epoch new v := by
  constructor
  · rcases h.cur with hz | ⟨he, hc⟩
    · exact .inl hz
    · exact .inr ⟨he, hc.mono hsub⟩
  · intro hst
    obtain ⟨he, hc⟩ := h.pend hst
    exact ⟨he, hc.mono hsub⟩

theorem holding_move {epoch : UInt32} {committed : List HopsetState} {s : HopsetFollower}
    {now : UInt64} {op : HopsetFollower.Op} {v : HopsetFollower.Hold}
    (h : Holding epoch committed s.hold) (hm : HopsetFollower.Move s now op v)
    (hcommit : ∀ m, op = .commit m →
      m.tx_epoch = epoch ∧ Committed committed m.generation m.active_mask m.activate_slot)
    (hstatus : ∀ m, op = .status m → m.role = 1 → m.sender_epoch = epoch ∧
      (m.generation = 0 ∨ Committed committed m.generation m.active_mask m.activate_slot)) :
    Holding epoch committed v := by
  cases hm with
  | rest => exact h
  | turns hst => exact ⟨h.cur, fun hp => absurd hp hst⟩
  | arms => exact ⟨h.cur, fun _ => hcommit _ rfl⟩
  | joins => exact ⟨.inr (hcommit _ rfl), fun hp => by cases hp⟩
  | @recovers m hrole =>
    refine ⟨?_, fun hp => by cases hp⟩
    obtain ⟨he, hc⟩ := hstatus m rfl hrole
    by_cases hz : m.generation = 0
    · exact .inl hz
    · have hmask : (s.of_status m).active_mask = m.active_mask := if_neg hz
      refine .inr ⟨he, ?_⟩
      show Committed committed m.generation (s.of_status m).active_mask m.activate_slot
      rw [hmask]
      exact hc.resolve_left hz
  | activates hst => exact ⟨.inr (h.pend hst), fun hp => by cases hp⟩

/-! ## Every run -/

/-- The two ends as they are built. -/
def fresh (authority follower : HopsetParams) (ea ef : UInt32) : World where
  parties := ⟨.init authority ea, .init follower ef, [], [], 0⟩
  pool := []

/-- What is in the air and what the follower holds was committed. -/
structure Kept (w : World) : Prop where
  log : Logged w.parties.authority.core w.parties.committed
  air : ∀ f ∈ w.pool, Traced w.parties.authority.epoch_ w.parties.committed f.msg
  holds : Holding w.parties.authority.epoch_ w.parties.committed w.parties.follower.hold
  asks : w.parties.follower.prop_.type = .HT_PROPOSAL

theorem mem_frames {now : UInt64} {acts : List HopsetAction} {f : Frame} :
    f ∈ frames now acts ↔ f.msg ∈ sends acts ∧ f.slot = now := by
  unfold frames
  rw [List.mem_map]
  constructor
  · rintro ⟨m, hm, rfl⟩
    exact ⟨hm, rfl⟩
  · rintro ⟨hm, rfl⟩
    exact ⟨f.msg, hm, rfl⟩

theorem subset_commits (before after : HopsetAuthority) (committed : List HopsetState) :
    committed ⊆ commits before after committed := by
  unfold commits
  split
  · exact List.subset_cons_self _ _
  · exact List.Subset.refl _

theorem kept_authority {w : World} (h : Kept w) (op : HopsetAuthority.Op) (now : UInt64) :
    Kept (w.put (w.parties.by_authority op now)) := by
  obtain ⟨hmove, htells⟩ := HopsetAuthority.feed_moves w.parties.authority op now
  have hepoch : (w.parties.authority.feed op now).1.epoch_ = w.parties.authority.epoch_ :=
    hmove.epoch
  have hlog := logged_move h.log hmove
  have hsub := subset_commits w.parties.authority (w.parties.authority.feed op now).1
    w.parties.committed
  refine ⟨hlog, ?_, ?_, h.asks⟩
  · intro f hf
    rcases (Network.World.mem_put_pool _ _ f).mp hf with hf | hf
    · have hold := (h.air f hf).mono hsub
      rw [← hepoch] at hold
      exact hold
    · exact traced_of_tells hlog (htells f.msg (mem_frames.mp hf).1)
  · have hold := h.holds.mono hsub
    rw [← hepoch] at hold
    exact hold

theorem kept_follower {w : World} (h : Kept w) (op : HopsetFollower.Op) (now : UInt64)
    (hv : Holding w.parties.authority.epoch_ w.parties.committed
      (w.parties.follower.feed op now).1.hold) :
    Kept (w.put (w.parties.by_follower op now)) := by
  have hm := HopsetFollower.feed_moves w.parties.follower op now
  refine ⟨h.log, ?_, hv, hm.prop h.asks⟩
  intro f hf
  rcases (Network.World.mem_put_pool _ _ f).mp hf with hf | hf
  · exact h.air f hf
  · exact traced_of_airs (hm.sends h.asks f.msg (mem_frames.mp hf).1)

/-- An input is a call of the authority, or a call of the follower without a message. -/
theorem act_cases (l : HopsetLink) (i : Input) :
    (∃ op now, i = .authority op now ∧ l.act i = l.by_authority op now) ∨
      ∃ op now, l.act i = l.by_follower op now ∧ (∀ m, op ≠ .commit m) ∧ ∀ m, op ≠ .status m := by
  cases i with
  | authority op now => exact .inl ⟨op, now, rfl, rfl⟩
  | propose mask observation_count reason_bitmap nonce now => exact .inr ⟨_, now, rfl, nofun, nofun⟩
  | marker marker_gen fp_matches marker_slot now => exact .inr ⟨_, now, rfl, nofun, nofun⟩
  | tick now => exact .inr ⟨_, now, rfl, nofun, nofun⟩

theorem kept_act {w : World} (h : Kept w) (i : Input) :
    Kept (w.put (w.parties.act i)) := by
  rcases act_cases w.parties i with ⟨op, now, -, he⟩ | ⟨op, now, he, hc, hs⟩
  · rw [he]
    exact kept_authority h op now
  · have hmove := (HopsetFollower.feed_moves w.parties.follower op now).move
    rw [he]
    refine kept_follower h op now (holding_move h.holds hmove ?_ ?_)
    · intro m hm
      exact absurd hm (hc m)
    · intro m hm
      exact absurd hm (hs m)

/-- A commit that the follower is called with is one that it heard. -/
theorem of_call_commit {m m' : HopsetMsg} (h : follower_call m = some (.commit m')) :
    m.type = .HT_COMMIT ∧ m = m' := by
  unfold follower_call at h
  split at h
  · rename_i ht
    exact ⟨ht, HopsetFollower.Op.commit.inj (Option.some.inj h)⟩
  · cases h
  · cases h

/-- And so is a status. -/
theorem of_call_status {m m' : HopsetMsg} (h : follower_call m = some (.status m')) :
    m.type = .HT_STATUS ∧ m = m' := by
  unfold follower_call at h
  split at h
  · cases h
  · rename_i ht
    exact ⟨ht, HopsetFollower.Op.status.inj (Option.some.inj h)⟩
  · cases h

theorem put_nothing (w : World) : w.put (w.parties, []) = w := by
  unfold Network.World.put
  rw [List.append_nil]

/-- A message is a call of the end that it reaches, or nothing. -/
theorem take_cases (l : HopsetLink) (e : Ear) (f : Frame) :
    (∃ op now, e = .authority now ∧ l.take e f = l.by_authority op now) ∨
      (∃ op now, e = .follower now ∧ follower_call f.msg = some op ∧
        l.take e f = l.by_follower op now) ∨
      l.take e f = (l, []) := by
  cases e with
  | authority now =>
    simp only [take]
    split
    · rename_i op _
      exact .inl ⟨op, now, rfl, rfl⟩
    · exact .inr (.inr rfl)
  | follower now =>
    simp only [take]
    split
    · rename_i op hop
      exact .inr (.inl ⟨op, now, rfl, hop, rfl⟩)
    · exact .inr (.inr rfl)

theorem kept_hears {w : World} (h : Kept w) {f : Frame} (hf : f ∈ w.pool)
    {op : HopsetFollower.Op} (hop : follower_call f.msg = some op) (now : UInt64) :
    Kept (w.put (w.parties.by_follower op now)) := by
  have htraced := h.air f hf
  have hmove := (HopsetFollower.feed_moves w.parties.follower op now).move
  refine kept_follower h op now (holding_move h.holds hmove ?_ ?_)
  · rintro m rfl
    obtain ⟨ht, rfl⟩ := of_call_commit hop
    exact htraced.commit ht
  · rintro m rfl
    obtain ⟨ht, rfl⟩ := of_call_status hop
    exact htraced.status ht

theorem kept_take {w : World} (h : Kept w) (e : Ear) {f : Frame} (hf : f ∈ w.pool) :
    Kept (w.put (w.parties.take e f)) := by
  rcases take_cases w.parties e f with ⟨op, now, -, he⟩ | ⟨op, now, -, hop, he⟩ | he
  · rw [he]
    exact kept_authority h op now
  · rw [he]
    exact kept_hears h hf hop now
  · rw [he, put_nothing]
    exact h

theorem kept_fresh (pa pf : HopsetParams) (ea ef : UInt32) : Kept (fresh pa pf ea ef) := by
  refine ⟨⟨?_, ?_, ?_, ?_, .inl rfl, ?_, ?_⟩, ?_, ⟨.inl rfl, ?_⟩, rfl⟩
  · intro d hd
    cases hd
  · intro d hd
    cases hd
  · intro d hd
    cases hd
  · intro d hd
    cases hd
  · intro hc
    cases hc
  · show (0 : UInt32) < kGenCeiling
    decide
  · intro f hf
    cases hf
  · intro hst
    cases hst

theorem kept_run (pa pf : HopsetParams) (ea ef : UInt32) (ops : List Op) :
    Kept (network.run (fresh pa pf ea ef) ops) := by
  refine network.run_keeps (C := fun _ _ => True) _ (kept_fresh pa pf ea ef) ?_ ?_ ops
    (Runs.along_of_forall _ (fun _ _ _ => trivial) _)
  · intro w i _ h
    exact kept_act h i
  · intro w e k f _ _ hf h
    exact kept_take h e hf

/-- What the follower holds is what the authority committed, and nothing else was. -/
theorem Kept.agrees {w : World} (h : Kept w) {st : HopsetState} (hst : Held w.parties st) :
    Agrees w.parties st := by
  obtain ⟨hwhere, hgen⟩ := hst
  have hheld : st.epoch = w.parties.authority.epoch_ ∧
      Committed w.parties.committed st.generation st.active_mask st.activate_slot := by
    rcases hwhere with rfl | ⟨hp, rfl⟩
    · exact h.holds.cur.resolve_left hgen
    · exact h.holds.pend hp
  obtain ⟨hepoch, d, hd, hg, hmask, hslot⟩ := hheld
  refine ⟨hepoch, ⟨d, hd, hg⟩, ?_⟩
  intro d' hd' hg'
  obtain rfl := h.log.once d' hd' d hd (hg'.trans hg.symm)
  exact ⟨hmask, hslot⟩

/-! ## Runs in which no message comes early -/

/-- What is in force at either end has begun, and so has what a beacon names. -/
structure Timely (w : World) : Prop where
  kept : Kept w
  begun : w.parties.authority.cur_.activate_slot ≤ w.parties.clock
  beacons : ∀ f ∈ w.pool, f.msg.type = .HT_STATUS → f.msg.role = 1 → f.msg.activate_slot ≤ f.slot
  reached : w.parties.Reached

theorem timely_authority {w : World} (h : Timely w) (op : HopsetAuthority.Op) {now : UInt64}
    (hnow : w.parties.clock ≤ now) : Timely (w.put (w.parties.by_authority op now)) := by
  obtain ⟨hmove, htells⟩ := HopsetAuthority.feed_moves w.parties.authority op now
  have hbegun : (w.parties.authority.feed op now).1.cur_.activate_slot ≤ now :=
    hmove.begun h.begun hnow
  refine ⟨kept_authority h.kept op now, hbegun, ?_, h.reached⟩
  intro f hf ht hrole
  rcases (Network.World.mem_put_pool _ _ f).mp hf with hf | hf
  · exact h.beacons f hf ht hrole
  · obtain ⟨hsent, hslot⟩ := mem_frames.mp hf
    rw [hslot]
    cases htells f.msg hsent with
    | status _ _ _ _ slot =>
      rw [slot]
      exact hbegun
    | commit type => exact absurd (type.symm.trans ht) (by simp)

/-- The follower puts nothing in force before its slot, if no beacon comes early. -/
theorem begun_move {s : HopsetFollower} {now : UInt64} {op : HopsetFollower.Op}
    {v : HopsetFollower.Hold} {slots : List UInt64} (h : Begun s.cur_ slots)
    (hm : HopsetFollower.Move s now op v)
    (hstatus : ∀ m, op = .status m → m.role = 1 → m.activate_slot ≤ now) :
    Begun v.cur (now :: slots) := by
  have hkeep : Begun s.cur_ (now :: slots) := by
    intro hgen
    obtain ⟨t, ht, hle⟩ := h hgen
    exact ⟨t, List.mem_cons_of_mem _ ht, hle⟩
  cases hm with
  | rest => exact hkeep
  | turns => exact hkeep
  | arms => exact hkeep
  | joins _ hd => exact fun _ => ⟨now, List.mem_cons_self, hd⟩
  | recovers hrole => exact fun _ => ⟨now, List.mem_cons_self, hstatus _ rfl hrole⟩
  | activates _ hd => exact fun _ => ⟨now, List.mem_cons_self, hd⟩

theorem timely_follower {w : World} (h : Timely w) (op : HopsetFollower.Op) (now : UInt64)
    (hk : Kept (w.put (w.parties.by_follower op now)))
    (hstatus : ∀ m, op = .status m → m.role = 1 → m.activate_slot ≤ now) :
    Timely (w.put (w.parties.by_follower op now)) := by
  have hm := HopsetFollower.feed_moves w.parties.follower op now
  refine ⟨hk, h.begun, ?_, begun_move h.reached hm.move hstatus⟩
  intro f hf ht hrole
  rcases (Network.World.mem_put_pool _ _ f).mp hf with hf | hf
  · exact h.beacons f hf ht hrole
  · rcases hm.sends h.kept.asks f.msg (mem_frames.mp hf).1 with hp | ⟨-, hzero⟩
    · exact absurd (hp.symm.trans ht) (by simp)
    · exact absurd (hzero.symm.trans hrole) (by decide)

theorem timely_act {w : World} (h : Timely w) (i : Input) (hi : InOrder w (.act i)) :
    Timely (w.put (w.parties.act i)) := by
  have hk := kept_act h.kept i
  rcases act_cases w.parties i with ⟨op, now, rfl, he⟩ | ⟨op, now, he, -, hs⟩
  · exact timely_authority h op hi
  · rw [he] at hk ⊢
    exact timely_follower h op now hk fun m hm => absurd hm (hs m)

theorem timely_take {w : World} (h : Timely w) (e : Ear) {k : ℕ} {f : Frame}
    (hi : InOrder w (.deliver e k)) (hk : w.pool[k]? = some f) (hf : f ∈ w.pool) :
    Timely (w.put (w.parties.take e f)) := by
  rcases take_cases w.parties e f with ⟨op, now, rfl, he⟩ | ⟨op, now, rfl, hop, he⟩ | he
  · rw [he]
    exact timely_authority h op hi
  · rw [he]
    refine timely_follower h op now (kept_hears h.kept hf hop now) ?_
    rintro m rfl hrole
    obtain ⟨ht, rfl⟩ := of_call_status hop
    -- what a beacon names had begun when it was sent
    exact UInt64.le_trans (h.beacons f hf ht hrole) (hi f hk)
  · rw [he, put_nothing]
    exact h

theorem timely_fresh (pa pf : HopsetParams) (ea ef : UInt32) : Timely (fresh pa pf ea ef) := by
  refine ⟨kept_fresh pa pf ea ef, UInt64.le_refl _, ?_, ?_⟩
  · intro f hf
    cases hf
  · intro hgen
    exact absurd rfl hgen

theorem timely_run (pa pf : HopsetParams) (ea ef : UInt32) (ops : List Op)
    (hops : Runs.Along network.step InOrder (fresh pa pf ea ef) ops) :
    Timely (network.run (fresh pa pf ea ef) ops) := by
  refine network.run_keeps _ (timely_fresh pa pf ea ef) ?_ ?_ ops hops
  · intro w i hi h
    exact timely_act h i hi
  · intro w e k f hi hk hf h
    exact timely_take h e hi hk hf

/-- Slots that do not go back: the last is not before any of them. -/
theorem Reached.inForce {l : HopsetLink} (h : l.Reached) (hs : l.slots.Pairwise (· ≥ ·)) :
    l.InForce := by
  intro hgen last hlast
  obtain ⟨t, ht, hle⟩ := h hgen
  obtain ⟨rest, heq⟩ := List.head?_eq_some_iff.mp hlast
  rw [heq] at hs ht
  rcases List.mem_cons.mp ht with rfl | ht
  · exact hle
  · exact UInt64.le_trans hle ((List.pairwise_cons.mp hs).1 t ht)

/-- In every run the follower holds nothing but what was committed. If no message reaches it
before the slot it was sent in, it has nothing in force whose slot it has not been called at, and
nothing whose slot is still to come as long as its own slots do not go back. -/
theorem the_follower_agrees (pa pf : HopsetParams) (ea ef : UInt32) (ops : List Op) :
    let l := (network.run (fresh pa pf ea ef) ops).parties
    (∀ st, l.Held st → l.Agrees st) ∧
      (Runs.Along network.step InOrder (fresh pa pf ea ef) ops →
        l.Reached ∧ (l.slots.Pairwise (· ≥ ·) → l.InForce)) := by
  intro l
  refine ⟨?_, ?_⟩
  · intro st hst
    exact (kept_run pa pf ea ef ops).agrees hst
  · intro hops
    have hreached := (timely_run pa pf ea ef ops hops).reached
    exact ⟨hreached, hreached.inForce⟩

/-- Three channels, and the operator takes one of them out at slot 10. The commit reaches the
follower at one slot, and it ticks at another. -/
def demo (reaches ticks : UInt64) : List Op :=
  [.act (.authority (.change 3) 10), .deliver (.follower reaches) 0, .act (.tick ticks)]

def demoFresh : World := fresh { n_base := 3 } { n_base := 3 } 7 9

theorem demo_inOrder {reaches : UInt64} (h : 10 ≤ reaches) (ticks : UInt64) :
    Runs.Along network.step InOrder demoFresh (demo reaches ticks) := by
  refine ⟨UInt64.zero_le, ?_, trivial, trivial⟩
  intro f hf
  have hsent : ∀ g ∈ (network.step demoFresh (.act (.authority (.change 3) 10))).pool,
      g.slot = 10 := by decide +kernel
  rw [hsent f (List.mem_of_getElem? hf)]
  exact h

/-- The commit is for slot 33. It comes at slot 12, and the follower puts it in force at 33. -/
theorem a_commit_in_force_at_its_slot :
    let l := (network.run demoFresh (demo 12 33)).parties
    l.follower.cur_.generation = 1 ∧ l.follower.cur_.activate_slot = 33 ∧
      l.Agrees l.follower.cur_ ∧ l.Reached ∧ l.InForce := by
  intro l
  have hgen : l.follower.cur_.generation = 1 := by decide +kernel
  have hslot : l.follower.cur_.activate_slot = 33 := by decide +kernel
  have hslots : l.slots = [33, 12] := by decide +kernel
  have hheld : l.Held l.follower.cur_ := ⟨.inl rfl, by rw [hgen]; decide⟩
  obtain ⟨hagrees, htimely⟩ := the_follower_agrees { n_base := 3 } { n_base := 3 } 7 9 (demo 12 33)
  obtain ⟨hreached, hforce⟩ := htimely (demo_inOrder (by decide) 33)
  refine ⟨hgen, hslot, hagrees _ hheld, hreached, hforce ?_⟩
  show l.slots.Pairwise (· ≥ ·)
  rw [hslots]
  decide

/-- The commit comes at slot 40, late but not early, and is joined at once. Then the slot clock of
the follower falls back to 5: it still has in force what starts at slot 33. -/
theorem a_slot_clock_that_falls_back :
    let l := (network.run demoFresh (demo 40 5)).parties
    Runs.Along network.step InOrder demoFresh (demo 40 5) ∧ l.follower.cur_.generation = 1 ∧
      l.follower.cur_.activate_slot = 33 ∧ ¬ l.InForce := by
  intro l
  have hgen : l.follower.cur_.generation = 1 := by decide +kernel
  have hslot : l.follower.cur_.activate_slot = 33 := by decide +kernel
  refine ⟨demo_inOrder (by decide) 5, hgen, hslot, ?_⟩
  intro hforce
  have hle := hforce (by rw [hgen]; decide) 5 rfl
  rw [hslot] at hle
  exact absurd hle (by decide)

end HopsetLink

end devourer.hopset
