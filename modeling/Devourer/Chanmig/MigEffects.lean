-- What one input can do to each of the two machines: what it may say, and
-- how it may move the exchange. The laws of the link are proved from these.
import Devourer.Chanmig.MigProposer
import Devourer.Chanmig.MigResponder

namespace devourer.chanmig

open MigAction

/-! ## The ground -/

namespace MigProposer

/-- Two machines that would send the same ack. -/
structure SameAck (q s : MigProposer) : Prop where
  epoch : q.epoch_ = s.epoch_
  gen : q.gen_ = s.gen_
  nonce : q.drone_nonce_ = s.drone_nonce_

theorem SameAck.refl (s : MigProposer) : SameAck s s := ⟨rfl, rfl, rfl⟩

theorem SameAck.trans {q s t : MigProposer} (h : SameAck q s) (h' : SameAck s t) : SameAck q t :=
  ⟨h.epoch.trans h'.epoch, h.gen.trans h'.gen, h.nonce.trans h'.nonce⟩

/-- What the ground sends: proposals and confirms of its own epoch, and acks of a commit that it
holds. -/
inductive Tells (s : MigProposer) (m : MigMsg) : Prop
  | proposal (type : m.type = .MT_PROPOSAL) (epoch : m.ground_epoch = s.epoch_)
  | confirm (type : m.type = .MT_CONFIRM)
  | ack (type : m.type = .MT_STATUS) (held : s.st_ = .Committed) (epoch : m.sender_epoch = s.epoch_)
    (gen : m.generation = s.gen_) (echo : m.peer_nonce_echo = s.drone_nonce_)

/-- An input that commits the ground to nothing new. -/
structure Quiet (s : MigProposer) (r : MigProposer × List MigAction) : Prop where
  epoch : r.1.epoch_ = s.epoch_
  committed : r.1.st_ = .Committed → s.st_ = .Committed ∧ SameAck s r.1
  tells : AllSent (Tells s) r.2

theorem quiet_nothing (s : MigProposer) : Quiet s (s, []) :=
  ⟨rfl, fun h => ⟨h, SameAck.refl s⟩, allSent_nil⟩

/-- An input that leaves the machine outside `Committed`, with at most one thing to say. -/
theorem quiet_of_elsewhere {s s' : MigProposer} {acts : List MigAction} (he : s'.epoch_ = s.epoch_)
    (hst : s'.st_ ≠ .Committed) (hacts : AllSent (Tells s) acts) :
    Quiet s (s', acts) :=
  ⟨he, fun h => absurd h hst, hacts⟩

/-- What is said after a quiet input could have been said before it. -/
theorem Quiet.tells_before {s : MigProposer} {r : MigProposer × List MigAction} (h : Quiet s r)
    {m : MigMsg} (hm : Tells r.1 m) : Tells s m := by
  cases hm with
  | proposal ht he => exact .proposal ht (he.trans h.epoch)
  | confirm ht => exact .confirm ht
  | ack ht hst he hg hn =>
    obtain ⟨hs, hack⟩ := h.committed hst
    exact .ack ht hs (he.trans h.epoch) (hg.trans hack.gen.symm) (hn.trans hack.nonce.symm)

theorem Quiet.andThen {s : MigProposer} {r t : MigProposer × List MigAction} (h : Quiet s r)
    (ht : Quiet r.1 t) : Quiet s (t.1, r.2 ++ t.2) := by
  refine ⟨ht.epoch.trans h.epoch, ?_, ?_⟩
  · intro hst
    obtain ⟨hr, hack⟩ := ht.committed hst
    obtain ⟨hs, hack'⟩ := h.committed hr
    exact ⟨hs, hack'.trans hack⟩
  · exact allSent_append.mpr ⟨h.tells, ht.tells.imp fun _ => h.tells_before⟩

theorem quiet_start (s : MigProposer) (target : ChannelDef) (evidence_gen : UInt32)
    (rescue : ChannelDef) (now : Int) : Quiet s (s.start target evidence_gen rescue now) := by
  unfold start
  split
  · exact quiet_nothing s
  · exact quiet_of_elsewhere rfl (by simp) (allSent_send (.proposal rfl rfl) (by simp))

theorem quiet_tick_ack (s : MigProposer) (now : Int) (h : s.st_ = .Committed) :
    Quiet s (s.tick_ack now) := by
  unfold tick_ack
  split
  · exact ⟨rfl, fun _ => ⟨h, ⟨rfl, rfl, rfl⟩⟩, allSent_send (.ack rfl h rfl rfl rfl) allSent_nil⟩
  · exact quiet_nothing s

theorem quiet_tick_activate (s : MigProposer) (now : Int) : Quiet s (s.tick_activate now) := by
  unfold tick_activate
  split
  · exact quiet_of_elsewhere rfl (by simp) (by simp)
  · exact quiet_nothing s

theorem quiet_tick_committed (s : MigProposer) (now : Int) (h : s.st_ = .Committed) :
    Quiet s (s.tick_committed now) :=
  (quiet_tick_ack s now h).andThen (quiet_tick_activate _ now)

theorem quiet_enter_recovery (s : MigProposer) (now : Int) (c : ChannelDef) :
    Quiet s (s.enter_recovery now, [(s.enter_recovery now).ev, RetuneTo c]) :=
  quiet_of_elsewhere rfl (by simp [enter_recovery]) (by simp)

theorem quiet_maybe_confirm {s t : MigProposer} (now : Int) (he : t.epoch_ = s.epoch_)
    (h : t.st_ ≠ .Committed) : Quiet s (t.maybe_confirm now) := by
  unfold maybe_confirm
  split
  · exact quiet_of_elsewhere he h (allSent_send (.confirm rfl) allSent_nil)
  · exact quiet_of_elsewhere he h allSent_nil

theorem quiet_tick_verifying (s : MigProposer) (now : Int) (h : s.st_ ≠ .Committed) :
    Quiet s (s.tick_verifying now) := by
  have hc : Quiet s (s.tick_confirm now) := by
    unfold tick_confirm
    split
    · exact quiet_of_elsewhere rfl h (allSent_send (.confirm rfl) allSent_nil)
    · exact quiet_nothing s
  apply hc.andThen
  unfold tick_follow
  split
  · exact quiet_enter_recovery _ _ _
  · exact quiet_nothing _

theorem quiet_follow_drone (s : MigProposer) (chan : ChannelDef) :
    Quiet s (s.follow_drone chan) := by
  unfold follow_drone
  split
  · refine quiet_of_elsewhere rfl (by simp) ?_
    refine allSent_append.mpr ⟨?_, by simp⟩
    split
    · exact allSent_send (.confirm rfl) allSent_nil
    · exact allSent_nil
  · exact quiet_of_elsewhere rfl (by simp) (by simp)

theorem quiet_recover_to (s : MigProposer) (c : ChannelDef) : Quiet s (s.recover_to c) :=
  quiet_of_elsewhere rfl (by simp) (by simp)

theorem quiet_on_status (s : MigProposer) (m : MigMsg) : Quiet s (s.on_status m) := by
  unfold on_status
  split
  · exact quiet_of_elsewhere rfl (by simp) (by simp)
  · split
    · exact quiet_follow_drone s _
    · exact quiet_nothing s

theorem quiet_on_marker (s : MigProposer) (m : MigMsg) (now : Int) :
    Quiet s (s.on_marker m now) := by
  unfold on_marker
  split
  · exact quiet_nothing s
  · split
    · rename_i hst
      have hne : s.st_ ≠ .Committed := by simp [hst]
      split
      · exact quiet_of_elsewhere rfl hne (by simp)
      · split
        · exact quiet_nothing s
        · exact quiet_maybe_confirm now rfl hne
    · exact quiet_recover_to s _
    · exact quiet_nothing s

theorem quiet_on_abort (s : MigProposer) (m : MigMsg) (now : Int) : Quiet s (s.on_abort m now) := by
  unfold on_abort
  split
  · exact quiet_of_elsewhere rfl (by simp) (by simp)
  · exact quiet_enter_recovery s now _

theorem quiet_on_tick (s : MigProposer) (now : Int) : Quiet s (s.on_tick now) := by
  unfold on_tick
  split
  · unfold tick_proposed
    split
    · exact quiet_nothing s
    · split
      · exact quiet_of_elsewhere rfl (by simp) (by simp)
      · rename_i hst _ _
        exact quiet_of_elsewhere rfl (by simp [hst]) (allSent_send (.proposal rfl rfl) allSent_nil)
  · rename_i hst; exact quiet_tick_committed s now hst
  · rename_i hst; exact quiet_tick_verifying s now (by simp [hst])
  · rename_i hst
    unfold tick_recovery
    split
    · exact quiet_nothing s
    · refine quiet_of_elsewhere rfl (by simp [hst]) ?_
      refine allSent_silent rfl ?_
      split <;> simp
  · exact quiet_nothing s

theorem quiet_on_retune_done (s : MigProposer) : Quiet s s.on_retune_done := by
  unfold on_retune_done
  split
  · exact quiet_nothing s
  · split <;> exact quiet_of_elsewhere rfl (by simp) (by simp)

theorem quiet_on_video (s : MigProposer) (now : Int) : Quiet s (s.on_video now) := by
  unfold on_video
  split
  · rename_i hst
    split
    · exact quiet_nothing s
    · refine quiet_maybe_confirm now rfl ?_
      simp [hst]
  · exact quiet_recover_to s _
  · exact quiet_nothing s

/-- The machine as it enters `Committed` on a message, if it does. -/
def enters (s : MigProposer) (m : MigMsg) (now : Int) : Option MigProposer :=
  if m.type = .MT_COMMIT ∧ s.commit_matches m ∧ s.st_ = .Proposed then some (s.adopt_commit m now)
  else none

theorem enters_some {s q : MigProposer} {m : MigMsg} {now : Int} (h : s.enters m now = some q) :
    m.type = .MT_COMMIT ∧ s.commit_matches m = true ∧ s.st_ = .Proposed ∧
      q = s.adopt_commit m now := by
  unfold enters at h
  split at h
  · rename_i hc
    cases h
    exact ⟨hc.1, hc.2.1, hc.2.2, rfl⟩
  · cases h

/-- A machine that enters `Committed` keeps its epoch and has the rest from the commit. -/
structure Entered (s q : MigProposer) (m : MigMsg) : Prop where
  type : m.type = .MT_COMMIT
  state : q.st_ = .Committed
  epoch : q.epoch_ = s.epoch_
  gen : q.gen_ = m.generation
  target : q.commit_target_ = m.target
  nonce : q.drone_nonce_ = m.drone_nonce

theorem entered_of_enters {s q : MigProposer} {m : MigMsg} {now : Int}
    (h : s.enters m now = some q) : Entered s q m := by
  obtain ⟨ht, hm, -, rfl⟩ := enters_some h
  simp only [commit_matches, Bool.and_eq_true, beq_iff_eq] at hm
  exact ⟨ht, rfl, rfl, hm.1.symm, rfl, rfl⟩

/-- A message leaves the ground quiet, or it is the commit of its own exchange. -/
theorem on_message_effect (s : MigProposer) (m : MigMsg) (now : Int) :
    s.enters m now = none ∧ Quiet s (s.on_message m now) ∨
      ∃ q, s.enters m now = some q ∧ Quiet q (s.on_message m now) := by
  by_cases hc : m.type = .MT_COMMIT ∧ s.commit_matches m ∧ s.st_ = .Proposed
  · right
    obtain ⟨ht, hm, hst⟩ := hc
    refine ⟨s.adopt_commit m now, by simp [enters, ht, hm, hst], ?_⟩
    have hq := quiet_tick_committed (s.adopt_commit m now) now rfl
    simp only [on_message, ht, on_commit, hm, Bool.not_true, Bool.false_eq_true, if_false, hst]
    exact ⟨hq.epoch, hq.committed, allSent_silent rfl hq.tells⟩
  · left
    refine ⟨by simp only [enters, hc, if_false], ?_⟩
    unfold on_message
    split
    · rename_i ht
      unfold on_commit
      split
      · exact quiet_nothing s
      · rename_i hm
        have hm' : s.commit_matches m = true := by simpa using hm
        split
        · rename_i hst
          exact absurd ⟨ht, hm', hst⟩ hc
        · rename_i hst
          -- a commit that is heard again is acked again
          exact ⟨rfl, fun h => ⟨h, SameAck.refl s⟩,
            allSent_send (.ack rfl hst rfl rfl rfl) allSent_nil⟩
        · exact quiet_nothing s
    · exact quiet_on_status s m
    · exact quiet_on_marker s m now
    · exact quiet_on_abort s m now
    · exact quiet_nothing s

/-- The ground acks a commit at once. -/
theorem ack_of_enters {s q : MigProposer} {m : MigMsg} {now : Int} (h : s.enters m now = some q) :
    send q.make_status_ack false ∈ (s.on_message m now).2 := by
  obtain ⟨ht, hm, hst, rfl⟩ := enters_some h
  have hnow : now ≥ (s.adopt_commit m now).next_status_ms_ := Int.le_refl now
  simp [on_message, ht, on_commit, hm, hst, tick_committed, tick_ack, hnow]

end MigProposer

/-! ## The drone -/

namespace MigResponder

/-- The drone acts on an ack, or has begun to move. -/
def live (r : MigResponder) : Prop :=
  r.st_ = .Committed ∧ r.armed_ = true ∨ r.st_ = .Switching ∨ r.st_ = .Verifying ∨ r.st_ = .Rollback

/-- The drone holds a proposal and has no ack of its commit. -/
def awaits (r : MigResponder) : Prop :=
  r.st_ = .Validating ∨ r.st_ = .Committed ∧ r.armed_ = false

/-- The commit in the cache is that of the exchange, and the nonce is that of its generation. -/
structure Sealed (r : MigResponder) : Prop where
  type : r.cached_commit_.type = .MT_COMMIT
  gen : r.cached_commit_.generation = r.gen_
  target : r.cached_commit_.target = r.commit_target_
  nonce : r.cached_commit_.drone_nonce = r.drone_nonce_
  mixed : r.drone_nonce_ = mig_mix_nonce r.epoch_ r.gen_ 0xD2

theorem Sealed.nonce_ne_zero {r : MigResponder} (h : Sealed r) : r.drone_nonce_ ≠ 0 := by
  rw [h.mixed]
  exact mig_mix_nonce_ne_zero _ _ _

theorem Sealed.armed {r : MigResponder} (h : Sealed r) : Sealed { r with armed_ := true } :=
  ⟨h.type, h.gen, h.target, h.nonce, h.mixed⟩

/-- What an exchange is made of, apart from where it stands. -/
structure Exchange where
  epoch : UInt32
  caps : MigCaps
  gen : UInt32
  ground_epoch : UInt32
  target : ChannelDef
  nonce : UInt32
  commit : MigMsg
  armed : Bool

def exchange (r : MigResponder) : Exchange where
  epoch := r.epoch_
  caps := r.caps_
  gen := r.gen_
  ground_epoch := r.ground_epoch_
  target := r.commit_target_
  nonce := r.drone_nonce_
  commit := r.cached_commit_
  armed := r.armed_

theorem Sealed.of_same {r r' : MigResponder} (h : r'.exchange = r.exchange) (hr : Sealed r) :
    Sealed r' := by
  have hc : r'.cached_commit_ = r.cached_commit_ := congrArg Exchange.commit h
  have hg : r'.gen_ = r.gen_ := congrArg Exchange.gen h
  have ht : r'.commit_target_ = r.commit_target_ := congrArg Exchange.target h
  have hn : r'.drone_nonce_ = r.drone_nonce_ := congrArg Exchange.nonce h
  have he : r'.epoch_ = r.epoch_ := congrArg Exchange.epoch h
  refine ⟨?_, ?_, ?_, ?_, ?_⟩
  · rw [hc]; exact hr.type
  · rw [hc, hg]; exact hr.gen
  · rw [hc, ht]; exact hr.target
  · rw [hc, hn]; exact hr.nonce
  · rw [hn, he, hg]; exact hr.mixed

/-- What the drone sends: a status that echoes no nonce, the commit that it holds, or a report. -/
inductive Tells (r : MigResponder) (m : MigMsg) : Prop
  | status (type : m.type = .MT_STATUS) (echo : m.peer_nonce_echo = 0)
  | commit (held : r.st_ = .Committed) (same : m = r.cached_commit_)
  | report (type : m.type = .MT_ABORT ∨ m.type = .MT_VALIDATION)

/-- An input that opens no exchange and hears no ack. -/
structure Steady (r : MigResponder) (t : MigResponder × List MigAction) : Prop where
  same : t.1.exchange = r.exchange
  live : t.1.live → r.live
  committed : t.1.st_ = .Committed → r.st_ = .Committed
  probing : t.1.st_ = .Validating → r.st_ = .Validating
  tells : AllSent (Tells r) t.2
  tunes : ∀ c, RetuneTo c ∈ t.2 → r.live ∨ r.st_ = .Validating

theorem Steady.awaits {r : MigResponder} {t : MigResponder × List MigAction} (h : Steady r t)
    (ha : t.1.awaits) : r.awaits := by
  rcases ha with hv | ⟨hc, hn⟩
  · exact .inl (h.probing hv)
  · exact .inr ⟨h.committed hc, (congrArg Exchange.armed h.same).symm.trans hn⟩

theorem steady_nothing (r : MigResponder) : Steady r (r, []) :=
  ⟨rfl, id, id, id, allSent_nil, fun _ hc => by simp at hc⟩

theorem Steady.tells_before {r : MigResponder} {t : MigResponder × List MigAction} (h : Steady r t)
    {m : MigMsg} (hm : Tells t.1 m) : Tells r m := by
  cases hm with
  | status ht he => exact .status ht he
  | commit hst hc => exact .commit (h.committed hst) (hc.trans (congrArg Exchange.commit h.same))
  | report ht => exact .report ht

theorem Steady.andThen {r : MigResponder} {t u : MigResponder × List MigAction} (h : Steady r t)
    (hu : Steady t.1 u) : Steady r (u.1, t.2 ++ u.2) := by
  refine ⟨hu.same.trans h.same, h.live ∘ hu.live, h.committed ∘ hu.committed,
    h.probing ∘ hu.probing, ?_, ?_⟩
  · exact allSent_append.mpr ⟨h.tells, hu.tells.imp fun _ => h.tells_before⟩
  · intro c hc
    rcases List.mem_append.mp hc with hc | hc
    · exact h.tunes c hc
    · rcases hu.tunes c hc with hl | hv
      · exact .inl (h.live hl)
      · exact .inr (h.probing hv)

/-- An input that ends the exchange, or leaves the state alone. -/
theorem steady_of {r r' : MigResponder} {acts : List MigAction} (hsame : r'.exchange = r.exchange)
    (hst : r'.st_ = .Stable ∨ r'.st_ = r.st_)
    (htells : AllSent (Tells r) acts)
    (htunes : ∀ c, RetuneTo c ∈ acts → r.live ∨ r.st_ = .Validating) : Steady r (r', acts) := by
  have hback : ∀ s : MigState, s ≠ .Stable → r'.st_ = s → r.st_ = s := by
    intro s hs h
    rcases hst with h' | h'
    · exact absurd (h.symm.trans h') hs
    · exact h'.symm.trans h
  refine ⟨hsame, ?_, hback _ (by simp), hback _ (by simp), htells, htunes⟩
  rintro (⟨hc, ha⟩ | h | h | h)
  · exact .inl ⟨hback _ (by simp) hc, (congrArg Exchange.armed hsame).symm.trans ha⟩
  · exact .inr (.inl (hback _ (by simp) h))
  · exact .inr (.inr (.inl (hback _ (by simp) h)))
  · exact .inr (.inr (.inr (hback _ (by simp) h)))

/-! ### Ticks and callbacks -/

theorem steady_tick_status (r : MigResponder) (now : Int) : Steady r (r.tick_status now) := by
  unfold tick_status
  split
  · exact steady_of rfl (.inr rfl) (allSent_send (.status rfl rfl) allSent_nil) (by simp)
  · exact steady_nothing r

theorem steady_tick_commit (r : MigResponder) (now : Int) (h : r.st_ = .Committed) :
    Steady r (r.tick_commit now) := by
  unfold tick_commit
  split
  · exact steady_of rfl (.inr rfl) (allSent_send (.commit h rfl) allSent_nil) (by simp)
  · exact steady_nothing r

theorem steady_tick_activate (r : MigResponder) (now : Int) (now_tsf : UInt64)
    (h : r.st_ = .Committed) : Steady r (r.tick_activate now now_tsf) := by
  unfold tick_activate
  split
  · rename_i ha
    exact ⟨rfl, fun _ => .inl ⟨h, ha.1⟩, fun h => by simp at h,
      fun h => by simp at h, by simp, by simp⟩
  · exact steady_nothing r

theorem steady_tick_committed (r : MigResponder) (now : Int) (now_tsf : UInt64)
    (h : r.st_ = .Committed) : Steady r (r.tick_committed now now_tsf) := by
  unfold tick_committed
  split
  · exact steady_of rfl (.inl rfl) (allSent_send (.report (.inl rfl)) (by simp)) (by simp)
  · refine (steady_tick_commit r now h).andThen (steady_tick_activate _ now now_tsf ?_)
    unfold tick_commit
    split <;> exact h

theorem steady_tick_verifying (r : MigResponder) (now_tsf : UInt64) (h : r.st_ = .Verifying) :
    Steady r (r.tick_verifying now_tsf) := by
  have hl : r.live := .inr (.inr (.inl h))
  unfold tick_verifying
  split
  · exact ⟨rfl, fun _ => hl, fun h => by simp at h,
      fun h => by simp at h, by simp, fun _ _ => .inl hl⟩
  · exact steady_nothing r

/-- The retune of a switch: the drone is live, and stays where it is in the exchange. -/
theorem steady_retuning (r : MigResponder) (c : ChannelDef) (h : r.st_ = .Switching) :
    Steady r ({ r with phase_ := .Retuning }, [RetuneTo c]) :=
  steady_of rfl (.inr rfl) (by simp)
    (fun _ _ => .inl (.inr (.inl h)))

theorem steady_on_tick (r : MigResponder) (now : Int) (now_tsf : UInt64) :
    Steady r (r.on_tick now now_tsf) := by
  refine (steady_tick_status r now).andThen ?_
  generalize (r.tick_status now).1 = r
  unfold tick_state
  split
  · rename_i hst; exact steady_tick_committed r now now_tsf hst
  · rename_i hst
    split
    · exact steady_retuning r _ hst
    · exact steady_nothing r
  · rename_i hst; exact steady_tick_verifying r now_tsf hst
  · exact steady_nothing r

theorem steady_on_drain_done (r : MigResponder) : Steady r r.on_drain_done := by
  unfold on_drain_done
  split
  · rename_i h; exact steady_retuning r _ h.1
  · split
    · rename_i h
      exact steady_of rfl (.inr rfl) (by simp)
        (fun _ _ => .inr h.1)
    · exact steady_nothing r

theorem steady_on_probe_sample (r : MigResponder) (busy_frac : Rat) (valid : Bool) :
    Steady r (r.on_probe_sample busy_frac valid) := by
  unfold on_probe_sample
  split
  · exact steady_nothing r
  · rename_i h
    refine steady_of rfl (.inr rfl) (by simp) ?_
    intro _ _
    exact .inr (Decidable.not_not.mp (not_or.mp h).1)

theorem steady_finish_rollback (r : MigResponder) (c : ChannelDef) (now : Int) :
    Steady r ({ r with current_ := c }.finish_rollback now) :=
  steady_of rfl (.inl rfl) (by simp) (by simp)

theorem steady_on_switch_retune (r : MigResponder) (ok : Bool) (now : Int)
    (h : r.st_ = .Switching) : Steady r (r.on_switch_retune ok now) := by
  have hl : r.live := .inr (.inl h)
  unfold on_switch_retune
  split
  · split
    · exact ⟨rfl, fun _ => hl, fun h => by simp at h,
        fun h => by simp at h, by simp, by simp⟩
    · exact steady_of rfl (.inr rfl) (by simp)
        (fun _ _ => .inl hl)
  · split
    · exact steady_finish_rollback r _ now
    · refine steady_of rfl (.inl rfl) ?_ (fun _ _ => .inl hl)
      refine allSent_silent rfl ?_
      exact allSent_send (.report (.inl rfl)) (by simp)
  · exact steady_nothing r

/-! ### A new exchange -/

/-- The stashed proposal is committed, or a probe is begun for it. -/
structure Opened (r : MigResponder) (t : MigResponder × List MigAction) : Prop where
  epoch : t.1.epoch_ = r.epoch_
  caps : t.1.caps_ = r.caps_
  gen : t.1.gen_ = r.gen_
  ground_epoch : t.1.ground_epoch_ = r.ground_epoch_
  target : t.1.commit_target_ = r.commit_target_
  window : t.1.rw_ = r.rw_
  armed : t.1.armed_ = true → r.armed_ = true
  awaits : t.1.awaits
  probing : t.1.st_ = .Validating → r.caps_.probe = true
  sealed : t.1.st_ = .Committed → Sealed t.1
  tells : AllSent (Tells t.1) t.2
  tunes : ∀ c, RetuneTo c ∉ t.2

theorem opened_enter_committed (r : MigResponder) (now : Int) (now_tsf : UInt64) :
    Opened r (r.enter_committed now now_tsf) := by
  refine ⟨rfl, rfl, rfl, rfl, rfl, rfl, fun h => by simp [enter_committed] at h, .inr ⟨rfl, rfl⟩,
    fun h => by simp [enter_committed] at h, ?_, ?_, by simp [enter_committed]⟩
  · intro _
    exact ⟨rfl, rfl, rfl, rfl, rfl⟩
  · exact allSent_send (.commit rfl rfl) (by simp)

theorem opened_enter_probe (r : MigResponder) (h : r.caps_.probe = true) :
    Opened r r.enter_probe :=
  ⟨rfl, rfl, rfl, rfl, rfl, rfl, id, .inl rfl, fun _ => h, fun h => by simp [enter_probe] at h,
    by simp [enter_probe], by simp [enter_probe]⟩

/-- A drone that has probing off and runs no probe. -/
structure Unprobed (r : MigResponder) : Prop where
  off : r.caps_.probe = false
  state : r.st_ ≠ .Validating

theorem Unprobed.of_steady {r : MigResponder} {t : MigResponder × List MigAction} (h : Unprobed r)
    (hs : Steady r t) : Unprobed t.1 := by
  have hcaps : t.1.caps_ = r.caps_ := congrArg Exchange.caps hs.same
  refine ⟨?_, fun hv => h.state (hs.probing hv)⟩
  rw [hcaps]
  exact h.off

/-- With no probe, an exchange opens in `Committed`, and not armed. -/
theorem Unprobed.of_opened {r : MigResponder} {t : MigResponder × List MigAction}
    (h : r.caps_.probe = false) (ho : Opened r t) :
    Unprobed t.1 ∧ t.1.st_ = .Committed ∧ t.1.armed_ = false := by
  have hv : t.1.st_ ≠ .Validating := fun hv => absurd ((ho.probing hv).symm.trans h) (by simp)
  refine ⟨⟨?_, hv⟩, ?_⟩
  · rw [ho.caps]; exact h
  · rcases ho.awaits with hv' | hc
    · exact absurd hv' hv
    · exact hc

/-- A retune of the probe goes on with it, ends it, or commits at its end. -/
theorem on_probe_retune_effect (r : MigResponder) (ok : Bool) (now : Int) (now_tsf : UInt64)
    (h : r.st_ = .Validating) :
    Steady r (r.on_probe_retune ok now now_tsf) ∨ Opened r (r.on_probe_retune ok now now_tsf) := by
  have hend : ∀ (q : MigResponder) (why : MigReason), q.exchange = r.exchange → q.st_ = .Stable →
      Steady r (q, [ResumePump, q.validation_msg q.commit_target_ 1 1 why,
        q.status_reject q.gen_ why, q.ev]) := by
    intro q why hsame hst
    refine steady_of hsame (.inl hst) ?_ (by simp)
    refine allSent_silent rfl ?_
    refine allSent_send (.report (.inr rfl)) ?_
    exact allSent_send (.status rfl rfl) (by simp)
  unfold on_probe_retune
  split
  · left
    split
    · exact steady_of rfl (.inr rfl) (by simp) (by simp)
    · exact steady_of rfl (.inr rfl) (by simp)
        (fun _ _ => .inr h)
  · simp only
    split
    · left
      exact hend _ _ rfl rfl
    · split
      · left
        exact hend _ _ rfl rfl
      · right
        generalize hq : ({ r with
          current_ := if ok then r.commit_source_ else r.commit_rescue_
          pp_ := ProbePhase.None } : MigResponder) = q
        have ho := opened_enter_committed q now now_tsf
        subst hq
        refine ⟨rfl, rfl, rfl, rfl, rfl, rfl, ho.armed, ho.awaits, ho.probing, ho.sealed, ?_, ?_⟩
        · refine allSent_silent rfl ?_
          exact allSent_send (.report (.inr rfl)) ho.tells
        · intro c hc
          rcases List.mem_cons.mp hc with hc | hc
          · simp at hc
          · rcases List.mem_cons.mp hc with hc | hc
            · simp at hc
            · exact ho.tunes c hc
  · left; exact steady_nothing r

/-- A finished retune opens no exchange but the one that was probed. -/
theorem on_retune_done_effect (r : MigResponder) (ok : Bool) (now : Int) (now_tsf : UInt64) :
    Steady r (r.on_retune_done ok now now_tsf) ∨
      r.st_ = .Validating ∧ Opened r (r.on_retune_done ok now now_tsf) := by
  unfold on_retune_done
  split
  · rename_i h; exact .inl (steady_on_switch_retune r ok now h)
  · exact .inl (steady_finish_rollback r _ now)
  · rename_i h
    rcases on_probe_retune_effect r ok now now_tsf h with hs | ho
    · exact .inl hs
    · exact .inr ⟨h, ho⟩
  · exact .inl (steady_nothing r)

/-! ### A proposal -/

/-- A proposal of a new epoch finds the drone off its source channel. -/
def rolls (r : MigResponder) (m : MigMsg) : Bool := r.epoch_change m && r.st_ != .Stable && r.moved

/-- The drone as it classifies a proposal: the epoch adopted, an orphaned exchange dropped. -/
def settled (r : MigResponder) (m : MigMsg) : MigResponder :=
  if r.epoch_change m ∧ r.st_ ≠ .Stable then
    { r with
      phase_ := .None
      st_ := .Stable
      rw_ := (r.rw_.accept_epoch m.ground_epoch true).1 }
  else { r with rw_ := (r.rw_.accept_epoch m.ground_epoch true).1 }

/-- The checks that a fresh proposal passes to be taken. -/
def approves (r : MigResponder) (m : MigMsg) (now : Int) : Bool :=
  r.st_ == .Stable && decide (r.hold_down_until_ms_ ≤ now) && m.source.same_rf r.current_ &&
    r.validate_target m.target == .None

/-- The drone takes a proposal: the message opens an exchange. -/
def adopts (r : MigResponder) (m : MigMsg) (now : Int) : Bool :=
  m.type == .MT_PROPOSAL && !r.rolls m &&
    ((r.settled m).rw_.classify_proposal m.generation).2 == .fresh && (r.settled m).approves m now

theorem settled_exchange (r : MigResponder) (m : MigMsg) :
    (r.settled m).exchange = r.exchange := by
  unfold settled
  split <;> rfl

theorem settled_window (r : MigResponder) (m : MigMsg) :
    (r.settled m).rw_ = (r.rw_.accept_epoch m.ground_epoch true).1 := by
  unfold settled
  split <;> rfl

theorem settled_state (r : MigResponder) (m : MigMsg) :
    (r.settled m).st_ = .Stable ∨ (r.settled m).st_ = r.st_ := by
  unfold settled
  split
  · exact .inl rfl
  · exact .inr rfl

/-- Unless the drone rolls back, a proposal is classified on the settled machine. -/
theorem on_proposal_eq (r : MigResponder) (m : MigMsg) (now : Int) (now_tsf : UInt64)
    (h : r.rolls m = false) :
    r.on_proposal m now now_tsf = (r.settled m).admit_generation m now now_tsf := by
  have hadm : ∀ q : MigResponder, q.admit_epoch m now now_tsf =
      { q with
        rw_ := (q.rw_.accept_epoch m.ground_epoch true).1 }.admit_generation m now now_tsf := by
    intro q
    unfold admit_epoch
    simp
  unfold on_proposal settled
  split
  · rename_i hc
    have hm : r.moved = false := by
      simpa [rolls, hc.1, hc.2] using h
    -- the epoch is accepted twice on this path, and the second time changes nothing
    obtain ⟨hp, he⟩ := ReplayWindow.accept_epoch_peer r.rw_ m.ground_epoch
    simp only [hm, Bool.false_eq_true, if_false]
    rw [hadm]
    simp only [ReplayWindow.accept_epoch_same _ _ hp he]
  · rw [hadm]

/-- A fresh proposal is taken if it passes the checks, and is rejected if not. -/
theorem on_fresh_proposal_effect (r : MigResponder) (m : MigMsg) (now : Int) (now_tsf : UInt64) :
    r.approves m now = false ∧ Steady r (r.on_fresh_proposal m now now_tsf) ∧
        ReplayWindow.SameWindow r.rw_ (r.on_fresh_proposal m now now_tsf).1.rw_ ∨
      r.approves m now = true ∧ Opened (r.stash m) (r.on_fresh_proposal m now now_tsf) := by
  unfold on_fresh_proposal
  split
  · rename_i h
    left
    refine ⟨?_, ?_, r.rw_.sameWindow_clear⟩
    · rcases h with h | h
      · simp [approves, h]
      · have : ¬ r.hold_down_until_ms_ ≤ now := by omega
        simp [approves, this]
    · exact steady_of rfl (.inr rfl) (allSent_send (.status rfl rfl) allSent_nil) (by simp)
  · rename_i h
    obtain ⟨hst, hnow⟩ := not_or.mp h
    have hst' : r.st_ = .Stable := Decidable.not_not.mp hst
    have hnow' : r.hold_down_until_ms_ ≤ now := by omega
    split
    · rename_i hs
      left
      have hs' : m.source.same_rf r.current_ = false := by simpa using hs
      refine ⟨by simp [approves, hs'], ?_, r.rw_.sameWindow_clear⟩
      exact steady_of rfl (.inr rfl) (allSent_send (.status rfl rfl) allSent_nil) (by simp)
    · rename_i hs
      have hs' : m.source.same_rf r.current_ = true := by simpa using hs
      simp only
      split
      · rename_i hv
        left
        refine ⟨by simpa [approves, hst', hnow', hs'] using hv, ?_, r.rw_.sameWindow_clear⟩
        refine steady_of rfl (.inr rfl) ?_ (by simp)
        refine allSent_send (.status rfl rfl) ?_
        exact allSent_send (.report (.inr rfl)) allSent_nil
      · rename_i hv
        have hv' : r.validate_target m.target = .None := Decidable.not_not.mp hv
        right
        refine ⟨by simp [approves, hst', hnow', hs', hv'], ?_⟩
        split
        · rename_i hp; exact opened_enter_probe _ hp
        · exact opened_enter_committed _ now now_tsf

/-- The settled drone once it has classified a proposal. -/
def asked (r : MigResponder) (m : MigMsg) : MigResponder :=
  { r.settled m with rw_ := ((r.settled m).rw_.classify_proposal m.generation).1 }

theorem asked_exchange (r : MigResponder) (m : MigMsg) : (r.asked m).exchange = r.exchange :=
  settled_exchange r m

theorem asked_unprobed {r : MigResponder} (h : Unprobed r) (m : MigMsg) :
    ((r.asked m).stash m).caps_.probe = false :=
  (congrArg (fun x => x.caps.probe) (asked_exchange r m)).trans h.off

/-- What a message can do to the drone. -/
inductive Turn (r : MigResponder) (m : MigMsg) (now : Int)
    (t : MigResponder × List MigAction) : Prop
  | steady (same : Steady r t) (window : ReplayWindow.SameWindow r.rw_ t.1.rw_)
  | declines (type : m.type = .MT_PROPOSAL) (same : Steady r t)
    (window : ReplayWindow.SameWindow (r.asked m).rw_ t.1.rw_)
  | arms (type : m.type = .MT_STATUS) (held : r.st_ = .Committed)
    (echo : m.peer_nonce_echo = r.drone_nonce_) (gen : m.generation = r.gen_)
    (result : t = ({ r with armed_ := true }, []))
  | adopts (taken : r.adopts m now = true) (opened : Opened ((r.asked m).stash m) t)
  | rolls (type : m.type = .MT_PROPOSAL) (moved : r.rolls m = true)
    (same : t.1.exchange = r.exchange) (state : t.1.st_ = .Rollback) (tells : AllSent (Tells r) t.2)

theorem steady_asked (r : MigResponder) (m : MigMsg) (acts : List MigAction)
    (htells : AllSent (Tells r) acts) (htunes : ∀ c, RetuneTo c ∉ acts) :
    Steady r (r.asked m, acts) :=
  steady_of (asked_exchange r m) (settled_state r m) htells (fun c hc => absurd hc (htunes c))

theorem admit_generation_turn (r : MigResponder) (m : MigMsg) (now : Int) (now_tsf : UInt64)
    (ht : m.type = .MT_PROPOSAL) (hr : r.rolls m = false) :
    Turn r m now ((r.settled m).admit_generation m now now_tsf) := by
  have hcached : (r.settled m).cached_commit_ = r.cached_commit_ :=
    congrArg Exchange.commit (settled_exchange r m)
  unfold admit_generation
  simp only
  split
  · exact .declines ht (steady_asked r m [] (by simp) (by simp)) (.of_eq rfl)
  · refine .declines ht (steady_asked r m _ ?_ ?_) (.of_eq rfl)
    · split
      · rename_i hst
        refine allSent_send (.commit ?_ hcached) allSent_nil
        rcases settled_state r m with h | h
        · exact absurd (h.symm.trans hst) (by simp)
        · exact h.symm.trans hst
      · exact allSent_nil
    · intro c hc
      split at hc <;> simp at hc
  · rename_i hf
    rcases on_fresh_proposal_effect (r.asked m) m now now_tsf with ⟨-, hs, hw⟩ | ⟨ha, ho⟩
    · refine .declines ht ?_ ?_
      · exact (steady_asked r m [] (by simp) (by simp)).andThen hs
      · exact hw
    · refine .adopts ?_ ho
      have ha' : (r.settled m).approves m now = true := ha
      simp [adopts, ht, hr, hf, ha']

theorem on_proposal_turn (r : MigResponder) (m : MigMsg) (now : Int) (now_tsf : UInt64)
    (ht : m.type = .MT_PROPOSAL) : Turn r m now (r.on_proposal m now now_tsf) := by
  rcases hr : r.rolls m with _ | _
  · rw [on_proposal_eq r m now now_tsf hr]
    exact admit_generation_turn r m now now_tsf ht hr
  · have hc : r.epoch_change m = true ∧ r.st_ ≠ .Stable ∧ r.moved = true := by
      simpa [rolls, and_assoc] using hr
    unfold on_proposal
    rw [if_pos ⟨hc.1, hc.2.1⟩]
    simp only [hc.2.2, if_true]
    refine .rolls ht hr rfl rfl ?_
    refine allSent_silent rfl ?_
    exact allSent_send (.status rfl rfl) (by simp)

theorem on_message_turn (r : MigResponder) (m : MigMsg) (now : Int) (now_tsf : UInt64) :
    Turn r m now (r.on_message m now now_tsf) := by
  unfold on_message
  split
  · rename_i ht; exact on_proposal_turn r m now now_tsf ht
  · rename_i ht
    unfold on_status
    split
    · rename_i h; exact .arms ht h.1 h.2.1 h.2.2 rfl
    · exact .steady (steady_nothing r) (.of_eq rfl)
  · unfold on_confirm
    split
    · exact .steady (steady_of rfl (.inl rfl) (by simp) (by simp)) (.of_eq rfl)
    · exact .steady (steady_nothing r) (.of_eq rfl)
  · exact .steady (steady_nothing r) (.of_eq rfl)

theorem adopts_type {r : MigResponder} {m : MigMsg} {now : Int} (h : r.adopts m now = true) :
    m.type = .MT_PROPOSAL := by
  simp only [adopts, Bool.and_eq_true, beq_iff_eq] at h
  exact h.1.1.1

/-- A proposal that is adopted opens an exchange. -/
theorem opened_of_adopts {r : MigResponder} {m : MigMsg} {now : Int} (h : r.adopts m now = true)
    (now_tsf : UInt64) : Opened ((r.asked m).stash m) (r.on_message m now now_tsf) := by
  have ht := adopts_type h
  simp only [adopts, Bool.and_eq_true, Bool.not_eq_true', beq_iff_eq] at h
  obtain ⟨⟨⟨-, hr⟩, hf⟩, ha⟩ := h
  have hon : r.on_message m now now_tsf = (r.asked m).on_fresh_proposal m now now_tsf := by
    simp only [on_message, ht, on_proposal_eq r m now now_tsf hr, admit_generation, hf]
    rfl
  rw [hon]
  rcases on_fresh_proposal_effect (r.asked m) m now now_tsf with ⟨hn, -⟩ | ⟨-, ho⟩
  · have ha' : (r.asked m).approves m now = true := ha
    exact absurd (ha'.symm.trans hn) (by simp)
  · exact ho

/-! ### The window of the drone -/

/-- A drone that has heard of one ground epoch does not roll back on its proposals. -/
theorem not_rolls_of_knows {r : MigResponder} {m : MigMsg} (h : r.rw_.Knows m.ground_epoch) :
    r.rolls m = false := by
  have he : r.epoch_change m = false := by
    unfold epoch_change
    rcases hp : r.rw_.have_peer with _ | _
    · rfl
    · simp [h.peer hp]
  simp [rolls, he]

/-- A proposal of the one known epoch never lowers the ceiling, and one that is adopted was
above it. -/
theorem asked_window {r : MigResponder} {m : MigMsg} (h : r.rw_.Knows m.ground_epoch) :
    (r.asked m).rw_.Knows m.ground_epoch ∧ r.rw_.max_gen ≤ (r.asked m).rw_.max_gen ∧
      ∀ now, r.adopts m now = true →
        r.rw_.max_gen < m.generation ∧ (r.asked m).rw_.max_gen = m.generation := by
  obtain ⟨hk, hmax⟩ := h.accept_epoch
  rw [← settled_window r m] at hk hmax
  by_cases hf : ((r.settled m).rw_.classify_proposal m.generation).2 = .fresh
  · obtain ⟨hlt, he⟩ := ReplayWindow.classify_fresh hf
    have hw : (r.asked m).rw_ = { (r.settled m).rw_ with
        max_gen := m.generation, in_flight_gen := m.generation } := he
    rw [hmax] at hlt
    rw [hw]
    refine ⟨⟨hk.peer, fun hp => ?_⟩, UInt32.le_of_lt hlt, fun _ _ => ⟨hlt, rfl⟩⟩
    -- the settled window has a peer
    have hpeer := (ReplayWindow.accept_epoch_peer r.rw_ m.ground_epoch).1
    rw [← settled_window r m] at hpeer
    exact absurd (hpeer.symm.trans hp) (by simp)
  · have hw : (r.asked m).rw_ = (r.settled m).rw_ := ReplayWindow.classify_not_fresh hf
    rw [hw, hmax]
    refine ⟨hk, UInt32.le_refl _, fun now ha => ?_⟩
    simp only [adopts, Bool.and_eq_true, beq_iff_eq] at ha
    exact absurd ha.1.2 hf

theorem window_on_tick (r : MigResponder) (now : Int) (now_tsf : UInt64) :
    ReplayWindow.SameWindow r.rw_ (r.on_tick now now_tsf).1.rw_ := by
  have hstatus : (r.tick_status now).1.rw_ = r.rw_ := by
    unfold tick_status
    split <;> rfl
  have hstate : ∀ q : MigResponder,
      ReplayWindow.SameWindow q.rw_ (q.tick_state now now_tsf).1.rw_ := by
    intro q
    unfold tick_state
    split
    · unfold tick_committed
      split
      · exact q.rw_.sameWindow_clear
      · apply ReplayWindow.SameWindow.of_eq
        unfold tick_activate tick_commit
        simp only
        split <;> split <;> rfl
    · split <;> exact .of_eq rfl
    · unfold tick_verifying
      split <;> exact .of_eq rfl
    · exact .of_eq rfl
  have h := hstate (r.tick_status now).1
  rw [hstatus] at h
  exact h

theorem window_on_drain_done (r : MigResponder) : r.on_drain_done.1.rw_ = r.rw_ := by
  unfold on_drain_done
  split
  · rfl
  · split <;> rfl

theorem window_on_probe_sample (r : MigResponder) (busy_frac : Rat) (valid : Bool) :
    (r.on_probe_sample busy_frac valid).1.rw_ = r.rw_ := by
  unfold on_probe_sample
  split <;> rfl

theorem window_on_retune_done (r : MigResponder) (ok : Bool) (now : Int) (now_tsf : UInt64) :
    ReplayWindow.SameWindow r.rw_ (r.on_retune_done ok now now_tsf).1.rw_ := by
  unfold on_retune_done
  split
  · unfold on_switch_retune
    split
    · split <;> exact .of_eq rfl
    · split
      · exact r.rw_.sameWindow_clear
      · exact .of_eq rfl
    · exact .of_eq rfl
  · exact r.rw_.sameWindow_clear
  · unfold on_probe_retune
    split
    · split <;> exact .of_eq rfl
    · simp only
      split
      · exact r.rw_.sameWindow_clear
      · split
        · exact r.rw_.sameWindow_clear
        · exact .of_eq rfl
    · exact .of_eq rfl
  · exact .of_eq rfl

end MigResponder

end devourer.chanmig
