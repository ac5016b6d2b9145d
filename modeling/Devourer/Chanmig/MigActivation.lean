-- No unheard activation: the drone moves only for a commit that the ground
-- has entered `Committed` for, whatever the link does to the messages.
import Devourer.Chanmig.MigLink

namespace devourer.chanmig.Link

open MigAction

/-- The ground was once in `Committed` for the generation, the target and the nonce of a drone. -/
def Activated (heard : List MigProposer) (d : MigResponder) : Prop :=
  ∃ q ∈ heard, q.st_ = .Committed ∧ q.gen_ = d.gen_ ∧
    q.commit_target_.same_rf d.commit_target_ = true ∧ q.drone_nonce_ = d.drone_nonce_

theorem Activated.mono {heard heard' : List MigProposer} {d : MigResponder}
    (hmore : ∀ q ∈ heard, q ∈ heard') (h : Activated heard d) : Activated heard' d := by
  obtain ⟨q, hq, hk⟩ := h
  exact ⟨q, hmore q hq, hk⟩

theorem Activated.of_same {heard : List MigProposer} {d d' : MigResponder}
    (he : d'.exchange = d.exchange) (h : Activated heard d) : Activated heard d' := by
  have hg : d'.gen_ = d.gen_ := congrArg MigResponder.Exchange.gen he
  have ht : d'.commit_target_ = d.commit_target_ := congrArg MigResponder.Exchange.target he
  have hn : d'.drone_nonce_ = d.drone_nonce_ := congrArg MigResponder.Exchange.nonce he
  obtain ⟨q, hq, hst, hk⟩ := h
  refine ⟨q, hq, hst, ?_⟩
  rw [hg, ht, hn]
  exact hk

/-- The law of a link with one ground epoch and no probe. -/
structure Agreed (epoch : UInt32) (w : World) : Prop extends Traced w where
  ground_epoch : w.parties.ground.epoch_ = epoch
  proposals : ∀ m ∈ w.pool, m.type = .MT_PROPOSAL → m.ground_epoch = epoch
  window : w.parties.drone.rw_.Knows epoch
  heard : ∀ q ∈ w.parties.heard, q.st_ = .Committed ∧
    ∃ c ∈ w.pool, c.type = .MT_COMMIT ∧ c.generation = q.gen_ ∧ c.target = q.commit_target_
  /-- No generation is committed above the ceiling, and no two commits of one differ. -/
  commits : ∀ c ∈ w.pool, c.type = .MT_COMMIT → c.generation ≤ w.parties.drone.rw_.max_gen ∧
    (c.generation = w.parties.drone.gen_ → c.target = w.parties.drone.commit_target_)
  ceiling : w.parties.drone.st_ = .Committed → w.parties.drone.gen_ ≤ w.parties.drone.rw_.max_gen
  unprobed : w.parties.drone.Unprobed
  live : w.parties.drone.live → Activated w.parties.heard w.parties.drone

/-! ## The ground's steps -/

/-- The ground sends no commit, and proposes under its own epoch only. -/
theorem ground_tells {s : MigProposer} {m : MigMsg} (h : s.Tells m) :
    m.type ≠ .MT_COMMIT ∧ (m.type = .MT_PROPOSAL → m.ground_epoch = s.epoch_) := by
  cases h with
  | proposal ht he => exact ⟨by simp [ht], fun _ => he⟩
  | confirm ht => exact ⟨by simp [ht], fun h => by simp [ht] at h⟩
  | ack ht => exact ⟨by simp [ht], fun h => by simp [ht] at h⟩

theorem agreed_by_ground {epoch : UInt32} {w : World} (h : Agreed epoch w) {s : MigProposer}
    {heard : List MigProposer} {r : MigProposer × List MigAction}
    (htraced : Traced (w.put ({ w.parties with heard := heard }.by_ground r)))
    (hmore : ∀ q ∈ w.parties.heard, q ∈ heard) (hs : s.epoch_ = epoch) (hq : s.Quiet r)
    (hheard : ∀ q ∈ heard, q ∈ w.parties.heard ∨ q.st_ = .Committed ∧
      ∃ c ∈ w.pool, c.type = .MT_COMMIT ∧ c.generation = q.gen_ ∧ c.target = q.commit_target_) :
    Agreed epoch (w.put ({ w.parties with heard := heard }.by_ground r)) := by
  have hnew : ∀ m ∈ sends r.2, m.type ≠ .MT_COMMIT ∧
      (m.type = .MT_PROPOSAL → m.ground_epoch = epoch) := by
    intro m hm
    obtain ⟨hc, hp⟩ := ground_tells (of_mem_sends hq.tells hm)
    exact ⟨hc, fun ht => (hp ht).trans hs⟩
  refine { htraced with
    ground_epoch := hq.epoch.trans hs
    proposals := ?_
    window := h.window
    heard := ?_
    commits := ?_
    ceiling := h.ceiling
    unprobed := h.unprobed
    live := fun hl => (h.live hl).mono hmore }
  · intro m hm ht
    rcases (w.mem_put_pool _ m).mp hm with hm | hm
    · exact h.proposals m hm ht
    · exact (hnew m hm).2 ht
  · intro q hq'
    have hold : q.st_ = .Committed ∧ ∃ c ∈ w.pool,
        c.type = .MT_COMMIT ∧ c.generation = q.gen_ ∧ c.target = q.commit_target_ := by
      rcases hheard q hq' with hq' | hq'
      · exact h.heard q hq'
      · exact hq'
    obtain ⟨hst, c, hc, hk⟩ := hold
    exact ⟨hst, c, (w.mem_put_pool _ c).mpr (.inl hc), hk⟩
  · intro c hc ht
    rcases (w.mem_put_pool _ c).mp hc with hc | hc
    · exact h.commits c hc ht
    · exact absurd ht (hnew c hc).1

theorem agreed_quiet {epoch : UInt32} {w : World} (h : Agreed epoch w)
    {r : MigProposer × List MigAction} (hq : w.parties.ground.Quiet r) :
    Agreed epoch (w.put (w.parties.by_ground r)) :=
  agreed_by_ground h (traced_quiet h.toTraced hq) (fun _ hq => hq) h.ground_epoch hq
    (fun _ hq => .inl hq)

theorem agreed_ground_takes {epoch : UInt32} {w : World} (h : Agreed epoch w) (now : Int)
    {m : MigMsg} (hm : m ∈ w.pool) : Agreed epoch (w.put (w.parties.take (.ground now) m)) := by
  have ht := traced_take h.toTraced (.ground now) m
  rcases w.parties.ground.on_message_effect m now with ⟨hn, hq⟩ | ⟨q, he, hq⟩
  · have ha := agreed_quiet h hq
    simpa [take, hn] using ha
  · -- the commit that the ground adopts is in the pool
    have hent := MigProposer.entered_of_enters he
    refine agreed_by_ground h ht (fun _ hq => List.mem_append_left _ hq)
      (hent.epoch.trans h.ground_epoch) hq ?_
    intro p hp
    rcases List.mem_append.mp hp with hp | hp
    · exact .inl hp
    · right
      have hpq : p = q := by simpa [he] using hp
      subst hpq
      exact ⟨hent.state, m, hm, hent.type, hent.gen.symm, hent.target.symm⟩

/-! ## The drone's steps -/

theorem agreed_steady {epoch : UInt32} {w : World} (h : Agreed epoch w) (stamps : List UInt64)
    {r : MigResponder × List MigAction} (hs : w.parties.drone.Steady r)
    (hk : r.1.rw_.Knows epoch) (hmax : w.parties.drone.rw_.max_gen ≤ r.1.rw_.max_gen) :
    Agreed epoch (w.put (w.parties.by_drone stamps r)) := by
  have hg : r.1.gen_ = w.parties.drone.gen_ := congrArg MigResponder.Exchange.gen hs.same
  have htg : r.1.commit_target_ = w.parties.drone.commit_target_ :=
    congrArg MigResponder.Exchange.target hs.same
  have hceil : w.parties.drone.st_ = .Committed → r.1.gen_ ≤ r.1.rw_.max_gen := by
    intro hst
    rw [hg]
    exact UInt32.le_trans (h.ceiling hst) hmax
  refine { traced_steady h.toTraced stamps hs with
    ground_epoch := h.ground_epoch
    proposals := ?_
    window := hk
    heard := ?_
    commits := ?_
    ceiling := fun hst => hceil (hs.committed hst)
    unprobed := h.unprobed.of_steady hs
    live := fun hl => (h.live (hs.live hl)).of_same hs.same }
  · intro m hm ht
    rcases (w.mem_put_pool _ m).mp hm with hm | hm
    · exact h.proposals m hm ht
    · obtain ⟨m', t, htell, rfl⟩ := of_mem_stamped hs.tells hm
      exact absurd ht (drone_tells h.sealed htell).1
  · intro q hq
    obtain ⟨hst, c, hc, hk'⟩ := h.heard q hq
    exact ⟨hst, c, (w.mem_put_pool _ c).mpr (.inl hc), hk'⟩
  · intro c hc ht
    rcases (w.mem_put_pool _ c).mp hc with hc | hc
    · obtain ⟨hle, heq⟩ := h.commits c hc ht
      refine ⟨UInt32.le_trans hle hmax, fun hcg => ?_⟩
      have hcg' : c.generation = r.1.gen_ := hcg
      exact (heq (hcg'.trans hg)).trans htg.symm
    · obtain ⟨m', t, htell, rfl⟩ := of_mem_stamped hs.tells hc
      obtain ⟨hst, hcg, hct, -⟩ := drone_commits h.sealed htell ht
      refine ⟨?_, fun _ => hct.trans htg.symm⟩
      have hle := hceil hst
      rw [hg, ← hcg] at hle
      exact hle

/-- A new exchange is of a generation that no commit of the pool has. -/
theorem agreed_adopts {epoch : UInt32} {w : World} (h : Agreed epoch w) (stamps : List UInt64)
    {m : MigMsg} {now : Int} {r : MigResponder × List MigAction} (hm : m.ground_epoch = epoch)
    (ha : w.parties.drone.adopts m now = true)
    (ho : ((w.parties.drone.asked m).stash m).Opened r) :
    Agreed epoch (w.put (w.parties.by_drone stamps r)) := by
  subst hm
  obtain ⟨hk, -, hfresh⟩ := MigResponder.asked_window h.window
  obtain ⟨hlt, hmax⟩ := hfresh now ha
  have hw : r.1.rw_ = (w.parties.drone.asked m).rw_ := ho.window
  have hgen : r.1.gen_ = m.generation := ho.gen
  have hceil : r.1.rw_.max_gen = r.1.gen_ := by rw [hw, hmax, hgen]
  obtain ⟨hun, hst⟩ := MigResponder.Unprobed.of_opened (MigResponder.asked_unprobed h.unprobed m) ho
  refine { traced_opened h.toTraced stamps ho with
    ground_epoch := h.ground_epoch
    proposals := ?_
    window := by rw [← hw] at hk; exact hk
    heard := ?_
    commits := ?_
    ceiling := fun _ => UInt32.le_of_eq hceil.symm
    unprobed := hun
    live := ?_ }
  · intro m' hm' ht
    rcases (w.mem_put_pool _ m').mp hm' with hm' | hm'
    · exact h.proposals m' hm' ht
    · obtain ⟨m'', t, htell, rfl⟩ := of_mem_stamped ho.tells hm'
      exact absurd ht (drone_tells ho.sealed htell).1
  · intro q hq
    obtain ⟨hq', c, hc, hk'⟩ := h.heard q hq
    exact ⟨hq', c, (w.mem_put_pool _ c).mpr (.inl hc), hk'⟩
  · intro c hc ht
    rcases (w.mem_put_pool _ c).mp hc with hc | hc
    · have hold := (h.commits c hc ht).1
      have hlt' : c.generation < r.1.gen_ := by
        rw [hgen]; exact UInt32.lt_of_le_of_lt hold hlt
      refine ⟨?_, fun hcg => absurd (hcg ▸ hlt') (UInt32.lt_irrefl _)⟩
      have hle := UInt32.le_of_lt hlt'
      rw [← hceil] at hle
      exact hle
    · obtain ⟨m', t, htell, rfl⟩ := of_mem_stamped ho.tells hc
      obtain ⟨-, hcg, hct, -⟩ := drone_commits ho.sealed htell ht
      exact ⟨UInt32.le_of_eq (hcg.trans hceil.symm), fun _ => hct⟩
  · rintro (⟨-, ha'⟩ | hl | hl | hl)
    · exact absurd (hst.2.symm.trans ha') (by simp)
    · exact absurd (hst.1.symm.trans hl) (by simp)
    · exact absurd (hst.1.symm.trans hl) (by simp)
    · exact absurd (hst.1.symm.trans hl) (by simp)

/-- The ack that arms the drone is one for the commit that the drone holds. -/
theorem agreed_arms {epoch : UInt32} {w : World} (h : Agreed epoch w) (stamps : List UInt64)
    {m : MigMsg} (hm : m ∈ w.pool) (ht : m.type = .MT_STATUS)
    (hst : w.parties.drone.st_ = .Committed) (he : m.peer_nonce_echo = w.parties.drone.drone_nonce_)
    (hg : m.generation = w.parties.drone.gen_) :
    Agreed epoch
      (w.put (w.parties.by_drone stamps ({ w.parties.drone with armed_ := true }, []))) := by
  have hsl := h.sealed hst
  have hpool : ∀ m', m' ∈ (w.put (w.parties.by_drone stamps
      ({ w.parties.drone with armed_ := true }, []))).pool ↔ m' ∈ w.pool := by
    intro m'
    simp [by_drone, sends, stamped]
  refine {
    acks := fun m' hm' => h.acks m' ((hpool m').mp hm')
    held := h.held
    sealed := fun _ => hsl.armed
    ground_epoch := h.ground_epoch
    proposals := fun m' hm' => h.proposals m' ((hpool m').mp hm')
    window := h.window
    heard := ?_
    commits := fun c hc => h.commits c ((hpool c).mp hc)
    ceiling := h.ceiling
    unprobed := ⟨h.unprobed.off, h.unprobed.state⟩
    live := fun _ => ?_ }
  · intro q hq
    obtain ⟨hq', c, hc, hk⟩ := h.heard q hq
    exact ⟨hq', c, (hpool c).mpr hc, hk⟩
  · -- the ack has a commit, and the commits of one generation agree
    obtain ⟨q, hq, -, hqg, hqn⟩ := h.acks m hm ht (by rw [he]; exact hsl.nonce_ne_zero)
    obtain ⟨hq', c, hc, hct, hcg, htarget⟩ := h.heard q hq
    have hagree := (h.commits c hc hct).2 (hcg.trans (hqg.trans hg))
    refine ⟨q, hq, hq', hqg.trans hg, ?_, hqn.trans he⟩
    rw [← htarget, hagree]
    exact ChannelDef.same_rf_self _

theorem agreed_drone_takes {epoch : UInt32} {w : World} (h : Agreed epoch w) (now : Int)
    (now_tsf : UInt64) (stamps : List UInt64) {m : MigMsg} (hm : m ∈ w.pool) :
    Agreed epoch (w.put (w.parties.take (.drone now now_tsf stamps) m)) := by
  show Agreed epoch (w.put (w.parties.by_drone stamps (w.parties.drone.on_message m now now_tsf)))
  cases w.parties.drone.on_message_turn m now now_tsf with
  | steady hs hw =>
    exact agreed_steady h stamps hs (hw.knows h.window) (UInt32.le_of_eq hw.max_gen.symm)
  | declines ht hs hw =>
    have hep := h.proposals m hm ht
    obtain ⟨hk, hle, -⟩ := MigResponder.asked_window (hep ▸ h.window)
    refine agreed_steady h stamps hs ?_ (by rw [hw.max_gen]; exact hle)
    rw [← hep]
    exact hw.knows hk
  | arms ht hst he hg hr => rw [hr]; exact agreed_arms h stamps hm ht hst he hg
  | adopts ha ho =>
    exact agreed_adopts h stamps (h.proposals m hm (MigResponder.adopts_type ha)) ha ho
  | rolls ht hr =>
    have hk := MigResponder.not_rolls_of_knows (h.proposals m hm ht ▸ h.window)
    exact absurd (hk.symm.trans hr) (by simp)

/-! ## Every run -/

/-- A step that leaves the ground process in place. -/
def keeps_ground : Op → Prop
  | .act (.restart ..) => False
  | _ => True

theorem agreed_act {epoch : UInt32} {w : World} (h : Agreed epoch w) (i : Input)
    (hi : keeps_ground (.act i)) : Agreed epoch (w.put (w.parties.act i)) := by
  rcases w.parties.act_cases i with
    ⟨params, link_id, e, source, rfl⟩ | ⟨r, he, hq, -⟩ | ⟨stamps, t, he, hd, -⟩ | ⟨c, t, he, -⟩
  · exact absurd hi (by simp [keeps_ground])
  · rw [he]; exact agreed_quiet h hq
  · rw [he]
    rcases hd with ⟨hs, hw⟩ | ⟨hv, -⟩
    · exact agreed_steady h stamps hs (hw.knows h.window) (UInt32.le_of_eq hw.max_gen.symm)
    · exact absurd hv h.unprobed.state
  · have htraced := traced_act h.toTraced i
    rw [he] at htraced ⊢
    -- a marker is neither a proposal nor a commit
    have hpool : ∀ m, m ∈ (w.put (w.parties, [w.parties.marker_msg c t])).pool →
        m.type ≠ .MT_MARKER → m ∈ w.pool := by
      intro m hm hty
      rcases (w.mem_put_pool _ m).mp hm with hm | hm
      · exact hm
      · rw [List.mem_singleton] at hm
        subst hm
        exact absurd rfl hty
    refine { htraced with
      ground_epoch := h.ground_epoch
      proposals := fun m hm ht => h.proposals m (hpool m hm (by simp [ht])) ht
      window := h.window
      heard := ?_
      commits := fun m hm ht => h.commits m (hpool m hm (by simp [ht])) ht
      ceiling := h.ceiling
      unprobed := h.unprobed
      live := h.live }
    intro q hq
    obtain ⟨hst, m, hm, hk⟩ := h.heard q hq
    exact ⟨hst, m, (w.mem_put_pool _ m).mpr (.inl hm), hk⟩

theorem agreed_take {epoch : UInt32} {w : World} (h : Agreed epoch w) (e : Ear) {m : MigMsg}
    (hm : m ∈ w.pool) : Agreed epoch (w.put (w.parties.take e m)) := by
  cases e with
  | ground now => exact agreed_ground_takes h now hm
  | drone now now_tsf stamps => exact agreed_drone_takes h now now_tsf stamps hm

theorem agreed_fresh (params : MigParams) (link_id ground_epoch : UInt32) (source : ChannelDef)
    (params' : MigParams) (link_id' drone_epoch : UInt32) (current : ChannelDef) (caps : MigCaps)
    (hprobe : caps.probe = false) :
    Agreed ground_epoch
      (fresh params link_id ground_epoch source params' link_id' drone_epoch current caps) where
  acks := by simp [fresh]
  held := by simp [fresh, MigProposer.init]
  sealed := by simp [fresh, MigResponder.init]
  ground_epoch := rfl
  proposals := by simp [fresh]
  window := ⟨by simp [fresh, MigResponder.init], fun _ => rfl⟩
  heard := by simp [fresh]
  commits := by simp [fresh]
  ceiling := by simp [fresh, MigResponder.init]
  unprobed := ⟨hprobe, by simp [fresh, MigResponder.init]⟩
  live := by simp [fresh, MigResponder.init, MigResponder.live]

theorem agreed_run {epoch : UInt32} {w : World} (h : Agreed epoch w) (ops : List Op)
    (hops : ∀ op ∈ ops, keeps_ground op) : Agreed epoch (network.run w ops) :=
  network.run_keeps w h (fun _ i hi hw => agreed_act hw i hi)
    (fun _ e _ _ _ _ hm hw => agreed_take hw e hm) ops (Runs.along_of_forall _ (fun _ => hops) w)

/-- A drone that is told to retune was live, and goes on with the exchange that it had. -/
theorem activated_of_retune {epoch : UInt32} {w : World} (h : Agreed epoch w) (op : Op)
    {c : ChannelDef} (hc : RetuneTo c ∈ drone_does w op) :
    Activated w.parties.heard (network.step w op).parties.drone := by
  have hsteady : ∀ t : MigResponder × List MigAction, w.parties.drone.Steady t →
      RetuneTo c ∈ t.2 → Activated w.parties.heard t.1 := by
    intro t hs hct
    rcases hs.tunes c hct with hl | hv
    · exact (h.live hl).of_same hs.same
    · exact absurd hv h.unprobed.state
  rcases network.step_cases w op with ⟨i, rfl, he⟩ | ⟨e, k, m, rfl, hk, hm, he⟩ | ⟨_, _, rfl, hk, -⟩
  · have hi : RetuneTo c ∈ w.parties.drone_acts i := hc
    rw [he]
    rcases w.parties.act_cases i with
      ⟨_, _, _, _, rfl⟩ | ⟨r, -, -, ha⟩ | ⟨stamps, t, hact, hd, ha⟩ | ⟨_, _, -, ha⟩
    · simp [drone_acts] at hi
    · rw [ha] at hi; simp at hi
    · rw [ha] at hi
      show Activated _ (w.parties.act i).1.drone
      rw [hact]
      rcases hd with ⟨hs, -⟩ | ⟨hv, -⟩
      · exact hsteady t hs hi
      · exact absurd hv h.unprobed.state
    · rw [ha] at hi; simp at hi
  · have hi : RetuneTo c ∈ w.parties.drone_answers e m := by
      simpa [drone_does, hk] using hc
    rw [he]
    cases e with
    | ground now => simp [drone_answers] at hi
    | drone now now_tsf stamps =>
      show Activated _ (w.parties.drone.on_message m now now_tsf).1
      have hi' : RetuneTo c ∈ (w.parties.drone.on_message m now now_tsf).2 := hi
      cases w.parties.drone.on_message_turn m now now_tsf with
      | steady hs _ => exact hsteady _ hs hi'
      | declines _ hs _ => exact hsteady _ hs hi'
      | arms _ _ _ _ hr => rw [hr] at hi'; simp at hi'
      | adopts _ ho => exact absurd hi' (ho.tunes c)
      | rolls ht hr =>
        have hk' := MigResponder.not_rolls_of_knows (h.proposals m hm ht ▸ h.window)
        exact absurd (hk'.symm.trans hr) (by simp)
  · simp [drone_does, hk] at hc

/-- The drone moves only for a commit that its ground has heard: if it is on its way, or is told
to retune, the ground has been in `Committed` for that generation, target and nonce. -/
theorem no_unheard_activation (params : MigParams) (link_id ground_epoch : UInt32)
    (source : ChannelDef) (params' : MigParams) (link_id' drone_epoch : UInt32)
    (current : ChannelDef) (caps : MigCaps) (hprobe : caps.probe = false) (ops : List Op)
    (hops : ∀ op ∈ ops, keeps_ground op) :
    let w := network.run
      (fresh params link_id ground_epoch source params' link_id' drone_epoch current caps) ops
    ((w.parties.drone.st_ = .Switching ∨ w.parties.drone.st_ = .Verifying ∨
        w.parties.drone.st_ = .Rollback) → Activated w.parties.heard w.parties.drone) ∧
      ∀ op c, RetuneTo c ∈ drone_does w op →
        Activated w.parties.heard (network.step w op).parties.drone := by
  intro w
  have h : Agreed ground_epoch w := agreed_run (agreed_fresh _ _ _ _ _ _ _ _ _ hprobe) ops hops
  constructor
  · intro hst
    exact h.live (.inr hst)
  · intro op c hc
    exact activated_of_retune h op hc

/-- A 20 MHz channel of the 5 GHz band. -/
def channel5 (primary : UInt8) : ChannelDef := { band := 5, primary := primary }

/-- A ground and a drone on channel 36, with the default timers and any legal target. -/
def demoLink (ground_epoch drone_epoch : UInt32) : World :=
  fresh {} 0xC1 ground_epoch (channel5 36) {} 0xC1 drone_epoch (channel5 36) {}

/-- Proposal, commit and ack each arrive, and the activation instant passes. -/
def demoMove : List Op :=
  [ .act (.start (channel5 40) 7 (channel5 44) 100),
    .deliver (.drone 102 1102000 [1102000]) 0,
    .deliver (.ground 104) 1,
    .deliver (.drone 106 1106000 []) 2,
    .act (.drone_tick 600 1600000 [1600000, 1600000]) ]

theorem a_heard_activation :
    let w := network.run (demoLink 0x11110001 0x22220001) demoMove
    w.parties.drone.st_ = .Switching ∧ drone_does w (.act .drain_done) = [RetuneTo (channel5 40)] ∧
      Activated w.parties.heard w.parties.drone ∧
      Activated w.parties.heard (network.step w (.act .drain_done)).parties.drone := by
  intro w
  have hst : w.parties.drone.st_ = .Switching := by decide +kernel
  have hacts : drone_does w (.act .drain_done) = [RetuneTo (channel5 40)] := rfl
  have hops : ∀ op ∈ demoMove, keeps_ground op := by simp [demoMove, keeps_ground]
  have h := no_unheard_activation {} 0xC1 0x11110001 (channel5 36) {} 0xC1 0x22220001
    (channel5 36) {} rfl demoMove hops
  refine ⟨hst, hacts, h.1 (.inl hst), h.2 (.act .drain_done) (channel5 40) ?_⟩
  have hmem : RetuneTo (channel5 40) ∈ drone_does w (.act .drain_done) := by
    rw [hacts]; exact List.mem_singleton_self _
  exact hmem

end devourer.chanmig.Link
