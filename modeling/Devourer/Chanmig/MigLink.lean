-- The two machines and the link between them. The link keeps every message
-- ever sent, and the ground may restart under a new epoch.
import Devourer.Lib.Network
import Devourer.Chanmig.MigEffects

namespace devourer.chanmig

open MigAction

/-- The two ends. `heard` is no part of the program: it records the ground as it was each time
that it entered `Committed`. -/
structure Link where
  ground : MigProposer
  drone : MigResponder
  heard : List MigProposer := []

namespace Link

/-- What can happen at one end, apart from a message. The host calls back when it likes, and
reads what clocks it likes. -/
inductive Input
  | restart (params : MigParams) (link_id epoch : UInt32) (source : ChannelDef)
  | start (target : ChannelDef) (evidence_gen : UInt32) (rescue : ChannelDef) (now : Int)
  | ground_tick (now : Int)
  | ground_retune_done
  | video (now : Int)
  | drone_tick (now : Int) (now_tsf : UInt64) (stamps : List UInt64)
  | drain_done
  | probe_sample (busy_frac : Rat) (valid : Bool)
  | drone_retune_done (ok : Bool) (now : Int) (now_tsf : UInt64) (stamps : List UInt64)
  | marker (aired_on : ChannelDef) (tx_tsf : UInt64)

/-- The end that a message reaches, and its clocks. -/
inductive Ear
  | ground (now : Int)
  | drone (now : Int) (now_tsf : UInt64) (stamps : List UInt64)

/-- The messages that a host transmits for a list of actions. -/
def sends (acts : List MigAction) : List MigMsg := acts.filterMap MigAction.sent

/-- The drone's host stamps each message as it goes out, with 0 where its clock cannot be read. -/
def stamped (stamps : List UInt64) (ms : List MigMsg) : List MigMsg :=
  ms.mapIdx fun i m => { m with tx_tsf := stamps.getD i 0 }

def by_ground (l : Link) (r : MigProposer × List MigAction) : Link × List MigMsg :=
  ({ l with ground := r.1 }, sends r.2)

def by_drone (l : Link) (stamps : List UInt64) (r : MigResponder × List MigAction) :
    Link × List MigMsg :=
  ({ l with drone := r.1 }, stamped stamps (sends r.2))

/-- The generation-tagged marker that the drone's host airs. -/
def marker_msg (l : Link) (aired_on : ChannelDef) (tx_tsf : UInt64) : MigMsg :=
  { type := .MT_MARKER
    link_id := l.drone.link_id_
    drone_epoch := l.drone.epoch_
    generation := l.drone.gen_
    aired_on := aired_on
    tx_tsf := tx_tsf }

def act (l : Link) : Input → Link × List MigMsg
  | .restart params link_id epoch source =>
    ({ l with ground := MigProposer.init params link_id epoch source }, [])
  | .start target evidence_gen rescue now =>
    l.by_ground (l.ground.start target evidence_gen rescue now)
  | .ground_tick now => l.by_ground (l.ground.on_tick now)
  | .ground_retune_done => l.by_ground l.ground.on_retune_done
  | .video now => l.by_ground (l.ground.on_video now)
  | .drone_tick now now_tsf stamps => l.by_drone stamps (l.drone.on_tick now now_tsf)
  | .drain_done => l.by_drone [] l.drone.on_drain_done
  | .probe_sample busy_frac valid => l.by_drone [] (l.drone.on_probe_sample busy_frac valid)
  | .drone_retune_done ok now now_tsf stamps =>
    l.by_drone stamps (l.drone.on_retune_done ok now now_tsf)
  | .marker aired_on tx_tsf => (l, [l.marker_msg aired_on tx_tsf])

def take (l : Link) : Ear → MigMsg → Link × List MigMsg
  | .ground now, m =>
    let l' := { l with heard := l.heard ++ (l.ground.enters m now).toList }
    l'.by_ground (l.ground.on_message m now)
  | .drone now now_tsf stamps, m => l.by_drone stamps (l.drone.on_message m now now_tsf)

/-- The link as a network in which nothing that was sent is ever lost. -/
def network : Network Link Input Ear MigMsg := ⟨act, take⟩

abbrev World := Network.World Link MigMsg
abbrev Op := Network.Op Input Ear

/-- What the drone asks of its host on an input. -/
def drone_acts (l : Link) : Input → List MigAction
  | .drone_tick now now_tsf _ => (l.drone.on_tick now now_tsf).2
  | .drain_done => l.drone.on_drain_done.2
  | .probe_sample busy_frac valid => (l.drone.on_probe_sample busy_frac valid).2
  | .drone_retune_done ok now now_tsf _ => (l.drone.on_retune_done ok now now_tsf).2
  | _ => []

/-- What the drone asks of its host on a message. -/
def drone_answers (l : Link) : Ear → MigMsg → List MigAction
  | .drone now now_tsf _, m => (l.drone.on_message m now now_tsf).2
  | .ground _, _ => []

/-- What the drone asks of its host in one step. -/
def drone_does (w : World) : Op → List MigAction
  | .act i => w.parties.drone_acts i
  | .deliver e k => ((w.pool[k]?).map (w.parties.drone_answers e)).getD []

/-! ## What is sent -/

theorem of_mem_sends {P : MigMsg → Prop} {acts : List MigAction} (h : AllSent P acts) {m : MigMsg}
    (hm : m ∈ sends acts) : P m := by
  obtain ⟨a, ha, hs⟩ := List.mem_filterMap.mp hm
  exact h a ha m hs

/-- What the drone's host transmits is, but for the stamp, what the drone sent. -/
theorem of_mem_stamped {P : MigMsg → Prop} {acts : List MigAction} (h : AllSent P acts)
    {stamps : List UInt64} {m : MigMsg} (hm : m ∈ stamped stamps (sends acts)) :
    ∃ m' t, P m' ∧ m = { m' with tx_tsf := t } := by
  obtain ⟨i, hi, rfl⟩ := List.mem_mapIdx.mp hm
  exact ⟨_, _, of_mem_sends h (List.getElem_mem hi), rfl⟩

/-! ## What one input can do -/

/-- An input restarts the ground, is quiet at the ground, moves the drone on without a message,
or airs a marker. -/
theorem act_cases (l : Link) (i : Input) :
    (∃ params link_id epoch source, i = .restart params link_id epoch source) ∨
      (∃ r, l.act i = l.by_ground r ∧ l.ground.Quiet r ∧ l.drone_acts i = []) ∨
      (∃ stamps t, l.act i = l.by_drone stamps t ∧
        (l.drone.Steady t ∧ ReplayWindow.SameWindow l.drone.rw_ t.1.rw_ ∨
          l.drone.st_ = .Validating ∧ l.drone.Opened t) ∧ l.drone_acts i = t.2) ∨
      ∃ c t, l.act i = (l, [l.marker_msg c t]) ∧ l.drone_acts i = [] := by
  cases i with
  | restart params link_id epoch source => exact .inl ⟨params, link_id, epoch, source, rfl⟩
  | start target evidence_gen rescue now =>
    exact .inr (.inl ⟨_, rfl, l.ground.quiet_start _ _ _ _, rfl⟩)
  | ground_tick now => exact .inr (.inl ⟨_, rfl, l.ground.quiet_on_tick _, rfl⟩)
  | ground_retune_done => exact .inr (.inl ⟨_, rfl, l.ground.quiet_on_retune_done, rfl⟩)
  | video now => exact .inr (.inl ⟨_, rfl, l.ground.quiet_on_video _, rfl⟩)
  | drone_tick now now_tsf stamps =>
    exact .inr (.inr (.inl ⟨stamps, _, rfl,
      .inl ⟨l.drone.steady_on_tick _ _, l.drone.window_on_tick _ _⟩, rfl⟩))
  | drain_done =>
    exact .inr (.inr (.inl ⟨[], _, rfl,
      .inl ⟨l.drone.steady_on_drain_done, .of_eq l.drone.window_on_drain_done⟩, rfl⟩))
  | probe_sample busy_frac valid =>
    exact .inr (.inr (.inl ⟨[], _, rfl,
      .inl ⟨l.drone.steady_on_probe_sample _ _, .of_eq (l.drone.window_on_probe_sample _ _)⟩, rfl⟩))
  | drone_retune_done ok now now_tsf stamps =>
    refine .inr (.inr (.inl ⟨stamps, _, rfl, ?_, rfl⟩))
    rcases l.drone.on_retune_done_effect ok now now_tsf with hs | ho
    · exact .inl ⟨hs, l.drone.window_on_retune_done _ _ _⟩
    · exact .inr ho
  | marker aired_on tx_tsf => exact .inr (.inr (.inr ⟨aired_on, tx_tsf, rfl, rfl⟩))

/-! ## Every ack has its commit -/

/-- The ground entered `Committed` under an epoch, for a generation, with a nonce. -/
def Heard (l : Link) (epoch gen nonce : UInt32) : Prop :=
  ∃ q ∈ l.heard, q.epoch_ = epoch ∧ q.gen_ = gen ∧ q.drone_nonce_ = nonce

/-- Acks are sent by a ground that entered `Committed`, and no message of the drone is one. -/
structure Traced (w : World) : Prop where
  acks : ∀ m ∈ w.pool, m.type = .MT_STATUS → m.peer_nonce_echo ≠ 0 →
    w.parties.Heard m.sender_epoch m.generation m.peer_nonce_echo
  held : w.parties.ground.st_ = .Committed →
    w.parties.Heard w.parties.ground.epoch_ w.parties.ground.gen_ w.parties.ground.drone_nonce_
  sealed : w.parties.drone.st_ = .Committed → w.parties.drone.Sealed

/-- What a drone with a sealed commit sends is no ack and no proposal. -/
theorem drone_tells {r : MigResponder} {m : MigMsg} (hr : r.st_ = .Committed → r.Sealed)
    (h : r.Tells m) : m.type ≠ .MT_PROPOSAL ∧ (m.type = .MT_STATUS → m.peer_nonce_echo = 0) := by
  cases h with
  | status ht he => exact ⟨by simp [ht], fun _ => he⟩
  | commit hst hm =>
    subst hm
    have ht := (hr hst).type
    exact ⟨by simp [ht], fun h => by simp [ht] at h⟩
  | report ht => rcases ht with ht | ht <;> exact ⟨by simp [ht], fun h => by simp [ht] at h⟩

/-- A commit that the drone sends is the one it holds. -/
theorem drone_commits {r : MigResponder} {m : MigMsg} (hr : r.st_ = .Committed → r.Sealed)
    (h : r.Tells m) (ht : m.type = .MT_COMMIT) :
    r.st_ = .Committed ∧ m.generation = r.gen_ ∧ m.target = r.commit_target_ ∧
      m.drone_nonce = mig_mix_nonce r.epoch_ m.generation 0xD2 := by
  cases h with
  | status ht' => exact absurd (ht.symm.trans ht') (by simp)
  | report ht' => rcases ht' with ht' | ht' <;> exact absurd (ht.symm.trans ht') (by simp)
  | commit hst hm =>
    subst hm
    have hsl := hr hst
    refine ⟨hst, hsl.gen, hsl.target, ?_⟩
    rw [hsl.nonce, hsl.mixed, hsl.gen]

/-- A step of the ground: quiet from the machine it was, or from the one that entered
`Committed`. -/
theorem traced_by_ground {w : World} (h : Traced w) {s : MigProposer} {heard : List MigProposer}
    {r : MigProposer × List MigAction} (hmore : ∀ q ∈ w.parties.heard, q ∈ heard)
    (hs : s.st_ = .Committed → ∃ q ∈ heard, q.SameAck s) (hq : s.Quiet r) :
    Traced (w.put ({ w.parties with heard := heard }.by_ground r)) := by
  refine ⟨?_, ?_, h.sealed⟩
  · intro m hm ht he
    rcases (w.mem_put_pool _ m).mp hm with hm | hm
    · obtain ⟨q, hq', hk⟩ := h.acks m hm ht he
      exact ⟨q, hmore q hq', hk⟩
    · cases of_mem_sends hq.tells hm with
      | proposal ht' => exact absurd (ht.symm.trans ht') (by simp)
      | confirm ht' => exact absurd (ht.symm.trans ht') (by simp)
      | ack _ hst hep hg hn =>
        obtain ⟨q, hq', hk⟩ := hs hst
        exact ⟨q, hq', hk.epoch.trans hep.symm, hk.gen.trans hg.symm, hk.nonce.trans hn.symm⟩
  · intro hst
    obtain ⟨hs', hack⟩ := hq.committed hst
    obtain ⟨q, hq', hk⟩ := hs hs'
    have hk' := hk.trans hack
    exact ⟨q, hq', hk'.epoch, hk'.gen, hk'.nonce⟩

theorem traced_quiet {w : World} (h : Traced w) {r : MigProposer × List MigAction}
    (hq : w.parties.ground.Quiet r) : Traced (w.put (w.parties.by_ground r)) := by
  refine traced_by_ground h (fun _ hq => hq) ?_ hq
  intro hst
  obtain ⟨q, hq', he, hg, hn⟩ := h.held hst
  exact ⟨q, hq', he, hg, hn⟩

/-- A step of the drone: it sends nothing that could pass for an ack. -/
theorem traced_by_drone {w : World} (h : Traced w) (stamps : List UInt64)
    {r : MigResponder × List MigAction} (hr : r.1.st_ = .Committed → r.1.Sealed)
    (hs : AllSent (fun m => m.type = .MT_STATUS → m.peer_nonce_echo = 0) r.2) :
    Traced (w.put (w.parties.by_drone stamps r)) := by
  refine ⟨?_, h.held, hr⟩
  intro m hm ht he
  rcases (w.mem_put_pool _ m).mp hm with hm | hm
  · exact h.acks m hm ht he
  · obtain ⟨m', t, hs', rfl⟩ := of_mem_stamped hs hm
    exact absurd (hs' ht) he

theorem traced_steady {w : World} (h : Traced w) (stamps : List UInt64)
    {r : MigResponder × List MigAction} (hr : w.parties.drone.Steady r) :
    Traced (w.put (w.parties.by_drone stamps r)) := by
  refine traced_by_drone h stamps ?_ ?_
  · intro hst
    exact (h.sealed (hr.committed hst)).of_same hr.same
  · exact hr.tells.imp fun m hm => (drone_tells h.sealed hm).2

theorem traced_opened {w : World} (h : Traced w) (stamps : List UInt64) {q : MigResponder}
    {r : MigResponder × List MigAction} (ho : q.Opened r) :
    Traced (w.put (w.parties.by_drone stamps r)) := by
  apply traced_by_drone h stamps ho.sealed
  exact ho.tells.imp fun m hm => (drone_tells ho.sealed hm).2

theorem traced_act {w : World} (h : Traced w) (i : Input) : Traced (w.put (w.parties.act i)) := by
  rcases w.parties.act_cases i with
    ⟨params, link_id, epoch, source, rfl⟩ | ⟨r, he, hq, -⟩ | ⟨stamps, t, he, hd, -⟩ | ⟨c, t, he, -⟩
  · refine ⟨?_, fun hst => by simp [act, MigProposer.init] at hst, h.sealed⟩
    intro m hm ht he
    rcases (w.mem_put_pool _ m).mp hm with hm | hm
    · exact h.acks m hm ht he
    · simp [act] at hm
  · rw [he]; exact traced_quiet h hq
  · rw [he]
    rcases hd with ⟨hs, -⟩ | ⟨-, ho⟩
    · exact traced_steady h stamps hs
    · exact traced_opened h stamps ho
  · rw [he]
    refine ⟨?_, h.held, h.sealed⟩
    intro m hm ht he
    rcases (w.mem_put_pool _ m).mp hm with hm | hm
    · exact h.acks m hm ht he
    · rw [List.mem_singleton] at hm
      subst hm
      simp [marker_msg] at ht

theorem traced_take {w : World} (h : Traced w) (e : Ear) (m : MigMsg) :
    Traced (w.put (w.parties.take e m)) := by
  cases e with
  | ground now =>
    rcases w.parties.ground.on_message_effect m now with ⟨hn, hq⟩ | ⟨q, he, hq⟩
    · have ht := traced_quiet h hq
      simpa [take, hn] using ht
    · refine traced_by_ground h (fun _ hq => List.mem_append_left _ hq) ?_ hq
      intro _
      exact ⟨q, by simp [he], MigProposer.SameAck.refl q⟩
  | drone now now_tsf stamps =>
    cases w.parties.drone.on_message_turn m now now_tsf with
    | steady hs _ => exact traced_steady h stamps hs
    | declines _ hs _ => exact traced_steady h stamps hs
    | arms _ hst _ _ hr =>
      refine traced_by_drone h stamps ?_ ?_
      · rw [hr]
        intro _
        exact (h.sealed hst).armed
      · rw [hr]
        simp
    | adopts _ ho => exact traced_opened h stamps ho
    | rolls _ _ _ hst hs =>
      apply traced_by_drone h stamps (fun hc => by simp [hst] at hc)
      exact hs.imp fun m' hm => (drone_tells h.sealed hm).2

/-- Two fresh machines, and nothing sent. -/
def fresh (params : MigParams) (link_id ground_epoch : UInt32) (source : ChannelDef)
    (params' : MigParams) (link_id' drone_epoch : UInt32) (current : ChannelDef) (caps : MigCaps) :
    World :=
  ⟨{ ground := .init params link_id ground_epoch source
     drone := .init params' link_id' drone_epoch current caps }, []⟩

end Link

end devourer.chanmig
