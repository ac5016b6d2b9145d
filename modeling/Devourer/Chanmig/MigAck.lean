-- The ack and the ground process that sent it. The drone tells acks apart by
-- generation and nonce, and both start over with a new process.
import Devourer.Chanmig.MigActivation

namespace devourer.chanmig.Link

open MigAction

/-- Only a status from the ground process whose proposal the drone holds arms the drone, and that
process has heard the commit. -/
def AckBound (w : World) : Prop :=
  ∀ op, w.parties.drone.armed_ = false → (network.step w op).parties.drone.armed_ = true →
    ∃ now now_tsf stamps k m, op = .deliver (.drone now now_tsf stamps) k ∧ w.pool[k]? = some m ∧
      m.type = .MT_STATUS ∧ m.sender_epoch = w.parties.drone.ground_epoch_ ∧
      w.parties.Heard w.parties.drone.ground_epoch_ w.parties.drone.gen_
        w.parties.drone.drone_nonce_

/-- A step that does not let two ground processes share a generation: the drone takes no proposal
of a generation that another process has committed to, and no process commits to the generation
for which the drone awaits the ack of another. -/
structure Apart (w : World) (op : Op) : Prop where
  adopting : ∀ now now_tsf stamps k m, op = .deliver (.drone now now_tsf stamps) k →
    w.pool[k]? = some m → w.parties.drone.adopts m now = true →
      ∀ q ∈ w.parties.heard, q.gen_ = m.generation → q.epoch_ = m.ground_epoch
  committing : ∀ now k m, op = .deliver (.ground now) k → w.pool[k]? = some m →
    (w.parties.ground.enters m now).isSome = true → w.parties.drone.awaits →
      w.parties.drone.gen_ = m.generation → w.parties.drone.ground_epoch_ = w.parties.ground.epoch_

/-- While the drone awaits an ack, no other process has committed to its generation. -/
structure Bound (w : World) : Prop extends Traced w where
  own : w.parties.drone.awaits → ∀ q ∈ w.parties.heard, q.gen_ = w.parties.drone.gen_ →
    q.epoch_ = w.parties.drone.ground_epoch_

/-- A drone in the same exchange, or in the same probed one, awaits the ack of the same process. -/
theorem own_of_same {w : World} (h : Bound w) {d : MigResponder}
    (ha : d.awaits → w.parties.drone.awaits) (hg : d.gen_ = w.parties.drone.gen_)
    (he : d.ground_epoch_ = w.parties.drone.ground_epoch_) (hd : d.awaits) :
    ∀ q ∈ w.parties.heard, q.gen_ = d.gen_ → q.epoch_ = d.ground_epoch_ := by
  intro q hq hqg
  rw [he]
  exact h.own (ha hd) q hq (hqg.trans hg)

theorem own_of_steady {w : World} (h : Bound w) {t : MigResponder × List MigAction}
    (hs : w.parties.drone.Steady t) (hd : t.1.awaits) :
    ∀ q ∈ w.parties.heard, q.gen_ = t.1.gen_ → q.epoch_ = t.1.ground_epoch_ :=
  own_of_same h hs.awaits (congrArg MigResponder.Exchange.gen hs.same)
    (congrArg MigResponder.Exchange.ground_epoch hs.same) hd

theorem bound_act {w : World} (h : Bound w) (i : Input) : Bound (w.put (w.parties.act i)) := by
  have ht := traced_act h.toTraced i
  rcases w.parties.act_cases i with
    ⟨params, link_id, e, source, rfl⟩ | ⟨r, he, -, -⟩ | ⟨stamps, t, he, hd, -⟩ | ⟨c, t, he, -⟩
  · exact { ht with own := h.own }
  · rw [he] at ht ⊢
    exact { ht with own := h.own }
  · rw [he] at ht ⊢
    refine { ht with own := fun ha => ?_ }
    rcases hd with ⟨hs, -⟩ | ⟨hv, ho⟩
    · exact own_of_steady h hs ha
    · exact own_of_same h (fun _ => .inl hv) ho.gen ho.ground_epoch ha
  · rw [he] at ht ⊢
    exact { ht with own := h.own }

theorem bound_take {w : World} (h : Bound w) (e : Ear) (k : Nat) (m : MigMsg)
    (hk : w.pool[k]? = some m) (hc : Apart w (.deliver e k)) :
    Bound (w.put (w.parties.take e m)) := by
  refine { traced_take h.toTraced e m with own := ?_ }
  cases e with
  | ground now =>
    intro ha q hq hqg
    rcases List.mem_append.mp hq with hq | hq
    · exact h.own ha q hq hqg
    · have he : w.parties.ground.enters m now = some q := by simpa using hq
      have hent := MigProposer.entered_of_enters he
      have hsame := hc.committing now k m rfl hk (by simp [he]) ha (hqg.symm.trans hent.gen)
      exact hent.epoch.trans hsame.symm
  | drone now now_tsf stamps =>
    show (w.parties.drone.on_message m now now_tsf).1.awaits → _
    intro ha
    cases w.parties.drone.on_message_turn m now now_tsf with
    | steady hs _ => exact own_of_steady h hs ha
    | declines _ hs _ => exact own_of_steady h hs ha
    | arms _ hst _ _ hr =>
      rw [hr] at ha
      rcases ha with hv | ⟨-, hn⟩
      · exact absurd (hst.symm.trans hv) (by simp)
      · cases hn
    | adopts hadopt ho =>
      intro q hq hqg
      have hg : (w.parties.drone.on_message m now now_tsf).1.gen_ = m.generation := ho.gen
      have he : (w.parties.drone.on_message m now now_tsf).1.ground_epoch_ = m.ground_epoch :=
        ho.ground_epoch
      have hq' := hc.adopting now now_tsf stamps k m rfl hk hadopt q hq (hqg.trans hg)
      exact hq'.trans he.symm
    | rolls _ _ _ hst _ =>
      rcases ha with hv | ⟨hv, -⟩ <;> exact absurd (hst.symm.trans hv) (by simp)

/-- The ack that arms the drone came from the process of the proposal. -/
theorem ackBound_of_bound {w : World} (h : Bound w) : AckBound w := by
  intro op hn ha
  have hsame : ∀ t : MigResponder × List MigAction, t.1.exchange = w.parties.drone.exchange →
      t.1.armed_ ≠ true := by
    intro t ht
    have hb : t.1.armed_ = w.parties.drone.armed_ := congrArg MigResponder.Exchange.armed ht
    rw [hb, hn]
    simp
  rcases network.step_cases w op with ⟨i, rfl, he⟩ | ⟨e, k, m, rfl, hk, hm, he⟩ | ⟨_, _, -, -, he⟩
  · -- no input of the parties' own arms the drone
    rw [he] at ha
    exfalso
    rcases w.parties.act_cases i with
      ⟨_, _, _, _, rfl⟩ | ⟨r, hact, -, -⟩ | ⟨stamps, t, hact, hd, -⟩ | ⟨c, t, hact, -⟩
    · exact absurd (hn.symm.trans ha) (by simp)
    · change (w.parties.act i).1.drone.armed_ = true at ha
      rw [hact] at ha
      exact absurd (hn.symm.trans ha) (by simp)
    · change (w.parties.act i).1.drone.armed_ = true at ha
      rw [hact] at ha
      rcases hd with ⟨hs, -⟩ | ⟨-, ho⟩
      · exact hsame t hs.same ha
      · exact absurd (hn.symm.trans (ho.armed ha)) (by simp)
    · change (w.parties.act i).1.drone.armed_ = true at ha
      rw [hact] at ha
      exact absurd (hn.symm.trans ha) (by simp)
  · rw [he] at ha
    cases e with
    | ground now => exact absurd (hn.symm.trans ha) (by simp)
    | drone now now_tsf stamps =>
      have ha' : (w.parties.drone.on_message m now now_tsf).1.armed_ = true := ha
      cases w.parties.drone.on_message_turn m now now_tsf with
      | steady hs _ => exact absurd ha' (hsame _ hs.same)
      | declines _ hs _ => exact absurd ha' (hsame _ hs.same)
      | arms ht hst hecho hg _ =>
        obtain ⟨q, hq, hqe, hqg, hqn⟩ :=
          h.acks m hm ht (by rw [hecho]; exact (h.sealed hst).nonce_ne_zero)
        have hown := h.own (.inr ⟨hst, hn⟩) q hq (hqg.trans hg)
        exact ⟨now, now_tsf, stamps, k, m, rfl, hk, ht, hqe.symm.trans hown,
          q, hq, hown, hqg.trans hg, hqn.trans hecho⟩
      | adopts _ ho =>
        have hold : (w.parties.drone.asked m).armed_ = w.parties.drone.armed_ :=
          congrArg MigResponder.Exchange.armed (MigResponder.settled_exchange _ m)
        exact absurd ((hold.trans hn).symm.trans (ho.armed ha')) (by simp)
      | rolls _ _ hs => exact absurd ha' (hsame _ hs)
  · rw [he, hn] at ha
    cases ha

theorem bound_fresh (params : MigParams) (link_id ground_epoch : UInt32) (source : ChannelDef)
    (params' : MigParams) (link_id' drone_epoch : UInt32) (current : ChannelDef) (caps : MigCaps) :
    Bound (fresh params link_id ground_epoch source params' link_id' drone_epoch current caps) where
  acks := by simp [fresh]
  held := by simp [fresh, MigProposer.init]
  sealed := by simp [fresh, MigResponder.init]
  own := by simp [fresh]

theorem bound_run {w : World} (h : Bound w) (ops : List Op)
    (hops : Runs.Along network.step Apart w ops) : Bound (network.run w ops) :=
  network.run_keeps w h (fun _ i _ hw => bound_act hw i)
    (fun _ e k m hc hk _ hw => bound_take hw e k m hk hc) ops hops

/-! ## What a shared generation leads to -/

/-- With no probe, all that the ground heard was acked, under the nonce that the drone gives to
the generation. -/
structure Echoed (w : World) : Prop extends Traced w where
  unprobed : w.parties.drone.Unprobed
  commits : ∀ c ∈ w.pool, c.type = .MT_COMMIT →
    c.drone_nonce = mig_mix_nonce w.parties.drone.epoch_ c.generation 0xD2
  echoes : ∀ q ∈ w.parties.heard,
    q.drone_nonce_ = mig_mix_nonce w.parties.drone.epoch_ q.gen_ 0xD2 ∧
      ∃ a ∈ w.pool, a.type = .MT_STATUS ∧ a.sender_epoch = q.epoch_ ∧ a.generation = q.gen_ ∧
        a.peer_nonce_echo = q.drone_nonce_

/-- What was heard stays echoed as the pool grows. -/
theorem echoes_more {w : World} (h : Echoed w) {r : Link × List MigMsg} {epoch : UInt32}
    (he : epoch = w.parties.drone.epoch_) :
    ∀ q ∈ w.parties.heard, q.drone_nonce_ = mig_mix_nonce epoch q.gen_ 0xD2 ∧
      ∃ a ∈ (w.put r).pool, a.type = .MT_STATUS ∧ a.sender_epoch = q.epoch_ ∧
        a.generation = q.gen_ ∧ a.peer_nonce_echo = q.drone_nonce_ := by
  intro q hq
  obtain ⟨hn, a, ha, hk⟩ := h.echoes q hq
  refine ⟨?_, a, (w.mem_put_pool _ a).mpr (.inl ha), hk⟩
  rw [he]
  exact hn

theorem echoed_by_drone {w : World} (h : Echoed w) (stamps : List UInt64)
    {r : MigResponder × List MigAction} (ht : Traced (w.put (w.parties.by_drone stamps r)))
    (hu : r.1.Unprobed) (he : r.1.epoch_ = w.parties.drone.epoch_)
    (hc : AllSent (fun m => m.type = .MT_COMMIT →
      m.drone_nonce = mig_mix_nonce w.parties.drone.epoch_ m.generation 0xD2) r.2) :
    Echoed (w.put (w.parties.by_drone stamps r)) := by
  refine { ht with unprobed := hu, commits := ?_, echoes := echoes_more h he }
  intro c hc' hty
  show c.drone_nonce = mig_mix_nonce r.1.epoch_ c.generation 0xD2
  rw [he]
  rcases (w.mem_put_pool _ c).mp hc' with hc' | hc'
  · exact h.commits c hc' hty
  · obtain ⟨m, t, hm, rfl⟩ := of_mem_stamped hc hc'
    exact hm hty

theorem echoed_steady {w : World} (h : Echoed w) (stamps : List UInt64)
    {r : MigResponder × List MigAction} (hs : w.parties.drone.Steady r) :
    Echoed (w.put (w.parties.by_drone stamps r)) := by
  refine echoed_by_drone h stamps (traced_steady h.toTraced stamps hs) (h.unprobed.of_steady hs)
    (congrArg MigResponder.Exchange.epoch hs.same) ?_
  exact hs.tells.imp fun m hm ht => (drone_commits h.sealed hm ht).2.2.2

theorem echoed_by_ground {w : World} (h : Echoed w) {s : MigProposer} {heard : List MigProposer}
    {r : MigProposer × List MigAction}
    (ht : Traced (w.put ({ w.parties with heard := heard }.by_ground r))) (hq : s.Quiet r)
    (hheard : ∀ q ∈ heard, q ∈ w.parties.heard ∨
      q.drone_nonce_ = mig_mix_nonce w.parties.drone.epoch_ q.gen_ 0xD2 ∧
        send q.make_status_ack false ∈ r.2) :
    Echoed (w.put ({ w.parties with heard := heard }.by_ground r)) := by
  refine { ht with unprobed := h.unprobed, commits := ?_, echoes := ?_ }
  · intro c hc hty
    rcases (w.mem_put_pool _ c).mp hc with hc | hc
    · exact h.commits c hc hty
    · exact absurd hty (ground_tells (of_mem_sends hq.tells hc)).1
  · intro q hq'
    rcases hheard q hq' with hq' | ⟨hn, hack⟩
    · exact echoes_more h rfl q hq'
    · refine ⟨hn, q.make_status_ack, (w.mem_put_pool _ _).mpr (.inr ?_), rfl, rfl, rfl, rfl⟩
      exact List.mem_filterMap.mpr ⟨_, hack, sent_send _ _⟩

theorem echoed_act {w : World} (h : Echoed w) (i : Input) : Echoed (w.put (w.parties.act i)) := by
  have ht := traced_act h.toTraced i
  rcases w.parties.act_cases i with
    ⟨params, link_id, e, source, rfl⟩ | ⟨r, he, hq, -⟩ | ⟨stamps, t, he, hd, -⟩ | ⟨c, t, he, -⟩
  · refine { ht with unprobed := h.unprobed, commits := ?_, echoes := echoes_more h rfl }
    intro c hc
    rcases (w.mem_put_pool _ c).mp hc with hc | hc
    · exact h.commits c hc
    · simp [act] at hc
  · rw [he] at ht ⊢
    exact echoed_by_ground h ht hq (fun _ hq => .inl hq)
  · rw [he]
    rcases hd with ⟨hs, -⟩ | ⟨hv, -⟩
    · exact echoed_steady h stamps hs
    · exact absurd hv h.unprobed.state
  · rw [he] at ht ⊢
    refine { ht with unprobed := h.unprobed, commits := ?_, echoes := echoes_more h rfl }
    intro m hm hty
    rcases (w.mem_put_pool _ m).mp hm with hm | hm
    · exact h.commits m hm hty
    · rw [List.mem_singleton] at hm
      subst hm
      simp [marker_msg] at hty

theorem echoed_ground_takes {w : World} (h : Echoed w) (now : Int) {m : MigMsg} (hm : m ∈ w.pool) :
    Echoed (w.put (w.parties.take (.ground now) m)) := by
  have ht := traced_take h.toTraced (.ground now) m
  rcases w.parties.ground.on_message_effect m now with ⟨hn, hq⟩ | ⟨q, he, hq⟩
  · apply echoed_by_ground h ht hq
    intro p hp
    left
    simpa [hn] using hp
  · apply echoed_by_ground h ht hq
    intro p hp
    rcases List.mem_append.mp hp with hp | hp
    · exact .inl hp
    · right
      have hpq : p = q := by simpa [he] using hp
      subst hpq
      refine ⟨?_, MigProposer.ack_of_enters he⟩
      -- the nonce is the one in the commit, and the generation too
      have hent := MigProposer.entered_of_enters he
      rw [hent.nonce, hent.gen]
      exact h.commits m hm hent.type

theorem echoed_drone_takes {w : World} (h : Echoed w) (now : Int) (now_tsf : UInt64)
    (stamps : List UInt64) (m : MigMsg) :
    Echoed (w.put (w.parties.take (.drone now now_tsf stamps) m)) := by
  have ht := traced_take h.toTraced (.drone now now_tsf stamps) m
  cases w.parties.drone.on_message_turn m now now_tsf with
  | steady hs _ => exact echoed_steady h stamps hs
  | declines _ hs _ => exact echoed_steady h stamps hs
  | arms _ _ _ _ hr =>
    refine echoed_by_drone h stamps ht ?_ ?_ ?_
    · rw [hr]; exact ⟨h.unprobed.off, h.unprobed.state⟩
    · rw [hr]
    · rw [hr]; simp
  | adopts _ ho =>
    have hprobe := MigResponder.asked_unprobed h.unprobed m
    have hepoch : (w.parties.drone.on_message m now now_tsf).1.epoch_ = w.parties.drone.epoch_ :=
      ho.epoch.trans (congrArg MigResponder.Exchange.epoch (MigResponder.asked_exchange _ m))
    apply echoed_by_drone h stamps ht (MigResponder.Unprobed.of_opened hprobe ho).1 hepoch
    rw [← hepoch]
    exact ho.tells.imp fun c hc hty => (drone_commits ho.sealed hc hty).2.2.2
  | rolls _ _ hs hst htells =>
    refine echoed_by_drone h stamps ht ⟨?_, by simp [hst]⟩
      (congrArg MigResponder.Exchange.epoch hs) ?_
    · exact (congrArg (fun x => x.caps.probe) hs).trans h.unprobed.off
    · exact htells.imp fun c hc hty => (drone_commits h.sealed hc hty).2.2.2

theorem echoed_step {w : World} (h : Echoed w) (op : Op) : Echoed (network.step w op) := by
  rcases network.step_cases w op with ⟨i, rfl, he⟩ | ⟨e, k, m, rfl, -, hm, he⟩ | ⟨_, _, -, -, he⟩
  · rw [he]; exact echoed_act h i
  · rw [he]
    cases e with
    | ground now => exact echoed_ground_takes h now hm
    | drone now now_tsf stamps => exact echoed_drone_takes h now now_tsf stamps m
  · rw [he]; exact h

/-- An ack of another process, for the generation and the nonce that the drone awaits, arms it. -/
theorem not_ackBound_of_foreign {w : World} {a : MigMsg} (ha : a ∈ w.pool)
    (ht : a.type = .MT_STATUS) (hst : w.parties.drone.st_ = .Committed)
    (hn : w.parties.drone.armed_ = false) (he : a.peer_nonce_echo = w.parties.drone.drone_nonce_)
    (hg : a.generation = w.parties.drone.gen_)
    (hf : a.sender_epoch ≠ w.parties.drone.ground_epoch_) : ¬ AckBound w := by
  intro hb
  obtain ⟨k, hk⟩ := List.getElem?_of_mem ha
  have harmed : (network.step w (.deliver (.drone 0 0 []) k)).parties.drone.armed_ = true := by
    simp [Network.step, hk, network, take, by_drone, MigResponder.on_message, ht,
      MigResponder.on_status, hst, he, hg]
  obtain ⟨_, _, _, k', m, hop, hm, -, hs, -⟩ := hb _ hn harmed
  cases hop
  rw [hk] at hm
  cases hm
  exact hf hs

/-- If the bound survives a step, the step kept the generations apart. -/
theorem apart_of_ackBound {w : World} (h : Echoed w) (op : Op) (hb : AckBound (network.step w op)) :
    Apart w op := by
  have h' := echoed_step h op
  refine ⟨?_, ?_⟩
  · rintro now now_tsf stamps k m rfl hk hadopt q hq hqg
    by_cases hqe : q.epoch_ = m.ground_epoch
    · exact hqe
    exfalso
    have hstep : network.step w (.deliver (.drone now now_tsf stamps) k) =
        w.put (w.parties.by_drone stamps (w.parties.drone.on_message m now now_tsf)) := by
      simp only [Network.step, hk]; rfl
    rw [hstep] at hb h'
    have ho := MigResponder.opened_of_adopts hadopt now_tsf
    generalize w.parties.drone.on_message m now now_tsf = t at *
    have hprobe := MigResponder.asked_unprobed h.unprobed m
    obtain ⟨-, hst, hn⟩ := MigResponder.Unprobed.of_opened hprobe ho
    have hgen : t.1.gen_ = m.generation := ho.gen
    have hmix : t.1.drone_nonce_ = mig_mix_nonce t.1.epoch_ t.1.gen_ 0xD2 := (h'.sealed hst).mixed
    -- the ack of `q` is still in the pool
    obtain ⟨hqn, a, ha, hta, hsa, hga, hea⟩ := h'.echoes q hq
    have hqn' : q.drone_nonce_ = mig_mix_nonce t.1.epoch_ q.gen_ 0xD2 := hqn
    refine not_ackBound_of_foreign ha hta hst hn ?_ ?_ ?_ hb
    · show a.peer_nonce_echo = t.1.drone_nonce_
      rw [hea, hqn', hmix, hgen, hqg]
    · exact hga.trans (hqg.trans hgen.symm)
    · intro hs
      exact hqe (hsa.symm.trans (hs.trans ho.ground_epoch))
  · rintro now k m rfl hk henters hawaits hgen
    by_cases he : w.parties.drone.ground_epoch_ = w.parties.ground.epoch_
    · exact he
    exfalso
    obtain ⟨q, hq⟩ := Option.isSome_iff_exists.mp henters
    have hstep : network.step w (.deliver (.ground now) k) =
        w.put (w.parties.take (.ground now) m) := by
      simp only [Network.step, hk]; rfl
    rw [hstep] at hb h'
    have hent := MigProposer.entered_of_enters hq
    have hqg : q.gen_ = w.parties.drone.gen_ := hent.gen.trans hgen.symm
    have hst : w.parties.drone.st_ = .Committed ∧ w.parties.drone.armed_ = false := by
      rcases hawaits with hv | hc
      · exact absurd hv h.unprobed.state
      · exact hc
    -- the ground acks as it enters
    have hmem : q ∈ (w.put (w.parties.take (.ground now) m)).parties.heard := by
      simp [take, by_ground, hq]
    obtain ⟨hqn, a, ha, hta, hsa, hga, hea⟩ := h'.echoes q hmem
    have hqn' : q.drone_nonce_ = mig_mix_nonce w.parties.drone.epoch_ q.gen_ 0xD2 := hqn
    refine not_ackBound_of_foreign ha hta hst.1 hst.2 ?_ (hga.trans hqg) ?_ hb
    · show a.peer_nonce_echo = w.parties.drone.drone_nonce_
      rw [hea, hqn', hqg]
      exact (h.sealed hst.1).mixed.symm
    · intro hs
      exact he (hs.symm.trans (hsa.trans hent.epoch))

/-! ## Every run -/

/-- A run keeps each ack to the ground process of the proposal if it keeps the generations of the
processes apart; and, with no probe, only if it does. -/
theorem acks_are_bound_when_generations_are_apart (params : MigParams)
    (link_id ground_epoch : UInt32) (source : ChannelDef) (params' : MigParams)
    (link_id' drone_epoch : UInt32) (current : ChannelDef) (caps : MigCaps) (ops : List Op) :
    let w := fresh params link_id ground_epoch source params' link_id' drone_epoch current caps
    (Runs.Along network.step Apart w ops → ∀ n, AckBound (network.run w (ops.take n))) ∧
      (caps.probe = false → (∀ n, AckBound (network.run w (ops.take n))) →
        Runs.Along network.step Apart w ops) := by
  intro w
  have hw : Bound w := bound_fresh params link_id ground_epoch source params' link_id' drone_epoch
    current caps
  constructor
  · intro hops n
    exact ackBound_of_bound (bound_run hw (ops.take n) (hops.take network.step n))
  · intro hprobe hall
    have he : Echoed w := {
      hw.toTraced with
      unprobed := ⟨hprobe, by simp [w, fresh, MigResponder.init]⟩
      commits := by simp [w, fresh]
      echoes := by simp [w, fresh] }
    exact Runs.along_of_reached network.step w he (fun _ op h => echoed_step h op)
      (fun _ op h hb => apart_of_ackBound h op hb) ops hall

theorem apart_act (w : World) (i : Input) : Apart w (.act i) := by
  refine ⟨?_, ?_⟩
  · intro _ _ _ _ _ hop
    cases hop
  · intro _ _ _ hop
    cases hop

/-- A drone that nobody has committed to may take any proposal. -/
theorem apart_unheard {w : World} (h : w.parties.heard = []) (now : Int) (now_tsf : UInt64)
    (stamps : List UInt64) (k : Nat) : Apart w (.deliver (.drone now now_tsf stamps) k) := by
  refine ⟨?_, ?_⟩
  · intro _ _ _ _ _ _ _ _ q hq
    rw [h] at hq
    cases hq
  · intro _ _ _ hop
    cases hop

/-- The process whose proposal the drone holds may commit to it. -/
theorem apart_same_epoch {w : World} (h : w.parties.drone.ground_epoch_ = w.parties.ground.epoch_)
    (now : Int) (k : Nat) : Apart w (.deliver (.ground now) k) := by
  refine ⟨?_, fun _ _ _ _ _ _ _ _ => h⟩
  intro _ _ _ _ _ hop
  cases hop

/-- The ground restarts before it has heard a commit, and its next process sees one through. -/
def demoRestart : List Op :=
  [ .act (.start (channel5 40) 7 (channel5 44) 100),
    .deliver (.drone 102 1102000 [1102000]) 0,
    .act (.restart {} 0xC1 0x33330001 (channel5 36)),
    .act (.start (channel5 48) 8 (channel5 44) 130),
    .deliver (.drone 132 1132000 [1132000]) 2,
    .deliver (.ground 134) 3 ]

theorem a_new_process_arms_its_own_commit :
    let w := network.run (demoLink 0x11110001 0x22220001) demoRestart
    w.parties.drone.armed_ = false ∧
      (network.step w (.deliver (.drone 136 1136000 []) 4)).parties.drone.armed_ = true ∧
      w.parties.drone.ground_epoch_ = 0x33330001 ∧ AckBound w := by
  intro w
  have hops : Runs.Along network.step Apart (demoLink 0x11110001 0x22220001) demoRestart := by
    exact ⟨apart_act _ _, apart_unheard rfl _ _ _ _, apart_act _ _, apart_act _ _,
      apart_unheard rfl _ _ _ _, apart_same_epoch rfl _ _, trivial⟩
  have h := (acks_are_bound_when_generations_are_apart {} 0xC1 0x11110001 (channel5 36) {} 0xC1
    0x22220001 (channel5 36) {} demoRestart).1 hops demoRestart.length
  rw [List.take_length] at h
  exact ⟨by decide +kernel, by decide +kernel, by decide +kernel, h⟩

/-- The first process acks a commit of its generation 1 and restarts, and the drone takes
generation 1 of the second process. -/
def demoReplay : List Op :=
  [ .act (.start (channel5 40) 7 (channel5 44) 100),
    .deliver (.drone 102 1102000 [1102000]) 0,
    .deliver (.ground 104) 1,
    .act (.restart {} 0xC1 0x33330001 (channel5 36)),
    .act (.start (channel5 48) 8 (channel5 44) 130),
    .deliver (.drone 132 1132000 [1132000]) 3 ]

/-- The ack of the first process arms the drone for the commit of the second, which the second
has not heard. -/
theorem an_old_ack_arms_a_new_proposal :
    let w := network.run (demoLink 0x11110001 0x22220001) demoReplay
    w.parties.drone.ground_epoch_ = 0x33330001 ∧ w.parties.drone.armed_ = false ∧
      (network.step w (.deliver (.drone 140 1140000 []) 2)).parties.drone.armed_ = true ∧
      (w.pool[2]?).map (·.sender_epoch) = some 0x11110001 ∧
      (∀ q ∈ w.parties.heard, q.epoch_ ≠ 0x33330001) ∧ ¬ AckBound w := by
  intro w
  have he : w.parties.drone.ground_epoch_ = 0x33330001 := by decide +kernel
  have hn : w.parties.drone.armed_ = false := by decide +kernel
  have ha : (network.step w (.deliver (.drone 140 1140000 []) 2)).parties.drone.armed_ = true := by
    decide +kernel
  have hs : (w.pool[2]?).map (·.sender_epoch) = some 0x11110001 := by decide +kernel
  refine ⟨he, hn, ha, hs, by decide +kernel, ?_⟩
  intro hb
  obtain ⟨_, _, _, k, m, hop, hm, -, hsender, -⟩ := hb _ hn ha
  cases hop
  rw [hm, Option.map_some, hsender, he] at hs
  exact absurd hs (by decide)

end devourer.chanmig.Link
