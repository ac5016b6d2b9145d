-- Every move of the drone: where an exchange stands, and how one call of the
-- host can move it. The laws of the drone's runs are proved from these moves.
import Devourer.Chanmig.MigEffects

namespace devourer.chanmig.MigResponder

open MigAction

/-- Where the drone stands: its state, its channel, and the exchange it holds. -/
structure Stand where
  st : MigState
  phase : Phase
  pp : ProbePhase
  current : ChannelDef
  gen : UInt32
  ground_epoch : UInt32
  source : ChannelDef
  target : ChannelDef
  rescue : ChannelDef
  fallback : ChannelDef
  /-- The ground epoch that the drone knows, if it knows one. -/
  peer : Option UInt32

def stand (r : MigResponder) : Stand where
  st := r.st_
  phase := r.phase_
  pp := r.pp_
  current := r.current_
  gen := r.gen_
  ground_epoch := r.ground_epoch_
  source := r.commit_source_
  target := r.commit_target_
  rescue := r.commit_rescue_
  fallback := r.fallback_channel
  peer := if r.rw_.have_peer then some r.rw_.peer_epoch else none

namespace Stand

/-- A proposal of another epoch than the known one. -/
def changes (v : Stand) (m : MigMsg) : Bool := v.peer.isSome && v.peer != some m.ground_epoch

def moved (v : Stand) : Bool := v.gen != 0 && !v.current.same_rf v.source

/-- The stand once a proposal is stashed. -/
def stashed (v : Stand) (m : MigMsg) : Stand :=
  { v with
    gen := m.generation
    ground_epoch := m.ground_epoch
    source := m.source
    target := m.target
    rescue := m.rescue
    fallback := if m.fallback_mode = 1 then m.rescue else m.source
    peer := some m.ground_epoch }

/-- The drone has asked for a retune, and acts on its outcome. -/
def tuning (v : Stand) : Bool :=
  match v.st with
  | .Switching => v.phase == .Retuning || v.phase == .RollbackRetune
  | .Rollback => true
  | .Validating => v.pp == .Retune || v.pp == .Return
  | _ => false

/-- The states in which the drone is at work on an exchange. -/
def engaged (v : Stand) : Prop :=
  v.st = .Validating ∨ v.st = .Committed ∨ v.st = .Switching ∨ v.st = .Verifying

end Stand

theorem changes_stand (r : MigResponder) (m : MigMsg) :
    r.stand.changes m = r.epoch_change m := by
  unfold Stand.changes epoch_change stand
  rcases r.rw_.have_peer with _ | _
  · rfl
  · have hcomm : (r.rw_.peer_epoch != m.ground_epoch) = (m.ground_epoch != r.rw_.peer_epoch) :=
      bne_comm
    simpa [bne] using hcomm

/-- The proposal that a call delivers, if it delivers one. -/
def Op.proposal : Op → Option MigMsg
  | .message m _ _ => if m.type = .MT_PROPOSAL then some m else none
  | _ => none

/-- The call that reports the outcome of a retune. -/
def Op.isRetuneDone : Op → Bool
  | .retune_done _ _ _ => true
  | _ => false

/-- What a call does to the stand, the channels that it retunes to, and what it does to the
pump. -/
inductive Move (v : Stand) : Op → Stand → List ChannelDef → List Bool → Prop
  | rest {op : Op} (h : op.proposal = none) (hd : op.isRetuneDone = true → v.tuning = false) :
    Move v op v [] []
  /-- No ack came in time. -/
  | lapses {now : Int} {tsf : UInt64} (h : v.st = .Committed) :
    Move v (.tick now tsf) { v with st := .Stable } [] []
  | drains {now : Int} {tsf : UInt64} (h : v.st = .Committed) :
    Move v (.tick now tsf) { v with st := .Switching, phase := .Draining } [] [false]
  /-- The drain is done, or has taken too long. -/
  | retunes {op : Op} (hop : op = .drain_done ∨ ∃ now tsf, op = .tick now tsf)
    (h : v.st = .Switching) (hp : v.phase = .Draining) :
    Move v op { v with phase := .Retuning } [v.target] []
  /-- No confirm came in time. -/
  | expires {now : Int} {tsf : UInt64} (h : v.st = .Verifying) :
    Move v (.tick now tsf) { v with st := .Rollback } [v.fallback] []
  | hops (h : v.st = .Validating) (hp : v.pp = .Drain) :
    Move v .drain_done { v with pp := .Retune } [v.target] []
  | samples {busy_frac : Rat} {valid : Bool} (h : v.st = .Validating) (hp : v.pp = .Sampling) :
    Move v (.probe_sample busy_frac valid) { v with pp := .Return } [v.source] []
  | switches {now : Int} {tsf : UInt64} (h : v.st = .Switching) (hp : v.phase = .Retuning) :
    Move v (.retune_done true now tsf) { v with st := .Verifying, current := v.target } [] [true]
  /-- The switch failed: the fallback is assumed before it is reached. -/
  | fails {now : Int} {tsf : UInt64} (h : v.st = .Switching) (hp : v.phase = .Retuning) :
    Move v (.retune_done false now tsf) { v with phase := .RollbackRetune, current := v.fallback }
      [v.fallback] []
  | returns {now : Int} {tsf : UInt64} (h : v.st = .Switching) (hp : v.phase = .RollbackRetune) :
    Move v (.retune_done true now tsf) { v with st := .Stable, current := v.fallback } [] []
  /-- Even the fallback failed. -/
  | rescues {now : Int} {tsf : UInt64} (h : v.st = .Switching) (hp : v.phase = .RollbackRetune) :
    Move v (.retune_done false now tsf) { v with st := .Stable, current := v.rescue } [v.rescue] []
  /-- A rollback ends in the same way whether or not its retune failed. -/
  | rolled {ok : Bool} {now : Int} {tsf : UInt64} (h : v.st = .Rollback) :
    Move v (.retune_done ok now tsf) { v with st := .Stable, current := v.fallback } [] []
  | arrives {now : Int} {tsf : UInt64} (h : v.st = .Validating) (hp : v.pp = .Retune) :
    Move v (.retune_done true now tsf) { v with pp := .Sampling, current := v.target } [] []
  | misses {now : Int} {tsf : UInt64} (h : v.st = .Validating) (hp : v.pp = .Retune) :
    Move v (.retune_done false now tsf) { v with pp := .Return } [v.source] []
  /-- The way back from the probe failed: the rescue is assumed, and not retuned to. -/
  | strays {now : Int} {tsf : UInt64} (h : v.st = .Validating) (hp : v.pp = .Return) :
    Move v (.retune_done false now tsf)
      { v with st := .Stable, pp := .None, current := v.rescue } [] [true]
  | vetoes {now : Int} {tsf : UInt64} (h : v.st = .Validating) (hp : v.pp = .Return) :
    Move v (.retune_done true now tsf)
      { v with st := .Stable, pp := .None, current := v.source } [] [true]
  | clears {now : Int} {tsf : UInt64} (h : v.st = .Validating) (hp : v.pp = .Return) :
    Move v (.retune_done true now tsf)
      { v with st := .Committed, pp := .None, current := v.source } [] [true]
  | confirms {m : MigMsg} {now : Int} {tsf : UInt64} (ht : m.type = .MT_CONFIRM)
    (h : v.st = .Verifying) :
    Move v (.message m now tsf) { v with st := .Stable, current := v.target } [] []
  /-- A proposal that changes nothing but the epoch that a stable drone knows. -/
  | declines {m : MigMsg} {now : Int} {tsf : UInt64} (ht : m.type = .MT_PROPOSAL)
    (h : v.changes m = false ∨ v.st = .Stable) :
    Move v (.message m now tsf) { v with peer := some m.ground_epoch } [] []
  /-- A proposal of another epoch, and the drone is still on its source. -/
  | orphans {m : MigMsg} {now : Int} {tsf : UInt64} (ht : m.type = .MT_PROPOSAL)
    (he : v.changes m = true) (h : v.st ≠ .Stable) (hm : v.moved = false) :
    Move v (.message m now tsf)
      { v with st := .Stable, phase := .None, peer := some m.ground_epoch } [] []
  /-- A proposal of another epoch, and the drone has left its source. -/
  | rolls {m : MigMsg} {now : Int} {tsf : UInt64} (ht : m.type = .MT_PROPOSAL)
    (he : v.changes m = true) (h : v.st ≠ .Stable) (hm : v.moved = true) :
    Move v (.message m now tsf)
      { v with st := .Rollback, phase := .None, peer := some m.ground_epoch } [v.source] []
  | commits {m : MigMsg} {now : Int} {tsf : UInt64} {p : Phase} (ht : m.type = .MT_PROPOSAL)
    (h : v.st = .Stable ∨ v.changes m = true ∧ v.moved = false) (hg : m.generation ≠ 0)
    (hs : m.source.same_rf v.current = true) :
    Move v (.message m now tsf) { v.stashed m with st := .Committed, phase := p } [] []
  | probes {m : MigMsg} {now : Int} {tsf : UInt64} {p : Phase} (ht : m.type = .MT_PROPOSAL)
    (h : v.st = .Stable ∨ v.changes m = true ∧ v.moved = false) (hg : m.generation ≠ 0)
    (hs : m.source.same_rf v.current = true) :
    Move v (.message m now tsf)
      { v.stashed m with st := .Validating, pp := .Drain, phase := p } [] [false]

/-- The move that a call makes. -/
def Moves (r : MigResponder) (op : Op) (t : MigResponder × List MigAction) : Prop :=
  Move r.stand op t.1.stand (tunes t.2) (pumps t.2)

theorem moves_nothing (r : MigResponder) {op : Op} (h : op.proposal = none)
    (hd : op.isRetuneDone = false) : Moves r op (r, []) :=
  .rest h fun hr => absurd (hr.symm.trans hd) (by simp)

/-! ## Ticks and callbacks -/

/-- A part of the tick that neither moves the stand nor touches the radio or the pump. -/
structure Idle (r : MigResponder) (t : MigResponder × List MigAction) : Prop where
  stand : t.1.stand = r.stand
  tunes : tunes t.2 = []
  pumps : pumps t.2 = []

theorem idle_tick_commit (r : MigResponder) (now : Int) : Idle r (r.tick_commit now) := by
  unfold tick_commit
  split <;> exact ⟨rfl, rfl, rfl⟩

theorem idle_tick_status (r : MigResponder) (now : Int) : Idle r (r.tick_status now) := by
  unfold tick_status
  split <;> exact ⟨rfl, rfl, rfl⟩

theorem Idle.andThen {r : MigResponder} {op : Op} {a t : MigResponder × List MigAction}
    (ha : Idle r a) (h : Moves a.1 op t) : Moves r op (t.1, a.2 ++ t.2) := by
  have htunes : MigAction.tunes (a.2 ++ t.2) = MigAction.tunes t.2 := by
    unfold MigAction.tunes
    rw [List.filterMap_append]
    exact congrArg (· ++ _) ha.tunes
  have hpumps : MigAction.pumps (a.2 ++ t.2) = MigAction.pumps t.2 := by
    unfold MigAction.pumps
    rw [List.filterMap_append]
    exact congrArg (· ++ _) ha.pumps
  unfold Moves at h ⊢
  rw [htunes, hpumps, ← ha.stand]
  exact h

theorem moves_tick_activate (r : MigResponder) (now : Int) (tsf : UInt64)
    (h : r.st_ = .Committed) : Moves r (.tick now tsf) (r.tick_activate now tsf) := by
  unfold tick_activate
  split
  · exact .drains h
  · exact moves_nothing r rfl rfl

theorem moves_tick_committed (r : MigResponder) (now : Int) (tsf : UInt64)
    (h : r.st_ = .Committed) : Moves r (.tick now tsf) (r.tick_committed now tsf) := by
  unfold tick_committed
  split
  · exact .lapses h
  · have hidle := idle_tick_commit r now
    have h' : (r.tick_commit now).1.st_ = .Committed := (congrArg Stand.st hidle.stand).trans h
    exact hidle.andThen (moves_tick_activate _ now tsf h')

theorem moves_tick_state (r : MigResponder) (now : Int) (tsf : UInt64) :
    Moves r (.tick now tsf) (r.tick_state now tsf) := by
  unfold tick_state
  split
  · rename_i h
    exact moves_tick_committed r now tsf h
  · rename_i h
    split
    · rename_i hp
      exact .retunes (.inr ⟨now, tsf, rfl⟩) h hp.1
    · exact moves_nothing r rfl rfl
  · rename_i h
    unfold tick_verifying
    split
    · exact .expires h
    · exact moves_nothing r rfl rfl
  · exact moves_nothing r rfl rfl

theorem moves_on_tick (r : MigResponder) (now : Int) (tsf : UInt64) :
    Moves r (.tick now tsf) (r.on_tick now tsf) :=
  (idle_tick_status r now).andThen (moves_tick_state _ now tsf)

theorem moves_on_drain_done (r : MigResponder) : Moves r .drain_done r.on_drain_done := by
  unfold on_drain_done
  split
  · rename_i h
    exact .retunes (.inl rfl) h.1 h.2
  · split
    · rename_i h
      exact .hops h.1 h.2
    · exact moves_nothing r rfl rfl

theorem moves_on_probe_sample (r : MigResponder) (busy_frac : Rat) (valid : Bool) :
    Moves r (.probe_sample busy_frac valid) (r.on_probe_sample busy_frac valid) := by
  unfold on_probe_sample
  split
  · exact moves_nothing r rfl rfl
  · rename_i h
    obtain ⟨hst, hp⟩ := not_or.mp h
    exact .samples (Decidable.not_not.mp hst) (Decidable.not_not.mp hp)

theorem moves_on_switch_retune (r : MigResponder) (ok : Bool) (now : Int) (tsf : UInt64)
    (h : r.st_ = .Switching) :
    Moves r (.retune_done ok now tsf) (r.on_switch_retune ok now) := by
  unfold on_switch_retune
  split
  · rename_i hp
    cases ok with
    | true => exact .switches h hp
    | false => exact .fails h hp
  · rename_i hp
    cases ok with
    | true => exact .returns h hp
    | false => exact .rescues h hp
  · rename_i hp hp'
    refine .rest rfl fun _ => ?_
    have hst : r.stand.st = .Switching := h
    simp only [Stand.tuning, hst, Bool.or_eq_false_iff, beq_eq_false_iff_ne]
    exact ⟨hp, hp'⟩

theorem moves_on_probe_retune (r : MigResponder) (ok : Bool) (now : Int) (tsf : UInt64)
    (h : r.st_ = .Validating) :
    Moves r (.retune_done ok now tsf) (r.on_probe_retune ok now tsf) := by
  unfold on_probe_retune
  split
  · rename_i hp
    cases ok with
    | true => exact .arrives h hp
    | false => exact .misses h hp
  · rename_i hp
    cases ok with
    | false => exact .strays h hp
    | true =>
      simp only [Bool.not_true, Bool.false_eq_true, if_false, if_true]
      split
      · exact .vetoes h hp
      · exact .clears h hp
  · rename_i hp hp'
    refine .rest rfl fun _ => ?_
    have hst : r.stand.st = .Validating := h
    simp only [Stand.tuning, hst, Bool.or_eq_false_iff, beq_eq_false_iff_ne]
    exact ⟨hp, hp'⟩

theorem moves_on_retune_done (r : MigResponder) (ok : Bool) (now : Int) (tsf : UInt64) :
    Moves r (.retune_done ok now tsf) (r.on_retune_done ok now tsf) := by
  unfold on_retune_done
  split
  · rename_i h; exact moves_on_switch_retune r ok now tsf h
  · rename_i h; exact .rolled h
  · rename_i h; exact moves_on_probe_retune r ok now tsf h
  · rename_i h1 h2 h3
    refine .rest rfl fun _ => ?_
    unfold Stand.tuning
    split
    · rename_i h; exact absurd h h1
    · rename_i h; exact absurd h h2
    · rename_i h; exact absurd h h3
    · rfl

/-! ## Messages -/

/-- The stand of a settled drone: the epoch is known, and an orphaned exchange is dropped. -/
theorem stand_settled (r : MigResponder) (m : MigMsg) :
    (r.settled m).stand =
      if r.stand.changes m = true ∧ r.st_ ≠ .Stable then
        { r.stand with st := .Stable, phase := .None, peer := some m.ground_epoch }
      else { r.stand with peer := some m.ground_epoch } := by
  obtain ⟨hp, he⟩ := ReplayWindow.accept_epoch_peer r.rw_ m.ground_epoch
  rw [changes_stand]
  unfold settled
  split <;> simp [stand, fallback_channel, hp, he]

/-- Classifying a proposal moves the ceiling of the window and nothing of the stand. -/
theorem stand_asked (r : MigResponder) (m : MigMsg) : (r.asked m).stand = (r.settled m).stand := by
  have hw : ((r.settled m).rw_.classify_proposal m.generation).1.have_peer =
      (r.settled m).rw_.have_peer ∧
      ((r.settled m).rw_.classify_proposal m.generation).1.peer_epoch =
      (r.settled m).rw_.peer_epoch := by
    unfold ReplayWindow.classify_proposal
    split
    · exact ⟨rfl, rfl⟩
    · split <;> exact ⟨rfl, rfl⟩
  unfold asked stand
  simp only [hw.1, hw.2]
  rfl

/-- A fresh proposal is rejected, is committed to, or starts a probe. -/
theorem on_fresh_proposal_moves (q : MigResponder) (m : MigMsg) (now : Int) (tsf : UInt64)
    (hpeer : q.stand.peer = some m.ground_epoch) :
    (q.on_fresh_proposal m now tsf).1.stand = q.stand ∧
        tunes (q.on_fresh_proposal m now tsf).2 = [] ∧
        pumps (q.on_fresh_proposal m now tsf).2 = [] ∨
      q.st_ = .Stable ∧ m.source.same_rf q.current_ = true ∧
        tunes (q.on_fresh_proposal m now tsf).2 = [] ∧
        ((q.on_fresh_proposal m now tsf).1.stand =
            { q.stand.stashed m with st := .Committed } ∧
          pumps (q.on_fresh_proposal m now tsf).2 = [] ∨
        (q.on_fresh_proposal m now tsf).1.stand =
            { q.stand.stashed m with st := .Validating, pp := .Drain } ∧
          pumps (q.on_fresh_proposal m now tsf).2 = [false]) := by
  have hstash : ∀ q' : MigResponder,
      q'.stand = { (q.stash m).stand with st := q'.st_, pp := q'.pp_ } →
      q'.stand = { q.stand.stashed m with st := q'.st_, pp := q'.pp_ } := by
    intro q' h
    rw [h]
    unfold Stand.stashed
    rw [← hpeer]
    rfl
  unfold on_fresh_proposal
  split
  · exact .inl ⟨rfl, rfl, rfl⟩
  · rename_i h
    have hst : q.st_ = .Stable := Decidable.not_not.mp (not_or.mp h).1
    split
    · exact .inl ⟨rfl, rfl, rfl⟩
    · rename_i hs
      have hs' : m.source.same_rf q.current_ = true := by simpa using hs
      simp only
      split
      · exact .inl ⟨rfl, rfl, rfl⟩
      · right
        split
        · exact ⟨hst, hs', rfl, .inr ⟨hstash _ rfl, rfl⟩⟩
        · exact ⟨hst, hs', rfl, .inl ⟨hstash _ rfl, rfl⟩⟩

/-- A restart of the ground that does not roll finds a drone that has not left its source. -/
theorem unmoved_of_not_rolls {r : MigResponder} {m : MigMsg} (hr : r.rolls m = false)
    (hc : r.stand.changes m = true) (hst : r.st_ ≠ .Stable) : r.stand.moved = false := by
  rw [changes_stand] at hc
  show r.moved = false
  simpa [rolls, hc, hst] using hr

/-- A drone that keeps its stand declines, and one that drops its exchange orphans it. -/
theorem moves_settled {r : MigResponder} {m : MigMsg} (ht : m.type = .MT_PROPOSAL)
    (hr : r.rolls m = false) (now : Int) (tsf : UInt64) {q : MigResponder}
    (hq : q.stand = (r.settled m).stand) {acts : List MigAction} (htunes : tunes acts = [])
    (hpumps : pumps acts = []) : Moves r (.message m now tsf) (q, acts) := by
  unfold Moves
  rw [htunes, hpumps, hq, stand_settled]
  split
  · rename_i hc
    exact .orphans ht hc.1 hc.2 (unmoved_of_not_rolls hr hc.1 hc.2)
  · rename_i hc
    apply Move.declines ht
    rcases hb : r.stand.changes m with _ | _
    · exact .inl rfl
    · exact .inr (Decidable.not_not.mp fun hst => hc ⟨hb, hst⟩)

/-- A settled drone that is free for an exchange was free before, or has dropped one. -/
theorem asked_of_stable {r : MigResponder} {m : MigMsg} (hr : r.rolls m = false)
    (hst : (r.settled m).st_ = .Stable) :
    (r.st_ = .Stable ∨ r.stand.changes m = true ∧ r.stand.moved = false) ∧
      ∃ p, (r.asked m).stand =
        { r.stand with st := .Stable, phase := p, peer := some m.ground_epoch } := by
  have hst' : (r.settled m).stand.st = .Stable := hst
  rw [stand_asked]
  rw [stand_settled] at hst' ⊢
  split at hst' <;> rename_i hc
  · rw [if_pos hc]
    exact ⟨.inr ⟨hc.1, unmoved_of_not_rolls hr hc.1 hc.2⟩, _, rfl⟩
  · rw [if_neg hc]
    have hst'' : r.st_ = .Stable := hst'
    refine ⟨.inl hst'', r.stand.phase, ?_⟩
    rw [← hst'']
    rfl

/-- A drone that has been asked knows the epoch, and stays where it was. -/
theorem asked_peer (r : MigResponder) (m : MigMsg) :
    (r.asked m).stand.peer = some m.ground_epoch ∧ (r.asked m).stand.current = r.stand.current := by
  rw [stand_asked, stand_settled]
  split <;> exact ⟨rfl, rfl⟩

/-- What a proposal does to a settled drone. -/
theorem admit_generation_moves (r : MigResponder) (m : MigMsg) (now : Int) (tsf : UInt64)
    (ht : m.type = .MT_PROPOSAL) (hr : r.rolls m = false) :
    Moves r (.message m now tsf) ((r.settled m).admit_generation m now tsf) := by
  have hasked := stand_asked r m
  unfold admit_generation
  simp only
  split
  · exact moves_settled ht hr now tsf hasked rfl rfl
  · refine moves_settled ht hr now tsf hasked ?_ ?_
    · split <;> rfl
    · split <;> rfl
  · rename_i hf
    have hgen : m.generation ≠ 0 := by
      intro h0
      have hlt := (ReplayWindow.classify_fresh hf).1
      rw [h0] at hlt
      exact absurd hlt (UInt32.not_lt.mpr (UInt32.zero_le))
    obtain ⟨hpeer, hcur⟩ := asked_peer r m
    have hcur' : (r.asked m).current_ = r.current_ := hcur
    rcases on_fresh_proposal_moves (r.asked m) m now tsf hpeer with
      ⟨h1, h2, h3⟩ | ⟨hst, hs, htn, ⟨h1, hpm⟩ | ⟨h1, hpm⟩⟩
    · exact moves_settled ht hr now tsf (h1.trans hasked) h2 h3
    · obtain ⟨hwhy, p, hp⟩ := asked_of_stable hr hst
      show Move _ _ ((r.asked m).on_fresh_proposal m now tsf).1.stand
        (tunes ((r.asked m).on_fresh_proposal m now tsf).2)
        (pumps ((r.asked m).on_fresh_proposal m now tsf).2)
      rw [h1, hp, htn, hpm]
      rw [hcur'] at hs
      exact .commits ht hwhy hgen hs
    · obtain ⟨hwhy, p, hp⟩ := asked_of_stable hr hst
      show Move _ _ ((r.asked m).on_fresh_proposal m now tsf).1.stand
        (tunes ((r.asked m).on_fresh_proposal m now tsf).2)
        (pumps ((r.asked m).on_fresh_proposal m now tsf).2)
      rw [h1, hp, htn, hpm]
      rw [hcur'] at hs
      exact .probes ht hwhy hgen hs

theorem moves_on_message (r : MigResponder) (m : MigMsg) (now : Int) (tsf : UInt64) :
    Moves r (.message m now tsf) (r.on_message m now tsf) := by
  have hother : m.type ≠ .MT_PROPOSAL → (Op.message m now tsf).proposal = none := by
    intro h
    simp [Op.proposal, h]
  unfold on_message
  split
  · rename_i ht
    rcases hr : r.rolls m with _ | _
    · rw [on_proposal_eq r m now tsf hr]
      exact admit_generation_moves r m now tsf ht hr
    · have hc : r.epoch_change m = true ∧ r.st_ ≠ .Stable ∧ r.moved = true := by
        simpa [rolls, and_assoc] using hr
      obtain ⟨hp, he⟩ := ReplayWindow.accept_epoch_peer r.rw_ m.ground_epoch
      unfold on_proposal
      rw [if_pos ⟨hc.1, hc.2.1⟩]
      simp only [hc.2.2, if_true]
      have hmove : Move r.stand (.message m now tsf)
          { r.stand with st := .Rollback, phase := .None, peer := some m.ground_epoch }
          [r.stand.source] [] := .rolls ht ((changes_stand r m).trans hc.1) hc.2.1 hc.2.2
      have hpeer : some m.ground_epoch =
          if (r.rw_.accept_epoch m.ground_epoch true).1.have_peer = true then
            some (r.rw_.accept_epoch m.ground_epoch true).1.peer_epoch else none := by
        rw [if_pos hp, he]
      rw [hpeer] at hmove
      exact hmove
  · rename_i ht
    have hn := hother (by simp [ht])
    unfold on_status
    split
    · exact .rest hn (by simp [Op.isRetuneDone])
    · exact moves_nothing r hn rfl
  · rename_i ht
    unfold on_confirm
    split
    · rename_i h
      exact .confirms ht h.1
    · exact moves_nothing r (hother (by simp [ht])) rfl
  · rename_i hnp _ _
    exact moves_nothing r (hother hnp) rfl

/-- Every call makes one of the moves. -/
theorem feed_moves (r : MigResponder) (op : Op) : Moves r op (r.feed op) := by
  cases op with
  | message m now tsf => exact moves_on_message r m now tsf
  | tick now tsf => exact moves_on_tick r now tsf
  | drain_done => exact moves_on_drain_done r
  | probe_sample busy_frac valid => exact moves_on_probe_sample r busy_frac valid
  | retune_done ok now tsf => exact moves_on_retune_done r ok now tsf

end devourer.chanmig.MigResponder
