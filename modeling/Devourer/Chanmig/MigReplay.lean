-- A proposal that the drone has heard before. In its own epoch it does
-- nothing; in another epoch the drone takes it for a restart of the ground.
import Devourer.Chanmig.DroneMoves
import Devourer.Chanmig.MigActivation

namespace devourer.chanmig.MigResponder

open MigAction

/-- The states from which a replay must not take the drone. -/
def underway (r : MigResponder) : Prop :=
  r.st_ = .Committed ∨ r.st_ = .Switching ∨ r.st_ = .Verifying

/-- The drone is not told to retune, and an exchange that is under way goes on. -/
structure Undisturbed (r : MigResponder) (t : MigResponder × List MigAction) : Prop where
  still : ∀ c, RetuneTo c ∉ t.2
  kept : r.underway →
    t.1.st_ = r.st_ ∧ t.1.gen_ = r.gen_ ∧ t.1.ground_epoch_ = r.ground_epoch_

/-- An exchange in hand is one of the epoch that the drone knows. -/
def Stand.Tied (v : Stand) : Prop := v.engaged → v.peer = some v.ground_epoch

theorem tied_move {v v' : Stand} {op : Op} {cs : List ChannelDef} {bs : List Bool}
    (h : v.Tied) (hm : Move v op v' cs bs) : v'.Tied := by
  intro hv
  cases hm with
  | rest => exact h hv
  | lapses | returns | rescues | rolled | strays | vetoes | confirms | orphans =>
    exfalso; simp [Stand.engaged] at hv
  | expires | rolls => exfalso; simp [Stand.engaged] at hv
  | drains hst => exact h (.inr (.inl hst))
  | retunes _ hst => exact h (.inr (.inr (.inl hst)))
  | hops hst | samples hst | arrives hst | misses hst => exact h (.inl hst)
  | clears hst => exact h (.inl hst)
  | switches hst | fails hst => exact h (.inr (.inr (.inl hst)))
  | commits | probes => rfl
  | declines _ hd =>
    -- an exchange in hand knows its epoch, and the proposal is of no other
    have hpeer := h hv
    rcases hd with hd | hd
    · simp only [Stand.changes, hpeer, Option.isSome_some, Bool.true_and, bne_eq_false_iff_eq] at hd
      exact hd.symm
    · exfalso
      simp [Stand.engaged, hd] at hv

theorem tied_run (params : MigParams) (link_id drone_epoch : UInt32) (current : ChannelDef)
    (caps : MigCaps) (ops : List Op) :
    (run (init params link_id drone_epoch current caps) ops).stand.Tied := by
  refine Runs.after_keeps (P := fun r => r.stand.Tied) step _ ?_ ?_ ops
  · intro hv
    simp [Stand.engaged, stand, init] at hv
  · intro r op h
    exact tied_move h (feed_moves r op)

/-- The proposals that a run delivers. -/
def proposals (ops : List Op) : List MigMsg := ops.filterMap Op.proposal

theorem type_of_mem_proposals {m : MigMsg} {ops : List Op} (h : m ∈ proposals ops) :
    m.type = .MT_PROPOSAL := by
  obtain ⟨op, -, hop⟩ := List.mem_filterMap.mp h
  cases op with
  | message m' now tsf =>
    simp only [Op.proposal] at hop
    split at hop
    · rename_i ht
      cases hop
      exact ht
    · cases hop
  | _ => cases hop

/-- What leaves the stand of an exchange under way leaves the drone undisturbed. -/
theorem undisturbed_of_stand {r : MigResponder} {t : MigResponder × List MigAction}
    (htunes : tunes t.2 = []) (hstand : r.underway → t.1.stand.st = r.stand.st ∧
      t.1.stand.gen = r.stand.gen ∧ t.1.stand.ground_epoch = r.stand.ground_epoch) :
    Undisturbed r t := by
  refine ⟨?_, hstand⟩
  intro c hc
  have hmem := mem_tunes.mpr hc
  rw [htunes] at hmem
  cases hmem

/-- A proposal that the drone takes on in place of another is not of the same epoch. -/
theorem disturbed_of_stashed {r : MigResponder} {m : MigMsg} {t : MigResponder × List MigAction}
    (htied : r.stand.Tied) (he : r.stand.changes m = true) (hu : r.underway)
    (ht : t.1.ground_epoch_ = m.ground_epoch) : ¬ Undisturbed r t := by
  intro h
  have hpeer := htied (.inr hu)
  have hsame : m.ground_epoch = r.ground_epoch_ := ht.symm.trans (h.kept hu).2.2
  simp only [Stand.changes, hpeer, Option.isSome_some, Bool.true_and, bne_iff_ne, ne_eq] at he
  exact he (congrArg some hsame.symm)

theorem not_underway_of_stable {r : MigResponder} (h : r.st_ = .Stable) : ¬ r.underway := by
  intro hu
  simp [underway, h] at hu

/-- A drone that is free, or has not left its source, does not roll. -/
theorem not_rolls {r : MigResponder} {m : MigMsg}
    (h : r.st_ = .Stable ∨ r.stand.changes m = true ∧ r.stand.moved = false) :
    r.rolls m = false := by
  rcases h with h | h
  · simp [rolls, h]
  · have hm : r.moved = false := h.2
    simp [rolls, hm]

/-- A proposal disturbs the drone exactly if it is of another epoch than the known one, and
finds an exchange under way or the drone off its source. -/
theorem undisturbed_iff {r : MigResponder} (htied : r.stand.Tied) {m : MigMsg}
    (ht : m.type = .MT_PROPOSAL) (now : Int) (tsf : UInt64) :
    Undisturbed r (r.on_message m now tsf) ↔
      r.rolls m = false ∧ (r.epoch_change m = true → ¬ r.underway) := by
  have hmove := moves_on_message r m now tsf
  generalize r.on_message m now tsf = t at hmove
  obtain ⟨q, acts⟩ := t
  replace hmove : Move r.stand (.message m now tsf) q.stand (tunes acts) (pumps acts) := hmove
  rw [← changes_stand]
  generalize hv : q.stand = v at hmove
  generalize hcs : tunes acts = cs at hmove
  generalize pumps acts = bs at hmove
  have hst : q.st_ = v.st := congrArg Stand.st hv
  have hge : q.ground_epoch_ = v.ground_epoch := congrArg Stand.ground_epoch hv
  -- a proposal makes one of five moves
  cases hmove with
  | rest h => simp [Op.proposal, ht] at h
  | retunes hop => rcases hop with hop | ⟨_, _, hop⟩ <;> cases hop
  | confirms ht' => exact absurd (ht.symm.trans ht') (by simp)
  | declines _ hd =>
    have hroll : r.rolls m = false := by
      rcases hd with hd | hd
      · rw [changes_stand] at hd
        simp [rolls, hd]
      · exact not_rolls (.inl hd)
    constructor
    · intro _
      refine ⟨hroll, fun hc hu => ?_⟩
      rcases hd with hd | hd
      · exact absurd (hc.symm.trans hd) (by simp)
      · exact not_underway_of_stable hd hu
    · intro _
      refine undisturbed_of_stand hcs fun _ => ?_
      rw [hv]
      exact ⟨rfl, rfl, rfl⟩
  | orphans _ he h hm =>
    constructor
    · intro hund
      refine ⟨not_rolls (.inr ⟨he, hm⟩), fun _ hu => ?_⟩
      exact h ((hund.kept hu).1.symm.trans hst)
    · intro hcond
      exact undisturbed_of_stand hcs fun hu => absurd hu (hcond.2 he)
  | rolls _ he h hm =>
    have hroll : r.rolls m = true := by
      rw [changes_stand] at he
      have hm' : r.moved = true := hm
      have h' : r.st_ ≠ .Stable := h
      simp [rolls, he, h', hm']
    constructor
    · intro hund
      have hmem : r.commit_source_ ∈ tunes acts := by
        rw [hcs]
        exact List.mem_singleton_self _
      exact absurd (mem_tunes.mp hmem) (hund.still _)
    · intro hcond
      exact absurd (hroll.symm.trans hcond.1) (by simp)
  | commits _ h | probes _ h =>
    constructor
    · intro hund
      exact ⟨not_rolls h, fun he hu => disturbed_of_stashed htied he hu hge hund⟩
    · intro hcond
      refine undisturbed_of_stand hcs fun hu => ?_
      rcases h with h | h
      · exact absurd hu (not_underway_of_stable h)
      · exact absurd hu (hcond.2 h.1)

/-- A proposal that the drone has heard before moves it exactly if the drone has come to know
another epoch since, and either has an exchange under way or has left its source. -/
theorem a_replay_is_idle_in_its_epoch (params : MigParams) (link_id drone_epoch : UInt32)
    (current : ChannelDef) (caps : MigCaps) (ops : List Op) (m : MigMsg) (hm : m ∈ proposals ops)
    (now : Int) (now_tsf : UInt64) :
    let r := run (init params link_id drone_epoch current caps) ops
    Undisturbed r (r.on_message m now now_tsf) ↔
      r.rolls m = false ∧ (r.epoch_change m = true → ¬ r.underway) := by
  intro r
  exact undisturbed_iff (tied_run params link_id drone_epoch current caps ops)
    (type_of_mem_proposals hm) now now_tsf

/-- Generation 1 of a ground process. -/
def demoProposal (ground_epoch : UInt32) (target : ChannelDef) : MigMsg :=
  { type := .MT_PROPOSAL
    ground_epoch := ground_epoch
    generation := 1
    source := Link.channel5 36
    target := target
    rescue := Link.channel5 44 }

/-- The ack of generation 1. -/
def demoAck (ground_epoch : UInt32) : MigMsg :=
  { type := .MT_STATUS
    sender_epoch := ground_epoch
    generation := 1
    peer_nonce_echo := mig_mix_nonce 0x22220001 1 0xD2 }

/-- The drone moves to channel 48 for one ground process, after it has heard the proposal of
another. -/
def demoMoved : List Op :=
  [ .message (demoProposal 0x11110001 (Link.channel5 40)) 102 1102000,
    .message (demoProposal 0x33330001 (Link.channel5 48)) 132 1132000,
    .message (demoAck 0x33330001) 136 1136000,
    .tick 620 1620000,
    .drain_done,
    .retune_done true 630 1630000 ]

def demoDrone : MigResponder := init {} 0xC1 0x22220001 (Link.channel5 36) {}

/-- The proposal that started the move is heard again, and the drone verifies on. -/
theorem a_replay_in_the_known_epoch :
    let r := run demoDrone demoMoved
    r.st_ = .Verifying ∧
      Undisturbed r (r.on_message (demoProposal 0x33330001 (Link.channel5 48)) 640 1640000) := by
  intro r
  have hst : r.st_ = .Verifying := by decide +kernel
  have hmem : demoProposal 0x33330001 (Link.channel5 48) ∈ proposals demoMoved := by
    simp [proposals, demoMoved, Op.proposal, demoProposal]
  have h := (a_replay_is_idle_in_its_epoch {} 0xC1 0x22220001 (Link.channel5 36) {} demoMoved _ hmem
    640 1640000).mpr ⟨by decide +kernel, fun he => absurd he (by decide +kernel)⟩
  exact ⟨hst, h⟩

/-- The proposal of the process before it is heard again, and turns the drone back. -/
theorem an_old_proposal_turns_the_drone_back :
    let r := run demoDrone demoMoved
    let t := r.on_message (demoProposal 0x11110001 (Link.channel5 40)) 640 1640000
    demoProposal 0x11110001 (Link.channel5 40) ∈ proposals demoMoved ∧ r.st_ = .Verifying ∧
      t.1.st_ = .Rollback ∧ RetuneTo (Link.channel5 36) ∈ t.2 ∧ ¬ Undisturbed r t := by
  intro r t
  have hmem : demoProposal 0x11110001 (Link.channel5 40) ∈ proposals demoMoved := by
    simp [proposals, demoMoved, Op.proposal, demoProposal]
  have hst : r.st_ = .Verifying := by decide +kernel
  have hback : t.1.st_ = .Rollback := by decide +kernel
  have htunes : tunes t.2 = [Link.channel5 36] := by decide +kernel
  have hretune : RetuneTo (Link.channel5 36) ∈ t.2 := by
    apply mem_tunes.mp
    rw [htunes]
    exact List.mem_singleton_self _
  exact ⟨hmem, hst, hback, hretune, fun h => h.still _ hretune⟩

end devourer.chanmig.MigResponder
