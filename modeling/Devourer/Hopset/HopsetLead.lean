-- The lead of a commit. The authority sets its own lead, but takes any round
-- that a proposal asks for, so the slot may lie beyond what a follower
-- accepts, or wrap and lie in the past.
import Devourer.Hopset.HopsetLimits

namespace devourer.hopset

open HopsetAction HopsetAuthority Ledger

namespace HopsetAuthority

/-- The lead that the authority keeps, in rounds. -/
def lead (s : HopsetAuthority) : Nat := max s.p_.lead_rounds.toNat 8

/-- A slot that a follower accepts a commit for: after the present one, and not too far. -/
def InWindow (s : HopsetAuthority) (now slot : UInt64) : Prop :=
  now < slot ∧ slot.toNat ≤ now.toNat + s.p_.max_lead_slots.toNat

/-- The proposal asks for no later round than the authority would choose, or for one whose slot is
in the window, as the slot is counted. -/
def AsksInTime (s : HopsetAuthority) (m : HopsetMsg) (now : UInt64) : Prop :=
  s.active_count ≠ 0 ∧
    (m.earliest_activate_round.toNat ≤ (s.round_of now).toNat + s.lead ∨
      s.InWindow now (s.cur_.activate_slot + m.earliest_activate_round * s.active_count))

/-- The anchor of the rounds has passed, and a round is no longer than the base. -/
structure Anchored (c : Core) (last : UInt64) : Prop where
  begun : c.cur.activate_slot ≤ last
  base : c.active_count.toNat ≤ c.p.n_base.toNat
  pending : c.committing = true → (popcount64 c.pend.active_mask).toNat ≤ c.p.n_base.toNat

theorem anchored_move {s : HopsetAuthority} {last now : UInt64} {op : Op} {c : Core}
    {l : List HopsetState} (h : Anchored s.core last) (hnow : last ≤ now) (hm : Move s now op c l) :
    Anchored c now := by
  refine ⟨hm.begun h.begun hnow, ?_, ?_⟩
  · cases hm with
    | rest | commits => exact h.base
    | activates hc =>
      unfold Core.active_count
      split
      · exact Nat.le_refl _
      · rw [UInt32.toNat_toUInt64]
        exact h.pending hc
  · intro hc
    cases hm with
    | rest => exact h.pending hc
    | commits hop hopen =>
      obtain ⟨-, hmask, -⟩ := opens_spec hopen hop
      exact popcount64_le_base (mask_reason_none hmask).2.1
    | activates => cases hc

/-! ## The slot of a commit -/

/-- The parameters leave room for the lead in the window, and the window for the slots. -/
structure Roomy (s : HopsetAuthority) (now : UInt64) : Prop where
  lead : (s.lead + 1) * s.p_.n_base.toNat ≤ s.p_.max_lead_slots.toNat
  far : now.toNat + s.p_.max_lead_slots.toNat < 18446744073709551616

/-- The slot that the rounds of the present generation start from, and how long they are. -/
structure Timed (s : HopsetAuthority) (now : UInt64) : Prop where
  begun : s.cur_.activate_slot ≤ now
  rounds : s.active_count ≠ 0
  base : s.active_count.toNat ≤ s.p_.n_base.toNat

variable {s : HopsetAuthority} {now : UInt64}

/-- The round that the authority chooses for itself. -/
def own_round (s : HopsetAuthority) (now : UInt64) : UInt64 :=
  s.round_of now + (if s.p_.lead_rounds < 8 then 8 else s.p_.lead_rounds)

theorem act_round_eq (s : HopsetAuthority) (earliest now : UInt64) :
    s.act_round earliest now =
      if earliest > s.own_round now then earliest else s.own_round now := rfl

theorem lead_toNat (s : HopsetAuthority) :
    (if s.p_.lead_rounds < 8 then 8 else s.p_.lead_rounds).toNat = s.lead := by
  unfold lead
  split
  · rename_i h
    have hlt : s.p_.lead_rounds.toNat < 8 := UInt64.lt_iff_toNat_lt.mp h
    rw [Nat.max_eq_right (by omega)]
    rfl
  · rename_i h
    have hge : 8 ≤ s.p_.lead_rounds.toNat := UInt64.le_iff_toNat_le.mp (UInt64.not_lt.mp h)
    rw [Nat.max_eq_left hge]

theorem Timed.rounds_pos (h : Timed s now) : 0 < s.active_count.toNat := by
  rw [Nat.pos_iff_ne_zero]
  intro hzero
  exact h.rounds (UInt64.toNat_inj.mp hzero)

/-- The present round has begun and has not ended. -/
theorem Timed.present (h : Timed s now) :
    s.cur_.activate_slot.toNat + (s.round_of now).toNat * s.active_count.toNat ≤ now.toNat ∧
      now.toNat < s.cur_.activate_slot.toNat +
        ((s.round_of now).toNat + 1) * s.active_count.toNat := by
  have hbegun := UInt64.le_iff_toNat_le.mp h.begun
  have hround : (s.round_of now).toNat =
      (now.toNat - s.cur_.activate_slot.toNat) / s.active_count.toNat :=
    s.core.round_of_toNat h.begun
  have hsplit := Nat.div_add_mod (now.toNat - s.cur_.activate_slot.toNat) s.active_count.toNat
  have hmod := Nat.mod_lt (now.toNat - s.cur_.activate_slot.toNat) h.rounds_pos
  rw [← hround, Nat.mul_comm] at hsplit
  rw [Nat.add_mul, Nat.one_mul]
  omega

/-- The authority's own lead fits in the window. -/
theorem Roomy.lead_slots (hr : Roomy s now) (h : Timed s now) :
    s.lead * s.active_count.toNat ≤ s.p_.max_lead_slots.toNat ∧
      s.lead ≤ s.p_.max_lead_slots.toNat := by
  have hroom := hr.lead
  have hpos := h.rounds_pos
  have hbase := h.base
  constructor
  · calc s.lead * s.active_count.toNat
        ≤ (s.lead + 1) * s.p_.n_base.toNat := Nat.mul_le_mul (by omega) hbase
      _ ≤ s.p_.max_lead_slots.toNat := hroom
  · calc s.lead ≤ s.lead + 1 := by omega
      _ = (s.lead + 1) * 1 := (Nat.mul_one _).symm
      _ ≤ (s.lead + 1) * s.p_.n_base.toNat := Nat.mul_le_mul_left _ (by omega)
      _ ≤ s.p_.max_lead_slots.toNat := hroom

theorem own_round_toNat (hr : Roomy s now) (h : Timed s now) :
    (s.own_round now).toNat = (s.round_of now).toNat + s.lead := by
  have hlead := (hr.lead_slots h).2
  have hpresent := h.present.1
  have hle : (s.round_of now).toNat ≤ now.toNat := by
    have hmul := Nat.le_mul_of_pos_right (s.round_of now).toNat h.rounds_pos
    omega
  have hfar := hr.far
  rw [own_round, UInt64.toNat_add, lead_toNat]
  exact Nat.mod_eq_of_lt (by omega)

/-- A commit at the authority's own lead is in the window. -/
theorem own_lead_in_window (hr : Roomy s now) (h : Timed s now) :
    s.InWindow now (s.cur_.activate_slot + s.own_round now * s.active_count) := by
  obtain ⟨hpast, hnext⟩ := h.present
  obtain ⟨hslots, -⟩ := hr.lead_slots h
  have hfar := hr.far
  have hlead : 8 ≤ s.lead := Nat.le_max_right _ _
  have hpos := h.rounds_pos
  have hone : 1 * s.active_count.toNat ≤ s.lead * s.active_count.toNat :=
    Nat.mul_le_mul_right _ (by omega)
  have hslot : (s.cur_.activate_slot + s.own_round now * s.active_count).toNat =
      s.cur_.activate_slot.toNat + (s.round_of now).toNat * s.active_count.toNat +
        s.lead * s.active_count.toNat := by
    rw [UInt64.toNat_add, UInt64.toNat_mul, own_round_toNat hr h, Nat.add_mul,
      Nat.mod_eq_of_lt (a := _ + _) (by omega), Nat.mod_eq_of_lt (by omega), Nat.add_assoc]
  rw [Nat.add_mul] at hnext
  constructor
  · rw [UInt64.lt_iff_toNat_lt, hslot]
    omega
  · rw [hslot]
    omega

/-- The slot of a commit is in the window exactly if the proposal asks in time. -/
theorem next_in_window_iff (hr : Roomy s now) (hbegun : s.cur_.activate_slot ≤ now)
    (hbase : s.active_count.toNat ≤ s.p_.n_base.toNat) (m : HopsetMsg) :
    s.InWindow now (s.next m.active_mask m.earliest_activate_round now).activate_slot ↔
      s.AsksInTime m now := by
  by_cases hk : s.active_count = 0
  · -- a commit in rounds of no slots is for the anchor itself
    constructor
    · intro hw
      have hlt := hw.1
      simp only [next, hk, UInt64.mul_zero, UInt64.add_zero] at hlt
      exact absurd hlt (UInt64.not_lt.mpr hbegun)
    · intro ha
      exact absurd hk ha.1
  · have h : Timed s now := ⟨hbegun, hk, hbase⟩
    have hown := own_round_toNat hr h
    unfold AsksInTime next
    simp only [act_round_eq]
    by_cases hlate : m.earliest_activate_round > s.own_round now
    · have hlate' := UInt64.lt_iff_toNat_lt.mp hlate
      rw [if_pos hlate]
      constructor
      · intro hw
        exact ⟨hk, .inr hw⟩
      · rintro ⟨-, hle | hw⟩
        · omega
        · exact hw
    · have hearly := UInt64.le_iff_toNat_le.mp (UInt64.not_lt.mp hlate)
      rw [if_neg hlate]
      constructor
      · intro _
        exact ⟨hk, .inl (by omega)⟩
      · intro _
        exact own_lead_in_window hr h

end HopsetAuthority

namespace Ledger

theorem anchored_run (params : HopsetParams) (epoch : UInt32) (is : List (Op × UInt64))
    (hslots : Runs.Along step Onward (fresh params epoch) is) :
    Anchored (run (fresh params epoch) is).authority.core (run (fresh params epoch) is).last := by
  have h0 : Anchored (fresh params epoch).authority.core (fresh params epoch).last :=
    ⟨UInt64.le_refl _, Nat.le_refl _, fun hc => by cases hc⟩
  exact Runs.after_keeps_along (P := fun w => Anchored w.authority.core w.last) step _ h0
    (fun w i hi h => anchored_move h hi (feed_moves w.authority i.1 i.2).move) is hslots

/-- The proposal starts a commit. -/
def Accepts (w : Ledger) (m : HopsetMsg) (now : UInt64) : Prop :=
  w.authority.committing_ = false ∧ (w.authority.on_proposal m now).1.committing_ = true

/-- An accepted proposal is committed as it asks. -/
theorem pend_of_accepts {w : Ledger} {m : HopsetMsg} {now : UInt64} (h : Accepts w m now) :
    (w.authority.on_proposal m now).1.pend_ =
      w.authority.next m.active_mask m.earliest_activate_round now := by
  have hm := (feed_moves w.authority (.proposal m) now).move
  obtain ⟨hbefore, hafter⟩ := h
  have hafter' : (w.authority.feed (.proposal m) now).1.core.committing = true := hafter
  show (w.authority.feed (.proposal m) now).1.core.pend = _
  generalize (w.authority.feed (.proposal m) now).1.core = c at hm hafter' ⊢
  generalize activations (w.authority.feed (.proposal m) now).2 = l at hm
  cases hm with
  | rest => exact absurd (hbefore.symm.trans hafter') (by simp)
  | commits hop =>
    obtain ⟨rfl, rfl⟩ := Prod.mk.inj (Option.some.inj hop)
    rfl

/-- The commit for an accepted proposal is one that a follower accepts exactly if the proposal
asks in time. -/
theorem a_commit_is_acceptable_iff (params : HopsetParams) (epoch : UInt32)
    (is : List (Op × UInt64)) (hslots : Runs.Along step Onward (fresh params epoch) is)
    (m : HopsetMsg) (now : UInt64) (hnow : (run (fresh params epoch) is).last ≤ now)
    (hroom : Roomy (run (fresh params epoch) is).authority now)
    (haccepts : Accepts (run (fresh params epoch) is) m now) :
    let s := (run (fresh params epoch) is).authority
    s.InWindow now (s.on_proposal m now).1.pend_.activate_slot ↔ s.AsksInTime m now := by
  intro s
  have hanchored := anchored_run params epoch is hslots
  rw [pend_of_accepts haccepts]
  exact next_in_window_iff hroom (UInt64.le_trans hanchored.begun hnow) hanchored.base m

/-- A proposal without the third channel of three. -/
def demoAsk (earliest : UInt64) : HopsetMsg :=
  { active_mask := 3, rx_nonce := 1, earliest_activate_round := earliest }

/-- The third channel is asked back for round 60 of the generation that took it out at slot 33, of
two slots a round. -/
def ask_back : HopsetMsg := { active_mask := 7, rx_nonce := 2, earliest_activate_round := 60 }

/-- A commit for the round that was asked for. -/
theorem a_commit_for_the_round_asked_for :
    ((run (fresh demoParams 7) demoChange).authority.on_proposal ask_back
          100).1.pend_.activate_slot = 153 ∧
      (run (fresh demoParams 7) demoChange).authority.InWindow 100
        ((run (fresh demoParams 7) demoChange).authority.on_proposal ask_back
          100).1.pend_.activate_slot := by
  have haccepts : Accepts (run (fresh demoParams 7) demoChange) ask_back 100 :=
    ⟨by decide +kernel, by decide +kernel⟩
  have hroom : Roomy (run (fresh demoParams 7) demoChange).authority 100 :=
    ⟨by decide +kernel, by decide +kernel⟩
  have hiff := a_commit_is_acceptable_iff demoParams 7 demoChange onward_demoChange ask_back 100
    (by decide +kernel) hroom haccepts
  refine ⟨by decide +kernel, hiff.mpr ⟨by decide +kernel, .inr ?_⟩⟩
  unfold InWindow
  decide +kernel

/-- The proposal for round 1000000 is committed for slot 3000000, and one for a round whose slot
wraps for slot 2, which has passed. -/
theorem a_proposal_names_any_slot :
    let s := (fresh demoParams 7).authority
    Accepts (fresh demoParams 7) (demoAsk 1000000) 10 ∧
      Accepts (fresh demoParams 7) (demoAsk 0x5555555555555556) 10 ∧
      (s.on_proposal (demoAsk 1000000) 10).1.pend_.activate_slot = 3000000 ∧
      (s.on_proposal (demoAsk 0x5555555555555556) 10).1.pend_.activate_slot = 2 ∧
      ¬ s.InWindow 10 (s.on_proposal (demoAsk 1000000) 10).1.pend_.activate_slot ∧
      ¬ s.InWindow 10 (s.on_proposal (demoAsk 0x5555555555555556) 10).1.pend_.activate_slot := by
  intro s
  have hfar : (s.on_proposal (demoAsk 1000000) 10).1.pend_.activate_slot = 3000000 := by
    decide +kernel
  have hpast : (s.on_proposal (demoAsk 0x5555555555555556) 10).1.pend_.activate_slot = 2 := by
    decide +kernel
  refine ⟨⟨rfl, by decide +kernel⟩, ⟨rfl, by decide +kernel⟩, hfar, hpast, ?_, ?_⟩
  · intro hw
    rw [hfar] at hw
    exact absurd hw.2 (by decide)
  · intro hw
    rw [hpast] at hw
    exact absurd hw.1 (by decide)

end Ledger

end devourer.hopset
