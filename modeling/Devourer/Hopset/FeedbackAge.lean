-- How old the authority takes its last feedback to be. The age is counted
-- in rounds of the generation in force, from a round of the generation
-- that the peer was heard in, and an activation starts the rounds again.
import Devourer.Hopset.HopsetLimits

namespace devourer.hopset

open HopsetAction HopsetAuthority

namespace HopsetAuthority

/-- The calls that note the peer as alive. -/
def Op.hears : Op → Bool
  | .proposal _ => true
  | .feedback => true
  | _ => false

/-- The full rounds since the generation in force took force. -/
def rounds_in_force (s : HopsetAuthority) (now : UInt64) : Nat :=
  (now.toNat - s.cur_.activate_slot.toNat) / s.active_count.toNat

end HopsetAuthority

/-- The authority and the slot of its last call; the authority and the slot that the peer was last
heard in; whether a generation has taken force since, and the greatest age that a call has found
since. -/
structure Watch where
  authority : HopsetAuthority
  last : UInt64 := 0
  heard : Option (HopsetAuthority × UInt64) := none
  activated : Bool := false
  peak : UInt64 := 0

namespace Watch

def step (w : Watch) (i : Op × UInt64) : Watch :=
  let t := w.authority.feed i.1 i.2
  { authority := t.1
    last := i.2
    heard := if i.1.hears then some (w.authority, i.2) else w.heard
    activated := !i.1.hears && (w.activated || !(activations t.2).isEmpty)
    peak := if i.1.hears then 0 else max w.peak (w.authority.feedback_age_rounds i.2) }

def run (w : Watch) (is : List (Op × UInt64)) : Watch := Runs.after step w is

def fresh (params : HopsetParams) (epoch : UInt32) : Watch := { authority := .init params epoch }

/-- The slots do not go back. -/
def Onward (w : Watch) (i : Op × UInt64) : Prop := w.last ≤ i.2

/-- Silence is measured across the activation: the age is no less than the rounds in force, and a
peer that was once silent for more than `n` rounds is so again after `n + 1` rounds in force. -/
structure Measured (w : Watch) (now : UInt64) : Prop where
  rounds : w.authority.rounds_in_force now ≤ (w.authority.feedback_age_rounds now).toNat
  again : ∀ n, n < w.peak.toNat → n + 1 ≤ w.authority.rounds_in_force now →
    n < (w.authority.feedback_age_rounds now).toNat

/-! ## What a call leaves of the feedback -/

/-- What the age is made of. -/
def noted (s : HopsetAuthority) : Bool × UInt64 := (s.have_feedback_, s.last_feedback_round_)

theorem noted_judge (s : HopsetAuthority) (m : HopsetMsg) (now : UInt64) :
    noted (s.judge m now).1 = noted s := by
  unfold judge
  split
  · rfl
  · split
    · split <;> rfl
    · split <;> rfl

theorem noted_local_change (s : HopsetAuthority) (mask now : UInt64) (reason_bitmap : UInt32) :
    noted (s.start_local_change mask now reason_bitmap).1 = noted s := by
  unfold start_local_change
  split
  · rfl
  · split <;> rfl

theorem noted_change (s : HopsetAuthority) (mask now : UInt64) :
    noted (s.start_change mask now).1 = noted s := by
  unfold start_change
  split
  · rfl
  · split <;> rfl

theorem noted_tick (s : HopsetAuthority) (now : UInt64) : noted (s.on_tick now).1 = noted s := by
  have hstatus : ∀ s : HopsetAuthority, noted (s.tick_status now).1 = noted s := by
    intro s
    unfold tick_status
    split <;> rfl
  show noted ((s.tick_commit now).1.tick_status now).1 = _
  rw [hstatus]
  unfold tick_commit
  split
  · split
    · rfl
    · split <;> rfl
  · rfl

/-- A call that hears the peer notes the round of its slot, and no other call notes anything. -/
theorem noted_feed (s : HopsetAuthority) (op : Op) (now : UInt64) :
    noted (s.feed op now).1 = if op.hears then (true, s.round_of now) else noted s := by
  cases op with
  | proposal m => exact noted_judge _ m now
  | local_change mask reason_bitmap => exact noted_local_change s mask now reason_bitmap
  | change mask => exact noted_change s mask now
  | reject_proposal m reason => rfl
  | feedback => rfl
  | tick => exact noted_tick s now

/-! ## Runs -/

/-- What the age is made of is what was noted when the peer was last heard. -/
structure Tracks (w : Watch) : Prop where
  heard : ∀ a t, w.heard = some (a, t) → noted w.authority = (true, a.round_of t)
  begun : w.authority.cur_.activate_slot ≤ w.last

theorem tracks_step (w : Watch) (i : Op × UInt64) (hi : Onward w i) (h : Tracks w) :
    Tracks (step w i) := by
  constructor
  · intro a t hat
    show noted (w.authority.feed i.1 i.2).1 = _
    rw [noted_feed]
    by_cases hhears : i.1.hears
    · have hat : some (w.authority, i.2) = some (a, t) := by
        simpa only [step, if_pos hhears] using hat
      cases hat
      exact if_pos hhears
    · have hat : w.heard = some (a, t) := by simpa only [step, if_neg hhears] using hat
      rw [if_neg hhears]
      exact h.heard a t hat
  · exact (feed_moves w.authority i.1 i.2).move.begun h.begun hi

theorem tracks_run (params : HopsetParams) (epoch : UInt32) (is : List (Op × UInt64))
    (hslots : Runs.Along step Onward (fresh params epoch) is) :
    Tracks (run (fresh params epoch) is) := by
  have h0 : Tracks (fresh params epoch) := by
    constructor
    · intro a t hat
      cases hat
    · exact UInt64.le_refl _
  exact Runs.after_keeps_along step _ h0 tracks_step is hslots

theorem rounds_in_force_eq (s : HopsetAuthority) {now : UInt64} (h : s.cur_.activate_slot ≤ now) :
    (s.round_of now).toNat = s.rounds_in_force now := s.core.round_of_toNat h

/-- The age, as a number, once the peer has been heard. -/
theorem age_toNat {s : HopsetAuthority} {l : UInt64} (hn : noted s = (true, l)) {now : UInt64}
    (h : s.cur_.activate_slot ≤ now) :
    (s.feedback_age_rounds now).toNat = s.rounds_in_force now - l.toNat := by
  obtain ⟨hhave, hlast⟩ := Prod.mk.inj hn
  unfold feedback_age_rounds
  rw [hhave, hlast, ← rounds_in_force_eq s h]
  simp only [Bool.not_true, Bool.false_eq_true, if_false]
  split
  · rename_i hlt
    exact UInt64.toNat_sub_of_le _ _ (UInt64.le_of_lt hlt)
  · rename_i hle
    have := UInt64.le_iff_toNat_le.mp (UInt64.not_lt.mp hle)
    rw [Nat.sub_eq_zero_of_le this]
    rfl

/-- If a generation has taken force since the peer was last heard, silence is measured across that
activation exactly if the peer was heard in round 0 of the generation of that time, or no full
round of the generation in force has passed. -/
theorem silence_is_measured_iff (params : HopsetParams) (epoch : UInt32)
    (is : List (Op × UInt64)) (hslots : Runs.Along step Onward (fresh params epoch) is)
    (now : UInt64) (hnow : (run (fresh params epoch) is).last ≤ now) :
    let w := run (fresh params epoch) is
    (w.heard.isSome → w.activated = true → Measured w now) ↔
      ∀ a t, w.heard = some (a, t) → w.activated = true →
        a.round_of t = 0 ∨ w.authority.rounds_in_force now = 0 := by
  intro w
  have htracks : Tracks w := tracks_run params epoch is hslots
  have hbegun := UInt64.le_trans htracks.begun hnow
  constructor
  · intro h a t hheard hafter
    have hage := age_toNat (htracks.heard a t hheard) hbegun
    have hrounds := (h (by rw [hheard]; rfl) hafter).rounds
    by_contra hno
    obtain ⟨hround, hforce⟩ := not_or.mp hno
    have hpos : 0 < (a.round_of t).toNat :=
      Nat.pos_of_ne_zero fun h0 => hround (UInt64.toNat_inj.mp h0)
    omega
  · intro h hsome hafter
    obtain ⟨⟨a, t⟩, hheard⟩ := Option.isSome_iff_exists.mp hsome
    have hage := age_toNat (htracks.heard a t hheard) hbegun
    rcases h a t hheard hafter with hround | hforce
    · have hzero : (a.round_of t).toNat = 0 := by rw [hround]; rfl
      refine ⟨by omega, ?_⟩
      intro n _ hn
      omega
    · refine ⟨by omega, ?_⟩
      intro n _ hn
      omega

open Ledger (demoParams)

/-- The peer is heard in the first round, and the transmitter takes a channel out later. -/
def demoEarly : List (Op × UInt64) :=
  [(.feedback, 2), (.local_change 3 0, 3000), (.tick, 3030)]

theorem silence_after_an_early_word :
    let w := run (fresh demoParams 7) demoEarly
    w.authority.rounds_in_force 3424 = 200 ∧ Measured w 3424 := by
  intro w
  have hslots : Runs.Along step Onward (fresh demoParams 7) demoEarly :=
    ⟨show (0 : UInt64) ≤ 2 by decide, show (2 : UInt64) ≤ 3000 by decide,
      show (3000 : UInt64) ≤ 3030 by decide, trivial⟩
  have hrounds : w.authority.rounds_in_force 3424 = 200 := by decide +kernel
  refine ⟨hrounds, ?_⟩
  refine (silence_is_measured_iff demoParams 7 demoEarly hslots 3424
    (show (3030 : UInt64) ≤ 3424 by decide)).mpr ?_ (by decide +kernel) (by decide +kernel)
  intro a t hheard _
  left
  cases hheard
  decide +kernel

/-- The peer is heard in round 1000. 9000 rounds later, when it has been silent for long, the
transmitter takes a channel out by itself. -/
def demoLate : List (Op × UInt64) :=
  [(.feedback, 3000), (.tick, 30000), (.local_change 3 0, 30001), (.tick, 30036)]

/-- 1000 rounds after that the age is still 0, so no timeout finds the peer silent. -/
theorem silence_is_forgotten :
    let w := run (fresh demoParams 7) demoLate
    w.peak = 9012 ∧ w.activated = true ∧ w.authority.rounds_in_force 32024 = 1000 ∧
      w.authority.feedback_age_rounds 32024 = 0 ∧
      ¬ (w.heard.isSome → w.activated = true → Measured w 32024) := by
  intro w
  have hrounds : w.authority.rounds_in_force 32024 = 1000 := by decide +kernel
  have hage : w.authority.feedback_age_rounds 32024 = 0 := by decide +kernel
  have hafter : w.activated = true := by decide +kernel
  refine ⟨by decide +kernel, hafter, hrounds, hage, ?_⟩
  intro h
  have hle := (h (by decide +kernel) hafter).rounds
  rw [hrounds, hage] at hle
  exact absurd hle (by decide)

end Watch

end devourer.hopset
