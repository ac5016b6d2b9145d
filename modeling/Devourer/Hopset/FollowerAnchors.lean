-- The slots that the follower puts states in force at. A commit waits for
-- its slot, a beacon does not, and a commit of another boot whose slot has
-- passed is joined like any other.
import Devourer.Hopset.HopsetForward
import Devourer.Hopset.HopsetLimits

namespace devourer.hopset

open HopsetAction

namespace HopsetFollower

variable {s : HopsetFollower} {m : HopsetMsg} {now : UInt64}

/-! ## What a call puts in force -/

/-- The reason of a beacon turns down the proposal in the air. -/
def denies (s : HopsetFollower) (m : HopsetMsg) : Prop :=
  m.reason ≠ HopsetReason.None.toUInt8 ∧ s.st_ = .Proposing ∧ m.rx_nonce_echo = s.prop_.rx_nonce

/-- A beacon that is taken over outright: it is the authority's, of this base, denies nothing, has
a legal mask and an anchor within the window, and is newer or of another boot. -/
structure TakesOver (s : HopsetFollower) (m : HopsetMsg) (now : UInt64) : Prop where
  role : m.role = 1
  base : m.base_fp = s.p_.base_fp
  open_question : ¬ s.denies m
  mask : m.generation ≠ 0 → mask_valid m.active_mask s.p_.n_base s.p_.min_active = true
  window : s.beyond m.activate_slot now = false
  newer : s.have_auth_ = true → m.sender_epoch = s.auth_epoch_ → s.cur_.generation < m.generation

theorem same_epoch_iff {e : UInt32} : (s.have_auth_ && e == s.auth_epoch_) = true ↔
    s.have_auth_ = true ∧ e = s.auth_epoch_ := by
  rw [Bool.and_eq_true, beq_iff_eq]

theorem activations_drop (r : HopsetReason) : activations (s.drop r).2 = [] := rfl

/-- A commit puts its state in force at once only if its slot has passed. -/
theorem activations_commit :
    activations (s.on_commit m now).2 = [] ∨
      m.activate_slot ≤ now ∧ activations (s.on_commit m now).2 = [of_commit m] := by
  unfold on_commit
  simp only
  split
  · exact .inl (activations_drop _)
  · split
    · exact .inl rfl
    · split
      · exact .inl (activations_drop _)
      · split
        · exact .inl (activations_drop _)
        · split
          · exact .inl (activations_drop _)
          · unfold arm
            simp only
            split
            · rename_i hd
              exact .inr ⟨hd, rfl⟩
            · exact .inl rfl

/-- A beacon that is taken over is put in force at once, and no other is. -/
theorem activations_status :
    (TakesOver s m now ∧ activations (s.on_status m now).2 = [s.of_status m]) ∨
      (¬ TakesOver s m now ∧ activations (s.on_status m now).2 = []) := by
  unfold on_status
  simp only
  split
  · rename_i hrole
    exact .inr ⟨fun h => hrole h.role, rfl⟩
  · rename_i hrole
    split
    · rename_i hbase
      exact .inr ⟨fun h => hbase h.base, activations_drop _⟩
    · rename_i hbase
      split
      · rename_i hdenies
        exact .inr ⟨fun h => h.open_question hdenies, rfl⟩
      · rename_i hdenies
        split
        · rename_i hmask
          exact .inr ⟨fun h => by simp [h.mask hmask.2] at hmask, activations_drop _⟩
        · rename_i hmask
          split
          · rename_i hwindow
            exact .inr ⟨fun h => by simp [h.window] at hwindow, activations_drop _⟩
          · rename_i hwindow
            split
            · rename_i hold
              refine .inr ⟨fun h => ?_, activations_drop _⟩
              obtain ⟨hauth, hepoch⟩ := same_epoch_iff.mp hold.1
              have hlt := h.newer hauth hepoch
              exact absurd hold.2 (UInt32.not_lt.mpr (UInt32.le_of_lt hlt))
            · rename_i hold
              split
              · rename_i hsame
                refine .inr ⟨fun h => ?_, ?_⟩
                · obtain ⟨hauth, hepoch⟩ := same_epoch_iff.mp hsame.1
                  have hlt := h.newer hauth hepoch
                  rw [hsame.2] at hlt
                  exact UInt32.lt_irrefl _ hlt
                · unfold resync_check
                  split <;> rfl
              · rename_i hsame
                refine .inl ⟨⟨not_not.mp hrole, not_not.mp hbase, hdenies,
                  ?_, by simpa using hwindow, ?_⟩, rfl⟩
                · intro hgen
                  by_contra hbad
                  exact hmask ⟨by simpa using hbad, hgen⟩
                · intro hauth hepoch
                  have hboth := same_epoch_iff.mpr ⟨hauth, hepoch⟩
                  have hge := UInt32.not_lt.mp fun hlt => hold ⟨hboth, hlt⟩
                  have hne : m.generation ≠ s.cur_.generation := fun heq => hsame ⟨hboth, heq⟩
                  exact UInt32.lt_of_le_of_ne hge hne.symm

theorem activations_tick_status (s : HopsetFollower) (now : UInt64) :
    activations (s.tick_status now).2 = [] := by
  unfold tick_status
  split
  · rfl
  · split <;> rfl

/-- A tick puts what is pending in force, and only once its slot has come. -/
theorem activations_tick :
    activations (s.on_tick now).2 = [] ∨
      s.pend_.activate_slot ≤ now ∧ activations (s.on_tick now).2 = [s.pend_] := by
  unfold on_tick
  split
  · rename_i hd
    exact .inr ⟨hd.2, rfl⟩
  · left
    split
    · rfl
    · split
      · exact activations_tick_status _ now
      · exact activations_tick_status s now

/-! ## The two laws -/

/-- A beacon whose anchor has not come yet is taken over. -/
def Hasty (s : HopsetFollower) (now : UInt64) : Op → Prop
  | .status m => TakesOver s m now ∧ now < m.activate_slot
  | _ => False

theorem activations_propose (mask : UInt64) (observation_count reason_bitmap nonce : UInt32) :
    activations (s.propose mask observation_count reason_bitmap nonce now).2 = [] := by
  unfold propose
  split <;> rfl

theorem activations_marker (marker_gen : UInt32) (fp_matches : Bool) (marker_slot : UInt64) :
    activations (s.on_marker marker_gen fp_matches marker_slot).2 = [] := by
  unfold on_marker
  simp only
  split
  · rfl
  · split
    · rfl
    · split <;> rfl

/-- No call puts a state in force before its slot, exactly if it is not a beacon that is taken over
before its anchor. -/
theorem no_schedule_runs_early_iff (s : HopsetFollower) (op : Op) (now : UInt64) :
    (∀ st, Activate st ∈ (s.feed op now).2 → st.activate_slot ≤ now) ↔ ¬ Hasty s now op := by
  simp only [← mem_activations]
  cases op with
  | propose mask observation_count reason_bitmap nonce =>
    simp [feed, activations_propose, Hasty]
  | commit m =>
    show (∀ st ∈ activations (s.on_commit m now).2, _) ↔ _
    refine iff_of_true ?_ id
    have hcommit : activations (s.on_commit m now).2 = [] ∨ _ := activations_commit
    rcases hcommit with h | ⟨hd, h⟩
    · simp [h]
    · rw [h]
      simpa [of_commit] using hd
  | status m =>
    show (∀ st ∈ activations (s.on_status m now).2, _) ↔ _
    have hstatus : (TakesOver s m now ∧ _) ∨ _ := activations_status
    rcases hstatus with ⟨htakes, h⟩ | ⟨hnot, h⟩
    · rw [h]
      simp only [Hasty, htakes, true_and, UInt64.not_lt]
      simp [of_status]
    · rw [h]
      refine iff_of_true (by simp) ?_
      exact fun hasty => hnot hasty.1
  | marker marker_gen fp_matches marker_slot =>
    simp [feed, activations_marker, Hasty]
  | tick =>
    show (∀ st ∈ activations (s.on_tick now).2, _) ↔ _
    refine iff_of_true ?_ id
    have htick : activations (s.on_tick now).2 = [] ∨ _ := activations_tick
    rcases htick with h | ⟨hd, h⟩
    · simp [h]
    · rw [h]
      simpa using hd

open Ledger (demoParams)

/-- A beacon of generation 1, whose anchor is 100 slots ahead. -/
def demoAhead : HopsetMsg :=
  { type := .HT_STATUS
    role := 1
    sender_epoch := 7
    generation := 1
    active_mask := 3
    activate_slot := 110 }

theorem a_beacon_is_taken_over_early :
    let s := init demoParams 9
    (s.feed (.status demoAhead) 10).1.cur_.activate_slot = 110 ∧
      ¬ ∀ st, Activate st ∈ (s.feed (.status demoAhead) 10).2 → st.activate_slot ≤ 10 := by
  intro s
  refine ⟨by decide +kernel, ?_⟩
  intro h
  have hmem : s.of_status demoAhead ∈ activations (s.feed (.status demoAhead) 10).2 := by
    decide +kernel
  exact absurd (h _ (mem_activations.mp hmem)) (by decide)

/-- What an old boot's commit would have to change to arm anything. -/
def armed (s : HopsetFollower) : HopsetState × HopsetState × UInt32 :=
  (s.cur_, s.pend_, s.auth_epoch_)

theorem arm_auth_epoch : (s.arm m now).1.auth_epoch_ = m.tx_epoch := by
  have h := congrArg Hold.auth_epoch (adopt_epoch_hold s m.tx_epoch)
  unfold arm
  simp only
  split <;> exact h

/-- A commit of another boot whose slot has passed leaves what the follower holds, exactly if it is
refused for its base, its generation or its mask, or answers a proposal that is not in the air. -/
theorem an_old_boot_arms_nothing_iff (s : HopsetFollower) (m : HopsetMsg) (now : UInt64)
    (hepoch : m.tx_epoch ≠ s.auth_epoch_) (hpast : m.activate_slot ≤ now) :
    (s.on_commit m now).1.armed = s.armed ↔ s.commit_reason m ≠ .None ∨ s.misdirected m = true := by
  have hother : ∀ p : Prop, ¬ ((s.have_auth_ && m.tx_epoch == s.auth_epoch_) = true ∧ p) :=
    fun p h => hepoch (same_epoch_iff.mp h.1).2
  have hnear : s.beyond m.activate_slot now = false := by
    unfold beyond
    simp [UInt64.not_lt.mpr hpast]
  unfold on_commit
  simp only [if_neg (hother _), hnear]
  by_cases hreason : s.commit_reason m ≠ .None
  · rw [if_pos hreason]
    exact iff_of_true rfl (.inl hreason)
  · rw [if_neg hreason]
    by_cases hmis : s.misdirected m = true
    · rw [if_pos hmis]
      exact iff_of_true rfl (.inr hmis)
    · rw [if_neg hmis]
      refine iff_of_false ?_ (not_or.mpr ⟨hreason, hmis⟩)
      intro h
      have hadopted : (s.arm m now).1.auth_epoch_ = s.auth_epoch_ := congrArg (·.2.2) h
      exact hepoch (arm_auth_epoch.symm.trans hadopted)

/-- A follower that has taken over the authority of boot 7. -/
def demoFollower : HopsetFollower :=
  ((init demoParams 9).on_status (Journal.demoBeacon 0 0) 20).1

/-- A commit that an authority of boot 3 has aired, for slot 15. -/
def demoOld (active_mask : UInt64) : HopsetMsg :=
  { type := .HT_COMMIT
    tx_epoch := 3
    generation := 5
    active_mask := active_mask
    activate_slot := 15 }

theorem an_old_commit_out_of_the_base_arms_nothing :
    (demoFollower.on_commit (demoOld 8) 20).1.armed = demoFollower.armed :=
  (an_old_boot_arms_nothing_iff demoFollower (demoOld 8) 20 (by decide +kernel) (by decide)).mpr
    (.inl (by decide +kernel))

/-- With a mask within the base the follower goes over to the old boot. -/
theorem an_old_commit_is_joined :
    demoFollower.have_auth_ = true ∧ demoFollower.auth_epoch_ = 7 ∧
      (demoFollower.on_commit (demoOld 6) 20).1.auth_epoch_ = 3 ∧
      (demoFollower.on_commit (demoOld 6) 20).1.cur_.active_mask = 6 ∧
      ¬ (demoFollower.on_commit (demoOld 6) 20).1.armed = demoFollower.armed := by
  refine ⟨by decide +kernel, by decide +kernel, by decide +kernel, by decide +kernel, ?_⟩
  intro h
  have hepoch : (demoFollower.on_commit (demoOld 6) 20).1.auth_epoch_ = demoFollower.auth_epoch_ :=
    congrArg (·.2.2) h
  exact absurd hepoch (by decide +kernel)

end HopsetFollower

end devourer.hopset
