-- When the ground retunes for a commit: the distance of its activation from
-- its stamp, added to the ground's own clock.
import Devourer.Chanmig.MigActivation
import Mathlib.Algebra.Group.Int.Defs
import Mathlib.Algebra.Group.Nat.Defs

namespace devourer.chanmig.MigProposer

/-! ## The unsigned distance -/

theorem sub_of_le {a t : UInt64} (h : t ≤ a) : (a - t).toNat = a.toNat - t.toNat :=
  UInt64.toNat_sub_of_le a t h

/-- A distance to the past wraps, and is far above every distance to the future. -/
theorem sub_of_lt {a t : UInt64} (ha : a.toNat < 2 ^ 63) (ht : t.toNat < 2 ^ 63) (h : a < t) :
    2 ^ 63 < (a - t).toNat := by
  have hlt : a.toNat < t.toNat := UInt64.lt_iff_toNat_lt.mp h
  have hsub : (a - t).toNat = (2 ^ 64 - t.toNat + a.toNat) % 2 ^ 64 := UInt64.toNat_sub a t
  omega

variable {s : MigProposer} {m : MigMsg}

/-! ## What a commit schedules -/

/-- The ack and the retune that follow at once leave the schedule as it is. -/
theorem tick_committed_schedule (s : MigProposer) (now : Int) :
    (s.tick_committed now).1.activate_local_ms_ = s.activate_local_ms_ ∧
      (s.tick_committed now).1.retune_at_ms_ = s.retune_at_ms_ := by
  unfold tick_committed tick_ack tick_activate
  by_cases hack : now ≥ s.next_status_ms_
  · by_cases hret : now ≥ s.retune_at_ms_
    · simp [hack, hret]
    · simp [hack, hret]
  · by_cases hret : now ≥ s.retune_at_ms_
    · simp [hack, hret]
    · simp [hack, hret]

theorem adopted_schedule (now : Int) (hst : s.st_ = .Proposed) (hm : s.commit_matches m = true) :
    (s.on_commit m now).1.activate_local_ms_ = (s.adopt_commit m now).activate_local_ms_ ∧
      (s.on_commit m now).1.retune_at_ms_ = (s.adopt_commit m now).retune_at_ms_ := by
  have hcommit : s.on_commit m now = (((s.adopt_commit m now).tick_committed now).1,
      (s.adopt_commit m now).ev :: ((s.adopt_commit m now).tick_committed now).2) := by
    simp [on_commit, hm, hst]
  rw [hcommit]
  exact tick_committed_schedule _ _

/-- The signed distance from the stamp to the activation, in microseconds. -/
def offset_us (m : MigMsg) : Int := m.activate_tsf.toNat - m.tx_tsf.toNat

/-- The activation is scheduled within 1 ms of its instant, and one that has passed is not waited
for. -/
structure Scheduled (s : MigProposer) (m : MigMsg) (now : Int) : Prop where
  not_early : offset_us m - 1000 ≤ 1000 * (s.activate_local_ms_ - now)
  not_late : 1000 * (s.activate_local_ms_ - now) ≤ offset_us m + 1000
  passed : offset_us m ≤ 0 → s.retune_at_ms_ ≤ now

theorem adopt_ahead (s : MigProposer) (now : Int) (h : m.tx_tsf ≤ m.activate_tsf) :
    (s.adopt_commit m now).activate_local_ms_ = now + offset_us m / 1000 := by
  have hle : m.tx_tsf.toNat ≤ m.activate_tsf.toNat := UInt64.le_iff_toNat_le.mp h
  have hdiv : ((m.activate_tsf - m.tx_tsf) / 1000).toNat =
      (m.activate_tsf.toNat - m.tx_tsf.toNat) / 1000 := by
    rw [UInt64.toNat_div, sub_of_le h]
    rfl
  simp only [adopt_commit, hdiv, offset_us]
  omega

theorem adopt_behind (s : MigProposer) (now : Int) (ha : m.activate_tsf.toNat < 2 ^ 63)
    (ht : m.tx_tsf.toNat < 2 ^ 63) (h : m.activate_tsf < m.tx_tsf) :
    now + 2 ^ 63 / 1000 ≤ (s.adopt_commit m now).activate_local_ms_ := by
  have hwrap := sub_of_lt ha ht h
  have hdiv : ((m.activate_tsf - m.tx_tsf) / 1000).toNat =
      (m.activate_tsf - m.tx_tsf).toNat / 1000 := UInt64.toNat_div _ _
  simp only [adopt_commit, hdiv]
  omega

theorem adopt_retune (s : MigProposer) (m : MigMsg) (now : Int) :
    (s.adopt_commit m now).retune_at_ms_ =
      max now ((s.adopt_commit m now).activate_local_ms_ - s.p_.lead_ms) := by
  simp only [adopt_commit]
  split <;> omega

/-- The schedule is right for exactly those commits that are stamped before their activation, or at
it where the ground's lead is not negative. -/
theorem activation_follows_the_signed_offset (s : MigProposer) (m : MigMsg) (now : Int)
    (hst : s.st_ = .Proposed) (hm : s.commit_matches m = true)
    (ha : m.activate_tsf.toNat < 2 ^ 63) (ht : m.tx_tsf.toNat < 2 ^ 63) :
    Scheduled (s.on_commit m now).1 m now ↔
      m.tx_tsf < m.activate_tsf ∨ m.tx_tsf = m.activate_tsf ∧ 0 ≤ s.p_.lead_ms := by
  obtain ⟨hlocal, hretune⟩ := adopted_schedule now hst hm
  have hmax := adopt_retune s m now
  have hoff : offset_us m = m.activate_tsf.toNat - m.tx_tsf.toNat := rfl
  rw [UInt64.lt_iff_toNat_lt, ← UInt64.toNat_inj]
  by_cases hlt : m.activate_tsf < m.tx_tsf
  · -- the distance wraps, and the ground waits for ages
    have hbehind := adopt_behind s now ha ht hlt
    have hnat := UInt64.lt_iff_toNat_lt.mp hlt
    constructor
    · intro h
      have hlate := h.not_late
      rw [hlocal] at hlate
      omega
    · intro h
      omega
  · have hle : m.tx_tsf ≤ m.activate_tsf := UInt64.not_lt.mp hlt
    have hahead := adopt_ahead s now hle
    have hnat := UInt64.le_iff_toNat_le.mp hle
    constructor
    · intro h
      have hpassed := h.passed
      rw [hretune, hmax, hahead] at hpassed
      omega
    · intro h
      refine ⟨?_, ?_, ?_⟩
      · rw [hlocal, hahead]
        omega
      · rw [hlocal, hahead]
        omega
      · intro hle'
        rw [hretune, hmax, hahead]
        omega

/-! ## A commit that is heard late -/

/-- The commit and every ack are lost until the activation has passed, and the commit is
repeated. -/
def demoLate : List Link.Op :=
  [ .act (.start (Link.channel5 40) 7 (Link.channel5 44) 100),
    .deliver (.drone 102 1102000 [1102000]) 0,
    .act (.drone_tick 702 1702000 [1702000, 1702000]) ]

/-- The link when the repeat is on its way. -/
def lateWorld : Link.World := Link.network.run (Link.demoLink 0x11110001 0x22220001) demoLate

theorem late_commit_heard : ∃ m ∈ lateWorld.pool,
    m.type = .MT_COMMIT ∧ lateWorld.parties.ground.st_ = .Proposed ∧
      lateWorld.parties.ground.commit_matches m = true ∧
      m.activate_tsf = 1602000 ∧ m.tx_tsf = 1702000 := by
  have hsome : lateWorld.pool.any fun m =>
      m.type = .MT_COMMIT ∧ lateWorld.parties.ground.st_ = .Proposed ∧
        lateWorld.parties.ground.commit_matches m = true ∧
        m.activate_tsf = 1602000 ∧ m.tx_tsf = 1702000 := by decide +kernel
  obtain ⟨m, hm, h⟩ := List.any_eq_true.mp hsome
  exact ⟨m, hm, of_decide_eq_true h⟩

/-- A commit that is heard in time: 100 ms before the activation. -/
theorem a_timely_commit_is_scheduled :
    let s : MigProposer := { MigProposer.init {} 0xC1 0x11110001 (Link.channel5 36) with
      st_ := .Proposed, gen_ := 1, nonce_ := 5 }
    let m : MigMsg := { type := .MT_COMMIT, generation := 1, ground_nonce_echo := 5
                        activate_tsf := 1602000, tx_tsf := 1502000 }
    Scheduled (s.on_commit m 500).1 m 500 := by
  intro s m
  have h := activation_follows_the_signed_offset s m 500 rfl (by decide) (by decide) (by decide)
  exact h.mpr (.inl (by decide))

/-- The repeat is stamped after the activation, and the ground then waits for 2^64 microseconds. -/
theorem a_late_commit_is_never_due :
    ¬ ∀ (s : MigProposer) (m : MigMsg) (now : Int), s.st_ = .Proposed → s.commit_matches m = true →
      m.activate_tsf.toNat < 2 ^ 63 → m.tx_tsf.toNat < 2 ^ 63 →
        Scheduled (s.on_commit m now).1 m now := by
  intro h
  obtain ⟨m, -, -, hst, hm, ha, ht⟩ := late_commit_heard
  have hsched := h lateWorld.parties.ground m 704 hst hm (by rw [ha]; decide) (by rw [ht]; decide)
  have hoff : offset_us m = -100000 := by
    rw [offset_us, ha, ht]
    rfl
  have hbehind := adopt_behind lateWorld.parties.ground 704 (by rw [ha]; decide)
    (by rw [ht]; decide) (show m.activate_tsf < m.tx_tsf by rw [ha, ht]; decide)
  have hlate := hsched.not_late
  rw [(adopted_schedule 704 hst hm).1, hoff] at hlate
  omega

end devourer.chanmig.MigProposer
