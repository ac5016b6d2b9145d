-- What the fusion may do to a proposal of the receiver's: it passes, unless the
-- transmitter has evidence of its own and one of the two grounds.
import Devourer.Hopset.HopsetFusion
import Devourer.Lib.Runs

namespace devourer.hopset

open DoubleOps

variable {F : Type} [DoubleOps F]

/-! ## The grounds of a veto -/

/-- The transmitter has enough evidence, and it has measured the target. -/
structure Evidence (cfg : FusionConfig F) (tx : TxSenseCandidate F) (target : ℕ) : Prop where
  chans : max 1 cfg.veto_min_chans_scored.toNat ≤ tx.chans_with_evidence
  target : tx_has tx target = true

/-- The band is broadly occupied, or flat and dirty. -/
def BroadBand (cfg : FusionConfig F) (tx : TxSenseCandidate F) : Prop :=
  tx.broad_occupancy = true ∨ tx.flat_band = true ∧ cfg.veto_broad_floor ≤ tx.band_max_occ

/-- Every other active channel is measured and worse than the target. -/
def AllWorse (cfg : FusionConfig F) (tx : TxSenseCandidate F) (active_mask : UInt64) (target : ℕ) :
    Prop :=
  ∀ i < tx.chans.length, i ≠ target → has_bit active_mask i = true →
    tx_has tx i = true ∧ tx_occ tx target + cfg.remaining_worse_margin ≤ tx_occ tx i

section

variable {cfg : FusionConfig F} {tx : TxSenseCandidate F} {active_mask : UInt64} {target : ℕ}
  {consecutive_delays : UInt32}

theorem broad_tx_iff : broad_tx cfg tx = true ↔ BroadBand cfg tx := by
  simp [broad_tx, BroadBand]

theorem allWorse_of_remaining_worse (h : remaining_worse cfg tx active_mask target = true) :
    AllWorse cfg tx active_mask target := by
  intro i hi hne hbit
  rw [remaining_worse, Bool.and_eq_true] at h
  have hmem : i ∈ survivors tx active_mask target := by
    simp [survivors, hi, hne, hbit]
  have hi := List.all_eq_true.mp h.2 i hmem
  rwa [Bool.and_eq_true, decide_eq_true_eq] at hi

/-- Nothing is vetoed without evidence. -/
theorem evidence_of_veto
    (h : veto_for cfg tx active_mask target consecutive_delays = .BroadTxDegradation ∨
      veto_for cfg tx active_mask target consecutive_delays = .RemainingWorse) :
    Evidence cfg tx target := by
  unfold veto_for at h
  split at h
  · split at h <;> simp at h
  · next hzero =>
    split at h
    · simp at h
    · next hev =>
      obtain ⟨hmin, hhas⟩ := not_or.mp hev
      refine ⟨?_, ?_⟩
      · omega
      · simpa using hhas

theorem broad_of_veto
    (h : veto_for cfg tx active_mask target consecutive_delays = .BroadTxDegradation) :
    consecutive_delays < cfg.max_consecutive_delays ∧ BroadBand cfg tx := by
  unfold veto_for at h
  split at h
  · split at h <;> cases h
  · split at h
    · cases h
    · split at h
      · next hbroad => exact ⟨hbroad.2.1, broad_tx_iff.mp hbroad.2.2⟩
      · split at h <;> cases h

theorem allWorse_of_veto
    (h : veto_for cfg tx active_mask target consecutive_delays = .RemainingWorse) :
    AllWorse cfg tx active_mask target := by
  unfold veto_for at h
  split at h
  · split at h <;> cases h
  · split at h
    · cases h
    · split at h
      · cases h
      · split at h
        · next hworse => exact allWorse_of_remaining_worse hworse.2
        · cases h

end

/-! ## What a fusion is -/

/-- The transmitter may speak for itself. -/
def MaySpeak (cfg : FusionConfig F) (inp : FusionInput F) : Prop :=
  cfg.mode = .EitherEndpoint ∨
    cfg.mode = .TxFailsafe ∧
      (inp.feedback_age_rounds = kNoFeedback ∨
        cfg.feedback_timeout_rounds < inp.feedback_age_rounds)

/-- The ways out of a fusion, with whose mask it is. -/
inductive Fused (cfg : FusionConfig F) (inp : FusionInput F) (d : FusedDecision F) : Prop
  | handed_back (i : ℕ) (hre : reexamined cfg inp = some i) (ha : d.action = .Restore)
      (hm : d.mask = inp.active_mask ||| bit i) (hv : d.veto = .None)
  | restore (hre : reexamined cfg inp = none) (hk : (inp.rx.getD {}).kind = .ProposeRestore)
      (ha : d.action = .Restore) (hm : d.mask = (inp.rx.getD {}).proposed_mask)
      (hv : d.veto = .None)
  | exclude (hre : reexamined cfg inp = none) (hk : (inp.rx.getD {}).kind = .ProposeExclude)
      (ha : d.action = .Exclude) (hm : d.mask = (inp.rx.getD {}).proposed_mask)
  | delay (hre : reexamined cfg inp = none) (hk : (inp.rx.getD {}).kind = .ProposeExclude)
      (hmode : cfg.mode ≠ .RxAuthoritative) (ha : d.action = .Delay)
      (hv : veto_for cfg (inp.tx.getD {}) inp.active_mask (inp.rx.getD {}).target_index
        inp.consecutive_delays = .BroadTxDegradation)
  | reject (hre : reexamined cfg inp = none) (hk : (inp.rx.getD {}).kind = .ProposeExclude)
      (hmode : cfg.mode ≠ .RxAuthoritative) (ha : d.action = .Hold)
      (hv : veto_for cfg (inp.tx.getD {}) inp.active_mask (inp.rx.getD {}).target_index
        inp.consecutive_delays = .RemainingWorse)
  | held (hre : reexamined cfg inp = none) (hk : (inp.rx.getD {}).kind = .Hold)
      (ha : d.action = .Hold)
  | tx (hre : reexamined cfg inp = none) (hk : (inp.rx.getD {}).kind = .Hold)
      (hspeak : MaySpeak cfg inp) (hm : d.mask = (inp.tx.getD {}).proposed_mask)
      (ha : d.action = .Exclude ∨ d.action = .Restore)

theorem maySpeak_of_not_fresh {cfg : FusionConfig F} {inp : FusionInput F}
    (hmode : cfg.mode = .TxFailsafe) (h : ¬ feedback_fresh cfg inp = true) : MaySpeak cfg inp := by
  refine .inr ⟨hmode, ?_⟩
  by_cases hno : inp.feedback_age_rounds = kNoFeedback
  · exact .inl hno
  · right
    simpa [feedback_fresh, hno] using h

theorem fuse_exclude_cases (d : FusedDecision F) (rx : HopsetDecision) (v : FusionVeto) :
    (v = .BroadTxDegradation ∧ (fuse_exclude d rx v).action = .Delay) ∨
      (v = .RemainingWorse ∧ (fuse_exclude d rx v).action = .Hold) ∨
      (fuse_exclude d rx v).action = .Exclude ∧ (fuse_exclude d rx v).mask = rx.proposed_mask := by
  cases v with
  | BroadTxDegradation => exact .inl ⟨rfl, rfl⟩
  | RemainingWorse => exact .inr (.inl ⟨rfl, rfl⟩)
  | None => exact .inr (.inr ⟨rfl, rfl⟩)
  | SensorAbsent => exact .inr (.inr ⟨rfl, rfl⟩)
  | InsufficientTxEvidence => exact .inr (.inr ⟨rfl, rfl⟩)

theorem tx_speaks_action (d : FusedDecision F) (tx : TxSenseCandidate F) (o : DecisionOrigin) :
    (tx_speaks d tx o).action = .Exclude ∨ (tx_speaks d tx o).action = .Restore := by
  unfold tx_speaks
  dsimp only
  split
  · exact .inr rfl
  · exact .inl rfl

theorem fuse_fused (cfg : FusionConfig F) (inp : FusionInput F) : Fused cfg inp (fuse cfg inp) := by
  unfold fuse
  dsimp only
  split
  · next i hre => exact .handed_back i hre rfl rfl rfl
  · next hre =>
    split
    · next hk => exact .restore hre hk rfl rfl rfl
    · next hk =>
      by_cases hmode : cfg.mode = .RxAuthoritative
      · rw [if_pos hmode]
        exact .exclude hre hk rfl rfl
      · rw [if_neg hmode]
        generalize hveto : veto_for cfg (inp.tx.getD {}) inp.active_mask
          (inp.rx.getD {}).target_index inp.consecutive_delays = v
        rcases fuse_exclude_cases (report cfg inp (inp.rx.getD {}) (inp.tx.getD {}))
          (inp.rx.getD {}) v with ⟨hv, ha⟩ | ⟨hv, ha⟩ | ⟨ha, hm⟩
        · exact .delay hre hk hmode ha (hveto.trans hv)
        · exact .reject hre hk hmode ha (hveto.trans hv)
        · exact .exclude hre hk ha hm
    · next hk =>
      unfold fuse_tx
      dsimp only
      split
      · exact .held hre hk rfl
      · split
        · exact .held hre hk rfl
        · exact .held hre hk rfl
        · next hmode =>
          split
          · exact .held hre hk rfl
          · next hfresh =>
            exact .tx hre hk (maySpeak_of_not_fresh hmode hfresh) rfl (tx_speaks_action _ _ _)
        · next hmode => exact .tx hre hk (.inl hmode) rfl (tx_speaks_action _ _ _)

/-- A delay is within the budget of the host. -/
theorem delay_lt {cfg : FusionConfig F} {inp : FusionInput F} (h : (fuse cfg inp).action = .Delay) :
    inp.consecutive_delays < cfg.max_consecutive_delays := by
  cases fuse_fused cfg inp with
  | handed_back i hre ha hm hv => rw [ha] at h; cases h
  | restore hre hk ha hm hv => rw [ha] at h; cases h
  | exclude hre hk ha hm => rw [ha] at h; cases h
  | delay hre hk hmode ha hv => exact (broad_of_veto hv).1
  | reject hre hk hmode ha hv => rw [ha] at h; cases h
  | held hre hk ha => rw [ha] at h; cases h
  | tx hre hk hspeak hm ha =>
    rw [h] at ha
    rcases ha with ha | ha <;> cases ha

/-! ## The mask that the transmitter proposed -/

/-- The input with another mask in the candidate. -/
def with_tx_mask (inp : FusionInput F) (m : UInt64) : FusionInput F :=
  { inp with tx := inp.tx.map ({ · with proposed_mask := m }) }

theorem fuse_tx_with_mask {cfg : FusionConfig F} {inp : FusionInput F} (h : ¬ MaySpeak cfg inp)
    (m : UInt64) (d : FusedDecision F) (tx : TxSenseCandidate F) :
    fuse_tx cfg inp d { tx with proposed_mask := m } = fuse_tx cfg inp d tx := by
  unfold fuse_tx
  dsimp only
  split
  · rfl
  · split
    · rfl
    · rfl
    · next hmode =>
      by_cases hfresh : feedback_fresh cfg inp
      · rw [if_pos hfresh, if_pos hfresh]
      · exact absurd (maySpeak_of_not_fresh hmode hfresh) h
    · next hmode => exact absurd (.inl hmode) h

/-- Where the transmitter may not speak, its mask makes no difference. -/
theorem fuse_with_tx_mask {cfg : FusionConfig F} {inp : FusionInput F}
    (h : ¬ ((inp.rx.getD {}).kind = .Hold ∧ MaySpeak cfg inp)) (m : UInt64) :
    fuse cfg (with_tx_mask inp m) = fuse cfg inp := by
  cases htx : inp.tx with
  | none =>
    have hsame : with_tx_mask inp m = inp := by
      unfold with_tx_mask
      rw [htx, Option.map_none, ← htx]
    rw [hsame]
  | some tx =>
    have hinp : with_tx_mask inp m = { inp with tx := some { tx with proposed_mask := m } } := by
      unfold with_tx_mask
      rw [htx]
      rfl
    have hre : reexamined cfg (with_tx_mask inp m) = reexamined cfg inp := rfl
    unfold fuse
    rw [hre, hinp, htx]
    dsimp only [Option.getD_some]
    split
    · rfl
    · split
      · rfl
      · rfl
      · next hk => exact fuse_tx_with_mask (fun hspeak => h ⟨hk, hspeak⟩) m _ tx

/-! ## A host that counts the delays -/

/-- The delays in a row before now, of the decisions of a host, the latest first. -/
def delays (ds : List (FusedDecision F)) : ℕ := (ds.takeWhile (·.action = .Delay)).length

/-- The host passes the number of the delays in a row that it has got. -/
def host (cfg : FusionConfig F) (ds : List (FusedDecision F)) (inp : FusionInput F) :
    List (FusedDecision F) :=
  fuse cfg { inp with consecutive_delays := UInt32.ofNat (delays ds) } :: ds

theorem delays_cons (d : FusedDecision F) (ds : List (FusedDecision F)) :
    delays (d :: ds) = if d.action = .Delay then delays ds + 1 else 0 := by
  unfold delays
  by_cases hd : d.action = .Delay <;> simp [hd]

theorem delays_le (cfg : FusionConfig F) (inps : List (FusionInput F)) :
    delays (Runs.after (host cfg) [] inps) ≤ cfg.max_consecutive_delays.toNat := by
  apply Runs.after_keeps (P := fun ds => delays ds ≤ cfg.max_consecutive_delays.toNat)
  · exact Nat.zero_le _
  · intro ds inp ih
    rw [host, delays_cons]
    split
    · next hd =>
      have hlt := UInt32.lt_iff_toNat_lt.mp (delay_lt hd)
      have hfit : (UInt32.ofNat (delays ds)).toNat = delays ds :=
        UInt32.toNat_ofNat_of_lt' (ih.trans_lt cfg.max_consecutive_delays.toNat_lt)
      rw [hfit] at hlt
      exact hlt
    · exact Nat.zero_le _

/-! ## The receiver is heard -/

/-- What a fusion does with what the two ends propose. -/
structure Heard (cfg : FusionConfig F) (inp : FusionInput F) (rx : HopsetDecision)
    (tx : TxSenseCandidate F) (d : FusedDecision F) : Prop where
  exclude : rx.kind = .ProposeExclude → reexamined cfg inp = none →
    d.action = .Exclude ∧ d.mask = rx.proposed_mask ∨
      cfg.mode ≠ .RxAuthoritative ∧ Evidence cfg tx rx.target_index ∧
        (d.action = .Delay ∧ BroadBand cfg tx ∧
            inp.consecutive_delays < cfg.max_consecutive_delays ∨
          d.action = .Hold ∧ AllWorse cfg tx inp.active_mask rx.target_index)
  restore : rx.kind = .ProposeRestore →
    d.action = .Restore ∧ d.veto = .None ∧ (reexamined cfg inp = none → d.mask = rx.proposed_mask)
  mask : d.action = .Exclude ∨ d.action = .Restore →
    rx.kind ≠ .Hold ∧ d.mask = rx.proposed_mask ∨
      (rx.kind = .Hold ∧ MaySpeak cfg inp) ∧ d.mask = tx.proposed_mask ∨
      ∃ i < 64, has_bit inp.tx_originated_mask i = true ∧ d.mask = inp.active_mask ||| bit i
  /-- Elsewhere the mask that the transmitter proposed is not used at all. -/
  tx_mask : ¬ (rx.kind = .Hold ∧ MaySpeak cfg inp) →
    ∀ m, fuse cfg (with_tx_mask inp m) = d

theorem reexamined_bit {cfg : FusionConfig F} {inp : FusionInput F} {i : ℕ}
    (h : reexamined cfg inp = some i) : i < 64 ∧ has_bit inp.tx_originated_mask i = true := by
  unfold reexamined at h
  split at h
  · have hmem := List.mem_range.mp (List.mem_of_find?_eq_some h)
    have hbit := List.find?_some h
    rw [Bool.and_eq_true] at hbit
    exact ⟨hmem, hbit.1⟩
  · cases h

theorem fuse_heard (cfg : FusionConfig F) (inp : FusionInput F) :
    Heard cfg inp (inp.rx.getD {}) (inp.tx.getD {}) (fuse cfg inp) := by
  refine ⟨?_, ?_, ?_, fun h m => fuse_with_tx_mask h m⟩
  · intro hk hre
    cases fuse_fused cfg inp with
    | handed_back i hre' ha hm hv => rw [hre] at hre'; cases hre'
    | restore hre hk' ha hm hv => rw [hk] at hk'; cases hk'
    | exclude hre hk' ha hm => exact .inl ⟨ha, hm⟩
    | delay hre hk' hmode ha hv =>
      have hbroad := broad_of_veto hv
      exact .inr ⟨hmode, evidence_of_veto (.inl hv), .inl ⟨ha, hbroad.2, hbroad.1⟩⟩
    | reject hre hk' hmode ha hv =>
      exact .inr ⟨hmode, evidence_of_veto (.inr hv), .inr ⟨ha, allWorse_of_veto hv⟩⟩
    | held hre hk' ha => rw [hk] at hk'; cases hk'
    | tx hre hk' hspeak hm ha => rw [hk] at hk'; cases hk'
  · intro hk
    cases fuse_fused cfg inp with
    | handed_back i hre ha hm hv =>
      refine ⟨ha, hv, ?_⟩
      intro hre'
      rw [hre] at hre'
      cases hre'
    | restore hre hk' ha hm hv => exact ⟨ha, hv, fun _ => hm⟩
    | exclude hre hk' ha hm => rw [hk] at hk'; cases hk'
    | delay hre hk' hmode ha hv => rw [hk] at hk'; cases hk'
    | reject hre hk' hmode ha hv => rw [hk] at hk'; cases hk'
    | held hre hk' ha => rw [hk] at hk'; cases hk'
    | tx hre hk' hspeak hm ha => rw [hk] at hk'; cases hk'
  · intro hact
    cases fuse_fused cfg inp with
    | handed_back i hre ha hm hv =>
      obtain ⟨hi, hbit⟩ := reexamined_bit hre
      exact .inr (.inr ⟨i, hi, hbit, hm⟩)
    | restore hre hk ha hm hv => exact .inl ⟨by rw [hk]; nofun, hm⟩
    | exclude hre hk ha hm => exact .inl ⟨by rw [hk]; nofun, hm⟩
    | delay hre hk hmode ha hv => rw [ha] at hact; simp at hact
    | reject hre hk hmode ha hv => rw [ha] at hact; simp at hact
    | held hre hk ha => rw [ha] at hact; simp at hact
    | tx hre hk hspeak hm ha => exact .inr (.inl ⟨⟨hk, hspeak⟩, hm⟩)

/-- The transmitter keeps back no proposal without evidence of its own, and a host that counts the
delays gets no more of them in a row than it allows. -/
theorem the_receiver_is_heard (cfg : FusionConfig F) :
    (∀ inp : FusionInput F, Heard cfg inp (inp.rx.getD {}) (inp.tx.getD {}) (fuse cfg inp)) ∧
      ∀ inps : List (FusionInput F),
        delays (Runs.after (host cfg) [] inps) ≤ cfg.max_consecutive_delays.toNat :=
  ⟨fuse_heard cfg, delays_le cfg⟩

end devourer.hopset
