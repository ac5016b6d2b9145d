-- A sensor that never took a sample in has no say: its candidates propose
-- nothing, and the fusion is as it would be without them.
import Devourer.Hopset.HopsetFusion
import Devourer.Lib.Runs

namespace devourer.hopset

open DoubleOps

variable {F : Type} [DoubleOps F]

/-- The sample shows nothing that the score would count. -/
def NoSource (cfg : TxSenseConfig F) (s : TxSenseSample F) : Prop :=
  s.valid_fa = false ∧ igi_counts s cfg = false ∧ nhm_counts s = false

instance (cfg : TxSenseConfig F) (s : TxSenseSample F) : Decidable (NoSource cfg s) :=
  inferInstanceAs (Decidable (_ ∧ _ ∧ _))

/-- A sample that is dropped. -/
def Inadmissible (cfg : TxSenseConfig F) (s : TxSenseSample F) : Prop :=
  s.flags &&& HopsetSensor.drop_flags ≠ 0 ∨ s.window_us < cfg.min_window_us ∨
    HopsetSensor.implausible cfg s = true ∨ s.injected = false ∧ NoSource cfg s

instance (cfg : TxSenseConfig F) (s : TxSenseSample F) : Decidable (Inadmissible cfg s) :=
  inferInstanceAs (Decidable (_ ∨ _ ∨ _ ∨ _ ∧ _))

/-- Without a source there is no score, not a score of zero. -/
theorem score_sample_eq_none {cfg : TxSenseConfig F} {s : TxSenseSample F} (hi : s.injected = false)
    (h : NoSource cfg s) : score_sample s cfg = none := by
  obtain ⟨hfa, higi, hnhm⟩ := h
  simp [score_sample, hi, weigh_fa, weigh_igi, weigh_nhm, hfa, higi, hnhm]

namespace HopsetSensor

inductive Call (F : Type) [DoubleOps F]
  | ingest (s : TxSenseSample F)
  | on_activation (mask now_round : UInt64)
  | clear_outstanding (now_round : UInt64)
  | evaluate (now_round : UInt64)

/-- The call takes in no sample that is admissible. -/
def Call.Absent (cfg : TxSenseConfig F) : Call F → Prop
  | .ingest s => Inadmissible cfg s
  | _ => True

instance (cfg : TxSenseConfig F) : (c : Call F) → Decidable (c.Absent cfg)
  | .ingest s => inferInstanceAs (Decidable (Inadmissible cfg s))
  | .on_activation _ _ => isTrue trivial
  | .clear_outstanding _ => isTrue trivial
  | .evaluate _ => isTrue trivial

def step (x : HopsetSensor F) : Call F → HopsetSensor F
  | .ingest s => x.ingest s
  | .on_activation mask now_round => x.on_activation mask now_round
  | .clear_outstanding now_round => x.clear_outstanding now_round
  | .evaluate now_round => (x.evaluate now_round).2

/-! ## Channels with no evidence -/

/-- No window has a live cell. -/
structure Chan.Blank (c : Chan F) : Prop where
  pre : c.pre.ring.n = 0
  post : c.post.ring.n = 0

theorem Chan.Blank.drop {c : Chan F} (h : c.Blank) (k : SensePhase) {p : Phase F}
    (hp : p.ring = (c.phase k).ring) : (c.set_phase k p.drop).Blank := by
  cases k with
  | PreBurst => exact ⟨by rw [← h.pre]; exact congrArg Window.n hp, h.post⟩
  | PostBurst => exact ⟨h.pre, by rw [← h.post]; exact congrArg Window.n hp⟩

theorem Chan.Blank.absent {c : Chan F} (h : c.Blank) :
    Chan.Blank { c with sensor_absent := true } :=
  ⟨h.pre, h.post⟩

theorem Chan.Blank.ingest {cfg : TxSenseConfig F} {c : Chan F} (h : c.Blank) {s : TxSenseSample F}
    (hs : Inadmissible cfg s) : (ingest_chan cfg c s).1.Blank := by
  unfold ingest_chan
  dsimp only
  split
  · exact h.drop s.phase rfl
  · next hflags =>
    split
    · exact h.drop s.phase rfl
    · next hwindow =>
      split
      · exact h.drop s.phase rfl
      · next himp =>
        -- Nothing else is left for it to be dropped for than a missing source.
        have hscore : score_sample s cfg = none := by
          rcases hs with hs | hs | hs | ⟨hi, hs⟩
          · exact absurd hs hflags
          · exact absurd hs hwindow
          · exact absurd hs himp
          · exact score_sample_eq_none hi hs
        rw [hscore]
        dsimp only
        split
        · apply Chan.Blank.absent
          exact h.drop s.phase rfl
        · exact h.drop s.phase rfl

/-- A sensor all of whose channels are blank. -/
structure Blank (cfg : TxSenseConfig F) (x : HopsetSensor F) : Prop where
  same_cfg : x.cfg_ = cfg
  chans : ∀ i, (x.ch_ i).Blank

theorem Blank.evident {cfg : TxSenseConfig F} {x : HopsetSensor F} (h : x.Blank cfg) :
    x.evident = [] := by
  unfold HopsetSensor.evident
  rw [List.filter_eq_nil_iff]
  intro i _
  simp [Chan.have_evidence, (h.chans i).pre, (h.chans i).post]

/-- A blank sensor proposes nothing and has evidence of no channel. -/
theorem Blank.evaluate {cfg : TxSenseConfig F} {x : HopsetSensor F} (h : x.Blank cfg)
    (now_round : UInt64) :
    (x.evaluate now_round).1.kind = .None ∧ (x.evaluate now_round).1.chans_with_evidence = 0 ∧
      (x.evaluate now_round).2 = x := by
  unfold HopsetSensor.evaluate
  generalize hd : x.band_stats _ = d
  have hzero : d.chans_with_evidence = 0 := by
    rw [← hd]
    simp [band_stats, h.evident]
  dsimp only
  split
  · exact ⟨rfl, hzero, rfl⟩
  · split
    · exact ⟨rfl, hzero, rfl⟩
    · split
      · exact ⟨rfl, hzero, rfl⟩
      · split
        · exact ⟨rfl, hzero, rfl⟩
        · exact ⟨rfl, hzero, rfl⟩

theorem Blank.step {cfg : TxSenseConfig F} {x : HopsetSensor F} (h : x.Blank cfg) {c : Call F}
    (hc : c.Absent cfg) : (x.step c).Blank cfg := by
  cases c with
  | ingest s =>
    simp only [HopsetSensor.step, HopsetSensor.ingest]
    split
    · exact h
    · refine ⟨h.same_cfg, ?_⟩
      intro i
      dsimp only
      by_cases hi : i = s.base_index.toNat
      · rw [hi, Function.update_self, h.same_cfg]
        exact (h.chans _).ingest hc
      · rw [Function.update_of_ne hi]
        exact h.chans i
  | on_activation mask now_round =>
    refine ⟨h.same_cfg, ?_⟩
    intro i
    simp only [HopsetSensor.step, HopsetSensor.on_activation]
    split
    · exact ⟨rfl, rfl⟩
    · exact h.chans i
  | clear_outstanding now_round => exact ⟨h.same_cfg, h.chans⟩
  | evaluate now_round =>
    rw [HopsetSensor.step, (h.evaluate now_round).2.2]
    exact h

theorem blank_after {cfg : TxSenseConfig F} {n : UInt64} {x : HopsetSensor F}
    (hx : create cfg n = .ok x) {calls : List (Call F)} (h : ∀ c ∈ calls, c.Absent cfg) :
    (Runs.after step x calls).Blank cfg := by
  have h0 : x.Blank cfg := by
    unfold create at hx
    split at hx
    · cases hx
    · cases hx
      exact ⟨rfl, fun _ => ⟨rfl, rfl⟩⟩
  clear hx
  induction calls generalizing x with
  | nil => exact h0
  | cons c calls ih =>
    exact ih (fun c hc => h c (List.mem_cons_of_mem _ hc)) (h0.step (h c List.mem_cons_self))

end HopsetSensor

/-! ## The fusion without evidence -/

/-- Without evidence neither ground of the veto is there. -/
theorem veto_for_without_evidence {tx : TxSenseCandidate F} (he : tx.chans_with_evidence = 0)
    (cfg : FusionConfig F) (active_mask : UInt64) (target : ℕ) (consecutive_delays : UInt32) :
    veto_for cfg tx active_mask target consecutive_delays = .SensorAbsent ∨
      veto_for cfg tx active_mask target consecutive_delays = .InsufficientTxEvidence := by
  rw [veto_for, if_pos he]
  split
  · exact .inl rfl
  · exact .inr rfl

/-- The action, the mask and the target of a fusion. -/
def FusedDecision.outcome (d : FusedDecision F) : FusedAction × UInt64 × ℕ :=
  (d.action, d.mask, d.target_index)

/-- What the fusion comes to when the transmitter says nothing. -/
def receiver_alone (cfg : FusionConfig F) (inp : FusionInput F) : FusedAction × UInt64 × ℕ :=
  let rx := inp.rx.getD {}
  match reexamined cfg inp with
  | some i => (.Restore, inp.active_mask ||| bit i, i)
  | none =>
    match rx.kind with
    | .ProposeRestore => (.Restore, rx.proposed_mask, rx.target_index)
    | .ProposeExclude => (.Exclude, rx.proposed_mask, rx.target_index)
    | .Hold => (.Hold, 0, 0)

/-- A candidate with no proposal and no evidence says nothing. -/
theorem fuse_without_evidence {cfg : FusionConfig F} {inp : FusionInput F}
    (hk : (inp.tx.getD {}).kind = .None) (he : (inp.tx.getD {}).chans_with_evidence = 0) :
    (fuse cfg inp).outcome = receiver_alone cfg inp := by
  unfold fuse receiver_alone
  dsimp only
  cases reexamined cfg inp with
  | some i => rfl
  | none =>
    cases (inp.rx.getD {}).kind with
    | ProposeRestore => rfl
    | Hold =>
      dsimp only
      rw [fuse_tx, if_pos hk]
      rfl
    | ProposeExclude =>
      dsimp only
      split
      · rfl
      · rcases veto_for_without_evidence he cfg inp.active_mask (inp.rx.getD {}).target_index
          inp.consecutive_delays with hv | hv
        · rw [hv]
          rfl
        · rw [hv]
          rfl

/-- A sensor that takes in no admissible sample never proposes and has evidence of no channel, and
the fusion is as it would be without its candidate. -/
theorem an_absent_sensor_has_no_say {cfg : TxSenseConfig F} {n : UInt64} {x : HopsetSensor F}
    (hx : HopsetSensor.create cfg n = .ok x) {calls : List (HopsetSensor.Call F)}
    (h : ∀ c ∈ calls, c.Absent cfg) (now_round : UInt64) :
    let cand := ((Runs.after HopsetSensor.step x calls).evaluate now_round).1
    cand.kind = .None ∧ cand.chans_with_evidence = 0 ∧
      ∀ (fcfg : FusionConfig F) (inp : FusionInput F),
        (fuse fcfg { inp with tx := some cand }).outcome =
          (fuse fcfg { inp with tx := none }).outcome := by
  obtain ⟨hk, he, -⟩ := (HopsetSensor.blank_after hx h).evaluate now_round
  refine ⟨hk, he, ?_⟩
  intro fcfg inp
  have hwith : (fuse fcfg { inp with tx := some _ }).outcome = receiver_alone fcfg inp :=
    fuse_without_evidence hk he
  have hnone : (fuse fcfg { inp with tx := none }).outcome = receiver_alone fcfg inp :=
    fuse_without_evidence rfl rfl
  rw [hwith, hnone]

open scoped DoubleOps in
/-- Windows that are too short, or that show nothing, leave an exclusion of the receiver's alone. -/
theorem a_blind_sensor_vetoes_nothing :
    ∃ x : HopsetSensor Float, HopsetSensor.create {} 4 = .ok x ∧
      ∃ cand, cand = ((Runs.after HopsetSensor.step x
          [.ingest { window_us := 10, valid_fa := true }, .ingest { window_us := 1000 },
            .on_activation 7 1, .ingest { window_us := 1000 }]).evaluate 2).1 ∧
        cand.kind = .None ∧
        (fuse {} { rx := some { kind := .ProposeExclude, proposed_mask := 3 }
                   tx := some cand }).outcome =
          (fuse {} { rx := some { kind := .ProposeExclude, proposed_mask := 3 }
                     tx := (none : Option (TxSenseCandidate Float)) }).outcome := by
  refine ⟨_, rfl, _, rfl, ?_⟩
  have habsent : ∀ c ∈ ([.ingest { window_us := 10, valid_fa := true },
      .ingest { window_us := 1000 }, .on_activation 7 1, .ingest { window_us := 1000 }] :
        List (HopsetSensor.Call Float)), c.Absent {} := by decide +kernel
  have hx : HopsetSensor.create ({} : TxSenseConfig Float) 4 =
      .ok { cfg_ := {}, n_ := 4, mask_ := full_mask 4 } := rfl
  obtain ⟨hk, -, hf⟩ := an_absent_sensor_has_no_say hx habsent 2
  exact ⟨hk, hf {} { rx := some { kind := .ProposeExclude, proposed_mask := 3 } }⟩

end devourer.hopset
