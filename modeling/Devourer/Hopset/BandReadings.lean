-- What the sensor says of the band against what the fusion reads of its
-- candidate: the facts are about the numbers of the sensor, and the candidate
-- shows the same numbers only where both have the same phase speak.
import Devourer.Hopset.SenseAbsence

namespace devourer.hopset

open DoubleOps

namespace HopsetSensor

variable {F : Type} [DoubleOps F] {x : HopsetSensor F}

/-! ## The ways a candidate comes about -/

/-- The phase whose run counts. -/
def gate (cfg : TxSenseConfig F) (c : Chan F) : Phase F :=
  if cfg.require_post_burst then c.post else worse_phase c

/-- What stands in a candidate before anything is proposed. -/
def judged (x : HopsetSensor F) : TxSenseCandidate F :=
  x.band_stats
    { policy_hash := x.cfg_.policy_hash, sample_count := x.total_samples_, chans := x.summarize }

structure ExcludeSpec (x : HopsetSensor F) (worst : ℕ) (worst_occ : F) : Prop where
  scanned : x.scan.worst = some (worst, worst_occ)
  target : worst < x.n_.toNat
  active : has_bit x.mask_ worst = true
  run : x.cfg_.dirty_run ≤ (gate x.cfg_ (x.ch_ worst)).dirty_run
  occ : worst_occ = (x.ch_ worst).occupancy
  cleaner : x.cfg_.min_cleaner_chans.toNat ≤ x.cleaner worst worst_occ
  floor : HopsetPolicy.floor_active x.cfg_.min_active ≤ popcount64 (x.mask_ &&& ~~~bit worst)
  share : ¬ x.cfg_.max_excluded_frac < excluded_share x.n_ (x.mask_ &&& ~~~bit worst)

/-- A candidate holds and changes nothing, or it is a proposal that is outstanding from then on. -/
inductive Evaluated (x : HopsetSensor F) : TxSenseCandidate F × HopsetSensor F → Prop
  | hold (h : TxSenseHold) : Evaluated x (HopsetSensor.hold x.judged h, x)
  | exclude (worst : ℕ) (worst_occ : F) (hs : x.ExcludeSpec worst worst_occ) : Evaluated x
      ({ x.judged with
          kind := .ProposeExclude
          target_index := worst
          proposed_mask := x.mask_ &&& ~~~bit worst
          reason_bitmap := build_reasons (x.ch_ worst) },
        { x with outstanding_ := true })
  | restore (i : ℕ) : Evaluated x
      ({ x.judged with
          kind := .ProposeRestore
          target_index := i
          proposed_mask := x.mask_ ||| bit i
          reason_bitmap := 0 },
        { x with outstanding_ := true })

/-- An active channel with a run that is long enough. -/
def Sustained (x : HopsetSensor F) (b : ℕ × F) : Prop :=
  b.1 < x.n_.toNat ∧ has_bit x.mask_ b.1 = true ∧
    x.cfg_.dirty_run ≤ (gate x.cfg_ (x.ch_ b.1)).dirty_run ∧ b.2 = (x.ch_ b.1).occupancy

theorem scan_chan_worst {s : Scan F} {i : ℕ} (hi : i < x.n_.toNat)
    (hs : ∀ b ∈ s.worst, x.Sustained b) : ∀ b ∈ (x.scan_chan s i).worst, x.Sustained b := by
  unfold scan_chan
  dsimp only
  split
  · exact hs
  · next hact =>
    simp only [Bool.or_eq_true, Bool.not_eq_true', not_or, Bool.not_eq_false] at hact
    generalize hgate :
      (if x.cfg_.require_post_burst = true then (x.ch_ i).post else worse_phase (x.ch_ i)) = g
    split
    · exact hs
    · next hrun =>
      split
      · exact hs
      · split
        · intro b hb
          obtain rfl := Option.some.inj hb
          exact ⟨hi, hact.1, (congrArg Phase.dirty_run hgate).symm ▸ UInt32.not_lt.mp hrun, rfl⟩
        · exact hs

theorem scan_worst {worst : ℕ × F} (h : x.scan.worst = some worst) : x.Sustained worst := by
  have hfold : ∀ is : List ℕ, (∀ i ∈ is, i < x.n_.toNat) → ∀ s : Scan F,
      (∀ b ∈ s.worst, x.Sustained b) → ∀ b ∈ (is.foldl x.scan_chan s).worst, x.Sustained b := by
    intro is his
    induction is with
    | nil => exact fun s hs => hs
    | cons i is ih =>
      intro s hs
      exact ih (fun j hj => his j (List.mem_cons_of_mem _ hj)) _
        (scan_chan_worst (his i List.mem_cons_self) hs)
  exact hfold _ (fun i hi => List.mem_range.mp hi) {} (fun b hb => by cases hb) _ h

theorem evaluate_exclude_evaluated (x : HopsetSensor F) :
    x.Evaluated (x.evaluate_exclude x.judged) := by
  unfold evaluate_exclude
  dsimp only
  split
  · split
    · exact .hold _
    · exact .hold _
  · next worst worst_occ hworst =>
    obtain ⟨hlt, hactive, hrun, hocc⟩ := scan_worst hworst
    split
    · exact .hold _
    · split
      · exact .hold _
      · split
        · exact .hold _
        · split
          · exact .hold _
          · next hcleaner =>
            split
            · exact .hold _
            · next hfloor =>
              split
              · exact .hold _
              · next hshare =>
                exact .exclude worst worst_occ ⟨hworst, hlt, hactive, hrun, hocc,
                  Nat.le_of_not_lt hcleaner, UInt32.not_lt.mp hfloor, hshare⟩

theorem evaluate_evaluated (x : HopsetSensor F) (now_round : UInt64) :
    x.Evaluated (x.evaluate now_round) := by
  unfold evaluate
  dsimp only
  split
  · exact .hold _
  · split
    · exact .hold _
    · split
      · exact .hold _
      · split
        · split
          · exact .hold _
          · exact .hold _
        · split
          · exact .restore _
          · split
            · exact .hold _
            · exact x.evaluate_exclude_evaluated

/-! ## The facts of the band -/

/-- The facts of a band whose counted channels show these occupancies. -/
def band_facts (cfg : TxSenseConfig F) (occs : List F) (d : TxSenseCandidate F) :
    TxSenseCandidate F :=
  let mn := occs.foldl (fun mn o => if o < mn then o else mn) 2.0
  let mx := occs.foldl (fun mx o => if o > mx then o else mx) (-1.0)
  let band_min_occ := if occs.length ≠ 0 then mn else 0.0
  let band_max_occ := if occs.length ≠ 0 then mx else 0.0
  { d with
    chans_with_evidence := occs.length
    band_min_occ
    band_max_occ
    broad_occupancy :=
      occs.length ≠ 0 ∧
        ofInt (occs.countP (· ≥ cfg.occupancy_dirty)) / ofInt occs.length ≥
          cfg.broad_occupancy_frac
    flat_band :=
      occs.length ≥ cfg.min_channels_scored.toNat ∧
        band_max_occ - band_min_occ < cfg.broad_spread_min }

/-- The candidate shows of each counted channel the occupancy that the sensor has of it, and its
facts of the band are those of the numbers that it shows. -/
structure SameReadings (x : HopsetSensor F) (d : TxSenseCandidate F) : Prop where
  shown : ∀ i ∈ x.evident, tx_has d i = true ∧ tx_occ d i = (x.ch_ i).occupancy
  within : ∀ i ∈ x.evident, d.band_min_occ ≤ tx_occ d i ∧ tx_occ d i ≤ d.band_max_occ
  facts : d = band_facts x.cfg_ (x.evident.map (tx_occ d)) d

/-- Both have the same phase speak for the channel, or it makes no difference. -/
def Chan.OneVoice (cfg : TxSenseConfig F) (c : Chan F) : Prop :=
  (c.post.ring.n ≠ 0 ↔ ph_scored cfg c.post = true) ∨ Chan.mean c.post = Chan.mean c.pre

/-- What the summary shows of a channel. -/
def shown_occupancy (cfg : TxSenseConfig F) (c : Chan F) : F :=
  if ph_scored cfg c.post then Chan.mean c.post else Chan.mean c.pre

theorem shown_iff_oneVoice (cfg : TxSenseConfig F) (c : Chan F) :
    shown_occupancy cfg c = c.occupancy ↔ c.OneVoice cfg := by
  unfold shown_occupancy Chan.occupancy Chan.OneVoice
  by_cases hn : c.post.ring.n ≠ 0
  · rw [if_pos hn]
    by_cases hs : ph_scored cfg c.post = true
    · rw [if_pos hs]
      exact iff_of_true rfl (.inl (iff_of_true hn hs))
    · rw [if_neg hs]
      refine ⟨fun h => .inr h.symm, fun h => ?_⟩
      rcases h with h | h
      · exact absurd (h.mp hn) hs
      · exact h.symm
  · rw [if_neg hn]
    by_cases hs : ph_scored cfg c.post = true
    · rw [if_pos hs]
      refine ⟨.inr, fun h => ?_⟩
      rcases h with h | h
      · exact absurd (h.mpr hs) hn
      · exact h
    · rw [if_neg hs]
      exact iff_of_true rfl (.inl (iff_of_false hn hs))

/-- The least of some numbers, as the loop finds it. -/
theorem foldl_least_le [Ordered F] {occs : List F} (hocc : ∀ o ∈ occs, IsNumber o) {a : F}
    (ha : IsNumber a) :
    occs.foldl (fun mn o => if o < mn then o else mn) a ≤ a ∧
      ∀ o ∈ occs, occs.foldl (fun mn o => if o < mn then o else mn) a ≤ o := by
  induction occs generalizing a with
  | nil => exact ⟨ha, fun o ho => by cases ho⟩
  | cons o occs ih =>
    have ho := hocc o List.mem_cons_self
    have hboth : IsNumber (if o < a then o else a) ∧ (if o < a then o else a) ≤ a ∧
        (if o < a then o else a) ≤ o := by
      split
      · next h => exact ⟨ho, Ordered.le_of_lt h, ho⟩
      · next h => exact ⟨ha, ha, Ordered.le_of_not_lt ha ho h⟩
    obtain ⟨hstart, hrest⟩ := ih (fun v hv => hocc v (List.mem_cons_of_mem o hv)) hboth.1
    refine ⟨Ordered.le_trans hstart hboth.2.1, ?_⟩
    intro o' ho'
    rcases List.mem_cons.mp ho' with rfl | ho'
    · exact Ordered.le_trans hstart hboth.2.2
    · exact hrest o' ho'

theorem le_foldl_greatest [Ordered F] {occs : List F} (hocc : ∀ o ∈ occs, IsNumber o) {a : F}
    (ha : IsNumber a) :
    a ≤ occs.foldl (fun mx o => if o > mx then o else mx) a ∧
      ∀ o ∈ occs, o ≤ occs.foldl (fun mx o => if o > mx then o else mx) a := by
  induction occs generalizing a with
  | nil => exact ⟨ha, fun o ho => by cases ho⟩
  | cons o occs ih =>
    have ho := hocc o List.mem_cons_self
    have hboth : IsNumber (if o > a then o else a) ∧ a ≤ (if o > a then o else a) ∧
        o ≤ (if o > a then o else a) := by
      split
      · next h => exact ⟨ho, Ordered.le_of_lt h, ho⟩
      · next h => exact ⟨ha, ha, Ordered.le_of_not_lt ho ha h⟩
    obtain ⟨hstart, hrest⟩ := ih (fun v hv => hocc v (List.mem_cons_of_mem o hv)) hboth.1
    refine ⟨Ordered.le_trans hboth.2.1 hstart, ?_⟩
    intro o' ho'
    rcases List.mem_cons.mp ho' with rfl | ho'
    · exact Ordered.le_trans hboth.2.2 hstart
    · exact hrest o' ho'

/-- The facts are about the occupancies that the sensor ranks its channels by. -/
structure Surveyed (x : HopsetSensor F) (d : TxSenseCandidate F) : Prop where
  chans : d.chans = x.summarize
  facts : d = band_facts x.cfg_ (x.evident.map fun i => (x.ch_ i).occupancy) d

theorem Evaluated.surveyed {r : TxSenseCandidate F × HopsetSensor F} (h : x.Evaluated r) :
    x.Surveyed r.1 := by
  cases h with
  | hold h => exact ⟨rfl, rfl⟩
  | exclude worst worst_occ hs => exact ⟨rfl, rfl⟩
  | restore i => exact ⟨rfl, rfl⟩

theorem mem_evident {i : ℕ} (h : i ∈ x.evident) :
    i < x.n_.toNat ∧ has_bit x.mask_ i = true ∧ (x.ch_ i).have_evidence = true ∧
      scored x.cfg_ (x.ch_ i) = true := by
  obtain ⟨hi, hpred⟩ := List.mem_filter.mp h
  rw [Bool.and_eq_true, Bool.and_eq_true] at hpred
  exact ⟨List.mem_range.mp hi, hpred.1.1, hpred.1.2, hpred.2⟩

section

variable {d : TxSenseCandidate F} {i : ℕ}

theorem Surveyed.chan (h : x.Surveyed d) (hi : i < x.n_.toNat) :
    ∃ e, d.chans[i]? = some e ∧ e.pre = phase_evidence x.cfg_ (x.ch_ i).pre ∧
      e.post = phase_evidence x.cfg_ (x.ch_ i).post := by
  rw [h.chans, summarize, List.getElem?_map, List.getElem?_range hi]
  exact ⟨_, rfl, rfl, rfl⟩

theorem Surveyed.tx_occ (h : x.Surveyed d) (hi : i < x.n_.toNat) :
    tx_occ d i = shown_occupancy x.cfg_ (x.ch_ i) := by
  obtain ⟨e, he, hpre, hpost⟩ := h.chan hi
  rw [devourer.hopset.tx_occ, he, Option.elim_some, TxChanEvidence.occupancy, hpre, hpost]
  rfl

theorem Surveyed.tx_has (h : x.Surveyed d) (hi : i ∈ x.evident) : tx_has d i = true := by
  obtain ⟨hlt, -, -, hscored⟩ := mem_evident hi
  obtain ⟨e, he, hpre, hpost⟩ := h.chan hlt
  rw [devourer.hopset.tx_has, he, Option.any_some, TxChanEvidence.have_evidence, Bool.or_comm, hpre,
    hpost]
  exact hscored

/-- Where the counted occupancies are numbers, the facts enclose them. -/
theorem Surveyed.within [Ordered F] (h : x.Surveyed d)
    (hnumber : ∀ j ∈ x.evident, IsNumber (x.ch_ j).occupancy) (hi : i ∈ x.evident) :
    d.band_min_occ ≤ (x.ch_ i).occupancy ∧ (x.ch_ i).occupancy ≤ d.band_max_occ := by
  have hmem : (x.ch_ i).occupancy ∈ x.evident.map fun i => (x.ch_ i).occupancy :=
    List.mem_map.mpr ⟨i, hi, rfl⟩
  have hlen : (x.evident.map fun i => (x.ch_ i).occupancy).length ≠ 0 :=
    (List.length_pos_of_mem hmem).ne'
  have hmin : d.band_min_occ = _ := congrArg TxSenseCandidate.band_min_occ h.facts
  have hmax : d.band_max_occ = _ := congrArg TxSenseCandidate.band_max_occ h.facts
  dsimp only [band_facts] at hmin hmax
  rw [if_pos hlen] at hmin hmax
  rw [hmin, hmax]
  have hocc : ∀ o ∈ x.evident.map fun i => (x.ch_ i).occupancy, IsNumber o := by
    intro o ho
    obtain ⟨j, hj, rfl⟩ := List.mem_map.mp ho
    exact hnumber j hj
  exact ⟨(foldl_least_le hocc Ordered.isNumber_two).2 _ hmem,
    (le_foldl_greatest hocc Ordered.isNumber_neg_one).2 _ hmem⟩

theorem Surveyed.sameReadings_iff [Ordered F] (h : x.Surveyed d) :
    x.SameReadings d ↔
      ∀ i ∈ x.evident, (x.ch_ i).OneVoice x.cfg_ ∧ IsNumber (x.ch_ i).occupancy := by
  constructor
  · intro hsame i hi
    have hshown := (hsame.shown i hi).2
    refine ⟨?_, ?_⟩
    · rw [← shown_iff_oneVoice, ← h.tx_occ (mem_evident hi).1]
      exact hshown
    · rw [← hshown]
      exact Ordered.isNumber_of_le (hsame.within i hi).1
  · intro hvoice
    have hocc : ∀ i ∈ x.evident, devourer.hopset.tx_occ d i = (x.ch_ i).occupancy := by
      intro i hi
      rw [h.tx_occ (mem_evident hi).1]
      exact (shown_iff_oneVoice _ _).mpr (hvoice i hi).1
    refine ⟨fun i hi => ⟨h.tx_has hi, hocc i hi⟩, ?_, ?_⟩
    · intro i hi
      rw [hocc i hi]
      exact h.within (fun j hj => (hvoice j hj).2) hi
    · rw [List.map_congr_left hocc]
      exact h.facts

end

/-- After every run the candidate shows what the sensor ranks by exactly if each counted channel
reads as a number, and on each the readings after the burst speak for both or for neither, or those
before it say the same. -/
theorem the_fusion_reads_what_the_sensor_ranks_iff [Ordered F] (start : HopsetSensor F)
    (calls : List (Call F)) (now_round : UInt64) :
    let x := Runs.after step start calls
    x.SameReadings (x.evaluate now_round).1 ↔
      ∀ i ∈ x.evident, (x.ch_ i).OneVoice x.cfg_ ∧ IsNumber (x.ch_ i).occupancy :=
  (evaluate_evaluated _ now_round).surveyed.sameReadings_iff

open scoped DoubleOps

/-- Windows of an occupancy of 0.1, so many before the burst and so many after it. -/
def tenths (pre post : ℕ) : List (Call Float) :=
  List.replicate pre (.ingest { window_us := 1000, injected := true, injected_occupancy := 0.1 }) ++
    List.replicate post (.ingest
      { window_us := 1000, injected := true, injected_occupancy := 0.1, phase := .PostBurst })

/-- Twelve windows on both sides of the burst are read alike. -/
theorem twelve_tenths_are_read_alike :
    ∃ x₀ : HopsetSensor Float, create {} 4 = .ok x₀ ∧
      (Runs.after step x₀ (tenths 12 12)).evident = [0] ∧
      (Runs.after step x₀ (tenths 12 12)).SameReadings
        ((Runs.after step x₀ (tenths 12 12)).evaluate 0).1 := by
  refine ⟨_, rfl, by decide +kernel, ?_⟩
  apply (the_fusion_reads_what_the_sensor_ranks_iff _ (tenths 12 12) 0).mpr
  unfold Chan.OneVoice IsNumber
  decide +kernel

/-- Two quiet windows before the burst and a busy one after it. -/
def one_busy_burst : List (Call Float) :=
  [.ingest { window_us := 1000, injected := true },
    .ingest { window_us := 1000, injected := true },
    .ingest { window_us := 1000, injected := true, injected_occupancy := 1.0, phase := .PostBurst }]

/-- The sensor ranks the channel as full and shows it as empty. With the same windows before and
after the burst, the two means may still be other doubles. -/
theorem one_burst_is_ranked_and_not_shown :
    (∃ x₀ : HopsetSensor Float, create { min_samples_per_chan := 2 } 4 = .ok x₀ ∧
      ¬ (Runs.after step x₀ one_busy_burst).SameReadings
        ((Runs.after step x₀ one_busy_burst).evaluate 0).1) ∧
    ∃ x₀ : HopsetSensor Float, create {} 4 = .ok x₀ ∧
      ¬ (Runs.after step x₀ (tenths 12 3)).SameReadings
        ((Runs.after step x₀ (tenths 12 3)).evaluate 0).1 := by
  refine ⟨⟨_, rfl, ?_⟩, ⟨_, rfl, ?_⟩⟩
  · intro h
    have hshown := (h.shown 0 (by decide +kernel)).2
    revert hshown
    decide +kernel
  · intro h
    have hshown := (h.shown 0 (by decide +kernel)).2
    revert hshown
    decide +kernel

end HopsetSensor

end devourer.hopset
