-- The exclusions that the sensor proposes against the samples that it took in:
-- its target was dirty for long enough, and the channels that it is compared
-- with may have been read only once.
import Devourer.Hopset.BandReadings
import Devourer.Hopset.PolicyHistory

namespace devourer.hopset

open DoubleOps

namespace HopsetSensor

variable {F : Type} [DoubleOps F]

/-- An activation stays within the base. -/
def Call.within (n : UInt64) : Call F → Bool
  | .on_activation mask _ => mask &&& ~~~(full_mask n) = 0
  | _ => true

/-- The occupancy of a sample that is taken in. -/
def admitted (cfg : TxSenseConfig F) (s : TxSenseSample F) : Option F :=
  if s.flags &&& drop_flags ≠ 0 ∨ s.window_us < cfg.min_window_us ∨ implausible cfg s = true then
    none
  else (score_sample s cfg).map (·.occupancy)

/-! ## The ledger -/

/-- The samples that were taken in on a channel, phase by phase, the latest first. -/
abbrev Past (F : Type) := SensePhase → List F

def Past.note (past : Past F) (k : SensePhase) : Option F → Past F
  | none => past
  | some v => Function.update past k (v :: past k)

/-- The mask that is in force, and what was taken in on each channel since an activation last
changed its bit. -/
structure Ledger (F : Type) where
  mask : UInt64
  past : ℕ → Past F := fun _ _ => []

/-- The samples in a row, up to the latest, that are as busy as it takes. -/
def streak (cfg : TxSenseConfig F) (past : List F) : ℕ :=
  (past.takeWhile (· ≥ cfg.occupancy_dirty)).length

namespace Ledger

def step (cfg : TxSenseConfig F) (l : Ledger F) : Call F → Ledger F
  | .ingest s =>
    let i := s.base_index.toNat
    { l with past := Function.update l.past i ((l.past i).note s.phase (admitted cfg s)) }
  | .on_activation mask _ =>
    { mask, past := fun i => if has_bit (mask ^^^ l.mask) i then fun _ => [] else l.past i }
  | _ => l

variable (cfg : TxSenseConfig F) (n : UInt64) (l : Ledger F)

/-- The latest samples of a phase, as many as its ring has. -/
def window (i : ℕ) (k : SensePhase) : List F := (l.past i k).take cfg.depth

/-- The mean of the latest samples, summed up in the order of their cells. -/
def mean (i : ℕ) (k : SensePhase) : F :=
  if l.window cfg i k = [] then 0.0
  else (Window.laid cfg.depth (l.past i k)).foldl (· + ·) 0.0 / ofInt (l.window cfg i k).length

/-- The mean of the samples after the burst, or else of those before it. -/
def occupancy (i : ℕ) : F :=
  l.mean cfg i (if l.window cfg i .PostBurst ≠ [] then .PostBurst else .PreBurst)

/-- The phase that a sustained run is looked for in. -/
def gate (i : ℕ) : SensePhase :=
  if cfg.require_post_burst ∨
      (l.window cfg i .PreBurst).length ≤ (l.window cfg i .PostBurst).length then .PostBurst
  else .PreBurst

/-- An active channel with a sample. -/
def Read (i : ℕ) : Prop :=
  has_bit l.mask i = true ∧ (l.window cfg i .PreBurst ≠ [] ∨ l.window cfg i .PostBurst ≠ [])

/-- A channel that is dirty for long enough. The counters have 32 bits. -/
def Sustained (i : ℕ) : Prop :=
  l.Read cfg i ∧ cfg.dirty_run ≤ UInt32.ofNat (streak cfg (l.past i (l.gate cfg i))) ∧
    (cfg.require_post_burst = true →
      cfg.min_samples_per_chan ≤ UInt32.ofNat (l.past i .PostBurst).length)

/-- The first of the two channels, unless the second is worse. -/
def worse (found : Option ℕ) (i : ℕ) : Option ℕ :=
  if found.all (l.occupancy cfg i > l.occupancy cfg ·) then some i else found

instance (i : ℕ) : Decidable (l.Read cfg i) := inferInstanceAs (Decidable (_ ∧ (_ ∨ _)))

instance (i : ℕ) : Decidable (l.Sustained cfg i) :=
  inferInstanceAs (Decidable (_ ∧ _ ∧ (_ → _)))

/-- The worst of the channels that are dirty for long enough. -/
def worst : Option ℕ :=
  ((List.range n.toNat).filter (l.Sustained cfg ·)).foldl (l.worse cfg) none

/-- The other active channels with a sample that are cleaner by the margin. -/
def cleaner (worst : ℕ) : List ℕ :=
  (List.range n.toNat).filter fun i =>
    i ≠ worst ∧ l.Read cfg i ∧ l.occupancy cfg i ≤ l.occupancy cfg worst - cfg.cleaner_margin

/-- A channel with too few samples in either phase. -/
def Thin (i : ℕ) : Prop := ∀ k, (l.past i k).length < cfg.min_samples_per_chan.toNat

instance (i : ℕ) : Decidable (l.Thin cfg i) :=
  decidable_of_iff ((l.past i .PreBurst).length < cfg.min_samples_per_chan.toNat ∧
    (l.past i .PostBurst).length < cfg.min_samples_per_chan.toNat)
    ⟨fun h k => by cases k with
      | PreBurst => exact h.1
      | PostBurst => exact h.2, fun h => ⟨h _, h _⟩⟩

/-- Of the channels that are cleaner than the worst, the thin ones are no more than there are to
spare. -/
def ThinSpared : Prop :=
  ∀ i ∈ l.worst cfg n,
    (l.cleaner cfg n i).countP (l.Thin cfg ·) ≤
      (l.cleaner cfg n i).length - cfg.min_cleaner_chans.toNat

end Ledger

def ledger (cfg : TxSenseConfig F) (n : UInt64) (calls : List (Call F)) : Ledger F :=
  Runs.after (Ledger.step cfg) { mask := full_mask n } calls

/-! ## What the counters stand for -/

structure PhaseKept (cfg : TxSenseConfig F) (p : Phase F) (past : List F) : Prop where
  ring : p.ring.Holds cfg.depth past
  samples : p.samples = UInt32.ofNat past.length
  dirty : p.dirty_run = UInt32.ofNat (streak cfg past)

structure Kept (cfg : TxSenseConfig F) (c : Chan F) (past : Past F) : Prop where
  pre : PhaseKept cfg c.pre (past .PreBurst)
  post : PhaseKept cfg c.post (past .PostBurst)

section

variable {cfg : TxSenseConfig F} {c : Chan F} {p : Phase F} {past : Past F} {k : SensePhase}

theorem PhaseKept.take {past : List F} (h : PhaseKept cfg p past) (sc : SenseScore F) :
    PhaseKept cfg (p.take cfg sc) (sc.occupancy :: past) where
  ring := h.ring.push sc.occupancy
  samples := by
    rw [Phase.take, h.samples, List.length_cons, UInt32.ofNat_add]
    rfl
  dirty := by
    rw [Phase.take, h.dirty]
    exact tally_streak (fun v => decide (v ≥ cfg.occupancy_dirty)) past sc.occupancy

theorem Kept.phase (h : Kept cfg c past) : (k : SensePhase) → PhaseKept cfg (c.phase k) (past k)
  | .PreBurst => h.pre
  | .PostBurst => h.post

theorem kept_empty (cfg : TxSenseConfig F) : Kept cfg {} fun _ => [] := by
  have hempty : PhaseKept cfg {} [] := by
    refine ⟨Window.holds_empty ?_ 0.0, rfl, rfl⟩
    unfold TxSenseConfig.depth
    split
    · next h => exact (UInt32.lt_iff_toNat_lt.mp h).le
    · exact le_rfl
  exact ⟨hempty, hempty⟩

theorem Kept.of_phases (h : Kept cfg c past) {c' : Chan F} (hpre : c'.pre = c.pre)
    (hpost : c'.post = c.post) : Kept cfg c' past :=
  ⟨hpre ▸ h.pre, hpost ▸ h.post⟩

theorem Kept.set_phase (h : Kept cfg c past) {q : Phase F} {vs : List F} (hq : PhaseKept cfg q vs) :
    Kept cfg (c.set_phase k q) (Function.update past k vs) := by
  cases k with
  | PreBurst => exact ⟨hq, h.post⟩
  | PostBurst => exact ⟨h.pre, hq⟩

/-- A phase that has not taken a sample in. -/
theorem Kept.drop (h : Kept cfg c past) (hp : PhaseKept cfg p (past k)) :
    Kept cfg (c.set_phase k p.drop) past := by
  have hdrop : PhaseKept cfg p.drop (past k) := ⟨hp.ring, hp.samples, hp.dirty⟩
  rw [← Function.update_eq_self k past]
  exact h.set_phase hdrop

/-- What an admitted sample shows is noted, and nothing else. -/
theorem Kept.ingest (h : Kept cfg c past) (s : TxSenseSample F) :
    Kept cfg (ingest_chan cfg c s).1 (past.note s.phase (admitted cfg s)) := by
  have hp := h.phase s.phase
  unfold ingest_chan admitted
  dsimp only
  split
  · next hflags =>
    rw [if_pos (.inl hflags)]
    exact h.drop hp
  · next hflags =>
    split
    · next hwindow =>
      rw [if_pos (.inr (.inl hwindow))]
      exact h.drop hp
    · next hwindow =>
      split
      · next himp =>
        rw [if_pos (.inr (.inr himp))]
        exact h.drop hp
      · next himp =>
        have hadmitted : ¬ (s.flags &&& drop_flags ≠ 0 ∨ s.window_us < cfg.min_window_us ∨
            implausible cfg s = true) := by
          rintro (h | h | h)
          · exact hflags h
          · exact hwindow h
          · exact himp h
        rw [if_neg hadmitted]
        -- the rails are marked before the score
        have hp : ∀ railed, PhaseKept cfg { c.phase s.phase with igi_railed := railed }
            (past s.phase) := fun _ => ⟨hp.ring, hp.samples, hp.dirty⟩
        cases hscore : score_sample s cfg with
        | none =>
          dsimp only
          split
          · refine Kept.of_phases (c := c.set_phase s.phase _) ?_ rfl rfl
            exact h.drop (hp _)
          · exact h.drop (hp _)
        | some sc =>
          dsimp only
          split
          · refine Kept.of_phases (c := c.set_phase s.phase _) ?_ rfl rfl
            exact h.set_phase ((hp _).take sc)
          · refine Kept.of_phases (c := c.set_phase s.phase _) ?_ rfl rfl
            exact h.set_phase ((hp _).take sc)

end

/-! ## Runs -/

/-- The sensor knows of every channel what the ledger has of it. -/
structure Agrees (cfg : TxSenseConfig F) (n : UInt64) (x : HopsetSensor F) (l : Ledger F) :
    Prop where
  same_cfg : x.cfg_ = cfg
  same_n : x.n_ = n
  mask : x.mask_ = l.mask
  chans : ∀ i < n.toNat, Kept cfg (x.ch_ i) (l.past i)

section

variable {cfg : TxSenseConfig F} {n : UInt64} {x : HopsetSensor F} {l : Ledger F}

theorem Agrees.ingest (h : Agrees cfg n x l) (s : TxSenseSample F) :
    Agrees cfg n (x.ingest s) (l.step cfg (.ingest s)) := by
  have hother : ∀ i ≠ s.base_index.toNat, (l.step cfg (.ingest s)).past i = l.past i :=
    fun i hi => Function.update_of_ne hi _ _
  unfold HopsetSensor.ingest
  split
  · next hout =>
    -- the ledger has the sample, of a channel that nobody asks for
    refine ⟨h.same_cfg, h.same_n, h.mask, ?_⟩
    intro i hi
    rw [h.same_n] at hout
    rw [hother i (by omega)]
    exact h.chans i hi
  · refine ⟨h.same_cfg, h.same_n, h.mask, ?_⟩
    intro i hi
    dsimp only
    by_cases his : i = s.base_index.toNat
    · subst his
      have hpast : (l.step cfg (.ingest s)).past s.base_index.toNat =
          (l.past s.base_index.toNat).note s.phase (admitted cfg s) :=
        Function.update_self _ _ _
      rw [Function.update_self, hpast, h.same_cfg]
      exact (h.chans _ hi).ingest s
    · rw [Function.update_of_ne his, hother i his]
      exact h.chans i hi

theorem Agrees.on_activation (h : Agrees cfg n x l) (mask now_round : UInt64) :
    Agrees cfg n (x.on_activation mask now_round)
      (l.step cfg (.on_activation mask now_round)) := by
  refine ⟨h.same_cfg, h.same_n, rfl, ?_⟩
  intro i hi
  have hin : i < x.n_.toNat := by rw [h.same_n]; exact hi
  simp only [HopsetSensor.on_activation, Ledger.step, h.mask, hin, true_and]
  split
  · exact kept_empty cfg
  · exact h.chans i hi

theorem Agrees.evaluate (h : Agrees cfg n x l) (now_round : UInt64) :
    Agrees cfg n (x.evaluate now_round).2 l := by
  generalize hr : x.evaluate now_round = r
  have hev := x.evaluate_evaluated now_round
  rw [hr] at hev
  cases hev with
  | hold reason => exact h
  | exclude worst worst_occ hs => exact ⟨h.same_cfg, h.same_n, h.mask, h.chans⟩
  | restore i => exact ⟨h.same_cfg, h.same_n, h.mask, h.chans⟩

theorem Agrees.step (h : Agrees cfg n x l) (c : Call F) :
    Agrees cfg n (x.step c) (l.step cfg c) := by
  cases c with
  | ingest s => exact h.ingest s
  | on_activation mask now_round => exact h.on_activation mask now_round
  | clear_outstanding now_round => exact ⟨h.same_cfg, h.same_n, h.mask, h.chans⟩
  | evaluate now_round => exact h.evaluate now_round

end

theorem agrees_after {cfg : TxSenseConfig F} {n : UInt64} {x : HopsetSensor F}
    (h : create cfg n = .ok x) (calls : List (Call F)) :
    Agrees cfg n (Runs.after step x calls) (ledger cfg n calls) := by
  induction calls using List.reverseRecOn with
  | nil =>
    unfold create at h
    split at h
    · cases h
    · cases h
      exact ⟨rfl, rfl, rfl, fun _ _ => kept_empty cfg⟩
  | append_singleton calls c ih =>
    rw [ledger, Runs.after_snoc, Runs.after_snoc]
    exact ih.step c

theorem mask_within {cfg : TxSenseConfig F} {n : UInt64} {calls : List (Call F)}
    (h : ∀ c ∈ calls, c.within n = true) : (ledger cfg n calls).mask ≤ full_mask n := by
  induction calls using List.reverseRecOn with
  | nil => exact UInt64.le_refl _
  | append_singleton calls c ih =>
    have ih := ih fun c hc => h c (List.mem_append_left _ hc)
    have hc := h c (List.mem_append_right _ List.mem_cons_self)
    rw [ledger, Runs.after_snoc]
    cases c with
    | on_activation mask now_round => exact le_of_and_not (of_decide_eq_true hc)
    | ingest s => exact ih
    | clear_outstanding now_round => exact ih
    | evaluate now_round => exact ih

/-! ## What the sensor finds -/

section

variable {cfg : TxSenseConfig F} {n : UInt64} {x : HopsetSensor F} {l : Ledger F} {i : ℕ}

theorem Agrees.ring_n (h : Agrees cfg n x l) (hi : i < n.toNat) (k : SensePhase) :
    ((x.ch_ i).phase k).ring.n = (l.window cfg i k).length := by
  rw [((h.chans i hi).phase k).ring.n, Ledger.window, List.length_take, min_comm]

theorem Agrees.ring_eq_zero (h : Agrees cfg n x l) (hi : i < n.toNat) (k : SensePhase) :
    ((x.ch_ i).phase k).ring.n = 0 ↔ l.window cfg i k = [] := by
  rw [h.ring_n hi, List.length_eq_zero_iff]

theorem Agrees.mean (h : Agrees cfg n x l) (hi : i < n.toNat) (k : SensePhase) :
    Chan.mean ((x.ch_ i).phase k) = l.mean cfg i k := by
  unfold Chan.mean Ledger.mean
  simp only [h.ring_n hi, List.length_eq_zero_iff, ((h.chans i hi).phase k).ring.live_eq]

theorem Agrees.occupancy (h : Agrees cfg n x l) (hi : i < n.toNat) :
    (x.ch_ i).occupancy = l.occupancy cfg i := by
  have hpost := h.ring_eq_zero hi .PostBurst
  unfold Chan.occupancy Ledger.occupancy
  by_cases hn : (x.ch_ i).post.ring.n ≠ 0
  · rw [if_pos hn, if_pos (fun hnil => hn (hpost.mpr hnil))]
    exact h.mean hi .PostBurst
  · rw [if_neg hn, if_neg (fun hnil => hn fun h0 => hnil (hpost.mp h0))]
    exact h.mean hi .PreBurst

theorem Agrees.read_iff (h : Agrees cfg n x l) (hi : i < n.toNat) :
    has_bit x.mask_ i = true ∧ (x.ch_ i).have_evidence = true ↔ l.Read cfg i := by
  have hpre := h.ring_eq_zero hi .PreBurst
  have hpost := h.ring_eq_zero hi .PostBurst
  simp only [Chan.phase] at hpre hpost
  rw [h.mask, Chan.have_evidence, Ledger.Read]
  simp [hpre, hpost]

theorem Agrees.cleaner (h : Agrees cfg n x l) {worst : ℕ} (hworst : worst < n.toNat) :
    x.cleaner worst (x.ch_ worst).occupancy = (l.cleaner cfg n worst).length := by
  unfold HopsetSensor.cleaner Ledger.cleaner
  rw [List.countP_eq_length_filter, h.same_n]
  congr 1
  apply List.filter_congr
  intro i hi
  have hi := List.mem_range.mp hi
  rw [Bool.eq_iff_iff]
  simp only [Bool.and_eq_true, decide_eq_true_eq, and_assoc]
  rw [← h.read_iff hi, h.occupancy hi, h.occupancy hworst, h.same_cfg, and_assoc]

/-- The phase that gates, with the samples that its run counts. -/
theorem Agrees.gate (h : Agrees cfg n x l) (hi : i < n.toNat) :
    HopsetSensor.gate cfg (x.ch_ i) = (x.ch_ i).phase (l.gate cfg i) := by
  have hpre : (x.ch_ i).pre.ring.n = (l.window cfg i .PreBurst).length := h.ring_n hi .PreBurst
  have hpost : (x.ch_ i).post.ring.n = (l.window cfg i .PostBurst).length := h.ring_n hi .PostBurst
  unfold HopsetSensor.gate Ledger.gate worse_phase
  rw [hpre, hpost]
  by_cases hreq : cfg.require_post_burst = true
  · rw [if_pos hreq, if_pos (.inl hreq)]
    rfl
  · rw [if_neg hreq]
    by_cases hge : (l.window cfg i .PreBurst).length ≤ (l.window cfg i .PostBurst).length
    · rw [if_pos hge, if_pos (.inr hge)]
      rfl
    · rw [if_neg hge, if_neg (not_or.mpr ⟨hreq, hge⟩)]
      rfl

theorem Agrees.dirty_run (h : Agrees cfg n x l) (hi : i < n.toNat) :
    (HopsetSensor.gate cfg (x.ch_ i)).dirty_run =
      UInt32.ofNat (streak cfg (l.past i (l.gate cfg i))) := by
  rw [h.gate hi]
  exact ((h.chans i hi).phase _).dirty

/-- One round of the loop, on the samples. -/
theorem Agrees.scan_chan (h : Agrees cfg n x l) (hi : i < n.toNat) {s : Scan F} {found : Option ℕ}
    (hs : s.worst = found.map fun j => (j, l.occupancy cfg j)) :
    (x.scan_chan s i).worst =
      (if l.Sustained cfg i then l.worse cfg found i else found).map
        fun j => (j, l.occupancy cfg j) := by
  have hread := h.read_iff hi
  have hrun := h.dirty_run hi
  have hsamples : (x.ch_ i).post.samples = UInt32.ofNat (l.past i .PostBurst).length :=
    (h.chans i hi).post.samples
  have hall : s.worst.all ((x.ch_ i).occupancy > ·.2) =
      found.all (l.occupancy cfg i > l.occupancy cfg ·) := by
    rw [hs, h.occupancy hi]
    cases found <;> rfl
  unfold HopsetSensor.gate at hrun
  unfold HopsetSensor.scan_chan
  dsimp only
  rw [h.same_cfg, hrun, hall, h.occupancy hi, ph_scored, hsamples]
  split
  · next hskip =>
    have hnot : ¬ l.Sustained cfg i := by
      intro hsus
      obtain ⟨hactive, hev⟩ := hread.mpr hsus.1
      simp [hactive, hev] at hskip
    rw [if_neg hnot, hs]
  · next hkeep =>
    simp only [Bool.or_eq_true, Bool.not_eq_true', not_or, Bool.not_eq_false] at hkeep
    split
    · next hshort =>
      rw [if_neg (fun hsus => UInt32.not_le.mpr hshort hsus.2.1), hs]
    · next hlong =>
      split
      · next hmissing =>
        simp only [Bool.and_eq_true, Bool.not_eq_true', decide_eq_false_iff_not] at hmissing
        rw [if_neg (fun hsus => hmissing.2 (hsus.2.2 hmissing.1)), hs]
      · next hpresent =>
        have hsus : l.Sustained cfg i := by
          refine ⟨hread.mp hkeep, UInt32.not_lt.mp hlong, fun hreq => ?_⟩
          by_contra hfew
          exact hpresent (by simp [hreq, hfew])
        rw [if_pos hsus, Ledger.worse]
        split
        · rfl
        · exact hs

theorem Agrees.scan_worst (h : Agrees cfg n x l) :
    x.scan.worst = (l.worst cfg n).map fun j => (j, l.occupancy cfg j) := by
  have hfold : ∀ is : List ℕ, (∀ i ∈ is, i < n.toNat) → ∀ (s : Scan F) (found : Option ℕ),
      s.worst = (found.map fun j => (j, l.occupancy cfg j)) →
      (is.foldl x.scan_chan s).worst =
        ((is.filter (l.Sustained cfg ·)).foldl (l.worse cfg) found).map
          fun j => (j, l.occupancy cfg j) := by
    intro is his
    induction is with
    | nil => exact fun s found hs => hs
    | cons i is ih =>
      intro s found hs
      have hrest := ih (fun j hj => his j (List.mem_cons_of_mem _ hj)) _ _
        (h.scan_chan (his i List.mem_cons_self) hs)
      rw [List.foldl_cons, hrest]
      by_cases hsus : l.Sustained cfg i
      · rw [if_pos hsus, List.filter_cons_of_pos (by simpa using hsus), List.foldl_cons]
      · rw [if_neg hsus, List.filter_cons_of_neg (by simpa using hsus)]
  rw [scan, h.same_n]
  exact hfold _ (fun i hi => List.mem_range.mp hi) {} none rfl

end

/-! ## Backed exclusions -/

/-- The target of an exclusion was dirty in its last samples of the phase that gates, enough
channels are cleaner on enough samples, and enough channels are left. -/
structure ExcludeBacked (cfg : TxSenseConfig F) (n : UInt64) (l : Ledger F)
    (d : TxSenseCandidate F) : Prop where
  active : d.target_index < n.toNat ∧ has_bit l.mask d.target_index = true
  enough : cfg.dirty_run.toNat ≤ (l.past d.target_index (l.gate cfg d.target_index)).length
  dirty : ∀ v ∈ (l.past d.target_index (l.gate cfg d.target_index)).take cfg.dirty_run.toNat,
    cfg.occupancy_dirty ≤ v
  cleaner : cfg.min_cleaner_chans.toNat ≤
    ((l.cleaner cfg n d.target_index).filter (¬ l.Thin cfg ·)).length
  floor : max 3 cfg.min_active.toNat ≤ HopsetPolicy.active_count n d.proposed_mask
  share : ¬ cfg.max_excluded_frac <
    ofInt (n.toNat - HopsetPolicy.active_count n d.proposed_mask : ℕ) / ofInt n.toNat

section

variable {cfg : TxSenseConfig F} {n : UInt64} {x : HopsetSensor F} {l : Ledger F} {i : ℕ}

theorem Agrees.exclude_backed_iff (h : Agrees cfg n x l) (hn : n ≤ 64)
    (hmask : l.mask ≤ full_mask n) {worst : ℕ} {worst_occ : F} (hs : x.ExcludeSpec worst worst_occ)
    {d : TxSenseCandidate F} (htarget : d.target_index = worst)
    (hproposed : d.proposed_mask = x.mask_ &&& ~~~bit worst) :
    ExcludeBacked cfg n l d ↔ l.ThinSpared cfg n := by
  have hlt : worst < n.toNat := h.same_n ▸ hs.target
  have hworst : l.worst cfg n = some worst := by
    have hscan := hs.scanned
    rw [h.scan_worst, Option.map_eq_some_iff] at hscan
    obtain ⟨j, hj, hpair⟩ := hscan
    rwa [(Prod.mk.inj hpair).1] at hj
  have hcount : cfg.min_cleaner_chans.toNat ≤ (l.cleaner cfg n worst).length := by
    rw [← h.cleaner hlt, ← hs.occ, ← h.same_cfg]
    exact hs.cleaner
  have hspared : l.ThinSpared cfg n ↔ cfg.min_cleaner_chans.toNat ≤
      ((l.cleaner cfg n worst).filter (¬ l.Thin cfg ·)).length := by
    have hsplit := List.length_eq_length_filter_add (l := l.cleaner cfg n worst)
      (fun i => decide (l.Thin cfg i))
    unfold Ledger.ThinSpared
    simp only [hworst, Option.mem_some_iff, forall_eq', List.countP_eq_length_filter, decide_not]
    omega
  rw [hspared]
  constructor
  · intro hb
    have hcleaner := hb.cleaner
    rwa [htarget] at hcleaner
  · intro hcleaner
    have hrun := hs.run
    rw [h.same_cfg, h.dirty_run hlt] at hrun
    have hstreak : cfg.dirty_run.toNat ≤ streak cfg (l.past worst (l.gate cfg worst)) :=
      (UInt32.le_iff_toNat_le.mp hrun).trans (Nat.mod_le _ _)
    obtain ⟨henough, hdirty⟩ := forall_of_le_tally hstreak
    have hle : d.proposed_mask ≤ full_mask n := by
      rw [hproposed, h.mask]
      exact UInt64.le_trans (and_le_left _ _) hmask
    have hfloor := UInt32.le_iff_toNat_le.mp hs.floor
    have hshare := hs.share
    rw [HopsetPolicy.floor_active_toNat, h.same_cfg, ← hproposed,
      HopsetPolicy.popcount64_active hn hle] at hfloor
    rw [h.same_n, h.same_cfg, excluded_share, ← hproposed] at hshare
    have hrest := HopsetPolicy.popcount64_excluded hn d.proposed_mask
    subst htarget
    refine ⟨⟨hlt, h.mask ▸ hs.active⟩, henough, ?_, hcleaner, hfloor, ?_⟩
    · intro v hv
      exact of_decide_eq_true (hdirty v hv)
    · rwa [← Nat.eq_sub_of_add_eq hrest]

end

theorem create_le {cfg : TxSenseConfig F} {n : UInt64} {x : HopsetSensor F}
    (h : create cfg n = .ok x) : n ≤ 64 := by
  unfold create at h
  split at h
  · cases h
  · next hn => exact UInt64.not_lt.mp (not_or.mp hn).2

/-- In every run an exclusion is backed by samples enough exactly if the channels with too few of
them are not what makes up the number. -/
theorem an_exclusion_rests_on_enough_iff {cfg : TxSenseConfig F} {n : UInt64} {x : HopsetSensor F}
    (h : create cfg n = .ok x) {calls : List (Call F)} (hbase : ∀ c ∈ calls, c.within n = true)
    (now_round : UInt64)
    (hk : ((Runs.after step x calls).evaluate now_round).1.kind = .ProposeExclude) :
    ExcludeBacked cfg n (ledger cfg n calls) ((Runs.after step x calls).evaluate now_round).1 ↔
      (ledger cfg n calls).ThinSpared cfg n := by
  have ha := agrees_after h calls
  generalize hr : (Runs.after step x calls).evaluate now_round = r at hk ⊢
  have hev := (Runs.after step x calls).evaluate_evaluated now_round
  rw [hr] at hev
  cases hev with
  | hold reason => cases hk
  | exclude worst worst_occ hs =>
    exact ha.exclude_backed_iff (create_le h) (mask_within hbase) hs rfl rfl
  | restore i => cases hk

open scoped DoubleOps

/-- A busy channel and two others of this occupancy, each of which is read twelve times. -/
def three_read_often (others : Float) : List (Call Float) :=
  (List.range 36).map fun r => .ingest
    { round := r.toUInt64
      base_index := (r % 3).toUInt32
      phase := .PostBurst
      window_us := 1000
      injected := true
      injected_occupancy := if r % 3 = 0 then 0.8 else others }

/-- A channel that is read once, before the burst, and found empty. -/
def quiet_window (i : UInt32) : Call Float :=
  .ingest { base_index := i, window_us := 1000, injected := true }

/-- Two quiet channels that were read often stand against the busy one, and a third that was read
once does no harm. -/
theorem two_quiet_channels_back_it : ∃ x, create {} 6 = .ok x ∧
    ExcludeBacked {} 6 (ledger {} 6 (three_read_often 0.1 ++ [quiet_window 3]))
      ((Runs.after step x (three_read_often 0.1 ++ [quiet_window 3])).evaluate 40).1 := by
  refine ⟨_, rfl, ?_⟩
  have hbase : ∀ c ∈ three_read_often 0.1 ++ [quiet_window 3], c.within 6 = true := by
    decide +kernel
  refine (an_exclusion_rests_on_enough_iff rfl hbase 40 (by decide +kernel)).mpr ?_
  unfold Ledger.ThinSpared
  decide +kernel

/-- Two quiet channels that were read once stand against the busy one. -/
theorem two_quiet_windows_are_enough :
    ¬ ∀ (x : HopsetSensor Float) (calls : List (Call Float)) (now_round : UInt64),
      create {} 6 = .ok x → (∀ c ∈ calls, c.within 6 = true) →
      ((Runs.after step x calls).evaluate now_round).1.kind = .ProposeExclude →
      ExcludeBacked {} 6 (ledger {} 6 calls) ((Runs.after step x calls).evaluate now_round).1 := by
  intro h
  have hbacked := h _
    (three_read_often 0.55 ++ [quiet_window 3, quiet_window 4]) 40 rfl (by decide +kernel)
    (by decide +kernel)
  have hcleaner := hbacked.cleaner
  revert hcleaner
  decide +kernel

end HopsetSensor

end devourer.hopset
