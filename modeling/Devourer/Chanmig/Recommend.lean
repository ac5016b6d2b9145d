-- What stands behind a recommendation: the gates of the candidate, the holds
-- of the decision, and over a run the store, the track and the cooldown.
import Devourer.Chanmig.ChannelScore

namespace devourer.chanmig

variable {F : Type} [DoubleOps F]

/-! ## What the store hands out -/

namespace EvidenceStore

variable {s : EvidenceStore (BinCell F)} {now_ms : ℤ}

omit [DoubleOps F] in
theorem fresh_cell_of_newest {ch : UInt8} {cell : BinCell F}
    (h : s.newest_of now_ms ch = some cell) :
    cell ∈ s.fresh_cells now_ms ch := by
  unfold newest_of at h
  unfold fresh_cells
  cases hb : s.find_bin ch with
  | none =>
    rw [hb] at h
    cases h
  | some b =>
    rw [hb] at h
    have hfind : b.cells.reverse.find? (s.fresh now_ms) = some cell := h
    have hmem := List.mem_of_find?_eq_some hfind
    have hfresh := List.find?_some hfind
    exact List.mem_filter.mpr ⟨List.mem_reverse.mp hmem, hfresh⟩

omit [DoubleOps F] in
theorem age_of_fresh_cell {ch : UInt8} {cell : BinCell F} (h : cell ∈ s.fresh_cells now_ms ch) :
    now_ms - cell.t_ms ≤ s.max_age_ms_ := by
  unfold fresh_cells at h
  split at h
  · cases h
  · exact of_decide_eq_true (List.mem_filter.mp h).2

omit [DoubleOps F] in
/-- An age is given only where every bin has a fresh cell. -/
theorem newest_of_age {bins : List UInt8} {worst : ℤ}
    (h : 0 ≤ s.evidence_age_loop now_ms worst bins) :
    ∀ ch ∈ bins, ∃ cell, s.newest_of now_ms ch = some cell := by
  induction bins generalizing worst with
  | nil =>
    intro ch hch
    cases hch
  | cons b bins ih =>
    unfold evidence_age_loop at h
    cases hb : s.newest_of now_ms b with
    | none =>
      rw [hb] at h
      have hneg : (0 : ℤ) ≤ -1 := h
      omega
    | some cell =>
      rw [hb] at h
      intro ch hch
      rcases List.mem_cons.mp hch with rfl | hch
      · exact ⟨cell, hb⟩
      · exact ih h ch hch

end EvidenceStore

namespace RecommendEngine

variable {e : RecommendEngine F} {now_ms : ℤ} {c : Cand (BinCell F)}

/-! ## The gates -/

/-- Nothing is rejected exactly if every gate lets the candidate pass. -/
theorem foldl_reject_eq_nil {gates : List (Bool × Reason)} {rejections : List Reason} :
    gates.foldl reject rejections = [] ↔ rejections = [] ∧ ∀ g ∈ gates, g.1 = false := by
  induction gates generalizing rejections with
  | nil => simp
  | cons g gates ih =>
    have hreject : reject rejections g = [] ↔ rejections = [] ∧ g.1 = false := by
      unfold reject
      constructor
      · intro h
        split at h
        · exact absurd h (List.append_ne_nil_of_right_ne_nil _ (List.cons_ne_nil _ _))
        · rename_i hgate
          subst h
          simpa using hgate
      · rintro ⟨rfl, hgate⟩
        simp [hgate]
    rw [List.foldl_cons, ih, hreject, List.forall_mem_cons, and_assoc]

/-- The bins that a scan went over: each was observed for as long as the least says. -/
theorem scan_bins_clean {bins : List UInt8} {a : BinScan F} :
    (bins.foldl (e.scan_bin now_ms) a).min_bin_clean_ms ≤ a.min_bin_clean_ms ∧
      ∀ bin ∈ bins, (bins.foldl (e.scan_bin now_ms) a).min_bin_clean_ms ≤
        observed_ms (e.store_.fresh_cells now_ms bin) := by
  induction bins generalizing a with
  | nil => exact ⟨le_refl _, fun _ h => absurd h List.not_mem_nil⟩
  | cons b bins ih =>
    obtain ⟨hle, hbins⟩ := @ih (e.scan_bin now_ms a b)
    have hstep : (e.scan_bin now_ms a b).min_bin_clean_ms ≤ a.min_bin_clean_ms ∧
        (e.scan_bin now_ms a b).min_bin_clean_ms ≤ observed_ms (e.store_.fresh_cells now_ms b) := by
      simp only [scan_bin]
      split
      · omega
      · omega
    rw [List.foldl_cons]
    refine ⟨hle.trans hstep.1, ?_⟩
    intro bin hbin
    rcases List.mem_cons.mp hbin with rfl | hbin
    · exact hle.trans hstep.2
    · exact hbins bin hbin

/-- What a qualified candidate has passed. -/
structure Qualified (e : RecommendEngine F) (now_ms : ℤ) (c : Cand (BinCell F)) : Prop where
  transmits : c.def_.no_ir = false
  legal : validate c.def_ = true
  elsewhere : c.def_.same_rf e.active_ = false
  scout : e.scout_healthy_ = true
  aged : 0 ≤ e.store_.evidence_age_ms now_ms c
  covered : (constituent_bins c.def_).length ≤ e.store_.bins_covered now_ms c
  observed : ∀ bin ∈ constituent_bins c.def_,
    e.policy_.min_clean_obs_ms ≤ observed_ms (e.store_.fresh_cells now_ms bin)
  rounds : ¬ e.store_.rounds_covered now_ms c < e.policy_.min_rounds

theorem qualified_of_score (h : (e.score_candidate now_ms c).qualified = true) :
    e.Qualified now_ms c := by
  simp only [score_candidate, List.isEmpty_iff, foldl_reject_eq_nil, List.forall_mem_cons,
    Bool.or_eq_false_iff, Bool.not_eq_false', decide_eq_false_iff_not, not_lt] at h
  obtain ⟨-, hir, hlegal, hactive, hscout, ⟨⟨hcells, haged⟩, -⟩, hcovered, hobserved, hrounds, -⟩ :=
    h
  refine ⟨hir, hlegal, hactive, hscout, haged, hcovered, ?_, hrounds⟩
  intro bin hbin
  rw [hcells, Bool.true_and, decide_eq_false_iff_not, not_lt] at hobserved
  exact hobserved.trans (scan_bins_clean.2 bin hbin)

/-! ## One decision -/

/-- What a decision does: it holds and leaves the engine as it was, or it recommends the candidate
that ranks first. -/
inductive Decided (e : RecommendEngine F) (now_ms : ℤ) :
    RecommendEngine F × RankedDecision F → Prop
  | held {d : RankedDecision F} (h : d.recommend = false) : Decided e now_ms (e, d)
  | recommended {d : RankedDecision F} (h : d.recommend = true) (c : Cand (BinCell F))
      (hc : c ∈ e.store_.cands_)
      (target : d.target = c.def_) (active : e.hold_active = none)
      (best : e.hold_best now_ms (e.score_candidate now_ms c) = none) :
      Decided e now_ms ({ e with last_recommend_ms_ := now_ms }, d)

theorem decide_decided : e.Decided now_ms (e.decide now_ms) := by
  unfold RecommendEngine.decide
  simp only []
  split
  · exact .held rfl
  · rename_i hactive
    split
    · exact .held rfl
    · split
      · exact .held rfl
      · rename_i best rest hrank
        have hmem : best ∈ e.rank now_ms := by
          rw [hrank]
          exact List.mem_cons_self
        unfold rank at hmem
        obtain ⟨c, hc, rfl⟩ := List.mem_map.mp (List.mem_mergeSort.mp hmem)
        split
        · exact .held rfl
        · rename_i hbest
          exact .recommended rfl c hc rfl hactive hbest

theorem ite_hold_eq_none {p : Prop} [Decidable p] {r : Reason} {next : Option Reason} :
    (if p then some r else next) = none ↔ ¬ p ∧ next = none := by
  by_cases h : p
  · simp [h]
  · simp [h]

/-- The active link blames the channel for long enough, and the scout is healthy. -/
theorem hold_active_none (h : e.hold_active = none) : e.scout_healthy_ = true ∧
    e.policy_.impaired_windows_min ≤ e.track_.consecutive_channel_impaired := by
  simp only [hold_active, ite_hold_eq_none] at h
  obtain ⟨-, hscout, -, -, -, hwindows, -⟩ := h
  exact ⟨by simpa using hscout, not_lt.mp hwindows⟩

/-- The best candidate qualifies, and the last recommendation is long enough ago, if there is one
that is not read as none. -/
theorem hold_best_none {best : ScoredCandidate F} (h : e.hold_best now_ms best = none) :
    best.qualified = true ∧ (e.last_recommend_ms_ ≠ -2 ^ 63 →
      e.policy_.min_recommend_interval_ms ≤ now_ms - e.last_recommend_ms_) := by
  simp only [hold_best, ite_hold_eq_none] at h
  obtain ⟨hqualified, -, hcooldown, -⟩ := h
  refine ⟨by simpa using hqualified, ?_⟩
  intro hset
  by_contra hsoon
  exact hcooldown ⟨hset, not_le.mp hsoon⟩

/-! ## Runs -/

/-- What an engine is fed, and when it is asked. -/
inductive Input (F : Type)
  | dwell (d : SurveyDwell) (now_ms : ℤ)
  | window (w : ActiveLinkWindow F)
  | scout_health (healthy : Bool)
  | decide (now_ms : ℤ)

/-- An engine, and the times of the moves that it recommended, newest last. -/
structure Session (F : Type) [DoubleOps F] where
  engine : RecommendEngine F
  moves : List ℤ := []

/-- The session after a decision. -/
def Session.answered (s : Session F) (now_ms : ℤ) (r : RecommendEngine F × RankedDecision F) :
    Session F :=
  { engine := r.1
    moves := if r.2.recommend then s.moves ++ [now_ms] else s.moves }

def Session.step (s : Session F) : Input F → Session F
  | .dwell d now_ms => { s with engine := s.engine.ingest_dwell d now_ms }
  | .window w => { s with engine := s.engine.ingest_active w }
  | .scout_health healthy => { s with engine := s.engine.note_scout_health healthy }
  | .decide now_ms => s.answered now_ms (s.engine.decide now_ms)

/-- A fresh engine after these inputs. -/
def session (policy : PolicyConfig F) (candidates : List ChannelDef) (plan_hash : UInt32)
    (active : ChannelDef) (inputs : List (Input F)) : Session F :=
  Runs.after Session.step { engine := init policy candidates plan_hash active } inputs

def Input.window? : Input F → Option (ActiveLinkWindow F)
  | .window w => some w
  | _ => none

def Input.health? : Input F → Option Bool
  | .scout_health healthy => some healthy
  | _ => none

def windows (inputs : List (Input F)) : List (ActiveLinkWindow F) := inputs.filterMap Input.window?

/-- The last word on the scout, which is taken for healthy before the first. -/
def scout_health (inputs : List (Input F)) : Bool :=
  (inputs.filterMap Input.health?).getLast?.getD true

variable {policy : PolicyConfig F} {candidates : List ChannelDef} {plan_hash : UInt32}
  {active : ChannelDef} {inputs : List (Input F)}

/-- What an engine keeps of its inputs. -/
structure Follows (s : Session F) (policy : PolicyConfig F) (candidates : List ChannelDef)
    (active : ChannelDef) (inputs : List (Input F)) : Prop where
  same_policy : s.engine.policy_ = policy
  same_active : s.engine.active_ = active
  age : s.engine.store_.max_age_ms_ = policy.max_evidence_age_ms
  cands : s.engine.store_.cands_.map (fun c => (c.def_, c.bins)) =
    candidates.map fun d => (d, constituent_bins d)
  track : s.engine.track_.Counts policy.active (windows inputs)
  scout : s.engine.scout_healthy_ = scout_health inputs
  last : ∀ t, s.moves.getLast? = some t → s.engine.last_recommend_ms_ = t

omit [DoubleOps F] in
theorem windows_snoc (i : Input F) :
    windows (inputs ++ [i]) = windows inputs ++ (i.window?).toList := by
  unfold windows
  rw [List.filterMap_append]
  cases i with
  | window w => rfl
  | dwell d now_ms => rfl
  | scout_health healthy => rfl
  | decide now_ms => rfl

omit [DoubleOps F] in
theorem scout_health_snoc (i : Input F) :
    scout_health (inputs ++ [i]) = (i.health?).getD (scout_health inputs) := by
  unfold scout_health
  rw [List.filterMap_append]
  cases i with
  | scout_health healthy => simp [Input.health?]
  | window w => simp [Input.health?]
  | dwell d now_ms => simp [Input.health?]
  | decide now_ms => simp [Input.health?]

theorem follows_start :
    Follows ({ engine := init policy candidates plan_hash active } : Session F) policy candidates
      active [] := by
  have hfresh : EvidenceStore.Fresh (init policy candidates plan_hash active).store_ candidates
      policy.max_evidence_age_ms 32 := EvidenceStore.fresh_init _ _ _ _
  refine ⟨rfl, rfl, hfresh.age, hfresh.cands, ActiveLinkTrack.counts_start, rfl, ?_⟩
  intro t ht
  cases ht

theorem follows_dwell {s : Session F} (h : Follows s policy candidates active inputs)
    (d : SurveyDwell) (now_ms : ℤ) :
    Follows (s.step (.dwell d now_ms)) policy candidates active (inputs ++ [.dwell d now_ms]) := by
  have hsetup : EvidenceStore.SameSetup s.engine.store_
      (s.engine.ingest_dwell d now_ms).store_ := EvidenceStore.sameSetup_ingest
  refine ⟨h.same_policy, h.same_active, hsetup.age.trans h.age, hsetup.cands.trans h.cands, ?_, ?_,
    h.last⟩
  · rw [windows_snoc]
    exact (List.append_nil (windows inputs)).symm ▸ h.track
  · rw [scout_health_snoc]
    exact h.scout

theorem follows_decide {s : Session F} (h : Follows s policy candidates active inputs)
    (now_ms : ℤ) :
    Follows (s.step (.decide now_ms)) policy candidates active (inputs ++ [.decide now_ms]) := by
  have hwindows : windows (inputs ++ [.decide now_ms]) = windows inputs :=
    (windows_snoc _).trans (List.append_nil _)
  have hscout : scout_health (inputs ++ [.decide now_ms]) = scout_health inputs :=
    scout_health_snoc _
  have hdecided : s.engine.Decided now_ms (s.engine.decide now_ms) := decide_decided
  have hstep : s.step (.decide now_ms) = s.answered now_ms (s.engine.decide now_ms) := rfl
  rw [hstep]
  generalize s.engine.decide now_ms = r at hdecided
  unfold Session.answered
  cases hdecided with
  | held hhold =>
    rw [hhold, if_neg Bool.false_ne_true]
    exact ⟨h.same_policy, h.same_active, h.age, h.cands, hwindows ▸ h.track, hscout ▸ h.scout,
      h.last⟩
  | recommended hmove c hc target hactive hbest =>
    rw [hmove, if_pos rfl]
    refine ⟨h.same_policy, h.same_active, h.age, h.cands, hwindows ▸ h.track, hscout ▸ h.scout, ?_⟩
    intro t ht
    rw [List.getLast?_concat] at ht
    exact Option.some.inj ht

theorem follows_step {s : Session F} (h : Follows s policy candidates active inputs)
    (i : Input F) : Follows (s.step i) policy candidates active (inputs ++ [i]) := by
  cases i with
  | dwell d now_ms => exact follows_dwell h d now_ms
  | window w =>
    refine ⟨h.same_policy, h.same_active, h.age, h.cands, ?_, ?_, h.last⟩
    · rw [windows_snoc]
      exact ActiveLinkTrack.counts_add h.track w
    · rw [scout_health_snoc]
      exact h.scout
  | scout_health healthy =>
    refine ⟨h.same_policy, h.same_active, h.age, h.cands, ?_, ?_, h.last⟩
    · rw [windows_snoc]
      exact (List.append_nil (windows inputs)).symm ▸ h.track
    · rw [scout_health_snoc]
      rfl
  | decide now_ms => exact follows_decide h now_ms

theorem follows_session (inputs : List (Input F)) :
    Follows (session policy candidates plan_hash active inputs) policy candidates
      active inputs := by
  induction inputs using List.reverseRecOn with
  | nil => exact follows_start
  | append_singleton inputs i ih =>
    unfold session at ih ⊢
    rw [Runs.after_snoc]
    exact follows_step ih i

/-! ## The recommendation -/

/-- The target of a recommendation is a legal candidate that was observed in full, and the link
has a reason to move. -/
structure Warranted (policy : PolicyConfig F) (candidates : List ChannelDef) (active : ChannelDef)
    (inputs : List (Input F)) (store : EvidenceStore (BinCell F)) (now_ms : ℤ)
    (target : ChannelDef) : Prop where
  configured : target ∈ candidates
  legal : validate target = true
  transmits : target.no_ir = false
  elsewhere : target.same_rf active = false
  fresh : ∀ bin ∈ constituent_bins target, ∃ cell ∈ store.fresh_cells now_ms bin,
    now_ms - cell.t_ms ≤ policy.max_evidence_age_ms
  observed : ∀ bin ∈ constituent_bins target,
    policy.min_clean_obs_ms ≤ observed_ms (store.fresh_cells now_ms bin)
  scout : scout_health inputs = true
  impaired : ActiveLinkTrack.ImpairedFor policy.active (windows inputs) policy.impaired_windows_min

theorem follows_configured {s : Session F} (h : Follows s policy candidates active inputs)
    (hc : c ∈ s.engine.store_.cands_) : c.def_ ∈ candidates ∧ c.bins = constituent_bins c.def_ := by
  have hmem : (c.def_, c.bins) ∈ s.engine.store_.cands_.map fun c => (c.def_, c.bins) :=
    List.mem_map_of_mem hc
  rw [h.cands] at hmem
  obtain ⟨d, hd, heq⟩ := List.mem_map.mp hmem
  obtain ⟨rfl, hbins⟩ := Prod.mk.inj heq
  exact ⟨hd, hbins.symm⟩

/-- A move is recommended only on full and fresh evidence, and never sooner after the last one than
the policy allows, if the time of that one is not the least of 64 bits. -/
theorem recommend_is_warranted (policy : PolicyConfig F) (candidates : List ChannelDef)
    (plan_hash : UInt32) (active : ChannelDef) (inputs : List (Input F)) (now_ms : ℤ)
    (h : ((session policy candidates plan_hash active inputs).engine.decide now_ms).2.recommend =
      true) :
    Warranted policy candidates active inputs
        (session policy candidates plan_hash active inputs).engine.store_ now_ms
        ((session policy candidates plan_hash active inputs).engine.decide now_ms).2.target ∧
      ∀ t, (session policy candidates plan_hash active inputs).moves.getLast? = some t →
        t ≠ -2 ^ 63 → policy.min_recommend_interval_ms ≤ now_ms - t := by
  have hfollows : Follows (session policy candidates plan_hash active inputs) policy candidates
    active inputs := follows_session inputs
  generalize session policy candidates plan_hash active inputs = s at h hfollows ⊢
  have hdecided : s.engine.Decided now_ms (s.engine.decide now_ms) := decide_decided
  generalize s.engine.decide now_ms = r at h hdecided ⊢
  cases hdecided with
  | held hhold =>
    rw [hhold] at h
    cases h
  | recommended _ c hc target hactive hbest =>
    obtain ⟨hconfigured, hbins⟩ := follows_configured hfollows hc
    obtain ⟨hscout, hwindows⟩ := hold_active_none hactive
    obtain ⟨hqualified, hcooldown⟩ := hold_best_none hbest
    have hgates := qualified_of_score hqualified
    rw [hfollows.same_policy] at hwindows hcooldown
    refine ⟨?_, ?_⟩
    · simp only [target]
      refine ⟨hconfigured, hgates.legal, hgates.transmits, hfollows.same_active ▸ hgates.elsewhere,
        ?_, hfollows.same_policy ▸ hgates.observed, hfollows.scout ▸ hscout,
        hfollows.track.impaired.mono hwindows⟩
      intro bin hbin
      rw [← hbins] at hbin
      obtain ⟨cell, hcell⟩ := EvidenceStore.newest_of_age hgates.aged bin hbin
      have hfresh := EvidenceStore.fresh_cell_of_newest hcell
      exact ⟨cell, hfresh, hfollows.age ▸ EvidenceStore.age_of_fresh_cell hfresh⟩
    · intro t ht hset
      have hlast := hfollows.last t ht
      rw [hlast] at hcooldown
      exact hcooldown hset

open scoped DoubleOps

/-- A quiet dwell on 5 GHz channel 36. -/
def quiet_dwell (t_ms : Int64) : SurveyDwell :=
  { def_ := { band := 5, primary := 36 }, t_end_ms := t_ms, observe_ms := 100, scout_id := 7 }

/-- One such dwell and one window that lost too much is enough to move. -/
def brief_policy : PolicyConfig ℚ :=
  { impaired_windows_min := 1, min_rounds := 1, min_clean_obs_ms := 100 }

/-- What is fed to make a move due. -/
def due (t_ms : Int64) : List (Input ℚ) :=
  [.dwell (quiet_dwell t_ms) t_ms.toInt, .window { have_fec := true, fec_margin := 0 }]

theorem a_move_is_due : Warranted brief_policy [(quiet_dwell 0).def_] { band := 5, primary := 149 }
    (due 0) (session brief_policy [(quiet_dwell 0).def_] 0 { band := 5, primary := 149 }
      (due 0)).engine.store_ 0
    ((session brief_policy [(quiet_dwell 0).def_] 0 { band := 5, primary := 149 }
      (due 0)).engine.decide 0).2.target :=
  (recommend_is_warranted brief_policy [(quiet_dwell 0).def_] 0 { band := 5, primary := 149 }
    (due 0) 0 (by decide +kernel)).1

/-- A recommendation at the least time of 64 bits reads as none, so the next one does not wait. -/
theorem the_first_instant_is_forgotten :
    ¬ ∀ (policy : PolicyConfig ℚ) (candidates : List ChannelDef) (plan_hash : UInt32)
      (active : ChannelDef) (inputs : List (Input ℚ)) (now_ms : ℤ),
      ((session policy candidates plan_hash active inputs).engine.decide now_ms).2.recommend =
        true →
      Warranted policy candidates active inputs
          (session policy candidates plan_hash active inputs).engine.store_ now_ms
          ((session policy candidates plan_hash active inputs).engine.decide now_ms).2.target ∧
        ∀ t, (session policy candidates plan_hash active inputs).moves.getLast? = some t →
          policy.min_recommend_interval_ms ≤ now_ms - t := by
  intro h
  have hsoon := (h brief_policy [(quiet_dwell 0).def_] 0 { band := 5, primary := 149 }
    (due Int64.minValue ++ [.decide (-2 ^ 63)]) (-2 ^ 63 + 1) (by decide +kernel)).2
  have hlast : (session brief_policy [(quiet_dwell 0).def_] 0 { band := 5, primary := 149 }
      (due Int64.minValue ++ [.decide (-2 ^ 63)])).moves.getLast? = some (-2 ^ 63) := by
    decide +kernel
  exact absurd (hsoon _ hlast) (by decide)

end RecommendEngine

end devourer.chanmig
