-- The recommendation policy: every candidate is scored and gated on what the
-- store holds of it, and a decision recommends the best of them or holds.
import Devourer.Chanmig.ActiveLink
import Devourer.Chanmig.MigGate

namespace devourer.chanmig

/-! ## Spans -/

/-- The overlap of two spans, in MHz. -/
def overlap_mhz (a b : ChannelDef) : ℤ :=
  if a.band ≠ b.band then 0
  else
    let alo := a.center_halfmhz - a.span_halfmhz / 2
    let ahi := a.center_halfmhz + a.span_halfmhz / 2
    let blo := b.center_halfmhz - b.span_halfmhz / 2
    let bhi := b.center_halfmhz + b.span_halfmhz / 2
    let lo := if alo > blo then alo else blo
    let hi := if ahi < bhi then ahi else bhi
    if hi > lo then (hi - lo) / 2 else 0

/-- Disjoint, with an edge gap under 20 MHz. -/
def adjacent (a b : ChannelDef) : Bool :=
  if a.band ≠ b.band ∨ overlap_mhz a b > 0 then false
  else
    let ahi := a.center_halfmhz + a.span_halfmhz / 2
    let alo := a.center_halfmhz - a.span_halfmhz / 2
    let bhi := b.center_halfmhz + b.span_halfmhz / 2
    let blo := b.center_halfmhz - b.span_halfmhz / 2
    let gap := if alo ≥ bhi then alo - bhi else blo - ahi
    decide (gap ≥ 0 ∧ gap < 40)

/-! ## The records -/

structure PolicyConfig (F : Type) [DoubleOps F] where
  impaired_windows_min : ℤ := 5
  active : ActivePolicy F := {}
  min_rounds : UInt64 := 3
  min_clean_obs_ms : ℤ := 3000
  max_evidence_age_ms : ℤ := 60000
  qualify_max_occupancy : F := 0.20
  bursty_max : F := 0.30
  improvement_margin : F := 0.08
  min_recommend_interval_ms : ℤ := 30000
  broad_degrade_frac : F := 0.75
  fa_half_rate : F := 200.0
  overlap_penalty : F := 0.15
  age_decay_tau_ms : F := 30000.0

/-- `CandidateScore` of the source, of which the gate of the migration reads the first fields. -/
structure ScoredCandidate (F : Type) extends CandidateScore F where
  qualified : Bool
  occ_q50 : F
  occ_q90 : F
  burstiness : F
  overlap_pen : F
  evidence_age_ms : ℤ
  observe_ms : UInt64
  rounds : UInt64
  bins_covered : ℕ
  bins_total : ℕ
  rejections : List Reason

/-- `Decision` of the source, without its text and the hash of the policy. -/
structure RankedDecision (F : Type) extends Decision F where
  /-- The `ranking` in full. -/
  ranked : List (ScoredCandidate F)
  active_impaired_windows : ℕ
  active_verdict : LinkVerdict
  active_domain : Impair
  plan_hash : UInt32

variable {F : Type} [DoubleOps F]

structure RecommendEngine (F : Type) [DoubleOps F] where
  policy_ : PolicyConfig F
  plan_hash_ : UInt32
  active_ : ChannelDef
  store_ : EvidenceStore (BinCell F)
  track_ : ActiveLinkTrack F
  scout_healthy_ : Bool := true
  last_recommend_ms_ : ℤ := -2 ^ 63

namespace RecommendEngine

open DoubleOps

/-! ## Occupancy -/

def cell_occupancy (c : BinCell F) (fa_half : F) : F :=
  let fa_term := c.fa_rate / (c.fa_rate + fa_half)
  clamped (c.oth_air_frac + fa_term)

def quantile (v : List F) (q : F) : F :=
  let v := v.mergeSort fun a b => decide (¬ b < a)
  if v.isEmpty then 0.0
  else
    let idx := q * ofInt (v.length - 1)
    let lo := toSize idx
    let hi := if lo + 1 < v.length then lo + 1 else lo
    let frac := idx - ofInt lo
    v.getD lo 0.0 * (1.0 - frac) + v.getD hi 0.0 * frac

/-- What the loop over the bins of a candidate keeps. -/
structure BinScan (F : Type) where
  worst_q50 : F
  worst_q90 : F
  total_obs : UInt64
  any_cells : Bool
  min_bin_clean_ms : ℤ

/-- The observation of one bin. -/
def observed_ms (cells : List (BinCell F)) : ℤ := cells.foldl (fun t c => t + c.observe_ms) 0

/-- One bin of the loop of `score_candidate`. -/
def scan_bin (e : RecommendEngine F) (now_ms : ℤ) (a : BinScan F) (bin : UInt8) : BinScan F :=
  let cells := e.store_.fresh_cells now_ms bin
  let occ := cells.map (cell_occupancy · e.policy_.fa_half_rate)
  let bin_obs := observed_ms cells
  let q50 := quantile occ 0.5
  let q90 := quantile occ 0.9
  { worst_q50 := if !occ.isEmpty && decide (a.worst_q50 < q50) then q50 else a.worst_q50
    worst_q90 := if !occ.isEmpty && decide (a.worst_q90 < q90) then q90 else a.worst_q90
    total_obs := cells.foldl (fun t c => t + UInt64.ofInt c.observe_ms) a.total_obs
    any_cells := a.any_cells || !cells.isEmpty
    min_bin_clean_ms := if bin_obs < a.min_bin_clean_ms then bin_obs else a.min_bin_clean_ms }

def scan_bins (e : RecommendEngine F) (now_ms : ℤ) (bins : List UInt8) : BinScan F :=
  bins.foldl (e.scan_bin now_ms)
    { worst_q50 := 0.0, worst_q90 := 0.0, total_obs := 0, any_cells := false,
      min_bin_clean_ms := 2 ^ 63 - 1 }

/-! ## The gates of a candidate -/

/-- The rejections of a candidate, of which there is room for six. -/
def reject (rejections : List Reason) (gate : Bool × Reason) : List Reason :=
  if gate.1 && decide (rejections.length < 6) then rejections ++ [gate.2] else rejections

def score_candidate (e : RecommendEngine F) (now_ms : ℤ) (c : Cand (BinCell F)) :
    ScoredCandidate F :=
  let bins := constituent_bins c.def_
  let nb := bins.length
  let bins_covered := e.store_.bins_covered now_ms c
  let evidence_age_ms := e.store_.evidence_age_ms now_ms c
  let rounds := e.store_.rounds_covered now_ms c
  let scan := e.scan_bins now_ms bins
  let burstiness := scan.worst_q90 - scan.worst_q50
  let overlap_pen :=
    if overlap_mhz c.def_ e.active_ > 0 || adjacent c.def_ e.active_ then e.policy_.overlap_penalty
    else 0.0
  let occupancy := DoubleOps.min 1.0 (scan.worst_q50 + overlap_pen)
  let obs_factor := DoubleOps.min 1.0
    (ofInt scan.total_obs.toNat / ofInt (max 1 (e.policy_.min_clean_obs_ms * nb * 2)))
  let rounds_factor := DoubleOps.min 1.0
    (ofInt rounds.toNat / ofInt (max 1 (e.policy_.min_rounds * 2)).toNat)
  let age_factor :=
    if evidence_age_ms < 0 then 0.0
    else exp (-ofInt evidence_age_ms / e.policy_.age_decay_tau_ms)
  let gates : List (Bool × Reason) := [
    (c.def_.no_ir, .RejNoIr),
    (!validate c.def_, .RejIllegalDef),
    (c.def_.same_rf e.active_, .RejActiveChannel),
    (!e.scout_healthy_, .RejScoutUnhealthy),
    (!scan.any_cells || decide (evidence_age_ms < 0) ||
      decide (evidence_age_ms > e.policy_.max_evidence_age_ms), .RejEvidenceStale),
    (decide (bins_covered < nb), .RejIncompleteWidth),
    (scan.any_cells && decide (scan.min_bin_clean_ms < e.policy_.min_clean_obs_ms),
      .RejInsufficientObservation),
    (decide (rounds < e.policy_.min_rounds), .RejInsufficientRounds),
    (scan.any_cells && decide (e.policy_.qualify_max_occupancy < occupancy), .RejOccupied),
    (scan.any_cells && decide (e.policy_.bursty_max < burstiness), .RejBursty)]
  let rejections := gates.foldl reject []
  { def_ := c.def_
    score := 1.0 - occupancy
    confidence := obs_factor * rounds_factor * age_factor
    qualified := rejections.isEmpty
    occ_q50 := scan.worst_q50
    occ_q90 := scan.worst_q90
    burstiness := burstiness
    overlap_pen := overlap_pen
    evidence_age_ms := evidence_age_ms
    observe_ms := scan.total_obs
    rounds := rounds
    bins_covered := bins_covered
    bins_total := nb
    rejections := rejections }

/-! ## The decision -/

/-- The comparator of the ranking: qualified, then the better score, then the lower key. -/
def ranks_before (a b : ScoredCandidate F) : Bool :=
  if a.qualified ≠ b.qualified then a.qualified
  else if !equal a.score b.score then decide (b.score < a.score)
  else decide (a.def_.key < b.def_.key)

/-- Every candidate scored, best first. -/
def rank (e : RecommendEngine F) (now_ms : ℤ) : List (ScoredCandidate F) :=
  (e.store_.cands_.map (e.score_candidate now_ms)).mergeSort fun a b => !ranks_before b a

/-- Are most of the candidates with evidence busy too? -/
def broad (e : RecommendEngine F) (ranked : List (ScoredCandidate F)) : Bool :=
  let scored := ranked.filter fun c => decide (0 ≤ c.evidence_age_ms)
  let busy := scored.countP fun c =>
    decide (e.policy_.qualify_max_occupancy < DoubleOps.min 1.0 (c.occ_q50 + c.overlap_pen))
  decide (0 < scored.length) &&
    decide (e.policy_.broad_degrade_frac ≤ ofInt busy / ofInt scored.length)

/-- The holds that the active link alone decides. -/
def hold_active (e : RecommendEngine F) : Option Reason :=
  let domain := e.track_.last_domain
  let windows : ℤ := e.track_.consecutive_channel_impaired
  if !e.track_.have_last_ || decide (domain = .TelemetryDown) then some .HoldPrimaryTelemetryStale
  else if !e.scout_healthy_ then some .HoldScoutUnhealthy
  else if domain = .WeakSignal then some .HoldImpairmentNotChannel
  else if domain = .Saturation then some .HoldImpairmentNotChannel
  else if domain = .Healthy ∧ windows < e.policy_.impaired_windows_min then some .HoldActiveHealthy
  else if windows < e.policy_.impaired_windows_min then some .HoldImpairmentNotPersistent
  else none

/-- The holds that the best candidate decides. Before the first recommendation the time of the last
one is the least of 64 bits. -/
def hold_best (e : RecommendEngine F) (now_ms : ℤ) (best : ScoredCandidate F) : Option Reason :=
  let floor : F := 1.0 - e.policy_.qualify_max_occupancy
  if !best.qualified then some .HoldNoQualifiedCandidate
  else if best.score < floor + e.policy_.improvement_margin then some .HoldImprovementMargin
  else if e.last_recommend_ms_ ≠ -2 ^ 63 ∧
      now_ms - e.last_recommend_ms_ < e.policy_.min_recommend_interval_ms then some .HoldCooldown
  else none

/-- A decision that holds, but for its reason. -/
def pending (e : RecommendEngine F) (ranked : List (ScoredCandidate F)) : RankedDecision F :=
  { ranking := ranked.map (·.toCandidateScore)
    ranked := ranked
    evidence_gen := e.store_.gen_
    active_impaired_windows := e.track_.consecutive_channel_impaired
    active_verdict := e.track_.last_verdict
    active_domain := e.track_.last_domain
    plan_hash := e.plan_hash_ }

/-- `decide`. The best of an empty ranking is undefined in the source, and none qualifies here. -/
protected def decide (e : RecommendEngine F) (now_ms : ℤ) :
    RecommendEngine F × RankedDecision F :=
  let ranked := e.rank now_ms
  let d := e.pending ranked
  match e.hold_active with
  | some r => (e, { d with primary_reason := r })
  | none =>
    if e.broad ranked then (e, { d with primary_reason := .HoldBroadDegradation })
    else
      match ranked with
      | [] => (e, { d with primary_reason := .HoldNoQualifiedCandidate })
      | best :: _ =>
        match e.hold_best now_ms best with
        | some r => (e, { d with primary_reason := r })
        | none =>
          ({ e with last_recommend_ms_ := now_ms },
            { d with
              recommend := true
              primary_reason := .RecommendBetterCandidate
              target := best.def_ })

/-! ## The engine -/

/-- The constructor. -/
def init (policy : PolicyConfig F) (candidates : List ChannelDef) (plan_hash : UInt32)
    (active : ChannelDef) : RecommendEngine F :=
  { policy_ := policy
    plan_hash_ := plan_hash
    active_ := active
    store_ := EvidenceStore.init candidates plan_hash policy.max_evidence_age_ms 32
    track_ := { policy_ := policy.active } }

def ingest_dwell (e : RecommendEngine F) (d : SurveyDwell) (now_ms : ℤ) : RecommendEngine F :=
  { e with store_ := (e.store_.ingest BinCell.of d now_ms).1 }

def ingest_active (e : RecommendEngine F) (w : ActiveLinkWindow F) : RecommendEngine F :=
  { e with track_ := e.track_.add w }

def note_scout_health (e : RecommendEngine F) (healthy : Bool) : RecommendEngine F :=
  { e with scout_healthy_ := healthy }

end RecommendEngine

end devourer.chanmig
