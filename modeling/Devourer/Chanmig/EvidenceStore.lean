-- The rolling evidence that the scoring decides from: one ring of cells for
-- each 20 MHz bin of the candidates, one of full-width dwells for each candidate.
import Mathlib.Data.List.Basic
import Devourer.Lib.DoubleOps
import Devourer.Lib.Runs
import Devourer.Chanmig.SurveyJsonl

namespace devourer.chanmig

def kFlagTruncated : UInt16 := 0x0001
def kFlagRetuneFailed : UInt16 := 0x0002
def kFlagReadFailed : UInt16 := 0x0004
def kFlagCounterSuspect : UInt16 := 0x0008
def kFlagFullWidth : UInt16 := 0x0020

/-! ## Cells -/

/-- One accepted dwell, as rates and fractions of its observation. -/
structure BinCell (F : Type) where
  t_ms : ℤ
  observe_ms : ℤ
  cca_rate : F
  fa_rate : F
  nhm_busy_pct : UInt8
  dvr_air_frac : F
  oth_air_frac : F
  frames : UInt32
  round : UInt64

section

variable {F : Type} [DoubleOps F]

open DoubleOps

def clamped (x : F) : F := if 1.0 < x then 1.0 else x

/-- The cell that `push_cell` makes of a record. -/
def BinCell.of (d : SurveyDwell) : BinCell F :=
  let observe_ms := d.observe_ms.toInt
  let sec : F := ofInt observe_ms / 1000.0
  let counted : Bool := d.valid_fa && decide (0 < sec)
  let cck_cca := if d.valid_cck then d.cca_cck else 0
  let cck_fa := if d.valid_cck then d.fa_cck else 0
  let us : F := ofInt observe_ms * 1000.0
  { t_ms := d.t_end_ms.toInt
    observe_ms := observe_ms
    cca_rate := if counted then ofInt (d.cca_ofdm + cck_cca).toNat / sec else 0.0
    fa_rate := if counted then ofInt (d.fa_ofdm + cck_fa).toNat / sec else 0.0
    nhm_busy_pct := if d.valid_nhm then d.nhm_busy_pct else 255
    dvr_air_frac := if observe_ms > 0 then clamped (ofInt d.dvr_air_us.toNat / us) else 0.0
    oth_air_frac := if observe_ms > 0 then clamped (ofInt d.oth_air_us.toNat / us) else 0.0
    frames := d.frames
    round := d.round }

end

/-! ## A member of a list changed in place -/

theorem mem_of_mem_modify {α : Type*} {l : List α} {i : ℕ} {f : α → α} {x : α}
    (h : x ∈ l.modify i f) : x ∈ l ∨ ∃ y ∈ l, x = f y := by
  obtain ⟨j, hj, rfl⟩ := List.mem_iff_getElem.mp h
  rw [List.length_modify] at hj
  rw [List.getElem_modify]
  split
  · exact .inr ⟨l[j], List.getElem_mem hj, rfl⟩
  · exact .inl (List.getElem_mem hj)

theorem mem_modify_of_mem {α : Type*} {l : List α} (i : ℕ) (f : α → α) {x : α} (h : x ∈ l) :
    x ∈ l.modify i f ∨ f x ∈ l.modify i f := by
  obtain ⟨j, hj, rfl⟩ := List.mem_iff_getElem.mp h
  have hj' : j < (l.modify i f).length := by rwa [List.length_modify]
  have hmem := List.getElem_mem hj'
  rw [List.getElem_modify] at hmem
  split at hmem
  · exact .inr hmem
  · exact .inl hmem

theorem map_modify {α β : Type*} {f : α → α} {g : β → β} {h : α → β} (hfg : ∀ x, h (f x) = g (h x))
    (l : List α) (i : ℕ) : (l.modify i f).map h = (l.map h).modify i g := by
  apply List.ext_getElem?
  intro j
  rw [List.getElem?_map, List.getElem?_modify, List.getElem?_modify, List.getElem?_map]
  cases l[j]? with
  | none => rfl
  | some x =>
    by_cases hij : i = j
    · simp [hij, hfg]
    · simp [hij]

/-! ## The store -/

inductive Fold
  | Accepted
  | RejectedFlags
  | RejectedSuspect
  | RejectedStale
  | RejectedUnknownBin
  | RejectedMixedScout
  | RejectedPlanMismatch
  deriving DecidableEq

/-- A bounded ring, newest last. -/
structure BinRing (C : Type) where
  ch : UInt8
  cells : List C := []

structure Cand (C : Type) where
  /-- `def` of the source. -/
  def_ : ChannelDef
  bins : List UInt8
  wide : List C := []

/-- The store, for any kind of cell that it may keep of a record. -/
structure EvidenceStore (C : Type) where
  plan_hash_ : UInt32
  max_age_ms_ : ℤ
  ring_cap_ : ℕ := 32
  scout_id_ : UInt32 := 0
  gen_ : UInt64 := 0
  cands_ : List (Cand C) := []
  bins_ : List (BinRing C) := []
  fold_counts_ : Fold → UInt32 := fun _ => 0

namespace EvidenceStore

variable {C : Type}

def kMaxCountsPerMs : UInt64 := 1000

/-- `find_bin`: the first ring of a channel. -/
def find_bin (s : EvidenceStore C) (ch : UInt8) : Option (BinRing C) := s.bins_.find? (·.ch == ch)

/-- One bin of a candidate in the constructor. -/
def add_bin (s : EvidenceStore C) (ch : UInt8) : EvidenceStore C :=
  if (s.find_bin ch).isNone then { s with bins_ := s.bins_ ++ [{ ch }] } else s

def add_candidate (s : EvidenceStore C) (c : ChannelDef) : EvidenceStore C :=
  let bins := constituent_bins c
  bins.foldl add_bin { s with cands_ := s.cands_ ++ [{ def_ := c, bins }] }

/-- The constructor. -/
def init (candidates : List ChannelDef) (plan_hash : UInt32) (max_age_ms : ℤ)
    (ring_cap : ℕ) : EvidenceStore C :=
  candidates.foldl add_candidate
    { plan_hash_ := plan_hash, max_age_ms_ := max_age_ms, ring_cap_ := ring_cap }

/-- A ring with one more cell, without its oldest where it was full. -/
def push_cell (ring_cap : ℕ) (ring : List C) (cell : C) : List C :=
  (if ring.length ≥ ring_cap then ring.drop 1 else ring) ++ [cell]

def count (s : EvidenceStore C) (f : Fold) : EvidenceStore C × Fold :=
  ({ s with fold_counts_ := fun g => if g = f then s.fold_counts_ f + 1 else s.fold_counts_ g }, f)

def bump (s : EvidenceStore C) : EvidenceStore C := { s with gen_ := s.gen_ + 1 }

/-- A counter delta above what any chip emits in the window. -/
def implausible (d : SurveyDwell) : Bool :=
  let observe_ms := if d.observe_ms > 0 then d.observe_ms else 1
  let ceiling := kMaxCountsPerMs * observe_ms.toUInt64
  d.valid_fa && (decide (d.cca_ofdm.toUInt64 > ceiling) || decide (d.fa_ofdm.toUInt64 > ceiling) ||
    decide (d.cca_cck.toUInt64 > ceiling) || decide (d.fa_cck.toUInt64 > ceiling))

/-- Where the cell of an accepted record goes. -/
def fold_cell (s : EvidenceStore C) (d : SurveyDwell) (cell : C) : EvidenceStore C × Fold :=
  if d.flags &&& kFlagFullWidth ≠ 0 then
    match s.cands_.findIdx? (·.def_.same_rf d.def_) with
    | none => s.count .RejectedUnknownBin
    | some i =>
      let cands := s.cands_.modify i fun c => { c with wide := push_cell s.ring_cap_ c.wide cell }
      ({ s with cands_ := cands }.bump).count .Accepted
  else
    match s.bins_.findIdx? (·.ch == d.def_.primary) with
    | none => s.count .RejectedUnknownBin
    | some i =>
      let bins := s.bins_.modify i fun b => { b with cells := push_cell s.ring_cap_ b.cells cell }
      ({ s with bins_ := bins }.bump).count .Accepted

/-- Past the plan, the failure flags and the scout. An age that overflows 64 bits is undefined in
the source. -/
def ingest_scouted (cell : SurveyDwell → C) (s : EvidenceStore C) (d : SurveyDwell) (now_ms : ℤ) :
    EvidenceStore C × Fold :=
  if now_ms - d.t_end_ms.toInt > s.max_age_ms_ then s.count .RejectedStale
  else if d.flags &&& kFlagCounterSuspect ≠ 0 then s.count .RejectedSuspect
  else if implausible d then s.count .RejectedSuspect
  else if d.observe_ms ≤ 0 then s.count .RejectedFlags
  else s.fold_cell d (cell d)

def ingest (cell : SurveyDwell → C) (s : EvidenceStore C) (d : SurveyDwell) (now_ms : ℤ) :
    EvidenceStore C × Fold :=
  if d.plan_hash ≠ s.plan_hash_ then s.count .RejectedPlanMismatch
  else if d.flags &&& (kFlagRetuneFailed ||| kFlagReadFailed ||| kFlagTruncated) ≠ 0 then
    s.count .RejectedFlags
  else if s.scout_id_ ≠ 0 ∧ d.scout_id ≠ s.scout_id_ then
    -- the cells of the bins go, those of the full-width dwells stay
    let bins := s.bins_.map fun b => { b with cells := [] }
    { s with bins_ := bins, scout_id_ := d.scout_id }.count .RejectedMixedScout
  else
    let s := if s.scout_id_ = 0 then { s with scout_id_ := d.scout_id } else s
    s.ingest_scouted cell d now_ms

/-! ## What a fold never changes -/

/-- Every cell of the store, of the bins and of the full-width dwells. -/
def held (s : EvidenceStore C) : List C := s.bins_.flatMap (·.cells) ++ s.cands_.flatMap (·.wide)

/-- A fresh store: the settings it was given, a bin ring for each bin, and nothing held. -/
structure Fresh (s : EvidenceStore C) (candidates : List ChannelDef) (max_age_ms : ℤ)
    (ring_cap : ℕ) : Prop where
  age : s.max_age_ms_ = max_age_ms
  cap : s.ring_cap_ = ring_cap
  cands : s.cands_.map (fun c => (c.def_, c.bins)) = candidates.map fun d => (d, constituent_bins d)
  held : s.held = []

theorem fresh_add_bin {candidates : List ChannelDef} {max_age_ms : ℤ} {ring_cap : ℕ}
    {s : EvidenceStore C} (h : Fresh s candidates max_age_ms ring_cap) (ch : UInt8) :
    Fresh (s.add_bin ch) candidates max_age_ms ring_cap := by
  unfold add_bin
  split
  · refine ⟨h.age, h.cap, h.cands, ?_⟩
    have hheld := h.held
    unfold EvidenceStore.held at hheld ⊢
    simpa using hheld
  · exact h

theorem fresh_add_candidate {candidates : List ChannelDef} {max_age_ms : ℤ} {ring_cap : ℕ}
    {s : EvidenceStore C} (h : Fresh s candidates max_age_ms ring_cap) (c : ChannelDef) :
    Fresh (s.add_candidate c) (candidates ++ [c]) max_age_ms ring_cap := by
  apply Runs.after_keeps add_bin (P := fun s => Fresh s (candidates ++ [c]) max_age_ms ring_cap)
  · refine ⟨h.age, h.cap, ?_, ?_⟩
    · simp [h.cands]
    · have hheld := h.held
      unfold EvidenceStore.held at hheld ⊢
      simpa using hheld
  · intro s ch h
    exact fresh_add_bin h ch

theorem fresh_init (candidates : List ChannelDef) (plan_hash : UInt32) (max_age_ms : ℤ)
    (ring_cap : ℕ) : Fresh (init candidates plan_hash max_age_ms ring_cap : EvidenceStore C)
      candidates max_age_ms ring_cap := by
  induction candidates using List.reverseRecOn with
  | nil => exact ⟨rfl, rfl, rfl, rfl⟩
  | append_singleton candidates c ih =>
    unfold init at ih ⊢
    rw [List.foldl_append]
    exact fresh_add_candidate ih c

/-- The two stores are set up alike. -/
structure SameSetup (s s' : EvidenceStore C) : Prop where
  plan : s'.plan_hash_ = s.plan_hash_
  age : s'.max_age_ms_ = s.max_age_ms_
  cap : s'.ring_cap_ = s.ring_cap_
  cands : s'.cands_.map (fun c => (c.def_, c.bins)) = s.cands_.map fun c => (c.def_, c.bins)
  bins : s'.bins_.map (·.ch) = s.bins_.map (·.ch)

variable {cell : SurveyDwell → C} {s : EvidenceStore C} {d : SurveyDwell} {now_ms : ℤ}

theorem sameSetup_count (f : Fold) : SameSetup s (s.count f).1 := ⟨rfl, rfl, rfl, rfl, rfl⟩

theorem sameSetup_fold_cell (x : C) : SameSetup s (s.fold_cell d x).1 := by
  unfold fold_cell
  split
  · split
    · exact sameSetup_count _
    · refine ⟨rfl, rfl, rfl, ?_, rfl⟩
      have hcands := map_modify
        (f := fun c : Cand C => { c with wide := push_cell s.ring_cap_ c.wide x }) (g := id)
        (h := fun c => (c.def_, c.bins)) (fun _ => rfl) s.cands_
      exact (hcands _).trans (List.modify_id _ _)
  · split
    · exact sameSetup_count _
    · refine ⟨rfl, rfl, rfl, rfl, ?_⟩
      have hbins := map_modify
        (f := fun b : BinRing C => { b with cells := push_cell s.ring_cap_ b.cells x }) (g := id)
        (h := (·.ch)) (fun _ => rfl) s.bins_
      exact (hbins _).trans (List.modify_id _ _)

theorem sameSetup_ingest_scouted : SameSetup s (s.ingest_scouted cell d now_ms).1 := by
  unfold ingest_scouted
  split
  · exact sameSetup_count _
  · split
    · exact sameSetup_count _
    · split
      · exact sameSetup_count _
      · split
        · exact sameSetup_count _
        · exact sameSetup_fold_cell _

theorem sameSetup_ingest : SameSetup s (s.ingest cell d now_ms).1 := by
  unfold ingest
  split
  · exact sameSetup_count _
  · split
    · exact sameSetup_count _
    · split
      · refine ⟨rfl, rfl, rfl, rfl, ?_⟩
        simp [count]
      · split
        · have hsetup : SameSetup { s with scout_id_ := d.scout_id }
              (ingest_scouted cell { s with scout_id_ := d.scout_id } d now_ms).1 :=
            sameSetup_ingest_scouted
          exact ⟨hsetup.plan, hsetup.age, hsetup.cap, hsetup.cands, hsetup.bins⟩
        · exact sameSetup_ingest_scouted

/-! ## Reads -/

variable {F : Type}

/-- Is the cell within the age bound? -/
def fresh (s : EvidenceStore (BinCell F)) (now_ms : ℤ) (cell : BinCell F) : Bool :=
  decide (now_ms - cell.t_ms ≤ s.max_age_ms_)

section

variable (s : EvidenceStore (BinCell F)) (now_ms : ℤ)

def newest_fresh (b : BinRing (BinCell F)) : Option (BinCell F) :=
  b.cells.reverse.find? (s.fresh now_ms)

/-- The newest fresh cell of a bin, if the store has the bin. -/
def newest_of (ch : UInt8) : Option (BinCell F) := (s.find_bin ch).bind (s.newest_fresh now_ms)

def bins_covered (c : Cand (BinCell F)) : ℕ :=
  c.bins.countP fun ch => (s.newest_of now_ms ch).isSome

/-- The loop of `evidence_age_ms`; -1 where a bin has no fresh cell. -/
def evidence_age_loop (worst : ℤ) : List UInt8 → ℤ
  | [] => worst
  | ch :: bins =>
    match s.newest_of now_ms ch with
    | none => -1
    | some cell =>
      let age := now_ms - cell.t_ms
      evidence_age_loop (if age > worst then age else worst) bins

def evidence_age_ms (c : Cand (BinCell F)) : ℤ := s.evidence_age_loop now_ms (-1) c.bins

/-- All fresh cells of one bin, newest last. -/
def fresh_cells (bin_ch : UInt8) : List (BinCell F) :=
  match s.find_bin bin_ch with
  | none => []
  | some b => b.cells.filter (s.fresh now_ms)

def wide_cells (c : Cand (BinCell F)) : List (BinCell F) := c.wide.filter (s.fresh now_ms)

/-- What the loop of `rounds_covered` keeps. -/
structure RoundBounds where
  lo : UInt64 := 0xffffffffffffffff
  hi : UInt64 := 0
  any : Bool := false

def RoundBounds.note (b : RoundBounds) (cell : BinCell F) : RoundBounds :=
  { lo := if cell.round < b.lo then cell.round else b.lo
    hi := if cell.round > b.hi then cell.round else b.hi
    any := true }

/-- The fresh cells of a candidate's constituent bins, bin by bin. -/
def constituent_cells (c : Cand (BinCell F)) : List (BinCell F) :=
  c.bins.flatMap (s.fresh_cells now_ms)

/-- The number that the min-rounds gate reads. -/
def rounds_covered (c : Cand (BinCell F)) : UInt64 :=
  let b := (s.constituent_cells now_ms c).foldl RoundBounds.note {}
  if b.any then b.hi - b.lo + 1 else 0

end

end EvidenceStore

end devourer.chanmig
