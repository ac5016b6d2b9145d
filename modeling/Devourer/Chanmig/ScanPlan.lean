-- The dwell scheduler of the scout: the bins of the candidates, each with its
-- deadline, and the full-width dwells between them.
import Mathlib.Data.List.GetD
import Devourer.Chanmig.ChannelBins
import Devourer.Chanmig.ScanText
import Devourer.Lib.Runs
import Devourer.Lib.Signed

namespace devourer.chanmig

open ChannelDef ChannelWidth_t

structure ScanPlanConfig where
  candidates : List ChannelDef
  backup_revisit_ms : ℤ := 1000
  bg_revisit_ms : ℤ := 5000
  fail_retry_ms : ℤ := 250
  fullwidth_ms : ℤ := 0

structure DwellPlan where
  valid : Bool := false
  bin_ch : UInt8 := 0
  /-- `def` of the source. -/
  def_ : ChannelDef := {}
  round : ℕ := 0
  full_width : Bool := false
  plan_index : ℤ := -1

structure Bin where
  ch : UInt8 := 0
  band : UInt8 := 0
  cadence_ms : ℤ := 0
  deadline_ms : ℤ := INT64_MIN
  covered : Bool := false
  fails : ℕ := 0

structure ScanScheduler where
  cfg_ : ScanPlanConfig
  bins_ : List Bin := []
  /-- The indices of the candidates wider than a bin. -/
  wide_ : List ℕ := []
  covered_n_ : ℕ := 0
  rounds_ : ℕ := 0
  wide_rr_ : ℕ := 0
  next_wide_ms_ : ℤ := INT64_MIN
  consec_fail_ : ℕ := 0

namespace ScanScheduler

/-! ## The constructor -/

/-- A bin that several candidates share has the fastest cadence of theirs. -/
def add_bin (band : UInt8) (cadence : ℤ) (bins : List Bin) (ch : UInt8) : List Bin :=
  match bins.findIdx? (·.ch == ch) with
  | none => bins ++ [{ ch, band, cadence_ms := cadence }]
  | some i =>
    bins.modify i fun b => if cadence < b.cadence_ms then { b with cadence_ms := cadence } else b

def add_candidate (s : ScanScheduler) (c : ChannelDef × ℕ) : ScanScheduler :=
  let cadence := if c.1.backup then s.cfg_.backup_revisit_ms else s.cfg_.bg_revisit_ms
  { s with
    bins_ := (constituent_bins c.1).foldl (add_bin c.1.band cadence) s.bins_
    wide_ := if c.1.width = CHANNEL_WIDTH_40 ∨ c.1.width = CHANNEL_WIDTH_80 then s.wide_ ++ [c.2]
      else s.wide_ }

/-- `ScanScheduler(cfg)`. -/
def create (cfg : ScanPlanConfig) : ScanScheduler :=
  cfg.candidates.zipIdx.foldl add_candidate { cfg_ := cfg }

/-! ## The dwells -/

def bin (s : ScanScheduler) (i : ℕ) : Bin := s.bins_.getD i {}

/-- The most overdue bin, and the first of those that are equally so. -/
def most_overdue (s : ScanScheduler) : ℕ :=
  (List.range' 1 (s.bins_.length - 1)).foldl
    (fun best i => if (s.bin i).deadline_ms < (s.bin best).deadline_ms then i else best) 0

/-- The full-width dwells count from the first call on. -/
def arm (s : ScanScheduler) (now_ms : ℤ) : ScanScheduler :=
  if s.next_wide_ms_ = INT64_MIN then { s with next_wide_ms_ := now_ms + s.cfg_.fullwidth_ms }
  else s

def wide_due (s : ScanScheduler) (now_ms : ℤ) : Bool :=
  s.cfg_.fullwidth_ms > 0 ∧ s.wide_ ≠ [] ∧ now_ms ≥ s.next_wide_ms_

def wide_dwell (s : ScanScheduler) : DwellPlan :=
  let ci := s.wide_.getD (s.wide_rr_ % s.wide_.length) 0
  let def_ := s.cfg_.candidates.getD ci {}
  { valid := true, bin_ch := def_.primary, def_, round := s.rounds_, full_width := true,
    plan_index := ci }

def bin_dwell (s : ScanScheduler) : DwellPlan :=
  let b := s.bin s.most_overdue
  { valid := true, bin_ch := b.ch, def_ := bin_def b.band b.ch, round := s.rounds_,
    plan_index := s.most_overdue }

def next (s : ScanScheduler) (now_ms : ℤ) : DwellPlan × ScanScheduler :=
  if s.bins_ = [] then ({}, s)
  else
    let s := s.arm now_ms
    if s.wide_due now_ms then (s.wide_dwell, s) else (s.bin_dwell, s)

/-- A bin that was observed, for the first time since the last full round or again. -/
def cover_bin (s : ScanScheduler) (i : ℕ) (now_ms : ℤ) : ScanScheduler :=
  let b := s.bin i
  let done := { b with deadline_ms := now_ms + b.cadence_ms, fails := 0, covered := true }
  let s := { s with bins_ := s.bins_.set i done, consec_fail_ := 0 }
  if b.covered then s
  else if s.covered_n_ + 1 = s.bins_.length then
    { s with
      rounds_ := s.rounds_ + 1
      covered_n_ := 0
      bins_ := s.bins_.map ({ · with covered := false }) }
  else { s with covered_n_ := s.covered_n_ + 1 }

def fail_bin (s : ScanScheduler) (i : ℕ) (now_ms : ℤ) : ScanScheduler :=
  let b := s.bin i
  { s with
    bins_ := s.bins_.set i
      { b with deadline_ms := now_ms + s.cfg_.fail_retry_ms, fails := b.fails + 1 }
    consec_fail_ := s.consec_fail_ + 1 }

def complete (s : ScanScheduler) (p : DwellPlan) (now_ms : ℤ) (ok : Bool) : ScanScheduler :=
  if !p.valid then s
  else if p.full_width then
    { s with wide_rr_ := s.wide_rr_ + 1, next_wide_ms_ := now_ms + s.cfg_.fullwidth_ms }
  else if p.plan_index < 0 ∨ p.plan_index ≥ s.bins_.length then s
  else if ok then s.cover_bin p.plan_index.toNat now_ms
  else s.fail_bin p.plan_index.toNat now_ms

/-! ## Runs -/

/-- A call of the scout. It may complete any plan, also one that was never handed out. -/
inductive Call
  | next (now_ms : ℤ)
  | complete (p : DwellPlan) (now_ms : ℤ) (ok : Bool)

def call (s : ScanScheduler) : Call → ScanScheduler
  | .next now_ms => (s.next now_ms).2
  | .complete p now_ms ok => s.complete p now_ms ok

/-! ## What a run keeps -/

/-- What the bins are tuned to, which no call changes. -/
def tuned (s : ScanScheduler) : List (UInt8 × UInt8) := s.bins_.map fun b => (b.ch, b.band)

structure Keeps (s t : ScanScheduler) : Prop where
  cfg : t.cfg_ = s.cfg_
  wide : t.wide_ = s.wide_
  tuned : t.tuned = s.tuned

theorem map_set_bin {α : Type*} (s : ScanScheduler) (i : ℕ) {b : Bin} (g : Bin → α)
    (hb : g b = g (s.bin i)) : (s.bins_.set i b).map g = s.bins_.map g := by
  rw [List.map_set, hb]
  apply List.ext_getElem
  · simp
  · intro j h1 h2
    by_cases hij : i = j
    · subst hij
      have hi : i < s.bins_.length := by simpa using h2
      simp [bin, hi]
    · rw [List.getElem_set_ne hij]

theorem set_tuned (s : ScanScheduler) (i : ℕ) {b : Bin}
    (hb : (b.ch, b.band) = ((s.bin i).ch, (s.bin i).band)) :
    (s.bins_.set i b).map (fun b => (b.ch, b.band)) = s.tuned :=
  s.map_set_bin i (fun b => (b.ch, b.band)) hb

theorem arm_keeps (s : ScanScheduler) (now_ms : ℤ) : s.Keeps (s.arm now_ms) := by
  unfold arm
  split <;> exact ⟨rfl, rfl, rfl⟩

theorem next_keeps (s : ScanScheduler) (now_ms : ℤ) : s.Keeps (s.next now_ms).2 := by
  unfold next
  split
  · exact ⟨rfl, rfl, rfl⟩
  · dsimp only
    split <;> exact s.arm_keeps now_ms

theorem cover_bin_keeps (s : ScanScheduler) (i : ℕ) (now_ms : ℤ) :
    s.Keeps (s.cover_bin i now_ms) := by
  have hset := s.set_tuned i (b := { s.bin i with
    deadline_ms := now_ms + (s.bin i).cadence_ms, fails := 0, covered := true }) rfl
  unfold cover_bin
  dsimp only
  split
  · exact ⟨rfl, rfl, hset⟩
  · split
    · refine ⟨rfl, rfl, ?_⟩
      rw [← hset, tuned, List.map_map]
      rfl
    · exact ⟨rfl, rfl, hset⟩

theorem complete_keeps (s : ScanScheduler) (p : DwellPlan) (now_ms : ℤ) (ok : Bool) :
    s.Keeps (s.complete p now_ms ok) := by
  unfold complete
  split
  · exact ⟨rfl, rfl, rfl⟩
  · split
    · exact ⟨rfl, rfl, rfl⟩
    · split
      · exact ⟨rfl, rfl, rfl⟩
      · split
        · exact s.cover_bin_keeps _ _
        · exact ⟨rfl, rfl, s.set_tuned _ rfl⟩

theorem call_keeps (s : ScanScheduler) (c : Call) : s.Keeps (s.call c) := by
  cases c with
  | next now_ms => exact s.next_keeps now_ms
  | complete p now_ms ok => exact s.complete_keeps p now_ms ok

/-! ## Legal plans -/

/-- A scheduler whose every dwell is on a legal channel of its plan's band. -/
structure Legal (s : ScanScheduler) : Prop where
  some_bin : s.tuned ≠ []
  bins : ∀ b ∈ s.tuned, validate (bin_def b.2 b.1) = true ∧ ∀ c ∈ s.cfg_.candidates, b.2 = c.band
  wide : ∀ i ∈ s.wide_, i < s.cfg_.candidates.length
  candidates : ∀ c ∈ s.cfg_.candidates, validate c = true ∧ ∀ d ∈ s.cfg_.candidates, c.band = d.band

theorem Legal.of_keeps {s t : ScanScheduler} (h : s.Legal) (hk : s.Keeps t) : t.Legal where
  some_bin := hk.tuned ▸ h.some_bin
  bins := by
    rw [hk.tuned, hk.cfg]
    exact h.bins
  wide := by
    rw [hk.wide, hk.cfg]
    exact h.wide
  candidates := by
    rw [hk.cfg]
    exact h.candidates

/-- The loop ends on an index of the list, or where it began. -/
theorem foldl_pick_mem {α : Type} (f : α → α → Prop) [DecidableRel f] (is : List α) (best : α) :
    is.foldl (fun best i => if f i best then i else best) best = best ∨
      is.foldl (fun best i => if f i best then i else best) best ∈ is := by
  induction is generalizing best with
  | nil => exact .inl rfl
  | cons i is ih =>
    rw [List.foldl_cons]
    rcases ih (if f i best then i else best) with h | h
    · rw [h]
      split
      · exact .inr List.mem_cons_self
      · exact .inl rfl
    · exact .inr (List.mem_cons_of_mem _ h)

theorem most_overdue_lt {s : ScanScheduler} (h : s.bins_ ≠ []) :
    s.most_overdue < s.bins_.length := by
  have hpos : 0 < s.bins_.length := List.length_pos_iff.mpr h
  rcases foldl_pick_mem (fun i best => (s.bin i).deadline_ms < (s.bin best).deadline_ms)
    (List.range' 1 (s.bins_.length - 1)) 0 with h0 | hmem
  · rw [most_overdue, h0]
    exact hpos
  · have hlt := List.mem_range'_1.mp hmem
    rw [most_overdue]
    omega

theorem Legal.bin_dwell {s : ScanScheduler} (h : s.Legal) :
    validate s.bin_dwell.def_ = true ∧ ∀ c ∈ s.cfg_.candidates, s.bin_dwell.def_.band = c.band := by
  have hne : s.bins_ ≠ [] := fun hb => h.some_bin (by rw [tuned, hb]; rfl)
  have hlt := most_overdue_lt hne
  refine h.bins ((s.bin s.most_overdue).ch, (s.bin s.most_overdue).band) ?_
  refine List.mem_map.mpr ⟨s.bin s.most_overdue, ?_, rfl⟩
  rw [bin, List.getD_eq_getElem _ _ hlt]
  exact List.getElem_mem hlt

theorem Legal.wide_dwell {s : ScanScheduler} (h : s.Legal) (hne : s.wide_ ≠ []) :
    validate s.wide_dwell.def_ = true ∧
      ∀ c ∈ s.cfg_.candidates, s.wide_dwell.def_.band = c.band := by
  have hlt : s.wide_rr_ % s.wide_.length < s.wide_.length :=
    Nat.mod_lt _ (List.length_pos_iff.mpr hne)
  have hci := h.wide _ (List.getElem_mem hlt)
  have hdef : s.wide_dwell.def_ = s.cfg_.candidates[s.wide_[s.wide_rr_ % s.wide_.length]] := by
    rw [ScanScheduler.wide_dwell, List.getD_eq_getElem _ _ hlt, List.getD_eq_getElem _ _ hci]
  rw [hdef]
  exact h.candidates _ (List.getElem_mem hci)

theorem Legal.next {s : ScanScheduler} (h : s.Legal) (now_ms : ℤ) :
    (s.next now_ms).1.valid = true ∧ validate (s.next now_ms).1.def_ = true ∧
      ∀ c ∈ s.cfg_.candidates, (s.next now_ms).1.def_.band = c.band := by
  have hne : s.bins_ ≠ [] := fun hb => h.some_bin (by rw [tuned, hb]; rfl)
  have harm := s.arm_keeps now_ms
  have h' := h.of_keeps harm
  rw [ScanScheduler.next, if_neg hne, ← harm.cfg]
  dsimp only
  split
  · next hdue =>
    have hw : (s.arm now_ms).wide_ ≠ [] := (of_decide_eq_true hdue).2.1
    exact ⟨rfl, h'.wide_dwell hw⟩
  · exact ⟨rfl, h'.bin_dwell⟩

/-! ## From the candidates -/

/-- What the constructor has after some candidates of the plan. -/
structure Built (cfg : ScanPlanConfig) (s : ScanScheduler) : Prop where
  same_cfg : s.cfg_ = cfg
  bins : ∀ b ∈ s.bins_, ∃ c ∈ cfg.candidates, b.band = c.band ∧ b.ch ∈ constituent_bins c
  wide : ∀ i ∈ s.wide_, i < cfg.candidates.length

theorem add_bin_mem {band ch : UInt8} {cadence : ℤ} {bins : List Bin} {b : Bin}
    (hb : b ∈ add_bin band cadence bins ch) :
    (b.band = band ∧ b.ch = ch) ∨ ∃ b' ∈ bins, b.band = b'.band ∧ b.ch = b'.ch := by
  unfold add_bin at hb
  split at hb
  · rcases List.mem_append.mp hb with hb | hb
    · exact .inr ⟨b, hb, rfl, rfl⟩
    · rw [List.mem_singleton.mp hb]
      exact .inl ⟨rfl, rfl⟩
  · next i _ =>
    right
    obtain ⟨j, hj, rfl⟩ := List.mem_iff_getElem.mp hb
    have hj' : j < bins.length := by simpa using hj
    refine ⟨bins[j], List.getElem_mem hj', ?_⟩
    rw [List.getElem_modify]
    split
    · split <;> exact ⟨rfl, rfl⟩
    · exact ⟨rfl, rfl⟩

theorem add_bin_ne_nil (band ch : UInt8) (cadence : ℤ) (bins : List Bin) :
    add_bin band cadence bins ch ≠ [] := by
  unfold add_bin
  split
  · simp
  · next i hi =>
    intro hnil
    have hlen := congrArg List.length hnil
    rw [List.length_modify, List.length_nil] at hlen
    rw [List.eq_nil_of_length_eq_zero hlen] at hi
    cases hi

theorem foldl_add_bin_mem {band : UInt8} {cadence : ℤ} {chs : List UInt8} {bins : List Bin}
    {b : Bin} (hb : b ∈ chs.foldl (add_bin band cadence) bins) :
    (b.band = band ∧ b.ch ∈ chs) ∨ ∃ b' ∈ bins, b.band = b'.band ∧ b.ch = b'.ch := by
  induction chs generalizing bins with
  | nil => exact .inr ⟨b, hb, rfl, rfl⟩
  | cons ch chs ih =>
    rcases ih hb with ⟨hband, hch⟩ | ⟨b', hb', hband, hch⟩
    · exact .inl ⟨hband, List.mem_cons_of_mem _ hch⟩
    · rw [hband, hch]
      rcases add_bin_mem hb' with ⟨h1, h2⟩ | h
      · rw [h1, h2]
        exact .inl ⟨rfl, List.mem_cons_self⟩
      · exact .inr h

theorem foldl_add_bin_ne_nil {band : UInt8} {cadence : ℤ} {chs : List UInt8} {bins : List Bin}
    (h : bins ≠ [] ∨ chs ≠ []) : chs.foldl (add_bin band cadence) bins ≠ [] := by
  induction chs generalizing bins with
  | nil => simpa using h
  | cons ch chs ih => exact ih (.inl (add_bin_ne_nil band ch cadence bins))

theorem constituent_bins_ne_nil (d : ChannelDef) : constituent_bins d ≠ [] := by
  unfold constituent_bins
  split <;> simp

theorem Built.add_candidate {cfg : ScanPlanConfig} {s : ScanScheduler} (h : s.Built cfg)
    {c : ChannelDef × ℕ} (hc : c ∈ cfg.candidates.zipIdx) : (s.add_candidate c).Built cfg where
  same_cfg := h.same_cfg
  bins := by
    intro b hb
    rcases foldl_add_bin_mem hb with ⟨hband, hch⟩ | ⟨b', hb', hband, hch⟩
    · exact ⟨c.1, List.fst_mem_of_mem_zipIdx hc, hband, hch⟩
    · rw [hband, hch]
      exact h.bins b' hb'
  wide := by
    intro i hi
    have hi : i ∈ if c.1.width = CHANNEL_WIDTH_40 ∨ c.1.width = CHANNEL_WIDTH_80 then
        s.wide_ ++ [c.2] else s.wide_ := hi
    split at hi
    · rcases List.mem_append.mp hi with hi | hi
      · exact h.wide i hi
      · rw [List.mem_singleton.mp hi]
        exact List.snd_lt_of_mem_zipIdx hc
    · exact h.wide i hi

theorem foldl_add_candidate_built {cfg : ScanPlanConfig} {s : ScanScheduler} (h : s.Built cfg)
    {cs : List (ChannelDef × ℕ)} (hcs : ∀ c ∈ cs, c ∈ cfg.candidates.zipIdx) :
    (cs.foldl add_candidate s).Built cfg ∧
      (s.bins_ ≠ [] ∨ cs ≠ [] → (cs.foldl add_candidate s).bins_ ≠ []) := by
  induction cs generalizing s with
  | nil => exact ⟨h, by simp⟩
  | cons c cs ih =>
    obtain ⟨hb, hne⟩ := ih (h.add_candidate (hcs c List.mem_cons_self))
      fun c hc => hcs c (List.mem_cons_of_mem _ hc)
    refine ⟨hb, fun _ => hne (.inl ?_)⟩
    exact foldl_add_bin_ne_nil (.inr (constituent_bins_ne_nil c.1))

theorem create_legal {cfg : ScanPlanConfig} (hne : cfg.candidates ≠ [])
    (hfit : ∀ c ∈ cfg.candidates, c.BinsFit)
    (hcands : ∀ c ∈ cfg.candidates, validate c = true ∧ ∀ d ∈ cfg.candidates, c.band = d.band) :
    (create cfg).Legal := by
  have h0 : ({ cfg_ := cfg } : ScanScheduler).Built cfg := ⟨rfl, nofun, nofun⟩
  obtain ⟨hb, hbins⟩ := foldl_add_candidate_built h0 fun c hc => hc
  have hzip : cfg.candidates.zipIdx ≠ [] := by
    intro h
    have hlen := congrArg List.length h
    rw [List.length_zipIdx] at hlen
    exact hne (List.eq_nil_of_length_eq_zero hlen)
  refine ⟨?_, ?_, ?_, ?_⟩
  · intro h
    exact hbins (.inr hzip) (List.map_eq_nil_iff.mp h)
  · intro b hmem
    obtain ⟨b, hb', rfl⟩ := List.mem_map.mp hmem
    obtain ⟨c, hc, hband, hch⟩ := hb.bins b hb'
    rw [create, hb.same_cfg, hband]
    exact ⟨(hfit c hc).legal b.ch hch, (hcands c hc).2⟩
  · rw [create, hb.same_cfg]
    exact hb.wide
  · rw [create, hb.same_cfg]
    exact hcands

theorem create_cfg (cfg : ScanPlanConfig) : (create cfg).cfg_ = cfg := by
  have h0 : ({ cfg_ := cfg } : ScanScheduler).Built cfg := ⟨rfl, nofun, nofun⟩
  exact (foldl_add_candidate_built h0 fun c hc => hc).1.same_cfg

theorem after_keeps (s : ScanScheduler) (calls : List Call) :
    s.Keeps (Runs.after call s calls) := by
  apply Runs.after_keeps
  · exact ⟨rfl, rfl, rfl⟩
  · intro t c hk
    have hc := t.call_keeps c
    exact ⟨hc.cfg.trans hk.cfg, hc.wide.trans hk.wide, hc.tuned.trans hk.tuned⟩

end ScanScheduler

/-! ## Accepted plans -/

theorem normalized_fits {d c : ChannelDef} (h : normalize d = .ok c) (hs : c.OnSynth) :
    c.BinsFit := by
  obtain ⟨hin, hg, -⟩ := normalize_onGrid h
  obtain ⟨lo, k, hrow⟩ := row_of_onGrid hin hg hs
  exact hrow.binsFit

theorem normalized_validates {d c : ChannelDef} (h : normalize d = .ok c) : validate c = true := by
  obtain ⟨hin, hg, -⟩ := normalize_onGrid h
  exact validate_of_onGrid hin hg

/-- The scout of an accepted plan tunes legal channels of the plan's band only, and the bins of each
candidate fit its block. -/
theorem the_scout_tunes_legal_channels {text : List Char} (h : (parse_scan_plan text).1 = true) :
    (∀ c ∈ (parse_scan_plan text).2.out, c.OnSynth → c.BinsFit) ∧
      ((∀ c ∈ (parse_scan_plan text).2.out, c.OnSynth) →
        ∀ cfg : ScanPlanConfig, cfg.candidates = (parse_scan_plan text).2.out →
          ∀ (calls : List ScanScheduler.Call) (now_ms : ℤ),
            let p := ((Runs.after ScanScheduler.call (.create cfg) calls).next now_ms).1
            p.valid = true ∧ validate p.def_ = true ∧
              ∀ c ∈ (parse_scan_plan text).2.out, p.def_.band = c.band) := by
  obtain ⟨hsound, hne⟩ := accepted_plan h
  have hfit : ∀ c ∈ (parse_scan_plan text).2.out, c.OnSynth → c.BinsFit := by
    intro c hc hs
    obtain ⟨d, hd⟩ := hsound.normalized c hc
    exact normalized_fits hd hs
  refine ⟨hfit, ?_⟩
  intro hs cfg hcfg calls now_ms
  rw [← hcfg] at hne hs hfit ⊢
  have hlegal : (ScanScheduler.create cfg).Legal := by
    refine ScanScheduler.create_legal hne (fun c hc => hfit c hc (hs c hc)) ?_
    intro c hc
    rw [hcfg] at hc ⊢
    obtain ⟨d, hd⟩ := hsound.normalized c hc
    exact ⟨normalized_validates hd, hsound.band c hc⟩
  have hk := (ScanScheduler.create cfg).after_keeps calls
  have hnext := (hlegal.of_keeps hk).next now_ms
  rwa [hk.cfg, ScanScheduler.create_cfg] at hnext

/-- The full-width dwell of a plan with a block of four bins. -/
theorem a_wide_dwell_is_legal :
    (parse_scan_plan ['3', '6', '/', '8', '0']).1 = true ∧
      validate ((Runs.after ScanScheduler.call
        (ScanScheduler.create
          { candidates := (parse_scan_plan ['3', '6', '/', '8', '0']).2.out, fullwidth_ms := 10 })
        [.next 0]).next 10).1.def_ = true := by
  have h : (parse_scan_plan ['3', '6', '/', '8', '0']).1 = true := by decide +kernel
  have hs : ∀ c ∈ (parse_scan_plan ['3', '6', '/', '8', '0']).2.out, c.OnSynth := by
    unfold OnSynth
    decide +kernel
  exact ⟨h, ((the_scout_tunes_legal_channels h).2 hs _ rfl [.next 0] 10).2.1⟩

/-- A narrowband block is less than its bin. And a pair that runs past channel 253 has channel 1 for
a bin, which is none of its band. -/
theorem narrowband_bins_are_wider :
    (∃ c ∈ (parse_scan_plan ['3', '6', '/', '5']).2.out, (parse_scan_plan ['3', '6', '/', '5']).1 ∧
      ∃ b ∈ constituent_bins c, ∃ x, (bin_def c.band b).Occupies x ∧ ¬ c.Occupies x) ∧
    (parse_scan_plan ['2', '5', '3', '/', '4', '0']).1 = true ∧
      validate ((Runs.after ScanScheduler.call
        (ScanScheduler.create
          { candidates := (parse_scan_plan ['2', '5', '3', '/', '4', '0']).2.out })
        [.next 0, .complete { valid := true, plan_index := 0 } 0 true]).next 1).1.def_ = false := by
  constructor
  · refine ⟨{ band := 5, primary := 36, width := CHANNEL_WIDTH_5 }, ?_, ?_⟩
    · decide +kernel
    · refine ⟨by decide +kernel, 36, by decide +kernel, 10350, ?_, ?_⟩
      · unfold Occupies
        decide +kernel
      · unfold Occupies
        decide +kernel
  · decide +kernel

end devourer.chanmig
