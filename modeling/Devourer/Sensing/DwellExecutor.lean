-- How a dwell retunes: through the full gate, or leanly, which keeps the width
-- that the radio has. One flag stands for a width that nothing reads back.
import Devourer.Chanmig.EvidenceStore
import Devourer.Chanmig.ScanPlan

namespace devourer.sensing

open chanmig chanmig.ChannelWidth_t

/-! ## The radio -/

structure SelectedChannel where
  Channel : UInt8
  ChannelOffset : UInt8
  ChannelWidth : ChannelWidth_t
  Band : UInt8 := 0

def to_selected (d : ChannelDef) : SelectedChannel := ⟨d.primary, d.offset, d.width, 0⟩

inductive RadioCall
  | SetMonitorChannel (channel : SelectedChannel)
  | FastRetune (channel : UInt8) (cache_rf : Bool)

/-- How a call of the radio goes: whether it throws, the width that a throw part-way leaves, and how
long it takes. -/
structure Tuning where
  threw : Bool
  left_width : ChannelWidth_t
  retune_us : Int64

/-- The width of the radio after a call. The lean path never changes it. -/
def width_after (width : ChannelWidth_t) (t : Tuning) : RadioCall → ChannelWidth_t
  | .SetMonitorChannel channel => if t.threw then t.left_width else channel.ChannelWidth
  | .FastRetune _ _ => width

/-! ## The executor -/

structure DwellExecConfig where
  settle_ms : Int32 := 30
  plan_hash : UInt32 := 0
  scout_id : UInt32 := 0
  adapter_gen : UInt8 := 0

structure DwellExecutor where
  cfg_ : DwellExecConfig
  seq_ : UInt64 := 0
  last_was_wide_ : Bool := false

namespace DwellExecutor

def full_gate (e : DwellExecutor) (plan : DwellPlan) : Bool := plan.full_width || e.last_was_wide_

/-- The call of the radio that `begin` makes. -/
def retune (e : DwellExecutor) (plan : DwellPlan) : RadioCall :=
  if e.full_gate plan then .SetMonitorChannel (to_selected plan.def_)
  else .FastRetune plan.bin_ch true

/-- The record that `begin` opens. -/
def open_record (e : DwellExecutor) (plan : DwellPlan) (now_ms : Int64) (t : Tuning) :
    SurveyDwell :=
  { seq := e.seq_
    def_ := plan.def_
    round := UInt64.ofNat plan.round
    plan_hash := e.cfg_.plan_hash
    t_start_ms := now_ms
    settle_ms := e.cfg_.settle_ms
    scout_id := e.cfg_.scout_id
    adapter_gen := e.cfg_.adapter_gen
    flags := if plan.full_width then kFlagFullWidth else 0
    retune_us := t.retune_us }

/-- The latch after the retune. A throw part-way through the full gate leaves the width unknown, and
one on the lean path leaves it as it was. -/
def latch (e : DwellExecutor) (plan : DwellPlan) (t : Tuning) : Bool :=
  if e.full_gate plan then t.threw || plan.full_width else e.last_was_wide_

/-- `begin`: the record, and whether the radio is tuned. -/
def begin (e : DwellExecutor) (plan : DwellPlan) (now_ms : Int64) (t : Tuning) :
    DwellExecutor × SurveyDwell × Bool :=
  let out := e.open_record plan now_ms t
  let out := if t.threw then
    { out with flags := out.flags ||| kFlagRetuneFailed, t_end_ms := now_ms, observe_ms := 0 }
    else out
  ({ e with seq_ := e.seq_ + 1, last_was_wide_ := e.latch plan t }, out, !t.threw)

/-! ## Runs -/

/-- An executor with the width that its radio really has. -/
structure Scout where
  executor : DwellExecutor
  width : ChannelWidth_t := CHANNEL_WIDTH_20

structure Begin where
  plan : DwellPlan
  now_ms : Int64
  tuning : Tuning

def Scout.step (s : Scout) (b : Begin) : Scout :=
  { executor := (s.executor.begin b.plan b.now_ms b.tuning).1
    width := width_after s.width b.tuning (s.executor.retune b.plan) }

/-- A plan that is not for a full-width dwell is for a bin of 20 MHz. -/
def Narrow (plan : DwellPlan) : Prop := plan.full_width = false → plan.def_.width = CHANNEL_WIDTH_20

/-- So are the plans of the scheduler. -/
theorem next_narrow (s : ScanScheduler) (now_ms : ℤ) : Narrow (s.next now_ms).1 := by
  intro hnarrow
  unfold ScanScheduler.next at hnarrow ⊢
  split
  · rfl
  · rename_i hbins
    rw [if_neg hbins] at hnarrow
    dsimp only at hnarrow ⊢
    split
    · rename_i hwide
      rw [if_pos hwide] at hnarrow
      cases hnarrow
    · rfl

/-- While the latch is off, the radio is at 20 MHz. -/
def Scout.Tracked (s : Scout) : Prop :=
  s.executor.last_was_wide_ = false → s.width = CHANNEL_WIDTH_20

theorem tracked_step {s : Scout} {b : Begin} (hplan : Narrow b.plan) (h : s.Tracked) :
    (s.step b).Tracked := by
  intro hlatch
  have hlatch : s.executor.latch b.plan b.tuning = false := hlatch
  show width_after s.width b.tuning (s.executor.retune b.plan) = CHANNEL_WIDTH_20
  unfold latch at hlatch
  unfold retune
  split at hlatch
  · rename_i hgate
    obtain ⟨hok, hnarrow⟩ := Bool.or_eq_false_iff.mp hlatch
    rw [if_pos hgate]
    unfold width_after
    rw [hok]
    exact hplan hnarrow
  · rename_i hgate
    rw [if_neg hgate]
    exact h hlatch

/-- The lean retune finds the radio at 20 MHz, whatever went wrong before it. -/
theorem lean_retune_at_20 (cfg : DwellExecConfig) (begins : List Begin)
    (hplans : ∀ b ∈ begins, Narrow b.plan) :
    Runs.Along Scout.step
      (fun s b => ∀ channel cache_rf, s.executor.retune b.plan = .FastRetune channel cache_rf →
        s.width = CHANNEL_WIDTH_20) { executor := { cfg_ := cfg } } begins := by
  refine Runs.along_imp Scout.step (P := Scout.Tracked) (C := fun _ b => Narrow b.plan) _
    (fun _ => rfl) (fun s b h hplan => tracked_step hplan h) ?_ begins
    (Runs.along_of_forall _ (fun _ b hb => hplans b hb) _)
  intro s b htracked _ channel cache_rf hlean
  apply htracked
  unfold retune at hlean
  split at hlean
  · cases hlean
  · rename_i hgate
    have hoff := Bool.eq_false_iff.mpr hgate
    exact (Bool.or_eq_false_iff.mp hoff).2

/-- A dwell on a bin, and one over 80 MHz. -/
def bin_plan : DwellPlan := { valid := true, bin_ch := 36, def_ := { band := 5, primary := 36 } }

def wide_plan : DwellPlan :=
  { valid := true, bin_ch := 36, full_width := true,
    def_ := { band := 5, primary := 36, width := CHANNEL_WIDTH_80, offset := 1 } }

/-- A wide tune throws part-way, and so does the tune that should restore the width. -/
theorem two_throws_are_tracked :
    Runs.Along Scout.step
      (fun s b => ∀ channel cache_rf, s.executor.retune b.plan = .FastRetune channel cache_rf →
        s.width = CHANNEL_WIDTH_20) { executor := { cfg_ := {} } }
      [⟨wide_plan, 0, ⟨true, CHANNEL_WIDTH_80, 900⟩⟩,
        ⟨bin_plan, 150, ⟨true, CHANNEL_WIDTH_40, 900⟩⟩,
        ⟨bin_plan, 300, ⟨false, CHANNEL_WIDTH_20, 900⟩⟩,
        ⟨bin_plan, 450, ⟨false, CHANNEL_WIDTH_20, 200⟩⟩] :=
  lean_retune_at_20 {} _ (by
    have hbin : Narrow bin_plan := fun _ => rfl
    have hwide : Narrow wide_plan := fun h => by cases h
    simp [hbin, hwide])

end DwellExecutor

end devourer.sensing
