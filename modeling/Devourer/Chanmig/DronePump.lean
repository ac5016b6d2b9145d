-- The video pump of the drone. A drain stops it, and a switch or the end of
-- a probe starts it again; an exchange that ends in another way does not.
import Devourer.Chanmig.MigReplay

namespace devourer.chanmig

open MigAction MigResponder

/-- The drone, and whether the last thing it did to its pump was to stop it. -/
structure PumpRig where
  drone : MigResponder
  stopped : Bool := false

namespace PumpRig

/-- The pump after what is done to it: the last of it counts. -/
def after (stopped : Bool) (bs : List Bool) : Bool := bs.foldl (fun _ b => !b) stopped

def step (w : PumpRig) (op : Op) : PumpRig where
  drone := (w.drone.feed op).1
  stopped := after w.stopped (pumps (w.drone.feed op).2)

def run (w : PumpRig) (ops : List Op) : PumpRig := Runs.after step w ops

/-- A stable drone has not left its pump stopped. -/
def Pumping (w : PumpRig) : Prop := w.drone.st_ = .Stable → w.stopped = false

/-- The two ways out of a stopped pump that do not start it again: the retune of the switch
fails, or a ground of another epoch proposes during the switch or the probe. -/
structure Orderly (w : PumpRig) (op : Op) : Prop where
  retuned : ∀ now tsf, op = .retune_done false now tsf →
    ¬ (w.drone.st_ = .Switching ∧ w.drone.phase_ = .Retuning)
  proposed : ∀ m, op.proposal = some m → w.drone.epoch_change m = true →
    w.drone.st_ ≠ .Switching ∧ w.drone.st_ ≠ .Validating

/-- The pump is stopped in a switch that has not failed, and in a probe. -/
def Draining (v : Stand) (stopped : Bool) : Prop :=
  stopped = true → v.st = .Switching ∧ v.phase ≠ .RollbackRetune ∨ v.st = .Validating

/-- Outside of a switch and a probe the pump runs. -/
theorem Draining.runs {v : Stand} {stopped : Bool} (h : Draining v stopped)
    (hs : ¬ (v.st = .Switching ∧ v.phase ≠ .RollbackRetune)) (hv : v.st ≠ .Validating) :
    stopped = false := by
  rcases hb : stopped with _ | _
  · rfl
  · rcases h hb with h | h
    · exact absurd h hs
    · exact absurd h hv

theorem draining_running (v : Stand) : Draining v false := fun h => by cases h

theorem draining_move {v v' : Stand} {op : Op} {cs : List ChannelDef} {bs : List Bool}
    {stopped : Bool} (h : Draining v stopped) (hm : Move v op v' cs bs)
    (hretuned : ∀ now tsf, op = .retune_done false now tsf →
      ¬ (v.st = .Switching ∧ v.phase = .Retuning))
    (hproposed : ∀ m, op.proposal = some m → v.changes m = true →
      v.st ≠ .Switching ∧ v.st ≠ .Validating) :
    Draining v' (after stopped bs) := by
  cases hm with
  | rest => exact h
  | drains => exact fun _ => .inl ⟨rfl, by simp⟩
  | retunes _ hst => exact fun _ => .inl ⟨hst, by simp⟩
  | hops hst | samples hst | arrives hst | misses hst => exact fun _ => .inr hst
  | switches | strays | vetoes | clears => exact draining_running _
  | fails hst hp => exact absurd ⟨hst, hp⟩ (hretuned _ _ rfl)
  | returns hst hp | rescues hst hp =>
    have hrun := h.runs (fun hs => hs.2 hp) (by simp [hst])
    rw [hrun]
    exact draining_running _
  | lapses hst | expires hst | rolled hst | confirms _ hst =>
    have hrun := h.runs (by simp [hst]) (by simp [hst])
    rw [hrun]
    exact draining_running _
  | declines => exact h
  | orphans ht he | rolls ht he =>
    obtain ⟨hs, hv⟩ := hproposed _ (by simp [Op.proposal, ht]) he
    have hrun := h.runs (fun hsw => hs hsw.1) hv
    rw [hrun]
    exact draining_running _
  | probes => exact fun _ => .inr rfl
  | commits ht hwhy =>
    have hrun : stopped = false := by
      rcases hwhy with hst | ⟨he, -⟩
      · exact h.runs (by simp [hst]) (by simp [hst])
      · obtain ⟨hs, hv⟩ := hproposed _ (by simp [Op.proposal, ht]) he
        exact h.runs (fun hsw => hs hsw.1) hv
    rw [hrun]
    exact draining_running _

theorem draining_step {w : PumpRig} (op : Op) (hc : Orderly w op)
    (h : Draining w.drone.stand w.stopped) :
    Draining (step w op).drone.stand (step w op).stopped := by
  refine draining_move h (feed_moves w.drone op) hc.retuned ?_
  intro m hm he
  rw [changes_stand] at he
  exact hc.proposed m hm he

/-- In a run of orderly steps the pump runs whenever the drone is stable. -/
theorem the_pump_runs_in_orderly_runs (params : MigParams) (link_id drone_epoch : UInt32)
    (current : ChannelDef) (caps : MigCaps) (ops : List Op)
    (hops : Runs.Along step Orderly ⟨init params link_id drone_epoch current caps, false⟩ ops)
    (n : Nat) :
    Pumping (run ⟨init params link_id drone_epoch current caps, false⟩ (ops.take n)) := by
  have h := Runs.after_keeps_along (P := fun w => Draining w.drone.stand w.stopped) step _
    (draining_running _) (fun _ op hc h => draining_step op hc h) _ (hops.take step n)
  intro hst
  refine Draining.runs h ?_ ?_
  · intro hs
    exact absurd (hst.symm.trans hs.1) (by simp)
  · intro hv
    exact absurd (hst.symm.trans hv) (by simp)

theorem orderly_stable {w : PumpRig} (h : w.drone.st_ = .Stable) (op : Op) : Orderly w op := by
  refine ⟨fun _ _ _ hs => ?_, fun _ _ _ => ?_⟩
  · exact absurd (h.symm.trans hs.1) (by simp)
  · simp [h]

theorem orderly_other {op : Op} (hp : op.proposal = none)
    (hr : ∀ now tsf, op ≠ .retune_done false now tsf) (w : PumpRig) : Orderly w op := by
  refine ⟨fun now tsf h => absurd h (hr now tsf), fun m h => ?_⟩
  rw [hp] at h
  cases h

/-- The drone up to the retune of its switch. -/
def demoDrain : List Op :=
  [ .message (demoProposal 0x11110001 (Link.channel5 40)) 102 1102000,
    .message (demoAck 0x11110001) 106 1106000,
    .tick 600 1600000,
    .drain_done ]

/-- The ground confirms the move. -/
def demoConfirm : MigMsg :=
  { type := .MT_CONFIRM
    ground_epoch := 0x11110001
    generation := 1
    drone_nonce_echo := mig_mix_nonce 0x22220001 1 0xD2 }

/-- The retune succeeds and the ground confirms. -/
def demoSwitch : List Op :=
  demoDrain ++ [.retune_done true 610 1610000, .message demoConfirm 700 1700000]

theorem a_confirmed_switch_pumps :
    (run ⟨demoDrone, false⟩ demoDrain).stopped = true ∧
      (run ⟨demoDrone, false⟩ demoSwitch).drone.st_ = .Stable ∧
      Pumping (run ⟨demoDrone, false⟩ demoSwitch) := by
  have hops : Runs.Along step Orderly ⟨demoDrone, false⟩ demoSwitch := by
    refine ⟨orderly_stable rfl _, ?_, ?_, ?_, ?_, ?_, trivial⟩
    all_goals exact orderly_other rfl (by simp) _
  have h := the_pump_runs_in_orderly_runs {} 0xC1 0x22220001 (Link.channel5 36) {} demoSwitch hops 6
  exact ⟨by decide +kernel, by decide +kernel, h⟩

/-- The retune of the switch fails, and the one to the fallback succeeds: the drone is stable
and its pump stays stopped. -/
theorem a_failed_switch_leaves_the_pump_stopped :
    let w := run ⟨demoDrone, false⟩
      (demoDrain ++ [.retune_done false 610 1610000, .retune_done true 620 1620000])
    w.drone.st_ = .Stable ∧ w.stopped = true ∧ ¬ Pumping w := by
  intro w
  have hst : w.drone.st_ = .Stable := by decide +kernel
  have hstop : w.stopped = true := by decide +kernel
  refine ⟨hst, hstop, fun h => ?_⟩
  exact absurd (hstop.symm.trans (h hst)) (by simp)

end PumpRig

end devourer.chanmig
