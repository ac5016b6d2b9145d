-- The transfers of the receive ring: `active` counts those that are submitted,
-- parked or in the callback, and after teardown has begun none is parked or
-- submitted by the consumer.
import Devourer.Usb.RxOwnership

namespace devourer.usb

/-- Teardown has closed the parking. -/
def Loop.closed : Loop → Bool
  | .draining | .stopping | .joining | .done => true
  | _ => false

/-- Teardown has seen the last transfer retire. -/
def Loop.drained : Loop → Bool
  | .stopping | .joining | .done => true
  | _ => false

namespace Ring

variable {cfg : RxConfig} {s s' : Ring}

/-! ## The count of the transfers -/

/-- A step that counts the transfers it takes out of the ring. -/
def Sheds (s s' : Ring) : Prop :=
  ∃ l, s.urbs.Perm (l ++ s'.urbs) ∧ s'.active = s.active - l.length

theorem sheds_none (hurbs : s.urbs.Perm s'.urbs) (hactive : s'.active = s.active) : s.Sheds s' := by
  refine ⟨[], hurbs, ?_⟩
  simp [hactive]

theorem complete_sheds (urb : ℕ) (status : Status) (len : ℕ) (stop : Bool) :
    s.Sheds (s.complete cfg urb status len stop) := by
  rcases @complete_cases cfg s urb status len stop with
    heq | ⟨received, hmem, hcb, j, stage, hj, hstage, heq⟩
  · rw [heq]
    exact sheds_none (.refl _) rfl
  · have hurbs : stage.urbs j = [urb] := by
      have hrearmed : stage.rearmed = false := by
        rw [hstage]
        split
        · rfl
        · exact degrade_rearmed j
      have hurb : j.urb = urb := by rw [hj]; rfl
      simp [Stage.urbs, hrearmed, hurb]
    rw [heq]
    apply sheds_none
    · rw [List.perm_iff_count]
      intro t
      have hperm := ((List.perm_cons_erase hmem).map Prod.fst).count_eq t
      simp only [urbs, cb_urbs, hcb, hurbs, hperm, Option.elim, List.map_cons, List.count_append,
        List.count_cons, List.count_nil]
      omega
    · rfl

theorem degrade_urbs (j : Job) : (degrade cfg j).urbs j = [j.urb] := by
  simp [Stage.urbs, degrade_rearmed]

theorem armed_urbs (j : Job) : (armed cfg j).urbs j = [] := by
  simp [Stage.urbs, armed_rearmed]

theorem callback_sheds (rc : Rc) : s.Sheds (s.callback_step cfg rc) := by
  rcases hcb : s.cb with - | ⟨stage, j⟩
  · unfold callback_step
    rw [hcb]
    exact sheds_none (.refl _) rfl
  rw [callback_at hcb]
  cases stage with
  | take_spare =>
    apply sheds_none
    · cases hfree : s.free_bufs <;>
        simp only [callback_stage, hfree, urbs, cb_urbs, hcb, Option.elim, degrade_urbs] <;>
        simp [Stage.urbs, Stage.rearmed]
    · cases hfree : s.free_bufs <;> simp [callback_stage, hfree]
  | submit_fresh =>
    by_cases hrc : rc = .SUCCESS
    · apply sheds_none
      · rw [List.perm_iff_count]
        intro t
        simp only [callback_stage, hrc, if_true, urbs, cb_urbs, hcb, Option.elim, armed_urbs]
        simp [Stage.urbs, Stage.rearmed, List.count_cons]
      · simp [callback_stage, hrc]
    · apply sheds_none
      · simp [callback_stage, hrc, urbs, cb_urbs, hcb, Stage.urbs, Stage.rearmed]
      · simp [callback_stage, hrc]
  | return_fresh =>
    apply sheds_none
    · simp only [callback_stage, urbs, cb_urbs, hcb, Option.elim, degrade_urbs]
      simp [Stage.urbs, Stage.rearmed]
    · rfl
  | consume_armed =>
    apply sheds_none
    · simp [callback_stage, rx_consume_eq, urbs, cb_urbs, hcb, Stage.urbs, Stage.rearmed]
    · simp [callback_stage, rx_consume_eq]
  | pool_received | enqueue | publish =>
    apply sheds_none
    · simp [callback_stage, urbs, cb_urbs, hcb, Stage.urbs, Stage.rearmed]
    · rfl
  | consume_inline =>
    apply sheds_none
    · simp only [callback_stage, rx_consume_eq]
      split <;> simp [urbs, cb_urbs, hcb, Stage.urbs, Stage.rearmed]
    · simp [callback_stage, rx_consume_eq]
  | park =>
    dsimp only [callback_stage]
    split
    · refine ⟨[j.urb], ?_, by simp⟩
      rw [List.perm_iff_count]
      intro t
      simp [urbs, cb_urbs, hcb, Stage.urbs, Stage.rearmed, List.count_cons]
      omega
    · apply sheds_none
      · rw [List.perm_iff_count]
        intro t
        simp [urbs, cb_urbs, hcb, Stage.urbs, Stage.rearmed, List.count_cons]
      · rfl
  | discard =>
    apply sheds_none
    · cases hre : j.resubmit <;>
        simp [callback_stage, hre, urbs, cb_urbs, hcb, Stage.urbs, Stage.rearmed]
    · rfl
  | resubmit =>
    by_cases hrc : rc = .SUCCESS
    · apply sheds_none
      · rw [List.perm_iff_count]
        intro t
        simp [callback_stage, hrc, urbs, cb_urbs, hcb, Stage.urbs, Stage.rearmed, List.count_cons]
      · simp [callback_stage, hrc]
    · apply sheds_none
      · simp [callback_stage, hrc, urbs, cb_urbs, hcb, Stage.urbs, Stage.rearmed]
      · simp [callback_stage, hrc]
  | retire =>
    refine ⟨[j.urb], ?_, by simp [callback_stage]⟩
    rw [List.perm_iff_count]
    intro t
    simp [callback_stage, urbs, cb_urbs, hcb, Stage.urbs, Stage.rearmed, List.count_cons]
    omega

theorem consumer_sheds (rc : Rc) : s.Sheds (s.consumer_step cfg rc) := by
  unfold consumer_step
  rcases hcon : s.consumer with - | - | ⟨buf, len⟩ | buf | -
  · exact sheds_none (.refl _) rfl
  · rcases hq : s.queue with - | ⟨⟨buf, len⟩, rest⟩ <;> dsimp only
    · split <;> exact sheds_none (.refl _) rfl
    · exact sheds_none (.refl _) rfl
  · apply sheds_none
    · simp [rx_consume_eq, urbs, cb_urbs]
    · simp [rx_consume_eq]
  · dsimp only
    unfold give_back
    split
    · next t rest hparked =>
      split
      · split
        · apply sheds_none
          · rw [List.perm_iff_count]
            intro t
            simp [urbs, cb_urbs, hparked, List.count_cons]
          · rfl
        · exact sheds_none (.refl _) rfl
      · exact sheds_none (.refl _) rfl
    · exact sheds_none (.refl _) rfl
  · exact sheds_none (.refl _) rfl

/-- The transfers are counted, each once; before the loop begins, they are among those that it has
tried to submit. -/
structure Counted (s : Ring) : Prop where
  nodup : s.urbs.Nodup
  tried : ∀ i, s.loop = .arming i → ∀ t ∈ s.urbs, t < i
  active : s.active = s.urbs.length

theorem Counted.of_sheds (h : s.Counted) (hsheds : s.Sheds s')
    (hloop : ∀ i, s'.loop = .arming i → s.loop = .arming i) : s'.Counted := by
  obtain ⟨l, hperm, hactive⟩ := hsheds
  constructor
  · exact (List.nodup_append'.mp (hperm.nodup h.nodup)).2.1
  · intro i hi t ht
    exact h.tried i (hloop i hi) t (hperm.mem_iff.mpr (by simp [ht]))
  · have hlength := hperm.length_eq
    rw [List.length_append] at hlength
    rw [hactive, h.active]
    omega

theorem counted_loop (h : s.Counted) (rc : Rc) (stop : Bool) :
    (s.loop_step cfg rc stop).Counted := by
  unfold loop_step
  rcases hloop : s.loop with i | - | - | - | - | - | - <;> dsimp only
  · split
    · split
      · have hurbs : ({ s with
            submitted := s.submitted ++ [(i, i)], unposted := s.unposted.erase i
            active := s.active + 1, loop := .arming (i + 1) } : Ring).urbs.Perm (i :: s.urbs) := by
          rw [List.perm_iff_count]
          intro t
          simp [urbs, cb_urbs, List.count_cons]
          omega
        constructor
        · apply hurbs.symm.nodup
          rw [List.nodup_cons]
          refine ⟨fun hi => ?_, h.nodup⟩
          exact absurd (h.tried i hloop i hi) (lt_irrefl i)
        · intro i' hi' t ht
          obtain rfl : i + 1 = i' := by simpa using hi'
          rcases List.mem_cons.mp (hurbs.mem_iff.mp ht) with rfl | ht
          · omega
          · have hlt := h.tried i hloop t ht
            omega
        · rw [hurbs.length_eq, List.length_cons, h.active]
          simp
      · refine ⟨h.nodup, ?_, h.active⟩
        intro i' hi' t ht
        obtain rfl : i + 1 = i' := by simpa using hi'
        have hlt := h.tried i hloop t ht
        omega
    · exact h.of_sheds (sheds_none (.refl _) rfl) (by simp)
  · split
    · exact h.of_sheds (sheds_none (.refl _) rfl) (by simp)
    · exact h
  · apply h.of_sheds
    · refine ⟨s.parked, ?_, rfl⟩
      rw [List.perm_iff_count]
      intro t
      simp [urbs, cb_urbs]
      omega
    · simp
  · split
    · exact h
    · exact h.of_sheds (sheds_none (.refl _) rfl) (by simp)
  · split <;> exact h.of_sheds (sheds_none (.refl _) rfl) (by simp)
  · split
    · exact h.of_sheds (sheds_none (.refl _) rfl) (by simp)
    · exact h
  · exact h

theorem counted_step (h : s.Counted) (act : Act) : (s.step cfg act).Counted := by
  cases act with
  | dma buf data =>
    dsimp only [step]
    split
    · exact h.of_sheds (sheds_none (.refl _) rfl) fun _ hi => hi
    · exact h
  | complete urb status len stop =>
    apply h.of_sheds (complete_sheds urb status len stop)
    intro i hi
    exact (complete_loop urb status len stop).1 ▸ hi
  | callback rc =>
    apply h.of_sheds (callback_sheds rc)
    intro i hi
    obtain ⟨_, _, _, _, _, _, _, _, _, _, heq⟩ := @callback_writes cfg s rc
    rwa [heq] at hi
  | consumer rc =>
    apply h.of_sheds (consumer_sheds rc)
    intro i hi
    obtain ⟨_, _, _, _, _, _, _, heq⟩ := @consumer_writes cfg s rc
    rwa [heq] at hi
  | loop rc stop => exact counted_loop h rc stop

/-- `active` is the number of the transfers that are submitted, parked or in the callback. -/
theorem counted_run (acts : List Act) : (run cfg acts).Counted := by
  apply Runs.after_keeps (P := Counted)
  · constructor <;> simp [start, urbs, cb_urbs]
  · intro s act h
    exact counted_step h act

/-! ## Teardown -/

structure Orderly (s : Ring) : Prop where
  /-- No other callback runs for a transfer that the callback has put back on the wire. -/
  rearmed : ∀ stage j, s.cb = some (stage, j) → stage.rearmed → j.urb ∈ s.submitted.map Prod.fst
  closed : s.parking_closed → s.parked = []
  closing : s.parking_closed = s.loop.closed
  drained : s.loop.drained → s.submitted = [] ∧ s.cb = none

theorem orderly_complete (h : s.Orderly) (urb : ℕ) (status : Status) (len : ℕ) (stop : Bool) :
    (s.complete cfg urb status len stop).Orderly := by
  rcases @complete_cases cfg s urb status len stop with
    heq | ⟨received, hmem, hcb, j, stage, hj, hstage, heq⟩
  · rw [heq]
    exact h
  · have hrearmed : stage.rearmed = false := by
      rw [hstage]
      split
      · rfl
      · exact degrade_rearmed j
    rw [heq]
    constructor
    · rintro stage' j' hcb' hre
      obtain ⟨rfl, rfl⟩ : stage = stage' ∧ j = j' := by simpa using hcb'
      simp [hrearmed] at hre
    · exact h.closed
    · exact h.closing
    · intro hdrained
      rw [(h.drained hdrained).1] at hmem
      simp at hmem

theorem callback_rearmed (h : s.Orderly) (rc : Rc) (stage' : Stage) (j' : Job)
    (hcb' : (s.callback_step cfg rc).cb = some (stage', j')) (hre : stage'.rearmed) :
    j'.urb ∈ (s.callback_step cfg rc).submitted.map Prod.fst := by
  rcases hcb : s.cb with - | ⟨stage, j⟩
  · simp [callback_step, hcb] at hcb'
  rw [callback_at hcb] at hcb' ⊢
  cases stage with
  | submit_fresh =>
    by_cases hrc : rc = .SUCCESS
    · obtain ⟨-, rfl⟩ : armed cfg j = stage' ∧ j = j' := by simpa [callback_stage, hrc] using hcb'
      simp [callback_stage, hrc]
    · obtain ⟨rfl, -⟩ : Stage.return_fresh = stage' ∧ j = j' := by
        simpa [callback_stage, hrc] using hcb'
      simp [Stage.rearmed] at hre
  | consume_armed =>
    obtain ⟨-, rfl⟩ : Stage.pool_received = stage' ∧ j = j' := by
      simpa [callback_stage] using hcb'
    simpa [callback_stage, rx_consume_eq] using h.rearmed _ _ hcb rfl
  | take_spare =>
    cases hfree : s.free_bufs with
    | nil =>
      obtain ⟨rfl, -⟩ : degrade cfg j = stage' ∧ j = j' := by
        simpa [callback_stage, hfree] using hcb'
      simp [degrade_rearmed] at hre
    | cons fresh rest =>
      obtain ⟨rfl, -⟩ : Stage.submit_fresh = stage' ∧ _ = j' := by
        simpa only [callback_stage, hfree, Option.some.injEq, Prod.mk.injEq] using hcb'
      simp [Stage.rearmed] at hre
  | return_fresh =>
    obtain ⟨rfl, -⟩ : degrade cfg j = stage' ∧ j = j' := by simpa [callback_stage] using hcb'
    simp [degrade_rearmed] at hre
  | consume_inline | discard =>
    obtain ⟨rfl, -⟩ : (if j.resubmit then Stage.resubmit else .retire) = stage' ∧ j = j' := by
      simpa [callback_stage] using hcb'
    cases hj : j.resubmit <;> simp [hj, Stage.rearmed] at hre
  | publish =>
    obtain ⟨rfl, -⟩ : Stage.park = stage' ∧ j = j' := by simpa [callback_stage] using hcb'
    simp [Stage.rearmed] at hre
  | resubmit =>
    by_cases hrc : rc = .SUCCESS
    · simp [callback_stage, hrc] at hcb'
    · obtain ⟨rfl, -⟩ : Stage.retire = stage' ∧ j = j' := by
        simpa [callback_stage, hrc] using hcb'
      simp [Stage.rearmed] at hre
  | park =>
    dsimp only [callback_stage] at hcb'
    split at hcb' <;> simp at hcb'
  | pool_received | enqueue | retire => simp [callback_stage] at hcb'

theorem callback_parked (h : s.parking_closed = true) (rc : Rc) :
    (s.callback_step cfg rc).parked = s.parked := by
  rcases hcb : s.cb with - | ⟨stage, j⟩
  · simp [callback_step, hcb]
  rw [callback_at hcb]
  cases stage <;> simp only [callback_stage, rx_consume_eq, h, if_true]
  case take_spare => cases s.free_bufs <;> rfl
  case submit_fresh => split <;> rfl
  case resubmit => split <;> rfl

/-- With the parking closed the consumer submits nothing. -/
theorem consumer_closed (h : s.parking_closed = true) (rc : Rc) :
    (s.consumer_step cfg rc).submitted = s.submitted ∧
      (s.consumer_step cfg rc).parked = s.parked := by
  unfold consumer_step
  rcases s.consumer with - | - | ⟨buf, len⟩ | buf | -
  · exact ⟨rfl, rfl⟩
  · cases s.queue <;> dsimp only
    · split <;> exact ⟨rfl, rfl⟩
    · exact ⟨rfl, rfl⟩
  · simp [rx_consume_eq]
  · dsimp only [give_back]
    rw [h]
    split <;> simp
  · exact ⟨rfl, rfl⟩

theorem orderly_callback (h : s.Orderly) (rc : Rc) : (s.callback_step cfg rc).Orderly := by
  have hrearmed := @callback_rearmed cfg _ h rc
  have hparked := fun hclosed => @callback_parked cfg s hclosed rc
  have hidle : s.loop.drained → s.callback_step cfg rc = s := by
    intro hdrained
    unfold callback_step
    rw [(h.drained hdrained).2]
  obtain ⟨_, _, _, _, _, _, _, _, _, _, heq⟩ := @callback_writes cfg s rc
  constructor
  · exact hrearmed
  · rw [heq] at hparked ⊢
    intro hclosed
    exact (hparked hclosed).trans (h.closed hclosed)
  · rw [heq]
    exact h.closing
  · intro hdrained
    rw [heq] at hdrained
    rw [hidle hdrained]
    exact h.drained hdrained

theorem consumer_rearmed (rc : Rc) : ∀ t ∈ s.submitted.map Prod.fst,
    t ∈ (s.consumer_step cfg rc).submitted.map Prod.fst := by
  unfold consumer_step
  rcases s.consumer with - | - | ⟨buf, len⟩ | buf | -
  · simp
  · cases s.queue <;> dsimp only
    · split <;> simp
    · simp
  · simp [rx_consume_eq]
  · dsimp only [give_back]
    split
    · split
      · split
        · simp +contextual
        · simp
      · simp
    · simp
  · simp

theorem orderly_consumer (h : s.Orderly) (rc : Rc) : (s.consumer_step cfg rc).Orderly := by
  have hrearmed := @consumer_rearmed cfg s rc
  have hclosed := fun hc => @consumer_closed cfg s hc rc
  obtain ⟨_, _, _, _, _, _, _, heq⟩ := @consumer_writes cfg s rc
  rw [heq] at hrearmed hclosed ⊢
  constructor
  · intro stage j hcb hre
    exact hrearmed _ (h.rearmed stage j hcb hre)
  · intro hc
    exact (hclosed hc).2.trans (h.closed hc)
  · exact h.closing
  · intro hdrained
    have hc : s.parking_closed = true := by
      rw [h.closing]
      revert hdrained
      cases s.loop <;> simp [Loop.drained, Loop.closed]
    exact ⟨(hclosed hc).1.trans (h.drained hdrained).1, (h.drained hdrained).2⟩

/-- When no transfer is counted any more, none is submitted and no callback runs. -/
theorem Orderly.quiet (h : s.Orderly) (hcounted : s.Counted) (hactive : s.active ≤ 0) :
    s.submitted = [] ∧ s.cb = none := by
  have hurbs : s.urbs = [] := by
    rw [hcounted.active] at hactive
    exact List.length_eq_zero_iff.mp (by omega)
  obtain ⟨hsub, hcb⟩ : s.submitted = [] ∧ s.cb_urbs = [] := by
    simp only [urbs, List.append_eq_nil_iff, List.map_eq_nil_iff] at hurbs
    exact ⟨hurbs.1.1, hurbs.2⟩
  refine ⟨hsub, ?_⟩
  rcases hsome : s.cb with - | ⟨stage, j⟩
  · rfl
  · cases hre : stage.rearmed
    · simp [cb_urbs, hsome, Stage.urbs, hre] at hcb
    · have hmem := h.rearmed stage j hsome hre
      simp [hsub] at hmem

theorem orderly_loop (h : s.Orderly) (hcounted : s.Counted) (rc : Rc) (stop : Bool) :
    (s.loop_step cfg rc stop).Orderly := by
  have hclosing := h.closing
  unfold loop_step
  rcases hloop : s.loop with i | - | - | - | - | - | - <;> dsimp only <;> rw [hloop] at hclosing
  · split
    · split
      · refine ⟨?_, h.closed, hclosing, by simp [Loop.drained]⟩
        intro stage j hcb hre
        simp [h.rearmed stage j hcb hre]
      · exact ⟨h.rearmed, h.closed, hclosing, by simp [Loop.drained]⟩
    · exact ⟨h.rearmed, h.closed, hclosing, by simp [Loop.drained]⟩
  · split
    · exact ⟨h.rearmed, h.closed, hclosing, by simp [Loop.drained]⟩
    · exact h
  · exact ⟨h.rearmed, fun _ => rfl, rfl, by simp [Loop.drained]⟩
  · split
    · exact h
    · next hactive =>
      exact ⟨h.rearmed, h.closed, hclosing, fun _ => h.quiet hcounted (by omega)⟩
  · have hdrained := h.drained (by rw [hloop]; rfl)
    split <;> exact ⟨h.rearmed, h.closed, hclosing, fun _ => hdrained⟩
  · have hdrained := h.drained (by rw [hloop]; rfl)
    split
    · exact ⟨h.rearmed, h.closed, hclosing, fun _ => hdrained⟩
    · exact h
  · exact h

theorem orderly_step (h : s.Orderly) (hcounted : s.Counted) (act : Act) :
    (s.step cfg act).Orderly := by
  cases act with
  | dma buf data =>
    dsimp only [step]
    split
    · exact ⟨h.rearmed, h.closed, h.closing, h.drained⟩
    · exact h
  | complete urb status len stop => exact orderly_complete h urb status len stop
  | callback rc => exact orderly_callback h rc
  | consumer rc => exact orderly_consumer h rc
  | loop rc stop => exact orderly_loop h hcounted rc stop

theorem orderly_run (acts : List Act) : (run cfg acts).Orderly := by
  have hkeeps : (run cfg acts).Counted ∧ (run cfg acts).Orderly := by
    apply Runs.after_keeps (P := fun s : Ring => s.Counted ∧ s.Orderly)
    · refine ⟨counted_run [], ?_⟩
      constructor <;> simp [start, Loop.closed, Loop.drained]
    · rintro s act ⟨hcounted, h⟩
      exact ⟨counted_step hcounted act, orderly_step h hcounted act⟩
  exact hkeeps.2

end Ring

end devourer.usb
