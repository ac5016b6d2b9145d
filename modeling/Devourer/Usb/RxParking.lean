-- When backpressure may park the last transfer for good: the consumer looks at the
-- parked transfers only as it returns a buffer, so each of them needs a payload that
-- is still to be consumed.
import Devourer.Usb.RxPayloads

namespace devourer.usb

/-! ## Payloads for the parked transfers -/

/-- The consumer has a buffer that it will return. -/
def Consumer.busy : Consumer → ℕ
  | .consume .. | .give_back _ => 1
  | _ => 0

def Consumer.returning : Consumer → Bool
  | .give_back _ => true
  | _ => false

namespace Ring

/-- The ring receives: no device has gone, and no teardown has begun or been asked for. -/
def live (s : Ring) : Bool := !s.dead && !s.stopped && !s.parking_closed

/-- The transfers that are parked or about to be. -/
def parking (s : Ring) : ℕ := s.parked.length + if s.cb.any (·.1 = .park) then 1 else 0

/-- The payloads that are in the queue or that the callback is about to put there for a transfer
that is back on the wire. -/
def coming (s : Ring) : ℕ := s.queue.length + if s.cb.any (·.1 = .enqueue) then 1 else 0

/-- The buffers that the consumer has still to return. -/
def supply (s : Ring) : ℕ := s.coming + s.consumer.busy

/-- Nothing is received ever again, while the loop waits for the parked transfers. -/
def Starved (s : Ring) : Prop :=
  s.submitted = [] ∧ s.cb = none ∧ s.queue = [] ∧ s.consumer = .idle ∧ s.parked ≠ [] ∧
    s.dead = false ∧ s.stopped = false

/-- When a buffer goes back to the pool, there is a payload to come for each transfer that is parked
or about to be. -/
def Spared (s : Ring) : Act → Prop
  | .consumer rc => s.live → s.consumer.returning → s.parked = [] ∨ rc = .OTHER →
      s.parking ≤ s.coming
  | _ => True

instance (s : Ring) : Decidable s.Starved := by unfold Starved; infer_instance

instance (s : Ring) (act : Act) : Decidable (s.Spared act) := by
  unfold Spared
  cases act <;> infer_instance

/-- As long as the ring receives, there are buffers to come for all parked transfers. -/
def Covered (s : Ring) : Prop := s.live → s.parking ≤ s.supply

variable {cfg : RxConfig} {s : Ring}

theorem degrade_ne_park (j : Job) : degrade cfg j ≠ .park := by
  unfold degrade
  split
  · simp
  · split <;> simp

theorem degrade_ne_enqueue (j : Job) : degrade cfg j ≠ .enqueue := by
  unfold degrade
  split
  · simp
  · split <;> simp

theorem armed_ne_park (j : Job) : armed cfg j ≠ .park := by
  unfold armed
  split
  · simp
  · split <;> simp

/-- The callback publishes a payload before it parks its transfer. -/
theorem parking_callback (hclosed : s.parking_closed = false) (rc : Rc) :
    (s.callback_step cfg rc).parking + s.coming ≤ s.parking + (s.callback_step cfg rc).coming ∧
      (rc ≠ .SUCCESS → (s.callback_step cfg rc).parking + s.coming =
        s.parking + (s.callback_step cfg rc).coming) := by
  rcases hcb : s.cb with - | ⟨stage, j⟩
  · simp [callback_step, hcb]
  rw [callback_at hcb]
  cases stage with
  | take_spare =>
    cases hfree : s.free_bufs <;>
      simp [callback_stage, hfree, parking, coming, hcb, degrade_ne_park, degrade_ne_enqueue]
  | submit_fresh =>
    by_cases hrc : rc = .SUCCESS
    · simp [callback_stage, hrc, parking, coming, hcb, armed_ne_park]
    · simp [callback_stage, hrc, parking, coming, hcb]
  | return_fresh =>
    simp [callback_stage, parking, coming, hcb, degrade_ne_park, degrade_ne_enqueue]
  | consume_armed => simp [callback_stage, rx_consume_eq, parking, coming, hcb]
  | consume_inline =>
    cases hre : j.resubmit <;> simp [callback_stage, rx_consume_eq, hre, parking, coming, hcb]
  | discard => cases hre : j.resubmit <;> simp [callback_stage, hre, parking, coming, hcb]
  | publish =>
    simp [callback_stage, parking, coming, hcb]
    omega
  | enqueue => simp [callback_stage, parking, coming, hcb]
  | park => simp [callback_stage, parking, coming, hcb, hclosed]
  | resubmit => by_cases hrc : rc = .SUCCESS <;> simp [callback_stage, hrc, parking, coming, hcb]
  | pool_received | retire => simp [callback_stage, parking, coming, hcb]

theorem parking_complete (urb : ℕ) (status : Status) (len : ℕ) (stop : Bool) :
    (s.complete cfg urb status len stop).parking = s.parking ∧
      (s.complete cfg urb status len stop).coming = s.coming := by
  rcases @complete_cases cfg s urb status len stop with
    heq | ⟨received, -, hcb, j, stage, -, hstage, heq⟩
  · rw [heq]
    exact ⟨rfl, rfl⟩
  · have hne : stage ≠ .park ∧ stage ≠ .enqueue := by
      rw [hstage]
      split
      · simp
      · exact ⟨degrade_ne_park j, degrade_ne_enqueue j⟩
    rw [heq]
    simp [parking, coming, hcb, hne.1, hne.2]

theorem covered_complete (h : s.Covered) (urb : ℕ) (status : Status) (len : ℕ) (stop : Bool) :
    (s.complete cfg urb status len stop).Covered := by
  intro hlive'
  have hlive : s.live = true := by
    rcases @complete_cases cfg s urb status len stop with
      heq | ⟨received, -, -, j, stage, -, -, heq⟩
    · rwa [heq] at hlive'
    · rw [heq] at hlive'
      simp_all [live]
  have hcovered := h hlive
  obtain ⟨hparking, hcoming⟩ := @parking_complete cfg s urb status len stop
  rw [supply, hparking, hcoming, (complete_loop urb status len stop).2.1]
  exact hcovered

theorem covered_callback (h : s.Covered) (rc : Rc) : (s.callback_step cfg rc).Covered := by
  intro hlive
  have hparking := fun hclosed => @parking_callback cfg s hclosed rc
  obtain ⟨_, _, _, _, _, _, _, _, _, _, heq⟩ := @callback_writes cfg s rc
  rw [heq] at hlive hparking ⊢
  have hcovered := h hlive
  have hclosed : s.parking_closed = false := by
    simp only [live, Bool.and_eq_true, Bool.not_eq_true'] at hlive
    exact hlive.2
  have hcount := (hparking hclosed).1
  simp only [supply] at hcovered ⊢
  omega

/-- A parked transfer takes the buffer. -/
theorem give_back_taken (hbp : cfg.bp = true) (hclosed : s.parking_closed = false) {t : ℕ}
    {rest : List ℕ} (hparked : s.parked = t :: rest) (buf : ℕ) :
    s.give_back cfg buf .SUCCESS =
      { s with parked := rest, submitted := s.submitted ++ [(t, buf)] } := by
  simp [give_back, hparked, hbp, hclosed]

/-- No parked transfer takes the buffer. -/
theorem give_back_pooled (hbp : cfg.bp = true) (hclosed : s.parking_closed = false) (buf : ℕ)
    (rc : Rc) (h : s.parked = [] ∨ rc ≠ .SUCCESS) :
    s.give_back cfg buf rc = { s with
      free_bufs := buf :: s.free_bufs
      dead := s.dead || (s.parked ≠ [] && rc = .NO_DEVICE) } := by
  unfold give_back
  rcases hparked : s.parked with - | ⟨t, rest⟩
  · simp
  · have hrc : rc ≠ .SUCCESS := by simpa [hparked] using h
    simp [hbp, hclosed, hrc]

theorem live_closed (h : s.live = true) : s.parking_closed = false := by
  simp only [live, Bool.and_eq_true, Bool.not_eq_true'] at h
  exact h.2

theorem give_back_live {buf : ℕ} {rc : Rc} {con : Consumer}
    (h : { s.give_back cfg buf rc with consumer := con }.live = true) : s.live = true := by
  unfold give_back at h
  split at h
  · split at h
    · split at h
      · exact h
      · simp only [live, Bool.and_eq_true, Bool.not_eq_true', Bool.or_eq_false_iff] at h ⊢
        exact ⟨⟨h.1.1.1, h.1.2⟩, h.2⟩
    · exact h
  · exact h

theorem covered_give_back (hbp : cfg.bp = true) (h : s.Covered) {buf : ℕ}
    (hcon : s.consumer = .give_back buf) (rc : Rc) (hspared : s.Spared (.consumer rc)) :
    { s.give_back cfg buf rc with consumer := .idle }.Covered := by
  intro hlive'
  have hlive := give_back_live hlive'
  have hclosed := live_closed hlive
  have hcovered := h hlive
  by_cases hparked : s.parked = []
  · have hleft := hspared hlive (by rw [hcon]; rfl) (.inl hparked)
    rw [give_back_pooled hbp hclosed buf rc (.inl hparked)]
    simpa [parking, supply, coming, Consumer.busy] using hleft
  cases rc with
  | SUCCESS =>
    obtain ⟨t, rest, hsome⟩ := List.exists_cons_of_ne_nil hparked
    rw [give_back_taken hbp hclosed hsome]
    simp only [parking, supply, coming, hcon, hsome, Consumer.busy,
      List.length_cons] at hcovered ⊢
    omega
  | NO_DEVICE =>
    rw [give_back_pooled hbp hclosed buf .NO_DEVICE (.inr (by simp))] at hlive'
    simp [live, hparked] at hlive'
  | OTHER =>
    have hleft := hspared hlive (by rw [hcon]; rfl) (.inr rfl)
    rw [give_back_pooled hbp hclosed buf .OTHER (.inr (by simp))]
    simpa [parking, supply, coming, Consumer.busy] using hleft

theorem covered_consumer (hbp : cfg.bp = true) (h : s.Covered) (rc : Rc)
    (hspared : s.Spared (.consumer rc)) : (s.consumer_step cfg rc).Covered := by
  unfold consumer_step
  rcases hcon : s.consumer with - | - | ⟨buf, len⟩ | buf | - <;> dsimp only
  · exact h
  · rcases hqueue : s.queue with - | ⟨⟨buf, len⟩, rest⟩ <;> dsimp only
    · split
      · intro hlive
        have hcovered := h hlive
        simpa [parking, supply, coming, hcon, hqueue, Consumer.busy] using hcovered
      · exact h
    · intro hlive
      have hcovered := h hlive
      simp only [parking, supply, coming, hcon, hqueue, Consumer.busy,
        List.length_cons] at hcovered ⊢
      omega
  · simp only [rx_consume_eq]
    intro hlive
    have hcovered := h hlive
    simpa [parking, supply, coming, hcon, Consumer.busy] using hcovered
  · exact covered_give_back hbp h hcon rc hspared
  · exact h

theorem covered_loop (h : s.Covered) (hs : s.Stocked cfg) (rc : Rc) (stop : Bool) :
    (s.loop_step cfg rc stop).Covered := by
  unfold loop_step
  rcases hloop : s.loop with i | - | - | - | - | - | - <;> dsimp only
  · split
    · split <;> exact h
    · have hbusy : (if cfg.mode = .SpscFat then Consumer.idle else .absent).busy = 0 := by
        split <;> rfl
      intro hlive
      have hcovered := h hlive
      simp only [supply, coming, hs.unmanned i hloop] at hcovered
      simp only [supply, coming, hbusy]
      exact hcovered
  · split
    · intro hlive
      exact h (by simp_all [live])
    · exact h
  · intro hlive
    simp [live] at hlive
  · split <;> exact h
  · split <;> exact h
  · split <;> exact h
  · exact h

theorem covered_step (hbp : cfg.bp = true) (h : s.Covered) (hs : s.Stocked cfg) (act : Act)
    (hspared : s.Spared act) : (s.step cfg act).Covered := by
  cases act with
  | dma buf data =>
    dsimp only [step]
    split <;> exact h
  | complete urb status len stop => exact covered_complete h urb status len stop
  | callback rc => exact covered_callback h rc
  | consumer rc => exact covered_consumer hbp h rc hspared
  | loop rc stop => exact covered_loop h hs rc stop

theorem covered_run (hbp : cfg.bp = true) (acts : List Act)
    (hspared : Runs.Along (step cfg) Spared (start cfg) acts) : (run cfg acts).Covered := by
  have hkeeps : (run cfg acts).Stocked cfg ∧ (run cfg acts).Covered := by
    apply Runs.after_keeps_along (P := fun s : Ring => s.Stocked cfg ∧ s.Covered)
      (step cfg) (start cfg) _ _ acts hspared
    · refine ⟨start_stocked, ?_⟩
      intro _
      simp [start, parking]
    · rintro s act hc ⟨hs, h⟩
      exact ⟨stocked_step hs act, covered_step hbp h hs act hc⟩
  exact hkeeps.2

/-! ## How the ring starves -/

end Ring

/-- An upper bound on the steps that the callback has left and on those that it causes. -/
def Stage.weight : Stage → ℕ
  | .take_spare => 43
  | .submit_fresh => 42
  | .return_fresh => 41
  | .publish | .enqueue => 40
  | .discard | .consume_inline => 3
  | .resubmit | .consume_armed => 2
  | .pool_received | .park | .retire => 1

def Consumer.weight : Consumer → ℕ
  | .consume .. => 28
  | .give_back _ => 27
  | _ => 0

namespace Ring

/-- What goes down as the ring runs dry. -/
def weight (s : Ring) : ℕ :=
  20 * s.submitted.length + s.cb.elim 0 (·.1.weight) + 30 * s.queue.length + s.consumer.weight

/-- More transfers are parked than buffers are to come. -/
structure Short (s : Ring) : Prop where
  live : s.live = true
  short : s.supply < s.parking
  manned : s.consumer ≠ .absent ∧ s.consumer ≠ .exited ∧ s.consumer_stop = false

theorem degrade_weight (j : Job) :
    (degrade cfg j).weight ≤ 40 ∧ (j.resubmit = false → (degrade cfg j).weight = 3) := by
  unfold degrade
  split
  · simp [Stage.weight]
  · split
    · next h =>
      simp only [Bool.and_eq_true] at h
      simp [Stage.weight, h.1.2]
    · simp [Stage.weight]

/-- The next step of the callback, when libusb takes no transfer. -/
theorem short_callback {s : Ring} (h : s.Short) (hcb : s.cb ≠ none) :
    (s.callback_step cfg .OTHER).Short ∧ (s.callback_step cfg .OTHER).weight < s.weight := by
  have hclosed := live_closed h.live
  constructor
  · have hparking := (@parking_callback cfg _ hclosed .OTHER).2 (by simp)
    obtain ⟨_, _, _, _, _, _, _, _, _, _, heq⟩ := @callback_writes cfg s .OTHER
    have hshort := h.short
    rw [heq] at hparking ⊢
    refine ⟨h.live, ?_, h.manned⟩
    simp only [supply] at hshort ⊢
    omega
  · obtain ⟨⟨stage, j⟩, hsome⟩ := Option.ne_none_iff_exists'.mp hcb
    have hdegrade := (@degrade_weight cfg j).1
    rw [callback_at hsome]
    cases stage with
    | take_spare =>
      have hweight : Stage.take_spare.weight = 43 := rfl
      cases hfree : s.free_bufs with
      | nil =>
        simp only [callback_stage, hfree, weight, hsome, Option.elim]
        omega
      | cons fresh rest => simp [callback_stage, hfree, weight, hsome, Stage.weight]
    | return_fresh =>
      have hweight : Stage.return_fresh.weight = 41 := rfl
      simp only [callback_stage, weight, hsome, Option.elim]
      omega
    | consume_armed => simp [callback_stage, rx_consume_eq, weight, hsome, Stage.weight]
    | consume_inline =>
      cases hre : j.resubmit <;> simp [callback_stage, rx_consume_eq, hre, weight,
        hsome, Stage.weight]
    | discard => cases hre : j.resubmit <;> simp [callback_stage, hre, weight, hsome, Stage.weight]
    | publish | enqueue =>
      simp [callback_stage, weight, hsome, Stage.weight]
      omega
    | park => simp [callback_stage, weight, hsome, hclosed, Stage.weight]
    | submit_fresh | resubmit | pool_received | retire =>
      simp [callback_stage, weight, hsome, Stage.weight]

/-- A transfer that fails leaves the ring. -/
theorem short_complete {s : Ring} (h : s.Short) (hcb : s.cb = none) {item : ℕ × ℕ}
    {rest : List (ℕ × ℕ)} (hsub : s.submitted = item :: rest) :
    (s.complete cfg item.1 .ERROR 0 false).Short ∧
      (s.complete cfg item.1 .ERROR 0 false).weight < s.weight := by
  have hfind : s.submitted.find? (·.1 = item.1) = some item := by simp [hsub]
  obtain ⟨hparking, hcoming⟩ := @parking_complete cfg s item.1 .ERROR 0 false
  have hcon := (@complete_loop cfg s item.1 .ERROR 0 false).2.1
  constructor
  · refine ⟨?_, ?_, ?_⟩
    · simpa [complete, hfind, hcb, live] using h.live
    · rw [supply, hparking, hcoming, hcon]
      exact h.short
    · rw [hcon]
      simpa [complete, hfind, hcb] using h.manned
  · have hweight : (degrade cfg (job item.1 item.2 .ERROR 0 false)).weight = 3 :=
      (degrade_weight _).2 rfl
    have hre : (job item.1 item.2 .ERROR 0 false).resubmit = false := rfl
    simp only [complete, hfind, hcb, weight, hre, Option.elim]
    simp [hweight, hsub]
    omega

/-- The consumer takes the payloads one after another, and the parked transfers take the buffers. -/
theorem short_consumer (hbp : cfg.bp = true) {s : Ring} (h : s.Short) (hcb : s.cb = none)
    (hbusy : s.consumer = .idle → s.queue ≠ []) :
    (s.consumer_step cfg .SUCCESS).Short ∧ (s.consumer_step cfg .SUCCESS).weight < s.weight ∧
      s.Spared (.consumer .SUCCESS) := by
  have hclosed := live_closed h.live
  obtain ⟨hlive, hshort, hmanned⟩ := h
  simp only [supply, coming, parking, hcb, Option.any_none] at hshort
  rcases hcon : s.consumer with - | - | ⟨buf, len⟩ | buf | -
  · exact absurd hcon hmanned.1
  · obtain ⟨⟨buf, len⟩, rest, hqueue⟩ := List.exists_cons_of_ne_nil (hbusy hcon)
    simp only [hcon, hqueue, Consumer.busy, List.length_cons] at hshort
    refine ⟨⟨?_, ?_, ?_⟩, ?_, ?_⟩
    · simpa [consumer_step, hcon, hqueue, live] using hlive
    · simp [consumer_step, hcon, hqueue, supply, coming, parking, hcb, Consumer.busy]
      omega
    · simp [consumer_step, hcon, hqueue, hmanned.2.2]
    · simp [consumer_step, hcon, hqueue, weight, hcb, Consumer.weight]
      omega
    · simp [Spared, hcon, Consumer.returning]
  · simp only [hcon, Consumer.busy] at hshort
    refine ⟨⟨?_, ?_, ?_⟩, ?_, ?_⟩
    · simpa [consumer_step, hcon, rx_consume_eq, live] using hlive
    · simp [consumer_step, hcon, rx_consume_eq, supply, coming, parking, hcb, Consumer.busy]
      omega
    · simp [consumer_step, hcon, rx_consume_eq, hmanned.2.2]
    · simp [consumer_step, hcon, rx_consume_eq, weight, hcb, Consumer.weight]
    · simp [Spared, hcon, Consumer.returning]
  · simp only [hcon, Consumer.busy] at hshort
    have hparked : s.parked ≠ [] := by
      intro hnil
      simp [hnil] at hshort
    obtain ⟨t, rest, hsome⟩ := List.exists_cons_of_ne_nil hparked
    rw [hsome, List.length_cons] at hshort
    have hstep : s.consumer_step cfg .SUCCESS = { s with
        parked := rest, submitted := s.submitted ++ [(t, buf)], consumer := .idle } := by
      simp only [consumer_step, hcon]
      rw [give_back_taken hbp hclosed hsome]
    rw [hstep]
    refine ⟨⟨?_, ?_, ?_⟩, ?_, ?_⟩
    · exact hlive
    · simp [supply, coming, parking, hcb, Consumer.busy]
      omega
    · simp [hmanned.2.2]
    · simp [weight, hcb, hcon, Consumer.weight]
      omega
    · simp [Spared, hparked]
  · exact absurd hcon hmanned.2.1

/-- From where buffers are short, the ring can run dry with every step as it should be. -/
theorem short_starves (hbp : cfg.bp = true) (s : Ring) (h : s.Short) :
    ∃ more, Runs.Along (step cfg) Spared s more ∧ (Runs.after (step cfg) s more).Starved := by
  induction hweight : s.weight using Nat.strong_induction_on generalizing s with
  | _ weight ih =>
    subst hweight
    by_cases hcb : s.cb = none
    · rcases hsub : s.submitted with - | ⟨item, rest⟩
      · by_cases hbusy : s.consumer = .idle → s.queue ≠ []
        · obtain ⟨hshort, hless, hspared⟩ := short_consumer hbp h hcb hbusy
          obtain ⟨more, halong, hstarved⟩ := ih _ hless _ hshort rfl
          exact ⟨.consumer .SUCCESS :: more, ⟨hspared, halong⟩, hstarved⟩
        · obtain ⟨hidle, hqueue⟩ : s.consumer = .idle ∧ s.queue = [] := by simpa using hbusy
          refine ⟨[], trivial, hsub, hcb, hqueue, hidle, ?_, ?_⟩
          · intro hparked
            rw [Runs.after_nil] at hparked
            have hshort := h.short
            simp [supply, coming, parking, hcb, hidle, hqueue, hparked] at hshort
          · have hlive := h.live
            simp only [live, Bool.and_eq_true, Bool.not_eq_true'] at hlive
            exact hlive.1
      · obtain ⟨hshort, hless⟩ := @short_complete cfg _ h hcb _ _ hsub
        obtain ⟨more, halong, hstarved⟩ := ih _ hless _ hshort rfl
        exact ⟨.complete item.1 .ERROR 0 false :: more, ⟨trivial, halong⟩, hstarved⟩
    · obtain ⟨hshort, hless⟩ := @short_callback cfg _ h hcb
      obtain ⟨more, halong, hstarved⟩ := ih _ hless _ hshort rfl
      exact ⟨.callback .OTHER :: more, ⟨trivial, halong⟩, hstarved⟩

/-- A step that leaves too few buffers. -/
theorem short_of_not_spared (hbp : cfg.bp = true) {s : Ring} (hstop : s.consumer_stop = false)
    {act : Act} (h : ¬s.Spared act) : (s.step cfg act).Short := by
  cases act with
  | consumer rc =>
    obtain ⟨hlive, hret, hpooled, hless⟩ : s.live ∧ s.consumer.returning ∧
        (s.parked = [] ∨ rc = .OTHER) ∧ s.coming < s.parking := by
      simpa [Spared] using h
    rcases hcon : s.consumer with - | - | ⟨buf, len⟩ | buf | - <;>
      simp [hcon, Consumer.returning] at hret
    have hpooled' : s.parked = [] ∨ rc ≠ .SUCCESS := by
      rcases hpooled with hpooled | rfl
      · exact .inl hpooled
      · exact .inr (by simp)
    have hdead : (decide (s.parked ≠ []) && decide (rc = .NO_DEVICE)) = false := by
      rcases hpooled with hpooled | rfl
      · simp [hpooled]
      · simp
    have hstep : s.step cfg (.consumer rc) =
        { s with free_bufs := buf :: s.free_bufs, consumer := .idle } := by
      simp only [step, consumer_step, hcon]
      rw [give_back_pooled hbp (live_closed hlive) buf rc hpooled', hdead, Bool.or_false]
    rw [hstep]
    refine ⟨hlive, ?_, by simp, by simp, hstop⟩
    simpa [supply, coming, parking, Consumer.busy] using hless
  | _ => exact absurd trivial h

theorem live_unstopped (acts : List Act) (h : (run cfg acts).live = true) :
    (run cfg acts).consumer_stop = false := by
  by_contra hstop
  have hdrained := (joined_run acts).told (by simpa using hstop)
  have hclosed := (@orderly_run cfg acts).closing
  rw [live_closed h] at hclosed
  revert hclosed hdrained
  cases (run cfg acts).loop <;> simp [Loop.closed, Loop.drained]

/-- The ring does not starve as long as each buffer that goes back to the pool can be spared; and
from any step that pools another one it may starve. -/
theorem a_ring_starves_only_from_unspared_buffers (cfg : RxConfig) (hbp : cfg.bp = true)
    (acts : List Act) :
    (Runs.Along (step cfg) Spared (start cfg) acts → ¬(run cfg acts).Starved) ∧
      ∀ act, ¬(run cfg acts).Spared act → ∃ more,
        Runs.Along (step cfg) Spared (run cfg (acts ++ [act])) more ∧
          (run cfg (acts ++ act :: more)).Starved := by
  constructor
  · rintro hspared ⟨-, hcb, hqueue, hcon, hparked, hdead, hstopped⟩
    have hcovered := covered_run hbp acts hspared
    cases hclosed : (run cfg acts).parking_closed
    · have hless := hcovered (by simp [live, hdead, hstopped, hclosed])
      simp [parking, supply, coming, hcb, hqueue, hcon, Consumer.busy] at hless
      exact hparked hless
    · exact hparked ((orderly_run acts).closed hclosed)
  · intro act hact
    have hlive : (run cfg acts).live = true := by
      cases act with
      | consumer rc =>
        by_contra hlive
        exact hact fun h => absurd h hlive
      | _ => exact absurd trivial hact
    have hshort := short_of_not_spared hbp (live_unstopped acts hlive) hact
    obtain ⟨more, halong, hstarved⟩ := short_starves hbp _ hshort
    refine ⟨more, ?_, ?_⟩
    · rw [run, Runs.after_snoc]
      exact halong
    · rw [run, Runs.after_append]
      exact hstarved

/-- The only transfer completes, and is parked for want of a buffer. -/
def parked_in_time : List Act :=
  [.loop .SUCCESS false, .loop .SUCCESS false, .complete 0 .COMPLETED 1 false, .callback .SUCCESS,
    .callback .SUCCESS, .callback .SUCCESS]

/-- The buffer that the consumer returns puts it back on the wire. -/
theorem a_transfer_parked_in_time_goes_back :
    (run { mode := .SpscFat, n_urbs := 1 } parked_in_time).parked = [0] ∧
      ¬(run { mode := .SpscFat, n_urbs := 1 }
        (parked_in_time ++ [.consumer .SUCCESS, .consumer .SUCCESS,
          .consumer .SUCCESS])).Starved := by
  refine ⟨rfl, (a_ring_starves_only_from_unspared_buffers _ rfl _).1 ?_⟩
  refine ⟨?_, ?_, ?_, ?_, ?_, ?_, ?_, ?_, ?_, trivial⟩ <;> decide

/-- The consumer returns the buffer between the publication and the parking. -/
theorem the_only_transfer_is_parked_for_good : ¬∀ (cfg : RxConfig) (acts : List Act),
    cfg.mode = .SpscFat → cfg.bp = true → 1 ≤ cfg.n_urbs → ¬(run cfg acts).Starved := by
  intro h
  apply h { mode := .SpscFat, n_urbs := 1 } [.loop .SUCCESS false, .loop .SUCCESS false,
    .complete 0 .COMPLETED 1 false, .callback .SUCCESS, .callback .SUCCESS, .consumer .SUCCESS,
    .consumer .SUCCESS, .consumer .SUCCESS, .callback .SUCCESS] rfl rfl le_rfl
  decide

end Ring

end devourer.usb
