-- Who holds the buffers of the receive ring: each has one holder at all times, so
-- that none is read while the device may write it, and each payload goes to the
-- consumer once and in order.
import Devourer.Usb.RxRing
import Mathlib.Data.List.Count
import Mathlib.Data.List.Perm.Basic
import Mathlib.Data.List.Nodup
import Mathlib.Data.List.Range

namespace devourer.usb

/-! ## Holders -/

/-- The buffers that the callback holds. -/
def Stage.bufs (j : Job) (stage : Stage) : List ℕ :=
  (if stage = .park then [] else [j.received]) ++
    if stage = .submit_fresh ∨ stage = .return_fresh then [j.fresh] else []

/-- Libusb has the transfer of the callback back. -/
def Stage.rearmed (stage : Stage) : Bool :=
  stage = .consume_armed || stage = .pool_received || stage = .enqueue

def Stage.urbs (j : Job) (stage : Stage) : List ℕ := if stage.rearmed then [] else [j.urb]

def Consumer.bufs : Consumer → List ℕ
  | .consume buf _ => [buf]
  | .give_back buf => [buf]
  | _ => []

namespace Ring

/-- The buffers that the device may write. -/
def posted (s : Ring) : List ℕ := s.submitted.map Prod.snd

def cb_bufs (s : Ring) : List ℕ := s.cb.elim [] fun c => c.1.bufs c.2

/-- The transfer of the callback, as long as libusb does not have it back. -/
def cb_urbs (s : Ring) : List ℕ := s.cb.elim [] fun c => c.1.urbs c.2

/-- The buffers of all holders, one holder after another. -/
def held (s : Ring) : List ℕ :=
  s.posted ++ s.free_bufs ++ s.queue.map Prod.fst ++ s.consumer.bufs ++ s.cb_bufs ++ s.unposted

/-- The transfers that are submitted, parked or in the callback. -/
def urbs (s : Ring) : List ℕ := s.submitted.map Prod.fst ++ s.parked ++ s.cb_urbs

/-- The buffers that were allocated. -/
def pool (cfg : RxConfig) : List ℕ :=
  (List.range cfg.n_urbs).filter cfg.alloc ++ (List.range' cfg.n_urbs cfg.spare).filter cfg.alloc

variable {cfg : RxConfig} {s : Ring}

theorem degrade_bufs (j : Job) : (degrade cfg j).bufs j = [j.received] := by
  unfold degrade
  split
  · rfl
  · split <;> rfl

theorem degrade_rearmed (j : Job) : (degrade cfg j).rearmed = false := by
  unfold degrade
  split
  · rfl
  · split <;> rfl

theorem armed_bufs (j : Job) : (armed cfg j).bufs j = [j.received] := by
  unfold armed
  split
  · rfl
  · split <;> rfl

theorem armed_rearmed (j : Job) : (armed cfg j).rearmed = true := by
  unfold armed
  split
  · rfl
  · split <;> rfl

/-- The transfer that completes, with its buffer. -/
theorem complete_cases (urb : ℕ) (status : Status) (len : ℕ) (stop : Bool) :
    s.complete cfg urb status len stop = s ∨ ∃ received, (urb, received) ∈ s.submitted ∧
      s.cb = none ∧ ∃ j stage, j = job urb received status len stop ∧
        (stage = if j.resubmit then .take_spare else degrade cfg j) ∧
        s.complete cfg urb status len stop =
          { s with
            submitted := s.submitted.erase (urb, received)
            dead := s.dead || status = .NO_DEVICE
            stopped := s.stopped || stop
            seen := if answers cfg j then s.seen ++ [{ payload := (s.mem received).take j.rlen }]
              else s.seen
            cb := some (stage, j) } := by
  unfold complete
  split
  · next u received hfind hcb =>
    have hmem := List.mem_of_find?_eq_some hfind
    obtain rfl : u = urb := by simpa using List.find?_some hfind
    exact .inr ⟨received, hmem, hcb, _, _, rfl, rfl, rfl⟩
  · exact .inl rfl

/-! ## Each buffer has one holder -/

theorem held_complete (urb : ℕ) (status : Status) (len : ℕ) (stop : Bool) (b : ℕ) :
    (s.complete cfg urb status len stop).held.count b = s.held.count b := by
  rcases @complete_cases cfg s urb status len stop with
    heq | ⟨received, hmem, hcb, j, stage, hj, hstage, heq⟩
  · rw [heq]
  · have hperm := ((List.perm_cons_erase hmem).map Prod.snd).count_eq b
    have hbufs : stage.bufs j = [received] := by
      have hreceived : j.received = received := by rw [hj]; rfl
      rw [hstage, ← hreceived]
      split
      · rfl
      · exact degrade_bufs j
    simp only [heq, held, posted, cb_bufs, hcb, hbufs, hperm, Option.elim, List.map_cons,
      List.count_append, List.count_cons, List.count_nil]
    omega

theorem callback_at {stage : Stage} {j : Job} (hcb : s.cb = some (stage, j)) (rc : Rc) :
    s.callback_step cfg rc = s.callback_stage cfg j rc stage := by
  unfold callback_step
  rw [hcb]

theorem rx_consume_eq (buf len : ℕ) :
    s.rx_consume buf len = { s with
      delivered := s.delivered ++ if len = 0 then [] else [(s.mem buf).take len] } := by
  unfold rx_consume
  split <;> simp

theorem held_callback (rc : Rc) (b : ℕ) :
    (s.callback_step cfg rc).held.count b = s.held.count b := by
  rcases hcb : s.cb with - | ⟨stage, j⟩
  · simp [callback_step, hcb]
  rw [callback_at hcb]
  cases stage with
  | take_spare =>
    cases hfree : s.free_bufs with
    | nil =>
      simp only [callback_stage, hfree, held, posted, cb_bufs, hcb, Option.elim, degrade_bufs]
      simp [Stage.bufs]
    | cons fresh rest =>
      simp only [callback_stage, hfree, held, posted, cb_bufs, hcb, Option.elim]
      simp [Stage.bufs, List.count_cons]
      omega
  | submit_fresh =>
    by_cases hrc : rc = .SUCCESS
    · simp only [callback_stage, hrc, if_true, held, posted, cb_bufs, hcb, Option.elim, armed_bufs]
      simp [Stage.bufs, List.count_cons]
      omega
    · simp only [callback_stage, hrc, if_false, held, posted, cb_bufs, hcb, Option.elim]
      simp [Stage.bufs]
  | return_fresh =>
    simp only [callback_stage, held, posted, cb_bufs, hcb, Option.elim, degrade_bufs]
    simp [Stage.bufs, List.count_cons]
    omega
  | consume_armed => simp [callback_stage, rx_consume_eq, held, posted, cb_bufs, hcb, Stage.bufs]
  | pool_received | enqueue | publish =>
    simp [callback_stage, held, posted, cb_bufs, hcb, Stage.bufs, List.count_cons]
    omega
  | consume_inline =>
    simp only [callback_stage, rx_consume_eq]
    split <;> simp [held, posted, cb_bufs, hcb, Stage.bufs]
  | park =>
    dsimp only [callback_stage]
    split <;> simp [held, posted, cb_bufs, hcb, Stage.bufs]
  | discard =>
    cases hre : j.resubmit <;>
      simp [callback_stage, hre, held, posted, cb_bufs, hcb, Stage.bufs, List.count_cons]
  | resubmit =>
    by_cases hrc : rc = .SUCCESS
    · simp [callback_stage, hrc, held, posted, cb_bufs, hcb, Stage.bufs, List.count_cons]
      omega
    · simp [callback_stage, hrc, held, posted, cb_bufs, hcb, Stage.bufs]
  | retire => simp [callback_stage, held, posted, cb_bufs, hcb, Stage.bufs, List.count_cons]

theorem held_consumer (rc : Rc) (b : ℕ) :
    (s.consumer_step cfg rc).held.count b = s.held.count b := by
  unfold consumer_step
  rcases hcon : s.consumer with - | - | ⟨buf, len⟩ | buf | -
  · rfl
  · rcases hq : s.queue with - | ⟨⟨buf, len⟩, rest⟩
    · dsimp only
      split
      · simp [held, posted, cb_bufs, hcon, hq, Consumer.bufs]
      · rfl
    · simp [held, posted, cb_bufs, hcon, hq, Consumer.bufs, List.count_cons]
      omega
  · simp [rx_consume_eq, held, posted, cb_bufs, hcon, Consumer.bufs]
  · dsimp only
    unfold give_back
    split
    · split
      · split
        · simp [held, posted, cb_bufs, hcon, Consumer.bufs, List.count_cons]
          omega
        · simp [held, posted, cb_bufs, hcon, Consumer.bufs, List.count_cons]
          omega
      · simp [held, posted, cb_bufs, hcon, Consumer.bufs, List.count_cons]
        omega
    · simp [held, posted, cb_bufs, hcon, Consumer.bufs, List.count_cons]
      omega
  · rfl

/-- Until the loop begins, the transfers that are still to be submitted have their buffers, and no
consumer runs. -/
structure Stocked (cfg : RxConfig) (s : Ring) : Prop where
  stock : ∀ i, s.loop = .arming i → ∀ k, i ≤ k → k < cfg.n_urbs → cfg.alloc k → k ∈ s.unposted
  unmanned : ∀ i, s.loop = .arming i → s.consumer = .absent

theorem held_loop (h : s.Stocked cfg) (rc : Rc) (stop : Bool) (b : ℕ) :
    (s.loop_step cfg rc stop).held.count b = s.held.count b := by
  unfold loop_step
  rcases hloop : s.loop with i | - | - | - | - | - | -
  · dsimp only
    split
    · split
      · next hi hgo =>
        simp only [Bool.and_eq_true, decide_eq_true_eq] at hgo
        have hperm := (List.perm_cons_erase (h.stock i hloop i le_rfl hi hgo.1)).count_eq b
        simp only [held, posted, cb_bufs, List.map_append, List.map_cons, List.map_nil,
          List.count_append, List.count_cons, List.count_nil, hperm]
        omega
      · rfl
    · have hbufs : (if cfg.mode = .SpscFat then Consumer.idle else .absent).bufs = [] := by
        split <;> rfl
      simp only [held, posted, cb_bufs, hbufs, h.unmanned i hloop]
      rfl
  · dsimp only
    split <;> rfl
  · rfl
  · dsimp only
    split <;> rfl
  · dsimp only
    split <;> rfl
  · dsimp only
    split <;> rfl
  · rfl

/-! ## What the steps leave alone -/

theorem complete_loop (urb : ℕ) (status : Status) (len : ℕ) (stop : Bool) :
    (s.complete cfg urb status len stop).loop = s.loop ∧
      (s.complete cfg urb status len stop).consumer = s.consumer ∧
      (s.complete cfg urb status len stop).unposted = s.unposted := by
  rcases @complete_cases cfg s urb status len stop with
    heq | ⟨received, -, -, j, stage, -, -, heq⟩ <;> rw [heq] <;> exact ⟨rfl, rfl, rfl⟩

/-- What a step of the callback writes. -/
theorem callback_writes (rc : Rc) :
    ∃ submitted free_bufs queue parked unposted active pool_dropped cb seen delivered,
      s.callback_step cfg rc = { s with
        submitted, free_bufs, queue, parked, unposted, active, pool_dropped, cb, seen,
        delivered } := by
  rcases hcb : s.cb with - | ⟨stage, j⟩
  · exact ⟨_, _, _, _, _, _, _, _, _, _, by unfold callback_step; rw [hcb]⟩
  rw [callback_at hcb]
  cases stage <;> simp only [callback_stage, rx_consume_eq]
  case take_spare => cases s.free_bufs <;> exact ⟨_, _, _, _, _, _, _, _, _, _, rfl⟩
  case submit_fresh => split <;> exact ⟨_, _, _, _, _, _, _, _, _, _, rfl⟩
  case park => split <;> exact ⟨_, _, _, _, _, _, _, _, _, _, rfl⟩
  case resubmit => split <;> exact ⟨_, _, _, _, _, _, _, _, _, _, rfl⟩
  all_goals exact ⟨_, _, _, _, _, _, _, _, _, _, rfl⟩

theorem give_back_writes (buf : ℕ) (rc : Rc) : ∃ submitted free_bufs parked dead,
    s.give_back cfg buf rc = { s with submitted, free_bufs, parked, dead } := by
  unfold give_back
  split
  · split
    · split <;> exact ⟨_, _, _, _, rfl⟩
    · exact ⟨_, _, _, _, rfl⟩
  · exact ⟨_, _, _, _, rfl⟩

/-- What a step of the consumer writes. -/
theorem consumer_writes (rc : Rc) : ∃ submitted free_bufs queue parked dead consumer delivered,
    s.consumer_step cfg rc =
      { s with submitted, free_bufs, queue, parked, dead, consumer, delivered } := by
  unfold consumer_step
  rcases s.consumer with - | - | ⟨buf, len⟩ | buf | -
  · exact ⟨_, _, _, _, _, _, _, rfl⟩
  · cases s.queue <;> dsimp only
    · split <;> exact ⟨_, _, _, _, _, _, _, rfl⟩
    · exact ⟨_, _, _, _, _, _, _, rfl⟩
  · simp only [rx_consume_eq]
    exact ⟨_, _, _, _, _, _, _, rfl⟩
  · obtain ⟨_, _, _, _, heq⟩ := @give_back_writes cfg s buf rc
    simp only [heq]
    exact ⟨_, _, _, _, _, _, _, rfl⟩
  · exact ⟨_, _, _, _, _, _, _, rfl⟩

theorem callback_unposted (rc : Rc) : ∀ b ∈ s.unposted, b ∈ (s.callback_step cfg rc).unposted := by
  rcases hcb : s.cb with - | ⟨stage, j⟩
  · simp [callback_step, hcb]
  rw [callback_at hcb]
  cases stage <;> simp only [callback_stage, rx_consume_eq]
  case take_spare => cases s.free_bufs <;> simp
  case submit_fresh => split <;> simp
  case park => split <;> simp
  case resubmit => split <;> simp
  case retire => simp +contextual
  all_goals simp

theorem consumer_absent (h : s.consumer = .absent) (rc : Rc) : s.consumer_step cfg rc = s := by
  unfold consumer_step
  rw [h]

theorem stocked_step (h : s.Stocked cfg) (act : Act) : (s.step cfg act).Stocked cfg := by
  cases act with
  | dma buf data =>
    dsimp only [step]
    split
    · exact ⟨h.stock, h.unmanned⟩
    · exact h
  | complete urb status len stop =>
    obtain ⟨hloop, hcon, hun⟩ := @complete_loop cfg s urb status len stop
    dsimp only [step]
    constructor
    · rw [hloop, hun]
      exact h.stock
    · rw [hloop, hcon]
      exact h.unmanned
  | callback rc =>
    have hun := @callback_unposted cfg s rc
    obtain ⟨_, _, _, _, _, _, _, _, _, _, heq⟩ := @callback_writes cfg s rc
    dsimp only [step]
    rw [heq] at hun ⊢
    constructor
    · intro i hi k hik hk halloc
      exact hun k (h.stock i hi k hik hk halloc)
    · exact h.unmanned
  | consumer rc =>
    dsimp only [step]
    by_cases habsent : s.consumer = .absent
    · rw [consumer_absent habsent]
      exact h
    · obtain ⟨_, _, _, _, _, _, _, heq⟩ := @consumer_writes cfg s rc
      rw [heq]
      constructor
      · exact h.stock
      · intro i hi
        exact absurd (h.unmanned i hi) habsent
  | loop rc stop =>
    dsimp only [step, loop_step]
    rcases hloop : s.loop with i | - | - | - | - | - | -
    · dsimp only
      split
      · split
        · constructor
          · intro i' hi' k hk hn halloc
            obtain rfl : i + 1 = i' := by simpa using hi'
            have hmem := h.stock i hloop k (by omega) hn halloc
            exact (List.mem_erase_of_ne (by omega)).mpr hmem
          · intro _ _
            exact h.unmanned i hloop
        · constructor
          · intro i' hi' k hk hn halloc
            obtain rfl : i + 1 = i' := by simpa using hi'
            exact h.stock i hloop k (by omega) hn halloc
          · intro _ _
            exact h.unmanned i hloop
      · constructor <;> simp
    all_goals dsimp only
    all_goals try split
    all_goals constructor <;> simp [hloop]

theorem start_stocked : (start cfg).Stocked cfg := by
  constructor
  · intro i _ k _ hk halloc
    simp [start, hk, halloc]
  · intro _ _
    rfl

theorem stocked_run (acts : List Act) : (run cfg acts).Stocked cfg :=
  Runs.after_keeps _ _ start_stocked (fun _ act h => stocked_step h act) acts

theorem held_step (h : s.Stocked cfg) (act : Act) (b : ℕ) :
    (s.step cfg act).held.count b = s.held.count b := by
  cases act with
  | dma buf data =>
    dsimp only [step]
    split <;> rfl
  | complete urb status len stop => exact held_complete urb status len stop b
  | callback rc => exact held_callback rc b
  | consumer rc => exact held_consumer rc b
  | loop rc stop => exact held_loop h rc stop b

/-- Every buffer of the pool has one holder. -/
theorem held_run (acts : List Act) : (run cfg acts).held.Perm (pool cfg) := by
  rw [List.perm_iff_count]
  intro b
  have hkeeps : (run cfg acts).Stocked cfg ∧ (run cfg acts).held.count b = (pool cfg).count b := by
    apply Runs.after_keeps
      (P := fun s : Ring => s.Stocked cfg ∧ s.held.count b = (pool cfg).count b)
    · refine ⟨start_stocked, ?_⟩
      simp [start, held, posted, cb_bufs, Consumer.bufs, pool]
      omega
    · rintro s act ⟨hs, hb⟩
      exact ⟨stocked_step hs act, (held_step hs act b).trans hb⟩
  exact hkeeps.2

theorem pool_nodup : (pool cfg).Nodup := by
  unfold pool
  rw [← List.filter_append, List.range_eq_range']
  refine List.Nodup.filter _ (List.nodup_append.mpr ⟨List.nodup_range', List.nodup_range', ?_⟩)
  intro a ha b hb
  simp only [List.mem_range'_1] at ha hb
  omega

end Ring

end devourer.usb
