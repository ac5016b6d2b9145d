-- What the receive ring does with the payloads: each goes to `on_data` once and in
-- order, or the callback has counted it as dropped.
import Devourer.Usb.RxTransfers

namespace devourer.usb

/-! ## The payloads that are still owed -/

/-- The callback has yet to pass the payload on. -/
def Stage.owes : Stage → Bool
  | .pool_received | .park | .resubmit | .retire => false
  | _ => true

/-- What the callback knows at a step. -/
def Stage.Fits (cfg : RxConfig) (j : Job) : Stage → Prop
  | .take_spare | .submit_fresh | .return_fresh => j.resubmit
  | .consume_armed | .consume_inline => cfg.mode = .ReorderPool
  | .pool_received => cfg.mode = .SpscFat → j.rlen = 0
  | .enqueue => cfg.mode = .SpscFat ∧ j.resubmit ∧ 0 < j.rlen
  | .publish => cfg.mode = .SpscFat ∧ cfg.bp ∧ j.resubmit ∧ 0 < j.rlen
  | .discard => cfg.mode = .SpscFat ∧ ¬(cfg.bp ∧ j.resubmit ∧ 0 < j.rlen)
  | .park | .resubmit | .retire => True

def Consumer.items : Consumer → List (ℕ × ℕ)
  | .consume buf len => [(buf, len)]
  | _ => []

namespace Ring

/-- What the callback owes. -/
def owed (cfg : RxConfig) (cb : Option (Stage × Job)) : List (ℕ × ℕ) :=
  cb.elim [] fun c => if c.1.owes && answers cfg c.2 then [(c.2.received, c.2.rlen)] else []

/-- The payloads on their way to `on_data`, the oldest first. -/
def pending (cfg : RxConfig) (s : Ring) : List (ℕ × ℕ) :=
  s.consumer.items ++ s.queue ++ owed cfg s.cb

def text (mem : ℕ → Bytes) (item : ℕ × ℕ) : Bytes := (mem item.1).take item.2

variable {cfg : RxConfig} {s s' : Ring}

structure Told (cfg : RxConfig) (s : Ring) : Prop where
  order : (s.seen.filter (!·.dropped)).map Seen.payload =
    s.delivered ++ (s.pending cfg).map (text s.mem)
  last : ∀ item ∈ owed cfg s.cb, ∃ l, s.seen = l ++ [{ payload := text s.mem item }]
  lost : s.pool_dropped = s.seen.countP Seen.dropped
  kept : s.pool_dropped ≠ 0 → cfg.mode = .SpscFat ∧ cfg.bp = false
  fits : ∀ stage j, s.cb = some (stage, j) → stage.Fits cfg j
  full : ∀ item ∈ s.consumer.items ++ s.queue, 0 < item.2
  alone : cfg.mode = .ReorderPool → s.queue = [] ∧ s.consumer = .absent

theorem Told.of_cb (h : s.Told cfg)
    (hsame : s'.mem = s.mem ∧ s'.queue = s.queue ∧ s'.consumer = s.consumer ∧
      s'.delivered = s.delivered ∧ s'.seen = s.seen ∧ s'.pool_dropped = s.pool_dropped)
    (howed : owed cfg s'.cb = owed cfg s.cb)
    (hfits : ∀ stage j, s'.cb = some (stage, j) → stage.Fits cfg j) : s'.Told cfg := by
  obtain ⟨hmem, hqueue, hcon, hdel, hseen, hdrop⟩ := hsame
  have hpending : s'.pending cfg = s.pending cfg := by simp only [pending, hqueue, hcon, howed]
  constructor
  · rw [hseen, hdel, hpending, hmem]
    exact h.order
  · rw [howed, hseen, hmem]
    exact h.last
  · rw [hdrop, hseen]
    exact h.lost
  · rw [hdrop]
    exact h.kept
  · exact hfits
  · rw [hcon, hqueue]
    exact h.full
  · rw [hcon, hqueue]
    exact h.alone

theorem degrade_fits (j : Job) : (degrade cfg j).Fits cfg j := by
  cases hmode : cfg.mode with
  | ReorderPool => simp [degrade, hmode, Stage.Fits]
  | SpscFat =>
    simp only [degrade, hmode]
    split
    · next h => simpa [Stage.Fits, hmode, and_assoc] using h
    · next h => simpa [Stage.Fits, hmode, and_assoc] using h

theorem armed_fits {j : Job} (h : j.resubmit) : (armed cfg j).Fits cfg j := by
  cases hmode : cfg.mode with
  | ReorderPool => simp [armed, hmode, Stage.Fits]
  | SpscFat =>
    simp only [armed, hmode]
    split
    · next hlen => exact ⟨hmode, h, hlen⟩
    · next hlen =>
      intro _
      omega

theorem degrade_owes (j : Job) : (degrade cfg j).owes = true := by
  unfold degrade
  split
  · rfl
  · split <;> rfl

/-- A payload that is owed stays owed when the fresh buffer is on the wire. -/
theorem armed_owes (j : Job) : ((armed cfg j).owes && answers cfg j) = answers cfg j := by
  unfold armed answers
  split
  · simp [Stage.owes]
  · by_cases hlen : 0 < j.rlen <;> simp [hlen, Stage.owes]

theorem told_complete (h : s.Told cfg) (urb : ℕ) (status : Status) (len : ℕ) (stop : Bool) :
    (s.complete cfg urb status len stop).Told cfg := by
  rcases @complete_cases cfg s urb status len stop with
    heq | ⟨received, hmem, hcb, j, stage, hj, hstage, heq⟩
  · rw [heq]
    exact h
  have hreceived : j.received = received := by rw [hj]; rfl
  have howes : stage.owes = true := by
    rw [hstage]
    split
    · rfl
    · exact degrade_owes j
  have hfits : stage.Fits cfg j := by
    rw [hstage]
    split
    · next hre => exact hre
    · exact degrade_fits j
  have hfits' : ∀ stage' j', some (stage, j) = some (stage', j') → stage'.Fits cfg j' := by
    intro stage' j' hsome
    obtain ⟨rfl, rfl⟩ : stage = stage' ∧ j = j' := by simpa using hsome
    exact hfits
  rw [heq]
  cases hanswers : answers cfg j
  · exact h.of_cb ⟨rfl, rfl, rfl, rfl, rfl, rfl⟩ (by simp [owed, hcb, hanswers]) hfits'
  · have horder := h.order
    simp only [pending, owed, hcb, Option.elim, List.append_nil] at horder
    constructor
    · simp only [pending, owed, Option.elim, howes, hanswers, hreceived]
      simp only [if_true, Bool.and_self, List.filter_append, List.map_append, horder]
      simp [text]
    · simp [owed, howes, hanswers, hreceived, text]
    · simp [h.lost]
    · exact h.kept
    · exact hfits'
    · exact h.full
    · exact h.alone

theorem owed_of_owes {stage : Stage} (j : Job) (h : stage.owes = true) :
    owed cfg (some (stage, j)) = if answers cfg j then [(j.received, j.rlen)] else [] := by
  simp [owed, h]

theorem drop_last_snoc (l : List Seen) (x : Seen) :
    drop_last (l ++ [x]) = l ++ [{ x with dropped := true }] := by
  simp [drop_last]

/-- A payload of the callback that goes to `on_data` at once. -/
theorem inline_order (h : s.Told cfg) {stage : Stage} {j : Job} (hcb : s.cb = some (stage, j))
    (howes : stage.owes = true) (hmode : cfg.mode = .ReorderPool) :
    (s.seen.filter (!·.dropped)).map Seen.payload =
      s.delivered ++ if j.rlen = 0 then [] else [(s.mem j.received).take j.rlen] := by
  obtain ⟨hqueue, hcon⟩ := h.alone hmode
  rw [h.order]
  simp only [pending, owed, hcb, hqueue, hcon, Option.elim, Consumer.items, howes, answers, hmode]
  rcases Nat.eq_zero_or_pos j.rlen with hlen | hlen
  · simp [hlen]
  · simp [hlen, Nat.ne_of_gt hlen, text]

theorem told_inline (h : s.Told cfg) {stage next : Stage} {j : Job} (hcb : s.cb = some (stage, j))
    (howes : stage.owes = true) (hmode : cfg.mode = .ReorderPool) (hnext : next.owes = false)
    (hfits : next.Fits cfg j) :
    { s.rx_consume j.received j.rlen with cb := some (next, j) }.Told cfg := by
  obtain ⟨hqueue, hcon⟩ := h.alone hmode
  rw [rx_consume_eq]
  constructor
  · rw [inline_order h hcb howes hmode]
    simp [pending, owed, hqueue, hcon, hnext, Consumer.items]
  · simp [owed, hnext]
  · exact h.lost
  · exact h.kept
  · rintro stage' j' hsome
    obtain ⟨rfl, rfl⟩ : next = stage' ∧ j = j' := by simpa using hsome
    exact hfits
  · exact h.full
  · exact h.alone

/-- The payload of the callback joins the queue. -/
theorem told_queued (h : s.Told cfg) {stage : Stage} {j : Job} (hcb : s.cb = some (stage, j))
    (howes : stage.owes = true) (hmode : cfg.mode = .SpscFat) (hre : j.resubmit)
    (hlen : 0 < j.rlen) {cb : Option (Stage × Job)} (hcb' : owed cfg cb = [])
    (hfits : ∀ stage j, cb = some (stage, j) → stage.Fits cfg j) :
    { s with queue := s.queue ++ [(j.received, j.rlen)], cb := cb }.Told cfg := by
  have howed : owed cfg s.cb = [(j.received, j.rlen)] := by
    simp [owed, hcb, howes, answers, hre, hlen]
  constructor
  · simp [h.order, pending, howed, hcb']
  · simp [hcb']
  · exact h.lost
  · exact h.kept
  · exact hfits
  · intro item hitem
    simp only [← List.append_assoc, List.mem_append, List.mem_singleton] at hitem
    rcases hitem with hitem | rfl
    · exact h.full item (List.mem_append.mpr hitem)
    · exact hlen
  · simp [hmode]

/-- The payload of the callback is dropped and counted, if there is one to drop. -/
theorem told_discard (h : s.Told cfg) {j : Job} (hcb : s.cb = some (.discard, j))
    (hmode : cfg.mode = .SpscFat) (hdrop : ¬(cfg.bp ∧ j.resubmit ∧ 0 < j.rlen)) (rc : Rc) :
    (s.callback_stage cfg j rc .discard).Told cfg := by
  have hnext : ∀ stage j', some (if j.resubmit then Stage.resubmit else .retire, j) =
      some (stage, j') → stage.Fits cfg j' := by
    rintro stage j' hsome
    obtain ⟨rfl, rfl⟩ : (if j.resubmit then Stage.resubmit else .retire) = stage ∧ j = j' := by
      simpa using hsome
    split <;> trivial
  have howed' : owed cfg (some (if j.resubmit then Stage.resubmit else .retire, j)) = [] := by
    cases hre : j.resubmit <;> simp [owed, Stage.owes]
  by_cases hlost : (j.resubmit && 0 < j.rlen) = true
  · have hanswers : answers cfg j = true := by
      simp only [Bool.and_eq_true, decide_eq_true_eq] at hlost
      simp [answers, hlost]
    have howed : owed cfg s.cb = [(j.received, j.rlen)] := by
      simp [owed, hcb, Stage.owes, hanswers]
    obtain ⟨l, hseen⟩ := h.last (j.received, j.rlen) (by simp [howed])
    have horder := h.order
    have hcount := h.lost
    rw [hseen] at horder hcount
    simp only [callback_stage, hlost, if_true]
    rw [hseen, drop_last_snoc]
    constructor
    · simp only [pending, howed, List.filter_append, List.map_append, ← List.append_assoc] at horder
      simp only [pending, howed', List.append_nil, List.filter_append, List.map_append]
      simpa using List.append_cancel_right horder
    · simp [howed']
    · simpa using hcount
    · intro _
      refine ⟨hmode, ?_⟩
      by_contra hbp
      simp only [Bool.and_eq_true, decide_eq_true_eq] at hlost
      exact hdrop ⟨by simpa using hbp, hlost⟩
    · exact hnext
    · exact h.full
    · exact h.alone
  · simp only [callback_stage, hlost]
    refine h.of_cb ⟨rfl, rfl, rfl, rfl, rfl, rfl⟩ ?_ hnext
    have hanswers : answers cfg j = false := by
      cases hre : j.resubmit
      · simp [answers, hmode, hre]
      · simpa [answers, hmode, hre] using hlost
    rw [howed']
    simp [owed, hcb, hanswers]

theorem told_callback (h : s.Told cfg) (rc : Rc) : (s.callback_step cfg rc).Told cfg := by
  rcases hcb : s.cb with - | ⟨stage, j⟩
  · unfold callback_step
    rw [hcb]
    exact h
  have hfits := h.fits stage j hcb
  rw [callback_at hcb]
  cases stage with
  | take_spare =>
    cases hfree : s.free_bufs with
    | nil =>
      simp only [callback_stage, hfree]
      refine h.of_cb ⟨rfl, rfl, rfl, rfl, rfl, rfl⟩ ?_ ?_
      · rw [hcb, owed_of_owes j (degrade_owes j), owed_of_owes j rfl]
      · simpa using degrade_fits j
    | cons fresh rest =>
      simp only [callback_stage, hfree]
      refine h.of_cb ⟨rfl, rfl, rfl, rfl, rfl, rfl⟩ ?_ ?_
      · simp [owed, hcb, Stage.owes, answers]
      · simp only [Option.some.injEq, Prod.mk.injEq]
        rintro stage j' ⟨rfl, rfl⟩
        exact hfits
  | submit_fresh =>
    by_cases hrc : rc = .SUCCESS
    · simp only [callback_stage, hrc, if_true]
      refine h.of_cb ⟨rfl, rfl, rfl, rfl, rfl, rfl⟩ ?_ ?_
      · have harmed := @armed_owes cfg j
        simp only [owed, hcb, Option.elim, harmed]
        simp [Stage.owes]
      · simpa using armed_fits hfits
    · simp only [callback_stage, hrc, if_false]
      refine h.of_cb ⟨rfl, rfl, rfl, rfl, rfl, rfl⟩ ?_ ?_
      · simp [owed, hcb, Stage.owes]
      · simp only [Option.some.injEq, Prod.mk.injEq]
        rintro stage j' ⟨rfl, rfl⟩
        exact hfits
  | return_fresh =>
    refine h.of_cb ⟨rfl, rfl, rfl, rfl, rfl, rfl⟩ ?_ ?_
    · rw [hcb, owed_of_owes j rfl]
      exact owed_of_owes j (degrade_owes j)
    · simpa [callback_stage] using degrade_fits j
  | consume_armed =>
    apply told_inline h hcb rfl hfits rfl
    intro hmode
    rw [show cfg.mode = .ReorderPool from hfits] at hmode
    cases hmode
  | consume_inline =>
    apply told_inline h hcb rfl hfits
    · split <;> rfl
    · split <;> trivial
  | enqueue =>
    obtain ⟨hmode, hre, hlen⟩ := hfits
    exact told_queued h hcb rfl hmode hre hlen rfl (by simp)
  | publish =>
    obtain ⟨hmode, -, hre, hlen⟩ := hfits
    exact told_queued h hcb rfl hmode hre hlen rfl (by simp [Stage.Fits])
  | discard =>
    obtain ⟨hmode, hdrop⟩ := hfits
    exact told_discard h hcb hmode hdrop rc
  | pool_received | retire =>
    refine h.of_cb ⟨rfl, rfl, rfl, rfl, rfl, rfl⟩ ?_ ?_
    · simp [callback_stage, owed, hcb, Stage.owes]
    · simp [callback_stage]
  | park =>
    dsimp only [callback_stage]
    split
    all_goals
      refine h.of_cb ⟨rfl, rfl, rfl, rfl, rfl, rfl⟩ ?_ ?_
      · simp [owed, hcb, Stage.owes]
      · simp
  | resubmit =>
    dsimp only [callback_stage]
    split
    all_goals
      refine h.of_cb ⟨rfl, rfl, rfl, rfl, rfl, rfl⟩ ?_ ?_
      · simp [owed, hcb, Stage.owes]
      · simp [Stage.Fits]

theorem told_consumer (h : s.Told cfg) (rc : Rc) : (s.consumer_step cfg rc).Told cfg := by
  have horder := h.order
  have hfull := h.full
  have halone := h.alone
  unfold consumer_step
  rcases hcon : s.consumer with - | - | ⟨buf, len⟩ | buf | - <;>
    simp only [pending, hcon, Consumer.items, List.nil_append] at horder hfull halone
  · exact h
  · rcases hqueue : s.queue with - | ⟨⟨buf, len⟩, rest⟩ <;> dsimp only <;>
      rw [hqueue] at horder hfull halone
    · split
      · constructor
        · simpa [pending, Consumer.items, hqueue] using horder
        · exact h.last
        · exact h.lost
        · exact h.kept
        · exact h.fits
        · simp [Consumer.items]
        · intro hmode
          simpa using halone hmode
      · exact h
    · constructor
      · simpa [pending, Consumer.items] using horder
      · exact h.last
      · exact h.lost
      · exact h.kept
      · exact h.fits
      · simpa [Consumer.items] using hfull
      · intro hmode
        simpa using halone hmode
  · have hlen : len ≠ 0 := Nat.ne_of_gt (hfull (buf, len) (by simp))
    simp only [rx_consume_eq, hlen, if_false]
    constructor
    · simpa [pending, Consumer.items, text] using horder
    · exact h.last
    · exact h.lost
    · exact h.kept
    · exact h.fits
    · intro item hitem
      exact hfull item (List.mem_append_right _ (by simpa [Consumer.items] using hitem))
    · intro hmode
      simpa using halone hmode
  · obtain ⟨_, _, _, _, heq⟩ := @give_back_writes cfg s buf rc
    simp only [heq]
    constructor
    · simpa [pending, Consumer.items] using horder
    · exact h.last
    · exact h.lost
    · exact h.kept
    · exact h.fits
    · simpa [Consumer.items] using hfull
    · intro hmode
      simpa using halone hmode
  · exact h

/-- What a step of the loop writes, but for the start of the consumer. -/
theorem loop_writes (rc : Rc) (stop : Bool) : ∃ submitted parked unposted parking_closed
    consumer_stop active consumer loop stopped, s.loop_step cfg rc stop =
      { s with
        submitted, parked, unposted, parking_closed, consumer_stop, active, consumer, loop
        stopped } ∧
      (consumer = s.consumer ∨ (∃ i, s.loop = .arming i) ∧
        consumer = if cfg.mode = .SpscFat then .idle else .absent) := by
  unfold loop_step
  rcases s.loop with i | - | - | - | - | - | - <;> dsimp only
  · split
    · split <;> exact ⟨_, _, _, _, _, _, _, _, _, rfl, .inl rfl⟩
    · exact ⟨_, _, _, _, _, _, _, _, _, rfl, .inr ⟨⟨i, rfl⟩, rfl⟩⟩
  · split <;> exact ⟨_, _, _, _, _, _, _, _, _, rfl, .inl rfl⟩
  · exact ⟨_, _, _, _, _, _, _, _, _, rfl, .inl rfl⟩
  · split <;> exact ⟨_, _, _, _, _, _, _, _, _, rfl, .inl rfl⟩
  · split <;> exact ⟨_, _, _, _, _, _, _, _, _, rfl, .inl rfl⟩
  · split <;> exact ⟨_, _, _, _, _, _, _, _, _, rfl, .inl rfl⟩
  · exact ⟨_, _, _, _, _, _, _, _, _, rfl, .inl rfl⟩

theorem told_loop (h : s.Told cfg) (hs : s.Stocked cfg) (rc : Rc) (stop : Bool) :
    (s.loop_step cfg rc stop).Told cfg := by
  obtain ⟨_, _, _, _, _, _, con, _, _, heq, hcon⟩ :=
    @loop_writes cfg s rc stop
  rw [heq]
  rcases hcon with rfl | ⟨⟨i, hi⟩, rfl⟩
  · exact h.of_cb ⟨rfl, rfl, rfl, rfl, rfl, rfl⟩ rfl h.fits
  · have hitems : (if cfg.mode = .SpscFat then Consumer.idle else .absent).items =
        s.consumer.items := by
      rw [hs.unmanned i hi]
      split <;> rfl
    constructor
    · simp only [pending, hitems]
      exact h.order
    · exact h.last
    · exact h.lost
    · exact h.kept
    · exact h.fits
    · rw [hitems]
      exact h.full
    · intro hmode
      refine ⟨(h.alone hmode).1, ?_⟩
      rw [hmode]
      rfl

/-- The device writes into no buffer that still holds a payload. -/
theorem pending_unposted (hheld : s.held.Nodup) : ∀ item ∈ s.pending cfg, item.1 ∉ s.posted := by
  intro item hitem hposted
  have hrest : item.1 ∈ s.queue.map Prod.fst ++ s.consumer.bufs ++ s.cb_bufs := by
    simp only [pending, List.mem_append] at hitem
    simp only [List.mem_append]
    rcases hitem with (hitem | hitem) | hitem
    · refine .inl (.inr ?_)
      rcases hcon : s.consumer with - | - | ⟨buf, len⟩ | buf | - <;>
        simp_all [Consumer.items, Consumer.bufs]
    · exact .inl (.inl (List.mem_map_of_mem hitem))
    · refine .inr ?_
      rcases hcb : s.cb with - | ⟨stage, j⟩
      · simp [owed, hcb] at hitem
      · have hstage : stage ≠ .park := by
          rintro rfl
          simp [owed, hcb, Stage.owes] at hitem
        have hreceived : item.1 = j.received := by
          simp only [owed, hcb, Option.elim] at hitem
          split at hitem
          · rw [List.mem_singleton.mp hitem]
          · simp at hitem
        simp [cb_bufs, hcb, Stage.bufs, hstage, hreceived]
  have hdisjoint : s.posted.Disjoint (s.queue.map Prod.fst ++ s.consumer.bufs ++ s.cb_bufs) := by
    simp only [held, List.append_assoc] at hheld
    have hsplit := (List.nodup_append'.mp hheld).2.2
    intro b hb hb'
    apply hsplit hb
    simp only [List.mem_append] at hb' ⊢
    tauto
  exact hdisjoint hposted hrest

theorem told_dma (h : s.Told cfg) (hheld : s.held.Nodup) {buf : ℕ} (hbuf : buf ∈ s.posted)
    (data : Bytes) : { s with mem := Function.update s.mem buf data }.Told cfg := by
  have htext : ∀ item ∈ s.pending cfg,
      text (Function.update s.mem buf data) item = text s.mem item := by
    intro item hitem
    have hne : item.1 ≠ buf := by
      rintro rfl
      exact pending_unposted hheld item hitem hbuf
    simp [text, hne]
  constructor
  · have hmap := List.map_congr_left htext
    exact h.order.trans (congrArg (s.delivered ++ ·) hmap.symm)
  · intro item hitem
    rw [htext item (List.mem_append_right _ hitem)]
    exact h.last item hitem
  · exact h.lost
  · exact h.kept
  · exact h.fits
  · exact h.full
  · exact h.alone

theorem told_step (h : s.Told cfg) (hs : s.Stocked cfg) (hheld : s.held.Nodup) (act : Act) :
    (s.step cfg act).Told cfg := by
  cases act with
  | dma buf data =>
    dsimp only [step]
    split
    · next hbuf => exact told_dma h hheld hbuf data
    · exact h
  | complete urb status len stop => exact told_complete h urb status len stop
  | callback rc => exact told_callback h rc
  | consumer rc => exact told_consumer h rc
  | loop rc stop => exact told_loop h hs rc stop

theorem held_nodup (acts : List Act) : (run cfg acts).held.Nodup :=
  (held_run acts).nodup_iff.mpr pool_nodup

theorem told_run (acts : List Act) : (run cfg acts).Told cfg := by
  induction acts using List.reverseRecOn with
  | nil => constructor <;> simp [run, start, pending, owed, Consumer.items]
  | append_singleton acts act ih =>
    unfold run
    rw [Runs.after_snoc]
    exact told_step ih (stocked_run acts) (held_nodup acts) act

/-! ## The end of the ring -/

/-- The consumer leaves when it is told to and the queue is empty, and the ring waits for it. -/
structure Joined (cfg : RxConfig) (s : Ring) : Prop where
  exited : s.consumer = .exited → s.consumer_stop ∧ s.queue = []
  told : s.consumer_stop → s.loop.drained
  joined : s.loop = .done → cfg.mode = .SpscFat → s.consumer = .exited

theorem joined_consumer (h : s.Joined cfg) (rc : Rc) : (s.consumer_step cfg rc).Joined cfg := by
  have hexited := h.exited
  have hjoined := h.joined
  unfold consumer_step
  rcases hcon : s.consumer with - | - | ⟨buf, len⟩ | buf | - <;> rw [hcon] at hexited hjoined
  · exact h
  · rcases hqueue : s.queue with - | ⟨⟨buf, len⟩, rest⟩ <;> dsimp only
    · split
      · next hstop => exact ⟨fun _ => ⟨hstop, rfl⟩, h.told, fun _ _ => rfl⟩
      · exact h
    · exact ⟨by simp, h.told, fun hdone hmode => by simpa using hjoined hdone hmode⟩
  · simp only [rx_consume_eq]
    exact ⟨by simp, h.told, fun hdone hmode => by simpa using hjoined hdone hmode⟩
  · obtain ⟨_, _, _, _, heq⟩ := @give_back_writes cfg s buf rc
    simp only [heq]
    exact ⟨by simp, h.told, fun hdone hmode => by simpa using hjoined hdone hmode⟩
  · exact h

theorem joined_loop (h : s.Joined cfg) (rc : Rc) (stop : Bool) :
    (s.loop_step cfg rc stop).Joined cfg := by
  have htold := h.told
  unfold loop_step
  rcases hloop : s.loop with i | - | - | - | - | - | - <;> dsimp only <;> rw [hloop] at htold
  · split
    · split <;> exact ⟨h.exited, htold, by simp⟩
    · refine ⟨?_, htold, by simp⟩
      split <;> simp
  · split
    · exact ⟨h.exited, htold, by simp⟩
    · exact h
  · exact ⟨h.exited, htold, by simp⟩
  · split
    · exact h
    · exact ⟨h.exited, fun _ => rfl, by simp⟩
  · split
    · exact ⟨fun hexited => ⟨rfl, (h.exited hexited).2⟩, fun _ => rfl, by simp⟩
    · next hmode => exact ⟨h.exited, fun _ => rfl, fun _ hspsc => absurd hspsc hmode⟩
  · split
    · next hexited => exact ⟨h.exited, fun _ => rfl, fun _ _ => hexited⟩
    · exact h
  · exact h

theorem joined_step (h : s.Joined cfg) (ho : s.Orderly) (act : Act) :
    (s.step cfg act).Joined cfg := by
  cases act with
  | dma buf data =>
    dsimp only [step]
    split
    · exact ⟨h.exited, h.told, h.joined⟩
    · exact h
  | complete urb status len stop =>
    dsimp only [step]
    rcases @complete_cases cfg s urb status len stop with
      heq | ⟨received, -, -, j, stage, -, -, heq⟩
    · rw [heq]
      exact h
    · rw [heq]
      exact ⟨h.exited, h.told, h.joined⟩
  | callback rc =>
    dsimp only [step]
    by_cases hexited : s.consumer = .exited
    · have hcb := (ho.drained (h.told (h.exited hexited).1)).2
      unfold callback_step
      rw [hcb]
      exact h
    · obtain ⟨_, _, _, _, _, _, _, _, _, _, heq⟩ := @callback_writes cfg s rc
      rw [heq]
      exact ⟨fun hex => absurd hex hexited, h.told, h.joined⟩
  | consumer rc => exact joined_consumer h rc
  | loop rc stop => exact joined_loop h rc stop

theorem joined_run (acts : List Act) : (run cfg acts).Joined cfg := by
  induction acts using List.reverseRecOn with
  | nil => constructor <;> simp [run, start]
  | append_singleton acts act ih =>
    unfold run
    rw [Runs.after_snoc]
    exact joined_step ih (orderly_run acts) act

/-- When the loop returns, nothing is on its way any more. -/
theorem pending_done (acts : List Act) (hdone : (run cfg acts).loop = .done) :
    (run cfg acts).pending cfg = [] := by
  have hcb := ((orderly_run acts).drained (by rw [hdone]; rfl)).2
  have hrest : (run cfg acts).consumer.items = [] ∧ (run cfg acts).queue = [] := by
    cases hmode : cfg.mode with
    | ReorderPool =>
      obtain ⟨hqueue, hcon⟩ := (told_run acts).alone hmode
      exact ⟨by rw [hcon]; rfl, hqueue⟩
    | SpscFat =>
      have hexited := (joined_run acts).joined hdone hmode
      exact ⟨by rw [hexited]; rfl, ((joined_run acts).exited hexited).2⟩
  simp [pending, hrest, hcb, owed]

/-! ## The contract -/

/-- The buffers that `on_data` reads from. -/
def reads (s : Ring) : List ℕ :=
  s.consumer.items.map Prod.fst ++ s.cb.elim [] fun c =>
    if c.1 = .consume_armed ∨ c.1 = .consume_inline then [c.2.received] else []

theorem reads_unposted (hheld : s.held.Nodup) : ∀ buf ∈ s.reads, buf ∉ s.posted := by
  intro buf hbuf hposted
  have hrest : buf ∈ s.consumer.bufs ++ s.cb_bufs := by
    simp only [reads, List.mem_append] at hbuf
    rw [List.mem_append]
    rcases hbuf with hbuf | hbuf
    · refine .inl ?_
      rcases hcon : s.consumer with - | - | ⟨buf, len⟩ | buf | - <;>
        simp_all [Consumer.items, Consumer.bufs]
    · refine .inr ?_
      rcases hcb : s.cb with - | ⟨stage, j⟩ <;> simp only [hcb, Option.elim] at hbuf
      · simp at hbuf
      · split at hbuf
        · next hstage =>
          rw [List.mem_singleton.mp hbuf]
          rcases hstage with hstage | hstage <;> simp [cb_bufs, hcb, hstage, Stage.bufs]
        · simp at hbuf
  simp only [held, List.append_assoc] at hheld
  apply (List.nodup_append'.mp hheld).2.2 hposted
  simp only [List.mem_append] at hrest ⊢
  tauto

/-- A transfer that completes before the stop has its payload recorded. -/
theorem complete_seen (hcounted : s.Counted) {urb received : ℕ}
    (hmem : (urb, received) ∈ s.submitted) (hcb : s.cb = none) {len : ℕ} (hlen : 0 < len) :
    (s.complete cfg urb .COMPLETED len false).seen =
      s.seen ++ [{ payload := (s.mem received).take len }] := by
  have hfind : s.submitted.find? (·.1 = urb) = some (urb, received) := by
    rcases hsome : s.submitted.find? (·.1 = urb) with - | item
    · have hnone := List.find?_eq_none.mp hsome _ hmem
      simp at hnone
    · have hnodup : (s.submitted.map Prod.fst).Nodup := by
        have hurbs := hcounted.nodup
        simp only [urbs, List.append_assoc] at hurbs
        exact (List.nodup_append'.mp hurbs).1
      have hfst : item.1 = urb := by simpa using List.find?_some hsome
      have hitem := List.inj_on_of_nodup_map hnodup (List.mem_of_find?_eq_some hsome) hmem hfst
      exact hsome.trans (congrArg some hitem)
  simp [complete, hfind, hcb, answers, job, hlen]

/-- The buffers, payloads and transfers of the ring are all accounted for. -/
structure Accounted (cfg : RxConfig) (s : Ring) : Prop where
  /-- Each buffer is with one holder: libusb, the free list, the queue, the consumer, the callback
  or a transfer that is not in the ring. -/
  owners : s.held.Perm (pool cfg)
  distinct : (pool cfg).Nodup
  unread : ∀ buf ∈ s.reads, buf ∉ s.posted
  recorded : ∀ urb received len, (urb, received) ∈ s.submitted → s.cb = none → 0 < len →
    (s.complete cfg urb .COMPLETED len false).seen =
      s.seen ++ [{ payload := (s.mem received).take len }]
  /-- The payloads that were not dropped reach `on_data` in order, but for those on their way. -/
  order : (s.seen.filter (!·.dropped)).map Seen.payload =
    s.delivered ++ (s.pending cfg).map (text s.mem)
  handed : s.loop = .done → (s.seen.filter (!·.dropped)).map Seen.payload = s.delivered
  lost : s.pool_dropped = s.seen.countP Seen.dropped
  kept : s.pool_dropped ≠ 0 → cfg.mode = .SpscFat ∧ cfg.bp = false
  active : s.active = s.urbs.length
  once : s.urbs.Nodup
  closing : s.parking_closed = s.loop.closed
  unparked : s.parking_closed → s.parked = []
  unarmed : s.parking_closed → ∀ rc, (s.consumer_step cfg rc).submitted = s.submitted

theorem the_ring_is_accounted_for (cfg : RxConfig) (acts : List Act) :
    (run cfg acts).Accounted cfg := by
  have htold := @told_run cfg acts
  have hcounted := @counted_run cfg acts
  have horderly := @orderly_run cfg acts
  constructor
  · exact held_run acts
  · exact pool_nodup
  · exact reads_unposted (held_nodup acts)
  · intro urb received len hmem hcb hlen
    exact complete_seen hcounted hmem hcb hlen
  · exact htold.order
  · intro hdone
    simpa [pending_done acts hdone] using htold.order
  · exact htold.lost
  · exact htold.kept
  · exact hcounted.active
  · exact hcounted.nodup
  · exact horderly.closing
  · exact horderly.closed
  · intro hclosed rc
    exact (consumer_closed hclosed rc).1

/-- The buffer of a transfer that fails is with none of the five owners afterwards. -/
theorem a_retired_buffer_has_no_owner : ¬∀ (cfg : RxConfig) (acts : List Act), ∀ b ∈ pool cfg,
    b ∈ (run cfg acts).posted ++ (run cfg acts).free_bufs ++ (run cfg acts).queue.map Prod.fst ++
      (run cfg acts).consumer.bufs ++ (run cfg acts).cb_bufs := by
  intro h
  have hbuf :=
    h { mode := .SpscFat, n_urbs := 1 } [.loop .SUCCESS false, .complete 0 .ERROR 0 false,
    .callback .SUCCESS, .callback .SUCCESS] 0 (by decide)
  revert hbuf
  decide

end Ring

end devourer.usb
