-- The callbacks and the stop of the asynchronous rings, and what holds of
-- every run: the accounts are right, no transfer is started behind the stop,
-- and nothing is freed that libusb has.
import Devourer.Mt7612u.RingAccounts

namespace devourer.mt7612u

open usb (Status)

variable {s : Ring} {w : ℕ}

/-! ## The callbacks -/

/-- The frames of a transfer that completed are lost when it is not whole, or were when the stop
left it behind. -/
theorem Sound.lost_done (h : Sound w s) {i : TxIdx} (hi : (s.tx i).owned) (whole : Bool) :
    (∑ n ∈ Finset.range s.tx_submitted, (Function.update s.sends (s.tx i).send
      { s.sends (s.tx i).send with result := some whole } n).lost) =
      (∑ n ∈ Finset.range s.tx_submitted, (s.sends n).lost) +
        if (s.tx i).d && !whole then (s.tx i).nframes else 0 := by
  obtain ⟨hlt, hsend⟩ := h.send i hi
  have hsum := Tally.sum_update (Finset.range s.tx_submitted) s.sends (Finset.mem_range.mpr hlt)
    { s.sends (s.tx i).send with result := some whole } Send.lost
  rw [hsend] at hsum ⊢
  cases hd : (s.tx i).d <;> cases whole <;> simp [Send.lost, hd] at hsum ⊢ <;> omega

theorem Sound.tx_done (h : Sound w s) (i : TxIdx) (status : Status) (actual_length : ℕ) :
    Sound w (s.tx_done i status actual_length) := by
  unfold Ring.tx_done
  dsimp only
  split
  · rename_i hi
    have hbusy := h.busy_of_owned hi
    have hsub := h.submitted_of_owned hi
    have hheld : ∀ l n, s.holds l ≠ some (i, n) := by
      intro l n hl
      rw [h.not_owned hl] at hi
      cases hi
    have hlost := h.lost_done hi
    have hwire := h.wire
    unfold Ring.Counted at hwire
    generalize (status == .COMPLETED && actual_length == (s.tx i).buf.length) = whole
    refine h.of_slot { s.tx i with busy := false, owned := false }
      ⟨?_, ?_, Or.inr hbusy, ?_, ?_, rfl, ?_, ?_, ?_, ?_, ?_, ?_, ?_, ?_⟩
    · cases whole <;> rfl
    · cases whole <;> rfl
    · cases whole <;> simp [Ring.set_tx, hbusy]
    · simp
    · cases whole <;> simp [Ring.set_tx, hbusy, hsub] <;> omega
    · cases whole with
      | true =>
        have hsame := hlost true
        rw [Bool.not_true, Bool.and_false, if_neg (by decide), Nat.add_zero] at hsame
        exact hwire.trans (congrArg (w + ·) hsame.symm)
      | false =>
        refine Eq.trans ?_ (congrArg (w + ·) (hlost false)).symm
        show (if (s.tx i).d then s.tx_wire_failed + (s.tx i).nframes else s.tx_wire_failed) = _
        by_cases hd : (s.tx i).d
        · simp [hd, hwire, Nat.add_assoc]
        · simp [hd, hwire]
    · intro hx
      cases hx
    · intro j hj howned
      have hne : (s.tx j).send ≠ (s.tx i).send := fun hsame => hj (h.distinct j i howned hi hsame)
      refine ⟨?_, ?_, fun hx => by cases hx⟩
      · cases whole <;> exact (h.send j howned).1
      · cases whole <;> exact Function.update_of_ne hne ..
    · intro l n hl
      cases whole <;> exact absurd hl (hheld l n)
    · intro l j n _ hl
      cases whole <;> exact hl
    · intro l m a b hl
      cases whole <;> exact absurd hl (hheld l a)
    · intro hx
      cases hx
  · exact h

/-- Only the receive slot `i` changes, to `x`, and its account follows. -/
theorem Sound.of_rx (h : Sound w s) (i : RxIdx) (x : RxSlot) (rx_inflight : ℤ)
    (rx_frames rx_err rx_invalid rx_dropped : ℕ) (hd : x.d = (s.rx i).d)
    (hlive : (s.rx i).stage ≠ .idle)
    (hinflight : rx_inflight + 1 = s.rx_inflight + if x.stage = .idle then 0 else 1)
    (howned : x.stage = .owned → s.stop = .idle ∨
      (s.rx i).stage = .owned ∧ ((s.rx i).cancelled → x.cancelled)) :
    Sound w { s with
      rx := Function.update s.rx i x
      rx_inflight, rx_frames, rx_err, rx_invalid, rx_dropped } := by
  refine { h with receiving := ?_, asked := ?_, quiet := ?_, left := ?_ }
  · have hsum := receiving_update s i x
    have hbefore := h.receiving
    unfold Ring.receiving at hsum hbefore ⊢
    rw [if_neg hlive] at hsum
    dsimp only
    omega
  · by_cases hidle : s.stop = .idle
    · show Ring.Asked _
      rw [Ring.Asked, hidle]
      trivial
    · refine h.asked.mono ?_ ?_ ?_
      · rfl
      · intro j hj
        dsimp only at hj ⊢
        by_cases hji : j = i
        · subst hji
          rw [Function.update_self] at hj ⊢
          exact (howned hj).resolve_left hidle
        · rw [Function.update_of_ne hji] at hj ⊢
          exact ⟨hj, id⟩
      · intro j hj
        exact ⟨hj, id⟩
  · intro hquiet
    exact absurd (h.rx_idle (h.quiet hquiet).2 i) hlive
  · intro hleft
    obtain ⟨htx, hrx, hfreed⟩ := h.left hleft
    refine ⟨htx, ?_, hfreed⟩
    intro j
    dsimp only
    by_cases hji : j = i
    · subst hji
      rw [Function.update_self, hd, hrx]
    · rw [Function.update_of_ne hji, hrx]

theorem Sound.rx_done (h : Sound w s) (i : RxIdx) (status : Status) (len : ℤ) :
    Sound w (s.rx_done i status len) := by
  unfold Ring.rx_done
  dsimp only
  split
  · rename_i howned
    have hkeep : ∀ rx_frames rx_err rx_invalid rx_dropped, Sound w { s with
        rx := Function.update s.rx i { s.rx i with stage := .decide status }
        rx_frames, rx_err, rx_invalid, rx_dropped } := by
      intro rx_frames rx_err rx_invalid rx_dropped
      refine h.of_rx i _ s.rx_inflight _ _ _ _ rfl ?_ rfl ?_
      · rw [howned]
        exact nofun
      · exact nofun
    split
    · split
      · exact hkeep _ _ _ _
      · exact hkeep _ _ _ _
    · split
      · exact hkeep _ _ _ _
      · exact hkeep _ _ _ _
  · exact h

theorem Sound.rx_resubmit (h : Sound w s) (i : RxIdx) (ok : Bool) :
    Sound w (s.rx_resubmit i ok) := by
  unfold Ring.rx_resubmit
  dsimp only
  split
  · rename_i status hstage
    have hlive : (s.rx i).stage ≠ .idle := by
      rw [hstage]
      exact nofun
    split
    · rename_i hgo
      have hidle : s.stop = .idle := by
        apply h.idle_of_running
        cases hst : s.stopping with
        | false => rfl
        | true => simp [h.stopping.2 hst] at hgo
      exact h.of_rx i _ s.rx_inflight _ _ _ _ rfl hlive rfl fun _ => Or.inl hidle
    · exact h.of_rx i _ (s.rx_inflight - 1) _ _ _ _ rfl hlive (by simp) nofun
  · exact h
  · exact h

/-! ## The stop -/

theorem Sound.not_ended (h : Sound w s) (hst : s.stop ≠ .finished) :
    ¬ (s.freed ∨ s.transfers_stranded) := fun hover => hst (h.ended hover)

theorem Sound.not_freed (h : Sound w s) (hst : s.stop ≠ .finished) : ¬ s.freed :=
  fun hfreed => h.not_ended hst (Or.inl hfreed)

theorem Sound.not_left (h : Sound w s) (hst : s.stop ≠ .finished) : ¬ s.transfers_stranded :=
  fun hleft => h.not_ended hst (Or.inr hleft)

/-- The next stage of a stop that has not got to the end of its wait. -/
theorem Sound.of_stop (h : Sound w s) (hbefore : s.stop.before_join) (hbegun : s.stop ≠ .idle)
    {st : Stop} (hst : st.before_join) (hnext : st ≠ .idle)
    (hasked : ({ s with stop := st } : Ring).Asked) : Sound w { s with stop := st } := by
  have hgoing : s.stop ≠ .finished := by
    intro hover
    rw [hover] at hbefore
    cases hbefore
  refine { h with
    device := ?_, stopping := ?_, asked := hasked, quiet := ?_, ended := ?_, left := ?_ }
  · intro _
    exact h.device hbefore
  · refine ⟨?_, h.stopping.2⟩
    simp [h.stopping.1, hbegun, hnext]
  · rintro (hjoin | hfreed)
    · dsimp only at hjoin
      simp [hjoin, Stop.before_join] at hst
    · exact absurd hfreed (h.not_freed hgoing)
  · intro hover
    exact absurd hover (h.not_ended hgoing)
  · rintro (hjoin | hleft)
    · dsimp only at hjoin
      simp [hjoin, Stop.before_join] at hst
    · exact absurd hleft (h.not_left hgoing)

/-- The flag that the pass sets on a slot of the receive ring. -/
theorem Sound.cancel_rx (h : Sound w s) (i : RxIdx) : Sound w (s.set_rx i
    (if (s.rx i).stage = .owned then { s.rx i with cancelled := true } else s.rx i)) := by
  split
  · rename_i howned
    refine h.of_rx i _ s.rx_inflight _ _ _ _ rfl ?_ ?_ ?_
    · rw [howned]
      exact nofun
    · simp [howned]
    · intro _
      exact Or.inr ⟨howned, fun _ => rfl⟩
  · rw [Ring.set_rx, Function.update_eq_self]
    exact h

theorem Sound.cancel_tx (h : Sound w s) (i : TxIdx) : Sound w (s.set_tx i
    (if (s.tx i).owned then { s.tx i with cancelled := true } else s.tx i)) := by
  split
  · rename_i howned
    refine h.of_slot { s.tx i with cancelled := true } ⟨rfl, rfl, Or.inr (h.busy_of_owned howned),
      rfl, h.owned i, rfl, rfl, h.wire, ?_, ?_, ?_, ?_, ?_, ?_⟩
    · intro hi
      exact h.send i hi
    · intro j hji hj
      exact ⟨(h.send j hj).1, rfl, fun _ hsame => hji (h.distinct j i hj howned hsame)⟩
    · intro l n hl
      exact h.reserved l i n hl
    · intro l j n _ hl
      exact hl
    · intro l m a b hl hm
      exact h.exclusive l m i a b hl hm
    · intro _
      exact Or.inr ⟨howned, fun _ => rfl⟩
  · rw [Ring.set_tx, Function.update_eq_self]
    exact h

theorem strand_wire_failed : s.strand.tx_wire_failed = s.tx_wire_failed +
    ∑ i, if (s.tx i).busy && (s.tx i).submitted then (s.tx i).nframes else 0 := rfl

theorem strand_sends_left {n : ℕ} (hn : ∃ i, (s.tx i).owned ∧ (s.tx i).send = n) :
    s.strand.sends n = { s.sends n with stranded := true } := if_pos hn

theorem strand_sends_kept {n : ℕ} (hn : ¬ ∃ i, (s.tx i).owned ∧ (s.tx i).send = n) :
    s.strand.sends n = s.sends n := if_neg hn

/-- What the transfers that are left behind add to the frames that are lost. -/
theorem Sound.lost_strand (h : Sound w s) (hd : ∀ i, (s.tx i).d) :
    (∑ n ∈ Finset.range s.tx_submitted, (s.strand.sends n).lost) =
      (∑ n ∈ Finset.range s.tx_submitted, (s.sends n).lost) +
        ∑ i, if (s.tx i).busy && (s.tx i).submitted then (s.tx i).nframes else 0 := by
  have hone : ∀ n ∈ Finset.range s.tx_submitted, (s.strand.sends n).lost = (s.sends n).lost +
      ∑ i, if (s.tx i).owned ∧ (s.tx i).send = n then (s.tx i).nframes else 0 := by
    intro n _
    by_cases hex : ∃ i, (s.tx i).owned ∧ (s.tx i).send = n
    · rw [strand_sends_left hex]
      obtain ⟨i, hi, rfl⟩ := hex
      rw [Finset.sum_eq_single i]
      · simp [(h.send i hi).2, hd i, hi, Send.lost]
      · intro j _ hji
        exact if_neg fun hj => hji (h.distinct j i hj.1 hi hj.2)
      · simp
    · rw [strand_sends_kept hex, Finset.sum_eq_zero, Nat.add_zero]
      · intro i _
        exact if_neg fun hi => hex ⟨i, hi⟩
  have hall : ∀ i ∈ Finset.univ, (∑ n ∈ Finset.range s.tx_submitted,
      if (s.tx i).owned ∧ (s.tx i).send = n then (s.tx i).nframes else 0) =
      if (s.tx i).busy && (s.tx i).submitted then (s.tx i).nframes else 0 := by
    intro i _
    rw [← h.owned i]
    by_cases hi : (s.tx i).owned
    · have hmem := Finset.mem_range.mpr (h.send i hi).1
      simp only [hi, true_and, if_true]
      rw [Finset.sum_ite_eq, if_pos hmem]
    · simp [hi]
  rw [Finset.sum_congr rfl hone, Finset.sum_add_distrib, Finset.sum_comm,
    Finset.sum_congr rfl hall]

/-- The wait ends with everything back. -/
theorem Sound.drained (h : Sound w s) (hdrain : s.stop = .drain)
    (hnone : s.tx_inflight = 0 ∧ s.rx_inflight = 0) (running : Bool) :
    Sound w { s with running, stop := .join false } := by
  have hgoing : s.stop ≠ .finished := by simp [hdrain]
  refine { h with device := ?_, stopping := ?_, asked := ?_, quiet := ?_, ended := ?_, left := ?_ }
  · intro hbefore
    cases hbefore
  · refine ⟨?_, h.stopping.2⟩
    simp [h.stopping.1, hdrain]
  · have hasked := h.asked
    rw [Ring.Asked, hdrain] at hasked
    exact hasked
  · intro _
    exact hnone
  · intro hover
    exact absurd hover (h.not_ended hgoing)
  · rintro (hjoin | hleft)
    · cases hjoin
    · exact absurd hleft (h.not_left hgoing)

/-- The wait ends with transfers out, which are left behind. -/
theorem Sound.stranded (h : Sound w s) (hdrain : s.stop = .drain) (running : Bool) :
    Sound w ({ s with running, stop := .join true } : Ring).strand := by
  have hd := h.device (by rw [hdrain]; rfl)
  have hgoing : s.stop ≠ .finished := by simp [hdrain]
  refine { h with
    wire := ?_, send := ?_, device := ?_, stopping := ?_, asked := ?_, quiet := ?_, ended := ?_
    left := ?_ }
  · have hlost := h.lost_strand hd
    have hwire := h.wire
    unfold Ring.Counted at hwire ⊢
    show s.tx_wire_failed + _ = _ + ∑ n ∈ Finset.range s.tx_submitted, (s.strand.sends n).lost
    rw [hlost, hwire, Nat.add_assoc]
  · intro i hi
    obtain ⟨hlt, hsend⟩ := h.send i hi
    refine ⟨hlt, ?_⟩
    show s.strand.sends (s.tx i).send = _
    have hex : ∃ j, (s.tx j).owned ∧ (s.tx j).send = (s.tx i).send := ⟨i, hi, rfl⟩
    rw [strand_sends_left hex, hsend]
    rfl
  · intro hbefore
    cases hbefore
  · refine ⟨?_, h.stopping.2⟩
    simp [Ring.strand, h.stopping.1, hdrain]
  · have hasked := h.asked
    rw [Ring.Asked, hdrain] at hasked
    exact hasked
  · rintro (hjoin | hfreed)
    · cases hjoin
    · exact absurd hfreed (h.not_freed hgoing)
  · intro hover
    exact absurd hover (h.not_ended hgoing)
  · intro _
    exact ⟨fun _ => rfl, fun _ => rfl, h.not_freed hgoing⟩

/-- The ring is left or freed. -/
theorem Sound.joined (h : Sound w s) {stuck : Bool} (hjoin : s.stop = .join stuck) (a : Bool) :
    Sound w { s with
      a
      transfers_stranded := s.transfers_stranded || stuck
      freed := s.freed || !stuck
      stop := .finished } := by
  have hgoing : s.stop ≠ .finished := by simp [hjoin]
  have hlive : ¬ s.freed := h.not_freed hgoing
  have hkept : ¬ s.transfers_stranded := h.not_left hgoing
  refine { h with device := ?_, stopping := ?_, asked := ?_, quiet := ?_, ended := ?_, left := ?_ }
  · intro hbefore
    cases hbefore
  · refine ⟨?_, h.stopping.2⟩
    simp [h.stopping.1, hjoin]
  · have hasked := h.asked
    rw [Ring.Asked, hjoin] at hasked
    exact hasked
  · rintro (hnot | hfreed)
    · cases hnot
    · apply h.quiet
      cases stuck with
      | false => exact Or.inl hjoin
      | true => simp [hlive] at hfreed
  · intro _
    rfl
  · rintro (hnot | hleft)
    · cases hnot
    · cases stuck with
      | false => simp [hkept] at hleft
      | true =>
        obtain ⟨htx, hrx, -⟩ := h.left (Or.inl hjoin)
        exact ⟨htx, hrx, by simp [hlive]⟩

/-- A pass that asks for the slots of a ring in turn: once it has asked for the slot `i` as well,
it has asked for every slot up to there that libusb has. -/
theorem asked_next {α : Type} {n i : ℕ} (slots : Fin n → α) (owned cancelled : α → Prop)
    [DecidablePred owned] (mark : α → α) (hi : i < n) (hmark : ∀ x, cancelled (mark x))
    (hasked : ∀ j : Fin n, j.val < i → owned (slots j) → cancelled (slots j)) (j : Fin n)
    (hj : j.val < i + 1) :
    let next := Function.update slots ⟨i, hi⟩
      (if owned (slots ⟨i, hi⟩) then mark (slots ⟨i, hi⟩) else slots ⟨i, hi⟩)
    owned (next j) → cancelled (next j) := by
  intro next howned
  by_cases hji : j = ⟨i, hi⟩
  · subst hji
    dsimp only [next] at howned ⊢
    rw [Function.update_self] at howned ⊢
    by_cases hyes : owned (slots ⟨i, hi⟩)
    · rw [if_pos hyes]
      apply hmark
    · rw [if_neg hyes] at howned
      contradiction
  · have hne : j.val ≠ i := fun hsame => hji (Fin.ext hsame)
    dsimp only [next] at howned ⊢
    rw [Function.update_of_ne hji] at howned ⊢
    apply hasked j _ howned
    omega

/-- The stop begins: it takes the rings out of use before it asks for anything. -/
theorem Sound.stop_begins (h : Sound w s) (hidle : s.stop = .idle) :
    Sound w { s with rx_active := false, stopping := true, stop := .cancel_rx 0 } := by
  have hgoing : s.stop ≠ .finished := by simp [hidle]
  refine { h with device := ?_, stopping := ?_, asked := ?_, quiet := ?_, ended := ?_, left := ?_ }
  · intro _
    exact h.device (by rw [hidle]; rfl)
  · simp
  · intro i hi
    exact absurd hi (Nat.not_lt_zero _)
  · rintro (hjoin | hfreed)
    · cases hjoin
    · exact absurd hfreed (h.not_freed hgoing)
  · intro hover
    exact absurd hover (h.not_ended hgoing)
  · rintro (hjoin | hleft)
    · cases hjoin
    · exact absurd hleft (h.not_left hgoing)

/-- The pass over the receive ring asks for its next slot. -/
theorem Sound.stop_rx (h : Sound w s) {i : ℕ} (hst : s.stop = .cancel_rx i) (hi : i < MT_RX_RING) :
    Sound w { s.set_rx ⟨i, hi⟩ (if (s.rx ⟨i, hi⟩).stage = .owned then
      { s.rx ⟨i, hi⟩ with cancelled := true } else s.rx ⟨i, hi⟩)
        with stop := .cancel_rx (i + 1) } := by
  have hasked := h.asked
  rw [Ring.Asked, hst] at hasked
  apply (h.cancel_rx ⟨i, hi⟩).of_stop
  · show s.stop.before_join
    rw [hst]
    rfl
  · show s.stop ≠ .idle
    simp [hst]
  · rfl
  · simp
  · exact asked_next s.rx (fun x => x.stage = .owned) (fun x => x.cancelled)
      (fun x => { x with cancelled := true }) hi (fun _ => rfl) hasked

/-- The pass over the send ring asks for its next slot. -/
theorem Sound.stop_tx (h : Sound w s) {i : ℕ} (hst : s.stop = .cancel_tx i) (hi : i < MT_TX_RING) :
    Sound w { s.set_tx ⟨i, hi⟩ (if (s.tx ⟨i, hi⟩).owned then
      { s.tx ⟨i, hi⟩ with cancelled := true } else s.tx ⟨i, hi⟩)
        with stop := .cancel_tx (i + 1) } := by
  have hasked := h.asked
  rw [Ring.Asked, hst] at hasked
  apply (h.cancel_tx ⟨i, hi⟩).of_stop
  · show s.stop.before_join
    rw [hst]
    rfl
  · show s.stop ≠ .idle
    simp [hst]
  · rfl
  · simp
  · refine ⟨hasked.1, ?_⟩
    exact asked_next s.tx (fun x => x.owned) (fun x => x.cancelled)
      (fun x => { x with cancelled := true }) hi (fun _ => rfl) hasked.2

theorem Sound.stop_step (h : Sound w s) (timeout : Bool) : Sound w (s.stop_step timeout) := by
  unfold Ring.stop_step
  split
  · rename_i hidle
    exact h.stop_begins hidle
  · rename_i i hst
    dsimp only
    split
    · rename_i hi
      exact h.stop_rx hst hi
    · rename_i hi
      have hasked := h.asked
      rw [Ring.Asked, hst] at hasked
      refine h.of_stop (by rw [hst]; rfl) (by simp [hst]) rfl (by simp) ?_
      refine ⟨fun j => hasked j (by omega), ?_⟩
      intro j hj
      exact absurd hj (Nat.not_lt_zero _)
  · rename_i i hst
    dsimp only
    split
    · rename_i hi
      exact h.stop_tx hst hi
    · rename_i hi
      have hasked := h.asked
      rw [Ring.Asked, hst] at hasked
      refine h.of_stop (by rw [hst]; rfl) (by simp [hst]) rfl (by simp) ?_
      exact ⟨hasked.1, fun j => hasked.2 j (by omega)⟩
  · rename_i hdrain
    split
    · exact h
    · by_cases hout : s.tx_inflight ≠ 0 ∨ s.rx_inflight ≠ 0
      · simp only [hout, decide_true, if_true]
        exact h.stranded hdrain false
      · simp only [hout, decide_false, Bool.false_eq_true, if_false]
        exact h.drained hdrain (by omega) false
  · rename_i stuck hjoin
    dsimp only
    cases stuck with
    | true => simpa using h.joined hjoin false
    | false => simpa using h.joined hjoin false
  · exact h

/-! ## Every run -/

theorem sound_start (receives : RxIdx → Bool) (w : ℕ) : Sound w (start receives w) := by
  have hholds : ∀ k, (start receives w).holds k = none := fun k => rfl
  refine ⟨?_, ?_, ?_, ?_, nofun, nofun, ?_, ?_, ?_, ?_, ?_, trivial, ?_, ?_, ?_⟩
  · simp [start, Ring.busy]
  · intro i
    rfl
  · simp [start, Ring.flying]
  · simp [start, Ring.Counted]
  · intro k i n hk
    cases (hholds k).symm.trans hk
  · intro k l i m n hk
    cases (hholds k).symm.trans hk
  · intro _ i
    rfl
  · dsimp only [start, Ring.receiving]
    apply Finset.sum_congr rfl
    intro i _
    by_cases hi : receives i
    · simp [hi]
    · simp [hi]
  · simp [start]
  · rintro (hjoin | hfreed)
    · cases hjoin
    · cases hfreed
  · rintro (hfreed | hleft)
    · cases hfreed
    · cases hleft
  · rintro (hjoin | hleft)
    · cases hjoin
    · cases hleft

theorem sound_step (h : Sound w s) (a : Act) : Sound w (step s a) := by
  cases a with
  | mt_async_tx_submit buf nframes => exact h.mt_async_tx_submit buf nframes
  | call k late ok => exact h.call_step k late ok
  | tx_done i status actual_length => exact h.tx_done i status actual_length
  | rx_done i status len => exact h.rx_done i status len
  | rx_resubmit i ok => exact h.rx_resubmit i ok
  | stop timeout => exact h.stop_step timeout

theorem sound_after (receives : RxIdx → Bool) (w : ℕ) (acts : List Act) :
    Sound w (Runs.after step (start receives w) acts) :=
  Runs.after_keeps step _ (sound_start receives w) (fun _ a h => sound_step h a) acts

/-- A slot that is written is one that libusb does not have. -/
theorem Sound.not_owned_of_writes (h : Sound w s) {a : Act} {i : TxIdx}
    (hw : s.writes a = some i) : (s.tx i).owned = false := by
  unfold Ring.writes at hw
  split at hw
  · split at hw
    · next hk =>
      split at hw
      · cases hw
      · cases hw
        exact h.not_owned (holds_of_call hk)
    · cases hw
  · cases hw

theorem buf_of_update {s' : Ring} {j : TxIdx} {x : TxSlot} (htx : s'.tx = Function.update s.tx j x)
    (hx : x.buf = (s.tx j).buf) (i : TxIdx) : (s'.tx i).buf = (s.tx i).buf := by
  rw [htx]
  by_cases hij : i = j
  · rw [hij, Function.update_self, hx]
  · rw [Function.update_of_ne hij]

theorem owned_of_update {s' : Ring} {j : TxIdx} {x : TxSlot}
    (htx : s'.tx = Function.update s.tx j x) (hx : x.owned → (s.tx j).owned) (i : TxIdx)
    (hi : (s'.tx i).owned) : (s.tx i).owned := by
  rw [htx] at hi
  by_cases hij : i = j
  · rw [hij, Function.update_self] at hi
    rw [hij]
    exact hx hi
  · rwa [Function.update_of_ne hij] at hi

theorem stage_of_update {s' : Ring} {j : RxIdx} {x : RxSlot}
    (hrx : s'.rx = Function.update s.rx j x) (hx : x.stage = .owned → (s.rx j).stage = .owned)
    (i : RxIdx) (hi : (s'.rx i).stage = .owned) : (s.rx i).stage = .owned := by
  rw [hrx] at hi
  by_cases hij : i = j
  · rw [hij, Function.update_self] at hi
    rw [hij]
    exact hx hi
  · rwa [Function.update_of_ne hij] at hi

theorem buf_of_call {k : ℕ} {late ok : Bool} {i : TxIdx}
    (hw : s.writes (.call k late ok) ≠ some i) :
    ((s.call_step k late ok).tx i).buf = (s.tx i).buf := by
  unfold Ring.call_step
  split
  · rfl
  · next hlive =>
    split
    · unfold Ring.scan
      split
      · rfl
      · split
        · refine buf_of_update rfl ?_ i
          rfl
        · split
          · rfl
          · rfl
    · next idx buf nframes hk =>
      have hne : i ≠ idx := by
        intro hi
        apply hw
        simp [Ring.writes, hk, hlive, hi]
      exact congrArg TxSlot.buf (Function.update_of_ne hne ..)
    · unfold Ring.submit
      dsimp only
      split
      · refine buf_of_update rfl ?_ i
        rfl
      · refine buf_of_update rfl ?_ i
        rfl
    · rfl
    · rfl

/-- Only the copy of a call changes what is in a slot. -/
theorem buf_of_not_writes {a : Act} {i : TxIdx} (hw : s.writes a ≠ some i) :
    ((step s a).tx i).buf = (s.tx i).buf := by
  cases a with
  | mt_async_tx_submit buf nframes =>
    dsimp only [step, Ring.mt_async_tx_submit]
    split
    · rfl
    · rfl
  | call k late ok => exact buf_of_call hw
  | tx_done j status actual_length =>
    dsimp only [step, Ring.tx_done]
    split
    · split
      · refine buf_of_update rfl ?_ i
        rfl
      · refine buf_of_update rfl ?_ i
        rfl
    · rfl
  | rx_done j status len =>
    dsimp only [step, Ring.rx_done]
    split_ifs
    all_goals rfl
  | rx_resubmit j ok =>
    dsimp only [step, Ring.rx_resubmit]
    split
    · split
      · rfl
      · rfl
    · rfl
    · rfl
  | stop timeout =>
    dsimp only [step, Ring.stop_step]
    split
    · rfl
    · split
      · rfl
      · rfl
    · split
      · refine buf_of_update rfl ?_ i
        split
        · rfl
        · rfl
      · rfl
    · split
      · rfl
      · split
        · rfl
        · rfl
    · split
      · rfl
      · rfl
    · rfl

/-- Behind the stop nothing goes to libusb. -/
theorem Sound.nothing_starts (h : Sound w s) (hst : s.stopping) (a : Act) :
    (step s a).tx_submitted = s.tx_submitted ∧
    (∀ i, ((step s a).tx i).owned → (s.tx i).owned) ∧
    ∀ i, ((step s a).rx i).stage = .owned → (s.rx i).stage = .owned := by
  cases a with
  | mt_async_tx_submit buf nframes =>
    dsimp only [step, Ring.mt_async_tx_submit]
    split
    · exact ⟨rfl, fun _ => id, fun _ => id⟩
    · exact ⟨rfl, fun _ => id, fun _ => id⟩
  | call k late ok =>
    dsimp only [step, Ring.call_step]
    split
    · exact ⟨rfl, fun _ => id, fun _ => id⟩
    · split
      · simp only [Ring.scan, hst, Bool.or_true, if_true]
        exact ⟨rfl, fun _ => id, fun _ => id⟩
      · exact ⟨rfl, owned_of_update rfl id, fun _ => id⟩
      · simp only [Ring.submit, hst, Bool.true_or, if_true]
        exact ⟨rfl, owned_of_update rfl id, fun _ => id⟩
      · exact ⟨rfl, fun _ => id, fun _ => id⟩
      · exact ⟨rfl, fun _ => id, fun _ => id⟩
  | tx_done j status actual_length =>
    dsimp only [step, Ring.tx_done]
    split
    · split
      · exact ⟨rfl, owned_of_update rfl nofun, fun _ => id⟩
      · exact ⟨rfl, owned_of_update rfl nofun, fun _ => id⟩
    · exact ⟨rfl, fun _ => id, fun _ => id⟩
  | rx_done j status len =>
    dsimp only [step, Ring.rx_done]
    split_ifs
    all_goals first
      | exact ⟨rfl, fun _ => id, stage_of_update rfl nofun⟩
      | exact ⟨rfl, fun _ => id, fun _ => id⟩
  | rx_resubmit j ok =>
    dsimp only [step, Ring.rx_resubmit]
    split
    · rw [h.stopping.2 hst]
      exact ⟨rfl, fun _ => id, stage_of_update rfl nofun⟩
    · exact ⟨rfl, fun _ => id, fun _ => id⟩
    · exact ⟨rfl, fun _ => id, fun _ => id⟩
  | stop timeout =>
    dsimp only [step, Ring.stop_step]
    split
    · exact ⟨rfl, fun _ => id, fun _ => id⟩
    · split
      · refine ⟨rfl, fun _ => id, stage_of_update rfl ?_⟩
        split
        · exact id
        · exact id
      · exact ⟨rfl, fun _ => id, fun _ => id⟩
    · split
      · refine ⟨rfl, owned_of_update rfl ?_, fun _ => id⟩
        split
        · exact id
        · exact id
      · exact ⟨rfl, fun _ => id, fun _ => id⟩
    · split
      · exact ⟨rfl, fun _ => id, fun _ => id⟩
      · split
        · exact ⟨rfl, fun _ => id, fun _ => id⟩
        · exact ⟨rfl, fun _ => id, fun _ => id⟩
    · split
      · exact ⟨rfl, fun _ => id, fun _ => id⟩
      · exact ⟨rfl, fun _ => id, fun _ => id⟩
    · exact ⟨rfl, fun _ => id, fun _ => id⟩

/-! ## What is written down -/

theorem eq_of_set_call {k : ℕ} {c d : Call} (h : (s.set_call k c).calls[k]? = some d) : c = d := by
  rw [Ring.set_call, List.getElem?_set_self'] at h
  cases hk : s.calls[k]? with
  | none => simp [hk] at h
  | some x => simpa [hk] using h

theorem scan_returns_no_zero {k : ℕ} {buf : Bytes} {nframes : ℕ} (late : Bool)
    (hk : s.calls[k]? = some (.scan buf nframes)) :
    (s.scan k buf nframes late).calls[k]? ≠ some (.returned 0) := by
  intro h
  unfold Ring.scan at h
  split at h
  · cases eq_of_set_call h
  · split at h
    · cases eq_of_set_call h
    · split at h
      · cases eq_of_set_call h
      · rw [hk] at h
        cases h

/-- A call that goes from its last step to 0 has a record of its own. -/
theorem recorded_taken (k : ℕ) (late ok : Bool) (hnot : s.calls[k]? ≠ some (.returned 0))
    (h : (step s (.call k late ok)).calls[k]? = some (.returned 0)) :
    ∃ idx nframes, s.calls[k]? = some (.submit idx nframes) ∧
      (step s (.call k late ok)).tx_submitted = s.tx_submitted + 1 ∧
      (step s (.call k late ok)).sends s.tx_submitted = ⟨nframes, none, false⟩ := by
  dsimp only [step, Ring.call_step] at h ⊢
  split at h
  · exact absurd h hnot
  · next hlive =>
    rw [if_neg hlive]
    split at h
    · next hk => exact absurd h (scan_returns_no_zero late hk)
    · cases eq_of_set_call h
    · next idx nframes hk =>
      refine ⟨idx, nframes, hk, ?_⟩
      unfold Ring.submit at h ⊢
      dsimp only at h ⊢
      split at h
      · cases eq_of_set_call h
      · next hgo =>
        rw [if_neg hgo]
        exact ⟨rfl, Function.update_self ..⟩
    · exact absurd h hnot
    · exact absurd h hnot

theorem scan_submits_nothing (k : ℕ) (buf : Bytes) (nframes : ℕ) (late : Bool) :
    (s.scan k buf nframes late).tx_submitted = s.tx_submitted ∧
      (s.scan k buf nframes late).sends = s.sends := by
  unfold Ring.scan
  split
  · exact ⟨rfl, rfl⟩
  · split
    · exact ⟨rfl, rfl⟩
    · split
      · exact ⟨rfl, rfl⟩
      · exact ⟨rfl, rfl⟩

/-- The one step that adds a record is the submit that returns 0. -/
theorem call_step_submits (k : ℕ) (late ok : Bool) :
    (s.call_step k late ok).tx_submitted = s.tx_submitted ∧
        (s.call_step k late ok).sends = s.sends ∨
      (∃ idx nframes, s.calls[k]? = some (.submit idx nframes)) ∧
        (s.call_step k late ok).calls[k]? = some (.returned 0) ∧
        ∀ n < s.tx_submitted, (s.call_step k late ok).sends n = s.sends n := by
  unfold Ring.call_step
  split
  · exact Or.inl ⟨rfl, rfl⟩
  · split
    · exact Or.inl (scan_submits_nothing ..)
    · exact Or.inl ⟨rfl, rfl⟩
    · next idx nframes hk =>
      unfold Ring.submit
      dsimp only
      split
      · exact Or.inl ⟨rfl, rfl⟩
      · refine Or.inr ⟨⟨idx, nframes, hk⟩, ?_, ?_⟩
        · show (s.calls.set k (.returned 0))[k]? = _
          rw [List.getElem?_set_self', hk]
          rfl
        · intro n hn
          exact Function.update_of_ne (Nat.ne_of_lt hn) ..
    · exact Or.inl ⟨rfl, rfl⟩
    · exact Or.inl ⟨rfl, rfl⟩

/-- What a completion changes of the records, and that it submits nothing. -/
theorem tx_done_sends (i : TxIdx) (status : Status) (actual_length : ℕ) :
    (s.tx_done i status actual_length).tx_submitted = s.tx_submitted ∧
    ((s.tx i).owned → (s.tx_done i status actual_length).sends =
      Function.update s.sends (s.tx i).send { s.sends (s.tx i).send with
        result := some (status == .COMPLETED && actual_length == (s.tx i).buf.length) }) ∧
    ((s.tx i).owned = false → (s.tx_done i status actual_length).sends = s.sends) := by
  unfold Ring.tx_done
  dsimp only
  split
  · next howned =>
    refine ⟨?_, ?_, ?_⟩
    · split
      · rfl
      · rfl
    · intro _
      split
      · rfl
      · rfl
    · intro hnot
      rw [hnot] at howned
      cases howned
  · next hnot => exact ⟨rfl, fun howned => absurd howned hnot, fun _ => rfl⟩

/-- A stop leaves the records alone, but for the end of a wait with transfers out. -/
theorem stop_step_sends (timeout : Bool) :
    (s.stop_step timeout).tx_submitted = s.tx_submitted ∧
      ((s.stop_step timeout).sends = s.sends ∨
        s.stop = .drain ∧ timeout = true ∧ (s.stop_step timeout).sends = s.strand.sends) := by
  unfold Ring.stop_step
  split
  · exact ⟨rfl, Or.inl rfl⟩
  · split
    · exact ⟨rfl, Or.inl rfl⟩
    · exact ⟨rfl, Or.inl rfl⟩
  · split
    · exact ⟨rfl, Or.inl rfl⟩
    · exact ⟨rfl, Or.inl rfl⟩
  · next hdrain =>
    split
    · exact ⟨rfl, Or.inl rfl⟩
    · next hwait =>
      by_cases hout : s.tx_inflight ≠ 0 ∨ s.rx_inflight ≠ 0
      · have hlate : timeout = true := by
          cases timeout with
          | false => exact absurd ⟨hout, rfl⟩ hwait
          | true => rfl
        simp only [hout, decide_true, if_true]
        exact ⟨rfl, Or.inr ⟨hdrain, hlate, rfl⟩⟩
      · simp [hout]
  · split
    · exact ⟨rfl, Or.inl rfl⟩
    · exact ⟨rfl, Or.inl rfl⟩
  · exact ⟨rfl, Or.inl rfl⟩

theorem rx_done_sends (i : RxIdx) (status : Status) (len : ℤ) :
    (s.rx_done i status len).tx_submitted = s.tx_submitted ∧
      (s.rx_done i status len).sends = s.sends := by
  unfold Ring.rx_done
  dsimp only
  split_ifs
  all_goals exact ⟨rfl, rfl⟩

theorem rx_resubmit_sends (i : RxIdx) (ok : Bool) :
    (s.rx_resubmit i ok).tx_submitted = s.tx_submitted ∧
      (s.rx_resubmit i ok).sends = s.sends := by
  unfold Ring.rx_resubmit
  dsimp only
  split
  · split
    · exact ⟨rfl, rfl⟩
    · exact ⟨rfl, rfl⟩
  · exact ⟨rfl, rfl⟩
  · exact ⟨rfl, rfl⟩

theorem mt_async_tx_submit_sends (buf : Bytes) (nframes : ℕ) :
    (s.mt_async_tx_submit buf nframes).tx_submitted = s.tx_submitted ∧
      (s.mt_async_tx_submit buf nframes).sends = s.sends := by
  unfold Ring.mt_async_tx_submit
  split
  · exact ⟨rfl, rfl⟩
  · exact ⟨rfl, rfl⟩

theorem recorded_made (a : Act) (h : (step s a).tx_submitted ≠ s.tx_submitted) :
    ∃ k late ok, a = .call k late ok ∧ s.calls[k]? ≠ some (.returned 0) ∧
      (step s a).calls[k]? = some (.returned 0) := by
  cases a with
  | mt_async_tx_submit buf nframes => exact absurd (mt_async_tx_submit_sends buf nframes).1 h
  | call k late ok =>
    rcases call_step_submits (s := s) k late ok with ⟨hsame, -⟩ | ⟨⟨idx, nframes, hk⟩, hzero, -⟩
    · exact absurd hsame h
    · exact ⟨k, late, ok, rfl, by simp [hk], hzero⟩
  | tx_done i status actual_length => exact absurd (tx_done_sends i status actual_length).1 h
  | rx_done i status len => exact absurd (rx_done_sends i status len).1 h
  | rx_resubmit i ok => exact absurd (rx_resubmit_sends i ok).1 h
  | stop timeout => exact absurd (stop_step_sends timeout).1 h

theorem recorded_kept (a : Act) (n : ℕ) (hn : n < s.tx_submitted)
    (h : (step s a).sends n ≠ s.sends n) :
    ∃ i, (s.tx i).owned ∧ (s.tx i).send = n ∧
      ((∃ status actual_length, a = .tx_done i status actual_length) ∨
        a = .stop true ∧ s.stop = .drain) := by
  cases a with
  | mt_async_tx_submit buf nframes =>
    exact absurd (congrFun (mt_async_tx_submit_sends buf nframes).2 n) h
  | call k late ok =>
    rcases call_step_submits (s := s) k late ok with ⟨-, hsame⟩ | ⟨-, -, hold⟩
    · exact absurd (congrFun hsame n) h
    · exact absurd (hold n hn) h
  | tx_done i status actual_length =>
    obtain ⟨-, hsends, hsame⟩ := tx_done_sends (s := s) i status actual_length
    cases howned : (s.tx i).owned with
    | false => exact absurd (congrFun (hsame howned) n) h
    | true =>
      refine ⟨i, howned, ?_, Or.inl ⟨status, actual_length, rfl⟩⟩
      by_contra hne
      apply h
      show (s.tx_done i status actual_length).sends n = _
      rw [hsends howned, Function.update_of_ne (Ne.symm hne)]
  | rx_done i status len => exact absurd (congrFun (rx_done_sends i status len).2 n) h
  | rx_resubmit i ok => exact absurd (congrFun (rx_resubmit_sends i ok).2 n) h
  | stop timeout =>
    rcases (stop_step_sends (s := s) timeout).2 with hsame | ⟨hdrain, hlate, hsends⟩
    · exact absurd (congrFun hsame n) h
    · by_contra hnone
      have hout : ¬ ∃ i, (s.tx i).owned ∧ (s.tx i).send = n := by
        rintro ⟨i, howned, hsend⟩
        exact hnone ⟨i, howned, hsend, Or.inr ⟨by rw [hlate], hdrain⟩⟩
      apply h
      show (s.stop_step timeout).sends n = _
      rw [hsends, strand_sends_kept hout]

/-- The wait of the stop runs out. -/
theorem Sound.recorded_left (h : Sound w s) (hdrain : s.stop = .drain)
    (hout : s.tx_inflight ≠ 0 ∨ s.rx_inflight ≠ 0) :
    (step s (.stop true)).stop = .join true ∧
    (∀ i, (s.tx i).owned → ((step s (.stop true)).sends (s.tx i).send).stranded) ∧
    (step s (.stop true)).tx_wire_failed = s.tx_wire_failed +
      ∑ i, if (s.tx i).owned then (s.sends (s.tx i).send).frames else 0 := by
  have hstep : step s (.stop true) =
      ({ s with running := false, stop := .join true } : Ring).strand := by
    simp [step, Ring.stop_step, hdrain, hout]
  rw [hstep]
  refine ⟨rfl, ?_, ?_⟩
  · intro i howned
    show (s.strand.sends (s.tx i).send).stranded
    rw [strand_sends_left ⟨i, howned, rfl⟩]
  · rw [strand_wire_failed]
    refine congrArg (s.tx_wire_failed + ·) (Finset.sum_congr rfl ?_)
    intro i _
    dsimp only
    rw [← h.owned i]
    split
    · next howned => rw [(h.send i howned).2]
    · rfl

theorem Sound.recorded (h : Sound w s) : s.Recorded where
  taken := recorded_taken
  made := recorded_made
  done i status actual_length howned := by
    show (s.tx_done i status actual_length).sends (s.tx i).send = _
    rw [(tx_done_sends i status actual_length).2.1 howned, Function.update_self]
  left_behind := h.recorded_left
  kept := recorded_kept

theorem Sound.left_behind (h : Sound w s) (hleft : s.stop = .join true ∨ s.transfers_stranded) :
    s.LeftBehind := by
  obtain ⟨htx, hrx, hfreed⟩ := h.left hleft
  refine ⟨?_, hrx, hfreed⟩
  intro i
  refine ⟨htx i, fun howned => ?_⟩
  rw [(h.send i howned).2, htx i]
  rfl

theorem the_rings_are_accounted_for (receives : RxIdx → Bool) (w : ℕ) (acts : List Act) :
    let s := Runs.after step (start receives w) acts
    s.tx_inflight = s.busy ∧
    s.tx_submitted = s.tx_done_n + s.tx_failed + s.flying ∧
    (∀ a i, (s.tx i).owned → s.writes a ≠ some i ∧ ((step s a).tx i).buf = (s.tx i).buf) ∧
    (s.stopping → ∀ a, (step s a).tx_submitted = s.tx_submitted ∧
      (∀ i, ((step s a).tx i).owned → (s.tx i).owned) ∧
      ∀ i, ((step s a).rx i).stage = .owned → (s.rx i).stage = .owned) ∧
    s.Asked ∧
    s.Counted w ∧
    s.Recorded ∧
    (s.stop = .join true ∨ s.transfers_stranded → s.LeftBehind) ∧
    (s.freed → (∀ i, (s.tx i).owned = false) ∧ ∀ i, (s.rx i).stage = .idle) := by
  intro s
  have h : Sound w s := sound_after receives w acts
  refine ⟨h.inflight, h.submitted, ?_, h.nothing_starts, h.asked, h.wire, h.recorded, h.left_behind,
    ?_⟩
  · intro a i howned
    have hw : s.writes a ≠ some i := by
      intro hw
      rw [h.not_owned_of_writes hw] at howned
      cases howned
    exact ⟨hw, buf_of_not_writes hw⟩
  · intro hfreed
    have hnone := h.quiet (Or.inr hfreed)
    refine ⟨?_, h.rx_idle hnone.2⟩
    intro i
    rw [h.owned, h.not_busy hnone.1, Bool.false_and]

end devourer.mt7612u
