-- The accounts of the asynchronous rings: the counters say what libusb has,
-- and each lost frame is counted once. Here are the accounts themselves and
-- what the callers of `mt_async_tx_submit` do to them.
import Devourer.Mt7612u.AsyncRing

namespace devourer.mt7612u

open usb (Status)

variable {s : Ring} {i : TxIdx} {k : ℕ}

/-! ## What is counted -/

/-- The frames that a submission may not have brought to the chip. -/
def Send.lost (x : Send) : ℕ := if x.stranded || x.result == some false then x.frames else 0

/-- The slot that a call has reserved, and the frames that the call has for it. -/
def Call.slot : Call → Option (TxIdx × ℕ)
  | .copy idx _ nframes | .submit idx nframes => some (idx, nframes)
  | .scan _ _ | .returned _ => none

namespace Ring

/-- The busy slots. -/
def busy (s : Ring) : ℤ := ∑ i, if (s.tx i).busy then 1 else 0

/-- The slots that are submitted and not completed. -/
def flying (s : Ring) : ℕ := ∑ i, if (s.tx i).busy && (s.tx i).submitted then 1 else 0

/-- The receive transfers that are with libusb or in their callback. -/
def receiving (s : Ring) : ℤ := ∑ i, if (s.rx i).stage = .idle then 0 else 1

/-- The frames that were lost are in the counter, once each. -/
def Counted (tx_wire_failed : ℕ) (s : Ring) : Prop :=
  s.tx_wire_failed = tx_wire_failed + ∑ n ∈ Finset.range s.tx_submitted, (s.sends n).lost

/-- What a step writes down about the submissions: a submit that returns 0 makes a record with the
frames of its caller, the callback of a transfer records whether it was whole, and a stop whose wait
runs out leaves behind the transfers that libusb has, and counts their frames. -/
structure Recorded (s : Ring) : Prop where
  taken : ∀ k late ok, s.calls[k]? ≠ some (.returned 0) →
    (step s (.call k late ok)).calls[k]? = some (.returned 0) →
      ∃ idx nframes, s.calls[k]? = some (.submit idx nframes) ∧
        (step s (.call k late ok)).tx_submitted = s.tx_submitted + 1 ∧
        (step s (.call k late ok)).sends s.tx_submitted = ⟨nframes, none, false⟩
  made : ∀ a, (step s a).tx_submitted ≠ s.tx_submitted → ∃ k late ok, a = .call k late ok ∧
    s.calls[k]? ≠ some (.returned 0) ∧ (step s a).calls[k]? = some (.returned 0)
  done : ∀ i status actual_length, (s.tx i).owned →
    (step s (.tx_done i status actual_length)).sends (s.tx i).send =
      { s.sends (s.tx i).send with
        result := some (status == .COMPLETED && actual_length == (s.tx i).buf.length) }
  left_behind : s.stop = .drain → s.tx_inflight ≠ 0 ∨ s.rx_inflight ≠ 0 →
    (step s (.stop true)).stop = .join true ∧
    (∀ i, (s.tx i).owned → ((step s (.stop true)).sends (s.tx i).send).stranded) ∧
    (step s (.stop true)).tx_wire_failed = s.tx_wire_failed +
      ∑ i, if (s.tx i).owned then (s.sends (s.tx i).send).frames else 0
  kept : ∀ a n, n < s.tx_submitted → (step s a).sends n ≠ s.sends n →
    ∃ i, (s.tx i).owned ∧ (s.tx i).send = n ∧
      ((∃ status actual_length, a = .tx_done i status actual_length) ∨
        a = .stop true ∧ s.stop = .drain)

/-- A ring that is left behind: no slot has its device, what libusb still has is counted as lost,
and nothing is freed. -/
def LeftBehind (s : Ring) : Prop :=
  (∀ i, (s.tx i).d = false ∧ ((s.tx i).owned → (s.sends (s.tx i).send).stranded)) ∧
    (∀ i, (s.rx i).d = false) ∧ ¬ s.freed

/-- What the cancel pass has reached it has cancelled. -/
def Asked (s : Ring) : Prop :=
  match s.stop with
  | .idle => True
  | .cancel_rx j => ∀ i, i.val < j → (s.rx i).stage = .owned → (s.rx i).cancelled
  | .cancel_tx j => (∀ i, (s.rx i).stage = .owned → (s.rx i).cancelled) ∧
    ∀ i, i.val < j → (s.tx i).owned → (s.tx i).cancelled
  | .drain | .join _ | .finished => (∀ i, (s.rx i).stage = .owned → (s.rx i).cancelled) ∧
    ∀ i, (s.tx i).owned → (s.tx i).cancelled

/-- The slot that the call `k` has reserved. -/
def holds (s : Ring) (k : ℕ) : Option (TxIdx × ℕ) := s.calls[k]?.bind Call.slot

/-- The slot whose buffer a step writes. -/
def writes (s : Ring) : Act → Option TxIdx
  | .call k _ _ => match s.calls[k]? with
    | some (.copy idx _ _) => if s.freed then none else some idx
    | _ => none
  | _ => none

end Ring

/-! ## The invariant -/

/-- The stop has not got to the end of its wait. -/
def Stop.before_join : Stop → Bool
  | .idle | .cancel_rx _ | .cancel_tx _ | .drain => true
  | .join _ | .finished => false

structure Sound (w : ℕ) (s : Ring) : Prop where
  inflight : s.tx_inflight = s.busy
  owned : ∀ i, (s.tx i).owned = ((s.tx i).busy && (s.tx i).submitted)
  submitted : s.tx_submitted = s.tx_done_n + s.tx_failed + s.flying
  wire : s.Counted w
  send : ∀ i, (s.tx i).owned → (s.tx i).send < s.tx_submitted ∧
    s.sends (s.tx i).send = ⟨(s.tx i).nframes, none, !(s.tx i).d⟩
  distinct : ∀ i j, (s.tx i).owned → (s.tx j).owned → (s.tx i).send = (s.tx j).send → i = j
  reserved : ∀ k i n, s.holds k = some (i, n) →
    (s.tx i).busy ∧ (s.tx i).submitted = false ∧ (s.tx i).nframes = n
  exclusive : ∀ k l i m n, s.holds k = some (i, m) → s.holds l = some (i, n) → k = l
  device : s.stop.before_join → ∀ i, (s.tx i).d
  receiving : s.rx_inflight = s.receiving
  stopping : (s.stopping ↔ s.stop ≠ .idle) ∧ (s.stopping → s.rx_active = false)
  asked : s.Asked
  quiet : s.stop = .join false ∨ s.freed → s.tx_inflight = 0 ∧ s.rx_inflight = 0
  ended : s.freed ∨ s.transfers_stranded → s.stop = .finished
  left : s.stop = .join true ∨ s.transfers_stranded →
    (∀ i, (s.tx i).d = false) ∧ (∀ i, (s.rx i).d = false) ∧ ¬ s.freed

variable {w : ℕ}

/-! ### Slots that change -/

@[simp] theorem tx_set_tx (s : Ring) (i : TxIdx) (x : TxSlot) :
    (s.set_tx i x).tx = Function.update s.tx i x := rfl

theorem busy_update (s : Ring) (i : TxIdx) (x : TxSlot) :
    (∑ j, if (Function.update s.tx i x j).busy then (1 : ℤ) else 0) +
      (if (s.tx i).busy then 1 else 0) = s.busy + if x.busy then 1 else 0 :=
  Tally.sum_update Finset.univ s.tx (Finset.mem_univ i) x fun x => if x.busy then (1 : ℤ) else 0

theorem flying_update (s : Ring) (i : TxIdx) (x : TxSlot) :
    (∑ j, if (Function.update s.tx i x j).busy && (Function.update s.tx i x j).submitted
      then 1 else 0) + (if (s.tx i).busy && (s.tx i).submitted then 1 else 0) =
      s.flying + if x.busy && x.submitted then 1 else 0 :=
  Tally.sum_update Finset.univ s.tx (Finset.mem_univ i) x fun x =>
    if x.busy && x.submitted then 1 else 0

theorem receiving_update (s : Ring) (i : RxIdx) (x : RxSlot) :
    (∑ j, if (Function.update s.rx i x j).stage = .idle then (0 : ℤ) else 1) +
      (if (s.rx i).stage = .idle then 0 else 1) =
      s.receiving + if x.stage = .idle then 0 else 1 :=
  Tally.sum_update Finset.univ s.rx (Finset.mem_univ i) x fun x =>
    if x.stage = .idle then (0 : ℤ) else 1

/-- With nothing in flight no slot is busy. -/
theorem Sound.not_busy (h : Sound w s) (hnone : s.tx_inflight = 0) (i : TxIdx) :
    (s.tx i).busy = false := by
  have hzero : s.busy = 0 := h.inflight.symm.trans hnone
  have hall := (Finset.sum_eq_zero_iff_of_nonneg fun j _ => by split <;> omega).mp hzero i
    (Finset.mem_univ i)
  cases hb : (s.tx i).busy with
  | false => rfl
  | true => simp [hb] at hall

theorem Sound.rx_idle (h : Sound w s) (hnone : s.rx_inflight = 0) (i : RxIdx) :
    (s.rx i).stage = .idle := by
  have hzero : s.receiving = 0 := h.receiving.symm.trans hnone
  have hall := (Finset.sum_eq_zero_iff_of_nonneg fun j _ => by split <;> omega).mp hzero i
    (Finset.mem_univ i)
  by_contra hne
  simp [hne] at hall

theorem Sound.busy_of_owned (h : Sound w s) (hi : (s.tx i).owned) : (s.tx i).busy := by
  rw [h.owned, Bool.and_eq_true] at hi
  exact hi.1

theorem Sound.submitted_of_owned (h : Sound w s) (hi : (s.tx i).owned) : (s.tx i).submitted := by
  rw [h.owned, Bool.and_eq_true] at hi
  exact hi.2

/-- A slot that a call has reserved is not with libusb. -/
theorem Sound.not_owned (h : Sound w s) {n : ℕ} (hk : s.holds k = some (i, n)) :
    (s.tx i).owned = false := by
  obtain ⟨-, hsub, -⟩ := h.reserved k i n hk
  rw [h.owned, hsub, Bool.and_false]

/-! ### Calls that change -/

theorem holds_of_call {c : Call} (hk : s.calls[k]? = some c) : s.holds k = c.slot := by
  rw [Ring.holds, hk]; rfl

/-- What a call that changes holds, and that the others hold what they held. -/
theorem holds_set_call {c : Call} {l : ℕ} {x : TxIdx × ℕ} (hx : (s.set_call k c).holds l = some x) :
    l = k ∧ c.slot = some x ∨ l ≠ k ∧ s.holds l = some x := by
  rw [Ring.holds, Ring.set_call, List.getElem?_set] at hx
  by_cases hl : k = l
  · subst hl
    simp only [if_true] at hx
    split at hx
    · exact Or.inl ⟨rfl, hx⟩
    · cases hx
  · rw [if_neg hl] at hx
    exact Or.inr ⟨Ne.symm hl, hx⟩

/-- A call that lets go of its slot, or comes in without one. -/
theorem Sound.of_holds (h : Sound w s) {cs : List Call}
    (hcs : ∀ l x, ({ s with calls := cs } : Ring).holds l = some x → s.holds l = some x) :
    Sound w { s with calls := cs } := by
  refine { h with reserved := ?_, exclusive := ?_ }
  · intro l j n hl
    exact h.reserved l j n (hcs l _ hl)
  · intro l m j a b hl hm
    exact h.exclusive l m j a b (hcs l _ hl) (hcs m _ hm)

theorem Sound.set_call (h : Sound w s) {c : Call} (hc : c.slot = none) :
    Sound w (s.set_call k c) := by
  apply h.of_holds
  intro l x hl
  rcases holds_set_call hl with ⟨-, hx⟩ | ⟨-, hx⟩
  · rw [hc] at hx
    cases hx
  · exact hx

theorem Sound.new_call (h : Sound w s) {c : Call} (hc : c.slot = none) :
    Sound w { s with calls := s.calls ++ [c] } := by
  apply h.of_holds
  intro l x hl
  rw [Ring.holds] at hl
  by_cases hlt : l < s.calls.length
  · rwa [List.getElem?_append_left hlt] at hl
  · rw [List.getElem?_append_right (by omega)] at hl
    cases hd : l - s.calls.length with
    | zero =>
      rw [hd] at hl
      rw [show c.slot = some x from hl] at hc
      cases hc
    | succ d => simp [hd] at hl

/-! ## The callers -/

theorem Sound.mt_async_tx_submit (h : Sound w s) (buf : Bytes) (nframes : ℕ) :
    Sound w (s.mt_async_tx_submit buf nframes) := by
  unfold Ring.mt_async_tx_submit
  split
  · exact h.new_call rfl
  · exact h.new_call rfl

theorem not_busy_of_free_slot (hfree : s.free_slot = some i) : (s.tx i).busy = false := by
  have hfound := List.find?_some hfree
  simpa using hfound

/-- What the cancel pass has reached stays cancelled when nothing new goes to libusb. -/
theorem Ring.Asked.mono {s' : Ring} (h : s.Asked) (hstop : s'.stop = s.stop)
    (hrx : ∀ i, (s'.rx i).stage = .owned →
      (s.rx i).stage = .owned ∧ ((s.rx i).cancelled → (s'.rx i).cancelled))
    (htx : ∀ i, (s'.tx i).owned →
      (s.tx i).owned ∧ ((s.tx i).cancelled → (s'.tx i).cancelled)) : s'.Asked := by
  have hrx' : ∀ i, ((s.rx i).stage = .owned → (s.rx i).cancelled = true) →
      (s'.rx i).stage = .owned → (s'.rx i).cancelled = true := by
    intro i hi howned
    obtain ⟨hbefore, hkept⟩ := hrx i howned
    exact hkept (hi hbefore)
  have htx' : ∀ i, ((s.tx i).owned = true → (s.tx i).cancelled = true) →
      (s'.tx i).owned = true → (s'.tx i).cancelled = true := by
    intro i hi howned
    obtain ⟨hbefore, hkept⟩ := htx i howned
    exact hkept (hi hbefore)
  unfold Ring.Asked at h ⊢
  rw [hstop]
  cases hst : s.stop with
  | idle => trivial
  | cancel_rx j =>
    rw [hst] at h
    exact fun i hij => hrx' i (h i hij)
  | cancel_tx j =>
    rw [hst] at h
    exact ⟨fun i => hrx' i (h.1 i), fun i hij => htx' i (h.2 i hij)⟩
  | drain | join b | finished =>
    rw [hst] at h
    exact ⟨fun i => hrx' i (h.1 i), fun i => htx' i (h.2 i)⟩

/-- What the steps of one send slot leave alone. -/
def Ring.others (s : Ring) : (RxIdx → RxSlot) × ℤ × Stop × Bool × Bool × Bool × Bool :=
  (s.rx, s.rx_inflight, s.stop, s.stopping, s.rx_active, s.freed, s.transfers_stranded)

/-- Only the slot `i` changes, to `x`, and its accounts follow. -/
structure SlotStep (w : ℕ) (s s' : Ring) (i : TxIdx) (x : TxSlot) : Prop where
  tx : s'.tx = Function.update s.tx i x
  others : s'.others = s.others
  live : s.stop = .idle ∨ (s.tx i).busy
  inflight : s'.tx_inflight + (if (s.tx i).busy then 1 else 0) =
    s.tx_inflight + if x.busy then 1 else 0
  owned : x.owned = (x.busy && x.submitted)
  d : x.d = (s.tx i).d
  submitted : s'.tx_submitted + (s.tx_done_n + s.tx_failed) +
    (if (s.tx i).busy && (s.tx i).submitted then 1 else 0) =
    s.tx_submitted + (s'.tx_done_n + s'.tx_failed) + if x.busy && x.submitted then 1 else 0
  wire : s'.Counted w
  send : x.owned → x.send < s'.tx_submitted ∧ s'.sends x.send = ⟨x.nframes, none, !x.d⟩
  rest : ∀ j, j ≠ i → (s.tx j).owned → (s.tx j).send < s'.tx_submitted ∧
    s'.sends (s.tx j).send = s.sends (s.tx j).send ∧ (x.owned → (s.tx j).send ≠ x.send)
  mine : ∀ l n, s'.holds l = some (i, n) → x.busy ∧ x.submitted = false ∧ x.nframes = n
  held : ∀ l j n, j ≠ i → s'.holds l = some (j, n) → s.holds l = some (j, n)
  exclusive : ∀ l m a b, s'.holds l = some (i, a) → s'.holds m = some (i, b) → l = m
  cancelled : x.owned → s.stop = .idle ∨ (s.tx i).owned ∧ ((s.tx i).cancelled → x.cancelled)

namespace SlotStep

variable {s' : Ring} {x : TxSlot}

theorem self (c : SlotStep w s s' i x) : s'.tx i = x := by rw [c.tx, Function.update_self]

theorem apart (c : SlotStep w s s' i x) {j : TxIdx} (hj : j ≠ i) : s'.tx j = s.tx j := by
  rw [c.tx, Function.update_of_ne hj]

/-- What is left alone, one by one. -/
theorem same (c : SlotStep w s s' i x) : s'.rx = s.rx ∧ s'.rx_inflight = s.rx_inflight ∧
    s'.stop = s.stop ∧ s'.stopping = s.stopping ∧ s'.rx_active = s.rx_active ∧
    s'.freed = s.freed ∧ s'.transfers_stranded = s.transfers_stranded := by
  have hothers := c.others
  simp only [Ring.others, Prod.mk.injEq] at hothers
  exact hothers

theorem device (c : SlotStep w s s' i x) (j : TxIdx) : (s'.tx j).d = (s.tx j).d := by
  by_cases hj : j = i
  · rw [hj, c.self, c.d]
  · rw [c.apart hj]

theorem busy (c : SlotStep w s s' i x) (h : Sound w s) : s'.tx_inflight = s'.busy := by
  have hsum := busy_update s i x
  have hbefore := h.inflight
  have hchange := c.inflight
  unfold Ring.busy at hsum hbefore ⊢
  rw [c.tx]
  omega

theorem flying (c : SlotStep w s s' i x) (h : Sound w s) :
    s'.tx_submitted = s'.tx_done_n + s'.tx_failed + s'.flying := by
  have hsum := flying_update s i x
  have hbefore := h.submitted
  have hchange := c.submitted
  unfold Ring.flying at hsum hbefore ⊢
  rw [c.tx]
  omega

theorem sends (c : SlotStep w s s' i x) (h : Sound w s) (j : TxIdx) (hj : (s'.tx j).owned) :
    (s'.tx j).send < s'.tx_submitted ∧
      s'.sends (s'.tx j).send = ⟨(s'.tx j).nframes, none, !(s'.tx j).d⟩ := by
  by_cases hji : j = i
  · rw [hji, c.self] at hj ⊢
    exact c.send hj
  · rw [c.apart hji] at hj ⊢
    obtain ⟨hlt, hsame, -⟩ := c.rest j hji hj
    exact ⟨hlt, hsame.trans (h.send j hj).2⟩

theorem distinct (c : SlotStep w s s' i x) (h : Sound w s) (j l : TxIdx) (hj : (s'.tx j).owned)
    (hl : (s'.tx l).owned) (hjl : (s'.tx j).send = (s'.tx l).send) : j = l := by
  by_cases hji : j = i
  · by_cases hli : l = i
    · rw [hji, hli]
    · rw [hji, c.self] at hj hjl
      rw [c.apart hli] at hl hjl
      exact absurd hjl.symm ((c.rest l hli hl).2.2 hj)
  · rw [c.apart hji] at hj hjl
    by_cases hli : l = i
    · rw [hli, c.self] at hl hjl
      exact absurd hjl ((c.rest j hji hj).2.2 hl)
    · rw [c.apart hli] at hl hjl
      exact h.distinct j l hj hl hjl

theorem reserved (c : SlotStep w s s' i x) (h : Sound w s) (l : ℕ) (j : TxIdx) (n : ℕ)
    (hl : s'.holds l = some (j, n)) :
    (s'.tx j).busy ∧ (s'.tx j).submitted = false ∧ (s'.tx j).nframes = n := by
  by_cases hj : j = i
  · subst hj
    rw [c.self]
    exact c.mine l n hl
  · rw [c.apart hj]
    exact h.reserved l j n (c.held l j n hj hl)

theorem holders (c : SlotStep w s s' i x) (h : Sound w s) (l m : ℕ) (j : TxIdx) (a b : ℕ)
    (hl : s'.holds l = some (j, a)) (hm : s'.holds m = some (j, b)) : l = m := by
  by_cases hj : j = i
  · subst hj
    exact c.exclusive l m a b hl hm
  · exact h.exclusive l m j a b (c.held l j a hj hl) (c.held m j b hj hm)

theorem asked (c : SlotStep w s s' i x) (h : Sound w s) : s'.Asked := by
  obtain ⟨hrx, -, hstop, -⟩ := c.same
  by_cases hidle : s.stop = .idle
  · rw [Ring.Asked, hstop, hidle]
    trivial
  · apply h.asked.mono hstop
    · intro j hj
      rw [hrx] at hj ⊢
      exact ⟨hj, id⟩
    · intro j hj
      by_cases hji : j = i
      · rw [hji, c.self] at hj ⊢
        exact (c.cancelled hj).resolve_left hidle
      · rw [c.apart hji] at hj ⊢
        exact ⟨hj, id⟩

/-- With nothing in flight no slot changes. -/
theorem not_quiet (c : SlotStep w s s' i x) (h : Sound w s) :
    ¬ (s'.stop = .join false ∨ s'.freed) := by
  obtain ⟨-, -, hstop, -, -, hfreed, -⟩ := c.same
  rw [hstop, hfreed]
  intro hquiet
  rcases c.live with hidle | hbusy
  · rcases hquiet with hjoin | hfreed
    · rw [hidle] at hjoin
      cases hjoin
    · rw [h.ended (Or.inl hfreed)] at hidle
      cases hidle
  · rw [h.not_busy (h.quiet hquiet).1] at hbusy
    cases hbusy

end SlotStep

theorem Sound.of_slot (h : Sound w s) {s' : Ring} (x : TxSlot) (c : SlotStep w s s' i x) :
    Sound w s' := by
  obtain ⟨hrx, hrxin, hstop, hstopping, hactive, hfreed, hleft⟩ := c.same
  refine ⟨c.busy h, ?_, c.flying h, c.wire, c.sends h, c.distinct h, c.reserved h, c.holders h,
    ?_, ?_, ?_, c.asked h, fun hquiet => absurd hquiet (c.not_quiet h), ?_, ?_⟩
  · intro j
    by_cases hj : j = i
    · rw [hj, c.self, c.owned]
    · rw [c.apart hj, h.owned]
  · intro hbefore j
    rw [hstop] at hbefore
    rw [c.device j]
    exact h.device hbefore j
  · rw [hrxin, h.receiving, Ring.receiving, Ring.receiving, hrx]
  · rw [hstop, hstopping, hactive]
    exact h.stopping
  · rw [hfreed, hleft, hstop]
    exact h.ended
  · rw [hstop, hleft, hfreed, hrx]
    simp only [c.device]
    exact h.left

theorem Sound.idle_of_running (h : Sound w s) (hgo : s.stopping = false) : s.stop = .idle := by
  by_contra hne
  simp [h.stopping.1.mpr hne] at hgo

theorem Sound.scan (h : Sound w s) (buf : Bytes) (nframes : ℕ) (late : Bool) :
    Sound w (s.scan k buf nframes late) := by
  unfold Ring.scan
  split
  · exact h.set_call rfl
  · rename_i hgo
    have hidle : s.stop = .idle := by
      apply h.idle_of_running
      simp only [Bool.or_eq_true, not_or, Bool.not_eq_true] at hgo
      exact hgo.2
    split
    · rename_i idx hfree
      have hnot := not_busy_of_free_slot hfree
      have hmine : (s.tx idx).owned = false := by rw [h.owned, hnot, Bool.false_and]
      have hheld : ∀ l n, s.holds l ≠ some (idx, n) := by
        intro l n hl
        have hbusy := (h.reserved l idx n hl).1
        rw [hnot] at hbusy
        cases hbusy
      dsimp only
      refine h.of_slot _ ⟨rfl, rfl, Or.inl hidle, ?_, ?_, rfl, ?_, h.wire, ?_, ?_, ?_, ?_, ?_, ?_⟩
      · show s.tx_inflight + 1 + _ = _
        simp [hnot]
      · simp [hmine]
      · simp [hnot, Ring.set_call, Ring.set_tx]
      · intro hx
        rw [hmine] at hx
        cases hx
      · intro j _ hj
        exact ⟨(h.send j hj).1, rfl, fun hx => by rw [hmine] at hx; cases hx⟩
      · intro l n hl
        rcases holds_set_call hl with ⟨-, hx⟩ | ⟨-, hx⟩
        · cases hx
          exact ⟨rfl, rfl, rfl⟩
        · exact absurd hx (hheld l n)
      · intro l j n hj hl
        rcases holds_set_call hl with ⟨-, hx⟩ | ⟨-, hx⟩
        · cases hx
          exact absurd rfl hj
        · exact hx
      · intro l m a b hl hm
        rcases holds_set_call hl with ⟨hl, -⟩ | ⟨-, hx⟩
        · rcases holds_set_call hm with ⟨hm, -⟩ | ⟨-, hx⟩
          · rw [hl, hm]
          · exact absurd hx (hheld m b)
        · exact absurd hx (hheld l a)
      · intro _
        exact Or.inl hidle
    · split
      · exact h.set_call rfl
      · exact h

/-- The copy is made into a slot that the call has reserved. -/
theorem Sound.copy (h : Sound w s) {idx : TxIdx} {buf : Bytes} {nframes : ℕ}
    (hk : s.calls[k]? = some (.copy idx buf nframes)) : Sound w (s.copy k idx buf nframes) := by
  have hslot : s.holds k = some (idx, nframes) := holds_of_call hk
  obtain ⟨hbusy, hsub, hframes⟩ := h.reserved k idx nframes hslot
  have hmine := h.not_owned hslot
  have hheld : ∀ l x, (s.copy k idx buf nframes).holds l = some x → s.holds l = some x := by
    intro l x hl
    rcases holds_set_call hl with ⟨hlk, hx⟩ | ⟨-, hx⟩
    · rw [hlk, hslot]
      exact hx
    · exact hx
  refine h.of_slot { s.tx idx with buf } ⟨rfl, rfl, Or.inr hbusy, rfl, h.owned idx, rfl, ?_, h.wire,
    ?_, ?_, ?_, ?_, ?_, ?_⟩
  · rfl
  · intro hx
    rw [hmine] at hx
    cases hx
  · intro j _ hj
    exact ⟨(h.send j hj).1, rfl, fun hx => by rw [hmine] at hx; cases hx⟩
  · intro l n hl
    exact h.reserved l idx n (hheld l _ hl)
  · intro l j n _ hl
    exact hheld l _ hl
  · intro l m a b hl hm
    exact h.exclusive l m idx a b (hheld l _ hl) (hheld m _ hm)
  · intro hx
    rw [hmine] at hx
    cases hx

/-- The slot goes to libusb, which only a ring that is not being stopped lets happen, or back to
the free ones. -/
theorem Sound.submit (h : Sound w s) {idx : TxIdx} {nframes : ℕ} (ok : Bool)
    (hk : s.calls[k]? = some (.submit idx nframes)) : Sound w (s.submit k idx nframes ok) := by
  have hslot : s.holds k = some (idx, nframes) := holds_of_call hk
  obtain ⟨hbusy, hsub, hframes⟩ := h.reserved k idx nframes hslot
  have hmine := h.not_owned hslot
  have hheld : ∀ l x rc, (s.set_call k (.returned rc)).holds l = some x →
      s.holds l = some x ∧ x.1 ≠ idx := by
    intro l x rc hl
    rcases holds_set_call hl with ⟨-, hx⟩ | ⟨hlk, hx⟩
    · cases hx
    · refine ⟨hx, fun hxi => ?_⟩
      subst hxi
      exact hlk (h.exclusive l k _ _ _ hx hslot)
  unfold Ring.submit
  dsimp only
  split
  · refine h.of_slot { s.tx idx with busy := false } ⟨rfl, rfl, Or.inr hbusy, ?_, ?_, rfl, ?_,
      h.wire, ?_, ?_, ?_, ?_, ?_, ?_⟩
    · simp [Ring.set_call, Ring.set_tx, hbusy]
    · simp [hmine]
    · simp [Ring.set_call, Ring.set_tx, hsub]
    · intro hx
      rw [hmine] at hx
      cases hx
    · intro j _ hj
      exact ⟨(h.send j hj).1, rfl, fun hx => by rw [hmine] at hx; cases hx⟩
    · intro l n hl
      exact absurd rfl (hheld l _ _ hl).2
    · intro l j n _ hl
      exact (hheld l _ _ hl).1
    · intro l m a b hl _
      exact absurd rfl (hheld l _ _ hl).2
    · intro hx
      rw [hmine] at hx
      cases hx
  · rename_i hgo
    have hidle : s.stop = .idle := by
      apply h.idle_of_running
      simp only [Bool.or_eq_true, not_or, Bool.not_eq_true] at hgo
      exact hgo.1
    have hold : ∀ n, n < s.tx_submitted →
        Function.update s.sends s.tx_submitted { frames := nframes } n = s.sends n :=
      fun n hn => Function.update_of_ne (by omega) ..
    refine h.of_slot { s.tx idx with
      submitted := true, owned := true, cancelled := false, send := s.tx_submitted } ⟨rfl, rfl,
      Or.inr hbusy, ?_, ?_, rfl, ?_, ?_, ?_, ?_, ?_, ?_, ?_, ?_⟩
    · simp [Ring.set_call, Ring.set_tx]
    · simp [hbusy]
    · simp [Ring.set_call, Ring.set_tx, hbusy, hsub]
      omega
    · show s.tx_wire_failed = w + ∑ n ∈ Finset.range (s.tx_submitted + 1), _
      have hsame : ∀ n ∈ Finset.range s.tx_submitted,
          (Function.update s.sends s.tx_submitted { frames := nframes } n).lost =
            (s.sends n).lost :=
        fun n hn => by rw [hold n (Finset.mem_range.mp hn)]
      rw [Finset.sum_range_succ, h.wire, ← Finset.sum_congr rfl hsame]
      simp [Ring.set_call, Ring.set_tx, Send.lost]
    · intro _
      refine ⟨Nat.lt_succ_self _, ?_⟩
      show Function.update s.sends s.tx_submitted _ s.tx_submitted = _
      rw [Function.update_self, hframes, h.device (by rw [hidle]; rfl)]
      rfl
    · intro j _ hj
      have hlt := (h.send j hj).1
      exact ⟨Nat.lt_succ_of_lt hlt, hold _ hlt, fun _ => Nat.ne_of_lt hlt⟩
    · intro l n hl
      exact absurd rfl (hheld l _ _ hl).2
    · intro l j n _ hl
      exact (hheld l _ _ hl).1
    · intro l m a b hl _
      exact absurd rfl (hheld l _ _ hl).2
    · intro _
      exact Or.inl hidle

theorem Sound.call_step (h : Sound w s) (k : ℕ) (late ok : Bool) :
    Sound w (s.call_step k late ok) := by
  unfold Ring.call_step
  split
  · exact h
  · split
    · exact h.scan _ _ late
    · next hk => exact h.copy hk
    · next hk => exact h.submit ok hk
    · exact h
    · exact h

end devourer.mt7612u
