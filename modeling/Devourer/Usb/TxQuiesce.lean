-- Asynchronous sends and their end: the calls of `tx_async`, the completion
-- callback and `quiesce_tx`. A step is one atomic operation, one section under
-- `_tx_mu` or one call of libusb or the allocator.
import Devourer.Lib.Runs
import Mathlib.Data.Int.Notation
import Mathlib.Data.List.Nodup
import Mathlib.Tactic.Ring

namespace devourer.usb

/-! ## Sends -/

/-- The step of a call of `tx_async`, and then of its transfer, that is next. -/
inductive Tx
  /-- Past the test of the latch. -/
  | pump
  | alloc_transfer
  | alloc_payload
  | drop_transfer
  | register
  | count
  | submit
  /-- Libusb has the transfer, and the call has returned. -/
  | flying
  | erase
  | free_payload
  | free_transfer
  | reap
  | undo_erase
  | undo_count
  | undo_payload
  | undo_transfer
  | no_transfer
  | no_payload
  | ended
  deriving DecidableEq

/-- The step of `quiesce_tx` that is next. -/
inductive Quiesce
  | latch
  | snapshot
  | cancel (pending : List ℕ)
  | drain
  | residual
  /-- With the last value that it read. -/
  | returned (inflight : ℤ)
  deriving DecidableEq

inductive HeapOp
  | alloc_transfer
  | alloc_payload
  | free_transfer
  | free_payload
  deriving DecidableEq

/-- A call and its transfer have the number under which the call stands in `calls`. -/
structure TxState where
  calls : List Tx := []
  tx_shutdown : Bool := false
  tx_inflight : ℤ := 0
  tx_live : List ℕ := []
  quiesce : Quiesce := .latch
  /-- What was allocated and freed, the last first. -/
  heap : List (HeapOp × ℕ) := []
  deriving DecidableEq

def max_inflight : ℤ := 256

/-- Where the call goes on. `ok` is the outcome of a call of libusb or the allocator. -/
def Tx.next (inflight : ℤ) (ok : Bool) : Tx → Tx
  | .pump => if max_inflight ≤ inflight ∧ ok then .pump else .alloc_transfer
  | .alloc_transfer => if ok then .alloc_payload else .no_transfer
  | .alloc_payload => if ok then .register else .drop_transfer
  | .drop_transfer => .no_payload
  | .register => .count
  | .count => .submit
  | .submit => if ok then .flying else .undo_erase
  | .flying => .erase
  | .erase => .free_payload
  | .free_payload => .free_transfer
  | .free_transfer => .reap
  | .reap => .ended
  | .undo_erase => .undo_count
  | .undo_count => .undo_payload
  | .undo_payload => .undo_transfer
  | .undo_transfer => .ended
  | .no_transfer => .no_transfer
  | .no_payload => .no_payload
  | .ended => .ended

namespace TxState

/-- What the step of call `i` does to the shared state. -/
def effect (s : TxState) (i : ℕ) (ok : Bool) : Tx → TxState
  | .alloc_transfer => if ok then { s with heap := (.alloc_transfer, i) :: s.heap } else s
  | .alloc_payload => if ok then { s with heap := (.alloc_payload, i) :: s.heap } else s
  | .register => { s with tx_live := s.tx_live ++ [i] }
  | .count => { s with tx_inflight := s.tx_inflight + 1 }
  | .erase | .undo_erase => { s with tx_live := s.tx_live.erase i }
  | .free_payload | .undo_payload => { s with heap := (.free_payload, i) :: s.heap }
  | .drop_transfer | .free_transfer | .undo_transfer =>
    { s with heap := (.free_transfer, i) :: s.heap }
  | .reap | .undo_count => { s with tx_inflight := s.tx_inflight - 1 }
  | .pump | .submit | .flying | .no_transfer | .no_payload | .ended => s

def call_step (s : TxState) (i : ℕ) (ok : Bool) : TxState :=
  match s.calls[i]? with
  | none => s
  | some stage => { s.effect i ok stage with calls := s.calls.set i (stage.next s.tx_inflight ok) }

/-- A call of `tx_async` gets past the latch, or is refused. -/
def tx_async (s : TxState) : TxState :=
  if s.tx_shutdown then s else { s with calls := s.calls ++ [.pump] }

/-- `goon` says that the deadline is still to come and libusb has handled its events. -/
def quiesce_step (s : TxState) (goon : Bool) : TxState :=
  match s.quiesce with
  | .latch => { s with tx_shutdown := true, quiesce := .snapshot }
  | .snapshot => { s with quiesce := .cancel s.tx_live }
  | .cancel (_ :: rest) => { s with quiesce := .cancel rest }
  | .cancel [] => { s with quiesce := .drain }
  | .drain => if 0 < s.tx_inflight && goon then s else { s with quiesce := .residual }
  | .residual => { s with quiesce := .returned s.tx_inflight }
  | .returned _ => s

inductive Act
  | tx_async
  | call (i : ℕ) (ok : Bool)
  | quiesce (goon : Bool)

def step (s : TxState) : Act → TxState
  | .tx_async => s.tx_async
  | .call i ok => s.call_step i ok
  | .quiesce goon => s.quiesce_step goon

def run (acts : List Act) : TxState := Runs.after step {} acts

end TxState

/-! ## What is counted -/

/-- The transfer is counted. -/
def Tx.counted : Tx → Bool
  | .submit | .flying | .erase | .free_payload | .free_transfer | .reap | .undo_erase
  | .undo_count => true
  | _ => false

def Tx.listed : Tx → ℕ
  | .count | .submit | .flying | .erase | .undo_erase => 1
  | _ => 0

/-- The call has done this when it is at a stage. -/
def Tx.did : HeapOp → Tx → ℕ
  | .alloc_transfer, .pump | .alloc_transfer, .alloc_transfer | .alloc_transfer, .no_transfer => 0
  | .alloc_transfer, _ => 1
  | .alloc_payload, .pump | .alloc_payload, .alloc_transfer | .alloc_payload, .no_transfer
  | .alloc_payload, .alloc_payload | .alloc_payload, .drop_transfer
  | .alloc_payload, .no_payload => 0
  | .alloc_payload, _ => 1
  | .free_transfer, .no_payload | .free_transfer, .reap | .free_transfer, .ended => 1
  | .free_transfer, _ => 0
  | .free_payload, .free_transfer | .free_payload, .reap | .free_payload, .undo_transfer
  | .free_payload, .ended => 1
  | .free_payload, _ => 0

/-- The call is over, and its transfer with it. -/
def Tx.over : Tx → Bool
  | .no_transfer | .no_payload | .ended => true
  | _ => false

/-- Past the latch, with the transfer not yet counted. -/
def Tx.late : Tx → Bool
  | .pump | .alloc_transfer | .alloc_payload | .register | .count => true
  | _ => false

namespace TxState

/-- A value of the stage that a call has, 0 when there is no such call. -/
def at_call (s : TxState) (value : Tx → ℕ) (i : ℕ) : ℕ := s.calls[i]?.elim 0 value

/-- The count of the transfers, their list and the heap are those of the stages. -/
structure Kept (s : TxState) : Prop where
  inflight : s.tx_inflight = s.calls.countP Tx.counted
  live : ∀ i, s.tx_live.count i = s.at_call Tx.listed i
  heap : ∀ op i, s.heap.count (op, i) = s.at_call (Tx.did op) i

variable {s : TxState}

theorem next_pump (inflight : ℤ) (ok : Bool) :
    Tx.pump.next inflight ok = .pump ∨ Tx.pump.next inflight ok = .alloc_transfer := by
  simp only [Tx.next]
  split <;> simp

theorem effect_inflight (i : ℕ) (ok : Bool) (stage : Tx) :
    (s.effect i ok stage).tx_inflight + (if stage.counted then 1 else 0) =
      s.tx_inflight + if (stage.next s.tx_inflight ok).counted then 1 else 0 := by
  cases stage with
  | pump => rcases next_pump s.tx_inflight ok with h | h <;> rw [h] <;> rfl
  | _ => cases ok <;> simp [effect, Tx.next, Tx.counted]

theorem effect_live (i : ℕ) (ok : Bool) (stage : Tx) (h : s.tx_live.count i = stage.listed) :
    (s.effect i ok stage).tx_live.count i = (stage.next s.tx_inflight ok).listed := by
  cases stage with
  | pump => rcases next_pump s.tx_inflight ok with hn | hn <;> rw [hn] <;> exact h
  | _ => cases ok <;> simp_all [effect, Tx.next, Tx.listed]

theorem effect_live_other {i k : ℕ} (hk : k ≠ i) (ok : Bool) (stage : Tx) :
    (s.effect i ok stage).tx_live.count k = s.tx_live.count k := by
  cases stage <;> cases ok <;> simp [effect, List.count_erase_of_ne hk, Ne.symm hk]

theorem effect_heap (op : HeapOp) (i : ℕ) (ok : Bool) (stage : Tx)
    (h : s.heap.count (op, i) = stage.did op) :
    (s.effect i ok stage).heap.count (op, i) = (stage.next s.tx_inflight ok).did op := by
  cases stage with
  | pump =>
    rcases next_pump s.tx_inflight ok with hn | hn <;> rw [hn] <;> cases op <;> exact h
  | _ => cases op <;> cases ok <;> simp_all [effect, Tx.next, Tx.did]

theorem effect_heap_other (op : HeapOp) {i k : ℕ} (hk : k ≠ i) (ok : Bool) (stage : Tx) :
    (s.effect i ok stage).heap.count (op, k) = s.heap.count (op, k) := by
  cases stage <;> cases ok <;> simp [effect, Ne.symm hk]

/-- A count that the step of call `i` brings to the value of the next stage. -/
theorem at_call_set {value : Tx → ℕ} {i : ℕ} {stage next : Tx} (h : s.calls[i]? = some stage)
    {count count' : ℕ → ℕ} (hcount : ∀ k, count k = s.at_call value k)
    (hi : count i = value stage → count' i = value next) (hk : ∀ k ≠ i, count' k = count k)
    (k : ℕ) : count' k = ((s.calls.set i next)[k]?).elim 0 value := by
  obtain ⟨hlt, -⟩ := List.getElem?_eq_some_iff.mp h
  by_cases hki : k = i
  · subst hki
    rw [List.getElem?_set_self hlt, Option.elim]
    apply hi
    rw [hcount, at_call, h]
    rfl
  · rw [List.getElem?_set_ne (Ne.symm hki), hk k hki]
    exact hcount k

theorem kept_call (h : s.Kept) (i : ℕ) (ok : Bool) : (s.call_step i ok).Kept := by
  unfold call_step
  rcases hcall : s.calls[i]? with - | stage
  · exact h
  obtain ⟨hlt, hget⟩ := List.getElem?_eq_some_iff.mp hcall
  constructor
  · have hset := List.countP_set (p := Tx.counted) (a := stage.next s.tx_inflight ok) hlt
    rw [hget] at hset
    have hpos : stage.counted → 0 < s.calls.countP Tx.counted := by
      intro hc
      exact List.countP_pos_iff.mpr ⟨stage, hget ▸ List.getElem_mem hlt, hc⟩
    have hinflight := h.inflight
    have heffect := effect_inflight (s := s) i ok stage
    dsimp only
    rw [hset]
    split at heffect <;> split at heffect <;> grind
  · exact at_call_set hcall h.live (effect_live i ok stage) fun k hk =>
      effect_live_other hk ok stage
  · intro op
    exact at_call_set hcall (h.heap op) (effect_heap op i ok stage)
      fun k hk => effect_heap_other op hk ok stage

theorem kept_tx_async (h : s.Kept) : s.tx_async.Kept := by
  unfold tx_async
  split
  · exact h
  · have hat : ∀ value : Tx → ℕ, value .pump = 0 → ∀ i,
        s.at_call value i = ((s.calls ++ [.pump])[i]?).elim 0 value := by
      intro value hpump i
      rcases Nat.lt_trichotomy i s.calls.length with hlt | rfl | hgt
      · rw [List.getElem?_append_left hlt]
        rfl
      · simp [at_call, hpump]
      · have hge : s.calls.length ≤ i := hgt.le
        have hge' : (s.calls ++ [Tx.pump]).length ≤ i := by
          rw [List.length_append]
          exact hgt
        rw [at_call, List.getElem?_eq_none hge, List.getElem?_eq_none hge']
    constructor
    · simp [h.inflight, Tx.counted]
    · intro i
      exact (h.live i).trans (hat _ rfl i)
    · intro op i
      exact (h.heap op i).trans (hat _ (by cases op <;> rfl) i)

/-- What a step of `quiesce_tx` writes. -/
theorem quiesce_writes (goon : Bool) : ∃ tx_shutdown quiesce,
    s.quiesce_step goon = { s with tx_shutdown, quiesce } := by
  unfold quiesce_step
  split
  · exact ⟨_, _, rfl⟩
  · exact ⟨_, _, rfl⟩
  · exact ⟨_, _, rfl⟩
  · exact ⟨_, _, rfl⟩
  · split <;> exact ⟨_, _, rfl⟩
  · exact ⟨_, _, rfl⟩
  · exact ⟨_, _, rfl⟩

theorem kept_step (h : s.Kept) (act : Act) : (s.step act).Kept := by
  cases act with
  | tx_async => exact kept_tx_async h
  | call i ok => exact kept_call h i ok
  | quiesce goon =>
    obtain ⟨_, _, heq⟩ := quiesce_writes (s := s) goon
    dsimp only [step]
    rw [heq]
    exact ⟨h.inflight, h.live, h.heap⟩

theorem kept_run (acts : List Act) : (run acts).Kept := by
  apply Runs.after_keeps
  · exact ⟨rfl, fun _ => rfl, fun _ _ => rfl⟩
  · intro s act h
    exact kept_step h act

/-- The transfers are counted, and each is freed once, with its payload. -/
structure Accounted (s : TxState) : Prop where
  inflight : s.tx_inflight = s.calls.countP Tx.counted
  once : ∀ op i, s.heap.count (op, i) ≤ 1
  freed : ∀ i stage, s.calls[i]? = some stage → stage.over →
    s.heap.count (.free_transfer, i) = s.heap.count (.alloc_transfer, i) ∧
      s.heap.count (.free_payload, i) = s.heap.count (.alloc_payload, i)
  /-- Nothing that was not allocated is freed. -/
  owned : ∀ i, s.heap.count (.free_transfer, i) ≤ s.heap.count (.alloc_transfer, i) ∧
    s.heap.count (.free_payload, i) ≤ s.heap.count (.alloc_payload, i)
  /-- Libusb has only transfers that are not freed. -/
  flying : ∀ i, s.calls[i]? = some .flying →
    s.heap.count (.free_transfer, i) = 0 ∧ s.heap.count (.free_payload, i) = 0

theorem Kept.accounted (h : s.Kept) : s.Accounted := by
  constructor
  · exact h.inflight
  · intro op i
    rw [h.heap, at_call]
    rcases s.calls[i]? with - | stage
    · simp
    · cases op <;> cases stage <;> simp [Tx.did]
  · intro i stage hcall hover
    simp only [h.heap, at_call, hcall, Option.elim]
    cases stage <;> simp [Tx.over] at hover <;> exact ⟨rfl, rfl⟩
  · intro i
    simp only [h.heap, at_call]
    rcases s.calls[i]? with - | stage
    · simp
    · cases stage <;> simp [Tx.did]
  · intro i hcall
    simp [h.heap, at_call, hcall, Tx.did]

/-! ## The end of the sends -/

/-- When `quiesce_tx` reads 0 as it returns, no call stands between the latch and the count. -/
def Settled (s : TxState) : Act → Prop
  | .quiesce _ => s.quiesce = .residual → s.tx_inflight = 0 → ∀ stage ∈ s.calls, stage.late = false
  | _ => True

instance (act : Act) : Decidable (s.Settled act) := by
  unfold Settled
  cases act <;> infer_instance

/-- After `quiesce_tx` has returned with nothing in flight, no call will submit a transfer. -/
structure Final (s : TxState) : Prop where
  latched : s.quiesce ≠ .latch → s.tx_shutdown
  quiet : s.quiesce = .returned 0 → ∀ stage ∈ s.calls, stage.late = false ∧ stage.counted = false

theorem quiet_next (inflight : ℤ) (ok : Bool) {stage : Tx} (hlate : stage.late = false)
    (hcounted : stage.counted = false) :
    (stage.next inflight ok).late = false ∧ (stage.next inflight ok).counted = false := by
  cases stage <;> simp [Tx.late, Tx.counted] at hlate hcounted <;> exact ⟨rfl, rfl⟩

theorem effect_quiesce (i : ℕ) (ok : Bool) (stage : Tx) :
    (s.effect i ok stage).quiesce = s.quiesce ∧
      (s.effect i ok stage).tx_shutdown = s.tx_shutdown := by
  cases stage <;> cases ok <;> exact ⟨rfl, rfl⟩

theorem final_call (h : s.Final) (i : ℕ) (ok : Bool) : (s.call_step i ok).Final := by
  unfold call_step
  rcases hcall : s.calls[i]? with - | stage
  · exact h
  obtain ⟨hquiesce, hshutdown⟩ := effect_quiesce (s := s) i ok stage
  constructor
  · simpa only [hquiesce, hshutdown] using h.latched
  · simp only [hquiesce]
    intro hreturned stage' hmem
    have hquiet := h.quiet hreturned
    rcases List.mem_or_eq_of_mem_set hmem with hmem | rfl
    · exact hquiet stage' hmem
    · obtain ⟨hlate, hcounted⟩ := hquiet stage (List.mem_of_getElem? hcall)
      exact quiet_next _ ok hlate hcounted

theorem final_quiesce (h : s.Final) (hkept : s.Kept) (goon : Bool)
    (hsettled : s.Settled (.quiesce goon)) : (s.quiesce_step goon).Final := by
  have hlatched := h.latched
  unfold quiesce_step
  split
  · exact ⟨fun _ => rfl, by simp⟩
  · next hq => exact ⟨fun _ => hlatched (by simp [hq]), by simp⟩
  · next hq => exact ⟨fun _ => hlatched (by simp [hq]), by simp⟩
  · next hq => exact ⟨fun _ => hlatched (by simp [hq]), by simp⟩
  · next hq =>
    split
    · exact h
    · exact ⟨fun _ => hlatched (by simp [hq]), by simp⟩
  · next hq =>
    refine ⟨fun _ => hlatched (by simp [hq]), ?_⟩
    intro hreturned stage hmem
    have hzero : s.tx_inflight = 0 := by simpa using hreturned
    have hcount := hkept.inflight
    rw [hzero] at hcount
    have hnone := List.countP_eq_zero.mp (Int.natCast_eq_zero.mp hcount.symm) stage hmem
    exact ⟨hsettled hq hzero stage hmem, by simpa using hnone⟩
  · exact h

theorem final_step (h : s.Final) (hkept : s.Kept) (act : Act) (hsettled : s.Settled act) :
    (s.step act).Final := by
  cases act with
  | tx_async =>
    dsimp only [step, tx_async]
    split
    · exact h
    · next hshutdown =>
      refine ⟨h.latched, fun hreturned => ?_⟩
      exact absurd (h.latched (by rw [show s.quiesce = _ from hreturned]; simp)) hshutdown
  | call i ok => exact final_call h i ok
  | quiesce goon => exact final_quiesce h hkept goon hsettled

theorem final_run (acts : List Act) (h : Runs.Along step Settled {} acts) : (run acts).Final := by
  have hkeeps : (run acts).Kept ∧ (run acts).Final := by
    apply Runs.after_keeps_along (P := fun s : TxState => s.Kept ∧ s.Final) step {} _ _ acts h
    · exact ⟨kept_run [], by simp, by simp⟩
    · rintro s act hsettled ⟨hkept, hfinal⟩
      exact ⟨kept_step hkept act, final_step hfinal hkept act hsettled⟩
  exact hkeeps.2

/-! ## How a send gets past the end -/

/-- The run can go on to a submission of the transfer of call `i`. -/
def Flies (s : TxState) (i : ℕ) : Prop :=
  ∃ more, Runs.Along step Settled s more ∧ (Runs.after step s more).quiesce = s.quiesce ∧
    (Runs.after step s more).calls[i]? = some .flying

theorem call_step_at {i : ℕ} {stage : Tx} (h : s.calls[i]? = some stage) (ok : Bool) :
    (s.call_step i ok).calls[i]? = some (stage.next s.tx_inflight ok) ∧
      (s.call_step i ok).quiesce = s.quiesce := by
  obtain ⟨hlt, -⟩ := List.getElem?_eq_some_iff.mp h
  unfold call_step
  rw [h]
  exact ⟨List.getElem?_set_self hlt, (effect_quiesce i ok stage).1⟩

theorem flies_call {i : ℕ} {stage : Tx} (h : s.calls[i]? = some stage) (ok : Bool)
    (hflies : (s.call_step i ok).Flies i) : s.Flies i := by
  obtain ⟨more, halong, hquiesce, hflying⟩ := hflies
  refine ⟨.call i ok :: more, ⟨trivial, halong⟩, ?_, hflying⟩
  exact hquiesce.trans (call_step_at h ok).2

/-- A call that has passed the latch submits its transfer, whatever `quiesce_tx` has done. -/
theorem late_flies {i : ℕ} {stage : Tx} (h : s.calls[i]? = some stage) (hlate : stage.late) :
    s.Flies i := by
  have hflying : ∀ s : TxState, s.calls[i]? = some .flying → s.Flies i := by
    intro s h
    exact ⟨[], trivial, rfl, h⟩
  have hsubmit : ∀ s : TxState, s.calls[i]? = some .submit → s.Flies i := by
    intro s h
    exact flies_call h true (hflying _ (call_step_at h true).1)
  have hcount : ∀ s : TxState, s.calls[i]? = some .count → s.Flies i := by
    intro s h
    exact flies_call h true (hsubmit _ (call_step_at h true).1)
  have hregister : ∀ s : TxState, s.calls[i]? = some .register → s.Flies i := by
    intro s h
    exact flies_call h true (hcount _ (call_step_at h true).1)
  have hpayload : ∀ s : TxState, s.calls[i]? = some .alloc_payload → s.Flies i := by
    intro s h
    exact flies_call h true (hregister _ (call_step_at h true).1)
  have htransfer : ∀ s : TxState, s.calls[i]? = some .alloc_transfer → s.Flies i := by
    intro s h
    exact flies_call h true (hpayload _ (call_step_at h true).1)
  cases stage <;> simp [Tx.late] at hlate
  · apply flies_call h false
    apply htransfer
    rw [(call_step_at h false).1]
    simp [Tx.next]
  · exact htransfer s h
  · exact hpayload s h
  · exact hregister s h
  · exact hcount s h

/-- The transfers are accounted for in every run. After `quiesce_tx` has returned with nothing in
flight nothing is submitted, as long as it does not return so while a call stands between the latch
and the count; and whenever it does, that call may submit its transfer. -/
theorem quiesce_is_final_unless_a_call_is_late (acts : List Act) :
    (run acts).Accounted ∧
      (Runs.Along step Settled {} acts → (run acts).quiesce = .returned 0 →
        ∀ stage ∈ (run acts).calls, stage.late = false ∧ stage.counted = false) ∧
      ∀ act, ¬(run acts).Settled act → ∃ more, Runs.Along step Settled (run (acts ++ [act])) more ∧
        (run (acts ++ act :: more)).quiesce = .returned 0 ∧
          .flying ∈ (run (acts ++ act :: more)).calls := by
  refine ⟨(kept_run acts).accounted, fun h => (final_run acts h).quiet, ?_⟩
  intro act hact
  cases act with
  | quiesce goon =>
    obtain ⟨hq, hzero, stage, hmem, hlate⟩ : (run acts).quiesce = .residual ∧
        (run acts).tx_inflight = 0 ∧ ∃ stage ∈ (run acts).calls, stage.late = true := by
      simpa [Settled] using hact
    obtain ⟨i, hcall⟩ := List.mem_iff_getElem?.mp hmem
    have hstep : (run acts).step (.quiesce goon) = { run acts with quiesce := .returned 0 } := by
      simp [step, quiesce_step, hq, hzero]
    have hcall' : ((run acts).step (.quiesce goon)).calls[i]? = some stage := by
      rw [hstep]
      exact hcall
    obtain ⟨more, halong, hquiesce, hflying⟩ := late_flies hcall' hlate
    refine ⟨more, ?_, ?_, ?_⟩
    · rw [run, Runs.after_snoc]
      exact halong
    · rw [run, Runs.after_append, Runs.after_cons]
      exact hquiesce.trans (by rw [hstep])
    · rw [run, Runs.after_append, Runs.after_cons]
      exact List.mem_of_getElem? hflying
  | _ => exact absurd trivial hact

/-- A transfer that is cancelled and reaped before the end. -/
theorem a_cancelled_send_is_final :
    ∀ stage ∈ (run [.tx_async, .call 0 true, .call 0 true, .call 0 true, .call 0 true, .call 0 true,
      .call 0 true, .quiesce true, .quiesce true, .quiesce true, .quiesce true, .quiesce true,
      .call 0 true, .call 0 true, .call 0 true, .call 0 true, .call 0 true, .quiesce true,
      .quiesce true]).calls, stage.late = false ∧ stage.counted = false := by
  refine (quiesce_is_final_unless_a_call_is_late _).2.1 ?_ (by decide)
  refine ⟨?_, ?_, ?_, ?_, ?_, ?_, ?_, ?_, ?_, ?_, ?_, ?_, ?_, ?_, ?_, ?_, ?_, ?_, ?_, trivial⟩ <;>
    decide

/-- A call passes the latch, `quiesce_tx` runs and returns, and the call submits its transfer. -/
theorem a_late_call_submits : ¬∀ acts, (run acts).quiesce = .returned 0 →
    .flying ∉ (run acts).calls := by
  intro h
  apply h [.tx_async, .quiesce true, .quiesce true, .quiesce true, .quiesce true, .quiesce true,
    .call 0 true, .call 0 true, .call 0 true, .call 0 true, .call 0 true, .call 0 true]
  all_goals decide

end TxState

end devourer.usb
