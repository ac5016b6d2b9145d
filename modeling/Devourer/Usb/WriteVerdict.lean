-- What the end of a batch of writes reports: that a register write was lost, if one
-- was, and nothing else.
import Devourer.Usb.WriteLedger

namespace devourer.usb.pipelined

/-! ## The transport between two steps -/

/-- Nothing that is in flight is still to be waited for. -/
def Pool.Settled (s : Pool) : Prop := s.abandoned = true ∨ ∀ w, (s.slot w).inflight = false

/-- `ending` says that the outermost `write_batch_end` is under way. -/
structure Pool.Sound (c : Prop) (n : ℕ) (s : Pool) (hand : List ℕ) (writing ending : Bool)
    (looked : ℕ) : Prop where
  slots : Slots s hand
  ledger : Ledger c n s writing looked
  depth : s.batch_open = (ending || decide (0 < s.batch_depth))
  last : ending = true → s.batch_depth = 0
  batching : s.batch = true → s.batch_open = true ∧ s.abandoned = false

namespace Pool.Sound

variable {c : Prop} {n : ℕ} {s : Pool} {hand : List ℕ} {writing ending : Bool} {looked w : ℕ}

theorem anew (h : s.Sound c n hand writing ending looked) : s.Sound c n hand writing ending 0 :=
  { h with ledger := h.ledger.anew }

/-- Inside a batch, a begin or an end only counts. -/
theorem recount (h : s.Sound c n hand writing ending looked) (depth : ℕ) (ending' : Bool)
    (hdepth : s.batch_open = (ending' || decide (0 < depth))) (hlast : ending' = true → depth = 0) :
    Pool.Sound c n { s with batch_depth := depth } hand writing ending' looked where
  slots := h.slots.rearranged (fun _ => rfl) h.slots.calling rfl rfl (List.Perm.refl _)
  ledger := h.ledger.same rfl rfl rfl rfl rfl rfl
  depth := hdepth
  last := hlast
  batching := h.batching

theorem settled_of_drained (h : s.Sound c n hand writing ending looked) (h0 : ¬ 0 < s.inflight) :
    s.Settled := .inr (h.slots.quiet h0)

theorem take_slot (h : s.Sound c n [] writing ending looked) {rest : List ℕ}
    (hfree : s.free = w :: rest) : (s.take_slot w rest).Sound c n [w] writing ending looked where
  slots := h.slots.take_slot hfree
  ledger := by
    have hw := (h.slots.at_rest w (by simp [hfree])).2
    exact h.ledger.update_at_rest rfl rfl (h.slots.out_of_at_rest hw) hw rfl rfl rfl rfl rfl
  depth := h.depth
  last := h.last
  batching := h.batching

theorem submitted {a : Access} (h : s.Sound c s.generation [w] (!a.is_read) ending looked)
    (habandoned : s.abandoned = false) (hopen : s.batch_open = true) :
    (s.submitted w a).Sound c s.generation [] false ending 0 where
  slots := h.slots.submitted a
  ledger := by
    have hw := (h.slots.at_rest w (by simp)).2
    exact h.ledger.submitted hw (h.slots.out_of_at_rest hw) habandoned hopen
  depth := h.depth
  last := h.last
  batching := h.batching

theorem refused (h : s.Sound c n [w] writing ending looked) (a : Access) :
    (s.refused w a).Sound c n [] writing ending looked where
  slots := h.slots.refused a
  ledger := by
    have hw := (h.slots.at_rest w (by simp)).2
    exact h.ledger.update_at_rest rfl rfl (h.slots.out_of_at_rest hw) hw rfl rfl rfl rfl rfl
  depth := h.depth
  last := h.last
  batching := h.batching

theorem controlled (h : s.Sound c n hand true ending looked) (go : Bool) :
    (s.controlled go).Sound c n hand false ending 0 where
  slots := h.slots.rearranged (fun _ => rfl) h.slots.calling rfl rfl (List.Perm.refl _)
  ledger := h.ledger.controlled go
  depth := h.depth
  last := h.last
  batching := h.batching

theorem issue (h : s.Sound c n hand false ending looked) :
    s.issue.Sound c n hand true ending looked where
  slots := h.slots.rearranged (fun _ => rfl) h.slots.calling rfl rfl (List.Perm.refl _)
  ledger := h.ledger.issue
  depth := h.depth
  last := h.last
  batching := h.batching

theorem retire (h : s.Sound c n hand writing ending w) (habandoned : s.abandoned = false) :
    (s.retire w).Sound c n hand writing ending (w + 1) ∧ (s.retire w).abandoned = false ∧
      (s.retire w).generation = s.generation := by
  have hledger := h.ledger.retire habandoned
  unfold Pool.retire at hledger ⊢
  split at hledger
  · next hw =>
    rw [if_pos hw]
    exact ⟨⟨h.slots.rearranged (fun _ => rfl) h.slots.calling rfl rfl (List.Perm.refl _), hledger,
      h.depth, h.last, h.batching⟩, habandoned, rfl⟩
  · next hw =>
    rw [if_neg hw]
    exact ⟨⟨h.slots, hledger, h.depth, h.last, h.batching⟩, habandoned, rfl⟩

theorem abandon (h : s.Sound c n hand writing ending looked) (hall : kAsyncWriteDepth ≤ looked) :
    s.abandon.Sound c n hand writing ending 0 where
  slots := h.slots.rearranged (fun _ => rfl) h.slots.calling rfl rfl (List.Perm.refl _)
  ledger := h.ledger.abandon fun w hw => Nat.lt_of_lt_of_le (h.slots.inside w hw) hall
  depth := h.depth
  last := h.last
  batching := fun hb => absurd hb (by simp [Pool.abandon])

theorem batch_end (h : s.Sound c n hand writing true looked) (hsettled : s.Settled) :
    s.batch_end.Sound c n hand writing false looked where
  slots := h.slots.rearranged (fun _ => rfl) h.slots.calling rfl rfl (List.Perm.refl _)
  ledger := h.ledger.batch_end hsettled
  depth := by simp [Pool.batch_end, h.last rfl]
  last := fun hf => absurd hf (by simp)
  batching := fun hb => absurd hb (by simp [Pool.batch_end])

theorem opened (h : s.Sound c n [] false false looked) (hdepth : s.batch_depth = 0)
    (htimely : c → ∀ w, (s.slot w).callback ≠ .tested true) :
    s.opened.Sound c (n + 1) [] false false looked where
  slots := h.slots.rearranged (fun _ => rfl) h.slots.calling rfl rfl (List.Perm.refl _)
  ledger := h.ledger.opened (by simpa [hdepth] using h.depth) htimely
  depth := by simp [Pool.opened]
  last := fun hf => absurd hf (by simp)
  batching := fun hb => ⟨rfl, (h.batching hb).2⟩

theorem ensure_async_slots (h : s.Sound c n [] writing ending looked) (go : Bool) :
    (s.ensure_async_slots go).Sound c n [] writing ending looked := by
  have hslots := h.slots.ensure_async_slots go
  unfold Pool.ensure_async_slots at hslots ⊢
  split at hslots
  · next hb =>
    rw [if_pos hb]
    exact
    { slots := hslots
      ledger := h.ledger.same rfl rfl rfl rfl rfl rfl
      depth := h.depth
      last := h.last
      batching := h.batching }
  · next hb =>
    rw [if_neg hb]
    exact h

theorem batch_begin (h : s.Sound c n [] false false looked) (hopen : s.batch_open = true)
    (go : Bool) : (s.batch_begin go).Sound c n [] false false looked ∧
      (s.batch_begin go).generation = s.generation + 1 := by
  have hnext : Pool.Sound c n { s with generation := s.generation + 1 } [] false false looked :=
    { slots := h.slots.rearranged (fun _ => rfl) h.slots.calling rfl rfl (List.Perm.refl _)
      ledger := h.ledger.same rfl rfl rfl rfl rfl rfl
      depth := h.depth
      last := h.last
      batching := h.batching }
  have hready := hnext.ensure_async_slots go
  have hkept : (Pool.ensure_async_slots { s with generation := s.generation + 1 } go).batch_open =
        true ∧
      (Pool.ensure_async_slots { s with generation := s.generation + 1 } go).abandoned =
        s.abandoned ∧
      (Pool.ensure_async_slots { s with generation := s.generation + 1 } go).generation =
        s.generation + 1 := by
    unfold Pool.ensure_async_slots
    split <;> exact ⟨hopen, rfl, rfl⟩
  obtain ⟨hstill, habandoned, hgen⟩ := hkept
  simp only [Pool.batch_begin]
  split
  · exact ⟨hnext, rfl⟩
  · next ha =>
    split
    · exact ⟨
      { slots := hready.slots.rearranged (fun _ => rfl) hready.slots.calling rfl rfl
          (List.Perm.refl _)
        ledger := hready.ledger.same rfl rfl rfl rfl rfl rfl
        depth := hready.depth
        last := hready.last
        batching := fun _ => ⟨hstill, habandoned.trans (by simpa using ha)⟩ }, hgen⟩
    · exact ⟨hready, hgen⟩

end Pool.Sound

/-! ## The thread -/

def Ret.writing : Ret → Bool
  | .take a => !a.is_read
  | _ => false

/-- The call is the outermost `write_batch_end`. -/
def Ret.ending : Ret → Bool
  | .close => true
  | _ => false

def Flush.looked : Flush → ℕ
  | .retire w => w
  | _ => 0

def Pc.hand : Pc → List ℕ
  | .submit _ w => [w]
  | _ => []

/-- The last write is in the hand of the thread. -/
def Pc.writing : Pc → Bool
  | .take a | .take_wait a | .submit a _ | .control a => !a.is_read
  | .flush ret _ => ret.writing
  | _ => false

def Pc.ending : Pc → Bool
  | .flush ret _ => ret.ending
  | .close => true
  | _ => false

def Pc.looked : Pc → ℕ
  | .flush _ stage => stage.looked
  | _ => 0

/-- How far the number of the open batch is ahead of the generation. -/
def Pc.ahead : Pc → ℕ
  | .opening _ => 1
  | _ => 0

/-- What the thread goes by, apart from its slots and the errors. -/
def Pool.flags (s : Pool) : Bool × ℕ × Bool × Bool × ℕ × ℕ :=
  (s.batch_open, s.batch_depth, s.batch, s.abandoned, s.since, s.generation)

/-- What a step of the thread finds. -/
def Pc.Finds (c : Prop) (s : Pool) : Pc → Prop
  | .opening _ => s.batch_open = true ∧ ∀ w, s.pending w → (s.slot w).call < s.since
  | .take _ | .take_wait _ | .submit _ _ => s.abandoned = false ∧ s.batch_open = true
  | .flush _ stage => stage = .entry ∨ s.abandoned = false
  | .close => s.Settled
  | .ended ok => s.Settled ∧ (ok = true → NoLoss s.writes s.since) ∧
    (c → NoLoss s.writes s.since → ok = true)
  | _ => True

/-- The number of the open batch, which counts from the first store of its begin. -/
def WriteBatch.number (s : WriteBatch) : ℕ := s.generation + s.pc.ahead

structure WriteBatch.Sound (c : Prop) (s : WriteBatch) : Prop where
  pool : s.toPool.Sound c s.number s.pc.hand s.pc.writing s.pc.ending s.pc.looked
  finds : s.pc.Finds c s.toPool

namespace WriteBatch

variable {c : Prop} {s : WriteBatch}

/-- `flush_writes` returns. -/
theorem sound_back {ret : Ret} {looked : ℕ}
    (h : s.toPool.Sound c s.generation [] ret.writing ret.ending looked) (hsettled : s.Settled) :
    (s.back ret).Sound c := by
  have h := h.anew
  cases ret with
  | take a =>
    simp only [back]
    by_cases hgone : (s.abandoned || !s.batch) = true
    · rw [if_pos hgone]
      exact ⟨h, trivial⟩
    · rw [if_neg hgone]
      simp only [Bool.or_eq_true, Bool.not_eq_true', not_or, Bool.not_eq_true, Bool.not_eq_false]
        at hgone
      exact ⟨h, hgone.1, (h.batching hgone.2).1⟩
  | read n w => exact ⟨h, trivial⟩
  | close => exact ⟨h, hsettled⟩
  | call => exact ⟨h, trivial⟩

/-- A step that only moves the thread on, inside a flush. -/
theorem sound_in_flush {ret : Ret} {stage stage' : Flush} (before : ℕ)
    (h : s.toPool.Sound c s.generation [] ret.writing ret.ending stage.looked)
    (hstage : stage'.looked = 0) (habandoned : s.abandoned = false) :
    Sound c { s with before, pc := .flush ret stage' } := by
  have hpool := h.anew
  rw [← hstage] at hpool
  exact ⟨hpool, .inr habandoned⟩

theorem sound_flush {ret : Ret} {stage : Flush} (hpc : s.pc = .flush ret stage)
    (h : s.toPool.Sound c s.generation [] ret.writing ret.ending stage.looked)
    (hfinds : stage = .entry ∨ s.abandoned = false) (go : Bool) :
    (s.flush_step ret go stage).Sound c := by
  have hstay : s.Sound c := by
    refine ⟨?_, by rw [hpc]; exact hfinds⟩
    unfold number
    rw [hpc]
    exact h
  cases stage with
  | entry =>
    simp only [flush_step]
    by_cases ha : s.abandoned = true
    · rw [if_pos ha]
      exact sound_back h (.inl ha)
    · rw [if_neg ha]
      exact sound_in_flush s.before h rfl (by simpa using ha)
  | loop =>
    simp only [flush_step]
    have ha := hfinds.resolve_left (by simp)
    split
    · exact sound_in_flush s.completed h rfl ha
    · next h0 => exact sound_back h (h.settled_of_drained h0)
  | wait =>
    simp only [flush_step]
    have ha := hfinds.resolve_left (by simp)
    split
    · exact sound_in_flush s.before h rfl ha
    · split
      · exact hstay
      · exact sound_in_flush s.before h rfl ha
  | drain =>
    simp only [flush_step]
    have ha := hfinds.resolve_left (by simp)
    split
    · exact hstay
    · exact sound_in_flush s.before h rfl ha
  | verdict =>
    simp only [flush_step]
    have ha := hfinds.resolve_left (by simp)
    split
    · exact sound_in_flush s.before h rfl ha
    · next h0 => exact sound_back h (h.settled_of_drained h0)
  | retire w =>
    simp only [flush_step]
    have ha := hfinds.resolve_left (by simp)
    split
    · obtain ⟨hpool, hkept, hgen⟩ := h.retire ha
      rw [← hgen] at hpool
      exact ⟨hpool, .inr hkept⟩
    · next hw =>
      have hpool : s.toPool.abandon.Sound c s.generation [] ret.writing ret.ending 0 :=
        h.abandon (Nat.le_of_not_lt hw)
      exact sound_back hpool (.inl rfl)

theorem sound_thread (h : s.Sound c) (go : Bool) : (s.thread_step go).Sound c := by
  have hpool := h.pool
  have hfinds := h.finds
  unfold number at hpool
  unfold thread_step
  rcases hpc : s.pc with - | go' | a | a | ⟨a, w⟩ | ⟨n, w⟩ | ⟨n, w⟩ | ⟨n, w⟩ | ⟨n, w⟩ | a |
    ⟨ret, stage⟩ | - | ok <;>
    rw [hpc] at hpool hfinds
  case idle => exact h
  case ended => exact h
  case opening =>
    obtain ⟨hbegun, hgen⟩ := Pool.Sound.batch_begin hpool hfinds.1 go'
    have hbegun : (s.batch_begin go').Sound c (s.batch_begin go').generation [] false false 0 := by
      rw [hgen]
      exact hbegun
    exact ⟨hbegun, trivial⟩
  case take =>
    simp only
    split
    · next w rest hfree => exact ⟨hpool.take_slot hfree, hfinds⟩
    · exact ⟨hpool, hfinds⟩
  case take_wait =>
    simp only
    split
    · exact ⟨hpool, hfinds⟩
    · split
      · exact h
      · exact ⟨hpool, .inl rfl⟩
  case submit =>
    simp only
    split
    · have hdone := hpool.submitted hfinds.1 hfinds.2
      split
      · exact ⟨hdone, trivial⟩
      · exact ⟨hdone, trivial⟩
    · exact ⟨(hpool.refused a).anew, trivial⟩
  case read => exact ⟨hpool, trivial⟩
  case read_look =>
    simp only
    split <;> exact ⟨hpool, trivial⟩
  case read_wait =>
    simp only
    split
    · exact ⟨hpool, trivial⟩
    · split
      · exact h
      · exact ⟨hpool, .inl rfl⟩
  case read_inspect =>
    simp only
    split <;> exact ⟨hpool, trivial⟩
  case control =>
    simp only
    by_cases hread : a.is_read = true
    · rw [if_pos hread]
      have hidle : s.toPool.Sound c s.generation [] false false 0 := by
        simpa [Pc.hand, Pc.writing, Pc.ending, Pc.looked, Pc.ahead, hread] using hpool
      exact ⟨hidle, trivial⟩
    · rw [if_neg hread]
      have hwrite : s.toPool.Sound c s.generation [] true false 0 := by
        simpa [Pc.hand, Pc.writing, Pc.ending, Pc.looked, Pc.ahead, hread] using hpool
      exact ⟨hwrite.controlled go, trivial⟩
  case flush => exact sound_flush hpc hpool hfinds go
  case close =>
    have hopen : s.batch_open = true := hpool.depth
    refine ⟨hpool.batch_end hfinds, hfinds, ?_⟩
    rw [decide_eq_true_iff]
    exact hpool.ledger.errors hopen

theorem sound_transfer {a : Access} (h : s.toPool.Sound c s.generation [] (!a.is_read) false 0) :
    (s.transfer a).Sound c := by
  unfold transfer
  split
  · next hbatch =>
    simp only [Bool.and_eq_true] at hbatch
    obtain ⟨hopen, habandoned⟩ := h.batching hbatch.1
    exact ⟨h, habandoned, hopen⟩
  · exact ⟨h, trivial⟩

/-- No late callback counts: the outermost begin finds none that is about to count an error, and
none tests the generation between the two stores of the begin for a write that failed. -/
def Timely (s : WriteBatch) : Act → Prop
  | .call (.write_batch_begin _) =>
    s.pc.ready = true → s.batch_depth = 0 → ∀ w, (s.slot w).callback ≠ .tested true
  | .completion w status actual =>
    s.pc.ahead = 1 → s.pending w → (s.slot w).callback = .out → (s.slot w).gen = s.generation →
      status = .COMPLETED ∧ actual = (s.slot w).length
  | _ => True

theorem sound_call (h : s.Sound c) (hready : s.pc.ready = true) (op : Call)
    (htimely : c → s.Timely (.call op)) : (s.call op).Sound c := by
  have hidle : s.toPool.Sound c s.generation [] false false 0 := by
    have hpool := h.pool
    unfold number at hpool
    rcases hpc : s.pc <;> rw [hpc] at hready hpool
    case idle | ended => exact hpool
    all_goals cases hready
  have hdepth : s.batch_open = decide (0 < s.batch_depth) := by simpa using hidle.depth
  cases op with
  | write_batch_begin go =>
    simp only [call, write_batch_begin]
    split
    · next hnested =>
      have hpool := hidle.recount (s.batch_depth + 1) false (by simp [hdepth, hnested]) (by simp)
      exact ⟨hpool, trivial⟩
    · next hfirst =>
      have hzero : s.batch_depth = 0 := by omega
      have hpool := hidle.opened hzero fun hc => htimely hc hready hzero
      refine ⟨hpool, rfl, ?_⟩
      intro w hw
      obtain ⟨x, hx, -⟩ := hidle.ledger.call w hw
      exact (List.getElem?_eq_some_iff.mp hx).1
  | write_batch_end =>
    simp only [call, write_batch_end]
    by_cases hopen : s.batch_open = true
    · rw [if_neg (by simp [hopen])]
      split
      · next hinner =>
        have hpool := hidle.recount (s.batch_depth - 1) false (by simp [hopen, hinner]) (by simp)
        exact ⟨hpool, trivial⟩
      · next houter =>
        have hpool := hidle.recount (s.batch_depth - 1) true (by simp [hopen]) (by intro _; omega)
        exact ⟨hpool, .inl rfl⟩
    · rw [if_pos (by simpa using hopen)]
      exact ⟨hidle, trivial⟩
  | access a =>
    simp only [call, access]
    by_cases hread : a.is_read = true
    · rw [if_pos hread]
      exact sound_transfer (by simpa [hread] using hidle)
    · rw [if_neg hread]
      have hwrite : s.issue.Sound c s.generation [] (!a.is_read) false 0 := by
        simpa [hread] using hidle.issue
      exact sound_transfer hwrite
  | flush_writes => exact ⟨hidle, .inl rfl⟩

/-! ## The completions -/

/-- The callback of a slot that was given up changes none of the losses. -/
theorem noLoss_count {t : Pool} {n : ℕ} {hand : List ℕ} {writing ending : Bool} {looked : ℕ}
    (h : t.Sound c n hand writing ending looked) (hsettled : t.Settled) (w : ℕ) :
    NoLoss (t.count w).writes t.since ↔ NoLoss t.writes t.since := by
  unfold Pool.count
  dsimp only
  split
  case h_2 => rfl
  case h_3 => rfl
  next counts hcall =>
  by_cases hread : (t.slot w).is_read = true
  · simp only [hread, if_true]
  rw [if_neg hread]
  have hin := h.slots.calling w (by simp [hcall])
  have hpending : t.pending w := ⟨hin, by simpa using hread⟩
  have hgone : t.abandoned = true := by
    rcases hsettled with ha | hquiet
    · exact ha
    · exact absurd (hin.symm.trans (hquiet w)) (by simp)
  apply noLoss_modify
  intro hle x hx
  obtain ⟨y, hy, hgiven⟩ := h.ledger.dropped w hpending hle (.inl hgone)
  obtain rfl : x = y := Option.some.inj (hx.symm.trans hy)
  simp [Issued.lost, hgiven]

/-- A step of a callback: what the next step of the thread finds is not for it to change. -/
theorem sound_of_callback (h : s.Sound c) {t : Pool} (hslots : Slots t s.pc.hand)
    (hledger : Ledger c s.number t s.pc.writing s.pc.looked) (hflags : t.flags = s.flags)
    (hstays : Stays s.toPool t)
    (hlosses : s.Settled → (NoLoss t.writes s.since ↔ NoLoss s.writes s.since)) :
    Sound c { s with toPool := t } := by
  have hpool := h.pool
  have hfinds := h.finds
  simp only [Pool.flags, Prod.mk.injEq] at hflags
  obtain ⟨hopen, hdepth, hbatch, habandoned, hsince, hgen⟩ := hflags
  have hsettled : s.Settled → t.Settled := by
    refine fun hdone => hdone.imp habandoned.trans fun hquiet v => ?_
    by_contra hv
    exact absurd ((hstays.slot v (by simpa using hv)).1.symm.trans (hquiet v)) (by simp)
  refine ⟨⟨hslots, ?_, ?_, ?_, ?_⟩, ?_⟩
  · unfold number
    dsimp only
    rw [hgen]
    exact hledger
  · dsimp only
    rw [hopen, hdepth]
    exact hpool.depth
  · dsimp only
    rw [hdepth]
    exact hpool.last
  · dsimp only
    rw [hbatch, hopen, habandoned]
    exact hpool.batching
  · dsimp only
    cases hpc : s.pc <;> rw [hpc] at hfinds
    case opening go =>
      refine ⟨hopen.trans hfinds.1, ?_⟩
      intro w hw
      obtain ⟨hw, hcall, -⟩ := hstays.pending hw
      rw [hcall, hsince]
      exact hfinds.2 w hw
    case take | take_wait | submit => exact ⟨habandoned.trans hfinds.1, hopen.trans hfinds.2⟩
    case flush ret stage => exact hfinds.imp_right habandoned.trans
    case close => exact hsettled hfinds
    case ended ok =>
      simp only [Pc.Finds, hsince, hlosses hfinds.1]
      exact ⟨hsettled hfinds.1, hfinds.2⟩
    all_goals trivial

/-- What the callback holds after its test. -/
theorem async_write_cb_tests {t : Pool} {w : ℕ} {status : Status} {actual : ℕ}
    (hin : (t.slot w).inflight = true) (hout : (t.slot w).callback = .out) :
    ((t.async_write_cb w status actual).slot w).callback =
      .tested (!(t.slot w).is_read && decide ((t.slot w).gen = t.generation) &&
        !AsyncSlot.whole { t.slot w with status := some status, actual }) := by
  simp [Pool.async_write_cb, hin, hout]

theorem sound_completion (h : s.Sound c) (w : ℕ) (status : Status) (actual : ℕ)
    (htimely : c → s.Timely (.completion w status actual)) :
    (s.step (.completion w status actual)).Sound c := by
  by_cases hcb : ((s.slot w).inflight && decide ((s.slot w).callback = .out)) = true
  case neg =>
    have hsame : s.async_write_cb w status actual = s.toPool := by
      unfold Pool.async_write_cb
      exact if_neg hcb
    simp only [step, hsame]
    exact h
  have hslots := h.pool.slots.async_write_cb w status actual
  have hledger : Ledger c s.number (s.async_write_cb w status actual) s.pc.writing s.pc.looked := by
    simp only [Bool.and_eq_true, decide_eq_true_eq] at hcb
    obtain ⟨hin, hout⟩ := hcb
    apply h.pool.ledger.async_write_cb hin hout
    have hfinds := h.finds
    unfold Timely at htimely
    unfold number
    cases hpc : s.pc with
    | opening go =>
      rw [hpc] at hfinds htimely
      refine .inr ⟨hfinds.2, fun hc counts hcounts => ?_⟩
      rw [async_write_cb_tests hin hout] at hcounts
      obtain rfl := Callback.tested.inj hcounts
      by_contra hcounts
      simp only [Bool.not_eq_false, Bool.and_eq_true, Bool.not_eq_true', decide_eq_true_eq]
        at hcounts
      obtain ⟨⟨hwrite, hgen⟩, hpart⟩ := hcounts
      have hwhole := htimely hc rfl ⟨hin, hwrite⟩ hout hgen
      simp [AsyncSlot.whole, hwhole] at hpart
    | _ => exact .inl rfl
  have hsteps : (s.async_write_cb w status actual).flags = s.flags ∧
      Stays s.toPool (s.async_write_cb w status actual) ∧
      (s.async_write_cb w status actual).writes = s.writes := by
    unfold Pool.async_write_cb
    rw [if_pos (by exact hcb)]
    refine ⟨rfl, .of_update rfl (fun hin => ?_) rfl rfl rfl, rfl⟩
    exact ⟨hin, rfl, rfl, rfl⟩
  obtain ⟨hflags, hstays, hwrites⟩ := hsteps
  exact sound_of_callback h hslots hledger hflags hstays fun _ => by rw [hwrites]

theorem sound_count (h : s.Sound c) (w : ℕ) : (s.step (.count w)).Sound c := by
  have hsteps : (s.toPool.count w).flags = s.flags ∧ Stays s.toPool (s.toPool.count w) := by
    unfold Pool.count
    dsimp only
    split
    · refine ⟨rfl, .of_update rfl (fun hin => ?_) rfl rfl rfl⟩
      exact ⟨hin, rfl, rfl, rfl⟩
    · exact ⟨rfl, .of_slots rfl rfl rfl rfl⟩
    · exact ⟨rfl, .of_slots rfl rfl rfl rfl⟩
  exact sound_of_callback h (h.pool.slots.count w) (h.pool.ledger.count h.pool.slots.calling w)
    hsteps.1 hsteps.2 fun hsettled => noLoss_count h.pool hsettled w

theorem sound_land (h : s.Sound c) (w : ℕ) : (s.step (.land w)).Sound c := by
  have hsteps : (s.toPool.land w).flags = s.flags ∧ Stays s.toPool (s.toPool.land w) ∧
      (s.toPool.land w).writes = s.writes := by
    unfold Pool.land
    dsimp only
    split
    · refine ⟨rfl, .of_update rfl (fun hin => ?_) rfl rfl rfl, rfl⟩
      cases hin
    · exact ⟨rfl, .of_slots rfl rfl rfl rfl, rfl⟩
  obtain ⟨hflags, hstays, hwrites⟩ := hsteps
  exact sound_of_callback h (h.pool.slots.land w) (h.pool.ledger.land w) hflags hstays
    fun _ => by rw [hwrites]

theorem sound_push (h : s.Sound c) (w : ℕ) : (s.step (.push w)).Sound c := by
  have hsteps : (s.toPool.push w).flags = s.flags ∧ (s.toPool.push w).slot = s.slot ∧
      (s.toPool.push w).writes = s.writes ∧ (s.toPool.push w).write_errors = s.write_errors := by
    unfold Pool.push
    split <;> exact ⟨rfl, rfl, rfl, rfl⟩
  obtain ⟨hflags, hslot, hwrites, herrors⟩ := hsteps
  have hparts := hflags
  simp only [Pool.flags, Prod.mk.injEq] at hparts
  obtain ⟨hopen, -, -, habandoned, hsince, -⟩ := hparts
  exact sound_of_callback h (h.pool.slots.push w)
    (h.pool.ledger.same hslot hwrites hsince herrors hopen habandoned) hflags
    (.of_slots hslot hsince hopen habandoned) fun _ => by rw [hwrites]

/-- A step that keeps to the condition, where the condition is asked for. -/
theorem sound_step (h : s.Sound c) (act : Act) (htimely : c → s.Timely act) :
    (s.step act).Sound c := by
  cases act with
  | call op =>
    simp only [step]
    split
    · next hready => exact sound_call h hready op htimely
    · exact h
  | thread go => exact sound_thread h go
  | completion w status actual => exact sound_completion h w status actual htimely
  | count w => exact sound_count h w
  | land w => exact sound_land h w
  | push w => exact sound_push h w

theorem sound_init : Sound c {} := by
  have hslots : Slots {} [] := by
    constructor <;> simp [AsyncSlot.load]
  have hledger : Ledger c 0 {} false 0 := by
    constructor <;> simp [Pool.pending]
  have hpool : Pool.Sound c 0 {} [] false false 0 := by
    constructor
    · exact hslots
    · exact hledger
    all_goals simp
  exact ⟨hpool, trivial⟩

/-! ## The verdict -/

/-- When the outermost `write_batch_end` has answered, it has told whether each write since its
begin completed with its full length and was not given up. -/
def Judged (s : WriteBatch) : Prop :=
  ∀ ok, s.pc = .ended ok →
    (ok = true ↔ ∀ x ∈ s.batch_writes, x.outcome = some true ∧ x.given_up = false)

/-- No write that was lost is told to be well. -/
def HidesNone (s : WriteBatch) : Prop :=
  s.pc = .ended true → ∀ x ∈ s.batch_writes, x.outcome = some true ∧ x.given_up = false

/-- The callback of a read adds no error. -/
def ReadsAreFree (s : WriteBatch) : Prop :=
  ∀ w act, act.slot = some w → (s.slot w).is_read = true →
    (s.step act).write_errors = s.write_errors

/-- The transfer was submitted in an earlier batch. -/
def stale (s : WriteBatch) (w : ℕ) : Prop :=
  (s.slot w).inflight = true ∧ (s.slot w).gen ≠ s.number

/-- No callback of an earlier batch adds an error or touches a write of this one. -/
def Undisturbed (s : WriteBatch) : Prop :=
  ∀ w act, act.slot = some w → s.stale w →
    (s.step act).write_errors = s.write_errors ∧ (s.step act).batch_writes = s.batch_writes

theorem mem_batch_writes {t : Pool} {x : Issued} :
    x ∈ t.batch_writes ↔ ∃ j, t.since ≤ j ∧ t.writes[j]? = some x := by
  constructor
  · intro h
    obtain ⟨k, hk⟩ := List.mem_iff_getElem?.mp h
    exact ⟨t.since + k, Nat.le_add_right .., by rw [← hk, Pool.batch_writes, List.getElem?_drop]⟩
  · rintro ⟨j, hle, hj⟩
    apply List.mem_iff_getElem?.mpr
    exact ⟨j - t.since, by rw [Pool.batch_writes, List.getElem?_drop, Nat.add_sub_cancel' hle, hj]⟩

/-- When nothing is waited for, a write that was not lost is whole. -/
theorem noLoss_iff {t : Pool} {n looked : ℕ} (h : Ledger c n t false looked)
    (hsettled : t.Settled) :
    NoLoss t.writes t.since ↔
      ∀ x ∈ t.batch_writes, x.outcome = some true ∧ x.given_up = false := by
  constructor
  · intro hno x hx
    obtain ⟨j, hle, hj⟩ := mem_batch_writes.mp hx
    have hlost : x.lost = false := by simpa [hj] using hno j hle
    simp only [Issued.lost, Bool.or_eq_false_iff, decide_eq_false_iff_not] at hlost
    obtain ⟨hnot, hkept⟩ := hlost
    refine ⟨?_, hkept⟩
    rcases hout : x.outcome with - | ok
    · rcases h.waited j x hle hj hout hkept with ⟨hf, -⟩ | ⟨w, hw, hcall⟩
      · cases hf
      rcases hsettled with ha | hquiet
      · obtain ⟨y, hy, hgiven⟩ := h.dropped w hw (hcall.symm ▸ hle) (.inl ha)
        rw [hcall, hj] at hy
        obtain rfl : x = y := Option.some.inj hy
        exact absurd (hgiven.symm.trans hkept) (by simp)
      · exact absurd (hw.1.symm.trans (hquiet w)) (by simp)
    · cases ok with
      | true => rfl
      | false => exact absurd hout hnot
  · intro hall j hle hj
    obtain ⟨x, hx, hlost⟩ := Option.map_eq_some_iff.mp hj
    obtain ⟨hout, hkept⟩ := hall x (mem_batch_writes.mpr ⟨j, hle, hx⟩)
    simp [Issued.lost, hout, hkept] at hlost

theorem hides_none (h : s.Sound c) : s.HidesNone := by
  intro hpc
  have hpool := h.pool
  have hfinds := h.finds
  rw [hpc] at hpool hfinds
  exact (noLoss_iff hpool.ledger hfinds.1).mp (hfinds.2.1 rfl)

theorem judged (h : s.Sound True) : s.Judged := by
  intro ok hpc
  have hpool := h.pool
  have hfinds := h.finds
  rw [hpc] at hpool hfinds
  rw [← noLoss_iff hpool.ledger hfinds.1]
  exact ⟨hfinds.2.1, hfinds.2.2 trivial⟩

/-- The only step of a callback that counts. -/
theorem write_errors_step {act : Act} {w : ℕ} (hslot : act.slot = some w) :
    (s.step act).write_errors = s.write_errors ∧ (s.step act).writes = s.writes ∨
      ∃ counts, (s.slot w).callback = .tested counts ∧ act = .count w := by
  cases act with
  | call | thread => cases hslot
  | completion v status actual =>
    left
    simp only [step, Pool.async_write_cb]
    split <;> exact ⟨rfl, rfl⟩
  | count v =>
    obtain rfl := Option.some.inj hslot
    cases hcall : (s.slot v).callback with
    | tested counts => exact .inr ⟨counts, rfl, rfl⟩
    | out | counted =>
      left
      simp [step, Pool.count, hcall]
  | land v =>
    left
    simp only [step, Pool.land]
    split <;> exact ⟨rfl, rfl⟩
  | push v =>
    left
    simp only [step, Pool.push]
    split <;> exact ⟨rfl, rfl⟩

theorem reads_are_free (h : s.Sound c) : s.ReadsAreFree := by
  intro w act hslot hread
  rcases write_errors_step (s := s) hslot with hsame | ⟨counts, hcall, rfl⟩
  · exact hsame.1
  · obtain rfl := (h.pool.ledger.tested w counts hcall).1 hread
    simp [step, Pool.count, hcall]

theorem undisturbed (h : s.Sound True) : s.Undisturbed := by
  rintro w act hslot ⟨hin, hstale⟩
  rcases write_errors_step (s := s) hslot with hsame | ⟨counts, hcall, rfl⟩
  · have hsince : (s.step act).since = s.since := by
      cases act with
      | call | thread => cases hslot
      | completion | count | land | push =>
        simp only [step, Pool.async_write_cb, Pool.count, Pool.land, Pool.push]
        split <;> rfl
    exact ⟨hsame.1, by rw [Pool.batch_writes, Pool.batch_writes, hsame.2, hsince]⟩
  have htested := h.pool.ledger.tested w counts hcall
  cases hread : (s.slot w).is_read with
  | true =>
    obtain rfl := htested.1 hread
    simp [step, Pool.count, Pool.batch_writes, hcall, hread]
  | false =>
    have hpending : s.pending w := ⟨hin, hread⟩
    have hlt : (s.slot w).call < s.since := by
      by_contra hle
      exact hstale ((h.pool.ledger.current w hpending).2.mpr (Nat.le_of_not_lt hle))
    obtain rfl := (htested.2 hpending).2 trivial hlt
    simp only [step, Pool.count, Pool.batch_writes, Pool.set_outcome, hcall, hread,
      Bool.false_eq_true, if_false, true_and]
    exact List.drop_modify_of_lt _ _ _ _ hlt

/-- A callback of an earlier batch that is about to count disturbs this one. -/
theorem not_undisturbed {w : ℕ} (hstale : s.stale w) (hcall : (s.slot w).callback = .tested true) :
    ¬ s.Undisturbed := by
  intro h
  have hsame := (h w (.count w) rfl hstale).1
  simp [step, Pool.count, hcall] at hsame

/-- A callback that is about to count an error is that of a write. -/
theorem pending_of_counts (h : s.Sound c) {w : ℕ} (hcall : (s.slot w).callback = .tested true) :
    s.pending w := by
  refine ⟨h.pool.slots.calling w (by simp [hcall]), ?_⟩
  by_contra hread
  exact absurd ((h.pool.ledger.tested w true hcall).1 (by simpa using hread)) (by simp)

/-- A step after which nothing disturbs the batch is one on which no late callback counts. -/
theorem timely_of_undisturbed (h : s.Sound True) (act : Act) (hno : (s.step act).Undisturbed) :
    s.Timely act := by
  cases act with
  | call op =>
    cases op with
    | write_batch_begin go =>
      intro hready hdepth w hcall
      have hbegun : s.step (.call (.write_batch_begin go)) =
          { s with toPool := s.opened, pc := .opening go } := by
        simp [step, hready, call, write_batch_begin, hdepth]
      have hslot : (s.step (.call (.write_batch_begin go))).slot = s.slot := by rw [hbegun]; rfl
      have hnumber : (s.step (.call (.write_batch_begin go))).number = s.generation + 1 := by
        rw [hbegun]; rfl
      have hpending := pending_of_counts h hcall
      have hle : (s.slot w).gen ≤ s.number := (h.pool.ledger.current w hpending).1
      have hahead : s.pc.ahead = 0 := by
        rcases hpc : s.pc <;> rw [hpc] at hready
        case idle | ended => rfl
        all_goals cases hready
      rw [number, hahead] at hle
      rw [← hslot] at hcall
      refine not_undisturbed ⟨?_, ?_⟩ hcall hno
      · rw [hslot]
        exact hpending.1
      · rw [hslot, hnumber]
        omega
    | _ => trivial
  | completion w status actual =>
    intro hahead hpending hout hgen
    by_contra hpart
    have hcall : ((s.step (.completion w status actual)).slot w).callback = .tested true := by
      refine (async_write_cb_tests hpending.1 hout).trans ?_
      simpa [hpending.2, hgen, AsyncSlot.whole, imp_iff_not_or] using hpart
    have hnext : (s.step (.completion w status actual)).generation = s.generation ∧
        ((s.step (.completion w status actual)).slot w).inflight = true ∧
        ((s.step (.completion w status actual)).slot w).gen = s.generation := by
      simp [step, Pool.async_write_cb, hpending.1, hout, hgen]
    refine not_undisturbed ⟨hnext.2.1, ?_⟩ hcall hno
    have hnumber : (s.step (.completion w status actual)).number = s.generation + 1 := by
      rw [number, hnext.1]
      exact congrArg (s.generation + ·) hahead
    rw [hnext.2.2, hnumber]
    omega
  | _ => trivial

theorem sound_run (acts : List Act) : (run acts).Sound False :=
  Runs.after_keeps step {} sound_init (fun _ act h => sound_step h act False.elim) acts

/-- A batch of register writes hides no lost write, whatever the order of the callbacks: the
outermost end answers that all is well only if every write since the begin is whole, and a read adds
no error. It answers so exactly then, with the callbacks of earlier batches having no part in it, as
long as none of those counts late, and no longer. -/
theorem a_batch_hides_no_lost_write (acts : List Act) :
    (run acts).HidesNone ∧ (run acts).ReadsAreFree ∧
      (Runs.Along step Timely {} acts ↔
        ∀ n, (run (acts.take n)).Judged ∧ (run (acts.take n)).Undisturbed) := by
  refine ⟨hides_none (sound_run acts), reads_are_free (sound_run acts), ?_⟩
  refine Runs.along_iff_reached (P := Sound True) (Q := fun s => s.Judged ∧ s.Undisturbed) step {}
    sound_init ?_ ?_ ?_ acts
  · exact fun s h => ⟨judged h, undisturbed h⟩
  · exact fun s act h hc => sound_step h act fun _ => hc
  · exact fun s act h hno => timely_of_undisturbed h act hno.2

/-- A batch in which a write is retired, and a batch with a good write, which begins with `acts`. -/
def after_retired (acts : List Act) : List Act :=
  [.call (.write_batch_begin true), .thread true, .call (.access ⟨false, 4⟩), .thread true,
    .thread true, .call .write_batch_end, .thread true, .thread true, .thread false,
    .thread false] ++ List.replicate 11 (.thread true) ++
  .call (.write_batch_begin true) :: acts ++
  [.call (.access ⟨false, 1⟩), .thread true, .call .write_batch_end, .thread true, .thread true]

/-- The callback of the retired write counts or not, by what it finds between the two stores. -/
theorem a_late_callback_is_counted :
    (run (after_retired [.thread true, .completion 7 .ERROR 0, .count 7])).pc = .ended true ∧
      (run (after_retired [.completion 7 .ERROR 0, .thread true, .count 7])).pc = .ended false ∧
      (run (after_retired [.completion 7 .ERROR 0, .thread true, .count 7])).batch_writes =
        [{ outcome := some true }] ∧
      ¬ ∀ acts, (run acts).Undisturbed := by
  refine ⟨by decide, by decide, by decide, fun h => ?_⟩
  have hlate := h ((after_retired [.completion 7 .ERROR 0, .thread true]).take 24)
  refine not_undisturbed (w := 7) ⟨?_, ?_⟩ ?_ hlate <;> decide

end WriteBatch

end devourer.usb.pipelined
