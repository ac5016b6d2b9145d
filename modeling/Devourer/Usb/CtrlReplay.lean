-- What the device makes of a group of register accesses: as long as no transfer
-- fails it executes the ops in order, so a group that succeeds is what the
-- synchronous default does with the same registers.
import Devourer.Usb.CtrlLaws

namespace devourer.usb

variable {δ : Type*}

/-- The payloads of the ops, one after another, and the registers behind them. -/
def Registers.replay (dev : Registers δ) : δ → List CtrlOp → List (BitVec 32) × δ
  | d, [] => ([], d)
  | d, op :: ops =>
    let (payload, d) := dev.access d op
    let (payloads, d) := dev.replay d ops
    (payload :: payloads, d)

theorem replay_snoc (dev : Registers δ) (d : δ) (ops : List CtrlOp) (op : CtrlOp) :
    dev.replay d (ops ++ [op]) =
      ((dev.replay d ops).1 ++ [(dev.access (dev.replay d ops).2 op).1],
        (dev.access (dev.replay d ops).2 op).2) := by
  induction ops generalizing d with
  | nil => rfl
  | cons op' ops ih => simp [Registers.replay, ih]

/-- An op with the payload of its transfer. -/
def CtrlOp.answer (op : CtrlOp) (payload : BitVec 32) : CtrlOp :=
  if op.write then op else { op with value := payload }

theorem plane_write32 (dev : Registers δ) (d : δ) (addr : BitVec 16) (value : BitVec 32) :
    dev.plane.write32 d addr value = (true, dev.write32 d addr value) := rfl

theorem plane_read32 (dev : Registers δ) (d : δ) (addr : BitVec 16) :
    dev.plane.read32 d addr = (some (dev.read32 d addr).1, (dev.read32 d addr).2) := rfl

/-- The synchronous default over a bus that loses nothing. -/
theorem ctrl_loop_replay (dev : Registers δ) (d : δ) (ok : Bool) (ops : List CtrlOp) :
    ITransport.ctrl_loop dev.plane d ok ops =
      (some (ok, List.zipWith CtrlOp.answer ops (dev.replay d ops).1), (dev.replay d ops).2) := by
  induction ops generalizing d ok with
  | nil => rfl
  | cons op ops ih =>
    cases hwrite : op.write <;>
      simp [ITransport.ctrl_loop, plane_write32, plane_read32, Registers.replay, Registers.access,
        hwrite, ih, CtrlOp.answer]

namespace Ctrl

variable {ops : List CtrlOp} {s : Ctrl δ}

/-- As long as no transfer of the group has failed, the device has executed the issued ops that are
not queued any more, in order and behind the older transfers. -/
structure Replayed (dev : Registers δ) (ops : List CtrlOp) (s : Ctrl δ) : Prop where
  behind : s.ep0.Pairwise fun x y => x.index ≠ none → y.index ≠ none
  within : ∀ i ∈ s.issued, i < ops.length
  replay : (∀ i ∈ s.issued, ∀ c, s.outcome i = some c → c.whole) →
    ∃ left, s.issued = left ++ s.ep0.filterMap Xfer.index ∧
      ((∃ x ∈ s.ep0, x.index = none) → left = []) ∧ (∀ i ∈ left, s.outcome i ≠ none) ∧
      dev.replay s.origin (left.filterMap (ops[·]?)) =
        (left.filterMap fun i => (s.outcome i).map Completion.payload, s.registers)

/-- The bus is as it was: the device, what it has been sent, and what has come of it. -/
def SameBus (t s : Ctrl δ) : Prop :=
  t.registers = s.registers ∧ t.origin = s.origin ∧ t.outcome = s.outcome ∧
    t.ep0 = s.ep0 ∧ t.issued = s.issued

theorem back_bus (t : Ctrl δ) (ret : Ret) : SameBus (t.back ret) t := by
  rcases ret with (- | -) | - | -
  · simp only [back, no_slot]
    split <;> simp [SameBus]
  · simp only [back, no_slot]
    split <;> simp [SameBus]
  · simp [back, SameBus]
  · simp [back, SameBus]

theorem control_failed_bus (t : Ctrl δ) (op : CtrlOp) : SameBus (t.control_failed op) t := by
  unfold control_failed
  split <;> simp [SameBus]

theorem flush_bus (ret : Ret) (stage : Flush) (go : Bool) :
    SameBus (s.flush_step ret go stage) s := by
  cases stage <;> simp only [flush_step]
  · split
    · apply back_bus
    · simp [SameBus]
  · split
    · simp [SameBus]
    · apply back_bus
  · split
    · simp [SameBus]
    · split <;> simp [SameBus]
  · split <;> simp [SameBus]
  · split
    · apply back_bus
    · apply back_bus

/-- A step of the thread leaves the bus alone, but for the submission of the next op. -/
theorem thread_bus (go : Bool) :
    (s.thread_step go).registers = s.registers ∧ (s.thread_step go).origin = s.origin ∧
      (s.thread_step go).outcome = s.outcome ∧
      ((s.thread_step go).ep0 = s.ep0 ∧ (s.thread_step go).issued = s.issued ∨
        s.pos < s.ops.length ∧ ∃ x : Xfer, x.index = some s.pos ∧
          (s.thread_step go).ep0 = s.ep0 ++ [x] ∧
            (s.thread_step go).issued = s.issued ++ [s.pos]) := by
  have hlt : ∀ op, s.ops[s.pos]? = some op → s.pos < s.ops.length := fun op hop =>
    (List.getElem?_eq_some_iff.mp hop).1
  have hquiet : ∀ t : Ctrl δ, SameBus t s → t.registers = s.registers ∧ t.origin = s.origin ∧
      t.outcome = s.outcome ∧ (t.ep0 = s.ep0 ∧ t.issued = s.issued ∨
        s.pos < s.ops.length ∧ ∃ x : Xfer, x.index = some s.pos ∧ t.ep0 = s.ep0 ++ [x] ∧
          t.issued = s.issued ++ [s.pos]) := by
    rintro t ⟨hregisters, horigin, houtcome, hbus⟩
    exact ⟨hregisters, horigin, houtcome, Or.inl hbus⟩
  rcases hpc : s.pc with - | - | - | caller | caller | - | - | - | - | - | ⟨ret, stage⟩ |
    - | - | - | - | - | - | - | - | ok | - <;> simp only [thread_step, hpc]
  case flush =>
    apply hquiet
    apply flush_bus
  case submit =>
    split
    · next w rest op _ hop =>
      cases go
      · simp [async_submit]
      · simp [async_submit, hlt op hop]
    · simp
    · simp
  case control =>
    split
    · simp
    · next op hop =>
      cases go
      · apply hquiet
        apply control_failed_bus
      · simp [hlt op hop]
  case pipeline =>
    split
    · next w rest op _ hop =>
      cases go
      · simp [async_submit]
      · have hpos := hlt op hop
        cases op.write <;> simp [async_submit, hpos]
    · simp
  case control_wait =>
    split
    · simp
    · split
      · simp
      · exact hquiet _ (control_failed_bus _ _)
  case start =>
    repeat' split
    all_goals simp
  case chunk =>
    repeat' split
    all_goals simp
  case acquire =>
    repeat' split
    all_goals simp
  case take => split <;> simp [taken]
  case take_wait =>
    split
    · simp
    · split <;> simp
  case wait => split <;> simp
  case look =>
    split
    · simp
    · split <;> simp
  case progress =>
    split
    · simp
    · split <;> simp
  case inspect =>
    split
    · simp
    · split <;> simp
  case sync =>
    split
    · split <;> simp
    · simp
  case read => simp
  case read_look =>
    split
    · simp
    · split <;> simp
  case read_progress =>
    split
    · simp
    · split <;> simp
  case read_inspect =>
    split
    · simp
    · split <;> simp
  all_goals simp

theorem replayed_thread {dev : Registers δ} (h : s.Replayed dev ops) (hs : s.Sound ops)
    (hpc : s.pc ≠ .threw) (go : Bool) : (s.thread_step go).Replayed dev ops := by
  obtain ⟨hregisters, horigin, houtcome, hbus⟩ := thread_bus (s := s) go
  rcases hbus with ⟨hep0, hissued⟩ | ⟨hlt, x, hindex, hep0, hissued⟩
  · constructor
    · rw [hep0]
      exact h.behind
    · rw [hissued]
      exact h.within
    · rw [hregisters, horigin, houtcome, hep0, hissued]
      exact h.replay
  · constructor
    · rw [hep0]
      refine List.pairwise_append.mpr ⟨h.behind, by simp, ?_⟩
      intro y _ z hz _
      rw [List.mem_singleton.mp hz, hindex]
      simp
    · rw [hissued]
      intro i hi
      rcases List.mem_append.mp hi with hi | hi
      · exact h.within i hi
      · rw [List.mem_singleton.mp hi, ← hs.length_eq hpc]
        exact hlt
    · rw [hregisters, horigin, houtcome, hep0, hissued]
      intro hwhole
      obtain ⟨left, hleft, holder, hout, hreplay⟩ :=
        h.replay fun i hi => hwhole i (List.mem_append_left _ hi)
      refine ⟨left, ?_, ?_, hout, hreplay⟩
      · simp [hleft, hindex]
      · rintro ⟨y, hy, hnone⟩
        rcases List.mem_append.mp hy with hy | hy
        · exact holder ⟨y, hy, hnone⟩
        · rw [List.mem_singleton.mp hy, hindex] at hnone
          cases hnone

/-- An older transfer leaves the bus. -/
theorem replayed_older {dev : Registers δ} (h : s.Replayed dev ops) {k : ℕ} {x : Xfer}
    (hx : s.ep0[k]? = some x) (hindex : x.index = none) (c : Completion) (registers : δ) :
    (xfer_over { s with ep0 := s.ep0.eraseIdx k, registers, origin := registers } x c).Replayed dev
      ops := by
  have hmem := List.mem_of_getElem? hx
  constructor
  · exact h.behind.sublist (List.eraseIdx_sublist _ _)
  · exact h.within
  · simp only [xfer_over, hindex]
    intro hwhole
    obtain ⟨left, hleft, holder, hout, hreplay⟩ := h.replay hwhole
    obtain rfl := holder ⟨x, hmem, hindex⟩
    refine ⟨[], ?_, fun _ => rfl, by simp, by simp [Registers.replay]⟩
    rw [hleft, List.nil_append, List.nil_append]
    obtain ⟨hk, hget⟩ := List.getElem?_eq_some_iff.mp hx
    rw [List.eraseIdx_eq_take_drop_succ, List.filterMap_append]
    conv_lhs => rw [← List.take_append_drop k s.ep0, List.drop_eq_getElem_cons hk]
    rw [List.filterMap_append, List.filterMap_cons, hget, hindex]

theorem replayed_exec {dev : Registers δ} (h : s.Replayed dev ops) (hs : s.Sound ops) :
    (s.exec dev).Replayed dev ops := by
  unfold exec
  rcases hep0 : s.ep0 with - | ⟨x, rest⟩
  · exact h
  have hmem : x ∈ s.ep0 := by simp [hep0]
  have hx : s.ep0[0]? = some x := by rw [hep0]; rfl
  rcases hindex : x.index with - | i
  · have holder := replayed_older h hx hindex
      { status := .COMPLETED, actual := 4, payload := (dev.access s.registers x.op).1 }
      (dev.access s.registers x.op).2
    simpa [hep0, hindex] using holder
  · obtain ⟨hissued, hop⟩ := hs.index x (List.mem_append_left _ hmem) i hindex
    have hfresh := hs.fresh x hmem i hindex
    simp only [hindex]
    constructor
    · have hbehind := h.behind
      rw [hep0] at hbehind
      exact (List.pairwise_cons.mp hbehind).2
    · exact h.within
    · simp only [xfer_over, hindex]
      intro hwhole
      obtain ⟨left, hleft, -, hout, hreplay⟩ := h.replay fun j hj c hc => by
        have hne : j ≠ i := by
          rintro rfl
          rw [hfresh] at hc
          cases hc
        exact hwhole j hj c (by simpa [hne] using hc)
      have hout' : ∀ j ∈ left, j ≠ i := by
        rintro j hj rfl
        exact hout j hj hfresh
      refine ⟨left ++ [i], ?_, ?_, ?_, ?_⟩
      · rw [hleft, hep0]
        simp [hindex]
      · rintro ⟨y, hy, hnone⟩
        have hbehind := h.behind
        rw [hep0] at hbehind
        exact absurd hnone ((List.pairwise_cons.mp hbehind).1 y hy (by simp [hindex]))
      · intro j hj
        rcases List.mem_append.mp hj with hj | hj
        · simpa [hout' j hj] using hout j hj
        · rw [List.mem_singleton.mp hj]
          simp
      · have hsame : left.filterMap (fun j => (Function.update s.outcome i (some
            { status := .COMPLETED, actual := 4
              payload := (dev.access s.registers x.op).1 }) j).map Completion.payload) =
            left.filterMap fun j => (s.outcome j).map Completion.payload := by
          apply List.filterMap_congr
          intro j hj
          simp [hout' j hj]
        rw [List.filterMap_append, List.filterMap_append, hsame]
        simp only [List.filterMap_cons, List.filterMap_nil, hop, Function.update_self,
          Option.map_some]
        rw [if_neg (by simp), replay_snoc, hreplay]

theorem replayed_fail {dev : Registers δ} (h : s.Replayed dev ops) (hs : s.Sound ops) (k : ℕ)
    (c : Completion) (applied : Bool) : (s.fail dev k c applied).Replayed dev ops := by
  unfold fail
  rcases hx : s.ep0[k]? with - | x
  · exact h
  dsimp only
  split
  · exact h
  next hbad =>
  rcases hindex : x.index with - | i
  · simpa [hindex] using replayed_older h hx hindex c _
  · have hissued := (hs.index x (List.mem_append_left _ (List.mem_of_getElem? hx)) i hindex).1
    constructor
    · exact h.behind.sublist (List.eraseIdx_sublist _ _)
    · exact h.within
    · intro hwhole
      exact absurd (hwhole i hissued c (by simp [xfer_over, hindex])) hbad

theorem replayed_callback {dev : Registers δ} (h : s.Replayed dev ops) (k : ℕ) :
    (s.async_write_cb k).Replayed dev ops := by
  unfold async_write_cb
  split
  · exact ⟨h.behind, h.within, h.replay⟩
  · exact h

theorem replayed_push {dev : Registers δ} (h : s.Replayed dev ops) (w : ℕ) :
    (s.push w).Replayed dev ops := by
  unfold push
  split
  · exact ⟨h.behind, h.within, h.replay⟩
  · exact h

theorem replayed_step {dev : Registers δ} (h : s.Replayed dev ops) (hs : s.Sound ops) (act : Act) :
    (s.step dev act).Replayed dev ops := by
  cases act with
  | thread go =>
    by_cases hpc : s.pc = .threw
    · simpa [step, thread_step, hpc] using h
    · exact replayed_thread h hs hpc go
  | exec => exact replayed_exec h hs
  | fail k c applied => exact replayed_fail h hs k c applied
  | callback k => exact replayed_callback h k
  | push w => exact replayed_push h w

theorem Entry.replayed (dev : Registers δ) (h : s.Entry ops) : s.Replayed dev ops := by
  obtain ⟨hissued, -, -, horigin⟩ := h.ghosts
  have holder : ∀ x ∈ s.ep0, x.index = none := fun x hx =>
    (h.older x (List.mem_append_left _ hx)).1
  constructor
  · rw [List.pairwise_iff_getElem]
    intro i j hi _ _ hno
    exact absurd (holder _ (List.getElem_mem hi)) hno
  · simp [hissued]
  · intro _
    refine ⟨[], ?_, fun _ => rfl, by simp, by simp [Registers.replay, horigin]⟩
    rw [hissued, List.nil_append, eq_comm, List.filterMap_eq_nil_iff]
    exact holder

theorem replayed_run (dev : Registers δ) (h : s.Entry ops) (hbatch : s.batch = false)
    (acts : List Act) : (Runs.after (step dev) s acts).Replayed dev ops := by
  induction acts using List.reverseRecOn with
  | nil => exact h.replayed dev
  | append_singleton acts act ih =>
    rw [Runs.after_snoc]
    exact replayed_step ih (sound_run dev h hbatch acts) act

/-! ## The contract -/

/-- What a group over `ops` has done. -/
structure Kept (dev : Registers δ) (ops : List CtrlOp) (s : Ctrl δ) : Prop where
  /-- No op is issued twice, or before one that stands before it. -/
  order : s.issued.Pairwise (· < ·)
  /-- A read that was found complete has the payload of its own transfer; nothing else changes. -/
  values : s.pc ≠ .threw → s.ops = told s.seen s.outcome ops
  whole : ∀ i ∈ s.seen, ∃ c, s.outcome i = some c ∧ c.whole
  /-- Of the ops that are whole at the end, only those that were given up are not found so. -/
  settled : ∀ ok, s.pc = .returned ok → ∀ i ∈ s.issued, ∀ c, s.outcome i = some c → c.whole →
    i ∈ s.seen ∨ i ∈ s.given_up
  complete : s.pc = .returned true → ∀ i < ops.length, i ∈ s.seen
  same : s.pc = .returned true →
    ITransport.ctrl_batch dev.plane s.origin ops = (some (true, s.ops), s.registers)

/-- A strictly increasing list of all the numbers below a bound. -/
theorem eq_range {l : List ℕ} {n : ℕ} (hsorted : l.Pairwise (· < ·)) (hmem : ∀ i, i ∈ l ↔ i < n) :
    l = List.range n := by
  have hperm : l.Perm (List.range n) := by
    refine (List.perm_ext_iff_of_nodup ?_ List.nodup_range).mpr ?_
    · exact hsorted.imp Nat.ne_of_lt
    · intro i
      rw [hmem, List.mem_range]
  apply hperm.eq_of_pairwise _ (hsorted.imp Nat.le_of_lt) List.pairwise_le_range
  intro a b _ _ hab hba
  exact Nat.le_antisymm hab hba

theorem filterMap_range (ops : List CtrlOp) :
    (List.range ops.length).filterMap (ops[·]?) = ops := by
  induction ops using List.reverseRecOn with
  | nil => rfl
  | append_singleton ops op ih =>
    have hleft : (List.range ops.length).filterMap ((ops ++ [op])[·]?) =
        (List.range ops.length).filterMap (ops[·]?) := by
      apply List.filterMap_congr
      intro i hi
      exact List.getElem?_append_left (List.mem_range.mp hi)
    rw [List.length_append, List.length_singleton, List.range_succ,
      List.filterMap_append, hleft, ih]
    simp

theorem told_eq_zipWith {seen : List ℕ} {outcome : ℕ → Option Completion}
    (hseen : ∀ i < ops.length, i ∈ seen) (hout : ∀ i < ops.length, outcome i ≠ none) :
    told seen outcome ops = List.zipWith CtrlOp.answer ops
      ((List.range ops.length).filterMap fun i => (outcome i).map Completion.payload) := by
  have hmap : (List.range ops.length).filterMap (fun i => (outcome i).map Completion.payload) =
      (List.range ops.length).map fun i => (outcome i).elim 0 Completion.payload := by
    rw [← List.filterMap_eq_map]
    apply List.filterMap_congr
    intro i hi
    obtain ⟨c, hc⟩ := Option.ne_none_iff_exists'.mp (hout i (List.mem_range.mp hi))
    simp [hc]
  rw [hmap]
  apply List.ext_getElem?
  intro i
  rw [getElem?_told, List.getElem?_zipWith]
  rcases Nat.lt_or_ge i ops.length with hi | hi
  · obtain ⟨c, hc⟩ := Option.ne_none_iff_exists'.mp (hout i hi)
    simp only [List.getElem?_eq_getElem hi, Option.map_some, hseen i hi, true_and,
      List.getElem?_map, List.getElem?_range hi, hc, Option.elim, CtrlOp.answer]
    cases ops[i].write <;> simp
  · simp [List.getElem?_eq_none hi]

theorem Sound.complete (h : s.Sound ops) (hpc : s.pc = .returned true) :
    ops.length ≤ s.pos ∧ ∀ i < s.pos, i ∈ s.seen := by
  obtain ⟨hok, hlength⟩ := h.returned true hpc
  refine ⟨hlength, fun i hi => ?_⟩
  rcases h.progress (by rw [hpc]; simp) hok.symm i hi with hs | hu | hc
  · exact hs
  · rw [h.waiting (by rw [hpc]; rfl)] at hu
    simp at hu
  · rw [hpc] at hc
    simp at hc

theorem kept_of_sound {dev : Registers δ} (h : s.Sound ops) (hr : s.Replayed dev ops) :
    s.Kept dev ops := by
  constructor
  · exact h.order
  · exact h.values
  · exact fun i hi => (h.seen i hi).2
  · intro ok hpc i hi c hc hwhole
    rcases h.answered i hi with hs | hu | hg | hw | ⟨c', hc', hbad⟩
    · exact .inl hs
    · rw [h.waiting (by rw [hpc]; rfl)] at hu
      simp at hu
    · exact .inr hg
    · rw [hpc] at hw
      simp at hw
    · rw [hc] at hc'
      obtain rfl := Option.some.inj hc'
      rw [hwhole] at hbad
      cases hbad
  · intro hpc i hi
    exact (h.complete hpc).2 i (Nat.lt_of_lt_of_le hi (h.complete hpc).1)
  · intro hpc
    obtain ⟨hlength, hseen⟩ := h.complete hpc
    have hissued : s.issued = List.range s.pos := by
      apply eq_range h.order
      intro i
      refine ⟨h.below i, fun hi => ?_⟩
      obtain ⟨-, c, hc, -⟩ := h.seen i (hseen i hi)
      exact h.outcomes i c hc
    have hpos : s.pos = ops.length := by
      apply Nat.le_antisymm _ hlength
      by_contra hlt
      have hwithin := hr.within ops.length (by rw [hissued]; exact List.mem_range.mpr (by omega))
      omega
    have hwhole : ∀ i ∈ s.issued, ∀ c, s.outcome i = some c → c.whole := by
      intro i hi c hc
      obtain ⟨-, c', hc', hw⟩ := h.seen i (hseen i (h.below i hi))
      rw [hc] at hc'
      exact Option.some.inj hc' ▸ hw
    obtain ⟨left, hleft, -, -, hreplay⟩ := hr.replay hwhole
    have hnone : s.ep0.filterMap Xfer.index = [] := by
      rw [List.filterMap_eq_nil_iff]
      intro x hx
      rcases hindex : x.index with - | i
      · rfl
      · have hissued' := (h.index x (List.mem_append_left _ hx) i hindex).1
        obtain ⟨-, c, hc, -⟩ := h.seen i (hseen i (h.below i hissued'))
        rw [h.fresh x hx i hindex] at hc
        cases hc
    rw [hnone, List.append_nil, hissued, hpos] at hleft
    rw [← hleft] at hreplay
    rw [filterMap_range] at hreplay
    rw [ITransport.ctrl_batch, ctrl_loop_replay, hreplay, h.values (by rw [hpc]; simp)]
    rw [told_eq_zipWith]
    · intro i hi
      exact hseen i (hpos ▸ hi)
    · intro i hi
      obtain ⟨-, c, hc, -⟩ := h.seen i (hseen i (hpos ▸ hi))
      simp [hc]

/-- A group keeps its contract over every run of the thread, the bus and the callbacks, outside an
open batch of writes. -/
theorem a_group_keeps_its_contract (dev : Registers δ) (ops : List CtrlOp) (s : Ctrl δ)
    (h : s.Entry ops) (hbatch : s.batch = false) (acts : List Act) :
    (Runs.after (step dev) s acts).Kept dev ops :=
  kept_of_sound (sound_run dev h hbatch acts) (replayed_run dev h hbatch acts)

/-- One register. -/
def cell : Registers (BitVec 32) where
  write32 _ _ value := value
  read32 d _ := (d, d)

/-- Both transfers are submitted, executed and called back, and then waited for. -/
def served : List Act :=
  List.replicate 8 (.thread true) ++ [.exec, .exec, .callback 0, .push 0, .callback 0, .push 1] ++
    List.replicate 8 (.thread true)

/-- A write and a read over a pool of two slots. -/
def write_and_read : Ctrl (BitVec 32) where
  ops := [{ write := true, addr := 0, value := 7 }, { write := false, addr := 0, value := 0 }]
  free := [0, 1]
  registers := 0
  origin := 0

/-- The call returns with the value that was written. -/
theorem a_read_gets_what_was_written :
    (Runs.after (step cell) write_and_read served).Kept cell write_and_read.ops ∧
      (Runs.after (step cell) write_and_read served).pc = .returned true ∧
      (Runs.after (step cell) write_and_read served).ops.map (·.value) = [7, 7] := by
  refine ⟨?_, by decide +kernel, by decide +kernel⟩
  apply a_group_keeps_its_contract _ _ _ _ rfl
  constructor
  · rfl
  · rfl
  · exact ⟨rfl, rfl, rfl, rfl⟩
  · exact ⟨rfl, rfl, rfl, rfl⟩
  · exact fun _ => rfl
  · decide
  · simp [xfers, write_and_read]
  · simp [write_and_read]

/-- In an open batch of writes a write answers when it is queued. -/
theorem an_open_batch_answers_before_the_write :
    ¬∀ (dev : Registers (BitVec 32)) (ops : List CtrlOp) (s : Ctrl (BitVec 32)), s.Entry ops →
      ∀ acts, (Runs.after (step dev) s acts).pc = .returned true → ∀ i < ops.length, ∃ c,
        (Runs.after (step dev) s acts).outcome i = some c ∧ c.whole := by
  intro h
  have hentry : Entry [{ write := true, addr := 0, value := 7 }] ({
      ops := [{ write := true, addr := 0, value := 7 }], batch := true, batch_open := true
      free := [0], registers := 0, origin := 0 } : Ctrl (BitVec 32)) := by
    constructor
    · rfl
    · rfl
    · exact ⟨rfl, rfl, rfl, rfl⟩
    · exact ⟨rfl, rfl, rfl, rfl⟩
    · exact fun _ => rfl
    · decide
    · simp [xfers]
    · simp
  obtain ⟨c, hc, -⟩ := h cell _ _ hentry [.thread true, .thread true, .thread true, .thread true,
    .thread true] rfl 0 (by decide)
  cases hc

end Ctrl

end devourer.usb
