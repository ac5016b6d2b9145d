-- The hand-off between the event thread and the receive loop: a ring of slots
-- under one lock, which drops the newest frame where it is full. A step is one
-- section under the lock.
import Devourer.Lib.Octets
import Devourer.Lib.RingQueue
import Devourer.Lib.Runs

namespace devourer.mt7612u

/-- A frame and what the radio says of it. -/
structure Slot (A : Type) where
  data : Bytes := []
  attrib : A

/-- `_head` is the slot that is written next, `_tail` the one that is read next. -/
structure RxQueue (A : Type) where
  _q : List (Slot A) := []
  _head : ℕ := 0
  _tail : ℕ := 0
  _dropped : UInt64 := 0

/-- A pointer to a slot of the ring, or one to something else. -/
abbrev SlotPtr := Option ℕ

namespace RxQueue

variable {A : Type}

def reset [Inhabited A] (_ : RxQueue A) (slots : ℕ) : RxQueue A :=
  let slots := if slots < 2 then 2 else slots
  { _q := List.replicate slots { attrib := default } }

/-- False says that the frame was dropped. -/
def push (q : RxQueue A) (attrib : A) (frame : Bytes) : Bool × RxQueue A :=
  if q._q.isEmpty then (false, { q with _dropped := q._dropped + 1 })
  else
    let next := (q._head + 1) % q._q.length
    if next = q._tail then (false, { q with _dropped := q._dropped + 1 })
    else (true, { q with _q := q._q.set q._head { data := frame, attrib }, _head := next })

/-- What the wait ends with, however long it was. -/
def pop_begin (q : RxQueue A) : SlotPtr := if q._head = q._tail then none else some q._tail

/-- A pointer that is not the tail is not committed. -/
def pop_commit (q : RxQueue A) (slot : SlotPtr) : RxQueue A :=
  if q._q.isEmpty ∨ q._head = q._tail ∨ slot ≠ some q._tail then q
  else { q with _tail := (q._tail + 1) % q._q.length }

def dropped (q : RxQueue A) : UInt64 := q._dropped

def capacity (q : RxQueue A) : ℕ := if q._q.isEmpty then 0 else q._q.length - 1

inductive Op (A : Type)
  | push (attrib : A) (frame : Bytes)
  | pop_begin
  | pop_commit (slot : SlotPtr)

def step (q : RxQueue A) : Op A → RxQueue A
  | .push attrib frame => (q.push attrib frame).2
  | .pop_begin => q
  | .pop_commit slot => q.pop_commit slot

/-! ## What a history says -/

/-- The frame that an operation brings into the queue. -/
def accepts (q : RxQueue A) : Op A → List (Slot A)
  | .push attrib frame => if (q.push attrib frame).1 then [{ data := frame, attrib }] else []
  | _ => []

/-- The frame that an operation drops. -/
def refuses (q : RxQueue A) : Op A → List (Slot A)
  | .push attrib frame => if (q.push attrib frame).1 then [] else [{ data := frame, attrib }]
  | _ => []

/-- The frame that stands in the slot at the tail, where its pointer is committed. -/
def commits (q : RxQueue A) : Op A → List (Slot A)
  | .pop_commit slot =>
    if q._head ≠ q._tail ∧ slot = some q._tail then q._q[q._tail]?.toList else []
  | _ => []

def accepted (q : RxQueue A) (ops : List (Op A)) : List (Slot A) := Runs.emitted step accepts q ops

def refused (q : RxQueue A) (ops : List (Op A)) : List (Slot A) := Runs.emitted step refuses q ops

def committed (q : RxQueue A) (ops : List (Op A)) : List (Slot A) :=
  Runs.emitted step commits q ops

/-! ## The ring behind it -/

/-- The queue is this ring. -/
structure Is (q : RxQueue A) (r : RingQueue (Slot A)) : Prop where
  cells : q._q = r.cells
  head : q._head = r.head
  tail : q._tail = r.tail

variable {q : RxQueue A} {r : RingQueue (Slot A)}

theorem Is.nonempty (h : Is q r) : ¬q._q.isEmpty = true := by
  rw [h.cells, List.isEmpty_iff_length_eq_zero]
  have := r.head_lt
  omega

theorem Is.capacity_eq (h : Is q r) : q.capacity + 1 = r.cells.length := by
  have := r.head_lt
  rw [capacity, if_neg h.nonempty, h.cells]
  omega

theorem Is.push_full (h : Is q r) (hfull : r.Full) (attrib : A) (frame : Bytes) :
    q.push attrib frame = (false, { q with _dropped := q._dropped + 1 }) := by
  unfold push
  dsimp only
  rw [if_neg h.nonempty, h.cells, h.head, h.tail,
    if_pos (show (r.head + 1) % r.cells.length = r.tail from hfull)]

theorem Is.push_room (h : Is q r) (hroom : ¬r.Full) (attrib : A) (frame : Bytes) :
    (q.push attrib frame).1 = true ∧ Is (q.push attrib frame).2 (r.put { data := frame, attrib }) ∧
      (q.push attrib frame).2._dropped = q._dropped := by
  unfold push
  dsimp only
  rw [if_neg h.nonempty, h.cells, h.head, h.tail,
    if_neg (show ¬(r.head + 1) % r.cells.length = r.tail from hroom)]
  exact ⟨rfl, ⟨rfl, rfl, rfl⟩, rfl⟩

theorem Is.pop_begin_eq (h : Is q r) :
    q.pop_begin = if r.tail = r.head then none else some r.tail := by
  rw [pop_begin, h.head, h.tail]
  by_cases heq : r.tail = r.head
  · rw [if_pos heq.symm, if_pos heq]
  · rw [if_neg (Ne.symm heq), if_neg heq]

theorem Is.commit_tail (h : Is q r) (hne : r.tail ≠ r.head) :
    Is (q.pop_commit (some r.tail)) r.take ∧
      (q.pop_commit (some r.tail))._dropped = q._dropped := by
  have hgo : ¬(q._q.isEmpty = true ∨ q._head = q._tail ∨ some r.tail ≠ some q._tail) := by
    rw [h.head, h.tail]
    rintro (hempty | heq | hother)
    · exact h.nonempty hempty
    · exact hne heq.symm
    · exact hother rfl
  unfold pop_commit
  rw [if_neg hgo]
  refine ⟨⟨h.cells, h.head, ?_⟩, rfl⟩
  dsimp only
  rw [h.tail, h.cells]
  rfl

theorem Is.commit_other (h : Is q r) {slot : SlotPtr} (hno : r.tail = r.head ∨ slot ≠ some r.tail) :
    q.pop_commit slot = q := by
  unfold pop_commit
  apply if_pos
  rw [h.head, h.tail]
  exact Or.inr (hno.imp_left Eq.symm)

theorem is_reset [Inhabited A] (q : RxQueue A) (slots : ℕ) :
    ∃ r : RingQueue (Slot A), Is (q.reset slots) r ∧ r.queued = [] ∧
      r.cells.length = max slots 2 := by
  have hslots : (if slots < 2 then 2 else slots) = max slots 2 := by
    split <;> omega
  have hlen : (q.reset slots)._q.length = max slots 2 := by
    rw [reset, List.length_replicate, hslots]
  have hpos : 0 < (q.reset slots)._q.length := by omega
  refine ⟨⟨(q.reset slots)._q, 0, 0, hpos, hpos⟩, ⟨rfl, rfl, rfl⟩, ?_, hlen⟩
  apply List.eq_nil_of_length_eq_zero
  rw [RingQueue.length_queued, RingQueue.count_eq_zero]

/-! ## Every history -/

/-- After a history: what came in is what went out and what is queued, and every frame that was
dropped is counted. -/
structure Follows (n : ℕ) (q : RxQueue A) (came went lost : List (Slot A)) : Prop where
  ring : ∃ r, Is q r ∧ r.cells.length = n ∧ came = went ++ r.queued
  counted : q._dropped = UInt64.ofNat lost.length

theorem Follows.step {n : ℕ} {came went lost : List (Slot A)} (h : Follows n q came went lost)
    (op : Op A) : Follows n (q.step op) (came ++ q.accepts op) (went ++ q.commits op)
      (lost ++ q.refuses op) := by
  obtain ⟨⟨r, hr, hn, hcame⟩, hlost⟩ := h
  cases op with
  | push attrib frame =>
    by_cases hfull : r.Full
    · have hpush := hr.push_full hfull attrib frame
      refine ⟨⟨r, ?_, hn, ?_⟩, ?_⟩
      · simp only [RxQueue.step, hpush]
        exact ⟨hr.cells, hr.head, hr.tail⟩
      · simp only [accepts, commits, hpush, Bool.false_eq_true, if_false, List.append_nil, hcame]
      · simp only [RxQueue.step, refuses, hpush, Bool.false_eq_true, if_false, List.length_append,
          List.length_singleton, hlost]
        exact (UInt64.ofNat_add _ _).symm
    · obtain ⟨hyes, hput, hkept⟩ := hr.push_room hfull attrib frame
      refine ⟨⟨r.put { data := frame, attrib }, hput, ?_, ?_⟩, ?_⟩
      · rw [RingQueue.put, List.length_set, hn]
      · simp only [accepts, commits, hyes, if_true, List.append_nil]
        rw [r.queued_put _ hfull, hcame, List.append_assoc]
      · simp only [RxQueue.step, refuses, hyes, if_true, List.append_nil, hkept, hlost]
  | pop_begin =>
    simp only [RxQueue.step, accepts, commits, refuses, List.append_nil]
    exact ⟨⟨r, hr, hn, hcame⟩, hlost⟩
  | pop_commit slot =>
    simp only [RxQueue.step, accepts, refuses, List.append_nil]
    by_cases hgo : r.tail ≠ r.head ∧ slot = some r.tail
    · obtain ⟨hne, rfl⟩ := hgo
      obtain ⟨htake, hkept⟩ := hr.commit_tail hne
      have hout : q.commits (.pop_commit (some r.tail)) = [r.cell 0] := by
        rw [commits, hr.head, hr.tail, hr.cells, if_pos ⟨hne.symm, rfl⟩, r.cell_zero]
        rfl
      refine ⟨⟨r.take, htake, hn, ?_⟩, ?_⟩
      · rw [hout, hcame, r.queued_take hne, List.append_assoc, List.singleton_append]
      · rw [hkept, hlost]
    · have hout : q.commits (.pop_commit slot) = [] := by
        rw [commits, hr.head, hr.tail]
        apply if_neg
        rintro ⟨hne, hslot⟩
        exact hgo ⟨hne.symm, hslot⟩
      have hstay : q.pop_commit slot = q := by
        apply hr.commit_other
        by_contra hno
        rw [not_or, not_not] at hno
        exact hgo hno
      rw [hout, hstay, List.append_nil]
      exact ⟨⟨r, hr, hn, hcame⟩, hlost⟩

theorem follows_session [Inhabited A] (q0 : RxQueue A) (slots : ℕ) (ops : List (Op A)) :
    Follows (max slots 2) (Runs.after RxQueue.step (q0.reset slots) ops)
      (accepted (q0.reset slots) ops) (committed (q0.reset slots) ops)
      (refused (q0.reset slots) ops) := by
  induction ops using List.reverseRecOn with
  | nil =>
    obtain ⟨r, hr, hqueued, hlen⟩ := is_reset q0 slots
    refine ⟨⟨r, hr, hlen, ?_⟩, rfl⟩
    rw [hqueued]
    rfl
  | append_singleton ops op ih =>
    unfold accepted committed refused at ih ⊢
    rw [Runs.after_snoc, Runs.emitted_snoc, Runs.emitted_snoc, Runs.emitted_snoc]
    exact ih.step op

/-! ## The slot that was handed out -/

/-- While it is not committed, a slot that was handed out stays at the tail as it is. -/
theorem handed_out (h : Is q r) {p : ℕ} (hp : q.pop_begin = some p) {op : Op A}
    (hop : op ≠ .pop_commit (some p)) :
    (∃ r', Is (q.step op) r') ∧ (q.step op).pop_begin = some p ∧ (q.step op)._q[p]? = q._q[p]? := by
  have hne : r.tail ≠ r.head := by
    intro heq
    rw [h.pop_begin_eq, if_pos heq] at hp
    cases hp
  have htail : r.tail = p := by
    rw [h.pop_begin_eq, if_neg hne] at hp
    exact Option.some.inj hp
  cases op with
  | push attrib frame =>
    by_cases hfull : r.Full
    · have hpush := h.push_full hfull attrib frame
      rw [RxQueue.step, hpush]
      exact ⟨⟨r, h.cells, h.head, h.tail⟩, hp, rfl⟩
    · obtain ⟨-, hput, -⟩ := h.push_room hfull attrib frame
      have hcount := r.count_put { data := frame, attrib } hfull
      have hne' : (r.put { data := frame, attrib }).tail ≠
          (r.put { data := frame, attrib }).head := by
        intro heq
        rw [(RingQueue.count_eq_zero _).mpr heq] at hcount
        omega
      refine ⟨⟨_, hput⟩, ?_, ?_⟩
      · rw [RxQueue.step, hput.pop_begin_eq, if_neg hne', ← htail]
        rfl
      · rw [RxQueue.step, hput.cells, h.cells, ← htail]
        exact r.put_tail _ hne
  | pop_begin => exact ⟨⟨r, h⟩, hp, rfl⟩
  | pop_commit slot =>
    have hstay : q.pop_commit slot = q := by
      apply h.commit_other
      refine Or.inr ?_
      rintro rfl
      exact hop (htail ▸ rfl)
    rw [RxQueue.step, hstay]
    exact ⟨⟨r, h⟩, hp, rfl⟩

theorem handed_out_after (h : ∃ r, Is q r) {p : ℕ} (hp : q.pop_begin = some p) {ops : List (Op A)}
    (hops : .pop_commit (some p) ∉ ops) :
    (Runs.after RxQueue.step q ops).pop_begin = some p ∧
      (Runs.after RxQueue.step q ops)._q[p]? = q._q[p]? := by
  induction ops generalizing q with
  | nil => exact ⟨hp, rfl⟩
  | cons op ops ih =>
    obtain ⟨r, hr⟩ := h
    rw [List.mem_cons, not_or] at hops
    obtain ⟨hring, hbegin, hslot⟩ := handed_out hr hp (Ne.symm hops.1)
    obtain ⟨hlast, hkept⟩ := ih hring hbegin hops.2
    exact ⟨hlast, hkept.trans hslot⟩

/-- A bounded queue, first in first out, that drops the newest frame. -/
theorem the_rx_queue_is_a_bounded_fifo [Inhabited A] (q0 : RxQueue A) (slots : ℕ)
    (ops : List (Op A)) :
    let q := q0.reset slots
    let q' := Runs.after RxQueue.step q ops
    committed q ops <+: accepted q ops ∧
    (accepted q ops).length ≤ (committed q ops).length + q'.capacity ∧
    (∀ attrib frame, (q'.push attrib frame).1 = false ↔
      (accepted q ops).length = (committed q ops).length + q'.capacity) ∧
    q'.dropped = UInt64.ofNat (refused q ops).length ∧
    (q'.pop_begin = none ↔ (accepted q ops).length = (committed q ops).length) ∧
    ∀ p, q'.pop_begin = some p →
      q'._q[p]? = (accepted q ops)[(committed q ops).length]? ∧
      ∀ more, .pop_commit (some p) ∉ more →
        (Runs.after RxQueue.step q' more).pop_begin = some p ∧
        (Runs.after RxQueue.step q' more)._q[p]? = q'._q[p]? := by
  intro q q'
  obtain ⟨⟨r, hr, -, hcame⟩, hlost⟩ := follows_session q0 slots ops
  have hcapacity : q'.capacity + 1 = r.cells.length := hr.capacity_eq
  have hlen : (accepted q ops).length = (committed q ops).length + r.count := by
    rw [hcame, List.length_append, RingQueue.length_queued]
  have hbound := r.count_lt
  have hfull := r.full_iff
  refine ⟨?_, by omega, ?_, hlost, ?_, ?_⟩
  · rw [hcame]
    exact List.prefix_append _ _
  · intro attrib frame
    by_cases hroom : r.Full
    · rw [hr.push_full hroom attrib frame]
      have := hfull.mp hroom
      exact iff_of_true rfl (by omega)
    · rw [(hr.push_room hroom attrib frame).1]
      refine iff_of_false (Bool.noConfusion) ?_
      intro heq
      exact hroom (hfull.mpr (by omega))
  · rw [hr.pop_begin_eq, hlen, Nat.add_eq_left, r.count_eq_zero]
    split
    · next heq => exact iff_of_true rfl heq
    · next hne => exact iff_of_false (Option.some_ne_none _) hne
  · intro p hp
    refine ⟨?_, fun more hmore => handed_out_after ⟨r, hr⟩ hp hmore⟩
    have hne : r.tail ≠ r.head := by
      intro heq
      rw [hr.pop_begin_eq, if_pos heq] at hp
      cases hp
    rw [hr.pop_begin_eq, if_neg hne] at hp
    rw [hcame, List.getElem?_append_right (Nat.le_refl _), Nat.sub_self, r.queued_take hne,
      ← Option.some.inj hp, hr.cells, r.cell_zero]
    rfl

end RxQueue

end devourer.mt7612u
