-- What the slots and the error count of a batch say of its writes. Every write that is
-- not over is in a slot in flight, in the hand of the thread or given up, and an error
-- stands for a write that was lost.
import Devourer.Lib.Tally
import Devourer.Usb.WriteBatch
import Mathlib.Data.List.Nodup

namespace devourer.usb.pipelined

/-! ## The slots -/

/-- What a slot counts for in `inflight`. -/
def AsyncSlot.load (x : AsyncSlot) : ℤ := if x.inflight then 1 else 0

/-- `hand` has the slot that was taken and is not submitted. -/
structure Slots (s : Pool) (hand : List ℕ) : Prop where
  nodup : (s.free ++ s.landing ++ hand).Nodup
  at_rest : ∀ w ∈ s.free ++ s.landing ++ hand, w < kAsyncWriteDepth ∧ (s.slot w).inflight = false
  inside : ∀ w, (s.slot w).inflight = true → w < kAsyncWriteDepth
  counted : s.inflight = ∑ w ∈ Finset.range kAsyncWriteDepth, (s.slot w).load
  unbuilt : s.built = false → s.free ++ s.landing ++ hand = [] ∧ ∀ w, (s.slot w).inflight = false
  calling : ∀ w, (s.slot w).callback ≠ .out → (s.slot w).inflight = true

theorem load_of_inflight {x : AsyncSlot} (h : x.inflight = true) : x.load = 1 := if_pos h

theorem load_of_at_rest {x : AsyncSlot} (h : x.inflight = false) : x.load = 0 := by
  simp [AsyncSlot.load, h]

namespace Slots

variable {s s' : Pool} {hand hand' : List ℕ} {w : ℕ} {x : AsyncSlot}

/-- The slots at rest change hands. -/
theorem rearranged (h : Slots s hand)
    (hsame : ∀ v, (s'.slot v).inflight = (s.slot v).inflight)
    (hcalling : ∀ v, (s'.slot v).callback ≠ .out → (s'.slot v).inflight = true)
    (hinflight : s'.inflight = s.inflight) (hbuilt : s'.built = s.built)
    (hperm : (s'.free ++ s'.landing ++ hand').Perm (s.free ++ s.landing ++ hand)) :
    Slots s' hand' := by
  constructor
  · exact hperm.nodup_iff.mpr h.nodup
  · intro v hv
    rw [hsame]
    exact h.at_rest v (hperm.mem_iff.mp hv)
  · intro v hv
    exact h.inside v ((hsame v).symm.trans hv)
  · simp only [hinflight, h.counted, AsyncSlot.load, hsame]
  · intro hb
    obtain ⟨hnil, hquiet⟩ := h.unbuilt (hbuilt.symm.trans hb)
    exact ⟨List.Perm.eq_nil (hnil ▸ hperm), fun v => (hsame v).trans (hquiet v)⟩
  · exact hcalling

theorem inflight_update (hx : x.inflight = (s.slot w).inflight) (v : ℕ) :
    (Function.update s.slot w x v).inflight = (s.slot v).inflight := by
  by_cases hv : v = w
  · rw [hv, Function.update_self, hx]
  · rw [Function.update_of_ne hv]

/-- A slot at rest is in no callback. -/
theorem out_of_at_rest (h : Slots s hand) (hw : (s.slot w).inflight = false) :
    (s.slot w).callback = .out := by
  by_contra hcall
  exact absurd ((h.calling w hcall).symm.trans hw) (by simp)

theorem calling_update (h : Slots s hand) (hx : x.callback ≠ .out → x.inflight = true) (v : ℕ)
    (hv : (Function.update s.slot w x v).callback ≠ .out) :
    (Function.update s.slot w x v).inflight = true := by
  by_cases hvw : v = w
  · rw [hvw, Function.update_self] at hv ⊢
    exact hx hv
  · rw [Function.update_of_ne hvw] at hv ⊢
    exact h.calling v hv

/-- A slot changes between the two sides, and the others stay. -/
theorem moved (h : Slots s hand) (hw : w < kAsyncWriteDepth)
    (hslot : s'.slot = Function.update s.slot w x)
    (hinflight : s'.inflight = s.inflight + x.load - (s.slot w).load)
    (hnodup : (s'.free ++ s'.landing ++ hand').Nodup)
    (hrest : ∀ v ∈ s'.free ++ s'.landing ++ hand',
      if v = w then x.inflight = false else v ∈ s.free ++ s.landing ++ hand)
    (hcalling : x.callback ≠ .out → x.inflight = true) (hbuilt : s'.built = true) :
    Slots s' hand' := by
  constructor
  · exact hnodup
  · intro v hv
    have hv' := hrest v hv
    rw [hslot]
    by_cases hvw : v = w
    · rw [if_pos hvw] at hv'
      rw [hvw, Function.update_self]
      exact ⟨hw, hv'⟩
    · rw [if_neg hvw] at hv'
      rw [Function.update_of_ne hvw]
      exact h.at_rest v hv'
  · intro v hv
    rw [hslot] at hv
    by_cases hvw : v = w
    · exact hvw ▸ hw
    · rw [Function.update_of_ne hvw] at hv
      exact h.inside v hv
  · have hsum := Tally.sum_update (Finset.range kAsyncWriteDepth) s.slot
      (Finset.mem_range.mpr hw) x AsyncSlot.load
    rw [hslot, hinflight, h.counted]
    omega
  · intro hb
    exact absurd (hbuilt.symm.trans hb) (by simp)
  · intro v hv
    rw [hslot] at hv ⊢
    exact h.calling_update hcalling v hv

theorem built_of_inflight (h : Slots s hand) (hw : (s.slot w).inflight = true) :
    s.built = true := by
  by_contra hb
  have hquiet := (h.unbuilt (by simpa using hb)).2 w
  exact absurd (hw.symm.trans hquiet) (by simp)

theorem built_of_mem (h : Slots s hand) (hw : w ∈ s.free ++ s.landing ++ hand) :
    s.built = true := by
  by_contra hb
  have hnil := (h.unbuilt (by simpa using hb)).1
  rw [hnil] at hw
  exact absurd hw List.not_mem_nil

/-- Nothing is counted in flight, so nothing is. -/
theorem quiet (h : Slots s hand) (h0 : ¬ 0 < s.inflight) (w : ℕ) : (s.slot w).inflight = false := by
  by_contra hw
  have hw : (s.slot w).inflight = true := by simpa using hw
  have hle : (s.slot w).load ≤ ∑ v ∈ Finset.range kAsyncWriteDepth, (s.slot v).load := by
    apply Finset.single_le_sum (f := fun v => (s.slot v).load)
    · intro v _
      simp only [AsyncSlot.load]
      split <;> omega
    · exact Finset.mem_range.mpr (h.inside w hw)
  rw [load_of_inflight hw, ← h.counted] at hle
  omega

theorem ensure_async_slots (h : Slots s []) (go : Bool) : Slots (s.ensure_async_slots go) [] := by
  unfold Pool.ensure_async_slots
  by_cases hb : (!s.built && go) = true
  · rw [if_pos hb]
    obtain ⟨hnil, hquiet⟩ := h.unbuilt (by simp_all)
    simp only [List.append_nil, List.append_eq_nil_iff] at hnil
    constructor
    · simp [hnil.2, List.nodup_range]
    · intro v hv
      refine ⟨?_, hquiet v⟩
      simpa [hnil.2] using hv
    · exact h.inside
    · exact h.counted
    · exact fun hf => absurd hf (by simp)
    · exact h.calling
  · rw [if_neg hb]
    exact h

theorem take_slot (h : Slots s []) {rest : List ℕ} (hfree : s.free = w :: rest) :
    Slots (s.take_slot w rest) [w] := by
  have hw := (h.at_rest w (by simp [hfree])).2
  have hout := h.out_of_at_rest hw
  refine h.rearranged (inflight_update hw.symm) (h.calling_update ?_) rfl rfl ?_
  · exact fun hcall => absurd hout hcall
  simp only [Pool.take_slot, hfree, List.append_nil]
  exact List.perm_append_comm

theorem refused (h : Slots s [w]) (a : Access) : Slots (s.refused w a) [] := by
  have hw := (h.at_rest w (by simp)).2
  have hout := h.out_of_at_rest hw
  refine h.rearranged (inflight_update hw.symm) (h.calling_update ?_) rfl rfl ?_
  · exact fun hcall => absurd hout hcall
  simp only [Pool.refused, List.append_nil, List.cons_append]
  exact (List.perm_append_singleton w _).symm

theorem submitted (h : Slots s [w]) (a : Access) : Slots (s.submitted w a) [] := by
  obtain ⟨hdepth, hw⟩ := h.at_rest w (by simp)
  have hnodup := List.nodup_append'.mp h.nodup
  apply h.moved hdepth rfl
  · rw [load_of_at_rest hw, load_of_inflight rfl]
    simp [Pool.submitted]
  · simpa [Pool.submitted] using hnodup.1
  · intro v hv
    have hv : v ∈ s.free ++ s.landing := by simpa [Pool.submitted] using hv
    have hne : v ≠ w := fun heq => hnodup.2.2 hv (by simp [heq])
    rw [if_neg hne]
    exact List.mem_append_left _ hv
  · exact fun _ => rfl
  · have hb : s.built = true := h.built_of_mem (w := w) (by simp)
    exact hb

/-- A step of the callback that leaves the slot in flight. -/
theorem of_callback (h : Slots s hand) (hw : (s.slot w).inflight = true) {x : AsyncSlot}
    (hx : x.inflight = true) (hslot : s'.slot = Function.update s.slot w x)
    (hinflight : s'.inflight = s.inflight) (hbuilt : s'.built = s.built)
    (hfree : s'.free = s.free) (hlanding : s'.landing = s.landing) : Slots s' hand := by
  refine h.rearranged ?_ ?_ hinflight hbuilt ?_
  · rw [hslot]
    exact inflight_update (hx.trans hw.symm)
  · rw [hslot]
    exact h.calling_update fun _ => hx
  · rw [hfree, hlanding]

theorem async_write_cb (h : Slots s hand) (w : ℕ) (status : Status) (actual : ℕ) :
    Slots (s.async_write_cb w status actual) hand := by
  unfold Pool.async_write_cb
  dsimp only
  split
  · next hin =>
    simp only [Bool.and_eq_true] at hin
    refine h.of_callback hin.1 ?_ rfl rfl rfl rfl rfl
    exact hin.1
  · exact h

theorem count (h : Slots s hand) (w : ℕ) : Slots (s.count w) hand := by
  unfold Pool.count
  dsimp only
  split
  · next counts hcall =>
    have hw := h.calling w (by simp [hcall])
    refine h.of_callback hw ?_ rfl rfl rfl rfl rfl
    exact hw
  · exact h
  · exact h

theorem land (h : Slots s hand) (w : ℕ) : Slots (s.land w) hand := by
  unfold Pool.land
  dsimp only
  split
  · next hcall =>
    have hw := h.calling w (by simp [hcall])
    have hnot : w ∉ s.free ++ s.landing ++ hand := by
      intro hmem
      exact absurd (hw.symm.trans (h.at_rest w hmem).2) (by simp)
    have hperm : (s.free ++ (w :: s.landing) ++ hand).Perm (w :: (s.free ++ s.landing ++ hand)) :=
      List.perm_middle.append_right _
    refine h.moved (h.inside w hw) rfl ?_ ?_ ?_ ?_ ?_
    · rw [load_of_inflight hw, load_of_at_rest rfl, Int.add_zero]
    · exact hperm.nodup_iff.mpr (List.nodup_cons.mpr ⟨hnot, h.nodup⟩)
    · intro v hv
      have hv := hperm.mem_iff.mp hv
      by_cases hvw : v = w
      · rw [if_pos hvw]
      · rw [if_neg hvw]
        exact (List.mem_cons.mp hv).resolve_left hvw
    · exact fun hout => absurd rfl hout
    · exact h.built_of_inflight hw
  · exact h

theorem push (h : Slots s hand) (w : ℕ) : Slots (s.push w) hand := by
  unfold Pool.push
  split
  · next hmem =>
    refine h.rearranged (fun _ => rfl) h.calling rfl rfl ?_
    have hland : (s.free ++ s.landing).Perm (s.free ++ w :: s.landing.erase w) :=
      (List.perm_cons_erase hmem).append_left _
    exact ((List.perm_middle.symm.trans hland.symm).append_right hand)
  · exact h

end Slots

/-! ## The writes -/

/-- None of the writes from number `since` on was lost. -/
def NoLoss (writes : List Issued) (since : ℕ) : Prop :=
  ∀ j, since ≤ j → writes[j]?.map Issued.lost ≠ some true

section

variable {writes : List Issued} {since i : ℕ} {x : Issued} {f : Issued → Issued}

theorem getElem?_modify_self (hx : writes[i]? = some x) : (writes.modify i f)[i]? = some (f x) := by
  rw [List.getElem?_modify_eq, hx]
  rfl

theorem noLoss_congr {writes' : List Issued}
    (h : ∀ j, since ≤ j → (writes'[j]?.map Issued.lost = some true ↔
      writes[j]?.map Issued.lost = some true)) :
    NoLoss writes' since ↔ NoLoss writes since := by
  constructor
  · intro hno j hle hj
    exact hno j hle ((h j hle).mpr hj)
  · intro hno j hle hj
    exact hno j hle ((h j hle).mp hj)

theorem not_noLoss_modify (hle : since ≤ i) (hx : writes[i]? = some x) (hf : (f x).lost = true) :
    ¬ NoLoss (writes.modify i f) since := by
  intro h
  apply h i hle
  rw [getElem?_modify_self hx, Option.map_some, hf]

/-- A change of a write, unless it makes a lost one of a write of the batch. -/
theorem noLoss_modify (hf : since ≤ i → ∀ x, writes[i]? = some x → (f x).lost = x.lost) :
    NoLoss (writes.modify i f) since ↔ NoLoss writes since := by
  apply noLoss_congr
  intro j hle
  by_cases hij : i = j
  · subst hij
    rcases hx : writes[i]? with - | x
    · rw [List.getElem?_modify_eq, hx]
      rfl
    · rw [getElem?_modify_self hx, Option.map_some, Option.map_some, hf hle x hx]
  · rw [List.getElem?_modify_ne _ _ hij]

theorem getElem?_issue (writes : List Issued) (j : ℕ) :
    (writes ++ [({} : Issued)])[j]? = if j = writes.length then some {} else writes[j]? := by
  rcases Nat.lt_trichotomy j writes.length with h | h | h
  · rw [List.getElem?_append_left h, if_neg (by omega)]
  · rw [if_pos h, h, List.getElem?_concat_length]
  · rw [if_neg (by omega), List.getElem?_eq_none (by simp; omega), List.getElem?_eq_none h.le]

theorem noLoss_issue : NoLoss (writes ++ [({} : Issued)]) since ↔ NoLoss writes since := by
  apply noLoss_congr
  intro j _
  rw [getElem?_issue]
  by_cases hj : j = writes.length
  · rw [if_pos hj, hj, List.getElem?_eq_none (Nat.le_refl _)]
    simp [Issued.lost]
  · rw [if_neg hj]

end

/-! ## The ledger -/

/-- The transfer of a write is not over. -/
def Pool.pending (s : Pool) (w : ℕ) : Prop :=
  (s.slot w).inflight = true ∧ (s.slot w).is_read = false

/-- What the slots and the errors say of the writes, in the batch of number `n`. `c` says that no
callback of an earlier batch was to count an error since the begin, `writing` that the last write is
in the hand of the thread, and `looked` how many of the slots were retired. -/
structure Ledger (c : Prop) (n : ℕ) (s : Pool) (writing : Bool) (looked : ℕ) : Prop where
  since : s.since ≤ s.writes.length
  call : ∀ w, s.pending w → ∃ x, s.writes[(s.slot w).call]? = some x ∧
    (x.outcome = none ↔ (s.slot w).callback ≠ .counted)
  alone : ∀ v w, s.pending v → s.pending w → (s.slot v).call = (s.slot w).call → v = w
  in_hand : writing = true → s.since < s.writes.length ∧
    (∃ x, s.writes[s.writes.length - 1]? = some x ∧ x.outcome = none) ∧
    ∀ w, s.pending w → (s.slot w).call ≠ s.writes.length - 1
  current : ∀ w, s.pending w → (s.slot w).gen ≤ n ∧ ((s.slot w).gen = n ↔ s.since ≤ (s.slot w).call)
  fresh : s.abandoned = false → ∀ w, (s.slot w).inflight = true → (s.slot w).gen = n
  tested : ∀ w counts, (s.slot w).callback = .tested counts →
    ((s.slot w).is_read = true → counts = false) ∧
    (s.pending w → (s.since ≤ (s.slot w).call → counts = !(s.slot w).whole) ∧
      (c → (s.slot w).call < s.since → counts = false))
  errors : s.batch_open = true → (s.write_errors = 0 → NoLoss s.writes s.since) ∧
    (c → NoLoss s.writes s.since → s.write_errors = 0)
  waited : ∀ i x, s.since ≤ i → s.writes[i]? = some x → x.outcome = none → x.given_up = false →
    (writing = true ∧ i + 1 = s.writes.length) ∨ ∃ w, s.pending w ∧ (s.slot w).call = i
  dropped : ∀ w, s.pending w → s.since ≤ (s.slot w).call → s.abandoned = true ∨ w < looked →
    ∃ x, s.writes[(s.slot w).call]? = some x ∧ x.given_up = true
  quiet : s.batch_open = false → s.abandoned = true ∨ ∀ w, (s.slot w).inflight = false

/-- A step that puts nothing in flight: what stays there is a transfer of the same write. -/
structure Stays (s s' : Pool) : Prop where
  slot : ∀ v, (s'.slot v).inflight = true → (s.slot v).inflight = true ∧
    (s'.slot v).is_read = (s.slot v).is_read ∧ (s'.slot v).call = (s.slot v).call ∧
    (s'.slot v).gen = (s.slot v).gen
  since : s'.since = s.since
  batch_open : s'.batch_open = s.batch_open
  abandoned : s'.abandoned = s.abandoned

namespace Stays

variable {c : Prop} {n : ℕ} {s s' : Pool} {writing : Bool} {looked v w : ℕ} {x : AsyncSlot}

/-- The slots stay as they are. -/
theorem of_slots (hslot : s'.slot = s.slot) (hsince : s'.since = s.since)
    (hopen : s'.batch_open = s.batch_open) (habandoned : s'.abandoned = s.abandoned) :
    Stays s s' where
  slot v hv := by
    rw [hslot] at hv ⊢
    exact ⟨hv, rfl, rfl, rfl⟩
  since := hsince
  batch_open := hopen
  abandoned := habandoned

/-- One slot changes, and is no transfer that was not there before. -/
theorem of_update (hslot : s'.slot = Function.update s.slot w x)
    (hx : x.inflight = true → (s.slot w).inflight = true ∧ x.is_read = (s.slot w).is_read ∧
      x.call = (s.slot w).call ∧ x.gen = (s.slot w).gen) (hsince : s'.since = s.since)
    (hopen : s'.batch_open = s.batch_open) (habandoned : s'.abandoned = s.abandoned) :
    Stays s s' where
  slot v hv := by
    rw [hslot] at hv ⊢
    by_cases hvw : v = w
    · rw [hvw, Function.update_self] at hv ⊢
      exact hx hv
    · rw [Function.update_of_ne hvw] at hv ⊢
      exact ⟨hv, rfl, rfl, rfl⟩
  since := hsince
  batch_open := hopen
  abandoned := habandoned

theorem pending (k : Stays s s') (hv : s'.pending v) :
    s.pending v ∧ (s'.slot v).call = (s.slot v).call ∧ (s'.slot v).gen = (s.slot v).gen := by
  obtain ⟨hin, hread, hcall, hgen⟩ := k.slot v hv.1
  exact ⟨⟨hin, hread ▸ hv.2⟩, hcall, hgen⟩

theorem alone (k : Stays s s') (h : Ledger c n s writing looked) (v w : ℕ) (hv : s'.pending v)
    (hw : s'.pending w) (heq : (s'.slot v).call = (s'.slot w).call) : v = w := by
  obtain ⟨hv, hcall, -⟩ := k.pending hv
  obtain ⟨hw, hcall', -⟩ := k.pending hw
  rw [hcall, hcall'] at heq
  exact h.alone v w hv hw heq

theorem current (k : Stays s s') (h : Ledger c n s writing looked) (w : ℕ) (hw : s'.pending w) :
    (s'.slot w).gen ≤ n ∧ ((s'.slot w).gen = n ↔ s'.since ≤ (s'.slot w).call) := by
  obtain ⟨hw, hcall, hgen⟩ := k.pending hw
  rw [hgen, hcall, k.since]
  exact h.current w hw

theorem fresh (k : Stays s s') (h : Ledger c n s writing looked) (ha : s'.abandoned = false)
    (w : ℕ) (hw : (s'.slot w).inflight = true) : (s'.slot w).gen = n := by
  obtain ⟨hin, -, -, hgen⟩ := k.slot w hw
  rw [hgen]
  exact h.fresh (k.abandoned.symm.trans ha) w hin

theorem quiet (k : Stays s s') (h : Ledger c n s writing looked) (hclosed : s'.batch_open = false) :
    s'.abandoned = true ∨ ∀ w, (s'.slot w).inflight = false := by
  rw [k.batch_open] at hclosed
  rw [k.abandoned]
  refine (h.quiet hclosed).imp_right fun hquiet v => ?_
  by_contra hv
  have hin := (k.slot v (by simpa using hv)).1
  exact absurd (hin.symm.trans (hquiet v)) (by simp)

end Stays

/-- One write is marked, and nothing gets in flight. Only the slot of its transfer may change. -/
structure Marks (s s' : Pool) (i : ℕ) (f : Issued → Issued) : Prop extends Stays s s' where
  writes : s'.writes = s.writes.modify i f
  others : ∀ v, s.pending v → (s.slot v).call ≠ i → s'.slot v = s.slot v
  given_up : ∀ x, x.given_up = true → (f x).given_up = true
  settles : ∀ x, (f x).outcome.isSome ∨ (f x).given_up = true
  callback : ∀ v counts, (s'.slot v).callback = .tested counts → s'.slot v = s.slot v

namespace Marks

variable {c : Prop} {n : ℕ} {s s' : Pool} {writing writing' : Bool} {looked looked' i : ℕ}
  {f : Issued → Issued}

theorem length (m : Marks s s' i f) : s'.writes.length = s.writes.length := by
  rw [m.writes, List.length_modify]

theorem other {j : ℕ} (m : Marks s s' i f) (hj : j ≠ i) : s'.writes[j]? = s.writes[j]? := by
  rw [m.writes, List.getElem?_modify_ne _ _ (Ne.symm hj)]

theorem marked {x : Issued} (m : Marks s s' i f) (hx : s.writes[i]? = some x) :
    s'.writes[i]? = some (f x) := by
  rw [m.writes]
  exact getElem?_modify_self hx

theorem call (m : Marks s s' i f) (h : Ledger c n s writing looked)
    (hmine : ∀ x v, s.writes[i]? = some x → s'.pending v → (s.slot v).call = i →
      ((f x).outcome = none ↔ (s'.slot v).callback ≠ .counted)) (w : ℕ) (hw' : s'.pending w) :
    ∃ x, s'.writes[(s'.slot w).call]? = some x ∧
      (x.outcome = none ↔ (s'.slot w).callback ≠ .counted) := by
  obtain ⟨hw, hcall, -⟩ := m.pending hw'
  obtain ⟨x, hx, hnone⟩ := h.call w hw
  rw [hcall]
  by_cases hi : (s.slot w).call = i
  · rw [hi] at hx ⊢
    exact ⟨f x, m.marked hx, hmine x w hx hw' hi⟩
  · rw [m.others w hw hi]
    exact ⟨x, (m.other hi).trans hx, hnone⟩

theorem in_hand (m : Marks s s' i f) (h : Ledger c n s writing looked)
    (hhand : writing' = true → writing = true ∧ i ≠ s.writes.length - 1)
    (hwriting' : writing' = true) :
    s'.since < s'.writes.length ∧
      (∃ x, s'.writes[s'.writes.length - 1]? = some x ∧ x.outcome = none) ∧
      ∀ w, s'.pending w → (s'.slot w).call ≠ s'.writes.length - 1 := by
  obtain ⟨hwriting, hi⟩ := hhand hwriting'
  obtain ⟨hlt, ⟨x, hx, hnone⟩, hne⟩ := h.in_hand hwriting
  rw [m.since, m.length]
  refine ⟨hlt, ⟨x, (m.other (Ne.symm hi)).trans hx, hnone⟩, ?_⟩
  intro v hv
  obtain ⟨hv, hcall, -⟩ := m.pending hv
  rw [hcall]
  exact hne v hv

theorem waited (m : Marks s s' i f) (h : Ledger c n s writing looked)
    (hlast : writing = true → writing' = true ∨ i = s.writes.length - 1) (j : ℕ) (x : Issued)
    (hle : s'.since ≤ j) (hx : s'.writes[j]? = some x) (hnone : x.outcome = none)
    (hkept : x.given_up = false) :
    (writing' = true ∧ j + 1 = s'.writes.length) ∨ ∃ w, s'.pending w ∧ (s'.slot w).call = j := by
  rw [m.since] at hle
  have hij : j ≠ i := by
    rintro rfl
    rw [m.writes, List.getElem?_modify_eq] at hx
    obtain ⟨y, -, rfl⟩ := Option.map_eq_some_iff.mp hx
    rcases m.settles y with hsome | hgiven
    · rw [hnone] at hsome
      cases hsome
    · exact absurd (hgiven.symm.trans hkept) (by simp)
  rw [m.other hij] at hx
  rcases h.waited j x hle hx hnone hkept with ⟨hwriting, hj⟩ | ⟨v, hv, hvj⟩
  · rcases hlast hwriting with hwriting' | hi
    · exact .inl ⟨hwriting', by rw [m.length, hj]⟩
    · exact absurd hi (by omega)
  · have heq := m.others v hv fun hvi => hij (hvj.symm.trans hvi)
    refine .inr ⟨v, ?_, heq ▸ hvj⟩
    unfold Pool.pending
    rwa [heq]

theorem dropped (m : Marks s s' i f) (h : Ledger c n s writing looked)
    (hlooked : ∀ v, s'.pending v → v < looked' → v < looked ∨
      ((s.slot v).call = i ∧ ∀ x, (f x).given_up = true)) (w : ℕ) (hw' : s'.pending w)
    (hle : s'.since ≤ (s'.slot w).call) (hor : s'.abandoned = true ∨ w < looked') :
    ∃ x, s'.writes[(s'.slot w).call]? = some x ∧ x.given_up = true := by
  obtain ⟨hw, hcall, -⟩ := m.pending hw'
  rw [hcall, m.since] at hle
  rw [hcall]
  rw [m.abandoned] at hor
  have hold : (s.abandoned = true ∨ w < looked) ∨
      ((s.slot w).call = i ∧ ∀ x, (f x).given_up = true) := by
    rcases hor with ha | hlt
    · exact .inl (.inl ha)
    · rcases hlooked w hw' hlt with hlt | hnew
      · exact .inl (.inr hlt)
      · exact .inr hnew
  obtain ⟨x, hx, -⟩ := h.call w hw
  rcases hold with hor | ⟨hi, hgiven⟩
  · obtain ⟨y, hy, hgiven⟩ := h.dropped w hw hle hor
    by_cases hi : (s.slot w).call = i
    · rw [hi] at hy ⊢
      exact ⟨f y, m.marked hy, m.given_up y hgiven⟩
    · exact ⟨y, (m.other hi).trans hy, hgiven⟩
  · rw [hi] at hx ⊢
    exact ⟨f x, m.marked hx, hgiven x⟩

theorem tested (m : Marks s s' i f) (h : Ledger c n s writing looked) (w : ℕ) (counts : Bool)
    (hcall : (s'.slot w).callback = .tested counts) :
    ((s'.slot w).is_read = true → counts = false) ∧
      (s'.pending w → (s'.since ≤ (s'.slot w).call → counts = !(s'.slot w).whole) ∧
        (c → (s'.slot w).call < s'.since → counts = false)) := by
  have heq := m.callback w counts hcall
  unfold Pool.pending
  rw [heq] at hcall ⊢
  rw [m.since]
  exact h.tested w counts hcall

end Marks

namespace Ledger

variable {c : Prop} {n : ℕ} {s s' : Pool} {writing : Bool} {looked w : ℕ}

/-- The writes stay as they are, and what leaves the slots is over. -/
theorem congr (h : Ledger c n s writing looked) (k : Stays s s') (hwrites : s'.writes = s.writes)
    (herrors : s'.write_errors = s.write_errors)
    (hback : ∀ v, s.pending v → (s.slot v).callback ≠ .counted →
      s'.pending v ∧ (s'.slot v).call = (s.slot v).call)
    (hcounted : ∀ v, s'.pending v →
      ((s'.slot v).callback = .counted ↔ (s.slot v).callback = .counted))
    (htested : ∀ v counts, (s'.slot v).callback = .tested counts →
      ((s'.slot v).is_read = true → counts = false) ∧
      (s'.pending v → (s.since ≤ (s'.slot v).call → counts = !(s'.slot v).whole) ∧
        (c → (s'.slot v).call < s.since → counts = false))) :
    Ledger c n s' writing looked := by
  refine ⟨?_, ?_, k.alone h, ?_, k.current h, k.fresh h, ?_, ?_, ?_, ?_, k.quiet h⟩
  · rw [k.since, hwrites]
    exact h.since
  · intro v hv'
    obtain ⟨hv, hcall, -⟩ := k.pending hv'
    obtain ⟨x, hx, hnone⟩ := h.call v hv
    rw [hcall, hwrites]
    exact ⟨x, hx, hnone.trans (not_congr (hcounted v hv').symm)⟩
  · intro hwriting
    obtain ⟨hlt, hx, hne⟩ := h.in_hand hwriting
    rw [k.since, hwrites]
    refine ⟨hlt, hx, ?_⟩
    intro v hv
    obtain ⟨hv, hcall, -⟩ := k.pending hv
    rw [hcall]
    exact hne v hv
  · rw [k.since]
    exact htested
  · rw [k.batch_open, herrors, hwrites, k.since]
    exact h.errors
  · intro i x hle hx hnone hkept
    rw [k.since] at hle
    rw [hwrites] at hx
    rcases h.waited i x hle hx hnone hkept with hlast | ⟨v, hv, hvi⟩
    · rw [hwrites]
      exact .inl hlast
    · obtain ⟨y, hy, hiff⟩ := h.call v hv
      rw [hvi, hx] at hy
      obtain rfl := Option.some.inj hy
      obtain ⟨hv', hcall⟩ := hback v hv (hiff.mp hnone)
      exact .inr ⟨v, hv', hcall.trans hvi⟩
  · intro v hv hle hor
    obtain ⟨hv, hcall, -⟩ := k.pending hv
    rw [hcall, k.since] at hle
    rw [hcall, hwrites]
    rw [k.abandoned] at hor
    exact h.dropped v hv hle hor

/-- Neither the slots nor the writes change. -/
theorem same (h : Ledger c n s writing looked) (hslot : s'.slot = s.slot)
    (hwrites : s'.writes = s.writes) (hsince : s'.since = s.since)
    (herrors : s'.write_errors = s.write_errors) (hopen : s'.batch_open = s.batch_open)
    (habandoned : s'.abandoned = s.abandoned) : Ledger c n s' writing looked := by
  have hpending : ∀ v, s'.pending v ↔ s.pending v := by
    intro v
    unfold Pool.pending
    rw [hslot]
  refine h.congr (.of_slots hslot hsince hopen habandoned) hwrites herrors ?_ ?_ ?_
  · intro v hv _
    exact ⟨(hpending v).mpr hv, by rw [hslot]⟩
  · intro v _
    rw [hslot]
  · intro v counts hv
    rw [hpending, hslot] at *
    exact h.tested v counts hv

/-- The thread looks at the slots anew. -/
theorem anew (h : Ledger c n s writing looked) : Ledger c n s writing 0 :=
  { h with
    dropped := fun w hw hle hor =>
      h.dropped w hw hle (hor.imp_right fun hlt => absurd hlt (Nat.not_lt_zero w)) }

/-- The slot of a transfer that is pending no more changes, and the others stay. -/
theorem update_not_pending (h : Ledger c n s writing looked) {x : AsyncSlot}
    (hslot : s'.slot = Function.update s.slot w x)
    (hin : x.inflight = true → (s.slot w).inflight = true ∧ x.is_read = (s.slot w).is_read ∧
      x.call = (s.slot w).call ∧ x.gen = (s.slot w).gen)
    (hbefore : s.pending w → (s.slot w).callback = .counted)
    (hafter : ¬ (x.inflight = true ∧ x.is_read = false))
    (htested : ∀ counts, x.callback ≠ .tested counts)
    (hsame : s'.writes = s.writes ∧ s'.write_errors = s.write_errors ∧ s'.since = s.since ∧
      s'.batch_open = s.batch_open ∧ s'.abandoned = s.abandoned) :
    Ledger c n s' writing looked := by
  obtain ⟨hwrites, herrors, hsince, hopen, habandoned⟩ := hsame
  have hother : ∀ {v : ℕ}, v ≠ w → s'.slot v = s.slot v := by
    intro v hne
    rw [hslot, Function.update_of_ne hne]
  have hself : s'.slot w = x := by rw [hslot, Function.update_self]
  refine h.congr (.of_update hslot hin hsince hopen habandoned) hwrites herrors ?_ ?_ ?_
  · intro v hv hover
    have hne : v ≠ w := by
      rintro rfl
      exact hover (hbefore hv)
    unfold Pool.pending
    rw [hother hne]
    exact ⟨hv, rfl⟩
  · intro v hv
    have hne : v ≠ w := by
      rintro rfl
      exact hafter (hself ▸ hv)
    rw [hother hne]
  · intro v counts hv
    have hne : v ≠ w := by
      rintro rfl
      exact htested counts (hself ▸ hv)
    unfold Pool.pending
    rw [hother hne] at hv ⊢
    exact h.tested v counts hv

/-- A slot at rest stays at rest. -/
theorem update_at_rest (h : Ledger c n s writing looked) {x : AsyncSlot}
    (hslot : s'.slot = Function.update s.slot w x) (hx : x.inflight = false)
    (hout : x.callback = .out) (hw : (s.slot w).inflight = false) (hwrites : s'.writes = s.writes)
    (hsince : s'.since = s.since) (herrors : s'.write_errors = s.write_errors)
    (hopen : s'.batch_open = s.batch_open) (habandoned : s'.abandoned = s.abandoned) :
    Ledger c n s' writing looked := by
  refine h.update_not_pending hslot ?_ ?_ ?_ ?_ ⟨hwrites, herrors, hsince, hopen, habandoned⟩
  · exact fun hin => absurd (hin.symm.trans hx) (by simp)
  · exact fun hp => absurd (hp.1.symm.trans hw) (by simp)
  · simp [hx]
  · simp [hout]

/-- A write is marked. -/
theorem modified {writing' : Bool} {looked' i : ℕ} {f : Issued → Issued}
    (h : Ledger c n s writing looked) (m : Marks s s' i f)
    (hmine : ∀ x v, s.writes[i]? = some x → s'.pending v → (s.slot v).call = i →
      ((f x).outcome = none ↔ (s'.slot v).callback ≠ .counted))
    (hhand : writing' = true → writing = true ∧ i ≠ s.writes.length - 1)
    (hlast : writing = true → writing' = true ∨ i = s.writes.length - 1)
    (herrors : s.batch_open = true → (s'.write_errors = 0 → NoLoss s'.writes s.since) ∧
      (c → NoLoss s'.writes s.since → s'.write_errors = 0))
    (hlooked : ∀ v, s'.pending v → v < looked' → v < looked ∨
      ((s.slot v).call = i ∧ ∀ x, (f x).given_up = true)) :
    Ledger c n s' writing' looked' := by
  refine ⟨?_, m.call h hmine, m.alone h, m.in_hand h hhand, m.current h, m.fresh h, m.tested h, ?_,
    m.waited h hlast, m.dropped h hlooked, m.quiet h⟩
  · rw [m.since, m.length]
    exact h.since
  · intro hopen
    rw [m.since]
    exact herrors (m.batch_open.symm.trans hopen)

/-! ### The thread -/

/-- The first store of a begin. Should no callback be about to count an error, then none of the
batches before has a part in the new one. -/
theorem opened (h : Ledger c n s false looked) (hclosed : s.batch_open = false)
    (htimely : c → ∀ w, (s.slot w).callback ≠ .tested true) :
    Ledger c (n + 1) s.opened false looked := by
  have hold : ∀ w, s.pending w → (s.slot w).call < s.writes.length := by
    intro w hw
    obtain ⟨x, hx, -⟩ := h.call w hw
    exact (List.getElem?_eq_some_iff.mp hx).1
  constructor
  · exact Nat.le_refl _
  · exact h.call
  · exact h.alone
  · exact fun hf => absurd hf (by simp)
  · intro w hw
    have hgen := (h.current w hw).1
    have hlt := hold w hw
    refine ⟨Nat.le_succ_of_le hgen, iff_of_false ?_ (Nat.not_le.mpr hlt)⟩
    exact Nat.ne_of_lt (Nat.lt_succ_of_le hgen)
  · intro ha w hw
    rcases h.quiet hclosed with ha' | hquiet
    · exact absurd (ha.symm.trans ha') (by simp)
    · exact absurd (hw.symm.trans (hquiet w)) (by simp)
  · intro w counts hw
    refine ⟨(h.tested w counts hw).1, fun hp => ⟨?_, ?_⟩⟩
    · exact fun hle => absurd hle (Nat.not_le.mpr (hold w hp))
    · intro hc _
      cases counts with
      | false => rfl
      | true => exact absurd hw (htimely hc w)
  · intro _
    refine ⟨fun _ => ?_, fun _ _ => rfl⟩
    intro j hle
    have hnone : s.opened.writes[j]? = none := List.getElem?_eq_none hle
    rw [hnone]
    simp
  · intro i x hle hx
    have hlt := (List.getElem?_eq_some_iff.mp hx).1
    exact absurd hle (by simpa [Pool.opened] using hlt)
  · intro w hw hle
    have hlt := hold w hw
    exact absurd hle (by simpa [Pool.opened] using hlt)
  · exact fun hf => absurd hf (by simp [Pool.opened])

theorem issue (h : Ledger c n s false looked) : Ledger c n s.issue true looked := by
  have hget : ∀ {j : ℕ} {x : Issued}, s.writes[j]? = some x → s.issue.writes[j]? = some x := by
    intro j x hx
    have hlt := (List.getElem?_eq_some_iff.mp hx).1
    rw [Pool.issue, getElem?_issue, if_neg (by omega), hx]
  have hlen : s.issue.writes.length = s.writes.length + 1 := by simp [Pool.issue]
  have hsince := h.since
  constructor
  · rw [hlen]
    exact hsince.trans (Nat.le_succ _)
  · intro w hw
    obtain ⟨x, hx, hnone⟩ := h.call w hw
    exact ⟨x, hget hx, hnone⟩
  · exact h.alone
  · intro _
    rw [hlen]
    refine ⟨Nat.lt_succ_of_le hsince, ⟨{}, ?_, rfl⟩, ?_⟩
    · rw [Pool.issue, getElem?_issue, if_pos (Nat.add_sub_cancel ..)]
    · intro w hw
      obtain ⟨x, hx, -⟩ := h.call w hw
      have hlt := (List.getElem?_eq_some_iff.mp hx).1
      have hcall : (s.issue.slot w).call = (s.slot w).call := rfl
      omega
  · exact h.current
  · exact h.fresh
  · exact h.tested
  · intro hopen
    obtain ⟨htells, honly⟩ := h.errors hopen
    exact ⟨fun h0 => noLoss_issue.mpr (htells h0), fun hc hno => honly hc (noLoss_issue.mp hno)⟩
  · intro i x hle hx hnone hkept
    rw [Pool.issue, getElem?_issue] at hx
    by_cases hi : i = s.writes.length
    · exact .inl ⟨rfl, by rw [hlen, hi]⟩
    · rw [if_neg hi] at hx
      rcases h.waited i x hle hx hnone hkept with ⟨hf, -⟩ | hslot
      · cases hf
      · exact .inr hslot
  · intro w hw hle hor
    obtain ⟨x, hx, hgiven⟩ := h.dropped w hw hle hor
    exact ⟨x, hget hx, hgiven⟩
  · exact h.quiet

/-- The thread has a transfer of its own, which libusb takes. -/
theorem submitted {a : Access} (h : Ledger c s.generation s (!a.is_read) looked)
    (hrest : (s.slot w).inflight = false) (hout : (s.slot w).callback = .out)
    (habandoned : s.abandoned = false) (hopen : s.batch_open = true) :
    Ledger c s.generation (s.submitted w a) false 0 := by
  have hself : (s.submitted w a).slot w = { s.filled w a with inflight := true } := by
    simp [Pool.submitted]
  have hother : ∀ {v}, v ≠ w → (s.submitted w a).slot v = s.slot v := by
    intro v hv
    simp [Pool.submitted, Function.update_of_ne hv]
  -- a transfer that is pending is a write before, or the one of the last write
  have hsplit : ∀ v, (s.submitted w a).pending v →
      (v = w ∧ a.is_read = false) ∨ (v ≠ w ∧ s.pending v) := by
    intro v hv
    by_cases hvw : v = w
    · refine .inl ⟨hvw, ?_⟩
      have hread := hv.2
      rwa [hvw, hself] at hread
    · refine .inr ⟨hvw, ?_⟩
      unfold Pool.pending at hv
      rwa [hother hvw] at hv
  have hcall : ((s.submitted w a).slot w).call = s.writes.length - 1 := by rw [hself]; rfl
  have hcallback : ((s.submitted w a).slot w).callback = .out := by rw [hself]; exact hout
  constructor
  · exact h.since
  · intro v hv
    rcases hsplit v hv with ⟨rfl, hwrite⟩ | ⟨hne, hv⟩
    · obtain ⟨x, hx, hnone⟩ := (h.in_hand (by simp [hwrite])).2.1
      rw [hcall, hcallback]
      exact ⟨x, hx, by simp [hnone]⟩
    · rw [hother hne]
      exact h.call v hv
  · intro u v hu hv heq
    rcases hsplit u hu with ⟨hu, hwrite⟩ | ⟨hune, hu⟩
    · rcases hsplit v hv with ⟨hv, -⟩ | ⟨hvne, hv⟩
      · rw [hu, hv]
      · rw [hu, hcall, hother hvne] at heq
        exact absurd heq.symm ((h.in_hand (by simp [hwrite])).2.2 v hv)
    · rcases hsplit v hv with ⟨hv, hwrite⟩ | ⟨hvne, hv⟩
      · rw [hv, hcall, hother hune] at heq
        exact absurd heq ((h.in_hand (by simp [hwrite])).2.2 _ hu)
      · rw [hother hune, hother hvne] at heq
        exact h.alone u v hu hv heq
  · exact fun hf => absurd hf (by simp)
  · intro v hv
    rcases hsplit v hv with ⟨rfl, hwrite⟩ | ⟨hne, hv⟩
    · have hlt := (h.in_hand (by simp [hwrite])).1
      rw [hcall, hself]
      exact ⟨Nat.le_refl _, iff_of_true rfl (Nat.le_sub_one_of_lt hlt)⟩
    · rw [hother hne]
      exact h.current v hv
  · intro _ v hv
    by_cases hvw : v = w
    · rw [hvw, hself]
      rfl
    · rw [hother hvw] at hv ⊢
      exact h.fresh habandoned v hv
  · intro v counts hv
    have hne : v ≠ w := by
      rintro rfl
      rw [hcallback] at hv
      cases hv
    unfold Pool.pending
    rw [hother hne] at hv ⊢
    exact h.tested v counts hv
  · exact h.errors
  · intro i x hle hx hnone hkept
    right
    rcases h.waited i x hle hx hnone hkept with ⟨hwrite, hlast⟩ | ⟨v, hv, hvi⟩
    · refine ⟨w, ⟨by rw [hself], ?_⟩, ?_⟩
      · rw [hself]
        simpa [Pool.filled] using hwrite
      · have hlast : i + 1 = s.writes.length := hlast
        rw [hcall]
        omega
    · have hne : v ≠ w := by
        rintro rfl
        exact absurd (hv.1.symm.trans hrest) (by simp)
      refine ⟨v, ?_, by rw [hother hne, hvi]⟩
      unfold Pool.pending
      rw [hother hne]
      exact hv
  · rintro v - - (ha | hlt)
    · exact absurd (habandoned.symm.trans ha) (by simp)
    · exact absurd hlt (Nat.not_lt_zero v)
  · exact fun hf => absurd (hopen.symm.trans hf) (by simp)

/-- A mark on a write while the slots stay as they are. -/
theorem marks {i : ℕ} {f : Issued → Issued} (hslot : s'.slot = s.slot)
    (hwrites : s'.writes = s.writes.modify i f) (hsince : s'.since = s.since)
    (hopen : s'.batch_open = s.batch_open) (habandoned : s'.abandoned = s.abandoned)
    (hgiven : ∀ x, x.given_up = true → (f x).given_up = true)
    (hover : ∀ x, (f x).outcome.isSome ∨ (f x).given_up = true) : Marks s s' i f where
  toStays := .of_slots hslot hsince hopen habandoned
  writes := hwrites
  others v _ _ := congrFun hslot v
  given_up := hgiven
  settles := hover
  callback v _ _ := congrFun hslot v

theorem controlled (h : Ledger c n s true looked) (go : Bool) :
    Ledger c n (s.controlled go) false 0 := by
  obtain ⟨hlt, ⟨x, hx, hnone⟩, hne⟩ := h.in_hand rfl
  have hm : Marks s (s.controlled go) (s.writes.length - 1) ({ · with outcome := some go }) :=
    marks rfl rfl rfl rfl rfl (fun _ hg => hg) fun _ => .inl rfl
  refine h.modified hm ?_ (fun hf => absurd hf (by simp)) (fun _ => .inr rfl) ?_ ?_
  · intro y v _ hv hcall
    exact absurd hcall (hne v hv)
  · intro hopen
    obtain ⟨htells, honly⟩ := h.errors hopen
    cases go with
    | true =>
      have hsame : NoLoss (s.controlled true).writes s.since ↔ NoLoss s.writes s.since := by
        apply noLoss_modify
        intro _ y hy
        obtain rfl : x = y := Option.some.inj (hx.symm.trans hy)
        simp [Issued.lost, hnone]
      exact ⟨fun h0 => hsame.mpr (htells h0), fun hc hno => honly hc (hsame.mp hno)⟩
    | false =>
      refine ⟨fun h0 => ?_, fun _ hno => absurd hno ?_⟩
      · simp [Pool.controlled, hopen] at h0
      · exact not_noLoss_modify (Nat.le_sub_one_of_lt hlt) hx rfl
  · exact fun v _ hlt => absurd hlt (Nat.not_lt_zero v)

/-- `flush_writes` has looked at one more slot. -/
theorem retire (h : Ledger c n s writing w) (habandoned : s.abandoned = false) :
    Ledger c n (s.retire w) writing (w + 1) := by
  unfold Pool.retire
  by_cases hw : ((s.slot w).inflight && !(s.slot w).is_read) = true
  · rw [if_pos hw]
    have hpending : s.pending w := by simpa [Pool.pending] using hw
    obtain ⟨x, hx, -⟩ := h.call w hpending
    refine h.modified (marks rfl rfl rfl rfl rfl (fun _ _ => rfl) fun _ => .inr rfl) ?_ ?_
      (fun hf => .inl hf) ?_ ?_
    · intro y v hy hv hcall
      obtain ⟨z, hz, hiff⟩ := h.call v hv
      rw [hcall, hy] at hz
      obtain rfl := Option.some.inj hz
      exact hiff
    · intro hwriting
      exact ⟨hwriting, (h.in_hand hwriting).2.2 w hpending⟩
    · intro _
      refine ⟨fun h0 => absurd h0 (by simp), fun _ hno => absurd hno ?_⟩
      have hle := (h.current w hpending).2.mp (h.fresh habandoned w hpending.1)
      exact not_noLoss_modify hle hx (by simp [Issued.lost])
    · intro v _ hlt
      rcases Nat.lt_succ_iff_lt_or_eq.mp hlt with hlt | rfl
      · exact .inl hlt
      · exact .inr ⟨rfl, fun _ => rfl⟩
  · rw [if_neg hw]
    have hnot : ¬ s.pending w := fun hp => hw (by simpa [Pool.pending] using hp)
    refine { h with dropped := ?_ }
    intro v hv hle hor
    refine h.dropped v hv hle (hor.imp_right fun hlt => ?_)
    have hne : v ≠ w := fun heq => hnot (heq ▸ hv)
    omega

/-- Each slot in flight was looked at. -/
theorem abandon (h : Ledger c n s writing looked)
    (hall : ∀ w, (s.slot w).inflight = true → w < looked) : Ledger c n s.abandon writing 0 :=
  { h with
    fresh := fun hf => absurd hf (by simp [Pool.abandon])
    dropped := fun v hv hle _ => h.dropped v hv hle (.inr (hall v hv.1))
    quiet := fun _ => .inl rfl }

theorem batch_end (h : Ledger c n s writing looked)
    (hsettled : s.abandoned = true ∨ ∀ w, (s.slot w).inflight = false) :
    Ledger c n s.batch_end writing looked :=
  { h with
    errors := fun hf => absurd hf (by simp [Pool.batch_end])
    quiet := fun _ => hsettled }

/-! ### The callback -/

/-- The callback tests the generation. What it is to count is a loss of the batch, unless the begin
of the batch stands between its stores. -/
theorem async_write_cb (h : Ledger c n s writing looked) {status : Status} {actual : ℕ}
    (hin : (s.slot w).inflight = true) (hout : (s.slot w).callback = .out)
    (hnow : n = s.generation ∨ (∀ v, s.pending v → (s.slot v).call < s.since) ∧ (c → ∀ counts,
      ((s.async_write_cb w status actual).slot w).callback = .tested counts → counts = false)) :
    Ledger c n (s.async_write_cb w status actual) writing looked := by
  unfold Pool.async_write_cb at hnow ⊢
  simp only [hin, hout, Bool.true_and, decide_true, if_true] at hnow ⊢
  have hother : ∀ {v : ℕ} (x : AsyncSlot), v ≠ w → Function.update s.slot w x v = s.slot v :=
    fun x hne => Function.update_of_ne hne x s.slot
  refine h.congr (.of_update rfl (fun _ => ⟨hin, rfl, rfl, rfl⟩) rfl rfl rfl) rfl rfl ?_ ?_ ?_
  · intro v hv _
    unfold Pool.pending
    dsimp only
    by_cases hvw : v = w
    · rw [hvw, Function.update_self]
      rw [hvw] at hv
      exact ⟨⟨rfl, hv.2⟩, rfl⟩
    · rw [hother _ hvw]
      exact ⟨hv, rfl⟩
  · intro v _
    dsimp only
    by_cases hvw : v = w
    · rw [hvw, Function.update_self, hout]
      simp
    · rw [hother _ hvw]
  · intro v counts hv
    unfold Pool.pending
    dsimp only at hv ⊢
    by_cases hvw : v = w
    · subst hvw
      rw [Function.update_self] at hv hnow ⊢
      obtain rfl := (Callback.tested.inj hv).symm
      refine ⟨fun hread => by simp_all, fun hp => ?_⟩
      have hread : (s.slot v).is_read = false := hp.2
      have hpending : s.pending v := ⟨hin, hread⟩
      have hgen := (h.current v hpending).2
      rcases hnow with rfl | ⟨hold, hlate⟩
      · refine ⟨fun hle => ?_, fun _ hlt => ?_⟩
        · simp [hread, hgen.mpr hle, AsyncSlot.whole]
        · have hne : ¬ (s.slot v).gen = s.generation :=
            fun heq => absurd (hgen.mp heq) (Nat.not_le.mpr hlt)
          simp [hne]
      · exact ⟨fun hle => absurd hle (Nat.not_le.mpr (hold v hpending)),
          fun hc _ => hlate hc _ rfl⟩
    · rw [hother _ hvw] at hv ⊢
      exact h.tested v counts hv

/-- A transfer that the callback has tested has no outcome yet. -/
theorem outcome_of_tested (h : Ledger c n s writing looked) {counts : Bool}
    (hcall : (s.slot w).callback = .tested counts) (hpending : s.pending w) :
    ∃ x, s.writes[(s.slot w).call]? = some x ∧ x.outcome = none := by
  obtain ⟨x, hx, hiff⟩ := h.call w hpending
  exact ⟨x, hx, hiff.mpr (by simp [hcall])⟩

/-- What the callback adds to the errors of a batch is a loss of the batch. -/
theorem counted_errors (h : Ledger c n s writing looked) {counts : Bool}
    (hcall : (s.slot w).callback = .tested counts) (hpending : s.pending w)
    (hopen : s.batch_open = true) :
    ((if counts then s.write_errors + 1 else s.write_errors) = 0 →
      NoLoss (Pool.set_outcome s.writes (s.slot w).call (s.slot w).whole) s.since) ∧
    (c → NoLoss (Pool.set_outcome s.writes (s.slot w).call (s.slot w).whole) s.since →
      (if counts then s.write_errors + 1 else s.write_errors) = 0) := by
  obtain ⟨x, hx, hnone⟩ := h.outcome_of_tested hcall hpending
  obtain ⟨hcurrent, hearlier⟩ := (h.tested w counts hcall).2 hpending
  obtain ⟨htells, honly⟩ := h.errors hopen
  unfold Pool.set_outcome
  by_cases hle : s.since ≤ (s.slot w).call
  · obtain rfl := hcurrent hle
    cases hwhole : (s.slot w).whole with
    | true =>
      have hsame : NoLoss (s.writes.modify (s.slot w).call ({ · with outcome := some true }))
          s.since ↔ NoLoss s.writes s.since := by
        apply noLoss_modify
        intro _ y hy
        obtain rfl : x = y := Option.some.inj (hx.symm.trans hy)
        simp [Issued.lost, hnone]
      simp only [Bool.not_true, Bool.false_eq_true, if_false]
      exact ⟨fun h0 => hsame.mpr (htells h0), fun hc hno => honly hc (hsame.mp hno)⟩
    | false =>
      simp only [Bool.not_false, if_true]
      refine ⟨fun h0 => absurd h0 (by simp), fun _ hno => absurd hno ?_⟩
      exact not_noLoss_modify hle hx (by simp [Issued.lost])
  · have hsame : NoLoss (s.writes.modify (s.slot w).call
        ({ · with outcome := some (s.slot w).whole })) s.since ↔ NoLoss s.writes s.since :=
      noLoss_modify fun hle' => absurd hle' hle
    refine ⟨fun h0 => hsame.mpr (htells ?_), fun hc hno => ?_⟩
    · cases counts with
      | false => exact h0
      | true => simp at h0
    · obtain rfl := hearlier hc (by omega)
      exact honly hc (hsame.mp hno)

/-- The callback counts what it is to count, and with that its transfer is over. -/
theorem count (h : Ledger c n s writing looked) (hslots : ∀ w, (s.slot w).callback ≠ .out →
    (s.slot w).inflight = true) (w : ℕ) : Ledger c n (s.count w) writing looked := by
  unfold Pool.count
  dsimp only
  split
  case h_2 => exact h
  case h_3 => exact h
  next counts hcall =>
  have hin := hslots w (by simp [hcall])
  cases hread : (s.slot w).is_read with
  | true =>
    obtain rfl := (h.tested w counts hcall).1 hread
    refine h.update_not_pending rfl (fun _ => ⟨hin, rfl, rfl, rfl⟩) ?_ ?_ ?_
      ⟨rfl, rfl, rfl, rfl, rfl⟩
    · exact fun hp => absurd (hread.symm.trans hp.2) (by simp)
    · simp [hread]
    · simp
  | false =>
    have hpending : s.pending w := ⟨hin, hread⟩
    simp only [Bool.false_eq_true, if_false]
    have hother : ∀ {v : ℕ} (x : AsyncSlot), v ≠ w → Function.update s.slot w x v = s.slot v :=
      fun x hne => Function.update_of_ne hne x s.slot
    refine h.modified
      { toStays := .of_update rfl (fun _ => ⟨hin, rfl, rfl, rfl⟩) rfl rfl rfl
        writes := rfl
        others := ?_
        given_up := fun _ hg => hg
        settles := fun _ => .inl rfl
        callback := ?_ } ?_ ?_ (fun hf => .inl hf) (h.counted_errors hcall hpending)
      (fun _ _ hlt => .inl hlt)
    · intro v _ hne
      refine hother _ ?_
      rintro rfl
      exact hne rfl
    · intro v b hv
      refine hother _ ?_
      rintro rfl
      simp at hv
    · intro y v _ hv hsame
      obtain rfl : v = w := by
        by_contra hne
        unfold Pool.pending at hv
        dsimp only at hv
        rw [hother _ hne] at hv
        exact hne (h.alone v w hv hpending hsame)
      simp
    · intro hwriting
      exact ⟨hwriting, (h.in_hand hwriting).2.2 w hpending⟩

/-- A slot whose transfer is over leaves the flight. -/
theorem land (h : Ledger c n s writing looked) (w : ℕ) : Ledger c n (s.land w) writing looked := by
  unfold Pool.land
  dsimp only
  split
  case isFalse => exact h
  next hcall =>
  refine h.update_not_pending rfl (fun hf => absurd hf (by simp)) (fun _ => hcall) ?_ ?_
    ⟨rfl, rfl, rfl, rfl, rfl⟩
  · simp
  · simp

end Ledger

end devourer.usb.pipelined
