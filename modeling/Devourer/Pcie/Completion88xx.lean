-- When a completion of an 88xx ring can be believed: the frames of the
-- waiting slots share one bounce buffer, and an index that has gone round
-- looks like one that was caught up with.
import Devourer.Pcie.Dma88xx
import Mathlib.Tactic.Ring

namespace devourer.pcie.Dma88xx

open Circular

variable {q : Queue} {s : Dma} {a : Act}

/-! ## The ring in the slab -/

/-- The ring and its bounce buffer are apart, and below 4 GiB. -/
structure Placed (r : TxRing) : Prop where
  apart : r.bd_iova + r.len * TX_BD_SLOT_SZ ≤ r.bounce_iova
  low : r.bounce_iova + r.bounce_len ≤ 2 ^ 32
  bounce_len : r.bounce_len = TX_BOUNCE_SZ
  len : 2 ≤ r.len ∧ r.len ≤ 256

theorem Queue.index_lt (q : Queue) : q.index < Q_MAX := by
  cases q <;> decide

theorem Queue.ring_len_bounds (hq : q ≠ .bcn) : 2 ≤ q.ring_len ∧ q.ring_len ≤ 256 := by
  cases q
  case bcn => exact absurd rfl hq
  all_goals decide

theorem placed_attach {slab_iova n size : ℕ} (hq : q ≠ .bcn)
    (hslab : slab_iova + slab_bytes n size ≤ 2 ^ 32) : Placed (attach slab_iova q) := by
  have hindex := q.index_lt
  have hlen := Queue.ring_len_bounds hq
  have htotal : Q_MAX * PAGE_SZ + Q_MAX * TX_BOUNCE_SZ ≤ slab_bytes n size := by
    unfold slab_bytes page_align
    refine le_trans ?_ (Layout.alignUp_spec (by decide) _).2.1
    omega
  unfold Q_MAX at hindex
  unfold Q_MAX PAGE_SZ TX_BOUNCE_SZ at htotal
  constructor
  · simp only [attach, Q_MAX, PAGE_SZ, TX_BOUNCE_SZ, TX_BD_SLOT_SZ]
    omega
  · simp only [attach, Q_MAX, PAGE_SZ, TX_BOUNCE_SZ]
    omega
  · rfl
  · exact hlen

/-- The register for the base of the ring holds all of it. -/
theorem Placed.base {r : TxRing} (h : Placed r) : r.bd_iova % 2 ^ 32 = r.bd_iova := by
  have hapart := h.apart
  have hlow := h.low
  rw [h.bounce_len, TX_BOUNCE_SZ] at hlow
  apply Nat.mod_eq_of_lt
  omega

/-! ## The frame behind a slot -/

/-- The place of a slot. -/
def TxRing.slot (r : TxRing) (i : ℕ) : ℕ := r.bd_iova + i * TX_BD_SLOT_SZ

/-- Slot `i` points at a frame of `len` bytes. -/
structure Points (q : Queue) (r : TxRing) (m : Memory) (i len : ℕ) : Prop where
  bounds : TX_PKT_DESC_SZ ≤ len ∧ len ≤ r.bounce_len
  desc : bd_read m (r.slot i) = entry0 r q len
  payload : bd_read m (r.slot i + RX_BD_SZ) = entry1 r len

/-- Slot `i` points at the bytes that `f` was filled with. -/
structure Stands (q : Queue) (r : TxRing) (m : Memory) (i : ℕ) (f : Fill) : Prop where
  points : Points q r m i f.bytes.length
  bytes : m.read r.bounce_iova f.bytes.length = f.bytes

variable {r : TxRing} {m : Memory} {i len : ℕ} {f : Fill}

/-- The hardware finds the start of the bounce buffer behind a slot. -/
theorem Points.presented (hr : Placed r) (h : Points q r m i len) :
    Dma.presented m (r.slot i) = m.read r.bounce_iova len := by
  obtain ⟨hmin, hmax⟩ := h.bounds
  have hlow := hr.low
  rw [hr.bounce_len] at hmax hlow
  unfold TX_PKT_DESC_SZ at hmin
  unfold TX_BOUNCE_SZ at hmax hlow
  have hdma0 : (entry0 r q len).dma.toNat = r.bounce_iova := by
    simp only [entry0, BitVec.toNat_ofNat]
    omega
  have hdma1 : (entry1 r len).dma.toNat = r.bounce_iova + TX_PKT_DESC_SZ := by
    simp only [entry1, BitVec.toNat_ofNat, TX_PKT_DESC_SZ]
    omega
  have hsize0 : (entry0 r q len).a.toNat = TX_PKT_DESC_SZ := rfl
  have hsize1 : (entry1 r len).a.toNat = len - TX_PKT_DESC_SZ := by
    simp only [entry1, BitVec.toNat_ofNat, TX_PKT_DESC_SZ]
    omega
  have hsplit : TX_PKT_DESC_SZ + (len - TX_PKT_DESC_SZ) = len := by
    unfold TX_PKT_DESC_SZ
    omega
  simp only [Dma.presented, h.desc, h.payload, hdma0, hdma1, hsize0, hsize1]
  rw [← Memory.read_add, hsplit]

theorem Stands.presented (hr : Placed r) (h : Stands q r m i f) :
    Dma.presented m (r.slot i) = f.bytes := by
  rw [h.points.presented hr, h.bytes]

/-- A store in the bounce buffer leaves the slots alone. -/
theorem Points.store (hr : Placed r) (hi : i < r.len) (h : Points q r m i len) (k : ℕ) (x : UInt8) :
    Points q r (m.write (r.bounce_iova + k) [x]) i len := by
  have hin : (i + 1) * TX_BD_SLOT_SZ ≤ r.len * TX_BD_SLOT_SZ := Nat.mul_le_mul_right _ hi
  have hbelow : r.slot i + TX_BD_SLOT_SZ ≤ r.bounce_iova := by
    have hapart := hr.apart
    rw [Nat.add_mul] at hin
    unfold TxRing.slot
    omega
  unfold TX_BD_SLOT_SZ at hbelow
  refine ⟨h.bounds, ?_, ?_⟩
  · rw [bd_read_apart (by unfold BD_SZ; omega), h.desc]
  · rw [bd_read_apart (by unfold BD_SZ RX_BD_SZ; omega), h.payload]

/-- The two writes that fill a slot. -/
def fill_slot (q : Queue) (r : TxRing) (m : Memory) (j len : ℕ) : Memory :=
  bd_write (bd_write m (r.slot j) (entry0 r q len)) (r.slot j + RX_BD_SZ)
    (entry1 r len)

theorem points_fill_slot (q : Queue) (r : TxRing) (m : Memory) (j : ℕ)
    (h : TX_PKT_DESC_SZ ≤ len ∧ len ≤ r.bounce_len) :
    Points q r (fill_slot q r m j len) j len := by
  refine ⟨h, ?_, ?_⟩
  · unfold fill_slot
    rw [bd_read_write_apart (by unfold BD_SZ RX_BD_SZ; omega), bd_read_write]
  · exact bd_read_write _ _ _

/-- A slot that is filled leaves the others alone. -/
theorem Points.fill_slot {j n : ℕ} (h : Points q r m i len) (hij : i ≠ j) :
    Points q r (fill_slot q r m j n) i len := by
  have hapart : r.slot i + TX_BD_SLOT_SZ ≤ r.slot j ∨ r.slot j + TX_BD_SLOT_SZ ≤ r.slot i := by
    unfold TxRing.slot TX_BD_SLOT_SZ
    omega
  unfold TX_BD_SLOT_SZ at hapart
  refine ⟨h.bounds, ?_, ?_⟩
  · unfold Dma88xx.fill_slot
    rw [bd_read_write_apart (by unfold BD_SZ RX_BD_SZ; omega),
      bd_read_write_apart (by unfold BD_SZ; omega), h.desc]
  · unfold Dma88xx.fill_slot
    rw [bd_read_write_apart (by unfold BD_SZ RX_BD_SZ; omega),
      bd_read_write_apart (by unfold BD_SZ RX_BD_SZ; omega), h.payload]

/-- A slot that is filled leaves the bounce buffer alone. -/
theorem read_fill_slot {j n k : ℕ} (hr : Placed r) (hj : j < r.len) :
    (fill_slot q r m j n).read r.bounce_iova k = m.read r.bounce_iova k := by
  have hin : (j + 1) * TX_BD_SLOT_SZ ≤ r.len * TX_BD_SLOT_SZ := Nat.mul_le_mul_right _ hj
  have hbelow : r.slot j + TX_BD_SLOT_SZ ≤ r.bounce_iova := by
    have hapart := hr.apart
    rw [Nat.add_mul] at hin
    unfold TxRing.slot
    omega
  unfold TX_BD_SLOT_SZ at hbelow
  unfold fill_slot bd_write
  rw [Memory.read_write_apart, Memory.read_write_apart]
  · rw [Bd.length_bytes]
    unfold BD_SZ
    omega
  · rw [Bd.length_bytes]
    unfold BD_SZ RX_BD_SZ
    omega

/-! ## The invariant -/

/-- What holds where the call stands. -/
def At (q : Queue) (s : Dma) : Prop :=
  match s.pc with
  | .idle => True
  | .copy buf i => (TX_PKT_DESC_SZ ≤ buf.length ∧ buf.length ≤ s.r.bounce_len) ∧ i ≤ buf.length ∧
    s.mem.read s.r.bounce_iova i = buf.take i
  | .bd buf => (TX_PKT_DESC_SZ ≤ buf.length ∧ buf.length ≤ s.r.bounce_len) ∧
    s.mem.read s.r.bounce_iova buf.length = buf
  | .kick buf => s.fills s.r.wp = some ⟨s.calls, buf⟩ ∧ Stands q s.r s.mem s.r.wp ⟨s.calls, buf⟩
  | .wait => (s.outstanding = 0 → ∃ t ∈ s.taken, t.fill.map Fill.call = some s.calls) ∧
    ∀ k, s.outstanding = k + 1 → (s.due k).map Fill.call = some s.calls

/-- Each slot that is due has the frame of the call that filled it. -/
def AllDue (q : Queue) (s : Dma) : Prop := ∀ k < s.outstanding, ∃ f, s.due k = some f ∧
  Stands q s.r s.mem ((s.hw_rp + k) % s.r.len) f

structure Sound (q : Queue) (s : Dma) : Prop where
  ring : Placed s.r
  indices : s.r.wp < s.r.len ∧ s.hw_rp < s.r.len ∧ s.host_idx = s.r.wp
  due : AllDue q s
  honest : s.Honest
  at_pc : At q s

theorem sound_start {slab_iova n size : ℕ} (hq : q ≠ .bcn)
    (hslab : slab_iova + slab_bytes n size ≤ 2 ^ 32) (mem : Memory) :
    Sound q (start slab_iova q mem) := by
  have hr := placed_attach hq hslab
  have hpos : 0 < (attach slab_iova q).len := by
    have hlen := hr.len
    omega
  have hnone : (start slab_iova q mem).outstanding = 0 := ahead_self hpos
  refine ⟨hr, ⟨hpos, hpos, rfl⟩, ?_, ⟨nofun, nofun⟩, trivial⟩
  intro k hk
  rw [hnone] at hk
  exact absurd hk (Nat.not_lt_zero k)

/-! ## The steps of a call -/

theorem sound_tx_submit_sync (h : Sound q s) (buf : Bytes) : Sound q (s.tx_submit_sync buf) := by
  unfold Dma.tx_submit_sync
  split
  · exact h
  · split
    · exact h
    · rename_i hlen
      rw [not_or, Nat.not_lt, Nat.not_lt] at hlen
      exact ⟨h.ring, h.indices, h.due, h.honest, hlen, Nat.zero_le _, rfl⟩

/-- The slots that are due, after a step that moves neither index. -/
theorem due_keeps {s' : Dma} (h : Sound q s) (hr : s'.r = s.r) (hhw : s'.hw_rp = s.hw_rp)
    (hhost : s'.host_idx = s.host_idx)
    (hstands : ∀ k < s.outstanding, ∀ f, s.due k = some f →
      Stands q s.r s.mem ((s.hw_rp + k) % s.r.len) f →
      s'.due k = some f ∧ Stands q s.r s'.mem ((s.hw_rp + k) % s.r.len) f) : AllDue q s' := by
  intro k hk
  unfold Dma.outstanding at hk
  rw [hr, hhw, hhost] at hk
  obtain ⟨f, hf, hst⟩ := h.due k hk
  rw [hr, hhw]
  exact ⟨f, hstands k hk f hf hst⟩

/-- One byte more of the frame stands in the bounce buffer. -/
theorem sound_store {buf : Bytes} {i : ℕ} (h : Sound q s) (hpc : s.pc = .copy buf i)
    (hi : i < buf.length) (hspares : ∀ k < s.outstanding, ∀ f ∈ s.due k, i < f.bytes.length →
      byteAt f.bytes i = byteAt buf i) :
    Sound q { s with
      mem := s.mem.write (s.r.bounce_iova + i) [byteAt buf i], pc := .copy buf (i + 1) } := by
  have hat := h.at_pc
  simp only [At, hpc] at hat
  obtain ⟨hlen, -, hread⟩ := hat
  have hpos : 0 < s.r.len := Nat.lt_of_le_of_lt (Nat.zero_le _) h.indices.1
  refine ⟨h.ring, h.indices, ?_, h.honest, hlen, hi, ?_⟩
  · refine due_keeps h rfl rfl rfl ?_
    intro k hk f hf hst
    refine ⟨hf, hst.points.store h.ring (Nat.mod_lt _ hpos) i _, ?_⟩
    have hsame : i < f.bytes.length → s.mem (s.r.bounce_iova + i) = byteAt buf i := by
      intro hin
      rw [← hspares k hk f hf hin, ← Memory.byteAt_read (m := s.mem) hin, hst.bytes]
    exact (Memory.read_write_same hsame).trans hst.bytes
  · have hsucc : buf.take (i + 1) = buf.take i ++ [byteAt buf i] := by
      rw [List.take_add_one, List.getElem?_eq_getElem hi, byteAt, List.getD_eq_getElem _ _ hi]
      rfl
    rw [hsucc, ← hread]
    exact Memory.read_write_snoc _ _ _ _

/-- The write index is the end of the slots that are due. -/
theorem cell_outstanding (h : Sound q s) : (s.hw_rp + s.outstanding) % s.r.len = s.r.wp := by
  obtain ⟨hwp, hhw, hhost⟩ := h.indices
  unfold Dma.outstanding
  rw [hhost]
  exact cell_ahead hhw hwp

/-- The slot at the write index is none of those that are due. -/
theorem due_ne_wp {k : ℕ} (h : Sound q s) (hk : k < s.outstanding) :
    (s.hw_rp + k) % s.r.len ≠ s.r.wp := by
  obtain ⟨hwp, hhw, hhost⟩ := h.indices
  have hlt : s.outstanding < s.r.len := ahead_lt hhw
  intro heq
  have hsame := cell_inj hhw (by omega) hlt (heq.trans (cell_outstanding h).symm)
  omega

theorem sound_bd {buf : Bytes} (h : Sound q s) (hpc : s.pc = .bd buf) :
    Sound q { s with
      mem := fill_slot q s.r s.mem s.r.wp buf.length
      fills := Function.update s.fills s.r.wp (some ⟨s.calls, buf⟩)
      pc := .kick buf } := by
  have hat := h.at_pc
  simp only [At, hpc] at hat
  obtain ⟨hlen, hread⟩ := hat
  refine ⟨h.ring, h.indices, ?_, h.honest, ?_, ?_⟩
  · refine due_keeps h rfl rfl rfl ?_
    intro k hk f hf hst
    have hne := due_ne_wp h hk
    refine ⟨?_, hst.points.fill_slot hne, ?_⟩
    · exact (Function.update_of_ne hne _ _).trans hf
    · exact (read_fill_slot h.ring h.indices.1).trans hst.bytes
  · exact Function.update_self _ _ _
  · refine ⟨points_fill_slot q s.r s.mem s.r.wp hlen, ?_⟩
    exact (read_fill_slot h.ring h.indices.1).trans hread

theorem masked_index {n : ℕ} (h : n < 256) : (n &&& TRX_BD_IDX_MASK) % 2 ^ 16 = n := by
  have hmask : n &&& TRX_BD_IDX_MASK = n % 2 ^ 12 := Nat.and_two_pow_sub_one_eq_mod n 12
  rw [hmask]
  omega

/-- The hardware index is read back. -/
theorem hw_index (hhw : s.hw_rp < 256) (hhost : s.host_idx < 256) :
    (s.idx >>> 16) &&& TRX_BD_IDX_MASK = s.hw_rp := by
  have hor : s.hw_rp <<< 16 ||| s.host_idx = s.hw_rp <<< 16 + s.host_idx :=
    (Nat.shiftLeft_add_eq_or_of_lt (by omega) s.hw_rp).symm
  have hmask : ∀ n, n &&& TRX_BD_IDX_MASK = n % 2 ^ 12 := fun n =>
    Nat.and_two_pow_sub_one_eq_mod n 12
  unfold Dma.idx
  rw [hor, hmask, Nat.shiftLeft_eq, Nat.shiftRight_eq_div_pow]
  omega

/-- What stands in a slot does not depend on the write index. -/
theorem Stands.moved {wp : ℕ} (h : Stands q r m i f) : Stands q { r with wp } m i f :=
  ⟨⟨h.points.bounds, h.points.desc, h.points.payload⟩, h.bytes⟩

/-- The write index moves on, past the slot of the call. -/
def Dma.kicked (s : Dma) : Dma :=
  { s with
    r := { s.r with wp := (s.r.wp + 1) % s.r.len }
    host_idx := ((s.r.wp + 1) % s.r.len &&& TRX_BD_IDX_MASK) % 2 ^ 16
    pc := .wait }

theorem host_idx_kicked (h : Sound q s) : s.kicked.host_idx = (s.r.wp + 1) % s.r.len := by
  have hlen := h.ring.len
  have hnext : (s.r.wp + 1) % s.r.len < s.r.len := Nat.mod_lt _ (by omega)
  exact masked_index (by omega)

theorem outstanding_kicked (h : Sound q s) (hroom : s.outstanding + 1 < s.r.len) :
    s.kicked.outstanding = s.outstanding + 1 := by
  obtain ⟨hwp, hhw, hhost⟩ := h.indices
  unfold Dma.outstanding at hroom ⊢
  rw [hhost] at hroom ⊢
  rw [host_idx_kicked h]
  exact ahead_succ_right hhw hwp hroom

theorem sound_kick {buf : Bytes} (h : Sound q s) (hpc : s.pc = .kick buf)
    (hroom : s.outstanding + 1 < s.r.len) : Sound q s.kicked := by
  obtain ⟨hwp, hhw, hhost⟩ := h.indices
  have hat := h.at_pc
  simp only [At, hpc] at hat
  obtain ⟨hfill, hst⟩ := hat
  have hlen := h.ring.len
  have hnext : (s.r.wp + 1) % s.r.len < s.r.len := Nat.mod_lt _ (by omega)
  have hcell := cell_outstanding h
  have hout := outstanding_kicked h hroom
  refine ⟨⟨h.ring.apart, h.ring.low, h.ring.bounce_len, h.ring.len⟩,
    ⟨hnext, hhw, host_idx_kicked h⟩, ?_, h.honest, ?_, ?_⟩
  · intro k hk
    replace hk : k < s.outstanding + 1 := hout ▸ hk
    by_cases hlast : k = s.outstanding
    · subst hlast
      refine ⟨⟨s.calls, buf⟩, ?_, ?_⟩
      · exact (congrArg s.fills hcell).trans hfill
      · have hlast : Stands q s.r s.mem ((s.hw_rp + s.outstanding) % s.r.len) ⟨s.calls, buf⟩ := by
          rw [hcell]
          exact hst
        exact hlast.moved
    · obtain ⟨f, hf, hst⟩ := h.due k (by omega)
      exact ⟨f, hf, hst.moved⟩
  · intro hzero
    exact absurd (hout.symm.trans hzero) (Nat.succ_ne_zero _)
  · intro k hk
    obtain rfl : s.outstanding = k := Nat.succ.inj (hout.symm.trans hk)
    exact congrArg (Option.map Fill.call) ((congrArg s.fills hcell).trans hfill)

/-- A wait that ends well ends with the slot of the call consumed. -/
theorem sound_wait (h : Sound q s) (hpc : s.pc = .wait)
    (hidx : (s.idx >>> 16) &&& TRX_BD_IDX_MASK = s.r.wp) :
    Sound q { s with pc := .idle, returned := s.calls :: s.returned } := by
  obtain ⟨hwp, hhw, hhost⟩ := h.indices
  have hat := h.at_pc
  simp only [At, hpc] at hat
  have hlen := h.ring.len
  have hnone : s.outstanding = 0 := by
    rw [hw_index (by omega) (by omega)] at hidx
    exact (ahead_eq_zero hhw (hhost ▸ hwp)).mpr (hidx.trans hhost.symm)
  refine ⟨h.ring, h.indices, h.due, ⟨h.honest.1, ?_⟩, trivial⟩
  intro c hc
  rcases List.mem_cons.mp hc with rfl | hc
  · exact hat.1 hnone
  · exact h.honest.2 c hc

theorem sound_host (hq : q ≠ .bcn) (h : Sound q s) (late : Bool) (hs : s.Spares (.host late)) :
    Sound q (s.host q late) := by
  replace hs : s.SparesAt s.pc := hs
  unfold Dma.SparesAt at hs
  unfold Dma.host
  split
  · exact h
  · rename_i buf i hpc
    simp only [hpc] at hs
    split
    · exact sound_store h hpc ‹_› (hs ‹_›)
    · have hat := h.at_pc
      simp only [At, hpc] at hat
      obtain ⟨hlen, hle, hread⟩ := hat
      obtain rfl : i = buf.length := by omega
      refine ⟨h.ring, h.indices, h.due, h.honest, hlen, ?_⟩
      rw [List.take_length] at hread
      exact hread
  · simp only [if_neg hq]
    exact sound_bd h ‹_›
  · rename_i buf hpc
    simp only [hpc] at hs
    rw [if_neg hq]
    exact sound_kick h hpc hs
  · split
    · exact sound_wait h ‹_› ‹_›
    · split
      · exact ⟨h.ring, h.indices, h.due, h.honest, trivial⟩
      · exact h

/-! ## The steps of the hardware -/

theorem consume_eq (hne : s.hw_rp ≠ s.host_idx) : s.consume = { s with
    hw_rp := (s.hw_rp + 1) % s.r.len
    taken := ⟨s.fills s.hw_rp,
      Dma.presented s.mem (s.r.bd_iova % 2 ^ 32 + s.hw_rp * TX_BD_SLOT_SZ)⟩ :: s.taken } :=
  if_neg hne

theorem outstanding_consume (hhw : s.hw_rp < s.r.len) (hhost : s.host_idx < s.r.len)
    (hne : s.hw_rp ≠ s.host_idx) : s.consume.outstanding + 1 = s.outstanding := by
  rw [consume_eq hne]
  exact ahead_succ_left hhw hhost hne

theorem due_consume (hne : s.hw_rp ≠ s.host_idx) (k : ℕ) : s.consume.due k = s.due (k + 1) := by
  rw [consume_eq hne]
  exact congrArg s.fills (cell_succ s.hw_rp k s.r.len)

theorem ne_of_outstanding (hhw : s.hw_rp < s.r.len) (hhost : s.host_idx < s.r.len)
    (h : 0 < s.outstanding) : s.hw_rp ≠ s.host_idx := by
  intro heq
  have hnone : s.outstanding = 0 := (ahead_eq_zero hhw hhost).mpr heq
  omega

theorem sound_consume (h : Sound q s) : Sound q s.consume := by
  obtain ⟨hwp, hhw, hhost⟩ := h.indices
  unfold Dma.consume
  split
  · exact h
  · rename_i hne
    have hlen := h.ring.len
    have hnext : (s.hw_rp + 1) % s.r.len < s.r.len := Nat.mod_lt _ (by omega)
    have hout : ahead s.r.len ((s.hw_rp + 1) % s.r.len) s.host_idx + 1 = s.outstanding :=
      ahead_succ_left hhw (hhost ▸ hwp) hne
    obtain ⟨f, hf, hst⟩ := h.due 0 (by omega)
    have hfirst : (s.hw_rp + 0) % s.r.len = s.hw_rp := Nat.mod_eq_of_lt hhw
    rw [hfirst] at hst
    have hfill : s.fills s.hw_rp = some f := (congrArg s.fills hfirst).symm.trans hf
    have hpres : Dma.presented s.mem (s.r.bd_iova % 2 ^ 32 + s.hw_rp * TX_BD_SLOT_SZ) =
        f.bytes := by
      rw [h.ring.base]
      exact hst.presented h.ring
    refine ⟨h.ring, ⟨hwp, hnext, hhost⟩, ?_, ⟨?_, ?_⟩, ?_⟩
    · intro k hk
      obtain ⟨g, hg, hgst⟩ := h.due (k + 1) (by
        rw [← hout]
        exact Nat.succ_lt_succ hk)
      have hcell := cell_succ s.hw_rp k s.r.len
      exact ⟨g, (congrArg s.fills hcell).trans hg, hcell ▸ hgst⟩
    · intro t ht
      rcases List.mem_cons.mp ht with rfl | ht
      · simp only [hfill, hpres, Option.map_some]
      · exact h.honest.1 t ht
    · intro c hc
      obtain ⟨t, ht, hcall⟩ := h.honest.2 c hc
      exact ⟨t, List.mem_cons_of_mem _ ht, hcall⟩
    · have hat := h.at_pc
      cases hpc : s.pc
      case idle => simp only [At]
      case wait =>
        simp only [At, hpc] at hat ⊢
        constructor
        · intro hnone
          have hlast : s.outstanding = 0 + 1 := hout.symm.trans (congrArg (· + 1) hnone)
          have hcall := hat.2 0 hlast
          rw [hf] at hcall
          refine ⟨_, List.mem_cons_self, ?_⟩
          rw [hfill]
          exact hcall
        · intro k hk
          have hcall := hat.2 (k + 1) (hout.symm.trans (congrArg (· + 1) hk))
          exact (congrArg (fun i => (s.fills i).map Fill.call) (cell_succ s.hw_rp k s.r.len)).trans
            hcall
      all_goals
        simp only [At, hpc] at hat ⊢
        exact hat

theorem sound_step (hq : q ≠ .bcn) (a : Act) (hs : s.Spares a) (h : Sound q s) :
    Sound q (step q s a) := by
  cases a with
  | tx_submit_sync buf => exact sound_tx_submit_sync h buf
  | host late => exact sound_host hq h late hs
  | consume => exact sound_consume h

/-! ## Runs -/

theorem sound_run {slab_iova n size : ℕ} (hq : q ≠ .bcn)
    (hslab : slab_iova + slab_bytes n size ≤ 2 ^ 32) (mem : Memory) (acts : List Act)
    (hs : Runs.Along (step q) Dma.Spares (start slab_iova q mem) acts) :
    Sound q (Runs.after (step q) (start slab_iova q mem) acts) :=
  Runs.after_keeps_along (step q) _ (sound_start hq hslab mem)
    (fun _ a hs h => sound_step hq a hs h)
    acts hs

/-! ## The numbers of the calls -/

/-- The least number that no slot has which waits or was taken. -/
def Dma.fresh (s : Dma) : ℕ :=
  match s.pc with
  | .copy _ _ | .bd _ | .kick _ => s.calls
  | .idle | .wait => s.calls + 1

structure Numbered (s : Dma) : Prop where
  due : ∀ k < s.outstanding, ∀ f ∈ s.due k, f.call < s.fresh
  taken : ∀ t ∈ s.taken, ∀ f ∈ t.fill, f.call < s.fresh

theorem Numbered.later {s' : Dma} (h : Numbered s) (hout : s'.outstanding = s.outstanding)
    (hdue : ∀ k < s.outstanding, s'.due k = s.due k) (htaken : s'.taken = s.taken)
    (hfresh : s.fresh ≤ s'.fresh) : Numbered s' := by
  constructor
  · intro k hk f hf
    rw [hout] at hk
    rw [hdue k hk] at hf
    exact Nat.lt_of_lt_of_le (h.due k hk f hf) hfresh
  · intro t ht f hf
    rw [htaken] at ht
    exact Nat.lt_of_lt_of_le (h.taken t ht f hf) hfresh

theorem numbered_consume (hs : Sound q s) (h : Numbered s) : Numbered s.consume := by
  obtain ⟨hwp, hhw, hhost⟩ := hs.indices
  unfold Dma.consume
  split
  · exact h
  · rename_i hne
    have hout : ahead s.r.len ((s.hw_rp + 1) % s.r.len) s.host_idx + 1 = s.outstanding :=
      ahead_succ_left hhw (hhost ▸ hwp) hne
    constructor
    · intro k hk f hf
      have hdue : s.due (k + 1) = some f :=
        (congrArg s.fills (cell_succ s.hw_rp k s.r.len)).symm.trans hf
      apply h.due (k + 1) ?_ f hdue
      rw [← hout]
      exact Nat.succ_lt_succ hk
    · intro t ht f hf
      rcases List.mem_cons.mp ht with rfl | ht
      · have hdue : s.due 0 = some f :=
          (congrArg s.fills (Nat.mod_eq_of_lt hhw)).trans hf
        exact h.due 0 (by omega) f hdue
      · exact h.taken t ht f hf

theorem numbered_host (hq : q ≠ .bcn) (hs : Sound q s) (late : Bool)
    (hspares : s.Spares (.host late)) (h : Numbered s) : Numbered (s.host q late) := by
  replace hspares : s.SparesAt s.pc := hspares
  unfold Dma.SparesAt at hspares
  unfold Dma.host
  split
  · exact h
  · rename_i buf i hpc
    have hfresh : s.fresh = s.calls := by simp only [Dma.fresh, hpc]
    split
    · exact h.later rfl (fun _ _ => rfl) rfl (Nat.le_of_eq hfresh)
    · exact h.later rfl (fun _ _ => rfl) rfl (Nat.le_of_eq hfresh)
  · rename_i buf hpc
    have hfresh : s.fresh = s.calls := by simp only [Dma.fresh, hpc]
    simp only [if_neg hq]
    refine h.later rfl ?_ rfl (Nat.le_of_eq hfresh)
    intro k hk
    exact Function.update_of_ne (due_ne_wp hs hk) _ _
  · rename_i buf hpc
    simp only [hpc] at hspares
    rw [if_neg hq]
    have hfresh : s.fresh = s.calls := by simp only [Dma.fresh, hpc]
    have hat := hs.at_pc
    simp only [At, hpc] at hat
    constructor
    · intro k hk f hf
      replace hk : k < s.outstanding + 1 := outstanding_kicked hs hspares ▸ hk
      by_cases hlast : k = s.outstanding
      · have hdue : s.due k = some ⟨s.calls, buf⟩ := by
          rw [hlast]
          exact (congrArg s.fills (cell_outstanding hs)).trans hat.1
        obtain rfl := Option.some.inj (hdue.symm.trans hf)
        exact Nat.lt_succ_self _
      · have hlt := h.due k (by omega) f hf
        rw [hfresh] at hlt
        exact Nat.lt_succ_of_lt hlt
    · intro t ht f hf
      have hlt := h.taken t ht f hf
      rw [hfresh] at hlt
      exact Nat.lt_succ_of_lt hlt
  · rename_i hpc
    have hfresh : s.fresh = s.calls + 1 := by simp only [Dma.fresh, hpc]
    split
    · exact h.later rfl (fun _ _ => rfl) rfl (Nat.le_of_eq hfresh)
    · split
      · exact h.later rfl (fun _ _ => rfl) rfl (Nat.le_of_eq hfresh)
      · exact h

theorem numbered_step (hq : q ≠ .bcn) (hs : Sound q s) (a : Act) (hspares : s.Spares a)
    (h : Numbered s) : Numbered (step q s a) := by
  cases a with
  | tx_submit_sync buf =>
    dsimp only [step]
    unfold Dma.tx_submit_sync
    split
    · exact h
    · rename_i hpc
      have hfresh : s.fresh = s.calls + 1 := by
        simp only [Dma.fresh, not_not.mp hpc]
      split
      · exact h
      · exact h.later rfl (fun _ _ => rfl) rfl (Nat.le_of_eq hfresh)
  | host late => exact numbered_host hq hs late hspares h
  | consume => exact numbered_consume hs h

theorem numbered_run {slab_iova n size : ℕ} (hq : q ≠ .bcn)
    (hslab : slab_iova + slab_bytes n size ≤ 2 ^ 32) (mem : Memory) (acts : List Act)
    (hs : Runs.Along (step q) Dma.Spares (start slab_iova q mem) acts) :
    Numbered (Runs.after (step q) (start slab_iova q mem) acts) := by
  have hboth := Runs.after_keeps_along (P := fun s => Sound q s ∧ Numbered s) (step q) _
    ⟨sound_start hq hslab mem, ?_⟩ (fun s a hs h => ⟨sound_step hq a hs h.1,
      numbered_step hq h.1 a hs h.2⟩) acts hs
  · exact hboth.2
  · constructor
    · intro k _ f hf
      cases hf
    · nofun

/-! ## What a step leads to that is not spared -/

/-- The hardware consumes `n` slots. -/
def drain (n : ℕ) : List Act := List.replicate n .consume

theorem spares_drain (n : ℕ) (s : Dma) : Runs.Along (step q) Dma.Spares s (drain n) := by
  apply Runs.along_of_forall
  intro s a ha
  rw [List.eq_of_mem_replicate ha]
  trivial

/-- Slot after slot is taken with what the memory has. -/
theorem taken_drain {k : ℕ} (hhw : s.hw_rp < s.r.len) (hhost : s.host_idx < s.r.len)
    (hk : k < s.outstanding) :
    ⟨s.due k, Dma.presented s.mem
      (s.r.bd_iova % 2 ^ 32 + (s.hw_rp + k) % s.r.len * TX_BD_SLOT_SZ)⟩ ∈
      (Runs.after (step q) s (drain (k + 1))).taken := by
  induction k generalizing s with
  | zero =>
    have hne := ne_of_outstanding hhw hhost hk
    have hfirst : (s.hw_rp + 0) % s.r.len = s.hw_rp := Nat.mod_eq_of_lt hhw
    unfold Dma.due
    rw [hfirst]
    change _ ∈ s.consume.taken
    rw [consume_eq hne]
    exact List.mem_cons_self
  | succ k ih =>
    have hne := ne_of_outstanding hhw hhost (Nat.lt_of_le_of_lt (Nat.zero_le _) hk)
    have hout := outstanding_consume hhw hhost hne
    have hdue := due_consume hne k
    have hcell := cell_succ s.hw_rp k s.r.len
    rw [consume_eq hne] at hout hdue
    have hnext : (s.hw_rp + 1) % s.r.len < s.r.len :=
      Nat.mod_lt _ (Nat.lt_of_le_of_lt (Nat.zero_le _) hhw)
    have hmem := ih (s := { s with
      hw_rp := (s.hw_rp + 1) % s.r.len
      taken := ⟨s.fills s.hw_rp,
        Dma.presented s.mem (s.r.bd_iova % 2 ^ 32 + s.hw_rp * TX_BD_SLOT_SZ)⟩ :: s.taken })
      hnext hhost (by omega)
    rw [hdue] at hmem
    dsimp only at hmem
    rw [hcell, ← consume_eq hne] at hmem
    exact hmem

/-- A byte stored over that of a waiting frame is what the hardware presents in the end. -/
theorem dishonest_store (h : Sound q s) {buf : Bytes} {i k : ℕ} (hpc : s.pc = .copy buf i)
    (hi : i < buf.length) (hk : k < s.outstanding) (hf : s.due k = some f)
    (hin : i < f.bytes.length) (hne : byteAt f.bytes i ≠ byteAt buf i) (late : Bool) :
    ¬(Runs.after (step q) s (.host late :: drain (k + 1))).Honest := by
  obtain ⟨hwp, hhw, hhost⟩ := h.indices
  obtain ⟨g, hg, hst⟩ := h.due k hk
  obtain rfl := Option.some.inj (hf.symm.trans hg)
  have hcell : (s.hw_rp + k) % s.r.len < s.r.len := Nat.mod_lt _ (by omega)
  have hstep : step q s (.host late) = { s with
      mem := s.mem.write (s.r.bounce_iova + i) [byteAt buf i], pc := .copy buf (i + 1) } := by
    simp only [step, Dma.host, hpc, if_pos hi]
  have htaken := taken_drain (q := q) (s := step q s (.host late)) (k := k)
  rw [hstep] at htaken
  have hmem := htaken hhw (hhost ▸ hwp) hk
  intro hhonest
  rw [Runs.after_cons, hstep] at hhonest
  have hbytes := hhonest.1 _ hmem
  have hpres := (hst.points.store h.ring hcell i (byteAt buf i)).presented h.ring
  have hfill : f.bytes = (s.mem.write (s.r.bounce_iova + i) [byteAt buf i]).read s.r.bounce_iova
      f.bytes.length := by
    rw [← hpres]
    apply Option.some.inj
    rw [h.ring.base] at hbytes
    exact (congrArg (Option.map Fill.bytes) hf).symm.trans hbytes
  apply hne
  rw [hfill, Memory.byteAt_read hin, Memory.write_in (Nat.le_refl _) (by simp)]
  simp [byteAt]

/-- An index that goes round to the hardware's is read as a slot consumed. -/
theorem dishonest_kick (hq : q ≠ .bcn) (h : Sound q s) (hn : Numbered s) {buf : Bytes}
    (hpc : s.pc = .kick buf) (hfull : ¬s.outstanding + 1 < s.r.len) (late : Bool) :
    ¬(Runs.after (step q) s [.host late, .host false]).Honest := by
  obtain ⟨hwp, hhw, hhost⟩ := h.indices
  have hlen := h.ring.len
  have hlt : s.outstanding < s.r.len := ahead_lt hhw
  have hround : (s.r.wp + 1) % s.r.len = s.hw_rp := by
    apply ahead_succ_full hhw hwp
    unfold Dma.outstanding at hfull hlt
    rw [hhost] at hfull hlt
    omega
  have hkick : step q s (.host late) = s.kicked := by
    simp only [step, Dma.host, hpc, if_neg hq]
    rfl
  have hidx : (s.kicked.idx >>> 16) &&& TRX_BD_IDX_MASK = s.kicked.r.wp := by
    rw [hw_index]
    · exact hround.symm
    · exact Nat.lt_of_lt_of_le hhw hlen.2
    · rw [host_idx_kicked h, hround]
      exact Nat.lt_of_lt_of_le hhw hlen.2
  have hwait : step q s.kicked (.host false) =
      { s.kicked with pc := .idle, returned := s.calls :: s.returned } := if_pos hidx
  have hfresh : s.fresh = s.calls := by simp only [Dma.fresh, hpc]
  intro hhonest
  rw [Runs.after_cons, hkick, Runs.after_cons, hwait] at hhonest
  obtain ⟨t, ht, hcall⟩ := hhonest.2 s.calls List.mem_cons_self
  obtain ⟨f, hf, hcall⟩ := Option.map_eq_some_iff.mp hcall
  have hltf := hn.taken t ht f hf
  rw [hfresh, hcall] at hltf
  exact Nat.lt_irrefl _ hltf

/-- A step that is not spared can be continued to a completion that is not honest. -/
theorem dishonest_of_not_spares (hq : q ≠ .bcn) (h : Sound q s) (hn : Numbered s)
    (hs : ¬s.Spares a) : ∃ more, Runs.Along (step q) Dma.Spares (step q s a) more ∧
      ¬(Runs.after (step q) s (a :: more)).Honest := by
  cases a with
  | tx_submit_sync buf => exact absurd trivial hs
  | consume => exact absurd trivial hs
  | host late =>
    replace hs : ¬s.SparesAt s.pc := hs
    unfold Dma.SparesAt at hs
    cases hpc : s.pc with
    | copy buf i =>
      simp only [hpc, not_forall] at hs
      obtain ⟨hi, k, hk, f, hf, hin, hne⟩ := hs
      exact ⟨drain (k + 1), spares_drain _ _, dishonest_store h hpc hi hk hf hin hne late⟩
    | kick buf =>
      simp only [hpc] at hs
      refine ⟨[.host false], ⟨?_, trivial⟩, dishonest_kick hq h hn hpc hs late⟩
      simp only [step, Dma.host, hpc, if_neg hq, Dma.Spares, Dma.SparesAt]
    | idle | bd _ | wait => simp [hpc] at hs

/-! ## The completion -/

/-- On every queue but the beacon queue the completions are honest in every run that spares the
frames that wait; and from each step that does not spare them, a run goes on, sparing them, to a
completion that is not honest. -/
theorem a_ring_is_honest_while_it_spares_what_waits (q : Queue) (hq : q ≠ .bcn)
    (slab_iova rx_ring_len rx_buf_size : ℕ)
    (hslab : slab_iova + slab_bytes rx_ring_len rx_buf_size ≤ 2 ^ 32) (mem : Memory)
    (acts : List Act)
    (hs : Runs.Along (step q) Dma.Spares (start slab_iova q mem) acts) :
    (Runs.after (step q) (start slab_iova q mem) acts).Honest ∧
      ∀ a, ¬(Runs.after (step q) (start slab_iova q mem) acts).Spares a →
        ∃ more, Runs.Along (step q) Dma.Spares
            (Runs.after (step q) (start slab_iova q mem) (acts ++ [a])) more ∧
          ¬(Runs.after (step q) (start slab_iova q mem) (acts ++ a :: more)).Honest := by
  have h := sound_run hq hslab mem acts hs
  refine ⟨h.honest, ?_⟩
  intro a ha
  obtain ⟨more, halong, hdis⟩ := dishonest_of_not_spares hq h (numbered_run hq hslab mem acts hs) ha
  refine ⟨more, ?_, ?_⟩
  · rw [Runs.after_snoc]
    exact halong
  · rw [Runs.after_append]
    exact hdis

/-- A call that times out on its frame. -/
def timed_out (frame : Bytes) : List Act :=
  .tx_submit_sync frame :: List.replicate (frame.length + 3) (.host false) ++ [.host true]

/-- A frame is passed while another waits, with the bytes of that one and two more. -/
def passed_again : List Act :=
  timed_out (List.replicate 48 7) ++
    .tx_submit_sync (List.replicate 48 7 ++ [9, 9]) :: List.replicate 53 (.host false)

/-- Both frames are consumed as they were passed, and the second call answers for its own. -/
theorem a_frame_that_is_consumed_in_time :
    (Runs.after (step .mgmt) (start 0x10000000 .mgmt fun _ => 0) passed_again).outstanding = 2 ∧
      (Runs.after (step .mgmt) (start 0x10000000 .mgmt fun _ => 0)
        (passed_again ++ [.consume, .consume, .host false])).returned = [2] ∧
      (Runs.after (step .mgmt) (start 0x10000000 .mgmt fun _ => 0)
        (passed_again ++ [.consume, .consume, .host false])).Honest := by
  refine ⟨by decide +kernel, by decide +kernel, ?_⟩
  refine (a_ring_is_honest_while_it_spares_what_waits .mgmt (by decide) 0x10000000 512 11480
    (by decide) _ _ ?_).1
  decide +kernel

/-- A frame is passed while another waits that has timed out. -/
theorem a_waiting_frame_is_overwritten :
    ¬∀ (q : Queue) (slab_iova rx_ring_len rx_buf_size : ℕ) (mem : Memory) (acts : List Act),
      q ≠ .bcn → slab_iova + slab_bytes rx_ring_len rx_buf_size ≤ 2 ^ 32 →
      (Runs.after (step q) (start slab_iova q mem) acts).Honest := by
  intro h
  have hrun := h .mgmt 0x10000000 512 11480 (fun _ => 0)
    (timed_out (List.replicate 48 7) ++
      [.tx_submit_sync (List.replicate 48 9), .host false, .consume]) (by decide) (by decide)
  revert hrun
  decide +kernel

end devourer.pcie.Dma88xx
