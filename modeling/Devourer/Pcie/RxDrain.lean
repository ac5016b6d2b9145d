-- The receive ring of the 88xx plane: the inner loop of `rx_loop`, which takes slots
-- until its read position equals the index that the hardware gave. The ring is as
-- long as its configuration says, and the index has 12 bits.
import Devourer.Lib.Circular
import Devourer.Pcie.Dma88xx
import Mathlib.Data.List.Nodup

namespace devourer.pcie.Dma88xx

/-- The memory is addressed as the device sees it. -/
structure RxRing where
  bd_iova : ℕ
  bufs_iova : ℕ
  buf_size : ℕ
  len : ℕ
  rp : ℕ
  inside : rp < len

namespace RxRing

theorem len_pos (r : RxRing) : 0 < r.len := Nat.zero_lt_of_lt r.inside

/-- The ring with the next slot at its read position. -/
def next (r : RxRing) : RxRing :=
  { r with rp := (r.rp + 1) % r.len, inside := Nat.mod_lt _ r.len_pos }

def buf (r : RxRing) (slot : ℕ) : ℕ := r.bufs_iova + slot * r.buf_size

def rx_bd (r : RxRing) (idx : ℕ) : Bd where
  a := BitVec.ofNat 16 r.buf_size
  b := 0
  dma := BitVec.ofNat 32 (r.buf idx)

def arm_rx_bd (r : RxRing) (mem : Memory) (idx : ℕ) : Memory :=
  bd_write mem (r.bd_iova + idx * RX_BD_SZ) (r.rx_bd idx)

end RxRing

/-- A call of `on_data`. -/
structure Handed where
  slot : ℕ
  buf : ℕ
  length : ℤ
  deriving DecidableEq

structure RxDrain where
  r : RxRing
  mem : Memory
  host_idx : ℕ := 0
  reaped : ℕ := 0
  /-- In the order of the calls. -/
  handed : List Handed := []

/-- The index that a read of the register gives. -/
def rx_hw_wp (v : BitVec 32) : ℕ := (v >>> 16 &&& 0xFFF#32).toNat

def rx_pkt_len (d0 : BitVec 32) : BitVec 32 := d0 &&& 0x3FFF#32

/-- The descriptor, what the firmware put before the frame, and the frame. -/
def rx_used (d0 : BitVec 32) : BitVec 32 :=
  let drvinfo := (d0 >>> 16 &&& 0xF#32) * 8#32
  let shift := d0 >>> 24 &&& 0x3#32
  24#32 + drvinfo + shift + rx_pkt_len d0

namespace RxDrain

/-- The slot at the read position is handed on and returned to the hardware. -/
def reap (s : RxDrain) : RxDrain :=
  let buf := s.r.buf s.r.rp
  let d0 := s.mem.word 32 4 buf
  { s with
    handed :=
      if rx_pkt_len d0 ≠ 0 ∧ (rx_used d0).toNat ≤ s.r.buf_size then
        s.handed ++ [⟨s.r.rp, buf, (rx_used d0).toInt⟩]
      else s.handed
    mem := s.r.arm_rx_bd s.mem s.r.rp
    r := s.r.next
    reaped := s.reaped + 1
    host_idx := (s.r.next.rp &&& TRX_BD_IDX_MASK) % 2 ^ 16 }

/-- One turn of the loop, after what the device has stored. -/
def turn (hw_wp : ℕ) (s : RxDrain) (device : Memory → Memory) : RxDrain :=
  if s.r.rp = hw_wp then s else reap { s with mem := device s.mem }

/-- The drain after some turns. -/
def drain (hw_wp : ℕ) (device : ℕ → Memory → Memory) (s : RxDrain) : ℕ → RxDrain
  | 0 => s
  | n + 1 => (s.drain hw_wp device n).turn hw_wp (device n)

end RxDrain

/-! ## What the drain promises -/

namespace RxRing

/-- The drain after a read of `v`, and `n` turns. -/
def drained (r : RxRing) (mem : Memory) (device : ℕ → Memory → Memory) (v : BitVec 32) (n : ℕ) :
    RxDrain := RxDrain.drain (rx_hw_wp v) device { r, mem } n

/-- The slots from the read position up to an index, in ring order. -/
def slots_up_to (r : RxRing) (hw_wp : ℕ) : List ℕ :=
  (List.range (Circular.ahead r.len r.rp hw_wp)).map fun k => (r.rp + k) % r.len

/-- The call gets a slot of the ring, and no more of it than its buffer. -/
def Fits (r : RxRing) (h : Handed) : Prop :=
  h.buf = r.buf h.slot ∧ 0 ≤ h.length ∧ h.length ≤ r.buf_size

/-- What the drain of a ring is to do after a read of `v`, whatever the device stores meanwhile. -/
structure Drains (r : RxRing) (mem : Memory) (device : ℕ → Memory → Memory) (v : BitVec 32) :
    Prop where
  ends : ∃ n < r.len, (r.drained mem device v n).r.rp = rx_hw_wp v
  in_order : ∀ n,
    ((r.drained mem device v n).handed.map Handed.slot).Sublist (r.slots_up_to (rx_hw_wp v))
  once : ∀ n, ((r.drained mem device v n).handed.map Handed.slot).Nodup
  fits : ∀ n, ∀ h ∈ (r.drained mem device v n).handed, r.Fits h

variable {r : RxRing} {mem : Memory} {device : ℕ → Memory → Memory} {v : BitVec 32} {n : ℕ}

theorem nodup_slots_up_to (r : RxRing) (hw_wp : ℕ) : (r.slots_up_to hw_wp).Nodup := by
  apply List.Nodup.map_on _ List.nodup_range
  intro j hj k hk h
  have hlt := Circular.ahead_lt (w := hw_wp) r.inside
  have hj := List.mem_range.mp hj
  have hk := List.mem_range.mp hk
  exact Circular.cell_inj r.inside (by omega) (by omega) h

theorem toNat_and_le (x y : BitVec 32) : (x &&& y).toNat ≤ y.toNat := by
  rw [BitVec.toNat_and]
  exact Nat.and_le_right

/-- The length that is handed on is the length that was compared. -/
theorem toInt_rx_used (d0 : BitVec 32) : (rx_used d0).toInt = (rx_used d0).toNat := by
  apply BitVec.toInt_eq_toNat_of_lt
  have hinfo := toNat_and_le (d0 >>> 16) 0xF#32
  have hshift := toNat_and_le (d0 >>> 24) 0x3#32
  have hlen := toNat_and_le d0 0x3FFF#32
  simp only [rx_used, rx_pkt_len, BitVec.toNat_add, BitVec.toNat_mul, BitVec.toNat_ofNat] at *
  omega

/-- The drain has gone `n` slots on from the ring it started with. -/
structure Went (r : RxRing) (n : ℕ) (s : RxDrain) : Prop where
  len : s.r.len = r.len
  buf : s.r.buf = r.buf
  buf_size : s.r.buf_size = r.buf_size
  rp : s.r.rp = (r.rp + n) % r.len
  handed : (s.handed.map Handed.slot).Sublist ((List.range n).map fun k => (r.rp + k) % r.len)
  fits : ∀ h ∈ s.handed, r.Fits h

theorem went_start (r : RxRing) (mem : Memory) : Went r 0 { r, mem } where
  len := rfl
  buf := rfl
  buf_size := rfl
  rp := (Nat.mod_eq_of_lt r.inside).symm
  handed := List.Sublist.refl _
  fits := by simp

theorem went_reap {s : RxDrain} (h : Went r n s) (m : Memory) :
    Went r (n + 1) (RxDrain.reap { s with mem := m }) := by
  have hrange : (List.range (n + 1)).map (fun k => (r.rp + k) % r.len) =
      (List.range n).map (fun k => (r.rp + k) % r.len) ++ [s.r.rp] := by
    rw [List.range_succ, List.map_append, List.map_singleton, h.rp]
  constructor
  · exact h.len
  · exact h.buf
  · exact h.buf_size
  · simp only [RxDrain.reap, next, h.rp, h.len, Nat.mod_add_mod, Nat.add_assoc]
  · rw [hrange]
    simp only [RxDrain.reap]
    split
    · rw [List.map_append]
      exact h.handed.append (List.Sublist.refl _)
    · exact h.handed.trans (List.sublist_append_left _ _)
  · intro x hx
    simp only [RxDrain.reap] at hx
    split at hx
    · next hgood =>
      rcases List.mem_append.mp hx with hx | hx
      · exact h.fits x hx
      · obtain rfl := List.mem_singleton.mp hx
        refine ⟨congrFun h.buf s.r.rp, ?_⟩
        rw [toInt_rx_used, ← h.buf_size]
        exact ⟨Int.natCast_nonneg _, Int.ofNat_le.mpr hgood.2⟩
    · exact h.fits x hx

theorem len_drained (r : RxRing) (mem : Memory) (device : ℕ → Memory → Memory) (v : BitVec 32)
    (n : ℕ) : (r.drained mem device v n).r.len = r.len := by
  induction n with
  | zero => rfl
  | succ n ih =>
    rw [← ih]
    simp only [drained, RxDrain.drain, RxDrain.turn]
    split <;> rfl

/-- Short of the index, each turn goes one slot on. -/
theorem went_drained (mem : Memory) (device : ℕ → Memory → Memory) (hw : rx_hw_wp v < r.len)
    (hn : n ≤ Circular.ahead r.len r.rp (rx_hw_wp v)) : Went r n (r.drained mem device v n) := by
  induction n with
  | zero => exact went_start r mem
  | succ n ih =>
    have hwent := ih (Nat.le_of_succ_le hn)
    have hlt := Circular.ahead_lt (w := rx_hw_wp v) r.inside
    have hne : (r.drained mem device v n).r.rp ≠ rx_hw_wp v := by
      intro heq
      rw [hwent.rp, ← Circular.cell_ahead r.inside hw] at heq
      have hsame := Circular.cell_inj r.inside (by omega) hlt heq
      omega
    have hturn : r.drained mem device v (n + 1) =
        RxDrain.reap { r.drained mem device v n with
          mem := device n (r.drained mem device v n).mem } := if_neg hne
    rw [hturn]
    exact went_reap hwent _

/-- At the index the drain stays where it is. -/
theorem drained_stays {m : ℕ} (h : (r.drained mem device v m).r.rp = rx_hw_wp v) (k : ℕ) :
    r.drained mem device v (m + k) = r.drained mem device v m := by
  induction k with
  | zero => rfl
  | succ k ih =>
    have hstop : (r.drained mem device v (m + k)).r.rp = rx_hw_wp v := by rw [ih, h]
    have hturn : r.drained mem device v (m + k + 1) = r.drained mem device v (m + k) := if_pos hstop
    rw [← Nat.add_assoc, hturn, ih]

/-- When the index names a slot, every turn is within the slots up to it. -/
theorem went_some (mem : Memory) (device : ℕ → Memory → Memory) (hw : rx_hw_wp v < r.len) (n : ℕ) :
    ∃ m ≤ Circular.ahead r.len r.rp (rx_hw_wp v), Went r m (r.drained mem device v n) := by
  rcases Nat.le_total n (Circular.ahead r.len r.rp (rx_hw_wp v)) with hle | hge
  · exact ⟨n, hle, went_drained mem device hw hle⟩
  · have hwent := went_drained mem device hw (Nat.le_refl _)
    have hstop := hwent.rp.trans (Circular.cell_ahead r.inside hw)
    obtain ⟨k, rfl⟩ := Nat.exists_eq_add_of_le hge
    rw [drained_stays hstop]
    exact ⟨_, Nat.le_refl _, hwent⟩

/-- The read position never gets to an index that names no slot. -/
theorem hw_wp_lt (h : r.Drains mem device v) : rx_hw_wp v < r.len := by
  obtain ⟨n, -, hn⟩ := h.ends
  rw [← hn, ← len_drained r mem device v n]
  exact (r.drained mem device v n).r.inside

/-- The drain does what it is to do exactly if the index that was read names a slot of the ring: an
index past the last slot is never reached. -/
theorem the_drain_ends_iff (r : RxRing) (mem : Memory) (device : ℕ → Memory → Memory)
    (v : BitVec 32) : r.Drains mem device v ↔ rx_hw_wp v < r.len := by
  constructor
  · exact hw_wp_lt
  · intro hw
    have hlt := Circular.ahead_lt (w := rx_hw_wp v) r.inside
    have horder : ∀ n,
        ((r.drained mem device v n).handed.map Handed.slot).Sublist
          (r.slots_up_to (rx_hw_wp v)) := by
      intro n
      obtain ⟨m, hm, hwent⟩ := went_some mem device hw n
      exact hwent.handed.trans ((List.range_sublist.mpr hm).map _)
    constructor
    · have hwent := went_drained mem device hw (Nat.le_refl _)
      exact ⟨_, hlt, hwent.rp.trans (Circular.cell_ahead r.inside hw)⟩
    · exact horder
    · exact fun n => (nodup_slots_up_to r _).sublist (horder n)
    · intro n
      obtain ⟨m, -, hwent⟩ := went_some mem device hw n
      exact hwent.fits

/-- The ring of the default configuration. -/
def default_ring : RxRing where
  bd_iova := 0x48000
  bufs_iova := 0x49000
  buf_size := 11480
  len := 512
  rp := 0
  inside := by decide

/-- A device that is off the bus keeps the drain going for ever. -/
theorem a_dead_device_is_drained_for_ever :
    ¬ default_ring.Drains (fun _ => 0) (fun _ mem => mem) 0xFFFFFFFF#32 := by
  intro h
  exact absurd (hw_wp_lt h) (by decide)

end RxRing

end devourer.pcie.Dma88xx
