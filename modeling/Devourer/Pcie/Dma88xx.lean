-- The send rings of the 88xx plane: `tx_submit_sync` on one queue, and a
-- hardware that takes the slots of its ring in order. A host step stores one
-- byte of the frame, writes one slot, or reads or writes one register.
import Devourer.Lib.Circular
import Devourer.Lib.Layout
import Devourer.Lib.Runs
import Devourer.Pcie.BufferDescriptor

namespace devourer.pcie.Dma88xx

inductive Queue
  | bcn
  | mgmt
  | vo
  | vi
  | be
  | bk
  | hi0
  | h2c
  deriving DecidableEq

def Queue.index : Queue → ℕ
  | .bcn => 0
  | .mgmt => 1
  | .vo => 2
  | .vi => 3
  | .be => 4
  | .bk => 5
  | .hi0 => 6
  | .h2c => 7

def Q_MAX : ℕ := 8
def TRX_BD_IDX_MASK : ℕ := 0xFFF
def TX_PKT_DESC_SZ : ℕ := 48
def TX_BD_SLOT_SZ : ℕ := 16
def RX_BD_SZ : ℕ := 8
def TX_BOUNCE_SZ : ℕ := 32 * 1024
def PAGE_SZ : ℕ := 4096

/-- The slots of each ring, as `kQ` has them. -/
def Queue.ring_len : Queue → ℕ
  | .bcn => 1
  | .be => 256
  | .mgmt | .vo | .vi | .bk | .hi0 | .h2c => 128

/-! ## The slab -/

def page_align (v : ℕ) : ℕ := Layout.alignUp PAGE_SZ v

def slab_bytes (rx_ring_len rx_buf_size : ℕ) : ℕ :=
  let off_bounce := Q_MAX * PAGE_SZ
  let off_rxbd := off_bounce + Q_MAX * TX_BOUNCE_SZ
  let off_rxbuf := off_rxbd + page_align (rx_ring_len * RX_BD_SZ)
  page_align (off_rxbuf + rx_ring_len * rx_buf_size)

/-- The memory of the slab is addressed as the device sees it. -/
structure TxRing where
  bd_iova : ℕ
  bounce_iova : ℕ
  bounce_len : ℕ
  len : ℕ
  wp : ℕ
  deriving DecidableEq

def attach (slab_iova : ℕ) (q : Queue) : TxRing where
  bd_iova := slab_iova + q.index * PAGE_SZ
  bounce_iova := slab_iova + (Q_MAX * PAGE_SZ + q.index * TX_BOUNCE_SZ)
  bounce_len := TX_BOUNCE_SZ
  len := q.ring_len
  wp := 0

/-! ## Calls and slots -/

/-- What a call of `tx_submit_sync` does next. -/
inductive Pc
  | idle
  /-- `memcpy` has stored `i` bytes. -/
  | copy (buf : Bytes) (i : ℕ)
  | bd (buf : Bytes)
  | kick (buf : Bytes)
  | wait
  deriving DecidableEq

/-- The call that filled a slot last, and the bytes that were passed to it. -/
structure Fill where
  call : ℕ
  bytes : Bytes
  deriving DecidableEq

/-- A slot that the hardware has consumed: who filled it, and the bytes it presented. -/
structure Taken where
  fill : Option Fill
  bytes : Bytes
  deriving DecidableEq

/-- One queue with its hardware. The calls are numbered from 1; `fills`, `taken` and `returned`
record what the property is about. -/
structure Dma where
  r : TxRing
  mem : Memory
  host_idx : ℕ := 0
  hw_rp : ℕ := 0
  pc : Pc := .idle
  calls : ℕ := 0
  fills : ℕ → Option Fill := fun _ => none
  taken : List Taken := []
  /-- The calls that have returned `len`. -/
  returned : List ℕ := []

/-- The queue as `attach` and `setup_rings` leave it. -/
def start (slab_iova : ℕ) (q : Queue) (mem : Memory) : Dma := { r := attach slab_iova q, mem }

def psb_len (q : Queue) (len : ℕ) : BitVec 16 :=
  let units := BitVec.ofNat 16 ((len - 1) / 128 + 1)
  if q = .bcn then units ||| 1#16 <<< 15 else units

/-- The two descriptors of a slot: the transmit descriptor of the chip, and the payload. -/
def entry0 (r : TxRing) (q : Queue) (len : ℕ) : Bd where
  a := BitVec.ofNat 16 TX_PKT_DESC_SZ
  b := psb_len q len
  dma := BitVec.ofNat 32 r.bounce_iova

def entry1 (r : TxRing) (len : ℕ) : Bd where
  a := BitVec.ofNat 16 (len - TX_PKT_DESC_SZ)
  b := 0
  dma := BitVec.ofNat 32 (r.bounce_iova + TX_PKT_DESC_SZ)

namespace Dma

/-- What a read of the index register gives: the hardware index above the host index. -/
def idx (s : Dma) : ℕ := s.hw_rp <<< 16 ||| s.host_idx

def tx_submit_sync (s : Dma) (buf : Bytes) : Dma :=
  if s.pc ≠ .idle then s
  else if buf.length < TX_PKT_DESC_SZ ∨ s.r.bounce_len < buf.length then s
  else { s with pc := .copy buf 0, calls := s.calls + 1 }

/-- The next step of the call. `late` says that the deadline has passed. -/
def host (q : Queue) (s : Dma) (late : Bool) : Dma :=
  match s.pc with
  | .idle => s
  | .copy buf i =>
    if i < buf.length then
      { s with mem := s.mem.write (s.r.bounce_iova + i) [byteAt buf i], pc := .copy buf (i + 1) }
    else { s with pc := .bd buf }
  | .bd buf =>
    let i := if q = .bcn then 0 else s.r.wp
    let slot := s.r.bd_iova + i * TX_BD_SLOT_SZ
    let mem := bd_write s.mem slot (entry0 s.r q buf.length)
    { s with
      mem := bd_write mem (slot + RX_BD_SZ) (entry1 s.r buf.length)
      fills := Function.update s.fills i (some ⟨s.calls, buf⟩)
      pc := .kick buf }
  | .kick _ =>
    -- the beacon queue is polled by its caller
    if q = .bcn then { s with pc := .idle, returned := s.calls :: s.returned }
    else
      let wp := (s.r.wp + 1) % s.r.len
      { s with r := { s.r with wp }, host_idx := (wp &&& TRX_BD_IDX_MASK) % 2 ^ 16, pc := .wait }
  | .wait =>
    if (s.idx >>> 16) &&& TRX_BD_IDX_MASK = s.r.wp then
      { s with pc := .idle, returned := s.calls :: s.returned }
    else if late then { s with pc := .idle }
    else s

/-- The bytes that the hardware finds behind a slot. -/
def presented (m : Memory) (slot : ℕ) : Bytes :=
  let e0 := bd_read m slot
  let e1 := bd_read m (slot + RX_BD_SZ)
  m.read e0.dma.toNat e0.a.toNat ++ m.read e1.dma.toNat e1.a.toNat

/-- The hardware consumes the next slot, up to the index that was written last. -/
def consume (s : Dma) : Dma :=
  if s.hw_rp = s.host_idx then s
  else
    let slot := s.r.bd_iova % 2 ^ 32 + s.hw_rp * TX_BD_SLOT_SZ
    { s with
      hw_rp := (s.hw_rp + 1) % s.r.len
      taken := ⟨s.fills s.hw_rp, presented s.mem slot⟩ :: s.taken }

end Dma

inductive Act
  | tx_submit_sync (buf : Bytes)
  | host (late : Bool)
  | consume
  deriving DecidableEq

def step (q : Queue) (s : Dma) : Act → Dma
  | .tx_submit_sync buf => s.tx_submit_sync buf
  | .host late => s.host q late
  | .consume => s.consume

/-! ## What the completion promises -/

namespace Dma

/-- Each slot presented the bytes of the call that filled it. -/
def Presents (s : Dma) : Prop := ∀ t ∈ s.taken, t.fill.map Fill.bytes = some t.bytes

/-- A call that returned `len` had its slot consumed. -/
def Completes (s : Dma) : Prop := ∀ c ∈ s.returned, ∃ t ∈ s.taken, t.fill.map Fill.call = some c

def Honest (s : Dma) : Prop := s.Presents ∧ s.Completes

/-- How many slots the hardware has still to consume. -/
def outstanding (s : Dma) : ℕ := Circular.ahead s.r.len s.hw_rp s.host_idx

/-- What fills the slot `k` places on from the one that is consumed next. -/
def due (s : Dma) (k : ℕ) : Option Fill := s.fills ((s.hw_rp + k) % s.r.len)

/-- A byte is stored over the bounce buffer only where no waiting frame has another, and the
index moves on only while two slots are free. -/
def SparesAt (s : Dma) : Pc → Prop
  | .copy buf i => i < buf.length → ∀ k < s.outstanding, ∀ f ∈ s.due k, i < f.bytes.length →
    byteAt f.bytes i = byteAt buf i
  | .kick _ => s.outstanding + 1 < s.r.len
  | .idle | .bd _ | .wait => True

instance (s : Dma) : (pc : Pc) → Decidable (s.SparesAt pc)
  | .copy buf i => inferInstanceAs (Decidable (i < buf.length → ∀ k < s.outstanding,
    ∀ f ∈ s.due k, i < f.bytes.length → byteAt f.bytes i = byteAt buf i))
  | .kick _ => inferInstanceAs (Decidable (s.outstanding + 1 < s.r.len))
  | .idle | .bd _ | .wait => isTrue trivial

def Spares (s : Dma) : Act → Prop
  | .tx_submit_sync _ | .consume => True
  | .host _ => s.SparesAt s.pc

instance (s : Dma) : (a : Act) → Decidable (s.Spares a)
  | .tx_submit_sync _ | .consume => isTrue trivial
  | .host _ => inferInstanceAs (Decidable (s.SparesAt s.pc))

instance (s : Dma) : Decidable s.Honest :=
  inferInstanceAs (Decidable ((∀ t ∈ s.taken, _) ∧ ∀ c ∈ s.returned, ∃ t ∈ s.taken, _))

end Dma

end devourer.pcie.Dma88xx
