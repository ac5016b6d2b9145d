-- The receive ring of the AX plane: `reap_rxq`, which joins the buffers of a packet. It
-- holds a packet that has begun across rejected buffers and across whole packets.
import Devourer.Lib.Runs
import Devourer.Lib.SegmentReaders
import Devourer.Pcie.DmaAx

namespace devourer.pcie.DmaAx

open Segments

/-- What `hw_idx` makes of the value of an index register. -/
def rx_hw_idx (v : BitVec 32) : ℕ :=
  if v = 0xFFFFFFFF#32 then kBdLen
  else
    let hw := (v >>> 16 &&& 0xFFF#32).toNat
    if hw < kBdLen then hw else kBdLen

/-- The receive ring and what is joined from it. The memory is addressed as the device sees it. -/
structure RxQ where
  mem : Memory
  wp : ℕ := 0
  host_idx : ℕ := 0
  rx_assembly : Bytes := []
  rx_assembling : Bool := false
  rx_delivered : ℕ := 0
  rx_types : ℕ → ℕ := fun _ => 0
  rx_bad_len : ℕ := 0
  /-- What `on_data` was called with. -/
  packets : List Bytes := []
  /-- The buffers that were reaped, as segments. -/
  reaped : List (Segment UInt8) := []

def rxq_buf (slab i : ℕ) : ℕ := slab + layout.rxq_buf + i * kRxBufSize

def rx_info (mem : Memory) (buf : ℕ) : ℕ := (mem.word 32 4 buf).toNat

def rx_blen (info : ℕ) : ℕ := info &&& RXBD_INFO_LEN_MSK

/-- `RXBD_INFO_FS` and `RXBD_INFO_LS`. -/
def rx_fs (info : ℕ) : Bool := info.testBit 15
def rx_ls (info : ℕ) : Bool := info.testBit 14

/-- The length of the buffer is plausible. -/
def rx_fits (info : ℕ) : Bool := 4 < rx_blen info && rx_blen info ≤ kRxBufSize

/-- A buffer as a segment. -/
def rx_segment (mem : Memory) (buf : ℕ) : Segment UInt8 where
  good := rx_fits (rx_info mem buf)
  first := rx_fs (rx_info mem buf)
  last := rx_ls (rx_info mem buf)
  data := mem.read (buf + 4) (rx_blen (rx_info mem buf) - 4)

namespace RxQ

def arm_rxq_bd (slab : ℕ) (mem : Memory) (i : ℕ) : Memory :=
  bd_write mem (slab + layout.rxq_bd + i * BD_SZ)
    ⟨BitVec.ofNat 16 kRxBufSize, 0, BitVec.ofNat 32 (rxq_buf slab i)⟩

/-- `setup_rings`, for this ring. What is recorded starts anew. -/
def setup_rings (slab : ℕ) (s : RxQ) : RxQ :=
  { s with
    mem := (List.range kBdLen).foldl (arm_rxq_bd slab) s.mem
    wp := 0
    rx_assembling := false
    rx_assembly := []
    packets := []
    reaped := [] }

def on_data (s : RxQ) (data : Bytes) : RxQ :=
  { s with packets := s.packets ++ [data], rx_delivered := s.rx_delivered + 1 }

/-- The type of a packet is counted at its first buffer, where there is room for it. -/
def count_type (s : RxQ) (fs : Bool) (data : ℕ) (dlen : ℕ) : RxQ :=
  if fs && 4 ≤ dlen then
    let t := (s.mem.word 32 4 data >>> 24 &&& 0xF#32).toNat
    { s with rx_types := Function.update s.rx_types t (s.rx_types t + 1) }
  else s

/-- The turn of the loop for the payload of a buffer of plausible length. -/
def join (s : RxQ) (fs ls : Bool) (data : Bytes) : RxQ :=
  if fs && ls then s.on_data data
  else if fs then { s with rx_assembly := data, rx_assembling := true }
  else if s.rx_assembling then
    let s := { s with rx_assembly := s.rx_assembly ++ data }
    if ls then { s.on_data s.rx_assembly with rx_assembling := false, rx_assembly := [] } else s
  -- a continuation without a first segment is logged
  else s

/-- The turn of the loop for one buffer. -/
def take_in (s : RxQ) (buf : ℕ) : RxQ :=
  let info := rx_info s.mem buf
  let dlen := rx_blen info - 4
  if rx_fits info then
    (s.count_type (rx_fs info) (buf + 4) dlen).join (rx_fs info) (rx_ls info)
      (s.mem.read (buf + 4) dlen)
  else { s with rx_bad_len := s.rx_bad_len + 1 }

def reap_one (slab : ℕ) (s : RxQ) : RxQ :=
  let buf := rxq_buf slab s.wp
  let t := { s.take_in buf with reaped := s.reaped ++ [rx_segment s.mem buf] }
  { t with mem := arm_rxq_bd slab s.mem s.wp, wp := (s.wp + 1) % kBdLen }

/-- The buffers up to `hw`, and at most `n` of them. `device` is what the device stores before each
turn. -/
def reap_loop (slab hw : ℕ) (device : ℕ → Memory → Memory) : ℕ → RxQ → RxQ
  | 0, s => s
  | n + 1, s =>
    if s.wp = hw then s
    else reap_loop slab hw device n (reap_one slab { s with mem := device n s.mem })

end RxQ

/-- A call of `reap_rxq`: what it reads from the index register, and what the device stores
meanwhile. -/
structure Reap where
  index : BitVec 32
  device : ℕ → Memory → Memory

namespace RxQ

def reap_rxq (slab : ℕ) (s : RxQ) (call : Reap) : RxQ :=
  let hw := rx_hw_idx call.index
  if hw = s.wp ∨ kBdLen ≤ hw then s
  else
    let s := reap_loop slab hw call.device kBdLen s
    { s with host_idx := (s.wp &&& IDX_MASK) % 2 ^ 16 }

def run (slab : ℕ) (s : RxQ) (calls : List Reap) : RxQ :=
  Runs.after (reap_rxq slab) (s.setup_rings slab) calls

/-! ## What is joined -/

/-- Each packet that came whole was delivered once, in order, and nothing else was. -/
def Reassembles (s : RxQ) : Prop := Delivers s.reaped s.packets

/-- What the ring holds and has delivered. -/
def reader (s : RxQ) : Reader UInt8 where
  pending := if s.rx_assembling then some s.rx_assembly else none
  out := s.packets

/-- The ring has read its buffers like a reader that holds its packet. -/
def Joins (s : RxQ) : Prop := s.reader = s.reaped.foldl Reader.lax {}

theorem reader_join (s : RxQ) {x : Segment UInt8} (hgood : x.good = true) :
    (s.join x.first x.last x.data).reader = s.reader.lax x := by
  simp only [Reader.lax, hgood, Bool.not_true, Bool.false_eq_true, if_false, join]
  split
  · rfl
  split
  · rfl
  simp only [reader, Reader.add]
  rcases hassembling : s.rx_assembling
  · simp [hassembling]
  · simp only [if_true]
    split <;> simp [on_data]

theorem reader_take_in (s : RxQ) (buf : ℕ) :
    (s.take_in buf).reader = s.reader.lax (rx_segment s.mem buf) := by
  simp only [take_in]
  split
  · next hfits =>
    have hcount : ∀ fs data dlen, (s.count_type fs data dlen).reader = s.reader := by
      intro fs data dlen
      unfold count_type
      split <;> rfl
    rw [← hcount (rx_fs (rx_info s.mem buf)) (buf + 4) (rx_blen (rx_info s.mem buf) - 4)]
    have hgood : (rx_segment s.mem buf).good = true := hfits
    exact reader_join _ hgood
  · next hfits =>
    have hbad : (rx_segment s.mem buf).good = false := by simpa [rx_segment] using hfits
    simp only [Reader.lax, hbad, Bool.not_false, if_true]
    rfl

theorem joins_reap_one (slab : ℕ) {s : RxQ} (h : s.Joins) : (s.reap_one slab).Joins := by
  have hreader : (s.reap_one slab).reader = (s.take_in (rxq_buf slab s.wp)).reader := rfl
  have hreaped : (s.reap_one slab).reaped = s.reaped ++ [rx_segment s.mem (rxq_buf slab s.wp)] :=
    rfl
  unfold Joins
  rw [hreader, hreaped, reader_take_in, List.foldl_append, h]
  rfl

theorem joins_reap_loop (slab hw : ℕ) (device : ℕ → Memory → Memory) (n : ℕ) {s : RxQ}
    (h : s.Joins) : (reap_loop slab hw device n s).Joins := by
  induction n generalizing s with
  | zero => exact h
  | succ n ih =>
    simp only [reap_loop]
    split
    · exact h
    · have hstored : Joins { s with mem := device n s.mem } := h
      exact ih (joins_reap_one slab hstored)

theorem joins_reap_rxq (slab : ℕ) {s : RxQ} (h : s.Joins) (call : Reap) :
    (s.reap_rxq slab call).Joins := by
  simp only [reap_rxq]
  split
  · exact h
  · exact joins_reap_loop slab _ call.device kBdLen h

theorem joins_run (slab : ℕ) (s : RxQ) (calls : List Reap) : (run slab s calls).Joins := by
  have hstart : (s.setup_rings slab).Joins := rfl
  exact Runs.after_keeps _ _ hstart (fun _ call h => joins_reap_rxq slab h call) calls

/-- What is held by a ring that joins its buffers so. -/
theorem Joins.reassembles_iff {s : RxQ} (h : s.Joins) : s.Reassembles ↔ ¬ Splices s.reaped := by
  have hout : s.packets = (s.reaped.foldl Reader.lax {}).out := congrArg Reader.out h
  unfold Reassembles
  rw [hout]
  exact lax_delivers_iff s.reaped

/-- The packets are the ones that came whole exactly if no last buffer came to a packet that a
rejected buffer or another packet had come into. -/
theorem packets_are_joined_iff (slab : ℕ) (s : RxQ) (calls : List Reap) :
    (run slab s calls).Reassembles ↔ ¬ Splices (run slab s calls).reaped :=
  (joins_run slab s calls).reassembles_iff

/-- A first buffer, one of length 0 and a last one. -/
def interrupted : Memory :=
  (Memory.write (fun _ => 0) (rxq_buf 0 0) [5, 0x80, 0, 0, 1]).write (rxq_buf 0 2)
    [5, 0x40, 0, 0, 3]

/-- The first and the last buffer are joined, though the one between them was rejected. -/
theorem a_rejected_buffer_is_joined_across :
    ¬ (run 0 { mem := interrupted } [⟨3#32 <<< 16, fun _ _ => interrupted⟩]).Reassembles := by
  have hreaped : (run 0 { mem := interrupted } [⟨3#32 <<< 16, fun _ _ => interrupted⟩]).reaped =
      [⟨true, true, false, [1]⟩, ⟨false, false, false, []⟩, ⟨true, false, true, [3]⟩] := by
    decide +kernel
  rw [(joins_run _ _ _).reassembles_iff, not_not, hreaped]
  refine ⟨2, ⟨_, rfl, rfl⟩, 0, ⟨⟨_, rfl, rfl⟩, ?_⟩, ?_⟩
  · intro k hk hlt
    obtain rfl : k = 1 := by simp at hlt; omega
    constructor
    · rintro ⟨x, hx, hkind⟩
      obtain rfl := Option.some.inj hx
      cases hkind
    · rintro ⟨x, hx, hkind⟩
      obtain rfl := Option.some.inj hx
      cases hkind
  · intro h
    obtain ⟨x, hx, hkind⟩ := h 1 (by omega) (by simp)
    obtain rfl := Option.some.inj hx
    cases hkind

end RxQ

end devourer.pcie.DmaAx
