-- The send side of the AX plane: 13 rings, the pool of descriptor pages that
-- they share, and the ring of release reports. A host step is one store to
-- the slab, one read or write of a register, or one section under the mutex
-- of the pool.
import Devourer.Lib.Circular
import Devourer.Lib.Layout
import Devourer.Lib.Runs
import Devourer.Lib.Wire
import Devourer.Pcie.BufferDescriptor

namespace devourer.pcie.DmaAx

open Memory (Store)

/-! ## Release reports -/

def rd_le32 (p : Bytes) (off : ℕ) : ℕ := (Wire.getLe 32 4 fun i => byteAt p (off + i)).toNat

def kRxBufSize : ℕ := 11496
def RXBD_INFO_LEN_MSK : ℕ := 0x3FFF
def RPP_SEQ_SH : ℕ := 16
def RPP_SEQ_MSK : ℕ := 0x7FFF
def RPP_STATUS_SH : ℕ := 13
def RPP_STATUS_MSK : ℕ := 0x7
def DRV_INFO_UNIT_8852C : ℕ := 16
def RPKT_TYPE_PPDU : ℕ := 1

/-- Where the payload stands in a packet, and its length. -/
structure KestrelRxFrame where
  payload : ℕ
  payload_len : ℕ
  deriving DecidableEq

def parse_rx_8852b (buf : Bytes) (buflen drv_info_unit : ℕ) : Option KestrelRxFrame :=
  if buflen < 16 then none
  else
    let d0 := rd_le32 buf 0
    let payload_len := d0 &&& 0x3fff
    let shift := d0 >>> 14 &&& 0x3
    let mac_info_vld := d0.testBit 23
    let rpkt_type := d0 >>> 24 &&& 0xf
    let drvinfo_size := (d0 >>> 28 &&& 0x7) * drv_info_unit
    let rxd_len := if d0.testBit 31 then 32 else 16
    if buflen < rxd_len then none
    else
      let mac_info := if mac_info_vld && rpkt_type ≠ RPKT_TYPE_PPDU then 4 else 0
      let frame_off := rxd_len + drvinfo_size + shift * 2 + mac_info
      if payload_len = 0 ∨ buflen < frame_off + payload_len then none
      else some { payload := frame_off, payload_len }

/-- The words that a buffer of the release ring holds. -/
def rpp_words (buf : Bytes) : List ℕ :=
  let info := rd_le32 buf 0
  let blen := info &&& RXBD_INFO_LEN_MSK
  if info.testBit 15 && info.testBit 14 && 4 < blen && blen ≤ kRxBufSize then
    match parse_rx_8852b (buf.drop 4) (blen - 4) DRV_INFO_UNIT_8852C with
    | some f =>
      (List.range (f.payload_len / 4)).map fun k => rd_le32 (buf.drop 4) (f.payload + 4 * k)
    | none => []
  else []

def rpp_seq (rpp : ℕ) : ℕ := rpp >>> RPP_SEQ_SH &&& RPP_SEQ_MSK

def rpp_status (rpp : ℕ) : ℕ := rpp >>> RPP_STATUS_SH &&& RPP_STATUS_MSK

/-! ## Constants -/

def kTxChannels : ℕ := 13
def kFwcmdCh : Fin kTxChannels := ⟨12, by decide⟩
def kBdLen : ℕ := 256
def kWdPages : ℕ := 512
def kWdPageSize : ℕ := 128
def kPayloadSize : ℕ := 4096
def kFwcmdSlotSize : ℕ := 2304
def IDX_MASK : ℕ := 0xFFF
def TXBD_OPTION_LS : BitVec 16 := 1#16 <<< 14
def TXWP_VALID : BitVec 16 := 1#16 <<< 15
def ADDR_INFO_NR_MAX : ℕ := 10
def ADDR_INFO_LEN_MAX : ℕ := 2044
def ADDR_INFO_LS : BitVec 16 := 1#16 <<< 15
def ADDR_INFO_SZ : ℕ := 6
def WP_INFO_SZ : ℕ := 8
def WD_BODY0_WD_PAGE : BitVec 32 := 1#32 <<< 7
def WD_BODY0_STF_MODE : BitVec 32 := 1#32 <<< 10
def WD_BODY1_ADDR_INFO_NUM_SH : ℕ := 26
def WD_BODY1_ADDR_INFO_NUM_MSK : BitVec 32 := 0x3F
def WD_BODY_LEN_V1 : ℕ := 32
def WD_INFO_LEN : ℕ := 24
def PAGE_SZ : ℕ := 4096

abbrev Channel := Fin kTxChannels

/-! ## The slab -/

def page_align (v : ℕ) : ℕ := Layout.alignUp PAGE_SZ v

/-- The sections of the slab. -/
structure Sections where
  txbd : ℕ
  rxq_bd : ℕ
  rpq_bd : ℕ
  rxq_buf : ℕ
  rpq_buf : ℕ
  wd : ℕ
  payload : ℕ
  fwcmd : ℕ
  total : ℕ
  deriving DecidableEq

def layout : Sections :=
  let txbd := 0
  let rxq_bd := txbd + page_align (kTxChannels * kBdLen * BD_SZ)
  let rpq_bd := rxq_bd + page_align (kBdLen * BD_SZ)
  let rxq_buf := rpq_bd + page_align (kBdLen * BD_SZ)
  let rpq_buf := rxq_buf + page_align (kBdLen * kRxBufSize)
  let wd := rpq_buf + page_align (kBdLen * kRxBufSize)
  let payload := wd + page_align (kWdPages * kWdPageSize)
  let fwcmd := payload + page_align (kWdPages * kPayloadSize)
  let total := fwcmd + page_align (kBdLen * kFwcmdSlotSize)
  { txbd, rxq_bd, rpq_bd, rxq_buf, rpq_buf, wd, payload, fwcmd, total }

/-- The parts of the slab that the hardware reads when it sends. -/
inductive Part
  | entry (ch : Channel) (i : ℕ)
  | fwcmd_slot (i : ℕ)
  | wd_page (page : ℕ)
  | payload (page : ℕ)
  deriving DecidableEq

/-- The address of a part, as the device sees it. -/
def Part.iova (slab : ℕ) : Part → ℕ
  | .entry ch i => slab + layout.txbd + ch * kBdLen * BD_SZ + i * BD_SZ
  | .fwcmd_slot i => slab + layout.fwcmd + i * kFwcmdSlotSize
  | .wd_page page => slab + layout.wd + page * kWdPageSize
  | .payload page => slab + layout.payload + page * kPayloadSize

def Part.size : Part → ℕ
  | .entry _ _ => BD_SZ
  | .fwcmd_slot _ => kFwcmdSlotSize
  | .wd_page _ => kWdPageSize
  | .payload _ => kPayloadSize

/-! ## A frame and its page -/

/-- One piece of the payload, and whether it is the last. -/
structure AddrInfo where
  len : ℕ
  ls : Bool
  dma : ℕ
  deriving DecidableEq

/-- The pieces of `remain` bytes from `dma` on, of which there is place for `n`. -/
def fill_txaddr_info : ℕ → ℕ → ℕ → List AddrInfo
  | 0, _, _ => []
  | n + 1, remain, dma =>
    if remain = 0 then []
    else
      let chunk := if ADDR_INFO_LEN_MAX < remain then ADDR_INFO_LEN_MAX else remain
      let rest := remain - chunk
      ⟨chunk, rest = 0, dma⟩ :: fill_txaddr_info n rest (dma + chunk)

def AddrInfo.bytes (x : AddrInfo) : Bytes :=
  let len_opt := (BitVec.ofNat 16 x.len &&& 0x7FF) ||| (if x.ls then ADDR_INFO_LS else 0)
  Wire.putLe 2 len_opt ++ (Wire.putLe 2 (BitVec.ofNat 16 (x.dma &&& 0xFFFF)) ++
    Wire.putLe 2 (BitVec.ofNat 16 (x.dma >>> 16 &&& 0xFFFF)))

/-- The descriptor that the HAL puts in front of a frame is longer with `wd_info`. -/
def wd_len (buf : Bytes) : ℕ :=
  WD_BODY_LEN_V1 + if (rd_le32 buf 0).testBit 22 then WD_INFO_LEN else 0

def addr_infos (slab page : ℕ) (buf : Bytes) : List AddrInfo :=
  fill_txaddr_info ADDR_INFO_NR_MAX (buf.length - wd_len buf) ((Part.payload page).iova slab)

/-- `wp_info`: the page as sequence number, and the other three left 0. -/
def wp_info (page : ℕ) : Bytes :=
  Wire.putLe 2 (BitVec.ofNat 16 page ||| TXWP_VALID) ++
    (Wire.putLe 2 0#16 ++ (Wire.putLe 2 0#16 ++ Wire.putLe 2 0#16))

def addr_info_iova (slab page : ℕ) (buf : Bytes) (k : ℕ) : ℕ :=
  (Part.wd_page page).iova slab + wd_len buf + WP_INFO_SZ + k * ADDR_INFO_SZ

/-- The stores that lay out a frame: payload, descriptor, `wp_info` and the pieces. -/
def wd_stores (slab page : ℕ) (buf : Bytes) : List Store :=
  let pg := (Part.wd_page page).iova slab
  [⟨(Part.payload page).iova slab, buf.drop (wd_len buf)⟩, ⟨pg, List.replicate kWdPageSize 0⟩,
    ⟨pg, buf.take (wd_len buf)⟩, ⟨pg + wd_len buf, wp_info page⟩] ++
  (addr_infos slab page buf).mapIdx fun k x => ⟨addr_info_iova slab page buf k, x.bytes⟩

/-- What a call submits. -/
inductive Job
  | fwcmd (slot : ℕ) (buf : Bytes)
  | wd (page : ℕ) (buf : Bytes)
  deriving DecidableEq

def Job.page : Job → Option ℕ
  | .fwcmd _ _ => none
  | .wd page _ => some page

def Job.stores (slab : ℕ) : Job → List Store
  | .fwcmd slot buf => [⟨(Part.fwcmd_slot slot).iova slab, buf⟩]
  | .wd page buf => wd_stores slab page buf

/-- The two words of the descriptor that the plane patches. -/
def Job.patches (slab : ℕ) (m : Memory) : Job → List Store
  | .fwcmd _ _ => []
  | .wd page buf =>
    let pg := (Part.wd_page page).iova slab
    let n := (addr_infos slab page buf).length
    let dw0 := (BitVec.ofNat 32 (rd_le32 buf 0) ||| WD_BODY0_WD_PAGE) &&& ~~~WD_BODY0_STF_MODE
    let num := BitVec.ofNat 32 n &&& WD_BODY1_ADDR_INFO_NUM_MSK
    let dw1 := (m.word 32 4 (pg + 4) &&&
      ~~~(WD_BODY1_ADDR_INFO_NUM_MSK <<< WD_BODY1_ADDR_INFO_NUM_SH)) |||
      (num <<< WD_BODY1_ADDR_INFO_NUM_SH)
    [⟨pg, Wire.putLe 4 dw0⟩, ⟨pg + 4, Wire.putLe 4 dw1⟩]

/-- The ring entry that points at it. -/
def Job.entry (slab : ℕ) : Job → Bd
  | .fwcmd slot buf =>
    ⟨BitVec.ofNat 16 buf.length, TXBD_OPTION_LS, BitVec.ofNat 32 ((Part.fwcmd_slot slot).iova slab)⟩
  | .wd page buf =>
    let page_len := wd_len buf + WP_INFO_SZ + (addr_infos slab page buf).length * ADDR_INFO_SZ
    ⟨BitVec.ofNat 16 page_len, TXBD_OPTION_LS, BitVec.ofNat 32 ((Part.wd_page page).iova slab)⟩

/-! ## The plane and its hardware -/

/-- What the call that holds a channel does next. -/
inductive Pc
  | idle
  /-- `ring_has_room` -/
  | room (buf : Bytes)
  /-- The section that reaps the reports and takes a page. -/
  | acquire (buf : Bytes)
  /-- There was no page: the call sleeps, with the mutex released. -/
  | starve (buf : Bytes)
  | store (job : Job) (todo : List Store)
  | patch (job : Job)
  | bd (job : Job)
  | kick (job : Job)
  /-- `wait_consumed` -/
  | wait
  deriving DecidableEq

/-- A page as the hardware has it: not at all, behind an entry to come, or fetched. -/
inductive HwPage
  | idle
  | posted
  | fetched
  deriving DecidableEq

structure RppStats where
  tx_done : ℕ := 0
  retry_limit : ℕ := 0
  lifetime : ℕ := 0
  macid_drop : ℕ := 0
  unknown_seq : ℕ := 0
  pages_freed : ℕ := 0
  deriving DecidableEq

/-- The plane, its slab and its hardware. Of the free pages the last is first. -/
structure Ax where
  mem : Memory
  wp : Channel → ℕ := fun _ => 0
  host_idx : Channel → ℕ := fun _ => 0
  hw : Channel → ℕ := fun _ => 0
  call : Channel → Pc := fun _ => .idle
  free_pages : List ℕ := List.range kWdPages
  page_busy : ℕ → Bool := fun _ => false
  rpp : RppStats := {}
  rpq_wp : ℕ := 0
  rpq_hw : ℕ := 0
  rpq_buf : ℕ → Bytes := fun _ => []
  hw_page : ℕ → HwPage := fun _ => .idle
  /-- The page behind each entry. -/
  entry_page : Channel → ℕ → Option ℕ := fun _ _ => none
  /-- The buffer that was laid out in each page. -/
  passed : ℕ → Bytes := fun _ => []
  submitted : Channel → ℕ := fun _ => 0
  consumed : Channel → ℕ := fun _ => 0
  /-- The entries whose calls have returned `len`. -/
  returned : List (Channel × ℕ) := []
  /-- The ranges that were stored to. -/
  stored : List (ℕ × ℕ) := []

/-- The plane as `attach` and `setup_rings` leave it. -/
def start (mem : Memory) : Ax := { mem }

namespace Ax

def write (s : Ax) (x : Store) : Ax :=
  { s with mem := s.mem.store x, stored := s.stored ++ [(x.place, x.bytes.length)] }

def writes (s : Ax) (xs : List Store) : Ax := xs.foldl write s

/-- What `hw_idx` makes of an index register. `gone` says that nobody answers the read. -/
def hw_idx (hw host : ℕ) (gone : Bool) : ℕ :=
  let v := if gone then 0xFFFFFFFF else hw <<< 16 ||| host
  if v = 0xFFFFFFFF then kBdLen
  else
    let hw := v >>> 16 &&& IDX_MASK
    if hw < kBdLen then hw else kBdLen

def set_call (s : Ax) (ch : Channel) (pc : Pc) : Ax :=
  { s with call := Function.update s.call ch pc }

/-! ### The pages -/

def RppStats.count (r : RppStats) (status : ℕ) : RppStats :=
  match status with
  | 0 => { r with tx_done := r.tx_done + 1 }
  | 1 => { r with retry_limit := r.retry_limit + 1 }
  | 2 => { r with lifetime := r.lifetime + 1 }
  | 3 => { r with macid_drop := r.macid_drop + 1 }
  | _ => r

def release_page (s : Ax) (seq status : ℕ) : Ax :=
  if kWdPages ≤ seq ∨ s.page_busy seq = false then
    { s with rpp := { s.rpp with unknown_seq := s.rpp.unknown_seq + 1 } }
  else
    { s with
      page_busy := Function.update s.page_busy seq false
      free_pages := seq :: s.free_pages
      rpp := RppStats.count { s.rpp with pages_freed := s.rpp.pages_freed + 1 } status }

def release_words (s : Ax) (ws : List ℕ) : Ax :=
  ws.foldl (fun s w => s.release_page (rpp_seq w) (rpp_status w)) s

/-- A buffer of the release ring is given back to the hardware. -/
def arm_rpq_bd (slab i : ℕ) : Store :=
  ⟨slab + layout.rpq_bd + i * BD_SZ, Bd.bytes ⟨BitVec.ofNat 16 kRxBufSize, 0,
    BitVec.ofNat 32 (slab + layout.rpq_buf + i * kRxBufSize)⟩⟩

def reap_one (slab : ℕ) (s : Ax) : Ax :=
  let s := s.release_words (rpp_words (s.rpq_buf s.rpq_wp))
  { s.write (arm_rpq_bd slab s.rpq_wp) with rpq_wp := (s.rpq_wp + 1) % kBdLen }

/-- The buffers up to `hw`, and at most `n` of them. -/
def reap_loop (slab hw : ℕ) : ℕ → Ax → Ax
  | 0, s => s
  | n + 1, s => if s.rpq_wp = hw then s else reap_loop slab hw n (s.reap_one slab)

def reap_rpq_locked (slab : ℕ) (s : Ax) (gone : Bool) : Ax :=
  let hw := hw_idx s.rpq_hw s.rpq_wp gone
  if hw = s.rpq_wp ∨ kBdLen ≤ hw then s else reap_loop slab hw kBdLen s

/-! ### The calls -/

/-- A call begins on a channel that is not taken, unless it is refused at once. -/
def tx_submit (s : Ax) (hint : ℕ) (buf : Bytes) : Ax :=
  if h : hint < kTxChannels then
    let ch : Channel := ⟨hint, h⟩
    if s.call ch ≠ .idle then s
    else if ch = kFwcmdCh then
      if buf.length < 16 ∨ kFwcmdSlotSize < buf.length then s else s.set_call ch (.room buf)
    else if buf.length < WD_BODY_LEN_V1 ∨ buf.length < wd_len buf then s
    else
      let flen := (buf.length - wd_len buf) % 4294967296
      -- nothing is looked at behind a length that was cut to 32 bits
      if flen = 0 ∨ kPayloadSize < flen then s
      else s.set_call ch (.room (buf.take (wd_len buf + flen)))
  else s

def ring_has_room (s : Ax) (ch : Channel) (gone : Bool) : Bool :=
  let hw := hw_idx (s.hw ch) (s.host_idx ch) gone
  if kBdLen ≤ hw then false
  else
    let outstanding := (s.wp ch + kBdLen - hw) % kBdLen
    outstanding < kBdLen - 1

/-- The section under the mutex of the pool, up to a page or to none. -/
def acquire (slab : ℕ) (s : Ax) (ch : Channel) (buf : Bytes) (gone : Bool) : Ax :=
  let s := s.reap_rpq_locked slab gone
  match s.free_pages with
  | [] => s.set_call ch (.starve buf)
  | page :: rest =>
    let s := { s with
      free_pages := rest
      page_busy := Function.update s.page_busy page true }
    s.set_call ch (.store (.wd page buf) (wd_stores slab page buf))

def bd (slab : ℕ) (s : Ax) (ch : Channel) (job : Job) : Ax :=
  let s := s.write ⟨(Part.entry ch (s.wp ch)).iova slab, (job.entry slab).bytes⟩
  { s with
    entry_page := Function.update s.entry_page ch
      (Function.update (s.entry_page ch) (s.wp ch) job.page) }.set_call ch (.kick job)

def kick (s : Ax) (ch : Channel) (job : Job) : Ax :=
  let wp := (s.wp ch + 1) % kBdLen
  let s := { s with
    wp := Function.update s.wp ch wp
    host_idx := Function.update s.host_idx ch ((wp &&& IDX_MASK) % 2 ^ 16)
    submitted := Function.update s.submitted ch (s.submitted ch + 1) }
  match job with
  | .fwcmd _ _ => s.set_call ch .wait
  | .wd page buf =>
    { s with
      hw_page := Function.update s.hw_page page .posted
      passed := Function.update s.passed page buf }.set_call ch .wait

def wait_consumed (s : Ax) (ch : Channel) (late gone : Bool) : Ax :=
  let hw := hw_idx (s.hw ch) (s.host_idx ch) gone
  if hw = s.wp ch then
    { s with returned := (ch, s.submitted ch) :: s.returned }.set_call ch .idle
  else if kBdLen ≤ hw then s.set_call ch .idle
  else if late then s.set_call ch .idle
  else s

/-- The next step of the call on a channel. `late` says that its deadline has passed. -/
def call_step (slab : ℕ) (s : Ax) (ch : Channel) (late gone : Bool) : Ax :=
  match s.call ch with
  | .idle => s
  | .room buf =>
    if s.ring_has_room ch gone then
      if ch = kFwcmdCh then
        let job := Job.fwcmd (s.wp ch) buf
        s.set_call ch (.store job (job.stores slab))
      else s.set_call ch (.acquire buf)
    else s.set_call ch .idle
  | .acquire buf => s.acquire slab ch buf gone
  | .starve buf => if late then s.set_call ch .idle else s.set_call ch (.acquire buf)
  | .store job (x :: todo) => (s.write x).set_call ch (.store job todo)
  | .store job [] => s.set_call ch (.patch job)
  | .patch job => (s.writes (job.patches slab s.mem)).set_call ch (.bd job)
  | .bd job => s.bd slab ch job
  | .kick job => s.kick ch job
  | .wait => s.wait_consumed ch late gone

/-! ### The hardware -/

/-- The hardware consumes the next entry of a channel, and fetches the page behind it. -/
def consume (s : Ax) (ch : Channel) : Ax :=
  if s.hw ch = s.host_idx ch then s
  else
    { s with
      hw := Function.update s.hw ch ((s.hw ch + 1) % kBdLen)
      consumed := Function.update s.consumed ch (s.consumed ch + 1)
      hw_page := match s.entry_page ch (s.hw ch) with
        | some page => Function.update s.hw_page page .fetched
        | none => s.hw_page }

/-- The pages that the words of a buffer name. -/
def named (buf : Bytes) : List ℕ := ((rpp_words buf).map rpp_seq).filter (· < kWdPages)

/-- The hardware writes a buffer of release words. It names a page once, when it has fetched the
page and will not read it again. -/
def report (s : Ax) (buf : Bytes) : Ax :=
  if (s.rpq_hw + 1) % kBdLen ≠ s.rpq_wp ∧ (named buf).Nodup ∧
      ∀ page ∈ named buf, s.hw_page page = .fetched then
    { s with
      rpq_buf := Function.update s.rpq_buf s.rpq_hw buf
      rpq_hw := (s.rpq_hw + 1) % kBdLen
      hw_page := fun page => if page ∈ named buf then .idle else s.hw_page page }
  else s

end Ax

inductive Act
  | tx_submit (hint : ℕ) (buf : Bytes)
  | call (ch : Channel) (late gone : Bool)
  /-- The receive loop reaps the reports. -/
  | reap (gone : Bool)
  | consume (ch : Channel)
  | report (buf : Bytes)
  deriving DecidableEq

def step (slab : ℕ) (s : Ax) : Act → Ax
  | .tx_submit hint buf => s.tx_submit hint buf
  | .call ch late gone => s.call_step slab ch late gone
  | .reap gone => s.reap_rpq_locked slab gone
  | .consume ch => s.consume ch
  | .report buf => s.report buf

end devourer.pcie.DmaAx
