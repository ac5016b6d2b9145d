-- De-aggregation of what the first generation receives: one buffer of blocks,
-- each a descriptor, the driver info, some shift bytes and the packet.
import Devourer.Lib.Aggregate
import Devourer.Lib.BitFields

namespace devourer.jaguar1

open BitFields (bits flag)

def RXDESC_SIZE : ℕ := 24

inductive RxPacketType
  | NORMAL_RX
  | TX_REPORT1
  | TX_REPORT2
  | HIS_REPORT
  | C2H_PACKET
  deriving DecidableEq

structure RxPktAttrib where
  pkt_len : ℕ
  physt : Bool
  drvinfo_sz : ℕ
  shift_sz : ℕ
  qos : Bool
  priority : ℕ
  mdata : Bool
  seq_num : ℕ
  frag_num : ℕ
  mfrag : Bool
  bdecrypted : Bool
  encrypt : ℕ
  crc_err : Bool
  icv_err : Bool
  tsfl : ℕ
  data_rate : ℕ
  bw : ℕ
  stbc : ℕ
  ldpc : ℕ
  sgi : ℕ
  scrambler : ℕ
  rssi : List UInt8 := [0, 0, 0, 0]
  snr : List Int8 := [0, 0, 0, 0]
  evm : List Int8 := [0, 0, 0, 0]
  cfo_tail : Int8 := 0
  paggr : Bool
  pkt_rpt_type : RxPacketType
  deriving DecidableEq

/-- A packet. Its data is the span of the buffer from `off` on. -/
structure Packet where
  RxAtrib : RxPktAttrib
  off : ℕ
  size : ℕ
  deriving DecidableEq

def rtl8812_query_rx_desc_status (pdesc : Bytes) : RxPktAttrib where
  pkt_len := bits pdesc 0 0 14
  crc_err := flag pdesc 0 14
  icv_err := flag pdesc 0 15
  drvinfo_sz := bits pdesc 0 16 4 * 8
  encrypt := bits pdesc 0 20 3
  qos := flag pdesc 0 23
  shift_sz := bits pdesc 0 24 2
  physt := flag pdesc 0 26
  bdecrypted := !flag pdesc 0 27
  priority := bits pdesc 4 8 4
  mdata := flag pdesc 4 26
  mfrag := flag pdesc 4 27
  seq_num := bits pdesc 8 0 12
  frag_num := bits pdesc 8 12 4
  paggr := flag pdesc 4 15
  pkt_rpt_type := if flag pdesc 8 28 then .C2H_PACKET else .NORMAL_RX
  data_rate := bits pdesc 12 0 7
  sgi := bits pdesc 16 0 1
  ldpc := bits pdesc 16 1 1
  stbc := bits pdesc 16 2 1
  bw := bits pdesc 16 4 2
  scrambler := bits pdesc 16 9 7
  tsfl := bits pdesc 20 0 32

def _RND8 (sz : ℕ) : ℕ := ((sz >>> 3) + if sz &&& 7 ≠ 0 then 1 else 0) <<< 3

/-- The size of the report that the PHY writes for a frame. -/
def PHY_STATUS_RPT_SIZE : ℕ := 28

/-- The signal fields, from the report behind the descriptor where there is one. -/
def with_phy_status (pbuf : Bytes) (a : RxPktAttrib) : RxPktAttrib :=
  let driver_data := fun i =>
    if a.physt ∧ PHY_STATUS_RPT_SIZE ≤ a.drvinfo_sz ∧
      RXDESC_SIZE + PHY_STATUS_RPT_SIZE ≤ pbuf.length
    then byteAt pbuf (RXDESC_SIZE + i) else 0
  { a with
    -- gain_trsw and gain_trsw_cd
    rssi := [driver_data 0, driver_data 1, driver_data 23, driver_data 24]
    -- rxsnr and csi_current
    snr := [(driver_data 15).toInt8, (driver_data 16).toInt8, (driver_data 21).toInt8,
      (driver_data 22).toInt8]
    -- rxevm and rxevm_cd
    evm := [(driver_data 13).toInt8, (driver_data 14).toInt8, (driver_data 19).toInt8,
      (driver_data 20).toInt8]
    cfo_tail := (driver_data 9).toInt8 }

/-- The packets of the block at `o`, which is the head of `pbuf`. -/
def surface (pbuf : Bytes) (o : ℕ) (pattrib : RxPktAttrib) : List Packet :=
  let off := o + (pattrib.shift_sz + pattrib.drvinfo_sz + RXDESC_SIZE)
  match pattrib.pkt_rpt_type with
  | .NORMAL_RX => [⟨with_phy_status pbuf pattrib, off, pattrib.pkt_len⟩]
  | .C2H_PACKET => [⟨pattrib, off, pattrib.pkt_len⟩]
  | .TX_REPORT1 | .TX_REPORT2 | .HIS_REPORT => []

/-- The loop from `o` on, when so many turns are enough for it. -/
def recv_loop (ptr : Bytes) : ℕ → ℕ → Option (List Packet)
  | fuel, o =>
    let pbuf := ptr.drop o
    if pbuf.length < RXDESC_SIZE then some []
    else
      let pattrib := rtl8812_query_rx_desc_status pbuf
      let pkt_offset := RXDESC_SIZE + pattrib.drvinfo_sz + pattrib.shift_sz + pattrib.pkt_len
      if pattrib.pkt_len = 0 ∨ pkt_offset > pbuf.length then some []
      else
        let ret := surface pbuf o pattrib
        let pkt_offset := _RND8 pkt_offset % 65536
        if pkt_offset ≥ pbuf.length then some ret
        else
          match fuel with
          | 0 => none
          | fuel + 1 => (recv_loop ptr fuel (o + pkt_offset)).map (ret ++ ·)

def recvbuf2recvframe (ptr : Bytes) : Option (List Packet) := recv_loop ptr ptr.length 0

/-! ## The walk over blocks -/

theorem _RND8_eq (sz : ℕ) : _RND8 sz = Layout.alignUp 8 sz := by
  have hlow : sz &&& 7 = sz % 8 := Nat.and_two_pow_sub_one_eq_mod sz 3
  rw [_RND8, hlow, Nat.shiftRight_eq_div_pow, Nat.shiftLeft_eq, Layout.alignUp]
  split <;> omega

theorem query_append {b : Bytes} (c : Bytes) (h : RXDESC_SIZE ≤ b.length) :
    rtl8812_query_rx_desc_status (b ++ c) = rtl8812_query_rx_desc_status b := by
  unfold RXDESC_SIZE at h
  simp only [rtl8812_query_rx_desc_status, BitFields.bits_append c (show 0 + 4 ≤ b.length by omega),
    BitFields.bits_append c (show 4 + 4 ≤ b.length by omega),
    BitFields.bits_append c (show 8 + 4 ≤ b.length by omega),
    BitFields.bits_append c (show 12 + 4 ≤ b.length by omega),
    BitFields.bits_append c (show 16 + 4 ≤ b.length by omega),
    BitFields.bits_append c (show 20 + 4 ≤ b.length by omega),
    BitFields.flag_append c (show 0 + 4 ≤ b.length by omega),
    BitFields.flag_append c (show 4 + 4 ≤ b.length by omega),
    BitFields.flag_append c (show 8 + 4 ≤ b.length by omega)]

theorem block_align_pos : 0 < 8 := by decide

/-- The blocks of an aggregate. -/
def blocks : Aggregate.Format RxPktAttrib where
  align := 8
  align_pos := block_align_pos
  size := RXDESC_SIZE
  size_pos := by decide
  desc _ := RXDESC_SIZE
  between b :=
    (rtl8812_query_rx_desc_status b).drvinfo_sz + (rtl8812_query_rx_desc_status b).shift_sz
  len b := (rtl8812_query_rx_desc_status b).pkt_len
  info := rtl8812_query_rx_desc_status
  size_le _ := le_rfl
  fields b c h := by
    rw [query_append c h]
    exact ⟨rfl, rfl, rfl, rfl⟩

/-- The attributes of a block that starts with these bytes. -/
def attrib (pbuf : Bytes) : RxPktAttrib :=
  let pattrib := rtl8812_query_rx_desc_status pbuf
  if pattrib.pkt_rpt_type = .C2H_PACKET then pattrib else with_phy_status pbuf pattrib

/-- The packet of a block of the walk. -/
def packet (ptr : Bytes) (x : ℕ × Aggregate.Rx RxPktAttrib) : Packet where
  RxAtrib := attrib (ptr.drop x.1)
  off := x.1 + x.2.frame
  size := x.2.len

theorem pkt_offset_le (b : Bytes) : RXDESC_SIZE + (rtl8812_query_rx_desc_status b).drvinfo_sz +
    (rtl8812_query_rx_desc_status b).shift_sz +
    (rtl8812_query_rx_desc_status b).pkt_len < 65000 := by
  have hlen := BitFields.bits_lt b 0 0 14
  have hdrv := BitFields.bits_lt b 0 16 4
  have hshift := BitFields.bits_lt b 0 24 2
  simp only [rtl8812_query_rx_desc_status, RXDESC_SIZE]
  omega

/-- A block is surfaced as one packet, whichever of the two types it has. -/
theorem surface_eq (pbuf : Bytes) (o : ℕ) : surface pbuf o (rtl8812_query_rx_desc_status pbuf) =
    [{ RxAtrib := attrib pbuf
       off := o + (RXDESC_SIZE + ((rtl8812_query_rx_desc_status pbuf).drvinfo_sz +
         (rtl8812_query_rx_desc_status pbuf).shift_sz))
       size := (rtl8812_query_rx_desc_status pbuf).pkt_len }] := by
  have hoff : (rtl8812_query_rx_desc_status pbuf).shift_sz +
      (rtl8812_query_rx_desc_status pbuf).drvinfo_sz + RXDESC_SIZE =
      RXDESC_SIZE + ((rtl8812_query_rx_desc_status pbuf).drvinfo_sz +
        (rtl8812_query_rx_desc_status pbuf).shift_sz) := by omega
  unfold surface attrib
  dsimp only
  rw [hoff]
  cases hflag : flag pbuf 8 28 with
  | false =>
    have htype : (rtl8812_query_rx_desc_status pbuf).pkt_rpt_type = .NORMAL_RX := by
      simp [rtl8812_query_rx_desc_status, hflag]
    rw [htype]
    rfl
  | true =>
    have htype : (rtl8812_query_rx_desc_status pbuf).pkt_rpt_type = .C2H_PACKET := by
      simp [rtl8812_query_rx_desc_status, hflag]
    rw [htype]
    rfl

theorem parse_blocks (b : Bytes) : blocks.parse b =
    if b.length < RXDESC_SIZE then none
    else
      let a := rtl8812_query_rx_desc_status b
      if a.pkt_len = 0 ∨ b.length < RXDESC_SIZE + (a.drvinfo_sz + a.shift_sz) + a.pkt_len then none
      else some {
        frame := RXDESC_SIZE + (a.drvinfo_sz + a.shift_sz)
        len := a.pkt_len
        next_offset := Layout.alignUp 8 (RXDESC_SIZE + (a.drvinfo_sz + a.shift_sz) + a.pkt_len)
        info := a } := by
  by_cases h : b.length < RXDESC_SIZE
  · rw [if_pos h]
    exact if_pos h
  · rw [if_neg h]
    refine (if_neg h).trans ?_
    exact if_neg h

/-- One turn of the loop, by what stands at the head of what is left. -/
theorem recv_loop_turn (ptr : Bytes) (fuel o : ℕ) :
    recv_loop ptr fuel o =
      match blocks.parse (ptr.drop o) with
      | none => some []
      | some rx =>
        if rx.next_offset ≥ (ptr.drop o).length then some [packet ptr (o, rx)]
        else
          match fuel with
          | 0 => none
          | fuel + 1 =>
            (recv_loop ptr fuel (o + rx.next_offset)).map (packet ptr (o, rx) :: ·) := by
  have hsum := pkt_offset_le (ptr.drop o)
  have hround : ∀ x, x < 65000 → _RND8 x % 65536 = Layout.alignUp 8 x := by
    intro x hx
    have hlt := (Layout.alignUp_spec (by decide : 0 < 8) x).2.2
    rw [_RND8_eq]
    omega
  rw [recv_loop, parse_blocks]
  by_cases hshort : (ptr.drop o).length < RXDESC_SIZE
  · rw [if_pos hshort, if_pos hshort]
  · rw [if_neg hshort, if_neg hshort]
    have hnext := hround _ hsum
    simp only [Nat.add_assoc] at hnext
    simp only [surface_eq, Nat.add_assoc, hnext, gt_iff_lt]
    split
    · rfl
    · rfl

/-- The loop takes the blocks that the walk takes. -/
theorem recv_loop_eq (ptr : Bytes) (fuel o : ℕ) {fs : List (ℕ × Aggregate.Rx RxPktAttrib)}
    (h : Aggregate.walk blocks.parse ptr fuel o = some fs) :
    recv_loop ptr fuel o = some (fs.map (packet ptr)) := by
  induction fuel generalizing o fs with
  | zero =>
    rw [Aggregate.walk] at h
    rw [recv_loop_turn]
    cases hrx : blocks.parse (ptr.drop o) with
    | none =>
      rw [hrx] at h
      cases h
      rfl
    | some rx =>
      rw [hrx] at h
      cases h
  | succ fuel ih =>
    rw [Aggregate.walk] at h
    rw [recv_loop_turn]
    cases hrx : blocks.parse (ptr.drop o) with
    | none =>
      rw [hrx] at h
      cases h
      rfl
    | some rx =>
      rw [hrx] at h
      obtain ⟨gs, hgs, rfl⟩ := Option.map_eq_some_iff.mp h
      dsimp only
      split
      · next hend =>
        have hnil : gs = [] := by
          refine Aggregate.Format.walk_nil ?_ hgs
          rw [← List.drop_drop]
          exact List.drop_eq_nil_of_le hend
        rw [hnil]
        rfl
      · rw [ih _ hgs]
        rfl

theorem with_phy_status_append {b : Bytes} (c : Bytes) (a : RxPktAttrib)
    (h : RXDESC_SIZE + a.drvinfo_sz ≤ b.length) :
    with_phy_status (b ++ c) a = with_phy_status b a := by
  have hread : ∀ i, i < PHY_STATUS_RPT_SIZE →
      (if a.physt ∧ PHY_STATUS_RPT_SIZE ≤ a.drvinfo_sz ∧
        RXDESC_SIZE + PHY_STATUS_RPT_SIZE ≤ (b ++ c).length
      then byteAt (b ++ c) (RXDESC_SIZE + i) else 0) =
      if a.physt ∧ PHY_STATUS_RPT_SIZE ≤ a.drvinfo_sz ∧
        RXDESC_SIZE + PHY_STATUS_RPT_SIZE ≤ b.length
      then byteAt b (RXDESC_SIZE + i) else 0 := by
    intro i hi
    rw [List.length_append]
    by_cases hrpt : PHY_STATUS_RPT_SIZE ≤ a.drvinfo_sz
    · have hin : RXDESC_SIZE + PHY_STATUS_RPT_SIZE ≤ b.length := by omega
      rw [byteAt_append_left c (by omega)]
      simp [hrpt, hin, Nat.le_add_right_of_le hin]
    · simp [hrpt]
  unfold with_phy_status
  simp only [hread 0 (by decide), hread 1 (by decide), hread 23 (by decide), hread 24 (by decide),
    hread 15 (by decide), hread 16 (by decide), hread 21 (by decide), hread 22 (by decide),
    hread 13 (by decide), hread 14 (by decide), hread 19 (by decide), hread 20 (by decide),
    hread 9 (by decide)]

/-- A block has its attributes from its own bytes. -/
theorem attrib_block (b : blocks.Block) (rest : Bytes) :
    attrib (b.bytes ++ rest) = attrib b.bytes := by
  have hdesc : b.desc.length = RXDESC_SIZE := b.desc_len
  have hbetween : b.between.length = (rtl8812_query_rx_desc_status b.desc).drvinfo_sz +
    (rtl8812_query_rx_desc_status b.desc).shift_sz := b.between_len
  have hlen : b.bytes.length = b.desc.length + b.between.length + b.payload.length := by
    simp [Aggregate.Format.Block.bytes, Nat.add_assoc]
  have hquery : rtl8812_query_rx_desc_status b.bytes = rtl8812_query_rx_desc_status b.desc := by
    rw [Aggregate.Format.Block.bytes, List.append_assoc]
    exact query_append _ hdesc.ge
  have hphy : with_phy_status (b.bytes ++ rest) (rtl8812_query_rx_desc_status b.bytes) =
      with_phy_status b.bytes (rtl8812_query_rx_desc_status b.bytes) :=
    with_phy_status_append rest _ (by rw [hquery]; omega)
  have hsame : rtl8812_query_rx_desc_status (b.bytes ++ rest) =
      rtl8812_query_rx_desc_status b.bytes := query_append rest (by omega)
  unfold attrib
  dsimp only
  rw [hsame, hphy]

/-! ## What is returned -/

/-- The bytes of a packet. -/
def Packet.Data (ptr : Bytes) (p : Packet) : Bytes := (ptr.drop p.off).take p.size

/-- The blocks come first, each with its attributes and its payload, whatever stands behind. -/
theorem recv_join (bs : List blocks.Padded) (tail : Bytes) :
    ∃ ps more, recvbuf2recvframe (Aggregate.Format.join bs ++ tail) = some (ps ++ more) ∧
      ps.map (fun p => (p.RxAtrib, p.Data (Aggregate.Format.join bs ++ tail))) =
        bs.map (fun x => (attrib x.block.bytes, x.block.payload)) ∧
      (tail = [] → more = []) := by
  generalize hbuf : Aggregate.Format.join bs ++ tail = buf
  obtain ⟨fs, more, hwalk, hfinds, htail⟩ := Aggregate.Format.walk_join bs tail buf 0 buf.length
    (by rw [hbuf, List.drop_zero]) (by omega)
  refine ⟨fs.map (packet buf), more.map (packet buf), ?_, ?_, ?_⟩
  · rw [recvbuf2recvframe, recv_loop_eq buf _ 0 hwalk, List.map_append]
  · rw [List.map_map]
    apply Aggregate.Format.map_finds hfinds
    intro x b hx
    have hdata : (packet buf x).Data buf = b.block.payload := hx.data_eq
    obtain ⟨rest, hhead⟩ := hx.head
    have hattrib : (packet buf x).RxAtrib = attrib b.block.bytes := by
      rw [packet, hhead, attrib_block]
    rw [Function.comp_apply, hdata, hattrib]
  · intro hnil
    rw [htail hnil]
    rfl

theorem recv_any (ptr : Bytes) : ∃ ps, recvbuf2recvframe ptr = some ps ∧
    (∀ p ∈ ps, p.off + p.size ≤ ptr.length) ∧
    ps.Pairwise fun p q => p.off + p.size ≤ q.off := by
  obtain ⟨fs, hfs⟩ := blocks.walk_ends ptr ptr.length 0 (by omega)
  have hlaid := blocks.walk_laid ptr ptr.length 0 hfs
  refine ⟨fs.map (packet ptr), recv_loop_eq ptr _ 0 hfs, ?_, ?_⟩
  · intro p hp
    obtain ⟨x, hx, rfl⟩ := List.mem_map.mp hp
    exact (hlaid.inside x hx).2.2
  · rw [List.pairwise_map]
    refine hlaid.ascending.imp ?_
    intro x y hxy
    exact Nat.le_add_right_of_le hxy

theorem aggregates_are_taken_apart :
    (∀ bs : List blocks.Padded, ∃ ps, recvbuf2recvframe (Aggregate.Format.join bs) = some ps ∧
      ps.map (fun p => (p.RxAtrib, p.Data (Aggregate.Format.join bs))) =
        bs.map fun x => (attrib x.block.bytes, x.block.payload)) ∧
    (∀ ptr : Bytes, ∃ ps, recvbuf2recvframe ptr = some ps ∧
      (∀ p ∈ ps, p.off + p.size ≤ ptr.length) ∧
      ps.Pairwise fun p q => p.off + p.size ≤ q.off) ∧
    ∀ (bs : List blocks.Padded) (tail : Bytes), ∃ ps more,
      recvbuf2recvframe (Aggregate.Format.join bs ++ tail) = some (ps ++ more) ∧
      ps.map (fun p => (p.RxAtrib, p.Data (Aggregate.Format.join bs ++ tail))) =
        bs.map fun x => (attrib x.block.bytes, x.block.payload) := by
  refine ⟨?_, recv_any, ?_⟩
  · intro bs
    obtain ⟨ps, more, hret, hmap, hnil⟩ := recv_join bs []
    rw [hnil rfl, List.append_nil, List.append_nil] at hret
    rw [List.append_nil] at hmap
    exact ⟨ps, hret, hmap⟩
  · intro bs tail
    obtain ⟨ps, more, hret, hmap, -⟩ := recv_join bs tail
    exact ⟨ps, more, hret, hmap⟩

/-- A frame of 15 bytes behind driver info and a shift, and one of 20 bytes behind neither. -/
def demoBlocks : List blocks.Padded :=
  [{ block :=
      { desc := [15, 0, 1, 2] ++ List.replicate 20 0
        between := List.replicate 10 9
        payload := List.replicate 15 3
        desc_len := by decide
        between_len := by decide
        payload_len := by decide
        payload_pos := by decide }
     pad := List.replicate 7 0
     pad_len := by decide },
   { block :=
      { desc := 20 :: List.replicate 23 0
        between := []
        payload := List.replicate 20 2
        desc_len := by decide
        between_len := by decide
        payload_len := by decide
        payload_pos := by decide }
     pad := List.replicate 4 0
     pad_len := by decide }]

theorem an_aggregate_is_taken_apart :
    ∃ ps, recvbuf2recvframe (Aggregate.Format.join demoBlocks) = some ps ∧
      ps.map (·.Data (Aggregate.Format.join demoBlocks)) =
        [List.replicate 15 3, List.replicate 20 2] := by
  obtain ⟨ps, hret, hmap⟩ := aggregates_are_taken_apart.1 demoBlocks
  have hdata := congrArg (List.map Prod.snd) hmap
  rw [List.map_map, List.map_map] at hdata
  exact ⟨ps, hret, hdata⟩

end devourer.jaguar1
