-- The receive descriptors of the later generations: one parser looks at the
-- head of a buffer, and the receive loop goes on at `next_offset` for as long
-- as it accepts.
import Devourer.Lib.Aggregate
import Devourer.Lib.BitFields

/-! ## 8822B and 8822C -/

namespace devourer.jaguar2

open BitFields (bits flag)

def RXDESC_SIZE_8822B : ℕ := 24

structure Rx8822bFrame where
  crc_err : Bool
  icv_err : Bool
  rx_rate : ℕ
  drvinfo_size : ℕ
  shift : ℕ
  tsfl : ℕ
  paggr : Bool
  physt : Bool
  ppdu_cnt : ℕ
  deriving DecidableEq

/-- The fields, which stand in the same bits on the 8822B and on the 8822C. -/
def rx_desc_88xx (buf : Bytes) : Rx8822bFrame where
  drvinfo_size := bits buf 0x00 16 4 * 8
  shift := bits buf 0x00 24 2
  crc_err := flag buf 0x00 14
  icv_err := flag buf 0x00 15
  rx_rate := bits buf 0x0C 0 7
  tsfl := bits buf 0x14 0 32
  paggr := flag buf 0x04 15
  physt := flag buf 0x00 26
  ppdu_cnt := bits buf 0x08 29 2

def parse_rx_88xx (rxdesc_size : ℕ) (buf : Bytes) : Option (Aggregate.Rx Rx8822bFrame) :=
  if buf.length < rxdesc_size then none
  else
    let frame_len := bits buf 0x00 0 14
    let out := rx_desc_88xx buf
    let frame_off := rxdesc_size + out.drvinfo_size + out.shift
    let stop := frame_off + frame_len
    if frame_len = 0 ∨ stop > buf.length then none
    else some
      { frame := frame_off, len := frame_len, next_offset := (stop + 7) / 8 * 8, info := out }

def parse_rx_8822b : Bytes → Option (Aggregate.Rx Rx8822bFrame) := parse_rx_88xx RXDESC_SIZE_8822B

theorem rx_desc_88xx_append {b : Bytes} (c : Bytes) (h : 24 ≤ b.length) :
    rx_desc_88xx (b ++ c) = rx_desc_88xx b := by
  simp only [rx_desc_88xx, BitFields.bits_append c (show 0x00 + 4 ≤ b.length by omega),
    BitFields.bits_append c (show 0x0C + 4 ≤ b.length by omega),
    BitFields.bits_append c (show 0x14 + 4 ≤ b.length by omega),
    BitFields.bits_append c (show 0x08 + 4 ≤ b.length by omega),
    BitFields.flag_append c (show 0x00 + 4 ≤ b.length by omega),
    BitFields.flag_append c (show 0x04 + 4 ≤ b.length by omega)]

/-- The blocks: a descriptor of 24 bytes, the driver info and the shift, and the frame. -/
def blocks_88xx : Aggregate.Format Rx8822bFrame where
  align := 8
  align_pos := by decide
  size := 24
  size_pos := by decide
  desc _ := 24
  between b := (rx_desc_88xx b).drvinfo_size + (rx_desc_88xx b).shift
  len b := bits b 0x00 0 14
  info := rx_desc_88xx
  size_le _ := le_rfl
  fields b c h := by
    rw [rx_desc_88xx_append c h, BitFields.bits_append c (by omega)]
    exact ⟨rfl, rfl, rfl, rfl⟩

theorem parse_rx_88xx_eq : parse_rx_88xx 24 = blocks_88xx.parse := by
  funext buf
  rw [parse_rx_88xx]
  by_cases h : buf.length < 24
  · rw [if_pos h]
    exact (if_pos h).symm
  · rw [if_neg h]
    refine Eq.trans ?_ ((if_neg h).trans (if_neg h)).symm
    simp only [blocks_88xx, Nat.add_assoc, Layout.alignUp, gt_iff_lt]

end devourer.jaguar2

namespace devourer.jaguar3

def RXDESC_SIZE_8822C : ℕ := 24

def parse_rx_8822c : Bytes → Option (Aggregate.Rx jaguar2.Rx8822bFrame) :=
  jaguar2.parse_rx_88xx RXDESC_SIZE_8822C

end devourer.jaguar3

/-! ## 8733B -/

namespace devourer.rtl8733b

open BitFields (bits flag)

def kRxDescSize : ℕ := 24

structure RxFrame8733b where
  drvinfo_size : ℕ := 0
  shift : ℕ := 0
  security : ℕ := 0
  tid : ℕ := 0
  sequence : ℕ := 0
  fragment : ℕ := 0
  rx_rate : ℕ := 0
  dma_aggregate_count : ℕ := 0
  ppdu_count : ℕ := 0
  tsfl : ℕ := 0
  crc_err : Bool := false
  icv_err : Bool := false
  qos : Bool := false
  amsdu : Bool := false
  more_data : Bool := false
  more_fragment : Bool := false
  physt : Bool := false
  c2h : Bool := false
  paggr : Bool := false
  ampdu_eof : Bool := false
  sw_decrypted : Bool := false
  deriving DecidableEq

/-- A firmware report has no other field than its length: the rest stays at its default. -/
def rx_desc (buf : Bytes) : RxFrame8733b :=
  let c2h := flag buf 0x08 28
  let dma_aggregate_count := bits buf 0x0c 16 8
  if c2h then { c2h, dma_aggregate_count }
  else {
    c2h
    dma_aggregate_count
    crc_err := flag buf 0x00 14
    icv_err := flag buf 0x00 15
    drvinfo_size := bits buf 0x00 16 4 * 8
    security := bits buf 0x00 20 3
    qos := flag buf 0x00 23
    shift := bits buf 0x00 24 2
    physt := flag buf 0x00 26
    sw_decrypted := !flag buf 0x00 27
    tid := bits buf 0x04 8 4
    amsdu := flag buf 0x04 13
    paggr := flag buf 0x04 15
    more_data := flag buf 0x04 26
    more_fragment := flag buf 0x04 27
    sequence := bits buf 0x08 0 12
    fragment := bits buf 0x08 12 4
    ppdu_count := bits buf 0x08 29 2
    rx_rate := bits buf 0x0c 0 7
    ampdu_eof := flag buf 0x10 8
    tsfl := bits buf 0x14 0 32 }

def parse_rx_8733b (buf : Bytes) : Option (Aggregate.Rx RxFrame8733b) :=
  if buf.length < kRxDescSize then none
  else
    let frame_len := bits buf 0x00 0 14
    let out := rx_desc buf
    let frame_offset := kRxDescSize + out.drvinfo_size + out.shift
    let stop := frame_offset + frame_len
    if frame_len = 0 ∨ frame_offset > buf.length ∨ stop > buf.length ∨ stop > 4294967295 then none
    else some
      { frame := frame_offset, len := frame_len, next_offset := (stop + 7) / 8 * 8, info := out }

theorem rx_desc_append {b : Bytes} (c : Bytes) (h : 24 ≤ b.length) :
    rx_desc (b ++ c) = rx_desc b := by
  simp only [rx_desc, BitFields.bits_append c (show 0x00 + 4 ≤ b.length by omega),
    BitFields.bits_append c (show 0x04 + 4 ≤ b.length by omega),
    BitFields.bits_append c (show 0x08 + 4 ≤ b.length by omega),
    BitFields.bits_append c (show 0x0c + 4 ≤ b.length by omega),
    BitFields.bits_append c (show 0x14 + 4 ≤ b.length by omega),
    BitFields.flag_append c (show 0x00 + 4 ≤ b.length by omega),
    BitFields.flag_append c (show 0x04 + 4 ≤ b.length by omega),
    BitFields.flag_append c (show 0x08 + 4 ≤ b.length by omega),
    BitFields.flag_append c (show 0x10 + 4 ≤ b.length by omega)]

def blocks_8733b : Aggregate.Format RxFrame8733b where
  align := 8
  align_pos := by decide
  size := 24
  size_pos := by decide
  desc _ := 24
  between b := (rx_desc b).drvinfo_size + (rx_desc b).shift
  len b := bits b 0x00 0 14
  info := rx_desc
  size_le _ := le_rfl
  fields b c h := by
    rw [rx_desc_append c h, BitFields.bits_append c (by omega)]
    exact ⟨rfl, rfl, rfl, rfl⟩

theorem drvinfo_size_le (b : Bytes) : (rx_desc b).drvinfo_size ≤ 120 ∧ (rx_desc b).shift ≤ 3 := by
  have hdrv := BitFields.bits_lt b 0x00 16 4
  have hshift := BitFields.bits_lt b 0x00 24 2
  cases hc2h : flag b 0x08 28 with
  | true => simp [rx_desc, hc2h]
  | false =>
    simp only [rx_desc, hc2h, Bool.false_eq_true, if_false]
    omega

theorem parse_rx_8733b_eq : parse_rx_8733b = blocks_8733b.parse := by
  funext buf
  rw [parse_rx_8733b]
  by_cases h : buf.length < kRxDescSize
  · rw [if_pos h]
    exact (if_pos h).symm
  · rw [if_neg h]
    refine Eq.trans ?_ ((if_neg h).trans (if_neg h)).symm
    obtain ⟨hdrv, hshift⟩ := drvinfo_size_le buf
    have hlen := BitFields.bits_lt buf 0x00 0 14
    -- the two further tests follow from the one of the end
    have htests : (bits buf 0x00 0 14 = 0 ∨
        kRxDescSize + (rx_desc buf).drvinfo_size + (rx_desc buf).shift > buf.length ∨
        kRxDescSize + (rx_desc buf).drvinfo_size + (rx_desc buf).shift + bits buf 0x00 0 14 >
          buf.length ∨
        kRxDescSize + (rx_desc buf).drvinfo_size + (rx_desc buf).shift + bits buf 0x00 0 14 >
          4294967295) ↔
        (bits buf 0x00 0 14 = 0 ∨ buf.length <
          24 + ((rx_desc buf).drvinfo_size + (rx_desc buf).shift) + bits buf 0x00 0 14) := by
      rw [kRxDescSize]
      omega
    simp only [htests]
    simp only [blocks_8733b, kRxDescSize, Nat.add_assoc, Layout.alignUp]

end devourer.rtl8733b

/-! ## 8852B and 8852C -/

namespace devourer.kestrel

open BitFields (bits flag)

def RPKT_TYPE_PPDU : ℕ := 1

structure KestrelRxFrame where
  rpkt_type : ℕ
  drvinfo_size : ℕ
  shift : ℕ
  long_rxd : Bool
  mac_info_vld : Bool
  crc_err : Bool
  icv_err : Bool
  a1_match : Bool
  rx_rate : ℕ
  gi_ltf : ℕ
  bw : ℕ
  ppdu_type : ℕ
  ppdu_cnt : ℕ
  freerun_cnt : ℕ
  deriving DecidableEq

def rx_desc (buf : Bytes) (drv_info_unit : ℕ) : KestrelRxFrame where
  shift := bits buf 0 14 2
  mac_info_vld := flag buf 0 23
  rpkt_type := bits buf 0 24 4
  drvinfo_size := bits buf 0 28 3 * drv_info_unit % 65536
  long_rxd := flag buf 0 31
  ppdu_type := bits buf 4 0 4
  ppdu_cnt := bits buf 4 4 3
  rx_rate := bits buf 4 16 9
  gi_ltf := bits buf 4 25 3
  bw := bits buf 4 30 2
  freerun_cnt := bits buf 8 0 32
  a1_match := flag buf 12 0
  crc_err := flag buf 12 9
  icv_err := flag buf 12 10

/-- The length of the descriptor itself. -/
def rxd_len (out : KestrelRxFrame) : ℕ := if out.long_rxd then 32 else 16

/-- A valid MAC info stands before every payload but that of a PPDU status. -/
def mac_info_len (out : KestrelRxFrame) : ℕ :=
  if out.mac_info_vld ∧ out.rpkt_type ≠ RPKT_TYPE_PPDU then 4 else 0

def parse_rx_8852b (buf : Bytes) (drv_info_unit : ℕ) : Option (Aggregate.Rx KestrelRxFrame) :=
  if buf.length < 16 then none
  else
    let payload_len := bits buf 0 0 14
    let out := rx_desc buf drv_info_unit
    if buf.length < rxd_len out then none
    else
      let frame_off := rxd_len out + out.drvinfo_size + out.shift * 2 + mac_info_len out
      let stop := frame_off + payload_len
      if payload_len = 0 ∨ stop > buf.length then none
      else some {
        frame := frame_off
        len := payload_len
        next_offset := (stop + 7) / 8 * 8
        info := out }

theorem rx_desc_append {b : Bytes} (c : Bytes) (h : 16 ≤ b.length) (drv_info_unit : ℕ) :
    rx_desc (b ++ c) drv_info_unit = rx_desc b drv_info_unit := by
  simp only [rx_desc, BitFields.bits_append c (show 0 + 4 ≤ b.length by omega),
    BitFields.bits_append c (show 4 + 4 ≤ b.length by omega),
    BitFields.bits_append c (show 8 + 4 ≤ b.length by omega),
    BitFields.flag_append c (show 0 + 4 ≤ b.length by omega),
    BitFields.flag_append c (show 12 + 4 ≤ b.length by omega)]

/-- The blocks: a short or a long descriptor, the driver info, the shift in units of two bytes and
the MAC info, and the payload. -/
def blocks_8852b (drv_info_unit : ℕ) : Aggregate.Format KestrelRxFrame where
  align := 8
  align_pos := by decide
  size := 16
  size_pos := by decide
  desc b := rxd_len (rx_desc b drv_info_unit)
  between b := (rx_desc b drv_info_unit).drvinfo_size + (rx_desc b drv_info_unit).shift * 2 +
    mac_info_len (rx_desc b drv_info_unit)
  len b := bits b 0 0 14
  info b := rx_desc b drv_info_unit
  size_le b := by
    unfold rxd_len
    split
    · decide
    · decide
  fields b c h := by
    rw [rx_desc_append c h, BitFields.bits_append c (by omega)]
    exact ⟨rfl, rfl, rfl, rfl⟩

theorem parse_rx_8852b_eq (drv_info_unit : ℕ) :
    (fun buf => parse_rx_8852b buf drv_info_unit) = (blocks_8852b drv_info_unit).parse := by
  funext buf
  rw [parse_rx_8852b]
  by_cases h : buf.length < 16
  · rw [if_pos h]
    exact (if_pos h).symm
  · rw [if_neg h]
    refine Eq.trans ?_ (if_neg h).symm
    simp only [blocks_8852b, Nat.add_assoc, Layout.alignUp, gt_iff_lt]

end devourer.kestrel

/-! ## The four of them -/

namespace devourer

theorem later_aggregates_are_taken_apart :
    Aggregate.Deaggregates jaguar2.blocks_88xx jaguar2.parse_rx_8822b ∧
    Aggregate.Deaggregates jaguar2.blocks_88xx jaguar3.parse_rx_8822c ∧
    Aggregate.Deaggregates rtl8733b.blocks_8733b rtl8733b.parse_rx_8733b ∧
    ∀ drv_info_unit, Aggregate.Deaggregates (kestrel.blocks_8852b drv_info_unit)
      fun buf => kestrel.parse_rx_8852b buf drv_info_unit := by
  refine ⟨?_, ?_, ?_, ?_⟩
  · rw [jaguar2.parse_rx_8822b, jaguar2.RXDESC_SIZE_8822B, jaguar2.parse_rx_88xx_eq]
    exact jaguar2.blocks_88xx.deaggregates
  · rw [jaguar3.parse_rx_8822c, jaguar3.RXDESC_SIZE_8822C, jaguar2.parse_rx_88xx_eq]
    exact jaguar2.blocks_88xx.deaggregates
  · rw [rtl8733b.parse_rx_8733b_eq]
    exact rtl8733b.blocks_8733b.deaggregates
  · intro drv_info_unit
    rw [kestrel.parse_rx_8852b_eq]
    exact (kestrel.blocks_8852b drv_info_unit).deaggregates

/-- A frame of 15 bytes behind driver info and a shift. -/
def demoBlock_8822c : jaguar2.blocks_88xx.Padded where
  block :=
    { desc := [15, 0, 1, 2] ++ List.replicate 20 0
      between := List.replicate 10 9
      payload := List.replicate 15 1
      desc_len := by decide
      between_len := by decide
      payload_len := by decide
      payload_pos := by decide }
  pad := List.replicate 7 0
  pad_len := by decide

/-- A frame of 15 bytes behind a long descriptor, driver info, a shift and MAC info. -/
def demoBlock_8852b : (kestrel.blocks_8852b 8).Padded where
  block :=
    { desc := [15, 0x40, 0x80, 0x90] ++ List.replicate 28 0
      between := List.replicate 14 9
      payload := List.replicate 15 1
      desc_len := by decide
      between_len := by decide
      payload_len := by decide
      payload_pos := by decide }
  pad := List.replicate 3 0
  pad_len := by decide

theorem later_frames_are_taken_apart :
    let bs := [demoBlock_8822c, demoBlock_8822c]
    let cs := [demoBlock_8852b, demoBlock_8852b]
    (∃ fs, Aggregate.walk jaguar3.parse_rx_8822c (Aggregate.Format.join bs)
        (Aggregate.Format.join bs).length 0 = some fs ∧
      fs.map (Aggregate.data (Aggregate.Format.join bs)) =
        [List.replicate 15 1, List.replicate 15 1]) ∧
    ∃ fs, Aggregate.walk (fun buf => kestrel.parse_rx_8852b buf 8) (Aggregate.Format.join cs)
        (Aggregate.Format.join cs).length 0 = some fs ∧
      fs.map (Aggregate.data (Aggregate.Format.join cs)) =
        [List.replicate 15 1, List.replicate 15 1] := by
  obtain ⟨-, h8822c, -, h8852b⟩ := later_aggregates_are_taken_apart
  exact ⟨h8822c.whole _, (h8852b 8).whole _⟩

end devourer
