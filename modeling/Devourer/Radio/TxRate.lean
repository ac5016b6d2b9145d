-- The rate that a frame airs with: each generation reads it from the radiotap
-- header in front of the frame, or from the mode that was set, and all of them
-- read one header as the same rate.
import Devourer.Radio.RadiotapIterator
import Devourer.Radio.TxMode
import Devourer.SweepSpec

namespace devourer

open chanmig (ChannelWidth_t)
open radiotap (Arg consume iterator_init Iterator)
open mt7612u (rd16 rd32 mt_radiotap_parse)

/-! ## The fields of a packet -/

/-- The length of the header, and 0 for a packet without a frame behind one. -/
def radiotap_hdr_len (packet : Bytes) : ℕ :=
  let rlen := (rd16 packet 2).toNat
  if packet.length < 8 ∨ rlen ≥ packet.length then 0 else rlen

/-- What the iterator hands out of a header of `rlen` bytes, and nothing where it does not start. -/
def handed_out (packet : Bytes) (rlen : ℕ) : Option (List Arg) :=
  match iterator_init (Reach.upto packet rlen) rlen with
  | some (some it) => some (consume (Reach.upto packet rlen) (8 * rlen) (8 * rlen) it).1
  | _ => none

def IEEE80211_RADIOTAP_RATE : ℕ := 2
def IEEE80211_RADIOTAP_CHANNEL : ℕ := 3
def IEEE80211_RADIOTAP_DBM_TX_POWER : ℕ := 10
def IEEE80211_RADIOTAP_TX_FLAGS : ℕ := 15
def IEEE80211_RADIOTAP_MCS : ℕ := 19
def IEEE80211_RADIOTAP_VHT : ℕ := 21
def IEEE80211_RADIOTAP_HE : ℕ := 23

def radiotap_tx_no_agg (tx_flags : BitVec 16) : Bool :=
  tx_flags &&& kRadiotapTxFlagNoAgg.toBitVec ≠ 0

/-- `mcs` is there exactly if the source says that it has one. -/
structure RadiotapMcsField where
  mcs : Option UInt8 := none
  bw40 : Bool := false
  sgi : UInt8 := 0
  ldpc : UInt8 := 0
  stbc : UInt8 := 0

def decode_radiotap_mcs_field (b : Bytes) (o : ℕ) : RadiotapMcsField :=
  let known := byteAt b o
  let flags := byteAt b (o + 1)
  { bw40 := flags &&& 0x03 = 1
    sgi := if flags &&& 0x04 ≠ 0 then 1 else 0
    ldpc := if known &&& 0x10 ≠ 0 ∧ flags &&& 0x10 ≠ 0 then 1 else 0
    stbc := if known &&& 0x20 ≠ 0 then (flags &&& 0x60) >>> 5 else 0
    mcs := if known &&& 0x02 ≠ 0 ∧ byteAt b (o + 2) ≤ 31 then some (byteAt b (o + 2)) else none }

/-! ## The Jaguars -/

/-- The variables that `build_tx_block` takes from the header. No power stands for the smallest
`int`. -/
structure TxAsk where
  fixed_rate : UInt8 := MGN_1M
  sgi : UInt8 := 0
  ldpc : UInt8 := 0
  stbc : UInt8 := 0
  bwidth : ChannelWidth_t := .CHANNEL_WIDTH_20
  rate_from_radiotap : Bool := false
  radiotap_channel : ℤ := 0
  radiotap_pkt_pwr_db : Option ℤ := none
  no_agg : Bool := false
  deriving DecidableEq

def take_mcs (b : Bytes) (o : ℕ) (s : TxAsk) : TxAsk :=
  let m := decode_radiotap_mcs_field b o
  { s with
    bwidth := if m.bw40 then .CHANNEL_WIDTH_40 else s.bwidth
    sgi := m.sgi
    ldpc := m.ldpc
    stbc := m.stbc
    fixed_rate := (m.mcs.map (MGN_MCS0 + ·)).getD s.fixed_rate
    rate_from_radiotap := m.mcs.isSome || s.rate_from_radiotap }

/-- `narrows` says that a code of 20 MHz takes the width back. -/
def take_vht (narrows : Bool) (b : Bytes) (o : ℕ) (s : TxAsk) : TxAsk :=
  let known := byteAt b o
  let flags := byteAt b (o + 2)
  let bw := byteAt b (o + 3) &&& 0x1f
  let mcs := byteAt b (o + 4) >>> 4 &&& 0x0f
  let nss := byteAt b (o + 4) &&& 0x0f
  { s with
    sgi := if known &&& 4 ≠ 0 ∧ flags &&& 4 ≠ 0 then 1 else s.sgi
    stbc := if known &&& 1 ≠ 0 ∧ flags &&& 1 ≠ 0 then 1 else s.stbc
    bwidth :=
      if known &&& 0x40 ≠ 0 then
        if 1 ≤ bw ∧ bw ≤ 3 then .CHANNEL_WIDTH_40
        else if 4 ≤ bw ∧ bw ≤ 10 then .CHANNEL_WIDTH_80
        else if narrows then .CHANNEL_WIDTH_20
        else s.bwidth
      else s.bwidth
    ldpc := if byteAt b (o + 8) &&& 1 ≠ 0 then 1 else s.ldpc
    fixed_rate :=
      if nss > 0 then
        MGN_VHT1SS_MCS0 + (((if nss > 4 then 4 else nss) - 1) * 10 + if mcs > 9 then 9 else mcs)
      else s.fixed_rate
    rate_from_radiotap := nss > 0 || s.rate_from_radiotap }

/-- `flagged` says that the flags are read. -/
def take_field (narrows flagged : Bool) (b : Bytes) (s : TxAsk) (a : Arg) : TxAsk :=
  if a.index = IEEE80211_RADIOTAP_RATE then
    { s with fixed_rate := byteAt b a.off, rate_from_radiotap := true }
  else if a.index = IEEE80211_RADIOTAP_CHANNEL then
    { s with radiotap_channel := freq_to_chan ⟨rd16 b a.off⟩ }
  else if a.index = IEEE80211_RADIOTAP_TX_FLAGS ∧ flagged then
    { s with no_agg := radiotap_tx_no_agg (rd16 b a.off) }
  else if a.index = IEEE80211_RADIOTAP_DBM_TX_POWER then
    { s with radiotap_pkt_pwr_db := some (byteAt b a.off).toInt8.toInt }
  else if a.index = IEEE80211_RADIOTAP_MCS then take_mcs b a.off s
  else if a.index = IEEE80211_RADIOTAP_VHT then take_vht narrows b a.off s
  else s

/-- What the header of a packet asks for. -/
def read_ask (narrows flagged : Bool) (packet : Bytes) : TxAsk :=
  ((handed_out packet (radiotap_hdr_len packet)).getD []).foldl
    (take_field narrows flagged packet) {}

/-- A header without a rate leaves it to the mode that was set. -/
def with_default (flagged : Bool) (d : Option TxMode) (s : TxAsk) : TxAsk :=
  match d with
  | some m =>
    if s.rate_from_radiotap then s
    else
      let tp := tx_mode_to_params m
      { s with
        fixed_rate := tp.fixed_rate
        sgi := tp.sgi
        ldpc := tp.ldpc
        stbc := tp.stbc
        bwidth := tp.bwidth
        no_agg := s.no_agg || (flagged && m.no_agg) }
  | none => s

/-- There is no CCK at 5 GHz. -/
def clamp_cck (channel : ℤ) (s : TxAsk) : TxAsk :=
  if channel > 14 ∧ (s.fixed_rate = MGN_1M ∨ s.fixed_rate = MGN_2M ∨ s.fixed_rate = MGN_5_5M ∨
      s.fixed_rate = MGN_11M) then
    { s with fixed_rate := MGN_6M }
  else s

/-- A chip with one chain has no STBC. -/
def drop_stbc (stbc_ok : Bool) (s : TxAsk) : TxAsk :=
  if s.stbc ≠ 0 ∧ !stbc_ok then { s with stbc := 0 } else s

namespace jaguar1

/-- `channel` is the one that the frame airs on. -/
def tx_ask (channel : ℤ) (stbc_ok : Bool) (d : Option TxMode) (packet : Bytes) : TxAsk :=
  drop_stbc stbc_ok (clamp_cck channel (with_default false d (read_ask true false packet)))

end jaguar1

namespace jaguar2

def tx_ask (stbc_ok : Bool) (d : Option TxMode) (packet : Bytes) : TxAsk :=
  drop_stbc stbc_ok (with_default false d (read_ask false false packet))

end jaguar2

namespace jaguar3

/-- The chips have two chains, so that their guard of STBC drops nothing. -/
def tx_ask (d : Option TxMode) (packet : Bytes) : TxAsk :=
  with_default true d (read_ask false true packet)

end jaguar3

/-! ## The RTL8733B -/

namespace rtl8733b

def ht_request_supported_8733b (mcs : UInt8) (bw_mhz : UInt8) (sgi ldpc stbc : Bool) : Bool :=
  mcs ≤ 7 && (bw_mhz = 20 || bw_mhz = 40) && !sgi && !ldpc && !stbc

def legacy_request_supported_8733b (bw_mhz : UInt8) (sgi ldpc stbc : Bool) : Bool :=
  bw_mhz = 20 && !sgi && !ldpc && !stbc

def tx_mode_supported_8733b (m : TxMode) : Bool :=
  match m.mode with
  | .Legacy => legacy_request_supported_8733b m.bw_mhz m.sgi m.ldpc m.stbc
  | .HT => ht_request_supported_8733b m.ht_mcs m.bw_mhz m.sgi m.ldpc m.stbc
  | .VHT | .HE => false

/-- The variables that its `build_tx_block` takes from the header. -/
structure Ask where
  fixed_rate : UInt8 := MGN_6M
  frame_width : ChannelWidth_t := .CHANNEL_WIDTH_20
  requested_channel : ℤ := 0
  deriving DecidableEq

/-- The mode that was set, where it is one that the chip has. -/
def default_ask : Option TxMode → Option Ask
  | none => some {}
  | some m =>
    if !tx_mode_supported_8733b m then none
    else
      match m.mode with
      | .Legacy => some { fixed_rate := m.legacy_rate_500kbps }
      | _ => some {
          fixed_rate := MGN_MCS0 + m.ht_mcs
          frame_width := if m.bw_mhz = 40 then .CHANNEL_WIDTH_40 else .CHANNEL_WIDTH_20 }

def take_field (b : Bytes) (s : Ask) (a : Arg) : Option Ask :=
  if a.index = IEEE80211_RADIOTAP_RATE then
    some { s with fixed_rate := byteAt b a.off, frame_width := .CHANNEL_WIDTH_20 }
  else if a.index = IEEE80211_RADIOTAP_CHANNEL then
    let requested_channel := freq_to_chan ⟨rd16 b a.off⟩
    if requested_channel ≤ 0 then none else some { s with requested_channel }
  else if a.index = IEEE80211_RADIOTAP_MCS then
    let m := decode_radiotap_mcs_field b a.off
    match m.mcs with
    | none => none
    | some mcs =>
      if !ht_request_supported_8733b mcs (if m.bw40 then 40 else 20) (m.sgi ≠ 0) (m.ldpc ≠ 0)
          (m.stbc ≠ 0) then none
      else some { s with
        fixed_rate := MGN_MCS0 + mcs
        frame_width := if m.bw40 then .CHANNEL_WIDTH_40 else .CHANNEL_WIDTH_20 }
  else if a.index = IEEE80211_RADIOTAP_VHT ∨ a.index = IEEE80211_RADIOTAP_HE then none
  else some s

/-- Whether the tuned channel can carry it. -/
def fits (channel : ℤ) (width : ChannelWidth_t) (s : Ask) : Bool :=
  !(s.requested_channel > 0 && s.requested_channel ≠ channel) &&
    !(s.frame_width = .CHANNEL_WIDTH_40 && width ≠ .CHANNEL_WIDTH_40) &&
    (width = .CHANNEL_WIDTH_20 || width = .CHANNEL_WIDTH_40 || width = .CHANNEL_WIDTH_5 ||
      width = .CHANNEL_WIDTH_10)

/-- What a packet is sent with on a channel, and nothing for one that is refused. -/
def tx_ask (channel : ℤ) (width : ChannelWidth_t) (d : Option TxMode) (packet : Bytes) :
    Option Ask := do
  let rlen := radiotap_hdr_len packet
  let frame_len := packet.length - rlen
  if rlen = 0 ∨ frame_len < 24 ∨ frame_len > 4095 then none
  else
    let s ← default_ask d
    let args ← handed_out packet rlen
    let s ← args.foldlM (take_field packet) s
    if fits channel width s then some s else none

end rtl8733b

/-! ## What a rate means on the air -/

/-- `rate` is in units of 500 kbps for a legacy rate, and an MCS for the others. -/
structure AirRate where
  family : TxMode.Mode
  rate : ℕ
  nss : ℕ
  bw : ℕ
  sgi : Bool := false
  ldpc : Bool := false
  stbc : Bool := false
  deriving DecidableEq

/-- The meaning of the driver's number of a rate. -/
def mgn_air (rate : UInt8) (bw : ℕ) (sgi ldpc stbc : Bool) : AirRate :=
  if rate < MGN_MCS0 then ⟨.Legacy, rate.toNat, 1, bw, sgi, ldpc, stbc⟩
  else if rate < MGN_VHT1SS_MCS0 then
    let mcs := (rate - MGN_MCS0).toNat
    ⟨.HT, mcs, mcs / 8 + 1, bw, sgi, ldpc, stbc⟩
  else
    let k := (rate - MGN_VHT1SS_MCS0).toNat
    ⟨.VHT, k % 10, k / 10 + 1, bw, sgi, ldpc, stbc⟩

/-- The descriptors tell 40 and 80 MHz from everything else. -/
def width_mhz : ChannelWidth_t → ℕ
  | .CHANNEL_WIDTH_40 => 40
  | .CHANNEL_WIDTH_80 => 80
  | _ => 20

def TxAsk.air (s : TxAsk) : AirRate :=
  mgn_air s.fixed_rate (width_mhz s.bwidth) (s.sgi ≠ 0) (s.ldpc ≠ 0) (s.stbc ≠ 0)

def rtl8733b.Ask.air (s : rtl8733b.Ask) : AirRate :=
  mgn_air s.fixed_rate (width_mhz s.frame_width) false false false

def TxParams.air (p : TxParams) : AirRate :=
  mgn_air p.fixed_rate (width_mhz p.bwidth) (p.sgi ≠ 0) (p.ldpc ≠ 0) (p.stbc ≠ 0)

namespace mt7612u

/-- The rates of the legacy formats by their index, in units of 500 kbps. -/
def cck_rates : List ℕ := [2, 4, 11, 22]
def ofdm_rates : List ℕ := [12, 18, 24, 36, 48, 72, 96, 108]

def Bw.mhz : Bw → ℕ
  | .BW_20 => 20
  | .BW_40 => 40
  | .BW_80 => 80

def TxRate.air (r : TxRate) : AirRate :=
  match r.phy with
  | .CCK => ⟨.Legacy, cck_rates.getD r.mcs.toNat 0, 1, r.bw.mhz, r.sgi, r.ldpc, r.stbc⟩
  | .OFDM => ⟨.Legacy, ofdm_rates.getD r.mcs.toNat 0, 1, r.bw.mhz, r.sgi, r.ldpc, r.stbc⟩
  | .HT | .HT_GF => ⟨.HT, r.mcs.toNat, r.nss.toNat, r.bw.mhz, r.sgi, r.ldpc, r.stbc⟩
  | .VHT => ⟨.VHT, r.mcs.toNat, r.nss.toNat, r.bw.mhz, r.sgi, r.ldpc, r.stbc⟩

end mt7612u

/-- What the header of a mode asks for. It has no place for the width and the coding of a legacy
rate, and 160 MHz is narrowed by the readers. -/
def TxMode.header_air (m : TxMode) : AirRate :=
  match m.mode with
  | .Legacy => ⟨.Legacy, m.legacy_rate_500kbps.toNat, 1, 20, false, false, false⟩
  | .HT => ⟨.HT, m.ht_mcs.toNat, m.ht_mcs.toNat / 8 + 1, if m.bw_mhz ≥ 40 then 40 else 20, m.sgi,
      m.ldpc, m.stbc⟩
  | .VHT => ⟨.VHT, m.vht_mcs.toNat, m.vht_nss.toNat,
      if m.bw_mhz = 40 then 40 else if m.bw_mhz = 80 then 80 else 20, m.sgi, m.ldpc, m.stbc⟩
  | .HE => ⟨.HE, m.he_mcs.toNat, m.he_nss.toNat,
      if m.bw_mhz = 40 then 40 else if m.bw_mhz = 80 ∨ m.bw_mhz = 160 then 80
        else 20, false, m.ldpc, m.stbc⟩

/-! ## The built header -/

theorem rd16_emit {b : Bytes} {o : ℕ} (x : UInt16) (h : ∀ i, i < 2 → byteAt b (o + i) =
    byteAt (emit_u16_le x) i) : rd16 b o = x.toBitVec := by
  apply Wire.getLe_of_bytes _ (by omega)
  intro i hi
  rw [h i hi, Wire.byteAt_putLe _ _ hi]
  apply UInt8.eq_of_toBitVec_eq
  match i with
  | 0 => simp [emit_u16_le, byteAt]
  | 1 => simp [emit_u16_le, byteAt]

theorem rd32_emit {b : Bytes} {o : ℕ} (x : UInt32) (h : ∀ i, i < 4 → byteAt b (o + i) =
    byteAt (emit_u32_le x) i) : rd32 b o = x.toBitVec := by
  apply Wire.getLe_of_bytes _ (by omega)
  intro i hi
  rw [h i hi, Wire.byteAt_putLe _ _ hi]
  apply UInt8.eq_of_toBitVec_eq
  match i with
  | 0 => simp [emit_u32_le, byteAt]
  | 1 => simp [emit_u32_le, byteAt]
  | 2 => simp [emit_u32_le, byteAt]
  | 3 => simp [emit_u32_le, byteAt]

section
variable (len : UInt16) (present : UInt32) (fields frame : Bytes)

theorem header_len : rd16 (radiotap_header len present fields ++ frame) 2 = len.toBitVec := by
  apply rd16_emit
  intro i hi
  match i with
  | 0 => rfl
  | 1 => rfl

theorem header_present : rd32 (radiotap_header len present fields ++ frame) 4 =
    present.toBitVec := by
  apply rd32_emit
  intro i hi
  match i with
  | 0 => rfl
  | 1 => rfl
  | 2 => rfl
  | 3 => rfl

theorem header_length : (radiotap_header len present fields ++ frame).length =
    8 + fields.length + frame.length := by
  simp [radiotap_header, emit_u16_le, emit_u32_le]
  omega

variable {len present fields frame}

/-- The iterator on the only present word of a header. -/
def only_word (len : ℕ) (word : BitVec 32) : Iterator where
  max_length := len
  bitmap_shifter := word
  arg := 8
  next_bitmap := 8
  this_arg := 8

theorem header_hdr_len (hlen : 8 + fields.length = len.toNat) (hframe : frame ≠ []) :
    radiotap_hdr_len (radiotap_header len present fields ++ frame) = len.toNat := by
  have hpos := List.length_pos_of_ne_nil hframe
  have hword : len.toBitVec.toNat = len.toNat := rfl
  unfold radiotap_hdr_len
  rw [header_len, header_length, hword]
  exact if_neg (by omega)

/-- A header alone is no packet. -/
theorem header_alone (hlen : 8 + fields.length = len.toNat) :
    radiotap_hdr_len (radiotap_header len present fields ++ []) = 0 := by
  have hword : len.toBitVec.toNat = len.toNat := rfl
  unfold radiotap_hdr_len
  rw [header_len, header_length, hword, List.length_nil]
  exact if_pos (by omega)

/-- A header with one present word, which is not chained, starts the iterator on that word. -/
theorem handed_out_header (hlen : 8 + fields.length = len.toNat)
    (hext : present.toBitVec.getLsbD 31 = false) :
    handed_out (radiotap_header len present fields ++ frame) len.toNat =
      some (consume (Reach.upto (radiotap_header len present fields ++ frame) len.toNat)
        (8 * len.toNat) (8 * len.toNat) (only_word len.toNat present.toBitVec)).1 := by
  have hlimit : (Reach.upto (radiotap_header len present fields ++ frame) len.toNat).limit =
      len.toNat := Reach.limit_upto (by rw [header_length]; omega)
  have hlenword : rd16 ((radiotap_header len present fields ++ frame).drop 2 |>.take 2) 0 =
      len.toBitVec := by
    rw [← header_len len present fields frame]
    apply mt7612u.rd16_congr
    intro i hi
    rw [byteAt_take (by omega), byteAt_drop, Nat.zero_add]
  have hinit : iterator_init (Reach.upto (radiotap_header len present fields ++ frame) len.toNat)
      len.toNat = some (some (only_word len.toNat present.toBitVec)) := by
    unfold iterator_init
    rw [if_neg (by omega), Reach.read_eq (by omega), Reach.read_eq (by omega),
      mt7612u.get_le32_eq (by omega)]
    simp only [Option.bind_eq_bind, Option.bind_some, Reach.bytes_upto, hlenword, header_present]
    rw [if_neg (by simp [radiotap_header, byteAt]), if_neg (by exact Nat.lt_irrefl _), if_neg]
    · rfl
    · rw [radiotap.IEEE80211_RADIOTAP_EXT, hext]
      simp
  unfold handed_out
  rw [hinit]

end

/-- The arguments of the header of a mode. -/
def built_args : TxMode.Mode → List Arg
  | .Legacy => [⟨2, 8, 1⟩, ⟨15, 10, 2⟩]
  | .HT => [⟨15, 8, 2⟩, ⟨19, 10, 3⟩]
  | .VHT => [⟨15, 8, 2⟩, ⟨21, 10, 12⟩]
  | .HE => [⟨15, 8, 2⟩, ⟨23, 10, 12⟩]

theorem consume_legacy (r : Reach) :
    (consume r (8 * 13) (8 * 13) (only_word 13 0x8004#32)).1 = built_args .Legacy := rfl

theorem consume_ht (r : Reach) :
    (consume r (8 * 13) (8 * 13) (only_word 13 0x88000#32)).1 = built_args .HT := rfl

theorem consume_vht (r : Reach) :
    (consume r (8 * 22) (8 * 22) (only_word 22 0x208000#32)).1 = built_args .VHT := rfl

theorem consume_he (r : Reach) :
    (consume r (8 * 22) (8 * 22) (only_word 22 0x808000#32)).1 = built_args .HE := rfl

theorem built_hdr_len (m : TxMode) (no_ack : Bool) {frame : Bytes} (hframe : frame ≠ []) :
    radiotap_hdr_len (build_stream_radiotap m no_ack ++ frame) =
      (build_stream_radiotap m no_ack).length := by
  unfold build_stream_radiotap
  cases m.mode
  · exact header_hdr_len rfl hframe
  · exact header_hdr_len rfl hframe
  · exact header_hdr_len rfl hframe
  · exact header_hdr_len rfl hframe

theorem built_alone (m : TxMode) (no_ack : Bool) :
    radiotap_hdr_len (build_stream_radiotap m no_ack ++ []) = 0 := by
  unfold build_stream_radiotap
  cases m.mode
  · exact header_alone rfl
  · exact header_alone rfl
  · exact header_alone rfl
  · exact header_alone rfl

theorem handed_out_built (m : TxMode) (no_ack : Bool) (frame : Bytes) :
    handed_out (build_stream_radiotap m no_ack ++ frame) (build_stream_radiotap m no_ack).length =
      some (built_args m.mode) := by
  unfold build_stream_radiotap
  cases m.mode
  · exact (handed_out_header rfl (by decide)).trans (congrArg some (consume_legacy _))
  · exact (handed_out_header rfl (by decide)).trans (congrArg some (consume_ht _))
  · exact (handed_out_header rfl (by decide)).trans (congrArg some (consume_vht _))
  · exact (handed_out_header rfl (by decide)).trans (congrArg some (consume_he _))

/-- Of a header whose present word is not chained each field is handed out at most once. -/
theorem handed_out_once {packet : Bytes} (h : (rd32 packet 4).getLsbD 31 = false) (i : ℕ) :
    (((handed_out packet (radiotap_hdr_len packet)).getD []).filter
      fun a => a.index = i).length ≤ 1 := by
  have hle : radiotap_hdr_len packet ≤ packet.length := by
    unfold radiotap_hdr_len
    dsimp only
    split
    · exact Nat.zero_le _
    · omega
  have hlimit := Reach.limit_upto hle
  have hrises : ((handed_out packet (radiotap_hdr_len packet)).getD []).Pairwise
      fun a b => a.index < b.index := by
    obtain ⟨x, hinit, hstarts⟩ := radiotap.iterator_init_spec hlimit.ge
    unfold handed_out
    rw [hinit]
    cases x with
    | none => exact List.Pairwise.nil
    | some it =>
      obtain ⟨-, present, hstarts⟩ := hstarts it rfl
      have hword : it.bitmap_shifter = rd32 packet 4 := by
        have hfirst := hstarts.presents.word 0 hstarts.presents.some
        rw [hstarts.eq]
        cases present with
        | nil => exact absurd hstarts.presents.some (Nat.lt_irrefl 0)
        | cons word words => exact hfirst.symm
      have hunchained : radiotap.Unchained 0 it := by
        refine ⟨?_, by decide, ?_⟩
        · rw [hstarts.eq]
        · rw [hword]
          exact h
      have hlong := hstarts.presents.first
      obtain ⟨hends, -, hsorted⟩ :=
        radiotap.walk_rises (Reach.upto packet (radiotap_hdr_len packet)) hunchained
        (show 32 - 0 ≤ 8 * radiotap_hdr_len packet by omega)
      rw [← radiotap.consume_eq_walk _ _ _ hends le_rfl le_rfl] at hsorted
      exact hsorted
  generalize (handed_out packet (radiotap_hdr_len packet)).getD [] = args at hrises
  have hfilter := hrises.filter fun a => a.index = i
  have hindex : ∀ a ∈ args.filter fun a => a.index = i, a.index = i := by simp
  generalize (args.filter fun a => a.index = i) = found at hfilter hindex
  match found, hfilter with
  | [], _ => exact Nat.zero_le _
  | [a], _ => exact le_rfl
  | a :: b :: rest, hpair =>
    have hlt := (List.pairwise_cons.mp hpair).1 b (by simp)
    have ha := hindex a (by simp)
    have hb := hindex b (by simp)
    omega

/-! ## What the Jaguars read of it -/

theorem tx_no_agg (m : TxMode) (no_ack : Bool) :
    radiotap_tx_no_agg (stream_tx_flags m no_ack).toBitVec = m.no_agg := by
  unfold stream_tx_flags
  cases m.no_agg <;> cases no_ack <;> decide

theorem flags_read {b : Bytes} {o : ℕ} (m : TxMode) (no_ack : Bool)
    (h : ∀ i, i < 2 → byteAt b (o + i) = byteAt (emit_u16_le (stream_tx_flags m no_ack)) i) :
    radiotap_tx_no_agg (rd16 b o) = m.no_agg := by
  rw [rd16_emit _ h, tx_no_agg]

/-- What `build_tx_block` takes from the header of a mode. -/
def header_ask (flagged : Bool) (m : TxMode) : TxAsk :=
  match m.mode with
  | .Legacy => {
      fixed_rate := m.legacy_rate_500kbps
      rate_from_radiotap := true
      no_agg := flagged && m.no_agg }
  | .HT => {
      fixed_rate := MGN_MCS0 + if m.ht_mcs ≤ 31 then m.ht_mcs else 0
      sgi := m.sgi.toUInt8
      ldpc := m.ldpc.toUInt8
      stbc := m.stbc.toUInt8
      bwidth := if m.bw_mhz ≥ 40 then .CHANNEL_WIDTH_40 else .CHANNEL_WIDTH_20
      rate_from_radiotap := true
      no_agg := flagged && m.no_agg }
  | .VHT =>
    let mcs := m.vht_mcs &&& 0x0f
    let nss := m.vht_nss &&& 0x0f
    { fixed_rate :=
        if nss > 0 then
          MGN_VHT1SS_MCS0 + (((if nss > 4 then 4 else nss) - 1) * 10 + if mcs > 9 then 9 else mcs)
        else MGN_1M
      sgi := m.sgi.toUInt8
      ldpc := m.ldpc.toUInt8
      stbc := m.stbc.toUInt8
      bwidth :=
        if m.bw_mhz = 40 then .CHANNEL_WIDTH_40
        else if m.bw_mhz = 80 then .CHANNEL_WIDTH_80
        else .CHANNEL_WIDTH_20
      rate_from_radiotap := nss > 0
      no_agg := flagged && m.no_agg }
  | .HE => { no_agg := flagged && m.no_agg }

theorem shifted_nibble (mcs nss : UInt8) :
    ((mcs &&& 0x0F) <<< 4 ||| nss &&& 0x0F) >>> 4 = mcs &&& 0x0f := by
  apply UInt8.eq_of_toBitVec_eq
  ext i hi
  match i with
  | 0 | 1 | 2 | 3 | 4 | 5 | 6 | 7 => simp

theorem high_nibble (mcs nss : UInt8) :
    ((mcs &&& 0x0F) <<< 4 ||| nss &&& 0x0F) >>> 4 &&& 0x0f = mcs &&& 0x0f := by
  rw [shifted_nibble, UInt8.and_assoc, UInt8.and_self]

theorem low_nibble (mcs nss : UInt8) :
    ((mcs &&& 0x0F) <<< 4 ||| nss &&& 0x0F) &&& 0x0f = nss &&& 0x0f := by
  apply UInt8.eq_of_toBitVec_eq
  ext i hi
  match i with
  | 0 | 1 | 2 | 3 | 4 | 5 | 6 | 7 => simp

section
variable (narrows flagged : Bool) (b : Bytes) (s : TxAsk) (o n : ℕ)

@[simp] theorem take_rate_field : take_field narrows flagged b s ⟨2, o, n⟩ =
    { s with fixed_rate := byteAt b o, rate_from_radiotap := true } := rfl

@[simp] theorem take_flags_field : take_field narrows flagged b s ⟨15, o, n⟩ =
    { s with no_agg := if flagged then radiotap_tx_no_agg (rd16 b o) else s.no_agg } := by
  cases flagged <;> rfl

@[simp] theorem take_mcs_field : take_field narrows flagged b s ⟨19, o, n⟩ = take_mcs b o s := by
  cases flagged <;> rfl

@[simp] theorem take_vht_field :
    take_field narrows flagged b s ⟨21, o, n⟩ = take_vht narrows b o s := by
  cases flagged <;> rfl

@[simp] theorem take_he_field : take_field narrows flagged b s ⟨23, o, n⟩ = s := by
  cases flagged <;> rfl

end

/-! ### The octets of a built header -/

section built

variable (m : TxMode) (f : UInt16) (frame : Bytes)

theorem legacy_rate_octet : byteAt (build_legacy m f ++ frame) 8 = m.legacy_rate_500kbps := rfl

theorem ht_known_octet : byteAt (build_ht m f ++ frame) 10 = 0x37 := rfl

theorem ht_flags_octet : byteAt (build_ht m f ++ frame) 11 =
    (if m.bw_mhz ≥ 40 then 0x01 else 0) ||| (if m.sgi then 0x04 else 0) |||
      (if m.ldpc then 0x10 else 0) ||| (if m.stbc then 0x20 else 0) := rfl

theorem ht_mcs_octet :
    byteAt (build_ht m f ++ frame) 12 = if m.ht_mcs ≤ 31 then m.ht_mcs else 0 := rfl

theorem vht_known_octet : byteAt (build_vht m f ++ frame) 10 = 0x45 := rfl

theorem vht_flags_octet : byteAt (build_vht m f ++ frame) 12 =
    (if m.stbc then 0x01 else 0) ||| (if m.sgi then 0x04 else 0) := rfl

theorem vht_bw_octet : byteAt (build_vht m f ++ frame) 13 =
    if m.bw_mhz = 40 then 1 else if m.bw_mhz = 80 then 4
    else if m.bw_mhz = 160 then 11 else 0 := rfl

theorem vht_rate_octet : byteAt (build_vht m f ++ frame) 14 =
    (m.vht_mcs &&& 0x0F) <<< 4 ||| m.vht_nss &&& 0x0F := rfl

theorem vht_coding_octet :
    byteAt (build_vht m f ++ frame) 18 = if m.ldpc then 0x01 else 0x00 := rfl

end built

theorem decode_built_mcs (m : TxMode) (f : UInt16) (frame : Bytes) :
    decode_radiotap_mcs_field (build_ht m f ++ frame) 10 =
      { mcs := some (if m.ht_mcs ≤ 31 then m.ht_mcs else 0)
        bw40 := m.bw_mhz ≥ 40
        sgi := m.sgi.toUInt8
        ldpc := m.ldpc.toUInt8
        stbc := m.stbc.toUInt8 } := by
  have hsmall : (if m.ht_mcs ≤ 31 then m.ht_mcs else 0) ≤ 31 := by
    split
    · assumption
    · decide
  unfold decode_radiotap_mcs_field
  rw [ht_known_octet, ht_flags_octet, ht_mcs_octet]
  by_cases hbw : m.bw_mhz ≥ 40
  · cases m.sgi <;> cases m.ldpc <;> cases m.stbc <;> simp [hbw, hsmall] <;> decide
  · cases m.sgi <;> cases m.ldpc <;> cases m.stbc <;> simp [hbw, hsmall] <;> decide

theorem take_built_vht (narrows : Bool) (m : TxMode) (f : UInt16) (frame : Bytes) (no_agg : Bool) :
    take_vht narrows (build_vht m f ++ frame) 10 { no_agg := no_agg } =
      { header_ask true { m with mode := .VHT } with no_agg := no_agg } := by
  have hknown := vht_known_octet m f frame
  have hflags := vht_flags_octet m f frame
  have hbw := vht_bw_octet m f frame
  have hrates := vht_rate_octet m f frame
  have hcoding := vht_coding_octet m f frame
  unfold take_vht header_ask
  simp only [hknown, hflags, hbw, hrates, hcoding, high_nibble, low_nibble, TxAsk.mk.injEq]
  refine ⟨trivial, ?_, ?_, ?_, ?_, ?_, trivial, trivial, trivial⟩
  · cases m.sgi <;> cases m.stbc <;> decide
  · cases m.ldpc <;> decide
  · cases m.sgi <;> cases m.stbc <;> decide
  · by_cases h40 : m.bw_mhz = 40
    · rw [if_pos h40, if_pos h40]
      rfl
    rw [if_neg h40, if_neg h40]
    by_cases h80 : m.bw_mhz = 80
    · rw [if_pos h80, if_pos h80]
      rfl
    rw [if_neg h80, if_neg h80]
    by_cases h160 : m.bw_mhz = 160
    · rw [if_pos h160]
      cases narrows <;> decide
    · rw [if_neg h160]
      cases narrows <;> decide
  · simp

/-- A Jaguar reads the header of a mode. -/
theorem read_ask_built (narrows flagged : Bool) (m : TxMode) (no_ack : Bool) {frame : Bytes}
    (hframe : frame ≠ []) :
    read_ask narrows flagged (build_stream_radiotap m no_ack ++ frame) = header_ask flagged m := by
  unfold read_ask
  rw [built_hdr_len m no_ack hframe, handed_out_built, Option.getD_some]
  unfold build_stream_radiotap header_ask
  cases hmode : m.mode with
  | Legacy =>
    have hflags := flags_read (b := build_legacy m (stream_tx_flags m no_ack) ++ frame) (o := 10) m
      no_ack (by intro i hi; match i with | 0 | 1 => rfl)
    cases flagged <;> simp [built_args, legacy_rate_octet, hflags]
  | HT =>
    have hflags := flags_read (b := build_ht m (stream_tx_flags m no_ack) ++ frame) (o := 8) m
      no_ack (by intro i hi; match i with | 0 | 1 => rfl)
    cases flagged <;> simp [built_args, hflags, take_mcs, decode_built_mcs]
  | VHT =>
    have hflags := flags_read (b := build_vht m (stream_tx_flags m no_ack) ++ frame) (o := 8) m
      no_ack (by intro i hi; match i with | 0 | 1 => rfl)
    cases flagged <;> simp [built_args, hflags, take_built_vht, header_ask]
  | HE =>
    have hflags := flags_read (b := build_he m (stream_tx_flags m no_ack) ++ frame) (o := 8) m
      no_ack (by intro i hi; match i with | 0 | 1 => rfl)
    cases flagged <;> simp [built_args, hflags]

theorem mcs0_toNat : MGN_MCS0.toNat = 128 := rfl

theorem vht0_toNat : MGN_VHT1SS_MCS0.toNat = 160 := rfl

theorem vht_rate_toNat {nss mcs : UInt8} (h1 : 1 ≤ nss) (h4 : nss ≤ 4) (h9 : mcs ≤ 9) :
    (vht_rate nss mcs).toNat = 160 + (nss.toNat - 1) * 10 + mcs.toNat := by
  have hsub := UInt8.toNat_sub_of_le nss 1 h1
  simp only [UInt8.le_iff_toNat_le, UInt8.reduceToNat] at h1 h4 h9 hsub
  unfold vht_rate
  simp only [UInt8.lt_iff_toNat_lt, gt_iff_lt, UInt8.reduceToNat]
  rw [if_neg (by omega), if_neg (by omega), if_neg (by omega), UInt8.toNat_add, UInt8.toNat_add,
    UInt8.toNat_mul, hsub, vht0_toNat]
  simp only [UInt8.reduceToNat]
  omega

/-- The number of a VHT rate, read back. -/
theorem mgn_air_vht {nss mcs : UInt8} (h1 : 1 ≤ nss) (h4 : nss ≤ 4) (h9 : mcs ≤ 9) (bw : ℕ)
    (sgi ldpc stbc : Bool) :
    mgn_air (vht_rate nss mcs) bw sgi ldpc stbc =
      ⟨.VHT, mcs.toNat, nss.toNat, bw, sgi, ldpc, stbc⟩ := by
  have hrate := vht_rate_toNat h1 h4 h9
  simp only [UInt8.le_iff_toNat_le, UInt8.reduceToNat] at h1 h4 h9
  have hsub : (vht_rate nss mcs - MGN_VHT1SS_MCS0).toNat = (nss.toNat - 1) * 10 + mcs.toNat := by
    rw [UInt8.toNat_sub_of_le _ _ (by rw [UInt8.le_iff_toNat_le, hrate, vht0_toNat]; omega), hrate,
      vht0_toNat]
    omega
  unfold mgn_air
  simp only [UInt8.lt_iff_toNat_lt, hrate, mcs0_toNat, vht0_toNat, hsub]
  rw [if_neg (by omega), if_neg (by omega), AirRate.mk.injEq]
  exact ⟨rfl, by omega, by omega, rfl, rfl, rfl, rfl⟩

/-- The number of an HT rate, read back. -/
theorem mgn_air_ht {mcs : UInt8} (h : mcs ≤ 31) (bw : ℕ) (sgi ldpc stbc : Bool) :
    mgn_air (MGN_MCS0 + mcs) bw sgi ldpc stbc =
      ⟨.HT, mcs.toNat, mcs.toNat / 8 + 1, bw, sgi, ldpc, stbc⟩ := by
  simp only [UInt8.le_iff_toNat_le, UInt8.reduceToNat] at h
  have hrate : (MGN_MCS0 + mcs).toNat = 128 + mcs.toNat := by
    rw [UInt8.toNat_add, mcs0_toNat]
    omega
  have hsub : (MGN_MCS0 + mcs - MGN_MCS0).toNat = mcs.toNat := by
    rw [UInt8.toNat_sub_of_le _ _ (by rw [UInt8.le_iff_toNat_le, hrate, mcs0_toNat]; omega), hrate,
      mcs0_toNat]
    omega
  unfold mgn_air
  simp only [UInt8.lt_iff_toNat_lt, hrate, mcs0_toNat, vht0_toNat, hsub]
  rw [if_neg (by omega), if_pos (by omega)]

theorem mgn_air_legacy {rate : UInt8} (h : rate ∈ legacy_rates.map (·.2)) (bw : ℕ)
    (sgi ldpc stbc : Bool) :
    mgn_air rate bw sgi ldpc stbc = ⟨.Legacy, rate.toNat, 1, bw, sgi, ldpc, stbc⟩ := by
  have hlow : ∀ p ∈ legacy_rates, p.2 < MGN_MCS0 := by decide
  obtain ⟨p, hp, rfl⟩ := List.mem_map.mp h
  exact if_pos (hlow p hp)

theorem toUInt8_ne_zero (b : Bool) : decide (b.toUInt8 ≠ 0) = b := by
  cases b <;> rfl

theorem nibble_small {x : UInt8} (h : x ≤ 15) : x &&& 0x0f = x := by
  apply UInt8.toNat.inj
  rw [UInt8.le_iff_toNat_le] at h
  rw [UInt8.toNat_and]
  exact (Nat.and_two_pow_sub_one_eq_mod x.toNat 4).trans (Nat.mod_eq_of_lt (Nat.lt_succ_of_le h))

/-- The header keeps the numbers of a VHT rate. -/
theorem header_vht_rate {nss mcs : UInt8} (h1 : 1 ≤ nss) (h4 : nss ≤ 4) (h9 : mcs ≤ 9) :
    nss &&& 0x0f > 0 ∧
      MGN_VHT1SS_MCS0 + (((if nss &&& 0x0f > 4 then 4 else nss &&& 0x0f) - 1) * 10 +
        if mcs &&& 0x0f > 9 then 9 else mcs &&& 0x0f) = vht_rate nss mcs := by
  have hnss : nss &&& 0x0f = nss := nibble_small (UInt8.le_trans h4 (by decide))
  have hmcs : mcs &&& 0x0f = mcs := nibble_small (UInt8.le_trans h9 (by decide))
  rw [hnss, hmcs]
  refine ⟨UInt8.lt_of_lt_of_le (by decide) h1, ?_⟩
  unfold vht_rate
  rw [if_neg (UInt8.not_lt.mpr h1), UInt8.add_assoc]

/-- The header of a mode asks for the rate of the mode. -/
theorem header_ask_air (flagged : Bool) {m : TxMode} (hm : m.Legal) (hhe : m.mode ≠ .HE) :
    (header_ask flagged m).rate_from_radiotap = true ∧
      (header_ask flagged m).air = m.header_air := by
  unfold header_ask TxMode.header_air TxAsk.air
  cases hmode : m.mode with
  | Legacy => exact ⟨rfl, mgn_air_legacy hm.legacy _ _ _ _⟩
  | HT =>
    refine ⟨rfl, ?_⟩
    dsimp only
    rw [if_pos hm.ht, mgn_air_ht hm.ht, toUInt8_ne_zero, toUInt8_ne_zero, toUInt8_ne_zero]
    congr 1
    split <;> rfl
  | VHT =>
    obtain ⟨h1, h4, h9⟩ := hm.vht
    obtain ⟨hpos, hrate⟩ := header_vht_rate h1 h4 h9
    dsimp only
    rw [if_pos hpos, hrate, mgn_air_vht h1 h4 h9, toUInt8_ne_zero, toUInt8_ne_zero, toUInt8_ne_zero]
    refine ⟨decide_eq_true hpos, ?_⟩
    congr 1
    split_ifs <;> rfl
  | HE => exact absurd hmode hhe

/-! ## What the MT7612U reads of it -/

/-- A header with one present word, which is not chained, is read by the bits of that word. -/
theorem mt_parse_header {len : UInt16} {present : UInt32} {fields : Bytes} (frame : Bytes)
    (hlen : 8 + fields.length = len.toNat) (hext : present.toBitVec.getLsbD 31 = false) :
    mt_radiotap_parse (some (radiotap_header len present fields ++ frame)) =
      mt7612u.rt_fields (radiotap_header len present fields ++ frame) len.toNat present.toBitVec
        (mt7612u.rt_bits [present.toBitVec]) 8 { phy := .OFDM, nss := 1 } := by
  have hlength := header_length len present fields frame
  have hversion : byteAt (radiotap_header len present fields ++ frame) 0 = 0 := rfl
  have hword : (rd16 (radiotap_header len present fields ++ frame) 2).toNat = len.toNat := by
    rw [header_len]
    rfl
  have hpresent : mt7612u.rt_present (radiotap_header len present fields ++ frame) len.toNat 8 4 =
      some ([present.toBitVec], 8) := by
    unfold mt7612u.rt_present
    rw [if_neg (by omega), header_present]
    dsimp only
    rw [hext]
    rfl
  have hlong : ¬ ((radiotap_header len present fields ++ frame).length < 8 ∨
      byteAt (radiotap_header len present fields ++ frame) 0 ≠ 0) := by
    rintro (hshort | hne)
    · omega
    · exact hne hversion
  unfold mt_radiotap_parse
  dsimp only
  rw [if_neg hlong, hword, if_neg (by omega), hpresent]
  rfl

theorem mt_flags_read {b : Bytes} {o : ℕ} (m : TxMode) (no_ack : Bool)
    (h : ∀ i, i < 2 → byteAt b (o + i) = byteAt (emit_u16_le (stream_tx_flags m no_ack)) i)
    (word : BitVec 32) (r : mt7612u.TxRate) :
    mt7612u.rt_take b word 15 o r = { r with no_ack := no_ack || r.no_ack } := by
  have hflag : (stream_tx_flags m no_ack).toBitVec &&& mt7612u.RT_TX_FLAGS_NOACK ≠ 0 ↔
      no_ack = true := by
    unfold stream_tx_flags
    cases m.no_agg <;> cases no_ack <;> decide
  unfold mt7612u.rt_take
  rw [if_neg (by decide), if_pos (by decide), rd16_emit _ h]
  cases no_ack with
  | false => exact if_neg fun hne => by cases hflag.mp hne
  | true => exact if_pos (hflag.mpr rfl)

theorem mt_legacy_rate {rate : UInt8} (h : rate ∈ legacy_rates.map (·.2)) (no_ack : Bool) :
    let r : mt7612u.TxRate := { phy := (mt7612u.legacy_rate_index rate).1
                                mcs := (mt7612u.legacy_rate_index rate).2, nss := 1, no_ack }
    r.air = ⟨.Legacy, rate.toNat, 1, 20, false, false, false⟩ := by
  obtain ⟨p, hp, rfl⟩ := List.mem_map.mp h
  revert p no_ack
  decide

theorem mt_parse_legacy (m : TxMode) (f : UInt16) (frame : Bytes) :
    let b := build_legacy m f ++ frame
    mt_radiotap_parse (some b) = (13, mt7612u.rt_take b 0x8004#32 15 10
      { phy := (mt7612u.legacy_rate_index m.legacy_rate_500kbps).1
        mcs := (mt7612u.legacy_rate_index m.legacy_rate_500kbps).2, nss := 1 }) :=
  (mt_parse_header frame rfl (by decide)).trans rfl

theorem mt_parse_ht (m : TxMode) (f : UInt16) (frame : Bytes) :
    let b := build_ht m f ++ frame
    mt_radiotap_parse (some b) = (13, mt7612u.rt_take b 0x88000#32 19 10
      (mt7612u.rt_take b 0x88000#32 15 8 { phy := .OFDM, nss := 1 })) :=
  (mt_parse_header frame rfl (by decide)).trans rfl

theorem mt_parse_vht (m : TxMode) (f : UInt16) (frame : Bytes) :
    let b := build_vht m f ++ frame
    mt_radiotap_parse (some b) = (22, mt7612u.rt_take b 0x208000#32 21 10
      (mt7612u.rt_take b 0x208000#32 15 8 { phy := .OFDM, nss := 1 })) :=
  (mt_parse_header frame rfl (by decide)).trans rfl

/-- The flags of an HT header, one by one. -/
theorem ht_flag_bits : ∀ wide sgi ldpc stbc : Bool,
    let flags : UInt8 := (if wide then 0x01 else 0) ||| (if sgi then 0x04 else 0) |||
      (if ldpc then 0x10 else 0) ||| (if stbc then 0x20 else 0)
    (flags &&& 0x03 = 1 ↔ wide = true) ∧ decide (flags >>> 2 &&& 1 ≠ 0) = sgi ∧
      decide (flags >>> 4 &&& 1 ≠ 0) = ldpc ∧ decide (flags >>> 5 &&& 3 ≠ 0) = stbc := by decide

theorem mt_take_ht {m : TxMode} (hmcs : m.ht_mcs ≤ 31) (f : UInt16) (frame : Bytes)
    (word : BitVec 32) (no_ack : Bool) :
    mt7612u.rt_take (build_ht m f ++ frame) word 19 10 { phy := .OFDM, nss := 1, no_ack } =
      { phy := .HT
        mcs := m.ht_mcs
        nss := (m.ht_mcs >>> 3) + 1
        bw := if m.bw_mhz ≥ 40 then .BW_40 else .BW_20
        sgi := m.sgi, ldpc := m.ldpc, stbc := m.stbc, no_ack } := by
  have hknown := ht_known_octet m f frame
  have hflags := ht_flags_octet m f frame
  have hbyte : byteAt (build_ht m f ++ frame) 12 = m.ht_mcs := if_pos hmcs
  unfold mt7612u.rt_take
  rw [if_neg (by decide), if_neg (by decide), if_pos (by decide)]
  have hbits := ht_flag_bits (m.bw_mhz ≥ 40) m.sgi m.ldpc m.stbc
  simp only [decide_eq_true_eq] at hbits
  obtain ⟨hwide, hsgi, hldpc, hstbc⟩ := hbits
  have hone : (0x37 : UInt8) &&& 0x01 ≠ 0 := by decide
  have hfour : (0x37 : UInt8) &&& 0x04 ≠ 0 := by decide
  have hcoding : (0x37 : UInt8) &&& 0x10 ≠ 0 := by decide
  have hblock : (0x37 : UInt8) &&& 0x20 ≠ 0 := by decide
  simp only [hknown, hflags, hbyte, hwide, hsgi, hldpc, hstbc]
  simp [hone, hfour, hcoding, hblock]

theorem mt_take_vht (m : TxMode) (f : UInt16) (frame : Bytes) (word : BitVec 32) (no_ack : Bool) :
    mt7612u.rt_take (build_vht m f ++ frame) word 21 10 { phy := .OFDM, nss := 1, no_ack } =
      { phy := .VHT
        mcs := m.vht_mcs &&& 0x0f
        nss := if m.vht_nss &&& 0x0f = 0 then 1 else m.vht_nss &&& 0x0f
        bw := if m.bw_mhz = 40 then .BW_40 else if m.bw_mhz = 80 then .BW_80 else .BW_20
        sgi := m.sgi, ldpc := m.ldpc, stbc := m.stbc, no_ack } := by
  have hknown : rd16 (build_vht m f ++ frame) 10 = 0x45 :=
    rd16_emit 0x45 (by intro i hi; match i with | 0 | 1 => rfl)
  have hflags := vht_flags_octet m f frame
  have hbw := vht_bw_octet m f frame
  have hrates := vht_rate_octet m f frame
  have hcoding := vht_coding_octet m f frame
  unfold mt7612u.rt_take
  rw [if_neg (by decide), if_neg (by decide), if_neg (by decide), if_pos (by decide)]
  simp only [hknown, hflags, hbw, hrates, hcoding, low_nibble, shifted_nibble,
    mt7612u.TxRate.mk.injEq]
  refine ⟨trivial, trivial, trivial, ?_, ?_, ?_, ?_, trivial, trivial⟩
  · split_ifs <;> rfl
  · cases m.sgi <;> cases m.stbc <;> decide
  · cases m.ldpc <;> decide
  · cases m.sgi <;> cases m.stbc <;> decide

/-- The MT7612U reads the header of a mode. -/
theorem mt_parse_built {m : TxMode} (hm : m.Legal) (hhe : m.mode ≠ .HE) (no_ack : Bool)
    (frame : Bytes) :
    let x := mt_radiotap_parse (some (build_stream_radiotap m no_ack ++ frame))
    x.1 = (build_stream_radiotap m no_ack).length ∧ x.2.air = m.header_air ∧
      x.2.no_ack = no_ack := by
  unfold build_stream_radiotap TxMode.header_air
  cases hmode : m.mode with
  | Legacy =>
    dsimp only
    rw [mt_parse_legacy, mt_flags_read m no_ack (by intro i hi; match i with | 0 | 1 => rfl),
      Bool.or_false]
    exact ⟨rfl, mt_legacy_rate hm.legacy no_ack, rfl⟩
  | HT =>
    have hmcs := hm.ht
    dsimp only
    rw [mt_parse_ht, mt_flags_read m no_ack (by intro i hi; match i with | 0 | 1 => rfl),
      Bool.or_false, mt_take_ht hmcs]
    refine ⟨rfl, ?_, rfl⟩
    unfold mt7612u.TxRate.air
    have hnss : ((m.ht_mcs >>> 3) + 1).toNat = m.ht_mcs.toNat / 8 + 1 := by
      simp only [UInt8.le_iff_toNat_le, UInt8.reduceToNat] at hmcs
      rw [UInt8.toNat_add, UInt8.toNat_shiftRight, Nat.shiftRight_eq_div_pow]
      change (m.ht_mcs.toNat / 8 + 1) % 256 = _
      omega
    dsimp only
    rw [hnss]
    congr 1
    split <;> rfl
  | VHT =>
    obtain ⟨h1, h4, h9⟩ := hm.vht
    have hnss : m.vht_nss &&& 0x0f = m.vht_nss := nibble_small (UInt8.le_trans h4 (by decide))
    have hmcs : m.vht_mcs &&& 0x0f = m.vht_mcs := nibble_small (UInt8.le_trans h9 (by decide))
    have hne : m.vht_nss ≠ 0 := by
      intro hzero
      rw [hzero] at h1
      exact absurd h1 (by decide)
    dsimp only
    rw [mt_parse_vht, mt_flags_read m no_ack (by intro i hi; match i with | 0 | 1 => rfl),
      Bool.or_false, mt_take_vht, hnss, hmcs, if_neg hne]
    refine ⟨rfl, ?_, rfl⟩
    unfold mt7612u.TxRate.air
    dsimp only
    congr 1
    split_ifs <;> rfl
  | HE => exact absurd hmode hhe

/-! ## What the RTL8733B reads of it -/

/-- What the RTL8733B takes from the header of a mode. -/
theorem rtl8733b_fields {m : TxMode} (hm : m.Legal) {no_ack : Bool} {frame : Bytes}
    {s0 s : rtl8733b.Ask} (h : (built_args m.mode).foldlM
      (rtl8733b.take_field (build_stream_radiotap m no_ack ++ frame)) s0 = some s) :
    s.air = m.header_air := by
  unfold build_stream_radiotap at h
  unfold TxMode.header_air
  cases hmode : m.mode with
  | Legacy =>
    rw [hmode] at h
    have hrate := legacy_rate_octet m (stream_tx_flags m no_ack) frame
    obtain rfl := Option.some.inj h
    exact mgn_air_legacy hm.legacy _ _ _ _
  | HT =>
    rw [hmode] at h
    have hmcs := hm.ht
    have htake : (rtl8733b.take_field (build_ht m (stream_tx_flags m no_ack) ++ frame) s0
        ⟨19, 10, 3⟩).bind some = some s := h
    rw [Option.bind_fun_some] at htake
    unfold rtl8733b.take_field at htake
    rw [if_neg (by decide), if_neg (by decide), if_pos (by decide), decode_built_mcs,
      if_pos hmcs] at htake
    simp only [toUInt8_ne_zero] at htake
    by_cases hsupported : rtl8733b.ht_request_supported_8733b m.ht_mcs
        (if m.bw_mhz ≥ 40 then 40 else 20) m.sgi m.ldpc m.stbc
    · simp only [decide_eq_true_eq, hsupported] at htake
      obtain rfl := Option.some.inj htake
      unfold rtl8733b.ht_request_supported_8733b at hsupported
      simp only [Bool.and_eq_true, Bool.not_eq_true'] at hsupported
      obtain ⟨⟨⟨-, hsgi⟩, hldpc⟩, hstbc⟩ := hsupported
      unfold rtl8733b.Ask.air
      dsimp only
      rw [mgn_air_ht hmcs, hsgi, hldpc, hstbc]
      congr 1
      split <;> rfl
    · simp [hsupported] at htake
  | VHT => rw [hmode] at h; cases h
  | HE => rw [hmode] at h; cases h

/-- What the RTL8733B sends behind the header of a mode has the rate of the mode. -/
theorem rtl8733b_built {m : TxMode} (hm : m.Legal) (no_ack : Bool) (frame : Bytes)
    {channel : ℤ} {width : ChannelWidth_t} {d : Option TxMode} {s : rtl8733b.Ask}
    (h : rtl8733b.tx_ask channel width d (build_stream_radiotap m no_ack ++ frame) = some s) :
    s.air = m.header_air := by
  unfold rtl8733b.tx_ask at h
  dsimp only at h
  split at h
  · cases h
  · next hlong =>
    have hframe : frame ≠ [] := by
      rintro rfl
      exact hlong (Or.inl (built_alone m no_ack))
    rw [built_hdr_len m no_ack hframe, handed_out_built] at h
    simp only [Option.bind_eq_bind, Option.bind_some] at h
    obtain ⟨s0, -, h⟩ := Option.bind_eq_some_iff.mp h
    obtain ⟨s1, hs1, h⟩ := Option.bind_eq_some_iff.mp h
    split at h
    · obtain rfl := Option.some.inj h
      exact rtl8733b_fields hm hs1
    · cases h

/-! ## One header, one rate -/

/-- There is no CCK at 5 GHz. -/
def AirRate.at_channel (channel : ℤ) (r : AirRate) : AirRate :=
  if channel > 14 ∧ r.family = .Legacy ∧ r.rate ∈ mt7612u.cck_rates
    then { r with rate := 12 } else r

theorem clamp_cck_air (channel : ℤ) (s : TxAsk) :
    (clamp_cck channel s).air = s.air.at_channel channel := by
  have hcck : ∀ rate : UInt8, (rate = MGN_1M ∨ rate = MGN_2M ∨ rate = MGN_5_5M ∨ rate = MGN_11M) ↔
      rate < MGN_MCS0 ∧ rate.toNat ∈ mt7612u.cck_rates := by
    intro rate
    constructor
    · rintro (rfl | rfl | rfl | rfl) <;> simp [mt7612u.cck_rates, MGN_1M, MGN_2M, MGN_5_5M,
        MGN_11M, MGN_MCS0]
    · rintro ⟨-, hmem⟩
      simp only [mt7612u.cck_rates, List.mem_cons, List.not_mem_nil, or_false] at hmem
      rcases hmem with h | h | h | h
      · exact Or.inl (UInt8.toNat.inj h)
      · exact Or.inr (Or.inl (UInt8.toNat.inj h))
      · exact Or.inr (Or.inr (Or.inl (UInt8.toNat.inj h)))
      · exact Or.inr (Or.inr (Or.inr (UInt8.toNat.inj h)))
  by_cases hclamp : channel > 14 ∧ s.fixed_rate < MGN_MCS0 ∧ s.fixed_rate.toNat ∈ mt7612u.cck_rates
  · obtain ⟨hchannel, hlow, hmem⟩ := hclamp
    have hair : s.air = ⟨.Legacy, s.fixed_rate.toNat, 1, width_mhz s.bwidth, s.sgi ≠ 0, s.ldpc ≠ 0,
        s.stbc ≠ 0⟩ := if_pos hlow
    unfold clamp_cck AirRate.at_channel
    rw [if_pos ⟨hchannel, (hcck _).mpr ⟨hlow, hmem⟩⟩, hair, if_pos ⟨hchannel, rfl, hmem⟩]
    rfl
  · have hsame : clamp_cck channel s = s :=
      if_neg fun h => hclamp ⟨h.1, (hcck _).mp h.2⟩
    rw [hsame]
    refine (if_neg ?_).symm
    rintro ⟨hchannel, hfamily, hmem⟩
    unfold TxAsk.air mgn_air at hfamily hmem
    split at hfamily
    · next hlow =>
      rw [if_pos hlow] at hmem
      exact hclamp ⟨hchannel, hlow, hmem⟩
    · split at hfamily <;> cases hfamily

/-- A chip with one chain has no STBC. -/
def AirRate.with_stbc (stbc_ok : Bool) (r : AirRate) : AirRate :=
  { r with stbc := r.stbc && stbc_ok }

theorem drop_stbc_air (stbc_ok : Bool) (s : TxAsk) :
    (drop_stbc stbc_ok s).air = s.air.with_stbc stbc_ok := by
  have hcleared : ∀ (rate : UInt8) (bw : ℕ) (sgi ldpc stbc : Bool),
      mgn_air rate bw sgi ldpc false = { mgn_air rate bw sgi ldpc stbc with stbc := false } := by
    intro rate bw sgi ldpc stbc
    unfold mgn_air
    split
    · rfl
    · split <;> rfl
  unfold AirRate.with_stbc drop_stbc
  cases stbc_ok with
  | true =>
    rw [if_neg (by simp), Bool.and_true]
  | false =>
    rw [Bool.and_false]
    by_cases hset : s.stbc ≠ 0
    · rw [if_pos ⟨hset, rfl⟩]
      exact hcleared ..
    · rw [if_neg fun h => hset h.1]
      unfold TxAsk.air
      rw [decide_eq_false hset]
      exact hcleared ..

theorem with_stbc_at_channel (stbc_ok : Bool) (channel : ℤ) (r : AirRate) :
    (r.at_channel channel).with_stbc stbc_ok = (r.with_stbc stbc_ok).at_channel channel := by
  unfold AirRate.at_channel AirRate.with_stbc
  dsimp only
  split <;> rfl

/-- A header with a rate leaves nothing to the default. -/
theorem built_ask (narrows flagged : Bool) {m : TxMode} (hm : m.Legal) (hhe : m.mode ≠ .HE)
    (no_ack : Bool) {frame : Bytes} (hframe : frame ≠ []) (d : Option TxMode) :
    with_default flagged d (read_ask narrows flagged (build_stream_radiotap m no_ack ++ frame)) =
      header_ask flagged m := by
  rw [read_ask_built narrows flagged m no_ack hframe]
  unfold with_default
  cases d with
  | none => rfl
  | some d => exact if_pos (header_ask_air flagged hm hhe).1

theorem built_air (narrows flagged : Bool) {m : TxMode} (hm : m.Legal) (hhe : m.mode ≠ .HE)
    (no_ack : Bool) {frame : Bytes} (hframe : frame ≠ []) (d : Option TxMode) :
    (with_default flagged d
      (read_ask narrows flagged (build_stream_radiotap m no_ack ++ frame))).air = m.header_air := by
  rw [built_ask narrows flagged hm hhe no_ack hframe]
  exact (header_ask_air flagged hm hhe).2

/-- Every radio reads the header of a mode as the rate of the mode, whatever default is set: the
Jaguars, the first of them without CCK at 5 GHz and the first two without STBC on a chip of one
chain, the MT7612U, and the RTL8733B where it sends. -/
theorem one_header_one_rate {m : TxMode} (hm : m.Legal) (hhe : m.mode ≠ .HE) (no_ack : Bool)
    {frame : Bytes} (hframe : frame ≠ []) :
    let p := build_stream_radiotap m no_ack ++ frame
    (∀ channel stbc_ok d, (jaguar1.tx_ask channel stbc_ok d p).air =
        (m.header_air.at_channel channel).with_stbc stbc_ok) ∧
      (∀ stbc_ok d, (jaguar2.tx_ask stbc_ok d p).air = m.header_air.with_stbc stbc_ok) ∧
      (∀ d, (jaguar3.tx_ask d p).air = m.header_air ∧ (jaguar3.tx_ask d p).no_agg = m.no_agg) ∧
      ((mt_radiotap_parse (some p)).1 = (build_stream_radiotap m no_ack).length ∧
        (mt_radiotap_parse (some p)).2.air = m.header_air ∧
        (mt_radiotap_parse (some p)).2.no_ack = no_ack) ∧
      ∀ channel width d s, rtl8733b.tx_ask channel width d p = some s → s.air = m.header_air := by
  refine ⟨?_, ?_, ?_, mt_parse_built hm hhe no_ack frame, ?_⟩
  · intro channel stbc_ok d
    unfold jaguar1.tx_ask
    rw [drop_stbc_air, clamp_cck_air, built_air true false hm hhe no_ack hframe d]
  · intro stbc_ok d
    unfold jaguar2.tx_ask
    rw [drop_stbc_air, built_air false false hm hhe no_ack hframe d]
  · intro d
    refine ⟨built_air false true hm hhe no_ack hframe d, ?_⟩
    unfold jaguar3.tx_ask
    rw [built_ask false true hm hhe no_ack hframe d]
    unfold header_ask
    cases m.mode <;> rfl
  · intro channel width d s h
    exact rtl8733b_built hm no_ack frame h

theorem vht_one_rate :
    let p :=
      build_stream_radiotap (parse_tx_mode_str "VHT2SS_MCS7/80/LDPC".toList) false ++ [0x88, 0]
    (jaguar3.tx_ask none p).air = ⟨.VHT, 7, 2, 80, false, true, false⟩ ∧
      (mt_radiotap_parse (some p)).2.air = ⟨.VHT, 7, 2, 80, false, true, false⟩ := by
  have hframe : ([0x88, 0] : Bytes) ≠ [] := by simp
  have hall :=
    one_header_one_rate (parse_tx_mode_legal "VHT2SS_MCS7/80/LDPC".toList) (by decide) false
    hframe
  obtain ⟨-, -, hthird, hmt, -⟩ := hall
  exact ⟨(hthird none).1.trans (by decide), hmt.2.1.trans (by decide)⟩

/-! ## The header and the mode that is set -/

/-- What the header of a mode can carry, on a chip that airs STBC or has to drop it. -/
def TxMode.Carried (stbc_ok : Bool) (m : TxMode) : Prop :=
  match m.mode with
  | .Legacy => m.bw_mhz = 20 ∧ m.sgi = false ∧ m.ldpc = false ∧ (m.stbc = false ∨ stbc_ok = false)
  | .HT => m.bw_mhz ≤ 40
  | .VHT => m.bw_mhz ≠ 160
  | .HE => False

theorem params_air {m : TxMode} (hm : m.Legal) (hhe : m.mode ≠ .HE) :
    (tx_mode_to_params m).air = { m.header_air with
      bw := if m.bw_mhz = 40 then 40 else if m.bw_mhz = 80 ∨ m.bw_mhz = 160 then 80 else 20
      sgi := m.sgi, ldpc := m.ldpc, stbc := m.stbc } := by
  have hwidth : width_mhz (tx_mode_to_params m).bwidth =
      if m.bw_mhz = 40 then 40 else if m.bw_mhz = 80 ∨ m.bw_mhz = 160 then 80 else 20 := by
    unfold tx_mode_to_params
    rcases hm.bw with h | h | h | h <;> rw [h] <;> rfl
  unfold TxParams.air
  rw [hwidth]
  unfold tx_mode_to_params TxMode.header_air
  simp only [toUInt8_ne_zero]
  cases hmode : m.mode with
  | Legacy => exact mgn_air_legacy hm.legacy _ _ _ _
  | HT =>
    dsimp only
    rw [if_pos hm.ht, mgn_air_ht hm.ht]
  | VHT =>
    obtain ⟨h1, h4, h9⟩ := hm.vht
    exact mgn_air_vht h1 h4 h9 _ _ _ _
  | HE => exact absurd hmode hhe

theorem carried_iff {m : TxMode} (hm : m.Legal) (hhe : m.mode ≠ .HE) (stbc_ok : Bool) :
    (tx_mode_to_params m).air.with_stbc stbc_ok = m.header_air.with_stbc stbc_ok ↔
      m.Carried stbc_ok := by
  rw [params_air hm hhe]
  unfold TxMode.Carried TxMode.header_air AirRate.with_stbc
  cases hmode : m.mode with
  | Legacy =>
    cases stbc_ok <;> rcases hm.bw with h | h | h | h <;> simp [h]
  | HT =>
    rcases hm.bw with h | h | h | h <;> simp [h]
  | VHT =>
    rcases hm.bw with h | h | h | h <;> simp [h]
  | HE => exact absurd hmode hhe

theorem default_air {m : TxMode} {flagged : Bool} {s : TxAsk} (h : s.rate_from_radiotap = false) :
    (with_default flagged (some m) s).air = (tx_mode_to_params m).air := by
  unfold with_default
  simp only [h]
  rfl

/-- Leaving out the CCK tells two modes of one rate apart as before. -/
theorem at_channel_iff {r q : AirRate} (hfamily : q.family = r.family) (hrate : q.rate = r.rate)
    (channel : ℤ) : q.at_channel channel = r.at_channel channel ↔ q = r := by
  refine ⟨fun h => ?_, congrArg _⟩
  unfold AirRate.at_channel at h
  rw [hfamily, hrate] at h
  cases q
  cases r
  split at h
  · rw [AirRate.mk.injEq] at h ⊢
    exact ⟨hfamily, hrate, h.2.2⟩
  · exact h

theorem rate_from_take (narrows flagged : Bool) (b : Bytes) (s : TxAsk) (a : Arg) :
    (take_field narrows flagged b s a).rate_from_radiotap =
      (a.index == IEEE80211_RADIOTAP_RATE ||
        a.index == IEEE80211_RADIOTAP_MCS && (decode_radiotap_mcs_field b a.off).mcs.isSome ||
        a.index == IEEE80211_RADIOTAP_VHT && decide (byteAt b (a.off + 4) &&& 0x0f > 0) ||
        s.rate_from_radiotap) := by
  unfold take_field
  split
  · next h => rw [h]; rfl
  split
  · next h => rw [h]; rfl
  split
  · next h => rw [h.1]; rfl
  split
  · next h => rw [h]; rfl
  split
  · next hmcs =>
      simp [hmcs, take_mcs, IEEE80211_RADIOTAP_RATE, IEEE80211_RADIOTAP_MCS, IEEE80211_RADIOTAP_VHT]
  split
  · next hvht =>
      simp [hvht, take_vht, IEEE80211_RADIOTAP_RATE, IEEE80211_RADIOTAP_MCS, IEEE80211_RADIOTAP_VHT]
  · next hrate _ _ _ hmcs hvht => simp [hrate, hmcs, hvht]

/-- The generations agree on whether a header has a rate. -/
theorem rate_from_any (narrows flagged : Bool) (packet : Bytes) :
    (read_ask narrows flagged packet).rate_from_radiotap =
      (read_ask false false packet).rate_from_radiotap := by
  unfold read_ask
  generalize (handed_out packet (radiotap_hdr_len packet)).getD [] = args
  have hfold : ∀ s t : TxAsk, s.rate_from_radiotap = t.rate_from_radiotap →
      (args.foldl (take_field narrows flagged packet) s).rate_from_radiotap =
        (args.foldl (take_field false false packet) t).rate_from_radiotap := by
    induction args with
    | nil => exact fun s t h => h
    | cons a args ih =>
      intro s t h
      apply ih
      rw [rate_from_take, rate_from_take, h]
  exact hfold {} {} rfl

/-- A packet whose header has no rate airs by the mode that is set. That is what it airs with behind
the header of the mode, exactly if the header can carry the mode, where a chip of one chain does not
miss the STBC of a legacy mode. -/
theorem header_is_default_iff {m : TxMode} (hm : m.Legal) (hhe : m.mode ≠ .HE) (no_ack : Bool)
    {frame rateless : Bytes} (hframe : frame ≠ [])
    (hrateless : (read_ask false false rateless).rate_from_radiotap = false) (d : Option TxMode) :
    let p := build_stream_radiotap m no_ack ++ frame
    (∀ channel stbc_ok, (jaguar1.tx_ask channel stbc_ok (some m) rateless).air =
        (jaguar1.tx_ask channel stbc_ok d p).air ↔ m.Carried stbc_ok) ∧
      (∀ stbc_ok, (jaguar2.tx_ask stbc_ok (some m) rateless).air =
        (jaguar2.tx_ask stbc_ok d p).air ↔ m.Carried stbc_ok) ∧
      ((jaguar3.tx_ask (some m) rateless).air = (jaguar3.tx_ask d p).air ↔ m.Carried true) := by
  have hbuilt := fun narrows flagged => built_air narrows flagged hm hhe no_ack hframe d
  have hdefault : ∀ narrows flagged, (with_default flagged (some m)
      (read_ask narrows flagged rateless)).air = (tx_mode_to_params m).air :=
    fun narrows flagged => default_air ((rate_from_any narrows flagged rateless).trans hrateless)
  refine ⟨?_, ?_, ?_⟩
  · intro channel stbc_ok
    unfold jaguar1.tx_ask
    rw [drop_stbc_air, drop_stbc_air, clamp_cck_air, clamp_cck_air, hbuilt, hdefault,
      with_stbc_at_channel, with_stbc_at_channel, at_channel_iff, carried_iff hm hhe]
    · rw [params_air hm hhe]
      rfl
    · rw [params_air hm hhe]
      rfl
  · intro stbc_ok
    unfold jaguar2.tx_ask
    rw [drop_stbc_air, drop_stbc_air, hbuilt, hdefault]
    exact carried_iff hm hhe stbc_ok
  · unfold jaguar3.tx_ask
    rw [hbuilt, hdefault, ← carried_iff hm hhe true]
    unfold AirRate.with_stbc
    simp only [Bool.and_true]

/-- Wide HT, behind an empty header and behind its own, and a legacy rate with STBC, which airs
alike on a chip of one chain only. -/
theorem wide_ht_differs :
    let empty : Bytes := [0, 0, 8, 0, 0, 0, 0, 0, 0x88, 0]
    let wide := parse_tx_mode_str "MCS3/80".toList
    let legacy := parse_tx_mode_str "6M/STBC".toList
    (jaguar2.tx_ask true (some wide) empty).air ≠
        (jaguar2.tx_ask true none (build_stream_radiotap wide true ++ [0x88, 0])).air ∧
      (jaguar2.tx_ask true (some legacy) empty).air ≠
        (jaguar2.tx_ask true none (build_stream_radiotap legacy true ++ [0x88, 0])).air ∧
      (jaguar2.tx_ask false (some legacy) empty).air =
        (jaguar2.tx_ask false none (build_stream_radiotap legacy true ++ [0x88, 0])).air := by
  have hwide : parse_tx_mode_str "MCS3/80".toList = { mode := .HT, ht_mcs := 3, bw_mhz := 80 } := by
    decide
  have hlegacy : parse_tx_mode_str "6M/STBC".toList =
      { mode := .Legacy, legacy_rate_500kbps := 12, stbc := true } := by
    decide
  have hframe : ([0x88, 0] : Bytes) ≠ [] := by simp
  have hrateless :
      (read_ask false false [0, 0, 8, 0, 0, 0, 0, 0, 0x88, 0]).rate_from_radiotap = false := by
    decide
  have hiff := header_is_default_iff (parse_tx_mode_legal "MCS3/80".toList) (by decide) true hframe
    hrateless none
  have hiff' := header_is_default_iff (parse_tx_mode_legal "6M/STBC".toList) (by decide) true hframe
    hrateless none
  refine ⟨fun h => ?_, fun h => ?_, ?_⟩
  · have hcarried := (hiff.2.1 true).mp h
    rw [hwide] at hcarried
    simp [TxMode.Carried] at hcarried
  · have hcarried := (hiff'.2.1 true).mp h
    rw [hlegacy] at hcarried
    simp [TxMode.Carried] at hcarried
  · apply (hiff'.2.1 false).mpr
    rw [hlegacy]
    simp [TxMode.Carried]

end devourer
