-- One block of a bulk transfer: TXINFO, TXWI, the frame with its header pad,
-- the padding, and the zero word behind the last block. Then what the TXDMA
-- reads of a transfer.
import Devourer.Mt7612u.Radiotap
import Mathlib.Data.Fintype.Basic
import Mathlib.Data.Fin.Basic

namespace devourer.mt7612u

/-! ## Words of bit fields -/

def BIT (n : ℕ) : BitVec 32 := 1#32 <<< n

def GENMASK (h l : ℕ) : BitVec 32 := BitVec.ofNat 32 (2 ^ (h + 1) - 2 ^ l)

/-- The position of the lowest bit of a mask. -/
def MT_CTZ (m : BitVec 32) : ℕ := ((List.range 32).find? fun i => m.getLsbD i).getD 0

def FIELD_PREP (m v : BitVec 32) : BitVec 32 := (v <<< MT_CTZ m) &&& m

def put_le16 (v : BitVec 16) : Bytes := Wire.putLe 2 v

def put_le32 (v : BitVec 32) : Bytes := Wire.putLe 4 v

def MT_TXD_INFO_LEN : BitVec 32 := GENMASK 15 0
def MT_TXD_INFO_NEXT_VLD : BitVec 32 := BIT 16
def MT_TXD_INFO_80211 : BitVec 32 := BIT 19
def MT_TXD_INFO_WIV : BitVec 32 := BIT 24
def MT_TXD_INFO_QSEL : BitVec 32 := GENMASK 26 25
def MT_TXD_INFO_DPORT : BitVec 32 := GENMASK 29 27
def MT_QSEL_MGMT : BitVec 32 := 0
def MT_QSEL_EDCA : BitVec 32 := 1
def WLAN_PORT : BitVec 32 := 0

def MT_TXWI_LEN : ℕ := 20
def MT_TXWI_FLAGS_TS : BitVec 32 := BIT 3
def MT_TXWI_FLAGS_AMPDU : BitVec 32 := BIT 4
def MT_TXWI_FLAGS_MPDU_DENSITY : BitVec 32 := GENMASK 7 5
def MT_TXWI_FLAGS_TX_RATE_LUT : BitVec 32 := BIT 15
def MT_TXWI_ACK_CTL_REQ : BitVec 32 := BIT 0
def MT_TXWI_ACK_CTL_NSEQ : BitVec 32 := BIT 1
def MT_TXWI_ACK_CTL_BA_WINDOW : BitVec 32 := GENMASK 7 2
def MT_TX_PWR_ADJ : BitVec 32 := GENMASK 3 0

def MT_RATE_INDEX : BitVec 32 := GENMASK 5 0
def MT_RATE_LDPC : BitVec 32 := BIT 6
def MT_RATE_BW : BitVec 32 := GENMASK 8 7
def MT_RATE_SGI : BitVec 32 := BIT 9
def MT_RATE_STBC : BitVec 32 := BIT 10
def MT_RATE_PHY : BitVec 32 := GENMASK 15 13
def MT_RATE_VHT_IDX : BitVec 32 := GENMASK 3 0
def MT_RATE_VHT_NSS : BitVec 32 := GENMASK 5 4

def MT_TXOPT_RATE_LUT : BitVec 32 := 0x01
def MT_TXOPT_AMPDU : BitVec 32 := 0x02
def MT_TXOPT_QSEL_MGMT : BitVec 32 := 0x04
def MT_TXOPT_BEACON : BitVec 32 := 0x08
def MT_TXOPT_TXS : BitVec 32 := 0x10
def MT_TXS_PKTID : BitVec 32 := 1
def MT_TXOPT_PKTID_GET (o : BitVec 32) : BitVec 32 := o >>> 8 &&& 0x7f

/-! ## The device, as far as a block is built from it -/

structure RatePower where
  cck : Fin 4 → ℤ
  ofdm : Fin 8 → ℤ
  ht : Fin 16 → ℤ
  vht : Fin 2 → ℤ

structure Dev where
  chan : UInt8
  bw : Bw
  chainmask : BitVec 16
  txpower_conf : ℤ
  target_power : ℤ
  target_power_delta : Fin 2 → ℤ
  enable_tpc : Bool
  rate_power : RatePower

def mt_tx_rate_word (r : TxRate) : BitVec 16 :=
  let mcs := r.mcs.toBitVec.setWidth 32
  let idx := if r.phy = .VHT then
      FIELD_PREP MT_RATE_VHT_IDX mcs |||
      FIELD_PREP MT_RATE_VHT_NSS (if r.nss = 0 then 0 else r.nss.toBitVec.setWidth 32 - 1)
    else mcs
  let word := FIELD_PREP MT_RATE_INDEX idx |||
    FIELD_PREP MT_RATE_PHY (BitVec.ofNat 32 r.phy.toNat) |||
    FIELD_PREP MT_RATE_BW (BitVec.ofNat 32 r.bw.toNat)
  let word := if r.sgi then word ||| MT_RATE_SGI else word
  let word := if r.ldpc then word ||| MT_RATE_LDPC else word
  let word := if r.stbc ∧ r.nss ≤ 1 then word ||| MT_RATE_STBC else word
  word.setWidth 16

def mt_hdrlen_from_fc (f : Bytes) : ℕ :=
  let fc := rd16 f 0
  let type := fc >>> 2 &&& 3
  if type = 2 then
    let len := if fc &&& 0x0300 = 0x0300 then 30 else 24
    if fc &&& 0x0080 ≠ 0 then
      if fc &&& 0x8000 ≠ 0 then len + 6 else len + 2
    else len
  else if type = 0 then
    if fc &&& 0x8000 ≠ 0 then 28 else 24
  else if type = 1 then
    if fc &&& 0x00e0 = 0x00c0 then 10 else 16
  else 24

/-- The ceiling of the power for this rate. -/
def mt_tx_get_max_txpwr_adj (d : Dev) (r : TxRate) : ℤ :=
  match r.phy with
  | .VHT =>
    if r.mcs = 8 ∨ r.mcs = 9 then d.rate_power.vht 0
    else d.rate_power.ht (Fin.ofNat 16 ((r.nss.toNat - 1) * 8 + r.mcs.toNat))
  | .HT | .HT_GF => d.rate_power.ht (Fin.ofNat 16 r.mcs.toNat)
  | .CCK => d.rate_power.cck (Fin.ofNat 4 r.mcs.toNat)
  | .OFDM => d.rate_power.ofdm (Fin.ofNat 8 r.mcs.toNat)

/-- The 4-bit trim of a packet. -/
def mt_tx_get_txpwr_adj (d : Dev) (txpwr max_adj : ℤ) : ℤ :=
  let v := min txpwr d.txpower_conf - (d.target_power + d.target_power_delta 0)
  let v := min v max_adj
  if !d.enable_tpc then 0
  else if v ≥ 0 then min v 7
  else if v < -16 then 8
  else (v + 32) / 2

/-! ## `mt_tx_build` -/

/-- The rate that the block gets: no wider than the channel, where one is tuned. -/
def narrowed (d : Dev) (rate : TxRate) : TxRate :=
  if d.chan ≠ 0 ∧ rate.bw.toNat > d.bw.toNat then { rate with bw := d.bw } else rate

/-- The TXWI of a frame of `len` bytes. -/
def txwi (d : Dev) (len : ℕ) (rate : TxRate) (wcid : UInt8) (opts : BitVec 32) : Bytes :=
  let fl := if opts &&& MT_TXOPT_RATE_LUT ≠ 0 then MT_TXWI_FLAGS_TX_RATE_LUT else 0
  let fl := if opts &&& MT_TXOPT_AMPDU ≠ 0 then
    fl ||| MT_TXWI_FLAGS_AMPDU ||| FIELD_PREP MT_TXWI_FLAGS_MPDU_DENSITY 4 else fl
  let fl := if opts &&& MT_TXOPT_BEACON ≠ 0 then fl ||| MT_TXWI_FLAGS_TS else fl
  let ack := if rate.no_ack then 0 else MT_TXWI_ACK_CTL_REQ
  let ack := if opts &&& MT_TXOPT_BEACON ≠ 0 then ack ||| MT_TXWI_ACK_CTL_NSEQ else ack
  let ack := if opts &&& MT_TXOPT_AMPDU ≠ 0 then
    ack ||| FIELD_PREP MT_TXWI_ACK_CTL_BA_WINDOW 63 else ack
  let adj := if rate.power_adj = 0 then
    mt_tx_get_txpwr_adj d d.txpower_conf (mt_tx_get_max_txpwr_adj d rate) else rate.power_adj
  let pktid := if opts &&& MT_TXOPT_TXS ≠ 0 then
      if MT_TXOPT_PKTID_GET opts ≠ 0 then MT_TXOPT_PKTID_GET opts else MT_TXS_PKTID
    else 0
  put_le16 (fl.setWidth 16) ++ put_le16 (mt_tx_rate_word (narrowed d rate)) ++
    Wire.putLe 1 ack ++ [wcid] ++
    put_le16 (BitVec.ofNat 16 len) ++ put_le32 0 ++ put_le32 0 ++ [0] ++
    [if d.chainmask &&& 0xf > 1 then 0x13 else 0] ++
    Wire.putLe 1 (FIELD_PREP MT_TX_PWR_ADJ (BitVec.ofInt 32 (adj % 16))) ++ Wire.putLe 1 pktid

/-- The bytes of the frame that are its header. -/
def hdr_len (frame : Bytes) : ℕ := min (mt_hdrlen_from_fc frame) frame.length

/-- The pad behind a header that is not a multiple of 4. -/
def hdr_pad (frame : Bytes) : ℕ := if hdr_len frame % 4 = 0 then 0 else 2

/-- The frame with its header pad. -/
def padded (frame : Bytes) : Bytes :=
  frame.take (hdr_len frame) ++ List.replicate (hdr_pad frame) 0 ++ frame.drop (hdr_len frame)

/-- The TXINFO of a block whose TXWI and frame take `len` bytes, padded to 4. -/
def txinfo (len : ℕ) (opts : BitVec 32) (next_vld : Bool) : BitVec 32 :=
  let info := FIELD_PREP MT_TXD_INFO_LEN (BitVec.ofNat 32 len) |||
    FIELD_PREP MT_TXD_INFO_DPORT WLAN_PORT |||
    FIELD_PREP MT_TXD_INFO_QSEL
      (if opts &&& MT_TXOPT_QSEL_MGMT ≠ 0 then MT_QSEL_MGMT else MT_QSEL_EDCA) |||
    MT_TXD_INFO_80211 ||| MT_TXD_INFO_WIV
  if next_vld then info ||| MT_TXD_INFO_NEXT_VLD else info

/-- The block that goes into a buffer of `bufsz` bytes, or none. -/
def mt_tx_build (d : Dev) (bufsz : ℕ) (frame : Bytes) (rate : TxRate) (wcid : UInt8)
    (opts : BitVec 32) (next_vld trailer : Bool) : Option Bytes :=
  if frame.length < 10 ∨ frame.length + 32 > bufsz then none
  else
    let len := MT_TXWI_LEN + (padded frame).length
    let upto := 4 + len
    let pad := Layout.alignUp 4 upto - upto + if trailer then 4 else 0
    some (put_le32 (txinfo (Layout.alignUp 4 len) opts next_vld) ++
      (txwi d frame.length rate wcid opts ++ padded frame ++ List.replicate pad 0))

/-! ### Its size -/

@[simp] theorem length_put_le16 (v : BitVec 16) : (put_le16 v).length = 2 := Wire.length_putLe 2 v

@[simp] theorem length_put_le32 (v : BitVec 32) : (put_le32 v).length = 4 := Wire.length_putLe 4 v

@[simp] theorem length_txwi (d : Dev) (len : ℕ) (rate : TxRate) (wcid : UInt8)
    (opts : BitVec 32) : (txwi d len rate wcid opts).length = MT_TXWI_LEN := by
  simp [txwi, MT_TXWI_LEN]

theorem length_padded (frame : Bytes) : (padded frame).length = frame.length + hdr_pad frame := by
  have hle : hdr_len frame ≤ frame.length := Nat.min_le_right _ _
  simp only [padded, List.length_append, List.length_take, List.length_replicate,
    List.length_drop]
  omega

theorem hdr_pad_le (frame : Bytes) : hdr_pad frame ≤ 2 := by
  unfold hdr_pad
  split <;> omega

theorem mt_hdrlen_ge (f : Bytes) : 10 ≤ mt_hdrlen_from_fc f := by
  unfold mt_hdrlen_from_fc
  grind

/-- The header length is read from the first two bytes. -/
theorem mt_hdrlen_congr {f g : Bytes} (h : ∀ i, i < 2 → byteAt f i = byteAt g i) :
    mt_hdrlen_from_fc f = mt_hdrlen_from_fc g := by
  have hfc : rd16 f 0 = rd16 g 0 := by
    apply rd16_congr
    intro i hi
    rw [Nat.zero_add]
    exact h i hi
  unfold mt_hdrlen_from_fc
  rw [hfc]

/-- What the TXINFO of a block announces: the TXWI, the frame and the padding to 4. -/
def body (d : Dev) (frame : Bytes) (rate : TxRate) (wcid : UInt8) (opts : BitVec 32) : Bytes :=
  txwi d frame.length rate wcid opts ++ padded frame ++
    List.replicate (Layout.alignUp 4 (MT_TXWI_LEN + (padded frame).length) -
      (MT_TXWI_LEN + (padded frame).length)) 0

theorem length_body (d : Dev) (frame : Bytes) (rate : TxRate) (wcid : UInt8) (opts : BitVec 32) :
    (body d frame rate wcid opts).length =
      Layout.alignUp 4 (MT_TXWI_LEN + (padded frame).length) := by
  have hle := (Layout.alignUp_spec (by decide : 0 < 4) (MT_TXWI_LEN + (padded frame).length)).2.1
  simp only [body, List.length_append, length_txwi, List.length_replicate]
  omega

theorem four_dvd_length_body (d : Dev) (frame : Bytes) (rate : TxRate) (wcid : UInt8)
    (opts : BitVec 32) : 4 ∣ (body d frame rate wcid opts).length := by
  rw [length_body]
  exact (Layout.alignUp_spec (by decide) _).1

theorem length_body_le (d : Dev) (frame : Bytes) (rate : TxRate) (wcid : UInt8)
    (opts : BitVec 32) : (body d frame rate wcid opts).length ≤ frame.length + 25 := by
  have hlt := (Layout.alignUp_spec (by decide : 0 < 4) (MT_TXWI_LEN + (padded frame).length)).2.2
  have hpad := hdr_pad_le frame
  rw [length_padded, MT_TXWI_LEN] at hlt
  rw [length_body, length_padded, MT_TXWI_LEN]
  omega

/-- The block is its TXINFO, what that announces, and the trailer. -/
theorem mt_tx_build_eq (d : Dev) {bufsz : ℕ} {frame : Bytes} (h10 : 10 ≤ frame.length)
    (hfit : frame.length + 32 ≤ bufsz) (rate : TxRate) (wcid : UInt8) (opts : BitVec 32)
    (next_vld trailer : Bool) :
    mt_tx_build d bufsz frame rate wcid opts next_vld trailer = some
      (put_le32 (txinfo (body d frame rate wcid opts).length opts next_vld) ++
        (body d frame rate wcid opts ++ List.replicate (if trailer then 4 else 0) 0)) := by
  have halign : ∀ x, Layout.alignUp 4 (4 + x) - (4 + x) = Layout.alignUp 4 x - x := by
    intro x
    rw [Nat.add_comm 4 x, Layout.alignUp_add (by decide)]
    omega
  rw [mt_tx_build, if_neg (by omega), length_body]
  simp only [halign, body, List.append_assoc, List.replicate_append_replicate]

theorem mt_tx_build_short (d : Dev) {bufsz : ℕ} {frame : Bytes} (h10 : frame.length < 10)
    (rate : TxRate) (wcid : UInt8) (opts : BitVec 32) (next_vld trailer : Bool) :
    mt_tx_build d bufsz frame rate wcid opts next_vld trailer = none := by
  rw [mt_tx_build, if_pos (Or.inl h10)]

/-! ## What the chip reads of a transfer -/

/-- A frame as the MAC has it: its TXWI, and the MPDU without the header pad. -/
structure Aired where
  txwi : Bytes
  mpdu : Bytes
  deriving DecidableEq

/-- What a TXINFO announces: the TXWI says how long the MPDU is. -/
def Aired.of_body (b : Bytes) : Aired :=
  let f := b.drop MT_TXWI_LEN
  let len := (rd16 b 6).toNat
  let hdr := min (mt_hdrlen_from_fc f) len
  let pad := if hdr % 4 = 0 then 0 else 2
  { txwi := b.take MT_TXWI_LEN, mpdu := f.take hdr ++ (f.drop (hdr + pad)).take (len - hdr) }

/-- The chain of blocks, at most so many. It is read only where each block is a multiple of 4 and
inside the transfer, and the last one is followed by a zero word and nothing else. -/
def txdma_chain : ℕ → Bytes → Option (List Aired)
  | 0, _ => none
  | left + 1, t =>
    let info := rd32 t 0
    let len := (info &&& MT_TXD_INFO_LEN).toNat
    let rest := t.drop (4 + len)
    let frame := Aired.of_body ((t.drop 4).take len)
    if len % 4 ≠ 0 ∨ t.length < 4 + len then none
    else if info &&& MT_TXD_INFO_NEXT_VLD ≠ 0#32 then (txdma_chain left rest).map (frame :: ·)
    else if rest = List.replicate 4 0 then some [frame]
    else none

def txdma (t : Bytes) : Option (List Aired) := txdma_chain t.length t

theorem rd32_put (v : BitVec 32) (b : Bytes) : rd32 (put_le32 v ++ b) 0 = v := by
  apply Wire.getLe_of_bytes v (by decide)
  intro i hi
  rw [Nat.zero_add, byteAt_append_left b (by rw [length_put_le32]; exact hi)]
  rfl

/-- The length field of a TXINFO, and the other fields beside it. -/
theorem txinfo_split (len : ℕ) (opts : BitVec 32) (next_vld : Bool) :
    ∃ rest : BitVec 32,
      txinfo len opts next_vld = (BitVec.ofNat 32 len &&& MT_TXD_INFO_LEN) ||| rest ∧
      rest &&& MT_TXD_INFO_LEN = 0#32 ∧
      (rest &&& MT_TXD_INFO_NEXT_VLD ≠ 0#32 ↔ next_vld = true) := by
  have hctz : FIELD_PREP MT_TXD_INFO_LEN (BitVec.ofNat 32 len) =
      BitVec.ofNat 32 len &&& MT_TXD_INFO_LEN := by
    rw [FIELD_PREP, show MT_CTZ MT_TXD_INFO_LEN = 0 by decide, BitVec.shiftLeft_zero]
  unfold txinfo
  rw [hctz]
  cases next_vld <;> by_cases hq : opts &&& MT_TXOPT_QSEL_MGMT = 0
  all_goals
    simp only [hq, ne_eq, not_true_eq_false, not_false_eq_true, if_true, if_false,
      Bool.false_eq_true, BitVec.or_assoc]
    exact ⟨_, rfl, by decide, by decide⟩

/-- The length field has 16 bits. -/
theorem txinfo_len_mod (len : ℕ) (opts : BitVec 32) (next_vld : Bool) :
    (txinfo len opts next_vld &&& MT_TXD_INFO_LEN).toNat = len % 65536 := by
  obtain ⟨rest, hinfo, hrest, -⟩ := txinfo_split len opts next_vld
  have hmask : MT_TXD_INFO_LEN.toNat = 2 ^ 16 - 1 := by decide
  rw [hinfo, BitVec.and_or_distrib_right, hrest, BitVec.and_assoc, BitVec.and_self, BitVec.or_zero,
    BitVec.toNat_and, hmask, Nat.and_two_pow_sub_one_eq_mod, BitVec.toNat_ofNat]
  omega

theorem txinfo_len {len : ℕ} (hlen : len < 65536) (opts : BitVec 32) (next_vld : Bool) :
    (txinfo len opts next_vld &&& MT_TXD_INFO_LEN).toNat = len := by
  rw [txinfo_len_mod, Nat.mod_eq_of_lt hlen]

theorem txinfo_next (len : ℕ) (opts : BitVec 32) (next_vld : Bool) :
    txinfo len opts next_vld &&& MT_TXD_INFO_NEXT_VLD ≠ 0#32 ↔ next_vld = true := by
  obtain ⟨rest, hinfo, -, hnext⟩ := txinfo_split len opts next_vld
  have hapart : MT_TXD_INFO_LEN &&& MT_TXD_INFO_NEXT_VLD = 0#32 := by decide
  rw [hinfo, BitVec.and_or_distrib_right, BitVec.and_assoc, hapart, BitVec.and_zero, BitVec.zero_or]
  exact hnext

/-- The length of the MPDU stands in the TXWI. -/
theorem rd16_txwi (d : Dev) {len : ℕ} (hlen : len < 65536) (rate : TxRate) (wcid : UInt8)
    (opts : BitVec 32) (b : Bytes) : (rd16 (txwi d len rate wcid opts ++ b) 6).toNat = len := by
  have hword : rd16 (txwi d len rate wcid opts ++ b) 6 = BitVec.ofNat 16 len := by
    apply Wire.getLe_of_bytes _ (by decide)
    intro i hi
    unfold txwi
    simp only [List.append_assoc]
    rw [← List.append_assoc, ← List.append_assoc, ← List.append_assoc,
      byteAt_append_right _ (by simp), byteAt_append_left _ (by simp; omega)]
    congr 1
    simp
  rw [hword, BitVec.toNat_ofNat]
  omega

/-- The header pad does not change the frame control. -/
theorem mt_hdrlen_padded {frame : Bytes} (h10 : 10 ≤ frame.length) (b : Bytes) :
    mt_hdrlen_from_fc (padded frame ++ b) = mt_hdrlen_from_fc frame := by
  have hhdr : 10 ≤ hdr_len frame := Nat.le_min.mpr ⟨mt_hdrlen_ge frame, h10⟩
  apply mt_hdrlen_congr
  intro i hi
  have htake : i < (frame.take (hdr_len frame)).length := by
    rw [List.length_take]
    omega
  rw [padded, List.append_assoc, List.append_assoc, byteAt_append_left _ htake]
  exact byteAt_take (by omega)

/-- The MAC gets the TXWI and the frame that the block was built from. -/
theorem of_body_body (d : Dev) {frame : Bytes} (h10 : 10 ≤ frame.length)
    (hlen : frame.length < 65536) (rate : TxRate) (wcid : UInt8) (opts : BitVec 32) :
    Aired.of_body (body d frame rate wcid opts) =
      { txwi := txwi d frame.length rate wcid opts, mpdu := frame } := by
  have hhdr : hdr_len frame ≤ frame.length := Nat.min_le_right _ _
  have hpad : hdr_pad frame = if hdr_len frame % 4 = 0 then 0 else 2 := rfl
  have hlen20 := length_txwi d frame.length rate wcid opts
  unfold Aired.of_body body
  dsimp only
  rw [List.append_assoc, rd16_txwi d hlen, List.take_left' hlen20, List.drop_left' hlen20,
    mt_hdrlen_padded h10]
  rw [show min (mt_hdrlen_from_fc frame) frame.length = hdr_len frame from rfl, ← hpad]
  congr 1
  have htake : (frame.take (hdr_len frame)).length = hdr_len frame := by
    rw [List.length_take]
    omega
  have hdrop : (frame.drop (hdr_len frame)).length = frame.length - hdr_len frame :=
    List.length_drop
  rw [padded]
  simp only [List.append_assoc]
  rw [List.take_left' htake, ← List.drop_drop, List.drop_left' htake,
    List.drop_left' List.length_replicate, List.take_left' hdrop, List.take_append_drop]

section Chain

variable (d : Dev) {frame : Bytes} (rate : TxRate) (wcid : UInt8) (opts : BitVec 32)

/-- A block whose frame has a legal length, at the head of a chain. -/
theorem txdma_chain_block (h10 : 10 ≤ frame.length) (hlen : frame.length < 65000)
    (next_vld : Bool) (left : ℕ) (rest : Bytes) :
    txdma_chain (left + 1) (put_le32 (txinfo (body d frame rate wcid opts).length opts next_vld) ++
      (body d frame rate wcid opts ++ rest)) =
      if next_vld then (txdma_chain left rest).map
        ({ txwi := txwi d frame.length rate wcid opts, mpdu := frame } :: ·)
      else if rest = List.replicate 4 0 then
        some [{ txwi := txwi d frame.length rate wcid opts, mpdu := frame }]
      else none := by
  have hle := length_body_le d frame rate wcid opts
  obtain ⟨q, hq⟩ := four_dvd_length_body d frame rate wcid opts
  have hbody := of_body_body d h10 (by omega) rate wcid opts
  have hnext := txinfo_next (body d frame rate wcid opts).length opts next_vld
  generalize hb : body d frame rate wcid opts = b at *
  have hdrop : (put_le32 (txinfo b.length opts next_vld) ++ (b ++ rest)).drop 4 = b ++ rest :=
    List.drop_left' (length_put_le32 _)
  rw [txdma_chain, rd32_put, txinfo_len (by omega)]
  rw [if_neg (by simp [hq]), ← List.drop_drop, hdrop, List.take_left' rfl, List.drop_left' rfl,
    hbody]
  simp only [hnext]

end Chain

end devourer.mt7612u
