-- One frame made ready for the bus: its descriptor with the checksum over it, the
-- header in front of the frame as it is read, and the block that both end up in.
import Devourer.Jaguar3.TxPktPwrBanks
import Devourer.Lib.BitFields
import Devourer.Lib.Layout
import Devourer.Radio.TxRate

namespace devourer.jaguar3

open BitFields

/-! ## The fields -/

def TXDESC_SIZE_8822C : ℕ := 48

inductive TxField
  | TXPKTSIZE | OFFSET | BMC | LS | DISQSELSEQ
  | MACID | QSEL | RATE_ID | PKT_OFFSET
  | AGG_EN | BK | SPE_RPT | AMPDU_DENSITY | G_ID
  | USE_RATE | DISDATAFB | NAVUSEHDR | MAX_AGG_NUM | NDPA
  | DATARATE | RTY_LMT_EN | RTS_DATA_RTY_LMT
  | DATA_SC | DATA_SHORT | DATA_BW | DATA_LDPC | DATA_STBC | TXPWR_OFSET_TYPE
  | SW_DEFINE | TXDESC_CHECKSUM | DMA_TXAGG_NUM | EN_HWSEQ
  deriving DecidableEq

def TxField.field : TxField → Field
  | .TXPKTSIZE => ⟨0x00, 0, 16⟩
  | .OFFSET => ⟨0x00, 16, 8⟩
  | .BMC => ⟨0x00, 24, 1⟩
  | .LS => ⟨0x00, 26, 1⟩
  | .DISQSELSEQ => ⟨0x00, 31, 1⟩
  | .MACID => ⟨0x04, 0, 7⟩
  | .QSEL => ⟨0x04, 8, 5⟩
  | .RATE_ID => ⟨0x04, 16, 5⟩
  | .PKT_OFFSET => ⟨0x04, 24, 5⟩
  | .AGG_EN => ⟨0x08, 12, 1⟩
  | .BK => ⟨0x08, 16, 1⟩
  | .SPE_RPT => ⟨0x08, 19, 1⟩
  | .AMPDU_DENSITY => ⟨0x08, 20, 3⟩
  | .G_ID => ⟨0x08, 24, 6⟩
  | .USE_RATE => ⟨0x0C, 8, 1⟩
  | .DISDATAFB => ⟨0x0C, 10, 1⟩
  | .NAVUSEHDR => ⟨0x0C, 15, 1⟩
  | .MAX_AGG_NUM => ⟨0x0C, 17, 5⟩
  | .NDPA => ⟨0x0C, 22, 2⟩
  | .DATARATE => ⟨0x10, 0, 7⟩
  | .RTY_LMT_EN => ⟨0x10, 17, 1⟩
  | .RTS_DATA_RTY_LMT => ⟨0x10, 18, 6⟩
  | .DATA_SC => ⟨0x14, 0, 4⟩
  | .DATA_SHORT => ⟨0x14, 4, 1⟩
  | .DATA_BW => ⟨0x14, 5, 2⟩
  | .DATA_LDPC => ⟨0x14, 7, 1⟩
  | .DATA_STBC => ⟨0x14, 8, 2⟩
  | .TXPWR_OFSET_TYPE => ⟨0x14, 28, 2⟩
  | .SW_DEFINE => ⟨0x18, 0, 12⟩
  | .TXDESC_CHECKSUM => ⟨0x1C, 0, 16⟩
  | .DMA_TXAGG_NUM => ⟨0x1C, 24, 8⟩
  | .EN_HWSEQ => ⟨0x20, 15, 1⟩

instance decidable_fits (n : ℕ) (f : Field) : Decidable (f.Fits n) :=
  inferInstanceAs (Decidable (_ ∧ _))

instance decidable_apart (f g : Field) : Decidable (f.Apart g) :=
  inferInstanceAs (Decidable (_ ∨ _ ∨ _))

def TxField.all : List TxField :=
  [.TXPKTSIZE, .OFFSET, .BMC, .LS, .DISQSELSEQ, .MACID, .QSEL, .RATE_ID, .PKT_OFFSET, .AGG_EN, .BK,
    .SPE_RPT, .AMPDU_DENSITY, .G_ID, .USE_RATE, .DISDATAFB, .NAVUSEHDR, .MAX_AGG_NUM,
      .NDPA, .DATARATE,
    .RTY_LMT_EN, .RTS_DATA_RTY_LMT, .DATA_SC, .DATA_SHORT, .DATA_BW, .DATA_LDPC, .DATA_STBC,
    .TXPWR_OFSET_TYPE, .SW_DEFINE, .TXDESC_CHECKSUM, .DMA_TXAGG_NUM, .EN_HWSEQ]

theorem TxField.mem_all (i : TxField) : i ∈ TxField.all := by
  cases i <;> simp [TxField.all]

theorem fields_fit (i : TxField) : i.field.Fits TXDESC_SIZE_8822C := by
  have hall : ∀ i ∈ TxField.all, i.field.Fits TXDESC_SIZE_8822C := by decide
  exact hall i i.mem_all

theorem fields_apart (i j : TxField) : i ≠ j → i.field.Apart j.field := by
  have hall : ∀ i ∈ TxField.all, ∀ j ∈ TxField.all, i ≠ j → i.field.Apart j.field := by decide
  exact hall i i.mem_all j j.mem_all

def txdesc : Record TxField TXDESC_SIZE_8822C where
  field := TxField.field
  fits := fields_fit
  apart := fields_apart

@[simp] theorem field_txdesc (i : TxField) : txdesc.field i = i.field := rfl

/-- A descriptor, with the buffer behind it. -/
abbrev TxDesc := Buffer TXDESC_SIZE_8822C

/-! ## The checksum -/

def le16 (b : Bytes) (word : ℕ) : BitVec 16 := Wire.getLe 16 2 fun i => byteAt b (2 * word + i)

/-- How many pairs of words the checksum is over, the reserve among them. -/
def pairs (pkt_offset : ℕ) : ℕ := (pkt_offset + (TXDESC_SIZE_8822C >>> 3)) <<< 1

def cal_txdesc_chksum_8822c (d : TxDesc) : TxDesc :=
  let d := txdesc.set d .TXDESC_CHECKSUM 0
  let chksum := (List.range (pairs (txdesc.get d.bytes .PKT_OFFSET))).foldl
    (fun chksum i => chksum ^^^ (le16 d.bytes (2 * i) ^^^ le16 d.bytes (2 * i + 1))) 0#16
  txdesc.set d .TXDESC_CHECKSUM chksum.toNat

/-- What the bus checks: all words together are 0. -/
def checks (b : Bytes) : Bool := xor16 b (pairs (txdesc.get b .PKT_OFFSET)) = 0

@[simp] theorem get_set (d : TxDesc) (i j : TxField) (v : ℕ) :
    txdesc.get (txdesc.set d i v).bytes j =
      if i = j then v % 2 ^ i.field.len else txdesc.get d.bytes j :=
  txdesc.get_set d i j v

@[simp] theorem get_ite (c : Prop) [Decidable c] (d e : TxDesc) (i : TxField) :
    txdesc.get (if c then d else e).bytes i =
      if c then txdesc.get d.bytes i else txdesc.get e.bytes i := by
  split <;> rfl

theorem get_sets (d : TxDesc) (ws : List (TxField × ℕ)) (i : TxField) :
    txdesc.get (txdesc.sets d ws).bytes i = (txdesc.written ws i).getD (txdesc.get d.bytes i) :=
  txdesc.get_sets d ws i

theorem written_ite (c : Prop) [Decidable c] (ws vs : List (TxField × ℕ)) (i : TxField) :
    txdesc.written (if c then ws else vs) i =
      if c then txdesc.written ws i else txdesc.written vs i := by
  split <;> rfl

theorem written_optional (o : Option UInt8) (f : TxField) (i : TxField) :
    txdesc.written (o.map fun r => (f, r.toNat)).toList i =
      if f = i then o.map fun r => r.toNat % 2 ^ f.field.len else none := by
  cases o with
  | none => simp [Record.written]
  | some r =>
    by_cases h : f = i
    · subst h
      simp [Record.written]
    · simp [Record.written, h]

theorem le16_pair (b : Bytes) (i : ℕ) :
    le16 b (2 * i) ^^^ le16 b (2 * i + 1) = halves (le32 b (4 * i)) := by
  apply BitVec.eq_of_getLsbD_eq
  intro j hj
  unfold le16 halves le32
  rw [BitVec.getLsbD_xor, BitVec.getLsbD_xor, Wire.getLsbD_getLe, Wire.getLsbD_getLe,
    BitVec.getLsbD_setWidth, BitVec.getLsbD_setWidth, BitVec.getLsbD_ushiftRight,
    Wire.getLsbD_getLe, Wire.getLsbD_getLe]
  have hlow : 2 * (2 * i) + j / 8 = 4 * i + j / 8 := by omega
  have hhigh : 2 * (2 * i + 1) + j / 8 = 4 * i + (16 + j) / 8 := by omega
  have hmod : (16 + j) % 8 = j % 8 := by omega
  rw [hlow, hhigh, hmod]
  simp [hj, show j < 32 by omega, show 16 + j < 32 by omega]

/-- The checksum is the xor over all dwords without it. -/
theorem chksum_eq (b : Bytes) (k : ℕ) : (List.range k).foldl
    (fun chksum i => chksum ^^^ (le16 b (2 * i) ^^^ le16 b (2 * i + 1))) 0#16 = xor16 b k := by
  unfold xor16
  congr 1
  funext s i
  rw [le16_pair]

@[simp] theorem get_cal (d : TxDesc) (i : TxField) (h : TxField.TXDESC_CHECKSUM ≠ i) :
    txdesc.get (cal_txdesc_chksum_8822c d).bytes i = txdesc.get d.bytes i := by
  unfold cal_txdesc_chksum_8822c
  rw [get_set, if_neg h, get_set, if_neg h]

@[simp] theorem length_cal (d : TxDesc) :
    (cal_txdesc_chksum_8822c d).bytes.length = d.bytes.length := by
  unfold cal_txdesc_chksum_8822c
  rw [txdesc.length_set, txdesc.length_set]

@[simp] theorem drop_cal (d : TxDesc) : (cal_txdesc_chksum_8822c d).bytes.drop TXDESC_SIZE_8822C =
    d.bytes.drop TXDESC_SIZE_8822C := by
  unfold cal_txdesc_chksum_8822c
  rw [txdesc.drop_set, txdesc.drop_set]

/-- The low half of a dword of which it is 0 takes in what is written there. -/
theorem halves_into (w : BitVec 32) (x : BitVec 16) (h : (w.extractLsb' 0 16).toNat = 0) :
    halves (TxField.TXDESC_CHECKSUM.field.into w x.toNat) = halves w ^^^ x := by
  have hlow : ∀ j, j < 16 → w.getLsbD j = false := by
    intro j hj
    have hzero : w.extractLsb' 0 16 = 0#16 := BitVec.eq_of_toNat_eq h
    have hbit := congrArg (fun v => v.getLsbD j) hzero
    simpa [hj] using hbit
  apply BitVec.eq_of_getLsbD_eq
  intro j hj
  have hx : x.toNat.testBit j = x.getLsbD j := BitVec.testBit_toNat x
  unfold halves
  rw [BitVec.getLsbD_xor, BitVec.getLsbD_xor, BitVec.getLsbD_xor, BitVec.getLsbD_setWidth,
    BitVec.getLsbD_setWidth, BitVec.getLsbD_setWidth, BitVec.getLsbD_setWidth,
    BitVec.getLsbD_ushiftRight, BitVec.getLsbD_ushiftRight,
    getLsbD_into _ _ _ (by decide) (by omega), getLsbD_into _ _ _ (by decide) (by omega)]
  simp [TxField.field, hj, hlow j hj, hx, show ¬ 16 + j < 16 by omega]
  exact Bool.xor_comm _ _

/-- The dword of the checksum takes it in, and no other dword changes. -/
theorem set_chksum (d : TxDesc) (h : txdesc.get d.bytes .TXDESC_CHECKSUM = 0)
    (x : BitVec 16) {k : ℕ} (hk : 7 < k) :
    xor16 (txdesc.set d .TXDESC_CHECKSUM x.toNat).bytes k = xor16 d.bytes k ^^^ x := by
  have hfits := fields_fit .TXDESC_CHECKSUM
  apply xor16_change hk
  · intro i _ hne
    apply Field.le32_set_apart hfits d.long
    have hoff : TxField.TXDESC_CHECKSUM.field.off = 28 := rfl
    omega
  · exact (congrArg halves (Field.le32_set hfits d.long _)).trans (halves_into _ x h)

theorem seven_lt_pairs (pkt_offset : ℕ) : 7 < pairs pkt_offset := by
  show 7 < (pkt_offset + 6) <<< 1
  rw [Nat.shiftLeft_eq]
  omega

theorem cal_eq (d : TxDesc) : cal_txdesc_chksum_8822c d =
    let e := txdesc.set d .TXDESC_CHECKSUM 0
    txdesc.set e .TXDESC_CHECKSUM
      (xor16 e.bytes (pairs (txdesc.get e.bytes .PKT_OFFSET))).toNat := by
  unfold cal_txdesc_chksum_8822c
  dsimp only
  congr 2
  exact chksum_eq _ _

theorem checks_cal (d : TxDesc) : checks (cal_txdesc_chksum_8822c d).bytes = true := by
  have hoffset : txdesc.get (cal_txdesc_chksum_8822c d).bytes .PKT_OFFSET =
      txdesc.get (txdesc.set d .TXDESC_CHECKSUM 0).bytes .PKT_OFFSET := by
    rw [get_cal d _ (by simp), get_set, if_neg (by simp)]
  have hzero : txdesc.get (txdesc.set d .TXDESC_CHECKSUM 0).bytes .TXDESC_CHECKSUM = 0 := by
    simp
  have hsum := set_chksum _ hzero
    (xor16 (txdesc.set d .TXDESC_CHECKSUM 0).bytes
      (pairs (txdesc.get (txdesc.set d .TXDESC_CHECKSUM 0).bytes .PKT_OFFSET)))
    (seven_lt_pairs (txdesc.get (txdesc.set d .TXDESC_CHECKSUM 0).bytes .PKT_OFFSET))
  unfold checks
  rw [hoffset, cal_eq]
  exact decide_eq_true (hsum.trans BitVec.xor_self)

/-! ## The queues -/

def kPerQueueMinEps : ℕ := 3

def per_queue_routing (n_eps : ℕ) : Bool := kPerQueueMinEps ≤ n_eps

/-- The index of the endpoint that reaches a queue. -/
def bulkout_id_for_qsel (qsel : UInt8) (n_eps : ℕ) : UInt8 :=
  if !per_queue_routing n_eps then 0
  else if qsel ≤ 3 then 2
  else if qsel ≤ 7 then 1
  else 0

def dot11_is_data (fc0 : UInt8) : Bool := fc0 >>> 2 &&& 0x3 = 0x2

def tx_qsel (is_data : Bool) (n_eps : ℕ) (ampdu_enabled : Bool) (ampdu_tid : UInt8)
    (debug_qsel : Option UInt8) : UInt8 :=
  let q : UInt8 := if is_data && per_queue_routing n_eps then 0x00 else 0x12
  let q := if is_data && ampdu_enabled then ampdu_tid else q
  debug_qsel.getD q &&& 0x1f

/-! ## What is written -/

/-- The arguments of `fill_data_tx_desc_8822c`. -/
structure DataTx where
  pkt_size : UInt16
  rate_hw : UInt8
  rate_id : UInt8
  bw : UInt8
  short_gi : Bool
  ldpc : Bool
  stbc : UInt8
  bmc : Bool := false
  ndpa : Bool := false
  data_sc : UInt8 := 0
  pwr_ofset_type : UInt8 := 0
  pkt_offset : UInt8 := 0
  dis_data_fb : Bool := false

def fill_data_tx_desc_8822c (d : TxDesc) (a : DataTx) : TxDesc :=
  let d := txdesc.sets d [
    (.TXPKTSIZE, a.pkt_size.toNat), (.OFFSET, TXDESC_SIZE_8822C), (.LS, 1), (.BMC, a.bmc.toNat),
    (.DISQSELSEQ, 1), (.G_ID, 0x3f), (.RTY_LMT_EN, 1), (.RTS_DATA_RTY_LMT, 12), (.MACID, 0x01),
    (.QSEL, 0x12), (.RATE_ID, a.rate_id.toNat), (.USE_RATE, 1), (.DISDATAFB, a.dis_data_fb.toNat),
    (.SW_DEFINE, 1), (.DATARATE, a.rate_hw.toNat), (.DATA_BW, a.bw.toNat),
      (.DATA_SC, a.data_sc.toNat),
    (.DATA_SHORT, a.short_gi.toNat), (.DATA_LDPC, a.ldpc.toNat),
      (.DATA_STBC, (a.stbc &&& 0x3).toNat)]
  let d := txdesc.sets d
    (if a.pwr_ofset_type ≠ 0 then [(.TXPWR_OFSET_TYPE, (a.pwr_ofset_type &&& 0x3).toNat)] else [])
  let d := txdesc.set d .EN_HWSEQ 1
  let d := txdesc.sets d
    (if a.pkt_offset ≠ 0 then [(.PKT_OFFSET, (a.pkt_offset &&& 0x1f).toNat)] else [])
  let d := txdesc.sets d
    (if a.ndpa then [(.NDPA, 1), (.EN_HWSEQ, 0), (.BMC, 0), (.NAVUSEHDR, 1),
      (.DISDATAFB, 1)] else [])
  cal_txdesc_chksum_8822c d

structure AmpduMode where
  enabled : Bool := false
  tid : UInt8 := 0
  max_num : UInt8 := 16
  density : UInt8 := 7
  no_ack : Bool := true

inductive RetryFallback
  | Default
  | Off
  deriving DecidableEq

/-- What the configuration says about a descriptor. `report` and `retry_limit` are an `int`. -/
structure DescCfg where
  report : ℤ := 0
  retry_limit : ℤ := 0
  retry_fallback : RetryFallback := .Default
  tx_qsel : Option UInt8 := none
  tx_rateid : Option UInt8 := none
  tx_ampdu_max : Option UInt8 := none
  tx_ampdu_density : UInt8 := 0
  tx_ampdu_rty : Option UInt8 := none

/-- A frame that is to be described: its number among the frames with a report is `tag`. -/
structure Frame where
  tx : DataTx
  is_data : Bool
  no_agg : Bool
  tag : UInt64

/-- How often a frame is sent again, as the field takes it. -/
def DescCfg.retries (c : DescCfg) : ℕ := (UInt32.ofInt c.retry_limit).toNat

/-- The part of `build_tx_block` that writes the descriptor. -/
def stamp (c : DescCfg) (am : AmpduMode) (n_eps : ℕ) (f : Frame) (d : TxDesc) : TxDesc :=
  let d := fill_data_tx_desc_8822c d f.tx
  let d := txdesc.set d .QSEL (tx_qsel f.is_data n_eps am.enabled am.tid c.tx_qsel).toNat
  let d :=
    if c.report ≠ 0 then
      cal_txdesc_chksum_8822c (txdesc.sets d [
        (.SPE_RPT, if f.tag % UInt64.ofInt c.report = 0 then 1 else 0),
        (.SW_DEFINE, (f.tag &&& 0xff).toNat)])
    else d
  let d := txdesc.sets d [(.RTY_LMT_EN, 1), (.RTS_DATA_RTY_LMT, c.retries)]
  let d := txdesc.sets d (c.tx_rateid.map fun r => (TxField.RATE_ID, r.toNat)).toList
  let d := txdesc.sets d (if c.retry_fallback = .Off then [(.DISDATAFB, 1)] else [])
  cal_txdesc_chksum_8822c d

/-- The fields of the debug values for the aggregation. -/
def debug_ampdu (c : DescCfg) (n : UInt8) : List (TxField × ℕ) :=
  [(.AGG_EN, 1), (.MAX_AGG_NUM, (n &&& 0x1f).toNat),
    (.AMPDU_DENSITY, (c.tx_ampdu_density &&& 0x7).toNat)] ++
  (c.tx_ampdu_rty.map fun r => (TxField.RTS_DATA_RTY_LMT, r.toNat)).toList

/-- The part that puts frames together: the mode first, then the debug values. -/
def ampdu_half (c : DescCfg) (am : AmpduMode) (f : Frame) (d : TxDesc) : TxDesc :=
  let ampdu_data := am.enabled && f.is_data
  if ampdu_data || c.tx_ampdu_max.isSome then
    let d := txdesc.sets d
      (if ampdu_data then [(.AGG_EN, 1), (.MAX_AGG_NUM, (am.max_num &&& 0x1f).toNat),
        (.AMPDU_DENSITY, (am.density &&& 0x7).toNat),
        (.RTS_DATA_RTY_LMT, if am.no_ack then 0 else c.retries)] else [])
    let d := txdesc.sets d ((c.tx_ampdu_max.map (debug_ampdu c)).getD [])
    let d := txdesc.sets d (if f.no_agg then [(.AGG_EN, 0), (.BK, 1)] else [])
    cal_txdesc_chksum_8822c d
  else d

def describe (c : DescCfg) (am : AmpduMode) (n_eps : ℕ) (f : Frame) (d : TxDesc) : TxDesc :=
  ampdu_half c am f (stamp c am n_eps f d)

/-! ## What is read back -/

/-- The fields behind `fill_data_tx_desc_8822c`. -/
def filled (a : DataTx) : TxField → ℕ
  | .TXPKTSIZE => a.pkt_size.toNat
  | .OFFSET => TXDESC_SIZE_8822C
  | .BMC => (a.bmc && !a.ndpa).toNat
  | .LS | .DISQSELSEQ | .MACID | .USE_RATE | .RTY_LMT_EN | .SW_DEFINE => 1
  | .QSEL => 0x12
  | .RATE_ID => a.rate_id.toNat % 32
  | .PKT_OFFSET => a.pkt_offset.toNat % 32
  | .G_ID => 0x3f
  | .DISDATAFB => (a.dis_data_fb || a.ndpa).toNat
  | .NAVUSEHDR | .NDPA => a.ndpa.toNat
  | .DATARATE => a.rate_hw.toNat % 128
  | .RTS_DATA_RTY_LMT => 12
  | .DATA_SC => a.data_sc.toNat % 16
  | .DATA_SHORT => a.short_gi.toNat
  | .DATA_BW => a.bw.toNat % 4
  | .DATA_LDPC => a.ldpc.toNat
  | .DATA_STBC => a.stbc.toNat % 4
  | .TXPWR_OFSET_TYPE => a.pwr_ofset_type.toNat % 4
  | .EN_HWSEQ => (!a.ndpa).toNat
  | .AGG_EN | .BK | .SPE_RPT | .AMPDU_DENSITY | .MAX_AGG_NUM | .TXDESC_CHECKSUM | .DMA_TXAGG_NUM =>
    0

theorem and_3 (n : ℕ) : n &&& 3 = n % 4 := Nat.and_two_pow_sub_one_eq_mod n 2

theorem and_7 (n : ℕ) : n &&& 7 = n % 8 := Nat.and_two_pow_sub_one_eq_mod n 3

theorem and_31 (n : ℕ) : n &&& 31 = n % 32 := Nat.and_two_pow_sub_one_eq_mod n 5

theorem and_255 (n : ℕ) : n &&& 255 = n % 256 := Nat.and_two_pow_sub_one_eq_mod n 8

theorem bool_mod_2 (b : Bool) : b.toNat % 2 = b.toNat := by
  cases b <;> rfl

theorem get_fill {d : TxDesc} (hd : ∀ i, txdesc.get d.bytes i = 0) (a : DataTx) {i : TxField}
    (hi : TxField.TXDESC_CHECKSUM ≠ i) :
    txdesc.get (fill_data_tx_desc_8822c d a).bytes i = filled a i := by
  unfold fill_data_tx_desc_8822c
  dsimp only
  rw [get_cal _ _ hi]
  cases i
  case TXDESC_CHECKSUM => exact absurd rfl hi
  all_goals
    simp only [get_sets, get_set, hd, written_ite, Record.written, reduceCtorEq, if_true, if_false,
      Option.none_or, Option.or_none, ite_self, Option.getD_none, Option.getD_some]
  all_goals simp [filled, TxField.field, and_3, and_31, bool_mod_2]
  case OFFSET => simp [TXDESC_SIZE_8822C]
  case PKT_OFFSET => by_cases hzero : a.pkt_offset = 0 <;> simp [hzero]
  case TXPWR_OFSET_TYPE => by_cases hzero : a.pwr_ofset_type = 0 <;> simp [hzero]
  all_goals cases a.ndpa <;> simp

theorem tx_qsel_lt (is_data : Bool) (n_eps : ℕ) (enabled : Bool) (tid : UInt8)
    (debug : Option UInt8) :
    (tx_qsel is_data n_eps enabled tid debug).toNat < 32 := by
  unfold tx_qsel
  simp only [UInt8.toNat_and, UInt8.reduceToNat, and_31]
  exact Nat.mod_lt _ (by decide)

/-- The fields in front of the part that puts frames together. -/
def stamped (c : DescCfg) (am : AmpduMode) (n_eps : ℕ) (f : Frame) : TxField → ℕ
  | .QSEL => (tx_qsel f.is_data n_eps am.enabled am.tid c.tx_qsel).toNat
  | .SPE_RPT => if c.report ≠ 0 ∧ f.tag % UInt64.ofInt c.report = 0 then 1 else 0
  | .SW_DEFINE => if c.report ≠ 0 then f.tag.toNat % 256 else 1
  | .RTS_DATA_RTY_LMT => c.retries % 64
  | .RATE_ID => (c.tx_rateid.getD f.tx.rate_id).toNat % 32
  | .DISDATAFB => (f.tx.dis_data_fb || f.tx.ndpa || c.retry_fallback = .Off).toNat
  | i => filled f.tx i

theorem get_stamp (c : DescCfg) (am : AmpduMode) (n_eps : ℕ) (f : Frame) {d : TxDesc}
    (hd : ∀ i, txdesc.get d.bytes i = 0) {i : TxField} (hi : TxField.TXDESC_CHECKSUM ≠ i) :
    txdesc.get (stamp c am n_eps f d).bytes i = stamped c am n_eps f i := by
  have hq := Nat.mod_eq_of_lt (tx_qsel_lt f.is_data n_eps am.enabled am.tid c.tx_qsel)
  have hfill := get_fill hd f.tx hi
  unfold stamp
  dsimp only
  rw [get_cal _ _ hi]
  cases i
  case TXDESC_CHECKSUM => exact absurd rfl hi
  all_goals
    simp only [get_sets, get_set, get_ite, get_cal _ _ hi, hfill, written_ite, Record.written,
      reduceCtorEq, if_true, if_false, Option.none_or, Option.or_none, ite_self, Option.getD_none,
      Option.getD_some]
  all_goals simp [written_optional, stamped, filled, TxField.field, and_255, hq]
  case SPE_RPT =>
    by_cases hreport : c.report = 0
    · simp [hreport]
    · by_cases htag : f.tag % UInt64.ofInt c.report = 0 <;> simp [hreport, htag]
  case SW_DEFINE => simp [Nat.mod_eq_of_lt (show f.tag.toNat % 256 < 4096 by omega)]
  case DISDATAFB => by_cases hoff : c.retry_fallback = .Off <;> simp [hoff]

/-- How many frames the chip may put together with this one, and how closely. The debug values go
over the mode, and a frame that is not to be put together goes over both. -/
def aggregated (c : DescCfg) (am : AmpduMode) (f : Frame) : Option (UInt8 × UInt8) :=
  (c.tx_ampdu_max.map fun n => (n, c.tx_ampdu_density)).or
    (if am.enabled && f.is_data then some (am.max_num, am.density) else none)

/-- How often the frame is sent again. -/
def retries (c : DescCfg) (am : AmpduMode) (f : Frame) : ℕ :=
  match c.tx_ampdu_max, c.tx_ampdu_rty with
  | some _, some r => r.toNat
  | _, _ => if am.enabled && f.is_data && am.no_ack then 0 else c.retries

/-- The fields of a frame that is described. -/
def described (c : DescCfg) (am : AmpduMode) (n_eps : ℕ) (f : Frame) : TxField → ℕ
  | .RTS_DATA_RTY_LMT => retries c am f % 64
  | .AGG_EN => ((aggregated c am f).isSome && !f.no_agg).toNat
  | .BK => ((aggregated c am f).isSome && f.no_agg).toNat
  | .MAX_AGG_NUM => ((aggregated c am f).map fun g => g.1.toNat % 32).getD 0
  | .AMPDU_DENSITY => ((aggregated c am f).map fun g => g.2.toNat % 8).getD 0
  | i => stamped c am n_eps f i

/-- The fields of the part that puts frames together. -/
def ampdu_fields : List TxField := [.AGG_EN, .BK, .MAX_AGG_NUM, .AMPDU_DENSITY, .RTS_DATA_RTY_LMT]

theorem debug_ampdu_fields (c : DescCfg) (n : UInt8) :
    ∀ w ∈ debug_ampdu c n, w.1 ∈ ampdu_fields := by
  unfold debug_ampdu
  cases c.tx_ampdu_rty <;> simp [ampdu_fields]

theorem get_ampdu_other (c : DescCfg) (am : AmpduMode) (f : Frame) (d : TxDesc) {i : TxField}
    (hi : TxField.TXDESC_CHECKSUM ≠ i) (h : i ∉ ampdu_fields) :
    txdesc.get (ampdu_half c am f d).bytes i = txdesc.get d.bytes i := by
  have hout : ∀ ws : List (TxField × ℕ), (∀ w ∈ ws, w.1 ∈ ampdu_fields) →
      txdesc.written ws i = none := by
    intro ws hws
    apply txdesc.written_none
    rintro w hw rfl
    exact h (hws w hw)
  unfold ampdu_half
  dsimp only
  split
  · rw [get_cal _ _ hi, get_sets, get_sets, get_sets, hout, hout, hout]
    · rfl
    · split <;> simp [ampdu_fields]
    · cases c.tx_ampdu_max with
      | none => simp
      | some n => exact debug_ampdu_fields c n
    · split <;> simp [ampdu_fields]
  · rfl

theorem get_describe (c : DescCfg) (am : AmpduMode) (n_eps : ℕ) (f : Frame) {d : TxDesc}
    (hd : ∀ i, txdesc.get d.bytes i = 0) {i : TxField} (hi : TxField.TXDESC_CHECKSUM ≠ i) :
    txdesc.get (describe c am n_eps f d).bytes i = described c am n_eps f i := by
  have hstamp := get_stamp c am n_eps f hd hi
  by_cases h : i ∈ ampdu_fields
  · unfold describe ampdu_half
    dsimp only
    cases hdata : am.enabled && f.is_data <;> cases hmax : c.tx_ampdu_max
    all_goals
      simp only [ampdu_fields, List.mem_cons, List.not_mem_nil, or_false] at h
      rcases h with rfl | rfl | rfl | rfl | rfl
    all_goals
      simp [get_sets, get_cal _ _ hi, hstamp, written_ite, written_optional, debug_ampdu,
        Record.written, described, stamped, filled, aggregated, retries, hdata, hmax, TxField.field,
        and_7, and_31]
    all_goals
      first
      | cases f.no_agg <;> rfl
      | cases c.tx_ampdu_rty <;> rfl
  · rw [describe, get_ampdu_other c am f _ hi h, hstamp]
    cases i <;> first | rfl | exact absurd (by simp [ampdu_fields]) h

theorem checks_describe (c : DescCfg) (am : AmpduMode) (n_eps : ℕ) (f : Frame) (d : TxDesc) :
    checks (describe c am n_eps f d).bytes = true := by
  unfold describe ampdu_half
  dsimp only
  split
  · exact checks_cal _
  · unfold stamp
    exact checks_cal _

theorem bytes_ite (c : Prop) [Decidable c] (d e : TxDesc) :
    (if c then d else e).bytes = if c then d.bytes else e.bytes := by
  split <;> rfl

@[simp] theorem length_describe (c : DescCfg) (am : AmpduMode) (n_eps : ℕ)
    (f : Frame) (d : TxDesc) :
    (describe c am n_eps f d).bytes.length = d.bytes.length := by
  unfold describe ampdu_half stamp fill_data_tx_desc_8822c
  simp only [bytes_ite, apply_ite List.length, length_cal, txdesc.length_sets, txdesc.length_set,
    ite_self]

/-! ## A buffer of zeros -/

theorem long_zeros (reserve : ℕ) :
    TXDESC_SIZE_8822C ≤ (List.replicate (TXDESC_SIZE_8822C + reserve) (0 : UInt8)).length := by
  rw [List.length_replicate]
  exact Nat.le_add_right _ _

/-- The buffer that the caller has zeroed, up to where the frame goes. -/
def zeros (reserve : ℕ) : TxDesc :=
  ⟨List.replicate (TXDESC_SIZE_8822C + reserve) 0, long_zeros reserve⟩

theorem get_zeros (reserve : ℕ) (i : TxField) : txdesc.get (zeros reserve).bytes i = 0 := by
  have hbyte : ∀ j, byteAt (zeros reserve).bytes j = 0 := by
    intro j
    unfold zeros byteAt
    simp [List.getD_eq_getElem?_getD, List.getElem?_replicate]
    split <;> rfl
  have hdword : ∀ o, le32 (zeros reserve).bytes o = 0 := by
    intro o
    unfold le32
    exact (Wire.getLe_congr fun j _ => hbyte (o + j)).trans (by decide)
  unfold Record.get Field.get bits
  rw [hdword]
  simp

open chanmig (ChannelWidth_t)
open TxPktPwrBankPlanner (type)

/-! ## The numbers of a rate -/

def MGN_9M : UInt8 := 0x12
def MGN_12M : UInt8 := 0x18
def MGN_18M : UInt8 := 0x24
def MGN_24M : UInt8 := 0x30
def MGN_36M : UInt8 := 0x48
def MGN_48M : UInt8 := 0x60
def MGN_54M : UInt8 := 0x6C
def MGN_MCS32 : UInt8 := 0x7F
def MGN_MCS8 : UInt8 := MGN_MCS0 + 8
def MGN_VHT2SS_MCS0 : UInt8 := MGN_VHT1SS_MCS0 + 10

/-- The numbers of the descriptor for the rates below HT. -/
def desc_rates : List (UInt8 × UInt8) :=
  [(MGN_1M, 0x00), (MGN_2M, 0x01), (MGN_5_5M, 0x02), (MGN_11M, 0x03),
    (MGN_6M, 0x04), (MGN_9M, 0x05),
    (MGN_12M, 0x06), (MGN_18M, 0x07), (MGN_24M, 0x08), (MGN_36M, 0x09), (MGN_48M, 0x0a),
    (MGN_54M, 0x0b)]

/-- The numbers of HT and of VHT are in the same order on both sides. -/
def MRateToHwRate (rate : UInt8) : UInt8 :=
  match desc_rates.lookup rate with
  | some r => r
  | none =>
    if MGN_MCS0 ≤ rate ∧ rate ≤ MGN_MCS0 + 31 then 0x0c + (rate - MGN_MCS0)
    else if MGN_VHT1SS_MCS0 ≤ rate ∧ rate ≤ MGN_VHT1SS_MCS0 + 39 then
      0x2c + (rate - MGN_VHT1SS_MCS0)
    else 0x00

def rateid_for_mgn (mgn : UInt8) (band5g : Bool) : UInt8 :=
  if mgn ≥ MGN_VHT1SS_MCS0 then if mgn ≥ MGN_VHT2SS_MCS0 then 9 else 10
  else if mgn ≥ MGN_MCS0 then
    if mgn ≥ MGN_MCS8 then if band5g then 4 else 2
    else if band5g then 5 else 3
  else if mgn = MGN_MCS32 then if band5g then 5 else 3
  else if mgn = MGN_1M ∨ mgn = MGN_2M ∨ mgn = MGN_5_5M ∨ mgn = MGN_11M then 8
  else if band5g then 7 else 6

/-- The legacy rates by their number, in units of 500 kbps. -/
def hw_legacy : List ℕ := [2, 4, 11, 22, 12, 18, 24, 36, 48, 72, 96, 108]

/-- The meaning of a number of the descriptor. -/
def hw_air (rate_hw bw : ℕ) (sgi ldpc stbc : Bool) : AirRate :=
  if rate_hw < 0x0c then ⟨.Legacy, hw_legacy.getD rate_hw 0, 1, bw, sgi, ldpc, stbc⟩
  else if rate_hw < 0x2c then
    ⟨.HT, rate_hw - 0x0c, (rate_hw - 0x0c) / 8 + 1, bw, sgi, ldpc, stbc⟩
  else ⟨.VHT, (rate_hw - 0x2c) % 10, (rate_hw - 0x2c) / 10 + 1, bw, sgi, ldpc, stbc⟩

/-- A rate that the descriptor has a number for. -/
def HasHwRate (rate : UInt8) : Prop :=
  rate ∈ legacy_rates.map (·.2) ∨ MGN_MCS0 ≤ rate ∧ rate ≤ MGN_VHT1SS_MCS0 + 39

theorem sub_mcs0 {rate : UInt8} (h : 128 ≤ rate.toNat) :
    (rate - MGN_MCS0).toNat = rate.toNat - 128 :=
  UInt8.toNat_sub_of_le _ _ (UInt8.le_iff_toNat_le.mpr h)

theorem sub_vht0 {rate : UInt8} (h : 160 ≤ rate.toNat) :
    (rate - MGN_VHT1SS_MCS0).toNat = rate.toNat - 160 :=
  UInt8.toNat_sub_of_le _ _ (UInt8.le_iff_toNat_le.mpr h)

/-- Above the legacy rates the numbers go along. -/
theorem high_hw_rate {rate : UInt8} (hlow : MGN_MCS0 ≤ rate) (hhigh : rate ≤ MGN_VHT1SS_MCS0 + 39) :
    (MRateToHwRate rate).toNat = rate.toNat - 116 := by
  have hkeys : (desc_rates.all fun p => p.1 < MGN_MCS0) = true := rfl
  have hnone : desc_rates.lookup rate = none := by
    rw [List.lookup_eq_none_iff]
    intro p hp
    have hkey := of_decide_eq_true (List.all_eq_true.mp hkeys p hp)
    have hne : rate ≠ p.1 := fun heq => UInt8.not_le.mpr hkey (heq ▸ hlow)
    simpa using hne
  unfold MRateToHwRate
  rw [hnone]
  have hmcs31 : (MGN_MCS0 + 31).toNat = 159 := rfl
  have hvht39 : (MGN_VHT1SS_MCS0 + 39).toNat = 199 := rfl
  simp only [UInt8.le_iff_toNat_le, mcs0_toNat, vht0_toNat, hmcs31, hvht39] at hlow hhigh ⊢
  split_ifs with hht hvht
  · rw [UInt8.toNat_add, sub_mcs0 hht.1]
    show (12 + _) % 256 = _
    omega
  · rw [UInt8.toNat_add, sub_vht0 hvht.1]
    show (44 + _) % 256 = _
    omega
  · omega

theorem hw_air_eq {rate : UInt8} (h : HasHwRate rate) (bw : ℕ) (sgi ldpc stbc : Bool) :
    hw_air (MRateToHwRate rate).toNat bw sgi ldpc stbc = mgn_air rate bw sgi ldpc stbc := by
  rcases h with h | ⟨hlow, hhigh⟩
  · rw [mgn_air_legacy h]
    have hall : ∀ p ∈ legacy_rates, (MRateToHwRate p.2).toNat < 0x0c ∧
        hw_legacy.getD (MRateToHwRate p.2).toNat 0 = p.2.toNat := by decide
    obtain ⟨p, hp, rfl⟩ := List.mem_map.mp h
    unfold hw_air
    rw [if_pos (hall p hp).1, (hall p hp).2]
  · have hhw := high_hw_rate hlow hhigh
    have hvht39 : (MGN_VHT1SS_MCS0 + 39).toNat = 199 := rfl
    unfold hw_air mgn_air
    simp only [UInt8.le_iff_toNat_le, UInt8.lt_iff_toNat_lt, mcs0_toNat, vht0_toNat, hvht39]
      at hlow hhigh ⊢
    rw [hhw, if_neg (by omega), if_neg (Nat.not_lt.mpr hlow)]
    by_cases hht : rate.toNat < 160
    · rw [if_pos (by omega), if_pos hht, sub_mcs0 hlow, AirRate.mk.injEq]
      refine ⟨rfl, by omega, by omega, rfl, rfl, rfl, rfl⟩
    · rw [if_neg (by omega), if_neg hht, sub_vht0 (Nat.le_of_not_lt hht), AirRate.mk.injEq]
      refine ⟨rfl, by omega, by omega, rfl, rfl, rfl, rfl⟩

theorem hw_rate_lt {rate : UInt8} (h : HasHwRate rate) : (MRateToHwRate rate).toNat < 128 := by
  rcases h with h | ⟨hlow, hhigh⟩
  · have hall : ∀ p ∈ legacy_rates, (MRateToHwRate p.2).toNat < 128 := by decide
    obtain ⟨p, hp, rfl⟩ := List.mem_map.mp h
    exact hall p hp
  · have hvht39 : (MGN_VHT1SS_MCS0 + 39).toNat = 199 := rfl
    have hle := UInt8.le_iff_toNat_le.mp hhigh
    rw [high_hw_rate hlow hhigh]
    omega

/-- The header of a mode asks for such a rate. -/
theorem header_has_hw_rate (flagged : Bool) {m : TxMode} (hm : m.Legal) (hhe : m.mode ≠ .HE) :
    HasHwRate (header_ask flagged m).fixed_rate := by
  unfold header_ask
  cases hmode : m.mode with
  | Legacy => exact Or.inl hm.legacy
  | HT =>
    have hmcs := UInt8.le_iff_toNat_le.mp hm.ht
    have hrate : (MGN_MCS0 + m.ht_mcs).toNat = 128 + m.ht_mcs.toNat := by
      rw [UInt8.toNat_add, mcs0_toNat]
      exact Nat.mod_eq_of_lt (Nat.lt_of_le_of_lt (Nat.add_le_add_left hmcs 128) (by decide))
    dsimp only
    rw [if_pos hm.ht]
    refine Or.inr ⟨UInt8.le_iff_toNat_le.mpr ?_, UInt8.le_iff_toNat_le.mpr ?_⟩
    · rw [hrate]
      exact Nat.le_add_right _ _
    · rw [hrate]
      exact (Nat.add_le_add_left hmcs 128).trans (by decide)
  | VHT =>
    obtain ⟨h1, h4, h9⟩ := hm.vht
    obtain ⟨hpos, hrate⟩ := header_vht_rate h1 h4 h9
    dsimp only
    rw [if_pos hpos, hrate]
    have hvht := vht_rate_toNat h1 h4 h9
    have hvht39 : (MGN_VHT1SS_MCS0 + 39).toNat = 199 := rfl
    simp only [UInt8.le_iff_toNat_le, UInt8.reduceToNat] at h4 h9
    refine Or.inr ⟨UInt8.le_iff_toNat_le.mpr ?_, UInt8.le_iff_toNat_le.mpr ?_⟩
    · rw [hvht, mcs0_toNat]
      omega
    · rw [hvht, hvht39]
      omega
  | HE => exact absurd hmode hhe

/-! ## The state -/

/-- What is set up once. `eps` are the endpoints of the bus, `c_die` tells the two chips apart, and
`txpkt_dflt_type` is the bank of a frame that asks for no power. -/
structure TxCfg extends DescCfg where
  ep : Option UInt8 := none
  ndpa_period : ℤ := 0
  wide_tx_igi_floor : UInt8 := 0x35
  txpkt_step_qdb : ℤ := 4
  c_die : Bool := true
  eps : List UInt8 := []
  tx_mode_default : Option TxMode := none
  txpkt_dflt_type : UInt8 := 0

/-- What the frames change. `txpkt_img` is the register of the banks. -/
structure Tx where
  channel : UInt8
  width : ChannelWidth_t
  ndpa_ctr : UInt64 := 0
  tx_rpt_tag : UInt64 := 0
  txpkt_banks : TxPktPwrBankPlanner := {}
  txpkt_img : UInt16 := 0
  wide_tx_seen : Bool := false

def FastRetune (t : Tx) (channel : UInt8) : Tx := { t with channel }

def txpkt_idx_for_qdb (c : TxCfg) (qdb : ℤ) : ℤ :=
  let step := if c.txpkt_step_qdb > 0 then c.txpkt_step_qdb else 4
  let num := if qdb ≥ 0 then qdb * 2 + step else qdb * 2 - step
  num.tdiv (2 * step)

/-- The byte of the register for an offset. -/
def bank_byte (idx : ℤ) : UInt16 := 0x80 ||| ((Int8.ofInt idx).toUInt8.toUInt16 &&& 0x7f)

/-- The bank for an offset. One that the register has is not asked for again. -/
def txpkt_type_for_idx (t : Tx) (idx : ℤ) : UInt8 × Tx :=
  let idx := clamp_idx idx
  if idx = 0 then (0, t)
  else if t.txpkt_img &&& 0xff = bank_byte idx then (2, t)
  else if t.txpkt_img >>> 8 = bank_byte idx then (3, t)
  else
    let (banks, plan) := t.txpkt_banks.request idx
    (plan.type, { t with txpkt_banks := banks, txpkt_img := banks.reg16 })

def stbc_ok (chains : ℕ) : Bool := chains ≥ 2

/-! ## The block -/

/-- A frame asks for another channel. -/
def hopped (t : Tx) (s : TxAsk) : Tx :=
  if s.radiotap_channel > 0 ∧ s.radiotap_channel ≠ t.channel.toNat then
    FastRetune t (UInt8.ofInt s.radiotap_channel)
  else t

def is_wide (s : TxAsk) : Bool := s.bwidth = .CHANNEL_WIDTH_40 || s.bwidth = .CHANNEL_WIDTH_80

/-- What the state has for a frame, and the state behind it. -/
structure Prepared where
  ndpa : Bool
  pwr_type : UInt8
  tag : UInt64
  tx : Tx

/-- What `build_tx_block` changes, in its order. -/
def prepare (c : TxCfg) (t : Tx) (s : TxAsk) : Prepared :=
  let t := hopped t s
  let ndpa := c.ndpa_period > 0 && t.ndpa_ctr % UInt64.ofInt c.ndpa_period = 0
  let t := if c.ndpa_period > 0 then { t with ndpa_ctr := t.ndpa_ctr + 1 } else t
  let (pwr_type, t) :=
    match s.radiotap_pkt_pwr_db with
    | some db => txpkt_type_for_idx t (txpkt_idx_for_qdb c (db * 4))
    | none => (c.txpkt_dflt_type, t)
  let t := if is_wide s && c.wide_tx_igi_floor ≠ 0 then { t with wide_tx_seen := true } else t
  let tag := t.tx_rpt_tag
  let tx := if c.report ≠ 0 then { t with tx_rpt_tag := t.tx_rpt_tag + 1 } else t
  { ndpa, pwr_type, tag, tx }

/-- What stands in the descriptor of a frame. -/
def frame_of (c : TxCfg) (s : TxAsk) (r : Prepared) (dot11 : Bytes) (pkt_offset : UInt8) : Frame :=
  let fixed_rate := if r.ndpa && c.ndpa_period > 1 then MGN_VHT2SS_MCS0 else s.fixed_rate
  { tx := {
      pkt_size := UInt16.ofNat dot11.length
      rate_hw := MRateToHwRate fixed_rate
      rate_id := rateid_for_mgn fixed_rate (r.tx.channel > 14)
      bw :=
        if s.bwidth = .CHANNEL_WIDTH_40 then 1 else if s.bwidth = .CHANNEL_WIDTH_80 then 2 else 0
      short_gi := s.sgi ≠ 0
      ldpc := s.ldpc ≠ 0
      stbc := if s.stbc ≠ 0 ∧ !stbc_ok 2 then 0 else s.stbc
      bmc := dot11.length ≥ 6 && byteAt dot11 4 &&& 0x01 ≠ 0
      ndpa := r.ndpa
      -- the lower half of a channel of 80 MHz
      data_sc := if r.tx.width = .CHANNEL_WIDTH_80 ∧ s.bwidth = .CHANNEL_WIDTH_40 then 10 else 0
      pwr_ofset_type := r.pwr_type
      pkt_offset
      dis_data_fb := c.c_die && is_wide s }
    is_data := dot11.length ≥ 1 && dot11_is_data (byteAt dot11 0)
    no_agg := s.no_agg
    tag := r.tag }

/-- The descriptor with the frame behind it, and the state then. Nothing for a packet whose header
is malformed. The buffer is zeroed by the caller. -/
def build_tx_block (c : TxCfg) (am : AmpduMode) (t : Tx) (packet : Bytes) (pkt_offset : UInt8) :
    Option (Bytes × Tx) :=
  let radiotap_length := radiotap_hdr_len packet
  if radiotap_length = 0 then none
  else
    let dot11 := packet.drop radiotap_length
    let s := tx_ask c.tx_mode_default packet
    let r := prepare c t s
    let desc := describe c.toDescCfg am c.eps.length (frame_of c s r dot11 pkt_offset)
      (zeros (8 * pkt_offset.toNat))
    some (desc.bytes ++ dot11, r.tx)

/-! ## What the chip reads -/

/-- A frame as it is read from a transfer. -/
structure Seen where
  field : TxField → ℕ
  frame : Bytes
  checked : Bool

def Seen.air (s : Seen) : AirRate :=
  hw_air (s.field .DATARATE)
    (if s.field .DATA_BW = 1 then 40 else if s.field .DATA_BW = 2 then 80 else 20)
    (s.field .DATA_SHORT ≠ 0) (s.field .DATA_LDPC ≠ 0) (s.field .DATA_STBC ≠ 0)

/-- The fields that are about the transfer, and not about the frame. -/
def of_transfer : List TxField := [.PKT_OFFSET, .TXDESC_CHECKSUM, .DMA_TXAGG_NUM]

/-- The fields of a frame. -/
def of_frame (g : TxField → ℕ) (i : TxField) : ℕ := if i ∈ of_transfer then 0 else g i

/-- The frame at the start of a buffer, and where the next one starts. The reserve is counted. -/
def read_block (b : Bytes) : Seen × ℕ :=
  let start := txdesc.get b .OFFSET + 8 * txdesc.get b .PKT_OFFSET
  let size := txdesc.get b .TXPKTSIZE
  ({ field := of_frame (txdesc.get b), frame := (b.drop start).take size, checked := checks b },
    Layout.alignUp 8 (start + size))

def read_blocks : ℕ → Bytes → List Seen
  | 0, _ => []
  | n + 1, b => (read_block b).1 :: read_blocks n (b.drop (read_block b).2)

/-- The frames of a transfer. Its first descriptor has their number. -/
def read_urb (urb : Bytes) : List Seen := read_blocks (max 1 (txdesc.get urb .DMA_TXAGG_NUM)) urb

/-- A descriptor with its reserve and a frame behind it. -/
def block (c : DescCfg) (am : AmpduMode) (n_eps : ℕ) (f : Frame) (dot11 : Bytes) : Bytes :=
  (describe c am n_eps f (zeros (8 * f.tx.pkt_offset.toNat))).bytes ++ dot11

/-- What is read of it. -/
def seen (c : DescCfg) (am : AmpduMode) (n_eps : ℕ) (f : Frame) (dot11 : Bytes) : Seen where
  field := of_frame (described c am n_eps f)
  frame := dot11.take f.tx.pkt_size.toNat
  checked := true

/-- The descriptor says what was asked for, where it has a number for it. -/
theorem seen_air (c : TxCfg) (am : AmpduMode) (n_eps : ℕ) {s : TxAsk} {r : Prepared} (dot11 : Bytes)
    (pkt_offset : UInt8) (hrate : HasHwRate s.fixed_rate) (hstbc : s.stbc.toNat < 4)
    (hndpa : (r.ndpa && c.ndpa_period > 1) = false) :
    (seen c.toDescCfg am n_eps (frame_of c s r dot11 pkt_offset) dot11).air = s.air := by
  generalize hf : frame_of c s r dot11 pkt_offset = f
  have hnumber : of_frame (described c.toDescCfg am n_eps f) .DATARATE =
      (MRateToHwRate s.fixed_rate).toNat := by
    rw [← hf]
    show (MRateToHwRate (if _ then _ else s.fixed_rate)).toNat % 128 = _
    rw [hndpa]
    exact Nat.mod_eq_of_lt (hw_rate_lt hrate)
  have hwidth : (if of_frame (described c.toDescCfg am n_eps f) .DATA_BW = 1 then 40
      else if of_frame (described c.toDescCfg am n_eps f) .DATA_BW = 2 then 80 else 20) =
        width_mhz s.bwidth := by
    have hbw : of_frame (described c.toDescCfg am n_eps f) .DATA_BW =
        (if s.bwidth = .CHANNEL_WIDTH_40 then (1 : UInt8)
          else if s.bwidth = .CHANNEL_WIDTH_80 then 2 else 0).toNat % 4 := by
      rw [← hf]
      rfl
    rw [hbw]
    cases s.bwidth <;> rfl
  have hcoded : of_frame (described c.toDescCfg am n_eps f) .DATA_STBC ≠ 0 ↔ s.stbc ≠ 0 := by
    rw [← hf]
    show (if s.stbc ≠ 0 ∧ (!stbc_ok 2) = true then (0 : UInt8) else s.stbc).toNat % 4 ≠ 0 ↔ _
    rw [if_neg fun h => Bool.false_ne_true h.2, Nat.mod_eq_of_lt hstbc]
    exact not_congr ⟨fun h => UInt8.toNat_inj.mp h, fun h => congrArg UInt8.toNat h⟩
  have hflag : ∀ b : Bool, decide (b.toNat ≠ 0) = b := by decide
  unfold Seen.air seen TxAsk.air
  dsimp only
  rw [hnumber, hwidth, decide_eq_decide.mpr hcoded, hw_air_eq hrate, ← hf]
  congr 1
  · exact hflag _
  · exact hflag _

theorem length_desc (c : DescCfg) (am : AmpduMode) (n_eps : ℕ) (f : Frame) :
    (describe c am n_eps f (zeros (8 * f.tx.pkt_offset.toNat))).bytes.length =
      48 + 8 * f.tx.pkt_offset.toNat := by
  rw [length_describe]
  exact List.length_replicate

theorem get_block (c : DescCfg) (am : AmpduMode) (n_eps : ℕ) (f : Frame) (dot11 rest : Bytes)
    {i : TxField} (hi : TxField.TXDESC_CHECKSUM ≠ i) :
    txdesc.get (block c am n_eps f dot11 ++ rest) i = described c am n_eps f i := by
  rw [← get_describe c am n_eps f (get_zeros (8 * f.tx.pkt_offset.toNat)) hi]
  apply txdesc.get_congr
  unfold block
  rw [List.append_assoc]
  apply List.take_append_of_le_length
  rw [length_desc]
  exact Nat.le_add_right _ _

theorem checks_append {b : Bytes} (rest : Bytes) (h48 : 48 ≤ b.length)
    (h : 4 * pairs (txdesc.get b .PKT_OFFSET) ≤ b.length) : checks (b ++ rest) = checks b := by
  have hoffset : txdesc.get (b ++ rest) .PKT_OFFSET = txdesc.get b .PKT_OFFSET :=
    txdesc.get_congr (List.take_append_of_le_length h48) _
  have hxor : xor16 (b ++ rest) (pairs (txdesc.get b .PKT_OFFSET)) =
      xor16 b (pairs (txdesc.get b .PKT_OFFSET)) :=
    xor16_congr fun i hi => le32_append rest (by omega)
  unfold checks
  rw [hoffset, hxor]

theorem pairs_eq (pkt_offset : ℕ) : pairs pkt_offset = 12 + 2 * pkt_offset := by
  show (pkt_offset + 6) <<< 1 = _
  rw [Nat.shiftLeft_eq]
  omega

theorem checks_block (c : DescCfg) (am : AmpduMode) (n_eps : ℕ) (f : Frame) (dot11 rest : Bytes)
    (hpo : f.tx.pkt_offset.toNat < 32) : checks (block c am n_eps f dot11 ++ rest) = true := by
  have hoffset : txdesc.get (describe c am n_eps f (zeros (8 * f.tx.pkt_offset.toNat))).bytes
      .PKT_OFFSET = f.tx.pkt_offset.toNat := by
    rw [get_describe c am n_eps f (get_zeros _) (by simp)]
    exact Nat.mod_eq_of_lt hpo
  have hlen := length_desc c am n_eps f
  unfold block
  rw [List.append_assoc, checks_append _ (by omega) (by rw [hoffset, pairs_eq]; omega)]
  exact checks_describe c am n_eps f _

/-- A frame is read back from its block, whatever stands behind. -/
theorem read_built (c : DescCfg) (am : AmpduMode) (n_eps : ℕ) (f : Frame) (dot11 rest : Bytes)
    (hpo : f.tx.pkt_offset.toNat < 32) (hsize : f.tx.pkt_size.toNat ≤ dot11.length) :
    read_block (block c am n_eps f dot11 ++ rest) = (seen c am n_eps f dot11,
      Layout.alignUp 8 (48 + 8 * f.tx.pkt_offset.toNat + f.tx.pkt_size.toNat)) := by
  have hget := fun i => get_block c am n_eps f dot11 rest (i := i)
  have hoffset : described c am n_eps f .PKT_OFFSET = f.tx.pkt_offset.toNat := Nat.mod_eq_of_lt hpo
  have hstart : described c am n_eps f .OFFSET = 48 := rfl
  have hsize' : described c am n_eps f .TXPKTSIZE = f.tx.pkt_size.toNat := rfl
  have hframe : ((block c am n_eps f dot11 ++ rest).drop (48 + 8 * f.tx.pkt_offset.toNat)).take
      f.tx.pkt_size.toNat = dot11.take f.tx.pkt_size.toNat := by
    have hlen := length_desc c am n_eps f
    unfold block
    rw [List.append_assoc, ← hlen, List.drop_left, List.take_append_of_le_length hsize]
  have hfields : of_frame (txdesc.get (block c am n_eps f dot11 ++ rest)) =
      of_frame (described c am n_eps f) := by
    funext i
    unfold of_frame
    split
    · rfl
    · next h => exact hget i fun heq => h (by simp [of_transfer, ← heq])
  unfold read_block seen
  dsimp only
  rw [hget .OFFSET (by simp), hget .PKT_OFFSET (by simp), hget .TXPKTSIZE (by simp),
    hoffset, hstart, hsize', hframe, hfields, checks_block c am n_eps f dot11 rest hpo]

/-- A transfer of one frame is read as the frame. -/
theorem read_single (c : DescCfg) (am : AmpduMode) (n_eps : ℕ) (f : Frame) (dot11 : Bytes)
    (hpo : f.tx.pkt_offset.toNat < 32) (hsize : f.tx.pkt_size.toNat ≤ dot11.length) :
    read_urb (block c am n_eps f dot11) = [seen c am n_eps f dot11] := by
  have hget := get_block c am n_eps f dot11 [] (i := .DMA_TXAGG_NUM) (by simp)
  have hread := read_built c am n_eps f dot11 [] hpo hsize
  rw [List.append_nil] at hget hread
  have hone : txdesc.get (block c am n_eps f dot11) .DMA_TXAGG_NUM = 0 := hget
  unfold read_urb
  rw [hone]
  show [(read_block (block c am n_eps f dot11)).1] = _
  rw [hread]

/-! ## Several frames in one transfer -/

/-- A frame in its place: its number of the descriptor and its bytes. -/
structure Placed where
  frame : Frame
  dot11 : Bytes

def Placed.block (c : DescCfg) (am : AmpduMode) (n_eps : ℕ) (p : Placed) : Bytes :=
  jaguar3.block c am n_eps p.frame p.dot11

def Placed.seen (c : DescCfg) (am : AmpduMode) (n_eps : ℕ) (p : Placed) : Seen :=
  jaguar3.seen c am n_eps p.frame p.dot11

/-- The size stands in the descriptor as it is. -/
structure Placed.Sized (p : Placed) : Prop where
  pkt_offset : p.frame.tx.pkt_offset.toNat < 32
  pkt_size : p.frame.tx.pkt_size.toNat = p.dot11.length

variable {c : DescCfg} {am : AmpduMode} {n_eps : ℕ}

theorem Placed.length_block (p : Placed) : (p.block c am n_eps).length =
    48 + 8 * p.frame.tx.pkt_offset.toNat + p.dot11.length := by
  unfold Placed.block jaguar3.block
  rw [List.length_append, length_desc]

/-- Frames that are laid one after another are read one after another. -/
theorem read_placed {urb : Bytes} (ps : List Placed) (hsized : ∀ p ∈ ps, p.Sized) {o : ℕ}
    (ho : 8 ∣ o)
    (hlaid : ∀ q ∈ (Layout.place 8 o (ps.map fun p => (p.block c am n_eps).length)).zip ps,
      (urb.drop q.1.1).take (q.2.block c am n_eps).length = q.2.block c am n_eps) :
    read_blocks ps.length (urb.drop o) = ps.map (Placed.seen c am n_eps) := by
  induction ps generalizing o with
  | nil => rfl
  | cons p ps ih =>
    have hp := hsized p List.mem_cons_self
    have hfirst := hlaid ((o, (p.block c am n_eps).length), p) List.mem_cons_self
    have hsplit : urb.drop o =
        p.block c am n_eps ++ (urb.drop o).drop (p.block c am n_eps).length := by
      conv_lhs => rw [← List.take_append_drop (p.block c am n_eps).length (urb.drop o)]
      rw [hfirst]
    have hread : read_block (urb.drop o) =
        (p.seen c am n_eps, Layout.alignUp 8 (p.block c am n_eps).length) := by
      rw [hsplit, p.length_block, ← hp.pkt_size]
      exact read_built c am n_eps p.frame p.dot11 _ hp.pkt_offset (le_of_eq hp.pkt_size)
    have hnext : Layout.alignUp 8 (o + (p.block c am n_eps).length) =
        o + Layout.alignUp 8 (p.block c am n_eps).length := by
      obtain ⟨hdvd, hle, hlt⟩ :=
        Layout.alignUp_spec (a := 8) (by decide) (p.block c am n_eps).length
      exact Layout.alignUp_eq (Nat.dvd_add ho hdvd) (by omega) (by omega)
    have hrest := ih (fun q hq => hsized q (List.mem_cons_of_mem p hq))
      (Layout.alignUp_spec (a := 8) (by decide) (o + (p.block c am n_eps).length)).1
      (fun q hq => hlaid q (List.mem_cons_of_mem _ hq))
    rw [List.length_cons, read_blocks, hread, List.map_cons]
    dsimp only
    rw [List.drop_drop, ← hnext, hrest]

/-- The blocks of frames, each copied to its place. -/
def pasted (c : DescCfg) (am : AmpduMode) (n_eps : ℕ) (buf : Bytes) (ps : List Placed) : Bytes :=
  pasteAll buf (pieces 8 0 (ps.map (Placed.block c am n_eps)))

theorem read_pasted {buf : Bytes} {ps : List Placed} (hsized : ∀ p ∈ ps, p.Sized)
    (hlaid : Laid buf.length (pieces 8 0 (ps.map (Placed.block c am n_eps)))) :
    read_blocks ps.length (pasted c am n_eps buf ps) = ps.map (Placed.seen c am n_eps) := by
  have hread : read_blocks ps.length ((pasted c am n_eps buf ps).drop 0) =
      ps.map (Placed.seen c am n_eps) := by
    apply read_placed ps hsized (dvd_zero 8)
    intro q hq
    apply pasteAll_holds hlaid (p := (q.1.1, q.2.block c am n_eps))
    unfold pieces
    rw [List.map_map, List.zip_map]
    exact List.mem_map.mpr ⟨q, hq, rfl⟩
  rwa [List.drop_zero] at hread

/-- The number of the frames in the first descriptor, and the checksum again. -/
def number (d : TxDesc) (n : ℕ) : TxDesc :=
  cal_txdesc_chksum_8822c (txdesc.set d .DMA_TXAGG_NUM n)

theorem get_number (d : TxDesc) (n : ℕ) {i : TxField} (hi : TxField.TXDESC_CHECKSUM ≠ i) :
    txdesc.get (number d n).bytes i =
      if TxField.DMA_TXAGG_NUM = i then n % 256 else txdesc.get d.bytes i := by
  unfold number
  rw [get_cal _ _ hi, get_set]
  rfl

theorem drop_number (d : TxDesc) (n : ℕ) {o : ℕ} (ho : 48 ≤ o) :
    (number d n).bytes.drop o = d.bytes.drop o := by
  obtain ⟨k, rfl⟩ := Nat.exists_eq_add_of_le ho
  have h48 : (number d n).bytes.drop 48 = d.bytes.drop 48 :=
    (drop_cal _).trans (txdesc.drop_set d _ n)
  rw [← List.drop_drop, h48, List.drop_drop]

/-- The number changes nothing of what is read of the frame. -/
theorem read_number (d : TxDesc) (n : ℕ) (hoffset : txdesc.get d.bytes .OFFSET = 48)
    (hchecked : (read_block d.bytes).1.checked = true) :
    read_block (number d n).bytes = read_block d.bytes := by
  have hget : ∀ i, TxField.TXDESC_CHECKSUM ≠ i → TxField.DMA_TXAGG_NUM ≠ i →
      txdesc.get (number d n).bytes i = txdesc.get d.bytes i := by
    intro i hi hnum
    rw [get_number d n hi, if_neg hnum]
  have hfields : of_frame (txdesc.get (number d n).bytes) = of_frame (txdesc.get d.bytes) := by
    funext i
    unfold of_frame
    split
    · rfl
    · next h =>
      exact hget i (fun heq => h (by simp [of_transfer, ← heq]))
        (fun heq => h (by simp [of_transfer, ← heq]))
  have hchecks : checks (number d n).bytes = checks d.bytes :=
    (checks_cal _).trans hchecked.symm
  unfold read_block
  dsimp only
  rw [hget .OFFSET (by simp) (by simp), hget .PKT_OFFSET (by simp) (by simp),
    hget .TXPKTSIZE (by simp) (by simp), hoffset, hfields, hchecks,
    drop_number d n (Nat.le_add_right _ _)]

/-- A numbered transfer is read as so many frames. -/
theorem read_numbered (d : TxDesc) {n : ℕ} (hn : 0 < n) (hlt : n < 256)
    (hoffset : txdesc.get d.bytes .OFFSET = 48) (hchecked : (read_block d.bytes).1.checked = true) :
    read_urb (number d n).bytes = read_blocks n d.bytes := by
  have hnumber : txdesc.get (number d n).bytes .DMA_TXAGG_NUM = n := by
    rw [get_number d n (by simp), if_pos rfl]
    exact Nat.mod_eq_of_lt hlt
  have hbehind : 48 ≤ (read_block d.bytes).2 := by
    have hup := (Layout.alignUp_spec (a := 8) (by decide) (txdesc.get d.bytes .OFFSET +
      8 * txdesc.get d.bytes .PKT_OFFSET + txdesc.get d.bytes .TXPKTSIZE)).2.1
    rw [hoffset, Nat.add_assoc] at hup
    unfold read_block
    dsimp only
    rw [hoffset, Nat.add_assoc]
    omega
  unfold read_urb
  rw [hnumber, Nat.max_eq_right hn]
  cases n with
  | zero => cases hn
  | succ n =>
    rw [read_blocks, read_blocks, read_number d _ hoffset hchecked, drop_number d _ hbehind]

end devourer.jaguar3
