-- The radiotap header in front of an injected frame, and the rate that it
-- asks for.
import Devourer.Lib.Layout
import Devourer.Lib.Wire

namespace devourer.mt7612u

/-- What a frame is sent with, bits 15:13 of the rate word. -/
inductive Phy
  | CCK
  | OFDM
  | HT
  | HT_GF
  | VHT
  deriving DecidableEq

def Phy.toNat : Phy → ℕ
  | .CCK => 0
  | .OFDM => 1
  | .HT => 2
  | .HT_GF => 3
  | .VHT => 4

/-- A width, bits 8:7 of the rate word. -/
inductive Bw
  | BW_20
  | BW_40
  | BW_80
  deriving DecidableEq

def Bw.toNat : Bw → ℕ
  | .BW_20 => 0
  | .BW_40 => 1
  | .BW_80 => 2

structure TxRate where
  phy : Phy := .CCK
  mcs : UInt8 := 0
  nss : UInt8 := 0
  bw : Bw := .BW_20
  sgi : Bool := false
  ldpc : Bool := false
  stbc : Bool := false
  no_ack : Bool := false
  power_adj : ℤ := 0
  deriving DecidableEq

/-- The alignment and the size of each field. Size 0 is a field that is not known. -/
def rt_field : List (ℕ × ℕ) :=
  [(8, 8), (1, 1), (1, 1), (2, 4), (2, 2), (1, 1), (1, 1), (2, 2), (2, 2), (2, 2), (1, 1), (1, 1),
    (1, 1), (1, 1), (2, 2), (2, 2), (1, 1), (1, 1), (0, 0), (1, 3), (4, 8), (2, 12), (8, 12),
    (2, 12)]

def RT_RATE : ℕ := 2
def RT_TX_FLAGS : ℕ := 15
def RT_MCS : ℕ := 19
def RT_VHT : ℕ := 21
def RT_TX_FLAGS_NOACK : BitVec 16 := 0x0008

def rd16 (b : Bytes) (o : ℕ) : BitVec 16 := Wire.getLe 16 2 fun i => byteAt b (o + i)

def rd32 (b : Bytes) (o : ℕ) : BitVec 32 := Wire.getLe 32 4 fun i => byteAt b (o + i)

theorem rd16_congr {b c : Bytes} {o p : ℕ} (h : ∀ i, i < 2 → byteAt b (o + i) = byteAt c (p + i)) :
    rd16 b o = rd16 c p := Wire.getLe_congr h

theorem rd32_congr {b c : Bytes} {o p : ℕ} (h : ∀ i, i < 4 → byteAt b (o + i) = byteAt c (p + i)) :
    rd32 b o = rd32 c p := Wire.getLe_congr h

/-- The rate comes in units of 500 kbps. -/
def legacy_rate_index (r500 : UInt8) : Phy × UInt8 :=
  match r500.toNat with
  | 2 => (.CCK, 0)
  | 4 => (.CCK, 1)
  | 11 => (.CCK, 2)
  | 22 => (.CCK, 3)
  | 12 => (.OFDM, 0)
  | 18 => (.OFDM, 1)
  | 24 => (.OFDM, 2)
  | 36 => (.OFDM, 3)
  | 48 => (.OFDM, 4)
  | 72 => (.OFDM, 5)
  | 96 => (.OFDM, 6)
  | 108 => (.OFDM, 7)
  | _ => (.OFDM, 0)

/-- The code names a channel width and the part of it that is used. -/
def vht_bandwidth (code : UInt8) : Bw :=
  ([.BW_20, .BW_40, .BW_20, .BW_20, .BW_80, .BW_40, .BW_40, .BW_20, .BW_20, .BW_20, .BW_20]
    : List Bw).getD code.toNat .BW_20

/-- What the field of a present bit, which starts at `o`, says of the rate. -/
def rt_take (b : Bytes) (present0 : BitVec 32) (bit o : ℕ) (r : TxRate) : TxRate :=
  if bit = RT_RATE then
    if present0.getLsbD RT_MCS then r
    else
      let (phy, mcs) := legacy_rate_index (byteAt b o)
      { r with phy, mcs }
  else if bit = RT_TX_FLAGS then
    if rd16 b o &&& RT_TX_FLAGS_NOACK ≠ 0 then { r with no_ack := true } else r
  else if bit = RT_MCS then
    let known := byteAt b o
    let flags := byteAt b (o + 1)
    let mcs := byteAt b (o + 2)
    { r with
      phy := .HT
      mcs
      nss := (mcs >>> 3) + 1
      bw := if known &&& 0x01 ≠ 0 ∧ flags &&& 0x03 = 1 then .BW_40 else r.bw
      sgi := if known &&& 0x04 ≠ 0 then flags >>> 2 &&& 1 ≠ 0 else r.sgi
      ldpc := if known &&& 0x10 ≠ 0 then flags >>> 4 &&& 1 ≠ 0 else r.ldpc
      stbc := if known &&& 0x20 ≠ 0 then flags >>> 5 &&& 3 ≠ 0 else r.stbc }
  else if bit = RT_VHT then
    let known := rd16 b o
    let flags := byteAt b (o + 2)
    let mcs_nss := byteAt b (o + 4)
    { r with
      phy := .VHT
      mcs := mcs_nss >>> 4
      nss := if mcs_nss &&& 0x0f = 0 then 1 else mcs_nss &&& 0x0f
      stbc := if known &&& 0x0004 ≠ 0 then flags &&& 1 ≠ 0 else r.stbc
      sgi := flags &&& 0x04 ≠ 0 || r.sgi
      ldpc := byteAt b (o + 8) &&& 0x01 ≠ 0 || r.ldpc
      bw := vht_bandwidth (byteAt b (o + 3)) }
  else r

/-- The present words from `off` on, at most so many of them, and where they end. -/
def rt_present (b : Bytes) (rlen : ℕ) : ℕ → ℕ → Option (List (BitVec 32) × ℕ)
  | 0, _ => none
  | left + 1, off =>
    if off + 4 > rlen then none
    else
      let word := rd32 b off
      if word.getLsbD 31 then
        (rt_present b rlen left (off + 4)).map fun (words, off) => (word :: words, off)
      else some ([word], off + 4)

/-- The bits that are present, in the order of their fields. -/
def rt_bits (present : List (BitVec 32)) : List ℕ :=
  present.zipIdx.flatMap fun (word, w) =>
    ((List.range 31).filter fun b => word.getLsbD b).map fun b => 31 * w + b

/-- The fields of the present bits. One that is not known ends the walk, one that runs past the
header makes it malformed. -/
def rt_fields (b : Bytes) (rlen : ℕ) (present0 : BitVec 32) : List ℕ → ℕ → TxRate → ℤ × TxRate
  | [], _, r => (rlen, r)
  | bit :: bits, off, r =>
    match rt_field[bit]? with
    | none => (rlen, r)
    | some (align, size) =>
      if size = 0 then (rlen, r)
      else
        let off := Layout.alignUp align off
        if off + size > rlen then (-1, r)
        else rt_fields b rlen present0 bits (off + size) (rt_take b present0 bit off r)

/-- The length of the header and the rate. 0 or less says that there is no usable header. -/
def mt_radiotap_parse : Option Bytes → ℤ × TxRate
  | none => (0, {})
  | some b =>
    if b.length < 8 ∨ byteAt b 0 ≠ 0 then (0, {})
    else
      let rlen := (rd16 b 2).toNat
      if rlen < 8 ∨ b.length < rlen then (0, {})
      else
        match rt_present b rlen 8 4 with
        | none => (0, {})
        | some (present, off) =>
          rt_fields b rlen (present.headD 0) (rt_bits present) off { phy := .OFDM, nss := 1 }

/-- A buffer that is too short for a header has none. -/
theorem radiotap_short {b : Bytes} (h : b.length < 8) : mt_radiotap_parse (some b) = (0, {}) := by
  rw [mt_radiotap_parse, if_pos (Or.inl h)]

end devourer.mt7612u
