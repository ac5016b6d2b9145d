-- The pad behind a header that is not a multiple of 4: the sender puts it in,
-- the receiver takes it out, and neither leaves its buffer.
import Devourer.Mt7612u.RxParse
import Devourer.Mt7612u.SendPackets

namespace devourer.mt7612u

/-- A frame that has its whole header. -/
structure Mpdu where
  bytes : Bytes
  long : 10 ≤ bytes.length
  whole : mt_hdrlen_from_fc bytes ≤ bytes.length

namespace Mpdu

variable (m : Mpdu)

def hdrlen : ℕ := mt_hdrlen_from_fc m.bytes

/-- The frame with these bytes between its header and its body. -/
def with_pad (pad : Bytes) : Bytes := m.bytes.take m.hdrlen ++ (pad ++ m.bytes.drop m.hdrlen)

/-- The frame with its own header pad. -/
def sent : Bytes := m.with_pad (List.replicate (if m.hdrlen % 4 = 0 then 0 else 2) 0)

/-- The TXWI and the padded frame, up to the next multiple of 4. -/
def announced : ℕ := Layout.alignUp 4 (MT_TXWI_LEN + m.sent.length)

theorem hdr_length : (m.bytes.take m.hdrlen).length = m.hdrlen := by
  rw [List.length_take]
  exact Nat.min_eq_left m.whole

theorem length_with_pad (pad : Bytes) : (m.with_pad pad).length = m.bytes.length + pad.length := by
  have hwhole : m.hdrlen ≤ m.bytes.length := m.whole
  simp only [with_pad, List.length_append, hdr_length, List.length_drop]
  omega

theorem padded_eq_sent : padded m.bytes = m.sent := by
  have hhdr : hdr_len m.bytes = m.hdrlen := Nat.min_eq_left m.whole
  rw [padded, hdr_pad, hhdr, List.append_assoc]
  rfl

end Mpdu

/-! ## The sender -/

/-- A block that carries the frame in a buffer of `bufsz` bytes. Its TXINFO tells the length where
16 bits can. -/
structure Carries (m : Mpdu) (bufsz : ℕ) (block : Bytes) : Prop where
  inside : block.length ≤ bufsz
  frame : (block.drop (4 + MT_TXWI_LEN)).take m.sent.length = m.sent
  info : m.announced < 65536 → (rd32 block 0 &&& MT_TXD_INFO_LEN).toNat = m.announced

variable (d : Dev)

theorem tx_carries (m : Mpdu) {bufsz : ℕ} (hfour : 4 ∣ bufsz) (hfit : m.bytes.length + 32 ≤ bufsz)
    (rate : TxRate) (wcid : UInt8) (opts : BitVec 32) (next_vld trailer : Bool) :
    ∃ block, mt_tx_build d bufsz m.bytes rate wcid opts next_vld trailer = some block ∧
      Carries m bufsz block := by
  have hbody : (body d m.bytes rate wcid opts).length = m.announced := by
    rw [length_body, m.padded_eq_sent]
    rfl
  refine ⟨_, mt_tx_build_eq d m.long hfit rate wcid opts next_vld trailer, ?_, ?_, ?_⟩
  · have hle := length_body_le d m.bytes rate wcid opts
    have hdvd := four_dvd_length_body d m.bytes rate wcid opts
    rw [List.length_append, List.length_append, length_put_le32, List.length_replicate]
    split <;> omega
  · rw [← List.drop_drop, List.drop_left' (length_put_le32 _), body, List.append_assoc,
      List.append_assoc, List.drop_left' (length_txwi d _ rate wcid opts), m.padded_eq_sent,
      List.take_left' rfl]
  · intro hinfo
    rw [rd32_put, hbody]
    exact txinfo_len hinfo opts next_vld

/-! ## The receiver -/

/-- A frame as it comes in: behind its RXWI, with the L2 pad where the RXWI flags one, and with
anything behind it. -/
structure Delivery where
  fce : Octets 4
  rxwi : Octets 32
  mpdu : Mpdu
  pad : Octets 2
  rest : Bytes
  mpdu_len : (FIELD_GET MT_RXWI_CTL_MPDU_LEN (rd32 rxwi.val 4)).toNat = mpdu.bytes.length

namespace Delivery

variable (t : Delivery)

def l2pad : Bytes := if rd32 t.rxwi.val 0 &&& MT_RXINFO_L2PAD ≠ 0 then t.pad.val else []

def frame : Bytes := t.mpdu.with_pad t.l2pad

def bytes : Bytes := t.fce.val ++ (t.rxwi.val ++ (t.frame ++ t.rest))

/-- The PHY field of the rate word. -/
def phy : ℕ := (FIELD_GET MT_RATE_PHY ((rd16 t.rxwi.val 10).setWidth 32)).toNat

theorem byteAt_rxwi {i : ℕ} (hi : i < 32) : byteAt t.bytes (4 + i) = byteAt t.rxwi.val i := by
  have hfce := t.fce.property
  have hrxwi := t.rxwi.property
  rw [bytes, byteAt_append_right _ (by omega), hfce, Nat.add_sub_cancel_left,
    byteAt_append_left _ (by omega)]

theorem rd32_rxwi {o : ℕ} (ho : o + 4 ≤ 32) : rd32 t.bytes (4 + o) = rd32 t.rxwi.val o := by
  apply rd32_congr
  intro i hi
  rw [Nat.add_assoc]
  exact t.byteAt_rxwi (by omega)

theorem rd16_rxwi {o : ℕ} (ho : o + 2 ≤ 32) : rd16 t.bytes (4 + o) = rd16 t.rxwi.val o := by
  apply rd16_congr
  intro i hi
  rw [Nat.add_assoc]
  exact t.byteAt_rxwi (by omega)

theorem drop_rxwi : t.bytes.drop 36 = t.frame ++ t.rest := by
  rw [bytes, ← List.append_assoc]
  apply List.drop_left'
  rw [List.length_append, t.fce.property, t.rxwi.property]

theorem length_bytes : t.bytes.length = 36 + t.frame.length + t.rest.length := by
  rw [bytes, List.length_append, List.length_append, List.length_append, t.fce.property,
    t.rxwi.property]
  omega

theorem length_frame : t.frame.length = t.mpdu.bytes.length + l2_pad (rd32 t.rxwi.val 0) := by
  rw [frame, Mpdu.length_with_pad, l2pad, l2_pad]
  split
  · rw [t.pad.property]
  · rfl

theorem hdrlen_read : mt_hdrlen_from_fc (t.bytes.drop 36) = t.mpdu.hdrlen := by
  have hhdr := t.mpdu.hdr_length
  have hten := mt_hdrlen_ge t.mpdu.bytes
  apply mt_hdrlen_congr
  intro i hi
  have hin : i < (t.mpdu.bytes.take t.mpdu.hdrlen).length := by
    rw [hhdr]
    exact Nat.lt_of_lt_of_le (by omega) hten
  rw [drop_rxwi, frame, Mpdu.with_pad, List.append_assoc, byteAt_append_left _ hin]
  exact byteAt_take (hhdr ▸ hin)

end Delivery

/-- The parser returned this frame. -/
structure Received (m : Mpdu) (r : RxParsed) : Prop where
  rc : r.rc = m.bytes.length
  frame : ∃ f, r.frame = some f ∧ (r.buf.drop f).take m.bytes.length = m.bytes

theorem mpdu_len_lt (ctl : BitVec 32) : (FIELD_GET MT_RXWI_CTL_MPDU_LEN ctl).toNat < 65536 := by
  have hctz : MT_CTZ MT_RXWI_CTL_MPDU_LEN = 16 := by decide
  have hword := (ctl &&& MT_RXWI_CTL_MPDU_LEN).isLt
  rw [FIELD_GET, hctz, BitVec.toNat_ushiftRight, Nat.shiftRight_eq_div_pow]
  omega

section Receiver

variable (rx_corr : BitVec 32)

/-- The length that the parser goes by. -/
theorem mpdu_len_of_delivery (t : Delivery) (rate : BitVec 16) (rxinfo : BitVec 32)
    (seq : BitVec 16) :
    (decode_rate rate (rxwi_info rxinfo (rd32 t.rxwi.val 4) seq)).2.mpdu_len.toNat =
      t.mpdu.bytes.length := by
  rw [decode_rate_mpdu_len, rxwi_info, BitVec.toNat_setWidth,
    Nat.mod_eq_of_lt (mpdu_len_lt _), t.mpdu_len]

theorem rx_received (t : Delivery) (hphy : t.phy ≤ Phy.VHT.toNat) {n : ℕ}
    (hin : 36 + t.frame.length ≤ n) (hn : n ≤ t.bytes.length) :
    ∃ r, mt_rx_parse d rx_corr t.bytes n = some r ∧ Received t.mpdu r := by
  have hlimit := Reach.limit_upto hn
  have hlen := t.length_frame
  have hwhole : t.mpdu.hdrlen ≤ t.mpdu.bytes.length := t.mpdu.whole
  rw [mt_rx_parse_eq d rx_corr (by omega) hn]
  have hflags := t.rd32_rxwi (o := 0) (by decide)
  have hctl := t.rd32_rxwi (o := 4) (by decide)
  have hrate := t.rd16_rxwi (o := 10) (by decide)
  rw [hflags, hctl, hrate]
  dsimp only
  rw [if_neg (not_not.mpr (decode_rate_valid hphy _)), mpdu_len_of_delivery]
  by_cases hpad : rd32 t.rxwi.val 0 &&& MT_RXINFO_L2PAD = 0
  · have hnone : l2_pad (rd32 t.rxwi.val 0) = 0 := if_neg (not_not.mpr hpad)
    have hl2pad : t.l2pad = [] := if_neg (not_not.mpr hpad)
    rw [hnone] at hlen ⊢
    refine ⟨_, rx_frame_plain _ _ (by omega), ?_, 36, rfl, ?_⟩
    · dsimp only
      omega
    · rw [Reach.bytes_upto, t.drop_rxwi, Delivery.frame, hl2pad, Mpdu.with_pad, List.nil_append,
        List.take_append_drop, List.take_left' rfl]
  · have htwo : l2_pad (rd32 t.rxwi.val 0) = 2 := if_pos hpad
    have hl2pad : t.l2pad = t.pad.val := if_pos hpad
    have hhdr : mt_hdrlen_from_fc ((Reach.upto t.bytes n).bytes.drop 36) = t.mpdu.hdrlen :=
      t.hdrlen_read
    rw [htwo] at hlen ⊢
    refine ⟨_, rx_frame_padded _ _ hlimit (by omega) (by omega), ?_, 38, rfl, ?_⟩
    · dsimp only
      omega
    · have hmoved : (t.bytes.drop 36).take t.mpdu.hdrlen = t.mpdu.bytes.take t.mpdu.hdrlen := by
        rw [t.drop_rxwi, Delivery.frame, Mpdu.with_pad, List.append_assoc,
          List.take_left' t.mpdu.hdr_length]
      have hbody : t.bytes.drop (38 + t.mpdu.hdrlen) =
          t.mpdu.bytes.drop t.mpdu.hdrlen ++ t.rest := by
        rw [show 38 + t.mpdu.hdrlen = 36 + (t.mpdu.hdrlen + 2) by omega, ← List.drop_drop,
          t.drop_rxwi, Delivery.frame, Mpdu.with_pad, hl2pad, List.append_assoc, List.append_assoc,
          ← List.drop_drop, List.drop_left' t.mpdu.hdr_length, List.drop_left' t.pad.property]
      dsimp only
      rw [hhdr, Reach.bytes_upto, Reach.drop_dst_moved (by rw [t.length_bytes]; omega), hmoved,
        hbody, ← List.append_assoc, List.take_append_drop, List.take_left' rfl]

/-- What a transfer of `n` bytes leaves: nothing at `n` or beyond it is changed, and the frame is
in front of it. -/
structure StaysInside (buf : Bytes) (n : ℤ) (r : RxParsed) : Prop where
  length : r.buf.length = buf.length
  beyond : r.buf.drop n.toNat = buf.drop n.toNat
  frame : ∀ f, r.frame = some f → 0 ≤ r.rc ∧ f + r.rc ≤ n
  returned : 0 < r.rc → r.frame.isSome

theorem rx_frame_stays {buf : Bytes} {n : ℕ} (hrxwi : 36 ≤ n) (hn : n ≤ buf.length) (mpdu_len : ℕ)
    (rxinfo : BitVec 32) (info : RxInfo) :
    ∃ r, rx_frame (Reach.upto buf n) n mpdu_len (l2_pad rxinfo) info = some r ∧
      StaysInside buf n r := by
  have hlimit := Reach.limit_upto hn
  by_cases hpad : rxinfo &&& MT_RXINFO_L2PAD = 0
  · have hnone : l2_pad rxinfo = 0 := if_neg (not_not.mpr hpad)
    rw [hnone]
    refine ⟨_, rx_frame_plain _ _ hrxwi, rfl, rfl, ?_, fun _ => rfl⟩
    rintro f ⟨⟩
    dsimp only
    omega
  have htwo : l2_pad rxinfo = 2 := if_pos hpad
  rw [htwo]
  by_cases hfit : mt_hdrlen_from_fc (buf.drop 36) ≤ mpdu_len ∧
      mt_hdrlen_from_fc (buf.drop 36) + 38 ≤ n
  · have hdst : 38 + mt_hdrlen_from_fc (buf.drop 36) ≤ buf.length := by omega
    have hsrc : 36 + mt_hdrlen_from_fc (buf.drop 36) ≤ buf.length := by omega
    refine ⟨_, rx_frame_padded _ _ hlimit hfit.1 hfit.2, Reach.length_moved hdst hsrc,
      Reach.drop_moved hdst hsrc (by omega), ?_, fun _ => rfl⟩
    rintro f ⟨⟩
    dsimp only
    omega
  · obtain ⟨r, hr, hrc, hbuf, hframe⟩ := rx_frame_nothing mpdu_len info hlimit hrxwi
      (show mpdu_len < mt_hdrlen_from_fc (buf.drop 36) ∨
        n < mt_hdrlen_from_fc (buf.drop 36) + 38 by omega)
    refine ⟨r, hr, by rw [hbuf]; rfl, by rw [hbuf]; rfl, ?_, ?_⟩
    · intro f hf
      rcases hframe with hframe | hframe
      · rw [hframe] at hf
        cases hf
      · rw [hframe] at hf
        cases hf
        omega
    · intro hpos
      omega

theorem rx_stays_inside {buf : Bytes} {n : ℤ} (hn : n ≤ buf.length) :
    ∃ r, mt_rx_parse d rx_corr buf n = some r ∧ StaysInside buf n r := by
  by_cases hrxwi : n < 36
  · refine ⟨{ rc := 0, buf }, if_pos hrxwi, rfl, rfl, ?_, ?_⟩
    · rintro f ⟨⟩
    · intro hpos
      exact absurd hpos (Int.lt_irrefl 0)
  obtain ⟨k, rfl⟩ := Int.eq_ofNat_of_zero_le (show 0 ≤ n by omega)
  rw [mt_rx_parse_eq d rx_corr (by omega) (by omega)]
  dsimp only
  split
  · refine ⟨_, rfl, rfl, rfl, ?_, ?_⟩
    · rintro f ⟨⟩
    · intro hpos
      exact absurd (show 0 < MT_RX_PARSE_INVALID from hpos) (by decide)
  · exact rx_frame_stays (by omega) (by omega) _ _ _

end Receiver

/-- The header pad is put in and taken out, and both ends stay in their buffers. The sizes of a
frame to send are those of an `int`. -/
theorem header_padding_is_undone :
    (∀ (d : Dev) (m : Mpdu) (bufsz : ℕ) (rate : TxRate) (wcid : UInt8) (opts : BitVec 32)
      (next_vld trailer : Bool), m.bytes.length + 33 < 0x80000000 → 4 ∣ bufsz →
      m.bytes.length + 32 ≤ bufsz →
      ∃ block, mt_tx_build d bufsz m.bytes rate wcid opts next_vld trailer = some block ∧
        Carries m bufsz block) ∧
    (∀ (d : Dev) (rx_corr : BitVec 32) (t : Delivery) (n : ℕ), t.phy ≤ Phy.VHT.toNat →
      36 + t.frame.length ≤ n → n ≤ t.bytes.length →
      ∃ r, mt_rx_parse d rx_corr t.bytes n = some r ∧ Received t.mpdu r) ∧
    ∀ (d : Dev) (rx_corr : BitVec 32) (buf : Bytes) (n : ℤ), n ≤ buf.length →
      ∃ r, mt_rx_parse d rx_corr buf n = some r ∧ StaysInside buf n r := by
  refine ⟨?_, ?_, ?_⟩
  · intro d m bufsz rate wcid opts next_vld trailer _ hfour hfit
    exact tx_carries d m hfour hfit rate wcid opts next_vld trailer
  · intro d rx_corr t n hphy hin hn
    exact rx_received d rx_corr t hphy hin hn
  · intro d rx_corr buf n hn
    exact rx_stays_inside d rx_corr hn

/-! ### A frame with a QoS field, both ways -/

def qos_bytes : Bytes := [0x88, 0] ++ List.replicate 24 7 ++ [1, 2]

theorem qos_long : 10 ≤ qos_bytes.length := by decide

theorem qos_whole : mt_hdrlen_from_fc qos_bytes ≤ qos_bytes.length := by decide

def qos_data : Mpdu := ⟨qos_bytes, qos_long, qos_whole⟩

/-- The RXWI of a frame of `len` bytes. -/
def rxwi_bytes (flags len rate : UInt8) : Bytes :=
  [0, flags, 0, 0, 0, 0, len, 0, 0, 0, 0, rate] ++ List.replicate 20 0

theorem length_rxwi_bytes (flags len rate : UInt8) : (rxwi_bytes flags len rate).length = 32 := rfl

theorem qos_mpdu_len : (FIELD_GET MT_RXWI_CTL_MPDU_LEN (rd32 (rxwi_bytes 0x40 28 0x40) 4)).toNat =
    qos_data.bytes.length := by decide

def qos_delivery : Delivery where
  fce := Octets.zero 4
  rxwi := ⟨rxwi_bytes 0x40 28 0x40, length_rxwi_bytes 0x40 28 0x40⟩
  mpdu := qos_data
  pad := Octets.zero 2
  rest := [0xee]
  mpdu_len := qos_mpdu_len

theorem header_padding_of_qos :
    (∃ block, mt_tx_build untuned 60 qos_bytes {} 0xff 0 false true = some block ∧
      Carries qos_data 60 block) ∧
    (∃ r, mt_rx_parse untuned 0 qos_delivery.bytes 67 = some r ∧ Received qos_data r) ∧
    ∃ r, mt_rx_parse untuned 0 qos_delivery.bytes 40 = some r ∧
      StaysInside qos_delivery.bytes 40 r := by
  obtain ⟨htx, hrx, hinside⟩ := header_padding_is_undone
  refine ⟨?_, ?_, ?_⟩
  · exact htx untuned qos_data 60 {} 0xff 0 false true (by decide) (by decide) (by decide)
  · exact hrx untuned 0 qos_delivery 67 (by decide) (by decide) (by decide)
  · exact hinside untuned 0 qos_delivery.bytes 40 (by decide)

/-! ### A frame that the length field cannot tell, and a rate word without a PHY -/

def long_bytes : Bytes := List.replicate 65535 8

theorem length_long_bytes : long_bytes.length = 65535 := List.length_replicate

theorem hdrlen_long : mt_hdrlen_from_fc long_bytes = 24 := by
  have hfc : mt_hdrlen_from_fc long_bytes = mt_hdrlen_from_fc (List.replicate 2 8) := by
    apply mt_hdrlen_congr
    intro i hi
    have hlong : i < 65535 := by omega
    rw [byteAt, byteAt, long_bytes, List.getD_replicate _ hlong, List.getD_replicate _ hi]
  rw [hfc]
  decide

theorem long_long : 10 ≤ long_bytes.length := by
  rw [length_long_bytes]
  decide

theorem long_whole : mt_hdrlen_from_fc long_bytes ≤ long_bytes.length := by
  rw [hdrlen_long, length_long_bytes]
  decide

def long_data : Mpdu := ⟨long_bytes, long_long, long_whole⟩

theorem announced_long : long_data.announced = 65556 := by
  have hhdr : long_data.hdrlen = 24 := hdrlen_long
  have hlen : long_data.bytes.length = 65535 := length_long_bytes
  rw [Mpdu.announced, Mpdu.sent, Mpdu.length_with_pad, hhdr, hlen]
  decide

theorem no_phy_mpdu_len :
    (FIELD_GET MT_RXWI_CTL_MPDU_LEN (rd32 (rxwi_bytes 0x40 28 0xe0) 4)).toNat =
    qos_data.bytes.length := by decide

def no_phy_delivery : Delivery where
  fce := Octets.zero 4
  rxwi := ⟨rxwi_bytes 0x40 28 0xe0, length_rxwi_bytes 0x40 28 0xe0⟩
  mpdu := qos_data
  pad := Octets.zero 2
  rest := []
  mpdu_len := no_phy_mpdu_len

theorem a_long_frame_and_an_unknown_phy :
    (∃ block, mt_tx_build untuned 65568 long_data.bytes {} 0xff 0 false true = some block ∧
      (rd32 block 0 &&& MT_TXD_INFO_LEN).toNat = 20 ∧ long_data.announced = 65556) ∧
    (mt_rx_parse untuned 0 no_phy_delivery.bytes 66).map (·.rc) = some MT_RX_PARSE_INVALID := by
  refine ⟨⟨_, mt_tx_build_eq untuned long_data.long ?_ {} 0xff 0 false true, ?_, announced_long⟩,
    by decide⟩
  · have hlen : long_data.bytes.length = 65535 := length_long_bytes
    omega
  · have hbody : (body untuned long_data.bytes {} 0xff 0).length = long_data.announced := by
      rw [length_body, long_data.padded_eq_sent]
      rfl
    rw [rd32_put, txinfo_len_mod, hbody, announced_long]

end devourer.mt7612u
