-- One bulk transfer of the receiver: the FCE word, the RXWI, the frame with
-- its L2 pad, and the parser that takes the frame out in place.
import Devourer.Lib.Reach
import Devourer.Mt7612u.TxBuild

namespace devourer.mt7612u

def MT_DMA_HDR_LEN : ℕ := 4
def MT_RXWI_LEN : ℕ := 32
def MT_RXWI_CTL_MPDU_LEN : BitVec 32 := GENMASK 29 16
def MT_RXINFO_CRCERR : BitVec 32 := BIT 8
def MT_RXINFO_L2PAD : BitVec 32 := BIT 14
def MT_RXINFO_AMPDU : BitVec 32 := BIT 15
def MT_RX_PARSE_INVALID : ℤ := -2

def FIELD_GET (m v : BitVec 32) : BitVec 32 := (v &&& m) >>> MT_CTZ m

/-- What the RXWI says of a frame. `phy` and `bw` are the fields as they stand there. -/
structure RxInfo where
  phy : ℕ := 0
  mcs : UInt8 := 0
  nss : UInt8 := 0
  bw : ℕ := 0
  sgi : Bool := false
  ldpc : Bool := false
  stbc : Bool := false
  crc_err : Bool := false
  ampdu : Bool := false
  rssi : Fin 4 → Int8 := fun _ => 0
  noise : Int8 := 0
  snr_db : Int8 := 0
  noise_valid : Bool := false
  n_chains : UInt8 := 0
  mpdu_len : BitVec 16 := 0
  seq : BitVec 16 := 0
  bbp : Fin 4 → BitVec 32 := fun _ => 0

/-- What the parser leaves: what it returns, where the frame starts, what the caller's record holds
where it was written, and the buffer. -/
structure RxParsed where
  rc : ℤ
  frame : Option ℕ := none
  info : Option RxInfo := none
  buf : Bytes

def get_le16 (w : Reach) (o : ℕ) : Option (BitVec 16) := (w.read o 2).map (rd16 · 0)

def get_le32 (w : Reach) (o : ℕ) : Option (BitVec 32) := (w.read o 4).map (rd32 · 0)

/-- The rate word. -1 says that its PHY names no format. -/
def decode_rate (rate : BitVec 16) (out : RxInfo) : ℤ × RxInfo :=
  let rate := rate.setWidth 32
  let idx := FIELD_GET MT_RATE_INDEX rate
  let out := { out with phy := (FIELD_GET MT_RATE_PHY rate).toNat }
  if out.phy > Phy.VHT.toNat then (-1, out)
  else
    let out := { out with
      bw := (FIELD_GET MT_RATE_BW rate).toNat
      sgi := rate &&& MT_RATE_SGI ≠ 0
      ldpc := rate &&& MT_RATE_LDPC ≠ 0
      stbc := rate &&& MT_RATE_STBC ≠ 0 }
    if out.phy = Phy.VHT.toNat then
      (0, { out with
        mcs := UInt8.ofBitVec ((FIELD_GET MT_RATE_VHT_IDX idx).setWidth 8)
        nss := UInt8.ofBitVec ((FIELD_GET MT_RATE_VHT_NSS idx + 1).setWidth 8) })
    else if out.phy = Phy.HT.toNat ∨ out.phy = Phy.HT_GF.toNat then
      (0, { out with
        mcs := UInt8.ofBitVec (idx.setWidth 8)
        nss := UInt8.ofBitVec ((1 + idx >>> 3).setWidth 8) })
    else (0, { out with mcs := UInt8.ofBitVec (idx.setWidth 8), nss := 1 })

/-- What the record holds before the rate is decoded. -/
def rxwi_info (rxinfo ctl : BitVec 32) (seq : BitVec 16) : RxInfo where
  mpdu_len := (FIELD_GET MT_RXWI_CTL_MPDU_LEN ctl).setWidth 16
  seq := seq >>> 4
  crc_err := rxinfo &&& MT_RXINFO_CRCERR ≠ 0
  ampdu := rxinfo &&& MT_RXINFO_AMPDU ≠ 0

/-- The pad that the flags of a frame announce. -/
def l2_pad (rxinfo : BitVec 32) : ℕ := if rxinfo &&& MT_RXINFO_L2PAD ≠ 0 then 2 else 0

/-- The signed bytes of the word: two chain offsets and the gain of the LNA. -/
def mt_rx_corr_unpack (v : BitVec 32) : (ℕ → Int8) × Int8 :=
  (fun c => (UInt8.ofBitVec ((v >>> (8 * c)).setWidth 8)).toInt8,
    (UInt8.ofBitVec ((v >>> 16).setWidth 8)).toInt8)

/-- The levels of a frame, and its noise floor from the third of them. -/
def rx_levels (d : Dev) (rx_corr : BitVec 32) (chains bbp : Bytes) (info : RxInfo) : RxInfo :=
  let (rssi_offset, lna_gain) := mt_rx_corr_unpack rx_corr
  let rssi (c : ℕ) : Int8 :=
    (byteAt chains c).toInt8 + (if c < 2 then rssi_offset c else 0) - lna_gain
  let noise := rssi 2
  let noise_valid := noise > -100 ∧ noise < -30
  { info with
    n_chains := if d.chainmask &&& 0xf > 1 then 2 else 1
    rssi := fun c => rssi c
    bbp := fun i => rd32 bbp (4 * i)
    noise
    noise_valid
    snr_db := if noise_valid then rssi 0 - noise else 0 }

/-- The frame in a transfer of `n` bytes. It is `len` bytes by the RXWI, and no more than the
transfer has. The header is moved up over the pad, and the frame starts behind it. -/
def rx_frame (w : Reach) (n : ℤ) (mpdu_len pad : ℕ) (info : RxInfo) : Option RxParsed :=
  let base := MT_DMA_HDR_LEN + MT_RXWI_LEN
  let len := min (mpdu_len : ℤ) (n - base - pad)
  if len < 0 then some { rc := 0, info, buf := w.bytes }
  else if pad = 0 then some { rc := len, frame := base, info, buf := w.bytes }
  else
    let avail := n - base
    let nothing : RxParsed := { rc := 0, frame := base, info, buf := w.bytes }
    if avail < 2 then some nothing
    else do
      let hdrlen := mt_hdrlen_from_fc (← w.read base 2)
      if len < hdrlen ∨ avail < hdrlen + pad then some nothing
      else
        let w ← w.move (base + pad) base hdrlen
        some { rc := len, frame := base + pad, info, buf := w.bytes }

/-- One transfer of `n` bytes in `buf`. It is `none` where an access falls at `n` or beyond it. -/
def mt_rx_parse (d : Dev) (rx_corr : BitVec 32) (buf : Bytes) (n : ℤ) : Option RxParsed :=
  let w := Reach.upto buf n.toNat
  if n < (MT_DMA_HDR_LEN + MT_RXWI_LEN : ℕ) then some { rc := 0, buf }
  else do
    let rxwi := MT_DMA_HDR_LEN
    let rxinfo ← get_le32 w rxwi
    let ctl ← get_le32 w (rxwi + 4)
    let seq ← get_le16 w (rxwi + 8)
    let rate ← get_le16 w (rxwi + 10)
    let (rc, info) := decode_rate rate (rxwi_info rxinfo ctl seq)
    if rc ≠ 0 then some { rc := MT_RX_PARSE_INVALID, info, buf }
    else
      let info := rx_levels d rx_corr (← w.read (rxwi + 12) 4) (← w.read (rxwi + 16) 16) info
      rx_frame w n info.mpdu_len.toNat (l2_pad rxinfo) info

/-! ## What it reads -/

/-- The bytes that a read gives. -/
theorem byteAt_read (b : Bytes) (o : ℕ) {k i : ℕ} (h : i < k) :
    byteAt ((b.drop o).take k) i = byteAt b (o + i) := by
  rw [byteAt_take h, byteAt_drop]

theorem get_le16_eq {w : Reach} {o : ℕ} (h : o + 2 ≤ w.limit) :
    get_le16 w o = some (rd16 w.bytes o) := by
  rw [get_le16, Reach.read_eq h, Option.map_some]
  apply congrArg some
  apply rd16_congr
  intro i hi
  rw [Nat.zero_add]
  exact byteAt_read _ _ hi

theorem get_le32_eq {w : Reach} {o : ℕ} (h : o + 4 ≤ w.limit) :
    get_le32 w o = some (rd32 w.bytes o) := by
  rw [get_le32, Reach.read_eq h, Option.map_some]
  apply congrArg some
  apply rd32_congr
  intro i hi
  rw [Nat.zero_add]
  exact byteAt_read _ _ hi

/-- The rate word is refused where its PHY names no format. -/
theorem decode_rate_valid {rate : BitVec 16}
    (h : (FIELD_GET MT_RATE_PHY (rate.setWidth 32)).toNat ≤ Phy.VHT.toNat) (out : RxInfo) :
    (decode_rate rate out).1 = 0 := by
  unfold decode_rate
  dsimp only
  rw [if_neg (Nat.not_lt.mpr h)]
  split
  · rfl
  · split <;> rfl

@[simp] theorem decode_rate_mpdu_len (rate : BitVec 16) (out : RxInfo) :
    (decode_rate rate out).2.mpdu_len = out.mpdu_len := by
  unfold decode_rate
  dsimp only
  split
  · rfl
  · split
    · rfl
    · split <;> rfl

@[simp] theorem rx_levels_mpdu_len (d : Dev) (rx_corr : BitVec 32) (chains bbp : Bytes)
    (info : RxInfo) : (rx_levels d rx_corr chains bbp info).mpdu_len = info.mpdu_len := rfl

/-- A transfer that has room for the RXWI, read as far as it. -/
theorem mt_rx_parse_eq (d : Dev) (rx_corr : BitVec 32) {buf : Bytes} {n : ℕ} (hrxwi : 36 ≤ n)
    (hn : n ≤ buf.length) :
    mt_rx_parse d rx_corr buf n =
      let r := decode_rate (rd16 buf 14) (rxwi_info (rd32 buf 4) (rd32 buf 8) (rd16 buf 12))
      if r.1 ≠ 0 then some { rc := MT_RX_PARSE_INVALID, info := r.2, buf }
      else rx_frame (Reach.upto buf n) n r.2.mpdu_len.toNat (l2_pad (rd32 buf 4))
        (rx_levels d rx_corr ((buf.drop 16).take 4) ((buf.drop 20).take 16) r.2) := by
  have hroom : ∀ o k, o + k ≤ 36 → o + k ≤ (Reach.upto buf n).limit := by
    intro o k hok
    rw [Reach.limit_upto hn]
    omega
  have hshort : ¬((n : ℤ) < (MT_DMA_HDR_LEN + MT_RXWI_LEN : ℕ)) := by
    simp only [MT_DMA_HDR_LEN, MT_RXWI_LEN]
    omega
  unfold mt_rx_parse
  dsimp only
  rw [if_neg hshort, Int.toNat_natCast]
  simp only [MT_DMA_HDR_LEN, Option.bind_eq_bind]
  rw [get_le32_eq (hroom _ _ (by decide)), get_le32_eq (hroom _ _ (by decide)),
    get_le16_eq (hroom _ _ (by decide)), get_le16_eq (hroom _ _ (by decide)),
    Reach.read_eq (hroom _ _ (by decide)), Reach.read_eq (hroom _ _ (by decide))]
  rfl

/-! ## Where the frame lies -/

section Frame

variable {w : Reach} {n : ℕ} (mpdu_len : ℕ) (info : RxInfo)

/-- Without a pad the frame starts behind the RXWI. -/
theorem rx_frame_plain (hrxwi : 36 ≤ n) :
    rx_frame w n mpdu_len 0 info =
      some { rc := (min mpdu_len (n - 36) : ℕ), frame := some 36, info, buf := w.bytes } := by
  have hlen : min (mpdu_len : ℤ) (n - (4 + 32) - 0) = (min mpdu_len (n - 36) : ℕ) := by omega
  unfold rx_frame
  simp only [MT_DMA_HDR_LEN, MT_RXWI_LEN]
  push_cast at hlen ⊢
  rw [hlen, if_neg (by omega)]

/-- The header that stands behind the RXWI. -/
theorem hdrlen_read (hlimit : w.limit = n) (h : 38 ≤ n) :
    ∃ f, w.read 36 2 = some f ∧ mt_hdrlen_from_fc f = mt_hdrlen_from_fc (w.bytes.drop 36) := by
  refine ⟨_, Reach.read_eq (by omega), mt_hdrlen_congr ?_⟩
  intro i hi
  rw [byteAt_read _ _ hi, byteAt_drop]

/-- Behind a pad the header is moved, where it and the pad are inside the transfer. -/
theorem rx_frame_two (hlimit : w.limit = n) (h : 38 ≤ n) :
    rx_frame w n mpdu_len 2 info =
      if mpdu_len < mt_hdrlen_from_fc (w.bytes.drop 36) ∨
          n < mt_hdrlen_from_fc (w.bytes.drop 36) + 38 then
        some { rc := 0, frame := some 36, info, buf := w.bytes }
      else (w.move 38 36 (mt_hdrlen_from_fc (w.bytes.drop 36))).map fun w' =>
        { rc := (min mpdu_len (n - 38) : ℕ), frame := some 38, info, buf := w'.bytes } := by
  have hlen : min (mpdu_len : ℤ) (n - (4 + 32) - 2) = (min mpdu_len (n - 38) : ℕ) := by omega
  obtain ⟨f, hread, hf⟩ := hdrlen_read hlimit h
  unfold rx_frame
  simp only [MT_DMA_HDR_LEN, MT_RXWI_LEN]
  push_cast at hlen ⊢
  simp only [hlen]
  rw [if_neg (by omega), if_neg (by omega), hread]
  simp only [Option.bind_eq_bind, Option.bind_some, hf]
  by_cases hno : mpdu_len < mt_hdrlen_from_fc (w.bytes.drop 36) ∨
      n < mt_hdrlen_from_fc (w.bytes.drop 36) + 38
  · rw [if_pos (by omega), if_pos hno]
  · rw [if_neg (by omega), if_neg hno, Option.map_eq_bind]
    rfl

theorem rx_frame_padded (hlimit : w.limit = n)
    (hhdr : mt_hdrlen_from_fc (w.bytes.drop 36) ≤ mpdu_len)
    (hfit : mt_hdrlen_from_fc (w.bytes.drop 36) + 38 ≤ n) :
    rx_frame w n mpdu_len 2 info = some {
      rc := (min mpdu_len (n - 38) : ℕ)
      frame := some 38
      info
      buf := Reach.moved w.bytes 38 36 (mt_hdrlen_from_fc (w.bytes.drop 36)) } := by
  obtain ⟨w', hmove, hbytes, -⟩ := Reach.move_eq
    (show 38 + mt_hdrlen_from_fc (w.bytes.drop 36) ≤ w.limit by omega)
    (show 36 + mt_hdrlen_from_fc (w.bytes.drop 36) ≤ w.limit by omega)
  rw [rx_frame_two mpdu_len info hlimit (by omega), if_neg (by omega), hmove, Option.map_some,
    hbytes]

/-- Where they are not, nothing is moved and no frame is returned. -/
theorem rx_frame_nothing (hlimit : w.limit = n) (hrxwi : 36 ≤ n)
    (hno : mpdu_len < mt_hdrlen_from_fc (w.bytes.drop 36) ∨
      n < mt_hdrlen_from_fc (w.bytes.drop 36) + 38) :
    ∃ r, rx_frame w n mpdu_len 2 info = some r ∧ r.rc = 0 ∧ r.buf = w.bytes ∧
      (r.frame = none ∨ r.frame = some 36) := by
  by_cases hroom : n < 38
  · have hlen : min (mpdu_len : ℤ) (n - (4 + 32) - 2) < 0 := by omega
    unfold rx_frame
    simp only [MT_DMA_HDR_LEN, MT_RXWI_LEN]
    push_cast at hlen ⊢
    rw [if_pos hlen]
    exact ⟨_, rfl, rfl, rfl, Or.inl rfl⟩
  · rw [rx_frame_two mpdu_len info hlimit (by omega), if_pos hno]
    exact ⟨_, rfl, rfl, rfl, Or.inr rfl⟩

end Frame

end devourer.mt7612u
