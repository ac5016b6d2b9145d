-- The rate of a frame on the Kestrels, which air HE too: what `send_packet`
-- reads from the header, or takes from the mode that was set, and what it
-- clamps on the way.
import Devourer.Radio.TxRate

namespace devourer.kestrel

open radiotap (Arg)
open mt7612u (rd16)

/-! ## The rate that the descriptor takes -/

/-- The number of a rate for the descriptor: 0 to 11 are legacy, and HT, VHT and HE start at 0x80,
0x100 and 0x180. -/
structure TxRate where
  rate : UInt16 := 4
  bw : UInt8 := 0
  gi_ltf : UInt8 := 0
  ldpc : Bool := false
  stbc : Bool := false
  er : Bool := false
  er_106 : Bool := false
  dcm : Bool := false
  deriving DecidableEq

/-- The legacy rates by the driver's numbers, in the order of the descriptor. -/
def ax_legacy : List UInt8 :=
  [0x02, 0x04, 0x0B, 0x16, 0x0C, 0x12, 0x18, 0x24, 0x30, 0x48, 0x60, 0x6C]

def mgn_to_ax_rate (mgn : UInt8) : UInt16 :=
  if mgn ∈ ax_legacy then (ax_legacy.idxOf mgn).toUInt16
  else if mgn ≥ MGN_VHT1SS_MCS0 then
    let off := (mgn - MGN_VHT1SS_MCS0).toUInt16
    0x100 + off / 10 * 16 + off % 10
  else if mgn ≥ MGN_MCS0 then mgn.toUInt16
  else 4

/-- The variables of `send_packet`. No power stands for the smallest `int`. -/
structure Read where
  mgn : UInt8 := MGN_6M
  he : Bool := false
  rate_from_radiotap : Bool := false
  pkt_pwr_db : Option ℤ := none
  tr : TxRate := {}
  deriving DecidableEq

def take_mcs (b : Bytes) (o : ℕ) (s : Read) : Read :=
  let flags := byteAt b (o + 1)
  { s with
    rate_from_radiotap := true
    tr := { s.tr with
      bw := if flags &&& 0x03 = 1 then 1 else s.tr.bw
      gi_ltf := if flags &&& 0x04 ≠ 0 then 1 else s.tr.gi_ltf }
    mgn := if byteAt b o &&& 0x02 ≠ 0 then MGN_MCS0 + byteAt b (o + 2) else s.mgn }

def take_vht (b : Bytes) (o : ℕ) (s : Read) : Read :=
  let known := byteAt b o
  let flags := byteAt b (o + 2)
  let bw := byteAt b (o + 3) &&& 0x1f
  let mcs := byteAt b (o + 4) >>> 4 &&& 0xf
  let nss := byteAt b (o + 4) &&& 0xf
  { s with
    rate_from_radiotap := true
    tr := { s.tr with
      gi_ltf := if known &&& 0x04 ≠ 0 ∧ flags &&& 0x04 ≠ 0 then 1 else s.tr.gi_ltf
      stbc := (known &&& 0x01 ≠ 0 && flags &&& 0x01 ≠ 0) || s.tr.stbc
      bw :=
        if known &&& 0x40 ≠ 0 then if bw ≥ 4 then 2 else if bw ≥ 1 then 1 else 0
        else s.tr.bw
      ldpc := byteAt b (o + 8) &&& 0x01 ≠ 0 || s.tr.ldpc }
    mgn :=
      if 1 ≤ nss ∧ nss ≤ 4 ∧ mcs ≤ 9 then MGN_VHT1SS_MCS0 + (nss - 1) * 10 + mcs else s.mgn }

/-- The code of the chip for a guard interval and the size of a training field. -/
def giltf_code (gi ltf : UInt16) : UInt8 :=
  if ltf = 3 then if gi = 2 then 0 else 1
  else if ltf = 1 then if gi = 1 then 4 else 5
  else if gi = 1 then 2 else 3

/-- The limits of the extended range, on the streams and the MCS. -/
def er_clamp (er_106 : Bool) (nss mcs : UInt16) : UInt16 × UInt16 :=
  let mcs_max : UInt16 := if er_106 then 0 else 2
  if nss > 1 ∨ mcs > mcs_max then (1, if mcs > mcs_max then mcs_max else mcs) else (nss, mcs)

/-- Whether the dual carrier goes with an MCS. -/
def dcm_fits (er : Bool) (mcs : UInt16) : Bool :=
  if er then mcs ≤ 1 else mcs ≤ 1 || mcs = 3 || mcs = 4

/-- The words `data1`, `data3`, `data5` and `data6` of a field. -/
def take_he_words (d1 d3 d5 d6 : UInt16) (s : Read) : Read :=
  let mcs := (d3 &&& 0x0f00) >>> 8
  let nss := d6 &&& 0x000f
  let nss := if nss < 1 then 1 else nss
  let nss := if nss > 4 then 4 else nss
  let stbc := d3 &&& 0x8000 ≠ 0 || s.tr.stbc
  let bw := d5 &&& 0x000f
  -- the extended range is a format of 20 MHz only
  let ext_su : Bool := d1 &&& 0x0003 = 0x0001
  let er := ext_su || s.tr.er
  let er_106 := if ext_su then decide (bw = 6) else s.tr.er_106
  let (nss, mcs) := if ext_su then er_clamp er_106 nss mcs else (nss, mcs)
  let dcm := d3 &&& 0x1000 ≠ 0 && dcm_fits er mcs
  { s with
    rate_from_radiotap := true
    he := mcs ≤ 11 || s.he
    tr := {
      rate := if mcs ≤ 11 then 0x180 + (nss - 1) * 16 + mcs else s.tr.rate
      bw := if ext_su then 0 else if bw > 2 then 2 else bw.toUInt8
      gi_ltf := giltf_code ((d5 &&& 0x0030) >>> 4) ((d5 &&& 0x00c0) >>> 6)
      ldpc := d3 &&& 0x2000 ≠ 0 || s.tr.ldpc
      -- it excludes the STBC
      stbc := stbc && !dcm
      er
      er_106
      dcm := dcm || s.tr.dcm } }

def he_word (b : Bytes) (o w : ℕ) : UInt16 := ⟨rd16 b (o + 2 * w)⟩

def take_he (b : Bytes) (o : ℕ) (s : Read) : Read :=
  take_he_words (he_word b o 0) (he_word b o 2) (he_word b o 4) (he_word b o 5) s

def take_field (b : Bytes) (s : Read) (a : Arg) : Read :=
  if a.index = IEEE80211_RADIOTAP_RATE then
    { s with mgn := byteAt b a.off, rate_from_radiotap := true }
  else if a.index = IEEE80211_RADIOTAP_DBM_TX_POWER then
    { s with pkt_pwr_db := some (byteAt b a.off).toInt8.toInt }
  else if a.index = IEEE80211_RADIOTAP_MCS then take_mcs b a.off s
  else if a.index = IEEE80211_RADIOTAP_VHT then take_vht b a.off s
  else if a.index = IEEE80211_RADIOTAP_HE then take_he b a.off s
  else s

/-- What the header of a packet asks for. -/
def read_header (packet : Bytes) : Read :=
  ((handed_out packet (radiotap_hdr_len packet)).getD []).foldl (take_field packet) {}

/-- An HE mode that was set. -/
def he_default (m : TxMode) (s : Read) : Read :=
  let nss : UInt16 := (if m.he_nss < 1 then 1 else if m.he_nss > 4 then 4 else m.he_nss).toUInt16
  let mcs : UInt16 := (if m.he_mcs ≤ 11 then m.he_mcs else 0).toUInt16
  let er : Bool := m.he_er ≠ 0
  let er_106 : Bool := m.he_er = 2
  let mcs_max : UInt16 := if er_106 then 0 else 2
  let nss := if er then 1 else nss
  let mcs := if er ∧ mcs > mcs_max then mcs_max else mcs
  let dcm := m.he_dcm && (mcs ≤ 1 || !er && (mcs = 3 || mcs = 4))
  { s with
    he := true
    tr := {
      rate := 0x180 + (nss - 1) * 16 + mcs
      bw := if er then 0 else if m.bw_mhz ≥ 160 then 3 else if m.bw_mhz ≥ 80 then 2
        else if m.bw_mhz ≥ 40 then 1 else 0
      gi_ltf := m.he_gi_ltf &&& 0x7
      ldpc := m.ldpc
      stbc := m.stbc && !dcm
      er := er || s.tr.er
      er_106 := if er then er_106 else s.tr.er_106
      dcm := dcm || s.tr.dcm } }

/-- A header without a rate leaves it to the mode that was set. -/
def with_default (d : Option TxMode) (s : Read) : Read :=
  match d with
  | some m =>
    if s.rate_from_radiotap || s.he then s
    else if m.mode = .HE then he_default m s
    else
      let tp := tx_mode_to_params m
      { s with
        mgn := tp.fixed_rate
        tr := { s.tr with
          bw := if tp.bwidth = .CHANNEL_WIDTH_40 then 1 else if tp.bwidth = .CHANNEL_WIDTH_80 then 2
            else 0
          gi_ltf := if tp.sgi ≠ 0 then 1 else 0
          ldpc := tp.ldpc ≠ 0
          stbc := tp.stbc ≠ 0 } }
  | none => s

/-- The rate that a packet is sent with. -/
def tx_rate (d : Option TxMode) (packet : Bytes) : TxRate :=
  let s := with_default d (read_header packet)
  if s.he then s.tr else { s.tr with rate := mgn_to_ax_rate s.mgn }

/-! ## What it reads of a built header -/

def TxRate.mhz (r : TxRate) : ℕ :=
  if r.bw = 0 then 20 else if r.bw = 1 then 40 else if r.bw = 2 then 80 else 160

def TxRate.air (r : TxRate) : AirRate :=
  let n := r.rate.toNat
  if n < 0x80 then ⟨.Legacy, (ax_legacy.getD n 0).toNat, 1, r.mhz, r.gi_ltf = 1, r.ldpc, r.stbc⟩
  else if n < 0x100 then
    ⟨.HT, n - 0x80, (n - 0x80) / 8 + 1, r.mhz, r.gi_ltf = 1, r.ldpc, r.stbc⟩
  else if n < 0x180 then ⟨.VHT, n % 16, (n - 0x100) / 16 + 1, r.mhz, r.gi_ltf = 1, r.ldpc, r.stbc⟩
  else ⟨.HE, n % 16, (n - 0x180) / 16 + 1, r.mhz, false, r.ldpc, r.stbc⟩

/-- The rate of a mode as its header is read: HT comes without its coding, and 160 MHz as 80. -/
def header_rate (m : TxMode) : TxRate :=
  match m.mode with
  | .Legacy => { rate := mgn_to_ax_rate m.legacy_rate_500kbps }
  | .HT => {
      rate := 0x80 + m.ht_mcs.toUInt16
      bw := if m.bw_mhz ≥ 40 then 1 else 0
      gi_ltf := m.sgi.toUInt8 }
  | .VHT => {
      rate := 0x100 + (m.vht_nss.toUInt16 - 1) * 16 + m.vht_mcs.toUInt16
      bw := if m.bw_mhz = 40 then 1 else if m.bw_mhz = 20 then 0 else 2
      gi_ltf := m.sgi.toUInt8
      ldpc := m.ldpc
      stbc := m.stbc }
  | .HE => {
      rate := 0x180 + (m.he_nss.toUInt16 - 1) * 16 + m.he_mcs.toUInt16
      bw := if m.bw_mhz = 40 then 1 else if m.bw_mhz = 20 then 0 else 2
      gi_ltf := m.he_gi_ltf
      ldpc := m.ldpc
      stbc := m.stbc
      er := m.he_er ≠ 0
      er_106 := m.he_er = 2
      dcm := m.he_dcm }

section
variable (b : Bytes) (s : Read) (o n : ℕ)

@[simp] theorem take_rate_field : take_field b s ⟨2, o, n⟩ =
    { s with mgn := byteAt b o, rate_from_radiotap := true } := rfl

@[simp] theorem take_flags_field : take_field b s ⟨15, o, n⟩ = s := rfl

@[simp] theorem take_mcs_field : take_field b s ⟨19, o, n⟩ = take_mcs b o s := rfl

@[simp] theorem take_vht_field : take_field b s ⟨21, o, n⟩ = take_vht b o s := rfl

@[simp] theorem take_he_field : take_field b s ⟨23, o, n⟩ = take_he b o s := rfl

end

theorem read_built (m : TxMode) (no_ack : Bool) {frame : Bytes} (hframe : frame ≠ []) :
    read_header (build_stream_radiotap m no_ack ++ frame) = (built_args m.mode).foldl
      (take_field (build_stream_radiotap m no_ack ++ frame)) {} := by
  unfold read_header
  rw [built_hdr_len m no_ack hframe, handed_out_built, Option.getD_some]

/-- All values of a byte up to `k`. -/
def Upto (k : UInt8) (P : UInt8 → Prop) : Prop := ∀ i ∈ List.range (k.toNat + 1), P i.toUInt8

instance decidable_upto (k : UInt8) (P : UInt8 → Prop) [DecidablePred P] : Decidable (Upto k P) :=
  inferInstanceAs (Decidable (∀ i ∈ List.range (k.toNat + 1), P i.toUInt8))

theorem Upto.at {k x : UInt8} {P : UInt8 → Prop} (hall : Upto k P) (h : x ≤ k) : P x := by
  rw [UInt8.le_iff_toNat_le] at h
  have hx := hall x.toNat (List.mem_range.mpr (Nat.lt_succ_of_le h))
  rwa [show x.toNat.toUInt8 = x from UInt8.ofNat_toNat] at hx

/-- The fields of the third word, one by one. -/
theorem data3_fields {mcs : UInt8} (h : mcs ≤ 11) (ldpc stbc dcm : Bool) :
    (he_data3 mcs ldpc stbc dcm &&& 0x0f00) >>> 8 = mcs.toUInt16 ∧
      decide (he_data3 mcs ldpc stbc dcm &&& 0x2000 ≠ 0) = ldpc ∧
      decide (he_data3 mcs ldpc stbc dcm &&& 0x8000 ≠ 0) = stbc ∧
      decide (he_data3 mcs ldpc stbc dcm &&& 0x1000 ≠ 0) = dcm := by
  have hall : Upto 11 fun mcs => ∀ ldpc stbc dcm,
      (he_data3 mcs ldpc stbc dcm &&& 0x0f00) >>> 8 = mcs.toUInt16 ∧
        decide (he_data3 mcs ldpc stbc dcm &&& 0x2000 ≠ 0) = ldpc ∧
        decide (he_data3 mcs ldpc stbc dcm &&& 0x8000 ≠ 0) = stbc ∧
        decide (he_data3 mcs ldpc stbc dcm &&& 0x1000 ≠ 0) = dcm := by decide
  exact hall.at h ldpc stbc dcm

/-- The code of the chip comes back from the guard interval and the training field. -/
theorem data5_fields {bw_code gi_ltf : UInt8} (hbw : bw_code ≤ 7) (hgi : gi_ltf ≤ 5) :
    he_data5 bw_code gi_ltf &&& 0x000f = bw_code.toUInt16 ∧
      giltf_code ((he_data5 bw_code gi_ltf &&& 0x0030) >>> 4)
        ((he_data5 bw_code gi_ltf &&& 0x00c0) >>> 6) = gi_ltf := by
  have hall : Upto 7 fun bw_code => Upto 5 fun gi_ltf =>
      he_data5 bw_code gi_ltf &&& 0x000f = bw_code.toUInt16 ∧
        giltf_code ((he_data5 bw_code gi_ltf &&& 0x0030) >>> 4)
          ((he_data5 bw_code gi_ltf &&& 0x00c0) >>> 6) = gi_ltf := by decide
  exact (hall.at hbw).at hgi

theorem data1_format {er : UInt8} (h : er ≤ 2) (dcm : Bool) :
    (he_data1 er dcm &&& 0x0003 = 0x0001) = (er ≠ 0) := by
  have hall : Upto 2 fun er => ∀ dcm,
      (he_data1 er dcm &&& 0x0003 = 0x0001 ↔ er ≠ 0) := by decide
  exact propext (hall.at h dcm)

theorem bw_code_small (er bw_mhz : UInt8) : he_bw_code er bw_mhz ≤ 7 := by
  unfold he_bw_code
  split_ifs <;> decide

theorem he_words_built (m : TxMode) (f : UInt16) (frame : Bytes) :
    he_word (build_he m f ++ frame) 10 0 = he_data1 m.he_er m.he_dcm ∧
      he_word (build_he m f ++ frame) 10 2 = he_data3 m.he_mcs m.ldpc m.stbc m.he_dcm ∧
      he_word (build_he m f ++ frame) 10 4 =
        he_data5 (he_bw_code m.he_er m.bw_mhz) m.he_gi_ltf ∧
      he_word (build_he m f ++ frame) 10 5 = (m.he_nss &&& 0x0f).toUInt16 := by
  refine ⟨?_, ?_, ?_, ?_⟩
  all_goals
    apply congrArg UInt16.ofBitVec
    apply rd16_emit
    intro i hi
    match i with
    | 0 | 1 => rfl

/-- The streams of a mode are in the range that they are clamped to. -/
theorem nss_clamp {nss : UInt8} (h1 : 1 ≤ nss) (h4 : nss ≤ 4) :
    (if (if nss.toUInt16 &&& 15 < 1 then 1 else nss.toUInt16 &&& 15) > 4 then 4
      else if nss.toUInt16 &&& 15 < 1 then 1 else nss.toUInt16 &&& 15) = nss.toUInt16 := by
  have hall : Upto 4 fun nss => 1 ≤ nss →
      (if (if nss.toUInt16 &&& 15 < 1 then 1 else nss.toUInt16 &&& 15) > 4 then 4
        else if nss.toUInt16 &&& 15 < 1 then 1 else nss.toUInt16 &&& 15) = nss.toUInt16 := by decide
  exact hall.at h4 h1

theorem plain_bw {m : TxMode} (hm : m.Legal) : m.he_er = 0 →
    (if (he_bw_code m.he_er m.bw_mhz).toUInt16 > 2 then 2
      else (he_bw_code m.he_er m.bw_mhz).toUInt16.toUInt8) =
        if m.bw_mhz = 40 then 1 else if m.bw_mhz = 20 then 0 else 2 := by
  intro her
  rw [her]
  rcases hm.bw with h | h | h | h <;> rw [h] <;> decide

/-- The code of the width tells the two extended ranges apart. -/
theorem er_ru {m : TxMode} (hm : m.Legal) (her : m.he_er ≠ 0) :
    decide ((he_bw_code m.he_er m.bw_mhz).toUInt16 = 6) = decide (m.he_er = 2) := by
  have hall : Upto 2 fun er => er ≠ 0 →
      decide ((he_bw_code er 20).toUInt16 = 6) = decide (er = 2) := by decide
  rw [(hm.er_su her).2.2]
  exact hall.at hm.er her

/-- The limits of the extended range leave a mode that keeps to them. -/
theorem er_clamp_legal {m : TxMode} (hm : m.Legal) (her : m.he_er ≠ 0) :
    er_clamp (m.he_er = 2) m.he_nss.toUInt16 m.he_mcs.toUInt16 =
      (m.he_nss.toUInt16, m.he_mcs.toUInt16) := by
  obtain ⟨hnss, hmcs, -⟩ := hm.er_su her
  have hall : Upto 2 fun er => Upto 11 fun mcs =>
      mcs ≤ er_mcs_max er → er_clamp (er = 2) 1 mcs.toUInt16 = (1, mcs.toUInt16) := by decide
  rw [hnss]
  exact (hall.at hm.er).at hm.he.2.2 hmcs

theorem dcm_fits_eq (er : Bool) {mcs : UInt8} (h : mcs ≤ 11) :
    dcm_fits er mcs.toUInt16 = dcm_mcs_ok er mcs := by
  have hall : Upto 11 fun mcs =>
      dcm_fits er mcs.toUInt16 = dcm_mcs_ok er mcs := by
    cases er <;> decide
  exact hall.at h

theorem dcm_fits_legal {m : TxMode} (hm : m.Legal) :
    (m.he_dcm && dcm_fits (m.he_er ≠ 0) m.he_mcs.toUInt16) = m.he_dcm ∧
      (m.stbc && !m.he_dcm) = m.stbc := by
  rw [dcm_fits_eq _ hm.he.2.2]
  cases hdcm : m.he_dcm with
  | false => simp
  | true =>
    obtain ⟨hok, hstbc⟩ := hm.dcm hdcm
    rw [hok, hstbc]
    exact ⟨rfl, rfl⟩

theorem mcs_fits {m : TxMode} (hm : m.Legal) : m.he_mcs.toUInt16 ≤ 11 := by
  have hall : Upto 11 fun mcs => mcs.toUInt16 ≤ 11 := by decide
  exact hall.at hm.he.2.2

theorem take_built_he {m : TxMode} (hm : m.Legal) (hhe : m.mode = .HE) (f : UInt16)
    (frame : Bytes) :
    take_he (build_he m f ++ frame) 10 {} =
      { rate_from_radiotap := true, he := true, tr := header_rate m } := by
  obtain ⟨hd1, hd3, hd5, hd6⟩ := he_words_built m f frame
  obtain ⟨h1, h4, h11⟩ := hm.he
  obtain ⟨hmcs, hldpc, hstbc, hdcm⟩ := data3_fields h11 m.ldpc m.stbc m.he_dcm
  obtain ⟨hbw, hgi⟩ := data5_fields (bw_code_small m.he_er m.bw_mhz) hm.gi_ltf
  obtain ⟨hfits, hexcl⟩ := dcm_fits_legal hm
  have hnss : m.he_nss &&& 0x0f = m.he_nss := nibble_small (UInt8.le_trans h4 (by decide))
  unfold take_he
  rw [hd1, hd3, hd5, hd6, hnss]
  unfold take_he_words header_rate
  simp only [hmcs, hldpc, hstbc, hdcm, hbw, hgi, data1_format hm.er, hhe, nss_clamp h1 h4,
    Bool.or_false]
  by_cases her : m.he_er = 0
  · have hplain := plain_bw hm her
    simp only [her, ne_eq, not_true_eq_false, decide_false] at hfits hplain ⊢
    simpa [hfits, hexcl, mcs_fits hm] using hplain
  · have hwidth := (hm.er_su her).2.2
    simp only [her, ne_eq, not_false_eq_true, decide_true, if_true] at hfits ⊢
    rw [er_ru hm her, er_clamp_legal hm her]
    simp [hfits, hexcl, hwidth, mcs_fits hm]

/-- The numbers of the descriptor, from the numbers of the driver. -/
theorem ax_rate_ht {mcs : UInt8} (h : mcs ≤ 31) :
    mgn_to_ax_rate (MGN_MCS0 + mcs) = 0x80 + mcs.toUInt16 := by
  have hall : Upto 31 fun mcs =>
      mgn_to_ax_rate (MGN_MCS0 + mcs) = 0x80 + mcs.toUInt16 := by decide
  exact hall.at h

theorem ax_rate_vht {nss mcs : UInt8} (h1 : 1 ≤ nss) (h4 : nss ≤ 4) (h9 : mcs ≤ 9) :
    mgn_to_ax_rate (MGN_VHT1SS_MCS0 + (nss - 1) * 10 + mcs) =
      0x100 + (nss.toUInt16 - 1) * 16 + mcs.toUInt16 := by
  have hall : Upto 4 fun nss => Upto 9 fun mcs =>
      1 ≤ nss → mgn_to_ax_rate (MGN_VHT1SS_MCS0 + (nss - 1) * 10 + mcs) =
        0x100 + (nss.toUInt16 - 1) * 16 + mcs.toUInt16 := by decide
  exact (hall.at h4).at h9 h1

theorem take_built_mcs {m : TxMode} (hm : m.Legal) (f : UInt16) (frame : Bytes) :
    take_mcs (build_ht m f ++ frame) 10 {} =
      { mgn := MGN_MCS0 + m.ht_mcs
        rate_from_radiotap := true
        tr := { bw := if m.bw_mhz ≥ 40 then 1 else 0, gi_ltf := m.sgi.toUInt8 } } := by
  have hknown : byteAt (build_ht m f ++ frame) 10 &&& 0x02 ≠ 0 := by
    rw [ht_known_octet]
    decide
  have hflags := ht_flags_octet m f frame
  have hbyte : byteAt (build_ht m f ++ frame) 12 = m.ht_mcs := if_pos hm.ht
  unfold take_mcs
  rw [if_pos hknown]
  simp only [hflags, hbyte]
  by_cases hbw : m.bw_mhz ≥ 40
  · cases m.sgi <;> cases m.ldpc <;> cases m.stbc <;> simp [hbw] <;> decide
  · cases m.sgi <;> cases m.ldpc <;> cases m.stbc <;> simp [hbw] <;> decide

theorem take_built_vht {m : TxMode} (hm : m.Legal) (f : UInt16) (frame : Bytes) :
    take_vht (build_vht m f ++ frame) 10 {} =
      { mgn := MGN_VHT1SS_MCS0 + (m.vht_nss - 1) * 10 + m.vht_mcs
        rate_from_radiotap := true
        tr := {
          bw := if m.bw_mhz = 40 then 1 else if m.bw_mhz = 20 then 0 else 2
          gi_ltf := m.sgi.toUInt8
          ldpc := m.ldpc
          stbc := m.stbc } } := by
  obtain ⟨h1, h4, h9⟩ := hm.vht
  have hknown := vht_known_octet m f frame
  have hflags := vht_flags_octet m f frame
  have hbw := vht_bw_octet m f frame
  have hrates := vht_rate_octet m f frame
  have hcoding := vht_coding_octet m f frame
  have hnss : m.vht_nss &&& 0x0f = m.vht_nss := nibble_small (UInt8.le_trans h4 (by decide))
  have hmcs : m.vht_mcs &&& 0x0f = m.vht_mcs := nibble_small (UInt8.le_trans h9 (by decide))
  have hhigh : byteAt (build_vht m f ++ frame) 14 >>> 4 &&& 0xf = m.vht_mcs := by
    rw [hrates, high_nibble, hmcs]
  have hlow : byteAt (build_vht m f ++ frame) 14 &&& 0xf = m.vht_nss := by
    rw [hrates, low_nibble, hnss]
  unfold take_vht
  simp only [hknown, hflags, hbw, hcoding, hhigh, hlow, if_pos (And.intro h1 (And.intro h4 h9)),
    Read.mk.injEq, TxRate.mk.injEq]
  refine ⟨trivial, trivial, trivial, trivial, trivial, ?_, ?_, ?_, ?_, trivial, trivial, trivial⟩
  · rcases hm.bw with h | h | h | h <;> rw [h] <;> decide
  · cases m.sgi <;> cases m.stbc <;> decide
  · cases m.ldpc <;> decide
  · cases m.sgi <;> cases m.stbc <;> decide

theorem read_built_rate {m : TxMode} (hm : m.Legal) (no_ack : Bool) {frame : Bytes}
    (hframe : frame ≠ []) :
    let s := read_header (build_stream_radiotap m no_ack ++ frame)
    s.rate_from_radiotap = true ∧
      (if s.he then s.tr else { s.tr with rate := mgn_to_ax_rate s.mgn }) = header_rate m := by
  dsimp only
  rw [read_built m no_ack hframe]
  unfold build_stream_radiotap
  cases hmode : m.mode with
  | Legacy =>
    simp [built_args, legacy_rate_octet, header_rate, hmode]
  | HT => simp [built_args, take_built_mcs hm, header_rate, hmode, ax_rate_ht hm.ht]
  | VHT =>
    obtain ⟨h1, h4, h9⟩ := hm.vht
    simp [built_args, take_built_vht hm, header_rate, hmode, ax_rate_vht h1 h4 h9]
  | HE => simp [built_args, take_built_he hm hmode]

/-- What a Kestrel sends behind the header of a mode. -/
theorem tx_rate_built {m : TxMode} (hm : m.Legal) (no_ack : Bool) {frame : Bytes}
    (hframe : frame ≠ []) (d : Option TxMode) :
    tx_rate d (build_stream_radiotap m no_ack ++ frame) = header_rate m := by
  obtain ⟨hfrom, hrate⟩ := read_built_rate hm no_ack hframe
  have hdefault : with_default d (read_header (build_stream_radiotap m no_ack ++ frame)) =
      read_header (build_stream_radiotap m no_ack ++ frame) := by
    unfold with_default
    cases d with
    | none => rfl
    | some d => exact if_pos (by rw [hfrom]; rfl)
  unfold tx_rate
  rw [hdefault]
  exact hrate

theorem ss_rate_toNat {base : UInt16} (hbase : base = 0x100 ∨ base = 0x180) {nss mcs : UInt8}
    (h4 : nss ≤ 4) (h11 : mcs ≤ 11) : 1 ≤ nss →
    (base + (nss.toUInt16 - 1) * 16 + mcs.toUInt16).toNat =
      base.toNat + (nss.toNat - 1) * 16 + mcs.toNat := by
  have hall : Upto 4 fun nss => Upto 11 fun mcs => 1 ≤ nss →
      (base + (nss.toUInt16 - 1) * 16 + mcs.toUInt16).toNat =
        base.toNat + (nss.toNat - 1) * 16 + mcs.toNat := by
    rcases hbase with rfl | rfl <;> decide
  exact (hall.at h4).at h11

theorem ht_rate_toNat {mcs : UInt8} (h : mcs ≤ 31) :
    (0x80 + mcs.toUInt16).toNat = 0x80 + mcs.toNat := by
  have hall : Upto 31 fun mcs =>
      (0x80 + mcs.toUInt16).toNat = 0x80 + mcs.toNat := by decide
  exact hall.at h

theorem legacy_air {rate : UInt8} (h : rate ∈ legacy_rates.map (·.2)) :
    ({ rate := mgn_to_ax_rate rate } : TxRate).air =
    ⟨.Legacy, rate.toNat, 1, 20, false, false, false⟩ := by
  obtain ⟨p, hp, rfl⟩ := List.mem_map.mp h
  revert p
  decide

theorem one_eq_toUInt8 (b : Bool) : decide (b.toUInt8 = 1) = b := by
  cases b <;> rfl

/-- The header of a mode airs on a Kestrel as on the other radios, and HE too, but HT goes out
without its coding, and VHT of 160 MHz at 80. -/
theorem header_rate_air {m : TxMode} (hm : m.Legal) :
    (header_rate m).air = { m.header_air with
      bw := if m.mode = .VHT ∧ m.bw_mhz = 160 then 80 else m.header_air.bw
      ldpc := m.header_air.ldpc && m.mode ≠ .HT
      stbc := m.header_air.stbc && m.mode ≠ .HT } := by
  unfold header_rate TxMode.header_air
  cases hmode : m.mode with
  | Legacy => exact (legacy_air hm.legacy).trans (by simp)
  | HT =>
    have hmcs := hm.ht
    have hrate := ht_rate_toNat hmcs
    simp only [UInt8.le_iff_toNat_le, UInt8.reduceToNat] at hmcs
    unfold TxRate.air TxRate.mhz
    simp only [hrate, one_eq_toUInt8]
    rw [if_neg (by omega), if_pos (by omega), AirRate.mk.injEq]
    refine ⟨rfl, by omega, by omega, ?_, rfl, by simp, by simp⟩
    split <;> rfl
  | VHT =>
    obtain ⟨h1, h4, h9⟩ := hm.vht
    have hrate := ss_rate_toNat (Or.inl rfl) h4 (UInt8.le_trans h9 (by decide)) h1
    simp only [UInt8.le_iff_toNat_le, UInt8.reduceToNat, UInt16.reduceToNat] at h1 h4 h9 hrate
    unfold TxRate.air TxRate.mhz
    simp only [hrate, one_eq_toUInt8]
    rw [if_neg (by omega), if_neg (by omega), if_pos (by omega), AirRate.mk.injEq]
    refine ⟨rfl, by omega, by omega, ?_, rfl, by simp, by simp⟩
    rcases hm.bw with h | h | h | h <;> simp [h]
  | HE =>
    obtain ⟨h1, h4, h11⟩ := hm.he
    have hrate := ss_rate_toNat (Or.inr rfl) h4 h11 h1
    simp only [UInt8.le_iff_toNat_le, UInt8.reduceToNat, UInt16.reduceToNat] at h1 h4 h11 hrate
    unfold TxRate.air TxRate.mhz
    simp only [hrate]
    rw [if_neg (by omega), if_neg (by omega), if_neg (by omega), AirRate.mk.injEq]
    refine ⟨rfl, by omega, by omega, ?_, rfl, by simp, by simp⟩
    rcases hm.bw with h | h | h | h <;> simp [h]

/-- A Kestrel clamps nothing of the header of a mode that keeps to the limits, and airs it as the
other radios would, HE too, but for the coding of HT and the width of VHT at 160 MHz. -/
theorem kestrel_reads_header {m : TxMode} (hm : m.Legal) (no_ack : Bool) {frame : Bytes}
    (hframe : frame ≠ []) (d : Option TxMode) :
    tx_rate d (build_stream_radiotap m no_ack ++ frame) = header_rate m ∧
      (header_rate m).air = { m.header_air with
        bw := if m.mode = .VHT ∧ m.bw_mhz = 160 then 80 else m.header_air.bw
        ldpc := m.header_air.ldpc && m.mode ≠ .HT
        stbc := m.header_air.stbc && m.mode ≠ .HT } :=
  ⟨tx_rate_built hm no_ack hframe d, header_rate_air hm⟩

def er_mode : TxMode := parse_tx_mode_str "HE1SS_MCS0/ER106/DCM/LDPC".toList

theorem er_mode_read : tx_rate none (build_stream_radiotap er_mode true ++ [0x88, 0]) =
      { rate := 0x180, gi_ltf := 3, ldpc := true, er := true, er_106 := true, dcm := true } :=
  (kestrel_reads_header (parse_tx_mode_legal _) true (by simp) none).1.trans (by decide)

/-! ## The mode that is set -/

/-- What the header of a mode can carry to a Kestrel. -/
def Carried (m : TxMode) : Prop :=
  match m.mode with
  | .Legacy => m.bw_mhz = 20 ∧ m.sgi = false ∧ m.ldpc = false ∧ m.stbc = false
  | .HT => m.bw_mhz ≤ 40 ∧ m.ldpc = false ∧ m.stbc = false
  | .VHT => True
  | .HE => m.bw_mhz ≠ 160

/-- A header without a rate leaves the variables of the rate as they start. -/
def Untouched (s : Read) : Prop := s.rate_from_radiotap = false → s.he = false ∧ s.tr = {}

theorem untouched_field (b : Bytes) {s : Read} (h : Untouched s) (a : Arg) :
    Untouched (take_field b s a) := by
  unfold take_field
  split
  · exact fun hfrom => by cases hfrom
  split
  · exact h
  split
  · exact fun hfrom => by cases hfrom
  split
  · exact fun hfrom => by cases hfrom
  split
  · exact fun hfrom => by cases hfrom
  · exact h

theorem untouched_header (packet : Bytes) : Untouched (read_header packet) := by
  unfold read_header
  generalize (handed_out packet (radiotap_hdr_len packet)).getD [] = args
  have hfold : ∀ s, Untouched s → Untouched (args.foldl (take_field packet) s) := by
    induction args with
    | nil => exact fun s h => h
    | cons a args ih => exact fun s h => ih _ (untouched_field packet h a)
  exact hfold {} fun _ => ⟨rfl, rfl⟩

/-- The rate of a mode that is set. -/
def default_rate (m : TxMode) : TxRate :=
  let bw := if m.bw_mhz = 40 then 1 else if m.bw_mhz = 20 then 0 else 2
  match m.mode with
  | .HE => { header_rate m with bw := if m.bw_mhz = 160 then 3 else bw }
  | _ => { header_rate m with bw, gi_ltf := m.sgi.toUInt8, ldpc := m.ldpc, stbc := m.stbc }

theorem dcm_fits_default (er : Bool) (mcs : UInt16) :
    (decide (mcs ≤ 1) || !er && (decide (mcs = 3) || decide (mcs = 4))) = dcm_fits er mcs := by
  cases er <;> simp [dcm_fits, Bool.or_assoc]

theorem er_mcs_default {m : TxMode} (hm : m.Legal) :
    (if m.he_er ≠ 0 ∧ m.he_mcs.toUInt16 > (if m.he_er = 2 then 0 else 2) then
      (if m.he_er = 2 then 0 else 2) else m.he_mcs.toUInt16) = m.he_mcs.toUInt16 := by
  have hall : Upto 2 fun er => Upto 11 fun mcs =>
      mcs ≤ er_mcs_max er → ¬ mcs.toUInt16 > (if er = 2 then 0 else 2) := by decide
  apply if_neg
  rintro ⟨her, hlong⟩
  exact (hall.at hm.er).at hm.he.2.2 (hm.er_su her).2.1 hlong

theorem he_default_rate {m : TxMode} (hm : m.Legal) (hhe : m.mode = .HE) {s : Read}
    (htr : s.tr = {}) :
    (he_default m s).tr = default_rate m := by
  obtain ⟨h1, h4, h11⟩ := hm.he
  obtain ⟨hfits, hexcl⟩ := dcm_fits_legal hm
  have hnss : (if m.he_nss < 1 then 1 else if m.he_nss > 4 then 4 else m.he_nss) = m.he_nss := by
    rw [if_neg (UInt8.not_lt.mpr h1), if_neg (UInt8.not_lt.mpr h4)]
  have hgi : m.he_gi_ltf &&& 0x7 = m.he_gi_ltf := by
    have hall : Upto 5 fun gi => gi &&& 0x7 = gi := by decide
    exact hall.at hm.gi_ltf
  have hmcs := er_mcs_default hm
  unfold he_default default_rate header_rate
  rw [htr]
  simp only [decide_eq_true_eq, hhe, if_pos h11, hnss, hgi, hmcs, dcm_fits_default, hfits, hexcl,
    Bool.or_false]
  by_cases her : m.he_er = 0
  · simp [her]
    rcases hm.bw with h | h | h | h <;> rw [h] <;> decide
  · obtain ⟨hone, -, hwidth⟩ := hm.er_su her
    simp [her, hone, hwidth]

/-- A mode other than HE comes by the parameters of the driver. -/
theorem params_rate {m : TxMode} (hm : m.Legal) (hhe : m.mode ≠ .HE) :
    let tp := tx_mode_to_params m
    ({ rate := mgn_to_ax_rate tp.fixed_rate
       bw :=
         if tp.bwidth = .CHANNEL_WIDTH_40 then 1 else if tp.bwidth = .CHANNEL_WIDTH_80 then 2 else 0
       gi_ltf := if tp.sgi ≠ 0 then 1 else 0
       ldpc := tp.ldpc ≠ 0
       stbc := tp.stbc ≠ 0 } : TxRate) = default_rate m := by
  have hbw : (if (tx_mode_to_params m).bwidth = .CHANNEL_WIDTH_40 then 1
      else if (tx_mode_to_params m).bwidth = .CHANNEL_WIDTH_80 then 2 else 0) =
        if m.bw_mhz = 40 then (1 : UInt8) else if m.bw_mhz = 20 then 0 else 2 := by
    unfold tx_mode_to_params
    rcases hm.bw with h | h | h | h <;> rw [h] <;> rfl
  have hgi : (if (tx_mode_to_params m).sgi ≠ 0 then 1 else 0) = m.sgi.toUInt8 := by
    unfold tx_mode_to_params
    cases m.sgi <;> rfl
  dsimp only
  rw [hbw, hgi]
  unfold tx_mode_to_params default_rate header_rate
  simp only [toUInt8_ne_zero]
  cases hmode : m.mode with
  | Legacy => rfl
  | HT =>
    dsimp only
    rw [if_pos hm.ht, ax_rate_ht hm.ht]
  | VHT =>
    obtain ⟨h1, h4, h9⟩ := hm.vht
    have hrate : vht_rate m.vht_nss m.vht_mcs =
        MGN_VHT1SS_MCS0 + (m.vht_nss - 1) * 10 + m.vht_mcs := by
      unfold vht_rate
      rw [if_neg (UInt8.not_lt.mpr h1), if_neg (UInt8.not_lt.mpr h4), if_neg (UInt8.not_lt.mpr h9)]
    dsimp only
    rw [hrate, ax_rate_vht h1 h4 h9]
  | HE => exact absurd hmode hhe

theorem tx_rate_rateless {m : TxMode} (hm : m.Legal) {rateless : Bytes}
    (h : (read_header rateless).rate_from_radiotap = false) :
    tx_rate (some m) rateless = default_rate m := by
  obtain ⟨hhe, htr⟩ := untouched_header rateless h
  have hleft : ¬ ((read_header rateless).rate_from_radiotap || (read_header rateless).he) =
      true := by
    rw [h, hhe]
    simp
  unfold tx_rate with_default
  dsimp only
  rw [if_neg hleft]
  by_cases hmode : m.mode = .HE
  · rw [if_pos hmode]
    exact he_default_rate hm hmode htr
  · rw [if_neg hmode]
    dsimp only
    rw [if_neg (by rw [hhe]; simp), htr]
    exact params_rate hm hmode

/-- Behind a header without a rate a Kestrel airs the mode that is set as behind the header of the
mode, exactly if that header can carry it. -/
theorem kestrel_default_iff {m : TxMode} (hm : m.Legal) (no_ack : Bool) {frame rateless : Bytes}
    (hframe : frame ≠ []) (h : (read_header rateless).rate_from_radiotap = false)
    (d : Option TxMode) :
    tx_rate (some m) rateless = tx_rate d (build_stream_radiotap m no_ack ++ frame) ↔
    Carried m := by
  rw [tx_rate_rateless hm h, tx_rate_built hm no_ack hframe]
  unfold default_rate header_rate Carried
  cases hmode : m.mode with
  | HE => rcases hm.bw with h | h | h | h <;> simp [h]
  | VHT => simp
  | HT =>
    rcases hm.bw with h | h | h | h <;> simp [h]
  | Legacy =>
    rcases hm.bw with h | h | h | h <;> cases m.sgi <;> simp [h, Bool.toUInt8]

/-- HE of 160 MHz, behind an empty header and behind its own. -/
theorem wide_he_differs :
    let m := parse_tx_mode_str "HE2SS_MCS11/160".toList
    tx_rate (some m) [0, 0, 8, 0, 0, 0, 0, 0, 0x88, 0] ≠
      tx_rate none (build_stream_radiotap m true ++ [0x88, 0]) := by
  have hmode : parse_tx_mode_str "HE2SS_MCS11/160".toList =
      { mode := .HE, he_mcs := 11, he_nss := 2, bw_mhz := 160 } := by
    decide
  have hframe : ([0x88, 0] : Bytes) ≠ [] := by simp
  have hrateless : (read_header [0, 0, 8, 0, 0, 0, 0, 0, 0x88, 0]).rate_from_radiotap = false := by
    decide
  have hiff := kestrel_default_iff (parse_tx_mode_legal "HE2SS_MCS11/160".toList) true hframe
    hrateless none
  intro m h
  have hcarried : Carried m := hiff.mp h
  simp [m, hmode, Carried] at hcarried

end devourer.kestrel
