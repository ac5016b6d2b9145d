-- CCMP framing: the authenticated data, the nonce and the CCMP header that
-- are built from one 802.11 header, and the protected frame around them.
import Devourer.Sta.CryptoOps
import Devourer.Sta.Dot11

namespace devourer.sta

def kCcmpHdrLen : Nat := 8
def kCcmpMicLen : Nat := 8
def kCcmpPnMax : UInt64 := 0xffffffffffff
def SIZE_MAX : Nat := 0xffffffffffffffff

/-! ## What the frame control says -/

/-- ToDS and FromDS: a fourth address follows. -/
def four_addr (hdr : Bytes) : Bool :=
  byteAt hdr 1 &&& (kFcToDs ||| kFcFromDs) == kFcToDs ||| kFcFromDs

def is_mgmt (hdr : Bytes) : Bool := byteAt hdr 0 &&& 0x0c == 0x00

/-- Where QoS Control stands. -/
def qos_off (hdr : Bytes) : Nat := if four_addr hdr then 30 else 24

/-- The header length that the frame control implies, without HT Control. -/
def ccmp_need (hdr : Bytes) : Nat :=
  24 + (if four_addr hdr then 6 else 0) + (if is_qos_data (byteAt hdr 0) then 2 else 0)

/-! ## AAD, nonce and header -/

/-- The frame control as the AAD carries it. -/
def ccmp_aad_fc (fc0 fc1 : UInt8) : UInt16 :=
  let fc := fc0.toUInt16 ||| (fc1.toUInt16 <<< 8)
  let fc := if fc0 &&& 0x0c ≠ 0x00 then fc &&& ~~~0x0070 else fc
  let fc := fc &&& ~~~(0x0800 ||| 0x1000 ||| 0x2000)
  let fc := if is_qos_data fc0 then fc &&& ~~~0x8000 else fc
  fc ||| 0x4000

/-- `none` is a header too short for its frame control. -/
def ccmp_aad (hdr : Bytes) (hdr_len : Nat) : Option Bytes :=
  if hdr_len < 24 then none
  else if hdr_len < ccmp_need hdr then none
  else
    let fc := ccmp_aad_fc (byteAt hdr 0) (byteAt hdr 1)
    let seq := get_le16 hdr 22 &&& 0x000f
    some
      ([fc.toUInt8, (fc >>> 8).toUInt8] ++ (Octets.slice hdr 4 18).val ++
        [seq.toUInt8, (seq >>> 8).toUInt8] ++
        (if four_addr hdr then (Octets.slice hdr 24 6).val else []) ++
        (if is_qos_data (byteAt hdr 0) then [byteAt hdr (qos_off hdr) &&& 0x0f, 0] else []))

/-- The nonce flags: the TID of a QoS data frame, and the management bit. -/
def ccmp_nonce_flags (hdr : Bytes) : UInt8 :=
  let flags := if is_qos_data (byteAt hdr 0) then byteAt hdr (qos_off hdr) &&& 0x0f else 0
  if is_mgmt hdr then flags ||| 0x10 else flags

/-- Flags, A2, and the PN big-endian. -/
def ccmp_nonce (hdr : Bytes) (hdr_len : Nat) (a2 : Mac) (pn : UInt64) : Option (Octets 13) :=
  if hdr_len < 24 then none
  else if hdr_len < ccmp_need hdr then none
  else
    some ⟨[ccmp_nonce_flags hdr] ++ a2.val ++
      (List.range 6).map (fun i => ((pn >>> (8 * (5 - i)).toUInt64) &&& 0xff).toUInt8), by
        simp [a2.property]⟩

/-- The CCMP header: the PN little-endian in two pieces around the key id octet. -/
def ccmp_header (pn : UInt64) (key_id : UInt8) : Bytes :=
  let ext_iv_key_id := (0x20 : UInt8) ||| ((key_id &&& 0x03) <<< 6)
  [(pn &&& 0xff).toUInt8, ((pn >>> 8) &&& 0xff).toUInt8, 0, ext_iv_key_id,
   ((pn >>> 16) &&& 0xff).toUInt8, ((pn >>> 24) &&& 0xff).toUInt8,
   ((pn >>> 32) &&& 0xff).toUInt8, ((pn >>> 40) &&& 0xff).toUInt8]

def ccmp_header_pn (ccmp_hdr : Bytes) : UInt64 :=
  (byteAt ccmp_hdr 0).toUInt64 ||| ((byteAt ccmp_hdr 1).toUInt64 <<< 8) |||
    ((byteAt ccmp_hdr 4).toUInt64 <<< 16) ||| ((byteAt ccmp_hdr 5).toUInt64 <<< 24) |||
    ((byteAt ccmp_hdr 6).toUInt64 <<< 32) ||| ((byteAt ccmp_hdr 7).toUInt64 <<< 40)

def ccmp_key_id (ccmp_hdr : Bytes) : UInt8 := (byteAt ccmp_hdr 3 >>> 6) &&& 0x03

/-! ## Protect and unprotect -/

/-- Zero is a sum that does not fit. -/
def ccmp_encrypted_len (hdr_len plain_len : Nat) : Nat :=
  let overhead := kCcmpHdrLen + kCcmpMicLen
  if hdr_len > SIZE_MAX - overhead ∨ plain_len > SIZE_MAX - overhead - hdr_len then 0
  else hdr_len + overhead + plain_len

/-- Zero is a frame too short for a CCMP header, a tag and a body. -/
def ccmp_decrypted_len (mpdu_len hdr_len : Nat) : Nat :=
  let overhead := kCcmpHdrLen + kCcmpMicLen
  if hdr_len ≥ mpdu_len ∨ mpdu_len - hdr_len ≤ overhead then 0 else mpdu_len - hdr_len - overhead

/-- `out` is false for a null output pointer. The result is what stands in `out`, and
`none` is the return of 0. -/
def ccmp_encrypt (crypto : CryptoOps) (tk : Octets 16) (hdr : Bytes) (a2 : Mac) (pn : UInt64)
    (key_id : UInt8) (plain : Bytes) (out : Bool) (out_cap : UInt64) : Option Bytes :=
  let need := ccmp_encrypted_len hdr.length plain.length
  if pn > kCcmpPnMax then none
  else if need = 0 ∨ !out ∨ out_cap.toNat < need then none
  else
    match ccmp_aad hdr hdr.length, ccmp_nonce hdr hdr.length a2 pn with
    | some aad, some nonce =>
      match crypto.aes_ccm_encrypt tk nonce aad plain with
      | none => none
      | some (c, tag) =>
        some (hdr.set 1 (byteAt hdr 1 ||| 0x40) ++ (ccmp_header pn key_id ++ (c ++ tag.val)))
    | _, _ => none

/-- The result is the plaintext and the PN. An empty body goes to a scratch byte, so only
a body that is not empty needs `out`. -/
def ccmp_decrypt (crypto : CryptoOps) (tk : Octets 16) (mpdu : Bytes) (hdr_len : Nat) (a2 : Mac)
    (out : Bool) (out_cap : UInt64) : Option (Bytes × UInt64) :=
  let overhead := kCcmpHdrLen + kCcmpMicLen
  if hdr_len > mpdu.length ∨ mpdu.length - hdr_len < overhead then none
  else
    let body := mpdu.length - hdr_len - overhead
    let ccmp := mpdu.drop hdr_len
    if out_cap.toNat < body then none
    else if body > 0 ∧ !out then none
    else if byteAt mpdu 1 &&& kFcProtected = 0 then none
    else if byteAt ccmp 3 &&& 0x20 = 0 then none
    else
      let pn := ccmp_header_pn ccmp
      match ccmp_aad mpdu hdr_len, ccmp_nonce mpdu hdr_len a2 pn with
      | some aad, some nonce =>
        let tag := Octets.slice ccmp (kCcmpHdrLen + body) 8
        (crypto.aes_ccm_decrypt tk nonce aad ((ccmp.drop kCcmpHdrLen).take body) tag).map (·, pn)
      | _, _ => none

/-! ## The header bits that CCMP leaves free -/

/-- The bits of header byte `i` that may change on the way: Retry, Pwr Mgmt and More Data,
the Order bit of a QoS data frame, Duration, the sequence number, all of QoS Control but
the TID, and HT Control, which follows the fields that the frame control implies. -/
def mutable_bits (hdr : Bytes) (i : Nat) : UInt8 :=
  let qos := is_qos_data (byteAt hdr 0)
  if i = 1 then 0x38 ||| (if qos then 0x80 else 0)
  else if i = 2 ∨ i = 3 then 0xff
  else if i = 22 then 0xf0
  else if i = 23 then 0xff
  else if qos ∧ i = qos_off hdr then 0xf0
  else if qos ∧ i = qos_off hdr + 1 then 0xff
  else if ccmp_need hdr ≤ i then 0xff
  else 0

/-- `f'` is `f` with a header that differs in mutable bits alone. -/
structure MutableChange (hdr_len : Nat) (f f' : Bytes) : Prop where
  length : f'.length = f.length
  header : ∀ i, i < hdr_len →
    byteAt f' i &&& ~~~mutable_bits f i = byteAt f i &&& ~~~mutable_bits f i
  body : f'.drop hdr_len = f.drop hdr_len

theorem mutableChange_refl (hdr_len : Nat) (f : Bytes) : MutableChange hdr_len f f :=
  ⟨rfl, fun _ _ => rfl, rfl⟩

/-! ## The AAD and the nonce read no mutable bit -/

/-- The bits of `k` are the same in both bytes, when they are outside the mask `m` outside
of which the bytes agree. -/
theorem and_of_masked {x y m k : UInt8} (h : x &&& ~~~m = y &&& ~~~m) (hk : ~~~m &&& k = k) :
    x &&& k = y &&& k := by
  rw [← hk, ← UInt8.and_assoc, h, UInt8.and_assoc]

/-- A 16-bit field from its two octets. -/
def le16 (lo hi : UInt8) : UInt16 := lo.toUInt16 ||| (hi.toUInt16 <<< 8)

theorem toBitVec_le16 (lo hi : UInt8) :
    (le16 lo hi).toBitVec = lo.toBitVec.setWidth 16 ||| (hi.toBitVec.setWidth 16) <<< 8 := rfl

theorem getLsbD_le16 (lo hi : UInt8) {i : Nat} (h : i < 16) :
    (le16 lo hi).toBitVec.getLsbD i =
      if i < 8 then lo.toBitVec.getLsbD i else hi.toBitVec.getLsbD (i - 8) := by
  rw [toBitVec_le16]
  simp only [BitVec.getLsbD_or, BitVec.getLsbD_shiftLeft, BitVec.getLsbD_setWidth]
  by_cases h8 : i < 8
  · simp [h8, h]
  · have hlo : lo.toBitVec.getLsbD i = false := BitVec.getLsbD_of_ge _ _ (by omega)
    have h16 : i - 8 < 16 := by omega
    simp [h8, h, hlo, h16]

theorem le16_and (x y lo hi : UInt8) : le16 x y &&& le16 lo hi = le16 (x &&& lo) (y &&& hi) := by
  apply UInt16.toBitVec_inj.mp
  apply BitVec.eq_of_getLsbD_eq
  intro i h
  rw [UInt16.toBitVec_and, BitVec.getLsbD_and]
  simp only [getLsbD_le16 _ _ h, UInt8.toBitVec_and, BitVec.getLsbD_and]
  split <;> rfl

theorem le16_or (x y lo hi : UInt8) : le16 x y ||| le16 lo hi = le16 (x ||| lo) (y ||| hi) := by
  apply UInt16.toBitVec_inj.mp
  apply BitVec.eq_of_getLsbD_eq
  intro i h
  rw [UInt16.toBitVec_or, BitVec.getLsbD_or]
  simp only [getLsbD_le16 _ _ h, UInt8.toBitVec_or, BitVec.getLsbD_or]
  split <;> rfl

/-- A bit that is set anyway need not be read. -/
theorem and_or_absorb (y k c : UInt8) : (y &&& (k ||| c)) ||| c = (y &&& k) ||| c := by
  apply UInt8.toBitVec_inj.mp
  apply BitVec.eq_of_getLsbD_eq
  intro i _
  simp only [UInt8.toBitVec_or, UInt8.toBitVec_and, BitVec.getLsbD_or, BitVec.getLsbD_and]
  cases y.toBitVec.getLsbD i <;> cases k.toBitVec.getLsbD i <;> cases c.toBitVec.getLsbD i <;> rfl

/-- The bits of the second frame-control octet that the AAD reads. -/
def fc1_read (fc0 : UInt8) : UInt8 := if is_qos_data fc0 then 0x07 else 0x87

theorem ccmp_aad_fc_eq (fc0 fc1 : UInt8) :
    ccmp_aad_fc fc0 fc1 =
      le16 (if fc0 &&& 0x0c ≠ 0x00 then fc0 &&& 0x8f else fc0)
        ((fc1 &&& fc1_read fc0) ||| 0x40) := by
  have hsub : ∀ x : UInt8, x &&& 0xff = x := fun x => UInt8.and_neg_one
  have hlo : ∀ x : UInt8, x ||| 0x00 = x := fun x => UInt8.or_zero
  -- The masks of the source, octet by octet.
  have m1 : (~~~0x0070 : UInt16) = le16 0x8f 0xff := rfl
  have m2 : (~~~(0x0800 ||| 0x1000 ||| 0x2000) : UInt16) = le16 0xff 0xc7 := rfl
  have m3 : (~~~0x8000 : UInt16) = le16 0xff 0x7f := rfl
  have m4 : (0x4000 : UInt16) = le16 0x00 0x40 := rfl
  have hq : (fc1 &&& 0xc7 &&& 0x7f) ||| 0x40 = (fc1 &&& 0x07) ||| 0x40 := by
    rw [UInt8.and_assoc]
    exact and_or_absorb fc1 0x07 0x40
  have hn : (fc1 &&& 0xc7) ||| 0x40 = (fc1 &&& 0x87) ||| 0x40 := and_or_absorb fc1 0x87 0x40
  unfold ccmp_aad_fc fc1_read
  show (if is_qos_data fc0 = true then
      ((if fc0 &&& 0x0c ≠ 0x00 then le16 fc0 fc1 &&& ~~~0x0070 else le16 fc0 fc1) &&&
        ~~~(0x0800 ||| 0x1000 ||| 0x2000)) &&& ~~~0x8000
    else (if fc0 &&& 0x0c ≠ 0x00 then le16 fc0 fc1 &&& ~~~0x0070 else le16 fc0 fc1) &&&
      ~~~(0x0800 ||| 0x1000 ||| 0x2000)) ||| 0x4000 = _
  rw [m1, m2, m3, m4]
  by_cases hd : fc0 &&& 0x0c ≠ 0x00
  · by_cases hqos : is_qos_data fc0 = true
    · simp only [if_pos hd, if_pos hqos, le16_and, le16_or, hsub, hlo, hq]
    · simp only [if_pos hd, if_neg hqos, le16_and, le16_or, hsub, hlo, hn]
  · by_cases hqos : is_qos_data fc0 = true
    · simp only [if_neg hd, if_pos hqos, le16_and, le16_or, hsub, hlo, hq]
    · simp only [if_neg hd, if_neg hqos, le16_and, le16_or, hsub, hlo, hn]

/-- The fragment number is all that the AAD reads of Sequence Control. -/
theorem seq_read (hdr : Bytes) :
    get_le16 hdr 22 &&& 0x000f = le16 (byteAt hdr 22 &&& 0x0f) 0 := by
  have hz : byteAt hdr 23 &&& 0 = 0 := UInt8.and_zero
  show le16 (byteAt hdr 22) (byteAt hdr 23) &&& le16 0x0f 0x00 = _
  rw [le16_and, hz]

/-- Two headers that CCMP cannot tell apart: they agree in the bits that it reads. -/
structure SameHeader (a b : Bytes) : Prop where
  fc0 : byteAt b 0 = byteAt a 0
  fc1 : byteAt b 1 &&& fc1_read (byteAt a 0) = byteAt a 1 &&& fc1_read (byteAt a 0)
  addrs : ∀ i, i < 18 → byteAt b (4 + i) = byteAt a (4 + i)
  frag : byteAt b 22 &&& 0x0f = byteAt a 22 &&& 0x0f
  addr4 : four_addr a = true → ∀ i, i < 6 → byteAt b (24 + i) = byteAt a (24 + i)
  tid : is_qos_data (byteAt a 0) = true →
    byteAt b (qos_off a) &&& 0x0f = byteAt a (qos_off a) &&& 0x0f

namespace SameHeader

theorem four_addr_eq {a b : Bytes} (h : SameHeader a b) : four_addr b = four_addr a := by
  have hds : fc1_read (byteAt a 0) &&& (kFcToDs ||| kFcFromDs) = kFcToDs ||| kFcFromDs := by
    unfold fc1_read
    split <;> rfl
  unfold four_addr
  rw [← hds, ← UInt8.and_assoc, ← UInt8.and_assoc, h.fc1]

theorem need_eq {a b : Bytes} (h : SameHeader a b) : ccmp_need b = ccmp_need a := by
  unfold ccmp_need
  rw [h.four_addr_eq, h.fc0]

theorem qos_off_eq {a b : Bytes} (h : SameHeader a b) : qos_off b = qos_off a := by
  unfold qos_off
  rw [h.four_addr_eq]

theorem trans {a b c : Bytes} (h : SameHeader a b) (h' : SameHeader b c) : SameHeader a c := by
  have hfc1 := h'.fc1
  rw [h.fc0] at hfc1
  have htid := h'.tid
  rw [h.fc0, h.qos_off_eq] at htid
  refine ⟨h'.fc0.trans h.fc0, hfc1.trans h.fc1, ?_, h'.frag.trans h.frag, ?_, ?_⟩
  · intro i hi
    exact (h'.addrs i hi).trans (h.addrs i hi)
  · intro hf i hi
    exact (h'.addr4 (by rw [h.four_addr_eq, hf]) i hi).trans (h.addr4 hf i hi)
  · intro hq
    exact (htid hq).trans (h.tid hq)

theorem aad_eq {a b : Bytes} (h : SameHeader a b) (hdr_len : Nat) :
    ccmp_aad b hdr_len = ccmp_aad a hdr_len := by
  have hfc : ccmp_aad_fc (byteAt b 0) (byteAt b 1) = ccmp_aad_fc (byteAt a 0) (byteAt a 1) := by
    rw [ccmp_aad_fc_eq, ccmp_aad_fc_eq, h.fc0, h.fc1]
  have hseq : get_le16 b 22 &&& 0x000f = get_le16 a 22 &&& 0x000f := by
    rw [seq_read, seq_read, h.frag]
  have haddrs : Octets.slice b 4 18 = Octets.slice a 4 18 := Octets.slice_congr h.addrs
  have haddr4 : (if four_addr a then (Octets.slice b 24 6).val else []) =
      if four_addr a then (Octets.slice a 24 6).val else [] := by
    by_cases hf : four_addr a = true
    · rw [if_pos hf, if_pos hf, Octets.slice_congr (h.addr4 hf)]
    · rw [if_neg hf, if_neg hf]
  have hqos : (if is_qos_data (byteAt a 0) then [byteAt b (qos_off a) &&& 0x0f, 0] else []) =
      if is_qos_data (byteAt a 0) then [byteAt a (qos_off a) &&& 0x0f, 0] else [] := by
    by_cases hq : is_qos_data (byteAt a 0) = true
    · rw [if_pos hq, if_pos hq, h.tid hq]
    · rw [if_neg hq, if_neg hq]
  unfold ccmp_aad
  rw [h.need_eq, h.four_addr_eq, h.qos_off_eq, hfc, hseq, haddrs, haddr4, h.fc0, hqos]

theorem nonce_eq {a b : Bytes} (h : SameHeader a b) (hdr_len : Nat) (a2 : Mac) (pn : UInt64) :
    ccmp_nonce b hdr_len a2 pn = ccmp_nonce a hdr_len a2 pn := by
  have hflags : ccmp_nonce_flags b = ccmp_nonce_flags a := by
    unfold ccmp_nonce_flags is_mgmt
    rw [h.fc0, h.qos_off_eq]
    by_cases hq : is_qos_data (byteAt a 0) = true
    · rw [if_pos hq, if_pos hq, h.tid hq]
    · rw [if_neg hq, if_neg hq]
  unfold ccmp_nonce
  rw [h.need_eq]
  simp only [hflags]

end SameHeader

/-! ## The CCMP header read back -/

/-- One octet of the PN, put back where it was. -/
theorem getLsbD_pn_byte (x s : UInt64) (hs : s.toNat < 64) {i : Nat} (hi : i < 64) :
    (((x >>> s) &&& 0xff).toUInt8.toUInt64 <<< s).toBitVec.getLsbD i =
      (decide (s.toNat ≤ i ∧ i < s.toNat + 8) && x.toBitVec.getLsbD i) := by
  have hmod : (s.toBitVec % 64).toNat = s.toNat := by
    rw [BitVec.toNat_umod]
    exact Nat.mod_eq_of_lt hs
  have hff : (0xff : UInt64).toBitVec.getLsbD (i - s.toNat) = decide (i - s.toNat < 8) := by
    show (BitVec.ofNat 64 (2 ^ 8 - 1)).getLsbD (i - s.toNat) = _
    rw [BitVec.getLsbD_ofNat, Nat.testBit_two_pow_sub_one]
    simp only [Bool.and_eq_right_iff_imp, decide_eq_true_eq]
    omega
  simp only [UInt64.toBitVec_shiftLeft, UInt8.toBitVec_toUInt64, UInt64.toBitVec_toUInt8,
    UInt64.toBitVec_and, UInt64.toBitVec_shiftRight, BitVec.shiftLeft_eq', BitVec.ushiftRight_eq',
    hmod, BitVec.getLsbD_shiftLeft, BitVec.getLsbD_setWidth, BitVec.getLsbD_and,
    BitVec.getLsbD_ushiftRight, hff]
  by_cases h1 : s.toNat ≤ i
  · rw [show s.toNat + (i - s.toNat) = i by omega]
    by_cases h2 : i < s.toNat + 8
    · simp [h1, h2, hi, show i - s.toNat < 8 by omega, show i - s.toNat < 64 by omega,
        Nat.not_lt.mpr h1]
    · simp [h2, show ¬i - s.toNat < 8 by omega]
  · simp [h1, Nat.lt_of_not_le h1]

theorem ccmp_header_pn_read {pn : UInt64} (hpn : pn ≤ kCcmpPnMax) (key_id : UInt8) (rest : Bytes) :
    ccmp_header_pn (ccmp_header pn key_id ++ rest) = pn := by
  have hread : ccmp_header_pn (ccmp_header pn key_id ++ rest) =
      ((pn >>> 0) &&& 0xff).toUInt8.toUInt64 <<< 0 |||
        ((pn >>> 8) &&& 0xff).toUInt8.toUInt64 <<< 8 |||
        ((pn >>> 16) &&& 0xff).toUInt8.toUInt64 <<< 16 |||
        ((pn >>> 24) &&& 0xff).toUInt8.toUInt64 <<< 24 |||
        ((pn >>> 32) &&& 0xff).toUInt8.toUInt64 <<< 32 |||
        ((pn >>> 40) &&& 0xff).toUInt8.toUInt64 <<< 40 := by
    rw [UInt64.shiftRight_zero, UInt64.shiftLeft_zero]
    rfl
  rw [hread]
  apply UInt64.toBitVec_inj.mp
  apply BitVec.eq_of_getLsbD_eq
  intro i hi
  -- Above bit 47 there is nothing to read back.
  have hhigh : 48 ≤ i → pn.toBitVec.getLsbD i = false := by
    intro h48
    have hlt : pn.toNat < 2 ^ 48 := by
      have := UInt64.le_iff_toNat_le.mp hpn
      have hmax : kCcmpPnMax.toNat = 2 ^ 48 - 1 := rfl
      omega
    exact Nat.testBit_lt_two_pow (Nat.lt_of_lt_of_le hlt (Nat.pow_le_pow_right (by decide) h48))
  simp only [UInt64.toBitVec_or, BitVec.getLsbD_or]
  rw [getLsbD_pn_byte pn 0 (by decide) hi, getLsbD_pn_byte pn 8 (by decide) hi,
    getLsbD_pn_byte pn 16 (by decide) hi, getLsbD_pn_byte pn 24 (by decide) hi,
    getLsbD_pn_byte pn 32 (by decide) hi, getLsbD_pn_byte pn 40 (by decide) hi]
  cases hb : pn.toBitVec.getLsbD i with
  | false => simp
  | true =>
    have hlow : i < 48 := by
      by_contra hn
      rw [hhigh (by omega)] at hb
      cases hb
    simp only [Bool.and_true, Bool.or_eq_true, decide_eq_true_eq]
    simp only [show (0 : UInt64).toNat = 0 from rfl, show (8 : UInt64).toNat = 8 from rfl,
      show (16 : UInt64).toNat = 16 from rfl, show (24 : UInt64).toNat = 24 from rfl,
      show (32 : UInt64).toNat = 32 from rfl, show (40 : UInt64).toNat = 40 from rfl]
    omega

theorem key_id_cases {k : UInt8} (h : k < 4) : k = 0 ∨ k = 1 ∨ k = 2 ∨ k = 3 := by
  have hn : k.toNat < 4 := UInt8.lt_iff_toNat_lt.mp h
  rcases (by omega : k.toNat = 0 ∨ k.toNat = 1 ∨ k.toNat = 2 ∨ k.toNat = 3) with h1 | h1 | h1 | h1
  · exact Or.inl (UInt8.toNat_inj.mp h1)
  · exact Or.inr (Or.inl (UInt8.toNat_inj.mp h1))
  · exact Or.inr (Or.inr (Or.inl (UInt8.toNat_inj.mp h1)))
  · exact Or.inr (Or.inr (Or.inr (UInt8.toNat_inj.mp h1)))

theorem ccmp_key_id_read (pn : UInt64) {key_id : UInt8} (h : key_id < 4) (rest : Bytes) :
    ccmp_key_id (ccmp_header pn key_id ++ rest) = key_id ∧
      byteAt (ccmp_header pn key_id ++ rest) 3 &&& 0x20 ≠ 0 := by
  have hbyte : byteAt (ccmp_header pn key_id ++ rest) 3 =
      (0x20 : UInt8) ||| ((key_id &&& 0x03) <<< 6) := rfl
  unfold ccmp_key_id
  rw [hbyte]
  rcases key_id_cases h with rfl | rfl | rfl | rfl
  · decide
  · decide
  · decide
  · decide

/-! ## The round trip -/

/-- What the framing asks of the cipher: it encrypts, and decryption under the same key,
nonce and AAD inverts it. -/
structure CcmWorks (crypto : CryptoOps) : Prop where
  encrypts : ∀ key nonce aad plain, (crypto.aes_ccm_encrypt key nonce aad plain).isSome
  inverts : ∀ key nonce aad plain c tag,
    crypto.aes_ccm_encrypt key nonce aad plain = some (c, tag) →
    crypto.aes_ccm_decrypt key nonce aad c tag = some plain

theorem byteAt_set_self {b : Bytes} {i : Nat} (x : UInt8) (h : i < b.length) :
    byteAt (b.set i x) i = x := by
  unfold byteAt
  rw [List.getD_eq_getElem?_getD, List.getElem?_set_self h]
  rfl

/-- The bytes of a protected frame's header: those of the original one, Protected set. -/
theorem byteAt_protected {hdr : Bytes} (rest : Bytes) (hlen : 24 ≤ hdr.length) {i : Nat}
    (hi : i < hdr.length) :
    byteAt (hdr.set 1 (byteAt hdr 1 ||| 0x40) ++ rest) i =
      if i = 1 then byteAt hdr 1 ||| 0x40 else byteAt hdr i := by
  rw [byteAt_append_left _ (by rw [List.length_set]; exact hi)]
  by_cases h1 : i = 1
  · rw [if_pos h1, h1, byteAt_set_self _ (by omega)]
  · rw [if_neg h1, byteAt_set_ne _ (fun h => h1 h.symm)]

/-- The frame on the air has a header that CCMP cannot tell from the original. -/
theorem sameHeader_protected {hdr : Bytes} (rest : Bytes) (hneed : ccmp_need hdr ≤ hdr.length) :
    SameHeader hdr (hdr.set 1 (byteAt hdr 1 ||| 0x40) ++ rest) := by
  have hlen : 24 ≤ hdr.length := by
    unfold ccmp_need at hneed
    omega
  have hat : ∀ i, i < hdr.length → i ≠ 1 →
      byteAt (hdr.set 1 (byteAt hdr 1 ||| 0x40) ++ rest) i = byteAt hdr i := by
    intro i hi h1
    rw [byteAt_protected rest hlen hi, if_neg h1]
  have hprot : (byteAt hdr 1 ||| 0x40) &&& fc1_read (byteAt hdr 0) =
      byteAt hdr 1 &&& fc1_read (byteAt hdr 0) := by
    apply UInt8.toBitVec_inj.mp
    apply BitVec.eq_of_getLsbD_eq
    intro i hi
    simp only [UInt8.toBitVec_and, UInt8.toBitVec_or, BitVec.getLsbD_and, BitVec.getLsbD_or]
    by_cases h6 : i = 6
    · have hread : (fc1_read (byteAt hdr 0)).toBitVec.getLsbD 6 = false := by
        unfold fc1_read
        split <;> rfl
      rw [h6, hread]
      simp
    · have h40 : (0x40 : UInt8).toBitVec.getLsbD i = false := by
        show (BitVec.twoPow 8 6).getLsbD i = false
        rw [BitVec.getLsbD_twoPow]
        simp only [Bool.and_eq_false_imp, decide_eq_true_eq, decide_eq_false_iff_not]
        omega
      rw [h40, Bool.or_false]
  have hoff : is_qos_data (byteAt hdr 0) = true → qos_off hdr < hdr.length ∧ qos_off hdr ≠ 1 := by
    intro hq
    unfold ccmp_need at hneed
    unfold qos_off
    rw [if_pos hq] at hneed
    split at hneed <;> rename_i hf <;>
      simp only [hf, if_true, Bool.false_eq_true, if_false] <;> omega
  refine ⟨hat 0 (by omega) (by decide), ?_, ?_, ?_, ?_, ?_⟩
  · rw [byteAt_protected rest hlen (by omega), if_pos rfl, hprot]
  · intro i hi
    exact hat _ (by omega) (by omega)
  · rw [hat 22 (by omega) (by decide)]
  · intro hf i hi
    refine hat _ ?_ (by omega)
    unfold ccmp_need at hneed
    rw [if_pos hf] at hneed
    omega
  · intro hq
    obtain ⟨h1, h2⟩ := hoff hq
    rw [hat _ h1 h2]

/-- No bit of the addresses is mutable. -/
theorem mutable_bits_addr {hdr : Bytes} {i : Nat} (h : i = 0 ∨ (4 ≤ i ∧ i < 22) ∨
    (four_addr hdr = true ∧ 24 ≤ i ∧ i < 30)) : mutable_bits hdr i = 0 := by
  have hoff : i ≠ qos_off hdr ∧ i ≠ qos_off hdr + 1 ∧ ¬ccmp_need hdr ≤ i := by
    unfold qos_off ccmp_need
    by_cases hf : four_addr hdr = true
    · simp only [if_pos hf]
      omega
    · simp only [if_neg hf]
      have : i < 22 := by
        rcases h with h | h | h
        · omega
        · omega
        · exact absurd h.1 hf
      omega
  unfold mutable_bits
  dsimp only
  rw [if_neg (by omega), if_neg (by omega), if_neg (by omega), if_neg (by omega),
    if_neg (fun hq => hoff.1 hq.2), if_neg (fun hq => hoff.2.1 hq.2), if_neg hoff.2.2]

/-- A change of mutable bits leaves a header that CCMP cannot tell from the one before. -/
theorem sameHeader_mutable {hdr_len : Nat} {f f' : Bytes} (h : MutableChange hdr_len f f')
    (hneed : ccmp_need f ≤ hdr_len) : SameHeader f f' := by
  have hlen : 24 ≤ hdr_len := by
    unfold ccmp_need at hneed
    omega
  have hsame : ∀ i, i < hdr_len → mutable_bits f i = 0 → byteAt f' i = byteAt f i := by
    intro i hi hz
    have hi' := h.header i hi
    rw [hz] at hi'
    have hall : ∀ x : UInt8, x &&& ~~~0 = x := fun x => UInt8.and_neg_one
    rwa [hall, hall] at hi'
  refine ⟨hsame 0 (by omega) (mutable_bits_addr (Or.inl rfl)), ?_, ?_, ?_, ?_, ?_⟩
  · apply and_of_masked (h.header 1 (by omega))
    unfold mutable_bits fc1_read
    dsimp only
    rw [if_pos rfl]
    split <;> rfl
  · intro i hi
    exact hsame _ (by omega) (mutable_bits_addr (Or.inr (Or.inl ⟨by omega, by omega⟩)))
  · apply and_of_masked (h.header 22 (by omega))
    unfold mutable_bits
    dsimp only
    rw [if_neg (by decide), if_neg (by decide), if_pos rfl]
    rfl
  · intro hf i hi
    refine hsame _ ?_ (mutable_bits_addr (Or.inr (Or.inr ⟨hf, by omega, by omega⟩)))
    unfold ccmp_need at hneed
    rw [if_pos hf] at hneed
    omega
  · intro hq
    have hoff : 24 ≤ qos_off f ∧ qos_off f < hdr_len := by
      unfold ccmp_need at hneed
      rw [if_pos hq] at hneed
      unfold qos_off
      split <;> rename_i hf <;> simp only [hf, if_true, Bool.false_eq_true, if_false] at hneed <;>
        omega
    apply and_of_masked (h.header _ hoff.2)
    unfold mutable_bits
    dsimp only
    rw [if_neg (by omega), if_neg (by omega), if_neg (by omega), if_neg (by omega),
      if_pos ⟨hq, rfl⟩]
    rfl

/-- What `ccmp_encrypt` writes, when the buffer has room. -/
theorem ccmp_encrypt_eq {crypto : CryptoOps} (hccm : CcmWorks crypto) (tk : Octets 16)
    {hdr : Bytes} (a2 : Mac) {pn : UInt64} (key_id : UInt8) {plain : Bytes} {out_cap : UInt64}
    (hneed : ccmp_need hdr ≤ hdr.length) (hpn : pn ≤ kCcmpPnMax)
    (hcap : hdr.length + 16 + plain.length ≤ out_cap.toNat) :
    ∃ aad nonce c tag, ccmp_aad hdr hdr.length = some aad ∧
      ccmp_nonce hdr hdr.length a2 pn = some nonce ∧
      crypto.aes_ccm_encrypt tk nonce aad plain = some (c, tag) ∧
      ccmp_encrypt crypto tk hdr a2 pn key_id plain true out_cap =
        some (hdr.set 1 (byteAt hdr 1 ||| 0x40) ++ (ccmp_header pn key_id ++ (c ++ tag.val))) := by
  have h24 : ¬hdr.length < 24 := by
    unfold ccmp_need at hneed
    omega
  have hneed' : ¬hdr.length < ccmp_need hdr := Nat.not_lt.mpr hneed
  obtain ⟨aad, haad⟩ : ∃ aad, ccmp_aad hdr hdr.length = some aad := by
    unfold ccmp_aad
    rw [if_neg h24, if_neg hneed']
    exact ⟨_, rfl⟩
  obtain ⟨nonce, hnonce⟩ : ∃ nonce, ccmp_nonce hdr hdr.length a2 pn = some nonce := by
    unfold ccmp_nonce
    rw [if_neg h24, if_neg hneed']
    exact ⟨_, rfl⟩
  obtain ⟨⟨c, tag⟩, henc⟩ := Option.isSome_iff_exists.mp (hccm.encrypts tk nonce aad plain)
  have hlen : ccmp_encrypted_len hdr.length plain.length = hdr.length + 16 + plain.length := by
    have := out_cap.toNat_lt
    unfold ccmp_encrypted_len kCcmpHdrLen kCcmpMicLen SIZE_MAX
    dsimp only
    rw [if_neg (by omega)]
  refine ⟨aad, nonce, c, tag, haad, hnonce, henc, ?_⟩
  unfold ccmp_encrypt
  dsimp only
  rw [if_neg (UInt64.not_lt.mpr hpn), hlen]
  rw [if_neg (by simp only [Bool.not_true, Bool.false_eq_true, false_or, not_or]; omega)]
  simp only [haad, hnonce, henc]

/-- What `ccmp_decrypt` asks the cipher, on a frame with a CCMP header, a ciphertext and a
tag behind a header of this length. -/
theorem ccmp_decrypt_eq (crypto : CryptoOps) (tk : Octets 16) {f : Bytes} {hdr_len : Nat} {a2 : Mac}
    {out : Bool} {out_cap : UInt64} {pn : UInt64} {key_id : UInt8} {c : Bytes} {tag : Octets 8}
    {aad : Bytes} {nonce : Octets 13} (hlen : hdr_len ≤ f.length)
    (hrest : f.drop hdr_len = ccmp_header pn key_id ++ (c ++ tag.val)) (hpn : pn ≤ kCcmpPnMax)
    (hkey : key_id < 4) (hprot : byteAt f 1 &&& kFcProtected ≠ 0)
    (haad : ccmp_aad f hdr_len = some aad) (hnonce : ccmp_nonce f hdr_len a2 pn = some nonce)
    (hcap : c.length ≤ out_cap.toNat) (hout : c ≠ [] → out = true) :
    ccmp_decrypt crypto tk f hdr_len a2 out out_cap =
      (crypto.aes_ccm_decrypt tk nonce aad c tag).map (·, pn) := by
  have hhdr : (ccmp_header pn key_id).length = kCcmpHdrLen := rfl
  have htotal : f.length - hdr_len = 8 + (c.length + 8) := by
    rw [← List.length_drop, hrest, List.length_append, List.length_append, tag.property, hhdr]
    rfl
  have hbody : f.length - hdr_len - (kCcmpHdrLen + kCcmpMicLen) = c.length := by
    unfold kCcmpHdrLen kCcmpMicLen
    omega
  have hext := (ccmp_key_id_read pn hkey (c ++ tag.val)).2
  have hread := ccmp_header_pn_read hpn key_id (c ++ tag.val)
  have htake : ((ccmp_header pn key_id ++ (c ++ tag.val)).drop kCcmpHdrLen).take c.length = c := by
    rw [← hhdr, List.drop_left, List.take_left]
  have htag : Octets.slice (ccmp_header pn key_id ++ (c ++ tag.val)) (kCcmpHdrLen + c.length) 8 =
      tag := by
    rw [← List.append_assoc, ← List.append_nil tag.val]
    exact Octets.slice_append _ tag [] (by rw [List.length_append, hhdr])
  have hnull : ¬(c.length > 0 ∧ (!out) = true) := by
    rintro ⟨hpos, hno⟩
    rw [hout (fun h0 => by rw [h0] at hpos; simp at hpos)] at hno
    simp at hno
  unfold ccmp_decrypt
  dsimp only
  rw [if_neg (by unfold kCcmpHdrLen kCcmpMicLen; omega), hbody, hrest, if_neg (by omega),
    if_neg hnull, if_neg hprot, if_neg hext, hread, haad, hnonce]
  dsimp only
  rw [htake, htag]

/-- Protected is no mutable bit. -/
theorem protected_kept {hdr_len : Nat} {f f' : Bytes} (h : MutableChange hdr_len f f')
    (hlen : 1 < hdr_len) : byteAt f' 1 &&& kFcProtected = byteAt f 1 &&& kFcProtected := by
  apply and_of_masked (h.header 1 hlen)
  unfold mutable_bits
  dsimp only
  rw [if_pos rfl]
  split <;> rfl

theorem or_protected_ne_zero (x : UInt8) : (x ||| 0x40) &&& kFcProtected ≠ 0 := by
  intro h0
  have := congrArg (fun y : UInt8 => y.toBitVec.getLsbD 6) h0
  simp [kFcProtected] at this

/-- What `ccmp_encrypt` writes opens again, also when mutable bits of the header changed on the way:
the header is still one that CCMP cannot tell from the original. -/
theorem protected_opens {crypto : CryptoOps} (hccm : CcmWorks crypto) {tk : Octets 16} {hdr : Bytes}
    {a2 : Mac} {pn : UInt64} {key_id : UInt8} {plain aad c : Bytes} {nonce : Octets 13}
    {tag : Octets 8} (hneed : ccmp_need hdr ≤ hdr.length) (hpn : pn ≤ kCcmpPnMax)
    (hkey : key_id < 4) (haad : ccmp_aad hdr hdr.length = some aad)
    (hnonce : ccmp_nonce hdr hdr.length a2 pn = some nonce)
    (henc : crypto.aes_ccm_encrypt tk nonce aad plain = some (c, tag)) {out : Bool}
    {plain_cap : UInt64} (hplain : plain.length ≤ plain_cap.toNat) (hout : plain ≠ [] → out = true)
    {f' : Bytes} (hm : MutableChange hdr.length
      (hdr.set 1 (byteAt hdr 1 ||| 0x40) ++ (ccmp_header pn key_id ++ (c ++ tag.val))) f') :
    ccmp_decrypt crypto tk f' hdr.length a2 out plain_cap = some (plain, pn) ∧
      ccmp_key_id (f'.drop hdr.length) = key_id ∧ byteAt f' 1 &&& kFcProtected ≠ 0 ∧
      SameHeader hdr f' := by
  have hc : c.length = plain.length := crypto.encrypt_length henc
  have h24 : 24 ≤ hdr.length := by
    unfold ccmp_need at hneed
    omega
  have hsame := sameHeader_protected (ccmp_header pn key_id ++ (c ++ tag.val)) hneed
  have hprot := byteAt_protected (ccmp_header pn key_id ++ (c ++ tag.val)) h24
    (show 1 < hdr.length by omega)
  have hdrop : (hdr.set 1 (byteAt hdr 1 ||| 0x40) ++
      (ccmp_header pn key_id ++ (c ++ tag.val))).drop hdr.length =
        ccmp_header pn key_id ++ (c ++ tag.val) := List.drop_left' (by rw [List.length_set])
  have hlen : hdr.length ≤ (hdr.set 1 (byteAt hdr 1 ||| 0x40) ++
      (ccmp_header pn key_id ++ (c ++ tag.val))).length := by
    rw [List.length_append, List.length_set]
    exact Nat.le_add_right _ _
  generalize hdr.set 1 (byteAt hdr 1 ||| 0x40) ++ (ccmp_header pn key_id ++ (c ++ tag.val)) = f
    at hm hsame hprot hdrop hlen
  have hsame' := sameHeader_mutable hm (by rw [hsame.need_eq]; exact hneed)
  have hdrop' := hm.body.trans hdrop
  have hprot' : byteAt f' 1 &&& kFcProtected ≠ 0 := by
    rw [protected_kept hm (by omega), hprot, if_pos rfl]
    exact or_protected_ne_zero _
  have hwhole := hsame.trans hsame'
  refine ⟨?_, by rw [hdrop']; exact (ccmp_key_id_read pn hkey (c ++ tag.val)).1, hprot', hwhole⟩
  rw [ccmp_decrypt_eq crypto tk (by rw [hm.length]; exact hlen) hdrop' hpn hkey hprot'
    (by rw [hwhole.aad_eq, haad]) (by rw [hwhole.nonce_eq, hnonce])
    (by rw [hc]; exact hplain)
    (fun h0 => hout (fun hp => h0 (List.length_eq_zero_iff.mp (by rw [hc, hp]; rfl)))),
    hccm.inverts tk nonce aad plain c tag henc]
  rfl

/-- CCMP frames come back: `ccmp_decrypt` of what `ccmp_encrypt` wrote gives the plaintext
and the PN, and `ccmp_key_id` the key id, also when mutable bits of the header changed on
the way. -/
theorem ccmp_round_trip (crypto : CryptoOps) (hccm : CcmWorks crypto) (tk : Octets 16)
    (hdr : Bytes) (a2 : Mac) (pn : UInt64) (key_id : UInt8) (plain : Bytes) (out_cap : UInt64)
    (out : Bool) (plain_cap : UInt64) (hneed : ccmp_need hdr ≤ hdr.length)
    (hpn : pn ≤ kCcmpPnMax) (hkey : key_id < 4)
    (hcap : hdr.length + 16 + plain.length ≤ out_cap.toNat)
    (hplain : plain.length ≤ plain_cap.toNat) (hout : plain ≠ [] → out = true) :
    ∃ f, ccmp_encrypt crypto tk hdr a2 pn key_id plain true out_cap = some f ∧
      ccmp_decrypt crypto tk f hdr.length a2 out plain_cap = some (plain, pn) ∧
      ccmp_key_id (f.drop hdr.length) = key_id ∧
      ∀ f', MutableChange hdr.length f f' →
        ccmp_decrypt crypto tk f' hdr.length a2 out plain_cap = some (plain, pn) ∧
        ccmp_key_id (f'.drop hdr.length) = key_id := by
  obtain ⟨aad, nonce, c, tag, haad, hnonce, henc, hf⟩ :=
    ccmp_encrypt_eq hccm tk a2 key_id hneed hpn hcap
  obtain ⟨h1, h2, -⟩ := protected_opens hccm hneed hpn hkey haad hnonce henc hplain hout
    (mutableChange_refl _ _)
  refine ⟨_, hf, h1, h2, ?_⟩
  intro f' hm
  obtain ⟨h1', h2', -⟩ := protected_opens hccm hneed hpn hkey haad hnonce henc hplain hout hm
  exact ⟨h1', h2'⟩

theorem ccmWorks_standIn : CcmWorks .standIn := by
  refine ⟨fun _ _ _ _ => rfl, ?_⟩
  intro key nonce aad plain c tag h
  simp only [CryptoOps.standIn, Option.some.injEq, Prod.mk.injEq] at h ⊢
  rw [← h.1, ← h.2, if_pos rfl]

/-- The law on a QoS data frame of two bytes. -/
theorem a_qos_frame_comes_back :
    ∃ f, ccmp_encrypt .standIn (Octets.zero 16) (0x88 :: List.replicate 25 0x01) (Octets.zero 6) 7 2
        [5, 6] true 100 = some f ∧
      ccmp_decrypt .standIn (Octets.zero 16) f 26 (Octets.zero 6) true 2 = some ([5, 6], 7) := by
  obtain ⟨f, hf, hd, -⟩ := ccmp_round_trip .standIn ccmWorks_standIn (Octets.zero 16)
    (0x88 :: List.replicate 25 0x01) (Octets.zero 6) 7 2 [5, 6] 100 true 2 (by decide) (by decide)
    (by decide) (by decide) (by decide) (fun _ => rfl)
  exact ⟨f, hf, hd⟩

end devourer.sta
