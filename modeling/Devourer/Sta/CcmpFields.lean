-- What CCMP authenticates and what it may not repeat: the header fields
-- that the AAD tells apart, and the nonces of the frames that are sealed.
import Devourer.Lib.Memory
import Devourer.Sta.Ccmp

namespace devourer.sta

/-! ## The fields of a header -/

def fc_version (hdr : Bytes) : UInt8 := byteAt hdr 0 &&& 0x03
def fc_type (hdr : Bytes) : UInt8 := byteAt hdr 0 &&& 0x0c
def fc_subtype (hdr : Bytes) : UInt8 := byteAt hdr 0 &&& 0xf0
def fc_qos_bit (hdr : Bytes) : UInt8 := byteAt hdr 0 &&& 0x80
def to_ds (hdr : Bytes) : UInt8 := byteAt hdr 1 &&& 0x01
def from_ds (hdr : Bytes) : UInt8 := byteAt hdr 1 &&& 0x02
def more_fragments (hdr : Bytes) : UInt8 := byteAt hdr 1 &&& 0x04
def order (hdr : Bytes) : UInt8 := byteAt hdr 1 &&& 0x80
def fragment_number (hdr : Bytes) : UInt8 := byteAt hdr 22 &&& 0x0f
def address (hdr : Bytes) (off : Nat) : Mac := Octets.slice hdr off 6
def tid (hdr : Bytes) : UInt8 := byteAt hdr (qos_off hdr) &&& 0x0f

/-- Two headers that agree in the fields which stay as they are on the way. -/
structure ImmutableFields (a b : Bytes) : Prop where
  type : fc_type a = fc_type b
  subtype : is_mgmt a = true → fc_subtype a = fc_subtype b
  qos_bit : fc_qos_bit a = fc_qos_bit b
  to_ds : to_ds a = to_ds b
  from_ds : from_ds a = from_ds b
  more_fragments : more_fragments a = more_fragments b
  order : is_qos_data (byteAt a 0) = false → order a = order b
  addr1 : address a 4 = address b 4
  addr2 : address a 10 = address b 10
  addr3 : address a 16 = address b 16
  fragment : fragment_number a = fragment_number b
  addr4 : four_addr a = true → address a 24 = address b 24
  tid : is_qos_data (byteAt a 0) = true → tid a = tid b

/-! ## Bits of an octet -/

theorem and_split (x m n : UInt8) : x &&& (m ||| n) = (x &&& m) ||| (x &&& n) := by
  apply UInt8.toBitVec_inj.mp
  simp only [UInt8.toBitVec_or, UInt8.toBitVec_and]
  exact BitVec.and_or_distrib_left

/-- Two octets agree under a mask if they do under both parts of it. -/
theorem agree_split {x y m n : UInt8} (hm : x &&& m = y &&& m) (hn : x &&& n = y &&& n) :
    x &&& (m ||| n) = y &&& (m ||| n) := by
  rw [and_split, and_split, hm, hn]

/-- They agree under every mask within one that they agree under. -/
theorem agree_part {x y m k : UInt8} (h : x &&& m = y &&& m) (hk : m &&& k = k) :
    x &&& k = y &&& k := by
  rw [← hk, ← UInt8.and_assoc, h, UInt8.and_assoc]

/-- A bit that is set in both tells nothing. -/
theorem agree_of_or {x y m c : UInt8} (h : (x &&& m) ||| c = (y &&& m) ||| c)
    (hc : m &&& ~~~c = m) : x &&& m = y &&& m := by
  have hstrip : ∀ z : UInt8, ((z &&& m) ||| c) &&& ~~~c = z &&& m := by
    intro z
    have hself : c &&& ~~~c = 0 := UInt8.and_not_self
    rw [UInt8.and_comm, and_split, UInt8.and_comm, UInt8.and_assoc, hc, UInt8.and_comm (~~~c) c,
      hself, UInt8.or_zero]
  rw [← hstrip x, h, hstrip y]

/-! ## The two octets of the frame control -/

/-- The first octet as the AAD carries it. -/
def aad_fc0 (fc0 : UInt8) : UInt8 := if fc0 &&& 0x0c ≠ 0x00 then fc0 &&& 0x8f else fc0

/-- The second one. -/
def aad_fc1 (fc0 fc1 : UInt8) : UInt8 := (fc1 &&& fc1_read fc0) ||| 0x40

theorem le16_octets (lo hi : UInt8) :
    (le16 lo hi).toUInt8 = lo ∧ (le16 lo hi >>> 8).toUInt8 = hi := by
  constructor
  · apply UInt8.toBitVec_inj.mp
    apply BitVec.eq_of_getLsbD_eq
    intro i hi
    rw [UInt16.toBitVec_toUInt8, BitVec.getLsbD_setWidth, getLsbD_le16 _ _ (by omega)]
    simp [hi]
  · apply UInt8.toBitVec_inj.mp
    apply BitVec.eq_of_getLsbD_eq
    intro i hi
    have h8 : ((8 : UInt16).toBitVec % 16).toNat = 8 := rfl
    rw [UInt16.toBitVec_toUInt8, BitVec.getLsbD_setWidth, UInt16.toBitVec_shiftRight,
      BitVec.ushiftRight_eq', h8, BitVec.getLsbD_ushiftRight, getLsbD_le16 _ _ (by omega)]
    simp [hi]

theorem aad_fc_octets (fc0 fc1 : UInt8) :
    (ccmp_aad_fc fc0 fc1).toUInt8 = aad_fc0 fc0 ∧
      (ccmp_aad_fc fc0 fc1 >>> 8).toUInt8 = aad_fc1 fc0 fc1 := by
  rw [ccmp_aad_fc_eq]
  exact le16_octets _ _

/-- The first octet tells the version, the type, the QoS bit, and of a management frame the rest of
the subtype. -/
theorem aad_fc0_eq_iff (x y : UInt8) :
    aad_fc0 x = aad_fc0 y ↔ x &&& 0x03 = y &&& 0x03 ∧ x &&& 0x0c = y &&& 0x0c ∧
      ((x &&& 0x0c == 0x00) = true → x &&& 0xf0 = y &&& 0xf0) ∧ x &&& 0x80 = y &&& 0x80 := by
  have hkept : ∀ z k : UInt8, 0x8f &&& k = k → aad_fc0 z &&& k = z &&& k := by
    intro z k hk
    unfold aad_fc0
    by_cases hz : z &&& 0x0c ≠ 0x00
    · rw [if_pos hz, UInt8.and_assoc, hk]
    · rw [if_neg hz]
  have hall : ∀ z : UInt8, z &&& (0x03 ||| (0x0c ||| 0xf0)) = z := fun z => UInt8.and_neg_one
  constructor
  · intro h
    have hpart : ∀ k : UInt8, 0x8f &&& k = k → x &&& k = y &&& k := by
      intro k hk
      rw [← hkept x k hk, h, hkept y k hk]
    have htype := hpart 0x0c rfl
    refine ⟨hpart 0x03 rfl, htype, ?_, hpart 0x80 rfl⟩
    intro hm
    have hx : ¬x &&& 0x0c ≠ 0x00 := not_not.mpr (by simpa using hm)
    have hy : ¬y &&& 0x0c ≠ 0x00 := by rwa [← htype]
    unfold aad_fc0 at h
    rw [if_neg hx, if_neg hy] at h
    rw [h]
  · rintro ⟨hversion, htype, hsubtype, hqos⟩
    unfold aad_fc0
    by_cases hx : x &&& 0x0c ≠ 0x00
    · have hy : y &&& 0x0c ≠ 0x00 := by rwa [← htype]
      rw [if_pos hx, if_pos hy]
      exact agree_split hversion (agree_split htype hqos)
    · have hy : ¬y &&& 0x0c ≠ 0x00 := by rwa [← htype]
      rw [if_neg hx, if_neg hy, ← hall x, ← hall y]
      exact agree_split hversion (agree_split htype (hsubtype (by simpa using hx)))

/-- The second octet tells ToDS, FromDS and More Fragments, and Order unless the frame is QoS
data. -/
theorem aad_fc1_eq_iff {fc0 gc0 : UInt8} (hqos : is_qos_data fc0 = is_qos_data gc0) (x y : UInt8) :
    aad_fc1 fc0 x = aad_fc1 gc0 y ↔ x &&& 0x01 = y &&& 0x01 ∧ x &&& 0x02 = y &&& 0x02 ∧
      x &&& 0x04 = y &&& 0x04 ∧ (is_qos_data fc0 = false → x &&& 0x80 = y &&& 0x80) := by
  have hread : fc1_read gc0 = fc1_read fc0 := by
    unfold fc1_read
    rw [hqos]
  unfold aad_fc1
  rw [hread]
  have hmask : fc1_read fc0 &&& ~~~0x40 = fc1_read fc0 := by
    unfold fc1_read
    split <;> rfl
  constructor
  · intro h
    have h' := agree_of_or h hmask
    have hlow : ∀ k : UInt8, (0x07 : UInt8) &&& k = k → (0x87 : UInt8) &&& k = k →
        x &&& k = y &&& k := by
      intro k h7 h87
      apply agree_part h'
      unfold fc1_read
      split
      · exact h7
      · exact h87
    refine ⟨hlow 0x01 rfl rfl, hlow 0x02 rfl rfl, hlow 0x04 rfl rfl, ?_⟩
    intro hn
    apply agree_part h'
    unfold fc1_read
    rw [if_neg (by simp [hn])]
    rfl
  · rintro ⟨h1, h2, h4, h80⟩
    have h7 : x &&& (0x01 ||| (0x02 ||| 0x04)) = y &&& (0x01 ||| (0x02 ||| 0x04)) :=
      agree_split h1 (agree_split h2 h4)
    have hboth : x &&& fc1_read fc0 = y &&& fc1_read fc0 := by
      unfold fc1_read
      by_cases hq : is_qos_data fc0 = true
      · rw [if_pos hq]
        exact h7
      · rw [if_neg hq]
        exact agree_split h7 (h80 (by simpa using hq))
    rw [hboth]

/-! ## The AAD read back -/

/-- A QoS data frame is told by its type and the QoS bit. -/
theorem is_qos_data_eq {x y : UInt8} (htype : x &&& 0x0c = y &&& 0x0c)
    (hqos : x &&& 0x80 = y &&& 0x80) : is_qos_data x = is_qos_data y := by
  have h : x &&& 0x8c = y &&& 0x8c := agree_split htype hqos
  unfold is_qos_data
  rw [h]

theorem four_addr_eq {a b : Bytes} (hto : to_ds a = to_ds b) (hfrom : from_ds a = from_ds b) :
    four_addr a = four_addr b := by
  have h : byteAt a 1 &&& (kFcToDs ||| kFcFromDs) = byteAt b 1 &&& (kFcToDs ||| kFcFromDs) :=
    agree_split hto hfrom
  unfold four_addr
  rw [h]

/-- The three addresses stand one behind the other. -/
theorem addresses_eq (hdr : Bytes) :
    (Octets.slice hdr 4 18).val =
      (address hdr 4).val ++ ((address hdr 10).val ++ (address hdr 16).val) := rfl

/-- The AAD, field by field. -/
theorem ccmp_aad_eq {hdr : Bytes} {hdr_len : Nat} (h : ccmp_need hdr ≤ hdr_len) :
    ccmp_aad hdr hdr_len = some
      ([aad_fc0 (byteAt hdr 0), aad_fc1 (byteAt hdr 0) (byteAt hdr 1)] ++
        ((address hdr 4).val ++ ((address hdr 10).val ++ ((address hdr 16).val ++
          ([fragment_number hdr, 0] ++
            ((if four_addr hdr then (address hdr 24).val else []) ++
              (if is_qos_data (byteAt hdr 0) then [tid hdr, 0] else []))))))) := by
  have h24 : ¬hdr_len < 24 := by
    unfold ccmp_need at h
    omega
  obtain ⟨hlo, hhi⟩ := aad_fc_octets (byteAt hdr 0) (byteAt hdr 1)
  obtain ⟨hseq, hzero⟩ := le16_octets (byteAt hdr 22 &&& 0x0f) 0
  unfold ccmp_aad
  rw [if_neg h24, if_neg (Nat.not_lt.mpr h), seq_read]
  dsimp only
  rw [hlo, hhi, hseq, hzero, addresses_eq]
  simp only [List.append_assoc]
  rfl

/-- Parts that are there in both or in neither, and of one length. -/
theorem optional_eq_iff {p : Bool} {n : Nat} (x y : Octets n) :
    (if p then x.val else []) = (if p then y.val else []) ↔ (p = true → x = y) := by
  cases p with
  | false => simp
  | true => simp [Subtype.ext_iff]

theorem octets_append {n : Nat} {x y : Octets n} {s t : Bytes} :
    x.val ++ s = y.val ++ t ↔ x = y ∧ s = t := by
  constructor
  · intro h
    obtain ⟨h1, h2⟩ := List.append_inj h (x.property.trans y.property.symm)
    exact ⟨Subtype.ext h1, h2⟩
  · rintro ⟨rfl, rfl⟩
    rfl

/-- The AAD tells the version and the immutable fields of a header, and nothing else. -/
theorem aad_eq_iff {a b : Bytes} {a_len b_len : Nat} (ha : ccmp_need a ≤ a_len)
    (hb : ccmp_need b ≤ b_len) :
    ccmp_aad a a_len = ccmp_aad b b_len ↔ fc_version a = fc_version b ∧ ImmutableFields a b := by
  rw [ccmp_aad_eq ha, ccmp_aad_eq hb, Option.some.injEq]
  constructor
  · intro h
    simp only [List.cons_append, List.nil_append, List.cons.injEq] at h
    obtain ⟨h0, h1, h⟩ := h
    obtain ⟨haddr1, h⟩ := octets_append.mp h
    obtain ⟨haddr2, h⟩ := octets_append.mp h
    obtain ⟨haddr3, h⟩ := octets_append.mp h
    simp only [List.cons.injEq, true_and] at h
    obtain ⟨hfrag, h⟩ := h
    obtain ⟨hversion, htype, hsubtype, hqosbit⟩ := (aad_fc0_eq_iff _ _).mp h0
    have hqos := is_qos_data_eq htype hqosbit
    obtain ⟨hto, hfrom, hmore, horder⟩ := (aad_fc1_eq_iff hqos _ _).mp h1
    have hfour := four_addr_eq hto hfrom
    rw [← hfour, ← hqos] at h
    have hlen : (if four_addr a then (address a 24).val else []).length =
        (if four_addr a then (address b 24).val else []).length := by
      split
      · rw [(address a 24).property, (address b 24).property]
      · rfl
    obtain ⟨h4, htid⟩ := List.append_inj h hlen
    refine ⟨hversion, htype, hsubtype, hqosbit, hto, hfrom, hmore, horder, haddr1, haddr2, haddr3,
      hfrag, (optional_eq_iff _ _).mp h4, ?_⟩
    intro hq
    rw [if_pos hq, if_pos hq] at htid
    exact (List.cons.inj htid).1
  · rintro ⟨hversion, h⟩
    have hqos := is_qos_data_eq h.type h.qos_bit
    have hfour := four_addr_eq h.to_ds h.from_ds
    have h0 := (aad_fc0_eq_iff _ _).mpr ⟨hversion, h.type, h.subtype, h.qos_bit⟩
    have h1 := (aad_fc1_eq_iff hqos _ _).mpr ⟨h.to_ds, h.from_ds, h.more_fragments, h.order⟩
    have h4 := (optional_eq_iff (p := four_addr a) _ _).mpr h.addr4
    have htid : (if is_qos_data (byteAt a 0) then [tid a, 0] else []) =
        if is_qos_data (byteAt a 0) then [tid b, 0] else [] := by
      by_cases hq : is_qos_data (byteAt a 0) = true
      · rw [if_pos hq, if_pos hq, h.tid hq]
      · rw [if_neg hq, if_neg hq]
    rw [← hfour, ← hqos, h0, h1, h.addr1, h.addr2, h.addr3, h.fragment, h4, htid]

/-! ## The nonce read back -/

/-- The octets of a PN within its 48 bits. -/
theorem pn_octets_inj {pn qn : UInt64} (hp : pn ≤ kCcmpPnMax) (hq : qn ≤ kCcmpPnMax)
    (h : (List.range 6).map (fun i => ((pn >>> (8 * (5 - i)).toUInt64) &&& 0xff).toUInt8) =
      (List.range 6).map (fun i => ((qn >>> (8 * (5 - i)).toUInt64) &&& 0xff).toUInt8)) :
    pn = qn := by
  have hat : ∀ i ∈ List.range 6, ((pn >>> (8 * (5 - i)).toUInt64) &&& 0xff).toUInt8 =
      ((qn >>> (8 * (5 - i)).toUInt64) &&& 0xff).toUInt8 := List.map_inj_left.mp h
  have h0 : (pn &&& 0xff).toUInt8 = (qn &&& 0xff).toUInt8 := by
    have h5 : ((pn >>> 0) &&& 0xff).toUInt8 = ((qn >>> 0) &&& 0xff).toUInt8 := hat 5 (by decide)
    rwa [UInt64.shiftRight_zero, UInt64.shiftRight_zero] at h5
  have hheader : ccmp_header pn 0 = ccmp_header qn 0 := by
    unfold ccmp_header
    rw [h0, show ((pn >>> 8) &&& 0xff).toUInt8 = ((qn >>> 8) &&& 0xff).toUInt8 from
        hat 4 (by decide),
      show ((pn >>> 16) &&& 0xff).toUInt8 = ((qn >>> 16) &&& 0xff).toUInt8 from hat 3 (by decide),
      show ((pn >>> 24) &&& 0xff).toUInt8 = ((qn >>> 24) &&& 0xff).toUInt8 from hat 2 (by decide),
      show ((pn >>> 32) &&& 0xff).toUInt8 = ((qn >>> 32) &&& 0xff).toUInt8 from hat 1 (by decide),
      show ((pn >>> 40) &&& 0xff).toUInt8 = ((qn >>> 40) &&& 0xff).toUInt8 from hat 0 (by decide)]
  have hread := ccmp_header_pn_read hp 0 []
  rw [hheader, ccmp_header_pn_read hq 0 []] at hread
  exact hread.symm

/-- A nonce tells its flags, its A2 and its PN. -/
theorem ccmp_nonce_inj {a b : Bytes} {a_len b_len : Nat} {a2 b2 : Mac} {pn qn : UInt64}
    {nonce : Octets 13} (hp : pn ≤ kCcmpPnMax) (hq : qn ≤ kCcmpPnMax)
    (ha : ccmp_nonce a a_len a2 pn = some nonce) (hb : ccmp_nonce b b_len b2 qn = some nonce) :
    ccmp_nonce_flags a = ccmp_nonce_flags b ∧ a2 = b2 ∧ pn = qn := by
  have hread : ∀ {hdr : Bytes} {len : Nat} {m : Mac} {n : UInt64},
      ccmp_nonce hdr len m n = some nonce → nonce.val = [ccmp_nonce_flags hdr] ++ (m.val ++
        (List.range 6).map (fun i => ((n >>> (8 * (5 - i)).toUInt64) &&& 0xff).toUInt8)) := by
    intro hdr len m n h
    unfold ccmp_nonce at h
    split at h
    · cases h
    split at h
    · cases h
    · rw [← Option.some.inj h, ← List.append_assoc]
  have h := (hread ha).symm.trans (hread hb)
  obtain ⟨hflags, h⟩ := List.cons.inj h
  obtain ⟨h2, hpn⟩ := octets_append.mp h
  exact ⟨hflags, h2, pn_octets_inj hp hq hpn⟩

/-! ## The memory that a frame is sealed in -/

/-- `ccmp_encrypt` on the memory behind `out`, with the length that it returns. Of the range of a
cipher that fails nothing is said here: it is left as it was. -/
def ccmp_encrypt_to (crypto : CryptoOps) (tk : Octets 16) (hdr : Bytes) (a2 : Mac) (pn : UInt64)
    (key_id : UInt8) (plain : Bytes) (out : Bool) (out_cap : UInt64) (m : Memory) : Memory × Nat :=
  let need := ccmp_encrypted_len hdr.length plain.length
  if pn > kCcmpPnMax then (m, 0)
  else if need = 0 ∨ !out ∨ out_cap.toNat < need then (m, 0)
  else
    match ccmp_aad hdr hdr.length, ccmp_nonce hdr hdr.length a2 pn with
    | some aad, some nonce =>
      let m := m.write 0 hdr
      let m := m.write 1 [m 1 ||| 0x40]
      let m := m.write hdr.length (ccmp_header pn key_id)
      match crypto.aes_ccm_encrypt tk nonce aad plain with
      | none => (m, 0)
      | some (c, tag) =>
        let m := m.write (hdr.length + kCcmpHdrLen) c
        (m.write (hdr.length + kCcmpHdrLen + plain.length) tag.val, need)
    | _, _ => (m, 0)

/-- One call of `ccmp_encrypt`. -/
structure Sealing where
  crypto : CryptoOps
  tk : Octets 16
  hdr : Bytes
  a2 : Mac
  pn : UInt64
  key_id : UInt8
  plain : Bytes
  out : Bool
  out_cap : UInt64

namespace Sealing

def write_to (c : Sealing) (m : Memory) : Memory × Nat :=
  ccmp_encrypt_to c.crypto c.tk c.hdr c.a2 c.pn c.key_id c.plain c.out c.out_cap m

def frame (c : Sealing) : Option Bytes :=
  ccmp_encrypt c.crypto c.tk c.hdr c.a2 c.pn c.key_id c.plain c.out c.out_cap

/-- The nonce that the cipher gets. -/
def nonce (c : Sealing) : Option (Octets 13) := ccmp_nonce c.hdr c.hdr.length c.a2 c.pn

end Sealing

theorem aad_needs_header {hdr : Bytes} {len : Nat} {aad : Bytes} (h : ccmp_aad hdr len = some aad) :
    24 ≤ len := by
  unfold ccmp_aad at h
  split at h
  · cases h
  · omega

/-- The memory holds the frame where the call succeeds, and the call returns 0 where it does
not. -/
theorem Sealing.write_to_frame (c : Sealing) (m : Memory) :
    (c.frame = none ∧ (c.write_to m).2 = 0) ∨
      ∃ f, c.frame = some f ∧ (c.write_to m).2 = f.length ∧ (c.write_to m).1.read 0 f.length = f ∧
        f.length ≠ 0 := by
  unfold Sealing.frame Sealing.write_to ccmp_encrypt ccmp_encrypt_to
  dsimp only
  by_cases hpn : c.pn > kCcmpPnMax
  · rw [if_pos hpn, if_pos hpn]
    exact .inl ⟨rfl, rfl⟩
  rw [if_neg hpn, if_neg hpn]
  by_cases hroom : ccmp_encrypted_len c.hdr.length c.plain.length = 0 ∨ (!c.out) = true ∨
      c.out_cap.toNat < ccmp_encrypted_len c.hdr.length c.plain.length
  · rw [if_pos hroom, if_pos hroom]
    exact .inl ⟨rfl, rfl⟩
  rw [if_neg hroom, if_neg hroom]
  have hneed : ccmp_encrypted_len c.hdr.length c.plain.length =
      c.hdr.length + 8 + (c.plain.length + 8) := by
    have hnz := (not_or.mp hroom).1
    unfold ccmp_encrypted_len at hnz ⊢
    dsimp only at hnz ⊢
    split
    · rename_i hbig
      rw [if_pos hbig] at hnz
      exact absurd rfl hnz
    · unfold kCcmpHdrLen kCcmpMicLen
      omega
  cases haad : ccmp_aad c.hdr c.hdr.length with
  | none => exact .inl ⟨rfl, rfl⟩
  | some aad =>
  cases hnonce : ccmp_nonce c.hdr c.hdr.length c.a2 c.pn with
  | none => exact .inl ⟨rfl, rfl⟩
  | some nonce =>
  dsimp only
  cases henc : c.crypto.aes_ccm_encrypt c.tk nonce aad c.plain with
  | none => exact .inl ⟨rfl, rfl⟩
  | some ct =>
    obtain ⟨ct, tag⟩ := ct
    right
    dsimp only
    have hct : ct.length = c.plain.length := c.crypto.encrypt_length henc
    have h24 := aad_needs_header haad
    have htag : tag.val.length = 8 := tag.property
    have hhdr : (ccmp_header c.pn c.key_id).length = 8 := rfl
    have hlen : (c.hdr.set 1 (byteAt c.hdr 1 ||| 0x40) ++ (ccmp_header c.pn c.key_id ++
        (ct ++ tag.val))).length = c.hdr.length + 8 + (c.plain.length + 8) := by
      simp only [List.length_append, List.length_set, hct, htag, hhdr]
      omega
    have hone : m.write 0 c.hdr 1 = byteAt c.hdr 1 := by
      rw [Memory.write_in (by omega) (by omega)]
    -- the four stores, from the front
    have h1 : ((m.write 0 c.hdr).write 1 [byteAt c.hdr 1 ||| 0x40]).read 0 c.hdr.length =
        c.hdr.set 1 (byteAt c.hdr 1 ||| 0x40) := by
      have h := Memory.read_write_set (m.write 0 c.hdr) 0 c.hdr.length 1 (byteAt c.hdr 1 ||| 0x40)
      rwa [Nat.zero_add, Memory.read_write] at h
    generalize hm1 : (m.write 0 c.hdr).write 1 [byteAt c.hdr 1 ||| 0x40] = m1 at h1
    have h2 := Memory.read_write_next m1 0 c.hdr.length (ccmp_header c.pn c.key_id)
    rw [Nat.zero_add, hhdr, h1] at h2
    generalize hm2 : m1.write c.hdr.length (ccmp_header c.pn c.key_id) = m2 at h2
    have h3 := Memory.read_write_next m2 0 (c.hdr.length + 8) ct
    rw [Nat.zero_add, h2, hct] at h3
    generalize hm3 : m2.write (c.hdr.length + 8) ct = m3 at h3
    have h4 := Memory.read_write_next m3 0 (c.hdr.length + 8 + c.plain.length) tag.val
    rw [Nat.zero_add, h3, htag] at h4
    refine ⟨_, rfl, ?_, ?_, ?_⟩
    · rw [hlen]
      exact hneed
    · rw [hlen, hone, hm1, hm2]
      unfold kCcmpHdrLen
      rw [hm3, ← Nat.add_assoc, h4]
      simp only [List.append_assoc]
    · rw [hlen]
      omega

/-- A call that succeeds has a nonce and a PN of 48 bits. -/
theorem Sealing.of_success {c : Sealing} (h : c.frame.isSome = true) :
    c.pn ≤ kCcmpPnMax ∧ c.nonce.isSome = true := by
  unfold Sealing.frame ccmp_encrypt at h
  dsimp only at h
  by_cases hpn : c.pn > kCcmpPnMax
  · rw [if_pos hpn] at h
    cases h
  · refine ⟨UInt64.not_lt.mp hpn, ?_⟩
    rw [if_neg hpn] at h
    split at h
    · cases h
    split at h
    · rename_i hnonce
      unfold Sealing.nonce
      rw [hnonce]
      rfl
    · cases h

/-! ## The law -/

/-- CCMP authenticates the version and the immutable fields of a header and nothing else of it.
Frames that are sealed under one nonce have one triple of flags, A2 and PN. A PN past its 48 bits is
refused with the memory as it was. -/
theorem ccmp_tells_headers_and_calls_apart :
    (∀ (a b : Bytes) (a_len b_len : Nat), ccmp_need a ≤ a_len → ccmp_need b ≤ b_len →
      (ccmp_aad a a_len = ccmp_aad b b_len ↔
        fc_version a = fc_version b ∧ ImmutableFields a b)) ∧
      (∀ (c d : Sealing) (m n : Memory), (c.write_to m).2 ≠ 0 → (d.write_to n).2 ≠ 0 →
        c.nonce = d.nonce →
        ccmp_nonce_flags c.hdr = ccmp_nonce_flags d.hdr ∧ c.a2 = d.a2 ∧ c.pn = d.pn) ∧
      ∀ (c : Sealing) (m : Memory), c.pn > kCcmpPnMax → c.write_to m = (m, 0) := by
  refine ⟨fun a b a_len b_len ha hb => aad_eq_iff ha hb, ?_, ?_⟩
  · intro c d m n hc hd heq
    have hsome : ∀ (x : Sealing) (k : Memory), (x.write_to k).2 ≠ 0 → x.frame.isSome = true := by
      intro x k hx
      rcases x.write_to_frame k with ⟨-, h0⟩ | ⟨f, hf, -⟩
      · exact absurd h0 hx
      · rw [hf]
        rfl
    obtain ⟨hcpn, hcn⟩ := Sealing.of_success (hsome c m hc)
    obtain ⟨hdpn, -⟩ := Sealing.of_success (hsome d n hd)
    obtain ⟨nonce, hn⟩ := Option.isSome_iff_exists.mp hcn
    exact ccmp_nonce_inj hcpn hdpn hn (heq.symm.trans hn)
  · intro c m hpn
    unfold Sealing.write_to ccmp_encrypt_to
    dsimp only
    rw [if_pos hpn]

/-- Two data headers that differ in the protocol version alone have two AADs. -/
theorem the_version_is_authenticated :
    ¬ ∀ (a b : Bytes) (a_len b_len : Nat), ccmp_need a ≤ a_len → ccmp_need b ≤ b_len →
      (ccmp_aad a a_len = ccmp_aad b b_len ↔ ImmutableFields a b) := by
  intro h
  have hfields : ImmutableFields (0x08 :: List.replicate 23 0) (0x09 :: List.replicate 23 0) := by
    constructor
    all_goals decide
  have hsame := (h (0x08 :: List.replicate 23 0) (0x09 :: List.replicate 23 0) 24 24 (by decide)
    (by decide)).mpr hfields
  revert hsame
  decide

end devourer.sta
