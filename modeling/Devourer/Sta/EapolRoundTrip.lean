-- What is built is parsed again, and its MIC verifies: the EAPOL-Key frame
-- field by field, whatever stands behind it.
import Devourer.Lib.Wire
import Devourer.Sta.Eapol

namespace devourer.sta

open Wire

/-! ## Big-endian fields -/

theorem put_be16_eq (v : UInt16) : put_be16 v = putBe 2 v.toBitVec := rfl

theorem eapol_put_be64_eq (v : UInt64) : eapol_put_be64 v = putBe 8 v.toBitVec := by
  apply List.map_congr_left
  intro i hi
  have hi := List.mem_range.mp hi
  have hmod : 8 * (7 - i) % 64 = 8 * (7 - i) := by omega
  have hmask : ∀ j < 8, (255#8).getLsbD j = true := by decide
  apply UInt8.toBitVec_inj.mp
  apply BitVec.eq_of_getLsbD_eq
  intro j hj
  simp only [UInt64.toBitVec_toUInt8]
  simp [hmod]
  intro _ _
  exact hmask j hj

theorem eapol_be16_eq (p : Bytes) (i : Nat) :
    eapol_be16 p i = UInt16.ofBitVec (getBe 16 2 fun n => byteAt p (i + n)) := by
  unfold eapol_be16
  apply UInt16.toBitVec_inj.mp
  simp [getBe, List.range_succ]

theorem eapol_be64_eq (p : Bytes) (i : Nat) :
    eapol_be64 p i = UInt64.ofBitVec (getBe 64 8 fun n => byteAt p (i + n)) := rfl

/-- A byte of a field that stands at an offset. -/
theorem byteAt_field {p front x back : Bytes} (hp : p = front ++ (x ++ back)) {o : Nat}
    (ho : front.length = o) {i : Nat} (hi : i < x.length) : byteAt p (o + i) = byteAt x i := by
  rw [hp, byteAt_append_right _ (by omega), ← ho, Nat.add_sub_cancel_left, byteAt_append_left _ hi]

theorem eapol_be16_field {p front back : Bytes} {v : UInt16}
    (hp : p = front ++ (put_be16 v ++ back)) {o : Nat} (ho : front.length = o) :
    eapol_be16 p o = v := by
  rw [eapol_be16_eq, getBe_of_bytes v.toBitVec (by decide)]
  intro i hi
  rw [← put_be16_eq]
  exact byteAt_field hp ho hi

theorem eapol_be64_field {p front back : Bytes} {v : UInt64}
    (hp : p = front ++ (eapol_put_be64 v ++ back)) {o : Nat} (ho : front.length = o) :
    eapol_be64 p o = v := by
  rw [eapol_be64_eq, getBe_of_bytes v.toBitVec (by decide)]
  intro i hi
  rw [← eapol_put_be64_eq]
  exact byteAt_field hp ho (by rw [eapol_put_be64_eq, length_putBe]; exact hi)

theorem slice_field {p front back : Bytes} {n : Nat} {x : Octets n}
    (hp : p = front ++ (x.val ++ back)) {o : Nat} (ho : front.length = o) :
    Octets.slice p o n = x := by
  rw [hp]
  exact Octets.slice_append front x back ho

/-! ## The fields of a frame -/

/-- The values that a frame carries besides its MIC. -/
structure KeyFields where
  key_info : UInt16
  key_len : UInt16
  replay : UInt64
  nonce : Octets 32
  rsc : Octets 8
  key_data : Bytes
  proto_version : UInt8

namespace KeyFields

/-- The fields of a frame in their order. -/
def fields (f : KeyFields) (mic : Octets 16) : List Bytes :=
  [[f.proto_version, 3], put_be16 (kEapolKeyFixedLen - 4 + f.key_data.length).toUInt16,
    [kKeyDescTypeRsn], put_be16 f.key_info, put_be16 f.key_len, eapol_put_be64 f.replay,
    f.nonce.val, List.replicate 16 0, f.rsc.val, List.replicate 8 0, mic.val,
    put_be16 f.key_data.length.toUInt16, f.key_data]

def frame (f : KeyFields) (mic : Octets 16) : Bytes := (f.fields mic).flatten

/-- The frame as it is built, before its MIC. -/
def unsigned (f : KeyFields) : Bytes :=
  eapol_key_frame f.key_info f.key_len f.replay f.nonce f.rsc f.key_data f.proto_version

/-- What the frame is parsed to. -/
def parsed (f : KeyFields) (mic : Octets 16) (frame : Bytes) : EapolKey where
  frame := frame
  frame_len := kEapolKeyFixedLen + f.key_data.length
  descriptor := kKeyDescTypeRsn
  key_info := f.key_info
  version := f.key_info &&& kKiVersionMask
  key_len := f.key_len
  replay := f.replay
  nonce := f.nonce
  rsc := f.rsc
  mic := mic
  key_data := f.key_data
  key_data_len := f.key_data.length

/-- The two lengths fit their fields. -/
def Fits (f : KeyFields) : Prop := f.key_data.length ≤ 0xffff - (kEapolKeyFixedLen - 4)

end KeyFields

/-- A field, with what stands before and behind it. -/
theorem flatten_field (fs : List Bytes) (t : Bytes) {k : Nat} (hk : k < fs.length) :
    fs.flatten ++ t = (fs.take k).flatten ++ (fs[k] ++ ((fs.drop (k + 1)).flatten ++ t)) := by
  have hsplit : fs = fs.take k ++ fs[k] :: fs.drop (k + 1) := by
    rw [← List.drop_eq_getElem_cons hk, List.take_append_drop]
  conv_lhs => rw [hsplit]
  simp only [List.flatten_append, List.flatten_cons, List.append_assoc]

theorem length_put_be16 (v : UInt16) : (put_be16 v).length = 2 := rfl

theorem length_put_be64 (v : UInt64) : (eapol_put_be64 v).length = 8 := by
  rw [eapol_put_be64_eq, length_putBe]

variable (f : KeyFields) (mic : Octets 16)

/-- The unsigned frame has a MIC of zeros. -/
theorem unsigned_eq : f.unsigned = f.frame (Octets.zero 16) := by
  unfold KeyFields.unsigned KeyFields.frame KeyFields.fields eapol_key_frame
  simp only [List.flatten_cons, List.flatten_nil, List.append_nil, List.append_assoc]
  rfl

theorem length_frame : (f.frame mic).length = kEapolKeyFixedLen + f.key_data.length := by
  unfold KeyFields.frame KeyFields.fields
  simp only [List.flatten_cons, List.flatten_nil, List.length_append, List.length_cons,
    List.length_nil, List.length_replicate, length_put_be16, length_put_be64, f.nonce.property,
    f.rsc.property, mic.property, kEapolKeyFixedLen]
  omega

/-- Where the fields that are read start. -/
theorem field_offsets :
    ((f.fields mic).take 1).flatten.length = 2 ∧ ((f.fields mic).take 2).flatten.length = 4 ∧
      ((f.fields mic).take 3).flatten.length = 5 ∧ ((f.fields mic).take 4).flatten.length = 7 ∧
      ((f.fields mic).take 5).flatten.length = kEapolReplayOff ∧
      ((f.fields mic).take 6).flatten.length = kEapolNonceOff ∧
      ((f.fields mic).take 8).flatten.length = kEapolRscOff ∧
      ((f.fields mic).take 10).flatten.length = kEapolMicOff ∧
      ((f.fields mic).take 11).flatten.length = kEapolKeyDataLenOff ∧
      ((f.fields mic).take 12).flatten.length = kEapolKeyFixedLen := by
  simp only [KeyFields.fields, List.take_succ_cons, List.take_zero, List.flatten_cons,
    List.flatten_nil, List.length_append, List.length_cons, List.length_nil,
    List.length_replicate, length_put_be16, length_put_be64, f.nonce.property, f.rsc.property,
    mic.property]
  decide

/-! ## Parse -/

/-- A frame is parsed to its fields, whatever stands behind it. -/
theorem parse_frame (hfit : f.Fits) (t : Bytes) :
    parse_eapol_key (f.frame mic ++ t) = some (f.parsed mic (f.frame mic ++ t)) := by
  obtain ⟨h1, h2, h3, h4, h5, h6, h8, h10, h11, h12⟩ := field_offsets f mic
  have hlen := length_frame f mic
  have hat := fun k (hk : k < 13) => flatten_field (f.fields mic) t hk
  unfold KeyFields.Fits at hfit
  unfold KeyFields.frame at *
  generalize hp : (f.fields mic).flatten ++ t = p at hat ⊢
  have hplen : p.length = kEapolKeyFixedLen + f.key_data.length + t.length := by
    rw [← hp, List.length_append, hlen]
  have htype : byteAt p 1 = 3 := byteAt_field (hat 0 (by decide)) rfl Nat.one_lt_two
  have hbody : eapol_be16 p 2 = (kEapolKeyFixedLen - 4 + f.key_data.length).toUInt16 :=
    eapol_be16_field (hat 1 (by decide)) h1
  have hdescriptor : byteAt p 4 = kKeyDescTypeRsn :=
    byteAt_field (hat 2 (by decide)) h2 Nat.one_pos
  have hinfo : eapol_be16 p 5 = f.key_info :=
    eapol_be16_field (hat 3 (by decide)) h3
  have hkey_len : eapol_be16 p 7 = f.key_len :=
    eapol_be16_field (hat 4 (by decide)) h4
  have hreplay : eapol_be64 p kEapolReplayOff = f.replay :=
    eapol_be64_field (hat 5 (by decide)) h5
  have hnonce : Octets.slice p kEapolNonceOff 32 = f.nonce :=
    slice_field (hat 6 (by decide)) h6
  have hrsc : Octets.slice p kEapolRscOff 8 = f.rsc :=
    slice_field (hat 8 (by decide)) h8
  have hmic : Octets.slice p kEapolMicOff 16 = mic :=
    slice_field (hat 10 (by decide)) h10
  have hkdlen : eapol_be16 p kEapolKeyDataLenOff = f.key_data.length.toUInt16 :=
    eapol_be16_field (hat 11 (by decide)) h11
  have hdata : (p.drop kEapolKeyFixedLen).take f.key_data.length = f.key_data := by
    have hlast : p = ((f.fields mic).take 12).flatten ++ (f.key_data ++ ([] ++ t)) :=
      hat 12 (by decide)
    rw [hlast, ← h12, List.drop_left, List.take_left]
  have hbody_len := toUInt16_toNat (n := kEapolKeyFixedLen - 4 + f.key_data.length)
    (by simp only [kEapolKeyFixedLen] at hfit ⊢; omega)
  have hdata_len := toUInt16_toNat (n := f.key_data.length) (by omega)
  unfold parse_eapol_key
  simp only [htype, hbody, hdescriptor, hkdlen, hbody_len, hdata_len, hinfo, hkey_len, hreplay,
    hnonce, hrsc, hmic, hdata, ne_eq, not_true_eq_false, if_false]
  rw [if_neg (by omega), if_neg (by omega), if_neg (by simp only [kEapolKeyFixedLen] at *; omega),
    if_neg (by simp only [kEapolKeyFixedLen]; omega)]
  have htotal : 4 + (kEapolKeyFixedLen - 4 + f.key_data.length) =
      kEapolKeyFixedLen + f.key_data.length := by
    simp only [kEapolKeyFixedLen]
    omega
  rw [htotal]
  rfl

/-- The descriptor type and both declared lengths fit together, inside the buffer. -/
structure Consistent (p : Bytes) : Prop where
  type : byteAt p 1 = 3
  descriptor : byteAt p 4 = kKeyDescTypeRsn
  lengths : 4 + (eapol_be16 p 2).toNat =
    kEapolKeyFixedLen + (eapol_be16 p kEapolKeyDataLenOff).toNat
  inside : 4 + (eapol_be16 p 2).toNat ≤ p.length

/-- The lengths of a parsed key are those declared. -/
structure Declared (p : Bytes) (k : EapolKey) : Prop where
  frame : k.frame = p
  frame_len : k.frame_len = 4 + (eapol_be16 p 2).toNat
  key_data_len : k.key_data_len = (eapol_be16 p kEapolKeyDataLenOff).toNat
  key_data : k.key_data.length = k.key_data_len

/-- Just the consistent frames are parsed. -/
theorem parse_isSome_iff (p : Bytes) : (parse_eapol_key p).isSome ↔ Consistent p := by
  unfold parse_eapol_key
  constructor
  · intro h
    split at h
    · cases h
    · split at h
      · cases h
      · rename_i htype
        dsimp only at h
        split at h
        · cases h
        · split at h
          · cases h
          · rename_i hinside
            split at h
            · cases h
            · rename_i hdescriptor
              split at h
              · cases h
              · rename_i hlengths
                exact ⟨not_not.mp htype, not_not.mp hdescriptor, (not_not.mp hlengths).symm,
                  Nat.le_of_not_lt hinside⟩
  · rintro ⟨htype, hdescriptor, hlengths, hinside⟩
    have hfixed : kEapolKeyFixedLen ≤ p.length := by omega
    have hbody : kEapolKeyFixedLen - 4 ≤ (eapol_be16 p 2).toNat := by omega
    rw [if_neg (by omega), if_neg (not_not.mpr htype)]
    dsimp only
    rw [if_neg (by omega), if_neg (by omega), if_neg (not_not.mpr hdescriptor),
      if_neg (not_not.mpr hlengths.symm)]
    rfl

theorem parse_declared {p : Bytes} {k : EapolKey} (h : parse_eapol_key p = some k) :
    Declared p k := by
  have hp := (parse_isSome_iff p).mp (by rw [h]; rfl)
  have hlengths := hp.lengths
  have hinside := hp.inside
  unfold parse_eapol_key at h
  simp only [Option.ite_none_left_eq_some, Option.some.injEq] at h
  obtain ⟨-, -, -, -, -, -, rfl⟩ := h
  refine ⟨rfl, rfl, rfl, ?_⟩
  simp only [List.length_take, List.length_drop]
  omega

/-! ## The MIC -/

/-- The MIC field of a digest. -/
def mic_of (d : Octets 20) : Octets 16 :=
  ⟨d.val.take kEapolMicLen, by rw [List.length_take, d.property]; rfl⟩

/-- What stands before and behind the MIC does not depend on it. -/
theorem frame_mic : ∃ front back : Bytes, front.length = kEapolMicOff ∧
    ∀ mic : Octets 16, f.frame mic = front ++ (mic.val ++ back) := by
  obtain ⟨-, -, -, -, -, -, -, h10, -, -⟩ := field_offsets f (Octets.zero 16)
  refine ⟨((f.fields (Octets.zero 16)).take 10).flatten,
    ((f.fields (Octets.zero 16)).drop 11).flatten ++ [], h10, ?_⟩
  intro mic
  rw [← List.append_nil (f.frame mic)]
  exact flatten_field (f.fields mic) [] (show 10 < 13 by decide)

/-- The MIC field is replaced where it stands. -/
theorem with_mic_frame (mic' : Octets 16) {d : Bytes} (hd : d.take kEapolMicLen = mic'.val) :
    with_mic (f.frame mic) d = f.frame mic' := by
  obtain ⟨front, back, hfront, hframe⟩ := frame_mic f
  unfold with_mic
  rw [hframe, hframe, hd, ← hfront, List.take_left, ← List.append_assoc front mic.val]
  have hpast : front.length + kEapolMicLen = (front ++ mic.val).length := by
    rw [List.length_append, mic.property]
    rfl
  rw [hpast, List.drop_left, List.append_assoc]

/-- The MIC of a parsed frame verifies when it is the start of the digest of the unsigned frame. -/
theorem mic_ok_frame {c : CryptoOps} {kck : Octets 16} {d : Octets 20}
    (hversion : f.key_info &&& kKiVersionMask = kKeyDescVersionCcmp)
    (hbit : f.key_info &&& kKiMic ≠ 0) (hd : c.hmac_sha1 kck.val f.unsigned = some d) (t : Bytes) :
    eapol_mic_ok c kck (f.parsed (mic_of d) (f.frame (mic_of d) ++ t)) = .Ok := by
  have hhas : (f.parsed (mic_of d) (f.frame (mic_of d) ++ t)).has_mic = true :=
    bne_iff_ne.mpr hbit
  have hcopy : (f.frame (mic_of d) ++ t).take (kEapolKeyFixedLen + f.key_data.length) =
      f.frame (mic_of d) := by
    rw [← length_frame f (mic_of d), List.take_left]
  have hzeroed : with_mic (f.frame (mic_of d)) (List.replicate kEapolMicLen 0) = f.unsigned := by
    rw [unsigned_eq]
    exact with_mic_frame f (mic_of d) (Octets.zero 16) rfl
  have hgot : Octets.slice (f.frame (mic_of d) ++ t) kEapolMicOff kEapolMicLen = mic_of d := by
    obtain ⟨front, back, hfront, hframe⟩ := frame_mic f
    rw [hframe, List.append_assoc, List.append_assoc]
    exact Octets.slice_append front (mic_of d) (back ++ t) hfront
  have hlong : ¬ (f.parsed (mic_of d) (f.frame (mic_of d) ++ t)).frame_len < kEapolKeyFixedLen :=
    Nat.not_lt.mpr (Nat.le_add_right _ _)
  have hright : ¬ (f.parsed (mic_of d) (f.frame (mic_of d) ++ t)).version ≠ kKeyDescVersionCcmp :=
    not_not.mpr hversion
  unfold eapol_mic_ok
  rw [if_neg hlong, if_neg hright, hhas]
  simp only [Bool.not_true, Bool.false_eq_true, if_false, KeyFields.parsed]
  rw [hcopy, hzeroed, hd]
  simp only
  exact if_pos (congrArg Subtype.val hgot)

/-! ## Build -/

/-- The builder refuses key data that is too long or missing, and a MIC that is not computed. -/
def Refused (key_data : Option Bytes) (key_data_len : Nat) (crypto : Option CryptoOps)
    (mic_kck : Option (Octets 16)) (unsigned : Bytes) : Prop :=
  0xffff - (kEapolKeyFixedLen - 4) < key_data_len ∨ (key_data_len ≠ 0 ∧ key_data = none) ∨
    ∃ kck ∈ mic_kck, ∀ c ∈ crypto, c.hmac_sha1 kck.val unsigned = none

/-- The values that a call of the builder gives a frame. -/
def KeyFields.given (key_info key_len : UInt16) (replay : UInt64) (nonce : Option (Octets 32))
    (rsc : Option (Octets 8)) (key_data : Option Bytes) (key_data_len : Nat)
    (proto_version : UInt8) : KeyFields where
  key_info := key_info
  key_len := key_len
  replay := replay
  nonce := nonce.getD (Octets.zero 32)
  rsc := rsc.getD (Octets.zero 8)
  key_data := (key_data.getD []).take key_data_len
  proto_version := proto_version

section
variable (key_info key_len : UInt16) (replay : UInt64) (nonce : Option (Octets 32))
  (rsc : Option (Octets 8)) (key_data : Option Bytes) (key_data_len : Nat)
  (crypto : Option CryptoOps) (mic_kck : Option (Octets 16)) (proto_version : UInt8)

/-- What is built: nothing, or a frame whose MIC is that of the unsigned one where there is a
key. -/
theorem build_cases :
    let f := KeyFields.given key_info key_len replay nonce rsc key_data key_data_len proto_version
    let e := build_eapol_key key_info key_len replay nonce rsc key_data key_data_len crypto mic_kck
      proto_version
    (Refused key_data key_data_len crypto mic_kck f.unsigned ∧ e = []) ∨
    (¬ Refused key_data key_data_len crypto mic_kck f.unsigned ∧
      ∃ mic, e = f.frame mic ∧ ∀ c ∈ crypto, ∀ kck ∈ mic_kck, ∃ d,
        c.hmac_sha1 kck.val f.unsigned = some d ∧ mic = mic_of d) := by
  intro f e
  have he : e = build_eapol_key key_info key_len replay nonce rsc key_data key_data_len crypto
      mic_kck proto_version := rfl
  have hunsigned : eapol_key_frame key_info key_len replay (nonce.getD (Octets.zero 32))
      (rsc.getD (Octets.zero 8)) ((key_data.getD []).take key_data_len) proto_version =
      f.unsigned := rfl
  unfold build_eapol_key at he
  rw [hunsigned] at he
  by_cases hlong : 0xffff - (kEapolKeyFixedLen - 4) < key_data_len
  · rw [if_pos hlong] at he
    exact Or.inl ⟨Or.inl hlong, he⟩
  · rw [if_neg hlong] at he
    by_cases hmissing : key_data_len ≠ 0 ∧ key_data = none
    · rw [if_pos hmissing] at he
      exact Or.inl ⟨Or.inr (Or.inl hmissing), he⟩
    · rw [if_neg hmissing] at he
      cases mic_kck with
      | none =>
        have hplain : e = f.unsigned := by
          rw [he]
          cases crypto with
          | none => rfl
          | some c => rfl
        refine Or.inr ⟨?_, Octets.zero 16, by rw [hplain, unsigned_eq], ?_⟩
        · rintro (h | h | ⟨kck, hkck, -⟩)
          · exact hlong h
          · exact hmissing h
          · cases hkck
        · intro c _ kck hkck
          cases hkck
      | some kck =>
        cases crypto with
        | none =>
          refine Or.inl ⟨Or.inr (Or.inr ⟨kck, rfl, ?_⟩), he⟩
          intro c hc
          cases hc
        | some c =>
          cases hd : c.hmac_sha1 kck.val f.unsigned with
          | none =>
            simp only [Option.isNone_some, Bool.false_eq_true, and_false, if_false, hd] at he
            refine Or.inl ⟨Or.inr (Or.inr ⟨kck, rfl, ?_⟩), he⟩
            rintro c' ⟨⟩
            exact hd
          | some d =>
            simp only [Option.isNone_some, Bool.false_eq_true, and_false, if_false, hd] at he
            refine Or.inr ⟨?_, mic_of d, ?_, ?_⟩
            · rintro (h | h | ⟨kck', ⟨⟩, hfail⟩)
              · exact hlong h
              · exact hmissing h
              · have hnone := hfail c rfl
                rw [hd] at hnone
                cases hnone
            · rw [he, unsigned_eq]
              exact with_mic_frame f (Octets.zero 16) (mic_of d) rfl
            · rintro c' ⟨⟩ kck' ⟨⟩
              exact ⟨d, hd, rfl⟩

/-- What is not refused is parsed to what was given, whatever stands behind it, and its MIC
verifies under the same key; and just the consistent frames are parsed. -/
theorem eapol_key_agrees (hbuf : ∀ buf ∈ key_data, key_data_len ≤ buf.length) (t : Bytes) :
    let f := KeyFields.given key_info key_len replay nonce rsc key_data key_data_len proto_version
    let e := build_eapol_key key_info key_len replay nonce rsc key_data key_data_len crypto mic_kck
      proto_version
    (Refused key_data key_data_len crypto mic_kck f.unsigned → e = []) ∧
    (¬ Refused key_data key_data_len crypto mic_kck f.unsigned → ∃ mic,
      parse_eapol_key (e ++ t) = some (f.parsed mic (e ++ t)) ∧
        byteAt e 0 = proto_version ∧ e.length = kEapolKeyFixedLen + key_data_len ∧
        (f.parsed mic (e ++ t)).frame_len = kEapolKeyFixedLen + key_data_len ∧
        ∀ c ∈ crypto, ∀ kck ∈ mic_kck, key_info &&& kKiVersionMask = kKeyDescVersionCcmp →
          key_info &&& kKiMic ≠ 0 → eapol_mic_ok c kck (f.parsed mic (e ++ t)) = .Ok) ∧
    ∀ p, ((parse_eapol_key p).isSome ↔ Consistent p) ∧
      ∀ k, parse_eapol_key p = some k → Declared p k := by
  intro f e
  refine ⟨?_, ?_, fun p => ⟨parse_isSome_iff p, fun k hk => parse_declared hk⟩⟩
  · intro hrefused
    obtain ⟨-, he⟩ | ⟨hnot, -⟩ := build_cases key_info key_len replay nonce rsc key_data
      key_data_len crypto mic_kck proto_version
    · exact he
    · exact absurd hrefused hnot
  · intro hnot
    obtain ⟨hrefused, -⟩ | ⟨-, mic, he, hmic⟩ := build_cases key_info key_len replay nonce rsc
      key_data key_data_len crypto mic_kck proto_version
    · exact absurd hrefused hnot
    · have he : e = f.frame mic := he
      have hlen : f.key_data.length = key_data_len := by
        show ((key_data.getD []).take key_data_len).length = key_data_len
        rw [List.length_take]
        cases hdata : key_data with
        | none =>
          have hzero : key_data_len = 0 := by
            by_contra hne
            exact hnot (Or.inr (Or.inl ⟨hne, hdata⟩))
          rw [hzero]
          rfl
        | some buf => exact Nat.min_eq_left (hbuf buf hdata)
      have hfit : f.Fits := by
        unfold KeyFields.Fits
        rw [hlen]
        exact Nat.le_of_not_lt fun h => hnot (Or.inl h)
      refine ⟨mic, ?_, ?_, ?_, ?_, ?_⟩
      · rw [he]
        exact parse_frame f mic hfit t
      · rw [he]
        rfl
      · rw [he, length_frame, hlen]
      · rw [← hlen]
        rfl
      · intro c hc kck hkck hversion hbit
        obtain ⟨d, hd, rfl⟩ := hmic c hc kck hkck
        rw [he]
        exact mic_ok_frame f hversion hbit hd t

end

/-- A signed message 2 with three bytes of key data, in a padded buffer. -/
theorem a_padded_frame_agrees :
    let kck : Octets 16 := Octets.zero 16
    let e := build_eapol_key (kKeyDescVersionCcmp ||| kKiPairwise ||| kKiMic) 16 7
      (some (Octets.zero 32)) none (some [1, 2, 3]) 3 (some CryptoOps.standIn) (some kck)
      kEapolVersionSupplicant
    ∃ k, parse_eapol_key (e ++ [0, 0, 0, 0]) = some k ∧ k.replay = 7 ∧ k.key_data = [1, 2, 3] ∧
      k.frame_len = 102 ∧ eapol_mic_ok CryptoOps.standIn kck k = .Ok := by
  intro kck e
  have hbuf : ∀ buf ∈ some [(1 : UInt8), 2, 3], 3 ≤ buf.length := by
    rintro buf ⟨⟩
    exact Nat.le_refl 3
  obtain ⟨-, hbuilt, -⟩ := eapol_key_agrees (kKeyDescVersionCcmp ||| kKiPairwise ||| kKiMic) 16 7
    (some (Octets.zero 32)) none (some [1, 2, 3]) 3 (some CryptoOps.standIn) (some kck)
    kEapolVersionSupplicant hbuf [0, 0, 0, 0]
  obtain ⟨mic, hparse, -, -, hlen, hmic⟩ := hbuilt (by
    rintro (hlong | ⟨-, hmissing⟩ | ⟨kck', ⟨⟩, hfail⟩)
    · exact absurd hlong (by decide)
    · cases hmissing
    · cases hfail CryptoOps.standIn rfl)
  exact ⟨_, hparse, rfl, rfl, hlen, hmic CryptoOps.standIn rfl kck rfl (by decide) (by decide)⟩

end devourer.sta
