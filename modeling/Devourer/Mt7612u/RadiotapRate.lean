-- The rate of a header: what each field asks for alone, and which of them is
-- heard where several stand in one header.
import Devourer.Mt7612u.RadiotapFields

namespace devourer.mt7612u

/-! ## The four fields that matter -/

section Steps

variable (present0 : BitVec 32) (value : ℕ → Bytes)

/-- What a bit does to the rate, where it is present. -/
def rt_step (r : TxRate) (bit : ℕ) : TxRate :=
  if present0.getLsbD bit then rt_take (value bit) present0 bit 0 r else r

theorem rt_step_other {bit : ℕ} (hrate : bit ≠ RT_RATE) (hflags : bit ≠ RT_TX_FLAGS)
    (hmcs : bit ≠ RT_MCS) (hvht : bit ≠ RT_VHT) (r : TxRate) :
    rt_step present0 value r bit = r := by
  unfold rt_step rt_take
  rw [if_neg hrate, if_neg hflags, if_neg hmcs, if_neg hvht, ite_self]

theorem rt_step_others (bits : List ℕ)
    (h : ∀ k ∈ bits, k ≠ RT_RATE ∧ k ≠ RT_TX_FLAGS ∧ k ≠ RT_MCS ∧ k ≠ RT_VHT) (r : TxRate) :
    bits.foldl (rt_step present0 value) r = r := by
  induction bits generalizing r with
  | nil => rfl
  | cons bit bits ih =>
    obtain ⟨hrate, hflags, hmcs, hvht⟩ := h bit List.mem_cons_self
    rw [List.foldl_cons, rt_step_other present0 value hrate hflags hmcs hvht]
    exact ih (fun k hk => h k (List.mem_cons_of_mem _ hk)) r

/-- RATE, TX_FLAGS, MCS and VHT, in this order. -/
theorem foldl_field_bits (r : TxRate) :
    (field_bits present0).foldl (fun r bit => rt_take (value bit) present0 bit 0 r) r =
      [RT_RATE, RT_TX_FLAGS, RT_MCS, RT_VHT].foldl (rt_step present0 value) r := by
  have hsplit : List.range 31 = [0, 1] ++ [RT_RATE] ++ List.range' 3 12 ++ [RT_TX_FLAGS] ++
      List.range' 16 3 ++ [RT_MCS] ++ [20] ++ [RT_VHT] ++ List.range' 22 9 := by decide
  rw [field_bits, List.foldl_filter]
  change (List.range 31).foldl (rt_step present0 value) r = _
  rw [hsplit]
  simp only [List.foldl_append]
  rw [rt_step_others present0 value [0, 1] (by decide),
    rt_step_others present0 value (List.range' 3 12) (by decide),
    rt_step_others present0 value (List.range' 16 3) (by decide),
    rt_step_others present0 value [20] (by decide),
    rt_step_others present0 value (List.range' 22 9) (by decide)]
  rfl

end Steps

/-! ## A field that stands alone -/

/-- The shortest header with this field and no other. -/
def lone_header (bit : ℕ) (v : Bytes) : Bytes :=
  [0, 0] ++ (put_le16 (BitVec.ofNat 16 (8 + v.length)) ++ (put_le32 (BIT bit) ++ v))

/-- The rate that a field asks for when it is given alone. -/
def alone (bit : ℕ) (v : Bytes) : TxRate := (mt_radiotap_parse (some (lone_header bit v))).2

section Lone

variable {bit : ℕ} {v : Bytes}

theorem length_lone : (lone_header bit v).length = 8 + v.length := by
  simp only [lone_header, List.length_append, length_put_le16, length_put_le32, List.length_cons,
    List.length_nil]
  omega

theorem drop_lone : (lone_header bit v).drop 8 = v := by
  rw [lone_header, ← List.append_assoc, ← List.append_assoc]
  apply List.drop_left'
  rw [List.length_append, List.length_append, length_put_le16, length_put_le32]
  rfl

theorem it_len_lone (hv : v.length ≤ 12) : it_len (lone_header bit v) = 8 + v.length := by
  have hword : rd16 (lone_header bit v) 2 = BitVec.ofNat 16 (8 + v.length) := by
    apply Wire.getLe_of_bytes _ (by decide)
    intro i hi
    have hskip : byteAt (lone_header bit v) (2 + i) =
        byteAt (put_le16 (BitVec.ofNat 16 (8 + v.length)) ++ (put_le32 (BIT bit) ++ v)) i := by
      rw [Nat.add_comm]
      rfl
    rw [hskip, byteAt_append_left _ (by rw [length_put_le16]; exact hi)]
    rfl
  rw [it_len, hword, BitVec.toNat_ofNat]
  omega

theorem rd32_lone : rd32 (lone_header bit v) 4 = BIT bit := by
  apply Wire.getLe_of_bytes _ (by decide)
  intro i hi
  have hfront : ([0, 0] ++ put_le16 (BitVec.ofNat 16 (8 + v.length))).length = 4 := by
    rw [List.length_append, length_put_le16]
    rfl
  rw [lone_header, ← List.append_assoc, byteAt_append_right _ (by omega), hfront,
    Nat.add_sub_cancel_left, byteAt_append_left _ (by rw [length_put_le32]; exact hi)]
  rfl

theorem field_bits_lone : ∀ bit < 24, Field bit → field_bits (BIT bit) = [bit] ∧
    (BIT bit).getLsbD 31 = false ∧ (natural bit).1 ∣ 8 ∧ 0 < (natural bit).1 ∧
    (natural bit).2 ≤ 12 := by decide

/-- The shortest header is a well-formed one. -/
def lone (hbit : Field bit) (hv : v.length = (natural bit).2) : Header where
  b := lone_header bit v
  present0 := BIT bit
  more := []
  start := 8
  value _ := v
  stop := 8 + (natural bit).2
  version := rfl
  present := Present.single rd32_lone (field_bits_lone bit hbit.lt hbit).2.1
  few := Nat.zero_le 7
  blank := by
    intro word hword
    exact absurd hword List.not_mem_nil
  fields := by
    intro k hk
    rw [(field_bits_lone bit hbit.lt hbit).1] at hk
    rw [List.mem_singleton.mp hk]
    exact hbit
  laid := by
    obtain ⟨hbits, -, hdvd, hpos, -⟩ := field_bits_lone bit hbit.lt hbit
    rw [hbits]
    apply Laid.cons hdvd (Nat.le_refl 8) (Nat.lt_add_of_pos_right hpos) hv
    · rw [drop_lone, List.take_length]
    · exact Laid.nil _
  covers := by
    rw [it_len_lone (by rw [hv]; exact (field_bits_lone bit hbit.lt hbit).2.2.2.2), hv]
  inside := by
    rw [it_len_lone (by rw [hv]; exact (field_bits_lone bit hbit.lt hbit).2.2.2.2), length_lone]

theorem alone_eq (hbit : Field bit) (hv : v.length = (natural bit).2) :
    alone bit v = rt_take v (BIT bit) bit 0 { phy := .OFDM, nss := 1 } := by
  have hparse := (lone hbit hv).parse_eq
  have hbits : field_bits (lone hbit hv).present0 = [bit] := (field_bits_lone bit hbit.lt hbit).1
  rw [hbits] at hparse
  exact congrArg Prod.snd hparse

end Lone

/-! ## Several fields in one header -/

namespace Header

variable (h : Header)

def has (bit : ℕ) : Bool := h.present0.getLsbD bit

/-- What a field of the header asks for alone. -/
def given (bit : ℕ) : TxRate := alone bit (h.value bit)

/-- A VHT field is heard before an MCS field, and that before a RATE field. -/
def asked : TxRate :=
  if h.has RT_VHT then h.given RT_VHT
  else if h.has RT_MCS then h.given RT_MCS
  else if h.has RT_RATE then h.given RT_RATE
  else { phy := .OFDM, nss := 1 }

/-- An MCS field says yes to a flag, beside a VHT field that does not. -/
def Beside (flag : TxRate → Bool) : Prop :=
  h.has RT_VHT = true ∧ h.has RT_MCS = true ∧ flag (h.given RT_MCS) = true ∧
    flag (h.given RT_VHT) = false

/-- The VHT field declares its STBC flag. -/
def DeclaresStbc : Prop := rd16 (h.value RT_VHT) 0 &&& 0x0004 ≠ 0

/-- The rate that the header asks for. Of a VHT field and an MCS field in one header it is left open
whether a flag holds that the MCS field alone says yes to. -/
structure AsAsked (r : TxRate) : Prop where
  phy : r.phy = h.asked.phy
  mcs : r.mcs = h.asked.mcs
  nss : r.nss = h.asked.nss
  bw : r.bw = h.asked.bw
  power_adj : r.power_adj = h.asked.power_adj
  no_ack : r.no_ack = (h.has RT_TX_FLAGS && (h.given RT_TX_FLAGS).no_ack)
  sgi : ¬h.Beside TxRate.sgi → r.sgi = h.asked.sgi
  ldpc : ¬h.Beside TxRate.ldpc → r.ldpc = h.asked.ldpc
  stbc : h.DeclaresStbc ∨ ¬h.Beside TxRate.stbc → r.stbc = h.asked.stbc

theorem given_eq {bit : ℕ} (hbit : Field bit) (hhas : h.has bit = true) :
    h.given bit = rt_take (h.value bit) (BIT bit) bit 0 { phy := .OFDM, nss := 1 } := by
  have hmem : bit ∈ field_bits h.present0 := by
    apply List.mem_filter.mpr
    exact ⟨List.mem_range.mpr (by have := hbit.lt; omega), hhas⟩
  exact alone_eq hbit (h.laid.length_value hmem)

theorem step_present {bit : ℕ} (hhas : h.has bit = true) (r : TxRate) :
    rt_step h.present0 h.value r bit = rt_take (h.value bit) h.present0 bit 0 r := if_pos hhas

theorem step_absent {bit : ℕ} (hhas : ¬h.has bit = true) (r : TxRate) :
    rt_step h.present0 h.value r bit = r := if_neg hhas

theorem take_flags (v : Bytes) (present0 : BitVec 32) (r : TxRate) :
    rt_take v present0 RT_TX_FLAGS 0 r =
      if rd16 v 0 &&& RT_TX_FLAGS_NOACK ≠ 0 then { r with no_ack := true } else r := rfl

/-- Whether the frame wants no ACK. -/
def no_ack : Bool := h.has RT_TX_FLAGS && (h.given RT_TX_FLAGS).no_ack

theorem no_ack_step {r : TxRate} (hr : r.no_ack = false) :
    rt_step h.present0 h.value r RT_TX_FLAGS = { r with no_ack := h.no_ack } := by
  obtain ⟨phy, mcs, nss, bw, sgi, ldpc, stbc, na, adj⟩ := r
  cases hr
  unfold no_ack
  by_cases hflags : h.has RT_TX_FLAGS = true
  · rw [h.step_present hflags, hflags, Bool.true_and, h.given_eq (by decide) hflags, take_flags,
      take_flags]
    split <;> rfl
  · rw [h.step_absent hflags, Bool.eq_false_iff.mpr hflags, Bool.false_and]

/-- The rate without the VHT field. -/
def below_vht : TxRate :=
  if h.has RT_MCS then h.given RT_MCS
  else if h.has RT_RATE then h.given RT_RATE
  else { phy := .OFDM, nss := 1 }

theorem rate_step : rt_step h.present0 h.value { phy := .OFDM, nss := 1 } RT_RATE =
    if h.has RT_MCS then { phy := .OFDM, nss := 1 } else h.below_vht := by
  unfold below_vht
  by_cases hrate : h.has RT_RATE = true
  · rw [h.step_present hrate, if_pos hrate]
    by_cases hmcs : h.has RT_MCS = true
    · rw [if_pos hmcs]
      exact if_pos hmcs
    · rw [if_neg hmcs, if_neg hmcs, h.given_eq (by decide) hrate]
      exact if_neg hmcs
  · rw [h.step_absent hrate, if_neg hrate]
    split <;> rfl

/-- Up to the VHT field the rate is what MCS, or else RATE, asks for. -/
theorem below_vht_steps :
    [RT_RATE, RT_TX_FLAGS, RT_MCS].foldl (rt_step h.present0 h.value) { phy := .OFDM, nss := 1 } =
      { h.below_vht with no_ack := h.no_ack } := by
  rw [List.foldl_cons, List.foldl_cons, List.foldl_cons, List.foldl_nil, h.rate_step]
  by_cases hmcs : h.has RT_MCS = true
  · rw [if_pos hmcs, h.no_ack_step rfl, h.step_present hmcs, below_vht, if_pos hmcs,
      h.given_eq (by decide) hmcs]
    rfl
  · have hna : h.below_vht.no_ack = false := by
      rw [below_vht, if_neg hmcs]
      split
      · next hrate =>
        rw [h.given_eq (by decide) hrate]
        rfl
      · rfl
    rw [if_neg hmcs, h.no_ack_step hna, h.step_absent hmcs]

/-- The rate of the header. -/
def rate : TxRate := rt_step h.present0 h.value { h.below_vht with no_ack := h.no_ack } RT_VHT

theorem parse_rate : mt_radiotap_parse (some h.b) = ((it_len h.b : ℤ), h.rate) := by
  rw [h.parse_eq, foldl_field_bits, show [RT_RATE, RT_TX_FLAGS, RT_MCS, RT_VHT] =
    [RT_RATE, RT_TX_FLAGS, RT_MCS] ++ [RT_VHT] from rfl, List.foldl_append, h.below_vht_steps]
  rfl

/-- A flag that the VHT field or what stands below it says yes to. -/
theorem vht_flag {flag : TxRate → Bool} (hvht : h.has RT_VHT = true)
    (hrate : ∀ v present0, flag (rt_take v present0 RT_RATE 0 { phy := .OFDM, nss := 1 }) = false)
    (hplain : flag { phy := .OFDM, nss := 1 } = false)
    (hor : flag h.rate = (flag (h.given RT_VHT) || flag h.below_vht))
    (hbeside : ¬h.Beside flag) : flag h.rate = flag h.asked := by
  have hasked : h.asked = h.given RT_VHT := if_pos hvht
  rw [hor, hasked]
  by_cases hyes : flag (h.given RT_VHT) = true
  · rw [hyes, Bool.true_or]
  have hno := Bool.eq_false_iff.mpr hyes
  have hbelow : flag h.below_vht = false := by
    unfold below_vht
    by_cases hmcs : h.has RT_MCS = true
    · rw [if_pos hmcs]
      apply Bool.eq_false_iff.mpr
      intro hflag
      exact hbeside ⟨hvht, hmcs, hflag, hno⟩
    · rw [if_neg hmcs]
      split
      · next hhas =>
        rw [h.given_eq (by decide) hhas]
        exact hrate _ _
      · exact hplain
  rw [hbelow, Bool.or_false]

theorem take_rate_plain (v : Bytes) (present0 : BitVec 32) :
    let r := rt_take v present0 RT_RATE 0 { phy := .OFDM, nss := 1 }
    r.sgi = false ∧ r.ldpc = false ∧ r.stbc = false ∧ r.power_adj = 0 := by
  unfold rt_take
  rw [if_pos rfl]
  split
  · exact ⟨rfl, rfl, rfl, rfl⟩
  · exact ⟨rfl, rfl, rfl, rfl⟩

theorem below_vht_power : h.below_vht.power_adj = 0 := by
  unfold below_vht
  split
  · next hmcs =>
    rw [h.given_eq (by decide) hmcs]
    rfl
  split
  · next hrate =>
    rw [h.given_eq (by decide) hrate]
    exact (take_rate_plain _ _).2.2.2
  · rfl

theorem as_asked : h.AsAsked h.rate := by
  by_cases hvht : h.has RT_VHT = true
  · have hasked : h.asked = h.given RT_VHT := if_pos hvht
    have hgiven := h.given_eq (by decide) hvht
    have hrate : h.rate = rt_take (h.value RT_VHT) h.present0 RT_VHT 0
        { h.below_vht with no_ack := h.no_ack } := h.step_present hvht _
    refine ⟨?_, ?_, ?_, ?_, ?_, ?_, ?_, ?_, ?_⟩
    · rw [hrate, hasked, hgiven]
      rfl
    · rw [hrate, hasked, hgiven]
      rfl
    · rw [hrate, hasked, hgiven]
      rfl
    · rw [hrate, hasked, hgiven]
      rfl
    · rw [hrate, hasked, hgiven]
      exact h.below_vht_power
    · rw [hrate]
      rfl
    · apply h.vht_flag hvht (fun v p => (take_rate_plain v p).1) rfl
      rw [hrate, hgiven]
      change (_ || h.below_vht.sgi) = ((_ || false) || h.below_vht.sgi)
      rw [Bool.or_false]
    · apply h.vht_flag hvht (fun v p => (take_rate_plain v p).2.1) rfl
      rw [hrate, hgiven]
      change (_ || h.below_vht.ldpc) = ((_ || false) || h.below_vht.ldpc)
      rw [Bool.or_false]
    · intro hopen
      by_cases hdeclares : h.DeclaresStbc
      · rw [hrate, hasked, hgiven]
        exact (if_pos hdeclares).trans (if_pos hdeclares).symm
      · apply h.vht_flag hvht (fun v p => (take_rate_plain v p).2.2.1) rfl
        · have hgiven0 : (rt_take (h.value RT_VHT) (BIT RT_VHT) RT_VHT 0
              { phy := .OFDM, nss := 1 }).stbc = false := if_neg hdeclares
          have hrate0 : (rt_take (h.value RT_VHT) h.present0 RT_VHT 0
              { h.below_vht with no_ack := h.no_ack }).stbc = h.below_vht.stbc := if_neg hdeclares
          rw [hrate, hgiven, hrate0, hgiven0, Bool.false_or]
        · exact hopen.resolve_left hdeclares
  · have hasked : h.asked = h.below_vht := if_neg hvht
    have hrate : h.rate = { h.below_vht with no_ack := h.no_ack } := h.step_absent hvht _
    rw [hrate, ← hasked]
    exact ⟨rfl, rfl, rfl, rfl, rfl, rfl, fun _ => rfl, fun _ => rfl, fun _ => rfl⟩

end Header

/-- Where the fields of a header lie, what it asks for, and how far the parser reads. -/
theorem radiotap_takes_the_right_bytes :
    (∀ h : Header, ∃ r, mt_radiotap_parse (some h.b) = ((it_len h.b : ℤ), r) ∧ h.AsAsked r) ∧
    (∀ b : Bytes, mt_radiotap_parse_in (Reach.upto b (max 4 (it_len b))) =
      some (mt_radiotap_parse (some b))) ∧
    ∀ (b : Bytes) (words : List (BitVec 32)) (start : ℕ) (bits behind : List ℕ),
      Present b 4 words start → rt_bits words = bits ++ behind → (∀ k ∈ bits, Field k) →
      it_len b < fields_end bits start → (mt_radiotap_parse (some b)).1 ≤ 0 := by
  refine ⟨?_, ?_, ?_⟩
  · intro h
    exact ⟨h.rate, h.parse_rate, h.as_asked⟩
  · intro b
    apply mt_radiotap_parse_in_eq
    rw [Reach.bytes_upto, Nat.min_comm]
    exact Nat.le_refl _
  · intro b words start bits behind hpresent hbits hfields hend
    exact overrun_refused hpresent hbits hfields hend

/-! ### An MCS field that wants a short guard interval, and a VHT field that does not -/

def mcs_and_vht_bytes : Bytes :=
  [0, 0, 24, 0, 0, 0, 0x28, 0, 4, 4, 7, 0] ++ [0, 0, 0, 4, 0x91, 0, 0, 0, 0, 0, 0, 0]

def mcs_and_vht_value (bit : ℕ) : Bytes :=
  if bit = RT_MCS then [4, 4, 7] else [0, 0, 0, 4, 0x91, 0, 0, 0, 0, 0, 0, 0]

theorem mcs_and_vht_present : Present mcs_and_vht_bytes 4 [0x280000] 8 :=
  Present.single (by decide) (by decide)

theorem mcs_and_vht_bits : field_bits 0x280000 = [RT_MCS, RT_VHT] := by decide

theorem mcs_and_vht_laid :
    Laid mcs_and_vht_bytes mcs_and_vht_value (field_bits 0x280000) 8 24 := by
  rw [mcs_and_vht_bits]
  apply Laid.cons (o := 8) (by decide) (by decide) (by decide) (by decide) (by decide)
  apply Laid.cons (o := 12) (by decide) (by decide) (by decide) (by decide) (by decide)
  exact Laid.nil 24

theorem mcs_and_vht_fields : ∀ k ∈ field_bits 0x280000, Field k := by decide

theorem mcs_and_vht_it_len : it_len mcs_and_vht_bytes = 24 := by decide

def mcs_and_vht : Header where
  b := mcs_and_vht_bytes
  present0 := 0x280000
  more := []
  start := 8
  value := mcs_and_vht_value
  stop := 24
  version := rfl
  present := mcs_and_vht_present
  few := Nat.zero_le 7
  blank _ hword := absurd hword List.not_mem_nil
  fields := mcs_and_vht_fields
  laid := mcs_and_vht_laid
  covers := Nat.le_of_eq mcs_and_vht_it_len.symm
  inside := Nat.le_of_eq mcs_and_vht_it_len

/-- A header of 8 bytes that declares a RATE field. -/
def cut_off : Bytes := [0, 0, 8, 0, 4, 0, 0, 0]

theorem radiotap_of_mcs_and_vht :
    (∃ r, mt_radiotap_parse (some mcs_and_vht_bytes) = (24, r) ∧ r.phy = .VHT) ∧
    (mt_radiotap_parse (some cut_off)).1 ≤ 0 := by
  obtain ⟨htakes, -, hrefuses⟩ := radiotap_takes_the_right_bytes
  refine ⟨?_, ?_⟩
  · obtain ⟨r, hr, hasked⟩ := htakes mcs_and_vht
    have hphy : mcs_and_vht.asked.phy = .VHT := by decide
    have hit : it_len mcs_and_vht.b = 24 := mcs_and_vht_it_len
    rw [hit] at hr
    exact ⟨r, hr, hasked.phy.trans hphy⟩
  · exact hrefuses cut_off [4] 8 [RT_RATE] [] (Present.single (by decide) (by decide))
      (by decide) (by decide) (by decide)

theorem a_flag_of_mcs_and_the_head_of_a_header :
    (mt_radiotap_parse (some mcs_and_vht.b)).2.sgi = true ∧ mcs_and_vht.asked.sgi = false ∧
    mt_radiotap_parse_in (Reach.upto (List.replicate 8 0) (it_len (List.replicate 8 0))) =
      none := by
  decide

end devourer.mt7612u
