-- The radiotap parser with its reads checked: it reads the head of the header,
-- and behind that only bytes that the header declares as its own.
import Devourer.Mt7612u.RxParse

namespace devourer.mt7612u

def RT_DBM_TX_POWER : ℕ := 10

/-- How far into its field the branch of a present bit reads. -/
def rt_touched (present0 : BitVec 32) (bit : ℕ) : ℕ :=
  if bit = RT_RATE then if present0.getLsbD RT_MCS then 0 else 1
  else if bit = RT_TX_FLAGS then 2
  else if bit = RT_DBM_TX_POWER then 1
  else if bit = RT_MCS then 3
  else if bit = RT_VHT then 9
  else 0

/-- The present words, each read inside the limit. -/
def rt_present_in (w : Reach) (rlen : ℕ) : ℕ → ℕ → Option (Option (List (BitVec 32) × ℕ))
  | 0, _ => some none
  | left + 1, off =>
    if off + 4 > rlen then some none
    else do
      let word ← get_le32 w off
      if word.getLsbD 31 then
        let rest ← rt_present_in w rlen left (off + 4)
        some (rest.map fun (words, off) => (word :: words, off))
      else some (some ([word], off + 4))

/-- The fields of the present bits, each read inside the limit. -/
def rt_fields_in (w : Reach) (rlen : ℕ) (present0 : BitVec 32) :
    List ℕ → ℕ → TxRate → Option (ℤ × TxRate)
  | [], _, r => some (rlen, r)
  | bit :: bits, off, r =>
    match rt_field[bit]? with
    | none => some (rlen, r)
    | some (align, size) =>
      if size = 0 then some (rlen, r)
      else
        let off := Layout.alignUp align off
        if off + size > rlen then some (-1, r)
        else do
          let p ← w.read off (rt_touched present0 bit)
          rt_fields_in w rlen present0 bits (off + size) (rt_take p present0 bit 0 r)

/-- The parser on a buffer of which only a part may be read. It is `none` where a read falls at the
limit or beyond it. -/
def mt_radiotap_parse_in (w : Reach) : Option (ℤ × TxRate) :=
  if w.bytes.length < 8 then some (0, {})
  else do
    let version ← w.read 0 1
    if byteAt version 0 ≠ 0 then some (0, {})
    else
      let rlen := (← get_le16 w 2).toNat
      if rlen < 8 ∨ w.bytes.length < rlen then some (0, {})
      else
        match ← rt_present_in w rlen 8 4 with
        | none => some (0, {})
        | some (present, off) =>
          rt_fields_in w rlen (present.headD 0) (rt_bits present) off { phy := .OFDM, nss := 1 }

/-- The length that a header declares. -/
def it_len (b : Bytes) : ℕ := (rd16 b 2).toNat

/-! ## Each part reads no more than it may -/

/-- A field says the same wherever its bytes stand. -/
theorem rt_take_congr {b c : Bytes} {present0 : BitVec 32} {bit o p : ℕ}
    (h : ∀ i, i < rt_touched present0 bit → byteAt b (o + i) = byteAt c (p + i)) (r : TxRate) :
    rt_take b present0 bit o r = rt_take c present0 bit p r := by
  unfold rt_take
  by_cases hrate : bit = RT_RATE
  · rw [if_pos hrate, if_pos hrate]
    by_cases hmcs : present0.getLsbD RT_MCS = true
    · rw [if_pos hmcs, if_pos hmcs]
    · have hbyte : byteAt b o = byteAt c p := h 0 (by simp [rt_touched, hrate, hmcs])
      rw [if_neg hmcs, if_neg hmcs, hbyte]
  rw [if_neg hrate, if_neg hrate]
  by_cases hflags : bit = RT_TX_FLAGS
  · have htouched : rt_touched present0 bit = 2 := by
      rw [rt_touched, if_neg hrate, if_pos hflags]
    have hword : rd16 b o = rd16 c p := by
      apply rd16_congr
      rw [← htouched]
      exact h
    rw [if_pos hflags, if_pos hflags, hword]
  rw [if_neg hflags, if_neg hflags]
  by_cases hmcs : bit = RT_MCS
  · have htouched : rt_touched present0 bit = 3 := by
      subst hmcs
      rfl
    have h0 : byteAt b o = byteAt c p := h 0 (by omega)
    rw [if_pos hmcs, if_pos hmcs, h0, h 1 (by omega), h 2 (by omega)]
  rw [if_neg hmcs, if_neg hmcs]
  by_cases hvht : bit = RT_VHT
  · have htouched : rt_touched present0 bit = 9 := by
      subst hvht
      rfl
    have hword : rd16 b o = rd16 c p := by
      apply rd16_congr
      intro i hi
      exact h i (by omega)
    rw [if_pos hvht, if_pos hvht, hword, h 2 (by omega), h 3 (by omega), h 4 (by omega),
      h 8 (by omega)]
  · rw [if_neg hvht, if_neg hvht]

/-- No branch reads past its field. -/
theorem rt_touched_le {present0 : BitVec 32} {bit align size : ℕ}
    (h : rt_field[bit]? = some (align, size)) : rt_touched present0 bit ≤ size := by
  have hsize : ∀ {k a n : ℕ}, bit = k → rt_field[k]? = some (a, n) → size = n := by
    rintro k a n rfl hfield
    rw [h] at hfield
    exact congrArg Prod.snd (Option.some.inj hfield)
  unfold rt_touched
  split
  · next hrate =>
    have := hsize hrate rfl
    split <;> omega
  split
  · next hflags =>
    have := hsize hflags rfl
    omega
  split
  · next hpower =>
    have := hsize hpower rfl
    omega
  split
  · next hmcs =>
    have := hsize hmcs rfl
    omega
  split
  · next hvht =>
    have := hsize hvht rfl
    omega
  · exact Nat.zero_le _

variable {w : Reach} {rlen : ℕ}

theorem rt_present_in_eq (h : rlen ≤ w.limit) (left off : ℕ) :
    rt_present_in w rlen left off = some (rt_present w.bytes rlen left off) := by
  induction left generalizing off with
  | zero => rfl
  | succ left ih =>
    unfold rt_present_in rt_present
    by_cases hend : off + 4 > rlen
    · rw [if_pos hend, if_pos hend]
    rw [if_neg hend, if_neg hend, get_le32_eq (by omega)]
    simp only [Option.bind_eq_bind, Option.bind_some, ih]
    split <;> rfl

theorem rt_fields_in_eq (h : rlen ≤ w.limit) (present0 : BitVec 32) (bits : List ℕ) (off : ℕ)
    (r : TxRate) :
    rt_fields_in w rlen present0 bits off r =
      some (rt_fields w.bytes rlen present0 bits off r) := by
  induction bits generalizing off r with
  | nil => rfl
  | cons bit bits ih =>
    unfold rt_fields_in rt_fields
    cases hfield : rt_field[bit]? with
    | none => rfl
    | some field =>
      obtain ⟨align, size⟩ := field
      have htouched : rt_touched present0 bit ≤ size := rt_touched_le hfield
      dsimp only
      by_cases hsize : size = 0
      · rw [if_pos hsize, if_pos hsize]
      rw [if_neg hsize, if_neg hsize]
      by_cases hend : Layout.alignUp align off + size > rlen
      · rw [if_pos hend, if_pos hend]
      have htake :
          rt_take ((w.bytes.drop (Layout.alignUp align off)).take (rt_touched present0 bit))
            present0 bit 0 r = rt_take w.bytes present0 bit (Layout.alignUp align off) r := by
        apply rt_take_congr
        intro i hi
        rw [Nat.zero_add, byteAt_read _ _ hi]
      rw [if_neg hend, if_neg hend, Reach.read_eq (by omega), Option.bind_eq_bind,
        Option.bind_some, htake, ih]

/-- It reads the first 4 bytes, and behind them none that the header does not declare. -/
theorem mt_radiotap_parse_in_eq (h : min w.bytes.length (max 4 (it_len w.bytes)) ≤ w.limit) :
    mt_radiotap_parse_in w = some (mt_radiotap_parse (some w.bytes)) := by
  unfold mt_radiotap_parse_in mt_radiotap_parse
  dsimp only
  by_cases hshort : w.bytes.length < 8
  · rw [if_pos hshort, if_pos (Or.inl hshort)]
  have hversion : byteAt ((w.bytes.drop 0).take 1) 0 = byteAt w.bytes 0 :=
    byteAt_read _ _ (by decide)
  rw [if_neg hshort, Reach.read_eq (by omega), Option.bind_eq_bind, Option.bind_some, hversion]
  by_cases hzero : byteAt w.bytes 0 = 0
  · have hit : (rd16 w.bytes 2).toNat = it_len w.bytes := rfl
    rw [if_neg (not_not.mpr hzero), if_neg (by rintro (hlt | hne) <;> contradiction),
      get_le16_eq (by omega)]
    simp only [Option.bind_eq_bind, Option.bind_some, hit]
    by_cases hlen : it_len w.bytes < 8 ∨ w.bytes.length < it_len w.bytes
    · rw [if_pos hlen, if_pos hlen]
    · have hlimit : it_len w.bytes ≤ w.limit := by omega
      rw [if_neg hlen, if_neg hlen, rt_present_in_eq hlimit, Option.bind_some]
      cases rt_present w.bytes (it_len w.bytes) 8 4 with
      | none => rfl
      | some found => exact rt_fields_in_eq hlimit _ _ _ _
  · rw [if_pos hzero, if_pos (Or.inr hzero)]

end devourer.mt7612u
