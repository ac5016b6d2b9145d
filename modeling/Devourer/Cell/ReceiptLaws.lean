-- Receipts tell the truth from end to end: what the ledger holds delivered
-- was noted, and was in the window of a receipt that it took.
import Devourer.Lib.Runs
import Devourer.Cell.RxReceipt

namespace devourer.cell

open Wire

/-! ## What was noted -/

/-- The largest index that was noted. -/
def largest (noted : List UInt32) : ℕ := noted.foldl (fun m idx => max m idx.toNat) 0

/-- An index that was noted, and is among the last `w` up to the largest. -/
def Recent (w : ℕ) (noted : List UInt32) (i : ℕ) : Prop :=
  (∃ idx ∈ noted, idx.toNat = i) ∧ largest noted < i + w

@[simp] theorem largest_nil : largest [] = 0 := rfl

@[simp] theorem largest_snoc (noted : List UInt32) (idx : UInt32) :
    largest (noted ++ [idx]) = max (largest noted) idx.toNat := by
  simp [largest, List.foldl_append]

theorem le_largest {noted : List UInt32} {idx : UInt32} (h : idx ∈ noted) :
    idx.toNat ≤ largest noted := by
  induction noted using List.reverseRecOn with
  | nil => cases h
  | append_singleton noted last ih =>
    rw [largest_snoc]
    rcases List.mem_append.mp h with h | h
    · exact le_trans (ih h) (le_max_left _ _)
    · rw [List.mem_singleton.mp h]
      exact le_max_right _ _

/-- Two indices of one window have one slot only if they are the same. -/
theorem eq_of_mod_eq {w i j : ℕ} (hij : i ≤ j) (hnear : j < i + w) (h : i % w = j % w) : i = j := by
  have hdvd : w ∣ j - i := (Nat.modEq_iff_dvd' hij).mp h
  have hzero := Nat.eq_zero_of_dvd_of_lt hdvd (by omega)
  omega

namespace ReceiptWindow

variable {s : ReceiptWindow} {noted : List UInt32} {idx : UInt32}

/-- The window knows the largest index, and has the bits of the indices near it. -/
structure Tracks (s : ReceiptWindow) (noted : List UInt32) : Prop where
  any : s._any = false ↔ noted = []
  max : s._max.toNat = largest noted
  clean : noted = [] → ∀ k, Bitmap.get s._bits k = false
  bits : ∀ i, i ≤ largest noted → largest noted < i + s._w.toNat →
    (Bitmap.get s._bits (i % s._w.toNat) = true ↔ ∃ idx ∈ noted, idx.toNat = i)

theorem tracks_make (window_bits : UInt16) : Tracks (make window_bits) [] where
  any := by simp [make]
  max := rfl
  clean _ k := Bitmap.get_replicate _
  bits i _ _ := by
    have hclear : Bitmap.get (make window_bits)._bits (i % (make window_bits)._w.toNat) = false :=
      Bitmap.get_replicate _
    simp [hclear]

theorem slot_eq (s : ReceiptWindow) (idx : UInt32) : s.slot idx = idx.toNat % s._w.toNat :=
  UInt32.toNat_mod _ _

/-- A slot is in the words of the ring. -/
theorem slot_lt (s : ReceiptWindow) (i : ℕ) : i % s._w.toNat / 64 < s._bits.length := by
  have hlt := Nat.mod_lt i s.w_pos
  rw [s.length_bits]
  omega

theorem get_set_bit (s : ReceiptWindow) (idx : UInt32) (k : ℕ) :
    Bitmap.get (s.set_bit idx)._bits k =
      (decide (idx.toNat % s._w.toNat = k) || Bitmap.get s._bits k) := by
  rw [← slot_eq]
  exact Bitmap.get_set (by decide) (by rw [slot_eq]; exact s.slot_lt _)

/-- The clearing of many slots clears these and leaves the rest. -/
theorem foldl_clear_bit (is : List UInt32) (s : ReceiptWindow) :
    (is.foldl clear_bit s)._w = s._w ∧ (is.foldl clear_bit s)._any = s._any ∧
      ∀ k, Bitmap.get (is.foldl clear_bit s)._bits k =
        (!decide (k ∈ is.map fun i => i.toNat % s._w.toNat) && Bitmap.get s._bits k) := by
  induction is generalizing s with
  | nil => simp
  | cons i is ih =>
    obtain ⟨hw, hany, hbits⟩ := ih (s.clear_bit i)
    refine ⟨hw, hany, ?_⟩
    intro k
    have hclear : Bitmap.get (s.clear_bit i)._bits k =
        (!decide (i.toNat % s._w.toNat = k) && Bitmap.get s._bits k) := by
      rw [← slot_eq]
      exact Bitmap.get_clear (by decide) (by rw [slot_eq]; exact s.slot_lt _)
    rw [List.foldl_cons, hbits, hclear]
    by_cases hk : i.toNat % s._w.toNat = k
    · simp [hk, clear_bit]
    · have hk' : k ≠ i.toNat % s._w.toNat := fun h => hk h.symm
      simp [hk, hk', clear_bit]

/-- An advance clears the slots of the indices from the old largest to the new, as far back as the
window goes. -/
theorem mem_advanced (h : s._max < idx) {i : ℕ} :
    (∃ c ∈ s.advanced idx, c.toNat = i) ↔
      s._max.toNat < i ∧ i ≤ idx.toNat ∧ idx.toNat < i + s._w.toNat := by
  have hlt := UInt32.lt_iff_toNat_lt.mp h
  have hidx : idx.toNat < 4294967296 := idx.toNat_lt
  have hwle := s.w_le
  have hsub : (idx - s._max).toNat = idx.toNat - s._max.toNat :=
    UInt32.toNat_sub_of_le _ _ (UInt32.le_of_lt h)
  -- the number of slots to clear
  have hclear : ∃ tc : UInt32, s.advanced idx = (List.range tc.toNat).map (fun k =>
      s._max + 1 + UInt32.ofNat k + (idx - s._max - tc)) ∧
      tc.toNat = min (idx.toNat - s._max.toNat) s._w.toNat := by
    refine ⟨_, rfl, ?_⟩
    split
    · rename_i hadv
      have hadv' := UInt32.lt_iff_toNat_lt.mp hadv
      omega
    · rename_i hadv
      have hadv' := UInt32.le_iff_toNat_le.mp (UInt32.not_lt.mp hadv)
      omega
  obtain ⟨tc, hlist, htc⟩ := hclear
  have hrest : (idx - s._max - tc).toNat = idx.toNat - s._max.toNat - tc.toNat := by
    rw [UInt32.toNat_sub_of_le _ _ (UInt32.le_iff_toNat_le.mpr (by omega)), hsub]
  have hplace : ∀ k < tc.toNat, (s._max + 1 + UInt32.ofNat k + (idx - s._max - tc)).toNat =
      idx.toNat + 1 + k - tc.toNat := by
    intro k hk
    have hone : UInt32.toNat 1 = 1 := rfl
    have hk32 : (UInt32.ofNat k).toNat = k := UInt32.toNat_ofNat_of_lt' (by
      show k < 4294967296
      omega)
    rw [UInt32.toNat_add, UInt32.toNat_add, UInt32.toNat_add, hrest, hk32, hone]
    omega
  rw [hlist]
  constructor
  · rintro ⟨c, hc, rfl⟩
    obtain ⟨k, hk, rfl⟩ := List.mem_map.mp hc
    have hk' := List.mem_range.mp hk
    rw [hplace k hk']
    omega
  · rintro ⟨hlow, hhigh, hnear⟩
    refine ⟨_, List.mem_map_of_mem (List.mem_range.mpr (?_ : i + tc.toNat - idx.toNat - 1 < _)), ?_⟩
    · omega
    · rw [hplace _ (by omega)]
      omega

theorem noted_snoc {i : ℕ} :
    (∃ x ∈ noted ++ [idx], x.toNat = i) ↔ (∃ x ∈ noted, x.toNat = i) ∨ idx.toNat = i := by
  simp [or_and_right, exists_or]

/-- An index is noted in a window that has moved up to it, where the other bits are right. -/
theorem tracks_set_bit (hany : s._any = true) (hmax : s._max.toNat = largest (noted ++ [idx]))
    (hnear : s._max.toNat < idx.toNat + s._w.toNat)
    (hbits : ∀ i, i ≤ s._max.toNat → s._max.toNat < i + s._w.toNat → i ≠ idx.toNat →
      (Bitmap.get s._bits (i % s._w.toNat) = true ↔ ∃ x ∈ noted, x.toNat = i)) :
    Tracks (s.set_bit idx) (noted ++ [idx]) where
  any := by simp [set_bit, hany]
  max := hmax
  clean h := by simp at h
  bits i hi hw := by
    have hidx : idx.toNat ≤ s._max.toNat := by
      rw [hmax]
      exact le_largest (by simp)
    rw [← hmax] at hi hw
    have hw' : s._max.toNat < i + s._w.toNat := hw
    show Bitmap.get (s.set_bit idx)._bits (i % s._w.toNat) = true ↔ _
    rw [get_set_bit, noted_snoc, Bool.or_eq_true, decide_eq_true_eq]
    by_cases heq : i = idx.toNat
    · simp [heq]
    · have hslot : idx.toNat % s._w.toNat ≠ i % s._w.toNat := by
        intro h
        rcases Nat.le_total i idx.toNat with hle | hle
        · exact heq (eq_of_mod_eq hle (by omega) h.symm)
        · exact heq (eq_of_mod_eq hle (by omega) h).symm
      have hne : idx.toNat ≠ i := fun h => heq h.symm
      rw [hbits i hi hw' heq]
      simp [hslot, hne]

/-- After an advance the slots of the new window hold what was noted. -/
theorem advanced_bits (h : Tracks s noted) (hgt : s._max < idx) {i : ℕ} (hi : i ≤ idx.toNat)
    (hnear : idx.toNat < i + s._w.toNat) :
    Bitmap.get ((s.advanced idx).foldl clear_bit s)._bits (i % s._w.toNat) = true ↔
      ∃ x ∈ noted, x.toNat = i := by
  have hlt := UInt32.lt_iff_toNat_lt.mp hgt
  have hmax := h.max
  obtain ⟨-, -, hclear⟩ := foldl_clear_bit (s.advanced idx) s
  rw [hclear, Bool.and_eq_true, Bool.not_eq_true', decide_eq_false_iff_not]
  by_cases hold : i ≤ s._max.toNat
  · -- an index of the old window keeps its bit
    have hkept : i % s._w.toNat ∉ (s.advanced idx).map fun c => c.toNat % s._w.toNat := by
      intro hmem
      obtain ⟨c, hc, hslot⟩ := List.mem_map.mp hmem
      obtain ⟨hlow, hhigh, -⟩ := (mem_advanced hgt).mp ⟨c, hc, rfl⟩
      have heq := eq_of_mod_eq (by omega : i ≤ c.toNat) (by omega) hslot.symm
      omega
    rw [← h.bits i (by omega) (by omega)]
    simp [hkept]
  · -- one above it is cleared, and was not noted
    have hcleared : i % s._w.toNat ∈ (s.advanced idx).map fun c => c.toNat % s._w.toNat := by
      obtain ⟨c, hc, rfl⟩ := (mem_advanced hgt).mpr ⟨by omega, hi, hnear⟩
      exact List.mem_map_of_mem hc
    have hnew : ¬ ∃ x ∈ noted, x.toNat = i := by
      rintro ⟨x, hx, rfl⟩
      have hle := le_largest hx
      omega
    simp [hcleared, hnew]

theorem tracks_note (h : Tracks s noted) (idx : UInt32) : Tracks (s.note idx) (noted ++ [idx]) := by
  have hmax := h.max
  have hpos := s.w_pos
  unfold note
  split
  · rename_i hany
    obtain rfl := h.any.mp hany
    refine tracks_set_bit rfl ?_ ?_ ?_
    · rw [largest_snoc, largest_nil, Nat.zero_max]
    · show idx.toNat < idx.toNat + s._w.toNat
      omega
    · intro i _ _ _
      have hclean : Bitmap.get s._bits (i % s._w.toNat) = false := h.clean rfl _
      simp [hclean]
  · rename_i hany
    split
    · rename_i hgt
      have hgt' := UInt32.lt_iff_toNat_lt.mp hgt
      obtain ⟨hw, hany', -⟩ := foldl_clear_bit (s.advanced idx) s
      refine tracks_set_bit ?_ ?_ ?_ ?_
      · rw [hany']
        simpa using hany
      · show idx.toNat = _
        rw [largest_snoc, ← hmax]
        omega
      · show idx.toNat < idx.toNat + ((s.advanced idx).foldl clear_bit s)._w.toNat
        rw [hw]
        omega
      · intro i hi hnear _
        have hi' : i ≤ idx.toNat := hi
        have hnear' : idx.toNat < i + ((s.advanced idx).foldl clear_bit s)._w.toNat := hnear
        rw [hw] at hnear' ⊢
        exact advanced_bits h hgt hi' hnear'
    · rename_i hle
      have hle' := UInt32.le_iff_toNat_le.mp (UInt32.not_lt.mp hle)
      have hlargest : largest (noted ++ [idx]) = largest noted := by
        rw [largest_snoc]
        omega
      have hsub : (s._max - idx).toNat = s._max.toNat - idx.toNat :=
        UInt32.toNat_sub_of_le _ _ (UInt32.not_lt.mp hle)
      split
      · -- an index below the window is not recorded, and is in no later window
        rename_i hlate
        have hlate' := UInt32.le_iff_toNat_le.mp hlate
        refine ⟨?_, ?_, by simp, ?_⟩
        · simpa using hany
        · show s._max.toNat = _
          rw [hlargest, hmax]
        · intro i hi hnear
          rw [hlargest] at hi hnear
          have hnear' : largest noted < i + s._w.toNat := hnear
          have hne : idx.toNat ≠ i := by omega
          rw [noted_snoc]
          simp only [hne, or_false]
          exact h.bits i hi hnear
      · rename_i hin
        have hin' := UInt32.lt_iff_toNat_lt.mp (UInt32.not_le.mp hin)
        refine tracks_set_bit ?_ ?_ ?_ ?_
        · simpa using hany
        · rw [hlargest, hmax]
        · omega
        · intro i hi hnear _
          exact h.bits i (by omega) (by omega)

/-! ## What a receipt reports -/

theorem base_toNat (s : ReceiptWindow) : s.base.toNat = s._max.toNat + 1 - s._w.toNat := by
  have hpos := s.w_pos
  have hone : UInt32.toNat 1 = 1 := rfl
  have hpred : (s._w - 1).toNat = s._w.toNat - 1 :=
    UInt32.toNat_sub_of_le _ _ (UInt32.le_iff_toNat_le.mpr hpos)
  unfold base
  split
  · rename_i hge
    have hge' := UInt32.le_iff_toNat_le.mp hge
    rw [UInt32.toNat_sub_of_le _ _ hge]
    omega
  · rename_i hlt
    have hlt' := UInt32.lt_iff_toNat_lt.mp (UInt32.not_le.mp hlt)
    have hzero : UInt32.toNat 0 = 0 := rfl
    rw [hzero]
    omega

theorem nbits_toNat (s : ReceiptWindow) :
    s.nbits.toNat = s._max.toNat + 1 - s.base.toNat ∧ s.base.toNat ≤ s._max.toNat := by
  have hpos := s.w_pos
  have hw := s.w_le
  have hbase := s.base_toNat
  have hle : s.base ≤ s._max := UInt32.le_iff_toNat_le.mpr (by omega)
  have hone : UInt32.toNat 1 = 1 := rfl
  have hsub : (s._max - s.base).toNat = s._max.toNat - s.base.toNat :=
    UInt32.toNat_sub_of_le _ _ hle
  constructor
  · rw [nbits, UInt32.toNat_toUInt16, UInt32.toNat_add, hsub, hone]
    omega
  · omega

/-- The slot that a bit of the receipt is read from. -/
theorem get_bitmap (s : ReceiptWindow) {i : ℕ} (hi : i < s.nbits.toNat) :
    Bitmap.get s.bitmap i = Bitmap.get s._bits ((s.base.toNat + i) % s._w.toNat) := by
  obtain ⟨hnbits, hbase⟩ := s.nbits_toNat
  have hmax : s._max.toNat < 4294967296 := s._max.toNat_lt
  have hsum : (s.base + UInt32.ofNat i).toNat = s.base.toNat + i := by
    have hi32 : (UInt32.ofNat i).toNat = i := UInt32.toNat_ofNat_of_lt' (by
      show i < 4294967296
      omega)
    rw [UInt32.toNat_add, hi32]
    omega
  unfold bitmap
  rw [Bitmap.get_foldl_set (by decide)]
  · rw [Bitmap.get_replicate, Bool.or_false, ← hsum, ← slot_eq]
    simp [hi, get_bit]
  · intro k hk
    have hk' := List.mem_range.mp (List.mem_of_mem_filter hk)
    rw [List.length_replicate]
    omega

theorem length_bitmap (s : ReceiptWindow) : s.bitmap.length = (s.nbits.toNat + 7) / 8 := by
  have hlen : ∀ (is : List ℕ) (b : List (BitVec 8)), (is.foldl Bitmap.set b).length = b.length := by
    intro is
    induction is with
    | nil => intro b; rfl
    | cons i is ih => intro b; rw [List.foldl_cons, ih, Bitmap.length_set]
  rw [bitmap, hlen, List.length_replicate]

end ReceiptWindow

open ReceiptWindow

/-- A receipt is read back, whatever follows it. -/
theorem receipt_decode_tlv (ta : Octets 6) (base : UInt32) {nbits : UInt16} (hn : nbits ≠ 0)
    {bitmap : List (BitVec 8)} (hlen : bitmap.length = (nbits.toNat + 7) / 8) (t : Bytes) :
    receipt_decode (tlv ta base nbits bitmap ++ t) =
      some { ta, base, nbits, bitmap := bitmap.map UInt8.ofBitVec ++ t } := by
  have hta : ta.val.length = 6 := ta.property
  have hsplit : tlv ta base nbits bitmap ++ t = [0x44, 0x52, kReceiptVersion, 0] ++ (ta.val ++
      (putLe 4 base.toBitVec ++ (putLe 2 nbits.toBitVec ++ (bitmap.map UInt8.ofBitVec ++ t)))) := by
    simp [tlv]
  have htotal : (tlv ta base nbits bitmap ++ t).length =
      16 + ((nbits.toNat + 7) / 8 + t.length) := by
    rw [hsplit]
    simp only [List.length_append, List.length_cons, List.length_nil, hta, length_putLe,
      List.length_map, hlen]
    omega
  have hbase : getLe 32 4 (fun i => byteAt (tlv ta base nbits bitmap ++ t) (10 + i)) =
      base.toBitVec := by
    have hat := hsplit.trans (List.append_assoc _ _ _).symm
    exact congrArg Prod.fst ((reads_word (n := 4) base.toBitVec (by decide)).at hat (by simp [hta]))
  have hnbits : getLe 16 2 (fun i => byteAt (tlv ta base nbits bitmap ++ t) (14 + i)) =
      nbits.toBitVec := by
    have hat := (hsplit.trans (List.append_assoc _ _ _).symm).trans (List.append_assoc _ _ _).symm
    have hword := reads_word (n := 2) nbits.toBitVec (by decide)
    exact congrArg Prod.fst (hword.at hat (by simp [hta]))
  have hslice : Octets.slice (tlv ta base nbits bitmap ++ t) 4 6 = ta := by
    rw [hsplit]
    exact Octets.slice_append _ ta _ rfl
  have hdrop : (tlv ta base nbits bitmap ++ t).drop 16 = bitmap.map UInt8.ofBitVec ++ t := by
    have hfront : tlv ta base nbits bitmap ++ t = ([0x44, 0x52, kReceiptVersion, 0] ++ ta.val ++
        putLe 4 base.toBitVec ++ putLe 2 nbits.toBitVec) ++ (bitmap.map UInt8.ofBitVec ++ t) := by
      simp [tlv]
    rw [hfront]
    exact List.drop_left' (by simp [hta])
  have hmagic : byteAt (tlv ta base nbits bitmap ++ t) 0 = 0x44 ∧
      byteAt (tlv ta base nbits bitmap ++ t) 1 = 0x52 ∧
      byteAt (tlv ta base nbits bitmap ++ t) 2 = kReceiptVersion := ⟨rfl, rfl, rfl⟩
  unfold receipt_decode
  rw [if_neg]
  · dsimp only
    rw [hbase, hnbits, hslice, kReceiptHeader, hdrop, if_neg]
    rw [not_or, receipt_tlv_size, kReceiptHeader]
    exact ⟨hn, by show ¬ _ < 16 + (nbits.toNat + 7) / 8; omega⟩
  · obtain ⟨h0, h1, h2⟩ := hmagic
    simp only [h0, h1, h2, ne_eq, not_true_eq_false, or_false, kReceiptHeader]
    omega

/-- The indices that a receipt reports are those that were noted and are recent. -/
theorem mem_named {s : ReceiptWindow} {noted : List UInt32} (h : Tracks s noted) (ta : Octets 6)
    (t : Bytes) {i : ℕ} :
    i ∈ (ReceiptView.named {
        ta, base := s.base, nbits := s.nbits,
        bitmap := s.bitmap.map UInt8.ofBitVec ++ t }) ↔ Recent s._w.toNat noted i := by
  obtain ⟨hnbits, hle⟩ := s.nbits_toNat
  have hbase := s.base_toNat
  have hmax := h.max
  have hpos := s.w_pos
  have hbit : ∀ k < s.nbits.toNat, ReceiptView.bit {
      ta, base := s.base, nbits := s.nbits, bitmap := s.bitmap.map UInt8.ofBitVec ++ t } k =
        Bitmap.get s._bits ((s.base.toNat + k) % s._w.toNat) := by
    intro k hk
    have hid : (UInt8.toBitVec ∘ UInt8.ofBitVec) = id := rfl
    rw [ReceiptView.bit, List.map_append, List.map_map, hid, List.map_id,
      Bitmap.get_append_left _ (by rw [s.length_bitmap]; omega), s.get_bitmap hk]
  unfold ReceiptView.named Recent
  rw [List.mem_map]
  constructor
  · rintro ⟨k, hk, rfl⟩
    obtain ⟨hrange, hset⟩ := List.mem_filter.mp hk
    have hk' := List.mem_range.mp hrange
    rw [hbit k hk'] at hset
    have hk'' : k < s.nbits.toNat := hk'
    refine ⟨(h.bits _ (by show s.base.toNat + k ≤ _; omega)
      (by show _ < s.base.toNat + k + _; omega)).mp hset, ?_⟩
    show _ < s.base.toNat + k + _
    omega
  · rintro ⟨⟨idx, hidx, rfl⟩, hnear⟩
    have hidxle := le_largest hidx
    refine ⟨idx.toNat - s.base.toNat, ?_, by show s.base.toNat + _ = _; omega⟩
    have hk : idx.toNat - s.base.toNat < s.nbits.toNat := by omega
    rw [List.mem_filter]
    refine ⟨List.mem_range.mpr hk, ?_⟩
    rw [hbit _ hk]
    have hsum : s.base.toNat + (idx.toNat - s.base.toNat) = idx.toNat := by omega
    rw [hsum]
    exact (h.bits _ hidxle hnear).mpr ⟨idx, hidx, rfl⟩

/-! ## The ledger -/

namespace ReceiptLedger

variable {l : ReceiptLedger} {tlv : Bytes} {own_ta : Octets 6}

/-- What the ledger takes of a buffer. -/
def taken (l : ReceiptLedger) (tlv : Bytes) (own_ta : Octets 6) : Option ReceiptView :=
  (receipt_decode tlv).filter fun v =>
    v.ta = own_ta ∧ v.base.toNat + v.nbits.toNat ≤ l._max_index.toNat

theorem delivered_eq (l : ReceiptLedger) (i : ℕ) : l.delivered i = Bitmap.get l._bits i := by
  unfold delivered
  by_cases h : Bitmap.get l._bits i
  · have hlt := Bitmap.lt_of_get (by decide) h
    have hword : i / 64 < l._bits.length := by omega
    simp [h, hword]
  · simp [h]

theorem absorb_none (h : l.taken tlv own_ta = none) : l.absorb tlv own_ta = (l, -1) := by
  unfold taken at h
  unfold absorb
  split
  · rfl
  · rename_i v hv
    rw [hv, Option.filter_some] at h
    dsimp only
    split
    · rfl
    · rename_i hta
      split
      · rfl
      · rename_i htop
        rw [if_pos (by simp only [decide_eq_true_eq]; exact ⟨not_not.mp hta, by omega⟩)] at h
        cases h

theorem get_room (l : ReceiptLedger) (top i : ℕ) :
    Bitmap.get (l.room top) i = Bitmap.get l._bits i := by
  unfold room
  split
  · exact Bitmap.get_append_zeros _
  · rfl

theorem named_lt {v : ReceiptView} {i : ℕ} (h : i ∈ v.named) :
    i < v.base.toNat + v.nbits.toNat := by
  obtain ⟨k, hk, rfl⟩ := List.mem_map.mp h
  have hlt := List.mem_range.mp (List.mem_of_mem_filter hk)
  omega

theorem lt_room (l : ReceiptLedger) {v : ReceiptView} {i : ℕ} (h : i ∈ v.named) :
    i / 64 < (l.room (v.base.toNat + v.nbits.toNat)).length := by
  have hlt := named_lt h
  unfold room
  split
  · rw [List.length_append, List.length_replicate]
    omega
  · omega

theorem absorb_some {v : ReceiptView} (h : l.taken tlv own_ta = some v) :
    let learned := Bitmap.learn (l.room (v.base.toNat + v.nbits.toNat)) v.named
    (l.absorb tlv own_ta).2 = learned.2 ∧ (l.absorb tlv own_ta).1._bits = learned.1 ∧
      (l.absorb tlv own_ta).1._total = l._total + learned.2 ∧
      (l.absorb tlv own_ta).1._max_index = l._max_index := by
  unfold taken at h
  obtain ⟨hv, htest⟩ := Option.filter_eq_some_iff.mp h
  simp only [decide_eq_true_eq] at htest
  unfold absorb
  rw [hv]
  dsimp only
  rw [if_neg (not_not.mpr htest.1), if_neg (by omega)]
  exact ⟨rfl, rfl, rfl, rfl⟩

/-- The set of what was delivered gains what the receipt reports. -/
theorem delivered_absorb {v : ReceiptView} (h : l.taken tlv own_ta = some v) (i : ℕ) :
    (l.absorb tlv own_ta).1.delivered i = true ↔ i ∈ v.named ∨ l.delivered i = true := by
  obtain ⟨-, hbits, -, -⟩ := absorb_some h
  rw [delivered_eq, delivered_eq, hbits, Bitmap.get_learn (by decide) fun k hk => l.lt_room hk,
    get_room, Bool.or_eq_true, decide_eq_true_eq]

/-- What is returned is the number of the indices that are new. -/
theorem ncard_absorb {v : ReceiptView} (h : l.taken tlv own_ta = some v) :
    {i | (l.absorb tlv own_ta).1.delivered i = true}.ncard =
      {i | l.delivered i = true}.ncard + (l.absorb tlv own_ta).2.toNat := by
  obtain ⟨hret, hbits, -, -⟩ := absorb_some h
  have hcount := Bitmap.ncard_learn (by decide) fun k hk => l.lt_room (v := v) (i := k) hk
  simp only [delivered_eq, hbits, hret, Int.toNat_natCast]
  rw [hcount]
  simp only [get_room]

/-- An index that a buffer reports and the ledger takes. -/
def Reports (l : ReceiptLedger) (tlv : Bytes) (own_ta : Octets 6) (i : ℕ) : Prop :=
  ∃ v, l.taken tlv own_ta = some v ∧ i ∈ v.named

theorem delivered_absorb_iff (l : ReceiptLedger) (tlv : Bytes) (own_ta : Octets 6) (i : ℕ) :
    (l.absorb tlv own_ta).1.delivered i = true ↔
      l.Reports tlv own_ta i ∨ l.delivered i = true := by
  unfold Reports
  cases h : l.taken tlv own_ta with
  | none => simp [absorb_none h]
  | some v => simp [delivered_absorb h]

/-- What is taken of one buffer does not turn on the others. -/
theorem taken_absorb (l : ReceiptLedger) (x y : Bytes) (a b : Octets 6) :
    (l.absorb x a).1.taken y b = l.taken y b := by
  have hcap : (l.absorb x a).1._max_index = l._max_index := by
    cases h : l.taken x a with
    | none => rw [absorb_none h]
    | some v => exact (absorb_some h).2.2.2
  unfold taken
  rw [hcap]

theorem absorb_comm (l : ReceiptLedger) (x y : Bytes) (a b : Octets 6) (i : ℕ) :
    ((l.absorb x a).1.absorb y b).1.delivered i = ((l.absorb y b).1.absorb x a).1.delivered i := by
  rw [Bool.eq_iff_iff, delivered_absorb_iff, delivered_absorb_iff, delivered_absorb_iff,
    delivered_absorb_iff]
  unfold Reports
  rw [taken_absorb, taken_absorb]
  exact or_left_comm

theorem absorb_idem (l : ReceiptLedger) (x : Bytes) (a : Octets 6) (i : ℕ) :
    ((l.absorb x a).1.absorb x a).1.delivered i = (l.absorb x a).1.delivered i := by
  rw [Bool.eq_iff_iff, delivered_absorb_iff, delivered_absorb_iff]
  unfold Reports
  rw [taken_absorb, ← or_assoc, or_self]

/-- A buffer is refused exactly when nothing of it is taken, and then nothing changes. -/
theorem absorb_refused (l : ReceiptLedger) (x : Bytes) (a : Octets 6) :
    ((l.absorb x a).2 = -1 ↔ l.taken x a = none) ∧
      ((l.absorb x a).2 = -1 → (l.absorb x a).1 = l) := by
  cases h : l.taken x a with
  | none => simp [absorb_none h]
  | some v =>
    have hret := (absorb_some h).1
    have hne : (l.absorb x a).2 ≠ -1 := by omega
    simp [hne]

end ReceiptLedger

/-! ## Sessions -/

/-- A receipt that was mailed, and the indices that had been noted when it was encoded. -/
structure Mailed where
  ta : Octets 6
  bytes : Bytes
  noted : List UInt32

/-- Both ends, with what was noted, mailed and absorbed on the way. -/
structure Session where
  window : ReceiptWindow
  ledger : ReceiptLedger
  noted : List UInt32 := []
  mailed : List Mailed := []
  absorbed : List Mailed := []

namespace Session

inductive Op
  | note (idx : UInt32)
  | encode (ta : Octets 6) (out_len : ℕ)
  /-- A receipt that was mailed arrives, maybe again, with bytes behind it. -/
  | absorb (n : ℕ) (trailer : Bytes) (own_ta : Octets 6)

def step (s : Session) : Op → Session
  | .note idx => { s with window := s.window.note idx, noted := s.noted ++ [idx] }
  | .encode ta out_len =>
    let bytes := s.window.encode ta out_len
    if bytes = [] then s else { s with mailed := s.mailed ++ [{ ta, bytes, noted := s.noted }] }
  | .absorb n trailer own_ta =>
    match s.mailed[n]? with
    | none => s
    | some m =>
      let (ledger, fresh) := s.ledger.absorb (m.bytes ++ trailer) own_ta
      { s with ledger, absorbed := if fresh = -1 then s.absorbed else s.absorbed ++ [m] }

def fresh (window_bits : UInt16) (max_index : UInt64) : Session where
  window := .make window_bits
  ledger := { _max_index := max_index }

def run (s : Session) (ops : List Op) : Session := Runs.after step s ops

/-- What a receipt says, whatever follows it: the recent indices at the time. -/
structure Faithful (w : ℕ) (m : Mailed) (t : Bytes) (v : ReceiptView) : Prop where
  decode : receipt_decode (m.bytes ++ t) = some v
  ta : v.ta = m.ta
  top : v.base.toNat + v.nbits.toNat = largest m.noted + 1
  named : ∀ i, i ∈ v.named ↔ Recent w m.noted i

/-- What holds of both ends in every session. -/
structure Truth (window_bits : UInt16) (max_index : UInt64) (s : Session) : Prop where
  tracks : Tracks s.window s.noted
  width : s.window._w = (ReceiptWindow.make window_bits)._w
  cap : s.ledger._max_index = max_index
  mailed : ∀ m ∈ s.mailed, ∀ t, ∃ v, Faithful s.window._w.toNat m t v
  absorbed : ∀ m ∈ s.absorbed, m ∈ s.mailed
  delivered : ∀ i, s.ledger.delivered i = true ↔
    ∃ m ∈ s.absorbed, Recent s.window._w.toNat m.noted i
  total : s.ledger._total = {i | s.ledger.delivered i = true}.ncard

variable {s : Session} {window_bits : UInt16} {max_index : UInt64}

theorem truth_fresh (window_bits : UInt16) (max_index : UInt64) :
    Truth window_bits max_index (fresh window_bits max_index) where
  tracks := tracks_make window_bits
  width := rfl
  cap := rfl
  mailed m hm := by cases hm
  absorbed m hm := by cases hm
  delivered i := by simp [fresh, ReceiptLedger.delivered]
  total := by simp [fresh, ReceiptLedger.delivered]

theorem note_w (s : ReceiptWindow) (idx : UInt32) : (s.note idx)._w = s._w := by
  unfold ReceiptWindow.note
  split
  · rfl
  · split
    · exact (foldl_clear_bit (s.advanced idx) s).1
    · split
      · rfl
      · rfl

theorem faithful_encode (h : Tracks s.window s.noted) {ta : Octets 6} {out_len : ℕ}
    (hne : s.window.encode ta out_len ≠ []) (t : Bytes) :
    ∃ v, Faithful s.window._w.toNat
      { ta, bytes := s.window.encode ta out_len, noted := s.noted } t v := by
  obtain ⟨hnbits, hle⟩ := s.window.nbits_toNat
  have hmax := h.max
  have henc : s.window.encode ta out_len = tlv ta s.window.base s.window.nbits s.window.bitmap := by
    unfold ReceiptWindow.encode at hne ⊢
    split at hne
    · exact absurd rfl hne
    · split at hne
      · exact absurd rfl hne
      · rename_i hany hroom
        rw [if_neg hany, if_neg hroom]
  have hn : s.window.nbits ≠ 0 := by
    intro hzero
    rw [hzero] at hnbits
    have hz : UInt16.toNat 0 = 0 := rfl
    omega
  refine ⟨_, ?_, rfl, ?_, fun i => mem_named h ta t⟩
  · show receipt_decode (s.window.encode ta out_len ++ t) = _
    rw [henc]
    exact receipt_decode_tlv ta s.window.base hn s.window.length_bitmap t
  · show s.window.base.toNat + s.window.nbits.toNat = largest s.noted + 1
    omega

/-- A mailed receipt is taken by the transmitter that it names, below the cap. -/
theorem taken_mailed {m : Mailed} {t : Bytes} {own_ta : Octets 6} {w : ℕ} {v : ReceiptView}
    {l : ReceiptLedger} (h : Faithful w m t v) :
    l.taken (m.bytes ++ t) own_ta =
      if m.ta = own_ta ∧ largest m.noted < l._max_index.toNat then some v else none := by
  unfold ReceiptLedger.taken
  rw [h.decode, Option.filter_some, h.ta, h.top]
  simp only [decide_eq_true_eq, Nat.succ_le_iff]

theorem truth_absorb (h : Truth window_bits max_index s) {m : Mailed} (hm : m ∈ s.mailed)
    (t : Bytes) (own_ta : Octets 6) :
    Truth window_bits max_index { s with
      ledger := (s.ledger.absorb (m.bytes ++ t) own_ta).1
      absorbed :=
        if (s.ledger.absorb (m.bytes ++ t) own_ta).2 = -1 then s.absorbed
        else s.absorbed ++ [m] } := by
  obtain ⟨hrefused, hsame⟩ := s.ledger.absorb_refused (m.bytes ++ t) own_ta
  cases htaken : s.ledger.taken (m.bytes ++ t) own_ta with
  | none =>
    have hret := hrefused.mpr htaken
    rw [if_pos hret, hsame hret]
    exact h
  | some v =>
    have hret : (s.ledger.absorb (m.bytes ++ t) own_ta).2 ≠ -1 := by
      rw [ne_eq, hrefused, htaken]
      exact Option.some_ne_none v
    obtain ⟨hfresh, -, htotal, hcap⟩ := ReceiptLedger.absorb_some htaken
    obtain ⟨v', hv'⟩ := h.mailed m hm t
    -- the receipt that was taken is the one that was mailed
    have hv : v = v' := by
      rw [taken_mailed hv'] at htaken
      split at htaken
      · exact (Option.some.inj htaken).symm
      · cases htaken
    subst hv
    rw [if_neg hret]
    refine { h with cap := ?_, absorbed := ?_, delivered := ?_, total := ?_ }
    · exact hcap.trans h.cap
    · intro m' hm'
      rcases List.mem_append.mp hm' with hm' | hm'
      · exact h.absorbed m' hm'
      · rw [List.mem_singleton.mp hm']
        exact hm
    · intro i
      show (s.ledger.absorb (m.bytes ++ t) own_ta).1.delivered i = true ↔
        ∃ m' ∈ s.absorbed ++ [m], Recent s.window._w.toNat m'.noted i
      rw [ReceiptLedger.delivered_absorb htaken, hv'.named, h.delivered]
      simp only [List.mem_append, List.mem_singleton, or_and_right, exists_or, exists_eq_left]
      exact or_comm
    · show (s.ledger.absorb (m.bytes ++ t) own_ta).1._total = _
      rw [htotal, h.total, ReceiptLedger.ncard_absorb htaken, hfresh, Int.toNat_natCast]

theorem truth_step (h : Truth window_bits max_index s) (op : Op) :
    Truth window_bits max_index (step s op) := by
  cases op with
  | note idx =>
    have hw := note_w s.window idx
    refine ⟨tracks_note h.tracks idx, hw.trans h.width, h.cap, ?_, h.absorbed, ?_, h.total⟩
    · show ∀ m ∈ s.mailed, ∀ t, ∃ v, Faithful (s.window.note idx)._w.toNat m t v
      rw [hw]
      exact h.mailed
    · show ∀ i, _ ↔ ∃ m ∈ s.absorbed, Recent (s.window.note idx)._w.toNat m.noted i
      rw [hw]
      exact h.delivered
  | encode ta out_len =>
    show Truth window_bits max_index (if s.window.encode ta out_len = [] then s else _)
    split
    · exact h
    · rename_i hne
      refine { h with mailed := ?_, absorbed := ?_ }
      · intro m hm t
        rcases List.mem_append.mp hm with hm | hm
        · exact h.mailed m hm t
        · rw [List.mem_singleton.mp hm]
          exact faithful_encode h.tracks hne t
      · intro m hm
        exact List.mem_append_left _ (h.absorbed m hm)
  | absorb n trailer own_ta =>
    show Truth window_bits max_index (match s.mailed[n]? with | none => s | some m => _)
    split
    · exact h
    · rename_i m hm
      exact truth_absorb h (List.mem_of_getElem? hm) trailer own_ta

/-- The indices that a receipt would add. -/
theorem fresh_eq {m : Mailed} {t : Bytes} {own_ta : Octets 6} {w : ℕ} {v : ReceiptView}
    {l : ReceiptLedger} (h : Faithful w m t v) (htaken : l.taken (m.bytes ++ t) own_ta = some v) :
    (l.absorb (m.bytes ++ t) own_ta).2 =
      {i | Recent w m.noted i ∧ l.delivered i = false}.ncard := by
  obtain ⟨hfresh, -, -, -⟩ := ReceiptLedger.absorb_some htaken
  have hcount := ReceiptLedger.ncard_absorb htaken
  have hfinite : {i | (l.absorb (m.bytes ++ t) own_ta).1.delivered i = true}.Finite := by
    simp only [ReceiptLedger.delivered_eq]
    exact Bitmap.get_finite (by decide) _
  have hsub : {i | l.delivered i = true} ⊆
      {i | (l.absorb (m.bytes ++ t) own_ta).1.delivered i = true} := by
    intro i hi
    exact (ReceiptLedger.delivered_absorb htaken i).mpr (Or.inr hi)
  have hnew : {i | Recent w m.noted i ∧ l.delivered i = false} =
      {i | (l.absorb (m.bytes ++ t) own_ta).1.delivered i = true} \ {i | l.delivered i = true} := by
    ext i
    show (Recent w m.noted i ∧ l.delivered i = false) ↔
      ((l.absorb (m.bytes ++ t) own_ta).1.delivered i = true ∧ ¬ l.delivered i = true)
    rw [ReceiptLedger.delivered_absorb htaken, h.named]
    cases l.delivered i with
    | false => simp
    | true => simp
  have hdiff := Set.ncard_sdiff_add_ncard_of_subset hsub hfinite
  rw [hnew, hfresh]
  rw [hfresh, Int.toNat_natCast] at hcount
  omega

/-- What the ledger holds delivered after any session is what a receipt that it took reported as
noted and recent; its total counts just this; a receipt is taken by the transmitter that it names
and brings what is new in it; and the order and the number of times do not matter. -/
theorem receipts_tell_the_truth (window_bits : UInt16) (hbits : window_bits ≠ 0)
    (max_index : UInt64) (ops : List Op) :
    let s := run (fresh window_bits max_index) ops
    let w := window_bits.toNat
    (∀ i, s.ledger.delivered i = true ↔ ∃ m ∈ s.absorbed, Recent w m.noted i) ∧
    s.ledger.delivered_total = {i | ∃ m ∈ s.absorbed, Recent w m.noted i}.ncard ∧
    (∀ m ∈ s.mailed, ∀ (t : Bytes) (own_ta : Octets 6),
      ((s.ledger.absorb (m.bytes ++ t) own_ta).2 = -1 ↔
        ¬ (m.ta = own_ta ∧ largest m.noted < max_index.toNat)) ∧
      ((s.ledger.absorb (m.bytes ++ t) own_ta).2 ≠ -1 →
        (s.ledger.absorb (m.bytes ++ t) own_ta).2 =
          {i | Recent w m.noted i ∧ s.ledger.delivered i = false}.ncard)) ∧
    (∀ (x y : Bytes) (a b : Octets 6) (i : ℕ),
      ((s.ledger.absorb x a).1.absorb y b).1.delivered i =
        ((s.ledger.absorb y b).1.absorb x a).1.delivered i ∧
      ((s.ledger.absorb x a).1.absorb x a).1.delivered i = (s.ledger.absorb x a).1.delivered i ∧
      ((s.ledger.absorb x a).2 = -1 → (s.ledger.absorb x a).1 = s.ledger)) := by
  intro s w
  have h : Truth window_bits max_index s :=
    Runs.after_keeps step _ (truth_fresh window_bits max_index) (fun _ op h => truth_step h op) ops
  have hw : s.window._w.toNat = w := by
    rw [h.width]
    show (if window_bits ≠ 0 then window_bits.toUInt32 else 8192).toNat = _
    rw [if_pos hbits, UInt16.toNat_toUInt32]
  have hdelivered := h.delivered
  have hmailed := h.mailed
  rw [hw] at hdelivered hmailed
  refine ⟨hdelivered, ?_, ?_, ?_⟩
  · show s.ledger._total = _
    rw [h.total]
    simp only [hdelivered]
  · intro m hm t own_ta
    obtain ⟨v, hv⟩ := hmailed m hm t
    have htaken : s.ledger.taken (m.bytes ++ t) own_ta =
        if m.ta = own_ta ∧ largest m.noted < s.ledger._max_index.toNat then some v else none :=
      taken_mailed hv
    rw [h.cap] at htaken
    obtain ⟨hrefused, -⟩ := s.ledger.absorb_refused (m.bytes ++ t) own_ta
    rw [ne_eq, hrefused]
    by_cases hfit : m.ta = own_ta ∧ largest m.noted < max_index.toNat
    · rw [if_pos hfit] at htaken
      refine ⟨by simp [htaken, hfit], ?_⟩
      intro _
      exact fresh_eq hv htaken
    · rw [if_neg hfit] at htaken
      refine ⟨by simp [htaken, hfit], ?_⟩
      intro hsome
      exact absurd htaken hsome
  · intro x y a b i
    exact ⟨s.ledger.absorb_comm x y a b i, s.ledger.absorb_idem x a i,
      (s.ledger.absorb_refused x a).2⟩

/-- A window of ten: index 1 is receipted, then a jump leaves it behind. -/
def demoSession : List Op :=
  [.note 1, .encode (Octets.zero 6) 100, .note 30, .note 28, .note 2, .encode (Octets.zero 6) 100,
    .absorb 1 [9, 9, 9, 9] (Octets.zero 6), .absorb 1 [] (Octets.zero 6)]

theorem a_lost_receipt_leaves_its_index_out :
    let s := run (fresh 10 1000) demoSession
    s.ledger.delivered 30 = true ∧ s.ledger.delivered 28 = true ∧ s.ledger.delivered 1 = false ∧
      s.ledger.delivered 2 = false ∧ s.ledger.delivered_total = 2 ∧
      ∃ m ∈ s.absorbed, Recent 10 m.noted 28 := by
  intro s
  have hdelivered : s.ledger.delivered 28 = true := by decide +kernel
  obtain ⟨htruth, -⟩ := receipts_tell_the_truth 10 (by decide) 1000 demoSession
  refine ⟨by decide +kernel, hdelivered, by decide +kernel, by decide +kernel, by decide +kernel,
    ?_⟩
  exact (htruth 28).mp hdelivered

end Session

end devourer.cell
