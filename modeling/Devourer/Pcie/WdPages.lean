-- The parts of the slab are apart, the pieces of a payload tile it, and the
-- stores of a frame lay it out in its page.
import Devourer.Pcie.DmaAx
import Mathlib.Data.Fin.Basic
import Mathlib.Tactic.Ring

namespace devourer.pcie.DmaAx

open Memory

variable {slab : ℕ}

/-! ## The parts of the slab -/

theorem layout_eq : layout =
    { txbd := 0, rxq_bd := 28672, rpq_bd := 32768, rxq_buf := 36864, rpq_buf := 2981888,
      wd := 5926912, payload := 5992448, fwcmd := 8089600, total := 8679424 } := by
  decide

/-- The parts that there are. -/
def Part.Valid : Part → Prop
  | .entry _ i => i < kBdLen
  | .fwcmd_slot i => i < kBdLen
  | .wd_page page => page < kWdPages
  | .payload page => page < kWdPages

/-- The section that a part lies in. -/
def Part.section : Part → ℕ × ℕ
  | .entry _ _ => (layout.txbd, layout.rxq_bd)
  | .fwcmd_slot _ => (layout.fwcmd, layout.total)
  | .wd_page _ => (layout.wd, layout.payload)
  | .payload _ => (layout.payload, layout.fwcmd)

theorem Part.bounds (slab : ℕ) {x : Part} (hx : x.Valid) :
    slab + x.section.1 ≤ x.iova slab ∧ x.iova slab + x.size ≤ slab + x.section.2 := by
  cases x with
  | entry ch i =>
    have hch : ch.val < 13 := ch.isLt
    simp only [Part.Valid, kBdLen] at hx
    simp only [Part.section, Part.iova, Part.size, layout_eq, kBdLen, BD_SZ]
    omega
  | fwcmd_slot i =>
    simp only [Part.Valid, kBdLen] at hx
    simp only [Part.section, Part.iova, Part.size, layout_eq, kFwcmdSlotSize]
    omega
  | wd_page i =>
    simp only [Part.Valid, kWdPages] at hx
    simp only [Part.section, Part.iova, Part.size, layout_eq, kWdPageSize]
    omega
  | payload i =>
    simp only [Part.Valid, kWdPages] at hx
    simp only [Part.section, Part.iova, Part.size, layout_eq, kPayloadSize]
    omega

theorem Part.apart {x y : Part} (hx : x.Valid) (hy : y.Valid) (hne : x ≠ y) :
    Apart (x.iova slab) x.size (y.iova slab) y.size := by
  have hbx := Part.bounds slab hx
  have hby := Part.bounds slab hy
  unfold Apart
  cases x <;> cases y
  case entry.entry ch i ch' j =>
    have hdiff : ch.val ≠ ch'.val ∨ i ≠ j := by
      by_contra hsame
      rw [not_or, not_not, not_not] at hsame
      exact hne (by rw [Fin.ext hsame.1, hsame.2])
    simp only [Part.Valid, kBdLen] at hx hy
    simp only [Part.iova, Part.size, kBdLen, BD_SZ]
    omega
  case fwcmd_slot.fwcmd_slot i j =>
    have hdiff : i ≠ j := fun h => hne (by rw [h])
    simp only [Part.iova, Part.size, kFwcmdSlotSize]
    omega
  case wd_page.wd_page i j =>
    have hdiff : i ≠ j := fun h => hne (by rw [h])
    simp only [Part.iova, Part.size, kWdPageSize]
    omega
  case payload.payload i j =>
    have hdiff : i ≠ j := fun h => hne (by rw [h])
    simp only [Part.iova, Part.size, kPayloadSize]
    omega
  all_goals
    -- two sections
    simp only [Part.section, layout_eq] at hbx hby
    omega

/-- The parts lie within the slab. -/
theorem Part.within {x : Part} (hx : x.Valid) : x.iova slab + x.size ≤ slab + layout.total := by
  have hb := Part.bounds slab hx
  cases x
  all_goals
    simp only [Part.section, layout_eq] at hb ⊢
    omega

/-- The descriptors of the release ring are none of the parts. -/
theorem Part.apart_rpq_bd {x : Part} {i : ℕ} (hx : x.Valid) (hi : i < kBdLen) :
    Apart (slab + layout.rpq_bd + i * BD_SZ) BD_SZ (x.iova slab) x.size := by
  have hb := Part.bounds slab hx
  unfold kBdLen at hi
  unfold Apart BD_SZ
  cases x
  all_goals
    simp only [Part.section, layout_eq] at hb ⊢
    omega

/-! ## The pieces of a payload -/

/-- The pieces are the bytes from `dma` on, in order, and only the last of them says so. -/
def Tiles : ℕ → ℕ → List AddrInfo → Prop
  | _, _, [] => False
  | dma, len, [x] => x.dma = dma ∧ x.len = len ∧ 0 < x.len ∧ x.ls = true
  | dma, len, x :: y :: xs =>
    x.dma = dma ∧ x.len < len ∧ 0 < x.len ∧ x.ls = false ∧ Tiles (dma + x.len)
      (len - x.len) (y :: xs)

theorem fill_txaddr_info_zero (n dma : ℕ) : fill_txaddr_info n 0 dma = [] := by
  cases n <;> rfl

/-- There is place for all the pieces. -/
theorem tiles_fill_txaddr_info {n len : ℕ} (dma : ℕ) (hpos : 0 < len)
    (hfit : len ≤ n * ADDR_INFO_LEN_MAX) : Tiles dma len (fill_txaddr_info n len dma) := by
  unfold ADDR_INFO_LEN_MAX at hfit
  induction n generalizing len dma with
  | zero => omega
  | succ n ih =>
    rw [fill_txaddr_info, if_neg (by omega)]
    unfold ADDR_INFO_LEN_MAX
    by_cases hmore : 2044 < len
    · simp only [if_pos hmore]
      have hpos : 0 < len - 2044 := by omega
      have hrest := ih (dma + 2044) hpos (by omega)
      cases hfill : fill_txaddr_info n (len - 2044) (dma + 2044) with
      | nil =>
        rw [hfill] at hrest
        exact hrest.elim
      | cons y ys =>
        rw [hfill] at hrest
        have hls : decide (len - 2044 = 0) = false := decide_eq_false (by omega)
        simp [Tiles, hmore, hls, hrest]
    · simp only [if_neg hmore, Nat.sub_self, fill_txaddr_info_zero]
      simp [Tiles, hpos]

theorem fill_txaddr_info_bounds {n len dma : ℕ} {x : AddrInfo}
    (h : x ∈ fill_txaddr_info n len dma) :
    0 < x.len ∧ x.len ≤ ADDR_INFO_LEN_MAX ∧ x.dma + x.len ≤ dma + len := by
  induction n generalizing len dma with
  | zero => cases h
  | succ n ih =>
    rw [fill_txaddr_info] at h
    split at h
    · cases h
    · dsimp only at h
      unfold ADDR_INFO_LEN_MAX at h ⊢
      rcases List.mem_cons.mp h with rfl | h
      · dsimp only
        split <;> omega
      · obtain ⟨hpos, hlen, hdma⟩ := ih h
        refine ⟨hpos, hlen, le_trans hdma ?_⟩
        split <;> omega

theorem length_fill_txaddr_info (n len dma : ℕ) : (fill_txaddr_info n len dma).length ≤ n := by
  induction n generalizing len dma with
  | zero => exact Nat.le_refl _
  | succ n ih =>
    rw [fill_txaddr_info]
    split
    · exact Nat.zero_le _
    · exact Nat.succ_le_succ (ih _ _)

/-- A piece as the hardware reads it. -/
def read_addr_info (m : Memory) (a : ℕ) : AddrInfo where
  len := (m.word 16 2 a &&& 0x7FF).toNat
  ls := (m.word 16 2 a).getLsbD 15
  dma := (m.word 16 2 (a + 2)).toNat + (m.word 16 2 (a + 4)).toNat * 2 ^ 16

@[simp] theorem AddrInfo.length_bytes (x : AddrInfo) : x.bytes.length = ADDR_INFO_SZ := by
  simp [AddrInfo.bytes, ADDR_INFO_SZ]

/-- The length and the flag share 16 bits. -/
theorem len_opt_spec {len : ℕ} (h : len ≤ ADDR_INFO_LEN_MAX) (ls : Bool) :
    let v := (BitVec.ofNat 16 len &&& 0x7FF) ||| (if ls then ADDR_INFO_LS else 0)
    (v &&& 0x7FF).toNat = len ∧ v.getLsbD 15 = ls := by
  unfold ADDR_INFO_LEN_MAX at h
  have hand : len &&& 2047 = len := by
    have hmod : len &&& 2047 = len % 2 ^ 11 := Nat.and_two_pow_sub_one_eq_mod len 11
    omega
  have hlow : len % 65536 = len := by omega
  have hbit : len.testBit 15 = false := Nat.testBit_lt_two_pow (by omega)
  cases ls
  · simp [BitVec.toNat_and, hlow, hand, BitVec.getLsbD, hbit]
  · simp [ADDR_INFO_LS, BitVec.toNat_and, BitVec.toNat_or, hlow, hand, BitVec.getLsbD,
      Nat.and_or_distrib_right]
    exact Or.inr (by decide)

theorem read_addr_info_of_bytes {m : Memory} {a : ℕ} {x : AddrInfo}
    (hlen : x.len ≤ ADDR_INFO_LEN_MAX) (hdma : x.dma < 2 ^ 32)
    (h : m.read a ADDR_INFO_SZ = x.bytes) : read_addr_info m a = x := by
  obtain ⟨len, ls, dma⟩ := x
  dsimp only at hlen hdma
  obtain ⟨hlenv, hlsv⟩ := len_opt_spec hlen ls
  unfold AddrInfo.bytes at h
  dsimp only at h hlenv hlsv
  generalize (BitVec.ofNat 16 len &&& 0x7FF) ||| (if ls then ADDR_INFO_LS else 0) =
    v at h hlenv hlsv
  have h0 : m.word 16 2 a = v := word_of_read [] _ (by omega) h
  have h2 : m.word 16 2 (a + 2) = BitVec.ofNat 16 (dma &&& 0xFFFF) :=
    word_of_read (Wire.putLe 2 v) _ (by omega) h
  have h4 : m.word 16 2 (a + 4) = BitVec.ofNat 16 (dma >>> 16 &&& 0xFFFF) := by
    apply word_of_read (k := ADDR_INFO_SZ)
      (Wire.putLe 2 v ++ Wire.putLe 2 (BitVec.ofNat 16 (dma &&& 0xFFFF))) [] (by omega)
    rw [h, List.append_nil, List.append_assoc]
  have hlo : dma &&& 0xFFFF = dma % 2 ^ 16 := Nat.and_two_pow_sub_one_eq_mod dma 16
  have hhi : dma >>> 16 &&& 0xFFFF = dma / 2 ^ 16 % 2 ^ 16 := by
    rw [Nat.shiftRight_eq_div_pow]
    exact Nat.and_two_pow_sub_one_eq_mod _ 16
  simp only [read_addr_info, h0, h2, h4, hlenv, hlsv, hlo, hhi, BitVec.toNat_ofNat]
  congr 1
  omega

/-! ## A frame in its page -/

/-- What `submit_wd` lets through. -/
def Fits (buf : Bytes) : Prop :=
  wd_len buf ≤ buf.length ∧ 0 < buf.length - wd_len buf ∧ buf.length - wd_len buf ≤ kPayloadSize

theorem wd_len_bounds (buf : Bytes) : WD_BODY_LEN_V1 ≤ wd_len buf ∧ wd_len buf ≤ 56 := by
  unfold wd_len WD_BODY_LEN_V1 WD_INFO_LEN
  split <;> omega

theorem wd_len_take {n : ℕ} (h : 4 ≤ n) (buf : Bytes) : wd_len (buf.take n) = wd_len buf := by
  have hword : rd_le32 (buf.take n) 0 = rd_le32 buf 0 := by
    unfold rd_le32
    congr 1
    apply Wire.getLe_congr
    intro i hi
    simp [byteAt, List.getD_eq_getElem?_getD, show i < n by omega]
  rw [wd_len, wd_len, hword]

variable {m m' : Memory} {page : ℕ} {buf : Bytes}

/-- A frame is let through by the length that it is cut to. -/
theorem fits_take {flen : ℕ} (hlen : wd_len buf ≤ buf.length)
    (hcut : flen ≤ buf.length - wd_len buf) (hpos : 0 < flen) (hmax : flen ≤ kPayloadSize) :
    Fits (buf.take (wd_len buf + flen)) := by
  have hmin := (wd_len_bounds buf).1
  unfold WD_BODY_LEN_V1 at hmin
  rw [Fits, wd_len_take (by omega), List.length_take]
  omega

/-- The piece at a place of the list, and where it stands in the page. -/
theorem addr_info_at {k : ℕ} {x : AddrInfo} (hfit : Fits buf)
    (h : (addr_infos slab page buf)[k]? = some x) :
    k < ADDR_INFO_NR_MAX ∧ x.len ≤ ADDR_INFO_LEN_MAX ∧
      x.dma < (Part.payload page).iova slab + kPayloadSize := by
  obtain ⟨hpos, hlen, hdma⟩ := fill_txaddr_info_bounds (List.mem_of_getElem? h)
  obtain ⟨hk, -⟩ := List.getElem?_eq_some_iff.mp h
  have hfits := hfit.2.2
  refine ⟨Nat.lt_of_lt_of_le hk (length_fill_txaddr_info _ _ _), hlen, ?_⟩
  omega

theorem tiles_addr_infos (hfit : Fits buf) :
    Tiles ((Part.payload page).iova slab) (buf.length - wd_len buf) (addr_infos slab page buf) := by
  apply tiles_fill_txaddr_info _ hfit.2.1
  refine le_trans hfit.2.2 ?_
  decide

/-- The hardware finds the payload and its pieces. -/
structure Laid (slab : ℕ) (m : Memory) (page : ℕ) (buf : Bytes) : Prop where
  fits : Fits buf
  payload : m.read ((Part.payload page).iova slab) (buf.length - wd_len buf) = buf.drop (wd_len buf)
  infos : ∀ k x, (addr_infos slab page buf)[k]? = some x →
    read_addr_info m (addr_info_iova slab page buf k) = x

/-- Two memories have the same in a part. -/
def Same (slab : ℕ) (m m' : Memory) (x : Part) : Prop :=
  m.read (x.iova slab) x.size = m'.read (x.iova slab) x.size

/-- The pieces stand within the page, behind the descriptor. -/
theorem addr_info_iova_bounds (slab page : ℕ) (buf : Bytes) {k : ℕ} (hk : k < ADDR_INFO_NR_MAX) :
    (Part.wd_page page).iova slab + 8 ≤ addr_info_iova slab page buf k ∧
      addr_info_iova slab page buf k + ADDR_INFO_SZ ≤
        (Part.wd_page page).iova slab + kWdPageSize := by
  obtain ⟨hmin, hmax⟩ := wd_len_bounds buf
  unfold ADDR_INFO_NR_MAX at hk
  unfold WD_BODY_LEN_V1 at hmin
  unfold addr_info_iova WP_INFO_SZ ADDR_INFO_SZ kWdPageSize
  omega

theorem read_addr_info_congr {a b n : ℕ} (h : m.read a n = m'.read a n) (hb : a ≤ b)
    (hk : b + ADDR_INFO_SZ ≤ a + n) : read_addr_info m b = read_addr_info m' b := by
  unfold ADDR_INFO_SZ at hk
  have h0 : m.word 16 2 b = m'.word 16 2 b := word_eq_part h hb (by omega)
  have h2 : m.word 16 2 (b + 2) = m'.word 16 2 (b + 2) := word_eq_part h (by omega) (by omega)
  have h4 : m.word 16 2 (b + 4) = m'.word 16 2 (b + 4) := word_eq_part h (by omega) (by omega)
  simp only [read_addr_info, h0, h2, h4]

theorem Laid.congr (h : Laid slab m page buf) (hpage : Same slab m' m (.wd_page page))
    (hpayload : Same slab m' m (.payload page)) : Laid slab m' page buf := by
  refine ⟨h.fits, ?_, ?_⟩
  · rw [← h.payload]
    exact read_eq_part hpayload (Nat.le_refl _) (Nat.add_le_add_left h.fits.2.2 _)
  · intro k x hx
    obtain ⟨hk, -, -⟩ := addr_info_at h.fits hx
    obtain ⟨hlo, hhi⟩ := addr_info_iova_bounds slab page buf hk
    rw [← h.infos k x hx]
    exact read_addr_info_congr hpage (by omega) hhi

/-! ### The stores of a frame -/

/-- The stores into the page, without the payload. -/
def page_stores (slab page : ℕ) (buf : Bytes) : List Store :=
  let pg := (Part.wd_page page).iova slab
  [⟨pg, List.replicate kWdPageSize 0⟩, ⟨pg, buf.take (wd_len buf)⟩,
    ⟨pg + wd_len buf, wp_info page⟩] ++
  (addr_infos slab page buf).mapIdx fun k x => ⟨addr_info_iova slab page buf k, x.bytes⟩

theorem wd_stores_eq (slab page : ℕ) (buf : Bytes) : wd_stores slab page buf =
    ⟨(Part.payload page).iova slab, buf.drop (wd_len buf)⟩ :: page_stores slab page buf := rfl

theorem within_page_stores {x : Store} (hfit : Fits buf) (hx : x ∈ page_stores slab page buf) :
    x.Within ((Part.wd_page page).iova slab) kWdPageSize := by
  obtain ⟨hmin, hmax⟩ := wd_len_bounds buf
  have hle := hfit.1
  unfold Store.Within
  unfold page_stores at hx
  simp only [List.cons_append, List.nil_append, List.mem_cons] at hx
  rcases hx with rfl | rfl | rfl | hx
  · simp
  · simp only [List.length_take, kWdPageSize]
    omega
  · simp only [wp_info, List.length_append, Wire.length_putLe, kWdPageSize]
    omega
  · obtain ⟨k, hk, rfl⟩ := List.mem_mapIdx.mp hx
    have hbound := Nat.lt_of_lt_of_le hk (length_fill_txaddr_info _ _ _)
    obtain ⟨hlo, hhi⟩ := addr_info_iova_bounds slab page buf hbound
    dsimp only
    rw [AddrInfo.length_bytes]
    omega

theorem within_payload_store (hfit : Fits buf) :
    Store.Within ⟨(Part.payload page).iova slab, buf.drop (wd_len buf)⟩
      ((Part.payload page).iova slab) kPayloadSize := by
  refine ⟨Nat.le_refl _, ?_⟩
  rw [List.length_drop]
  exact Nat.add_le_add_left hfit.2.2 _

/-- The pieces stand one behind another. -/
theorem pairwise_addr_infos (slab page : ℕ) (buf : Bytes) :
    ((addr_infos slab page buf).mapIdx fun k x =>
      (⟨addr_info_iova slab page buf k, x.bytes⟩ : Store)).Pairwise
      fun y z => Apart y.place y.bytes.length z.place z.bytes.length := by
  rw [List.pairwise_iff_getElem]
  intro i j hi hj hij
  left
  simp only [List.getElem_mapIdx, AddrInfo.length_bytes]
  unfold addr_info_iova ADDR_INFO_SZ
  omega

theorem laid_wd_stores (hslab : slab + layout.total ≤ 2 ^ 32) (hpage : page < kWdPages)
    (hfit : Fits buf) (m : Memory) : Laid slab (m.stores (wd_stores slab page buf)) page buf := by
  refine ⟨hfit, ?_, ?_⟩
  · have hapart : Apart ((Part.payload page).iova slab) kPayloadSize
        ((Part.wd_page page).iova slab) kWdPageSize :=
      Part.apart hpage hpage nofun
    have hlen : (buf.drop (wd_len buf)).length = buf.length - wd_len buf := List.length_drop
    rw [wd_stores_eq, stores_cons, read_stores_apart]
    · rw [← hlen]
      exact read_write _ _ _
    · intro x hx
      obtain ⟨hlo, hhi⟩ := within_page_stores hfit hx
      have hfits := hfit.2.2
      rcases hapart with h | h
      · exact Or.inl (by omega)
      · exact Or.inr (by omega)
  · intro k x hx
    obtain ⟨hk, hlen, hdma⟩ := addr_info_at hfit hx
    have hwithin := @Part.within slab (.payload page) hpage
    have hlow : x.dma < 2 ^ 32 := by
      have hsize : (Part.payload page).size = kPayloadSize := rfl
      omega
    apply read_addr_info_of_bytes hlen hlow
    have hmem : (⟨addr_info_iova slab page buf k, x.bytes⟩ : Store) ∈
        (addr_infos slab page buf).mapIdx fun k x => ⟨addr_info_iova slab page buf k, x.bytes⟩ := by
      obtain ⟨hk, hget⟩ := List.getElem?_eq_some_iff.mp hx
      exact List.mem_mapIdx.mpr ⟨k, hk, by rw [hget]⟩
    unfold wd_stores
    rw [stores_append, ← x.length_bytes]
    exact read_stores_mem hmem (pairwise_addr_infos slab page buf)

theorem within_patches {x : Store} (hx : x ∈ (Job.wd page buf).patches slab m) :
    x.Within ((Part.wd_page page).iova slab) 8 := by
  unfold Store.Within
  simp only [Job.patches, List.mem_cons, List.not_mem_nil, or_false] at hx
  rcases hx with rfl | rfl
  · simp
  · simp

/-- The patch of the descriptor does not reach the pieces. -/
theorem laid_patches (hpage : page < kWdPages) (h : Laid slab m page buf) :
    Laid slab (m.stores ((Job.wd page buf).patches slab m)) page buf := by
  have hapart : Apart ((Part.payload page).iova slab) kPayloadSize
      ((Part.wd_page page).iova slab) kWdPageSize :=
    Part.apart hpage hpage nofun
  have hfits := h.fits.2.2
  refine ⟨h.fits, ?_, ?_⟩
  · rw [← h.payload]
    apply read_stores_apart
    intro x hx
    obtain ⟨hlo, hhi⟩ := within_patches hx
    unfold kWdPageSize at hapart
    rcases hapart with hapart | hapart
    · exact Or.inl (by omega)
    · exact Or.inr (by omega)
  · intro k x hx
    obtain ⟨hk, -, -⟩ := addr_info_at h.fits hx
    obtain ⟨hlo, -⟩ := addr_info_iova_bounds slab page buf hk
    have hsame : (m.stores ((Job.wd page buf).patches slab m)).read
        (addr_info_iova slab page buf k) ADDR_INFO_SZ =
        m.read (addr_info_iova slab page buf k) ADDR_INFO_SZ := by
      apply read_stores_apart
      intro y hy
      obtain ⟨hylo, hyhi⟩ := within_patches hy
      exact Or.inr (by omega)
    rw [← h.infos k x hx]
    exact read_addr_info_congr hsame (Nat.le_refl _) (Nat.le_refl _)

end devourer.pcie.DmaAx
