-- Headers whose fields are laid out as radiotap says, and the rate that the
-- parser takes from them.
import Devourer.Mt7612u.RadiotapReads

namespace devourer.mt7612u

/-- The alignment and the size of each field in the default namespace. -/
def rtap_namespace_sizes : List (ℕ × ℕ) :=
  [(8, 8), (1, 1), (1, 1), (2, 4), (2, 2), (1, 1), (1, 1), (2, 2), (2, 2), (2, 2), (1, 1), (1, 1),
    (1, 1), (1, 1), (2, 2), (2, 2), (1, 1), (1, 1), (0, 0), (1, 3), (4, 8), (2, 12), (8, 12),
    (2, 12)]

/-- A bit that names a field: 0 to 17 and 19 to 23. -/
def Field (bit : ℕ) : Prop := bit < 18 ∨ (19 ≤ bit ∧ bit < 24)

instance : DecidablePred Field := fun _ => inferInstanceAs (Decidable (_ ∨ _))

def natural (bit : ℕ) : ℕ × ℕ := rtap_namespace_sizes.getD bit (1, 0)

/-- The fields of these bits stand one after another from `e` to `till`, each at the first place
behind the last one that its alignment allows. -/
inductive Laid (b : Bytes) (value : ℕ → Bytes) : List ℕ → ℕ → ℕ → Prop
  | nil (e : ℕ) : Laid b value [] e e
  | cons {bit o e till : ℕ} {bits : List ℕ} :
      (natural bit).1 ∣ o → e ≤ o → o < e + (natural bit).1 →
      (value bit).length = (natural bit).2 → (b.drop o).take (value bit).length = value bit →
      Laid b value bits (o + (natural bit).2) till → Laid b value (bit :: bits) e till

/-- The present words from `off` on, and where they end. Each one but the last says that another
follows. -/
inductive Present (b : Bytes) : ℕ → List (BitVec 32) → ℕ → Prop
  | last {off : ℕ} : (rd32 b off).getLsbD 31 = false → Present b off [rd32 b off] (off + 4)
  | more {off till : ℕ} {words : List (BitVec 32)} : (rd32 b off).getLsbD 31 = true →
      Present b (off + 4) words till → Present b off (rd32 b off :: words) till

/-- A present word that names no field. -/
def Blank (word : BitVec 32) : Prop := ∀ k < 31, word.getLsbD k = false

/-- The bits of the first present word that name fields, in their order. -/
def field_bits (present0 : BitVec 32) : List ℕ := (List.range 31).filter fun k => present0.getLsbD k

/-- A well-formed header at the front of a buffer. The present words behind the first one name no
field. -/
structure Header where
  b : Bytes
  present0 : BitVec 32
  more : List (BitVec 32)
  start : ℕ
  value : ℕ → Bytes
  stop : ℕ
  version : byteAt b 0 = 0
  present : Present b 4 (present0 :: more) start
  few : more.length ≤ 7
  blank : ∀ word ∈ more, Blank word
  fields : ∀ k ∈ field_bits present0, Field k
  laid : Laid b value (field_bits present0) start stop
  covers : stop ≤ it_len b
  inside : it_len b ≤ b.length

/-! ## Where the parser finds the fields -/

theorem rt_field_natural : ∀ bit < 24, Field bit →
    rt_field[bit]? = some (natural bit) ∧ (natural bit).2 ≠ 0 := by decide

theorem Field.lt {bit : ℕ} (h : Field bit) : bit < 24 := by
  rcases h with h | h <;> omega

theorem Laid.le {b : Bytes} {value : ℕ → Bytes} {bits : List ℕ} {e till : ℕ}
    (h : Laid b value bits e till) : e ≤ till := by
  induction h with
  | nil e => exact Nat.le_refl e
  | cons _ hle _ _ _ _ ih => omega

theorem Laid.length_value {b : Bytes} {value : ℕ → Bytes} {bits : List ℕ} {e till bit : ℕ}
    (h : Laid b value bits e till) (hbit : bit ∈ bits) :
    (value bit).length = (natural bit).2 := by
  induction h with
  | nil => exact absurd hbit List.not_mem_nil
  | cons _ _ _ hlen _ _ ih =>
    rcases List.mem_cons.mp hbit with rfl | hbit
    · exact hlen
    · exact ih hbit

/-- Each field is taken from its own value. -/
theorem Laid.rt_fields_eq {b : Bytes} {value : ℕ → Bytes} {bits : List ℕ} {e till : ℕ}
    (h : Laid b value bits e till) (hfields : ∀ k ∈ bits, Field k) {rlen : ℕ} (hrlen : till ≤ rlen)
    (present0 : BitVec 32) (r : TxRate) :
    rt_fields b rlen present0 bits e r =
      ((rlen : ℤ), bits.foldl (fun r bit => rt_take (value bit) present0 bit 0 r) r) := by
  induction h generalizing r with
  | nil e => rfl
  | @cons bit o e till bits hdvd hle hlt hlen hvalue hrest ih =>
    have hbit : Field bit := hfields bit List.mem_cons_self
    obtain ⟨hknown, hsize⟩ := rt_field_natural bit hbit.lt hbit
    have htouched : rt_touched present0 bit ≤ (natural bit).2 := rt_touched_le hknown
    have hend := hrest.le
    have htake : rt_take b present0 bit o r = rt_take (value bit) present0 bit 0 r := by
      apply rt_take_congr
      intro i hi
      rw [Nat.zero_add, ← hvalue, byteAt_read _ _ (by omega)]
    unfold rt_fields
    rw [hknown]
    dsimp only
    rw [Layout.alignUp_eq hdvd hle hlt, if_neg hsize, if_neg (by omega), htake,
      ih (fun k hk => hfields k (List.mem_cons_of_mem _ hk)) hrlen, List.foldl_cons]

theorem rt_bits_blank (present0 : BitVec 32) {ws : List (BitVec 32)} (h : ∀ w ∈ ws, Blank w) :
    rt_bits (present0 :: ws) = field_bits present0 := by
  unfold rt_bits
  rw [List.zipIdx_cons, List.flatMap_cons, List.flatMap_eq_nil_iff.mpr, List.append_nil]
  · simp [field_bits]
  · rintro ⟨word, w⟩ hmem
    have hblank := h word (List.fst_mem_of_mem_zipIdx hmem)
    apply List.map_eq_nil_iff.mpr
    apply List.filter_eq_nil_iff.mpr
    intro k hk
    rw [hblank k (List.mem_range.mp hk)]
    exact Bool.false_ne_true

/-- A single present word. -/
theorem Present.single {b : Bytes} {off : ℕ} {word : BitVec 32} (hword : rd32 b off = word)
    (hbit : word.getLsbD 31 = false) : Present b off [word] (off + 4) := by
  subst hword
  exact Present.last hbit

theorem Present.lt {b : Bytes} {off till : ℕ} {words : List (BitVec 32)}
    (h : Present b off words till) : off + 4 ≤ till := by
  induction h with
  | last => exact Nat.le_refl _
  | more _ _ ih => omega

/-- The words are found where there is room for them. -/
theorem Present.rt_present_eq {b : Bytes} {off till : ℕ} {words : List (BitVec 32)}
    (h : Present b off words till) {left rlen : ℕ} (hleft : words.length ≤ left)
    (hrlen : till ≤ rlen) : rt_present b rlen left off = some (words, till) := by
  induction h generalizing left with
  | last hbit =>
    obtain ⟨left, rfl⟩ := Nat.exists_eq_succ_of_ne_zero (Nat.ne_of_gt hleft)
    unfold rt_present
    dsimp only
    rw [if_neg (by omega), if_neg (by rw [hbit]; exact Bool.false_ne_true)]
  | more hbit hrest ih =>
    have hlt := hrest.lt
    rw [List.length_cons] at hleft
    obtain ⟨left, rfl⟩ := Nat.exists_eq_succ_of_ne_zero (show left ≠ 0 by omega)
    unfold rt_present
    dsimp only
    rw [if_neg (by omega), if_pos hbit, ih (by omega) hrlen, Option.map_some]

namespace Header

variable (h : Header)

/-- The header is as long as it says, and its rate is taken field after field. -/
theorem parse_eq : mt_radiotap_parse (some h.b) = ((it_len h.b : ℤ),
    (field_bits h.present0).foldl (fun r bit => rt_take (h.value bit) h.present0 bit 0 r)
      { phy := .OFDM, nss := 1 }) := by
  have hwords := h.present.lt
  have hstart := h.laid.le
  have hcovers := h.covers
  have hinside := h.inside
  have hit : (rd16 h.b 2).toNat = it_len h.b := rfl
  have hpresent : rt_present h.b (it_len h.b) 8 4 = some (h.present0 :: h.more, h.start) :=
    h.present.rt_present_eq (Nat.succ_le_succ h.few) (by omega)
  unfold mt_radiotap_parse
  dsimp only
  rw [if_neg (by rintro (hlt | hne); exacts [absurd hlt (by omega), hne h.version]), hit,
    if_neg (by omega), hpresent]
  dsimp only
  rw [rt_bits_blank _ h.blank, List.headD_cons]
  exact h.laid.rt_fields_eq h.fields hcovers _ _

end Header

/-! ## A field that runs past the header -/

/-- Where the fields of these bits end that start behind `e`. -/
def fields_end : List ℕ → ℕ → ℕ
  | [], e => e
  | bit :: bits, e => fields_end bits (Layout.alignUp (natural bit).1 e + (natural bit).2)

/-- The header is refused at the first of them that its length does not hold. -/
theorem rt_fields_overrun {b : Bytes} {rlen e : ℕ} {bits : List ℕ} (hfields : ∀ k ∈ bits, Field k)
    (hstart : e ≤ rlen) (hend : rlen < fields_end bits e) (present0 : BitVec 32)
    (behind : List ℕ) (r : TxRate) :
    (rt_fields b rlen present0 (bits ++ behind) e r).1 = -1 := by
  induction bits generalizing e r with
  | nil => exact absurd hstart (Nat.not_le.mpr hend)
  | cons bit bits ih =>
    have hbit : Field bit := hfields bit List.mem_cons_self
    obtain ⟨hknown, hsize⟩ := rt_field_natural bit hbit.lt hbit
    rw [List.cons_append]
    unfold rt_fields
    rw [hknown]
    dsimp only
    rw [if_neg hsize]
    by_cases hroom : Layout.alignUp (natural bit).1 e + (natural bit).2 > rlen
    · rw [if_pos hroom]
    · rw [if_neg hroom]
      exact ih (fun k hk => hfields k (List.mem_cons_of_mem _ hk)) (Nat.not_lt.mp hroom) hend _

/-- The walk over the words gives those that the header declares, or it gives up. -/
theorem Present.rt_present_or {b : Bytes} {off till : ℕ} {words : List (BitVec 32)}
    (h : Present b off words till) (left rlen : ℕ) :
    rt_present b rlen left off = none ∨
      (rt_present b rlen left off = some (words, till) ∧ till ≤ rlen) := by
  induction h generalizing left with
  | @last off hbit =>
    cases left with
    | zero => exact Or.inl rfl
    | succ left =>
      unfold rt_present
      dsimp only
      by_cases hroom : off + 4 > rlen
      · rw [if_pos hroom]
        exact Or.inl rfl
      · rw [if_neg hroom, if_neg (by rw [hbit]; exact Bool.false_ne_true)]
        exact Or.inr ⟨rfl, Nat.not_lt.mp hroom⟩
  | @more off till words hbit _ ih =>
    cases left with
    | zero => exact Or.inl rfl
    | succ left =>
      unfold rt_present
      dsimp only
      by_cases hroom : off + 4 > rlen
      · rw [if_pos hroom]
        exact Or.inl rfl
      · rw [if_neg hroom, if_pos hbit]
        rcases ih left with hnone | ⟨hsome, hle⟩
        · rw [hnone]
          exact Or.inl rfl
        · rw [hsome]
          exact Or.inr ⟨rfl, hle⟩

theorem overrun_refused {b : Bytes} {start : ℕ} {words : List (BitVec 32)}
    (hpresent : Present b 4 words start) {bits behind : List ℕ}
    (hbits : rt_bits words = bits ++ behind) (hfields : ∀ k ∈ bits, Field k)
    (hend : it_len b < fields_end bits start) : (mt_radiotap_parse (some b)).1 ≤ 0 := by
  have hit : (rd16 b 2).toNat = it_len b := rfl
  unfold mt_radiotap_parse
  dsimp only
  split
  · exact Int.le_refl 0
  rw [hit]
  split
  · exact Int.le_refl 0
  rcases hpresent.rt_present_or 8 (it_len b) with hnone | ⟨hsome, hle⟩
  · rw [hnone]
  · rw [hsome]
    dsimp only
    rw [hbits, rt_fields_overrun hfields hle hend]
    decide

end devourer.mt7612u
