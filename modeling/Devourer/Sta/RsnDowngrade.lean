-- What the downgrade check tells apart: the suites of two elements as sets,
-- their numbers, and the fields around them.
import Devourer.Lib.Bitmap
import Devourer.Lib.Wire
import Devourer.Sta.RsnElement

namespace devourer.sta

open Wire

/-- A suite that has no bit in a mask: another OUI, or a type of 32 or more. -/
def OtherSuite (s : Suite) : Prop := ∀ t : UInt8, t < 32 → s ≠ rsn_suite t

/-- Two elements offer the same, whatever the order of their lists and their PMKIDs. -/
structure SameOffer (a b : RsnFields) : Prop where
  group : a.group.getD (Octets.zero 4) = b.group.getD (Octets.zero 4)
  pairwise_count : (listed a.pairwise).length = (listed b.pairwise).length
  akm_count : (listed a.akm).length = (listed b.akm).length
  pairwise_set : ∀ t : UInt8, t < 32 →
    (rsn_suite t ∈ listed a.pairwise ↔ rsn_suite t ∈ listed b.pairwise)
  akm_set : ∀ t : UInt8, t < 32 → (rsn_suite t ∈ listed a.akm ↔ rsn_suite t ∈ listed b.akm)
  pairwise_other : (∃ s ∈ listed a.pairwise, OtherSuite s) ↔ ∃ s ∈ listed b.pairwise, OtherSuite s
  akm_other : (∃ s ∈ listed a.akm, OtherSuite s) ↔ ∃ s ∈ listed b.akm, OtherSuite s
  capabilities : a.capabilities.getD (Octets.zero 2) = b.capabilities.getD (Octets.zero 2)
  group_mgmt : a.group_mgmt.getD (Octets.zero 4) = b.group_mgmt.getD (Octets.zero 4)

/-! ## Selectors -/

theorem rsn_suite_u32_eq (p : Bytes) (i : Nat) :
    rsn_suite_u32 p i = UInt32.ofBitVec (getBe 32 4 fun n => byteAt p (i + n)) := by
  apply UInt32.toBitVec_inj.mp
  simp [rsn_suite_u32, getBe, List.range_succ, BitVec.shiftLeft_or_distrib, ← BitVec.shiftLeft_add]

/-- An array is known by its bytes. -/
theorem octets_ext {n : Nat} {x y : Octets n} (h : ∀ k < n, byteAt x.val k = byteAt y.val k) :
    x = y := by
  have hx := x.property
  have hy := y.property
  apply Subtype.ext
  apply List.ext_getElem
  · rw [hx, hy]
  · intro k hkx hky
    have hbyte := h k (hx ▸ hkx)
    unfold byteAt at hbyte
    rwa [List.getD_eq_getElem _ _ hkx, List.getD_eq_getElem _ _ hky] at hbyte

theorem rsn_suite_u32_inj {x y : Suite} (h : rsn_suite_u32 x.val 0 = rsn_suite_u32 y.val 0) :
    x = y := by
  rw [rsn_suite_u32_eq, rsn_suite_u32_eq] at h
  apply octets_ext
  intro k hk
  have hbyte := getBe_inj (by decide) (congrArg UInt32.toBitVec h) hk
  simpa only [Nat.zero_add] using hbyte

theorem get_le16_inj {x y : Octets 2} (h : get_le16 x.val 0 = get_le16 y.val 0) : x = y := by
  have hx := put_le16_of_length (p := x.val) (by rw [x.property])
  have hy := put_le16_of_length (p := y.val) (by rw [y.property])
  rw [List.drop_eq_nil_of_le (by rw [x.property])] at hx
  rw [List.drop_eq_nil_of_le (by rw [y.property])] at hy
  apply Subtype.ext
  rw [hx, hy, h]

theorem rsn_suite_inj {t u : UInt8} (h : rsn_suite t = rsn_suite u) : t = u := by
  have hbytes := congrArg Subtype.val h
  simpa [rsn_suite] using hbytes

/-! ## The mask of a list -/

theorem suite_set_snoc (type : UInt8) (suites : List Suite) (s : Suite) :
    (suite_set type (suites ++ [s])).mask =
        (rsn_suite_note s.val 0 (suite_set type suites).mask (suite_set type suites).other).1 ∧
      (suite_set type (suites ++ [s])).other =
        (rsn_suite_note s.val 0 (suite_set type suites).mask (suite_set type suites).other).2 := by
  unfold suite_set
  rw [List.foldl_append]
  exact ⟨rfl, rfl⟩

/-- A suite either sets its bit or the flag. -/
theorem rsn_suite_note_cases (s : Suite) (mask : UInt32) (other : Bool) :
    (∃ t : UInt8, t < 32 ∧ s = rsn_suite t ∧
      rsn_suite_note s.val 0 mask other = (mask ||| (1 <<< t.toUInt32), other)) ∨
    (OtherSuite s ∧ rsn_suite_note s.val 0 mask other = (mask, true)) := by
  obtain ⟨bytes, hlen⟩ := s
  match bytes, hlen with
  | [a, b, c, t], hlen =>
    by_cases h : a = 0x00 ∧ b = 0x0f ∧ c = 0xac ∧ t < 32
    · obtain ⟨rfl, rfl, rfl, ht⟩ := h
      refine .inl ⟨t, ht, rfl, ?_⟩
      simp [rsn_suite_note, byteAt, ht]
    · refine .inr ⟨?_, ?_⟩
      · intro u hu heq
        have hbytes := congrArg Subtype.val heq
        simp only [rsn_suite, List.cons.injEq, and_true] at hbytes
        obtain ⟨rfl, rfl, rfl, rfl⟩ := hbytes
        exact h ⟨rfl, rfl, rfl, hu⟩
      · have hcond : (a == 0x00 && b == 0x0f && c == 0xac && decide (t < 32)) = false := by
          simpa [and_assoc] using h
        exact if_neg (by rw [Bool.not_eq_true]; exact hcond)

theorem getLsbD_or_bit {mask : UInt32} {t u : UInt8} (ht : t < 32) :
    (mask ||| (1 <<< t.toUInt32)).toBitVec.getLsbD u.toNat =
      (mask.toBitVec.getLsbD u.toNat || decide (u = t)) := by
  have hlt : t.toNat < 32 := ht
  have hshift : (1 <<< t.toUInt32 : UInt32).toBitVec = 1#32 <<< t.toNat := by
    apply BitVec.eq_of_toNat_eq
    simp [Nat.mod_eq_of_lt hlt]
  rw [UInt32.toBitVec_or, BitVec.getLsbD_or, hshift, Bitmap.getLsbD_one_shiftLeft hlt]
  congr 1
  exact decide_eq_decide.mpr UInt8.toNat_inj

/-- Bit `t` of the mask is the suite 00-0F-AC:t. -/
theorem suite_set_mask (type : UInt8) (suites : List Suite) {t : UInt8} (ht : t < 32) :
    (suite_set type suites).mask.toBitVec.getLsbD t.toNat = true ↔ rsn_suite t ∈ suites := by
  induction suites using List.reverseRecOn with
  | nil => simp [suite_set]
  | append_singleton suites s ih =>
    rw [(suite_set_snoc type suites s).1, List.mem_append, List.mem_singleton, ← ih]
    rcases rsn_suite_note_cases s (suite_set type suites).mask (suite_set type suites).other with
      ⟨u, hu, rfl, hnote⟩ | ⟨hother, hnote⟩
    · rw [hnote, getLsbD_or_bit hu, Bool.or_eq_true, decide_eq_true_eq]
      constructor
      · rintro (h | rfl)
        · exact .inl h
        · exact .inr rfl
      · rintro (h | h)
        · exact .inl h
        · exact .inr (rsn_suite_inj h)
    · rw [hnote]
      constructor
      · exact .inl
      · rintro (h | h)
        · exact h
        · exact absurd h.symm (hother t ht)

theorem suite_set_other (type : UInt8) (suites : List Suite) :
    (suite_set type suites).other = true ↔ ∃ s ∈ suites, OtherSuite s := by
  induction suites using List.reverseRecOn with
  | nil => simp [suite_set]
  | append_singleton suites s ih =>
    rw [(suite_set_snoc type suites s).2]
    rcases rsn_suite_note_cases s (suite_set type suites).mask (suite_set type suites).other with
      ⟨u, hu, rfl, hnote⟩ | ⟨hother, hnote⟩
    · rw [hnote, ih]
      constructor
      · rintro ⟨x, hx, hxother⟩
        exact ⟨x, List.mem_append_left _ hx, hxother⟩
      · rintro ⟨x, hx, hxother⟩
        rcases List.mem_append.mp hx with hx | hx
        · exact ⟨x, hx, hxother⟩
        · rw [List.mem_singleton] at hx
          exact absurd hx (hxother u hu)
    · rw [hnote]
      exact ⟨fun _ => ⟨s, by simp, hother⟩, fun _ => rfl⟩

theorem mask_eq_iff (type : UInt8) (xs ys : List Suite) :
    (suite_set type xs).mask = (suite_set type ys).mask ↔
      ∀ t : UInt8, t < 32 → (rsn_suite t ∈ xs ↔ rsn_suite t ∈ ys) := by
  constructor
  · intro h t ht
    rw [← suite_set_mask type xs ht, ← suite_set_mask type ys ht, h]
  · intro h
    apply UInt32.toBitVec_inj.mp
    apply BitVec.eq_of_getLsbD_eq
    intro i hi
    have hi8 : i % 2 ^ 8 = i := Nat.mod_eq_of_lt (by omega)
    have hnat : (UInt8.ofNat i).toNat = i := by rw [UInt8.toNat_ofNat', hi8]
    have hlt : UInt8.ofNat i < 32 := by
      rw [UInt8.lt_iff_toNat_lt, hnat]
      exact hi
    have hbit := h (UInt8.ofNat i) hlt
    rw [← suite_set_mask type xs hlt, ← suite_set_mask type ys hlt, hnat] at hbit
    exact Bool.eq_iff_iff.mpr hbit

theorem other_eq_iff (type : UInt8) (xs ys : List Suite) :
    (suite_set type xs).other = (suite_set type ys).other ↔
      ((∃ s ∈ xs, OtherSuite s) ↔ ∃ s ∈ ys, OtherSuite s) := by
  rw [← suite_set_other type xs, ← suite_set_other type ys, Bool.eq_iff_iff]

/-! ## The check -/

theorem Counted.fits {n : Nat} {rest rest' : Bytes} {xs : Option (List (Octets n))}
    (h : Counted n rest xs rest') : (listed xs).length < 2 ^ 16 := by
  cases h with
  | here xs rest hfit => exact hfit
  | short h => exact Nat.two_pow_pos 16

theorem count_eq_iff {n m : Nat} (hn : n < 2 ^ 16) (hm : m < 2 ^ 16) :
    n.toUInt16 = m.toUInt16 ↔ n = m := by
  constructor
  · intro h
    have hnat := congrArg UInt16.toNat h
    rwa [toUInt16_toNat hn, toUInt16_toNat hm] at hnat
  · rintro rfl
    rfl

variable {a b : Bytes} {fa fb : RsnFields}

theorem Spells.counts_fit (h : Spells a 1 fa) :
    (listed fa.pairwise).length < 2 ^ 16 ∧ (listed fa.akm).length < 2 ^ 16 := by
  obtain ⟨_, hpairwise, hakm, _, _, _⟩ := h
  exact ⟨hpairwise.fits, hakm.fits⟩

/-- The digests of two elements agree just when the elements offer the same. -/
theorem digest_equivalent_iff (ha : Spells a 1 fa) (hb : Spells b 1 fb) :
    Supplicant.rsn_equivalent fa.digest fb.digest = true ↔ SameOffer fa fb := by
  obtain ⟨hpa, haa⟩ := ha.counts_fit
  obtain ⟨hpb, hab⟩ := hb.counts_fit
  unfold Supplicant.rsn_equivalent RsnFields.digest
  simp only [Bool.and_eq_true, beq_iff_eq, mask_eq_iff, other_eq_iff, count_eq_iff hpa hpb,
    count_eq_iff haa hab]
  constructor
  · rintro ⟨⟨⟨⟨⟨⟨⟨⟨⟨_, hgroup⟩, hpset⟩, hpother⟩, hpcount⟩, haset⟩, haother⟩, hacount⟩, hcaps⟩,
      hmgmt⟩
    exact
      { group := rsn_suite_u32_inj hgroup
        pairwise_count := hpcount
        akm_count := hacount
        pairwise_set := hpset
        akm_set := haset
        pairwise_other := hpother
        akm_other := haother
        capabilities := get_le16_inj hcaps
        group_mgmt := rsn_suite_u32_inj hmgmt }
  · intro h
    refine ⟨⟨⟨⟨⟨⟨⟨⟨⟨trivial, ?_⟩, h.pairwise_set⟩, h.pairwise_other⟩, h.pairwise_count⟩, h.akm_set⟩,
      h.akm_other⟩, h.akm_count⟩, ?_⟩, ?_⟩
    · rw [selector, selector, h.group]
    · rw [RsnFields.caps, RsnFields.caps, h.capabilities]
    · rw [selector, selector, h.group_mgmt]

/-- The order of the lists and the PMKIDs do not count. -/
theorem SameOffer.of_perm (hgroup : fa.group = fb.group)
    (hpairwise : (listed fa.pairwise).Perm (listed fb.pairwise))
    (hakm : (listed fa.akm).Perm (listed fb.akm)) (hcaps : fa.capabilities = fb.capabilities)
    (hmgmt : fa.group_mgmt = fb.group_mgmt) : SameOffer fa fb :=
  { group := congrArg (·.getD (Octets.zero 4)) hgroup
    pairwise_count := hpairwise.length_eq
    akm_count := hakm.length_eq
    pairwise_set := fun _ _ => hpairwise.mem_iff
    akm_set := fun _ _ => hakm.mem_iff
    pairwise_other := by simp only [hpairwise.mem_iff]
    akm_other := by simp only [hakm.mem_iff]
    capabilities := congrArg (·.getD (Octets.zero 2)) hcaps
    group_mgmt := congrArg (·.getD (Octets.zero 4)) hmgmt }

theorem rsn_equivalent_iff (x y : RsnInfo) : Supplicant.rsn_equivalent x y = true ↔
    x.version = y.version ∧ x.group_suite = y.group_suite ∧ x.pairwise_mask = y.pairwise_mask ∧
      x.pairwise_other = y.pairwise_other ∧ x.pairwise_count = y.pairwise_count ∧
      x.akm_mask = y.akm_mask ∧ x.akm_other = y.akm_other ∧ x.akm_count = y.akm_count ∧
      x.capabilities = y.capabilities ∧ x.group_mgmt_suite = y.group_mgmt_suite := by
  simp [Supplicant.rsn_equivalent, and_assoc]

theorem rsn_equivalent_equivalence :
    Equivalence fun x y : RsnInfo => Supplicant.rsn_equivalent x y = true := by
  refine ⟨fun x => ?_, fun {x y} h => ?_, fun {x y z} hxy hyz => ?_⟩
  · simp [rsn_equivalent_iff]
  · simp only [rsn_equivalent_iff] at h ⊢
    grind
  · simp only [rsn_equivalent_iff] at hxy hyz ⊢
    grind

/-- The downgrade check tells two accepted elements apart just where they offer something else:
an equivalence that neither the order of a list nor the PMKIDs touch, and that every change of a
set breaks. An element with a count that overruns is refused, and none is read past its end. -/
theorem rsn_downgrade_check_exact {ia ib : RsnInfo} (ha : parse_rsn a = some ia)
    (hb : parse_rsn b = some ib) :
    ((∃ fa, Spells a 1 fa) ∧ ∃ fb, Spells b 1 fb) ∧
      (∀ fa fb, Spells a 1 fa → Spells b 1 fb →
        (Supplicant.rsn_equivalent ia ib = true ↔ SameOffer fa fb) ∧
        (fa.group = fb.group → (listed fa.pairwise).Perm (listed fb.pairwise) →
          (listed fa.akm).Perm (listed fb.akm) → fa.capabilities = fb.capabilities →
          fa.group_mgmt = fb.group_mgmt → Supplicant.rsn_equivalent ia ib = true) ∧
        (∀ t : UInt8, t < 32 →
          (¬ (rsn_suite t ∈ listed fa.pairwise ↔ rsn_suite t ∈ listed fb.pairwise) ∨
            ¬ (rsn_suite t ∈ listed fa.akm ↔ rsn_suite t ∈ listed fb.akm)) →
          Supplicant.rsn_equivalent ia ib = false)) ∧
      (Equivalence fun x y : RsnInfo => Supplicant.rsn_equivalent x y = true) ∧
      ∀ p, (Overrun p → parse_rsn p = none) ∧ parse_rsn_checked p = some (parse_rsn p) := by
  refine ⟨⟨?_, ?_⟩, ?_, rsn_equivalent_equivalence,
    fun p => ⟨Overrun.parse, parse_rsn_checked_eq p⟩⟩
  · obtain ⟨f, hf, _⟩ := (parse_rsn_iff a ia).mp ha
    exact ⟨f, hf⟩
  · obtain ⟨f, hf, _⟩ := (parse_rsn_iff b ib).mp hb
    exact ⟨f, hf⟩
  · intro fa fb hfa hfb
    have hia : ia = fa.digest := Option.some.inj (ha.symm.trans hfa.parse)
    have hib : ib = fb.digest := Option.some.inj (hb.symm.trans hfb.parse)
    have hiff := digest_equivalent_iff hfa hfb
    rw [← hia, ← hib] at hiff
    refine ⟨hiff, ?_, ?_⟩
    · intro hgroup hpairwise hakm hcaps hmgmt
      exact hiff.mpr (SameOffer.of_perm hgroup hpairwise hakm hcaps hmgmt)
    · intro t ht hchanged
      rw [← Bool.not_eq_true, hiff]
      intro hsame
      rcases hchanged with h | h
      · exact h (hsame.pairwise_set t ht)
      · exact h (hsame.akm_set t ht)

/-- An AP that offers CCMP and one more pairwise suite. -/
def two_suites (t : UInt8) : RsnFields :=
  { group := some (rsn_suite 4)
    pairwise := some [rsn_suite 4, rsn_suite t]
    akm := some [rsn_suite 2]
    capabilities := some (Octets.zero 2) }

def two_suites_body (t : UInt8) : Bytes :=
  [0x01, 0x00,
   0x00, 0x0f, 0xac, 0x04,
   0x02, 0x00, 0x00, 0x0f, 0xac, 0x04, 0x00, 0x0f, 0xac, t,
   0x01, 0x00, 0x00, 0x0f, 0xac, 0x02,
   0x00, 0x00]

theorem two_suites_spells (t : UInt8) : Spells (two_suites_body t) 1 (two_suites t) := by
  have hone : put_le16 (Nat.toUInt16 1) = [0x01, 0x00] := by decide
  have htwo : put_le16 (Nat.toUInt16 2) = [0x02, 0x00] := by decide
  have hspells := @Spells.intro 1 (two_suites t) _ _ _ _ _ _ _ (.here (rsn_suite 4) _)
    (.here [rsn_suite 4, rsn_suite t] _ (by simp)) (.here [rsn_suite 2] _ (by simp))
    (.here (Octets.zero 2) []) (.short (by decide)) (.short (by decide))
  rw [List.length_cons, List.length_singleton, List.length_singleton, htwo, hone] at hspells
  exact hspells

/-- GCMP-128 next to CCMP is swapped for TKIP: the counts are the same, and the check sees it. -/
theorem a_swapped_suite_is_seen : ∃ ia ib, parse_rsn (two_suites_body 8) = some ia ∧
    parse_rsn (two_suites_body 2) = some ib ∧ Supplicant.rsn_equivalent ia ib = false := by
  have hia := (two_suites_spells 8).parse
  have hib := (two_suites_spells 2).parse
  have hexact := (rsn_downgrade_check_exact hia hib).2.1 _ _ (two_suites_spells 8)
    (two_suites_spells 2)
  exact ⟨_, _, hia, hib, hexact.2.2 8 (by decide) (.inl (by decide))⟩

end devourer.sta
