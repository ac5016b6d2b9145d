-- The RSN element as it is written: its optional fields one after another,
-- and what the parser makes of each.
import Devourer.Sta.KeyDataReads

namespace devourer.sta

/-- A suite selector: the OUI and the type. -/
abbrev Suite := Octets 4

/-- The suite 00-0F-AC of this type. -/
def rsn_suite (type : UInt8) : Suite := ⟨[0x00, 0x0f, 0xac, type], rfl⟩

/-- The fields of an element body behind its version. Each one may be absent. -/
structure RsnFields where
  group : Option Suite := none
  pairwise : Option (List Suite) := none
  akm : Option (List Suite) := none
  capabilities : Option (Octets 2) := none
  pmkids : Option (List (Octets 16)) := none
  group_mgmt : Option Suite := none

/-- A field of `n` bytes at the front of what is left, where there are as many. -/
inductive Single (n : Nat) : Bytes → Option (Octets n) → Bytes → Prop
  | here (x : Octets n) (rest : Bytes) : Single n (x.val ++ rest) (some x) rest
  | short {rest : Bytes} (h : rest.length < n) : Single n rest none rest

/-- A count and as many items of `n` bytes at the front of what is left. -/
inductive Counted (n : Nat) : Bytes → Option (List (Octets n)) → Bytes → Prop
  | here (xs : List (Octets n)) (rest : Bytes) (h : xs.length < 2 ^ 16) :
      Counted n (put_le16 xs.length.toUInt16 ++ (xs.flatMap (·.val) ++ rest)) (some xs) rest
  | short {rest : Bytes} (h : rest.length < 2) : Counted n rest none rest

/-- The count at the front of what is left promises items that are not there. -/
def CountOverruns (n : Nat) (rest : Bytes) : Prop :=
  2 ≤ rest.length ∧ rest.length < 2 + n * (get_le16 rest 0).toNat

/-- A body is a version and these fields, in their order. -/
inductive Spells : Bytes → UInt16 → RsnFields → Prop
  | intro {version : UInt16} {f : RsnFields} {r₀ r₁ r₂ r₃ r₄ r₅ r₆ : Bytes}
      (group : Single 4 r₀ f.group r₁) (pairwise : Counted 4 r₁ f.pairwise r₂)
      (akm : Counted 4 r₂ f.akm r₃) (capabilities : Single 2 r₃ f.capabilities r₄)
      (pmkids : Counted 16 r₄ f.pmkids r₅) (group_mgmt : Single 4 r₅ f.group_mgmt r₆) :
      Spells (put_le16 version ++ r₀) version f

/-- One of the three counts of a body overruns it. -/
inductive Overrun : Bytes → Prop
  | pairwise {version : UInt16} {group : Option Suite} {r₀ r₁ : Bytes}
      (hgroup : Single 4 r₀ group r₁) (h : CountOverruns 4 r₁) :
      Overrun (put_le16 version ++ r₀)
  | akm {version : UInt16} {group : Option Suite} {pairwise : Option (List Suite)}
      {r₀ r₁ r₂ : Bytes} (hgroup : Single 4 r₀ group r₁) (hpairwise : Counted 4 r₁ pairwise r₂)
      (h : CountOverruns 4 r₂) : Overrun (put_le16 version ++ r₀)
  | pmkids {version : UInt16} {group : Option Suite} {pairwise akm : Option (List Suite)}
      {capabilities : Option (Octets 2)} {r₀ r₁ r₂ r₃ r₄ : Bytes}
      (hgroup : Single 4 r₀ group r₁) (hpairwise : Counted 4 r₁ pairwise r₂)
      (hakm : Counted 4 r₂ akm r₃) (hcapabilities : Single 2 r₃ capabilities r₄)
      (h : CountOverruns 16 r₄) : Overrun (put_le16 version ++ r₀)

/-! ## Little-endian counts -/

@[simp] theorem length_put_le16 (x : UInt16) : (put_le16 x).length = 2 := rfl

theorem not_short_of_version (x : UInt16) (rest : Bytes) : ¬ (put_le16 x ++ rest).length < 2 := by
  rw [List.length_append, length_put_le16]
  omega

theorem get_le16_toNat (p : Bytes) (i : Nat) :
    (get_le16 p i).toNat = (byteAt p i).toNat + 256 * (byteAt p (i + 1)).toNat := by
  have hlow := (byteAt p i).toNat_lt
  have hhigh := (byteAt p (i + 1)).toNat_lt
  have hor := Nat.two_pow_add_eq_or_of_lt hlow (byteAt p (i + 1)).toNat
  unfold get_le16
  rw [UInt16.toNat_or, UInt16.toNat_shiftLeft, UInt8.toNat_toUInt16, UInt8.toNat_toUInt16,
    Nat.or_comm]
  have hshift : (byteAt p (i + 1)).toNat <<< ((8 : UInt16).toNat % 16) % 2 ^ 16 =
      2 ^ 8 * (byteAt p (i + 1)).toNat := by
    rw [Nat.shiftLeft_eq]
    simp
    omega
  rw [hshift, ← hor]
  omega

theorem get_put_le16 (x : UInt16) (rest : Bytes) : get_le16 (put_le16 x ++ rest) 0 = x := by
  have hx := x.toNat_lt
  apply UInt16.toNat_inj.mp
  have hhigh : (x >>> 8).toNat = x.toNat / 256 := by
    simp [Nat.shiftRight_eq_div_pow]
  calc (get_le16 (put_le16 x ++ rest) 0).toNat
      = x.toUInt8.toNat + 256 * (x >>> 8).toUInt8.toNat := get_le16_toNat _ _
    _ = x.toNat := by
      rw [UInt16.toNat_toUInt8, UInt16.toNat_toUInt8, hhigh]
      omega

theorem put_get_le16 (a b : UInt8) (rest : Bytes) :
    put_le16 (get_le16 (a :: b :: rest) 0) = [a, b] := by
  have ha := a.toNat_lt
  have hb := b.toNat_lt
  have hsum : (get_le16 (a :: b :: rest) 0).toNat = a.toNat + 256 * b.toNat := get_le16_toNat _ _
  have hlow : (get_le16 (a :: b :: rest) 0).toUInt8 = a := by
    apply UInt8.toNat_inj.mp
    rw [UInt16.toNat_toUInt8, hsum]
    omega
  have hhigh : (get_le16 (a :: b :: rest) 0 >>> 8).toUInt8 = b := by
    apply UInt8.toNat_inj.mp
    rw [UInt16.toNat_toUInt8, UInt16.toNat_shiftRight, hsum]
    simp [Nat.shiftRight_eq_div_pow]
    omega
  rw [put_le16, hlow, hhigh]
/-- A buffer of two bytes or more starts with its count. -/
theorem put_le16_of_length {p : Bytes} (h : 2 ≤ p.length) :
    p = put_le16 (get_le16 p 0) ++ p.drop 2 := by
  match p with
  | a :: b :: rest =>
    rw [put_get_le16]
    rfl

/-! ## Every body either spells its fields or overruns -/

theorem single_total (n : Nat) (p : Bytes) : ∃ x rest, Single n p x rest := by
  by_cases h : p.length < n
  · exact ⟨none, p, .short h⟩
  · have hlen : (p.take n).length = n := by
      rw [List.length_take]
      omega
    have hp : p = p.take n ++ p.drop n := (List.take_append_drop n p).symm
    refine ⟨some ⟨p.take n, hlen⟩, p.drop n, ?_⟩
    have hhere := Single.here ⟨p.take n, hlen⟩ (p.drop n)
    rwa [← hp] at hhere

/-- Bytes that are enough for `count` items are that many items and a rest. -/
theorem items_of_length (n count : Nat) {p : Bytes} (h : n * count ≤ p.length) :
    ∃ (xs : List (Octets n)) (rest : Bytes), xs.length = count ∧
      p = xs.flatMap (·.val) ++ rest := by
  induction count generalizing p with
  | zero => exact ⟨[], p, rfl, rfl⟩
  | succ count ih =>
    rw [Nat.mul_succ] at h
    have hlen : (p.take n).length = n := by
      rw [List.length_take]
      omega
    obtain ⟨xs, rest, hxs, hp⟩ := ih (p := p.drop n) (by rw [List.length_drop]; omega)
    refine ⟨⟨p.take n, hlen⟩ :: xs, rest, by simp [hxs], ?_⟩
    rw [List.flatMap_cons, List.append_assoc, ← hp, List.take_append_drop]

theorem counted_or_overruns (n : Nat) (p : Bytes) :
    (∃ xs rest, Counted n p xs rest) ∨ CountOverruns n p := by
  by_cases hshort : p.length < 2
  · exact .inl ⟨none, p, .short hshort⟩
  · by_cases hover : p.length < 2 + n * (get_le16 p 0).toNat
    · exact .inr ⟨by omega, hover⟩
    · obtain ⟨xs, rest, hxs, hp⟩ := items_of_length n (get_le16 p 0).toNat (p := p.drop 2)
        (by rw [List.length_drop]; omega)
      have hfit : xs.length < 2 ^ 16 := by
        rw [hxs]
        exact (get_le16 p 0).toNat_lt
      have hcount : xs.length.toUInt16 = get_le16 p 0 := by
        rw [hxs]
        exact UInt16.ofNat_toNat
      have hhere := Counted.here xs rest hfit
      rw [hcount, ← hp, ← put_le16_of_length (by omega)] at hhere
      exact .inl ⟨some xs, rest, hhere⟩

theorem spells_or_overrun {p : Bytes} (h : 2 ≤ p.length) :
    (∃ f, Spells p (get_le16 p 0) f) ∨ Overrun p := by
  have hp := put_le16_of_length h
  obtain ⟨group, r₁, hgroup⟩ := single_total 4 (p.drop 2)
  rcases counted_or_overruns 4 r₁ with ⟨pairwise, r₂, hpairwise⟩ | hover
  · rcases counted_or_overruns 4 r₂ with ⟨akm, r₃, hakm⟩ | hover
    · obtain ⟨capabilities, r₄, hcapabilities⟩ := single_total 2 r₃
      rcases counted_or_overruns 16 r₄ with ⟨pmkids, r₅, hpmkids⟩ | hover
      · obtain ⟨group_mgmt, r₆, hmgmt⟩ := single_total 4 r₅
        have hspells : Spells (put_le16 (get_le16 p 0) ++ p.drop 2) (get_le16 p 0)
            ⟨group, pairwise, akm, capabilities, pmkids, group_mgmt⟩ :=
          .intro hgroup hpairwise hakm hcapabilities hpmkids hmgmt
        rw [← hp] at hspells
        exact .inl ⟨_, hspells⟩
      · have hoverrun : Overrun (put_le16 (get_le16 p 0) ++ p.drop 2) :=
          .pmkids hgroup hpairwise hakm hcapabilities hover
        rw [← hp] at hoverrun
        exact .inr hoverrun
    · have hoverrun : Overrun (put_le16 (get_le16 p 0) ++ p.drop 2) :=
        .akm hgroup hpairwise hover
      rw [← hp] at hoverrun
      exact .inr hoverrun
  · have hoverrun : Overrun (put_le16 (get_le16 p 0) ++ p.drop 2) := .pairwise hgroup hover
    rw [← hp] at hoverrun
    exact .inr hoverrun

/-! ## What the parser makes of the fields -/

/-- What the loop gathers from a list of suites. -/
def suite_set (type : UInt8) (suites : List Suite) : SuiteSet :=
  suites.foldl
    (fun acc s =>
      let noted := rsn_suite_note s.val 0 acc.mask acc.other
      { has := acc.has || rsn_suite_is s.val 0 type, mask := noted.1, other := noted.2 })
    {}

/-- The items of a list, none of them when it is absent. -/
def listed {n : Nat} (xs : Option (List (Octets n))) : List (Octets n) := xs.getD []

/-- The selector of a field, 0 when it is absent. -/
def selector (s : Option Suite) : UInt32 := rsn_suite_u32 (s.getD (Octets.zero 4)).val 0

/-- The capabilities of a body, 0 when they are absent. -/
def RsnFields.caps (f : RsnFields) : UInt16 := get_le16 (f.capabilities.getD (Octets.zero 2)).val 0

/-- What is kept of the fields. -/
def RsnFields.digest (f : RsnFields) : RsnInfo :=
  { valid := true
    version := 1
    group_ccmp := rsn_suite_is (f.group.getD (Octets.zero 4)).val 0 4
    pairwise_ccmp := (suite_set 4 (listed f.pairwise)).has
    akm_psk := (suite_set 2 (listed f.akm)).has
    capabilities := f.caps
    mfp_required := f.caps &&& 0x0040 != 0
    mfp_capable := f.caps &&& 0x0080 != 0
    pairwise_count := (listed f.pairwise).length.toUInt16
    akm_count := (listed f.akm).length.toUInt16
    group_suite := selector f.group
    pairwise_mask := (suite_set 4 (listed f.pairwise)).mask
    pairwise_other := (suite_set 4 (listed f.pairwise)).other
    akm_mask := (suite_set 2 (listed f.akm)).mask
    akm_other := (suite_set 2 (listed f.akm)).other
    group_mgmt_suite := selector f.group_mgmt }

/-- `rest` is what is left of a body from an offset on. -/
def Left (p : Bytes) (i : Nat) (rest : Bytes) : Prop := i ≤ p.length ∧ p.drop i = rest

variable {p rest rest' : Bytes} {i n : Nat}

theorem Left.length (h : Left p i rest) : p.length = i + rest.length := by
  obtain ⟨hi, rfl⟩ := h
  rw [List.length_drop]
  omega

theorem Left.skip {x : Bytes} (h : Left p i (x ++ rest)) : Left p (i + x.length) rest := by
  have hlen := h.length
  rw [List.length_append] at hlen
  refine ⟨by omega, ?_⟩
  rw [← List.drop_drop, h.2, List.drop_left]

theorem Left.take {x : Bytes} (h : Left p i (x ++ rest)) (hn : x.length = n) :
    (p.drop i).take n = x := by
  rw [h.2, ← hn, List.take_left]

theorem Left.le16 (h : Left p i rest) : get_le16 p i = get_le16 rest 0 := by
  rw [← get_le16_span, ← get_le16_span (p := rest), h.2, List.drop_zero]

theorem Left.suite_u32 {s : Suite} (h : Left p i (s.val ++ rest)) :
    rsn_suite_u32 p i = rsn_suite_u32 s.val 0 := by
  rw [← rsn_suite_u32_span, h.take s.property]

theorem Left.suite_is {s : Suite} (h : Left p i (s.val ++ rest)) (type : UInt8) :
    rsn_suite_is p i type = rsn_suite_is s.val 0 type := by
  rw [← rsn_suite_is_span, h.take s.property]

theorem Left.suite_note {s : Suite} (h : Left p i (s.val ++ rest)) (mask : UInt32)
    (other : Bool) : rsn_suite_note p i mask other = rsn_suite_note s.val 0 mask other := by
  rw [← rsn_suite_note_span, h.take s.property]

theorem length_items (xs : List (Octets n)) : (xs.flatMap (·.val)).length = n * xs.length := by
  induction xs with
  | nil => rfl
  | cons x xs ih =>
    rw [List.flatMap_cons, List.length_append, ih, x.property, List.length_cons, Nat.mul_succ,
      Nat.add_comm]

/-- The loop notes the suites of the list, one after another. -/
theorem Left.suites {type : UInt8} {xs : List Suite} {rest : Bytes}
    (h : Left p i (xs.flatMap (·.val) ++ rest)) :
    rsn_suites p i xs.length type = suite_set type xs := by
  induction xs using List.reverseRecOn generalizing rest with
  | nil => rfl
  | append_singleton xs s ih =>
    rw [List.flatMap_append, List.flatMap_singleton, List.append_assoc] at h
    have hlast := h.skip
    rw [length_items] at hlast
    have hxs := ih h
    unfold rsn_suites at hxs ⊢
    unfold suite_set at hxs ⊢
    rw [List.length_append, List.length_singleton, List.range_succ, List.foldl_append,
      List.foldl_append, hxs]
    simp only [List.foldl_cons, List.foldl_nil]
    rw [hlast.suite_note, hlast.suite_is]

/-- A counted list is read to its end. -/
theorem Counted.read {xs : Option (List Suite)} (hcounted : Counted 4 rest xs rest')
    (h : Left p i rest) (type : UInt8) : ∃ j, Left p j rest' ∧
      rsn_suite_list p i type =
        some ((listed xs).length.toUInt16, suite_set type (listed xs), j) := by
  cases hcounted with
  | here xs rest' hfit =>
    have hlen := h.length
    have hitems := h.skip
    have hcount : get_le16 p i = xs.length.toUInt16 := by rw [h.le16, get_put_le16]
    have hnat := toUInt16_toNat hfit
    rw [length_put_le16] at hitems
    simp only [List.length_append, length_put_le16, length_items] at hlen
    refine ⟨i + 2 + 4 * xs.length, length_items xs ▸ hitems.skip, ?_⟩
    unfold rsn_suite_list
    rw [if_pos (by omega), hcount]
    simp only [hnat]
    rw [if_neg (by omega), hitems.suites]
    rfl
  | short hshort =>
    have hlen := h.length
    refine ⟨i, h, ?_⟩
    unfold rsn_suite_list
    rw [if_neg (by omega)]
    rfl

theorem CountOverruns.refuse (hover : CountOverruns 4 rest) (h : Left p i rest) (type : UInt8) :
    rsn_suite_list p i type = none := by
  obtain ⟨hcount, hitems⟩ := hover
  have hlen := h.length
  rw [← h.le16] at hitems
  unfold rsn_suite_list
  rw [if_pos (by omega), if_pos (by omega)]

/-- Behind a field that is there or not. -/
theorem Single.skip {x : Option (Octets n)} (hsingle : Single n rest x rest') (h : Left p i rest) :
    Left p (if i + n ≤ p.length then i + n else i) rest' := by
  have hlen := h.length
  cases hsingle with
  | here x rest' =>
    have hskip := h.skip
    rw [x.property] at hskip
    rw [List.length_append, x.property] at hlen
    rwa [if_pos (by omega)]
  | short hshort => rwa [if_neg (by omega)]

/-- What is read of a field, the value at zeros when it is absent. -/
theorem Single.read {β : Type} {x : Option (Octets n)} (hsingle : Single n rest x rest')
    (h : Left p i rest) (read : Bytes → β) :
    (if i + n ≤ p.length then read ((p.drop i).take n) else read (Octets.zero n).val) =
      read (x.getD (Octets.zero n)).val := by
  have hlen := h.length
  cases hsingle with
  | here x rest' =>
    rw [List.length_append, x.property] at hlen
    rw [if_pos (by omega), h.take x.property]
    rfl
  | short hshort =>
    rw [if_neg (by omega)]
    rfl

theorem Single.suite_u32 {x : Option Suite} (hsingle : Single 4 rest x rest')
    (h : Left p i rest) :
    (if i + 4 ≤ p.length then rsn_suite_u32 p i else 0) = selector x := by
  rw [selector, ← hsingle.read h (rsn_suite_u32 · 0), rsn_suite_u32_span]
  rfl

theorem Single.le16 {x : Option (Octets 2)} (hsingle : Single 2 rest x rest') (h : Left p i rest) :
    (if i + 2 ≤ p.length then get_le16 p i else 0) =
      get_le16 (x.getD (Octets.zero 2)).val 0 := by
  rw [← hsingle.read h (get_le16 · 0), get_le16_span]
  rfl

theorem Single.suite_is {x : Option Suite} (hsingle : Single 4 rest x rest') (h : Left p i rest) :
    (if i + 4 ≤ p.length then rsn_suite_is p i 4 else false) =
      rsn_suite_is (x.getD (Octets.zero 4)).val 0 4 := by
  rw [← hsingle.read h (rsn_suite_is · 0 4), rsn_suite_is_span]
  rfl

/-- The PMKID count, and what is left behind the list. -/
theorem Counted.pmkids {xs : Option (List (Octets 16))} (hcounted : Counted 16 rest xs rest')
    (h : Left p i rest) : ∃ j, Left p j rest' ∧
      (if i + 2 ≤ p.length then i + 2 else i) +
        (if i + 2 ≤ p.length then (get_le16 p i).toNat else 0) * 16 = j := by
  cases hcounted with
  | here xs rest' hfit =>
    have hlen := h.length
    have hitems := h.skip
    have hnat := toUInt16_toNat hfit
    rw [length_put_le16] at hitems
    simp only [List.length_append, length_put_le16, length_items] at hlen
    refine ⟨i + 2 + 16 * xs.length, length_items xs ▸ hitems.skip, ?_⟩
    rw [if_pos (by omega), if_pos (by omega), h.le16, get_put_le16, hnat, Nat.mul_comm]
  | short hshort =>
    have hlen := h.length
    refine ⟨i, h, ?_⟩
    rw [if_neg (by omega), if_neg (by omega), Nat.zero_mul, Nat.add_zero]

theorem CountOverruns.past (hover : CountOverruns 16 rest) (h : Left p i rest) :
    p.length < (if i + 2 ≤ p.length then i + 2 else i) +
      (if i + 2 ≤ p.length then (get_le16 p i).toNat else 0) * 16 := by
  obtain ⟨hcount, hitems⟩ := hover
  have hlen := h.length
  rw [← h.le16] at hitems
  rw [if_pos (by omega), if_pos (by omega)]
  omega

theorem left_version (version : UInt16) (rest : Bytes) :
    Left (put_le16 version ++ rest) 2 rest := by
  have h : Left (put_le16 version ++ rest) 0 (put_le16 version ++ rest) :=
    ⟨Nat.zero_le _, List.drop_zero⟩
  exact h.skip

/-- The parser keeps the digest of the fields that a body spells. -/
theorem Spells.parse {f : RsnFields} (h : Spells p 1 f) : parse_rsn p = some f.digest := by
  obtain ⟨hgroup, hpairwise, hakm, hcapabilities, hpmkids, hmgmt⟩ := h
  rename_i r₀ r₁ r₂ r₃ r₄ r₅ r₆
  have h₀ := left_version 1 r₀
  have h₁ := hgroup.skip h₀
  obtain ⟨i₂, h₂, hread⟩ := hpairwise.read h₁ 4
  obtain ⟨i₃, h₃, hread'⟩ := hakm.read h₂ 2
  have h₄ := hcapabilities.skip h₃
  obtain ⟨i₅, h₅, hskip⟩ := hpmkids.pmkids h₄
  have hlen := h₅.length
  unfold parse_rsn
  rw [if_neg (not_short_of_version _ _), get_put_le16, if_neg (by simp)]
  simp only [show (6 : Nat) = 2 + 4 from rfl, hread, hread', hskip]
  rw [if_neg (by omega), hgroup.suite_is h₀, hgroup.suite_u32 h₀, hcapabilities.le16 h₃,
    hmgmt.suite_u32 h₅]
  rfl

theorem parse_rsn_other {version : UInt16} (h : version ≠ 1) (rest : Bytes) :
    parse_rsn (put_le16 version ++ rest) = none := by
  unfold parse_rsn
  rw [if_neg (not_short_of_version _ _), get_put_le16, if_pos h]

/-- A count that overruns the body is a refusal, whichever of the three it is. -/
theorem Overrun.parse (h : Overrun p) : parse_rsn p = none := by
  cases h with
  | @pairwise version _ r₀ _ hgroup hover =>
    by_cases hversion : version = 1
    · subst hversion
      have h₁ := hgroup.skip (left_version 1 r₀)
      unfold parse_rsn
      rw [if_neg (not_short_of_version _ _), get_put_le16, if_neg (by simp)]
      simp only [show (6 : Nat) = 2 + 4 from rfl, hover.refuse h₁ 4]
    · exact parse_rsn_other hversion _
  | @akm version _ _ r₀ _ _ hgroup hpairwise hover =>
    by_cases hversion : version = 1
    · subst hversion
      obtain ⟨i₂, h₂, hread⟩ := hpairwise.read (hgroup.skip (left_version 1 r₀)) 4
      unfold parse_rsn
      rw [if_neg (not_short_of_version _ _), get_put_le16, if_neg (by simp)]
      simp only [show (6 : Nat) = 2 + 4 from rfl, hread, hover.refuse h₂ 2]
    · exact parse_rsn_other hversion _
  | @pmkids version _ _ _ _ r₀ _ _ _ r₄ hgroup hpairwise hakm hcapabilities hover =>
    by_cases hversion : version = 1
    · subst hversion
      obtain ⟨i₂, h₂, hread⟩ := hpairwise.read (hgroup.skip (left_version 1 r₀)) 4
      obtain ⟨i₃, h₃, hread'⟩ := hakm.read h₂ 2
      have h₄ := hcapabilities.skip h₃
      unfold parse_rsn
      rw [if_neg (not_short_of_version _ _), get_put_le16, if_neg (by simp)]
      simp only [show (6 : Nat) = 2 + 4 from rfl, hread, hread']
      rw [if_pos (hover.past h₄)]
    · exact parse_rsn_other hversion _

theorem parse_rsn_iff (p : Bytes) (info : RsnInfo) :
    parse_rsn p = some info ↔ ∃ f, Spells p 1 f ∧ info = f.digest := by
  constructor
  · intro h
    have hlen : 2 ≤ p.length := by
      by_contra hshort
      unfold parse_rsn at h
      rw [if_pos (by omega)] at h
      cases h
    have hversion : get_le16 p 0 = 1 := by
      by_contra hne
      rw [put_le16_of_length hlen, parse_rsn_other hne] at h
      cases h
    rcases spells_or_overrun hlen with ⟨f, hf⟩ | hover
    · rw [hversion] at hf
      rw [hf.parse] at h
      exact ⟨f, hf, (Option.some.inj h).symm⟩
    · rw [hover.parse] at h
      cases h
  · rintro ⟨f, hf, rfl⟩
    exact hf.parse

end devourer.sta
