-- The grammar of key data: elements one after another and the padding behind
-- them, and what the two searches make of it.
import Devourer.Sta.KeyDataReads

namespace devourer.sta

/-! ## Key data as it is written -/

/-- Elements as they stand in key data: id, length, body. -/
def encode_elements (es : List (UInt8 × Bytes)) : Bytes :=
  es.flatMap fun e => e.1 :: e.2.length.toUInt8 :: e.2

/-- Every body fits its length octet. -/
def BodiesFit (es : List (UInt8 × Bytes)) : Prop := ∀ e ∈ es, e.2.length ≤ 255

/-- The padding: nothing, or `0xDD` and this many zeros. -/
def key_padding : Option Nat → Bytes
  | none => []
  | some zeros => 0xdd :: List.replicate zeros 0

/-- The elements that the padding reads as. -/
def padding_elements : Option Nat → List (UInt8 × Bytes)
  | none => []
  | some 0 => []
  | some (zeros + 1) => (0xdd, []) :: List.replicate (zeros / 2) (0, [])

theorem elements_zeros (n : Nat) :
    elements (List.replicate n 0) = (List.replicate (n / 2) (0, []), true) := by
  induction n using Nat.strongRecOn with
  | ind n ih =>
    match n with
    | 0 => rfl
    | 1 => rfl
    | n + 2 =>
      have hhalf : (n + 2) / 2 = n / 2 + 1 := by omega
      rw [List.replicate_succ, List.replicate_succ, elements_cons, hhalf, List.replicate_succ]
      simp only [UInt8.toNat_zero, Nat.not_lt_zero, if_false, List.drop_zero, List.take_zero]
      rw [ih n (by omega)]

theorem elements_padding (pad : Option Nat) :
    elements (key_padding pad) = (padding_elements pad, true) := by
  match pad with
  | none => rfl
  | some 0 => rfl
  | some (zeros + 1) =>
    rw [key_padding, padding_elements, List.replicate_succ, elements_cons]
    simp only [UInt8.toNat_zero, Nat.not_lt_zero, if_false, List.drop_zero, List.take_zero]
    rw [elements_zeros]

theorem length_toNat {n : Nat} (h : n ≤ 255) : n.toUInt8.toNat = n :=
  Nat.mod_eq_of_lt (Nat.lt_of_le_of_lt h (by decide))

/-- The walk meets the elements as they were written. -/
theorem elements_encode {es : List (UInt8 × Bytes)} (h : BodiesFit es) (rest : Bytes) :
    elements (encode_elements es ++ rest) = (es ++ (elements rest).1, (elements rest).2) := by
  induction es with
  | nil => rfl
  | cons e es ih =>
    obtain ⟨id, body⟩ := e
    have hlen := length_toNat (h (id, body) List.mem_cons_self)
    have hflat : encode_elements ((id, body) :: es) ++ rest =
        id :: body.length.toUInt8 :: (body ++ (encode_elements es ++ rest)) := by
      unfold encode_elements
      simp only [List.flatMap_cons, List.cons_append, List.append_assoc]
    have hfit : ¬ (body ++ (encode_elements es ++ rest)).length < body.length := by
      rw [List.length_append]
      omega
    rw [hflat, elements_cons, hlen, if_neg hfit, List.take_left, List.drop_left,
      ih fun e he => h e (List.mem_cons_of_mem _ he)]
    rfl

theorem elements_padded {es : List (UInt8 × Bytes)} (h : BodiesFit es) (pad : Option Nat) :
    elements (encode_elements es ++ key_padding pad) = (es ++ padding_elements pad, true) := by
  rw [elements_encode h, elements_padding]

/-- Key data that is walked to its end is an encoding and at most one more byte. -/
theorem elements_whole (kd : Bytes) (h : (elements kd).2 = true) :
    BodiesFit (elements kd).1 ∧ ∃ stray : Bytes, stray.length ≤ 1 ∧
      kd = encode_elements (elements kd).1 ++ stray := by
  induction hn : kd.length using Nat.strongRecOn generalizing kd with
  | ind n ih =>
    match kd with
    | [] => exact ⟨fun e he => absurd he List.not_mem_nil, [], Nat.zero_le _, rfl⟩
    | [x] => exact ⟨fun e he => absurd he List.not_mem_nil, [x], Nat.le_refl _, rfl⟩
    | id :: l :: rest =>
      rw [elements_cons] at h ⊢
      by_cases hrest : rest.length < l.toNat
      · rw [if_pos hrest] at h
        cases h
      · rw [if_neg hrest] at h ⊢
        have hlen : (rest.drop l.toNat).length < n := by
          rw [List.length_drop, ← hn, List.length_cons, List.length_cons]
          omega
        have hbody : (rest.take l.toNat).length = l.toNat := by
          rw [List.length_take]
          omega
        obtain ⟨hfit, stray, hstray, htail⟩ := ih _ hlen (rest.drop l.toNat) h rfl
        refine ⟨?_, stray, hstray, ?_⟩
        · intro e he
          rcases List.mem_cons.mp he with rfl | he
          · have hl := l.toNat_lt
            simp only [hbody]
            omega
          · exact hfit e he
        · have hflat : encode_elements ((id, rest.take l.toNat) :: (elements (rest.drop l.toNat)).1)
              ++ stray = id :: (rest.take l.toNat).length.toUInt8 ::
                (rest.take l.toNat ++
                  (encode_elements (elements (rest.drop l.toNat)).1 ++ stray)) := by
            unfold encode_elements
            simp only [List.flatMap_cons, List.cons_append, List.append_assoc]
          have hback : l.toNat.toUInt8 = l := UInt8.toNat_inj.mp (length_toNat (by
            have hl := l.toNat_lt
            omega))
          rw [hflat, ← htail, hbody, hback, List.take_append_drop]

/-! ## The GTK -/

/-- The padding reads as elements with no body. -/
theorem padding_empty {pad : Option Nat} {e : UInt8 × Bytes} (he : e ∈ padding_elements pad) :
    e = (0xdd, []) ∨ e = (0, []) := by
  match pad with
  | none => cases he
  | some 0 => cases he
  | some (zeros + 1) =>
    rcases List.mem_cons.mp he with rfl | he
    · exact Or.inl rfl
    · exact Or.inr (List.mem_replicate.mp he).2

/-- The padding has no GTK KDE. -/
theorem kde_bodies_padded (es : List (UInt8 × Bytes)) (pad : Option Nat) :
    kde_bodies (es ++ padding_elements pad) = kde_bodies es := by
  have hnone : kde_bodies (padding_elements pad) = [] := by
    unfold kde_bodies
    rw [List.map_eq_nil_iff, List.filter_eq_nil_iff]
    intro e he
    rcases padding_empty he with rfl | rfl
    · decide
    · decide
  unfold kde_bodies at hnone ⊢
  rw [List.filter_append, List.map_append, hnone, List.append_nil]

/-- The key, the key id and the tx bit of a GTK KDE. -/
structure Carries (b : Bytes) (g : GtkKde) : Prop where
  key_id : g.key_id = byteAt b 4 &&& 0x03
  tx : g.tx = (byteAt b 4 &&& 0x04 != 0)
  gtk_len : g.gtk_len = b.length - 6
  gtk : g.gtk.val.take g.gtk_len = b.drop 6

theorem carries_gtk {b : Bytes} (h : KeySized b) : Carries b (gtk_of b) := by
  unfold KeySized at h
  refine ⟨rfl, rfl, rfl, ?_⟩
  show (Octets.overwrite (Octets.zero 32) (Octets.slice b 6 32) (b.length - 4 - 2)).val.take
    (b.length - 4 - 2) = b.drop 6
  have hwhole : (b.drop 6).take (b.length - 4 - 2) = b.drop 6 := by
    apply List.take_of_length_le
    rw [List.length_drop]
    omega
  rw [Octets.take_overwrite, ← slice_span (by omega), hwhole]
  apply List.ext_getElem
  · rw [List.length_take, (Octets.slice (b.drop 6) 0 32).property, List.length_drop]
    omega
  · intro i hi hi'
    simp only [Octets.slice, List.getElem_take, List.getElem_map, List.getElem_range, Nat.zero_add]
    unfold byteAt
    rw [List.getD_eq_getElem _ _ hi']

/-! ## The RSN element -/

theorem visit_all_rsn (es : List (UInt8 × Bytes)) :
    (visit_all Supplicant.visit_rsn es none).1 =
      (es.find? (·.1 == 48)).bind fun e => (parse_rsn e.2).filter (·.valid) := by
  induction es with
  | nil => rfl
  | cons e es ih =>
    rw [visit_all, List.find?_cons]
    unfold Supplicant.visit_rsn
    by_cases hid : e.1 = 48
    · rw [if_neg (not_not.mpr hid), beq_iff_eq.mpr hid]
      rfl
    · rw [if_pos hid, beq_eq_false_iff_ne.mpr hid]
      exact ih

theorem find_rsn_padding (pad : Option Nat) : (padding_elements pad).find? (·.1 == 48) = none := by
  rw [List.find?_eq_none]
  intro e he
  rcases padding_empty he with rfl | rfl
  · decide
  · decide

/-! ## The grammar -/

/-- What the two searches make of key data with these elements. -/
structure Searched (es : List (UInt8 × Bytes)) (kd : Bytes) : Prop where
  found : (find_gtk_kde kd).1 = .Found ↔ ∃ b, kde_bodies es = [b] ∧ KeySized b
  carries : ∀ b, kde_bodies es = [b] → KeySized b → Carries b (find_gtk_kde kd).2
  malformed : (find_gtk_kde kd).1 = .Malformed ↔
    (∃ b ∈ kde_bodies es, ¬ KeySized b) ∨ 2 ≤ (kde_bodies es).length
  absent : (find_gtk_kde kd).1 = .Absent ↔ kde_bodies es = []
  rsn : Supplicant.find_rsn_element kd =
    (es.find? (·.1 == 48)).bind fun e => (parse_rsn e.2).filter (·.valid)

theorem searched_padded {es : List (UInt8 × Bytes)} (h : BodiesFit es) (pad : Option Nat) :
    Searched es (encode_elements es ++ key_padding pad) := by
  have hverdict := find_gtk_kde_verdict (encode_elements es ++ key_padding pad)
  rw [elements_padded h, kde_bodies_padded] at hverdict
  have hrsn : Supplicant.find_rsn_element (encode_elements es ++ key_padding pad) =
      (es.find? (·.1 == 48)).bind fun e => (parse_rsn e.2).filter (·.valid) := by
    unfold Supplicant.find_rsn_element
    rw [walk_visits, elements_padded h, visit_all_rsn, List.find?_append, find_rsn_padding,
      Option.or_none]
  cases hbodies : kde_bodies es with
  | nil =>
    rw [hbodies] at hverdict
    refine ⟨?_, ?_, ?_, ?_, hrsn⟩
    all_goals simp [hverdict, hbodies, gtk_verdict]
  | cons b bs =>
    rw [hbodies] at hverdict
    cases bs with
    | nil =>
      by_cases hsized : KeySized b
      · have hfound : find_gtk_kde (encode_elements es ++ key_padding pad) = (.Found, gtk_of b) :=
          hverdict.trans (if_pos hsized)
        refine ⟨?_, ?_, ?_, ?_, hrsn⟩
        · simp [hfound, hbodies, hsized]
        · rintro b' hb' -
          rw [hbodies] at hb'
          obtain rfl := (List.cons.inj hb').1
          rw [hfound]
          exact carries_gtk hsized
        · simp [hfound, hbodies, hsized]
        · simp [hfound, hbodies]
      · have hbad : find_gtk_kde (encode_elements es ++ key_padding pad) = (.Malformed, {}) :=
          hverdict.trans (if_neg hsized)
        refine ⟨?_, ?_, ?_, ?_, hrsn⟩
        · simp [hbad, hbodies, hsized]
        · rintro b' hb' hsized'
          rw [hbodies] at hb'
          obtain rfl := (List.cons.inj hb').1
          exact absurd hsized' hsized
        · simp [hbad, hbodies, hsized]
        · simp [hbad, hbodies]
    | cons b' bs =>
      refine ⟨?_, ?_, ?_, ?_, hrsn⟩
      all_goals simp [hverdict, hbodies, gtk_verdict]

/-- The searches read the elements of key data, whatever the padding, and nothing that is not made
of elements; and they stay inside the key data, whatever it is. -/
theorem key_data_grammar (es : List (UInt8 × Bytes)) (h : BodiesFit es) (pad : Option Nat)
    (kd : Bytes) :
    Searched es (encode_elements es ++ key_padding pad) ∧
    ((∀ es stray, BodiesFit es → stray.length ≤ 1 → kd ≠ encode_elements es ++ stray) →
      find_gtk_kde kd = (.Malformed, {})) ∧
    find_gtk_kde_checked kd = some (find_gtk_kde kd) ∧
    find_rsn_element_checked kd = some (Supplicant.find_rsn_element kd) := by
  refine ⟨searched_padded h pad, ?_, find_gtk_kde_checked_eq kd, find_rsn_element_checked_eq kd⟩
  intro hnot
  rw [find_gtk_kde_verdict]
  cases hwhole : (elements kd).2 with
  | false => rfl
  | true =>
    obtain ⟨hfit, stray, hstray, hkd⟩ := elements_whole kd hwhole
    exact absurd hkd (hnot _ _ hfit hstray)

/-- An RSN element, a GTK of 16 bytes under key id 2, and four bytes of padding. -/
theorem a_padded_gtk_is_found :
    let es : List (UInt8 × Bytes) := [(48, [1, 0]),
      (0xdd, [0x00, 0x0f, 0xac, 0x01, 0x06, 0x00] ++ List.replicate 16 7)]
    let kd := encode_elements es ++ key_padding (some 3)
    (find_gtk_kde kd).1 = .Found ∧ (find_gtk_kde kd).2.key_id = 2 ∧
      (find_gtk_kde kd).2.tx = true ∧ (Supplicant.find_rsn_element kd).isSome := by
  intro es kd
  have hfit : BodiesFit es := by
    intro e he
    rcases List.mem_pair.mp he with rfl | rfl
    · decide
    · decide
  obtain ⟨hsearched, -⟩ := key_data_grammar es hfit (some 3) kd
  have hbodies : kde_bodies es = [[0x00, 0x0f, 0xac, 0x01, 0x06, 0x00] ++ List.replicate 16 7] := by
    decide
  have hsized : KeySized ([0x00, 0x0f, 0xac, 0x01, 0x06, 0x00] ++ List.replicate 16 7) := by decide
  have hcarries := hsearched.carries _ hbodies hsized
  refine ⟨hsearched.found.mpr ⟨_, hbodies, hsized⟩, hcarries.key_id, hcarries.tx, ?_⟩
  rw [hsearched.rsn]
  decide

end devourer.sta
