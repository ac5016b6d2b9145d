-- The reads of the key-data walk and its two visitors, each of which fails
-- past the end of the buffer it is given. None of them ever does.
import Devourer.Sta.Supplicant

namespace devourer.sta

/-! ## The walk -/

/-- The loop of `walk_key_data` at an offset, with every read checked. -/
def walk_checked {σ : Type} (visit : σ → UInt8 → Bytes → Option (σ × Bool)) (kd : Bytes) :
    Nat → Nat → σ → Option (σ × Bool)
  | 0, _, st => some (st, true)
  | fuel + 1, i, st =>
    if i + 2 ≤ kd.length then do
      let id ← peek kd i
      let l ← peek kd (i + 1)
      if i + 2 + l.toNat > kd.length then pure (st, false)
      else
        let b ← span kd (i + 2) l.toNat
        let r ← visit st id b
        if r.2 then walk_checked visit kd fuel (i + 2 + l.toNat) r.1 else pure (r.1, true)
    else some (st, true)

variable {σ : Type} {visit : σ → UInt8 → Bytes → σ × Bool}
  {visit' : σ → UInt8 → Bytes → Option (σ × Bool)}

/-- A walk whose visitor stays inside its elements stays inside the key data. -/
theorem walk_checked_loop (hvisit : ∀ st id b, visit' st id b = some (visit st id b)) (kd : Bytes)
    (fuel i : Nat) (st : σ) :
    walk_checked visit' kd fuel i st = some (walk_loop visit fuel (kd.drop i) st) := by
  induction fuel generalizing i st with
  | zero => rfl
  | succ fuel ih =>
    rw [walk_checked]
    by_cases hhead : i + 2 ≤ kd.length
    · have hdrop : kd.drop i = byteAt kd i :: byteAt kd (i + 1) :: kd.drop (i + 2) := by
        rw [List.drop_eq_getElem_cons (by omega), List.drop_eq_getElem_cons (by omega)]
        unfold byteAt
        rw [List.getD_eq_getElem _ _ (by omega), List.getD_eq_getElem _ _ (by omega)]
      rw [if_pos hhead, peek_eq (by omega), peek_eq (by omega), hdrop, walk_loop]
      simp only [Option.bind_eq_bind, Option.bind_some, List.length_drop]
      by_cases hbody : i + 2 + (byteAt kd (i + 1)).toNat > kd.length
      · rw [if_pos hbody, if_pos (by omega)]
        rfl
      · rw [if_neg hbody, if_neg (by omega), span_eq (by omega), Option.bind_some, hvisit,
          Option.bind_some, ih, List.drop_drop]
        split
        · rfl
        · rfl
    · rw [if_neg hhead]
      have hshort : (kd.drop i).length < 2 := by
        rw [List.length_drop]
        omega
      cases hrest : kd.drop i with
      | nil => rfl
      | cons x xs =>
        cases xs with
        | nil => rfl
        | cons y rest =>
          rw [hrest] at hshort
          simp only [List.length_cons] at hshort
          omega

/-! ## The GTK -/

def is_gtk_kde_checked (id : UInt8) (b : Bytes) : Option Bool :=
  if id == 0xdd && decide (4 ≤ b.length) then do
    pure ((← peek b 0) == 0x00 && (← peek b 1) == 0x0f && (← peek b 2) == 0xac &&
      (← peek b 3) == 0x01)
  else some false

def visit_gtk_checked (st : GtkSearch) (id : UInt8) (b : Bytes) : Option (GtkSearch × Bool) := do
  if !(← is_gtk_kde_checked id b) then pure (st, true)
  else
    let body := b.length - 4
    if st.found || decide (body < 2 + 16) || decide (body > 2 + 32) then
      pure ({ st with bad := true }, false)
    else
      let flags ← peek b 4
      let key ← span b 6 (body - 2)
      pure
        ({ found := true
           bad := st.bad
           out :=
             { key_id := flags &&& 0x03
               tx := flags &&& 0x04 != 0
               gtk := Octets.overwrite (Octets.zero 32) (Octets.slice key 0 32) (body - 2)
               gtk_len := body - 2 } }, true)

def find_gtk_kde_checked (kd : Bytes) : Option (KdeResult × GtkKde) := do
  let r ← walk_checked visit_gtk_checked kd kd.length 0 {}
  if !r.2 || r.1.bad then pure (.Malformed, {})
  else if r.1.found then pure (.Found, r.1.out)
  else pure (.Absent, r.1.out)

theorem is_gtk_kde_checked_eq (id : UInt8) (b : Bytes) :
    is_gtk_kde_checked id b = some (is_gtk_kde id b) := by
  unfold is_gtk_kde_checked is_gtk_kde
  split
  · rename_i hhead
    have hlen : 4 ≤ b.length := by
      simp only [Bool.and_eq_true, decide_eq_true_eq] at hhead
      exact hhead.2
    rw [peek_eq (by omega), peek_eq (by omega), peek_eq (by omega), peek_eq (by omega), hhead]
    rfl
  · rename_i hhead
    rw [Bool.not_eq_true] at hhead
    rw [hhead]
    rfl

/-- The bytes of a slice that are copied are those of the range. -/
theorem slice_span {b : Bytes} {off m n : Nat} (hm : m ≤ n) :
    (Octets.slice ((b.drop off).take m) 0 n).val.take m = (Octets.slice b off n).val.take m := by
  unfold Octets.slice
  simp only [← List.map_take, List.take_range, Nat.min_eq_left hm, Nat.zero_add]
  apply List.map_congr_left
  intro i hi
  rw [byteAt_take (List.mem_range.mp hi), byteAt_drop]

theorem visit_gtk_checked_eq (st : GtkSearch) (id : UInt8) (b : Bytes) :
    visit_gtk_checked st id b = some (visit_gtk st id b) := by
  unfold visit_gtk_checked visit_gtk
  rw [is_gtk_kde_checked_eq]
  simp only [Option.bind_eq_bind, Option.bind_some]
  split
  · rfl
  · split
    · rfl
    · rename_i hsized
      simp only [Bool.or_eq_true, decide_eq_true_eq, not_or, Nat.not_lt] at hsized
      rw [peek_eq (by omega), span_eq (by omega)]
      simp only [Option.bind_some, Octets.overwrite,
        slice_span (show b.length - 4 - 2 ≤ 32 by omega)]
      rfl

theorem find_gtk_kde_checked_eq (kd : Bytes) :
    find_gtk_kde_checked kd = some (find_gtk_kde kd) := by
  unfold find_gtk_kde_checked find_gtk_kde walk_key_data
  rw [walk_checked_loop visit_gtk_checked_eq, List.drop_zero]
  simp only [Option.bind_eq_bind, Option.bind_some]
  split
  · rfl
  · split
    · rfl
    · rfl

/-! ## The RSN element -/

def get_le16_checked (p : Bytes) (i : Nat) : Option UInt16 := do
  pure ((← peek p i).toUInt16 ||| ((← peek p (i + 1)).toUInt16 <<< 8))

/-- The suites are read four bytes at a time. -/
def rsn_suites_checked (p : Bytes) (i count : Nat) (type : UInt8) : Option SuiteSet :=
  (List.range count).foldlM
    (fun acc n => do
      let s ← span p (i + 4 * n) 4
      let noted := rsn_suite_note s 0 acc.mask acc.other
      pure { has := acc.has || rsn_suite_is s 0 type, mask := noted.1, other := noted.2 })
    {}

def rsn_suite_list_checked (p : Bytes) (i : Nat) (type : UInt8) :
    Option (Option (UInt16 × SuiteSet × Nat)) :=
  if i + 2 ≤ p.length then do
    let count ← get_le16_checked p i
    if i + 2 + count.toNat * 4 > p.length then pure none
    else
      let set ← rsn_suites_checked p (i + 2) count.toNat type
      pure (some (count, set, i + 2 + 4 * count.toNat))
  else some (some (0, {}, i))

/-- A field that is read where the element goes on that far. -/
def field_checked {α : Type} (p : Bytes) (i n : Nat) (read : Bytes → α) (absent : α) : Option α :=
  if i + n ≤ p.length then (span p i n).map read else some absent

def parse_rsn_checked (p : Bytes) : Option (Option RsnInfo) :=
  if p.length < 2 then some none
  else do
    let version ← get_le16_checked p 0
    if version ≠ 1 then pure none
    else
      let group_ccmp ← field_checked p 2 4 (rsn_suite_is · 0 4) false
      let group_suite ← field_checked p 2 4 (rsn_suite_u32 · 0) 0
      let i := if 2 + 4 ≤ p.length then 6 else 2
      match ← rsn_suite_list_checked p i 4 with
      | none => pure none
      | some (pairwise_count, pairwise, i) =>
        match ← rsn_suite_list_checked p i 2 with
        | none => pure none
        | some (akm_count, akm, i) =>
          let capabilities ← field_checked p i 2 (get_le16 · 0) 0
          let i := if i + 2 ≤ p.length then i + 2 else i
          let pmkids ← field_checked p i 2 (fun s => (get_le16 s 0).toNat) 0
          let i := if i + 2 ≤ p.length then i + 2 else i
          if i + pmkids * 16 > p.length then pure none
          else
            let group_mgmt_suite ← field_checked p (i + pmkids * 16) 4 (rsn_suite_u32 · 0) 0
            pure (some
              { valid := true
                version := version
                group_ccmp := group_ccmp
                group_suite := group_suite
                pairwise_count := pairwise_count
                pairwise_ccmp := pairwise.has
                pairwise_mask := pairwise.mask
                pairwise_other := pairwise.other
                akm_count := akm_count
                akm_psk := akm.has
                akm_mask := akm.mask
                akm_other := akm.other
                capabilities := capabilities
                mfp_required := capabilities &&& 0x0040 != 0
                mfp_capable := capabilities &&& 0x0080 != 0
                group_mgmt_suite := group_mgmt_suite })

def visit_rsn_checked (_ : Option RsnInfo) (id : UInt8) (b : Bytes) :
    Option (Option RsnInfo × Bool) :=
  if id ≠ 48 then some (none, true)
  else (parse_rsn_checked b).map fun r => (r.filter (·.valid), false)

def find_rsn_element_checked (kd : Bytes) : Option (Option RsnInfo) :=
  (walk_checked visit_rsn_checked kd kd.length 0 none).map (·.1)

variable {p : Bytes} {i : Nat}

theorem byteAt_span {n j : Nat} (hj : j < n) : byteAt ((p.drop i).take n) j = byteAt p (i + j) := by
  rw [byteAt_take hj, byteAt_drop]

theorem get_le16_span : get_le16 ((p.drop i).take 2) 0 = get_le16 p i := by
  unfold get_le16
  rw [byteAt_span (by decide), byteAt_span (by decide), Nat.add_zero]

theorem rsn_suite_is_span (type : UInt8) :
    rsn_suite_is ((p.drop i).take 4) 0 type = rsn_suite_is p i type := by
  unfold rsn_suite_is
  rw [byteAt_span (by decide), byteAt_span (by decide), byteAt_span (by decide),
    byteAt_span (by decide), Nat.add_zero]

theorem rsn_suite_u32_span : rsn_suite_u32 ((p.drop i).take 4) 0 = rsn_suite_u32 p i := by
  unfold rsn_suite_u32
  rw [byteAt_span (by decide), byteAt_span (by decide), byteAt_span (by decide),
    byteAt_span (by decide), Nat.add_zero]

theorem rsn_suite_note_span (mask : UInt32) (other : Bool) :
    rsn_suite_note ((p.drop i).take 4) 0 mask other = rsn_suite_note p i mask other := by
  unfold rsn_suite_note
  rw [byteAt_span (by decide), byteAt_span (by decide), byteAt_span (by decide),
    byteAt_span (by decide), Nat.add_zero]

theorem get_le16_checked_eq (h : i + 2 ≤ p.length) :
    get_le16_checked p i = some (get_le16 p i) := by
  unfold get_le16_checked get_le16
  rw [peek_eq (by omega), peek_eq (by omega)]
  rfl

theorem field_checked_eq {α : Type} {n : Nat} {read : Bytes → α} {absent value : α}
    (hread : read ((p.drop i).take n) = value) :
    field_checked p i n read absent = some (if i + n ≤ p.length then value else absent) := by
  unfold field_checked
  split
  · rename_i h
    rw [span_eq h, ← hread]
    rfl
  · rfl

/-- The loop reads the suites that the count has been checked for. -/
theorem rsn_suites_checked_eq (type : UInt8) {count : Nat} (h : i + count * 4 ≤ p.length) :
    rsn_suites_checked p i count type = some (rsn_suites p i count type) := by
  unfold rsn_suites_checked rsn_suites
  induction count with
  | zero => rfl
  | succ count ih =>
    rw [List.range_succ, List.foldlM_append, List.foldl_append, ih (by omega)]
    simp only [Option.bind_eq_bind, Option.bind_some, List.foldlM_cons, List.foldlM_nil,
      List.foldl_cons, List.foldl_nil]
    rw [span_eq (by omega)]
    simp only [Option.bind_some, rsn_suite_note_span, rsn_suite_is_span]
    rfl

theorem rsn_suite_list_checked_eq (p : Bytes) (i : Nat) (type : UInt8) :
    rsn_suite_list_checked p i type = some (rsn_suite_list p i type) := by
  unfold rsn_suite_list_checked rsn_suite_list
  split
  · rename_i hcount
    rw [get_le16_checked_eq hcount]
    simp only [Option.bind_eq_bind, Option.bind_some]
    split
    · rfl
    · rename_i hsuites
      rw [rsn_suites_checked_eq type (by omega)]
      rfl
  · rfl

theorem parse_rsn_checked_eq (p : Bytes) : parse_rsn_checked p = some (parse_rsn p) := by
  unfold parse_rsn_checked parse_rsn
  split
  · rfl
  · rename_i hversion
    rw [get_le16_checked_eq (by omega)]
    simp only [Option.bind_eq_bind, Option.bind_some]
    by_cases hone : get_le16 p 0 ≠ 1
    · rw [if_pos hone, if_pos hone]
      rfl
    · rw [if_neg hone, if_neg hone]
      rw [field_checked_eq (rsn_suite_is_span 4), field_checked_eq rsn_suite_u32_span]
      simp only [Option.bind_some, rsn_suite_list_checked_eq]
      cases rsn_suite_list p (if 2 + 4 ≤ p.length then 6 else 2) 4 with
      | none => rfl
      | some pairwise =>
        obtain ⟨pairwise_count, pairwise, i⟩ := pairwise
        simp only
        cases rsn_suite_list p i 2 with
        | none => rfl
        | some akm =>
          obtain ⟨akm_count, akm, i⟩ := akm
          simp only
          rw [field_checked_eq get_le16_span]
          simp only [Option.bind_some]
          rw [field_checked_eq (congrArg UInt16.toNat get_le16_span)]
          simp only [Option.bind_some]
          rw [field_checked_eq rsn_suite_u32_span]
          exact (apply_ite some _ _ _).symm

theorem visit_rsn_checked_eq (st : Option RsnInfo) (id : UInt8) (b : Bytes) :
    visit_rsn_checked st id b = some (Supplicant.visit_rsn st id b) := by
  unfold visit_rsn_checked Supplicant.visit_rsn
  rw [parse_rsn_checked_eq]
  split
  · rfl
  · rfl

theorem find_rsn_element_checked_eq (kd : Bytes) :
    find_rsn_element_checked kd = some (Supplicant.find_rsn_element kd) := by
  unfold find_rsn_element_checked Supplicant.find_rsn_element walk_key_data
  rw [walk_checked_loop visit_rsn_checked_eq, List.drop_zero]
  rfl

end devourer.sta
