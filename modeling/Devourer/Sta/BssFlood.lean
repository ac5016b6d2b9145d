-- The scan table under any sequence of calls: its bookkeeping, and what one
-- frame from the air may change.
import Mathlib.Data.Finset.Card
import Devourer.Sta.BssTable

namespace devourer.sta

namespace BssTable

/-- The slots in use. -/
def in_use (t : BssTable) : Finset (Fin kMaxBss) := Finset.univ.filter fun i => t.used_ i = true

/-- The count is that of the slots in use, and each of them has a BSSID of its own. -/
structure Tidy (t : BssTable) : Prop where
  count : t.count_ = t.in_use.card
  distinct : ∀ i j, t.used_ i = true → t.used_ j = true →
    (t.slots_ i).info.bssid = (t.slots_ j).info.bssid → i = j

variable {t : BssTable} {i j : Fin kMaxBss}

theorem mem_in_use : i ∈ t.in_use ↔ t.used_ i = true := by simp [in_use]

theorem Tidy.count_le (h : t.Tidy) : t.count_ ≤ kMaxBss := by
  have hcard := Finset.card_le_univ t.in_use
  rw [Fintype.card_fin] at hcard
  rw [h.count]
  exact_mod_cast hcard

theorem tidy_empty : Tidy {} := by
  refine ⟨?_, ?_⟩
  · simp [in_use]
  · intro i j hi
    cases hi

/-! ## One slot -/

theorem in_use_drop_slot (t : BssTable) (i : Fin kMaxBss) :
    (t.drop_slot i).in_use = t.in_use.erase i := by
  ext j
  rw [Finset.mem_erase, mem_in_use, mem_in_use]
  by_cases h : j = i
  · simp [drop_slot, h]
  · simp [drop_slot, h]

theorem drop_slot_tidy (hi : t.used_ i = true) (h : t.Tidy) : (t.drop_slot i).Tidy := by
  refine ⟨?_, ?_⟩
  · have hmem : i ∈ t.in_use := mem_in_use.mpr hi
    have hcard := Finset.card_erase_add_one hmem
    have hcount : (t.drop_slot i).count_ = t.count_ - 1 := rfl
    rw [in_use_drop_slot, hcount, h.count]
    omega
  · intro a b ha hb hab
    rw [← mem_in_use, in_use_drop_slot, Finset.mem_erase, mem_in_use] at ha hb
    exact h.distinct a b ha.2 hb.2 hab

variable {info : BssInfo} {rssi : Int8} {now_ms : UInt32}

theorem in_use_refresh : (t.refresh i info rssi now_ms).in_use = insert i t.in_use := by
  ext j
  rw [Finset.mem_insert, mem_in_use, mem_in_use]
  by_cases h : j = i
  · simp [refresh, h]
  · simp [refresh, h]

theorem refresh_slot_of_ne (h : j ≠ i) :
    (t.refresh i info rssi now_ms).slots_ j = t.slots_ j := Function.update_of_ne h _ _

theorem refresh_used_of_ne (h : j ≠ i) :
    (t.refresh i info rssi now_ms).used_ j = t.used_ j := Function.update_of_ne h _ _

theorem refresh_used : (t.refresh i info rssi now_ms).used_ i = true := Function.update_self i _ _

/-- The refreshed entry carries the BSSID of the frame, whatever name it keeps. -/
theorem refresh_bssid :
    ((t.refresh i info rssi now_ms).slots_ i).info.bssid = info.bssid := by
  unfold refresh
  simp only [Function.update_self]
  split
  · rfl
  · rfl

theorem refresh_frames : ((t.refresh i info rssi now_ms).slots_ i).frames =
    (if t.used_ i then (t.slots_ i).frames else 0) + 1 := by
  unfold refresh
  simp only [Function.update_self]

/-- A frame without a name leaves the one that was learned. -/
theorem refresh_keeps_name (hi : t.used_ i = true) (hname : (t.slots_ i).info.ssid ≠ [])
    (hhidden : hidden info.ssid = true) :
    ((t.refresh i info rssi now_ms).slots_ i).info.ssid = (t.slots_ i).info.ssid := by
  unfold refresh
  simp only [Function.update_self, hi, hhidden]
  rw [if_pos (by simpa using hname)]

theorem refresh_tidy (hother : ∀ j, t.used_ j = true → (t.slots_ j).info.bssid = info.bssid → j = i)
    (h : t.Tidy) : (t.refresh i info rssi now_ms).Tidy := by
  refine ⟨?_, ?_⟩
  · have hcount : (t.refresh i info rssi now_ms).count_ =
        if t.used_ i then t.count_ else t.count_ + 1 := by
      unfold refresh
      cases t.used_ i with
      | false => rfl
      | true => rfl
    rw [in_use_refresh, hcount, h.count]
    cases hi : t.used_ i with
    | false =>
      have hnot : i ∉ t.in_use := by
        rw [mem_in_use, hi]
        decide
      rw [Finset.card_insert_of_notMem hnot]
      simp
    | true =>
      rw [Finset.insert_eq_of_mem (mem_in_use.mpr hi)]
      simp
  · intro a b ha hb hab
    by_cases hai : a = i
    · by_cases hbi : b = i
      · rw [hai, hbi]
      · rw [hai, refresh_bssid, refresh_slot_of_ne hbi] at hab
        rw [refresh_used_of_ne hbi] at hb
        exact absurd (hother b hb hab.symm) hbi
    · rw [refresh_used_of_ne hai] at ha
      rw [refresh_slot_of_ne hai] at hab
      by_cases hbi : b = i
      · rw [hbi, refresh_bssid] at hab
        exact absurd (hother a ha hab) hai
      · rw [refresh_used_of_ne hbi] at hb
        rw [refresh_slot_of_ne hbi] at hab
        exact h.distinct a b ha hb hab

/-! ## Finding and allocating -/

variable {bssid : Mac}

theorem index_of_some (h : t.index_of bssid = some i) :
    t.used_ i = true ∧ (t.slots_ i).info.bssid = bssid := by
  have hfound := List.find?_some h
  simpa [Subtype.ext_iff] using hfound

theorem index_of_none (h : t.index_of bssid = none) (hj : t.used_ j = true) :
    (t.slots_ j).info.bssid ≠ bssid := by
  have hnone := List.find?_eq_none.mp h j (List.mem_finRange j)
  simpa [hj, Subtype.ext_iff] using hnone

/-- In a tidy table the entry of a BSSID is the one slot that carries it. -/
theorem Tidy.index_of_eq (h : t.Tidy) (hi : t.used_ i = true)
    (hb : (t.slots_ i).info.bssid = bssid) : t.index_of bssid = some i := by
  cases hfind : t.index_of bssid with
  | none => exact absurd hb (index_of_none hfind hi)
  | some j =>
    obtain ⟨hj, hjb⟩ := index_of_some hfind
    rw [h.distinct j i hj hi (hjb.trans hb.symm)]

/-- A full table loses a protected entry only when all are protected. -/
theorem victim_protected (h : t.protected_slot (t.victim now_ms) = true) (j : Fin kMaxBss) :
    t.protected_slot j = true := by
  unfold victim at h
  cases hbest : Pick.best (fun i => !t.protected_slot i) (t.staler now_ms)
      (List.finRange kMaxBss) with
  | some i =>
    have hkept := (Pick.best_mem hbest).2
    rw [hbest] at h
    simp only at h
    rw [h] at hkept
    cases hkept
  | none =>
    have hskip := Pick.best_eq_none.mp hbest j (List.mem_finRange j)
    simpa using hskip

/-- What `allocate` yields: a slot out of use, and every other slot as it was. -/
structure Allocated (t : BssTable) (a : BssTable × Fin kMaxBss) : Prop where
  tidy : t.Tidy → a.1.Tidy
  unused : a.1.used_ a.2 = false
  slots : a.1.slots_ = t.slots_
  used : ∀ j, j ≠ a.2 → a.1.used_ j = t.used_ j
  wanted : a.1.wanted_ = t.wanted_
  spares : t.used_ a.2 = true → t.protected_slot a.2 = true →
    ∀ j, t.used_ j = true ∧ t.protected_slot j = true

theorem allocate_spec (t : BssTable) (now_ms : UInt32) : Allocated t (t.allocate now_ms) := by
  unfold allocate
  cases hfree : (List.finRange kMaxBss).find? fun i => !t.used_ i with
  | some i =>
    have hi : t.used_ i = false := by simpa using List.find?_some hfree
    refine ⟨id, hi, rfl, fun _ _ => rfl, rfl, ?_⟩
    intro hused
    rw [hi] at hused
    cases hused
  | none =>
    have hfull : ∀ j, t.used_ j = true := by
      intro j
      simpa using List.find?_eq_none.mp hfree j (List.mem_finRange j)
    refine ⟨drop_slot_tidy (hfull _), Function.update_self _ _ _, rfl, ?_, rfl, ?_⟩
    · intro j hj
      exact Function.update_of_ne hj _ _
    · intro _ hprotected j
      exact ⟨hfull j, victim_protected hprotected j⟩

/-! ## One frame -/

/-- What one frame that the table takes in does: its entry, and the one slot that it moves. -/
structure Observed (t : BssTable) (info : BssInfo) (r : BssTable × Option (Fin kMaxBss))
    (i : Fin kMaxBss) : Prop where
  slot : r.2 = some i
  entry : r.1.index_of info.bssid = some i
  bssid : (r.1.slots_ i).info.bssid = info.bssid
  frames : (r.1.slots_ i).frames = ((t.find info.bssid).elim 0 (·.frames)) + 1
  others : ∀ j, j ≠ i → r.1.used_ j = t.used_ j ∧ r.1.slots_ j = t.slots_ j
  evicts : t.used_ i = true → (t.slots_ i).info.bssid ≠ info.bssid →
    t.wanted_ ≠ [] → (t.slots_ i).info.ssid = t.wanted_ →
    ∀ j, t.used_ j = true ∧ (t.slots_ j).info.ssid = t.wanted_
  name : ∀ e, t.find info.bssid = some e → e.info.ssid ≠ [] → hidden info.ssid = true →
    (r.1.slots_ i).info.ssid = e.info.ssid
  wanted : r.1.wanted_ = t.wanted_

theorem protected_slot_iff : t.protected_slot i = true ↔
    t.wanted_ ≠ [] ∧ (t.slots_ i).info.ssid = t.wanted_ := by
  simp [protected_slot]

/-- The slot that a frame of a new BSSID takes. -/
theorem refresh_allocated (h : t.Tidy) (hnew : t.index_of info.bssid = none)
    {a : BssTable × Fin kMaxBss} (ha : Allocated t a) :
    (a.1.refresh a.2 info rssi now_ms).Tidy ∧
      Observed t info (a.1.refresh a.2 info rssi now_ms, some a.2) a.2 := by
  have htidy : (a.1.refresh a.2 info rssi now_ms).Tidy := by
    apply refresh_tidy _ (ha.tidy h)
    intro j hj hb
    by_contra hne
    rw [ha.used j hne] at hj
    rw [ha.slots] at hb
    exact index_of_none hnew hj hb
  have hfind : t.find info.bssid = none := by rw [find, hnew]; rfl
  refine ⟨htidy, rfl, htidy.index_of_eq refresh_used refresh_bssid, refresh_bssid, ?_, ?_, ?_, ?_,
    ha.wanted⟩
  · rw [refresh_frames, ha.unused, hfind]
    rfl
  · intro j hj
    rw [refresh_used_of_ne hj, refresh_slot_of_ne hj, ha.used j hj, ha.slots]
    exact ⟨rfl, rfl⟩
  · intro hused _ hwanted hssid j
    obtain ⟨hj, hprotected⟩ := ha.spares hused (protected_slot_iff.mpr ⟨hwanted, hssid⟩) j
    exact ⟨hj, (protected_slot_iff.mp hprotected).2⟩
  · intro e he
    rw [hfind] at he
    cases he

/-- A frame of a BSSID that the table holds refreshes its entry. -/
theorem refresh_held (h : t.Tidy) (hheld : t.index_of info.bssid = some i) :
    (t.refresh i info rssi now_ms).Tidy ∧
      Observed t info (t.refresh i info rssi now_ms, some i) i := by
  obtain ⟨hi, hb⟩ := index_of_some hheld
  have htidy : (t.refresh i info rssi now_ms).Tidy := by
    apply refresh_tidy _ h
    intro j hj hjb
    exact h.distinct j i hj hi (hjb.trans hb.symm)
  have hfind : t.find info.bssid = some (t.slots_ i) := by rw [find, hheld]; rfl
  refine ⟨htidy, rfl, htidy.index_of_eq refresh_used refresh_bssid, refresh_bssid, ?_, ?_, ?_, ?_,
    rfl⟩
  · rw [refresh_frames, hi, hfind]
    rfl
  · intro j hj
    rw [refresh_used_of_ne hj, refresh_slot_of_ne hj]
    exact ⟨rfl, rfl⟩
  · intro _ hne
    exact absurd hb hne
  · intro e he hname hhidden
    obtain rfl := Option.some.inj (hfind.symm.trans he)
    exact refresh_keeps_name hi hname hhidden

variable {frame : Bytes} {rx_channel : UInt8}

theorem observe_refused (h : heard frame rx_channel = none) :
    t.observe frame rssi rx_channel now_ms = (t, none) := by
  unfold observe
  rw [h]

theorem observe_heard (h : t.Tidy) (hheard : heard frame rx_channel = some info) :
    (t.observe frame rssi rx_channel now_ms).1.Tidy ∧
      ∃ i, Observed t info (t.observe frame rssi rx_channel now_ms) i := by
  cases hfind : t.index_of info.bssid with
  | none =>
    have hrun : t.observe frame rssi rx_channel now_ms =
        ((t.allocate now_ms).1.refresh (t.allocate now_ms).2 info rssi now_ms,
          some (t.allocate now_ms).2) := by
      unfold observe
      rw [hheard]
      simp only [hfind]
    obtain ⟨htidy, hobserved⟩ := refresh_allocated h hfind
      (allocate_spec t now_ms)
    rw [hrun]
    exact ⟨htidy, _, hobserved⟩
  | some i =>
    have hrun : t.observe frame rssi rx_channel now_ms =
        (t.refresh i info rssi now_ms, some i) := by
      unfold observe
      rw [hheard]
      simp only [hfind]
    rw [hrun]
    obtain ⟨htidy, hobserved⟩ := refresh_held h hfind
    exact ⟨htidy, i, hobserved⟩

/-! ## Runs -/

theorem expire_slot_tidy {max_age_ms : UInt32} {r : BssTable × Nat} (h : r.1.Tidy)
    (i : Fin kMaxBss) : (expire_slot now_ms max_age_ms r i).1.Tidy := by
  unfold expire_slot
  cases hi : r.1.used_ i with
  | false => exact h
  | true =>
    simp only [Bool.not_true, Bool.false_eq_true, if_false]
    split
    · exact drop_slot_tidy hi h
    · exact h

theorem step_tidy (h : t.Tidy) (c : Call) : (t.step c).Tidy := by
  cases c with
  | observe frame rssi rx_channel now_ms =>
    cases hheard : heard frame rx_channel with
    | none =>
      rw [step, observe_refused hheard]
      exact h
    | some info => exact (observe_heard h hheard).1
  | expire now_ms max_age_ms =>
    have hloop := Runs.after_keeps (expire_slot now_ms max_age_ms)
      (P := fun r : BssTable × Nat => r.1.Tidy) (t, 0) h fun _ i hr => expire_slot_tidy hr i
    exact hloop (List.finRange kMaxBss)
  | clear =>
    refine ⟨?_, ?_⟩
    · simp [step, clear, in_use]
    · intro i j hi
      cases hi
  | set_wanted ssid => exact ⟨h.count, h.distinct⟩

/-- The table after these calls, from an empty one. -/
def run (calls : List Call) : BssTable := Runs.after step {} calls

theorem run_tidy (calls : List Call) : (run calls).Tidy :=
  Runs.after_keeps step {} tidy_empty (fun _ c h => step_tidy h c) calls

/-- A beacon or a probe response that parses is taken in, under its BSSID and its SSID. -/
theorem heard_of_parse (hparse : parse_beacon frame = some info)
    (hsubtype : byteAt frame 0 = kFcBeacon ∨ byteAt frame 0 = kFcProbeResp) :
    ∃ info', heard frame rx_channel = some info' ∧ info'.bssid = info.bssid ∧
      info'.ssid = info.ssid := by
  have hlen : ¬ frame.length < 24 + 12 := by
    intro hshort
    rw [parse_beacon, if_pos hshort] at hparse
    cases hparse
  have hbeacon : ¬ (byteAt frame 0 ≠ kFcBeacon ∧ byteAt frame 0 ≠ kFcProbeResp) := by
    rintro ⟨hb, hp⟩
    rcases hsubtype with h | h
    · exact hb h
    · exact hp h
  unfold heard
  rw [if_neg (by omega), if_neg hbeacon, hparse]
  simp only
  split
  · exact ⟨_, rfl, rfl, rfl⟩
  · exact ⟨_, rfl, rfl, rfl⟩

theorem heard_none (h : parse_beacon frame = none ∨
    (byteAt frame 0 ≠ kFcBeacon ∧ byteAt frame 0 ≠ kFcProbeResp)) :
    heard frame rx_channel = none := by
  unfold heard
  split
  · rfl
  · split
    · rfl
    · rename_i hsubtype
      rcases h with h | h
      · rw [h]
      · exact absurd h hsubtype

/-- What an entry is observed by are its BSSID and its SSID. -/
theorem Observed.congr {info' : BssInfo} {r : BssTable × Option (Fin kMaxBss)}
    (h : Observed t info' r i) (hb : info'.bssid = info.bssid) (hs : info'.ssid = info.ssid) :
    Observed t info r i :=
  { slot := h.slot
    entry := hb ▸ h.entry
    bssid := hb ▸ h.bssid
    frames := hb ▸ h.frames
    others := h.others
    evicts := hb ▸ h.evicts
    name := hs ▸ hb ▸ h.name
    wanted := h.wanted }

/-- The table under flooding: after any calls the count is that of the used slots, at most 16,
with one slot for each BSSID. A frame that parses has its entry in one slot, and no other slot
changes; that slot holds the wanted network before it only where all of them do, and a frame
without a name leaves the one that its BSSID was heard with. -/
theorem flooding_keeps_the_table (calls : List Call) (frame : Bytes) (rssi : Int8)
    (rx_channel : UInt8) (now_ms : UInt32) :
    (run calls).count_ = (run calls).in_use.card ∧ (run calls).count_ ≤ kMaxBss ∧
      (∀ i j, (run calls).used_ i = true → (run calls).used_ j = true →
        ((run calls).slots_ i).info.bssid = ((run calls).slots_ j).info.bssid → i = j) ∧
      (∀ info, parse_beacon frame = some info →
        byteAt frame 0 = kFcBeacon ∨ byteAt frame 0 = kFcProbeResp →
        ∃ i, Observed (run calls) info ((run calls).observe frame rssi rx_channel now_ms) i) ∧
      (parse_beacon frame = none ∨ (byteAt frame 0 ≠ kFcBeacon ∧ byteAt frame 0 ≠ kFcProbeResp) →
        (run calls).observe frame rssi rx_channel now_ms = (run calls, none)) := by
  have htidy := run_tidy calls
  refine ⟨htidy.count, htidy.count_le, htidy.distinct, ?_, ?_⟩
  · intro info hparse hsubtype
    have htaken : ∃ info', heard frame rx_channel = some info' ∧ info'.bssid = info.bssid ∧
        info'.ssid = info.ssid := heard_of_parse hparse hsubtype
    obtain ⟨info', hheard, hb, hs⟩ := htaken
    have hone : ∃ i, Observed (run calls) info'
        ((run calls).observe frame rssi rx_channel now_ms) i := (observe_heard htidy hheard).2
    obtain ⟨i, hobserved⟩ := hone
    exact ⟨i, hobserved.congr hb hs⟩
  · intro hrefused
    exact observe_refused (heard_none hrefused)

end BssTable

end devourer.sta
