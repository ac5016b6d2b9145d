-- The station gives the receive filter back: the value that its record holds
-- is the one that the register goes back to, through every call that comes
-- between the arm and the clear.
import Devourer.Mt7612u.StationIdentity

namespace devourer.mt7612u.station

/-! ## What each call does to the record and to the register -/

/-- The register is as it was, or it holds the filter of a managed station. -/
def Managed (d d' : Chip) : Prop :=
  d'.rx_filtr_cfg = d.rx_filtr_cfg ∨ d'.rx_filtr_cfg = MT_RX_FILTR_CFG_MANAGED

/-- What an observation of the port does: the arm falls, or it comes back, or nothing changes. -/
theorem State.observed_cases (s : State) (c : PortCmp) (allow_restore : Bool) :
    (s.armed = true ∧ s.port_observed c allow_restore =
      (.DROPPED, { s with armed := false, lost := true })) ∨
    (s.lost = true ∧ s.port_observed c allow_restore =
      (.RESTORED, { s with armed := true, lost := false })) ∨
    ∃ ev, (ev = .NONE ∨ ev = .UNVERIFIED) ∧ s.port_observed c allow_restore = (ev, s) := by
  unfold State.port_observed
  by_cases harmed : s.armed = true
  · rw [if_pos harmed]
    by_cases hmoved : c = .DIFFERENT
    · rw [if_pos hmoved]
      exact Or.inl ⟨harmed, rfl⟩
    · rw [if_neg hmoved]
      refine Or.inr (Or.inr ⟨_, ?_, rfl⟩)
      split
      · exact Or.inr rfl
      · exact Or.inl rfl
  · rw [if_neg harmed]
    split
    · next hback => exact Or.inr (Or.inl ⟨hback.1, rfl⟩)
    · exact Or.inr (Or.inr ⟨.NONE, Or.inl rfl, rfl⟩)

namespace Chip

variable (d : Chip) (v : BitVec 32) (f : Fate)

@[simp] theorem sta_write (lands : Bool) : (d.write v lands).sta = d.sta := by
  unfold write
  split <;> rfl

@[simp] theorem sta_write_filter_sta : (d.sta_write_filter v f).2.sta = d.sta :=
  d.sta_write v f.lands

theorem write_reg (lands : Bool) : (d.write v lands).rx_filtr_cfg = d.rx_filtr_cfg ∨
    (d.write v lands).rx_filtr_cfg = v := by
  unfold write
  split
  · exact Or.inr rfl
  · exact Or.inl rfl

theorem write_filter_reg : (d.sta_write_filter v f).2.rx_filtr_cfg = d.rx_filtr_cfg ∨
    (d.sta_write_filter v f).2.rx_filtr_cfg = v := d.write_reg v f.lands

/-- A write that is answered with 0 stands in the register. -/
theorem write_filter_ok (h : (d.sta_write_filter v f).1 = 0) :
    (d.sta_write_filter v f).2.rx_filtr_cfg = v := by
  unfold sta_write_filter at h
  dsimp only at h
  split at h
  · next hread => exact hread.2.2
  · cases h

/-- An arm is refused and leaves the record, or it is recorded, or its filter is stranded. -/
theorem set_cases (own bssid : Option (Octets 6)) (a : Answers) :
    Managed d (d.set_station_identity own bssid a).2 ∧
    ((d.set_station_identity own bssid a).2.sta = d.sta ∨
      (∃ o b, (d.set_station_identity own bssid a).2.sta = d.sta.arm o b d.rx_filtr_cfg) ∨
      (d.set_station_identity own bssid a).2.sta = d.sta.strand d.rx_filtr_cfg) := by
  have hmanaged := d.write_filter_reg MT_RX_FILTR_CFG_MANAGED a.managed
  have hundo := (d.sta_write_filter MT_RX_FILTR_CFG_MANAGED a.managed).2.write_filter_reg
    d.rx_filtr_cfg a.undo
  unfold set_station_identity
  split
  · next own bssid _ =>
    split
    · exact ⟨Or.inl rfl, Or.inl rfl⟩
    dsimp only
    by_cases hrc : (d.sta_write_filter MT_RX_FILTR_CFG_MANAGED a.managed).1 = 0
    · rw [if_neg (not_not.mpr hrc)]
      refine ⟨hmanaged, Or.inr (Or.inl ⟨own, bssid, ?_⟩)⟩
      dsimp only
      rw [sta_write_filter_sta]
    rw [if_pos hrc]
    have hreg : Managed d ((d.sta_write_filter MT_RX_FILTR_CFG_MANAGED
        a.managed).2.sta_write_filter d.rx_filtr_cfg a.undo).2 := by
      rcases hundo with hundo | hundo
      · unfold Managed
        rw [hundo]
        exact hmanaged
      · exact Or.inl hundo
    by_cases hback : ((d.sta_write_filter MT_RX_FILTR_CFG_MANAGED
        a.managed).2.sta_write_filter d.rx_filtr_cfg a.undo).1 = 0
    · rw [if_neg (not_not.mpr hback)]
      refine ⟨hreg, Or.inl ?_⟩
      rw [sta_write_filter_sta, sta_write_filter_sta]
    · rw [if_pos hback]
      refine ⟨hreg, Or.inr (Or.inr ?_)⟩
      dsimp only
      rw [sta_write_filter_sta, sta_write_filter_sta]
  · exact ⟨Or.inl rfl, Or.inl rfl⟩

/-- A clear that verifies gives the register back and forgets the station. One that does not keeps
the record. -/
theorem clear_cases (haway : d.sta.idle = false) :
    ((d.clear_station_identity f).1 = 0 ∧
      (d.clear_station_identity f).2.rx_filtr_cfg = d.sta.rx_filtr_restore ∧
      (d.clear_station_identity f).2.sta = {}) ∨
    ((d.clear_station_identity f).1 ≠ 0 ∧ (d.clear_station_identity f).2.sta = d.sta) := by
  have howed : d.sta.armed ∨ d.sta.lost ∨ d.sta.stranded := by
    unfold State.idle at haway
    grind
  unfold clear_station_identity
  rw [if_pos howed]
  dsimp only
  by_cases hrc : (d.sta_write_filter d.sta.rx_filtr_restore f).1 = 0
  · rw [if_neg (not_not.mpr hrc)]
    exact Or.inl ⟨rfl, d.write_filter_ok _ f hrc, rfl⟩
  · rw [if_pos hrc]
    exact Or.inr ⟨Int.neg_ne_zero.mpr Int.one_ne_zero, d.sta_write_filter_sta _ f⟩

theorem clear_idle (hidle : d.sta.idle = true) : (d.clear_station_identity f).2.sta = {} := by
  have hnone : ¬(d.sta.armed ∨ d.sta.lost ∨ d.sta.stranded) := by
    unfold State.idle at hidle
    grind
  unfold clear_station_identity
  rw [if_neg hnone]
  rfl

/-- A check drops the arm, or brings a dropped one back, and does not touch what is owed. -/
theorem check_cases (dw0 dw1 : Option (BitVec 32)) (allow_restore : Bool) :
    let d' := d.station_identity_check dw0 dw1 allow_restore f
    (d'.sta = d.sta ∧ d'.rx_filtr_cfg = d.rx_filtr_cfg) ∨
    (d.sta.armed = true ∧ d'.sta = { d.sta with armed := false, lost := true }) ∨
    (d.sta.lost = true ∧ d'.sta = { d.sta with armed := true, lost := false } ∧ Managed d d') := by
  unfold station_identity_check
  dsimp only
  split
  · exact Or.inl ⟨rfl, rfl⟩
  obtain ⟨harmed, hobserved⟩ | ⟨hlost, hobserved⟩ | ⟨ev, hev, hobserved⟩ := d.sta.observed_cases
    (port_compare (sta_read_port_identity dw0 dw1) d.sta.own) allow_restore
  · rw [hobserved]
    exact Or.inr (Or.inl ⟨harmed, sta_write_filter_sta _ _ _⟩)
  · rw [hobserved]
    exact Or.inr (Or.inr ⟨hlost, sta_write_filter_sta _ _ _, write_filter_reg _ _ _⟩)
  · rw [hobserved]
    rcases hev with rfl | rfl <;> exact Or.inl ⟨rfl, rfl⟩

/-- A request is recorded where the register is not the consumer's, and then never written to an
armed station. -/
theorem request_cases (want : BitVec 32) (lands : Bool) :
    let d' := d.set_monitor_rx want lands
    d'.sta = (if d.sta.idle then d.sta else { d.sta with rx_filtr_restore := want }) ∧
      (d.sta.armed = true → Managed d d') := by
  unfold set_monitor_rx State.rx_filter_request
  dsimp only
  refine ⟨?_, ?_⟩
  · rw [sta_write]
    unfold State.idle
    grind
  · intro harmed
    rw [if_pos harmed]
    exact write_reg _ _ _

end Chip

/-! ## What is owed to the consumer -/

/-- The filter that a call asks for. -/
def asked : Call → Option (BitVec 32)
  | .request want _ => some want
  | _ => none

/-- After a call that leaves the station away from idle, its record holds what the register held
before, or the request that came in since. -/
theorem restore_of_call (d : Chip) (c : Call) (haway : (call d c).2.sta.idle = false) :
    (call d c).2.sta.rx_filtr_restore =
      if d.sta.idle then d.rx_filtr_cfg else (asked c).getD d.sta.rx_filtr_restore := by
  cases c with
  | set own bssid a =>
    obtain ⟨-, hsta | ⟨o, b, hsta⟩ | hsta⟩ := d.set_cases own bssid a
    · change (d.set_station_identity own bssid a).2.sta.idle = false at haway
      rw [hsta] at haway
      exact (congrArg _ hsta).trans (if_neg (by rw [haway]; exact Bool.false_ne_true)).symm
    · exact congrArg _ hsta
    · exact congrArg _ hsta
  | clear f =>
    cases hidle : d.sta.idle with
    | true =>
      change (d.clear_station_identity f).2.sta.idle = false at haway
      rw [d.clear_idle f hidle] at haway
      cases haway
    | false =>
      obtain ⟨-, -, hsta⟩ | ⟨-, hsta⟩ := d.clear_cases f hidle
      · change (d.clear_station_identity f).2.sta.idle = false at haway
        rw [hsta] at haway
        cases haway
      · exact congrArg _ hsta
  | check dw0 dw1 allow_restore f =>
    have hgone : ∀ s : State, (s.armed = true ∨ s.lost = true) → s.idle = false := by
      intro s hs
      unfold State.idle
      grind
    obtain ⟨hsta, -⟩ | ⟨harmed, hsta⟩ | ⟨hlost, hsta, -⟩ := d.check_cases f dw0 dw1 allow_restore
    · change (d.station_identity_check dw0 dw1 allow_restore f).sta.idle = false at haway
      rw [hsta] at haway
      rw [haway]
      exact congrArg _ hsta
    · rw [hgone _ (Or.inl harmed)]
      exact (congrArg State.rx_filtr_restore hsta).trans rfl
    · rw [hgone _ (Or.inr hlost)]
      exact (congrArg State.rx_filtr_restore hsta).trans rfl
  | request want lands =>
    have hsta := (d.request_cases want lands).1
    change (d.set_monitor_rx want lands).sta.idle = false at haway
    cases hidle : d.sta.idle with
    | true =>
      rw [hidle, if_pos rfl] at hsta
      rw [hsta, hidle] at haway
      cases haway
    | false =>
      rw [hidle, if_neg Bool.false_ne_true] at hsta
      exact congrArg _ hsta

/-- The calls by which the station left idle, and those since: it was never idle again. -/
structure Away (reg : BitVec 32) (before : List Call) (leaves : Call) (since : List Call) :
    Prop where
  idle : (session reg before).sta.idle = true
  away : ∀ k ≤ since.length, (session reg (before ++ leaves :: since.take k)).sta.idle = false

/-- The latest of the requests among these calls, or else `reg`. -/
def latest (reg : BitVec 32) (calls : List Call) : BitVec 32 :=
  (calls.filterMap asked).getLast?.getD reg

theorem latest_snoc (reg : BitVec 32) (calls : List Call) (c : Call) :
    latest reg (calls ++ [c]) = (asked c).getD (latest reg calls) := by
  unfold latest
  rw [List.filterMap_append]
  cases hc : asked c with
  | none => rw [List.filterMap_cons_none hc, List.filterMap_nil, List.append_nil, Option.getD_none]
  | some want =>
    rw [List.filterMap_cons_some hc, List.filterMap_nil, List.getLast?_concat, Option.getD_some,
      Option.getD_some]

theorem session_snoc (reg : BitVec 32) (calls : List Call) (c : Call) :
    session reg (calls ++ [c]) = (call (session reg calls) c).2 := Runs.after_snoc _ _ _ _

/-- Away from idle the record holds what is owed. -/
theorem owed_session (reg : BitVec 32) (calls : List Call)
    (haway : (session reg calls).sta.idle = false) :
    ∃ before leaves since, calls = before ++ leaves :: since ∧ Away reg before leaves since ∧
      (session reg calls).sta.rx_filtr_restore =
        latest (session reg before).rx_filtr_cfg since := by
  induction calls using List.reverseRecOn with
  | nil => cases haway
  | append_singleton calls c ih =>
    have hcall := haway
    rw [session_snoc] at hcall
    have hrestore := restore_of_call _ c hcall
    cases hidle : (session reg calls).sta.idle with
    | true =>
      rw [hidle, if_pos rfl] at hrestore
      refine ⟨calls, c, [], rfl, ⟨hidle, ?_⟩, ?_⟩
      · intro k _
        rw [List.take_nil]
        exact haway
      · rw [session_snoc]
        exact hrestore
    | false =>
      obtain ⟨before, leaves, since, hcalls, hsince, howed⟩ := ih hidle
      rw [hidle, if_neg Bool.false_ne_true, howed] at hrestore
      refine ⟨before, leaves, since ++ [c], ?_, ⟨hsince.idle, ?_⟩, ?_⟩
      · rw [hcalls, List.append_assoc, List.cons_append]
      · intro k hk
        rcases Nat.lt_or_ge since.length k with hlast | hin
        · have hwhole : (since ++ [c]).take k = since ++ [c] := by
            apply List.take_of_length_le
            rw [List.length_append, List.length_singleton]
            omega
          rw [hwhole, ← List.cons_append, ← List.append_assoc, ← hcalls]
          exact haway
        · rw [List.take_append_of_le_length hin]
          exact hsince.away k hin
      · rw [session_snoc, latest_snoc]
        exact hrestore

/-! ## The flags, and what reaches an armed station -/

/-- A station is not armed and lost at once. -/
def Apart (s : State) : Prop := ¬(s.armed = true ∧ s.lost = true)

theorem apart_call {d : Chip} (c : Call) (h : Apart d.sta) : Apart (call d c).2.sta := by
  have hclear : Apart {} := fun hboth => Bool.false_ne_true hboth.1
  cases c with
  | set own bssid a =>
    obtain ⟨-, hsta | ⟨o, b, hsta⟩ | hsta⟩ := d.set_cases own bssid a
    · exact (congrArg Apart hsta).mpr h
    · exact (congrArg Apart hsta).mpr fun hboth => Bool.false_ne_true hboth.2
    · exact (congrArg Apart hsta).mpr h
  | clear f =>
    cases hidle : d.sta.idle with
    | true => exact (congrArg Apart (d.clear_idle f hidle)).mpr hclear
    | false =>
      obtain ⟨-, -, hsta⟩ | ⟨-, hsta⟩ := d.clear_cases f hidle
      · exact (congrArg Apart hsta).mpr hclear
      · exact (congrArg Apart hsta).mpr h
  | check dw0 dw1 allow_restore f =>
    obtain ⟨hsta, -⟩ | ⟨-, hsta⟩ | ⟨-, hsta, -⟩ := d.check_cases f dw0 dw1 allow_restore
    · exact (congrArg Apart hsta).mpr h
    · exact (congrArg Apart hsta).mpr fun hboth => Bool.false_ne_true hboth.1
    · exact (congrArg Apart hsta).mpr fun hboth => Bool.false_ne_true hboth.2
  | request want lands =>
    apply (congrArg Apart (d.request_cases want lands).1).mpr
    split
    · exact h
    · exact h

theorem apart_session (reg : BitVec 32) (calls : List Call) : Apart (session reg calls).sta := by
  apply Runs.after_keeps (P := fun d : Chip => Apart d.sta)
  · exact fun hboth => Bool.false_ne_true hboth.1
  · intro d c h
    exact apart_call c h

/-- No call but a clear puts another filter than the managed one into the register of a station
that it leaves armed. -/
theorem managed_of_call (d : Chip) (c : Call) (hc : ∀ f, c ≠ .clear f)
    (harmed : (call d c).2.sta.armed = true) : Managed d (call d c).2 := by
  cases c with
  | set own bssid a => exact (d.set_cases own bssid a).1
  | clear f => exact absurd rfl (hc f)
  | check dw0 dw1 allow_restore f =>
    obtain ⟨-, hreg⟩ | ⟨-, hsta⟩ | ⟨-, -, hreg⟩ := d.check_cases f dw0 dw1 allow_restore
    · exact Or.inl hreg
    · change (d.station_identity_check dw0 dw1 allow_restore f).sta.armed = true at harmed
      rw [hsta] at harmed
      cases harmed
    · exact hreg
  | request want lands =>
    obtain ⟨hsta, hreg⟩ := d.request_cases want lands
    apply hreg
    change (d.set_monitor_rx want lands).sta.armed = true at harmed
    rw [hsta] at harmed
    split at harmed
    · exact harmed
    · exact harmed

/-- The station gives the filter back, its flags stay apart, and only a clear puts the filter of
the consumer into the register of an armed station. -/
theorem the_filter_is_given_back (reg : BitVec 32) (calls : List Call) :
    ((session reg calls).sta.idle = false →
      ∃ before leaves since, calls = before ++ leaves :: since ∧ Away reg before leaves since ∧
        ∀ f, ((session reg calls).clear_station_identity f).1 = 0 →
          ((session reg calls).clear_station_identity f).2.rx_filtr_cfg =
            latest (session reg before).rx_filtr_cfg since) ∧
    ¬((session reg calls).sta.armed = true ∧ (session reg calls).sta.lost = true) ∧
    ∀ c, (∀ f, c ≠ .clear f) → (call (session reg calls) c).2.sta.armed = true →
      Managed (session reg calls) (call (session reg calls) c).2 := by
  refine ⟨?_, apart_session reg calls, fun c hc harmed => managed_of_call _ c hc harmed⟩
  intro haway
  obtain ⟨before, leaves, since, hcalls, hsince, howed⟩ := owed_session reg calls haway
  refine ⟨before, leaves, since, hcalls, hsince, ?_⟩
  intro f hf
  obtain ⟨-, hreg, -⟩ | ⟨hne, -⟩ := (session reg calls).clear_cases f haway
  · rw [hreg, howed]
  · exact absurd hf hne

/-! ### A clear that lands and does not verify -/

def demo_own : Octets 6 := ⟨[2, 1, 1, 1, 1, 1], rfl⟩

def demo_bssid : Octets 6 := ⟨[2, 2, 2, 2, 2, 2], rfl⟩

/-- Every access succeeds, and the port holds the address of the station. -/
def demo_answers : Chip.Answers where
  dw0 := some 0x01010102
  dw1 := some 0x0101
  auto_rsp_cfg := some 1
  filtr_ok := true
  managed := ⟨true, true, true⟩
  undo := ⟨true, true, true⟩

def demo_armed : List Call := [.set (some demo_own) (some demo_bssid) demo_answers]

/-- A clear that verifies, after a request that came in under the arm. -/
theorem the_request_is_given_back :
    ((session 2 (demo_armed ++ [.request 3 true])).clear_station_identity
      ⟨true, true, true⟩).1 = 0 ∧
    ∃ before leaves since, demo_armed ++ [.request 3 true] = before ++ leaves :: since ∧
      ((session 2 (demo_armed ++ [.request 3 true])).clear_station_identity
        ⟨true, true, true⟩).2.rx_filtr_cfg = latest (session 2 before).rx_filtr_cfg since := by
  have haway : (session 2 (demo_armed ++ [.request 3 true])).sta.idle = false := by decide
  have hverified : ((session 2 (demo_armed ++ [.request 3 true])).clear_station_identity
      ⟨true, true, true⟩).1 = 0 := by decide
  obtain ⟨before, leaves, since, hcalls, -, hgiven⟩ := (the_filter_is_given_back 2 _).1 haway
  exact ⟨hverified, before, leaves, since, hcalls, hgiven _ hverified⟩

theorem a_clear_installs_under_the_arm :
    let calls := demo_armed ++ [.request 3 true]
    (session 2 calls).rx_filtr_cfg = MT_RX_FILTR_CFG_MANAGED ∧
    (call (session 2 calls) (.clear ⟨true, true, false⟩)).1 = -1 ∧
    (call (session 2 calls) (.clear ⟨true, true, false⟩)).2.sta.armed = true ∧
    (call (session 2 calls) (.clear ⟨true, true, false⟩)).2.rx_filtr_cfg = 3 := by
  decide

end devourer.mt7612u.station
