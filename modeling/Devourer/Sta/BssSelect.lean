-- The selection and the join agree on what is joinable, and the selection is
-- the strongest of it, heard last among the strongest.
import Devourer.Sta.BssFlood
import Devourer.Sta.StationSm

namespace devourer.sta

namespace BssTable

/-- A station that is set up for an SSID, and the SNonce it is handed for the join: WPA2 with its
PMK derived and an SNonce that is there, or open. -/
structure Configured (s : StationSm) (ssid : Bytes) (want_rsn : Bool)
    (snonce : Option (Octets 32)) : Prop where
  configured : s.configured_ = true
  ssid : s.ssid_ = ssid
  security : s.security_ = if want_rsn then .Wpa2Psk else .Open
  pmk : want_rsn = true → s.have_pmk_ = true
  snonce : want_rsn = true → snonce.isSome

variable {t : BssTable} {s : StationSm} {ssid : Bytes} {want_rsn : Bool}
  {snonce : Option (Octets 32)} {now_ms : UInt32} {i j : Fin kMaxBss}

/-- What `join` asks of an entry and of the station. -/
theorem join_iff (s : StationSm) (bss : BssEntry) (snonce : Option (Octets 32)) (now_ms : UInt32) :
    (s.join bss snonce now_ms).2 = true ↔ s.configured_ = true ∧ bss.info.ssid = s.ssid_ ∧
      channel_valid bss.info.channel = true ∧ bss_is_infrastructure bss.info = true ∧
      if s.security_ = .Wpa2Psk then
        s.have_pmk_ = true ∧ bss_is_wpa2_psk bss.info = true ∧ snonce.isSome = true
      else bss.info.privacy = false := by
  unfold StationSm.join
  cases snonce with
  | none => grind
  | some n => grind

/-- A join gets past its checks on the entries that the selection considers. -/
theorem join_iff_considers (hs : Configured s ssid want_rsn snonce) (hi : t.used_ i = true) :
    (s.join (t.slots_ i) snonce now_ms).2 = true ↔ t.considers ssid want_rsn i = true := by
  obtain ⟨hconfigured, rfl, hsecurity, hpmk, hsnonce⟩ := hs
  rw [join_iff, hsecurity]
  unfold considers
  cases want_rsn with
  | true =>
    simp only [hconfigured, hi, hpmk rfl, hsnonce rfl, true_and]
    grind
  | false =>
    simp only [hconfigured, hi, true_and]
    grind

theorem considers_used (h : t.considers ssid want_rsn i = true) : t.used_ i = true := by
  unfold considers at h
  simp only [Bool.and_eq_true] at h
  exact h.1.1.1.1

/-! ## The best of them -/

/-- Two times less than half the clock apart: the signed difference of their stamps has its sign. -/
theorem signed_difference {a b : Nat} (hab : a ≤ b + (2 ^ 31 - 1)) (hba : b ≤ a + (2 ^ 31 - 1)) :
    (UInt32.ofNat a - UInt32.ofNat b).toInt32 > 0 ↔ b < a := by
  have hbits : (UInt32.ofNat a - UInt32.ofNat b).toBitVec.toNat =
      (2 ^ 32 - b % 2 ^ 32 + a % 2 ^ 32) % 2 ^ 32 := by
    rw [UInt32.toBitVec_sub, BitVec.toNat_sub]
    rfl
  have hint : (UInt32.ofNat a - UInt32.ofNat b).toInt32.toInt = (a : Int) - b := by
    have hsigned : (UInt32.ofNat a - UInt32.ofNat b).toInt32.toInt =
        (UInt32.ofNat a - UInt32.ofNat b).toBitVec.toInt := rfl
    rw [hsigned, BitVec.toInt_eq_toNat_bmod, hbits, Int.bmod]
    omega
  have hzero : Int32.toInt 0 = 0 := rfl
  show (0 : Int32) < _ ↔ _
  rw [Int32.lt_iff_toInt_lt, hint, hzero]
  omega

/-- Weaker, or as strong and, at this strength, heard no later. -/
def Below (t : BssTable) (heard : Fin kMaxBss → Nat) (rssi : Int8) (i j : Fin kMaxBss) : Prop :=
  (t.slots_ i).rssi.toInt < (t.slots_ j).rssi.toInt ∨
    ((t.slots_ i).rssi = (t.slots_ j).rssi ∧ ((t.slots_ j).rssi = rssi → heard i ≤ heard j))

variable {heard : Fin kMaxBss → Nat} {rssi : Int8}

theorem below_trans {k : Fin kMaxBss} (hij : Below t heard rssi i j)
    (hjk : Below t heard rssi j k) : Below t heard rssi i k := by
  rcases hij with hij | ⟨hij, hheard⟩
  · rcases hjk with hjk | ⟨hjk, _⟩
    · exact .inl (hij.trans hjk)
    · exact .inl (hjk ▸ hij)
  · rcases hjk with hjk | ⟨hjk, hheard'⟩
    · exact .inl (hij ▸ hjk)
    · exact .inr ⟨hij.trans hjk, fun hk => (hheard (hjk.trans hk)).trans (hheard' hk)⟩

/-- The times at which the considered entries of this strength were heard: each has its time as
stamp, and no two of them are more than half the clock apart. -/
structure HeardAt (t : BssTable) (ssid : Bytes) (want_rsn : Bool) (rssi : Int8)
    (heard : Fin kMaxBss → Nat) : Prop where
  stamp : ∀ i, t.considers ssid want_rsn i = true → (t.slots_ i).rssi = rssi →
    (t.slots_ i).last_seen_ms = UInt32.ofNat (heard i)
  near : ∀ i j, t.considers ssid want_rsn i = true → t.considers ssid want_rsn j = true →
    (t.slots_ i).rssi = rssi → (t.slots_ j).rssi = rssi → heard i ≤ heard j + (2 ^ 31 - 1)

theorem prefers_iff : t.prefers i j = true ↔
    (t.slots_ j).rssi.toInt < (t.slots_ i).rssi.toInt ∨ ((t.slots_ i).rssi = (t.slots_ j).rssi ∧
      ((t.slots_ i).last_seen_ms - (t.slots_ j).last_seen_ms).toInt32 > 0) := by
  simp [prefers, Int8.lt_iff_toInt_lt]

theorem below_of_prefers (h : HeardAt t ssid want_rsn rssi heard)
    (hi : t.considers ssid want_rsn i = true) (hj : t.considers ssid want_rsn j = true)
    (hwin : t.prefers i j = true) : Below t heard rssi j i := by
  rcases prefers_iff.mp hwin with hstrong | ⟨heq, hlater⟩
  · exact .inl hstrong
  · refine .inr ⟨heq.symm, ?_⟩
    intro hrssi
    have hrssi' := heq.symm.trans hrssi
    rw [h.stamp i hi hrssi, h.stamp j hj hrssi'] at hlater
    rw [signed_difference (h.near i j hi hj hrssi hrssi') (h.near j i hj hi hrssi' hrssi)] at hlater
    omega

theorem below_of_not_prefers (h : HeardAt t ssid want_rsn rssi heard)
    (hi : t.considers ssid want_rsn i = true) (hj : t.considers ssid want_rsn j = true)
    (hlose : t.prefers i j = false) : Below t heard rssi i j := by
  rw [← Bool.not_eq_true, prefers_iff, not_or, not_and] at hlose
  obtain ⟨hweak, hearlier⟩ := hlose
  by_cases heq : (t.slots_ i).rssi = (t.slots_ j).rssi
  · refine .inr ⟨heq, ?_⟩
    intro hrssi
    have hrssi' := heq.trans hrssi
    have hnot := hearlier heq
    rw [h.stamp i hi hrssi', h.stamp j hj hrssi,
      signed_difference (h.near i j hi hj hrssi' hrssi) (h.near j i hj hi hrssi hrssi')] at hnot
    omega
  · have hne : (t.slots_ i).rssi.toInt ≠ (t.slots_ j).rssi.toInt :=
      fun hint => heq (Int8.toInt_inj.mp hint)
    exact .inl (by omega)

/-- No entry is considered where none is selected, and a selected one is considered. -/
theorem best_matching_none : t.best_matching ssid want_rsn = none ↔
    ∀ i, t.considers ssid want_rsn i = false := by
  unfold best_matching
  rw [Pick.best_eq_none]
  simp

theorem best_matching_below (h : HeardAt t ssid want_rsn rssi heard)
    (hbest : t.best_matching ssid want_rsn = some i) (hj : t.considers ssid want_rsn j = true) :
    Below t heard rssi j i := by
  refine Pick.best_dominates ?_ ?_ ?_ ?_ hbest (List.mem_finRange j) hj
  · exact fun x => .inr ⟨rfl, fun _ => Nat.le_refl _⟩
  · exact fun x y z => below_trans
  · exact fun x c hx hc => below_of_prefers h hx hc
  · exact fun x c hx hc => below_of_not_prefers h hx hc

def NoStronger (t : BssTable) (i j : Fin kMaxBss) : Prop :=
  (t.slots_ i).rssi.toInt ≤ (t.slots_ j).rssi.toInt

/-- The strength alone needs no clock. -/
theorem best_matching_strongest (hbest : t.best_matching ssid want_rsn = some i)
    (hj : t.considers ssid want_rsn j = true) : NoStronger t j i := by
  refine Pick.best_dominates (fun _ => Int.le_refl _) (fun _ _ _ => Int.le_trans) ?_ ?_ hbest
    (List.mem_finRange j) hj
  · intro x c _ _ hwin
    rcases prefers_iff.mp hwin with hstrong | ⟨heq, _⟩
    · exact hstrong.le
    · rw [NoStronger, heq]
  · intro x c _ _ hlose
    rw [← Bool.not_eq_true, prefers_iff, not_or] at hlose
    exact Int.not_lt.mp hlose.1

/-- The entry of a network that a station of either security picks. -/
def selection (t : BssTable) (want_rsn : Bool) (ssid : Bytes) : Option (Fin kMaxBss) :=
  if want_rsn then t.select ssid else t.select_open ssid

theorem selection_eq : t.selection want_rsn ssid = t.best_matching ssid want_rsn := by
  cases want_rsn
  · rfl
  · rfl

/-- The selection and the join agree: the join succeeds on the entries that the selection considers,
the selection is null where there is none, and it is else one of the strongest, the one heard last
among them while their times are less than half the clock apart. -/
theorem selection_and_join_agree (calls : List Call) (want_rsn : Bool) (ssid : Bytes)
    {s : StationSm} {snonce : Option (Octets 32)} (hs : Configured s ssid want_rsn snonce)
    (now_ms : UInt32) :
    (∀ i, (run calls).used_ i = true →
      ((s.join ((run calls).slots_ i) snonce now_ms).2 = true ↔
        (run calls).considers ssid want_rsn i = true)) ∧
    ((run calls).selection want_rsn ssid = none ↔ ∀ i, (run calls).used_ i = true →
      (s.join ((run calls).slots_ i) snonce now_ms).2 = false) ∧
    ∀ i, (run calls).selection want_rsn ssid = some i →
      (run calls).used_ i = true ∧ (s.join ((run calls).slots_ i) snonce now_ms).2 = true ∧
      (∀ j, (run calls).used_ j = true →
        (s.join ((run calls).slots_ j) snonce now_ms).2 = true →
        ((run calls).slots_ j).rssi.toInt ≤ ((run calls).slots_ i).rssi.toInt) ∧
      ∀ heard, HeardAt (run calls) ssid want_rsn ((run calls).slots_ i).rssi heard →
        ∀ j, (run calls).used_ j = true →
          (s.join ((run calls).slots_ j) snonce now_ms).2 = true →
          ((run calls).slots_ j).rssi = ((run calls).slots_ i).rssi → heard j ≤ heard i := by
  have hjoin : ∀ i, (run calls).used_ i = true →
      ((s.join ((run calls).slots_ i) snonce now_ms).2 = true ↔
        (run calls).considers ssid want_rsn i = true) := fun i hi => join_iff_considers hs hi
  rw [selection_eq]
  refine ⟨hjoin, ?_, ?_⟩
  · rw [best_matching_none]
    constructor
    · intro hnone i hi
      rw [← Bool.not_eq_true, hjoin i hi, hnone i]
      decide
    · intro hnone i
      by_contra hconsidered
      rw [Bool.not_eq_false] at hconsidered
      have hi := considers_used hconsidered
      rw [← hjoin i hi, hnone i hi] at hconsidered
      cases hconsidered
  · intro i hbest
    have hconsidered := (Pick.best_mem hbest).2
    have hi := considers_used hconsidered
    refine ⟨hi, (hjoin i hi).mpr hconsidered, ?_, ?_⟩
    · intro j hj hjoined
      exact best_matching_strongest hbest ((hjoin j hj).mp hjoined)
    · intro heard hheard j hj hjoined hrssi
      rcases best_matching_below hheard hbest ((hjoin j hj).mp hjoined) with hweak | ⟨_, hlater⟩
      · rw [hrssi] at hweak
        exact absurd hweak (Int.lt_irrefl _)
      · exact hlater rfl

/-- A beacon of the open network "a" on channel 6. -/
def open_beacon : Bytes :=
  [0x80, 0x00] ++ List.replicate 32 0x00 ++ [0x01, 0x00, 0x00, 0x01, 0x61, 0x03, 0x01, 0x06]

/-- An open station that is set up for it. -/
def open_station : StationSm := { configured_ := true, security_ := .Open, ssid_ := [0x61] }

theorem open_station_configured : Configured open_station [0x61] false none :=
  ⟨rfl, rfl, rfl, by simp, by simp⟩

theorem an_open_network_is_joined :
    (open_station.join ((run [.observe open_beacon (-40) 6 1000]).slots_ 0) none 1000).2 =
      true := by
  have hagree := selection_and_join_agree [.observe open_beacon (-40) 6 1000] false [0x61]
    open_station_configured 1000
  exact (hagree.1 0 (by decide)).mpr (by decide)

end BssTable

end devourer.sta
