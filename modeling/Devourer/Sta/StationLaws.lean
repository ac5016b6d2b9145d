-- The laws of the station over whole runs: its keys follow its state, and
-- once it is keyed no cleartext frame touches the pairwise key.
import Devourer.Sta.StationState

namespace devourer.sta.StationSm

/-! ## The keys follow the state -/

/-- A supplicant that holds no PMK, PTK, candidate, GTK or cached reply. -/
structure Bare (p : Supplicant) : Prop where
  idle : p.state_ = .Idle
  pmk : p.pmk_ = Octets.zero 32
  ptk : p.ptk_ = Octets.zero 48 ∧ p.ptk_valid_ = false
  cand : p.cand_ptk_ = Octets.zero 48 ∧ p.cand_valid_ = false
  gtk : p.gtk_ = Octets.zero 32 ∧ p.gtk_valid_ = false
  replies : p.last_reply_ = [] ∧ p.m1_reply_ = []

theorem bare_of_idle {p : Supplicant} (h : p.Good) (hi : p.state_ = .Idle) : Bare p := by
  rw [h.idle_clean hi]
  exact ⟨rfl, rfl, ⟨rfl, rfl⟩, ⟨rfl, rfl⟩, ⟨rfl, rfl⟩, rfl, rfl⟩

/-- In every state that any order of calls reaches, the keys are those of the state:
a connected station is open or fully keyed, the key exchange runs with a started
supplicant, every other state holds no key at all, an association id is there exactly
while associated, and `connected()` is the state. -/
theorem keys_follow_the_state (ops : List Op) :
    ((run ops).state_ = .Connected → (run ops).security_ = .Open ∨
      ((run ops).sup_.state_ = .Done ∧ (run ops).sup_.ptk_valid_ = true ∧
        (run ops).sup_.gtk_valid_ = true)) ∧
    ((run ops).state_ = .FourWay → (run ops).security_ = .Wpa2Psk ∧
      (run ops).crypto_.isSome = true ∧ (run ops).sup_.state_ ≠ .Idle) ∧
    ((run ops).state_ = .Idle ∨ (run ops).state_ = .Authenticating ∨
      (run ops).state_ = .Associating ∨ (run ops).state_ = .Failed → Bare (run ops).sup_) ∧
    ((run ops).aid_ ≠ 0 ↔ (run ops).state_ = .FourWay ∨ (run ops).state_ = .Connected) ∧
    (run ops).connected = decide ((run ops).state_ = .Connected) := by
  have h := good_run ops
  generalize run ops = s at h ⊢
  have hkeyed : s.state_ = .Connected → s.security_ = .Open ∨
      (s.sup_.state_ = .Done ∧ s.sup_.ptk_valid_ = true ∧ s.sup_.gtk_valid_ = true) := by
    intro hst
    rcases h.keyed hst with hopen | hdone
    · exact Or.inl hopen
    · exact Or.inr ⟨hdone, h.sup_good.done_ptk.mp hdone, h.sup_good.done_gtk.mp hdone⟩
  refine ⟨hkeyed, ?_, ?_, h.aid, ?_⟩
  · intro hst
    obtain ⟨hsec, hstarted⟩ := h.four_way hst
    have hconf := h.configured (by simp [hst]) (by simp [hst])
    exact ⟨hsec, h.crypto hconf hsec, hstarted⟩
  · intro hst
    apply bare_of_idle h.sup_good
    apply h.bare
    · rcases hst with h1 | h1 | h1 | h1 <;> simp [h1]
    · rcases hst with h1 | h1 | h1 | h1 <;> simp [h1]
  · unfold connected
    by_cases hst : s.state_ = .Connected
    · rcases hkeyed hst with hopen | ⟨-, hv, -⟩
      · simp [hst, hopen]
      · simp [hst, hv]
    · simp [hst]

/-! ## An association on concrete frames -/

/-- A management frame from the access point to the station. -/
def apFrame (h : Supplicant.Session) (fc : UInt8) (body : Bytes) : Bytes :=
  mgmt_hdr fc h.own h.bssid h.bssid ++ body

/-- An unprotected EAPOL frame from the access point to the station. -/
def apEapol (h : Supplicant.Session) (eapol : Bytes) : Bytes :=
  [kFcData, kFcFromDs, 0, 0] ++ h.own.val ++ h.bssid.val ++ h.bssid.val ++ [0, 0] ++
    [0xaa, 0xaa, 0x03, 0, 0, 0, 0x88, 0x8e] ++ eapol

def demoSsid : Bytes := [0x6e, 0x65, 0x74]
def demoPsk : Bytes := [0x70, 0x61, 0x73, 0x73, 0x77, 0x6f, 0x72, 0x64]

/-- The session of a station that joins `demoBss` with `demoPsk`. -/
def demoJoined : Supplicant.Session :=
  { Supplicant.demoSession with
    pmk := (pmk_from_psk .standIn (some demoPsk) demoSsid).getD (Octets.zero 32) }

def demoBss : BssEntry :=
  { info :=
      { bssid := demoJoined.bssid
        ssid := demoSsid
        capability := 0x0011
        beacon_interval_tu := 100
        channel := 6
        privacy := true
        has_rsn := true
        rsn_ccmp_psk := true
        rsn := Supplicant.demoRsn.getD {} } }

/-- Configure, join, and the answers of the access point up to message 1. -/
def demoHandshake : List Op :=
  [.configure .standIn demoSsid (some demoPsk) demoJoined.own,
   .join demoBss (some demoJoined.snonce) 0,
   .on_rx (apFrame demoJoined kFcAuth [0, 0, 2, 0, 0, 0]) 10,
   .on_rx (apFrame demoJoined kFcAssocResp [1, 0, 0, 0, 1, 0xc0]) 20,
   .on_rx (apEapol demoJoined (demoJoined.msg1 Supplicant.demoAnonce 1)) 30]

def demoMsg3 : Op := .on_rx (apEapol demoJoined (demoJoined.msg3 Supplicant.demoAnonce 2 1 5)) 40

/-- The law at the end of a whole association. -/
theorem a_connected_station_is_keyed :
    (run (demoHandshake ++ [demoMsg3])).state_ = .Connected ∧
      (run (demoHandshake ++ [demoMsg3])).sup_.ptk_valid_ = true := by
  have hst : (run (demoHandshake ++ [demoMsg3])).state_ = .Connected := by decide +kernel
  have hsec : (run (demoHandshake ++ [demoMsg3])).security_ ≠ .Open := by decide +kernel
  refine ⟨hst, ?_⟩
  rcases (keys_follow_the_state (demoHandshake ++ [demoMsg3])).1 hst with h | h
  · exact absurd h hsec
  · exact h.2.1

/-! ## Cleartext and the pairwise key -/

/-- The installed PTK is what it was, and a candidate was at most spent. -/
structure PairwiseKept (p q : Supplicant) : Prop where
  ptk : q.ptk_ = p.ptk_ ∧ q.ptk_valid_ = p.ptk_valid_
  ptk_gen : q.ptk_gen_ = p.ptk_gen_
  inst_anonce : q.inst_anonce_ = p.inst_anonce_
  cand : q.cand_valid_ = false ∨
    (q.cand_valid_ = p.cand_valid_ ∧ q.cand_ptk_ = p.cand_ptk_ ∧ q.anonce_ = p.anonce_)

theorem pairwiseKept_counters (p : Supplicant) (c : Supplicant.Counters) :
    PairwiseKept p { p with counters := c } :=
  ⟨⟨rfl, rfl⟩, rfl, rfl, Or.inr ⟨rfl, rfl, rfl⟩⟩

/-- What the installed-handshake test lets through is a message 3 to the supplicant. -/
theorem classify_of_installed_msg3 {p : Supplicant} {k : EapolKey}
    (h : p.is_installed_msg3 k = true) :
    Supplicant.classify k = .Msg3 ∧ k.nonce = p.inst_anonce_ := by
  simp only [Supplicant.is_installed_msg3, Bool.and_eq_true, decide_eq_true_eq] at h
  obtain ⟨⟨⟨⟨⟨⟨-, hp⟩, ha⟩, hm⟩, hi⟩, hs⟩, hn⟩ := h
  refine ⟨?_, hn⟩
  unfold Supplicant.classify
  simp [hp, ha, hm, hi, hs]

/-- A message 3 of the installed handshake leaves the pairwise key alone. -/
theorem pairwiseKept_msg3 {p : Supplicant} {k : EapolKey} {kptk : Ptk} {c : Bool} (g : GtkKde)
    (e : Bytes) (h : p.Good) (hv : p.ptk_valid_ = true) (hn : k.nonce = p.inst_anonce_)
    (hkey : p.msg3_key k = .ok (kptk, c)) : PairwiseKept p (p.install_msg3 k kptk c g e) := by
  obtain ⟨c', hkey'⟩ := Supplicant.msg3_key_installed h hv hn
  rw [hkey, Except.ok.injEq, Prod.mk.injEq] at hkey'
  obtain ⟨rfl, rfl⟩ := hkey'
  rw [Supplicant.install_msg3_eq]
  refine ⟨⟨rfl, hv.symm⟩, ?_, ?_, ?_⟩
  · simp [hv]
  · simp [hv]
  · cases c
    · exact Or.inr ⟨rfl, rfl, rfl⟩
    · exact Or.inl rfl

/-- Whatever EAPOL frame the cleartext test lets through, the keyed supplicant keeps its
pairwise key. -/
theorem pairwiseKept_cleartext {s : StationSm} {e : Bytes} (h : s.sup_.Good)
    (hv : s.sup_.ptk_valid_ = true) (hallowed : s.cleartext_eapol_allowed e = true) :
    PairwiseKept s.sup_ (s.sup_.on_eapol e).sup := by
  -- A frame that parses is let through only as a message 3 of the installed handshake.
  have hmsg3 : ∀ k, parse_eapol_key e = some k →
      Supplicant.classify k = .Msg3 ∧ k.nonce = s.sup_.inst_anonce_ := by
    intro k hk
    unfold cleartext_eapol_allowed at hallowed
    rw [hk] at hallowed
    dsimp only at hallowed
    split at hallowed
    · simp at hallowed
    · rw [hv] at hallowed
      exact classify_of_installed_msg3 (by simpa using hallowed)
  have he := Supplicant.on_eapol_effect s.sup_ e
  generalize s.sup_.on_eapol e = r at he ⊢
  cases he with
  | quiet same _ => rw [same]; exact pairwiseKept_counters _ _
  | msg1 pass kind _ _ =>
    rw [(hmsg3 _ pass.parsed).1] at kind
    cases kind
  | msg3 pass _ key _ => exact pairwiseKept_msg3 _ _ h hv (hmsg3 _ pass.parsed).2 key
  | group1 pass kind _ =>
    rw [(hmsg3 _ pass.parsed).1] at kind
    cases kind

/-- Only the two associated states hold a valid PTK. -/
theorem associated_of_ptk {s : StationSm} (h : Good s) (hv : s.sup_.ptk_valid_ = true) :
    s.state_ = .FourWay ∨ s.state_ = .Connected := by
  by_contra hn
  rw [not_or] at hn
  have hidle := h.bare hn.1 hn.2
  rw [h.sup_good.done_ptk.symm.mp hv] at hidle
  cases hidle

/-- Once keyed, a frame from the air either ends the whole association, as a
deauthentication or disassociation from the BSSID, or leaves the PTK, its generation and
its ANonce as they are and brings in no candidate. -/
theorem cleartext_never_touches_the_pairwise_key (ops : List Op) (frame : Bytes) (now_ms : UInt32)
    (hv : (run ops).sup_.ptk_valid_ = true) :
    (Ends (run ops) frame ∧ ((run ops).on_rx frame now_ms).state_ = .Failed ∧
        ((run ops).on_rx frame now_ms).sup_ = (run ops).sup_.forget) ∨
      PairwiseKept (run ops).sup_ ((run ops).on_rx frame now_ms).sup_ := by
  have h := good_run ops
  have he := on_rx_effect (run ops) frame now_ms
  generalize run ops = s at *
  have hassoc := associated_of_ptk h hv
  generalize s.on_rx frame now_ms = t at he ⊢
  -- The station is past authentication and association, so no answer to them counts.
  have hnot : s.state_ ≠ .Authenticating ∧ s.state_ ≠ .Associating := by
    rcases hassoc with h1 | h1 <;> simp [h1]
  cases he with
  | quiet same =>
    rw [same]
    exact Or.inr (pairwiseKept_counters _ _)
  | auth_refused hst _ => exact absurd hst hnot.1
  | auth_accepted ha => exact absurd ha.state hnot.1
  | assoc_refused hst _ => exact absurd hst hnot.2
  | assoc_open hst _ _ _ => exact absurd hst hnot.2
  | assoc_wpa2 hst _ _ _ => exact absurd hst hnot.2
  | ended hends _ reason => exact Or.inl ⟨hends, rfl, rfl⟩
  | eapol hallowed hh =>
    rw [hh.sup]
    exact Or.inr (pairwiseKept_cleartext h.sup_good hv hallowed)

/-- The law on a keyed station and a forged message 1. -/
theorem a_keyed_station_keeps_its_key :
    (run (demoHandshake ++ [demoMsg3])).sup_.ptk_valid_ = true ∧
      ((run (demoHandshake ++ [demoMsg3])).on_rx
        (apEapol demoJoined (demoJoined.msg1 (Octets.slice [4] 0 32) 9)) 50).sup_.ptk_gen_ =
        (run (demoHandshake ++ [demoMsg3])).sup_.ptk_gen_ := by
  have hv : (run (demoHandshake ++ [demoMsg3])).sup_.ptk_valid_ = true := by decide +kernel
  refine ⟨hv, ?_⟩
  rcases cleartext_never_touches_the_pairwise_key _
    (apEapol demoJoined (demoJoined.msg1 (Octets.slice [4] 0 32) 9)) 50 hv with ⟨hends, -⟩ | hk
  · rcases hends.kind with h | h
    · exact absurd h (by decide +kernel)
    · exact absurd h (by decide +kernel)
  · exact hk.ptk_gen

end devourer.sta.StationSm
