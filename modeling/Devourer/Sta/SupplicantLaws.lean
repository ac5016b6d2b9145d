-- The laws of the supplicant over whole runs: no key without a verified
-- MIC, no key installed twice, and no harm from a forged message 1.
import Devourer.Sta.SupplicantState

namespace devourer.sta.Supplicant

/-! ## The installed state -/

/-- The keys, the replay state and the cached reply of the association. -/
structure Installed where
  ptk_ : Ptk
  ptk_valid_ : Bool
  inst_anonce_ : Octets 32
  gtk_ : Octets 32
  gtk_len_ : Nat
  gtk_key_id_ : UInt8
  gtk_rsc_ : UInt64
  gtk_valid_ : Bool
  ptk_gen_ : UInt32
  gtk_gen_ : UInt32
  rx_replay_ : UInt64
  rx_replay_set_ : Bool
  last_reply_ : Bytes
  deriving DecidableEq

def installed (s : Supplicant) : Installed :=
  { ptk_ := s.ptk_
    ptk_valid_ := s.ptk_valid_
    inst_anonce_ := s.inst_anonce_
    gtk_ := s.gtk_
    gtk_len_ := s.gtk_len_
    gtk_key_id_ := s.gtk_key_id_
    gtk_rsc_ := s.gtk_rsc_
    gtk_valid_ := s.gtk_valid_
    ptk_gen_ := s.ptk_gen_
    gtk_gen_ := s.gtk_gen_
    rx_replay_ := s.rx_replay_
    rx_replay_set_ := s.rx_replay_set_
    last_reply_ := s.last_reply_ }

/-! ## The session that a run is in -/

/-- The arguments of one `start`. -/
structure Session where
  crypto : CryptoOps
  pmk : Octets 32
  own : Mac
  bssid : Mac
  snonce : Octets 32
  ap_rsn : Option RsnInfo

def Session.op (h : Session) : Op := .start h.crypto h.pmk h.own h.bssid h.snonce h.ap_rsn

/-- Among `frames`, fed after the calls `begun`, a message 1 with this ANonce was accepted. -/
def AcceptedAnonce (begun : List Op) (frames : List Bytes) (anonce : Octets 32) : Prop :=
  ∃ earlier m later k, frames = earlier ++ m :: later ∧ parse_eapol_key m = some k ∧
    classify k = .Msg1 ∧ k.nonce = anonce ∧
    ((run (begun ++ earlier.map .on_eapol)).on_eapol m).verdict = .Reply

theorem acceptedAnonce_more {begun : List Op} {frames : List Bytes} {anonce : Octets 32}
    (f : Bytes) (h : AcceptedAnonce begun frames anonce) :
    AcceptedAnonce begun (frames ++ [f]) anonce := by
  obtain ⟨earlier, m, later, k, hf, hp, hk, hn, hv⟩ := h
  exact ⟨earlier, m, later ++ [f], k, by simp [hf], hp, hk, hn, hv⟩

/-- The machine carries the arguments of its `start`, and each of its two ANonces is that
of a message 1 accepted since. -/
structure InSession (s : Supplicant) (h : Session) (begun : List Op) (frames : List Bytes) :
    Prop where
  crypto_eq : s.crypto_ = some h.crypto
  pmk_eq : s.pmk_ = h.pmk
  own_eq : s.own_ = h.own
  bssid_eq : s.bssid_ = h.bssid
  snonce_eq : s.snonce_ = h.snonce
  rsn_set : s.ap_rsn_set_ = (start_rsn h.ap_rsn).isSome
  rsn_eq : s.ap_rsn_ = (start_rsn h.ap_rsn).getD {}
  cand_accepted : s.cand_valid_ = true → AcceptedAnonce begun frames s.anonce_
  inst_accepted : s.ptk_valid_ = true → AcceptedAnonce begun frames s.inst_anonce_

theorem inSession_start (s : Supplicant) (h : Session) (begun : List Op) :
    InSession (s.step h.op) h begun [] := by
  constructor <;> simp [step, Session.op, start, forget]

theorem inSession_quiet {s : Supplicant} {h : Session} {begun : List Op} {frames : List Bytes}
    (c : Counters) (f : Bytes) (hs : InSession s h begun frames) :
    InSession { s with counters := c } h begun (frames ++ [f]) := by
  obtain ⟨h1, h2, h3, h4, h5, h6, h7, h8, h9⟩ := hs
  exact ⟨h1, h2, h3, h4, h5, h6, h7, fun hv => acceptedAnonce_more f (h8 hv),
    fun hv => acceptedAnonce_more f (h9 hv)⟩

theorem inSession_on_eapol {h : Session} {begun : List Op} {frames : List Bytes} (f : Bytes)
    (hs : InSession (run (begun ++ frames.map .on_eapol)) h begun frames) :
    InSession ((run (begun ++ frames.map .on_eapol)).on_eapol f).sup h begun (frames ++ [f]) := by
  have he := on_eapol_effect (run (begun ++ frames.map .on_eapol)) f
  -- The frame in hand is the one that the new ANonce, if any, came with.
  have hnew : ∀ k, parse_eapol_key f = some k → classify k = .Msg1 →
      ((run (begun ++ frames.map .on_eapol)).on_eapol f).verdict = .Reply →
      AcceptedAnonce begun (frames ++ [f]) k.nonce :=
    fun k hp hk hv => ⟨frames, f, [], k, rfl, hp, hk, rfl, hv⟩
  generalize run (begun ++ frames.map .on_eapol) = s at hs he hnew ⊢
  generalize s.on_eapol f = r at he hnew ⊢
  have hcand := fun hv => acceptedAnonce_more f (hs.cand_accepted hv)
  have hinst := fun hv => acceptedAnonce_more f (hs.inst_accepted hv)
  cases he with
  | quiet same _ => rw [same]; exact inSession_quiet _ f hs
  | msg1 pass kind _ _ =>
    rw [accept_msg1_eq]
    exact ⟨hs.crypto_eq, hs.pmk_eq, hs.own_eq, hs.bssid_eq, hs.snonce_eq, hs.rsn_set, hs.rsn_eq,
      fun _ => hnew _ pass.parsed kind rfl, hinst⟩
  | @msg3 _ k kptk c _ _ _ _ key _ =>
    rw [install_msg3_eq]
    refine ⟨hs.crypto_eq, hs.pmk_eq, hs.own_eq, hs.bssid_eq, hs.snonce_eq, hs.rsn_set, hs.rsn_eq,
      ?_, ?_⟩
    · intro hv
      cases c
      · exact hcand hv
      · simp at hv
    · intro _
      dsimp only
      split
      · exact hinst (by simp_all)
      · rcases msg3_key_ok key with ⟨-, hv, hn, -⟩ | ⟨-, hv, hn, -⟩
        · rw [hn]; exact hcand hv
        · rw [hn]; exact hinst hv
  | group1 _ _ _ =>
    rw [install_group1_eq]
    exact ⟨hs.crypto_eq, hs.pmk_eq, hs.own_eq, hs.bssid_eq, hs.snonce_eq, hs.rsn_set, hs.rsn_eq,
      hcand, hinst⟩

/-- A machine that is not idle is in a session: its last `start` was followed by frames
only. -/
theorem session_of_run (ops : List Op) :
    (run ops).state_ ≠ .Idle → ∃ h before frames,
      ops = before ++ h.op :: frames.map .on_eapol ∧
      InSession (run ops) h (before ++ [h.op]) frames := by
  induction ops using List.reverseRecOn with
  | nil => intro hlive; exact absurd rfl hlive
  | append_singleton ops op ih =>
    rw [run_snoc]
    cases op with
    | start crypto pmk own bssid snonce ap_rsn =>
      intro _
      exact ⟨⟨crypto, pmk, own, bssid, snonce, ap_rsn⟩, ops, [], rfl,
        inSession_start (run ops) ⟨crypto, pmk, own, bssid, snonce, ap_rsn⟩ _⟩
    | forget => intro hlive; exact absurd rfl hlive
    | on_eapol f =>
      intro hlive
      have hwas : (run ops).state_ ≠ .Idle := by
        have he := on_eapol_effect (run ops) f
        simp only [step] at hlive
        generalize (run ops).on_eapol f = r at he hlive
        cases he with
        | quiet same _ => rw [same] at hlive; exact hlive
        | msg1 pass _ _ _ => exact pass.live
        | msg3 pass _ _ _ => exact pass.live
        | group1 pass _ _ => exact pass.live
      obtain ⟨h, before, frames, hops, hin⟩ := ih hwas
      refine ⟨h, before, frames ++ [f], by simp [hops], ?_⟩
      have hrun : run ops = run ((before ++ [h.op]) ++ frames.map .on_eapol) := by simp [hops]
      rw [hrun] at hin ⊢
      exact inSession_on_eapol f hin

/-! ## No key without a verified MIC -/

theorem installed_counters (s : Supplicant) (c : Counters) :
    ({ s with counters := c } : Supplicant).installed = s.installed := rfl

theorem installed_msg1 (s : Supplicant) (k : EapolKey) (ptk : Ptk) (e : Bytes) :
    (s.accept_msg1 k ptk e).installed = s.installed := rfl

/-- The keys that an accepted message 3 or group message 1 is checked with. -/
theorem derived_in_session {s : Supplicant} {h : Session} {begun : List Op} {frames : List Bytes}
    {anonce : Octets 32} {ptk : Ptk} (hs : InSession s h begun frames)
    (hd : s.DerivedFrom anonce ptk) :
    derive_ptk h.crypto h.pmk h.bssid h.own anonce h.snonce = some ptk := by
  obtain ⟨crypto, hc, hd⟩ := hd
  rw [hs.crypto_eq, Option.some.injEq] at hc
  rw [hc, ← hs.pmk_eq, ← hs.bssid_eq, ← hs.own_eq, ← hs.snonce_eq]
  exact hd

/-- A call that changes anything installed carries a fresh message 3 or group message 1:
its MIC verified under a PTK derived with the ANonce of a message 1 accepted since
`start`, its key data unwrapped under that PTK and held exactly one GTK, and message 3
also carried the advertised RSN element. -/
theorem no_key_without_a_verified_mic (ops : List Op) (f : Bytes)
    (hchange : ((run ops).on_eapol f).sup.installed ≠ (run ops).installed) :
    ∃ (h : Session) (before : List Op) (frames : List Bytes) (k : EapolKey)
      (anonce : Octets 32) (ptk : Ptk) (plain b : Bytes),
      ops = before ++ h.op :: frames.map .on_eapol ∧
      parse_eapol_key f = some k ∧ k.version = 2 ∧ k.request = false ∧
      (classify k = .Msg3 ∨ classify k = .Group1) ∧
      AcceptedAnonce (before ++ [h.op]) frames anonce ∧
      derive_ptk h.crypto h.pmk h.bssid h.own anonce h.snonce = some ptk ∧
      eapol_mic_ok h.crypto ptk.kck k = .Ok ∧
      h.crypto.aes_key_unwrap ptk.kek.val k.key_data = some plain ∧
      (elements plain).2 = true ∧ gtk_bodies plain = [b] ∧ (gtk_of b).gtk_len = 16 ∧
      ((gtk_of b).key_id = 1 ∨ (gtk_of b).key_id = 2 ∨ (gtk_of b).key_id = 3) ∧
      (classify k = .Msg3 → ∀ r, start_rsn h.ap_rsn = some r →
        ∃ got, find_rsn_element plain = some got ∧ rsn_equivalent got r = true) ∧
      ((run ops).rx_replay_set_ = true → (run ops).rx_replay_ < k.replay) := by
  have hgood := good_run ops
  have hsession := session_of_run ops
  have he := on_eapol_effect (run ops) f
  generalize run ops = s at *
  generalize s.on_eapol f = r at he hchange
  cases he with
  | quiet same _ =>
    rw [same, installed_counters] at hchange
    exact absurd rfl hchange
  | msg1 _ _ _ _ => exact absurd (installed_msg1 _ _ _ _) hchange
  | @msg3 crypto k kptk c g e pass kind key checked =>
    obtain ⟨h, before, frames, hops, hin⟩ := hsession pass.live
    obtain ⟨hmic, ⟨plain, hu, hrsn⟩, -⟩ := check_msg3_ok checked
    have hc : crypto = h.crypto := by
      have := pass.crypto_eq
      rw [hin.crypto_eq, Option.some.injEq] at this
      exact this.symm
    subst hc
    have hdel := unwrap_gtk_delivers hu
    obtain ⟨b, hb, -, hg⟩ := hdel.only_gtk
    obtain ⟨anonce, hacc, hder⟩ : ∃ anonce, AcceptedAnonce (before ++ [h.op]) frames anonce ∧
        s.DerivedFrom anonce kptk := by
      rcases msg3_key_ok key with ⟨-, hv, -, hp⟩ | ⟨-, hv, -, hp⟩
      · exact ⟨s.anonce_, hin.cand_accepted hv, hp ▸ hgood.cand_derived hv⟩
      · exact ⟨s.inst_anonce_, hin.inst_accepted hv, hp ▸ hgood.ptk_derived hv⟩
    refine ⟨h, before, frames, k, anonce, kptk, plain, b, hops, pass.parsed, pass.version,
      pass.not_request, Or.inl kind, hacc, derived_in_session hin hder, hmic, hdel.unwrapped,
      hdel.whole, hb, hg ▸ hdel.gtk_len, hg ▸ hdel.key_id, ?_, pass.fresh⟩
    intro _ r hr
    have hm := hrsn (by rw [hin.rsn_set, hr]; rfl)
    rw [hin.rsn_eq, hr] at hm
    unfold rsn_matches at hm
    split at hm
    · simp at hm
    · exact ⟨_, ‹_›, hm⟩
  | @group1 crypto k g e pass kind checked =>
    obtain ⟨h, before, frames, hops, hin⟩ := hsession pass.live
    obtain ⟨-, hv, hmic, ⟨plain, hu⟩, -⟩ := check_group1_ok checked
    have hc : crypto = h.crypto := by
      have := pass.crypto_eq
      rw [hin.crypto_eq, Option.some.injEq] at this
      exact this.symm
    subst hc
    have hdel := unwrap_gtk_delivers hu
    obtain ⟨b, hb, -, hg⟩ := hdel.only_gtk
    refine ⟨h, before, frames, k, s.inst_anonce_, s.ptk_, plain, b, hops, pass.parsed,
      pass.version, pass.not_request, Or.inr kind, hin.inst_accepted hv,
      derived_in_session hin (hgood.ptk_derived hv), hmic, hdel.unwrapped, hdel.whole, hb,
      hg ▸ hdel.gtk_len, hg ▸ hdel.key_id, ?_, pass.fresh⟩
    intro hk
    rw [kind] at hk
    cases hk

/-! ## A handshake on concrete frames -/

namespace Session

/-- The PTK that both ends of the session derive with an ANonce. -/
def ptk (h : Session) (anonce : Octets 32) : Ptk :=
  (derive_ptk h.crypto h.pmk h.bssid h.own anonce h.snonce).getD (Octets.zero 48)

/-- The RSN element and one GTK KDE with a GTK of equal bytes, padded to a multiple of 8
bytes and wrapped for the stand-in crypto. -/
def keyData (h : Session) (anonce : Octets 32) (key_id gtk : UInt8) : Bytes :=
  CryptoOps.standInWrap (h.ptk anonce).kek.val
    (append_rsn_ccmp_psk [] ++ [0xdd, 22, 0x00, 0x0f, 0xac, 0x01, key_id, 0] ++
      List.replicate 16 gtk ++ [0xdd, 0])

/-- A message 1 as the access point sends it. -/
def msg1 (_ : Session) (anonce : Octets 32) (replay : UInt64) : Bytes :=
  build_eapol_key (kKeyDescVersionCcmp ||| kKiPairwise ||| kKiAck) 16 replay (some anonce) none
    none 0 none none 2

/-- A message 3 as the access point sends it. -/
def msg3 (h : Session) (anonce : Octets 32) (replay : UInt64) (key_id gtk : UInt8) : Bytes :=
  let kd := h.keyData anonce key_id gtk
  build_eapol_key (kKeyDescVersionCcmp ||| kKiPairwise ||| kKiInstall ||| kKiAck ||| kKiMic |||
      kKiSecure ||| kKiEncrypted) 16 replay (some anonce) none (some kd) kd.length
    (some h.crypto) (some (h.ptk anonce).kck) 2

/-- A group message 1 under the PTK of an ANonce. -/
def group1 (h : Session) (anonce : Octets 32) (replay : UInt64) (key_id gtk : UInt8) : Bytes :=
  let kd := h.keyData anonce key_id gtk
  build_eapol_key (kKeyDescVersionCcmp ||| kKiAck ||| kKiMic ||| kKiSecure ||| kKiEncrypted) 16
    replay none none (some kd) kd.length (some h.crypto) (some (h.ptk anonce).kck) 2

end Session

/-- The RSN element that the concrete access point advertises. -/
def demoRsn : Option RsnInfo := parse_rsn ((append_rsn_ccmp_psk []).drop 2)

def demoSession : Session :=
  { crypto := .standIn
    pmk := Octets.slice [1, 2, 3] 0 32
    own := Octets.slice [2, 0, 0, 0, 0, 1] 0 6
    bssid := Octets.slice [2, 0, 0, 0, 0, 9] 0 6
    snonce := Octets.slice [7, 7, 7] 0 32
    ap_rsn := demoRsn }

def demoAnonce : Octets 32 := Octets.slice [9, 9] 0 32

/-- The law at work on a message 3 that installs both keys. -/
theorem a_handshake_installs_with_a_verified_mic :
    ((run [demoSession.op, .on_eapol (demoSession.msg1 demoAnonce 1)]).on_eapol
      (demoSession.msg3 demoAnonce 2 1 5)).sup.installed ≠
        (run [demoSession.op, .on_eapol (demoSession.msg1 demoAnonce 1)]).installed ∧
    ∃ k, parse_eapol_key (demoSession.msg3 demoAnonce 2 1 5) = some k ∧ k.version = 2 := by
  have hchange : ((run [demoSession.op, .on_eapol (demoSession.msg1 demoAnonce 1)]).on_eapol
      (demoSession.msg3 demoAnonce 2 1 5)).sup.installed ≠
        (run [demoSession.op, .on_eapol (demoSession.msg1 demoAnonce 1)]).installed := by
    decide +kernel
  obtain ⟨_, _, _, k, _, _, _, _, -, hk, hv, -⟩ := no_key_without_a_verified_mic _ _ hchange
  exact ⟨hchange, k, hk, hv⟩

/-! ## All or nothing -/

/-- A frame that is not answered anew moves nothing but the counters. This is so in every state,
and whichever of the crypto calls fail. -/
theorem on_eapol_is_all_or_nothing (s : Supplicant) (f : Bytes)
    (h : (s.on_eapol f).verdict ≠ .Reply) :
    (s.on_eapol f).sup = { s with counters := (s.on_eapol f).sup.counters } := by
  have he := on_eapol_effect s f
  generalize s.on_eapol f = r at he h ⊢
  cases he with
  | quiet same _ => exact same
  | msg1 _ _ _ _ => exact absurd rfl h
  | msg3 _ _ _ _ => exact absurd rfl h
  | group1 _ _ _ => exact absurd rfl h

/-- The last byte of message 3 is part of the wrapped GTK: with it changed the MIC fails, and the
candidate of the handshake in flight stays. -/
theorem a_corrupted_msg3_costs_nothing :
    let s := run [demoSession.op, .on_eapol (demoSession.msg1 demoAnonce 1)]
    let f := (demoSession.msg3 demoAnonce 2 1 5).dropLast ++ [1]
    (s.on_eapol f).verdict = .MicFailed ∧
      (s.on_eapol f).sup = { s with counters := (s.on_eapol f).sup.counters } := by
  intro s f
  have hv : (s.on_eapol f).verdict = .MicFailed := by decide +kernel
  exact ⟨hv, on_eapol_is_all_or_nothing s f (by simp [hv])⟩

/-! ## The representation -/

/-- The cache of answers is for the messages that carry a MIC. -/
def Kinded (s : Supplicant) : Prop :=
  s.answered_ = true → s.answered_kind_ = .Msg3 ∨ s.answered_kind_ = .Group1

theorem kinded_step {s : Supplicant} (op : Op) (h : Kinded s) : Kinded (s.step op) := by
  cases op with
  | start crypto pmk own bssid snonce ap_rsn => simp [Kinded, step, start, forget]
  | forget => simp [Kinded, step, forget]
  | on_eapol f =>
    have he := on_eapol_effect s f
    rw [step]
    generalize s.on_eapol f = r at he ⊢
    cases he with
    | quiet same _ => rw [same]; exact h
    | msg1 _ _ _ _ => rw [accept_msg1_eq]; exact h
    | msg3 _ _ _ _ => rw [install_msg3_eq]; exact fun _ => .inl rfl
    | group1 _ _ _ => rw [install_group1_eq]; exact fun _ => .inr rfl

theorem kinded_run (ops : List Op) : Kinded (run ops) :=
  Runs.after_keeps step {} (by simp [Kinded]) (fun _ op h => kinded_step op h) ops

/-- The two PTKs, their nonces, the replay state and the caches, as every call leaves them. -/
structure Represents (s : Supplicant) : Prop where
  cand : s.cand_valid_ = true → s.DerivedFrom s.anonce_ s.cand_ptk_
  ptk : s.ptk_valid_ = true → s.DerivedFrom s.inst_anonce_ s.ptk_
  done_ptk : s.state_ = .Done ↔ s.ptk_valid_ = true
  done_gtk : s.state_ = .Done ↔ s.gtk_valid_ = true
  gtk : s.gtk_valid_ = true →
    s.gtk_len_ = 16 ∧ (s.gtk_key_id_ = 1 ∨ s.gtk_key_id_ = 2 ∨ s.gtk_key_id_ = 3)
  wait : s.state_ = .WaitMsg3 → s.cand_valid_ = true ∧ s.ptk_valid_ = false
  replay : s.rx_replay_set_ = true ↔ s.state_ = .Done
  cache : s.answered_ = true ↔ s.state_ = .Done
  cached : s.answered_ = true → s.answered_replay_ = s.rx_replay_ ∧ s.last_reply_ ≠ [] ∧
    (s.answered_kind_ = .Msg3 ∨ s.answered_kind_ = .Group1)

theorem the_representation_holds (ops : List Op) : Represents (run ops) := by
  have h := good_run ops
  have hkind := kinded_run ops
  generalize run ops = s at h hkind
  refine
    { cand := h.cand_derived
      ptk := h.ptk_derived
      done_ptk := h.done_ptk
      done_gtk := h.done_gtk
      gtk := fun hv => ⟨h.gtk_len hv, h.gtk_id hv⟩
      wait := ?_
      replay := h.done_replay.symm
      cache := h.done_answered.symm
      cached := ?_ }
  · intro hw
    refine ⟨h.wait3_cand hw, ?_⟩
    -- a PTK that is installed makes the machine done
    cases hv : s.ptk_valid_ with
    | false => rfl
    | true =>
      have hdone := h.done_ptk.mpr hv
      rw [hdone] at hw
      cases hw
  · intro ha
    obtain ⟨hreplay, hne⟩ := h.answered_last ha
    exact ⟨hreplay, hne, hkind ha⟩

end devourer.sta.Supplicant
