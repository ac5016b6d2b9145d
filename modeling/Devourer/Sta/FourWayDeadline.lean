-- How long a station waits in the four-way handshake, and which frames
-- start that wait again.
import Devourer.Sta.StationRx

namespace devourer.sta.StationSm

/-! ## What moves the deadline -/

/-- The EAPOL packet that a call hands to the supplicant, and when. -/
def handed (s : StationSm) : Op → Option (Bytes × UInt32)
  | .on_rx frame now_ms =>
    ((s.rx_eapol_key frame).filter s.cleartext_eapol_allowed).map fun e => (e, now_ms)
  | .on_decrypted_msdu msdu now_ms =>
    if eapol_key_msdu msdu && zero_oui msdu then some (msdu.drop kLlcSnapLen, now_ms) else none
  | _ => none

/-- A reply of this machine's own needs a place in the queue. -/
def can_answer (s : StationSm) : Op → Bool
  | .on_rx .. => decide (s.tx_.length < kMaxTxQueue)
  | _ => true

/-- The end of a call that handed `e` over at `now_ms`. -/
structure Answered (s : StationSm) (e : Bytes) (now_ms : UInt32) (room : Bool) (t : StationSm) :
    Prop where
  sup : t.sup_ = (s.sup_.on_eapol e).sup
  still : t.last_tx_ms_ = s.last_tx_ms_ ∨
    ((s.sup_.on_eapol e).verdict = .Reply ∧ room = true ∧ t.last_tx_ms_ = now_ms ∧
      (t.sup_.state_ = .Done → t.sup_.ptk_valid_ = true → t.state_ = .Connected))
  moved : (s.sup_.on_eapol e).verdict = .Reply → (s.sup_.on_eapol e).out.getD [] ≠ [] →
    room = true → t.last_tx_ms_ = now_ms ∧ (t.sup_.state_ ≠ .Done → t.state_ = .FourWay)

theorem reply_sent_times (s : StationSm) (progressed : Bool) (now_ms : UInt32)
    (hst : s.state_ = .FourWay) :
    (s.reply_sent progressed now_ms).sup_ = s.sup_ ∧
      (s.reply_sent progressed now_ms).last_tx_ms_ =
        (if progressed then now_ms else s.last_tx_ms_) ∧
      (s.reply_sent progressed now_ms).state_ =
        if s.sup_.state_ = .Done ∧ s.sup_.ptk_valid_ = true then .Connected else .FourWay := by
  unfold reply_sent promote_if_keyed
  cases progressed with
  | false =>
    by_cases hk : s.sup_.state_ = .Done ∧ s.sup_.ptk_valid_ = true
    · simp [bump, hst, hk]
    · simp [bump, hst, hk]
  | true =>
    by_cases hk : s.sup_.state_ = .Done ∧ s.sup_.ptk_valid_ = true
    · simp [bump, hst, hk]
    · simp [bump, hst, hk]

variable {s : StationSm}

theorem eapol_reply_four_way (e : Bytes) (hsec : s.security_ = .Wpa2Psk)
    (hst : s.state_ = .FourWay) :
    s.eapol_reply e =
      { sm := { s.bump .eapol_rx with sup_ := (s.sup_.on_eapol e).sup }
        reply := if (s.sup_.on_eapol e).verdict = .Reply ∨
          (s.sup_.on_eapol e).verdict = .Retransmit then (s.sup_.on_eapol e).out.getD [] else []
        progressed := decide ((s.sup_.on_eapol e).verdict = .Reply) } := by
  simp [eapol_reply, hsec, hst]

/-- Both paths end in `reply_sent` where the reply leaves, and leave the time alone where it does
not. -/
theorem answered_of_sent {e : Bytes} {now_ms : UInt32} {room : Bool} {t u : StationSm}
    (hu : u.sup_ = (s.sup_.on_eapol e).sup) (hust : u.state_ = .FourWay)
    (hulast : u.last_tx_ms_ = s.last_tx_ms_) (reply : Bytes)
    (hreply : (s.sup_.on_eapol e).verdict = .Reply → reply = (s.sup_.on_eapol e).out.getD [])
    (ht : t = if reply ≠ [] ∧ room = true then
      u.reply_sent (decide ((s.sup_.on_eapol e).verdict = .Reply)) now_ms else u) :
    Answered s e now_ms room t := by
  obtain ⟨hsup, hlast, hstate⟩ := reply_sent_times u
    (decide ((s.sup_.on_eapol e).verdict = .Reply)) now_ms hust
  by_cases hleft : reply ≠ [] ∧ room = true
  · rw [if_pos hleft] at ht
    subst ht
    refine ⟨hsup.trans hu, ?_, ?_⟩
    · by_cases hv : (s.sup_.on_eapol e).verdict = .Reply
      · right
        refine ⟨hv, hleft.2, by rw [hlast, if_pos (by simp [hv])], ?_⟩
        intro hdone hptk
        rw [hsup] at hdone hptk
        rw [hstate, if_pos ⟨hdone, hptk⟩]
      · left
        rw [hlast, if_neg (by simp [hv]), hulast]
    · intro hv _ _
      refine ⟨by rw [hlast, if_pos (by simp [hv])], ?_⟩
      intro hdone
      rw [hsup] at hdone
      rw [hstate, if_neg (fun h => hdone h.1)]
  · rw [if_neg hleft] at ht
    subst ht
    refine ⟨hu, .inl hulast, ?_⟩
    intro hv hne hroom
    exact absurd ⟨by rw [hreply hv]; exact hne, hroom⟩ hleft

theorem answered_on_eapol (e : Bytes) (now_ms : UInt32) (hsec : s.security_ = .Wpa2Psk)
    (hst : s.state_ = .FourWay) :
    Answered s e now_ms (decide (s.tx_.length < kMaxTxQueue)) (s.on_eapol e now_ms) := by
  have hr := eapol_reply_four_way e hsec hst
  generalize hrep : s.eapol_reply e = r at hr
  have hrsup : r.sm.sup_ = (s.sup_.on_eapol e).sup := by rw [hr]
  have hrst : r.sm.state_ = .FourWay := by rw [hr]; exact hst
  have hrlast : r.sm.last_tx_ms_ = s.last_tx_ms_ := by rw [hr]; rfl
  have hrtx : r.sm.tx_ = s.tx_ := by rw [hr]; rfl
  have hreply : (s.sup_.on_eapol e).verdict = .Reply →
      r.reply = (s.sup_.on_eapol e).out.getD [] := by
    intro hv
    rw [hr]
    exact if_pos (.inl hv)
  have hprog : r.progressed = decide ((s.sup_.on_eapol e).verdict = .Reply) := by rw [hr]
  have hqueue : (r.sm.next_seq.2.queue (r.sm.eapol_frame r.reply)).2 =
      decide (s.tx_.length < kMaxTxQueue) := by
    have htx : r.sm.next_seq.2.tx_ = s.tx_ := hrtx
    rw [queue, htx]
    by_cases hroom : s.tx_.length < kMaxTxQueue
    · rw [if_neg (Nat.not_le.mpr hroom), decide_eq_true hroom]
    · rw [if_pos (Nat.not_lt.mp hroom), decide_eq_false hroom]
  have hkept : (r.sm.next_seq.2.queue (r.sm.eapol_frame r.reply)).1.sup_ = r.sm.sup_ ∧
      (r.sm.next_seq.2.queue (r.sm.eapol_frame r.reply)).1.state_ = r.sm.state_ ∧
      (r.sm.next_seq.2.queue (r.sm.eapol_frame r.reply)).1.last_tx_ms_ = r.sm.last_tx_ms_ := by
    unfold queue
    split
    · exact ⟨rfl, rfl, rfl⟩
    · exact ⟨rfl, rfl, rfl⟩
  obtain ⟨hk1, hk2, hk3⟩ := hkept
  have heq : s.on_eapol e now_ms = if r.reply = [] then r.sm
      else if decide (s.tx_.length < kMaxTxQueue) = true then
        (r.sm.next_seq.2.queue (r.sm.eapol_frame r.reply)).1.reply_sent
          (decide ((s.sup_.on_eapol e).verdict = .Reply)) now_ms
      else (r.sm.next_seq.2.queue (r.sm.eapol_frame r.reply)).1 := by
    simp only [on_eapol, hrep, hprog, hqueue]
  rw [heq]
  by_cases hempty : r.reply = []
  · rw [if_pos hempty]
    apply answered_of_sent hrsup hrst hrlast r.reply hreply
    rw [if_neg (fun h => h.1 hempty)]
  · rw [if_neg hempty]
    apply answered_of_sent (hk1.trans hrsup) (hk2.trans hrst) (hk3.trans hrlast) r.reply hreply
    by_cases hroom : decide (s.tx_.length < kMaxTxQueue) = true
    · rw [if_pos hroom, if_pos ⟨hempty, hroom⟩]
    · rw [if_neg hroom, if_neg (fun h => hroom h.2)]

theorem answered_on_decrypted {msdu : Bytes} (now_ms : UInt32) (hsec : s.security_ = .Wpa2Psk)
    (hst : s.state_ = .FourWay) (hkey : eapol_key_msdu msdu = true) (houi : zero_oui msdu = true) :
    Answered s (msdu.drop kLlcSnapLen) now_ms true (s.on_decrypted_msdu msdu now_ms).1 := by
  have hr := eapol_reply_four_way (s := { s with last_heard_ms_ := now_ms })
    (msdu.drop kLlcSnapLen) hsec hst
  generalize hrep : ({ s with last_heard_ms_ := now_ms } : StationSm).eapol_reply
    (msdu.drop kLlcSnapLen) = r at hr
  have heq : (s.on_decrypted_msdu msdu now_ms).1 = if r.reply ≠ [] ∧ true = true then
      r.sm.reply_sent (decide ((s.sup_.on_eapol (msdu.drop kLlcSnapLen)).verdict = .Reply)) now_ms
      else r.sm := by
    have hprog : r.progressed =
        decide ((s.sup_.on_eapol (msdu.drop kLlcSnapLen)).verdict = .Reply) := by rw [hr]
    rw [on_decrypted_key hkey houi, hrep, hprog]
    by_cases hempty : r.reply = []
    · simp [hempty]
    · simp [hempty]
  apply answered_of_sent (u := r.sm) (by rw [hr]) (by rw [hr]; exact hst) (by rw [hr]; rfl) r.reply
    _ heq
  intro hv
  rw [hr]
  exact if_pos (.inl hv)

/-- A data frame with no packet for the supplicant moves neither it nor the deadline. -/
theorem on_data_hands_nothing {frame : Bytes} (now_ms : UInt32) (hwhole : 24 ≤ frame.length)
    (hlive : s.state_ ≠ .Idle ∧ s.state_ ≠ .Failed) (hfrom : addr2 frame = s.bssid_)
    (hnone : s.rx_eapol_key frame = none) :
    (s.on_data frame (decide (addr1 frame = s.own_)) now_ms).sup_ = s.sup_ ∧
      (s.on_data frame (decide (addr1 frame = s.own_)) now_ms).last_tx_ms_ = s.last_tx_ms_ := by
  unfold on_data
  dsimp only
  split
  · exact ⟨rfl, rfl⟩
  rename_i hkind
  split
  · exact ⟨rfl, rfl⟩
  rename_i hds
  obtain ⟨l, hl⟩ : ∃ l, (if decide (addr1 frame = s.own_) = true ∧ frame.length ≥ data_hdr_len
      (byteAt frame 0) (byteAt frame 1) then { s with last_heard_ms_ := now_ms } else s) =
        { s with last_heard_ms_ := l } := by
    split
    · exact ⟨_, rfl⟩
    · exact ⟨s.last_heard_ms_, rfl⟩
  rw [hl]
  split
  · exact ⟨rfl, rfl⟩
  rename_i hbody
  split
  · exact ⟨rfl, rfl⟩
  rename_i hclear
  split
  · exact ⟨rfl, rfl⟩
  rename_i e he
  -- a packet that passes every test is one that `rx_eapol_key` finds
  exfalso
  rw [cleartext_eapol_eq] at he
  cases hkey : eapol_key_in frame (decide (addr1 frame = s.own_)) with
  | error t =>
    rw [hkey] at he
    cases he
  | ok e' =>
    have hto := to_us_of_eapol_key hkey
    rw [hto] at hkey
    have hdata : ClearData s frame :=
      { whole := hwhole
        live := hlive
        from_bss := hfrom
        to_us := of_decide_eq_true hto
        kind := by
          by_cases h : byteAt frame 0 = kFcData
          · exact .inl h
          · exact .inr (by simpa [h] using hkind)
        from_ds := by simpa [not_or] using hds
        has_body := not_not.mp hbody
        clear := not_not.mp hclear }
    rw [rx_eapol_key, if_pos hdata, hkey] at hnone
    cases hnone

/-- A frame with no packet for the supplicant moves neither it nor the deadline, unless it ends the
association. -/
theorem on_rx_hands_nothing {frame : Bytes} (now_ms : UInt32) (hst : s.state_ = .FourWay)
    (hnone : s.rx_eapol_key frame = none) (hstay : (s.on_rx frame now_ms).state_ = .FourWay) :
    (s.on_rx frame now_ms).sup_ = s.sup_ ∧
      (s.on_rx frame now_ms).last_tx_ms_ = s.last_tx_ms_ := by
  revert hstay
  unfold on_rx
  split
  · exact fun _ => ⟨rfl, rfl⟩
  rename_i hwhole
  split
  · exact fun _ => ⟨rfl, rfl⟩
  rename_i hlive
  split
  · exact fun _ => ⟨rfl, rfl⟩
  rename_i hfrom
  dsimp only
  split
  · exact fun _ => ⟨rfl, rfl⟩
  unfold on_our_frame
  dsimp only
  split
  · split
    · exact fun _ => ⟨rfl, rfl⟩
    · exact fun _ => ⟨rfl, rfl⟩
  split
  · split
    · simp [on_auth, hst]
    · exact fun _ => ⟨rfl, rfl⟩
  split
  · split
    · simp [on_assoc_resp, hst, bump]
    · exact fun _ => ⟨rfl, rfl⟩
  split
  · exact fun _ => ⟨rfl, rfl⟩
  split
  · split
    · exact fun _ => ⟨rfl, rfl⟩
    · exact fun hstay => by simp [fail] at hstay
  intro _
  exact on_data_hands_nothing now_ms (Nat.not_lt.mp hwhole) (not_or.mp hlive)
    (not_not.mp hfrom) hnone

/-- A call that hands nothing over leaves the supplicant and the deadline, or ends the
handshake. -/
theorem step_hands_nothing {op : Op} (hst : s.state_ = .FourWay) (hop : s.handed op = none)
    (hstay : (s.step op).state_ = .FourWay) :
    (s.step op).sup_ = s.sup_ ∧ (s.step op).last_tx_ms_ = s.last_tx_ms_ := by
  cases op with
  | configure crypto ssid psk own =>
    simp [step, configure, drop_association_keys, hst] at hstay
  | configure_open ssid own => simp [step, configure_open, drop_association_keys, hst] at hstay
  | join bss snonce now_ms =>
    exfalso
    obtain ⟨rsn, ⟨why, hj⟩ | ⟨-, n, hj⟩⟩ := join_effect s bss snonce now_ms
    · rw [step, hj] at hstay
      simp [fail] at hstay
    · rw [step, hj] at hstay
      have hcore := core_send_auth (({ s with ap_rsn_ := rsn } : StationSm).begin_join bss n now_ms)
        now_ms
      simp only [core, Prod.mk.injEq] at hcore
      rw [hcore.2.2.2.2.1] at hstay
      simp [begin_join] at hstay
  | leave reason =>
    simp [step, leave, hst] at hstay
  | on_rx frame now_ms =>
    cases hkey : s.rx_eapol_key frame with
    | none => exact on_rx_hands_nothing now_ms hst hkey hstay
    | some e =>
      have hdenied : s.cleartext_eapol_allowed e = false := by simpa [handed, hkey] using hop
      rw [step, on_rx_eapol_key hkey, hdenied]
      exact ⟨rfl, rfl⟩
  | on_decrypted_msdu msdu now_ms =>
    have hother : ¬(eapol_key_msdu msdu = true ∧ zero_oui msdu = true) := by
      simpa [handed] using hop
    obtain ⟨l, hl⟩ := on_decrypted_other s now_ms hother
    rw [step, hl]
    exact ⟨rfl, rfl⟩
  | tick now_ms =>
    by_cases hlate : now_ms - s.last_tx_ms_ ≥ kHandshakeTimeoutMs
    · simp [step, tick, hst, hlate, fail] at hstay
    · simp [step, tick, hst, hlate]
  | link_lost => simp [step, link_lost, hst]
  | pop_tx out =>
    simp only [step, pop_tx]
    split
    · exact ⟨rfl, rfl⟩
    · exact ⟨rfl, rfl⟩

/-- A call that hands a packet over. -/
theorem step_answers {op : Op} {e : Bytes} {now_ms : UInt32} (hsec : s.security_ = .Wpa2Psk)
    (hst : s.state_ = .FourWay) (hop : s.handed op = some (e, now_ms)) :
    Answered s e now_ms (s.can_answer op) (s.step op) := by
  cases op with
  | on_rx frame now_ms' =>
    cases hkey : s.rx_eapol_key frame with
    | none => simp [handed, hkey] at hop
    | some e' =>
      by_cases hallowed : s.cleartext_eapol_allowed e' = true
      · simp only [handed, hkey, Option.filter_some, hallowed, if_true, Option.map_some,
          Option.some.injEq, Prod.mk.injEq] at hop
        obtain ⟨rfl, rfl⟩ := hop
        have h := answered_on_eapol (s := { s with last_heard_ms_ := now_ms' }) e' now_ms' hsec hst
        rw [step, on_rx_eapol_key hkey, if_pos hallowed]
        exact ⟨h.sup, h.still, h.moved⟩
      · simp [handed, hkey, Option.filter_some, hallowed] at hop
  | on_decrypted_msdu msdu now_ms' =>
    by_cases hboth : eapol_key_msdu msdu = true ∧ zero_oui msdu = true
    · simp only [handed, hboth, Bool.and_self, if_true, Option.some.injEq, Prod.mk.injEq] at hop
      obtain ⟨rfl, rfl⟩ := hop
      exact answered_on_decrypted now_ms' hsec hst hboth.1 hboth.2
    · simp [handed, hboth] at hop
  | _ => cases hop

/-! ## A message 1 that is new -/

/-- A message 1 that is answered afresh: not the exact repeat, counter and ANonce, of the one that
was answered last, and our own crypto does not fail on it. -/
def fresh_msg1 (p : Supplicant) (e : Bytes) : Bool :=
  match p.crypto_, parse_eapol_key e with
  | some crypto, some k =>
    decide (k.version = kKeyDescVersionCcmp) && !k.request &&
      decide (k.key_data_len ≤ Supplicant.kMaxKeyData) &&
      decide (Supplicant.classify k = .Msg1) && !p.is_repeated_msg1 k &&
      (derive_ptk crypto p.pmk_ p.bssid_ p.own_ k.nonce p.snonce_).any
        fun ptk => !(Supplicant.build_msg2 crypto p.snonce_ ptk k.replay).isEmpty
  | _, _ => false

/-- What `on_eapol` does with a message 1 before any key is installed. -/
theorem on_eapol_msg1 {p : Supplicant} {e : Bytes} {crypto : CryptoOps} {k : EapolKey}
    (hlive : p.state_ ≠ .Idle) (hreplay : p.rx_replay_set_ = false)
    (hcrypto : p.crypto_ = some crypto) (hparse : parse_eapol_key e = some k)
    (hkind : Supplicant.classify k = .Msg1) :
    p.on_eapol e =
      if k.version ≠ kKeyDescVersionCcmp then p.note .Malformed
      else if k.request then p.note .Malformed
      else if k.key_data_len > Supplicant.kMaxKeyData then p.note .Malformed
      else if p.is_repeated_msg1 k then p.resend p.m1_reply_
      else p.on_msg1 crypto k := by
  simp [Supplicant.on_eapol, Supplicant.on_key, hlive, hreplay, hcrypto, hparse, hkind]

/-- What it does with a new one. -/
theorem on_eapol_fresh {p : Supplicant} {e : Bytes} (hlive : p.state_ ≠ .Idle)
    (hreplay : p.rx_replay_set_ = false) (h : fresh_msg1 p e = true) :
    ∃ k ptk reply, reply ≠ [] ∧ p.on_eapol e =
      { sup := p.accept_msg1 k ptk reply, verdict := .Reply, out := some reply } := by
  unfold fresh_msg1 at h
  split at h
  · rename_i crypto k hcrypto hparse
    simp only [Bool.and_eq_true, Bool.not_eq_true', decide_eq_true_eq, Option.any_eq_true] at h
    obtain ⟨⟨⟨⟨⟨hversion, hrequest⟩, hlen⟩, hkind⟩, hnew⟩, ptk, hptk, hreply⟩ := h
    have hne : Supplicant.build_msg2 crypto p.snonce_ ptk k.replay ≠ [] := by simpa using hreply
    refine ⟨k, ptk, _, hne, ?_⟩
    rw [on_eapol_msg1 hlive hreplay hcrypto hparse hkind, if_neg (not_not.mpr hversion),
      if_neg (by simp [hrequest]), if_neg (by omega), if_neg (by simp [hnew]),
      Supplicant.on_msg1, hptk]
    dsimp only
    rw [if_neg hne]
    rfl
  · cases h

/-- While the supplicant waits for message 3, an answer that leaves it waiting is one to a message 1
that is new. -/
theorem fresh_of_reply {p : Supplicant} {e : Bytes} (hlive : p.state_ ≠ .Idle)
    (hreplay : p.rx_replay_set_ = false) (hv : (p.on_eapol e).verdict = .Reply)
    (hdone : (p.on_eapol e).sup.state_ ≠ .Done) : fresh_msg1 p e = true := by
  have he := Supplicant.on_eapol_effect p e
  generalize hr : p.on_eapol e = r at he hv hdone
  cases he with
  | quiet _ hne => exact absurd hv hne
  | msg3 _ _ _ _ =>
    rw [Supplicant.install_msg3_eq] at hdone
    exact absurd rfl hdone
  | group1 _ _ checked =>
    rw [Supplicant.install_group1_eq] at hdone
    exact absurd (Supplicant.check_group1_ok checked).1 hdone
  | @msg1 crypto k ptk reply pass kind derived hne =>
    rw [on_eapol_msg1 hlive hreplay pass.crypto_eq pass.parsed kind] at hr
    have hverdict := congrArg Supplicant.Outcome.verdict hr
    by_cases hlen : k.key_data_len > Supplicant.kMaxKeyData
    · simp [pass.version, pass.not_request, hlen, Supplicant.note] at hverdict
    · by_cases hnew : p.is_repeated_msg1 k = true
      · simp [pass.version, pass.not_request, hlen, hnew, Supplicant.resend] at hverdict
      · by_cases hbuilt : Supplicant.build_msg2 crypto p.snonce_ ptk k.replay = []
        · simp [pass.version, pass.not_request, hlen, hnew, Supplicant.on_msg1, derived, hbuilt,
            Supplicant.note] at hverdict
        · have hle : k.key_data_len ≤ Supplicant.kMaxKeyData := Nat.not_lt.mp hlen
          simp [fresh_msg1, pass.crypto_eq, pass.parsed, pass.version, pass.not_request, hle, kind,
            hnew, derived, hbuilt]

/-! ## The law of the deadline -/

/-- The handshake of the supplicant moves on. -/
def Advances (p q : Supplicant) : Prop :=
  (p.state_ = .WaitMsg1 ∧ q.state_ = .WaitMsg3) ∨ (p.state_ = .WaitMsg3 ∧ q.state_ = .Done)

/-- Within the four-way handshake the deadline moves only with the supplicant. -/
def KeepsDeadline (s : StationSm) (op : Op) : Prop :=
  s.state_ = .FourWay → (s.step op).state_ = .FourWay →
    (s.step op).last_tx_ms_ ≠ s.last_tx_ms_ → Advances s.sup_ (s.step op).sup_

instance (p q : Supplicant) : Decidable (Advances p q) :=
  inferInstanceAs (Decidable ((p.state_ = .WaitMsg1 ∧ q.state_ = .WaitMsg3) ∨
    (p.state_ = .WaitMsg3 ∧ q.state_ = .Done)))

instance (s : StationSm) (op : Op) : Decidable (KeepsDeadline s op) :=
  inferInstanceAs (Decidable (s.state_ = .FourWay → (s.step op).state_ = .FourWay →
    (s.step op).last_tx_ms_ ≠ s.last_tx_ms_ → Advances s.sup_ (s.step op).sup_))

/-- The call answers a new message 1 while the station waits for message 3. -/
def Renews (s : StationSm) (op : Op) : Prop :=
  s.state_ = .FourWay ∧ s.sup_.state_ = .WaitMsg3 ∧ s.can_answer op = true ∧
    ∃ e now_ms, s.handed op = some (e, now_ms) ∧ fresh_msg1 s.sup_ e = true ∧
      now_ms ≠ s.last_tx_ms_

theorem replay_not_set {p : Supplicant} (hp : p.Good) (hw : p.state_ ≠ .Done) :
    p.rx_replay_set_ = false := by
  cases hr : p.rx_replay_set_ with
  | false => rfl
  | true => exact absurd (hp.done_replay.mpr hr) hw

theorem keepsDeadline_iff (h : Good s) (op : Op) : KeepsDeadline s op ↔ ¬ Renews s op := by
  constructor
  · rintro hkeep ⟨hst, hw, hroom, e, now_ms, hop, hfresh, hnow⟩
    have hsec := (h.four_way hst).1
    have hlive : s.sup_.state_ ≠ .Idle := (h.four_way hst).2
    have hreplay := replay_not_set h.sup_good (by simp [hw])
    obtain ⟨k, ptk, reply, hne, hout⟩ := on_eapol_fresh hlive hreplay hfresh
    have ha := step_answers hsec hst hop
    have hsup : (s.step op).sup_.state_ = .WaitMsg3 := by
      rw [ha.sup, hout, Supplicant.accept_msg1_eq]
      simp [hw]
    obtain ⟨hlast, hstay⟩ := ha.moved (by rw [hout]) (by rw [hout]; exact hne) hroom
    have hadv := hkeep hst (hstay (by simp [hsup])) (by rw [hlast]; exact hnow)
    rcases hadv with ⟨h1, -⟩ | ⟨-, h2⟩
    · rw [hw] at h1
      cases h1
    · rw [hsup] at h2
      cases h2
  · intro hnot hst hstay hmoved
    have hsec := (h.four_way hst).1
    have hlive : s.sup_.state_ ≠ .Idle := (h.four_way hst).2
    cases hop : s.handed op with
    | none => exact absurd (step_hands_nothing hst hop hstay).2 hmoved
    | some en =>
      obtain ⟨e, now_ms⟩ := en
      have ha := step_answers hsec hst hop
      rcases ha.still with hsame | ⟨hv, hroom, hlast, hconn⟩
      · exact absurd hsame hmoved
      · have hgood : (s.step op).sup_.Good := (good_step op h).sup_good
        -- a supplicant that is done has promoted the station
        have hdone : (s.step op).sup_.state_ ≠ .Done := by
          intro hd
          have hc := hconn hd (hgood.done_ptk.mp hd)
          rw [hstay] at hc
          cases hc
        have hwas : s.sup_.state_ ≠ .Done := by
          intro hd
          apply hdone
          rw [ha.sup]
          exact (sup_never_goes_back s.sup_ e).2 hd
        have hreplay := replay_not_set h.sup_good hwas
        have hdone' := hdone
        rw [ha.sup] at hdone'
        have hfresh := fresh_of_reply hlive hreplay hv hdone'
        cases hsup : s.sup_.state_ with
        | Idle => exact absurd hsup hlive
        | Done => exact absurd hsup hwas
        | WaitMsg3 =>
          exact absurd ⟨hst, hsup, hroom, e, now_ms, hop, hfresh, by rw [← hlast]; exact hmoved⟩
            hnot
        | WaitMsg1 =>
          left
          obtain ⟨k, ptk, reply, -, hout⟩ := on_eapol_fresh hlive hreplay hfresh
          refine ⟨hsup, ?_⟩
          rw [ha.sup, hout, Supplicant.accept_msg1_eq]
          simp [hsup]

/-! ## The law over a run -/

/-- The station is in the handshake and the supplicant is not done. -/
def Waiting (s : StationSm) : Prop := s.state_ = .FourWay ∧ s.sup_.state_ ≠ .Done

/-- The station has sent its first message 2. -/
def AnsweredMsg1 (s : StationSm) : Prop := s.state_ = .FourWay ∧ s.sup_.state_ = .WaitMsg3

/-- From the first message 2 on, as long as a run stays in the handshake without its end, the
deadline stands, and a tick that comes so late gives up. -/
def GivesUp (ops : List Op) : Prop :=
  ∀ before rest, ops = before ++ rest → AnsweredMsg1 (run before) →
    (∀ n, Waiting (run (before ++ rest.take n))) →
    (run ops).last_tx_ms_ = (run before).last_tx_ms_ ∧
      ∀ now_ms, now_ms - (run before).last_tx_ms_ ≥ kHandshakeTimeoutMs →
        ((run ops).step (.tick now_ms)).state_ = .Failed ∧
          ((run ops).step (.tick now_ms)).fail_ = .HandshakeTimeout

/-- A supplicant that waits for message 3 does so until it is done. -/
theorem step_waits_for_msg3 {op : Op} (h : Good s) (hs : AnsweredMsg1 s)
    (hnext : Waiting (s.step op)) : AnsweredMsg1 (s.step op) := by
  obtain ⟨hst, hw⟩ := hs
  obtain ⟨hstay, hdone⟩ := hnext
  refine ⟨hstay, ?_⟩
  cases hop : s.handed op with
  | none => rw [(step_hands_nothing hst hop hstay).1, hw]
  | some en =>
    obtain ⟨e, now_ms⟩ := en
    have ha := step_answers (h.four_way hst).1 hst hop
    rw [ha.sup] at hdone ⊢
    have he := Supplicant.on_eapol_effect s.sup_ e
    generalize s.sup_.on_eapol e = r at he hdone ⊢
    cases he with
    | quiet same _ => rw [same]; exact hw
    | msg1 _ _ _ _ =>
      rw [Supplicant.accept_msg1_eq]
      simp [hw]
    | msg3 _ _ _ _ =>
      rw [Supplicant.install_msg3_eq] at hdone
      exact absurd rfl hdone
    | group1 _ _ checked =>
      rw [Supplicant.install_group1_eq] at hdone
      exact absurd (Supplicant.check_group1_ok checked).1 hdone

/-- A step that keeps the deadline while the supplicant waits for message 3 before it and after. -/
theorem step_deadline_stands {op : Op} (hkeep : KeepsDeadline s op) (hs : AnsweredMsg1 s)
    (hnext : AnsweredMsg1 (s.step op)) : (s.step op).last_tx_ms_ = s.last_tx_ms_ := by
  by_contra hmoved
  rcases hkeep hs.1 hnext.1 hmoved with ⟨h1, -⟩ | ⟨-, h2⟩
  · rw [hs.2] at h1
    cases h1
  · rw [hnext.2] at h2
    cases h2

/-- The same from a start of its own, as the induction over the run needs it. -/
theorem deadline_stands (ops : List Op) (h : Good s) (hs : AnsweredMsg1 s)
    (hkeep : Runs.Along step KeepsDeadline s ops)
    (hwait : ∀ n, Waiting (Runs.after step s (ops.take n))) :
    AnsweredMsg1 (Runs.after step s ops) ∧
      (Runs.after step s ops).last_tx_ms_ = s.last_tx_ms_ := by
  induction ops generalizing s with
  | nil => exact ⟨hs, rfl⟩
  | cons op ops ih =>
    have hnext := step_waits_for_msg3 h hs (hwait 1)
    obtain ⟨hend, hlast⟩ := ih (good_step op h) hnext hkeep.2 fun n => hwait (n + 1)
    exact ⟨hend, hlast.trans (step_deadline_stands hkeep.1 hs hnext)⟩

theorem givesUp_of_keeps {ops : List Op} (hkeep : Runs.Along step KeepsDeadline {} ops) :
    GivesUp ops := by
  rintro before rest rfl hs hwait
  obtain ⟨-, hrest⟩ := (Runs.along_append step).mp hkeep
  have hwait' : ∀ n, Waiting (Runs.after step (run before) (rest.take n)) := by
    intro n
    have h := hwait n
    rwa [run, Runs.after_append] at h
  obtain ⟨⟨hst, -⟩, hlast⟩ := deadline_stands rest (good_run before) hs hrest hwait'
  rw [run, Runs.after_append]
  refine ⟨hlast, ?_⟩
  intro now_ms hlate
  have hlate' : now_ms - (Runs.after step (run before) rest).last_tx_ms_ ≥ kHandshakeTimeoutMs := by
    rw [hlast]
    exact hlate
  simp only [run] at hst hlate'
  simp [step, tick, hst, hlate', fail]

theorem waiting_of_one {before : List Op} {op : Op} (hs : AnsweredMsg1 (run before))
    (hnext : Waiting (run (before ++ [op]))) (n : ℕ) :
    Waiting (run (before ++ [op].take n)) := by
  cases n with
  | zero =>
    rw [List.take_zero, List.append_nil]
    exact ⟨hs.1, fun hd => by cases hs.2.symm.trans hd⟩
  | succ n =>
    rw [List.take_succ_cons, List.take_nil]
    exact hnext

/-- What holds the handshake open is a new message 1 that is answered while the station waits for
message 3, and nothing else. Where no call answers one, the handshake ends at its timeout. -/
theorem a_new_msg1_holds_the_handshake_open (ops : List Op) :
    (Runs.Along step KeepsDeadline {} ops ↔ Runs.Along step (fun s op => ¬ Renews s op) {} ops) ∧
      (Runs.Along step (fun s op => ¬ Renews s op) {} ops → GivesUp ops) := by
  have hiff : Runs.Along step KeepsDeadline {} ops ↔
      Runs.Along step (fun s op => ¬ Renews s op) {} ops :=
    Runs.along_congr step {} good_fresh (fun _ op h => keepsDeadline_iff h op)
      (fun _ op h _ => good_step op h) ops
  exact ⟨hiff, fun h => givesUp_of_keeps (hiff.mpr h)⟩

/-- Message 1 again, octet for octet. -/
def demoRepeat : Op := .on_rx (apEapol demoJoined (demoJoined.msg1 Supplicant.demoAnonce 1)) 2900

/-- The station resends its answer and still gives up 3000 ms after the first one. -/
theorem an_exact_repeat_leaves_the_deadline :
    ((run (demoHandshake ++ [demoRepeat])).step (.tick 3030)).state_ = .Failed := by
  have hkeep : Runs.Along step KeepsDeadline {} (demoHandshake ++ [demoRepeat]) := by
    decide +kernel
  have hlaw := a_new_msg1_holds_the_handshake_open (demoHandshake ++ [demoRepeat])
  have hs : AnsweredMsg1 (run demoHandshake) := ⟨by decide +kernel, by decide +kernel⟩
  have hnext : Waiting (run (demoHandshake ++ [demoRepeat])) :=
    ⟨by decide +kernel, by decide +kernel⟩
  have hlate : (3030 : UInt32) - (run demoHandshake).last_tx_ms_ ≥ kHandshakeTimeoutMs := by
    decide +kernel
  apply ((hlaw.2 (hlaw.1.mp hkeep) demoHandshake [demoRepeat] rfl hs _).2 3030 hlate).1
  exact waiting_of_one hs hnext

/-! ## An authenticator that counts its retransmissions -/

/-- Message 1 again, with the next counter and the same ANonce. -/
def demoAgain : Op := .on_rx (apEapol demoJoined (demoJoined.msg1 Supplicant.demoAnonce 2)) 2900

/-- It is answered as a new one: a tick 3000 ms after the first message 2 does not give up. -/
theorem a_counted_msg1_pushes_the_deadline :
    ¬ ∀ ops, Runs.Along step KeepsDeadline {} ops ∧ GivesUp ops := by
  intro h
  have hgive := (h (demoHandshake ++ [demoAgain])).2 demoHandshake [demoAgain] rfl
  have hs : AnsweredMsg1 (run demoHandshake) :=
    ⟨by decide +kernel, by decide +kernel⟩
  have hnext : Waiting (run (demoHandshake ++ [demoAgain])) :=
    ⟨by decide +kernel, by decide +kernel⟩
  have hopen : ((run (demoHandshake ++ [demoAgain])).step (.tick 3030)).state_ = .FourWay := by
    decide +kernel
  have hlate : (3030 : UInt32) - (run demoHandshake).last_tx_ms_ ≥ kHandshakeTimeoutMs := by
    decide +kernel
  have hfailed := ((hgive hs (waiting_of_one hs hnext)).2 3030 hlate).1
  rw [hopen] at hfailed
  cases hfailed

end devourer.sta.StationSm
