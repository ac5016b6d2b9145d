-- What one call can do to the station, and the invariant that ties its keys
-- to its state.
import Devourer.Sta.StationSm
import Devourer.Sta.SupplicantReplay

namespace devourer.sta.StationSm

/-! ## The effect of an EAPOL frame -/

/-- The two machines differ at most in their counters and their two times. -/
def Quiet (s t : StationSm) : Prop :=
  t = { s with
    counters := t.counters
    last_tx_ms_ := t.last_tx_ms_
    last_heard_ms_ := t.last_heard_ms_ }

theorem bump_quiet (s : StationSm) (t : Tally) : Quiet s (s.bump t) := rfl

/-- The EAPOL packet `e` went to the supplicant. Nothing but the supplicant, the promotion
to `Connected` and the queue can move. -/
structure Handed (s : StationSm) (e : Bytes) (t : StationSm) : Prop where
  wpa2 : s.security_ = .Wpa2Psk
  associated : s.state_ = .FourWay ∨ s.state_ = .Connected
  sup : t.sup_ = (s.sup_.on_eapol e).sup
  state : t.state_ = s.state_ ∨ (t.state_ = .Connected ∧ t.sup_.state_ = .Done)
  tx : t.tx_ = s.tx_ ∨
    (s.tx_.length < kMaxTxQueue ∧ ∃ reply, t.tx_ = s.tx_ ++ [s.eapol_frame reply])
  rest : t = { s with
    sup_ := t.sup_
    state_ := t.state_
    tx_ := t.tx_
    seq_ := t.seq_
    counters := t.counters
    last_tx_ms_ := t.last_tx_ms_
    last_heard_ms_ := t.last_heard_ms_ }

/-- What `eapol_reply` gives when it asks the supplicant. -/
theorem eapol_reply_asks {s : StationSm} (e : Bytes) (hsec : s.security_ = .Wpa2Psk)
    (hst : s.state_ = .FourWay ∨ s.state_ = .Connected) :
    (s.eapol_reply e).sm = { s.bump .eapol_rx with sup_ := (s.sup_.on_eapol e).sup } := by
  unfold eapol_reply
  have hst' : ¬(s.state_ ≠ .FourWay ∧ s.state_ ≠ .Connected) := by
    rcases hst with h | h
    · exact fun hn => hn.1 h
    · exact fun hn => hn.2 h
  rw [if_neg (not_not.mpr hsec), if_neg hst']

/-- When it does not ask, it has no reply. -/
theorem eapol_reply_quiet {s : StationSm} (e : Bytes)
    (h : s.security_ ≠ .Wpa2Psk ∨ (s.state_ ≠ .FourWay ∧ s.state_ ≠ .Connected)) :
    Quiet s (s.eapol_reply e).sm ∧ (s.eapol_reply e).reply = [] := by
  unfold eapol_reply
  by_cases hsec : s.security_ ≠ .Wpa2Psk
  · rw [if_pos hsec]
    exact ⟨rfl, rfl⟩
  · rw [if_neg hsec]
    rcases h with h | h
    · exact absurd h hsec
    · rw [if_pos h]
      exact ⟨rfl, rfl⟩

/-- `reply_sent` moves the times, and the state when the supplicant is done. -/
theorem reply_sent_eq (s : StationSm) (progressed : Bool) (now_ms : UInt32) :
    ∃ c x h, s.reply_sent progressed now_ms =
        { s with counters := c, last_tx_ms_ := x, last_heard_ms_ := h } ∨
      (s.sup_.state_ = .Done ∧ s.reply_sent progressed now_ms =
        { s with state_ := .Connected, counters := c, last_tx_ms_ := x, last_heard_ms_ := h }) := by
  unfold reply_sent
  have hmid : ∃ c x, (if progressed then { s.bump .eapol_tx with last_tx_ms_ := now_ms }
      else s.bump .eapol_tx) = { s with counters := c, last_tx_ms_ := x } := by
    split
    · exact ⟨_, _, rfl⟩
    · exact ⟨_, s.last_tx_ms_, rfl⟩
  obtain ⟨c, x, hmid⟩ := hmid
  dsimp only
  rw [hmid]
  unfold promote_if_keyed
  split
  · rename_i hk
    exact ⟨c, x, now_ms, Or.inr ⟨hk.2.1, rfl⟩⟩
  · exact ⟨c, x, s.last_heard_ms_, Or.inl rfl⟩

/-- The state in which both EAPOL paths queue or hand out the reply. -/
theorem handed_reply_sent {s t : StationSm} {e : Bytes} (h : Handed s e t) (progressed : Bool)
    (now_ms : UInt32) : Handed s e (t.reply_sent progressed now_ms) := by
  have hrest := h.rest
  obtain ⟨c, x, l, hr | ⟨hdone, hr⟩⟩ := reply_sent_eq t progressed now_ms
  · rw [hr]
    refine ⟨h.wpa2, h.associated, h.sup, h.state, h.tx, ?_⟩
    rw [hrest]
  · rw [hr]
    refine ⟨h.wpa2, h.associated, h.sup, Or.inr ⟨rfl, hdone⟩, h.tx, ?_⟩
    rw [hrest]

theorem handed_eapol_reply {s : StationSm} (e : Bytes) (hsec : s.security_ = .Wpa2Psk)
    (hst : s.state_ = .FourWay ∨ s.state_ = .Connected) : Handed s e (s.eapol_reply e).sm := by
  rw [eapol_reply_asks e hsec hst]
  exact ⟨hsec, hst, rfl, Or.inl rfl, Or.inl rfl, rfl⟩

/-- A reply takes a number of the sequence, and a place in the queue if there is one. -/
theorem handed_queue {s t : StationSm} {e : Bytes} (h : Handed s e t) (htx : t.tx_ = s.tx_)
    {m reply : Bytes} (hm : m = s.eapol_frame reply) : Handed s e (t.next_seq.2.queue m).1 := by
  have hrest := h.rest
  unfold queue
  split
  · refine ⟨h.wpa2, h.associated, h.sup, h.state, h.tx, ?_⟩
    rw [hrest]
    rfl
  · rename_i hroom
    have hroom' : ¬ t.tx_.length ≥ kMaxTxQueue := hroom
    rw [htx] at hroom'
    refine ⟨h.wpa2, h.associated, h.sup, h.state, Or.inr ⟨Nat.not_le.mp hroom', reply, ?_⟩, ?_⟩
    · show t.tx_ ++ [m] = s.tx_ ++ [s.eapol_frame reply]
      rw [htx, hm]
    · rw [hrest]
      rfl

theorem on_eapol_effect (s : StationSm) (e : Bytes) (now_ms : UInt32) :
    Quiet s (s.on_eapol e now_ms) ∨ Handed s e (s.on_eapol e now_ms) := by
  unfold on_eapol
  by_cases hask : s.security_ = .Wpa2Psk ∧ (s.state_ = .FourWay ∨ s.state_ = .Connected)
  · have hsm := eapol_reply_asks e hask.1 hask.2
    have hh := handed_eapol_reply e hask.1 hask.2
    have htx : (s.eapol_reply e).sm.tx_ = s.tx_ := by
      rw [hsm]
      rfl
    have hframe : (s.eapol_reply e).sm.eapol_frame (s.eapol_reply e).reply =
        s.eapol_frame (s.eapol_reply e).reply := by
      rw [hsm]
      rfl
    have hqueue := handed_queue hh htx hframe
    dsimp only
    split
    · exact Or.inr hh
    · split
      · exact Or.inr (handed_reply_sent hqueue _ _)
      · exact Or.inr hqueue
  · have hq := eapol_reply_quiet (s := s) e (by
      by_cases hsec : s.security_ = .Wpa2Psk
      · refine Or.inr ⟨fun h => hask ⟨hsec, Or.inl h⟩, fun h => hask ⟨hsec, Or.inr h⟩⟩
      · exact Or.inl hsec)
    dsimp only
    rw [if_pos hq.2]
    exact Or.inl hq.1

theorem on_decrypted_msdu_effect (s : StationSm) (msdu : Bytes) (now_ms : UInt32) :
    Quiet s (s.on_decrypted_msdu msdu now_ms).1 ∨
      Handed s (msdu.drop kLlcSnapLen) (s.on_decrypted_msdu msdu now_ms).1 := by
  unfold on_decrypted_msdu
  split
  · exact Or.inl rfl
  dsimp only
  split
  · exact Or.inl rfl
  split
  · exact Or.inl rfl
  split
  · exact Or.inl rfl
  by_cases hask : s.security_ = .Wpa2Psk ∧ (s.state_ = .FourWay ∨ s.state_ = .Connected)
  · have hh := handed_eapol_reply (s := { s with last_heard_ms_ := now_ms })
      (msdu.drop kLlcSnapLen) hask.1 hask.2
    -- The new time is no part of what `Handed` speaks of.
    have hs : ∀ {t}, Handed { s with last_heard_ms_ := now_ms } (msdu.drop kLlcSnapLen) t →
        Handed s (msdu.drop kLlcSnapLen) t :=
      fun h => ⟨h.wpa2, h.associated, h.sup, h.state, h.tx, h.rest⟩
    split
    · exact Or.inr (hs hh)
    · exact Or.inr (hs (handed_reply_sent hh _ _))
  · have hq := eapol_reply_quiet (s := { s with last_heard_ms_ := now_ms })
      (msdu.drop kLlcSnapLen) (by
        by_cases hsec : s.security_ = .Wpa2Psk
        · refine Or.inr ⟨fun h => hask ⟨hsec, Or.inl h⟩, fun h => hask ⟨hsec, Or.inr h⟩⟩
        · exact Or.inl hsec)
    rw [if_pos hq.2]
    exact Or.inl hq.1

/-! ## The effect of a received frame -/

/-- An authentication response that the machine takes for success. -/
structure AuthAccepted (s : StationSm) (frame : Bytes) : Prop where
  state : s.state_ = .Authenticating
  from_bss : addr2 frame = s.bssid_
  to_us : addr1 frame = s.own_
  kind : byteAt frame 0 = kFcAuth
  fields : parse_auth frame = some ⟨0, 2, 0⟩

/-- The machine as `on_auth` calls `send_assoc`. -/
def auth_done (s : StationSm) : StationSm :=
  { s with authenticated_ := true, state_ := .Associating, tries_ := 0 }

/-- The machine after an accepted association response, before any key exchange. -/
def assoc_done (s : StationSm) (aid : UInt16) (now_ms : UInt32) (state : State) : StationSm :=
  { s with aid_ := aid, last_tx_ms_ := now_ms, last_heard_ms_ := now_ms, state_ := state }

/-- A deauthentication or disassociation from the BSSID. -/
structure Ends (s : StationSm) (frame : Bytes) : Prop where
  kind : byteAt frame 0 = kFcDeauth ∨ byteAt frame 0 = kFcDisassoc
  from_bss : addr2 frame = s.bssid_
  reason : (parse_reason frame).isSome

/-- What one received frame can do. -/
inductive RxEffect (s : StationSm) (frame : Bytes) (now_ms : UInt32) : StationSm → Prop
  | quiet {t : StationSm} (same : Quiet s t) : RxEffect s frame now_ms t
  | auth_refused (state : s.state_ = .Authenticating) (status : UInt16) :
      RxEffect s frame now_ms (s.fail .AuthRefused status)
  | auth_accepted (h : AuthAccepted s frame) :
      RxEffect s frame now_ms (s.auth_done.send_assoc now_ms)
  | assoc_refused (state : s.state_ = .Associating) (status : UInt16) :
      RxEffect s frame now_ms (s.fail .AssocRefused status)
  | assoc_open (state : s.state_ = .Associating) (sec : s.security_ = .Open) (aid : UInt16)
      (valid : aid ≠ 0) : RxEffect s frame now_ms (s.assoc_done aid now_ms .Connected)
  | assoc_wpa2 (state : s.state_ = .Associating) (sec : s.security_ = .Wpa2Psk) (aid : UInt16)
      (valid : aid ≠ 0) :
      RxEffect s frame now_ms (s.assoc_done aid now_ms .FourWay).start_four_way
  | ended (h : Ends s frame) (live : s.state_ ≠ .Idle ∧ s.state_ ≠ .Failed) (reason : UInt16) :
      RxEffect s frame now_ms { s.fail .Deauthenticated reason with authenticated_ := false }
  | eapol {t : StationSm} {e : Bytes} (allowed : s.cleartext_eapol_allowed e = true)
      (handed : Handed s e t) : RxEffect s frame now_ms t

theorem on_auth_effect {s : StationSm} {frame : Bytes} (now_ms : UInt32)
    (hfrom : addr2 frame = s.bssid_) (hto : addr1 frame = s.own_)
    (hkind : byteAt frame 0 = kFcAuth) : RxEffect s frame now_ms (s.on_auth frame now_ms) := by
  unfold on_auth
  split
  · exact .quiet rfl
  rename_i hstate
  have hstate' : s.state_ = .Authenticating := not_not.mp hstate
  split
  · exact .quiet (bump_quiet _ _)
  rename_i a ha
  split
  · exact .auth_refused hstate' _
  rename_i halg
  split
  · exact .quiet rfl
  rename_i hseq
  split
  · exact .auth_refused hstate' _
  rename_i hstatus
  refine .auth_accepted ⟨hstate', hfrom, hto, hkind, ?_⟩
  rw [ha]
  obtain ⟨alg, seq, status⟩ := a
  simp only [ne_eq, not_not] at halg hseq hstatus
  rw [halg, hseq, hstatus]

theorem on_assoc_resp_effect (s : StationSm) (frame : Bytes) (now_ms : UInt32) :
    RxEffect s frame now_ms (s.on_assoc_resp frame now_ms) := by
  unfold on_assoc_resp
  split
  · exact .quiet (bump_quiet _ _)
  rename_i hstate
  have hstate' : s.state_ = .Associating := not_not.mp hstate
  split
  · exact .quiet (bump_quiet _ _)
  rename_i r hr
  split
  · exact .assoc_refused hstate' _
  split
  · exact .assoc_refused hstate' _
  rename_i haid
  dsimp only
  split
  · exact .assoc_open hstate' ‹_› r.aid haid
  · rename_i hopen
    have hsec : s.security_ = .Wpa2Psk := by
      cases hs : s.security_ with
      | Open => exact absurd hs hopen
      | Wpa2Psk => rfl
    exact .assoc_wpa2 hstate' hsec r.aid haid

/-- What passes a test that can only refuse. -/
theorem ok_of_guard {ε α : Type*} {c : Prop} [Decidable c] {t : ε} {x : Except ε α} {e : α}
    (h : (if c then .error t else x) = .ok e) : ¬ c ∧ x = .ok e := by
  by_cases hc : c
  · rw [if_pos hc] at h
    cases h
  · rw [if_neg hc] at h
    exact ⟨hc, h⟩

theorem cleartext_eapol_ok {s : StationSm} {frame : Bytes} {to_us : Bool} {e : Bytes}
    (h : s.cleartext_eapol frame to_us = .ok e) : s.cleartext_eapol_allowed e = true := by
  unfold cleartext_eapol at h
  -- of the nine tests only the last is about what is allowed
  iterate 8 replace h := (ok_of_guard h).2
  obtain ⟨hallowed, heq⟩ := ok_of_guard h
  rw [← Except.ok.inj heq]
  simpa using hallowed

theorem on_data_effect (s : StationSm) (frame : Bytes) (to_us : Bool) (now_ms : UInt32) :
    RxEffect s frame now_ms (s.on_data frame to_us now_ms) := by
  unfold on_data
  dsimp only
  split
  · exact .quiet (bump_quiet _ _)
  split
  · exact .quiet (bump_quiet _ _)
  obtain ⟨l, hl⟩ : ∃ l, (if to_us = true ∧ frame.length ≥ data_hdr_len (byteAt frame 0)
      (byteAt frame 1) then { s with last_heard_ms_ := now_ms } else s) =
        { s with last_heard_ms_ := l } := by
    split
    · exact ⟨_, rfl⟩
    · exact ⟨s.last_heard_ms_, rfl⟩
  rw [hl]
  split
  · exact .quiet rfl
  split
  · exact .quiet rfl
  split
  · exact .quiet rfl
  rename_i e he
  have hallowed := cleartext_eapol_ok he
  rcases on_eapol_effect { s with last_heard_ms_ := l } e now_ms with hq | hh
  · exact .quiet hq
  · exact .eapol hallowed ⟨hh.wpa2, hh.associated, hh.sup, hh.state, hh.tx, hh.rest⟩

theorem on_rx_effect (s : StationSm) (frame : Bytes) (now_ms : UInt32) :
    RxEffect s frame now_ms (s.on_rx frame now_ms) := by
  unfold on_rx
  split
  · exact .quiet rfl
  split
  · exact .quiet rfl
  rename_i hlive
  rw [not_or] at hlive
  split
  · exact .quiet (bump_quiet _ _)
  rename_i hfrom
  have hfrom' : addr2 frame = s.bssid_ := not_not.mp hfrom
  dsimp only
  split
  · exact .quiet (bump_quiet _ _)
  unfold on_our_frame
  dsimp only
  split
  · split
    · exact .quiet (bump_quiet _ _)
    · exact .quiet rfl
  split
  · rename_i hkind
    split
    · rename_i hto
      exact on_auth_effect now_ms hfrom' (of_decide_eq_true hto) hkind
    · exact .quiet rfl
  split
  · split
    · exact on_assoc_resp_effect s frame now_ms
    · exact .quiet rfl
  split
  · exact .quiet (bump_quiet _ _)
  split
  · rename_i hkind
    split
    · exact .quiet (bump_quiet _ _)
    · rename_i reason hreason
      exact .ended ⟨hkind, hfrom', by rw [hreason]; rfl⟩ hlive reason
  · exact on_data_effect s frame _ now_ms

/-! ## The effect of the other calls -/

/-- A refused `join` fails, an accepted one begins and authenticates. The element that it
keeps for message 3 may be new in both. -/
theorem join_effect (s : StationSm) (bss : BssEntry) (snonce : Option (Octets 32))
    (now_ms : UInt32) :
    ∃ rsn, (∃ why, s.join bss snonce now_ms = ({ s with ap_rsn_ := rsn }.fail why 0, false)) ∨
      (s.configured_ = true ∧ ∃ n, s.join bss snonce now_ms =
        (({ s with ap_rsn_ := rsn }.begin_join bss n now_ms).send_auth now_ms, true)) := by
  generalize hr : s.join bss snonce now_ms = r
  unfold join at hr
  split at hr
  · exact ⟨s.ap_rsn_, Or.inl ⟨_, hr.symm⟩⟩
  rename_i hconf
  have hconf' : s.configured_ = true := by simpa using hconf
  split at hr
  · exact ⟨s.ap_rsn_, Or.inl ⟨_, hr.symm⟩⟩
  split at hr
  · exact ⟨s.ap_rsn_, Or.inl ⟨_, hr.symm⟩⟩
  split at hr
  · exact ⟨s.ap_rsn_, Or.inl ⟨_, hr.symm⟩⟩
  split at hr
  · split at hr
    · exact ⟨s.ap_rsn_, Or.inl ⟨_, hr.symm⟩⟩
    split at hr
    · exact ⟨s.ap_rsn_, Or.inl ⟨_, hr.symm⟩⟩
    dsimp only at hr
    split at hr
    · exact ⟨bss.info.rsn, Or.inl ⟨_, hr.symm⟩⟩
    · rename_i n
      exact ⟨bss.info.rsn, Or.inr ⟨hconf', n, hr.symm⟩⟩
  · split at hr
    · exact ⟨s.ap_rsn_, Or.inl ⟨_, hr.symm⟩⟩
    · exact ⟨s.ap_rsn_, Or.inr ⟨hconf', s.snonce_, hr.symm⟩⟩

/-- What `tick` can do: nothing, one more try, or the end. -/
theorem tick_effect (s : StationSm) (now_ms : UInt32) :
    s.tick now_ms = s ∨ (∃ why, s.tick now_ms = s.fail why 0) ∨
      (s.state_ = .Authenticating ∧ s.tries_ < kMaxTries ∧ s.tick now_ms = s.send_auth now_ms) ∨
      (s.state_ = .Associating ∧ s.tries_ < kMaxTries ∧ s.tick now_ms = s.send_assoc now_ms) := by
  unfold tick
  dsimp only
  split
  · rename_i hst
    split
    · exact Or.inl rfl
    split
    · exact Or.inr (Or.inl ⟨_, rfl⟩)
    · exact Or.inr (Or.inr (Or.inl ⟨hst, Nat.not_le.mp ‹_›, rfl⟩))
  · rename_i hst
    split
    · exact Or.inl rfl
    split
    · exact Or.inr (Or.inl ⟨_, rfl⟩)
    · exact Or.inr (Or.inr (Or.inr ⟨hst, Nat.not_le.mp ‹_›, rfl⟩))
  · split
    · exact Or.inr (Or.inl ⟨_, rfl⟩)
    · exact Or.inl rfl
  · split
    · exact Or.inr (Or.inl ⟨_, rfl⟩)
    · exact Or.inl rfl
  · exact Or.inl rfl
  · exact Or.inl rfl

/-! ## The invariant -/

/-- What holds between any two calls: the supplicant's own invariant, and how its state,
the configuration and the association id go with the state of the station. -/
structure Good (s : StationSm) : Prop where
  sup_good : s.sup_.Good
  crypto : s.configured_ = true → s.security_ = .Wpa2Psk → s.crypto_.isSome
  configured : s.state_ ≠ .Idle → s.state_ ≠ .Failed → s.configured_ = true
  bare : s.state_ ≠ .FourWay → s.state_ ≠ .Connected → s.sup_.state_ = .Idle
  four_way : s.state_ = .FourWay → s.security_ = .Wpa2Psk ∧ s.sup_.state_ ≠ .Idle
  keyed : s.state_ = .Connected → s.security_ = .Open ∨ s.sup_.state_ = .Done
  aid : s.aid_ ≠ 0 ↔ s.state_ = .FourWay ∨ s.state_ = .Connected

/-- The fields that the invariant speaks of. -/
def core (s : StationSm) : Supplicant × Option CryptoOps × Security × Bool × State × UInt16 :=
  (s.sup_, s.crypto_, s.security_, s.configured_, s.state_, s.aid_)

theorem good_of_core {s t : StationSm} (h : t.core = s.core) (hs : Good s) : Good t := by
  simp only [core, Prod.mk.injEq] at h
  obtain ⟨h1, h2, h3, h4, h5, h6⟩ := h
  obtain ⟨g1, g2, g3, g4, g5, g6, g7⟩ := hs
  rw [← h1, ← h5] at g4
  rw [← h1, ← h3, ← h5] at g5 g6
  rw [← h1] at g1
  rw [← h2, ← h3, ← h4] at g2
  rw [← h4, ← h5] at g3
  rw [← h5, ← h6] at g7
  exact ⟨g1, g2, g3, g4, g5, g6, g7⟩

theorem core_quiet {s t : StationSm} (h : Quiet s t) : t.core = s.core := by
  rw [h]
  rfl

theorem core_queue (s : StationSm) (m : Bytes) : (s.queue m).1.core = s.core := by
  unfold queue
  split
  · rfl
  · rfl

theorem core_queue_deauth (s : StationSm) (reason : UInt16) :
    (s.queue_deauth reason).core = s.core := core_queue _ _

theorem core_send_auth (s : StationSm) (now_ms : UInt32) : (s.send_auth now_ms).core = s.core := by
  unfold send_auth
  have hq := core_queue s.next_seq.2 s.auth_request
  dsimp only
  split
  · exact hq
  · exact hq

theorem good_fresh : Good {} := by
  refine ⟨Supplicant.good_fresh, ?_, ?_, ?_, ?_, ?_, ?_⟩
  all_goals simp

theorem good_fail {s : StationSm} (why : Failure) (status : UInt16) (h : Good s) :
    Good (s.fail why status) := by
  refine ⟨Supplicant.good_forget _, h.crypto, ?_, fun _ _ => rfl, ?_, ?_, ?_⟩
  all_goals simp [fail]

theorem good_send_assoc {s : StationSm} (now_ms : UInt32) (h : Good s) :
    Good (s.send_assoc now_ms) := by
  unfold send_assoc
  split
  · exact good_fail _ _ h
  · have hq := core_queue s.next_seq.2 (assign_seq s.assoc_request s.next_seq.1)
    dsimp only
    split
    · exact good_of_core (by exact hq) h
    · exact good_of_core (by exact hq) h

/-- Both ways to configure: what `drop_association_keys` leaves, with any configuration
that has its crypto. -/
theorem good_dropped {s : StationSm} (hc : s.security_ = .Wpa2Psk → s.crypto_.isSome) :
    Good { s.drop_association_keys with configured_ := true } := by
  have hst : s.drop_association_keys.state_ = .Failed ∨ s.drop_association_keys.state_ = .Idle := by
    simp only [drop_association_keys]
    split
    · exact Or.inl rfl
    · exact Or.inr rfl
  refine ⟨Supplicant.good_forget _, fun _ => hc, fun _ _ => rfl, fun _ _ => rfl, ?_, ?_, ?_⟩
  · rcases hst with h | h <;> simp [h]
  · rcases hst with h | h <;> simp [h]
  · have haid : s.drop_association_keys.aid_ = 0 := rfl
    rcases hst with h | h <;> simp [h, haid]

theorem core_farewell (s : StationSm) : s.farewell.core = s.core := by
  unfold farewell
  dsimp only
  split
  · exact core_queue_deauth _ _
  · rfl

theorem good_begin_join {s : StationSm} (bss : BssEntry) (n : Octets 32) (now_ms : UInt32)
    (h : Good s) (hconf : s.configured_ = true) : Good (s.begin_join bss n now_ms) := by
  have hf := good_of_core (core_farewell s) h
  have hcore := core_farewell s
  simp only [core, Prod.mk.injEq] at hcore
  obtain ⟨-, -, -, hc, -, -⟩ := hcore
  refine ⟨Supplicant.good_forget _, hf.crypto, ?_, fun _ _ => rfl, ?_, ?_, ?_⟩
  · intro _ _
    exact hc.trans hconf
  · simp [begin_join]
  · simp [begin_join]
  · simp [begin_join]

theorem good_leave {s : StationSm} (reason : UInt16) (h : Good s) : Good (s.leave reason) := by
  unfold leave
  split
  · exact h
  · dsimp only
    have hg : Good (if s.authenticated_ = true then { s with tx_ := [] }.queue_deauth reason
        else { s with tx_ := [] }) := by
      split
      · exact good_of_core (s := s) (core_queue_deauth { s with tx_ := [] } reason) h
      · exact good_of_core (s := s) rfl h
    refine ⟨Supplicant.good_forget _, hg.crypto, ?_, fun _ _ => rfl, ?_, ?_, ?_⟩
    all_goals simp

theorem good_start_four_way {s : StationSm} (aid : UInt16) (now_ms : UInt32) (h : Good s)
    (hst : s.state_ = .Associating) (hsec : s.security_ = .Wpa2Psk) (haid : aid ≠ 0) :
    Good (s.assoc_done aid now_ms .FourWay).start_four_way := by
  have hconf := h.configured (by simp [hst]) (by simp [hst])
  obtain ⟨crypto, hc⟩ := Option.isSome_iff_exists.mp (h.crypto hconf hsec)
  have hstart : (s.assoc_done aid now_ms .FourWay).start_four_way =
      { s.assoc_done aid now_ms .FourWay with
        sup_ := s.sup_.start crypto s.pmk_ s.own_ s.bssid_ s.snonce_ (some s.ap_rsn_) } := by
    unfold start_four_way
    have hc' : (s.assoc_done aid now_ms .FourWay).crypto_ = some crypto := hc
    split
    · rename_i hnone
      rw [hc'] at hnone
      cases hnone
    · rename_i c hsome
      rw [hc', Option.some.injEq] at hsome
      rw [hsome]
      rfl
  rw [hstart]
  refine ⟨Supplicant.good_start _ _ _ _ _ _ _, h.crypto, fun _ _ => hconf, ?_, ?_, ?_, ?_⟩
  · simp [assoc_done]
  · intro _
    exact ⟨hsec, by simp [Supplicant.start]⟩
  · simp [assoc_done]
  · simp [assoc_done, haid]

theorem good_assoc_open {s : StationSm} (aid : UInt16) (now_ms : UInt32) (h : Good s)
    (hst : s.state_ = .Associating) (hsec : s.security_ = .Open) (haid : aid ≠ 0) :
    Good (s.assoc_done aid now_ms .Connected) := by
  have hconf := h.configured (by simp [hst]) (by simp [hst])
  refine ⟨h.sup_good, h.crypto, fun _ _ => hconf, ?_, ?_, fun _ => Or.inl hsec, ?_⟩
  all_goals simp [assoc_done, haid]

theorem good_auth_done {s : StationSm} (h : Good s) (hst : s.state_ = .Authenticating) :
    Good s.auth_done := by
  have hconf := h.configured (by simp [hst]) (by simp [hst])
  have hbare := h.bare (by simp [hst]) (by simp [hst])
  have haid : s.aid_ = 0 := by
    by_contra hne
    rcases h.aid.mp hne with h1 | h1
    · rw [hst] at h1; cases h1
    · rw [hst] at h1; cases h1
  refine ⟨h.sup_good, h.crypto, fun _ _ => hconf, fun _ _ => hbare, ?_, ?_, ?_⟩
  all_goals simp [auth_done, haid]

/-- No frame takes the supplicant back: it stays started, and it stays done. -/
theorem sup_never_goes_back (p : Supplicant) (e : Bytes) :
    (p.state_ ≠ .Idle → (p.on_eapol e).sup.state_ ≠ .Idle) ∧
      (p.state_ = .Done → (p.on_eapol e).sup.state_ = .Done) := by
  have he := Supplicant.on_eapol_effect p e
  generalize p.on_eapol e = r at he ⊢
  cases he with
  | quiet same _ => rw [same]; exact ⟨id, id⟩
  | msg1 _ _ _ _ =>
    rw [Supplicant.accept_msg1_eq]
    dsimp only
    split
    · rename_i hw
      simp [hw]
    · exact ⟨id, id⟩
  | msg3 _ _ _ _ => rw [Supplicant.install_msg3_eq]; simp
  | group1 _ _ _ => rw [Supplicant.install_group1_eq]; exact ⟨id, id⟩

theorem good_handed {s t : StationSm} {e : Bytes} (h : Good s) (hh : Handed s e t) : Good t := by
  have hsup := hh.sup
  obtain ⟨hstart, hdone⟩ := sup_never_goes_back s.sup_ e
  have hconf : s.configured_ = true := by
    rcases hh.associated with h1 | h1
    · exact h.configured (by simp [h1]) (by simp [h1])
    · exact h.configured (by simp [h1]) (by simp [h1])
  have hassoc : t.state_ = .FourWay ∨ t.state_ = .Connected := by
    rcases hh.state with h1 | h1
    · rw [h1]; exact hh.associated
    · exact Or.inr h1.1
  have haid : t.aid_ = s.aid_ := by rw [hh.rest]
  have hsec : t.security_ = .Wpa2Psk := by rw [hh.rest]; exact hh.wpa2
  have hcrypto : t.crypto_ = s.crypto_ := by rw [hh.rest]
  have hconf' : t.configured_ = true := by rw [hh.rest]; exact hconf
  refine ⟨?_, ?_, fun _ _ => hconf', ?_, ?_, ?_, ?_⟩
  · rw [hsup]; exact Supplicant.good_on_eapol e h.sup_good
  · intro _ _
    rw [hcrypto]
    exact h.crypto hconf hh.wpa2
  · intro h1 h2
    rcases hassoc with h3 | h3
    · exact absurd h3 h1
    · exact absurd h3 h2
  · intro h1
    refine ⟨hsec, ?_⟩
    rcases hh.state with h2 | h2
    · rw [hsup]
      exact hstart (h.four_way (h2 ▸ h1)).2
    · rw [h2.1] at h1; cases h1
  · intro h1
    rcases hh.state with h2 | h2
    · rw [h2] at h1
      rcases h.keyed h1 with h3 | h3
      · rw [hh.wpa2] at h3; cases h3
      · exact Or.inr (by rw [hsup]; exact hdone h3)
    · exact Or.inr h2.2
  · rw [haid]
    exact ⟨fun _ => hassoc, fun _ => h.aid.mpr hh.associated⟩

theorem good_on_rx {s : StationSm} (frame : Bytes) (now_ms : UInt32) (h : Good s) :
    Good (s.on_rx frame now_ms) := by
  have he := on_rx_effect s frame now_ms
  generalize s.on_rx frame now_ms = t at he ⊢
  cases he with
  | quiet same => exact good_of_core (core_quiet same) h
  | auth_refused _ status => exact good_fail _ _ h
  | auth_accepted ha => exact good_send_assoc _ (good_auth_done h ha.state)
  | assoc_refused _ status => exact good_fail _ _ h
  | assoc_open hst hsec aid haid => exact good_assoc_open aid now_ms h hst hsec haid
  | assoc_wpa2 hst hsec aid haid => exact good_start_four_way aid now_ms h hst hsec haid
  | ended _ _ reason =>
    have hf := good_fail .Deauthenticated reason h
    exact good_of_core (s := s.fail .Deauthenticated reason) rfl hf
  | eapol _ hh => exact good_handed h hh

theorem good_step {s : StationSm} (op : Op) (h : Good s) : Good (s.step op) := by
  cases op with
  | configure crypto ssid psk own => exact good_dropped (fun _ => rfl)
  | configure_open ssid own => exact good_dropped (fun hs => by cases hs)
  | join bss snonce now_ms =>
    have hr : ∀ rsn, Good { s with ap_rsn_ := rsn } := fun _ => good_of_core (s := s) rfl h
    obtain ⟨rsn, ⟨why, hj⟩ | ⟨hconf, n, hj⟩⟩ := join_effect s bss snonce now_ms
    · simp only [step, hj]
      exact good_fail _ _ (hr rsn)
    · simp only [step, hj]
      exact good_of_core (core_send_auth _ _) (good_begin_join bss n now_ms (hr rsn) hconf)
  | leave reason => exact good_leave reason h
  | on_rx frame now_ms => exact good_on_rx frame now_ms h
  | on_decrypted_msdu msdu now_ms =>
    rcases on_decrypted_msdu_effect s msdu now_ms with hq | hh
    · exact good_of_core (core_quiet hq) h
    · exact good_handed h hh
  | tick now_ms =>
    simp only [step]
    rcases tick_effect s now_ms with ht | ⟨why, ht⟩ | ⟨-, -, ht⟩ | ⟨-, -, ht⟩
    · rw [ht]; exact h
    · rw [ht]; exact good_fail _ _ h
    · rw [ht]; exact good_of_core (core_send_auth _ _) h
    · rw [ht]; exact good_send_assoc _ h
  | link_lost =>
    simp only [step, link_lost]
    split
    · exact good_fail _ _ h
    · exact h
  | pop_tx out =>
    simp only [step, pop_tx]
    split
    · exact good_of_core (s := s) rfl h
    · exact h

/-- Every run keeps the invariant. -/
theorem good_run (ops : List Op) : Good (run ops) :=
  Runs.after_keeps step {} good_fresh (fun _ op h => good_step op h) ops

end devourer.sta.StationSm
