-- The transmit queue of the station: it never overflows with requests, and
-- what waits in it is addressed to the access point of the association.
import Devourer.Sta.StationLaws

namespace devourer.sta.StationSm

/-! ## The addresses of the frames that the station builds -/

theorem addr1_mgmt_hdr (fc : UInt8) (da sa bssid : Mac) (body : Bytes) :
    addr1 (mgmt_hdr fc da sa bssid ++ body) = da := by
  unfold addr1 mgmt_hdr
  simp only [List.append_assoc]
  rw [← List.append_assoc [fc, 0x00]]
  exact Octets.slice_append _ da _ rfl

theorem addr2_mgmt_hdr (fc : UInt8) (da sa bssid : Mac) (body : Bytes) :
    addr2 (mgmt_hdr fc da sa bssid ++ body) = sa := by
  unfold addr2 mgmt_hdr
  simp only [List.append_assoc]
  rw [← List.append_assoc [fc, 0x00], ← List.append_assoc (_ ++ _)]
  exact Octets.slice_append _ sa _ (by simp [put_le16, da.property])

/-- The sequence number is outside of the addresses and of the first byte. -/
theorem byteAt_assign_seq (frame : Bytes) (n : UInt16) {i : Nat} (h : i < 22) :
    byteAt (assign_seq frame n) i = byteAt frame i := by
  unfold assign_seq
  split
  · rfl
  · dsimp only
    rw [byteAt_set_ne _ (by omega), byteAt_set_ne _ (by omega)]

theorem addr1_assign_seq (frame : Bytes) (n : UInt16) : addr1 (assign_seq frame n) = addr1 frame :=
  Octets.slice_congr fun i hi => byteAt_assign_seq frame n (by omega)

theorem addr2_assign_seq (frame : Bytes) (n : UInt16) : addr2 (assign_seq frame n) = addr2 frame :=
  Octets.slice_congr fun i hi => byteAt_assign_seq frame n (by omega)

/-- Address 1 is the current BSSID and address 2 this station. -/
structure Addressed (s : StationSm) (m : Bytes) : Prop where
  to_ap : addr1 m = s.bssid_
  from_us : addr2 m = s.own_

theorem addressed_mgmt (s : StationSm) (fc : UInt8) (body : Bytes) (n : UInt16) :
    Addressed s (assign_seq (mgmt_hdr fc s.bssid_ s.own_ s.bssid_ ++ body) n) := by
  refine ⟨?_, ?_⟩
  · rw [addr1_assign_seq, addr1_mgmt_hdr]
  · rw [addr2_assign_seq, addr2_mgmt_hdr]

theorem addressed_auth_request (s : StationSm) : Addressed s s.auth_request := by
  unfold auth_request build_auth_req
  simp only [List.append_assoc]
  exact addressed_mgmt s _ _ _

theorem addressed_deauth (s : StationSm) (reason : UInt16) (n : UInt16) :
    Addressed s (assign_seq (build_deauth s.own_ s.bssid_ reason) n) := addressed_mgmt s _ _ _

theorem append_fixed_ie_eq (m : Bytes) (eid : UInt8) (body : Bytes) :
    ∃ tail, append_fixed_ie m eid body = m ++ tail := by
  unfold append_fixed_ie append_ie
  split
  · exact ⟨[], by simp⟩
  · exact ⟨_, rfl⟩

theorem append_rates_eq (m : Bytes) (five_ghz : Bool) :
    ∃ tail, append_ext_supported_rates_sta (append_supported_rates_sta m five_ghz) five_ghz =
      m ++ tail := by
  unfold append_ext_supported_rates_sta append_supported_rates_sta
  split
  · exact append_fixed_ie_eq _ _ _
  · obtain ⟨t1, h1⟩ := append_fixed_ie_eq m kEidSupportedRates
      [0x02, 0x04, 0x0b, 0x16, 0x0c, 0x12, 0x18, 0x24]
    rw [h1]
    obtain ⟨t2, h2⟩ := append_fixed_ie_eq (m ++ t1) kEidExtSupportedRates [0x30, 0x48, 0x60, 0x6c]
    rw [h2]
    exact ⟨t1 ++ t2, by simp⟩

/-- An association request that can be built starts with its management header. -/
theorem build_assoc_req_eq (own bssid : Mac) (ssid : Bytes) (rsn five_ghz : Bool) (li : UInt16) :
    build_assoc_req own bssid ssid rsn five_ghz li = [] ∨
      ∃ tail, build_assoc_req own bssid ssid rsn five_ghz li =
        mgmt_hdr kFcAssocReq bssid own bssid ++ tail := by
  unfold build_assoc_req
  dsimp only
  generalize hm : mgmt_hdr kFcAssocReq bssid own bssid ++
    put_le16 (0x0001 ||| (if rsn then 0x0010 else 0)) ++ put_le16 li = m
  have hm' : ∃ t, m = mgmt_hdr kFcAssocReq bssid own bssid ++ t :=
    ⟨_, by rw [← hm, List.append_assoc]⟩
  obtain ⟨t, rfl⟩ := hm'
  split
  · exact Or.inl rfl
  · rename_i m' hm'
    have hssid : ∃ t', m' = mgmt_hdr kFcAssocReq bssid own bssid ++ t' := by
      unfold append_ssid append_ie at hm'
      split at hm'
      · simp at hm'
      · split at hm'
        · simp at hm'
        · simp only [Option.some.injEq] at hm'
          exact ⟨_, by rw [← hm', List.append_assoc]⟩
    obtain ⟨t', rfl⟩ := hssid
    right
    obtain ⟨t1, h1⟩ := append_rates_eq (mgmt_hdr kFcAssocReq bssid own bssid ++ t') five_ghz
    rw [h1]
    split
    · obtain ⟨t2, h2⟩ := append_fixed_ie_eq (mgmt_hdr kFcAssocReq bssid own bssid ++ t' ++ t1)
        kEidRsn [0x01, 0x00, 0x00, 0x0f, 0xac, 0x04, 0x01, 0x00, 0x00, 0x0f, 0xac, 0x04,
          0x01, 0x00, 0x00, 0x0f, 0xac, 0x02, 0x00, 0x00]
      refine ⟨t' ++ (t1 ++ t2), ?_⟩
      unfold append_rsn_ccmp_psk
      rw [h2]
      simp only [List.append_assoc]
    · exact ⟨t' ++ t1, by rw [List.append_assoc]⟩

theorem addressed_assoc_request {s : StationSm} (h : s.assoc_request ≠ []) (n : UInt16) :
    Addressed s (assign_seq s.assoc_request n) := by
  rcases build_assoc_req_eq s.own_ s.bssid_ s.ssid_ (s.security_ == .Wpa2Psk)
    (decide (s.channel_ > 14)) kListenInterval with he | ⟨tail, he⟩
  · exact absurd he h
  · have he' : s.assoc_request = mgmt_hdr kFcAssocReq s.bssid_ s.own_ s.bssid_ ++ tail := he
    rw [he']
    exact addressed_mgmt s _ _ _

theorem addressed_eapol_frame (s : StationSm) (reply : Bytes) :
    Addressed s (s.eapol_frame reply) := by
  unfold eapol_frame append_llc_snap data_hdr_to_ds
  simp only [List.append_assoc]
  refine ⟨?_, ?_⟩
  · unfold addr1
    rw [← List.append_assoc [kFcData, _]]
    exact Octets.slice_append _ s.bssid_ _ rfl
  · unfold addr2
    rw [← List.append_assoc [kFcData, _], ← List.append_assoc (_ ++ _)]
    exact Octets.slice_append _ s.own_ _ (by simp [put_le16, s.bssid_.property])

/-! ## A request finds room -/

theorem queue_room {s : StationSm} (m : Bytes) (h : s.tx_.length < kMaxTxQueue) :
    s.queue m = ({ s with tx_ := s.tx_ ++ [m] }, true) := by
  unfold queue
  rw [if_neg (by omega)]

theorem queue_deauth_empty {s : StationSm} (reason : UInt16) (h : s.tx_ = []) :
    s.queue_deauth reason =
      { s.next_seq.2 with
        tx_ := [assign_seq (build_deauth s.own_ s.bssid_ reason) s.next_seq.1] } := by
  have htx : s.next_seq.2.tx_ = [] := h
  unfold queue_deauth
  dsimp only
  rw [queue_room _ (by rw [htx]; decide), htx]
  rfl

/-- With room in the queue, `send_auth` queues its request and counts a try. -/
theorem send_auth_room {s : StationSm} (now_ms : UInt32) (h : s.tx_.length < kMaxTxQueue) :
    (s.send_auth now_ms).tx_ = s.tx_ ++ [s.auth_request] ∧
      (s.send_auth now_ms).tries_ = s.tries_ + 1 := by
  have hq := queue_room (s := s.next_seq.2) s.auth_request h
  unfold send_auth
  rw [hq]
  exact ⟨rfl, rfl⟩

/-- With room in the queue, `send_assoc` queues the request that it could build. -/
theorem send_assoc_room {s : StationSm} (now_ms : UInt32) (h : s.tx_.length < kMaxTxQueue)
    (hreq : s.assoc_request ≠ []) :
    (s.send_assoc now_ms).tx_ = s.tx_ ++ [assign_seq s.assoc_request s.next_seq.1] ∧
      (s.send_assoc now_ms).tries_ = s.tries_ + 1 ∧
      (s.send_assoc now_ms).state_ = s.state_ := by
  have hq := queue_room (s := s.next_seq.2) (assign_seq s.assoc_request s.next_seq.1) h
  unfold send_assoc
  rw [if_neg hreq, hq]
  exact ⟨rfl, rfl, rfl⟩

/-- The length of the queue, tied to the tries of the state. `join` leaves one farewell at
most; each try adds one request. -/
structure Roomy (s : StationSm) : Prop where
  bound : s.tx_.length ≤ kMaxTxQueue
  auth : s.state_ = .Authenticating → s.tries_ ≤ kMaxTries ∧ s.tx_.length ≤ 1 + s.tries_
  assoc : s.state_ = .Associating →
    s.tries_ ≤ kMaxTries ∧ s.tx_.length ≤ 1 + kMaxTries + s.tries_

/-- A try that is left finds room. -/
theorem room_for_auth {s : StationSm} (h : Roomy s) (hst : s.state_ = .Authenticating)
    (hlt : s.tries_ < kMaxTries) : s.tx_.length < kMaxTxQueue := by
  have := (h.auth hst).2
  unfold kMaxTries at hlt
  unfold kMaxTxQueue
  omega

theorem room_for_assoc {s : StationSm} (h : Roomy s) (hst : s.state_ = .Associating)
    (hlt : s.tries_ < kMaxTries) : s.tx_.length < kMaxTxQueue := by
  have := (h.assoc hst).2
  unfold kMaxTries at hlt this
  unfold kMaxTxQueue
  omega

/-- An empty queue has room in any state but the two that count tries. -/
theorem roomy_empty {s : StationSm} (htx : s.tx_ = []) (h1 : s.state_ ≠ .Authenticating)
    (h2 : s.state_ ≠ .Associating) : Roomy s := by
  refine ⟨?_, fun h => absurd h h1, fun h => absurd h h2⟩
  rw [htx]
  exact Nat.zero_le _

theorem roomy_fail (s : StationSm) (why : Failure) (status : UInt16) : Roomy (s.fail why status) :=
  roomy_empty rfl (by simp [fail]) (by simp [fail])

/-- A machine with the same queue, tries and state has the same room. -/
theorem roomy_of_same {s t : StationSm} (h : Roomy s) (htx : t.tx_ = s.tx_)
    (htries : t.tries_ = s.tries_) (hst : t.state_ = s.state_) : Roomy t := by
  obtain ⟨h1, h2, h3⟩ := h
  refine ⟨?_, ?_, ?_⟩
  · rw [htx]; exact h1
  · rw [htx, htries, hst]; exact h2
  · rw [htx, htries, hst]; exact h3

theorem roomy_send_auth {s : StationSm} (now_ms : UInt32) (hst : s.state_ = .Authenticating)
    (htries : s.tries_ < kMaxTries) (hlen : s.tx_.length ≤ 1 + s.tries_) :
    Roomy (s.send_auth now_ms) := by
  unfold kMaxTries at htries
  have hroom : s.tx_.length < kMaxTxQueue := by unfold kMaxTxQueue; omega
  obtain ⟨htx, ht⟩ := send_auth_room now_ms hroom
  have hst' : (s.send_auth now_ms).state_ = .Authenticating := by
    have := core_send_auth s now_ms
    simp only [core, Prod.mk.injEq] at this
    rw [this.2.2.2.2.1, hst]
  refine ⟨?_, ?_, ?_⟩
  · rw [htx, List.length_append, List.length_singleton]
    exact hroom
  · intro _
    rw [htx, ht, List.length_append, List.length_singleton]
    unfold kMaxTries
    omega
  · rw [hst']
    simp

theorem roomy_send_assoc {s : StationSm} (now_ms : UInt32) (hst : s.state_ = .Associating)
    (htries : s.tries_ < kMaxTries) (hlen : s.tx_.length ≤ 1 + kMaxTries + s.tries_) :
    Roomy (s.send_assoc now_ms) := by
  by_cases hreq : s.assoc_request = []
  · unfold send_assoc
    rw [if_pos hreq]
    exact roomy_fail s _ _
  · unfold kMaxTries at htries hlen
    have hroom : s.tx_.length < kMaxTxQueue := by unfold kMaxTxQueue; omega
    obtain ⟨htx, ht, hst'⟩ := send_assoc_room now_ms hroom hreq
    refine ⟨?_, ?_, ?_⟩
    · rw [htx, List.length_append, List.length_singleton]
      exact hroom
    · rw [hst', hst]
      simp
    · intro _
      rw [htx, ht, List.length_append, List.length_singleton]
      unfold kMaxTries
      omega

/-- The farewell of a `join` is one frame at most: a deauthentication to the BSSID that it
leaves. -/
theorem farewell_tx (s : StationSm) :
    (s.farewell.tx_ = [] ∨ (s.authenticated_ = true ∧
      s.farewell.tx_ = [assign_seq (build_deauth s.own_ s.bssid_ 3) s.next_seq.1])) ∧
    s.farewell.own_ = s.own_ := by
  unfold farewell
  dsimp only
  split
  · rename_i ha
    rw [queue_deauth_empty 3 rfl]
    exact ⟨Or.inr ⟨ha, rfl⟩, rfl⟩
  · exact ⟨Or.inl rfl, rfl⟩

theorem begin_join_length (s : StationSm) (bss : BssEntry) (n : Octets 32) (now_ms : UInt32) :
    (s.begin_join bss n now_ms).tx_.length ≤ 1 := by
  have htx : (s.begin_join bss n now_ms).tx_ = s.farewell.tx_ := rfl
  rw [htx]
  rcases (farewell_tx s).1 with h | ⟨-, h⟩
  · rw [h]; exact Nat.zero_le _
  · rw [h]; exact Nat.le_refl _

theorem roomy_auth_done {s : StationSm} (h : Roomy s) (hst : s.state_ = .Authenticating) :
    s.auth_done.tx_.length ≤ 1 + kMaxTries + s.auth_done.tries_ := by
  obtain ⟨h1, h2⟩ := h.auth hst
  simp only [auth_done]
  omega

theorem room_for_first_assoc {s : StationSm} (h : Roomy s) (hst : s.state_ = .Authenticating) :
    s.auth_done.tx_.length < kMaxTxQueue := by
  have := roomy_auth_done h hst
  have h0 : s.auth_done.tries_ = 0 := rfl
  rw [h0] at this
  unfold kMaxTries at this
  unfold kMaxTxQueue
  omega

theorem roomy_handed {s t : StationSm} {e : Bytes} (h : Roomy s) (hh : Handed s e t) : Roomy t := by
  have hst : t.state_ ≠ .Authenticating ∧ t.state_ ≠ .Associating := by
    rcases hh.state with h1 | h1
    · rcases hh.associated with h2 | h2 <;> simp [h1, h2]
    · simp [h1.1]
  refine ⟨?_, fun h1 => absurd h1 hst.1, fun h1 => absurd h1 hst.2⟩
  rcases hh.tx with htx | ⟨hroom, reply, htx⟩
  · rw [htx]; exact h.bound
  · rw [htx, List.length_append, List.length_singleton]
    exact hroom

theorem start_four_way_same (s : StationSm) :
    s.start_four_way.tx_ = s.tx_ ∧ s.start_four_way.state_ = s.state_ ∧
      s.start_four_way.own_ = s.own_ ∧ s.start_four_way.bssid_ = s.bssid_ := by
  unfold start_four_way
  split
  · exact ⟨rfl, rfl, rfl, rfl⟩
  · exact ⟨rfl, rfl, rfl, rfl⟩

theorem roomy_on_rx {s : StationSm} (frame : Bytes) (now_ms : UInt32) (h : Roomy s) :
    Roomy (s.on_rx frame now_ms) := by
  have he := on_rx_effect s frame now_ms
  generalize s.on_rx frame now_ms = t at he ⊢
  cases he with
  | quiet same => rw [same]; exact roomy_of_same h rfl rfl rfl
  | auth_refused _ status => exact roomy_fail s _ _
  | auth_accepted ha =>
    exact roomy_send_assoc now_ms rfl (by show 0 < kMaxTries; decide) (roomy_auth_done h ha.state)
  | assoc_refused _ status => exact roomy_fail s _ _
  | assoc_open _ _ aid _ =>
    refine ⟨h.bound, ?_, ?_⟩
    · simp [assoc_done]
    · simp [assoc_done]
  | assoc_wpa2 _ _ aid _ =>
    obtain ⟨htx, hst, -, -⟩ := start_four_way_same (s.assoc_done aid now_ms .FourWay)
    refine ⟨?_, ?_, ?_⟩
    · rw [htx]; exact h.bound
    · rw [hst]; simp [assoc_done]
    · rw [hst]; simp [assoc_done]
  | ended _ _ reason =>
    exact roomy_of_same (roomy_fail s .Deauthenticated reason) rfl rfl rfl
  | eapol _ hh => exact roomy_handed h hh

theorem roomy_step {s : StationSm} (op : Op) (h : Roomy s) : Roomy (s.step op) := by
  cases op with
  | configure crypto ssid psk own =>
    refine roomy_empty rfl ?_ ?_ <;>
    · simp only [step, configure, drop_association_keys]
      split <;> simp
  | configure_open ssid own =>
    refine roomy_empty rfl ?_ ?_ <;>
    · simp only [step, configure_open, drop_association_keys]
      split <;> simp
  | join bss snonce now_ms =>
    obtain ⟨rsn, ⟨why, hj⟩ | ⟨-, n, hj⟩⟩ := join_effect s bss snonce now_ms
    · simp only [step, hj]
      exact roomy_fail _ _ _
    · simp only [step, hj]
      exact roomy_send_auth now_ms rfl (by show 0 < kMaxTries; decide) (begin_join_length _ _ _ _)
  | leave reason =>
    simp only [step, leave]
    split
    · exact h
    · refine ⟨?_, by simp, by simp⟩
      dsimp only
      split
      · rw [queue_deauth_empty reason rfl]
        show 1 ≤ kMaxTxQueue
        decide
      · exact Nat.zero_le _
  | on_rx frame now_ms => exact roomy_on_rx frame now_ms h
  | on_decrypted_msdu msdu now_ms =>
    rcases on_decrypted_msdu_effect s msdu now_ms with hq | hh
    · simp only [step]
      rw [hq]
      exact roomy_of_same h rfl rfl rfl
    · exact roomy_handed h hh
  | tick now_ms =>
    simp only [step]
    rcases tick_effect s now_ms with ht | ⟨why, ht⟩ | ⟨hst, hlt, ht⟩ | ⟨hst, hlt, ht⟩
    · rw [ht]; exact h
    · rw [ht]; exact roomy_fail s _ _
    · rw [ht]; exact roomy_send_auth now_ms hst hlt (h.auth hst).2
    · rw [ht]; exact roomy_send_assoc now_ms hst hlt (h.assoc hst).2
  | link_lost =>
    simp only [step, link_lost]
    split
    · exact roomy_fail s _ _
    · exact h
  | pop_tx out =>
    simp only [step, pop_tx]
    split
    · rename_i m rest htx
      obtain ⟨h1, h2, h3⟩ := h
      rw [htx, List.length_cons] at h1 h2 h3
      refine ⟨?_, ?_, ?_⟩
      · dsimp only; omega
      · intro hst
        have := h2 hst
        dsimp only
        omega
      · intro hst
        have := h3 hst
        dsimp only
        omega
    · exact h

theorem roomy_run (ops : List Op) : Roomy (run ops) :=
  Runs.after_keeps step {} (roomy_empty rfl (by simp) (by simp)) (fun _ op h => roomy_step op h) ops

/-! ## Where the requests are sent from -/

/-- In `s` the call `op` gets to its `send_auth`, with the machine as `m` by then. -/
inductive SendsAuth (s : StationSm) : Op → StationSm → UInt32 → Prop
  | join (bss : BssEntry) (snonce : Option (Octets 32)) (now_ms : UInt32) (rsn : RsnInfo)
      (n : Octets 32)
      (past : s.join bss snonce now_ms =
        (({ s with ap_rsn_ := rsn }.begin_join bss n now_ms).send_auth now_ms, true)) :
      SendsAuth s (.join bss snonce now_ms) ({ s with ap_rsn_ := rsn }.begin_join bss n now_ms)
        now_ms
  | tick (now_ms : UInt32) (state : s.state_ = .Authenticating)
      (due : ¬now_ms - s.last_tx_ms_ < kMgmtTimeoutMs) (left : ¬s.tries_ ≥ kMaxTries) :
      SendsAuth s (.tick now_ms) s now_ms

/-- In `s` the call `op` gets to its `send_assoc`, with the machine as `m` by then. -/
inductive SendsAssoc (s : StationSm) : Op → StationSm → UInt32 → Prop
  | on_auth (frame : Bytes) (now_ms : UInt32) (long : ¬frame.length < 24)
      (accepted : AuthAccepted s frame) : SendsAssoc s (.on_rx frame now_ms) s.auth_done now_ms
  | tick (now_ms : UInt32) (state : s.state_ = .Associating)
      (due : ¬now_ms - s.last_tx_ms_ < kMgmtTimeoutMs) (left : ¬s.tries_ ≥ kMaxTries) :
      SendsAssoc s (.tick now_ms) s now_ms

theorem sendsAuth_step {s m : StationSm} {op : Op} {now_ms : UInt32} (h : SendsAuth s op m now_ms) :
    s.step op = m.send_auth now_ms := by
  cases h with
  | join bss snonce _ rsn n past => simp only [step, past]
  | tick _ hst hdue hleft => simp only [step, tick, hst, if_neg hdue, if_neg hleft]

theorem on_rx_auth_accepted {s : StationSm} {frame : Bytes} (now_ms : UInt32)
    (hlong : ¬frame.length < 24) (h : AuthAccepted s frame) :
    s.on_rx frame now_ms = s.auth_done.send_assoc now_ms := by
  have hlive : ¬(s.state_ = .Idle ∨ s.state_ = .Failed) := by simp [h.state]
  unfold on_rx
  rw [if_neg hlong, if_neg hlive, if_neg (not_not.mpr h.from_bss)]
  simp only [h.to_us, decide_true, Bool.not_true, Bool.false_and, Bool.false_eq_true, if_false]
  unfold on_our_frame
  simp only [h.kind]
  rw [if_neg (by decide), if_pos trivial, if_pos trivial]
  unfold on_auth
  rw [if_neg (not_not.mpr h.state), h.fields]
  rfl

theorem sendsAssoc_step {s m : StationSm} {op : Op} {now_ms : UInt32}
    (h : SendsAssoc s op m now_ms) : s.step op = m.send_assoc now_ms := by
  cases h with
  | on_auth frame _ hlong hacc => exact on_rx_auth_accepted now_ms hlong hacc
  | tick _ hst hdue hleft => simp only [step, tick, hst, if_neg hdue, if_neg hleft]

theorem sendsAuth_room {s m : StationSm} {op : Op} {now_ms : UInt32} (hr : Roomy s)
    (h : SendsAuth s op m now_ms) : m.tx_.length < kMaxTxQueue := by
  cases h with
  | join bss snonce _ rsn n past =>
    have := begin_join_length { s with ap_rsn_ := rsn } bss n now_ms
    unfold kMaxTxQueue
    omega
  | tick _ hst hdue hleft => exact room_for_auth hr hst (Nat.not_le.mp hleft)

theorem sendsAssoc_room {s m : StationSm} {op : Op} {now_ms : UInt32} (hr : Roomy s)
    (h : SendsAssoc s op m now_ms) : m.tx_.length < kMaxTxQueue := by
  cases h with
  | on_auth frame _ hlong hacc => exact room_for_first_assoc hr hacc.state
  | tick _ hst hdue hleft => exact room_for_assoc hr hst (Nat.not_le.mp hleft)

/-! ## What waits in the queue -/

/-- What one call does to the queue and to the addresses that it is judged by. -/
inductive TxEffect (s : StationSm) (op : Op) (t : StationSm) : Prop
  | cleared (tx : t.tx_ = [])
  | goodbye (m : Bytes) (tx : t.tx_ = [m]) (to_ap : Addressed t m)
  | kept (no_join : ∀ bss snonce now_ms, op ≠ .join bss snonce now_ms) (own : t.own_ = s.own_)
      (bssid : t.bssid_ = s.bssid_) (more : List Bytes) (tx : t.tx_ = s.tx_ ++ more)
      (to_ap : ∀ m ∈ more, Addressed s m)
  | popped (no_join : ∀ bss snonce now_ms, op ≠ .join bss snonce now_ms) (own : t.own_ = s.own_)
      (bssid : t.bssid_ = s.bssid_) (m : Bytes) (tx : s.tx_ = m :: t.tx_)
  | joined (bss : BssEntry) (snonce : Option (Octets 32)) (now_ms : UInt32)
      (is_join : op = .join bss snonce now_ms) (accepted : (s.join bss snonce now_ms).2 = true)
      (own : t.own_ = s.own_) (m : Bytes)
      (tx : t.tx_ = [m] ∨ (s.authenticated_ = true ∧
        t.tx_ = [assign_seq (build_deauth s.own_ s.bssid_ 3) s.next_seq.1, m]))
      (to_ap : Addressed t m)

theorem addressed_of_same {s t : StationSm} {m : Bytes} (hown : t.own_ = s.own_)
    (hbssid : t.bssid_ = s.bssid_) (h : Addressed s m) : Addressed t m :=
  ⟨h.to_ap.trans hbssid.symm, h.from_us.trans hown.symm⟩

theorem addresses_queue (s : StationSm) (m : Bytes) :
    (s.queue m).1.own_ = s.own_ ∧ (s.queue m).1.bssid_ = s.bssid_ := by
  unfold queue
  split
  · exact ⟨rfl, rfl⟩
  · exact ⟨rfl, rfl⟩

theorem addresses_send_auth (s : StationSm) (now_ms : UInt32) :
    (s.send_auth now_ms).own_ = s.own_ ∧ (s.send_auth now_ms).bssid_ = s.bssid_ := by
  have hq := addresses_queue s.next_seq.2 s.auth_request
  unfold send_auth
  dsimp only
  split
  · exact hq
  · exact hq

/-- A call that only sends one more association request. -/
theorem kept_send_assoc {s m : StationSm} {op : Op} (now_ms : UInt32)
    (hroom : m.tx_.length < kMaxTxQueue) (htx : m.tx_ = s.tx_) (hown : m.own_ = s.own_)
    (hbssid : m.bssid_ = s.bssid_)
    (hjoin : ∀ bss snonce now_ms, op ≠ .join bss snonce now_ms) :
    TxEffect s op (m.send_assoc now_ms) := by
  by_cases hreq : m.assoc_request = []
  · unfold send_assoc
    rw [if_pos hreq]
    exact .cleared rfl
  · have haddr := addressed_assoc_request hreq m.next_seq.1
    obtain ⟨h1, -, -⟩ := send_assoc_room now_ms hroom hreq
    have hsame : (m.send_assoc now_ms).own_ = m.own_ ∧ (m.send_assoc now_ms).bssid_ = m.bssid_ := by
      have hq := addresses_queue m.next_seq.2 (assign_seq m.assoc_request m.next_seq.1)
      unfold send_assoc
      rw [if_neg hreq]
      dsimp only
      split
      · exact hq
      · exact hq
    refine .kept hjoin (hsame.1.trans hown) (hsame.2.trans hbssid) _ (by rw [h1, htx]) ?_
    intro x hx
    rw [List.mem_singleton] at hx
    rw [hx]
    exact addressed_of_same hown.symm hbssid.symm haddr

theorem kept_handed {s t : StationSm} {e : Bytes} {op : Op} (hh : Handed s e t)
    (hjoin : ∀ bss snonce now_ms, op ≠ .join bss snonce now_ms) : TxEffect s op t := by
  have hown : t.own_ = s.own_ := by rw [hh.rest]
  have hbssid : t.bssid_ = s.bssid_ := by rw [hh.rest]
  rcases hh.tx with htx | ⟨-, reply, htx⟩
  · exact .kept hjoin hown hbssid [] (by simp [htx]) (by simp)
  · refine .kept hjoin hown hbssid _ htx ?_
    intro x hx
    rw [List.mem_singleton] at hx
    rw [hx]
    exact addressed_eapol_frame s reply

theorem kept_quiet {s t : StationSm} {op : Op} (hq : Quiet s t)
    (hjoin : ∀ bss snonce now_ms, op ≠ .join bss snonce now_ms) : TxEffect s op t := by
  rw [hq]
  exact .kept hjoin rfl rfl [] (by simp) (by simp)

theorem tx_effect_on_rx {s : StationSm} (frame : Bytes) (now_ms : UInt32) (hr : Roomy s) :
    TxEffect s (.on_rx frame now_ms) (s.on_rx frame now_ms) := by
  have he := on_rx_effect s frame now_ms
  generalize s.on_rx frame now_ms = t at he ⊢
  have hjoin : ∀ bss snonce t, Op.on_rx frame now_ms ≠ .join bss snonce t := by simp
  cases he with
  | quiet same => exact kept_quiet same hjoin
  | auth_refused _ status => exact .cleared rfl
  | auth_accepted ha =>
    exact kept_send_assoc now_ms (room_for_first_assoc hr ha.state) rfl rfl rfl hjoin
  | assoc_refused _ status => exact .cleared rfl
  | assoc_open _ _ aid _ => exact .kept hjoin rfl rfl [] (by simp [assoc_done]) (by simp)
  | assoc_wpa2 _ _ aid _ =>
    obtain ⟨htx, -, hown, hbssid⟩ := start_four_way_same (s.assoc_done aid now_ms .FourWay)
    exact .kept hjoin hown hbssid [] (by rw [htx]; simp [assoc_done]) (by simp)
  | ended _ _ reason => exact .cleared rfl
  | eapol _ hh => exact kept_handed hh hjoin

theorem tx_effect_join (s : StationSm) (bss : BssEntry) (snonce : Option (Octets 32))
    (now_ms : UInt32) :
    TxEffect s (.join bss snonce now_ms) (s.join bss snonce now_ms).1 := by
  obtain ⟨rsn, ⟨why, hj⟩ | ⟨-, n, hj⟩⟩ := join_effect s bss snonce now_ms
  · rw [hj]
    exact .cleared rfl
  · have hlen := begin_join_length { s with ap_rsn_ := rsn } bss n now_ms
    obtain ⟨hlead, hown⟩ := farewell_tx { s with ap_rsn_ := rsn }
    have hacc : (s.join bss snonce now_ms).2 = true := by rw [hj]
    rw [hj]
    generalize hm : ({ s with ap_rsn_ := rsn } : StationSm).begin_join bss n now_ms = m at hlen ⊢
    have hmtx : m.tx_ = ({ s with ap_rsn_ := rsn } : StationSm).farewell.tx_ := by rw [← hm]; rfl
    have hmown : m.own_ = s.own_ := by rw [← hm]; exact hown
    obtain ⟨htx, -⟩ := send_auth_room now_ms (s := m) (by unfold kMaxTxQueue; omega)
    obtain ⟨h1, h2⟩ := addresses_send_auth m now_ms
    refine .joined bss snonce now_ms rfl hacc (h1.trans hmown) m.auth_request ?_
      (addressed_of_same h1 h2 (addressed_auth_request m))
    rcases hlead with hl | ⟨ha, hl⟩
    · left
      rw [htx, hmtx, hl]
      rfl
    · right
      refine ⟨ha, ?_⟩
      rw [htx, hmtx, hl]
      rfl

theorem tx_effect_step {s : StationSm} (op : Op) (hr : Roomy s) : TxEffect s op (s.step op) := by
  cases op with
  | configure crypto ssid psk own => exact .cleared rfl
  | configure_open ssid own => exact .cleared rfl
  | join bss snonce now_ms => exact tx_effect_join s bss snonce now_ms
  | leave reason =>
    simp only [step, leave]
    split
    · exact .kept (by simp) rfl rfl [] (by simp) (by simp)
    · split
      · rw [queue_deauth_empty reason rfl]
        exact .goodbye _ rfl (addressed_of_same (s := s) rfl rfl (addressed_deauth s reason _))
      · exact .cleared rfl
  | on_rx frame now_ms => exact tx_effect_on_rx frame now_ms hr
  | on_decrypted_msdu msdu now_ms =>
    rcases on_decrypted_msdu_effect s msdu now_ms with hq | hh
    · exact kept_quiet hq (by simp)
    · exact kept_handed hh (by simp)
  | tick now_ms =>
    simp only [step]
    rcases tick_effect s now_ms with ht | ⟨why, ht⟩ | ⟨hst, hlt, ht⟩ | ⟨hst, hlt, ht⟩
    · rw [ht]; exact .kept (by simp) rfl rfl [] (by simp) (by simp)
    · rw [ht]; exact .cleared rfl
    · rw [ht]
      obtain ⟨htx, -⟩ := send_auth_room now_ms (room_for_auth hr hst hlt)
      obtain ⟨h1, h2⟩ := addresses_send_auth s now_ms
      refine .kept (by simp) h1 h2 _ htx ?_
      intro x hx
      rw [List.mem_singleton] at hx
      rw [hx]
      exact addressed_auth_request s
    · rw [ht]
      exact kept_send_assoc now_ms (room_for_assoc hr hst hlt) rfl rfl rfl (by simp)
  | link_lost =>
    simp only [step, link_lost]
    split
    · exact .cleared rfl
    · exact .kept (by simp) rfl rfl [] (by simp) (by simp)
  | pop_tx out =>
    simp only [step, pop_tx]
    split
    · rename_i m rest htx
      exact .popped (by simp) rfl rfl m htx
    · exact .kept (by simp) rfl rfl [] (by simp) (by simp)

/-- `m` is the farewell of the last `join` of the run: a deauthentication to the BSSID of
the association that it replaced. -/
structure IsFarewell (ops : List Op) (m : Bytes) : Prop where
  deauth : byteAt m 0 = kFcDeauth
  from_us : addr2 m = (run ops).own_
  replaced : ∃ before bss snonce now_ms after,
    ops = before ++ Op.join bss snonce now_ms :: after ∧
    (∀ op ∈ after, ∀ b n t, op ≠ .join b n t) ∧
    ((run before).join bss snonce now_ms).2 = true ∧
    (run before).authenticated_ = true ∧ addr1 m = (run before).bssid_

/-- The queue of a run: at most one leading farewell, and then frames to the current
access point. -/
def WellAddressed (ops : List Op) : Prop :=
  ∃ lead rest, (run ops).tx_ = lead ++ rest ∧ lead.length ≤ 1 ∧
    (∀ m ∈ lead, IsFarewell ops m) ∧ (∀ m ∈ rest, Addressed (run ops) m)

theorem isFarewell_more {ops : List Op} {m : Bytes} {op : Op} (h : IsFarewell ops m)
    (hjoin : ∀ bss snonce now_ms, op ≠ .join bss snonce now_ms)
    (hown : ((run ops).step op).own_ = (run ops).own_) : IsFarewell (ops ++ [op]) m := by
  obtain ⟨hd, hf, before, bss, snonce, now_ms, after, hops, hafter, hacc, ha, hto⟩ := h
  refine ⟨hd, ?_, before, bss, snonce, now_ms, after ++ [op], by simp [hops], ?_, hacc, ha, hto⟩
  · rw [run_snoc, hown]
    exact hf
  · intro x hx
    rcases List.mem_append.mp hx with hx | hx
    · exact hafter x hx
    · rw [List.mem_singleton] at hx
      rw [hx]
      exact hjoin

theorem isFarewell_join {ops : List Op} {bss : BssEntry} {snonce : Option (Octets 32)}
    {now_ms : UInt32} (hacc : ((run ops).join bss snonce now_ms).2 = true)
    (ha : (run ops).authenticated_ = true)
    (hown : ((run ops).step (.join bss snonce now_ms)).own_ = (run ops).own_) :
    IsFarewell (ops ++ [.join bss snonce now_ms])
      (assign_seq (build_deauth (run ops).own_ (run ops).bssid_ 3) (run ops).next_seq.1) := by
  have haddr := addressed_deauth (run ops) 3 (run ops).next_seq.1
  refine ⟨?_, ?_, ops, bss, snonce, now_ms, [], rfl, by simp, hacc, ha, haddr.to_ap⟩
  · rw [byteAt_assign_seq _ _ (by decide)]
    rfl
  · rw [run_snoc, hown]
    exact haddr.from_us

theorem wellAddressed_run (ops : List Op) : WellAddressed ops := by
  induction ops using List.reverseRecOn with
  | nil => exact ⟨[], [], rfl, by simp, by simp, by simp⟩
  | append_singleton ops op ih =>
    obtain ⟨lead, rest, htx, hlen, hlead, hrest⟩ := ih
    unfold WellAddressed
    rw [run_snoc]
    have he := tx_effect_step op (roomy_run ops)
    cases he with
    | cleared hcl => exact ⟨[], [], hcl, by simp, by simp, by simp⟩
    | goodbye m hm hto =>
      refine ⟨[], [m], hm, by simp, by simp, ?_⟩
      intro x hx
      rw [List.mem_singleton] at hx
      rw [hx]
      exact hto
    | kept hjoin hown hbssid more hmore hto =>
      refine ⟨lead, rest ++ more, by rw [hmore, htx, List.append_assoc], hlen, ?_, ?_⟩
      · intro x hx
        exact isFarewell_more (hlead x hx) hjoin hown
      · intro x hx
        rcases List.mem_append.mp hx with hx | hx
        · exact addressed_of_same hown hbssid (hrest x hx)
        · exact addressed_of_same hown hbssid (hto x hx)
    | popped hjoin hown hbssid m hm =>
      rw [htx] at hm
      cases lead with
      | nil =>
        rw [List.nil_append] at hm
        refine ⟨[], _, rfl, by simp, by simp, ?_⟩
        intro x hx
        exact addressed_of_same hown hbssid (hrest x (by rw [hm]; exact List.mem_cons_of_mem _ hx))
      | cons d lead =>
        rw [List.cons_append, List.cons.injEq] at hm
        rw [← hm.2]
        refine ⟨lead, rest, rfl, ?_, ?_, ?_⟩
        · rw [List.length_cons] at hlen
          omega
        · intro x hx
          exact isFarewell_more (hlead x (List.mem_cons_of_mem _ hx)) hjoin hown
        · intro x hx
          exact addressed_of_same hown hbssid (hrest x hx)
    | joined bss snonce now_ms hop hacc hown m hm hto =>
      subst hop
      have hrest' : ∀ x ∈ [m], Addressed ((run ops).step (.join bss snonce now_ms)) x := by
        intro x hx
        rw [List.mem_singleton] at hx
        rw [hx]
        exact hto
      rcases hm with hm | ⟨ha, hm⟩
      · exact ⟨[], [m], hm, by simp, by simp, hrest'⟩
      · refine ⟨[_], [m], hm, by simp, ?_, hrest'⟩
        intro x hx
        rw [List.mem_singleton] at hx
        rw [hx]
        exact isFarewell_join hacc ha hown

/-- In every state that any order of calls reaches, the queue keeps its bound. No request
is ever the frame that the bound drops: each call that gets to `send_auth` or
`send_assoc` finds room there, so the request goes in and the try counts (an SSID that no
request can encode ends the association instead). And what waits in the queue goes from
this station to its access point, behind at most one farewell to the one before. -/
theorem no_request_is_ever_dropped (ops : List Op) :
    (run ops).pending_tx ≤ kMaxTxQueue ∧
    (∀ op m now_ms, SendsAuth (run ops) op m now_ms →
      (run ops).step op = m.send_auth now_ms ∧ m.tx_.length < kMaxTxQueue ∧
      (m.send_auth now_ms).tx_ = m.tx_ ++ [m.auth_request] ∧
      (m.send_auth now_ms).tries_ = m.tries_ + 1) ∧
    (∀ op m now_ms, SendsAssoc (run ops) op m now_ms →
      (run ops).step op = m.send_assoc now_ms ∧ m.tx_.length < kMaxTxQueue ∧
      (m.assoc_request ≠ [] →
        (m.send_assoc now_ms).tx_ = m.tx_ ++ [assign_seq m.assoc_request m.next_seq.1] ∧
        (m.send_assoc now_ms).tries_ = m.tries_ + 1)) ∧
    WellAddressed ops := by
  have hr := roomy_run ops
  refine ⟨hr.bound, ?_, ?_, wellAddressed_run ops⟩
  · intro op m now_ms h
    have hroom := sendsAuth_room hr h
    exact ⟨sendsAuth_step h, hroom, send_auth_room now_ms hroom⟩
  · intro op m now_ms h
    have hroom := sendsAssoc_room hr h
    refine ⟨sendsAssoc_step h, hroom, ?_⟩
    intro hreq
    obtain ⟨h1, h2, -⟩ := send_assoc_room now_ms hroom hreq
    exact ⟨h1, h2⟩

/-- The law on the second authentication request of a station that nobody answers. -/
theorem a_second_request_goes_in :
    (run (demoHandshake.take 2)).tries_ = 1 ∧
      ((run (demoHandshake.take 2)).step (.tick 400)).tries_ = 2 := by
  have htries : (run (demoHandshake.take 2)).tries_ = 1 := by decide +kernel
  have hsends : SendsAuth (run (demoHandshake.take 2)) (.tick 400)
      (run (demoHandshake.take 2)) 400 :=
    .tick 400 (by decide +kernel) (by decide +kernel) (by decide +kernel)
  obtain ⟨hstep, -, -, ht⟩ := (no_request_is_ever_dropped (demoHandshake.take 2)).2.1 _ _ _ hsends
  refine ⟨htries, ?_⟩
  rw [hstep, ht, htries]

end devourer.sta.StationSm
