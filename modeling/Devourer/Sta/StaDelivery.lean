-- What reaches the host over a protected link: a frame that was sealed for it,
-- with the addresses that it was sealed with, and each one once. Then the two
-- ways of one frame, from the host to the access point and back.
import Mathlib.Data.List.Perm.Subperm
import Devourer.Sta.StaLink

namespace devourer.sta

/-! ## A protected link stays one -/

namespace StationSm

theorem security_send_assoc (s : StationSm) (now : UInt32) :
    (s.send_assoc now).security_ = s.security_ := by
  unfold send_assoc
  split
  · rfl
  · have hq : (s.next_seq.2.queue (assign_seq s.assoc_request s.next_seq.1)).1.security_ =
        s.security_ := congrArg (fun x => x.2.2.1)
      (core_queue s.next_seq.2 (assign_seq s.assoc_request s.next_seq.1))
    dsimp only
    split
    · exact hq
    · exact hq

theorem security_send_auth (s : StationSm) (now : UInt32) :
    (s.send_auth now).security_ = s.security_ := congrArg (fun x => x.2.2.1) (core_send_auth s now)

theorem security_on_rx (s : StationSm) (frame : Bytes) (now : UInt32) :
    (s.on_rx frame now).security_ = s.security_ := by
  have he := on_rx_effect s frame now
  generalize s.on_rx frame now = t at he ⊢
  cases he with
  | quiet same =>
    rw [same]
  | auth_refused _ status => rfl
  | auth_accepted _ => exact security_send_assoc s.auth_done now
  | assoc_refused _ status => rfl
  | assoc_open _ _ aid _ => rfl
  | assoc_wpa2 _ _ aid _ =>
    unfold start_four_way
    split
    · rfl
    · rfl
  | ended _ _ reason => rfl
  | eapol _ hh => rw [hh.rest]

theorem security_on_decrypted (s : StationSm) (msdu : Bytes) (now : UInt32) :
    (s.on_decrypted_msdu msdu now).1.security_ = s.security_ := by
  rcases on_decrypted_msdu_effect s msdu now with hq | hh
  · rw [hq]
  · rw [hh.rest]

theorem security_own {s : StationSm} {op : Op} (h : Own op) :
    (s.step op).security_ = s.security_ := by
  cases h with
  | join bss snonce now =>
    obtain ⟨rsn, ⟨why, hj⟩ | ⟨-, n, hj⟩⟩ := join_effect s bss snonce now
    · simp only [step, hj]
      rfl
    · simp only [step, hj]
      rw [security_send_auth]
      exact congrArg (fun x => x.2.2.1) (core_farewell { s with ap_rsn_ := rsn })
  | leave reason =>
    simp only [step, leave]
    split
    · rfl
    · split
      · exact congrArg (fun x => x.2.2.1) (core_queue_deauth { s with tx_ := [] } reason)
      · rfl
  | tick now =>
    simp only [step]
    rcases tick_effect s now with ht | ⟨why, ht⟩ | ⟨-, -, ht⟩ | ⟨-, -, ht⟩
    · rw [ht]
    · rw [ht]
      rfl
    · rw [ht, security_send_auth]
    · rw [ht, security_send_assoc]
  | link_lost =>
    simp only [step, link_lost]
    split
    · rfl
    · rfl
  | pop_tx out =>
    simp only [step, pop_tx]
    split
    · rfl
    · rfl

end StationSm

/-! ## What one operation shows -/

/-- The Ethernet frame that a data frame with this MSDU is to the host. -/
def eth_of (hdr plain : Bytes) : Option Bytes :=
  msdu_to_eth (data_da hdr (byteAt hdr 1)) (data_sa hdr (byteAt hdr 1)) plain 2048

/-- The facts of a frame that was opened, of whatever sender. -/
structure Genuine (o : Opening) : Prop where
  pn_le : o.pn ≤ kCcmpPnMax
  nonce : (ccmp_nonce o.mpdu o.hlen (StationSm.addr2 o.mpdu) o.pn).isSome = true
  aad : (ccmp_aad o.mpdu o.hlen).isSome = true
  tid : o.tid = if o.group then CcmpReplay.kNonQosTid
    else if is_qos_data (byteAt o.mpdu 0) then ((byteAt o.mpdu 24 &&& 0x0f).toNat : Int)
    else CcmpReplay.kNonQosTid
  three : byteAt o.mpdu 1 &&& kFcToDs = 0

/-- The host gets what was opened, one frame for each at most. -/
structure Shown (es : List Event) : Prop where
  genuine : ∀ o ∈ es.filterMap Event.opening, Genuine o
  taps : (es.filterMap Event.eth).Sublist
    ((es.filterMap Event.opening).filterMap fun o => eth_of o.mpdu o.plain)

namespace Shown

theorem nil : Shown [] := by
  refine ⟨?_, List.Sublist.refl _⟩
  intro o ho
  cases ho

theorem append {es fs : List Event} (h : Shown es) (h' : Shown fs) : Shown (es ++ fs) := by
  refine ⟨?_, ?_⟩
  · intro o ho
    rw [List.filterMap_append] at ho
    rcases List.mem_append.mp ho with ho | ho
    · exact h.genuine o ho
    · exact h'.genuine o ho
  · simp only [List.filterMap_append]
    exact h.taps.append h'.taps

/-- A frame that is sealed shows the host nothing. -/
theorem air_msdu (c : StaClient) (msdu : Bytes) (da : Mac) (tk : Option (Octets 16))
    (from_host : Bool) : Shown (c.air_msdu msdu da tk from_host).2.1 := by
  unfold StaClient.air_msdu
  split
  · exact nil
  · unfold StaClient.air_sealed
    dsimp only
    split
    · exact nil
    split
    · exact nil
    · refine ⟨?_, List.Sublist.refl _⟩
      intro o ho
      cases ho

theorem opened {o : Opening} (ho : Genuine o) {es : List Event} (h : Shown es) :
    Shown (.opened o :: es) := by
  refine ⟨?_, ?_⟩
  · intro p hp
    rcases List.mem_cons.mp hp with rfl | hp
    · exact ho
    · exact h.genuine p hp
  · refine h.taps.trans ?_
    show List.Sublist _ ((o :: es.filterMap Event.opening).filterMap _)
    exact (List.sublist_cons_self _ _).filterMap _

/-- The frame that was opened is the one that the host gets. -/
theorem tapped {o : Opening} (ho : Genuine o) :
    Shown (.opened o :: StaClient.tap_up (data_da o.mpdu (byteAt o.mpdu 1))
      (data_sa o.mpdu (byteAt o.mpdu 1)) o.plain) := by
  unfold StaClient.tap_up
  cases he : msdu_to_eth (data_da o.mpdu (byteAt o.mpdu 1)) (data_sa o.mpdu (byteAt o.mpdu 1))
      o.plain 2048 with
  | none => exact opened ho nil
  | some e =>
    have heth : eth_of o.mpdu o.plain = some e := he
    refine ⟨?_, ?_⟩
    · intro p hp
      rw [List.mem_singleton.mp hp]
      exact ho
    · simp [List.filterMap_cons, Event.opening, Event.eth, heth]

end Shown

/-- The packet number of a header has 48 bits. -/
theorem ccmp_header_pn_le (b : Bytes) : ccmp_header_pn b ≤ kCcmpPnMax := by
  have hpart : ∀ (x : UInt8) (k : UInt64), k.toNat ≤ 40 → (x.toUInt64 <<< k).toNat < 2 ^ 48 := by
    intro x k hk
    have hmod : k.toNat % 64 = k.toNat := Nat.mod_eq_of_lt (by omega)
    have hx : x.toUInt64.toNat < 2 ^ 8 := by
      rw [UInt8.toNat_toUInt64]
      exact x.toNat_lt
    rw [UInt64.toNat_shiftLeft, hmod, Nat.shiftLeft_eq]
    refine Nat.lt_of_le_of_lt (Nat.mod_le _ _) ?_
    generalize x.toUInt64.toNat = n at hx
    generalize k.toNat = m at hk
    have hpow : 2 ^ m ≤ 2 ^ 40 := Nat.pow_le_pow_right Nat.two_pos hk
    calc n * 2 ^ m ≤ n * 2 ^ 40 := Nat.mul_le_mul_left n hpow
      _ < 2 ^ 8 * 2 ^ 40 := Nat.mul_lt_mul_of_pos_right hx (Nat.two_pow_pos 40)
      _ = 2 ^ 48 := rfl
  have hlow : (byteAt b 0).toUInt64.toNat < 2 ^ 48 := by
    rw [UInt8.toNat_toUInt64]
    exact Nat.lt_of_lt_of_le (byteAt b 0).toNat_lt (by decide)
  apply UInt64.le_iff_toNat_le.mpr
  have hmax : kCcmpPnMax.toNat = 2 ^ 48 - 1 := rfl
  rw [hmax]
  apply Nat.le_sub_one_of_lt
  unfold ccmp_header_pn
  simp only [UInt64.toNat_or]
  exact Nat.or_lt_two_pow (Nat.or_lt_two_pow (Nat.or_lt_two_pow (Nat.or_lt_two_pow
    (Nat.or_lt_two_pow hlow (hpart _ 8 (by decide))) (hpart _ 16 (by decide)))
    (hpart _ 24 (by decide))) (hpart _ 32 (by decide))) (hpart _ 40 (by decide))

/-- A frame that opens has a number of 48 bits, a nonce and authenticated data. -/
theorem of_decrypt {crypto : CryptoOps} {tk : Octets 16} {mpdu plain : Bytes}
    {hlen : Nat} {a2 : Mac} {out : Bool} {out_cap pn : UInt64}
    (h : ccmp_decrypt crypto tk mpdu hlen a2 out out_cap = some (plain, pn)) :
    pn ≤ kCcmpPnMax ∧ (ccmp_nonce mpdu hlen a2 pn).isSome = true ∧
      (ccmp_aad mpdu hlen).isSome = true := by
  unfold ccmp_decrypt at h
  dsimp only at h
  split at h
  · cases h
  split at h
  · cases h
  split at h
  · cases h
  split at h
  · cases h
  split at h
  · cases h
  split at h
  · rename_i aad nonce haad hnonce
    obtain ⟨p, -, hp⟩ := Option.map_eq_some_iff.mp h
    obtain ⟨-, rfl⟩ := Prod.mk.inj hp
    refine ⟨ccmp_header_pn_le _, ?_, by rw [haad]; rfl⟩
    rw [hnonce]
    rfl
  · cases h

namespace StaClient

variable {c : StaClient}

/-- What is delivered of a frame that was opened. -/
theorem shown_deliver (c : StaClient) {mpdu : Bytes} {d : DataFrame} {o : Opening}
    (ho : Genuine o) (hm : o.mpdu = mpdu) (hda : d.da = data_da mpdu (byteAt mpdu 1))
    (hsa : d.sa = data_sa mpdu (byteAt mpdu 1)) (pairwise : Bool) (tk : Octets 16) (now : UInt32) :
    Shown (.opened o :: (c.deliver d pairwise tk o.plain now).2) ∧
      (c.deliver d pairwise tk o.plain now).1.g_sm.security_ = c.g_sm.security_ := by
  have htap : Shown (.opened o :: tap_up d.da d.sa o.plain) := by
    rw [hda, hsa, ← hm]
    exact Shown.tapped ho
  unfold deliver
  split
  · exact ⟨Shown.opened ho Shown.nil, rfl⟩
  split
  · have hsec := StationSm.security_on_decrypted c.g_sm o.plain now
    dsimp only
    cases (c.g_sm.on_decrypted_msdu o.plain now).2 with
    | none => exact ⟨htap, hsec⟩
    | some reply =>
      unfold answer
      dsimp only
      split
      · refine ⟨Shown.opened ho Shown.nil, ?_⟩
        rw [sm_note_keys]
        exact hsec
      · refine ⟨Shown.opened ho (Shown.air_msdu _ _ _ _ _), ?_⟩
        rw [sm_note_keys, show (air_msdu _ _ _ _ _).1.g_sm = _ from
          congrArg Prod.fst (machine_air_msdu _ _ _ _ _)]
        exact hsec
  · exact ⟨htap, rfl⟩

theorem shown_rx_protected (c : StaClient) {e : StaClient} {mpdu : Bytes} {d : DataFrame}
    (hd : Admitted e mpdu d) (now : UInt32) :
    Shown (c.rx_protected mpdu d now).2 ∧
      (c.rx_protected mpdu d now).1.g_sm.security_ = c.g_sm.security_ := by
  unfold rx_protected
  split
  · exact ⟨Shown.nil, rfl⟩
  split
  · exact ⟨Shown.nil, rfl⟩
  split
  · exact ⟨Shown.nil, rfl⟩
  rename_i tk pairwise _
  split
  · exact ⟨Shown.nil, rfl⟩
  rename_i plain pn hdec
  dsimp only
  have hsm : (c.accept pairwise pn d.tid).1.g_sm = c.g_sm :=
    congrArg Prod.fst (machine_accept c pairwise pn d.tid)
  split
  · exact ⟨Shown.nil, by rw [hsm]⟩
  · obtain ⟨hpn, hnonce, haad⟩ := of_decrypt hdec
    have ho : Genuine ⟨!pairwise, if pairwise then c.g_ptk_gen_seen else c.g_gtk_gen_seen, tk, mpdu,
        d.hlen, if pairwise then d.tid else CcmpReplay.kNonQosTid, pn, plain⟩ := by
      refine ⟨hpn, hnonce, haad, ?_, hd.from_ds.2⟩
      cases pairwise with
      | true =>
        show d.tid = _
        rw [hd.frame]
        rfl
      | false => rfl
    have hdel := (c.accept pairwise pn d.tid).1.shown_deliver ho (d := d) rfl
      (by rw [hd.frame]) (by rw [hd.frame]) pairwise tk now
    rw [hsm] at hdel
    exact hdel

theorem shown_rx_plain (mpdu : Bytes) (d : DataFrame) (hsec : c.g_sm.security_ ≠ .Open) :
    (c.rx_plain mpdu d) = (c, []) := by
  unfold rx_plain
  rw [if_pos hsec]

theorem shown_rx_frame (hsec : c.g_sm.security_ ≠ .Open) (mpdu : Bytes) (now : UInt32) :
    Shown (c.rx_frame mpdu now).2 ∧
      (c.rx_frame mpdu now).1.g_sm.security_ = c.g_sm.security_ := by
  unfold rx_frame
  split
  · exact ⟨Shown.nil, rfl⟩
  have hst : (c.rx_station mpdu now).g_sm.security_ = c.g_sm.security_ := by
    rw [sm_rx_station, StationSm.security_on_rx]
  dsimp only
  split
  · exact ⟨Shown.nil, hst⟩
  rcases (c.rx_station mpdu now).rx_data_cases mpdu now with
    ⟨g, hr⟩ | ⟨d, g, hd, ⟨-, hr⟩ | ⟨-, hr⟩⟩
  · rw [hr]
    exact ⟨Shown.nil, hst⟩
  · rw [hr, shown_rx_plain mpdu d (by rw [hst]; exact hsec)]
    exact ⟨Shown.nil, hst⟩
  · rw [hr]
    obtain ⟨hshown, hsame⟩ :=
      ({ c.rx_station mpdu now with g_rx_dup := g } : StaClient).shown_rx_protected
        (admitted_some hd) now
    exact ⟨hshown, hsame.trans hst⟩

theorem shown_tap_down (c : StaClient) (eth : Bytes) :
    Shown (c.tap_down_one eth).2 ∧ (c.tap_down_one eth).1.g_sm.security_ = c.g_sm.security_ := by
  unfold tap_down_one
  dsimp only
  split
  · exact ⟨Shown.nil, rfl⟩
  rename_i msdu da sa _
  split
  · exact ⟨Shown.nil, rfl⟩
  split
  · exact ⟨Shown.nil, rfl⟩
  have hsm := congrArg (fun x => x.1.security_) (machine_air_msdu
    { c with ledger := { c.ledger with g_tap_rx := c.ledger.g_tap_rx + 1 } } msdu da none true)
  refine ⟨Shown.air_msdu _ _ _ _ _, ?_⟩
  split
  · exact hsm
  · exact hsm

theorem security_drain (n : Nat) (c : StaClient) :
    (drain n c).g_sm.security_ = c.g_sm.security_ := by
  induction n generalizing c with
  | zero => rfl
  | succ n ih =>
    unfold drain StationSm.pop_tx
    cases hq : c.g_sm.tx_ with
    | nil => rfl
    | cons m rest =>
      dsimp only
      rw [ih, show (enqueue _ _).1.g_sm = _ from congrArg Prod.fst (held_enqueue _ _)]
      rfl

/-- One operation on a protected link shows the host what it opened, and the link stays
protected. -/
theorem shown_step (hsec : c.g_sm.security_ ≠ .Open) (op : Op) :
    Shown (c.step op).2 ∧ (c.step op).1.g_sm.security_ = c.g_sm.security_ := by
  cases op with
  | rx mpdu now => exact shown_rx_frame hsec mpdu now
  | tap_down eth => exact c.shown_tap_down eth
  | probe chan => exact ⟨Shown.nil, congrArg (fun x => x.1.security_) (held_probe c chan)⟩
  | join bss snonce now => exact ⟨Shown.nil, StationSm.security_own (.join bss snonce now)⟩
  | tick now => exact ⟨Shown.nil, StationSm.security_own (.tick now)⟩
  | link_lost => exact ⟨Shown.nil, StationSm.security_own .link_lost⟩
  | leave => exact ⟨Shown.nil, StationSm.security_own (.leave 3)⟩
  | drain => exact ⟨Shown.nil, security_drain _ c⟩
  | send_batch ok => exact ⟨Shown.nil, rfl⟩

end StaClient

/-- Every run of a client with a passphrase. -/
theorem shown_watch (u : StaClient.Setup) (hpsk : u.psk ≠ []) (ops : List StaClient.Op) :
    Shown (watch u ops).events := by
  have hall : (watch u ops).client.g_sm.security_ ≠ .Open ∧ Shown (watch u ops).events := by
    apply Runs.after_keeps Watch.step
      (P := fun w => w.client.g_sm.security_ ≠ .Open ∧ Shown w.events)
    · refine ⟨?_, Shown.nil⟩
      unfold StaClient.start
      dsimp only
      rw [if_neg hpsk]
      exact fun h => nomatch h
    · intro w op h
      obtain ⟨hshown, hsec⟩ := StaClient.shown_step h.1 op
      refine ⟨?_, h.2.append hshown⟩
      show (w.client.step op).1.g_sm.security_ ≠ .Open
      rw [hsec]
      exact h.1
  exact hall.2

/-! ## The frames that were sealed for it -/

/-- What the authentication of a frame that opens promises of the call that sealed it. -/
structure Authentic (s : Sealing) (o : Opening) : Prop where
  tk : o.tk = s.tk
  nonce : ccmp_nonce o.mpdu o.hlen (StationSm.addr2 o.mpdu) o.pn = s.nonce
  aad : ccmp_aad o.mpdu o.hlen = ccmp_aad s.hdr s.hdr.length
  plain : o.plain = s.plain

instance decidableAuthentic (s : Sealing) (o : Opening) : Decidable (Authentic s o) :=
  decidable_of_iff (o.tk = s.tk ∧
      ccmp_nonce o.mpdu o.hlen (StationSm.addr2 o.mpdu) o.pn = s.nonce ∧
      ccmp_aad o.mpdu o.hlen = ccmp_aad s.hdr s.hdr.length ∧ o.plain = s.plain)
    ⟨fun h => ⟨h.1, h.2.1, h.2.2.1, h.2.2.2⟩, fun h => ⟨h.tk, h.nonce, h.aad, h.plain⟩⟩

theorem need_of_aad {hdr : Bytes} {len : Nat} (h : (ccmp_aad hdr len).isSome = true) :
    ccmp_need hdr ≤ len := by
  unfold ccmp_aad at h
  split at h
  · cases h
  split at h
  · cases h
  · omega

theorem four_addr_of_bits {hdr : Bytes} (hto : byteAt hdr 1 &&& kFcToDs ≠ 0)
    (hfrom : byteAt hdr 1 &&& kFcFromDs ≠ 0) : four_addr hdr = true := by
  have hall : ∀ i : Fin 256, UInt8.ofNat i.val &&& kFcToDs ≠ 0 →
      UInt8.ofNat i.val &&& kFcFromDs ≠ 0 →
      (UInt8.ofNat i.val &&& (kFcToDs ||| kFcFromDs) == kFcToDs ||| kFcFromDs) = true := by
    decide +kernel
  have h := hall ⟨(byteAt hdr 1).toNat, (byteAt hdr 1).toNat_lt⟩
  rw [UInt8.ofNat_toNat] at h
  exact h hto hfrom

/-- A header of three addresses has QoS Control right behind them. -/
theorem qos_off_three {hdr : Bytes} (h : byteAt hdr 1 &&& kFcToDs = 0) : qos_off hdr = 24 := by
  unfold qos_off
  split
  · rename_i hfour
    have hboth : byteAt hdr 1 &&& (kFcToDs ||| kFcFromDs) = 0x03 &&& (kFcToDs ||| kFcFromDs) := by
      unfold four_addr at hfour
      rw [beq_iff_eq.mp hfour]
      rfl
    have hone : byteAt hdr 1 &&& kFcToDs = 0x03 &&& kFcToDs := agree_part hboth rfl
    rw [h] at hone
    exact absurd hone (by decide)
  · rfl

/-- The immutable fields of a header tell both addresses. -/
theorem eth_of_congr {a b : Bytes} (h : ImmutableFields a b) (plain : Bytes) :
    eth_of a plain = eth_of b plain := by
  have hto : byteAt a 1 &&& kFcToDs = byteAt b 1 &&& kFcToDs := h.to_ds
  have hfrom : byteAt a 1 &&& kFcFromDs = byteAt b 1 &&& kFcFromDs := h.from_ds
  have h1 : Octets.slice a 4 6 = Octets.slice b 4 6 := h.addr1
  have h2 : Octets.slice a 10 6 = Octets.slice b 10 6 := h.addr2
  have h3 : Octets.slice a 16 6 = Octets.slice b 16 6 := h.addr3
  have hda : data_da a (byteAt a 1) = data_da b (byteAt b 1) := by
    unfold data_da
    rw [hto, h1, h3]
  have hsa : data_sa a (byteAt a 1) = data_sa b (byteAt b 1) := by
    unfold data_sa
    rw [hto, hfrom, h2, h3]
    split
    · rename_i hboth
      rw [← hto, ← hfrom] at hboth
      exact h.addr4 (four_addr_of_bits hboth.1 hboth.2)
    · rfl
  unfold eth_of
  rw [hda, hsa]

namespace Authentic

variable {s : Sealing} {o p : Opening}

theorem fields (h : Authentic s o) (ho : Genuine o) : ImmutableFields o.mpdu s.hdr := by
  have hs : (ccmp_aad s.hdr s.hdr.length).isSome = true := by
    rw [← h.aad]
    exact ho.aad
  exact ((aad_eq_iff (need_of_aad ho.aad) (need_of_aad hs)).mp h.aad).2

/-- Of a frame from the access point the fields tell the traffic id. -/
theorem tid_eq (h : Authentic s o) (h' : Authentic s p) (ho : Genuine o) (hp : Genuine p)
    (hg : o.group = p.group) : o.tid = p.tid := by
  have hf := ((aad_eq_iff (need_of_aad ho.aad) (need_of_aad hp.aad)).mp (h.aad.trans h'.aad.symm)).2
  have hqos := is_qos_data_eq hf.type hf.qos_bit
  rw [ho.tid, hp.tid, hg, ← hqos]
  split
  · rfl
  split
  · rename_i hq
    have ht := hf.tid hq
    unfold tid at ht
    rw [qos_off_three ho.three, qos_off_three hp.three] at ht
    rw [ht]
  · rfl

/-- A call that sealed two frames that were opened gave both its number. -/
theorem same_number (h : Authentic s o) (h' : Authentic s p) (ho : Genuine o) (hp : Genuine p)
    (hg : o.group = p.group) : (o.tid, o.pn) = (p.tid, p.pn) := by
  obtain ⟨nonce, hn⟩ := Option.isSome_iff_exists.mp ho.nonce
  have hn' := (h'.nonce.trans h.nonce.symm).trans hn
  rw [tid_eq h h' ho hp hg, (ccmp_nonce_inj ho.pn_le hp.pn_le hn hn').2.2]

end Authentic

/-- Members of one fibre are apart, and so are members of two. -/
theorem pairwise_of_fibres {α β : Type} [DecidableEq β] {R : α → α → Prop} (f : α → β) {l : List α}
    (h : ∀ b, (l.filter fun a => f a == b).Pairwise R)
    (hx : ∀ a ∈ l, ∀ b ∈ l, f a ≠ f b → R a b) : l.Pairwise R := by
  induction l with
  | nil => exact List.Pairwise.nil
  | cons a l ih =>
    refine List.Pairwise.cons ?_ (ih ?_ ?_)
    · intro b hb
      by_cases hab : f a = f b
      · have hhead := h (f a)
        rw [List.filter_cons_of_pos (by simp)] at hhead
        exact (List.pairwise_cons.mp hhead).1 b (by simp [hb, hab])
      · exact hx a (by simp) b (by simp [hb]) hab
    · intro b
      have hb := h b
      rw [List.filter_cons] at hb
      split at hb
      · exact (List.pairwise_cons.mp hb).2
      · exact hb
    · intro b hb c hc
      exact hx b (by simp [hb]) c (by simp [hc])

/-- Frames that one key of a side opened, under numbers that it took once each, are of different
calls. -/
theorem SideSound.sealed_apart {keys : List (Octets 16)} {slot : KeySlot} {seen : UInt32}
    {win : CcmpReplay} {os : List Opening} (hs : SideSound keys slot seen win os) (hn : keys.Nodup)
    {b : Bool} (hos : ∀ o ∈ os, Genuine o ∧ o.group = b) {g : Opening → Sealing}
    (hg : ∀ o ∈ os, Authentic (g o) o) : os.Pairwise fun o p => g o ≠ g p := by
  apply hs.once.imp_of_mem
  intro o p ho hp hnum heq
  obtain ⟨hwo, hbo⟩ := hos o ho
  obtain ⟨hwp, hbp⟩ := hos p hp
  have hao := hg o ho
  have hap := hg p hp
  rw [← heq] at hap
  have hko := (hs.installed o ho).1
  rw [hao.tk.trans hap.tk.symm] at hko
  exact hnum (hko.gen_eq hn (hs.installed p hp).1)
    (hao.same_number hap hwo hwp (hbo.trans hbp.symm))

/-- No call sealed two of the frames that a run opened. -/
theorem sealed_apart {w : Watch} (hrest : Rest w.ptks w.gtks w.client w.events)
    (hshown : Shown w.events) (hkeys : (w.ptks ++ w.gtks).Nodup)
    (hptks : w.ptks.length < UInt32.size) (hgtks : w.gtks.length < UInt32.size)
    {g : Opening → Sealing} (hg : ∀ o ∈ w.openings, Authentic (g o) o) :
    w.openings.Pairwise fun o p => g o ≠ g p := by
  obtain ⟨hpk, hgk, hcross⟩ := List.nodup_append.mp hkeys
  have hpair := hrest.sound.pairwise hptks
  have hgroup := hrest.sound.group hgtks
  apply pairwise_of_fibres fun o => o.group
  · intro b
    have hin : ∀ o ∈ opened b w.events, o ∈ w.openings ∧ o.group = b := by
      intro o ho
      obtain ⟨h1, h2⟩ := List.mem_filter.mp ho
      exact ⟨h1, by simpa using h2⟩
    have hos : ∀ o ∈ opened b w.events, Genuine o ∧ o.group = b :=
      fun o ho => ⟨hshown.genuine o (hin o ho).1, (hin o ho).2⟩
    have hgs : ∀ o ∈ opened b w.events, Authentic (g o) o := fun o ho => hg o (hin o ho).1
    cases b with
    | true => exact hgroup.sealed_apart hgk hos hgs
    | false => exact hpair.sealed_apart hpk hos hgs
  · intro o ho p hp hne heq
    have htk : o.tk = p.tk := by
      rw [(hg o ho).tk, (hg p hp).tk, heq]
    have hkey : ∀ q ∈ w.openings, (q.group = false → q.tk ∈ w.ptks) ∧
        (q.group = true → q.tk ∈ w.gtks) := by
      intro q hq
      refine ⟨fun hb => ?_, fun hb => ?_⟩
      · exact (hpair.installed q (List.mem_filter.mpr ⟨hq, by simp [hb]⟩)).1.mem
      · exact (hgroup.installed q (List.mem_filter.mpr ⟨hq, by simp [hb]⟩)).1.mem
    -- the two kinds of keys have none in common
    cases hbo : o.group with
    | true =>
      have hbp : p.group = false := by
        cases hb : p.group with
        | true => exact absurd (hbo.trans hb.symm) hne
        | false => rfl
      exact hcross p.tk ((hkey p hp).1 hbp) o.tk ((hkey o ho).2 hbo) htk.symm
    | false =>
      have hbp : p.group = true := by
        cases hb : p.group with
        | true => rfl
        | false => exact absurd (hbo.trans hb.symm) hne
      exact hcross o.tk ((hkey o ho).1 hbo) p.tk ((hkey p hp).2 hbp) htk

/-- Over a protected link the host gets no frame that was not sealed for it, none with other
addresses than it was sealed with, and each at most as often as it was sealed. It is so whatever
comes in, as long as the frames that open are ones that were sealed and no key comes back. -/
theorem the_host_gets_what_was_sealed (u : StaClient.Setup) (ops : List StaClient.Op)
    (sent : List Sealing) (hpsk : u.psk ≠ [])
    (hkeys : ((watch u ops).ptks ++ (watch u ops).gtks).Nodup)
    (hptks : (watch u ops).ptks.length < UInt32.size)
    (hgtks : (watch u ops).gtks.length < UInt32.size)
    (hauth : ∀ o ∈ (watch u ops).openings, ∃ s ∈ sent, Authentic s o) :
    (watch u ops).taps.Subperm (sent.filterMap fun s => eth_of s.hdr s.plain) := by
  have hshown := shown_watch u hpsk ops
  have hrest := rest_watch u ops
  generalize watch u ops = w at hkeys hptks hgtks hauth hshown hrest ⊢
  have : Nonempty Sealing := ⟨⟨.standIn, Octets.zero 16, [], Octets.zero 6, 0, 0, [], false, 0⟩⟩
  choose! g hg using hauth
  have hapart := sealed_apart hrest hshown hkeys hptks hgtks fun o ho => (hg o ho).2
  have hnodup : (w.openings.map g).Nodup := List.pairwise_map.mpr hapart
  have hsub : (w.openings.map g).Subperm sent := by
    apply List.subperm_of_subset hnodup
    intro s hs
    obtain ⟨o, ho, rfl⟩ := List.mem_map.mp hs
    exact (hg o ho).1
  have heth : w.openings.filterMap (fun o => eth_of o.mpdu o.plain) =
      (w.openings.map g).filterMap fun s => eth_of s.hdr s.plain := by
    rw [List.filterMap_map]
    apply List.filterMap_congr
    intro o ho
    have ha := (hg o ho).2
    rw [eth_of_congr (ha.fields (hshown.genuine o ho)), ha.plain]
    rfl
  obtain ⟨l, hperm, hle⟩ := hsub
  have htaps : w.taps.Sublist (w.openings.filterMap fun o => eth_of o.mpdu o.plain) := hshown.taps
  rw [heth] at htaps
  exact htaps.subperm.trans ⟨l.filterMap _, hperm.filterMap _, hle.filterMap _⟩

/-- A frame that the access point of `demoBss` seals for the station. -/
def demoSealing : Sealing :=
  { crypto := .standIn
    tk := (watch demoSetup demoAssociation).client.g_sm.sup_.tk
    hdr := data_hdr_from_ds StationSm.demoJoined.own StationSm.demoJoined.bssid
      StationSm.demoJoined.bssid true 5
    a2 := StationSm.demoJoined.bssid
    pn := 1
    key_id := 0
    plain := append_llc_snap [] 0x0800 ++ [0x45, 0x00]
    out := true
    out_cap := 1000 }

/-- It comes in, and once more. -/
def demoDownlink : List StaClient.Op :=
  demoAssociation ++
    [.rx (demoSealing.frame.getD []) 50, .rx (demoSealing.frame.getD []) 60]

/-- The copy is not the host's. -/
theorem a_copy_is_not_shown_again :
    (watch demoSetup demoDownlink).taps.length = 1 ∧
      (watch demoSetup demoDownlink).taps.Subperm
        ([demoSealing].filterMap fun s => eth_of s.hdr s.plain) := by
  have hkeys : ((watch demoSetup demoDownlink).ptks ++ (watch demoSetup demoDownlink).gtks).Nodup ∧
      (watch demoSetup demoDownlink).ptks.length = 1 ∧
      (watch demoSetup demoDownlink).gtks.length = 1 := by decide +kernel
  refine ⟨by decide +kernel, ?_⟩
  refine the_host_gets_what_was_sealed demoSetup demoDownlink [demoSealing]
    (by decide) hkeys.1 ?_ ?_
    (by decide +kernel)
  · rw [hkeys.2.1]
    decide
  · rw [hkeys.2.2]
    decide

/-! ## What the host sends -/

/-- An Ethernet frame is its two addresses, its type and the rest. -/
theorem eth_parts {eth : Bytes} (h : kEthHdrLen ≤ eth.length) :
    (Octets.slice eth 0 6).val ++ ((Octets.slice eth 6 6).val ++
      ([byteAt eth 12, byteAt eth 13] ++ eth.drop kEthHdrLen)) = eth := by
  have hhead : eth.take kEthHdrLen = (Octets.slice eth 0 kEthHdrLen).val := by
    apply List.ext_getElem
    · rw [List.length_take, (Octets.slice eth 0 kEthHdrLen).property, Nat.min_eq_left h]
    · intro i hi _
      rw [List.length_take] at hi
      simp only [Octets.slice, List.getElem_take, List.getElem_map, List.getElem_range, byteAt]
      rw [Nat.zero_add, List.getD_eq_getElem _ _ (by omega)]
  conv_rhs => rw [← List.take_append_drop kEthHdrLen eth, hhead]
  rfl

theorem length_msdu {eth msdu : Bytes} {da sa : Mac} {cap : Nat}
    (h : eth_to_msdu eth cap = some (msdu, da, sa)) :
    14 ≤ eth.length ∧ msdu.length = 8 + (eth.length - 14) := by
  unfold eth_to_msdu at h
  split at h
  · cases h
  rename_i hlen
  split at h
  · cases h
  simp only [Option.some.injEq, Prod.mk.injEq] at h
  obtain ⟨rfl, -, -⟩ := h
  refine ⟨Nat.not_lt.mp hlen, ?_⟩
  rw [List.length_append, List.length_drop]
  rfl

/-- The MSDU that was made of an Ethernet frame gives the frame back. -/
theorem msdu_to_eth_of {eth msdu : Bytes} {da sa : Mac} {cap out_cap : Nat}
    (h : eth_to_msdu eth cap = some (msdu, da, sa)) (hcap : eth.length ≤ out_cap) :
    msdu_to_eth da sa msdu out_cap = some eth := by
  have hlen : kEthHdrLen ≤ eth.length := (length_msdu h).1
  have hsize : msdu.length = kLlcSnapLen + (eth.length - kEthHdrLen) := (length_msdu h).2
  unfold eth_to_msdu at h
  rw [if_neg (Nat.not_lt.mpr hlen)] at h
  split at h
  · cases h
  simp only [Option.some.injEq, Prod.mk.injEq] at h
  obtain ⟨rfl, rfl, rfl⟩ := h
  have hparts := eth_parts hlen
  have hsnap : is_ethertype_snap ([0xaa, 0xaa, 0x03, 0x00, 0x00, 0x00, byteAt eth 12,
      byteAt eth 13] ++ eth.drop kEthHdrLen) = true := by
    unfold is_ethertype_snap
    rw [hsize, decide_eq_true (Nat.le_add_right _ _)]
    rfl
  unfold msdu_to_eth
  rw [hsnap, hsize, if_neg (by decide), if_neg (by omega)]
  exact congrArg some hparts

/-- The length and the addresses of a header of three addresses. -/
theorem three_addresses (fc0 fc1 : UInt8) (a1 a2 a3 : Mac) (sc : UInt16) :
    let hdr := [fc0, fc1] ++ put_le16 0 ++ a1.val ++ a2.val ++ a3.val ++ put_le16 sc
    hdr.length = 24 ∧ address hdr 4 = a1 ∧ address hdr 10 = a2 ∧ address hdr 16 = a3 := by
  have h1 := a1.property
  have h2 := a2.property
  have h3 := a3.property
  refine ⟨by simp [put_le16, h1, h2, h3], ?_, ?_, ?_⟩
  · rw [List.append_assoc _ a3.val, List.append_assoc _ a2.val, List.append_assoc _ a1.val]
    exact Octets.slice_append _ a1 _ rfl
  · rw [List.append_assoc _ a3.val, List.append_assoc _ a2.val]
    exact Octets.slice_append _ a2 _ (by simp [put_le16, h1])
  · rw [List.append_assoc _ a3.val]
    exact Octets.slice_append _ a3 _ (by simp [put_le16, h1, h2])

section

variable (bssid own dest src : Mac) (seq : UInt16)

theorem header_to_ds :
    (data_hdr_to_ds bssid own dest true seq).length = 24 ∧
      address (data_hdr_to_ds bssid own dest true seq) 4 = bssid ∧
      address (data_hdr_to_ds bssid own dest true seq) 10 = own ∧
      address (data_hdr_to_ds bssid own dest true seq) 16 = dest :=
  three_addresses _ _ _ _ _ _

theorem header_from_ds :
    (data_hdr_from_ds own bssid src true seq).length = 24 ∧
      address (data_hdr_from_ds own bssid src true seq) 4 = own ∧
      address (data_hdr_from_ds own bssid src true seq) 10 = bssid ∧
      address (data_hdr_from_ds own bssid src true seq) 16 = src :=
  three_addresses _ _ _ _ _ _

theorem need_of_data {hdr : Bytes} (h0 : byteAt hdr 0 = kFcData)
    (h1 : byteAt hdr 1 = kFcToDs ||| kFcProtected ∨ byteAt hdr 1 = kFcFromDs ||| kFcProtected) :
    ccmp_need hdr = 24 := by
  unfold ccmp_need four_addr
  rw [h0]
  rcases h1 with h1 | h1
  · rw [h1]
    rfl
  · rw [h1]
    rfl

theorem eth_of_to_ds (plain : Bytes) :
    eth_of (data_hdr_to_ds bssid own dest true seq) plain = msdu_to_eth dest own plain 2048 := by
  obtain ⟨-, -, hsa, hda⟩ := header_to_ds bssid own dest seq
  have h1 : data_da (data_hdr_to_ds bssid own dest true seq) (kFcToDs ||| kFcProtected) = dest :=
    hda
  have h2 : data_sa (data_hdr_to_ds bssid own dest true seq) (kFcToDs ||| kFcProtected) = own := hsa
  show msdu_to_eth (data_da _ (kFcToDs ||| kFcProtected))
    (data_sa _ (kFcToDs ||| kFcProtected)) _ _ = _
  rw [h1, h2]

end

/-- A frame with a header of three addresses that the cipher takes opens again, whatever the air
does to the mutable bits. -/
theorem Sealing.opens (s : Sealing) (hccm : CcmWorks s.crypto) (h24 : s.hdr.length = 24)
    (hneed : ccmp_need s.hdr = 24) (hpn : s.pn ≤ kCcmpPnMax) (hkey : s.key_id < 4)
    (hout : s.out = true) (hcap : 40 + s.plain.length ≤ s.out_cap.toNat) :
    ∃ f, s.frame = some f ∧ f.length = 40 + s.plain.length ∧
      ∀ f' (cap : UInt64), MutableChange 24 f f' → s.plain.length ≤ cap.toNat →
        ccmp_decrypt s.crypto s.tk f' 24 s.a2 true cap = some (s.plain, s.pn) ∧
          ccmp_key_id (f'.drop 24) = s.key_id ∧ byteAt f' 1 &&& kFcProtected ≠ 0 ∧
          SameHeader s.hdr f' := by
  have hwhole : ccmp_need s.hdr ≤ s.hdr.length := by omega
  have hroom : s.hdr.length + 16 + s.plain.length ≤ s.out_cap.toNat := by omega
  obtain ⟨aad, nonce, c, tag, haad, hnonce, henc, hf⟩ :=
    ccmp_encrypt_eq hccm s.tk s.a2 s.key_id hwhole hpn hroom
  have hc : c.length = s.plain.length := s.crypto.encrypt_length henc
  refine ⟨_, by unfold Sealing.frame; rw [hout]; exact hf, ?_, ?_⟩
  · rw [List.length_append, List.length_set, List.length_append, List.length_append,
      tag.property, hc, h24]
    show 24 + (8 + (s.plain.length + 8)) = 40 + s.plain.length
    omega
  · intro f' cap hm hfits
    rw [← h24] at hm ⊢
    exact protected_opens hccm hwhole hpn hkey haad hnonce henc hfits (fun _ => rfl) hm

/-- Headers that CCMP cannot tell apart have the same fields. -/
theorem immutable_of_same {a b : Bytes} (h : SameHeader a b) : ImmutableFields b a := by
  have hneed : ccmp_need b ≤ ccmp_need a := Nat.le_of_eq h.need_eq
  exact ((aad_eq_iff hneed (Nat.le_refl _)).mp (h.aad_eq _)).2

namespace StaClient

theorem encrypted_len_three {n : Nat} (h : n ≤ 2048) : ccmp_encrypted_len 24 n = 40 + n := by
  unfold ccmp_encrypted_len kCcmpHdrLen kCcmpMicLen SIZE_MAX
  dsimp only
  rw [if_neg (by omega)]

/-- While there are numbers left, the cipher takes what the client frames, and the frame opens to
the same MSDU. -/
theorem sealing_opens (c : StaClient) (hccm : CcmWorks c.g_crypto) (hpn : c.g_tx_pn ≤ kCcmpPnMax)
    {msdu : Bytes} (hmsdu : msdu.length ≤ 2048) (da : Mac) (tk : Octets 16) :
    ∃ f, (c.sealing msdu da tk).frame = some f ∧
      ∀ f', MutableChange 24 f f' →
        ccmp_decrypt c.g_crypto tk f' 24 c.g_own true 2048 = some (msdu, c.g_tx_pn) ∧
          ImmutableFields f' (c.sealing msdu da tk).hdr := by
  have h24 : (c.sealing msdu da tk).hdr.length = 24 := (header_to_ds _ _ _ _).1
  have hcap : (c.sealing msdu da tk).out_cap.toNat = 40 + msdu.length := by
    show (ccmp_encrypted_len (c.sealing msdu da tk).hdr.length msdu.length).toUInt64.toNat = _
    rw [h24, encrypted_len_three hmsdu]
    exact Nat.mod_eq_of_lt (by omega)
  obtain ⟨f, hf, -, hopens⟩ :=
    (c.sealing msdu da tk).opens hccm h24 (need_of_data rfl (.inl rfl)) hpn
    (show (0 : UInt8) < 4 by decide) rfl (Nat.le_of_eq hcap.symm)
  refine ⟨f, hf, ?_⟩
  intro f' hm
  obtain ⟨hdec, -, -, hsame⟩ := hopens f' 2048 hm hmsdu
  exact ⟨hdec, immutable_of_same hsame⟩

theorem enqueue_room (c : StaClient) (f : Bytes) (h : c.g_q.length < kMaxQueue) :
    ∃ rt, (c.enqueue f).1.g_q = c.g_q ++ [rt ++ f] := by
  unfold enqueue
  dsimp only
  rw [if_pos h]
  exact ⟨_, rfl⟩

/-- What the cipher took is queued behind what there is. -/
theorem air_sealed_taken (c : StaClient) {msdu : Bytes} (hmsdu : msdu.length ≤ 2048) (da : Mac)
    (tk : Octets 16) {f : Bytes} (hf : (c.sealing msdu da tk).frame = some f) :
    ∃ e : StaClient, e.g_q = c.g_q ∧ c.air_sealed msdu da tk true =
      ((e.enqueue f).1, [.sealed c.g_ptk_gen_seen (c.sealing msdu da tk)], true) := by
  have hroom : ccmp_encrypted_len (c.sealing msdu da tk).hdr.length msdu.length ≠ 0 := by
    rw [show (c.sealing msdu da tk).hdr.length = 24 from (header_to_ds _ _ _ _).1,
      encrypted_len_three hmsdu]
    omega
  unfold air_sealed
  dsimp only
  rw [if_neg hroom, hf]
  refine ⟨_, ?_, rfl⟩
  rfl

/-- A frame that the host sends over a protected link reaches the access point as it is, whatever
the air does to the mutable bits of its header: sealed under the pairwise key with the next number,
and queued as long as there is room. -/
theorem the_access_point_gets_what_the_host_sends (c : StaClient) (hccm : CcmWorks c.g_crypto)
    (hconn : c.g_sm.connected = true) (hsec : c.g_sm.security_ ≠ .Open)
    (hpn : c.g_tx_pn ≤ kCcmpPnMax) (eth : Bytes) (hlen : kEthHdrLen ≤ eth.length)
    (hmtu : eth.length ≤ 2048) (hown : Octets.slice eth 6 6 = c.g_own) :
    ∃ s f, (c.tap_down_one eth).2 = [.sealed c.g_ptk_gen_seen s] ∧ s.tk = c.g_sm.sup_.tk ∧
      s.pn = c.g_tx_pn ∧ s.frame = some f ∧
      (c.g_q.length < kMaxQueue → ∃ rt, (c.tap_down_one eth).1.g_q = c.g_q ++ [rt ++ f]) ∧
      ∀ f', MutableChange 24 f f' → StationSm.addr1 f' = c.g_sm.bssid_ ∧
        ∃ msdu, ccmp_decrypt c.g_crypto c.g_sm.sup_.tk f' 24 (StationSm.addr2 f') true 2048 =
            some (msdu, c.g_tx_pn) ∧ eth_of f' msdu = some eth := by
  obtain ⟨msdu, hmsdu⟩ : ∃ msdu, eth_to_msdu eth 2048 =
      some (msdu, Octets.slice eth 0 6, Octets.slice eth 6 6) := by
    unfold eth_to_msdu
    rw [if_neg (Nat.not_lt.mpr hlen), if_neg (by unfold kLlcSnapLen kEthHdrLen; omega)]
    exact ⟨_, rfl⟩
  have hsize : msdu.length ≤ 2048 := by
    have := length_msdu hmsdu
    omega
  have hback := msdu_to_eth_of hmsdu hmtu
  rw [hown] at hmsdu hback
  -- the frame is counted before it is looked at
  let d : StaClient := { c with ledger := { c.ledger with g_tap_rx := c.ledger.g_tap_rx + 1 } }
  let s := d.sealing msdu (Octets.slice eth 0 6) c.g_sm.sup_.tk
  obtain ⟨f, hf, hopens⟩ := d.sealing_opens hccm hpn hsize (Octets.slice eth 0 6) c.g_sm.sup_.tk
  obtain ⟨e, hq, hair⟩ := d.air_sealed_taken hsize (Octets.slice eth 0 6) c.g_sm.sup_.tk hf
  have hrun : c.tap_down_one eth = ((e.enqueue f).1, [.sealed c.g_ptk_gen_seen s]) := by
    unfold tap_down_one
    rw [hmsdu]
    dsimp only
    rw [if_neg (by rw [hconn]; decide), if_neg (fun h => h rfl)]
    unfold air_msdu
    rw [if_neg hsec]
    show (if (d.air_sealed msdu (Octets.slice eth 0 6) c.g_sm.sup_.tk true).2.2
      then (d.air_sealed msdu (Octets.slice eth 0 6) c.g_sm.sup_.tk true).1
      else (d.air_sealed msdu (Octets.slice eth 0 6) c.g_sm.sup_.tk true).1.drop_down,
      (d.air_sealed msdu (Octets.slice eth 0 6) c.g_sm.sup_.tk true).2.1) = _
    rw [hair]
    rfl
  rw [hrun]
  refine ⟨s, f, rfl, rfl, rfl, hf, ?_, ?_⟩
  · intro hspace
    obtain ⟨rt, hrt⟩ := e.enqueue_room f (by rw [hq]; exact hspace)
    exact ⟨rt, by rw [hrt, hq]⟩
  · intro f' hm
    obtain ⟨hdec, hfields⟩ := hopens f' hm
    obtain ⟨-, h1, h2, -⟩ := header_to_ds c.g_sm.bssid_ c.g_own (Octets.slice eth 0 6) d.next_seq.1
    have ha1 : StationSm.addr1 f' = c.g_sm.bssid_ := hfields.addr1.trans h1
    have ha2 : StationSm.addr2 f' = c.g_own := hfields.addr2.trans h2
    refine ⟨ha1, msdu, by rw [ha2]; exact hdec, ?_⟩
    rw [eth_of_congr hfields]
    exact (eth_of_to_ds _ _ _ _ _).trans hback

end StaClient

/-- The client past the join, with nothing sent yet. -/
def demoConnected : StaClient :=
  { StaClient.start demoSetup with g_sm := (watch demoSetup demoAssociation).client.g_sm }

/-- The frame of `demoEth`, opened as it went out. -/
theorem a_frame_of_the_host_reaches_its_gateway :
    ∃ s f, (demoConnected.tap_down_one demoEth).2 = [.sealed 0 s] ∧ s.frame = some f ∧
      ∃ msdu, ccmp_decrypt .standIn demoConnected.g_sm.sup_.tk f 24 (StationSm.addr2 f) true 2048 =
        some (msdu, 1) ∧ eth_of f msdu = some demoEth := by
  obtain ⟨s, f, hseal, -, -, hf, -, hopens⟩ :=
    demoConnected.the_access_point_gets_what_the_host_sends ccmWorks_standIn (by decide +kernel)
      (by decide +kernel) (by decide) demoEth (by decide) (by decide) (by decide)
  obtain ⟨-, hmsdu⟩ := hopens f (mutableChange_refl _ f)
  exact ⟨s, f, hseal, hf, hmsdu⟩

/-! ## What the access point sends -/

namespace StaClient

theorem note_keys_of_fresh {c : StaClient} (h : Fresh c) : c.note_keys = c := by
  have hp : c.note_ptk = c := if_neg fun hne => hne.2 (h.ptk hne.1)
  unfold note_keys
  rw [hp]
  exact if_neg fun hne => hne.2 (h.gtk hne.1)

/-- A frame that moves the clock and the counters of a connected machine moves nothing else of the
client, when its keys are noted. -/
theorem rx_station_quiet {c : StaClient} {mpdu : Bytes} {now : UInt32}
    (hconn : c.g_sm.connected = true) (hfresh : Fresh c)
    (hquiet : StationSm.Quiet c.g_sm (c.g_sm.on_rx mpdu now)) :
    c.rx_station mpdu now = { c with g_sm := c.g_sm.on_rx mpdu now } := by
  have hstate : c.g_sm.state_ = .Connected := by
    unfold StationSm.connected at hconn
    simp only [Bool.and_eq_true, decide_eq_true_eq] at hconn
    exact hconn.1
  have hstill : (c.g_sm.on_rx mpdu now).connected = true :=
    (StationSm.connected_quiet hquiet).trans hconn
  have hsup : (c.g_sm.on_rx mpdu now).sup_ = c.g_sm.sup_ := by rw [hquiet]
  have hjoin : ¬(c.g_sm.state_ = .Associating ∧ (c.g_sm.on_rx mpdu now).state_ ≠ .Associating ∧
      (c.g_sm.on_rx mpdu now).state_ ≠ .Failed) := by
    rw [hstate]
    exact fun h => absurd h.1 (by decide)
  have hup : ¬(c.g_sm.state_ ≠ .Connected ∧ (c.g_sm.on_rx mpdu now).connected = true) :=
    fun h => h.1 hstate
  unfold rx_station
  dsimp only
  rw [if_neg hjoin, if_neg hup, if_pos hstill]
  apply note_keys_of_fresh
  exact ⟨by rw [hsup]; exact hfresh.ptk, by rw [hsup]; exact hfresh.gtk⟩

/-- The low nibble of Sequence Control is the fragment number, and a frame that was made whole has
none. -/
theorem no_fragment (sc : UInt16) : (sc <<< 4).toUInt8 &&& 0x0f = 0 := by
  apply UInt8.toNat_inj.mp
  have h : (sc <<< 4).toNat = sc.toNat * 16 % 65536 := by
    rw [UInt16.toNat_shiftLeft, Nat.shiftLeft_eq]
    rfl
  have hand : ∀ n : Nat, n &&& 15 = n % 16 := fun n => Nat.and_two_pow_sub_one_eq_mod n 4
  rw [UInt8.toNat_and, UInt16.toNat_toUInt8, h]
  show (sc.toNat * 16 % 65536 % 256) &&& 15 = 0
  rw [hand]
  omega

/-- A frame of the access point to this station passes the tests. -/
theorem admitted_from_ds (c : StaClient) {src : Mac} {seq : UInt16} {f' : Bytes}
    (h : SameHeader (data_hdr_from_ds c.g_own c.g_sm.bssid_ src true seq) f')
    (hlen : 24 ≤ f'.length) :
    c.admitted f' = some
      { hlen := 24, da := c.g_own, sa := src, tid := CcmpReplay.kNonQosTid, to_us := true,
        group := byteAt f' 4 &&& 0x01 != 0 } := by
  obtain ⟨-, h1, h2, h3⟩ := header_from_ds c.g_sm.bssid_ c.g_own src seq
  have hfields := immutable_of_same h
  have ha1 : Octets.slice f' 4 6 = c.g_own := hfields.addr1.trans h1
  have ha2 : Octets.slice f' 10 6 = c.g_sm.bssid_ := hfields.addr2.trans h2
  have ha3 : Octets.slice f' 16 6 = src := hfields.addr3.trans h3
  have h0 : byteAt f' 0 = kFcData := h.fc0
  have hb1 : byteAt (data_hdr_from_ds c.g_own c.g_sm.bssid_ src true seq) 1 =
      kFcFromDs ||| kFcProtected := rfl
  have hto : byteAt f' 1 &&& kFcToDs = 0 := by
    have hbit := hfields.to_ds
    unfold to_ds at hbit
    rw [hb1] at hbit
    exact hbit
  have hfrom : byteAt f' 1 &&& kFcFromDs = kFcFromDs := by
    have hbit := hfields.from_ds
    unfold from_ds at hbit
    rw [hb1] at hbit
    exact hbit
  have hmore : byteAt f' 1 &&& kFcMoreFrag = 0 := by
    have hbit := hfields.more_fragments
    unfold more_fragments at hbit
    rw [hb1] at hbit
    exact hbit
  have hfour : (byteAt f' 1 &&& (kFcToDs ||| kFcFromDs) == kFcToDs ||| kFcFromDs) = false := by
    have hbits := h.four_addr_eq
    unfold four_addr at hbits
    rw [hb1] at hbits
    exact hbits
  have hfrag : byteAt f' 22 &&& 0x0f = 0 := by
    have hseq : byteAt (data_hdr_from_ds c.g_own c.g_sm.bssid_ src true seq) 22 =
        ((seq &&& 0x0fff) <<< 4).toUInt8 := by
      have h22 : ([kFcData, kFcFromDs ||| kFcProtected] ++ put_le16 0 ++ c.g_own.val ++
          c.g_sm.bssid_.val ++ src.val).length = 22 := by
        simp [put_le16, c.g_own.property, c.g_sm.bssid_.property, src.property]
      have hread := byteAt_behind ([kFcData, kFcFromDs ||| kFcProtected] ++ put_le16 0 ++
        c.g_own.val ++ c.g_sm.bssid_.val ++ src.val) (put_le16 ((seq &&& 0x0fff) <<< 4)) 0
      rw [h22] at hread
      exact hread
    rw [h.frag, hseq]
    exact no_fragment _
  have hhdr : data_hdr_len (byteAt f' 0) (byteAt f' 1) = 24 := by
    unfold data_hdr_len
    rw [h0, hfour]
    rfl
  have hda : data_da f' (byteAt f' 1) = c.g_own := by
    unfold data_da
    rw [hto, if_neg (by decide), ha1]
  have hsa : data_sa f' (byteAt f' 1) = src := by
    unfold data_sa
    rw [hto, hfrom, if_neg (by decide), if_pos (by decide), ha3]
  unfold admitted StationSm.addr1 StationSm.addr2
  dsimp only
  rw [hhdr, hda, hsa, ha1, ha2, h0, hto, hfrom, hmore, hfrag, decide_eq_true rfl,
    if_neg (by decide), if_neg (by decide), if_neg (fun hne => hne rfl), if_neg (by simp),
    if_neg (by decide), if_neg (Nat.not_lt.mpr hlen), if_neg (fun hq => absurd hq.1 (by decide))]
  rfl

/-- The machine claims the EAPOL-Key frames that the filter of the client knows. -/
theorem is_eapol_key_of {msdu : Bytes} (hkey : StationSm.eapol_key_msdu msdu = true)
    (houi : StationSm.zero_oui msdu = true) : is_eapol_key msdu = true := by
  simp only [StationSm.eapol_key_msdu, StationSm.zero_oui, Bool.and_eq_true, decide_eq_true_eq,
    beq_iff_eq] at hkey houi
  obtain ⟨⟨h0, h1, h2, h6, h7⟩, hk⟩ := hkey
  obtain ⟨⟨h3, h4⟩, h5⟩ := houi
  have hlen := StationSm.eapol_is_key_length hk
  simp only [is_eapol_key, is_ethertype_snap, h0, h1, h2, h3, h4, h5, h6, h7, hk, beq_self_eq_true,
    Bool.and_true, decide_eq_true_eq]
  omega

/-- A frame that opens under the pairwise key with a number that is new goes to the host, when the
machine does not claim it. -/
theorem rx_protected_pairwise (c : StaClient) {mpdu plain eth : Bytes} {d : DataFrame} {pn : UInt64}
    (now : UInt32) (hsec : c.g_sm.security_ ≠ .Open) (hhdr : d.hlen = 24) (hus : d.to_us = true)
    (hlen : mpdu.length = 40 + plain.length) (hpos : 0 < plain.length)
    (hid : ccmp_key_id (mpdu.drop 24) = 0)
    (hdec : ccmp_decrypt c.g_crypto c.g_sm.sup_.tk mpdu 24 (StationSm.addr2 mpdu) true
      plain.length.toUInt64 = some (plain, pn))
    (hnew : (c.g_rx_replay.accept pn d.tid).2 = true) (hdata : is_eapol_key plain = false)
    (heth : msdu_to_eth d.da d.sa plain 2048 = some eth) :
    ∃ o, (c.rx_protected mpdu d now).2 = [.opened o, .tap eth] := by
  have hbody : ccmp_decrypted_len mpdu.length 24 = plain.length := by
    unfold ccmp_decrypted_len kCcmpHdrLen kCcmpMicLen
    dsimp only
    rw [if_neg (by omega)]
    omega
  have hkey : c.key_for (mpdu.drop 24) = some (c.g_sm.sup_.tk, true) := by
    unfold key_for
    dsimp only
    rw [if_pos hid]
  have htap : tap_up d.da d.sa plain = [.tap eth] := by
    unfold tap_up
    rw [heth]
    rfl
  have hdel : ∀ e : StaClient, (e.deliver d true c.g_sm.sup_.tk plain now).2 = [.tap eth] := by
    intro e
    have hother : ¬(StationSm.eapol_key_msdu plain = true ∧ StationSm.zero_oui plain = true) := by
      rintro ⟨h1, h2⟩
      rw [is_eapol_key_of h1 h2] at hdata
      cases hdata
    obtain ⟨l, hl⟩ := StationSm.on_decrypted_other e.g_sm now hother
    unfold deliver
    rw [hdata, hus, if_neg (by decide), if_pos (by decide), hl, htap]
  have haccept : (c.accept true pn d.tid).2 = true := hnew
  unfold rx_protected
  rw [if_neg hsec, hhdr, hbody, if_neg (by omega), hkey]
  dsimp only
  rw [hdec]
  dsimp only
  rw [haccept, if_neg (by decide), hdel]
  exact ⟨_, rfl⟩

/-- A call of the access point that seals an Ethernet frame for this station. -/
structure ForStation (c : StaClient) (eth : Bytes) (src : Mac) (seq : UInt16) (s : Sealing) : Prop
    where
  crypto : s.crypto = c.g_crypto
  tk : s.tk = c.g_sm.sup_.tk
  hdr : s.hdr = data_hdr_from_ds c.g_own c.g_sm.bssid_ src true seq
  a2 : s.a2 = c.g_sm.bssid_
  pn_le : s.pn ≤ kCcmpPnMax
  key_id : s.key_id = 0
  plain : eth_to_msdu eth 2048 = some (s.plain, c.g_own, src)
  out : s.out = true
  room : 40 + s.plain.length ≤ s.out_cap.toNat

/-- A sealed frame of an Ethernet frame for this station is written to the host as it was, whatever
the air did to the mutable bits of its header, unless the state machine claims it or one of the two
memories of what was seen knows it. -/
theorem the_host_gets_what_the_access_point_sends (u : StaClient.Setup) (ops : List StaClient.Op)
    (s : Sealing) (eth : Bytes) (src : Mac) (seq : UInt16) (f f' : Bytes) (now : UInt32)
    (hccm : CcmWorks (watch u ops).client.g_crypto)
    (hconn : (watch u ops).client.g_sm.connected = true)
    (hsec : (watch u ops).client.g_sm.security_ ≠ .Open)
    (hfor : ForStation (watch u ops).client eth src seq s) (hmtu : eth.length ≤ 2048)
    (hdata : is_eapol_key s.plain = false) (hf : s.frame = some f) (hm : MutableChange 24 f f')
    (hdup : ((watch u ops).client.g_rx_dup.is_duplicate (byteAt f' 1 &&& kFcRetry != 0)
      (get_le16 f' 22) CcmpReplay.kNonQosTid).2 = false)
    (hnew : ((watch u ops).client.g_rx_replay.accept s.pn CcmpReplay.kNonQosTid).2 = true) :
    ∃ o, ((watch u ops).client.rx_frame f' now).2 = [.opened o, .tap eth] := by
  have hfresh := (rest_watch u ops).fresh hconn
  generalize (watch u ops).client = c at hccm hconn hsec hfor hdup hnew hfresh ⊢
  obtain ⟨h24, -, ha2, -⟩ := header_from_ds c.g_sm.bssid_ c.g_own src seq
  rw [← hfor.hdr] at h24 ha2
  have hneed : ccmp_need s.hdr = 24 := by
    rw [hfor.hdr]
    exact need_of_data rfl (.inr rfl)
  obtain ⟨g, hg, hsize, hopens⟩ := s.opens (by rw [hfor.crypto]; exact hccm) h24 hneed hfor.pn_le
    (by rw [hfor.key_id]; decide) hfor.out hfor.room
  rw [hf, Option.some.injEq] at hg
  subst hg
  have hlen : f'.length = 40 + s.plain.length := hm.length.trans hsize
  obtain ⟨hmin, hplain⟩ := length_msdu hfor.plain
  have hcap : s.plain.length.toUInt64.toNat = s.plain.length := Nat.mod_eq_of_lt (by omega)
  obtain ⟨hdec, hid, hprot, hsame⟩ := hopens f' s.plain.length.toUInt64 hm (Nat.le_of_eq hcap.symm)
  have ha2' : StationSm.addr2 f' = c.g_sm.bssid_ := (immutable_of_same hsame).addr2.trans ha2
  rw [hfor.hdr] at hsame
  -- the machine's half moves its clock and its counters, and no key
  have hquiet : StationSm.Quiet c.g_sm (c.g_sm.on_rx f' now) :=
    StationSm.on_rx_protected (.inl hsame.fc0) hprot now
  have hstation := rx_station_quiet hconn hfresh hquiet
  have hbss :
      SameHeader (data_hdr_from_ds c.g_own (c.g_sm.on_rx f' now).bssid_ src true seq) f' := by
    rw [hquiet]
    exact hsame
  have hadm := admitted_from_ds { c with g_sm := c.g_sm.on_rx f' now } hbss (by omega)
  unfold rx_frame
  dsimp only
  rw [if_neg (by omega), hstation, StationSm.connected_quiet hquiet, hconn, if_neg (by decide)]
  unfold rx_data
  rw [hadm]
  dsimp only
  generalize hd : (if (byteAt f' 4 &&& 0x01 != 0) = true then (c.g_rx_dup, false)
    else c.g_rx_dup.is_duplicate (byteAt f' 1 &&& kFcRetry != 0) (get_le16 f' 22)
      CcmpReplay.kNonQosTid) = dup
  have hdup' : dup.2 = false := by
    rw [← hd]
    split
    · rfl
    · exact hdup
  rw [hdup', if_neg (by decide), if_neg hprot]
  apply rx_protected_pairwise _ now
  · show (c.g_sm.on_rx f' now).security_ ≠ .Open
    rw [hquiet]
    exact hsec
  · rfl
  · rfl
  · exact hlen
  · omega
  · rw [hid, hfor.key_id]
  · show ccmp_decrypt c.g_crypto (c.g_sm.on_rx f' now).sup_.tk f' 24 (StationSm.addr2 f') true _ = _
    rw [hquiet, ha2', ← hfor.a2, ← hfor.crypto]
    show ccmp_decrypt s.crypto c.g_sm.sup_.tk f' 24 s.a2 true _ = _
    rw [← hfor.tk]
    exact hdec
  · exact hnew
  · exact hdata
  · exact msdu_to_eth_of hfor.plain hmtu

end StaClient

set_option maxRecDepth 10000 in
/-- The frame of `demoSealing` comes out as the one that went in. -/
theorem a_frame_of_the_access_point_reaches_the_host :
    ∃ o, ((watch demoSetup demoAssociation).client.rx_frame (demoSealing.frame.getD []) 50).2 =
      [.opened o, .tap (StationSm.demoJoined.own.val ++ StationSm.demoJoined.bssid.val ++
        [0x08, 0x00, 0x45, 0x00])] := by
  have hfor : StaClient.ForStation (watch demoSetup demoAssociation).client
      (StationSm.demoJoined.own.val ++ StationSm.demoJoined.bssid.val ++ [0x08, 0x00, 0x45, 0x00])
      StationSm.demoJoined.bssid 5 demoSealing :=
    { crypto := rfl
      tk := rfl
      hdr := by decide +kernel
      a2 := by decide +kernel
      pn_le := by decide
      key_id := rfl
      plain := by decide +kernel
      out := rfl
      room := by decide }
  exact StaClient.the_host_gets_what_the_access_point_sends demoSetup demoAssociation
    demoSealing _ _ 5
    (demoSealing.frame.getD []) _ 50 ccmWorks_standIn (by decide +kernel) (by decide +kernel) hfor
    (by decide) (by decide) (by decide +kernel) (mutableChange_refl _ _) (by decide +kernel)
    (by decide +kernel)

end devourer.sta
