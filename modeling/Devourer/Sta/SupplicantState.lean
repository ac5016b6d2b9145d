-- What one EAPOL frame can do to the supplicant, and the invariant that
-- every call keeps. The laws of whole runs rest on these two.
import Devourer.Sta.Supplicant

namespace devourer.sta.Supplicant

/-! ## The effect of one frame -/

/-- The gate that every answered frame passed, whatever message it is. -/
structure Passed (s : Supplicant) (f : Bytes) (crypto : CryptoOps) (k : EapolKey) : Prop where
  crypto_eq : s.crypto_ = some crypto
  live : s.state_ ≠ .Idle
  parsed : parse_eapol_key f = some k
  version : k.version = kKeyDescVersionCcmp
  not_request : k.request = false
  fresh : s.rx_replay_set_ = true → s.rx_replay_ < k.replay

/-- The machine after it accepted a message 1. -/
def accept_msg1 (s : Supplicant) (k : EapolKey) (ptk : Ptk) (e : Bytes) : Supplicant :=
  { { s with
      anonce_ := k.nonce
      cand_ptk_ := ptk
      cand_valid_ := true
      m1_anonce_ := k.nonce }.answer .Msg1 k.replay e with
    state_ := if s.state_ = .WaitMsg1 then .WaitMsg3 else s.state_ }

/-- What one frame can do. A quiet frame changes no more than the counters; the three
others are the accepted messages. -/
inductive Effect (s : Supplicant) (f : Bytes) : Outcome → Prop
  | quiet {r : Outcome} (same : r.sup = { s with counters := r.sup.counters })
      (verdict : r.verdict ≠ .Reply) : Effect s f r
  | msg1 {crypto : CryptoOps} {k : EapolKey} {ptk : Ptk} {e : Bytes} (pass : Passed s f crypto k)
      (kind : classify k = .Msg1)
      (derived : derive_ptk crypto s.pmk_ s.bssid_ s.own_ k.nonce s.snonce_ = some ptk)
      (reply : e ≠ []) :
      Effect s f { sup := s.accept_msg1 k ptk e, verdict := .Reply, out := some e }
  | msg3 {crypto : CryptoOps} {k : EapolKey} {kptk : Ptk} {from_cand : Bool} {g : GtkKde}
      {e : Bytes} (pass : Passed s f crypto k) (kind : classify k = .Msg3)
      (key : s.msg3_key k = .ok (kptk, from_cand))
      (checked : s.check_msg3 crypto kptk k = .ok (g, e)) :
      Effect s f { sup := s.install_msg3 k kptk from_cand g e, verdict := .Reply, out := some e }
  | group1 {crypto : CryptoOps} {k : EapolKey} {g : GtkKde} {e : Bytes}
      (pass : Passed s f crypto k) (kind : classify k = .Group1)
      (checked : s.check_group1 crypto k = .ok (g, e)) :
      Effect s f { sup := s.install_group1 k g e, verdict := .Reply, out := some e }

theorem note_quiet {s : Supplicant} {f : Bytes} (v : Verdict) (h : v ≠ .Reply) :
    Effect s f (s.note v) := .quiet rfl h

theorem resend_quiet {s : Supplicant} {f : Bytes} (reply : Bytes) : Effect s f (s.resend reply) :=
  .quiet rfl (by simp [resend])

theorem mic_verdict_ne_reply (m : MicCheck) : mic_verdict m ≠ .Reply := by
  unfold mic_verdict
  split <;> simp

theorem refuse_quiet {s : Supplicant} {f : Bytes} (r : Refusal) (h : r ≠ .verdict .Reply) :
    Effect s f (s.refuse r) := by
  cases r with
  | verdict v => exact note_quiet v (fun he => h (by rw [he]))
  | rsn_mismatch => exact .quiet rfl (by simp [refuse, note])

theorem check_msg3_error {s : Supplicant} {crypto : CryptoOps} {kptk : Ptk} {k : EapolKey}
    {r : Refusal} (h : s.check_msg3 crypto kptk k = .error r) : r ≠ .verdict .Reply := by
  unfold check_msg3 at h
  repeat' split at h
  all_goals simp only [Except.error.injEq, reduceCtorEq] at h
  all_goals subst h
  all_goals simp [mic_verdict_ne_reply]

theorem check_group1_error {s : Supplicant} {crypto : CryptoOps} {k : EapolKey} {v : Verdict}
    (h : s.check_group1 crypto k = .error v) : v ≠ .Reply := by
  unfold check_group1 at h
  repeat' split at h
  all_goals simp only [Except.error.injEq, reduceCtorEq] at h
  all_goals subst h
  all_goals simp [mic_verdict_ne_reply]

theorem msg3_key_error {s : Supplicant} {k : EapolKey} {v : Verdict}
    (h : s.msg3_key k = .error v) : v ≠ .Reply := by
  unfold msg3_key at h
  repeat' split at h
  all_goals simp only [Except.error.injEq, reduceCtorEq] at h
  all_goals subst h
  all_goals simp

theorem on_msg1_effect {s : Supplicant} {f : Bytes} {crypto : CryptoOps} {k : EapolKey}
    (pass : Passed s f crypto k) (kind : classify k = .Msg1) :
    Effect s f (s.on_msg1 crypto k) := by
  unfold on_msg1
  split
  · exact note_quiet _ (by simp)
  · rename_i ptk hptk
    dsimp only
    split
    · exact note_quiet _ (by simp)
    · exact .msg1 pass kind hptk ‹_›

theorem on_msg3_effect {s : Supplicant} {f : Bytes} {crypto : CryptoOps} {k : EapolKey}
    (pass : Passed s f crypto k) (kind : classify k = .Msg3) :
    Effect s f (s.on_msg3 crypto k) := by
  unfold on_msg3
  split
  · exact note_quiet _ (msg3_key_error ‹_›)
  · rename_i kptk from_cand hkey
    split
    · exact refuse_quiet _ (check_msg3_error ‹_›)
    · exact .msg3 pass kind hkey ‹_›

theorem on_group1_effect {s : Supplicant} {f : Bytes} {crypto : CryptoOps} {k : EapolKey}
    (pass : Passed s f crypto k) (kind : classify k = .Group1) :
    Effect s f (s.on_group1 crypto k) := by
  unfold on_group1
  split
  · exact note_quiet _ (check_group1_error ‹_›)
  · exact .group1 pass kind ‹_›

theorem retransmit_or_replay_quiet {s : Supplicant} {f : Bytes} (k : EapolKey) (kind : Kind) :
    Effect s f (s.retransmit_or_replay k kind) := by
  unfold retransmit_or_replay
  split
  · exact resend_quiet _
  · exact note_quiet _ (by simp)

theorem on_eapol_effect (s : Supplicant) (f : Bytes) : Effect s f (s.on_eapol f) := by
  unfold on_eapol
  split
  · exact note_quiet _ (by simp)
  rename_i crypto hcrypto
  split
  · exact note_quiet _ (by simp)
  rename_i hlive
  split
  · exact note_quiet _ (by simp)
  rename_i k hk
  split
  · exact note_quiet _ (by simp)
  rename_i hversion
  split
  · exact note_quiet _ (by simp)
  rename_i hrequest
  split
  · exact note_quiet _ (by simp)
  split
  · exact note_quiet _ (by simp)
  unfold on_key
  split
  · exact retransmit_or_replay_quiet _ _
  rename_i hgate
  have pass : Passed s f crypto k :=
    { crypto_eq := hcrypto
      live := hlive
      parsed := hk
      version := by simpa using hversion
      not_request := by simpa using hrequest
      fresh := fun hset => by
        rw [not_and] at hgate
        exact UInt64.not_le.mp (hgate hset) }
  split
  · rename_i hkind
    split
    · exact resend_quiet _
    · exact on_msg1_effect pass hkind
  · exact on_msg3_effect pass ‹_›
  · exact on_group1_effect pass ‹_›
  · exact note_quiet _ (by simp)

/-! ## What an accepted message carried -/

theorem and_three_cases (x : UInt8) (h : x &&& 3 ≠ 0) :
    x &&& 3 = 1 ∨ x &&& 3 = 2 ∨ x &&& 3 = 3 := by
  have hle : (x &&& 3).toNat ≤ 3 := by
    rw [UInt8.toNat_and]
    exact Nat.and_le_right
  have hne : (x &&& 3).toNat ≠ 0 := fun h0 => h (UInt8.toNat_inj.mp h0)
  rcases (by omega : (x &&& 3).toNat = 1 ∨ (x &&& 3).toNat = 2 ∨ (x &&& 3).toNat = 3)
    with h1 | h1 | h1
  · exact Or.inl (UInt8.toNat_inj.mp h1)
  · exact Or.inr (Or.inl (UInt8.toNat_inj.mp h1))
  · exact Or.inr (Or.inr (UInt8.toNat_inj.mp h1))

/-- The key data of `k` unwraps under the KEK of `ptk`, parses to its end, and holds
exactly one GTK KDE: that of `g`, with a 16-byte key and key id 1, 2 or 3. -/
structure Delivers (crypto : CryptoOps) (ptk : Ptk) (k : EapolKey) (plain : Bytes)
    (g : GtkKde) : Prop where
  unwrapped : crypto.aes_key_unwrap ptk.kek.val k.key_data = some plain
  whole : (elements plain).2 = true
  only_gtk : ∃ b, gtk_bodies plain = [b] ∧ b.length = 22 ∧ g = gtk_of b
  gtk_len : g.gtk_len = 16
  key_id : g.key_id = 1 ∨ g.key_id = 2 ∨ g.key_id = 3

theorem unwrap_gtk_delivers {crypto : CryptoOps} {ptk : Ptk} {k : EapolKey} {plain : Bytes}
    {g : GtkKde} (h : unwrap_gtk crypto ptk k = some (plain, g)) :
    Delivers crypto ptk k plain g := by
  unfold unwrap_gtk at h
  split at h
  · simp at h
  · rename_i plain' hplain
    dsimp only at h
    split at h
    · simp at h
    · rename_i hok
      simp only [not_or, not_not, kGtkLenCcmp] at hok
      obtain ⟨hfound, hlen, hid⟩ := hok
      simp only [Option.some.injEq, Prod.mk.injEq] at h
      obtain ⟨rfl, rfl⟩ := h
      obtain ⟨hwhole, b, hb, -, hg⟩ := find_gtk_kde_found _ hfound
      refine ⟨hplain, hwhole, ⟨b, hb, ?_, hg⟩, hlen, ?_⟩
      · rw [hg] at hlen
        simp only [gtk_of] at hlen
        omega
      · rw [hg] at hid ⊢
        exact and_three_cases _ hid

theorem check_msg3_ok {s : Supplicant} {crypto : CryptoOps} {kptk : Ptk} {k : EapolKey}
    {g : GtkKde} {e : Bytes} (h : s.check_msg3 crypto kptk k = .ok (g, e)) :
    eapol_mic_ok crypto kptk.kck k = .Ok ∧
      (∃ plain, unwrap_gtk crypto kptk k = some (plain, g) ∧
        (s.ap_rsn_set_ = true → rsn_matches plain s.ap_rsn_ = true)) ∧ e ≠ [] := by
  unfold check_msg3 at h
  split at h
  · simp at h
  split at h
  · simp at h
  rename_i hmic
  split at h
  · simp at h
  split at h
  · simp at h
  split at h
  · simp at h
  rename_i plain g' hu
  split at h
  · simp at h
  rename_i hrsn
  split at h
  · simp at h
  rename_i he
  simp only [Except.ok.injEq, Prod.mk.injEq] at h
  obtain ⟨rfl, rfl⟩ := h
  refine ⟨not_not.mp hmic, ⟨plain, hu, ?_⟩, he⟩
  intro hset
  simpa [hset] using hrsn

theorem check_group1_ok {s : Supplicant} {crypto : CryptoOps} {k : EapolKey} {g : GtkKde}
    {e : Bytes} (h : s.check_group1 crypto k = .ok (g, e)) :
    s.state_ = .Done ∧ s.ptk_valid_ = true ∧ eapol_mic_ok crypto s.ptk_.kck k = .Ok ∧
      (∃ plain, unwrap_gtk crypto s.ptk_ k = some (plain, g)) ∧ e ≠ [] := by
  unfold check_group1 at h
  split at h
  · simp at h
  rename_i hdone
  split at h
  · simp at h
  rename_i hmic
  split at h
  · simp at h
  split at h
  · simp at h
  rename_i plain g' hu
  split at h
  · simp at h
  rename_i he
  simp only [Except.ok.injEq, Prod.mk.injEq] at h
  obtain ⟨rfl, rfl⟩ := h
  simp only [not_or, not_not, Bool.not_eq_true', Bool.not_eq_false] at hdone
  exact ⟨hdone.1, hdone.2, not_not.mp hmic, ⟨plain, hu⟩, he⟩

/-- The key of a message 3 is the candidate's or the installed one, by its ANonce. -/
theorem msg3_key_ok {s : Supplicant} {k : EapolKey} {kptk : Ptk} {from_cand : Bool}
    (h : s.msg3_key k = .ok (kptk, from_cand)) :
    (from_cand = true ∧ s.cand_valid_ = true ∧ k.nonce = s.anonce_ ∧ kptk = s.cand_ptk_) ∨
      (from_cand = false ∧ s.ptk_valid_ = true ∧ k.nonce = s.inst_anonce_ ∧ kptk = s.ptk_) := by
  unfold msg3_key at h
  split at h
  · rename_i hc
    simp only [Except.ok.injEq, Prod.mk.injEq] at h
    exact Or.inl ⟨h.2.symm, hc.1, hc.2, h.1.symm⟩
  split at h
  · rename_i hp
    simp only [Except.ok.injEq, Prod.mk.injEq] at h
    exact Or.inr ⟨h.2.symm, hp.1, hp.2, h.1.symm⟩
  split at h
  · simp at h
  · simp at h

/-! ## The fields that an install writes -/

theorem install_ptk_eq (s : Supplicant) (kptk : Ptk) (nonce : Octets 32) :
    s.install_ptk kptk nonce =
      { s with
        ptk_ := kptk
        inst_anonce_ := if s.ptk_valid_ ∧ kptk = s.ptk_ then s.inst_anonce_ else nonce
        ptk_valid_ := true
        ptk_gen_ := if s.ptk_valid_ ∧ kptk = s.ptk_ then s.ptk_gen_ else s.ptk_gen_ + 1 } := by
  unfold install_ptk
  by_cases hv : s.ptk_valid_ = true
  · by_cases he : kptk = s.ptk_
    · simp only [hv, he, Bool.not_true, Bool.false_eq_true, ne_eq, not_true_eq_false, or_self,
        if_false, and_self, if_true]
      rw [← hv]
    · simp [hv, he]
  · simp [hv]

theorem spend_candidate_eq (s : Supplicant) (c : Bool) :
    s.spend_candidate c =
      { s with
        cand_ptk_ := if c then Octets.zero 48 else s.cand_ptk_
        cand_valid_ := if c then false else s.cand_valid_ } := by
  cases c <;> rfl

theorem install_gtk_eq (s : Supplicant) (g : GtkKde) (rsc : Octets 8) :
    s.install_gtk g rsc =
      { s with
        gtk_ := if s.gtk_in_use g then s.gtk_ else Octets.overwrite s.gtk_ g.gtk g.gtk_len
        gtk_len_ := g.gtk_len
        gtk_key_id_ := g.key_id
        gtk_rsc_ := if s.gtk_in_use g then s.gtk_rsc_ else rsc_pn rsc
        gtk_valid_ := true
        gtk_gen_ := if s.gtk_in_use g then s.gtk_gen_ else s.gtk_gen_ + 1 } := by
  unfold install_gtk
  by_cases h : s.gtk_in_use g = true
  · have hu := h
    simp only [gtk_in_use, Bool.and_eq_true, beq_iff_eq] at hu
    obtain ⟨⟨⟨hv, hl⟩, hi⟩, -⟩ := hu
    simp only [h, if_true, ← hl, ← hi]
    rw [← hv]
  · simp [h]

/-- All that an accepted message 3 writes. -/
theorem install_msg3_eq (s : Supplicant) (k : EapolKey) (kptk : Ptk) (c : Bool) (g : GtkKde)
    (e : Bytes) :
    s.install_msg3 k kptk c g e =
      { s with
        ptk_ := kptk
        inst_anonce_ := if s.ptk_valid_ ∧ kptk = s.ptk_ then s.inst_anonce_ else k.nonce
        ptk_valid_ := true
        ptk_gen_ := if s.ptk_valid_ ∧ kptk = s.ptk_ then s.ptk_gen_ else s.ptk_gen_ + 1
        cand_ptk_ := if c then Octets.zero 48 else s.cand_ptk_
        cand_valid_ := if c then false else s.cand_valid_
        gtk_ := if s.gtk_in_use g then s.gtk_ else Octets.overwrite s.gtk_ g.gtk g.gtk_len
        gtk_len_ := g.gtk_len
        gtk_key_id_ := g.key_id
        gtk_rsc_ := if s.gtk_in_use g then s.gtk_rsc_ else rsc_pn k.rsc
        gtk_valid_ := true
        gtk_gen_ := if s.gtk_in_use g then s.gtk_gen_ else s.gtk_gen_ + 1
        rx_replay_ := k.replay
        rx_replay_set_ := true
        answered_kind_ := .Msg3
        answered_replay_ := k.replay
        answered_ := true
        last_reply_ := e
        state_ := .Done } := by
  unfold install_msg3
  dsimp only
  rw [install_ptk_eq, spend_candidate_eq, install_gtk_eq]
  rfl

/-- All that an accepted group message 1 writes. -/
theorem install_group1_eq (s : Supplicant) (k : EapolKey) (g : GtkKde) (e : Bytes) :
    s.install_group1 k g e =
      { s with
        gtk_ := if s.gtk_in_use g then s.gtk_ else Octets.overwrite s.gtk_ g.gtk g.gtk_len
        gtk_len_ := g.gtk_len
        gtk_key_id_ := g.key_id
        gtk_rsc_ := if s.gtk_in_use g then s.gtk_rsc_ else rsc_pn k.rsc
        gtk_valid_ := true
        gtk_gen_ := if s.gtk_in_use g then s.gtk_gen_ else s.gtk_gen_ + 1
        rx_replay_ := k.replay
        rx_replay_set_ := true
        answered_kind_ := .Group1
        answered_replay_ := k.replay
        answered_ := true
        last_reply_ := e } := by
  unfold install_group1
  rw [install_gtk_eq]
  rfl

theorem accept_msg1_eq (s : Supplicant) (k : EapolKey) (ptk : Ptk) (e : Bytes) :
    s.accept_msg1 k ptk e =
      { s with
        anonce_ := k.nonce
        cand_ptk_ := ptk
        cand_valid_ := true
        m1_anonce_ := k.nonce
        m1_replay_ := k.replay
        m1_answered_ := true
        m1_reply_ := e
        state_ := if s.state_ = .WaitMsg1 then .WaitMsg3 else s.state_ } := rfl

/-! ## The invariant -/

/-- `ptk` is the PTK of the current PMK, addresses and SNonce with this ANonce. -/
def DerivedFrom (s : Supplicant) (anonce : Octets 32) (ptk : Ptk) : Prop :=
  ∃ crypto, s.crypto_ = some crypto ∧
    derive_ptk crypto s.pmk_ s.bssid_ s.own_ anonce s.snonce_ = some ptk

/-- What holds between any two calls. -/
structure Good (s : Supplicant) : Prop where
  idle_clean : s.state_ = .Idle → s = s.forget
  cand_derived : s.cand_valid_ = true → s.DerivedFrom s.anonce_ s.cand_ptk_
  ptk_derived : s.ptk_valid_ = true → s.DerivedFrom s.inst_anonce_ s.ptk_
  done_ptk : s.state_ = .Done ↔ s.ptk_valid_ = true
  done_gtk : s.state_ = .Done ↔ s.gtk_valid_ = true
  done_replay : s.state_ = .Done ↔ s.rx_replay_set_ = true
  done_answered : s.state_ = .Done ↔ s.answered_ = true
  answered_last : s.answered_ = true → s.answered_replay_ = s.rx_replay_ ∧ s.last_reply_ ≠ []
  gtk_len : s.gtk_valid_ = true → s.gtk_len_ = 16
  gtk_id : s.gtk_valid_ = true →
    s.gtk_key_id_ = 1 ∨ s.gtk_key_id_ = 2 ∨ s.gtk_key_id_ = 3
  wait1_bare : s.state_ = .WaitMsg1 → s.cand_valid_ = false
  wait3_cand : s.state_ = .WaitMsg3 → s.cand_valid_ = true

theorem good_fresh : Good {} := by
  constructor <;> simp [forget]

theorem good_forget (s : Supplicant) : Good s.forget := by
  constructor <;> simp [forget]

theorem good_start (s : Supplicant) (crypto : CryptoOps) (pmk : Octets 32) (own bssid : Mac)
    (snonce : Octets 32) (ap_rsn : Option RsnInfo) :
    Good (s.start crypto pmk own bssid snonce ap_rsn) := by
  constructor <;> simp [start, forget]

/-- The counters are no part of the invariant. -/
theorem good_counters {s : Supplicant} (c : Counters) (h : Good s) :
    Good { s with counters := c } := by
  obtain ⟨g1, g2, g3, g4, g5, g6, g7, g8, g9, g10, g11, g12⟩ := h
  refine ⟨?_, g2, g3, g4, g5, g6, g7, g8, g9, g10, g11, g12⟩
  intro hi
  have := congrArg (fun t : Supplicant => { t with counters := c }) (g1 hi)
  exact this

theorem good_msg1 {s : Supplicant} {k : EapolKey} {ptk : Ptk} {e : Bytes} {crypto : CryptoOps}
    (h : Good s) (hlive : s.state_ ≠ .Idle) (hc : s.crypto_ = some crypto)
    (hd : derive_ptk crypto s.pmk_ s.bssid_ s.own_ k.nonce s.snonce_ = some ptk) :
    Good (s.accept_msg1 k ptk e) := by
  rw [accept_msg1_eq]
  have hdone : (if s.state_ = .WaitMsg1 then State.WaitMsg3 else s.state_) = .Done ↔
      s.state_ = .Done := by
    split
    · rename_i hw
      simp [hw]
    · rfl
  refine
    { idle_clean := ?_
      cand_derived := fun _ => ⟨crypto, hc, hd⟩
      ptk_derived := h.ptk_derived
      done_ptk := hdone.trans h.done_ptk
      done_gtk := hdone.trans h.done_gtk
      done_replay := hdone.trans h.done_replay
      done_answered := hdone.trans h.done_answered
      answered_last := h.answered_last
      gtk_len := h.gtk_len
      gtk_id := h.gtk_id
      wait1_bare := ?_
      wait3_cand := fun _ => rfl }
  · dsimp only
    split
    · simp
    · intro hi
      exact absurd hi hlive
  · dsimp only
    split
    · simp
    · intro hw
      exact absurd hw ‹_›

theorem good_msg3 {s : Supplicant} {k : EapolKey} {kptk : Ptk} {c : Bool} {g : GtkKde}
    {e : Bytes} (h : Good s) (hkey : s.msg3_key k = .ok (kptk, c)) (hlen : g.gtk_len = 16)
    (hid : g.key_id = 1 ∨ g.key_id = 2 ∨ g.key_id = 3) (he : e ≠ []) :
    Good (s.install_msg3 k kptk c g e) := by
  rw [install_msg3_eq]
  -- Both keys that a message 3 can name were derived with its own ANonce.
  have hderived : s.DerivedFrom k.nonce kptk := by
    rcases msg3_key_ok hkey with ⟨-, hv, hn, hp⟩ | ⟨-, hv, hn, hp⟩
    · rw [hn, hp]; exact h.cand_derived hv
    · rw [hn, hp]; exact h.ptk_derived hv
  refine
    { idle_clean := by simp
      cand_derived := ?_
      ptk_derived := ?_
      done_ptk := by simp
      done_gtk := by simp
      done_replay := by simp
      done_answered := by simp
      answered_last := fun _ => ⟨rfl, he⟩
      gtk_len := fun _ => hlen
      gtk_id := fun _ => hid
      wait1_bare := by simp
      wait3_cand := by simp }
  · cases c
    · exact h.cand_derived
    · simp
  · intro _
    dsimp only
    split
    · rename_i hs
      rw [hs.2]
      exact h.ptk_derived hs.1
    · exact hderived

theorem good_group1 {s : Supplicant} {k : EapolKey} {g : GtkKde} {e : Bytes} (h : Good s)
    (hdone : s.state_ = .Done) (hlen : g.gtk_len = 16)
    (hid : g.key_id = 1 ∨ g.key_id = 2 ∨ g.key_id = 3) (he : e ≠ []) :
    Good (s.install_group1 k g e) := by
  rw [install_group1_eq]
  refine
    { idle_clean := by simp [hdone]
      cand_derived := h.cand_derived
      ptk_derived := h.ptk_derived
      done_ptk := h.done_ptk
      done_gtk := by simp [hdone]
      done_replay := by simp [hdone]
      done_answered := by simp [hdone]
      answered_last := fun _ => ⟨rfl, he⟩
      gtk_len := fun _ => hlen
      gtk_id := fun _ => hid
      wait1_bare := h.wait1_bare
      wait3_cand := h.wait3_cand }

theorem good_on_eapol {s : Supplicant} (f : Bytes) (h : Good s) : Good (s.on_eapol f).sup := by
  have he := on_eapol_effect s f
  generalize s.on_eapol f = r at he
  cases he with
  | quiet same _ => rw [same]; exact good_counters _ h
  | msg1 pass _ derived _ => exact good_msg1 h pass.live pass.crypto_eq derived
  | msg3 _ _ key checked =>
    obtain ⟨-, ⟨plain, hu, -⟩, hne⟩ := check_msg3_ok checked
    have hd := unwrap_gtk_delivers hu
    exact good_msg3 h key hd.gtk_len hd.key_id hne
  | group1 _ _ checked =>
    obtain ⟨hdone, -, -, ⟨plain, hu⟩, hne⟩ := check_group1_ok checked
    have hd := unwrap_gtk_delivers hu
    exact good_group1 h hdone hd.gtk_len hd.key_id hne

theorem good_step {s : Supplicant} (op : Op) (h : Good s) : Good (s.step op) := by
  cases op with
  | start crypto pmk own bssid snonce ap_rsn => exact good_start s _ _ _ _ _ _
  | forget => exact good_forget s
  | on_eapol f => exact good_on_eapol f h

/-- Every run keeps the invariant. -/
theorem good_run (ops : List Op) : Good (run ops) :=
  Runs.after_keeps step {} good_fresh (fun _ op h => good_step op h) ops

end devourer.sta.Supplicant
