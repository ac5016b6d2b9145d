-- The keys of the station over whole runs: what a call may do to the two that
-- are installed, which of them the installs brought, and the packet numbers
-- that were taken under each.
import Mathlib.Data.List.Nodup
import Devourer.Sta.CcmpReplay
import Devourer.Sta.StationRx

namespace devourer.sta

/-! ## Keys and their installs -/

/-- A place for one key: whether there is one, the count of the installs, and the key. -/
structure KeySlot where
  valid : Bool
  gen : UInt32
  key : Octets 16

namespace KeySlot

/-- A call keeps or drops the key, or it installs one and counts it. -/
inductive Moves (a b : KeySlot) : Prop
  | kept (gen : b.gen = a.gen) (key : b.valid = true → a.valid = true ∧ b.key = a.key)
  | installed (gen : b.gen = a.gen + 1) (valid : b.valid = true)

theorem Moves.refl (a : KeySlot) : Moves a a := .kept rfl fun h => ⟨h, rfl⟩

/-- The keys that were installed, in order, after a call that led from `a` to `b`. -/
def noted (keys : List (Octets 16)) (a b : KeySlot) : List (Octets 16) :=
  if b.gen = a.gen then keys else keys ++ [b.key]

theorem noted_prefix (keys : List (Octets 16)) (a b : KeySlot) : keys <+: noted keys a b := by
  unfold noted
  split
  · exact List.prefix_refl keys
  · exact List.prefix_append keys _

/-- `key` is the one that the install of this number brought. -/
def Installed (keys : List (Octets 16)) (gen : UInt32) (key : Octets 16) : Prop :=
  0 < gen.toNat ∧ keys[gen.toNat - 1]? = some key

theorem Installed.mono {keys keys' : List (Octets 16)} {gen : UInt32} {key : Octets 16}
    (h : Installed keys gen key) (hp : keys <+: keys') : Installed keys' gen key := by
  obtain ⟨rest, rfl⟩ := hp
  refine ⟨h.1, ?_⟩
  rw [List.getElem?_append_left (List.getElem?_eq_some_iff.mp h.2).1]
  exact h.2

theorem Installed.mem {keys : List (Octets 16)} {gen : UInt32} {key : Octets 16}
    (h : Installed keys gen key) : key ∈ keys := List.mem_of_getElem? h.2

/-- Where no key comes back, a key tells the install that brought it. -/
theorem Installed.gen_eq {keys : List (Octets 16)} {gen gen' : UInt32} {key : Octets 16}
    (hn : keys.Nodup) (h : Installed keys gen key) (h' : Installed keys gen' key) : gen = gen' := by
  obtain ⟨h0, hk⟩ := h
  obtain ⟨h0', hk'⟩ := h'
  obtain ⟨hi, he⟩ := List.getElem?_eq_some_iff.mp hk
  obtain ⟨hi', he'⟩ := List.getElem?_eq_some_iff.mp hk'
  have hsame := (List.Nodup.getElem_inj_iff hn).mp (he.trans he'.symm)
  exact UInt32.toNat_inj.mp (by omega)

/-- The list is that of the installs so far, as long as the count has not wrapped. -/
structure Records (keys : List (Octets 16)) (a : KeySlot) : Prop where
  count : a.gen.toNat = keys.length
  last : a.valid = true → Installed keys a.gen a.key

theorem Records.noted {keys : List (Octets 16)} {a b : KeySlot} (h : Records keys a)
    (hm : Moves a b) (hfew : (noted keys a b).length < UInt32.size) :
    Records (noted keys a b) b := by
  cases hm with
  | kept hgen hkey =>
    rw [KeySlot.noted, if_pos hgen]
    refine ⟨by rw [hgen]; exact h.count, ?_⟩
    intro hv
    obtain ⟨hva, hk⟩ := hkey hv
    rw [hgen, hk]
    exact h.last hva
  | installed hgen hvalid =>
    have hne : ¬b.gen = a.gen := by
      intro he
      rw [he] at hgen
      have h1 : (a.gen + 1).toNat = a.gen.toNat := congrArg UInt32.toNat hgen.symm
      have := a.gen.toNat_lt
      rw [UInt32.toNat_add] at h1
      simp at h1
      omega
    have hlt : keys.length + 1 < UInt32.size := by
      rw [KeySlot.noted, if_neg hne, List.length_append] at hfew
      exact hfew
    have hcount : b.gen.toNat = keys.length + 1 := by
      rw [hgen, UInt32.toNat_add, h.count]
      exact Nat.mod_eq_of_lt hlt
    rw [KeySlot.noted, if_neg hne]
    refine ⟨by rw [hcount, List.length_append]; rfl, fun _ => ⟨by omega, ?_⟩⟩
    rw [hcount, Nat.add_sub_cancel, List.getElem?_append_right (Nat.le_refl _), Nat.sub_self]
    rfl

end KeySlot

open KeySlot

/-! ## The two slots of the supplicant -/

namespace Supplicant

def ptk_slot (s : Supplicant) : KeySlot := ⟨s.ptk_valid_, s.ptk_gen_, s.tk⟩

def gtk_slot (s : Supplicant) : KeySlot := ⟨s.gtk_valid_, s.gtk_gen_, s.gtk⟩

/-- What a call may do to the two slots. -/
structure KeyMoves (s t : Supplicant) : Prop where
  ptk : Moves s.ptk_slot t.ptk_slot
  gtk : Moves s.gtk_slot t.gtk_slot

theorem keyMoves_refl (s : Supplicant) : KeyMoves s s := ⟨Moves.refl _, Moves.refl _⟩

/-- Where no key is left, both are dropped. -/
theorem keyMoves_dropped {s t : Supplicant} (hp : t.ptk_gen_ = s.ptk_gen_)
    (hg : t.gtk_gen_ = s.gtk_gen_) (hpv : t.ptk_valid_ = false) (hgv : t.gtk_valid_ = false) :
    KeyMoves s t := by
  refine ⟨.kept hp fun h => ?_, .kept hg fun h => ?_⟩
  · rw [ptk_slot, hpv] at h
    cases h
  · rw [gtk_slot, hgv] at h
    cases h

theorem keyMoves_forget (s : Supplicant) : KeyMoves s s.forget :=
  keyMoves_dropped rfl rfl rfl rfl

theorem keyMoves_start (s : Supplicant) (crypto : CryptoOps) (pmk : Octets 32) (own bssid : Mac)
    (snonce : Octets 32) (ap_rsn : Option RsnInfo) :
    KeyMoves s (s.start crypto pmk own bssid snonce ap_rsn) := keyMoves_dropped rfl rfl rfl rfl

/-- A GTK that is installed over the one in use is that one. -/
theorem moves_install_gtk {s t : Supplicant} {g : GtkKde}
    (hv : t.gtk_valid_ = true)
    (hgen : t.gtk_gen_ = if s.gtk_in_use g then s.gtk_gen_ else s.gtk_gen_ + 1)
    (hkey : t.gtk_ = if s.gtk_in_use g then s.gtk_ else Octets.overwrite s.gtk_ g.gtk g.gtk_len) :
    Moves s.gtk_slot t.gtk_slot := by
  by_cases h : s.gtk_in_use g = true
  · rw [if_pos h] at hgen hkey
    refine .kept hgen fun _ => ⟨?_, by simp only [gtk_slot, gtk, hkey]⟩
    simp only [gtk_in_use, Bool.and_eq_true] at h
    exact h.1.1.1
  · rw [if_neg h] at hgen
    exact .installed hgen hv

theorem keyMoves_on_eapol (s : Supplicant) (e : Bytes) : KeyMoves s (s.on_eapol e).sup := by
  have he := on_eapol_effect s e
  generalize s.on_eapol e = r at he
  cases he with
  | quiet same _ =>
    rw [same]
    exact ⟨Moves.refl _, Moves.refl _⟩
  | msg1 _ _ _ _ =>
    rw [accept_msg1_eq]
    exact ⟨Moves.refl _, Moves.refl _⟩
  | msg3 _ _ _ _ =>
    rename_i k kptk from_cand g reply pass kind key checked
    rw [install_msg3_eq]
    refine ⟨?_, moves_install_gtk rfl rfl rfl⟩
    by_cases h : s.ptk_valid_ = true ∧ kptk = s.ptk_
    · refine .kept ?_ fun _ => ⟨h.1, ?_⟩
      · show (if s.ptk_valid_ = true ∧ kptk = s.ptk_ then s.ptk_gen_ else s.ptk_gen_ + 1) = _
        rw [if_pos h]
        rfl
      · simp only [ptk_slot, tk, h.2]
    · refine .installed ?_ rfl
      show (if s.ptk_valid_ = true ∧ kptk = s.ptk_ then s.ptk_gen_ else s.ptk_gen_ + 1) = _
      rw [if_neg h]
      rfl
  | group1 _ _ _ =>
    rename_i k g reply pass kind checked
    rw [install_group1_eq]
    exact ⟨Moves.refl _, moves_install_gtk rfl rfl rfl⟩

end Supplicant

open Supplicant (KeyMoves keyMoves_refl keyMoves_forget keyMoves_start keyMoves_on_eapol)

namespace StationSm

theorem keyMoves_send_assoc (s : StationSm) (now : UInt32) :
    KeyMoves s.sup_ (s.send_assoc now).sup_ := by
  unfold send_assoc
  split
  · exact keyMoves_forget s.sup_
  · have hq := core_queue s.next_seq.2 (assign_seq s.assoc_request s.next_seq.1)
    have hsup : (s.next_seq.2.queue (assign_seq s.assoc_request s.next_seq.1)).1.sup_ = s.sup_ :=
      congrArg Prod.fst hq
    dsimp only
    split
    · show KeyMoves s.sup_ (s.next_seq.2.queue _).1.sup_
      rw [hsup]
      exact keyMoves_refl _
    · rw [hsup]
      exact keyMoves_refl _

theorem sup_send_auth (s : StationSm) (now : UInt32) : (s.send_auth now).sup_ = s.sup_ :=
  congrArg Prod.fst (core_send_auth s now)

theorem keyMoves_start_four_way (s : StationSm) : KeyMoves s.sup_ s.start_four_way.sup_ := by
  unfold start_four_way
  split
  · exact keyMoves_refl _
  · exact keyMoves_start _ _ _ _ _ _ _

theorem keyMoves_on_rx (s : StationSm) (frame : Bytes) (now : UInt32) :
    KeyMoves s.sup_ (s.on_rx frame now).sup_ := by
  have he := on_rx_effect s frame now
  generalize s.on_rx frame now = t at he ⊢
  cases he with
  | quiet same =>
    rw [same]
    exact keyMoves_refl _
  | auth_refused _ status => exact keyMoves_forget _
  | auth_accepted _ => exact keyMoves_send_assoc s.auth_done now
  | assoc_refused _ status => exact keyMoves_forget _
  | assoc_open _ _ aid _ => exact keyMoves_refl _
  | assoc_wpa2 _ _ aid _ => exact keyMoves_start_four_way (s.assoc_done aid now .FourWay)
  | ended _ _ reason => exact keyMoves_forget _
  | eapol _ hh =>
    rw [hh.sup]
    exact keyMoves_on_eapol _ _

theorem keyMoves_on_decrypted (s : StationSm) (msdu : Bytes) (now : UInt32) :
    KeyMoves s.sup_ (s.on_decrypted_msdu msdu now).1.sup_ := by
  rcases on_decrypted_msdu_effect s msdu now with hq | hh
  · rw [hq]
    exact keyMoves_refl _
  · rw [hh.sup]
    exact keyMoves_on_eapol _ _

/-- A machine that is connected after a call was so before it, under the same keys. -/
def Stays (s t : StationSm) : Prop := t.connected = true → s.connected = true ∧ t.sup_ = s.sup_

theorem stays_of_state {s t : StationSm} (h : t.state_ ≠ .Connected) : Stays s t := by
  intro hc
  simp only [connected, Bool.and_eq_true, decide_eq_true_eq] at hc
  exact absurd hc.1 h

/-- The calls that are neither a received frame nor a new configuration. -/
inductive Own : Op → Prop
  | join (bss : BssEntry) (snonce : Option (Octets 32)) (now : UInt32) : Own (.join bss snonce now)
  | leave (reason : UInt16) : Own (.leave reason)
  | tick (now : UInt32) : Own (.tick now)
  | link_lost : Own .link_lost
  | pop_tx (out : Bool) : Own (.pop_tx out)

theorem state_send_auth (s : StationSm) (now : UInt32) : (s.send_auth now).state_ = s.state_ :=
  congrArg (fun x => x.2.2.2.2.1) (core_send_auth s now)

theorem state_begin_join (s : StationSm) (bss : BssEntry) (n : Octets 32) (now : UInt32) :
    ((s.begin_join bss n now).send_auth now).state_ = .Authenticating := by
  rw [state_send_auth]
  rfl

theorem sup_begin_join (s : StationSm) (bss : BssEntry) (n : Octets 32) (now : UInt32) :
    (s.begin_join bss n now).sup_ = s.sup_.forget := by
  have h : s.farewell.sup_ = s.sup_ := congrArg Prod.fst (core_farewell s)
  unfold begin_join
  dsimp only
  rw [h]

theorem keyMoves_own {s : StationSm} {op : Op} (h : Own op) : KeyMoves s.sup_ (s.step op).sup_ := by
  cases h with
  | join bss snonce now =>
    obtain ⟨rsn, ⟨why, hj⟩ | ⟨-, n, hj⟩⟩ := join_effect s bss snonce now
    · simp only [step, hj]
      exact keyMoves_forget _
    · simp only [step, hj]
      rw [sup_send_auth, sup_begin_join]
      exact keyMoves_forget _
  | leave reason =>
    simp only [step, leave]
    split
    · exact keyMoves_refl _
    · refine Supplicant.keyMoves_dropped ?_ ?_ rfl rfl
      · split
        · exact congrArg (fun x => x.1.ptk_gen_) (core_queue_deauth { s with tx_ := [] } reason)
        · rfl
      · split
        · exact congrArg (fun x => x.1.gtk_gen_) (core_queue_deauth { s with tx_ := [] } reason)
        · rfl
  | tick now =>
    simp only [step]
    rcases tick_effect s now with ht | ⟨why, ht⟩ | ⟨-, -, ht⟩ | ⟨-, -, ht⟩
    · rw [ht]
      exact keyMoves_refl _
    · rw [ht]
      exact keyMoves_forget _
    · rw [ht, sup_send_auth]
      exact keyMoves_refl _
    · rw [ht]
      exact keyMoves_send_assoc s now
  | link_lost =>
    simp only [step, link_lost]
    split
    · exact keyMoves_forget _
    · exact keyMoves_refl _
  | pop_tx out =>
    simp only [step, pop_tx]
    split
    · exact keyMoves_refl _
    · exact keyMoves_refl _

theorem state_send_assoc (s : StationSm) (now : UInt32) :
    (s.send_assoc now).state_ = s.state_ ∨ (s.send_assoc now).state_ = .Failed := by
  unfold send_assoc
  split
  · exact Or.inr rfl
  · have hq : (s.next_seq.2.queue (assign_seq s.assoc_request s.next_seq.1)).1.state_ = s.state_ :=
      congrArg (fun x => x.2.2.2.2.1)
        (core_queue s.next_seq.2 (assign_seq s.assoc_request s.next_seq.1))
    dsimp only
    split
    · exact Or.inl hq
    · exact Or.inl hq

theorem stays_own {s : StationSm} {op : Op} (h : Own op) : Stays s (s.step op) := by
  cases h with
  | join bss snonce now =>
    apply stays_of_state
    obtain ⟨rsn, ⟨why, hj⟩ | ⟨-, n, hj⟩⟩ := join_effect s bss snonce now
    · simp [step, hj, fail]
    · simp only [step, hj]
      rw [state_begin_join]
      decide
  | leave reason =>
    simp only [step, leave]
    split
    · exact fun hc => ⟨hc, rfl⟩
    · exact stays_of_state (by simp)
  | tick now =>
    simp only [step]
    rcases tick_effect s now with ht | ⟨why, ht⟩ | ⟨hst, -, ht⟩ | ⟨hst, -, ht⟩
    · rw [ht]
      exact fun hc => ⟨hc, rfl⟩
    · rw [ht]
      exact stays_of_state (by simp [fail])
    · apply stays_of_state
      rw [ht, state_send_auth, hst]
      decide
    · apply stays_of_state
      rw [ht]
      rcases state_send_assoc s now with h1 | h1
      · rw [h1, hst]
        decide
      · rw [h1]
        decide
  | link_lost =>
    simp only [step, link_lost]
    split
    · exact stays_of_state (by simp [fail])
    · exact fun hc => ⟨hc, rfl⟩
  | pop_tx out =>
    simp only [step, pop_tx]
    split
    · exact fun hc => ⟨hc, rfl⟩
    · exact fun hc => ⟨hc, rfl⟩

/-- A protected data frame moves the liveness and the counters of the machine, no more. -/
theorem on_rx_protected {s : StationSm} {frame : Bytes}
    (hkind : byteAt frame 0 = kFcData ∨ is_qos_data (byteAt frame 0) = true)
    (hprot : byteAt frame 1 &&& kFcProtected ≠ 0) (now : UInt32) :
    Quiet s (s.on_rx frame now) := by
  obtain ⟨h1, h2, h3, h4, h5⟩ := data_kind hkind
  have hd : ¬(byteAt frame 0 ≠ kFcData ∧ (!is_qos_data (byteAt frame 0)) = true) := by
    rintro ⟨hne, hq⟩
    rcases hkind with h | h
    · exact hne h
    · rw [h] at hq
      cases hq
  unfold on_rx
  split
  · rfl
  split
  · rfl
  split
  · rfl
  dsimp only
  split
  · rfl
  unfold on_our_frame
  dsimp only
  rw [if_neg h1, if_neg h2, if_neg h3, if_neg h4, if_neg h5]
  unfold on_data
  dsimp only
  rw [if_neg hd]
  split
  · rfl
  obtain ⟨l, hl⟩ : ∃ l, (if decide (addr1 frame = s.own_) = true ∧
      frame.length ≥ data_hdr_len (byteAt frame 0) (byteAt frame 1) then
        { s with last_heard_ms_ := now } else s) = { s with last_heard_ms_ := l } := by
    split
    · exact ⟨_, rfl⟩
    · exact ⟨s.last_heard_ms_, rfl⟩
  rw [hl]
  split
  · rfl
  · rfl

/-- What `on_decrypted_msdu` does not claim leaves the machine as it was, its liveness apart. -/
theorem on_decrypted_unclaimed {s : StationSm} {msdu : Bytes} {now : UInt32}
    (h : (s.on_decrypted_msdu msdu now).2 = none) :
    ∃ l, (s.on_decrypted_msdu msdu now).1 = { s with last_heard_ms_ := l } := by
  by_cases hk : eapol_key_msdu msdu = true ∧ zero_oui msdu = true
  · have := (decrypted_claims_iff s msdu now).mpr hk
    rw [h] at this
    cases this
  · obtain ⟨l, hl⟩ := on_decrypted_other s now hk
    exact ⟨l, by rw [hl]⟩

theorem connected_quiet {s t : StationSm} (h : Quiet s t) : t.connected = s.connected := by
  rw [h]
  rfl

end StationSm

/-! ## The numbers that a window took -/

namespace CcmpReplay

/-- The windows took all of these numbers, each on its traffic id, since they last restarted. -/
def Took (r : CcmpReplay) (taken : List (Int × UInt64)) : Prop :=
  ∃ ops, r = run ops ∧ ∀ x ∈ taken, x.2.toNat ∈ (history x.1 ops).accepted

theorem run_snoc (ops : List Op) (op : Op) : run (ops ++ [op]) = (run ops).step op :=
  Runs.after_snoc step {} ops op

theorem took_fresh : Took {} [] := ⟨[], rfl, fun x hx => by simp at hx⟩

theorem Took.reset {r : CcmpReplay} {taken : List (Int × UInt64)} (h : Took r taken) :
    Took r.reset [] := by
  obtain ⟨ops, rfl, -⟩ := h
  exact ⟨ops ++ [.reset], by rw [run_snoc]; rfl, fun x hx => by simp at hx⟩

theorem Took.seed {r : CcmpReplay} {taken : List (Int × UInt64)} (h : Took r taken)
    (pn : UInt64) : Took (r.seed pn) [] := by
  obtain ⟨ops, rfl, -⟩ := h
  exact ⟨ops ++ [.seed pn], by rw [run_snoc]; rfl, fun x hx => by simp at hx⟩

theorem history_accept (t : Int) (ops : List Op) (pn : UInt64) (tid : Int) :
    history t (ops ++ [.accept pn tid]) =
      if tid = t ∧ ((run ops).accept pn tid).2 = true then (history t ops).note pn.toNat
      else history t ops := by
  unfold history
  rw [Runs.after_snoc, ← observe_run t ops]
  rfl

/-- A number that is taken was not taken before. -/
theorem Took.accept {r : CcmpReplay} {taken : List (Int × UInt64)} (h : Took r taken)
    {pn : UInt64} {tid : Int} (ha : (r.accept pn tid).2 = true) :
    (tid, pn) ∉ taken ∧ Took (r.accept pn tid).1 ((tid, pn) :: taken) := by
  obtain ⟨ops, rfl, hall⟩ := h
  rcases accept_effect (run ops) pn tid with hno | ⟨i, rfl, -, hw, -⟩
  · rw [hno] at ha
    cases ha
  have hadmits := (SlidingWindow.accept_isSome_iff (represents_history i ops) pn.toNat).mp
    (by rw [hw]; rfl)
  refine ⟨fun hmem => hadmits.unused (hall _ hmem), ops ++ [.accept pn (i : Nat)],
    by rw [run_snoc]; rfl, ?_⟩
  intro x hx
  rw [history_accept]
  rcases List.mem_cons.mp hx with rfl | hx
  · rw [if_pos ⟨rfl, ha⟩]
    exact List.mem_cons_self
  · split
    · exact List.mem_cons_of_mem _ (hall x hx)
    · exact hall x hx

theorem accept_refused {r : CcmpReplay} {pn : UInt64} {tid : Int}
    (h : (r.accept pn tid).2 = false) : (r.accept pn tid).1 = r := by
  rcases accept_effect r pn tid with hno | ⟨i, -, hyes, -⟩
  · rw [hno]
  · rw [hyes] at h
    cases h

end CcmpReplay

end devourer.sta
