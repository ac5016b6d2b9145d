-- What a repeated frame can do: the counters of the frames that count only
-- grow, a key in use is never installed again, and a forged message 1
-- leaves an established association as it is.
import Devourer.Sta.SupplicantLaws

namespace devourer.sta.Supplicant

/-- The machine after a list of frames. -/
def feed (s : Supplicant) (frames : List Bytes) : Supplicant :=
  Runs.after (fun s f => (s.on_eapol f).sup) s frames

@[simp] theorem feed_nil (s : Supplicant) : s.feed [] = s := rfl

@[simp] theorem feed_cons (s : Supplicant) (f : Bytes) (fs : List Bytes) :
    s.feed (f :: fs) = (s.on_eapol f).sup.feed fs := rfl

@[simp] theorem feed_snoc (s : Supplicant) (fs : List Bytes) (f : Bytes) :
    s.feed (fs ++ [f]) = ((s.feed fs).on_eapol f).sup := Runs.after_snoc _ s fs f

theorem good_feed {s : Supplicant} (h : Good s) (fs : List Bytes) : Good (s.feed fs) :=
  Runs.after_keeps _ s h (fun _ f hs => good_on_eapol f hs) fs

/-! ## The keys in force -/

/-- The installed PTK, when there is one. -/
def pairwiseKey (s : Supplicant) : Option Ptk := if s.ptk_valid_ then some s.ptk_ else none

/-- The installed GTK, when there is one: its key id and its bytes. -/
def groupKey (s : Supplicant) : Option (UInt8 × Bytes) :=
  if s.gtk_valid_ then some (s.gtk_key_id_, s.gtk_.val.take s.gtk_len_) else none

/-- The key id and the 16 bytes that a GTK KDE delivers. -/
def gtkKey (g : GtkKde) : UInt8 × Bytes := (g.key_id, g.gtk.val.take 16)

theorem pairwiseKey_eq_some {s : Supplicant} {ptk : Ptk} :
    s.pairwiseKey = some ptk ↔ s.ptk_valid_ = true ∧ ptk = s.ptk_ := by
  unfold pairwiseKey
  by_cases hv : s.ptk_valid_ = true
  · simp only [hv, if_true, Option.some.injEq, true_and]
    exact eq_comm
  · simp [hv]

/-- A GTK is in use exactly when it is the group key already. -/
theorem gtk_in_use_iff {s : Supplicant} {g : GtkKde} (h : Good s) (hlen : g.gtk_len = 16) :
    s.gtk_in_use g = true ↔ s.groupKey = some (gtkKey g) := by
  unfold gtk_in_use groupKey gtkKey
  by_cases hv : s.gtk_valid_ = true
  · simp [hv, h.gtk_len hv, hlen]
  · simp [hv]

/-- After an install the group key is the GTK that was delivered, in use before or not. -/
theorem gtk_bytes_installed (s : Supplicant) {g : GtkKde} (hlen : g.gtk_len = 16) :
    (g.key_id, (if s.gtk_in_use g then s.gtk_ else Octets.overwrite s.gtk_ g.gtk g.gtk_len).val.take
      g.gtk_len) = gtkKey g := by
  unfold gtkKey
  rw [← hlen]
  split
  · rename_i hu
    simp only [gtk_in_use, Bool.and_eq_true, beq_iff_eq] at hu
    rw [hu.2]
  · rw [Octets.take_overwrite]

/-- From `s` the message `k` was accepted: it belongs to `ptk` and delivers `g`, both are
in force in `t`, and a key that was in force before keeps its generation. -/
structure Accepted (s : Supplicant) (k : EapolKey) (t : Supplicant) (ptk : Ptk) (g : GtkKde) :
    Prop where
  kind : classify k = .Msg3 ∨ classify k = .Group1
  fresh : s.rx_replay_set_ = true → s.rx_replay_ < k.replay
  unwrapped : ∃ crypto plain, s.crypto_ = some crypto ∧ unwrap_gtk crypto ptk k = some (plain, g)
  derived : classify k = .Msg3 → s.DerivedFrom k.nonce ptk
  in_force : classify k = .Group1 → s.pairwiseKey = some ptk
  counter_set : t.rx_replay_set_ = true
  counter : t.rx_replay_ = k.replay
  ptk_now : t.pairwiseKey = some ptk
  gtk_now : t.groupKey = some (gtkKey g)
  ptk_gen : t.ptk_gen_ = if s.pairwiseKey = some ptk then s.ptk_gen_ else s.ptk_gen_ + 1
  gtk_gen : t.gtk_gen_ = if s.groupKey = some (gtkKey g) then s.gtk_gen_ else s.gtk_gen_ + 1
  gtk_rsc : s.groupKey = some (gtkKey g) → t.gtk_rsc_ = s.gtk_rsc_

theorem accepted_msg3 {s : Supplicant} {f : Bytes} {crypto : CryptoOps} {k : EapolKey}
    {kptk : Ptk} {c : Bool} {g : GtkKde} {e : Bytes} (h : Good s) (pass : Passed s f crypto k)
    (kind : classify k = .Msg3) (key : s.msg3_key k = .ok (kptk, c))
    (checked : s.check_msg3 crypto kptk k = .ok (g, e)) :
    Accepted s k (s.install_msg3 k kptk c g e) kptk g := by
  obtain ⟨-, ⟨plain, hu, -⟩, -⟩ := check_msg3_ok checked
  have hlen := (unwrap_gtk_delivers hu).gtk_len
  rw [install_msg3_eq]
  refine
    { kind := Or.inl kind
      fresh := pass.fresh
      unwrapped := ⟨crypto, plain, pass.crypto_eq, hu⟩
      derived := ?_
      in_force := by simp [kind]
      counter_set := rfl
      counter := rfl
      ptk_now := rfl
      gtk_now := by rw [← gtk_bytes_installed s hlen]; rfl
      ptk_gen := by simp only [pairwiseKey_eq_some]
      gtk_gen := by simp only [gtk_in_use_iff h hlen]
      gtk_rsc := ?_ }
  · intro _
    rcases msg3_key_ok key with ⟨-, hv, hn, hp⟩ | ⟨-, hv, hn, hp⟩
    · rw [hn, hp]; exact h.cand_derived hv
    · rw [hn, hp]; exact h.ptk_derived hv
  · intro hg
    simp only [(gtk_in_use_iff h hlen).mpr hg, if_true]

theorem accepted_group1 {s : Supplicant} {f : Bytes} {crypto : CryptoOps} {k : EapolKey}
    {g : GtkKde} {e : Bytes} (h : Good s) (pass : Passed s f crypto k)
    (kind : classify k = .Group1) (checked : s.check_group1 crypto k = .ok (g, e)) :
    Accepted s k (s.install_group1 k g e) s.ptk_ g := by
  obtain ⟨-, hv, -, ⟨plain, hu⟩, -⟩ := check_group1_ok checked
  have hlen := (unwrap_gtk_delivers hu).gtk_len
  have hptk : s.pairwiseKey = some s.ptk_ := pairwiseKey_eq_some.mpr ⟨hv, rfl⟩
  rw [install_group1_eq]
  refine
    { kind := Or.inr kind
      fresh := pass.fresh
      unwrapped := ⟨crypto, plain, pass.crypto_eq, hu⟩
      derived := by simp [kind]
      in_force := fun _ => hptk
      counter_set := rfl
      counter := rfl
      ptk_now := hptk
      gtk_now := by rw [← gtk_bytes_installed s hlen]; rfl
      ptk_gen := by rw [if_pos hptk]
      gtk_gen := by simp only [gtk_in_use_iff h hlen]
      gtk_rsc := ?_ }
  intro hg
  simp only [(gtk_in_use_iff h hlen).mpr hg, if_true]

/-- A frame leaves all that is installed as it is, or it is an accepted message 3 or
group message 1. -/
theorem stays_or_accepts {s : Supplicant} (f : Bytes) (h : Good s) :
    (s.on_eapol f).sup.installed = s.installed ∧
        ((s.on_eapol f).verdict = .Reply →
          ∃ k, parse_eapol_key f = some k ∧ classify k = .Msg1) ∨
      ∃ k ptk g, parse_eapol_key f = some k ∧ Accepted s k (s.on_eapol f).sup ptk g := by
  have he := on_eapol_effect s f
  generalize s.on_eapol f = r at he ⊢
  cases he with
  | quiet same hv => rw [same]; exact Or.inl ⟨rfl, fun hr => absurd hr hv⟩
  | msg1 pass kind _ _ => exact Or.inl ⟨rfl, fun _ => ⟨_, pass.parsed, kind⟩⟩
  | msg3 pass kind key checked =>
    exact Or.inr ⟨_, _, _, pass.parsed, accepted_msg3 h pass kind key checked⟩
  | group1 pass kind checked =>
    exact Or.inr ⟨_, _, _, pass.parsed, accepted_group1 h pass kind checked⟩

/-! ## The counters of the frames that count -/

/-- The replay counters of the frames that changed the keys, `rx_replay_` or anything else
that is installed, first frame first. -/
def movedCounters (s : Supplicant) : List Bytes → List UInt64
  | [] => []
  | f :: fs =>
    (if (s.on_eapol f).sup.installed ≠ s.installed then
      ((parse_eapol_key f).map (·.replay)).toList
    else []) ++ movedCounters (s.on_eapol f).sup fs

theorem replay_of_installed {s t : Supplicant} (h : t.installed = s.installed) :
    t.rx_replay_set_ = s.rx_replay_set_ ∧ t.rx_replay_ = s.rx_replay_ :=
  ⟨congrArg Installed.rx_replay_set_ h, congrArg Installed.rx_replay_ h⟩

/-- The last counter seen never falls. -/
theorem replay_never_falls {s : Supplicant} (h : Good s) (fs : List Bytes)
    (hset : s.rx_replay_set_ = true) :
    (s.feed fs).rx_replay_set_ = true ∧ s.rx_replay_ ≤ (s.feed fs).rx_replay_ := by
  induction fs using List.reverseRecOn with
  | nil => exact ⟨hset, UInt64.le_refl _⟩
  | append_singleton fs f ih =>
    rw [feed_snoc]
    rcases stays_or_accepts f (good_feed h fs) with ⟨hsame, -⟩ | ⟨k, ptk, g, -, ha⟩
    · obtain ⟨h1, h2⟩ := replay_of_installed hsame
      rw [h1, h2]
      exact ih
    · refine ⟨ha.counter_set, ?_⟩
      rw [ha.counter]
      exact UInt64.le_of_lt (UInt64.lt_of_le_of_lt ih.2 (ha.fresh ih.1))

/-- Each counter that still counts is above the last one seen. -/
theorem movedCounters_above (fs : List Bytes) : ∀ s : Supplicant, Good s →
    s.rx_replay_set_ = true → ∀ c ∈ movedCounters s fs, s.rx_replay_ < c := by
  induction fs with
  | nil => simp [movedCounters]
  | cons f fs ih =>
    intro s h hset c hc
    rw [movedCounters, List.mem_append] at hc
    rcases stays_or_accepts f h with ⟨hsame, -⟩ | ⟨k, ptk, g, hk, ha⟩
    · obtain ⟨h1, h2⟩ := replay_of_installed hsame
      rw [hsame] at hc
      simp only [ne_eq, not_true_eq_false, if_false, List.not_mem_nil, false_or] at hc
      rw [← h2]
      exact ih _ (good_on_eapol f h) (by rw [h1]; exact hset) c hc
    · have hlt := ha.fresh hset
      rcases hc with hc | hc
      · split at hc
        · simp only [hk, Option.map_some, Option.toList_some, List.mem_singleton] at hc
          rw [hc]
          exact hlt
        · simp at hc
      · have hc' := ih _ (good_on_eapol f h) ha.counter_set c hc
        rw [ha.counter] at hc'
        exact UInt64.lt_trans hlt hc'

theorem movedCounters_increase (fs : List Bytes) : ∀ s : Supplicant, Good s →
    (movedCounters s fs).Pairwise (· < ·) := by
  induction fs with
  | nil => intro s _; exact List.Pairwise.nil
  | cons f fs ih =>
    intro s h
    have hrest := ih _ (good_on_eapol f h)
    rw [movedCounters]
    rcases stays_or_accepts f h with ⟨hsame, -⟩ | ⟨k, ptk, g, hk, ha⟩
    · simp only [hsame, ne_eq, not_true_eq_false, if_false, List.nil_append]
      exact hrest
    · split
      · simp only [hk, Option.map_some, Option.toList_some, List.singleton_append,
          List.pairwise_cons]
        refine ⟨?_, hrest⟩
        intro c hc
        rw [← ha.counter]
        exact movedCounters_above fs _ (good_on_eapol f h) ha.counter_set c hc
      · exact hrest

/-! ## The two generations -/

/-- From `s` to `t` each generation stays with its key and moves by one with it, and the
receive counter of the GTK moves only with its generation. -/
structure GenerationsFollow (s t : Supplicant) : Prop where
  ptk : (t.ptk_gen_ = s.ptk_gen_ ∧ t.pairwiseKey = s.pairwiseKey) ∨
    (t.ptk_gen_ = s.ptk_gen_ + 1 ∧ t.pairwiseKey ≠ s.pairwiseKey)
  gtk : (t.gtk_gen_ = s.gtk_gen_ ∧ t.groupKey = s.groupKey) ∨
    (t.gtk_gen_ = s.gtk_gen_ + 1 ∧ t.groupKey ≠ s.groupKey)
  rsc : t.gtk_rsc_ ≠ s.gtk_rsc_ → t.gtk_gen_ = s.gtk_gen_ + 1

theorem keys_of_installed {s t : Supplicant} (h : t.installed = s.installed) :
    GenerationsFollow s t := by
  simp only [installed, Installed.mk.injEq] at h
  obtain ⟨h1, h2, -, h4, h5, h6, h7, h8, h9, h10, -⟩ := h
  refine ⟨Or.inl ⟨h9, ?_⟩, Or.inl ⟨h10, ?_⟩, fun hne => absurd h7 hne⟩
  · unfold pairwiseKey
    rw [h1, h2]
  · unfold groupKey
    rw [h4, h5, h6, h8]

/-- A generation that is kept for the old key and raised for any other one. -/
theorem generation_follows {α : Type} [DecidableEq α] {old new : Option α} {key : α}
    {gen gen' : UInt32} (hkey : new = some key)
    (hgen : gen' = if old = some key then gen else gen + 1) :
    (gen' = gen ∧ new = old) ∨ (gen' = gen + 1 ∧ new ≠ old) := by
  by_cases h : old = some key
  · rw [if_pos h] at hgen
    exact Or.inl ⟨hgen, by rw [hkey, h]⟩
  · rw [if_neg h] at hgen
    exact Or.inr ⟨hgen, by rw [hkey]; exact fun he => h he.symm⟩

/-- One frame moves each generation exactly when it moves its key. -/
theorem generations_follow_on_eapol {s : Supplicant} (f : Bytes) (h : Good s) :
    GenerationsFollow s (s.on_eapol f).sup := by
  rcases stays_or_accepts f h with ⟨hsame, -⟩ | ⟨k, ptk, g, -, ha⟩
  · exact keys_of_installed hsame
  · refine ⟨generation_follows ha.ptk_now ha.ptk_gen, generation_follows ha.gtk_now ha.gtk_gen, ?_⟩
    intro hne
    have hg := ha.gtk_gen
    rwa [if_neg (fun hold => hne (ha.gtk_rsc hold))] at hg

/-! ## Retransmissions -/

/-- What a PTK is derived from, apart from the ANonce. No frame changes it. -/
def derivation (s : Supplicant) : Option CryptoOps × Octets 32 × Mac × Mac × Octets 32 :=
  (s.crypto_, s.pmk_, s.own_, s.bssid_, s.snonce_)

theorem derivation_on_eapol (s : Supplicant) (f : Bytes) :
    (s.on_eapol f).sup.derivation = s.derivation := by
  have he := on_eapol_effect s f
  generalize s.on_eapol f = r at he ⊢
  cases he with
  | quiet same _ => rw [same]; rfl
  | msg1 _ _ _ _ => rfl
  | msg3 _ _ _ _ => rw [install_msg3_eq]; rfl
  | group1 _ _ _ => rw [install_group1_eq]; rfl

theorem derivation_feed (s : Supplicant) (fs : List Bytes) :
    (s.feed fs).derivation = s.derivation :=
  Runs.after_keeps (P := fun t => t.derivation = s.derivation) _ s rfl
    (fun t f ht => (derivation_on_eapol t f).trans ht) fs

/-- One derivation and one ANonce give one PTK. -/
theorem derived_unique {s t : Supplicant} {anonce : Octets 32} {p q : Ptk}
    (h : t.derivation = s.derivation) (hp : s.DerivedFrom anonce p) (hq : t.DerivedFrom anonce q) :
    q = p := by
  simp only [derivation, Prod.mk.injEq] at h
  obtain ⟨hc, h2, h3, h4, h5⟩ := h
  obtain ⟨crypto, hs, hp⟩ := hp
  obtain ⟨crypto', ht, hq⟩ := hq
  rw [hc, hs, Option.some.injEq] at ht
  subst ht
  rw [h2, h3, h4, h5, hp, Option.some.injEq] at hq
  exact hq.symm

/-- `k'` is `k` sent again: the same message of the same handshake with the same key data.
The counter and the MIC may differ. -/
structure Retransmits (k k' : EapolKey) : Prop where
  kind : classify k' = classify k
  nonce : k'.nonce = k.nonce
  key_data : k'.key_data = k.key_data

/-- `f` is an accepted message 3 or group message 1. -/
structure AcceptedFrame (s : Supplicant) (f : Bytes) (k : EapolKey) : Prop where
  parsed : parse_eapol_key f = some k
  kind : classify k = .Msg3 ∨ classify k = .Group1
  replied : (s.on_eapol f).verdict = .Reply

theorem accepted_of_frame {s : Supplicant} {f : Bytes} {k : EapolKey} (h : Good s)
    (hf : AcceptedFrame s f k) : ∃ ptk g, Accepted s k (s.on_eapol f).sup ptk g := by
  rcases stays_or_accepts f h with ⟨-, hv⟩ | ⟨k', ptk, g, hk', ha⟩
  · obtain ⟨k', hk', hkind⟩ := hv hf.replied
    rw [hf.parsed, Option.some.injEq] at hk'
    subst hk'
    rcases hf.kind with hc | hc
    · rw [hc] at hkind; cases hkind
    · rw [hc] at hkind; cases hkind
  · rw [hf.parsed, Option.some.injEq] at hk'
    subst hk'
    exact ⟨ptk, g, ha⟩

/-- A retransmission with no greater counter changes nothing that is installed. -/
theorem stale_retransmission_stays {s : Supplicant} {f : Bytes} {k k' : EapolKey} (h : Good s)
    (hf : AcceptedFrame s f k) (more : List Bytes) (f' : Bytes)
    (hk' : parse_eapol_key f' = some k') (hle : k'.replay ≤ k.replay) :
    ((s.feed (f :: more)).on_eapol f').sup.installed = (s.feed (f :: more)).installed := by
  obtain ⟨ptk, g, ha⟩ := accepted_of_frame h hf
  obtain ⟨hset, hrx⟩ := replay_never_falls (good_on_eapol f h) more ha.counter_set
  rw [ha.counter] at hrx
  rcases stays_or_accepts f' (good_feed h (f :: more)) with ⟨hsame, -⟩ | ⟨k2, _, _, hk2, ha2⟩
  · exact hsame
  · rw [hk', Option.some.injEq] at hk2
    subst hk2
    have hlt : k.replay < k'.replay := UInt64.lt_of_le_of_lt hrx (ha2.fresh hset)
    exact absurd hle (UInt64.not_le.mpr hlt)

/-- The keys that a retransmission delivers are the ones that its original delivered. -/
theorem retransmission_delivers_the_same {s t u v : Supplicant} {k k' : EapolKey}
    {p p' : Ptk} {g g' : GtkKde} (hd : t.derivation = s.derivation)
    (ha : Accepted s k u p g) (ha' : Accepted t k' v p' g') (hr : Retransmits k k')
    (hkeep : t.pairwiseKey = u.pairwiseKey) : p' = p ∧ g' = g := by
  have hp : p' = p := by
    rcases ha.kind with hk | hk
    · have hk' : classify k' = .Msg3 := hr.kind.trans hk
      have h1 := ha'.derived hk'
      rw [hr.nonce] at h1
      exact derived_unique hd (ha.derived hk) h1
    · have hk' : classify k' = .Group1 := hr.kind.trans hk
      have h1 := ha'.in_force hk'
      rw [hkeep, ha.ptk_now, Option.some.injEq] at h1
      exact h1.symm
  refine ⟨hp, ?_⟩
  obtain ⟨c, plain, hc, hu⟩ := ha.unwrapped
  obtain ⟨c', plain', hc', hu'⟩ := ha'.unwrapped
  have hcc : c' = c := by
    have := congrArg Prod.fst hd
    simp only [derivation, hc, hc', Option.some.injEq] at this
    exact this
  rw [hp, hcc] at hu'
  unfold unwrap_gtk at hu hu'
  rw [hr.key_data, hu] at hu'
  simp only [Option.some.injEq, Prod.mk.injEq] at hu'
  exact hu'.2.symm

/-- While the keys of an accepted message are in force, no retransmission of it moves a
generation, whatever its counter. -/
theorem retransmission_keeps_generations {s : Supplicant} {f : Bytes} {k k' : EapolKey}
    (h : Good s) (hf : AcceptedFrame s f k) (more : List Bytes) (f' : Bytes)
    (hk' : parse_eapol_key f' = some k') (hr : Retransmits k k')
    (hptk : (s.feed (f :: more)).pairwiseKey = (s.on_eapol f).sup.pairwiseKey)
    (hgtk : (s.feed (f :: more)).groupKey = (s.on_eapol f).sup.groupKey) :
    ((s.feed (f :: more)).on_eapol f').sup.ptk_gen_ = (s.feed (f :: more)).ptk_gen_ ∧
      ((s.feed (f :: more)).on_eapol f').sup.gtk_gen_ = (s.feed (f :: more)).gtk_gen_ := by
  obtain ⟨ptk, g, ha⟩ := accepted_of_frame h hf
  have hd := derivation_feed s (f :: more)
  have hgood := good_feed h (f :: more)
  generalize s.feed (f :: more) = t at *
  rcases stays_or_accepts f' hgood with ⟨hsame, -⟩ | ⟨k2, ptk', g', hk2, ha'⟩
  · simp only [installed, Installed.mk.injEq] at hsame
    obtain ⟨-, -, -, -, -, -, -, -, h9, h10, -⟩ := hsame
    exact ⟨h9, h10⟩
  · rw [hk', Option.some.injEq] at hk2
    subst hk2
    obtain ⟨rfl, rfl⟩ := retransmission_delivers_the_same hd ha ha' hr hptk
    rw [ha.ptk_now] at hptk
    rw [ha.gtk_now] at hgtk
    have h1 := ha'.ptk_gen
    have h2 := ha'.gtk_gen
    rw [if_pos hptk] at h1
    rw [if_pos hgtk] at h2
    exact ⟨h1, h2⟩

/-- No key is installed again. The counters of the frames that count are strictly
increasing; each generation moves by one exactly with its key, and the receive counter of
the GTK only with its generation; a retransmission with no greater counter changes
nothing, and one with a greater counter moves no generation while the keys that the
message delivered are the ones in force. -/
theorem no_key_is_installed_twice (ops : List Op) :
    (∀ frames, (movedCounters (run ops) frames).Pairwise (· < ·)) ∧
    (∀ f, GenerationsFollow (run ops) ((run ops).on_eapol f).sup) ∧
    (∀ (f : Bytes) (k : EapolKey) (more : List Bytes) (f' : Bytes) (k' : EapolKey),
      AcceptedFrame (run ops) f k → parse_eapol_key f' = some k' → Retransmits k k' →
      (k'.replay ≤ k.replay →
        (((run ops).feed (f :: more)).on_eapol f').sup.installed =
          ((run ops).feed (f :: more)).installed) ∧
      (((run ops).feed (f :: more)).pairwiseKey = ((run ops).on_eapol f).sup.pairwiseKey →
        ((run ops).feed (f :: more)).groupKey = ((run ops).on_eapol f).sup.groupKey →
        (((run ops).feed (f :: more)).on_eapol f').sup.ptk_gen_ =
            ((run ops).feed (f :: more)).ptk_gen_ ∧
          (((run ops).feed (f :: more)).on_eapol f').sup.gtk_gen_ =
            ((run ops).feed (f :: more)).gtk_gen_)) := by
  have hgood := good_run ops
  refine ⟨fun frames => movedCounters_increase frames _ hgood,
    fun f => generations_follow_on_eapol f hgood, ?_⟩
  intro f k more f' k' hf hk' hr
  refine ⟨fun hle => stale_retransmission_stays hgood hf more f' hk' hle, ?_⟩
  intro hptk hgtk
  exact retransmission_keeps_generations hgood hf more f' hk' hr hptk hgtk

/-- The law on a message 3 that is sent again with the next counter. -/
theorem a_retransmitted_msg3_moves_no_generation :
    ∃ k k', AcceptedFrame (run [demoSession.op, .on_eapol (demoSession.msg1 demoAnonce 1)])
        (demoSession.msg3 demoAnonce 2 1 5) k ∧
      parse_eapol_key (demoSession.msg3 demoAnonce 3 1 5) = some k' ∧ Retransmits k k' ∧
      (((run [demoSession.op, .on_eapol (demoSession.msg1 demoAnonce 1)]).feed
        [demoSession.msg3 demoAnonce 2 1 5]).on_eapol
          (demoSession.msg3 demoAnonce 3 1 5)).sup.gtk_gen_ =
      ((run [demoSession.op, .on_eapol (demoSession.msg1 demoAnonce 1)]).feed
        [demoSession.msg3 demoAnonce 2 1 5]).gtk_gen_ := by
  let k := (parse_eapol_key (demoSession.msg3 demoAnonce 2 1 5)).get (by decide +kernel)
  let k' := (parse_eapol_key (demoSession.msg3 demoAnonce 3 1 5)).get (by decide +kernel)
  have hf : AcceptedFrame (run [demoSession.op, .on_eapol (demoSession.msg1 demoAnonce 1)])
      (demoSession.msg3 demoAnonce 2 1 5) k :=
    ⟨by decide +kernel, by decide +kernel, by decide +kernel⟩
  have hk' : parse_eapol_key (demoSession.msg3 demoAnonce 3 1 5) = some k' := by decide +kernel
  have hr : Retransmits k k' := ⟨by decide +kernel, by decide +kernel, by decide +kernel⟩
  have hlaw :=
    (no_key_is_installed_twice [demoSession.op, .on_eapol (demoSession.msg1 demoAnonce 1)]).2.2
    (demoSession.msg3 demoAnonce 2 1 5) k [] (demoSession.msg3 demoAnonce 3 1 5) k' hf hk' hr
  exact ⟨k, k', hf, hk', hr,
    (hlaw.2 (by rw [feed_cons, feed_nil]) (by rw [feed_cons, feed_nil])).2⟩

/-- A message 3 that is sent again after a group rekey, with its old GTK and a greater
counter, does move the group generation: the GTK is not the one in force any more. -/
theorem an_old_msg3_moves_the_group_generation :
    ∃ k k', AcceptedFrame (run [demoSession.op, .on_eapol (demoSession.msg1 demoAnonce 1)])
        (demoSession.msg3 demoAnonce 2 1 5) k ∧
      parse_eapol_key (demoSession.msg3 demoAnonce 4 1 5) = some k' ∧ Retransmits k k' ∧
      k.replay < k'.replay ∧
      ((run [demoSession.op, .on_eapol (demoSession.msg1 demoAnonce 1)]).feed
        [demoSession.msg3 demoAnonce 2 1 5, demoSession.group1 demoAnonce 3 2 6,
          demoSession.msg3 demoAnonce 4 1 5]).gtk_gen_ ≠
      ((run [demoSession.op, .on_eapol (demoSession.msg1 demoAnonce 1)]).feed
        [demoSession.msg3 demoAnonce 2 1 5, demoSession.group1 demoAnonce 3 2 6]).gtk_gen_ := by
  let k := (parse_eapol_key (demoSession.msg3 demoAnonce 2 1 5)).get (by decide +kernel)
  let k' := (parse_eapol_key (demoSession.msg3 demoAnonce 4 1 5)).get (by decide +kernel)
  refine ⟨k, k', ⟨by decide +kernel, by decide +kernel, by decide +kernel⟩, by decide +kernel,
    ⟨by decide +kernel, by decide +kernel, by decide +kernel⟩, by decide +kernel, ?_⟩
  decide +kernel

/-! ## A forged message 1 -/

/-- The machine without what a message 1 writes: the candidate, the cached message 2 and
the diagnostic counters. -/
def withoutMsg1 (s : Supplicant) : Supplicant :=
  { s with
    anonce_ := Octets.zero 32
    cand_ptk_ := Octets.zero 48
    cand_valid_ := false
    m1_replay_ := 0
    m1_anonce_ := Octets.zero 32
    m1_answered_ := false
    m1_reply_ := []
    counters := {} }

/-- The two machines differ at most in what a message 1 writes. -/
def SameAssociation (s t : Supplicant) : Prop := t.withoutMsg1 = s.withoutMsg1

theorem sameAssociation_eq {s t : Supplicant} (h : SameAssociation s t) :
    t = { s with
      anonce_ := t.anonce_
      cand_ptk_ := t.cand_ptk_
      cand_valid_ := t.cand_valid_
      m1_replay_ := t.m1_replay_
      m1_anonce_ := t.m1_anonce_
      m1_answered_ := t.m1_answered_
      m1_reply_ := t.m1_reply_
      counters := t.counters } := by
  cases s
  cases t
  simp only [SameAssociation, withoutMsg1, Supplicant.mk.injEq] at h ⊢
  simp_all

/-- A message 1 on an established association writes its own fields only. -/
theorem sameAssociation_msg1 {s : Supplicant} {m : Bytes} {k : EapolKey}
    (hdone : s.state_ = .Done) (hk : parse_eapol_key m = some k) (hkind : classify k = .Msg1) :
    SameAssociation s (s.on_eapol m).sup := by
  have he := on_eapol_effect s m
  generalize s.on_eapol m = r at he ⊢
  cases he with
  | quiet same _ => rw [same]; rfl
  | msg1 _ _ _ _ =>
    unfold SameAssociation withoutMsg1
    rw [accept_msg1_eq]
    simp [hdone]
  | msg3 pass kind _ _ =>
    have := pass.parsed
    rw [hk, Option.some.injEq] at this
    rw [← this, hkind] at kind
    cases kind
  | group1 pass kind _ =>
    have := pass.parsed
    rw [hk, Option.some.injEq] at this
    rw [← this, hkind] at kind
    cases kind

theorem sameAssociation_state {s t : Supplicant} (h : SameAssociation s t) :
    t.state_ = s.state_ := by
  rw [sameAssociation_eq h]

theorem sameAssociation_feed {s : Supplicant} (hdone : s.state_ = .Done) (ms : List Bytes)
    (hms : ∀ m ∈ ms, ∃ k, parse_eapol_key m = some k ∧ classify k = .Msg1) :
    SameAssociation s (s.feed ms) := by
  induction ms using List.reverseRecOn with
  | nil => rfl
  | append_singleton ms m ih =>
    have hsame := ih (fun x hx => hms x (by simp [hx]))
    obtain ⟨k, hk, hkind⟩ := hms m (by simp)
    rw [feed_snoc]
    have hdone' : (s.feed ms).state_ = .Done := (sameAssociation_state hsame).trans hdone
    exact (sameAssociation_msg1 hdone' hk hkind).trans hsame

/-- The two calls answer alike and leave the same association. -/
structure SameOutcome (r r' : Outcome) : Prop where
  verdict : r'.verdict = r.verdict
  out : r'.out = r.out
  association : SameAssociation r.sup r'.sup

theorem sameOutcome_note {s t : Supplicant} (h : SameAssociation s t) (v : Verdict) :
    SameOutcome (s.note v) (t.note v) := ⟨rfl, rfl, h⟩

theorem sameOutcome_refuse {s t : Supplicant} (h : SameAssociation s t) (r : Refusal) :
    SameOutcome (s.refuse r) (t.refuse r) := by
  cases r with
  | verdict v => exact sameOutcome_note h v
  | rsn_mismatch => exact ⟨rfl, rfl, h⟩

theorem sameOutcome_retransmit {s t : Supplicant} (h : SameAssociation s t) (k : EapolKey)
    (kind : Kind) :
    SameOutcome (s.retransmit_or_replay k kind) (t.retransmit_or_replay k kind) := by
  have hc : (k.replay = t.rx_replay_ ∧ kind = t.answered_kind_ ∧ t.answered_ ∧
      k.replay = t.answered_replay_ ∧ t.last_reply_ ≠ []) ↔
      (k.replay = s.rx_replay_ ∧ kind = s.answered_kind_ ∧ s.answered_ ∧
      k.replay = s.answered_replay_ ∧ s.last_reply_ ≠ []) := by
    rw [sameAssociation_eq h]
  have hr : t.last_reply_ = s.last_reply_ := by rw [sameAssociation_eq h]
  unfold retransmit_or_replay
  by_cases hs : k.replay = s.rx_replay_ ∧ kind = s.answered_kind_ ∧ s.answered_ ∧
      k.replay = s.answered_replay_ ∧ s.last_reply_ ≠ []
  · rw [if_pos hs, if_pos (hc.mpr hs), hr]
    exact ⟨rfl, rfl, h⟩
  · rw [if_neg hs, if_neg (fun ht => hs (hc.mp ht))]
    exact sameOutcome_note h _

/-- A message 3 of the installed handshake is checked with the installed PTK, whatever
the candidate is: a candidate of the same ANonce is the same PTK. -/
theorem msg3_key_installed {s : Supplicant} {k : EapolKey} (h : Good s)
    (hv : s.ptk_valid_ = true) (hn : k.nonce = s.inst_anonce_) :
    ∃ c, s.msg3_key k = .ok (s.ptk_, c) := by
  unfold msg3_key
  by_cases hc : s.cand_valid_ = true ∧ k.nonce = s.anonce_
  · have hcand := h.cand_derived hc.1
    rw [← hc.2, hn] at hcand
    have heq : s.ptk_ = s.cand_ptk_ := derived_unique rfl hcand (h.ptk_derived hv)
    rw [if_pos hc, heq]
    exact ⟨true, rfl⟩
  · rw [if_neg hc, if_pos ⟨hv, hn⟩]
    exact ⟨false, rfl⟩

theorem sameOutcome_msg3 {s t : Supplicant} {k : EapolKey} (h : SameAssociation s t)
    (hs : Good s) (ht : Good t) (hv : s.ptk_valid_ = true) (hn : k.nonce = s.inst_anonce_)
    (crypto : CryptoOps) : SameOutcome (s.on_msg3 crypto k) (t.on_msg3 crypto k) := by
  have ht' := sameAssociation_eq h
  have hptk : t.ptk_ = s.ptk_ := by rw [ht']
  obtain ⟨c, hkey⟩ := msg3_key_installed hs hv hn
  obtain ⟨c', hkey'⟩ := msg3_key_installed (k := k) ht (by rw [ht']; exact hv)
    (by rw [ht']; exact hn)
  rw [hptk] at hkey'
  have hcheck : t.check_msg3 crypto s.ptk_ k = s.check_msg3 crypto s.ptk_ k := by rw [ht']; rfl
  unfold on_msg3
  simp only [hkey, hkey', hcheck]
  split
  · exact sameOutcome_refuse h _
  · refine ⟨rfl, rfl, ?_⟩
    rw [ht', install_msg3_eq, install_msg3_eq]
    rfl

theorem sameOutcome_group1 {s t : Supplicant} (h : SameAssociation s t) (crypto : CryptoOps)
    (k : EapolKey) : SameOutcome (s.on_group1 crypto k) (t.on_group1 crypto k) := by
  have ht' := sameAssociation_eq h
  have hcheck : t.check_group1 crypto k = s.check_group1 crypto k := by rw [ht']; rfl
  unfold on_group1
  simp only [hcheck]
  split
  · exact sameOutcome_note h _
  · refine ⟨rfl, rfl, ?_⟩
    rw [ht', install_group1_eq, install_group1_eq]
    rfl

/-- A message of the established association is treated alike whatever a message 1 left. -/
theorem sameOutcome_on_eapol {s t : Supplicant} {f : Bytes} {k : EapolKey}
    (h : SameAssociation s t) (hs : Good s) (ht : Good t) (hv : s.ptk_valid_ = true)
    (hk : parse_eapol_key f = some k)
    (hkind : classify k = .Group1 ∨ (classify k = .Msg3 ∧ k.nonce = s.inst_anonce_)) :
    SameOutcome (s.on_eapol f) (t.on_eapol f) := by
  have ht' := sameAssociation_eq h
  have hcrypto : t.crypto_ = s.crypto_ := by rw [ht']
  have hgate : (t.rx_replay_set_ = true ∧ k.replay ≤ t.rx_replay_) ↔
      (s.rx_replay_set_ = true ∧ k.replay ≤ s.rx_replay_) := by rw [ht']
  unfold on_eapol
  rw [hcrypto, sameAssociation_state h]
  split
  · exact sameOutcome_note h _
  split
  · exact sameOutcome_note h _
  simp only [hk]
  split
  · exact sameOutcome_note h _
  split
  · exact sameOutcome_note h _
  split
  · exact sameOutcome_note h _
  split
  · exact sameOutcome_note h _
  unfold on_key
  simp only [hgate]
  split
  · exact sameOutcome_retransmit h k _
  rcases hkind with hkind | ⟨hkind, hn⟩
  · simp only [hkind]
    exact sameOutcome_group1 h _ k
  · simp only [hkind]
    exact sameOutcome_msg3 h hs ht hv hn _

theorem installed_of_sameAssociation {s t : Supplicant} (h : SameAssociation s t) :
    t.installed = s.installed := by
  rw [sameAssociation_eq h]
  rfl

/-- Forged message 1 frames do not disturb an established association: a group message 1,
or a message 3 of the installed handshake, gets the same verdict and the same reply after
them, and leaves the same installed state, as without them. -/
theorem a_forged_msg1_disturbs_nothing (ops : List Op) (hdone : (run ops).state_ = .Done)
    (ms : List Bytes) (hms : ∀ m ∈ ms, ∃ k, parse_eapol_key m = some k ∧ classify k = .Msg1)
    (f : Bytes) (k : EapolKey) (hk : parse_eapol_key f = some k)
    (hkind : classify k = .Group1 ∨ (classify k = .Msg3 ∧ k.nonce = (run ops).inst_anonce_)) :
    (((run ops).feed ms).on_eapol f).verdict = ((run ops).on_eapol f).verdict ∧
      (((run ops).feed ms).on_eapol f).out = ((run ops).on_eapol f).out ∧
      (((run ops).feed ms).on_eapol f).sup.installed = ((run ops).on_eapol f).sup.installed ∧
      (((run ops).feed ms).on_eapol f).sup.state_ = ((run ops).on_eapol f).sup.state_ := by
  have hgood := good_run ops
  have hsame := sameAssociation_feed hdone ms hms
  have ho :=
    sameOutcome_on_eapol hsame hgood (good_feed hgood ms) (hgood.done_ptk.mp hdone) hk hkind
  exact ⟨ho.verdict, ho.out, installed_of_sameAssociation ho.association,
    sameAssociation_state ho.association⟩

/-- The law on a forged message 1 that quotes the installed ANonce. -/
theorem a_forged_msg1_before_a_rekey :
    (run [demoSession.op, .on_eapol (demoSession.msg1 demoAnonce 1),
      .on_eapol (demoSession.msg3 demoAnonce 2 1 5)]).state_ = .Done ∧
    (((run [demoSession.op, .on_eapol (demoSession.msg1 demoAnonce 1),
        .on_eapol (demoSession.msg3 demoAnonce 2 1 5)]).feed
        [demoSession.msg1 demoAnonce 9]).on_eapol
          (demoSession.msg3 demoAnonce 3 2 6)).verdict =
      ((run [demoSession.op, .on_eapol (demoSession.msg1 demoAnonce 1),
        .on_eapol (demoSession.msg3 demoAnonce 2 1 5)]).on_eapol
          (demoSession.msg3 demoAnonce 3 2 6)).verdict := by
  have hdone : (run [demoSession.op, .on_eapol (demoSession.msg1 demoAnonce 1),
      .on_eapol (demoSession.msg3 demoAnonce 2 1 5)]).state_ = .Done := by decide +kernel
  refine ⟨hdone, ?_⟩
  refine (a_forged_msg1_disturbs_nothing _ hdone [demoSession.msg1 demoAnonce 9] ?_
    (demoSession.msg3 demoAnonce 3 2 6) ((parse_eapol_key (demoSession.msg3 demoAnonce 3 2 6)).get
      (by decide +kernel)) (by decide +kernel) (by decide +kernel)).1
  intro m hm
  rw [List.mem_singleton] at hm
  subst hm
  exact ⟨(parse_eapol_key (demoSession.msg1 demoAnonce 9)).get (by decide +kernel),
    by decide +kernel, by decide +kernel⟩

end devourer.sta.Supplicant
