-- The station client over whole runs: what it opens and seals under each key,
-- and that no key seals two frames under one nonce.
import Devourer.Sta.StaClient
import Devourer.Sta.StaKeys

namespace devourer.sta

open KeySlot
open Supplicant (KeyMoves keyMoves_refl keyMoves_forget keyMoves_start keyMoves_on_eapol)

/-! ## One key, from the side that opens and from the side that seals -/

/-- The openings under the keys of one slot: the number of the install that the client has noted,
the window that it keeps for it, and what went through. -/
structure SideSound (keys : List (Octets 16)) (slot : KeySlot) (seen : UInt32) (win : CcmpReplay)
    (os : List Opening) : Prop where
  record : Records keys slot
  seen_le : seen.toNat ≤ keys.length
  installed : ∀ o ∈ os, Installed keys o.gen o.tk ∧ o.gen.toNat ≤ seen.toNat
  taken : win.Took ((os.filter fun o => o.gen = seen).map fun o => (o.tid, o.pn))
  once : os.Pairwise fun o p => o.gen = p.gen → (o.tid, o.pn) ≠ (p.tid, p.pn)

namespace SideSound

variable {keys : List (Octets 16)} {slot slot' : KeySlot} {seen : UInt32} {win win' : CcmpReplay}
  {os : List Opening}

theorem moved (h : SideSound keys slot seen win os) (hm : Moves slot slot')
    (hfew : (noted keys slot slot').length < UInt32.size) :
    SideSound (noted keys slot slot') slot' seen win os := by
  have hp := noted_prefix keys slot slot'
  refine ⟨h.record.noted hm hfew, Nat.le_trans h.seen_le hp.length_le, ?_, h.taken, h.once⟩
  intro o ho
  exact ⟨(h.installed o ho).1.mono hp, (h.installed o ho).2⟩

/-- A key that was not noted yet has opened nothing. -/
theorem restarted (h : SideSound keys slot seen win os) (hne : slot.gen ≠ seen)
    (hwin : win'.Took []) : SideSound keys slot slot.gen win' os := by
  have hlt : seen.toNat < slot.gen.toNat := by
    have hle := h.seen_le
    rw [← h.record.count] at hle
    exact Nat.lt_of_le_of_ne hle fun he => hne (UInt32.toNat_inj.mp he).symm
  have hnone : (os.filter fun o => o.gen = slot.gen) = [] := by
    apply List.filter_eq_nil_iff.mpr
    intro o ho
    have hle := (h.installed o ho).2
    simp only [decide_eq_true_eq]
    intro he
    rw [he] at hle
    omega
  refine ⟨h.record, Nat.le_of_eq h.record.count, ?_, ?_, h.once⟩
  · intro o ho
    exact ⟨(h.installed o ho).1, Nat.le_trans (h.installed o ho).2 (Nat.le_of_lt hlt)⟩
  · rw [hnone]
    exact hwin

theorem took (h : SideSound keys slot seen win os) {o : Opening} (hgen : o.gen = seen)
    (hkey : Installed keys seen o.tk) (ha : (win.accept o.pn o.tid).2 = true) :
    SideSound keys slot seen (win.accept o.pn o.tid).1 (os ++ [o]) := by
  obtain ⟨hnew, htook⟩ := h.taken.accept ha
  refine ⟨h.record, h.seen_le, ?_, ?_, ?_⟩
  · intro p hp
    rcases List.mem_append.mp hp with hp | hp
    · exact h.installed p hp
    · rw [List.mem_singleton.mp hp, hgen]
      exact ⟨hkey, Nat.le_refl _⟩
  · obtain ⟨ops, hrun, hall⟩ := htook
    refine ⟨ops, hrun, ?_⟩
    intro x hx
    apply hall
    simp only [List.filter_append, List.map_append, List.mem_append] at hx
    rcases hx with hx | hx
    · exact List.mem_cons_of_mem _ hx
    · simp only [hgen, decide_true, List.filter_cons_of_pos, List.filter_nil, List.map_cons,
        List.map_nil, List.mem_singleton] at hx
      rw [hx]
      exact List.mem_cons_self
  · apply List.pairwise_append.mpr
    refine ⟨h.once, List.pairwise_singleton _ _, ?_⟩
    intro p hp q hq hpq heq
    rw [List.mem_singleton.mp hq] at hpq heq
    apply hnew
    rw [← heq]
    apply List.mem_map_of_mem (f := fun o : Opening => (o.tid, o.pn))
    simp [hp, hpq, hgen]

end SideSound

/-- The frames that were sealed under the keys of a slot, with the next packet number. -/
structure SealSound (keys : List (Octets 16)) (seen : UInt32) (pn : UInt64)
    (ss : List (UInt32 × Sealing)) : Prop where
  installed : ∀ x ∈ ss, Installed keys x.1 x.2.tk ∧ x.1.toNat ≤ seen.toNat
  below : ∀ x ∈ ss, x.1 = seen → x.2.pn.toNat < pn.toNat
  sealed : ∀ x ∈ ss, x.2.frame.isSome = true
  once : ss.Pairwise fun x y => x.1 = y.1 → x.2.pn ≠ y.2.pn

namespace SealSound

variable {keys keys' : List (Octets 16)} {seen : UInt32} {pn : UInt64}
  {ss : List (UInt32 × Sealing)}

theorem moved (h : SealSound keys seen pn ss) (hp : keys <+: keys') : SealSound keys' seen pn ss :=
  ⟨fun x hx => ⟨(h.installed x hx).1.mono hp, (h.installed x hx).2⟩, h.below, h.sealed, h.once⟩

theorem restarted (h : SealSound keys seen pn ss) {gen : UInt32} (hlt : seen.toNat < gen.toNat) :
    SealSound keys gen 1 ss := by
  refine ⟨?_, ?_, h.sealed, h.once⟩
  · intro x hx
    exact ⟨(h.installed x hx).1, Nat.le_trans (h.installed x hx).2 (Nat.le_of_lt hlt)⟩
  · intro x hx heq
    have hle := (h.installed x hx).2
    rw [heq] at hle
    omega

/-- One more frame takes the next number. -/
theorem snoc (h : SealSound keys seen pn ss) {s : Sealing} (hkey : Installed keys seen s.tk)
    (hpn : s.pn = pn) (hs : s.frame.isSome = true) :
    SealSound keys seen (pn + 1) (ss ++ [(seen, s)]) := by
  have hmax : pn.toNat ≤ kCcmpPnMax.toNat := by
    rw [← hpn]
    exact UInt64.le_iff_toNat_le.mp (Sealing.of_success hs).1
  have hnext : (pn + 1).toNat = pn.toNat + 1 := by
    rw [UInt64.toNat_add]
    apply Nat.mod_eq_of_lt
    show pn.toNat + 1 < 18446744073709551616
    have : kCcmpPnMax.toNat = 281474976710655 := rfl
    omega
  have hall : ∀ {P : UInt32 × Sealing → Prop}, (∀ x ∈ ss, P x) → P (seen, s) →
      ∀ x ∈ ss ++ [(seen, s)], P x := by
    intro P h1 h2 x hx
    rcases List.mem_append.mp hx with hx | hx
    · exact h1 x hx
    · rw [List.mem_singleton.mp hx]
      exact h2
  refine ⟨hall h.installed ⟨hkey, Nat.le_refl _⟩, hall ?_ ?_, hall h.sealed hs, ?_⟩
  · intro x hx heq
    have := h.below x hx heq
    omega
  · intro _
    dsimp only
    rw [hpn, hnext]
    omega
  · apply List.pairwise_append.mpr
    refine ⟨h.once, List.pairwise_singleton _ _, ?_⟩
    intro x hx y hy heq hsame
    rw [List.mem_singleton.mp hy] at heq hsame
    have := h.below x hx heq
    rw [hsame] at this
    dsimp only at this
    rw [hpn] at this
    omega

end SealSound

/-! ## A watched run -/

namespace Event

def sealing : Event → Option (UInt32 × Sealing)
  | .sealed gen s => some (gen, s)
  | .opened _ => none
  | .tap _ => none

def opening : Event → Option Opening
  | .sealed _ _ => none
  | .opened o => some o
  | .tap _ => none

def eth : Event → Option Bytes
  | .sealed _ _ => none
  | .opened _ => none
  | .tap e => some e

end Event

/-- The frames that were opened under the group keys, or under the pairwise ones. -/
def opened (group : Bool) (es : List Event) : List Opening :=
  (es.filterMap Event.opening).filter fun o => o.group == group

theorem opened_append (group : Bool) (es fs : List Event) :
    opened group (es ++ fs) = opened group es ++ opened group fs := by
  simp [opened]

/-- The pairwise keys that were installed, after the machine went from `s` to `t`. -/
def ptks_after (ptks : List (Octets 16)) (s t : StationSm) : List (Octets 16) :=
  noted ptks s.sup_.ptk_slot t.sup_.ptk_slot

def gtks_after (gtks : List (Octets 16)) (s t : StationSm) : List (Octets 16) :=
  noted gtks s.sup_.gtk_slot t.sup_.gtk_slot

theorem keys_after_same (keys : List (Octets 16)) {s t : StationSm} (h : t.sup_ = s.sup_) :
    ptks_after keys s t = keys ∧ gtks_after keys s t = keys := by
  unfold ptks_after gtks_after noted
  rw [h]
  simp

/-- A run of the client, with the keys that were installed and what could be seen of it. -/
structure Watch where
  client : StaClient
  ptks : List (Octets 16) := []
  gtks : List (Octets 16) := []
  events : List Event := []

namespace Watch

def step (w : Watch) (op : StaClient.Op) : Watch :=
  let r := w.client.step op
  { client := r.1
    ptks := ptks_after w.ptks w.client.g_sm r.1.g_sm
    gtks := gtks_after w.gtks w.client.g_sm r.1.g_sm
    events := w.events ++ r.2 }

def seals (w : Watch) : List Sealing := (w.events.filterMap Event.sealing).map Prod.snd

def openings (w : Watch) : List Opening := w.events.filterMap Event.opening

/-- The Ethernet frames that the host got. -/
def taps (w : Watch) : List Bytes := w.events.filterMap Event.eth

end Watch

def watch (u : StaClient.Setup) (ops : List StaClient.Op) : Watch :=
  Runs.after Watch.step { client := StaClient.start u } ops

/-! ## The invariant -/

/-- The events so far are sound for both keys, as long as the counts of the installs have not
wrapped. -/
structure Sound (ptks gtks : List (Octets 16)) (c : StaClient) (es : List Event) : Prop where
  seals : ptks.length < UInt32.size →
    SealSound ptks c.g_ptk_gen_seen c.g_tx_pn (es.filterMap Event.sealing)
  pairwise : ptks.length < UInt32.size →
    SideSound ptks c.g_sm.sup_.ptk_slot c.g_ptk_gen_seen c.g_rx_replay (opened false es)
  group : gtks.length < UInt32.size →
    SideSound gtks c.g_sm.sup_.gtk_slot c.g_gtk_gen_seen c.g_group_replay (opened true es)

/-- The keys in use are the ones whose numbers the client counts. -/
structure Fresh (c : StaClient) : Prop where
  ptk : c.g_sm.sup_.ptk_valid_ = true → c.g_sm.sup_.ptk_gen_ = c.g_ptk_gen_seen
  gtk : c.g_sm.sup_.gtk_valid_ = true → c.g_sm.sup_.gtk_gen_ = c.g_gtk_gen_seen

/-- What holds between any two operations of the client. -/
structure Rest (ptks gtks : List (Octets 16)) (c : StaClient) (es : List Event) : Prop where
  good : c.g_sm.Good
  sound : Sound ptks gtks c es
  fresh : c.g_sm.connected = true → Fresh c

namespace StaClient

/-- The fields that the invariant speaks of. -/
def held (c : StaClient) : StationSm × UInt64 × CcmpReplay × CcmpReplay × UInt32 × UInt32 :=
  (c.g_sm, c.g_tx_pn, c.g_rx_replay, c.g_group_replay, c.g_ptk_gen_seen, c.g_gtk_gen_seen)

theorem held_enqueue (c : StaClient) (mpdu : Bytes) : (c.enqueue mpdu).1.held = c.held := by
  unfold enqueue
  dsimp only
  split
  · rfl
  · rfl

theorem held_air_plain (c : StaClient) (msdu : Bytes) (da : Mac) (from_host : Bool) :
    (c.air_plain msdu da from_host).held = c.held := by
  unfold air_plain
  exact held_enqueue _ _

theorem held_probe (c : StaClient) (chan : UInt8) : (c.probe chan).held = c.held := by
  unfold probe
  dsimp only
  split
  · rfl
  · exact held_enqueue _ _

/-- The fields that tell whether the keys are fresh. -/
def machine (c : StaClient) : StationSm × UInt32 × UInt32 :=
  (c.g_sm, c.g_ptk_gen_seen, c.g_gtk_gen_seen)

theorem machine_of_held {c d : StaClient} (h : d.held = c.held) : d.machine = c.machine := by
  simp only [held, Prod.mk.injEq] at h
  simp [machine, h]

theorem machine_air_msdu (c : StaClient) (msdu : Bytes) (da : Mac) (tk : Option (Octets 16))
    (from_host : Bool) : (c.air_msdu msdu da tk from_host).1.machine = c.machine := by
  unfold air_msdu
  split
  · exact machine_of_held (held_air_plain c msdu da from_host)
  · unfold air_sealed
    dsimp only
    split
    · rfl
    split
    · rfl
    · exact (machine_of_held (held_enqueue _ _)).trans rfl

theorem sm_note_keys (c : StaClient) : c.note_keys.g_sm = c.g_sm := by
  unfold note_keys note_gtk note_ptk
  repeat' split
  all_goals rfl

end StaClient

theorem Fresh.same {c d : StaClient} (h : Fresh c) (hm : d.machine = c.machine) : Fresh d := by
  simp only [StaClient.machine, Prod.mk.injEq] at hm
  obtain ⟨h1, h2, h3⟩ := hm
  exact ⟨by rw [h1, h2]; exact h.ptk, by rw [h1, h3]; exact h.gtk⟩

/-- The keys are fresh once they are noted. -/
theorem fresh_note_keys (c : StaClient) : Fresh c.note_keys := by
  have hp : c.note_ptk.g_sm = c.g_sm := by
    unfold StaClient.note_ptk
    split
    · rfl
    · rfl
  have hpf : c.g_sm.sup_.ptk_valid_ = true →
      c.g_sm.sup_.ptk_gen_ = c.note_ptk.g_ptk_gen_seen := by
    intro hv
    unfold StaClient.note_ptk
    split
    · rfl
    · rename_i h
      exact not_not.mp fun hne => h ⟨hv, hne⟩
  unfold StaClient.note_keys StaClient.note_gtk
  split
  · refine ⟨?_, fun _ => rfl⟩
    show c.note_ptk.g_sm.sup_.ptk_valid_ = true → c.note_ptk.g_sm.sup_.ptk_gen_ = _
    rw [hp]
    exact hpf
  · rename_i h
    refine ⟨by rw [hp]; exact hpf, ?_⟩
    intro hv
    exact not_not.mp fun hne => h ⟨hv, hne⟩

namespace Sound

variable {ptks gtks : List (Octets 16)} {c d : StaClient} {es : List Event}

theorem same (h : Sound ptks gtks c es) (hd : d.held = c.held) : Sound ptks gtks d es := by
  simp only [StaClient.held, Prod.mk.injEq] at hd
  obtain ⟨h1, h2, h3, h4, h5, h6⟩ := hd
  refine ⟨?_, ?_, ?_⟩
  · rw [h2, h5]
    exact h.seals
  · rw [h1, h3, h5]
    exact h.pairwise
  · rw [h1, h4, h6]
    exact h.group

/-- What the host gets is no matter of the keys. -/
theorem tap (h : Sound ptks gtks c es) (da sa : Mac) (msdu : Bytes) :
    Sound ptks gtks c (es ++ StaClient.tap_up da sa msdu) := by
  have hnone : ∀ {α : Type} (f : Event → Option α), (∀ e, f (.tap e) = none) →
      (StaClient.tap_up da sa msdu).filterMap f = [] := by
    intro α f hf
    unfold StaClient.tap_up
    cases msdu_to_eth da sa msdu 2048 with
    | none => rfl
    | some e => simp [hf]
  have hopen : ∀ g, opened g (es ++ StaClient.tap_up da sa msdu) = opened g es := by
    intro g
    rw [opened_append]
    unfold opened
    rw [hnone Event.opening fun _ => rfl, List.filter_nil, List.append_nil]
  refine ⟨?_, ?_, ?_⟩
  · rw [List.filterMap_append, hnone Event.sealing fun _ => rfl, List.append_nil]
    exact h.seals
  · rw [hopen]
    exact h.pairwise
  · rw [hopen]
    exact h.group

/-- The state machine moves. -/
theorem moved (h : Sound ptks gtks c es) {t : StationSm} (hm : KeyMoves c.g_sm.sup_ t.sup_) :
    Sound (ptks_after ptks c.g_sm t) (gtks_after gtks c.g_sm t) { c with g_sm := t } es := by
  have hp := noted_prefix ptks c.g_sm.sup_.ptk_slot t.sup_.ptk_slot
  have hg := noted_prefix gtks c.g_sm.sup_.gtk_slot t.sup_.gtk_slot
  refine ⟨?_, ?_, ?_⟩
  · intro hfew
    exact (h.seals (Nat.lt_of_le_of_lt hp.length_le hfew)).moved hp
  · intro hfew
    exact (h.pairwise (Nat.lt_of_le_of_lt hp.length_le hfew)).moved hm.ptk hfew
  · intro hfew
    exact (h.group (Nat.lt_of_le_of_lt hg.length_le hfew)).moved hm.gtk hfew

theorem note_ptk (h : Sound ptks gtks c es) : Sound ptks gtks c.note_ptk es := by
  unfold StaClient.note_ptk
  split
  · rename_i hnew
    refine ⟨?_, ?_, h.group⟩
    · intro hfew
      have hside := h.pairwise hfew
      apply (h.seals hfew).restarted
      have hle := hside.seen_le
      rw [← hside.record.count] at hle
      exact Nat.lt_of_le_of_ne hle fun he => hnew.2 (UInt32.toNat_inj.mp he).symm
    · intro hfew
      have hside := h.pairwise hfew
      exact hside.restarted hnew.2 hside.taken.reset
  · exact h

theorem note_gtk (h : Sound ptks gtks c es) : Sound ptks gtks c.note_gtk es := by
  unfold StaClient.note_gtk
  split
  · rename_i hnew
    refine ⟨h.seals, h.pairwise, ?_⟩
    intro hfew
    have hside := h.group hfew
    exact hside.restarted hnew.2 (hside.taken.seed _)
  · exact h

theorem note_keys (h : Sound ptks gtks c es) : Sound ptks gtks c.note_keys es :=
  h.note_ptk.note_gtk

/-- One MSDU goes out under the noted key. -/
theorem air_msdu (h : Sound ptks gtks c es) (msdu : Bytes) (da : Mac) (tk : Option (Octets 16))
    (from_host : Bool)
    (hkey : c.g_sm.security_ ≠ .Open → ptks.length < UInt32.size →
      Installed ptks c.g_ptk_gen_seen (tk.getD c.g_sm.sup_.tk)) :
    Sound ptks gtks (c.air_msdu msdu da tk from_host).1
      (es ++ (c.air_msdu msdu da tk from_host).2.1) := by
  unfold StaClient.air_msdu
  split
  · rw [List.append_nil]
    exact h.same (StaClient.held_air_plain c msdu da from_host)
  · rename_i hsec
    unfold StaClient.air_sealed
    dsimp only
    split
    · rw [List.append_nil]
      exact h.same rfl
    split
    · rw [List.append_nil]
      exact h.same rfl
    · rename_i f hf
      have hone : ∀ g, opened g (es ++ [Event.sealed c.g_ptk_gen_seen
          (c.sealing msdu da (tk.getD c.g_sm.sup_.tk))]) = opened g es := by
        intro g
        rw [opened_append]
        exact List.append_nil _
      have hs : Sound ptks gtks { c with g_tx_pn := c.g_tx_pn + 1 }
          (es ++ [.sealed c.g_ptk_gen_seen (c.sealing msdu da (tk.getD c.g_sm.sup_.tk))]) := by
        refine ⟨?_, by rw [hone]; exact h.pairwise, by rw [hone]; exact h.group⟩
        intro hfew
        rw [List.filterMap_append]
        exact (h.seals hfew).snoc (hkey hsec hfew) rfl (by rw [hf]; rfl)
      exact hs.same (StaClient.held_enqueue _ _)

theorem opened_one (es : List Event) (o : Opening) (group : Bool) :
    opened group (es ++ [.opened o]) =
      if o.group = group then opened group es ++ [o] else opened group es := by
  rw [opened_append]
  by_cases h : o.group = group
  · rw [if_pos h]
    simp [opened, Event.opening, h]
  · rw [if_neg h]
    simp [opened, Event.opening, h]

/-- A frame came in under the noted pairwise key, or under the noted group key. -/
theorem took (h : Sound ptks gtks c es) {o : Opening} {pairwise : Bool} {tid : Int}
    (hgroup : o.group = !pairwise)
    (hgen : o.gen = if pairwise then c.g_ptk_gen_seen else c.g_gtk_gen_seen)
    (htid : o.tid = if pairwise then tid else CcmpReplay.kNonQosTid)
    (hptk : pairwise = true → ptks.length < UInt32.size → Installed ptks c.g_ptk_gen_seen o.tk)
    (hgtk : pairwise = false → gtks.length < UInt32.size → Installed gtks c.g_gtk_gen_seen o.tk)
    (ha : (c.accept pairwise o.pn tid).2 = true) :
    Sound ptks gtks (c.accept pairwise o.pn tid).1 (es ++ [.opened o]) := by
  have hseal : (es ++ [Event.opened o]).filterMap Event.sealing = es.filterMap Event.sealing := by
    rw [List.filterMap_append]
    exact List.append_nil _
  cases pairwise with
  | true =>
    simp only [Bool.not_true, if_true] at hgroup hgen htid
    refine ⟨by rw [hseal]; exact h.seals, ?_, ?_⟩
    · intro hfew
      rw [opened_one, if_pos hgroup]
      rw [← htid] at ha ⊢
      exact (h.pairwise hfew).took hgen (hptk rfl hfew) ha
    · rw [opened_one, if_neg (by simp [hgroup])]
      exact h.group
  | false =>
    simp only [Bool.not_false, Bool.false_eq_true, if_false] at hgroup hgen htid
    refine ⟨by rw [hseal]; exact h.seals, ?_, ?_⟩
    · rw [opened_one, if_neg (by simp [hgroup])]
      exact h.pairwise
    · intro hfew
      rw [opened_one, if_pos hgroup]
      have ha' : (c.g_group_replay.accept o.pn o.tid).2 = true := by
        rw [htid]
        exact ha
      have ht := (h.group hfew).took hgen (hgtk rfl hfew) ha'
      rw [htid] at ht
      exact ht

end Sound

/-! ## Every operation keeps it -/

namespace StaClient

/-- What the filter lets through. -/
structure Admitted (c : StaClient) (mpdu : Bytes) (d : DataFrame) : Prop where
  kind : byteAt mpdu 0 = kFcData ∨ is_qos_data (byteAt mpdu 0) = true
  from_ds : byteAt mpdu 1 &&& kFcFromDs ≠ 0 ∧ byteAt mpdu 1 &&& kFcToDs = 0
  from_bss : StationSm.addr2 mpdu = c.g_sm.bssid_
  for_us : d.to_us = true ∨ d.group = true
  whole : byteAt mpdu 1 &&& kFcMoreFrag = 0 ∧ byteAt mpdu 22 &&& 0x0f = 0
  length : d.hlen ≤ mpdu.length
  one_msdu : is_qos_data (byteAt mpdu 0) = true → byteAt mpdu 24 &&& 0x80 = 0
  frame : d =
    { hlen := data_hdr_len (byteAt mpdu 0) (byteAt mpdu 1)
      da := data_da mpdu (byteAt mpdu 1)
      sa := data_sa mpdu (byteAt mpdu 1)
      tid := if is_qos_data (byteAt mpdu 0) then (byteAt mpdu 24 &&& 0x0f).toNat
        else CcmpReplay.kNonQosTid
      to_us := decide (StationSm.addr1 mpdu = c.g_own)
      group := byteAt mpdu 4 &&& 0x01 != 0 }

theorem admitted_some {c : StaClient} {mpdu : Bytes} {d : DataFrame}
    (h : c.admitted mpdu = some d) :
    Admitted c mpdu d := by
  unfold admitted at h
  dsimp only at h
  split at h
  · cases h
  rename_i hkind
  split at h
  · cases h
  rename_i hds
  split at h
  · cases h
  rename_i hbss
  split at h
  · cases h
  rename_i hus
  split at h
  · cases h
  rename_i hfrag
  split at h
  · cases h
  rename_i hlen
  split at h
  · cases h
  rename_i hone
  cases h
  refine ⟨?_, ?_, not_not.mp hbss, ?_, ?_, Nat.not_lt.mp hlen, ?_, rfl⟩
  · rw [not_and_or] at hkind
    rcases hkind with h1 | h1
    · exact .inl (not_not.mp h1)
    · exact .inr (by simpa using h1)
  · exact ⟨(not_or.mp hds).1, not_not.mp (not_or.mp hds).2⟩
  · cases hto : decide (StationSm.addr1 mpdu = c.g_own) with
    | true => exact .inl rfl
    | false =>
      right
      simpa [hto] using hus
  · exact ⟨not_not.mp (not_or.mp hfrag).1, not_not.mp (not_or.mp hfrag).2⟩
  · intro hq
    by_contra hne
    exact hone ⟨hq, hne⟩

theorem held_ite {p : Prop} [Decidable p] {c d e : StaClient} (hc : c.held = e.held)
    (hd : d.held = e.held) : (if p then c else d).held = e.held := by
  split
  · exact hc
  · exact hd

/-- The machine's half of a received frame, up to the noting of the keys. -/
theorem rx_station_eq (c : StaClient) (mpdu : Bytes) (now : UInt32) :
    ∃ d : StaClient, d.held = { c with g_sm := c.g_sm.on_rx mpdu now }.held ∧
      c.rx_station mpdu now = if d.g_sm.connected then d.note_keys else d := by
  refine ⟨_, ?_, rfl⟩
  -- An association leaves the same fields alone.
  apply held_ite
  · exact held_ite (held_probe _ _) rfl
  · exact held_ite (held_probe _ _) rfl

theorem sm_rx_station (c : StaClient) (mpdu : Bytes) (now : UInt32) :
    (c.rx_station mpdu now).g_sm = c.g_sm.on_rx mpdu now := by
  obtain ⟨d, hd, he⟩ := c.rx_station_eq mpdu now
  have hsm : d.g_sm = c.g_sm.on_rx mpdu now := congrArg Prod.fst hd
  rw [he]
  split
  · rw [sm_note_keys, hsm]
  · exact hsm

/-- The pairwise key has the id 0, the group key the one that came with it. -/
theorem key_for_some {c : StaClient} {ccmp : Bytes} {tk : Octets 16} {pairwise : Bool}
    (h : c.key_for ccmp = some (tk, pairwise)) :
    (pairwise = true ∧ tk = c.g_sm.sup_.tk) ∨
      (pairwise = false ∧ tk = c.g_sm.sup_.gtk ∧ c.g_sm.sup_.gtk_valid_ = true) := by
  unfold key_for at h
  dsimp only at h
  split at h
  · cases h
    exact .inl ⟨rfl, rfl⟩
  split at h
  · cases h
  · rename_i hno
    cases h
    refine .inr ⟨rfl, rfl, ?_⟩
    simpa using (not_or.mp hno).1

theorem accept_refused {c : StaClient} {pairwise : Bool} {pn : UInt64} {tid : Int}
    (h : (c.accept pairwise pn tid).2 = false) : (c.accept pairwise pn tid).1 = c := by
  cases pairwise with
  | true =>
    show { c with g_rx_replay := (c.g_rx_replay.accept pn tid).1 } = c
    rw [CcmpReplay.accept_refused h]
  | false =>
    show { c with g_group_replay := (c.g_group_replay.accept pn CcmpReplay.kNonQosTid).1 } = c
    rw [CcmpReplay.accept_refused h]

theorem machine_accept (c : StaClient) (pairwise : Bool) (pn : UInt64) (tid : Int) :
    (c.accept pairwise pn tid).1.machine = c.machine := by
  cases pairwise with
  | true => rfl
  | false => rfl

/-- Nothing comes of a data frame, or it is taken as it came. -/
theorem rx_data_cases (c : StaClient) (mpdu : Bytes) (now : UInt32) :
    (∃ g, c.rx_data mpdu now = ({ c with g_rx_dup := g }, [])) ∨
      ∃ d g, c.admitted mpdu = some d ∧
        ((byteAt mpdu 1 &&& kFcProtected = 0 ∧
            c.rx_data mpdu now = { c with g_rx_dup := g }.rx_plain mpdu d) ∨
          (byteAt mpdu 1 &&& kFcProtected ≠ 0 ∧
            c.rx_data mpdu now = { c with g_rx_dup := g }.rx_protected mpdu d now)) := by
  unfold rx_data
  split
  · exact .inl ⟨c.g_rx_dup, rfl⟩
  rename_i d hd
  dsimp only
  generalize (if d.group = true then (c.g_rx_dup, false)
    else c.g_rx_dup.is_duplicate (byteAt mpdu 1 &&& kFcRetry != 0) (get_le16 mpdu 22) d.tid) = dup
  split
  · exact .inl ⟨dup.1, rfl⟩
  split
  · rename_i hclear
    exact .inr ⟨d, dup.1, hd, .inl ⟨hclear, rfl⟩⟩
  · rename_i hprot
    exact .inr ⟨d, dup.1, hd, .inr ⟨hprot, rfl⟩⟩

theorem sm_rx_plain (c : StaClient) (mpdu : Bytes) (d : DataFrame) :
    (c.rx_plain mpdu d).1.g_sm = c.g_sm := by
  unfold rx_plain
  split
  · rfl
  split
  · rfl
  · rfl

end StaClient

/-- The invariant holds after the call that led from `c` to this client, with these events. -/
def Keeps (ptks gtks : List (Octets 16)) (c : StaClient) (es : List Event)
    (r : StaClient × List Event) : Prop :=
  Rest (ptks_after ptks c.g_sm r.1.g_sm) (gtks_after gtks c.g_sm r.1.g_sm) r.1 (es ++ r.2)

/-- Of two calls, one behind the other, one left the keys alone. -/
theorem Keeps.andThen {ptks gtks : List (Octets 16)} {c d : StaClient} {es : List Event}
    {r : StaClient × List Event} (h : Keeps ptks gtks c es (d, []))
    (hr : ∀ {p g : List (Octets 16)}, Rest p g d es → Keeps p g d es r)
    (hsup : d.g_sm.sup_ = c.g_sm.sup_ ∨ r.1.g_sm.sup_ = d.g_sm.sup_) :
    Keeps ptks gtks c es r := by
  unfold Keeps at h
  rw [List.append_nil] at h
  have h2 := hr h
  unfold Keeps at h2 ⊢
  dsimp only at h2
  rcases hsup with hsup | hsup
  · rw [(keys_after_same ptks hsup).1, (keys_after_same gtks hsup).2] at h2
    unfold ptks_after gtks_after at h2 ⊢
    rwa [hsup] at h2
  · rw [(keys_after_same _ hsup).1, (keys_after_same _ hsup).2] at h2
    unfold ptks_after gtks_after at h2 ⊢
    rwa [hsup]

namespace Rest

variable {ptks gtks : List (Octets 16)} {c d : StaClient} {es : List Event}

theorem same (h : Rest ptks gtks c es) (hd : d.held = c.held) : Rest ptks gtks d es := by
  have hsm : d.g_sm = c.g_sm := congrArg Prod.fst hd
  refine ⟨by rw [hsm]; exact h.good, h.sound.same hd, ?_⟩
  rw [hsm]
  exact fun hc => (h.fresh hc).same (StaClient.machine_of_held hd)

/-- A call that left the keys alone. -/
theorem keeps {r : StaClient × List Event} (h : Rest ptks gtks r.1 (es ++ r.2))
    (hs : r.1.g_sm.sup_ = c.g_sm.sup_) : Keeps ptks gtks c es r := by
  unfold Keeps
  rw [(keys_after_same ptks hs).1, (keys_after_same gtks hs).2]
  exact h

theorem keeps_same (h : Rest ptks gtks c es) (hd : d.held = c.held) :
    Keeps ptks gtks c es (d, []) := by
  apply keeps
  · rw [List.append_nil]
    exact h.same hd
  · exact congrArg (fun x => x.1.sup_) hd

theorem keeps_tap (h : Rest ptks gtks c es) (da sa : Mac) (msdu : Bytes) :
    Keeps ptks gtks c es (c, StaClient.tap_up da sa msdu) :=
  keeps ⟨h.good, h.sound.tap da sa msdu, h.fresh⟩ rfl

/-- On a protected link the noted pairwise key is the one in use. -/
theorem ptk_installed (h : Rest ptks gtks c es) (hc : c.g_sm.connected = true)
    (hsec : c.g_sm.security_ ≠ .Open) (hfew : ptks.length < UInt32.size) :
    Installed ptks c.g_ptk_gen_seen c.g_sm.sup_.tk := by
  have hv : c.g_sm.sup_.ptk_valid_ = true := by
    simp only [StationSm.connected, Bool.and_eq_true, Bool.or_eq_true, decide_eq_true_eq] at hc
    exact hc.2.resolve_left hsec
  rw [← (h.fresh hc).ptk hv]
  exact (h.sound.pairwise hfew).record.last hv

theorem gtk_installed (h : Rest ptks gtks c es) (hc : c.g_sm.connected = true)
    (hv : c.g_sm.sup_.gtk_valid_ = true) (hfew : gtks.length < UInt32.size) :
    Installed gtks c.g_gtk_gen_seen c.g_sm.sup_.gtk := by
  rw [← (h.fresh hc).gtk hv]
  exact (h.sound.group hfew).record.last hv

theorem moved (h : Rest ptks gtks c es) {t : StationSm} (hg : t.Good)
    (hm : KeyMoves c.g_sm.sup_ t.sup_) (hs : StationSm.Stays c.g_sm t) :
    Keeps ptks gtks c es ({ c with g_sm := t }, []) := by
  unfold Keeps
  rw [List.append_nil]
  refine ⟨hg, h.sound.moved hm, ?_⟩
  intro hc
  obtain ⟨hc0, hsup⟩ := hs hc
  obtain ⟨h1, h2⟩ := h.fresh hc0
  refine ⟨?_, ?_⟩
  · show t.sup_.ptk_valid_ = true → t.sup_.ptk_gen_ = c.g_ptk_gen_seen
    rw [hsup]
    exact h1
  · show t.sup_.gtk_valid_ = true → t.sup_.gtk_gen_ = c.g_gtk_gen_seen
    rw [hsup]
    exact h2

theorem own (h : Rest ptks gtks c es) {op : StationSm.Op} (ho : StationSm.Own op) :
    Keeps ptks gtks c es ({ c with g_sm := c.g_sm.step op }, []) :=
  h.moved (StationSm.good_step op h.good) (StationSm.keyMoves_own ho) (StationSm.stays_own ho)

/-- The half of a received frame that is the machine's ends with noted keys. -/
theorem rx_station (h : Rest ptks gtks c es) (mpdu : Bytes) (now : UInt32) :
    Keeps ptks gtks c es (c.rx_station mpdu now, []) := by
  have hgood := StationSm.good_on_rx mpdu now h.good
  have hsound := h.sound.moved (StationSm.keyMoves_on_rx c.g_sm mpdu now)
  have hsm := c.sm_rx_station mpdu now
  unfold Keeps
  dsimp only
  rw [List.append_nil, hsm]
  refine ⟨by rw [hsm]; exact hgood, ?_, ?_⟩
  · obtain ⟨d, hd, he⟩ := c.rx_station_eq mpdu now
    rw [he]
    split
    · exact (hsound.same hd).note_keys
    · exact hsound.same hd
  · obtain ⟨d, hd, he⟩ := c.rx_station_eq mpdu now
    intro hc
    rw [he] at hc ⊢
    split
    · exact fresh_note_keys d
    · rename_i hno
      rw [if_neg hno] at hc
      exact absurd hc hno

/-- One MSDU of the client's own or of the host goes out. -/
theorem air_msdu (h : Rest ptks gtks c es) (msdu : Bytes) (da : Mac) (from_host : Bool)
    (hc : c.g_sm.connected = true) :
    Rest ptks gtks (c.air_msdu msdu da none from_host).1
      (es ++ (c.air_msdu msdu da none from_host).2.1) := by
  have hm := StaClient.machine_air_msdu c msdu da none from_host
  have hsm : (c.air_msdu msdu da none from_host).1.g_sm = c.g_sm := congrArg Prod.fst hm
  refine ⟨by rw [hsm]; exact h.good, ?_, fun _ => (h.fresh hc).same hm⟩
  exact h.sound.air_msdu msdu da none from_host fun hsec hfew => h.ptk_installed hc hsec hfew

theorem tap_down (h : Rest ptks gtks c es) (eth : Bytes) :
    Keeps ptks gtks c es (c.tap_down_one eth) := by
  unfold StaClient.tap_down_one
  dsimp only
  split
  · exact h.keeps_same rfl
  rename_i msdu da sa _
  split
  · exact h.keeps_same rfl
  rename_i hc
  split
  · exact h.keeps_same rfl
  have hl := h.same (d := { c with ledger := { c.ledger with g_tap_rx := c.ledger.g_tap_rx + 1 } })
    rfl
  have hair := hl.air_msdu msdu da true (by simpa using hc)
  have hm := congrArg Prod.fst (StaClient.machine_air_msdu
    { c with ledger := { c.ledger with g_tap_rx := c.ledger.g_tap_rx + 1 } } msdu da none true)
  apply keeps
  · split
    · exact hair
    · exact hair.same rfl
  · split
    · exact congrArg StationSm.sup_ hm
    · exact congrArg StationSm.sup_ hm

/-- The answer to a rekey goes out under the key that the request came in under. -/
theorem answer (h : Sound ptks gtks c es) (hg : c.g_sm.Good) (reply : Bytes) (tk : Octets 16)
    (hkey : ptks.length < UInt32.size → Installed ptks c.g_ptk_gen_seen tk) :
    Rest ptks gtks (c.answer reply tk).1 (es ++ (c.answer reply tk).2) ∧
      (c.answer reply tk).1.g_sm = c.g_sm := by
  unfold StaClient.answer
  dsimp only
  split
  · rw [List.append_nil]
    exact ⟨⟨by rw [StaClient.sm_note_keys]; exact hg, h.note_keys, fun _ => fresh_note_keys c⟩,
      StaClient.sm_note_keys c⟩
  · have hsm := (StaClient.sm_note_keys _).trans (congrArg Prod.fst (StaClient.machine_air_msdu c
      (append_llc_snap [] 0x888e ++ reply) c.g_sm.bssid_ (some tk) false))
    exact ⟨⟨by rw [hsm]; exact hg, (h.air_msdu _ _ (some tk) false fun _ => hkey).note_keys,
      fun _ => fresh_note_keys _⟩, hsm⟩

theorem deliver (h : Rest ptks gtks c es) (d : StaClient.DataFrame) (pairwise : Bool)
    (tk : Octets 16) (plain : Bytes) (now : UInt32)
    (hkey : pairwise = true → ptks.length < UInt32.size → Installed ptks c.g_ptk_gen_seen tk) :
    Keeps ptks gtks c es (c.deliver d pairwise tk plain now) := by
  unfold StaClient.deliver
  split
  · exact h.keeps_same rfl
  split
  · rename_i hus
    simp only [Bool.and_eq_true] at hus
    have hgood := StationSm.good_step (.on_decrypted_msdu plain now) h.good
    have hmoves := StationSm.keyMoves_on_decrypted c.g_sm plain now
    dsimp only
    cases hr : (c.g_sm.on_decrypted_msdu plain now).2 with
    | none =>
      -- the machine only heard its access point
      obtain ⟨l, hl⟩ := StationSm.on_decrypted_unclaimed hr
      have hstays : StationSm.Stays c.g_sm (c.g_sm.on_decrypted_msdu plain now).1 := by
        rw [hl]
        exact fun hc => ⟨hc, rfl⟩
      have hm := h.moved hgood hmoves hstays
      unfold Keeps at hm ⊢
      rw [List.append_nil] at hm
      exact ⟨hm.good, hm.sound.tap _ _ _, hm.fresh⟩
    | some reply =>
      have hp := noted_prefix ptks c.g_sm.sup_.ptk_slot
        (c.g_sm.on_decrypted_msdu plain now).1.sup_.ptk_slot
      obtain ⟨hrest, hsm⟩ := answer (h.sound.moved hmoves) hgood reply tk fun hfew =>
        (hkey hus.2 (Nat.lt_of_le_of_lt hp.length_le hfew)).mono hp
      unfold Keeps
      dsimp only
      rw [hsm]
      exact hrest
  · exact h.keeps_tap _ _ _

/-- A frame that the filter admitted, on a protected link. -/
theorem rx_protected (h : Rest ptks gtks c es) (mpdu : Bytes) (d : StaClient.DataFrame)
    (now : UInt32) (hc : c.g_sm.connected = true) :
    Keeps ptks gtks c es (c.rx_protected mpdu d now) := by
  unfold StaClient.rx_protected
  split
  · exact h.keeps_same rfl
  rename_i hsec
  split
  · exact h.keeps_same rfl
  split
  · exact h.keeps_same rfl
  rename_i tk pairwise hkey
  split
  · exact h.keeps_same rfl
  rename_i plain pn _
  dsimp only
  cases ha : (c.accept pairwise pn d.tid).2 with
  | false =>
    have hsame := StaClient.accept_refused ha
    simp only [Bool.not_false, if_true]
    rw [hsame]
    exact h.keeps_same rfl
  | true =>
    simp only [Bool.not_true, Bool.false_eq_true, if_false]
    have hptk : pairwise = true → ptks.length < UInt32.size →
        Installed ptks c.g_ptk_gen_seen tk := by
      rintro rfl hfew
      rcases StaClient.key_for_some hkey with ⟨-, htk⟩ | ⟨hno, -⟩
      · rw [htk]
        exact h.ptk_installed hc hsec hfew
      · cases hno
    have hgtk : pairwise = false → gtks.length < UInt32.size →
        Installed gtks c.g_gtk_gen_seen tk := by
      rintro rfl hfew
      rcases StaClient.key_for_some hkey with ⟨hno, -⟩ | ⟨-, htk, hv⟩
      · cases hno
      · rw [htk]
        exact h.gtk_installed hc hv hfew
    have hm := StaClient.machine_accept c pairwise pn d.tid
    have hsm : (c.accept pairwise pn d.tid).1.g_sm = c.g_sm := congrArg Prod.fst hm
    have hseen : (c.accept pairwise pn d.tid).1.g_ptk_gen_seen = c.g_ptk_gen_seen :=
      congrArg (fun x => x.2.1) hm
    have hsound := h.sound.took (o := ⟨!pairwise,
      if pairwise then c.g_ptk_gen_seen else c.g_gtk_gen_seen, tk, mpdu, d.hlen,
      if pairwise then d.tid else CcmpReplay.kNonQosTid, pn, plain⟩) rfl rfl rfl hptk hgtk ha
    have hrest : Rest ptks gtks (c.accept pairwise pn d.tid).1 _ :=
      ⟨by rw [hsm]; exact h.good, hsound, fun _ => (h.fresh hc).same hm⟩
    have hdeliver := hrest.deliver d pairwise tk plain now (by rw [hseen]; exact hptk)
    unfold Keeps at hdeliver ⊢
    rw [hsm, List.append_assoc] at hdeliver
    exact hdeliver

/-- In the clear, or on an open link, a data frame is at most the host's. -/
theorem rx_plain (h : Rest ptks gtks c es) (mpdu : Bytes) (d : StaClient.DataFrame) :
    Keeps ptks gtks c es (c.rx_plain mpdu d) := by
  unfold StaClient.rx_plain
  split
  · exact h.keeps_same rfl
  split
  · exact h.keeps_tap _ _ _
  · exact h.keeps_same rfl

/-- A received frame moves the keys in one of its halves only: in the machine's a protected data
frame moves none, and in the other one nothing else does. -/
theorem rx_frame (h : Rest ptks gtks c es) (mpdu : Bytes) (now : UInt32) :
    Keeps ptks gtks c es (c.rx_frame mpdu now) := by
  unfold StaClient.rx_frame
  split
  · exact h.keeps_same rfl
  have hstation := h.rx_station mpdu now
  have hsm := c.sm_rx_station mpdu now
  dsimp only
  split
  · exact hstation
  rename_i hc
  rcases (c.rx_station mpdu now).rx_data_cases mpdu now with
    ⟨g, hr⟩ | ⟨d, g, hd, ⟨hclear, hr⟩ | ⟨hprot, hr⟩⟩
  · rw [hr]
    exact hstation.andThen (fun hrest => hrest.keeps_same rfl) (.inr rfl)
  · rw [hr]
    refine hstation.andThen (fun hrest => ?_) (.inr (congrArg _ (StaClient.sm_rx_plain _ _ _)))
    exact (hrest.same (d := { c.rx_station mpdu now with g_rx_dup := g }) rfl).rx_plain mpdu d
  · rw [hr]
    refine hstation.andThen (fun hrest => ?_) (.inl ?_)
    · exact (hrest.same (d := { c.rx_station mpdu now with g_rx_dup := g }) rfl).rx_protected mpdu d
        now (by simpa using hc)
    · rw [hsm, StationSm.on_rx_protected (StaClient.admitted_some hd).kind hprot now]

theorem drain (n : Nat) {c : StaClient} (h : Rest ptks gtks c es) :
    Keeps ptks gtks c es (StaClient.drain n c, []) := by
  induction n generalizing c ptks gtks with
  | zero => exact h.keeps_same rfl
  | succ n ih =>
    have hpop := h.own (.pop_tx true)
    unfold StaClient.drain
    unfold StationSm.step at hpop
    unfold StationSm.pop_tx at hpop ⊢
    cases hq : c.g_sm.tx_ with
    | nil => exact h.keeps_same rfl
    | cons m rest =>
      rw [hq] at hpop
      dsimp only at hpop ⊢
      have hsup : ({ c with g_sm := { c.g_sm with tx_ := rest } } : StaClient).g_sm.sup_ =
          c.g_sm.sup_ := rfl
      generalize ({ c with g_sm := { c.g_sm with tx_ := rest } } : StaClient) = e at hpop hsup ⊢
      refine hpop.andThen (fun hrest => ?_) (.inl hsup)
      have hheld : (e.next_seq.2.enqueue (assign_seq m e.next_seq.1)).1.held = e.held :=
        StaClient.held_enqueue _ _
      have hlast := ih (hrest.same hheld)
      have hsm : (e.next_seq.2.enqueue (assign_seq m e.next_seq.1)).1.g_sm = e.g_sm :=
        congrArg Prod.fst hheld
      unfold Keeps at hlast ⊢
      rw [hsm] at hlast
      exact hlast

/-- What holds between two operations holds after the next one. -/
theorem step {w : Watch} (h : Rest w.ptks w.gtks w.client w.events) (op : StaClient.Op) :
    Rest (w.step op).ptks (w.step op).gtks (w.step op).client (w.step op).events := by
  show Keeps w.ptks w.gtks w.client w.events (w.client.step op)
  cases op with
  | rx mpdu now => exact h.rx_frame mpdu now
  | tap_down eth => exact h.tap_down eth
  | probe chan => exact h.keeps_same (StaClient.held_probe _ _)
  | join bss snonce now => exact h.own (.join bss snonce now)
  | tick now => exact h.own (.tick now)
  | link_lost => exact h.own .link_lost
  | leave => exact h.own (.leave 3)
  | drain => exact h.drain _
  | send_batch ok => exact h.keeps_same rfl

end Rest

theorem sideSound_fresh (slot : KeySlot) (h0 : slot.gen = 0) (hv : slot.valid = false) :
    SideSound [] slot 0 {} [] := by
  refine ⟨⟨by rw [h0]; rfl, ?_⟩, Nat.le_refl _, ?_, CcmpReplay.took_fresh, List.Pairwise.nil⟩
  · intro h
    rw [hv] at h
    cases h
  · intro o ho
    cases ho

theorem rest_start (u : StaClient.Setup) : Rest [] [] (StaClient.start u) [] := by
  have hgood : (StaClient.start u).g_sm.Good := by
    unfold StaClient.start
    dsimp only
    split
    · exact StationSm.good_step (.configure_open u.ssid u.own) StationSm.good_fresh
    · exact StationSm.good_step (.configure u.crypto u.ssid (some u.psk) u.own) StationSm.good_fresh
  have hsup : (StaClient.start u).g_sm.sup_ = Supplicant.forget {} ∧
      (StaClient.start u).g_sm.state_ = .Idle := by
    unfold StaClient.start
    dsimp only
    split
    · exact ⟨rfl, rfl⟩
    · exact ⟨rfl, rfl⟩
  refine ⟨hgood, ⟨?_, ?_, ?_⟩, ?_⟩
  · intro _
    refine ⟨?_, ?_, ?_, List.Pairwise.nil⟩
    all_goals
      intro x hx
      cases hx
  · intro _
    apply sideSound_fresh
    · rw [hsup.1]
      rfl
    · rw [hsup.1]
      rfl
  · intro _
    apply sideSound_fresh
    · rw [hsup.1]
      rfl
    · rw [hsup.1]
      rfl
  · intro hc
    simp [StationSm.connected, hsup.2] at hc

/-- The invariant of every run of the client. -/
theorem rest_watch (u : StaClient.Setup) (ops : List StaClient.Op) :
    Rest (watch u ops).ptks (watch u ops).gtks (watch u ops).client (watch u ops).events := by
  apply Runs.after_keeps Watch.step (P := fun w => Rest w.ptks w.gtks w.client w.events)
  · exact rest_start u
  · exact fun w op h => h.step op

/-! ## No nonce twice -/

/-- As long as no pairwise key comes back, no two frames of a run are sealed under one key with one
nonce: not across its own rekeys, not across its associations. -/
theorem no_nonce_is_used_twice (u : StaClient.Setup) (ops : List StaClient.Op)
    (hkeys : (watch u ops).ptks.Nodup) (hfew : (watch u ops).ptks.length < UInt32.size) :
    ((watch u ops).seals.map fun s => (s.tk, s.nonce)).Nodup := by
  have hs := (rest_watch u ops).sound.seals hfew
  unfold Watch.seals List.Nodup
  rw [List.pairwise_map, List.pairwise_map]
  apply hs.once.imp_of_mem
  intro x y hx hy hpn heq
  obtain ⟨htk, hnonce⟩ := Prod.mk.inj heq
  have hgen : x.1 = y.1 := by
    have hy' := (hs.installed y hy).1
    rw [← htk] at hy'
    exact (hs.installed x hx).1.gen_eq hkeys hy'
  obtain ⟨hxpn, hxn⟩ := Sealing.of_success (hs.sealed x hx)
  obtain ⟨hypn, -⟩ := Sealing.of_success (hs.sealed y hy)
  obtain ⟨nonce, hn⟩ := Option.isSome_iff_exists.mp hxn
  exact hpn hgen (ccmp_nonce_inj hxpn hypn hn (hnonce.symm.trans hn)).2.2

/-- A client that joins `demoBss`. -/
def demoSetup : StaClient.Setup :=
  { crypto := .standIn
    own := StationSm.demoJoined.own
    ssid := StationSm.demoSsid
    psk := StationSm.demoPsk
    chan := 6
    rt := []
    rt_ack := [] }

/-- The join, up to the keys. -/
def demoAssociation : List StaClient.Op :=
  [.join StationSm.demoBss (some StationSm.demoJoined.snonce) 0,
   .rx (StationSm.apFrame StationSm.demoJoined kFcAuth [0, 0, 2, 0, 0, 0]) 10,
   .rx (StationSm.apFrame StationSm.demoJoined kFcAssocResp [1, 0, 0, 0, 1, 0xc0]) 20,
   .rx (StationSm.apEapol StationSm.demoJoined
    (StationSm.demoJoined.msg1 Supplicant.demoAnonce 1)) 30,
   .rx (StationSm.apEapol StationSm.demoJoined
    (StationSm.demoJoined.msg3 Supplicant.demoAnonce 2 1 5)) 40]

/-- A frame of the host to its gateway. -/
def demoEth : Bytes :=
  StationSm.demoJoined.bssid.val ++ StationSm.demoJoined.own.val ++ [0x08, 0x00, 0x45, 0x00]

/-- An EAPOL frame, as the access point seals it under the first key. -/
def demoProtected (pn : UInt64) (eapol : Bytes) : Bytes :=
  (ccmp_encrypt .standIn (watch demoSetup demoAssociation).client.g_sm.sup_.tk
    (data_hdr_from_ds StationSm.demoJoined.own StationSm.demoJoined.bssid
      StationSm.demoJoined.bssid true pn.toUInt16) StationSm.demoJoined.bssid pn 0
    (append_llc_snap [] 0x888e ++ eapol) true 1000).getD []

/-- The ANonce of the rekey. -/
def demoRekeyNonce : Octets 32 := Octets.slice [7, 7, 7] 0 32

/-- Message 1 of the rekey. -/
def demoRekey1 : Bytes :=
  [8, 0x42, 0, 0, 2, 0, 0, 0, 0, 1, 2, 0, 0, 0, 0, 9, 2, 0, 0, 0, 0, 9, 0x10, 0, 1, 0, 0, 0x20, 0,
    0, 0, 0, 0xaa, 0xaa, 3, 0, 0, 0, 0x88, 0x8e, 2, 3, 0, 0x5f, 2, 0, 0x8a, 0, 0x10, 0, 0, 0, 0, 0,
    0, 0, 3, 7, 7, 7] ++ List.replicate 79 0 ++ [0xcf, 0xa3, 0x77, 0x4b, 0x1f, 0xee, 0xc2, 0x96]

/-- Message 3, with the next group key. -/
def demoRekey3 : Bytes :=
  [8, 0x42, 0, 0, 2, 0, 0, 0, 0, 1, 2, 0, 0, 0, 0, 9, 2, 0, 0, 0, 0, 9, 0x20, 0, 2, 0, 0, 0x20, 0,
    0, 0, 0, 0xaa, 0xaa, 3, 0, 0, 0, 0x88, 0x8e, 2, 3, 0, 0x97, 2, 0x13, 0xca, 0, 0x10, 0, 0, 0, 0,
    0, 0, 0, 4, 7, 7, 7] ++ List.replicate 61 0 ++
  [0x48, 0x90, 0xd8, 0x25, 0x6d, 0xb5, 2, 0x4a, 0x92, 0xda, 0x27, 0x6f, 0xb7, 4, 0x4c, 0x94, 0,
    0x38, 0xf0, 0xe5, 0xda, 0xcf, 0xc4, 0xb9, 0xae, 0xa3, 0x30, 0x14, 1, 0, 0, 0x0f, 0xac, 4, 1, 0,
    0, 0x0f, 0xac, 4, 1, 0, 0, 0x0f, 0xac, 2, 0, 0, 0xdd, 0x16, 0, 0x0f, 0xac, 1, 2, 0, 6, 6, 6, 6,
    6, 6, 6, 6, 6, 6, 6, 6, 6, 6, 6, 6, 0xdd, 0, 0x5d, 0xba, 0x1c, 0x79, 0xd6, 0x38, 0x95, 0xf2]

set_option maxRecDepth 10000 in
example : demoRekey1 = demoProtected 1 (StationSm.demoJoined.msg1 demoRekeyNonce 3) ∧
    demoRekey3 = demoProtected 2 (StationSm.demoJoined.msg3 demoRekeyNonce 4 2 6) := by
  decide +kernel

/-- Two frames of the host, a rekey, and one frame more. -/
def demoUplink : List StaClient.Op :=
  demoAssociation ++ [.tap_down demoEth, .tap_down demoEth, .rx demoRekey1 50, .rx demoRekey3 60,
    .tap_down demoEth]

set_option maxRecDepth 10000 in
/-- The answers to the rekey go out under the first key, and the new key starts its
numbers again. -/
theorem a_rekeyed_link_starts_again :
    (watch demoSetup demoUplink).seals.map (·.pn) = [1, 2, 3, 4, 1] ∧
      ((watch demoSetup demoUplink).seals.map fun s => (s.tk, s.nonce)).Nodup := by
  have htwo : (watch demoSetup demoUplink).ptks.Nodup ∧
      (watch demoSetup demoUplink).ptks.length = 2 := by decide +kernel
  refine ⟨by decide +kernel, no_nonce_is_used_twice demoSetup demoUplink htwo.1 ?_⟩
  rw [htwo.2]
  decide

end devourer.sta
