-- The decisions of the policy against the slots that were observed: whatever
-- the counters say, a proposal is backed by the observations themselves.
import Devourer.Hopset.HopsetPolicy
import Devourer.Lib.Runs

namespace devourer.hopset

namespace HopsetPolicy

inductive Call
  | ingest (o : SlotObservation)
  | on_activation (mask now_round : UInt64)
  | clear_outstanding (now_round : UInt64)
  | decide (now_round : UInt64)

namespace Call

/-- The calls that answer a proposal. -/
def answers : Call → Bool
  | on_activation _ _ => true
  | clear_outstanding _ => true
  | _ => false

/-- An activation stays within the base. -/
def within (n : UInt64) : Call → Bool
  | on_activation mask _ => mask &&& ~~~(full_mask n) = 0
  | _ => true

end Call

def step (p : HopsetPolicy) : Call → HopsetPolicy
  | .ingest o => p.ingest o
  | .on_activation mask now_round => p.on_activation mask now_round
  | .clear_outstanding now_round => p.clear_outstanding now_round
  | .decide now_round => (p.decide now_round).2

/-! ## The ledger -/

/-- The mask that is in force, and the slots that were observed on each channel since an activation
last changed its bit, the latest first. -/
structure Ledger where
  mask : UInt64
  past : ℕ → List SlotObservation := fun _ => []

namespace Ledger

def step (l : Ledger) : Call → Ledger
  | .ingest o =>
    let i := o.base_index.toNat
    { l with past := Function.update l.past i (o :: l.past i) }
  | .on_activation mask _ =>
    { mask, past := fun i => if has_bit (mask ^^^ l.mask) i then [] else l.past i }
  | _ => l

end Ledger

def ledger (n : UInt64) (calls : List Call) : Ledger :=
  Runs.after Ledger.step { mask := full_mask n } calls

/-- What the visits of a channel delivered, and what its probes did. -/
def visits (past : List SlotObservation) : List ℚ := (past.filter (!·.is_probe)).map delivery_of

def probes (past : List SlotObservation) : List ℚ := (past.filter (·.is_probe)).map delivery_of

/-! ## What the counters stand for -/

structure Kept (cfg : HopsetPolicyConfig) (c : Chan) (past : List SlotObservation) : Prop where
  ring : c.ring.Holds cfg.depth (visits past)
  impaired : c.impaired_run.toNat ≤ ((visits past).takeWhile (· < cfg.exclude_delivery)).length
  good : c.probe_good_run.toNat ≤ ((probes past).takeWhile (· > cfg.restore_delivery)).length

/-- The policy knows of every channel what the ledger has of it. -/
structure Agrees (cfg : HopsetPolicyConfig) (n : UInt64) (p : HopsetPolicy) (l : Ledger) :
    Prop where
  same_cfg : p.cfg_ = cfg
  same_n : p.n_ = n
  mask : p.mask_ = l.mask
  chans : ∀ i < n.toNat, Kept cfg (p.ch_ i) (l.past i)

theorem kept_empty (cfg : HopsetPolicyConfig) : Kept cfg {} [] where
  ring := by
    apply Window.holds_empty
    unfold HopsetPolicyConfig.depth kRing
    split
    · next h => exact (UInt32.lt_iff_toNat_lt.mp h).le
    · exact le_rfl
  impaired := le_rfl
  good := le_rfl

theorem Kept.probe {cfg : HopsetPolicyConfig} {c : Chan} {past : List SlotObservation}
    {o : SlotObservation} (h : Kept cfg c past) (ho : o.is_probe = true) :
    Kept cfg (ingest_probe cfg c o) (o :: past) := by
  have hv : visits (o :: past) = visits past := by simp [visits, ho]
  have hp : probes (o :: past) = delivery_of o :: probes past := by simp [probes, ho]
  refine ⟨?_, ?_, ?_⟩
  · rw [hv]
    exact h.ring
  · rw [hv]
    exact h.impaired
  · rw [hp]
    exact tally_le h.good (delivery_of o)

theorem Kept.visit {cfg : HopsetPolicyConfig} {c : Chan} {past : List SlotObservation}
    {o : SlotObservation} (h : Kept cfg c past) (ho : o.is_probe = false) :
    Kept cfg (ingest_visit cfg c o) (o :: past) := by
  have hv : visits (o :: past) = delivery_of o :: visits past := by simp [visits, ho]
  have hp : probes (o :: past) = probes past := by simp [probes, ho]
  refine ⟨?_, ?_, ?_⟩
  · rw [hv]
    exact h.ring.push (delivery_of o)
  · rw [hv]
    exact tally_le h.impaired (delivery_of o)
  · rw [hp]
    exact h.good

section

variable {cfg : HopsetPolicyConfig} {n : UInt64} {p : HopsetPolicy} {l : Ledger}

theorem Agrees.ingest (h : Agrees cfg n p l) (o : SlotObservation) :
    Agrees cfg n (p.ingest o) (l.step (.ingest o)) := by
  have hother : ∀ i ≠ o.base_index.toNat, (l.step (.ingest o)).past i = l.past i :=
    fun i hi => Function.update_of_ne hi _ _
  unfold HopsetPolicy.ingest
  split
  · next hout =>
    -- The ledger has the slot, of a channel that nobody asks for.
    refine ⟨h.same_cfg, h.same_n, h.mask, ?_⟩
    intro i hi
    rw [h.same_n] at hout
    rw [hother i (by omega)]
    exact h.chans i hi
  · refine ⟨h.same_cfg, h.same_n, h.mask, ?_⟩
    intro i hi
    dsimp only
    by_cases hio : i = o.base_index.toNat
    · subst hio
      have hpast : (l.step (.ingest o)).past o.base_index.toNat = o :: l.past o.base_index.toNat :=
        Function.update_self _ _ _
      rw [Function.update_self, hpast, h.same_cfg]
      split
      · next ho => exact (h.chans _ hi).probe ho
      · next ho => exact (h.chans _ hi).visit (Bool.eq_false_of_not_eq_true ho)
    · rw [Function.update_of_ne hio, hother i hio]
      exact h.chans i hi

theorem Agrees.on_activation (h : Agrees cfg n p l) (mask now_round : UInt64) :
    Agrees cfg n (p.on_activation mask now_round) (l.step (.on_activation mask now_round)) := by
  refine ⟨h.same_cfg, h.same_n, rfl, ?_⟩
  intro i hi
  have hin : i < p.n_.toNat := by rw [h.same_n]; exact hi
  simp only [HopsetPolicy.on_activation, Ledger.step, h.mask, hin, true_and]
  split
  · exact kept_empty cfg
  · exact h.chans i hi

theorem Agrees.decide (h : Agrees cfg n p l) (now_round : UInt64) :
    Agrees cfg n (p.decide now_round).2 l := by
  cases p.decide_decided now_round with
  | hold _ hp => rw [hp]; exact h
  | exclude _ _ hp => rw [hp]; exact ⟨h.same_cfg, h.same_n, h.mask, h.chans⟩
  | restore _ _ hp => rw [hp]; exact ⟨h.same_cfg, h.same_n, h.mask, h.chans⟩

theorem Agrees.step (h : Agrees cfg n p l) (c : Call) : Agrees cfg n (p.step c) (l.step c) := by
  cases c with
  | ingest o => exact h.ingest o
  | on_activation mask now_round => exact h.on_activation mask now_round
  | clear_outstanding now_round => exact ⟨h.same_cfg, h.same_n, h.mask, h.chans⟩
  | decide now_round => exact h.decide now_round

end

theorem agrees_after {cfg : HopsetPolicyConfig} {n : UInt64} {p : HopsetPolicy}
    (h : create cfg n = .ok p) (calls : List Call) :
    Agrees cfg n (Runs.after step p calls) (ledger n calls) := by
  induction calls using List.reverseRecOn with
  | nil =>
    unfold create at h
    split at h
    · cases h
    · cases h
      exact ⟨rfl, rfl, rfl, fun _ _ => kept_empty cfg⟩
  | append_singleton calls c ih =>
    rw [ledger, Runs.after_snoc, Runs.after_snoc]
    exact ih.step c

/-! ## What the counts of a mask are -/

/-- The number of channels of the base that a mask has. -/
def active_count (n mask : UInt64) : ℕ := (Bits.positions n.toNat mask.toNat).length

section

variable {n mask : UInt64} (hn : n ≤ 64) (hmask : mask ≤ full_mask n)
include hn hmask

theorem lt_two_pow : mask.toNat < 2 ^ n.toNat := by
  have hle := UInt64.le_iff_toNat_le.mp hmask
  have hpos : 0 < 2 ^ n.toNat := Nat.two_pow_pos _
  rw [full_mask_toNat hn] at hle
  omega

theorem popcount64_active : (popcount64 mask).toNat = active_count n mask := by
  rw [popcount64_eq, active_count, Bits.length_positions (lt_two_pow hn hmask)]

end

/-- The channels that a mask leaves out are the rest of the base. -/
theorem popcount64_excluded {n : UInt64} (hn : n ≤ 64) (mask : UInt64) :
    (popcount64 (full_mask n &&& ~~~mask)).toNat + active_count n mask = n.toNat := by
  have hn' : n.toNat ≤ 64 := hn
  have hrest : Bits.positions n.toNat (full_mask n &&& ~~~mask).toNat =
      (List.range n.toNat).filter (!mask.toNat.testBit ·) := by
    apply List.filter_congr
    intro i hi
    have hi := List.mem_range.mp hi
    rw [UInt64.toNat_and, Nat.testBit_and, full_mask_toNat hn, Nat.testBit_two_pow_sub_one,
      testBit_not (by omega), decide_eq_true hi, Bool.true_and]
  rw [popcount64_active hn (and_le_left _ _), active_count, hrest, active_count, Bits.positions,
    add_comm, ← List.length_eq_length_filter_add, List.length_range]

/-! ## Runs -/

theorem mask_within {n : UInt64} {calls : List Call} (h : ∀ c ∈ calls, c.within n = true) :
    (ledger n calls).mask ≤ full_mask n := by
  induction calls using List.reverseRecOn with
  | nil => exact UInt64.le_refl _
  | append_singleton calls c ih =>
    have ih := ih fun c hc => h c (List.mem_append_left _ hc)
    have hc := h c (List.mem_append_right _ List.mem_cons_self)
    rw [ledger, Runs.after_snoc]
    cases c with
    | on_activation mask now_round => exact le_of_and_not (of_decide_eq_true hc)
    | ingest o => exact ih
    | clear_outstanding now_round => exact ih
    | decide now_round => exact ih

/-- Only an answer ends a proposal. -/
theorem step_outstanding {p : HopsetPolicy} (h : p.outstanding_ = true) {c : Call}
    (hc : c.answers = false) : (p.step c).outstanding_ = true := by
  cases c with
  | ingest o =>
    simp only [step, ingest]
    split
    · exact h
    · exact h
  | on_activation mask now_round => cases hc
  | clear_outstanding now_round => cases hc
  | decide now_round =>
    simp only [step]
    cases p.decide_decided now_round with
    | hold _ hp => rw [hp]; exact h
    | exclude _ _ hp => rw [hp]
    | restore _ _ hp => rw [hp]

theorem after_outstanding {p : HopsetPolicy} (h : p.outstanding_ = true) {calls : List Call}
    (hc : ∀ c ∈ calls, c.answers = false) : (Runs.after step p calls).outstanding_ = true := by
  induction calls generalizing p with
  | nil => exact h
  | cons c calls ih =>
    exact ih (step_outstanding h (hc c List.mem_cons_self))
      fun c hmem => hc c (List.mem_cons_of_mem _ hmem)

/-- Between two proposals one is answered. -/
theorem answered_between {p : HopsetPolicy} {now_round now_round' : UInt64} {mid : List Call}
    (h : (p.decide now_round).1.kind ≠ .Hold)
    (h' : ((Runs.after step (p.decide now_round).2 mid).decide now_round').1.kind ≠ .Hold) :
    ∃ c ∈ mid, c.answers = true := by
  by_contra hnone
  have hmid : ∀ c ∈ mid, c.answers = false := by
    intro c hc
    by_contra hans
    exact hnone ⟨c, hc, Bool.eq_true_of_not_eq_false hans⟩
  have hout : (p.decide now_round).2.outstanding_ = true := by
    cases p.decide_decided now_round with
    | hold hk _ => exact absurd hk h
    | exclude _ _ hp => rw [hp]
    | restore _ _ hp => rw [hp]
  exact h' (decide_outstanding (after_outstanding hout hmid) now_round')

/-! ## Backed decisions -/

section

variable (cfg : HopsetPolicyConfig) (n mask : UInt64) (l : Ledger) (d : HopsetDecision)

/-- An exclusion keeps enough channels, its target failed in its last visits, and another channel
is healthy. -/
structure ExcludeBacked : Prop where
  active : has_bit mask d.target_index = true
  floor : max 3 cfg.min_active.toNat ≤ active_count n d.proposed_mask
  share : ((n.toNat - active_count n d.proposed_mask : ℕ) : ℚ) / n.toNat ≤ cfg.max_excluded_frac
  enough : cfg.impaired_rounds.toNat ≤ (visits (l.past d.target_index)).length
  impaired : ∀ x ∈ (visits (l.past d.target_index)).take cfg.impaired_rounds.toNat,
    x < cfg.exclude_delivery
  healthy : ∃ i < n.toNat, i ≠ d.target_index ∧ has_bit mask i = true ∧
    (visits (l.past i)).take cfg.depth ≠ [] ∧
      cfg.healthy_delivery ≤
        ((visits (l.past i)).take cfg.depth).sum / ((visits (l.past i)).take cfg.depth).length

/-- The target of a restoration is out of the mask, and its last probes since then were good. -/
structure RestoreBacked : Prop where
  excluded : has_bit mask d.target_index = false
  enough : cfg.restore_probes.toNat ≤ (probes (l.past d.target_index)).length
  good : ∀ x ∈ (probes (l.past d.target_index)).take cfg.restore_probes.toNat,
    cfg.restore_delivery < x

structure Backed : Prop where
  one_bit : d.kind ≠ .Hold →
    d.target_index < n.toNat ∧ d.proposed_mask ^^^ mask = bit d.target_index
  exclude : d.kind = .ProposeExclude → ExcludeBacked cfg n mask l d
  restore : d.kind = .ProposeRestore → RestoreBacked cfg mask l d

end

section

variable {cfg : HopsetPolicyConfig} {n : UInt64} {p : HopsetPolicy} {l : Ledger}
  {d : HopsetDecision}

theorem floor_active_toNat (min_active : UInt32) :
    (floor_active min_active).toNat = max 3 min_active.toNat := by
  unfold floor_active
  split
  · next h =>
    have hlt : min_active.toNat < 3 := h
    rw [max_eq_left hlt.le]
    rfl
  · next h =>
    have hle : 3 ≤ min_active.toNat := UInt32.not_lt.mp h
    rw [max_eq_right hle]

theorem ExcludeSpec.backed (h : p.ExcludeSpec d) (ha : Agrees cfg n p l) (hn : n ≤ 64)
    (hmask : p.mask_ ≤ full_mask n) : ExcludeBacked cfg n p.mask_ l d := by
  have htarget := h.target
  have hrun := h.run
  have hshare := h.share
  rw [ha.same_n] at htarget hshare
  rw [ha.same_cfg] at hrun hshare
  have hproposed : d.proposed_mask ≤ full_mask n := by
    rw [h.mask]
    exact UInt64.le_trans (and_le_left _ _) hmask
  obtain ⟨henough, himpaired⟩ := forall_of_le_tally
    ((UInt32.le_iff_toNat_le.mp hrun).trans (ha.chans _ htarget).impaired)
  refine ⟨h.active, ?_, ?_, henough, ?_, ?_⟩
  · rw [← popcount64_active hn hproposed, ← floor_active_toNat, ← ha.same_cfg]
    exact UInt32.le_iff_toNat_le.mp h.floor
  · have hrest := popcount64_excluded hn d.proposed_mask
    rw [excluded_share] at hshare
    rwa [← Nat.eq_sub_of_add_eq hrest]
  · intro x hx
    exact of_decide_eq_true (himpaired x hx)
  · obtain ⟨i, hi, hbit, hne, hring, hmean⟩ := h.healthy
    rw [ha.same_n] at hi
    rw [ha.same_cfg] at hmean
    have hk := (ha.chans i hi).ring
    refine ⟨i, hi, hne, hbit, ?_, ?_⟩
    · intro hnil
      have hlen := congrArg List.length hnil
      rw [List.length_take, List.length_nil, min_comm] at hlen
      exact hring (hk.n.trans hlen)
    · rw [← hk.mean hring]
      exact hmean

theorem not_active_of_excluded {i : ℕ} (hi : i < 64) (h : has_bit p.excluded i = true) :
    has_bit p.mask_ i = false := by
  rw [has_bit_eq hi, HopsetPolicy.excluded, UInt64.toNat_and, Nat.testBit_and, testBit_not hi,
    Bool.and_eq_true, Bool.not_eq_true'] at h
  rw [has_bit_eq hi]
  exact h.2

theorem RestoreSpec.backed (h : p.RestoreSpec d) (ha : Agrees cfg n p l) (hn : n ≤ 64) :
    RestoreBacked cfg p.mask_ l d := by
  have htarget := h.target
  have hrun := h.run
  rw [ha.same_n] at htarget
  rw [ha.same_cfg] at hrun
  obtain ⟨henough, hgood⟩ := forall_of_le_tally
    ((UInt32.le_iff_toNat_le.mp hrun).trans (ha.chans _ htarget).good)
  have h64 : d.target_index < 64 := htarget.trans_le hn
  exact ⟨not_active_of_excluded h64 h.excluded, henough, fun x hx => of_decide_eq_true (hgood x hx)⟩

theorem decide_backed (ha : Agrees cfg n p l) (hn : n ≤ 64) (hmask : p.mask_ ≤ full_mask n)
    (now_round : UInt64) : Backed cfg n p.mask_ l (p.decide now_round).1 := by
  cases p.decide_decided now_round with
  | hold hk _ =>
    exact ⟨fun h => absurd hk h, fun h => by simp [hk] at h, fun h => by simp [hk] at h⟩
  | exclude hk hs _ =>
    refine ⟨fun _ => ?_, fun _ => hs.backed ha hn hmask, fun h => by simp [hk] at h⟩
    have htarget := hs.target
    rw [ha.same_n] at htarget
    rw [hs.mask]
    exact ⟨htarget, xor_exclude (htarget.trans_le hn) hs.active⟩
  | restore hk hs _ =>
    refine ⟨fun _ => ?_, fun h => by simp [hk] at h, fun _ => hs.backed ha hn⟩
    have htarget := hs.target
    rw [ha.same_n] at htarget
    have h64 : (p.decide now_round).1.target_index < 64 := htarget.trans_le hn
    rw [hs.mask]
    exact ⟨htarget, xor_restore h64 (not_active_of_excluded h64 hs.excluded)⟩

end

theorem create_le {cfg : HopsetPolicyConfig} {n : UInt64} {p : HopsetPolicy}
    (h : create cfg n = .ok p) : n ≤ 64 := by
  unfold create at h
  split at h
  · cases h
  · next hn => exact UInt64.not_lt.mp (not_or.mp hn).2

/-- In every run a decision is backed by the slots that were observed, and between two proposals one
is answered. -/
theorem decisions_are_backed {cfg : HopsetPolicyConfig} {n : UInt64} {p : HopsetPolicy}
    (h : create cfg n = .ok p) {calls : List Call} (hbase : ∀ c ∈ calls, c.within n = true)
    (now_round : UInt64) :
    Backed cfg n (Runs.after step p calls).mask_ (ledger n calls)
        ((Runs.after step p calls).decide now_round).1 ∧
      ∀ (mid : List Call) (now_round' : UInt64),
        ((Runs.after step p calls).decide now_round).1.kind ≠ .Hold →
        ((Runs.after step p (calls ++ .decide now_round :: mid)).decide now_round').1.kind ≠ .Hold →
        ∃ c ∈ mid, c.answers = true := by
  have ha := agrees_after h calls
  constructor
  · apply decide_backed ha (create_le h)
    rw [ha.mask]
    exact mask_within hbase
  · intro mid now_round' hd hd'
    rw [Runs.after_append] at hd'
    exact answered_between hd hd'

/-- A channel that was taken out comes back after a good probe. -/
theorem a_good_probe_restores :
    ∃ p, create { min_obs_rounds := 1, restore_probes := 1, update_cooldown_rounds := 0 } 4 =
        .ok p ∧
      ∃ d, d = ((Runs.after step p [.on_activation 14 0,
          .ingest { is_probe := true, decoded := true }]).decide 1).1 ∧
        d.kind = .ProposeRestore ∧ d.proposed_mask ^^^ 14 = bit d.target_index := by
  refine ⟨_, rfl, _, rfl, by decide +kernel, ?_⟩
  have hbase : ∀ c ∈ [Call.on_activation 14 0, .ingest { is_probe := true, decoded := true }],
      c.within 4 = true := by decide +kernel
  exact ((decisions_are_backed rfl hbase 1).1.one_bit (by decide +kernel)).2

end HopsetPolicy

end devourer.hopset
