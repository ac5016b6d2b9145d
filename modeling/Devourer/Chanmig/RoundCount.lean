-- The number that the min-rounds gate reads: it is the span of the rounds that
-- the evidence comes from, which is their count only when none is missing.
import Mathlib.Order.Interval.Finset.Nat
import Devourer.Chanmig.Recommend

namespace devourer.chanmig

/-! ## Spans of numbers -/

/-- A set of numbers is as large as its span exactly if it has no gap. -/
theorem card_eq_span_iff {S : Finset ℕ} {lo hi : ℕ} (hle : lo ≤ hi) (hS : S ⊆ Finset.Icc lo hi) :
    S.card = hi - lo + 1 ↔ ∀ r, lo ≤ r → r ≤ hi → r ∈ S := by
  have hspan : (Finset.Icc lo hi).card = hi - lo + 1 := by
    rw [Nat.card_Icc]
    omega
  constructor
  · intro hcard r hlo hhi
    have hfull : S = Finset.Icc lo hi := by
      apply Finset.eq_of_subset_of_card_le hS
      omega
    rw [hfull]
    exact Finset.mem_Icc.mpr ⟨hlo, hhi⟩
  · intro hfull
    have hsame : S = Finset.Icc lo hi := by
      apply Finset.Subset.antisymm hS
      intro r hr
      obtain ⟨hlo, hhi⟩ := Finset.mem_Icc.mp hr
      exact hfull r hlo hhi
    rw [hsame, hspan]

/-- No round between two of these is missing, and they are not all the rounds there are. -/
def Unbroken (rounds : List UInt64) : Prop :=
  (∀ a ∈ rounds, ∀ b ∈ rounds, ∀ r, a ≤ r → r ≤ b → r ∈ rounds) ∧ ∃ r, r ∉ rounds

/-! ## The loop -/

variable {F : Type}

namespace EvidenceStore

/-- The bounds of some rounds. -/
structure RoundBounds.Spans (b : RoundBounds) (rounds : List UInt64) : Prop where
  any : b.any = true
  lo_mem : b.lo ∈ rounds
  hi_mem : b.hi ∈ rounds
  lo_le : ∀ r ∈ rounds, b.lo ≤ r
  le_hi : ∀ r ∈ rounds, r ≤ b.hi

theorem spans_first (cell : BinCell F) :
    (({} : RoundBounds).note cell).Spans [cell.round] := by
  have hlo : (({} : RoundBounds).note cell).lo = cell.round := by
    have hmax : cell.round ≤ 0xffffffffffffffff :=
      UInt64.le_iff_toNat_le.mpr (Nat.le_of_lt_succ cell.round.toNat_lt)
    simp only [RoundBounds.note]
    split
    · rfl
    · rename_i hlast
      exact UInt64.le_antisymm (UInt64.not_lt.mp hlast) hmax
  have hhi : (({} : RoundBounds).note cell).hi = cell.round := by
    simp only [RoundBounds.note]
    split
    · rfl
    · rename_i hzero
      have hmin : (0 : UInt64) ≤ cell.round := UInt64.le_iff_toNat_le.mpr (Nat.zero_le _)
      exact UInt64.le_antisymm hmin (UInt64.not_lt.mp hzero)
  refine ⟨rfl, ?_, ?_, ?_, ?_⟩
  · simp [hlo]
  · simp [hhi]
  · simp [hlo]
  · simp [hhi]

theorem spans_note {b : RoundBounds} {rounds : List UInt64} (h : b.Spans rounds)
    (cell : BinCell F) : (b.note cell).Spans (rounds ++ [cell.round]) := by
  have hlo : (b.note cell).lo = cell.round ∧ cell.round ≤ b.lo ∨
      (b.note cell).lo = b.lo ∧ b.lo ≤ cell.round := by
    simp only [RoundBounds.note]
    split
    · rename_i hlt
      exact .inl ⟨rfl, UInt64.le_of_lt hlt⟩
    · rename_i hnlt
      exact .inr ⟨rfl, UInt64.not_lt.mp hnlt⟩
  have hhi : (b.note cell).hi = cell.round ∧ b.hi ≤ cell.round ∨
      (b.note cell).hi = b.hi ∧ cell.round ≤ b.hi := by
    simp only [RoundBounds.note]
    split
    · rename_i hlt
      exact .inl ⟨rfl, UInt64.le_of_lt hlt⟩
    · rename_i hnlt
      exact .inr ⟨rfl, UInt64.not_lt.mp hnlt⟩
  have hround : cell.round ∈ rounds ++ [cell.round] := List.mem_append_right _ List.mem_cons_self
  refine ⟨rfl, ?_, ?_, ?_, ?_⟩
  · rcases hlo with ⟨hnew, -⟩ | ⟨hold, -⟩
    · exact hnew ▸ hround
    · exact hold ▸ List.mem_append_left _ h.lo_mem
  · rcases hhi with ⟨hnew, -⟩ | ⟨hold, -⟩
    · exact hnew ▸ hround
    · exact hold ▸ List.mem_append_left _ h.hi_mem
  · intro r hr
    rw [List.mem_append, List.mem_singleton] at hr
    rcases hlo with ⟨hnew, hle⟩ | ⟨hold, hle⟩
    · rcases hr with hr | rfl
      · exact hnew ▸ UInt64.le_trans hle (h.lo_le r hr)
      · exact hnew ▸ UInt64.le_refl _
    · rcases hr with hr | rfl
      · exact hold ▸ h.lo_le r hr
      · exact hold ▸ hle
  · intro r hr
    rw [List.mem_append, List.mem_singleton] at hr
    rcases hhi with ⟨hnew, hle⟩ | ⟨hold, hle⟩
    · rcases hr with hr | rfl
      · exact hnew ▸ UInt64.le_trans (h.le_hi r hr) hle
      · exact hnew ▸ UInt64.le_refl _
    · rcases hr with hr | rfl
      · exact hold ▸ h.le_hi r hr
      · exact hold ▸ hle

theorem spans_foldl {cells : List (BinCell F)} (h : cells ≠ []) :
    (cells.foldl RoundBounds.note {}).Spans (cells.map (·.round)) := by
  induction cells using List.reverseRecOn with
  | nil => exact absurd rfl h
  | append_singleton cells cell ih =>
    rw [List.foldl_append, List.map_append]
    by_cases hcells : cells = []
    · subst hcells
      exact spans_first cell
    · exact spans_note (ih hcells) cell

/-- No gap in the rounds is no gap in their numbers. -/
theorem no_gap_iff {b : RoundBounds} {rounds : List UInt64} (h : b.Spans rounds) :
    (∀ n, b.lo.toNat ≤ n → n ≤ b.hi.toNat → n ∈ rounds.toFinset.image UInt64.toNat) ↔
      ∀ x ∈ rounds, ∀ y ∈ rounds, ∀ r, x ≤ r → r ≤ y → r ∈ rounds := by
  constructor
  · intro hfull x hx y hy r hxr hry
    have hlo := UInt64.le_trans (h.lo_le x hx) hxr
    have hhi := UInt64.le_trans hry (h.le_hi y hy)
    obtain ⟨q, hq, hqr⟩ := Finset.mem_image.mp
      (hfull r.toNat (UInt64.le_iff_toNat_le.mp hlo) (UInt64.le_iff_toNat_le.mp hhi))
    exact UInt64.toNat_inj.mp hqr ▸ List.mem_toFinset.mp hq
  · intro hgap n hlo hhi
    have hn : n < 2 ^ 64 := hhi.trans_lt b.hi.toNat_lt
    have hnat : (UInt64.ofNat n).toNat = n := UInt64.toNat_ofNat_of_lt' hn
    have hmem := hgap b.lo h.lo_mem b.hi h.hi_mem (UInt64.ofNat n)
      (UInt64.le_iff_toNat_le.mpr (by rwa [hnat])) (UInt64.le_iff_toNat_le.mpr (by rwa [hnat]))
    exact Finset.mem_image.mpr ⟨_, List.mem_toFinset.mpr hmem, hnat⟩

theorem toNat_span {lo hi : UInt64} (h : lo ≤ hi) :
    (hi - lo + 1).toNat = (hi.toNat - lo.toNat + 1) % 2 ^ 64 := by
  rw [UInt64.toNat_add, UInt64.toNat_sub_of_le _ _ h]
  rfl

theorem RoundBounds.Spans.image_subset {b : RoundBounds} {rounds : List UInt64}
    (h : b.Spans rounds) :
    rounds.toFinset.image UInt64.toNat ⊆ Finset.Icc b.lo.toNat b.hi.toNat := by
  intro n hn
  obtain ⟨r, hr, rfl⟩ := Finset.mem_image.mp hn
  have hr' := List.mem_toFinset.mp hr
  exact Finset.mem_Icc.mpr ⟨UInt64.le_iff_toNat_le.mp (h.lo_le r hr'),
    UInt64.le_iff_toNat_le.mp (h.le_hi r hr')⟩

/-- Bounds that are closer than all 64-bit numbers leave one out. -/
theorem RoundBounds.Spans.missing {b : RoundBounds} {rounds : List UInt64} (h : b.Spans rounds)
    (hless : b.hi.toNat - b.lo.toNat + 1 < 2 ^ 64) : ∃ r, r ∉ rounds := by
  by_contra hnone
  have hevery : ∀ r, r ∈ rounds := by
    intro r
    by_contra hr
    exact hnone ⟨r, hr⟩
  have hzero := UInt64.le_iff_toNat_le.mp (h.lo_le 0 (hevery 0))
  have hlast := UInt64.le_iff_toNat_le.mp (h.le_hi 0xffffffffffffffff (hevery _))
  have hlo0 : b.lo.toNat = 0 := Nat.le_zero.mp hzero
  have hhi0 : 2 ^ 64 - 1 ≤ b.hi.toNat := hlast
  omega

theorem RoundBounds.Spans.span_lt {b : RoundBounds} {rounds : List UInt64} (h : b.Spans rounds)
    (hrounds : Unbroken rounds) : b.hi.toNat - b.lo.toNat + 1 < 2 ^ 64 := by
  obtain ⟨hgap, r, hr⟩ := hrounds
  by_contra hall
  have hhi := b.hi.toNat_lt
  have hrlt := r.toNat_lt
  have hin := hgap b.lo h.lo_mem b.hi h.hi_mem r
    (UInt64.le_iff_toNat_le.mpr (by omega)) (UInt64.le_iff_toNat_le.mpr (by omega))
  exact hr hin

/-- The span of the bounds, in 64 bits, is the number of the rounds exactly if none is missing. -/
theorem span_eq_card_iff {b : RoundBounds} {rounds : List UInt64} (h : b.Spans rounds) :
    (b.hi - b.lo + 1).toNat = rounds.toFinset.card ↔ Unbroken rounds := by
  have hlo_hi := h.lo_le b.hi h.hi_mem
  have hcard : (rounds.toFinset.image UInt64.toNat).card = rounds.toFinset.card :=
    Finset.card_image_of_injective _ fun _ _ => UInt64.toNat_inj.mp
  have hpos : 0 < rounds.toFinset.card :=
    Finset.card_pos.mpr ⟨b.lo, List.mem_toFinset.mpr h.lo_mem⟩
  have hfull := card_eq_span_iff (UInt64.le_iff_toNat_le.mp hlo_hi) h.image_subset
  rw [hcard, no_gap_iff h] at hfull
  rw [toNat_span hlo_hi]
  constructor
  · intro heq
    -- a span of all 2 ^ 64 rounds reads as none
    have hless : b.hi.toNat - b.lo.toNat + 1 < 2 ^ 64 := by
      have hhi := b.hi.toNat_lt
      by_contra hall
      have hwhole : b.hi.toNat - b.lo.toNat + 1 = 2 ^ 64 := by omega
      rw [hwhole, Nat.mod_self] at heq
      omega
    rw [Nat.mod_eq_of_lt hless] at heq
    exact ⟨hfull.mp heq.symm, h.missing hless⟩
  · intro hrounds
    rw [Nat.mod_eq_of_lt (h.span_lt hrounds), hfull.mpr hrounds.1]

/-- The rounds of the fresh cells of a candidate's constituent bins. -/
def fresh_rounds (s : EvidenceStore (BinCell F)) (now_ms : ℤ) (c : Cand (BinCell F)) :
    List UInt64 := (s.constituent_cells now_ms c).map (·.round)

theorem rounds_covered_eq_card_iff (s : EvidenceStore (BinCell F)) (now_ms : ℤ)
    (c : Cand (BinCell F)) :
    (s.rounds_covered now_ms c).toNat = (s.fresh_rounds now_ms c).toFinset.card ↔
      Unbroken (s.fresh_rounds now_ms c) := by
  unfold rounds_covered fresh_rounds
  by_cases hcells : s.constituent_cells now_ms c = []
  · rw [hcells]
    exact iff_of_true rfl ⟨fun a ha => absurd ha List.not_mem_nil, 0, List.not_mem_nil⟩
  · have hspans := spans_foldl hcells
    simp only [hspans.any, if_true]
    exact span_eq_card_iff hspans

end EvidenceStore

namespace RecommendEngine

open EvidenceStore

open scoped DoubleOps

variable [DoubleOps F]

/-- The gate counts the rounds exactly as long as none between the first and the last is missing,
and then it keeps out a candidate with fewer than the policy asks for. -/
theorem min_rounds_gate_counts_iff (policy : PolicyConfig F) (candidates : List ChannelDef)
    (plan_hash : UInt32) (active : ChannelDef) (inputs : List (Input F)) (now_ms : ℤ)
    (c : Cand (BinCell F)) :
    (((session policy candidates plan_hash active inputs).engine.store_.rounds_covered now_ms
        c).toNat = ((session policy candidates plan_hash active inputs).engine.store_.fresh_rounds
          now_ms c).toFinset.card ↔
      Unbroken ((session policy candidates plan_hash active inputs).engine.store_.fresh_rounds
        now_ms c)) ∧
    (Unbroken ((session policy candidates plan_hash active inputs).engine.store_.fresh_rounds
        now_ms c) →
      ((session policy candidates plan_hash active inputs).engine.score_candidate now_ms
        c).qualified = true →
      policy.min_rounds.toNat ≤ ((session policy candidates plan_hash active
        inputs).engine.store_.fresh_rounds now_ms c).toFinset.card) := by
  have hfollows : Follows (session policy candidates plan_hash active inputs) policy candidates
    active inputs := follows_session inputs
  generalize session policy candidates plan_hash active inputs = s at hfollows ⊢
  refine ⟨rounds_covered_eq_card_iff _ now_ms c, ?_⟩
  intro hunbroken hqualified
  have hrounds := (qualified_of_score hqualified).rounds
  rw [hfollows.same_policy, UInt64.not_lt, UInt64.le_iff_toNat_le,
    (rounds_covered_eq_card_iff _ now_ms c).mpr hunbroken] at hrounds
  exact hrounds

/-- 5 GHz channel 36 at 40 MHz, over the bins 36 and 40. -/
def pair_36 : Cand (BinCell ℚ) :=
  { def_ := { band := 5, primary := 36, width := .CHANNEL_WIDTH_40, offset := 1 }
    bins := [36, 40] }

/-- A long quiet dwell on each bin of the pair, in these rounds. -/
def quiet_pair (lower upper : UInt64) : List (Input ℚ) :=
  [.dwell { def_ := { band := 5, primary := 36 }, round := lower, observe_ms := 3000 } 0,
    .dwell { def_ := { band := 5, primary := 40 }, round := upper, observe_ms := 3000 } 0]

theorem two_rounds_in_a_row :
    2 ≤ ((session { min_rounds := 2 } [pair_36.def_] 0 { band := 5, primary := 149 }
      (quiet_pair 4 5)).engine.store_.fresh_rounds 0 pair_36).toFinset.card :=
  have hcount := min_rounds_gate_counts_iff { min_rounds := 2 } [pair_36.def_] 0
    { band := 5, primary := 149 } (quiet_pair 4 5) 0 pair_36
  hcount.2 (hcount.1.mp (by decide +kernel)) (by decide +kernel)

/-- Two rounds, the first and the eleventh, pass for eleven, and so for three. -/
theorem two_lucky_rounds_pass :
    ¬ ∀ (policy : PolicyConfig ℚ) (candidates : List ChannelDef) (plan_hash : UInt32)
      (active : ChannelDef) (inputs : List (Input ℚ)) (now_ms : ℤ) (c : Cand (BinCell ℚ)),
      c ∈ (session policy candidates plan_hash active inputs).engine.store_.cands_ →
      ((session policy candidates plan_hash active inputs).engine.store_.rounds_covered now_ms
        c).toNat = ((session policy candidates plan_hash active inputs).engine.store_.fresh_rounds
          now_ms c).toFinset.card ∧
      (((session policy candidates plan_hash active inputs).engine.score_candidate now_ms
          c).qualified = true →
        policy.min_rounds.toNat ≤ ((session policy candidates plan_hash active
          inputs).engine.store_.fresh_rounds now_ms c).toFinset.card) := by
  intro h
  have hmem : pair_36 ∈ (session {} [pair_36.def_] 0 { band := 5, primary := 149 }
      (quiet_pair 0 10)).engine.store_.cands_ := List.mem_cons_self
  have hfew := (h {} [pair_36.def_] 0 { band := 5, primary := 149 } (quiet_pair 0 10) 0 pair_36
    hmem).2 (by decide +kernel)
  revert hfew
  decide +kernel

end RecommendEngine

end devourer.chanmig
