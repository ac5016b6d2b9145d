-- Proposals that come again. The authority remembers the last sixteen that
-- it accepted; an older one is judged as if it were new.
import Devourer.Lib.Runs
import Devourer.Hopset.AuthorityMoves

namespace devourer.hopset

open HopsetAction HopsetAuthority

/-- The pair that a proposal is known by. -/
def HopsetMsg.pair (m : HopsetMsg) : UInt32 × UInt32 := (m.rx_epoch, m.rx_nonce)

/-- The authority, and the pairs of the proposals that started a commit, the latest first. -/
structure Docket where
  authority : HopsetAuthority
  accepted : List (UInt32 × UInt32) := []

namespace Docket

/-- The pair that a call adds to the accepted ones, if it starts a commit. -/
def adds (before after : Bool) : Op → List (UInt32 × UInt32)
  | .proposal m => if !before && after then [m.pair] else []
  | _ => []

def step (w : Docket) (i : Op × UInt64) : Docket :=
  let t := w.authority.feed i.1 i.2
  { authority := t.1
    accepted := adds w.authority.committing_ t.1.committing_ i.1 ++ w.accepted }

def run (w : Docket) (is : List (Op × UInt64)) : Docket := Runs.after step w is

/-- A proposal that was accepted before is among the last sixteen that were, or something else is
wrong with it. -/
def Remembered (w : Docket) (i : Op × UInt64) : Prop :=
  ∀ m, i.1 = .proposal m → m.pair ∈ w.accepted →
    m.pair ∈ w.accepted.take 16 ∨ m.base_fp ≠ w.authority.p_.base_fp ∨
      w.authority.proposal_reason m i.2 ≠ .None

/-! ## The ring -/

/-- What the ring stands for. -/
def Recalls (r : ProposalReplayRing) (accepted : List (UInt32 × UInt32)) : Prop :=
  RingBuffer.Holds r (accepted.map fun a => ProposalReplayRing.pack a.1 a.2)

/-- The ring knows the last sixteen pairs. -/
theorem Recalls.contains_iff {r : ProposalReplayRing} {accepted : List (UInt32 × UInt32)}
    (h : Recalls r accepted) (m : HopsetMsg) :
    r.contains m.rx_epoch m.rx_nonce = true ↔ m.pair ∈ accepted.take 16 := by
  have hring := RingBuffer.Holds.contains_iff h (ProposalReplayRing.pack m.rx_epoch m.rx_nonce)
  rw [← List.map_take, List.mem_map] at hring
  constructor
  · intro hc
    obtain ⟨a, ha, hpack⟩ := hring.mp hc
    obtain ⟨he, hn⟩ := ProposalReplayRing.pack_inj hpack
    have hpair : m.pair = a := by
      rw [HopsetMsg.pair, ← he, ← hn]
    rw [hpair]
    exact ha
  · intro hm
    exact hring.mpr ⟨m.pair, hm, rfl⟩

theorem Recalls.remember {r : ProposalReplayRing} {accepted : List (UInt32 × UInt32)}
    (h : Recalls r accepted) (m : HopsetMsg) :
    Recalls (r.remember m.rx_epoch m.rx_nonce) (m.pair :: accepted) :=
  RingBuffer.Holds.remember h (by decide) _

/-- A proposal that passes the checks starts a commit. -/
theorem adds_of_opens {s : HopsetAuthority} {now : UInt64} {m : HopsetMsg} {c : Core}
    {l : List HopsetState} (hopen : s.opens now (.proposal m) = true)
    (hm : Move s now (.proposal m) c l) :
    adds s.committing_ c.committing (.proposal m) = [m.pair] := by
  cases hm with
  | rest hclosed => exact absurd (hclosed.symm.trans hopen) (by simp)
  | commits hop =>
    have hc := (opens_spec hopen hop).1
    rw [hc]
    rfl

/-- Nothing else does. -/
theorem adds_of_closed {s : HopsetAuthority} {now : UInt64} {op : Op} {c : Core}
    {l : List HopsetState} (hclosed : s.opens now op = false) (hm : Move s now op c l) :
    adds s.committing_ c.committing op = [] := by
  cases hm with
  | rest =>
    have hsame : (!s.committing_ && s.core.committing) = false := Bool.not_and_self s.committing_
    unfold adds
    split
    · rw [hsame]
      rfl
    · rfl
  | commits hop hopen => exact absurd (hclosed.symm.trans hopen) (by simp)
  | activates => rfl

/-- A granted call adds its pair, if it has one, to the ring and to the list. -/
theorem recalls_move {s : HopsetAuthority} {now : UInt64} {op : Op} {c : Core}
    {l : List HopsetState} {accepted : List (UInt32 × UInt32)} (h : Recalls s.replays_ accepted)
    (hm : Move s now op c l) :
    Recalls c.replays (adds s.committing_ c.committing op ++ accepted) := by
  cases hm with
  | rest hclosed =>
    rw [adds_of_closed hclosed (.rest hclosed)]
    exact h
  | commits hop hopen =>
    have hc := (opens_spec hopen hop).1
    rw [hc]
    cases op with
    | proposal m => exact h.remember m
    | local_change | change => exact h
    | reject_proposal | feedback | tick => cases hop
  | activates => exact h

/-! ## Runs -/

/-- The ring is right, and no pair is on the list twice. -/
structure Kept (w : Docket) : Prop where
  recalls : Recalls w.authority.replays_ w.accepted
  once : w.accepted.Nodup

/-- A proposal that passes the checks is not in the ring. -/
theorem opens_iff {w : Docket} (h : Recalls w.authority.replays_ w.accepted) (m : HopsetMsg)
    (now : UInt64) : w.authority.opens now (.proposal m) = true ↔
      m.base_fp = w.authority.p_.base_fp ∧ m.pair ∉ w.accepted.take 16 ∧
        w.authority.proposal_reason m now = .None := by
  have hring : w.authority.replays_.contains m.rx_epoch m.rx_nonce = false ↔
      m.pair ∉ w.accepted.take 16 := by
    rw [← h.contains_iff m, Bool.not_eq_true]
  rw [← hring]
  exact decide_eq_true_iff

theorem kept_step {w : Docket} (h : Kept w) (i : Op × UInt64) (hi : Remembered w i) :
    Kept (step w i) := by
  have hm := (feed_moves w.authority i.1 i.2).move
  refine ⟨recalls_move h.recalls hm, ?_⟩
  show (adds w.authority.committing_ (w.authority.feed i.1 i.2).1.core.committing i.1 ++
    w.accepted).Nodup
  rcases hopen : w.authority.opens i.2 i.1 with _ | _
  · rw [adds_of_closed hopen hm]
    exact h.once
  · rcases hop : i.1 with m | _ | _ | _ | _ | _
    · rw [hop] at hopen hm
      rw [adds_of_opens hopen hm, List.singleton_append, List.nodup_cons]
      obtain ⟨hfp, hout, hreason⟩ := (opens_iff h.recalls m i.2).mp hopen
      refine ⟨?_, h.once⟩
      intro hin
      rcases hi m hop hin with hin' | hfp' | hreason'
      · exact hout hin'
      · exact hfp' hfp
      · exact hreason' hreason
    all_goals exact h.once

/-- A pair that is not added again was remembered, or its proposal refused. -/
theorem remembered_of_once {w : Docket} (h : Kept w) (i : Op × UInt64)
    (hnodup : (step w i).accepted.Nodup) : Remembered w i := by
  intro m hop hin
  by_contra hnot
  obtain ⟨hout, hfp, hreason⟩ : m.pair ∉ w.accepted.take 16 ∧
      m.base_fp = w.authority.p_.base_fp ∧ w.authority.proposal_reason m i.2 = .None := by
    simpa only [not_or, ne_eq, not_not] using hnot
  have hm := (feed_moves w.authority i.1 i.2).move
  have hopen := (opens_iff h.recalls m i.2).mpr ⟨hfp, hout, hreason⟩
  have hadds : (step w i).accepted = m.pair :: w.accepted := by
    show adds w.authority.committing_ (w.authority.feed i.1 i.2).1.core.committing i.1 ++
      w.accepted = _
    rw [hop] at hm ⊢
    rw [adds_of_opens hopen hm]
    rfl
  rw [hadds, List.nodup_cons] at hnodup
  exact hnodup.1 hin

/-- No pair starts a commit twice exactly if every proposal that comes again is still remembered
or refused on another ground. -/
theorem no_pair_is_accepted_twice_iff (params : HopsetParams) (epoch : UInt32)
    (is : List (Op × UInt64)) :
    let w := Docket.mk (init params epoch) []
    Runs.Along step Remembered w is ↔ ∀ n, (run w (is.take n)).accepted.Nodup := by
  intro w
  have h0 : Kept w := ⟨RingBuffer.holds_empty 16 0, List.nodup_nil⟩
  exact Runs.along_iff_reached step w h0 (fun _ h => h.once) (fun _ i h hi => kept_step h i hi)
    (fun _ i h hn => remembered_of_once h i hn) is

/-- The `i`-th proposal, which takes the third of three channels out and in by turns, and the tick
that puts it in force. -/
def demoTurn (i : Nat) : List (Op × UInt64) :=
  [(.proposal
      { rx_epoch := 9, rx_nonce := UInt32.ofNat i, active_mask := if i % 2 = 0 then 3 else 7 },
    UInt64.ofNat (200 * i + 10)), (.tick, UInt64.ofNat (200 * i + 100))]

/-- Eighteen proposals, and the first of them again. -/
def demoReplay : List (Op × UInt64) :=
  (List.range 18).flatMap demoTurn ++
    [(.proposal { rx_epoch := 9, rx_nonce := 0, active_mask := 3 }, 3610)]

/-- The first proposal starts a commit a second time. -/
theorem a_forgotten_proposal_is_accepted_again :
    let w := run ⟨init { n_base := 3 } 7, []⟩ demoReplay
    w.accepted.length = 19 ∧ w.accepted.count (9, 0) = 2 ∧ w.authority.committing_ = true ∧
      ¬ w.accepted.Nodup := by
  intro w
  have hcount : w.accepted.count (9, 0) = 2 := by decide +kernel
  refine ⟨by decide +kernel, hcount, by decide +kernel, fun h => ?_⟩
  have hle := List.nodup_iff_count_le_one.mp h (9, 0)
  omega

end Docket

end devourer.hopset
