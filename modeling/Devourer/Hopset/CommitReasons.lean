-- Whose change a commit says it is. What the exchange echoes is set by every
-- call that starts a commit, but the reasons are not.
import Devourer.Lib.Runs
import Devourer.Hopset.AuthorityMoves

namespace devourer.hopset

open HopsetAction HopsetAuthority

/-- What a commit says of the call that it comes from. -/
structure Attribution where
  reason_bitmap : UInt32
  rx_epoch_echo : UInt32
  rx_nonce_echo : UInt32
  deriving DecidableEq

def HopsetMsg.attribution (m : HopsetMsg) : Attribution :=
  ⟨m.reason_bitmap, m.rx_epoch_echo, m.rx_nonce_echo⟩

namespace HopsetAuthority

/-- What the commit in the air says. -/
def attribution (s : HopsetAuthority) : Attribution :=
  ⟨s.pend_reasons_, s.pend_echo_epoch_, s.pend_echo_nonce_⟩

/-- What the commit of a call is to say. -/
def Op.attribution : Op → Attribution
  | .proposal m => ⟨0, m.rx_epoch, m.rx_nonce⟩
  | .local_change _ reason_bitmap => ⟨reason_bitmap, 0, 0⟩
  | _ => ⟨0, 0, 0⟩

/-- What the commit of a call says: the reasons of a proposal are those that are there. -/
def Op.signs (s : HopsetAuthority) : Op → Attribution
  | .proposal m => ⟨s.pend_reasons_, m.rx_epoch, m.rx_nonce⟩
  | op => op.attribution

/-- What a call does to the attribution, and that each commit it sends carries it. -/
structure Signs (s : HopsetAuthority) (now : UInt64) (op : Op)
    (t : HopsetAuthority × List HopsetAction) : Prop where
  started : s.opens now op = true →
    t.1.attribution = op.signs s ∧ ∃ m ∈ sends t.2, m.type = .HT_COMMIT
  kept : s.opens now op = false → t.1.attribution = s.attribution
  sent : ∀ m ∈ sends t.2, m.type = .HT_COMMIT → m.attribution = t.1.attribution

section

variable {s s' : HopsetAuthority} {now : UInt64} {op : Op}

/-- A call that starts nothing and sends no commit. -/
theorem signs_quiet (h : s.opens now op = false) {t : HopsetAuthority × List HopsetAction}
    (ha : t.1.attribution = s.attribution) (hm : ∀ m ∈ sends t.2, m.type ≠ .HT_COMMIT) :
    Signs s now op t :=
  ⟨fun h' => absurd (h.symm.trans h') (by simp), fun _ => ha,
    fun m hmem ht => absurd ht (hm m hmem)⟩

theorem signs_reject (h : s.opens now op = false) (ha : s'.attribution = s.attribution)
    (m : HopsetMsg) (r : HopsetReason) : Signs s now op (s'.reject m r now) := by
  apply signs_quiet h ha
  intro m' hm'
  have heq : m' = { s'.status_msg now r with rx_nonce_echo := m.rx_nonce } := by
    simpa [reject] using hm'
  rw [heq]
  intro ht
  cases ht

/-- A refused call of the operator says so to the log only. -/
theorem signs_local_reject (h : s.opens now op = false) (r : HopsetReason) :
    Signs s now op (s.local_reject r) := by
  apply signs_quiet h rfl
  intro m hm
  cases hm

theorem signs_push (h : s.opens now op = false) (ha : s'.attribution = s.attribution) :
    Signs s now op (s'.push_commit now) := by
  refine ⟨fun h' => absurd (h.symm.trans h') (by simp), fun _ => ha, ?_⟩
  intro m hm _
  have heq : m = s'.commit_msg now := by simpa [push_commit] using hm
  rw [heq]
  rfl

theorem signs_start {t : HopsetAuthority} (h : s.opens now op = true)
    (ha : t.attribution = op.signs s) (mask earliest : UInt64) (extra : List HopsetAction)
    (hm : sends extra = []) :
    Signs s now op ((t.start_commit mask earliest now).1,
      (t.start_commit mask earliest now).2 ++ extra) := by
  refine ⟨fun _ => ⟨ha, _, List.mem_cons_self, rfl⟩,
    fun h' => absurd (h.symm.trans h') (by simp), ?_⟩
  intro m hmem _
  rw [sends_append, hm, List.append_nil] at hmem
  have heq : m =
      { t with pend_ := t.next mask earliest now, committing_ := true }.commit_msg now := by
    simpa [start_commit, push_commit] using hmem
  rw [heq]
  rfl

theorem signs_start_alone {t : HopsetAuthority} (h : s.opens now op = true)
    (ha : t.attribution = op.signs s) (mask earliest : UInt64) :
    Signs s now op (t.start_commit mask earliest now) := by
  have hstart := signs_start h ha mask earliest [] rfl
  rw [List.append_nil] at hstart
  exact hstart

end

theorem signs_on_proposal (s : HopsetAuthority) (m : HopsetMsg) (now : UInt64) :
    Signs s now (.proposal m) (s.on_proposal m now) := by
  have hnote : (s.note_feedback now).attribution = s.attribution := rfl
  have hreason : (s.note_feedback now).proposal_reason m now = s.proposal_reason m now := rfl
  unfold on_proposal judge
  split
  · rename_i hfp
    have hclosed : s.opens now (.proposal m) = false := decide_eq_false fun h => hfp h.1
    exact signs_reject hclosed hnote m _
  · rename_i hfp
    split
    · rename_i hring
      have hclosed : s.opens now (.proposal m) = false :=
        decide_eq_false fun h => absurd (h.2.1.symm.trans hring) (by simp)
      split
      · exact signs_push hclosed hnote
      · exact signs_reject hclosed hnote m _
    · rename_i hring
      split
      · rename_i hr
        rw [hreason] at hr
        have hclosed : s.opens now (.proposal m) = false := decide_eq_false fun h => hr h.2.2
        exact signs_reject hclosed hnote m _
      · rename_i hr
        rw [hreason] at hr
        have hopen : s.opens now (.proposal m) = true :=
          decide_eq_true ⟨not_not.mp hfp, Bool.eq_false_iff.mpr hring, not_not.mp hr⟩
        exact signs_start hopen rfl _ _ _ rfl

theorem signs_local_change (s : HopsetAuthority) (mask now : UInt64) (reason_bitmap : UInt32) :
    Signs s now (.local_change mask reason_bitmap)
      (s.start_local_change mask now reason_bitmap) := by
  unfold start_local_change
  split
  · rename_i hc
    have hclosed : s.opens now (.local_change mask reason_bitmap) = false :=
      decide_eq_false fun h => absurd (h.1.symm.trans hc) (by simp)
    exact signs_local_reject hclosed _
  · rename_i hc
    split
    · rename_i hr
      have hclosed : s.opens now (.local_change mask reason_bitmap) = false :=
        decide_eq_false fun h => hr h.2
      exact signs_local_reject hclosed _
    · rename_i hr
      have hopen : s.opens now (.local_change mask reason_bitmap) = true :=
        decide_eq_true ⟨Bool.eq_false_iff.mpr hc, not_not.mp hr⟩
      exact signs_start_alone hopen rfl mask 0

theorem signs_change (s : HopsetAuthority) (mask now : UInt64) :
    Signs s now (.change mask) (s.start_change mask now) := by
  unfold start_change
  split
  · rename_i hc
    have hclosed : s.opens now (.change mask) = false :=
      decide_eq_false fun h => absurd (h.1.symm.trans hc) (by simp)
    exact signs_local_reject hclosed _
  · rename_i hc
    split
    · rename_i hr
      have hclosed : s.opens now (.change mask) = false := decide_eq_false fun h => hr h.2
      exact signs_local_reject hclosed _
    · rename_i hr
      have hopen : s.opens now (.change mask) = true :=
        decide_eq_true ⟨Bool.eq_false_iff.mpr hc, not_not.mp hr⟩
      exact signs_start_alone hopen rfl mask 0

theorem signs_tick_commit (s : HopsetAuthority) (now : UInt64) :
    Signs s now .tick (s.tick_commit now) := by
  unfold tick_commit
  split
  · split
    · exact signs_quiet rfl rfl fun m hm => by cases hm
    · split
      · exact signs_push rfl rfl
      · exact signs_quiet rfl rfl fun m hm => by cases hm
  · exact signs_quiet rfl rfl fun m hm => by cases hm

theorem tick_status_attribution (s : HopsetAuthority) (now : UInt64) :
    (s.tick_status now).1.attribution = s.attribution ∧
      ∀ m ∈ sends (s.tick_status now).2, m.type ≠ .HT_COMMIT := by
  unfold tick_status
  split
  · refine ⟨rfl, ?_⟩
    intro m hm
    have heq : m = { s with last_status_slot_ := now }.status_msg now .None := by simpa using hm
    rw [heq]
    intro ht
    cases ht
  · exact ⟨rfl, fun m hm => by cases hm⟩

theorem signs_on_tick (s : HopsetAuthority) (now : UInt64) : Signs s now .tick (s.on_tick now) := by
  have ha := signs_tick_commit s now
  obtain ⟨hstatus, hquiet⟩ := tick_status_attribution (s.tick_commit now).1 now
  unfold on_tick
  refine ⟨?_, ?_, ?_⟩
  · intro h
    cases h
  · intro h
    exact hstatus.trans (ha.kept h)
  · intro m hm ht
    rw [sends_append, List.mem_append] at hm
    rcases hm with hm | hm
    · exact (ha.sent m hm ht).trans hstatus.symm
    · exact absurd ht (hquiet m hm)

theorem feed_signs (s : HopsetAuthority) (op : Op) (now : UInt64) :
    Signs s now op (s.feed op now) := by
  cases op with
  | proposal m => exact signs_on_proposal s m now
  | local_change mask reason_bitmap => exact signs_local_change s mask now reason_bitmap
  | change mask => exact signs_change s mask now
  | reject_proposal m reason => exact signs_reject rfl rfl m reason
  | feedback => exact signs_quiet rfl rfl fun m hm => by cases hm
  | tick => exact signs_on_tick s now

end HopsetAuthority

/-! ## Runs -/

/-- The authority with the calls that started its commits, each with its generation, the latest
first. -/
structure CommitLog where
  authority : HopsetAuthority
  starts : List (UInt32 × Op) := []

namespace CommitLog

def step (w : CommitLog) (i : Op × UInt64) : CommitLog :=
  let t := w.authority.feed i.1 i.2
  { authority := t.1
    starts := if !w.authority.committing_ && t.1.committing_ then
        (t.1.pend_.generation, i.1) :: w.starts
      else w.starts }

/-- The authority as it is built, before any call. -/
def fresh (params : HopsetParams) (epoch : UInt32) : CommitLog where
  authority := init params epoch

/-- Each commit that a call sends carries the attribution of the call that started its generation.
-/
def Attributes (w : CommitLog) (i : Op × UInt64) : Prop :=
  ∀ m ∈ sends (w.authority.feed i.1 i.2).2, m.type = .HT_COMMIT →
    ∃ op, (w.step i).starts.lookup m.generation = some op ∧ m.attribution = op.attribution

/-- The reasons that the transmitter gave when it last started a change itself. -/
def reasons_left : List (UInt32 × Op) → UInt32
  | [] => 0
  | (_, .proposal _) :: rest => reasons_left rest
  | (_, op) :: _ => op.attribution.reason_bitmap

/-- A proposal is granted only where no reasons are left. -/
def Clear (w : CommitLog) (i : Op × UInt64) : Prop :=
  ∀ m, i.1 = .proposal m → w.authority.opens i.2 i.1 = true → reasons_left w.starts = 0

theorem step_starts (w : CommitLog) (i : Op × UInt64) :
    (w.authority.opens i.2 i.1 = true ∧ w.authority.committing_ = false ∧
        (w.step i).starts = ((w.step i).authority.pend_.generation, i.1) :: w.starts ∧
        (w.step i).authority.committing_ = true ∧
        (w.step i).authority.cur_ = w.authority.cur_ ∧
        (w.step i).authority.pend_.generation = w.authority.cur_.generation + 1 ∧
        w.authority.cur_.generation + 1 < kGenCeiling) ∨
      (w.authority.opens i.2 i.1 = false ∧ (w.step i).starts = w.starts ∧
        ((w.step i).authority.committing_ = w.authority.committing_ ∧
          (w.step i).authority.pend_ = w.authority.pend_ ∧
            (w.step i).authority.cur_ = w.authority.cur_ ∨
          w.authority.committing_ = true ∧ (w.step i).authority.committing_ = false ∧
            (w.step i).authority.cur_ = w.authority.pend_)) := by
  obtain ⟨op, now⟩ := i
  have hm := (feed_moves w.authority op now).move
  simp only [step]
  generalize w.authority.feed op now = t at hm ⊢
  generalize hcore : t.1.core = c at hm
  generalize activations t.2 = l at hm
  cases hm with
  | rest h =>
    have hcommitting : t.1.committing_ = w.authority.committing_ := congrArg Core.committing hcore
    rw [hcommitting, Bool.not_and_self]
    exact .inr ⟨h, rfl, .inl ⟨rfl, congrArg Core.pend hcore, congrArg Core.cur hcore⟩⟩
  | @commits op mask earliest hop h =>
    have hcommitting : t.1.committing_ = true := congrArg Core.committing hcore
    have hpend : t.1.pend_ = w.authority.next mask earliest now := congrArg Core.pend hcore
    obtain ⟨hc, hmask, -⟩ := opens_spec h hop
    rw [hcommitting, hc]
    exact .inl ⟨h, rfl, rfl, rfl, congrArg Core.cur hcore, congrArg HopsetState.generation hpend,
      (mask_reason_none hmask).1⟩
  | activates hc hd =>
    have hcommitting : t.1.committing_ = false := congrArg Core.committing hcore
    rw [hcommitting, Bool.and_false]
    exact .inr ⟨rfl, rfl, .inr ⟨hc, rfl, congrArg Core.cur hcore⟩⟩

/-! ## The attribution that stands -/

/-- The reasons that are there are those that were left, and a commit in the air carries the
attribution of the call that started it. -/
structure Signed (w : CommitLog) : Prop where
  reasons : w.authority.pend_reasons_ = reasons_left w.starts
  pending : w.authority.committing_ = true → ∃ op rest,
    w.starts = (w.authority.pend_.generation, op) :: rest ∧
      w.authority.attribution = op.attribution

theorem reasons_signs (w : CommitLog) (h : w.authority.pend_reasons_ = reasons_left w.starts)
    (gen : UInt32) {op : Op} {x : UInt64 × UInt64} (hop : op.asks = some x) :
    (op.signs w.authority).reason_bitmap = reasons_left ((gen, op) :: w.starts) := by
  cases op with
  | proposal m => exact h
  | local_change mask reason_bitmap => rfl
  | change mask => rfl
  | reject_proposal m r => cases hop
  | feedback => cases hop
  | tick => cases hop

theorem signs_eq_iff (w : CommitLog) (i : Op × UInt64)
    (h : w.authority.pend_reasons_ = reasons_left w.starts)
    (hopen : w.authority.opens i.2 i.1 = true) :
    i.1.signs w.authority = i.1.attribution ↔ w.Clear i := by
  obtain ⟨op, now⟩ := i
  cases op with
  | proposal m =>
    have hclear : w.Clear (.proposal m, now) ↔ w.authority.pend_reasons_ = 0 := by
      rw [h]
      exact ⟨fun hc => hc m rfl hopen, fun hc _ _ _ => hc⟩
    rw [hclear]
    exact ⟨fun he => congrArg Attribution.reason_bitmap he,
      fun he => congrArg (fun r => Attribution.mk r m.rx_epoch m.rx_nonce) he⟩
  | local_change mask reason_bitmap => exact iff_of_true rfl fun m he => by cases he
  | change mask => exact iff_of_true rfl fun m he => by cases he
  | reject_proposal m r => exact iff_of_true rfl fun m he => by cases he
  | feedback => exact iff_of_true rfl fun m he => by cases he
  | tick => exact iff_of_true rfl fun m he => by cases he

/-- A commit that is sent is the one in the air, with what it says. -/
theorem commit_sent {w : CommitLog} {i : Op × UInt64} {m : HopsetMsg}
    (hm : m ∈ sends (w.authority.feed i.1 i.2).2) (ht : m.type = .HT_COMMIT) :
    (w.step i).authority.committing_ = true ∧
      m.generation = (w.step i).authority.pend_.generation ∧
      m.attribution = (w.step i).authority.attribution := by
  refine ⟨?_, ?_, (feed_signs w.authority i.1 i.2).sent m hm ht⟩
  · cases (feed_moves w.authority i.1 i.2).tells m hm with
    | status type => exact absurd (type.symm.trans ht) (by simp)
    | commit _ _ committing => exact committing
  · cases (feed_moves w.authority i.1 i.2).tells m hm with
    | status type => exact absurd (type.symm.trans ht) (by simp)
    | commit _ _ _ generation => exact generation

theorem attributes_of_signed {w : CommitLog} {i : Op × UInt64} (h : (w.step i).Signed) :
    w.Attributes i := by
  intro m hm ht
  obtain ⟨hc, hgen, hattr⟩ := commit_sent hm ht
  obtain ⟨op, rest, hstarts, hop⟩ := h.pending hc
  refine ⟨op, ?_, hattr.trans hop⟩
  rw [hstarts, hgen, List.lookup_cons_self]

theorem opens_asks {s : HopsetAuthority} {now : UInt64} {op : Op} (h : s.opens now op = true) :
    ∃ x, op.asks = some x := by
  cases op with
  | proposal m => exact ⟨_, rfl⟩
  | local_change mask reason_bitmap => exact ⟨_, rfl⟩
  | change mask => exact ⟨_, rfl⟩
  | reject_proposal m r => cases h
  | feedback => cases h
  | tick => cases h

theorem signed_step {w : CommitLog} (h : w.Signed) {i : Op × UInt64} (hi : w.Clear i) :
    (w.step i).Signed := by
  have hs := feed_signs w.authority i.1 i.2
  rcases w.step_starts i with ⟨hopen, -, hstarts, -⟩ | ⟨hclosed, hstarts, hsame | ⟨-, hc, -⟩⟩
  · obtain ⟨hattr, -⟩ := hs.started hopen
    obtain ⟨x, hop⟩ := opens_asks hopen
    refine ⟨?_, fun _ => ⟨i.1, w.starts, hstarts, ?_⟩⟩
    · rw [hstarts, ← reasons_signs w h.reasons _ hop]
      exact congrArg Attribution.reason_bitmap hattr
    · exact hattr.trans ((signs_eq_iff w i h.reasons hopen).mpr hi)
  · have hattr := hs.kept hclosed
    refine ⟨?_, fun hc => ?_⟩
    · rw [hstarts, ← h.reasons]
      exact congrArg Attribution.reason_bitmap hattr
    · obtain ⟨op, rest, hold, hop⟩ := h.pending (hsame.1.symm.trans hc)
      exact ⟨op, rest, by rw [hstarts, hold, hsame.2.1], hattr.trans hop⟩
  · have hattr := hs.kept hclosed
    refine ⟨?_, fun hc' => absurd (hc.symm.trans hc') (by simp)⟩
    rw [hstarts, ← h.reasons]
    exact congrArg Attribution.reason_bitmap hattr

theorem attributes_iff_clear {w : CommitLog} (h : w.Signed) (i : Op × UInt64) :
    w.Attributes i ↔ w.Clear i := by
  refine ⟨fun ha => ?_, fun hi => attributes_of_signed (signed_step h hi)⟩
  intro m hop hopen
  -- the commit that the call starts is sent at once
  obtain ⟨hattr, m', hm', ht⟩ := (feed_signs w.authority i.1 i.2).started hopen
  obtain ⟨op, hlookup, hop'⟩ := ha m' hm' ht
  obtain ⟨-, hgen, hattr'⟩ := commit_sent hm' ht
  rcases w.step_starts i with ⟨-, -, hstarts, -⟩ | ⟨hclosed, -⟩
  · rw [hstarts, hgen, List.lookup_cons_self] at hlookup
    obtain rfl := Option.some.inj hlookup
    have hsigns : i.1.signs w.authority = i.1.attribution :=
      hattr.symm.trans (hattr'.symm.trans hop')
    exact (signs_eq_iff w i h.reasons hopen).mp hsigns m hop hopen
  · exact absurd (hclosed.symm.trans hopen) (by simp)

/-! ## One start for each generation -/

/-- The generations of the starts rise, up to the one that is in force or in the air. -/
structure Rising (w : CommitLog) : Prop where
  below : w.authority.cur_.generation < kGenCeiling
  sorted : w.starts.Pairwise fun a b => b.1 < a.1
  settled : w.authority.committing_ = false →
    ∀ x ∈ w.starts, x.1 ≤ w.authority.cur_.generation
  pending : w.authority.committing_ = true →
    w.authority.cur_.generation < w.authority.pend_.generation ∧
      w.authority.pend_.generation < kGenCeiling ∧
      ∀ x ∈ w.starts, x.1 ≤ w.authority.pend_.generation

theorem rising_step {w : CommitLog} (h : w.Rising) (i : Op × UInt64) : (w.step i).Rising := by
  rcases w.step_starts i with ⟨-, hidle, hstarts, hc, hcur, hgen, hroom⟩ |
    ⟨-, hstarts, ⟨hc, hpend, hcur⟩ | ⟨hbusy, hc, hcur⟩⟩
  · have hlt : w.authority.cur_.generation < (w.step i).authority.pend_.generation := by
      rw [hgen, UInt32.lt_iff_toNat_lt, generation_succ h.below]
      omega
    have hle : ∀ x ∈ w.starts, x.1 < (w.step i).authority.pend_.generation :=
      fun x hx => UInt32.lt_of_le_of_lt (h.settled hidle x hx) hlt
    refine ⟨hcur ▸ h.below, ?_, fun hc' => absurd (hc.symm.trans hc') (by simp),
      fun _ => ⟨hcur ▸ hlt, hgen ▸ hroom, ?_⟩⟩
    · rw [hstarts]
      exact List.pairwise_cons.mpr ⟨hle, h.sorted⟩
    · intro x hx
      rw [hstarts] at hx
      rcases List.mem_cons.mp hx with rfl | hx
      · exact UInt32.le_refl _
      · exact UInt32.le_of_lt (hle x hx)
  · refine ⟨hcur ▸ h.below, hstarts ▸ h.sorted, ?_, ?_⟩
    · intro hidle x hx
      rw [hcur]
      exact h.settled (hc.symm.trans hidle) x (hstarts ▸ hx)
    · intro hbusy
      obtain ⟨hlt, hroom, hle⟩ := h.pending (hc.symm.trans hbusy)
      rw [hcur, hpend]
      exact ⟨hlt, hroom, fun x hx => hle x (hstarts ▸ hx)⟩
  · obtain ⟨-, hroom, hle⟩ := h.pending hbusy
    refine ⟨hcur ▸ hroom, hstarts ▸ h.sorted, ?_, fun hc' => absurd (hc.symm.trans hc') (by simp)⟩
    intro _ x hx
    rw [hcur]
    exact hle x (hstarts ▸ hx)

theorem signed_fresh (params : HopsetParams) (epoch : UInt32) : (fresh params epoch).Signed :=
  ⟨rfl, fun hc => by cases hc⟩

theorem rising_fresh (params : HopsetParams) (epoch : UInt32) : (fresh params epoch).Rising where
  below := show (0 : UInt32) < kGenCeiling by decide
  sorted := List.Pairwise.nil
  settled := by
    intro _ x hx
    cases hx
  pending := by
    intro hc
    cases hc

theorem along_attributes_iff (params : HopsetParams) (epoch : UInt32) (is : List (Op × UInt64)) :
    Runs.Along step Attributes (fresh params epoch) is ↔
      Runs.Along step Clear (fresh params epoch) is :=
  Runs.along_congr step (P := Signed) _ (signed_fresh params epoch)
    (fun _ i h => attributes_iff_clear h i)
    (fun _ i h ha => signed_step h ((attributes_iff_clear h i).mp ha)) is

/-- Every generation is started once, and in a run the commits carry the attribution of the call
that started it exactly if each proposal is granted where the transmitter left no reasons. -/
theorem commits_are_attributed_iff (params : HopsetParams) (epoch : UInt32)
    (is : List (Op × UInt64)) :
    (Runs.Along step Attributes (fresh params epoch) is ↔
        Runs.Along step Clear (fresh params epoch) is) ∧
      ((Runs.after step (fresh params epoch) is).starts.map Prod.fst).Nodup := by
  refine ⟨along_attributes_iff params epoch is, ?_⟩
  have hrising := Runs.after_keeps step (P := Rising) _ (rising_fresh params epoch)
    (fun _ i h => rising_step h i) is
  rw [List.nodup_iff_pairwise_ne, List.pairwise_map]
  refine hrising.sorted.imp ?_
  intro a b hlt heq
  rw [heq] at hlt
  exact UInt32.lt_irrefl _ hlt

/-- A change of the transmitter's own for reason 1, then a proposal once it is in force. -/
def a_proposal_after_a_local_change : List (Op × UInt64) :=
  [(.local_change 3 1, 10), (.tick, 40), (.proposal { active_mask := 7, rx_nonce := 1 }, 4000)]

/-- The commit of the proposal carries the reason of the change before it. -/
theorem a_proposal_carries_old_reasons :
    ¬ ∀ (params : HopsetParams) (epoch : UInt32) (is : List (Op × UInt64)),
      Runs.Along step Attributes (fresh params epoch) is := by
  intro h
  obtain ⟨-, -, hlast, -⟩ := (along_attributes_iff { n_base := 3 } 7 _).mp
    (h { n_base := 3 } 7 a_proposal_after_a_local_change)
  have hnone := hlast _ rfl (by decide +kernel)
  revert hnone
  decide +kernel

end CommitLog

end devourer.hopset
