-- The anti-replay window of a receiver: what it remembers of one peer.
import Mathlib.Data.Nat.Notation

namespace devourer.chanmig

/-- Epochs are random for each boot, and a window is never persisted. -/
structure ReplayWindow where
  have_peer : Bool := false
  peer_epoch : UInt32 := 0
  max_gen : UInt32 := 0
  /-- 0 when no exchange is in flight. -/
  in_flight_gen : UInt32 := 0
  deriving DecidableEq

/-- The answers of `classify_proposal`, which are 0, 1 and 2 in the source. -/
inductive ProposalClass
  | replay
  | idempotent
  | fresh
  deriving DecidableEq

namespace ReplayWindow

/-- Adopts or verifies a peer epoch. A new epoch resets the generation ceiling. -/
def accept_epoch (w : ReplayWindow) (epoch : UInt32) (may_introduce : Bool) : ReplayWindow × Bool :=
  if !w.have_peer then
    if !may_introduce then (w, false)
    else ({ have_peer := true, peer_epoch := epoch, max_gen := 0, in_flight_gen := 0 }, true)
  else if epoch = w.peer_epoch then (w, true)
  else if may_introduce then
    ({ w with peer_epoch := epoch, max_gen := 0, in_flight_gen := 0 }, true)
  else (w, false)

def classify_proposal (w : ReplayWindow) (gen : UInt32) : ReplayWindow × ProposalClass :=
  if w.in_flight_gen ≠ 0 ∧ gen = w.in_flight_gen then (w, .idempotent)
  else if gen ≤ w.max_gen then (w, .replay)
  else ({ w with max_gen := gen, in_flight_gen := gen }, .fresh)

def clear_in_flight (w : ReplayWindow) : ReplayWindow := { w with in_flight_gen := 0 }

/-- Windows that know the same peer up to the same generation. -/
structure SameWindow (w w' : ReplayWindow) : Prop where
  have_peer : w'.have_peer = w.have_peer
  peer_epoch : w'.peer_epoch = w.peer_epoch
  max_gen : w'.max_gen = w.max_gen

theorem SameWindow.of_eq {w w' : ReplayWindow} (h : w' = w) : SameWindow w w' := by
  subst h
  exact ⟨rfl, rfl, rfl⟩

theorem sameWindow_clear (w : ReplayWindow) : SameWindow w w.clear_in_flight := ⟨rfl, rfl, rfl⟩

/-- A window that has heard of no other epoch than `e`. -/
structure Knows (w : ReplayWindow) (e : UInt32) : Prop where
  peer : w.have_peer = true → w.peer_epoch = e
  fresh : w.have_peer = false → w.max_gen = 0

theorem SameWindow.knows {w w' : ReplayWindow} (h : SameWindow w w') {e : UInt32} (hw : w.Knows e) :
    w'.Knows e := by
  refine ⟨fun hp => ?_, fun hp => ?_⟩
  · rw [h.peer_epoch]; exact hw.peer (h.have_peer ▸ hp)
  · rw [h.max_gen]; exact hw.fresh (h.have_peer ▸ hp)

/-! ## Epochs -/

/-- A message that may introduce an epoch is never turned away. -/
@[simp] theorem accept_epoch_introduce (w : ReplayWindow) (e : UInt32) :
    (w.accept_epoch e true).2 = true := by
  unfold accept_epoch
  simp only [Bool.not_true, Bool.false_eq_true, if_false, if_true]
  split
  · rfl
  · split <;> rfl

theorem accept_epoch_peer (w : ReplayWindow) (e : UInt32) :
    (w.accept_epoch e true).1.have_peer = true ∧ (w.accept_epoch e true).1.peer_epoch = e := by
  unfold accept_epoch
  simp only [Bool.not_true, Bool.false_eq_true, if_false, if_true]
  split
  · exact ⟨rfl, rfl⟩
  · rename_i hp
    have hp' : w.have_peer = true := by simpa using hp
    split
    · rename_i he; exact ⟨hp', he.symm⟩
    · exact ⟨hp', rfl⟩

/-- The epoch the window already has changes nothing. -/
theorem accept_epoch_same (w : ReplayWindow) (e : UInt32) (hp : w.have_peer = true)
    (he : w.peer_epoch = e) : (w.accept_epoch e true).1 = w := by
  unfold accept_epoch
  simp [hp, he]

/-- A window that knows no other epoch keeps its ceiling. -/
theorem Knows.accept_epoch {w : ReplayWindow} {e : UInt32} (h : w.Knows e) :
    (w.accept_epoch e true).1.Knows e ∧ (w.accept_epoch e true).1.max_gen = w.max_gen := by
  obtain ⟨hp, he⟩ := accept_epoch_peer w e
  refine ⟨⟨fun _ => he, fun hf => absurd (hp.symm.trans hf) (by simp)⟩, ?_⟩
  rcases hw : w.have_peer with _ | _
  · have h0 := h.fresh hw
    unfold ReplayWindow.accept_epoch
    simp [hw, h0]
  · rw [accept_epoch_same w e hw (h.peer hw)]

/-! ## Generations -/

/-- A fresh proposal is above the ceiling and becomes it. -/
theorem classify_fresh {w : ReplayWindow} {g : UInt32} (h : (w.classify_proposal g).2 = .fresh) :
    w.max_gen < g ∧ (w.classify_proposal g).1 = { w with max_gen := g, in_flight_gen := g } := by
  unfold classify_proposal at h ⊢
  split at h
  · cases h
  · rename_i hi
    split at h
    · cases h
    · rename_i hg
      rw [if_neg hi, if_neg hg]
      exact ⟨UInt32.not_le.mp hg, rfl⟩

/-- Any other proposal leaves the window as it was. -/
theorem classify_not_fresh {w : ReplayWindow} {g : UInt32}
    (h : (w.classify_proposal g).2 ≠ .fresh) : (w.classify_proposal g).1 = w := by
  unfold classify_proposal at h ⊢
  split
  · rfl
  · rename_i hi
    split
    · rfl
    · rename_i hg
      rw [if_neg hi, if_neg hg] at h
      exact absurd rfl h

end ReplayWindow

end devourer.chanmig
