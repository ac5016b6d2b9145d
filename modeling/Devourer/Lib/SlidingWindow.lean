-- An anti-replay window: the highest number taken and one bit for each of
-- the numbers just below it, against the set of numbers that it stands for.
import Mathlib.Data.List.Basic
import Mathlib.Order.Basic

namespace SlidingWindow

/-! ## The window and the set -/

/-- Bit `b` of the mask stands for the number `last - b`. -/
structure Window (w : Nat) where
  last : Nat
  mask : BitVec w
  seen : Bool

variable {w : Nat}

/-- The window after it takes `n`, or nothing when it refuses `n`. -/
def accept (x : Window w) (n : Nat) : Option (Window w) :=
  if n = 0 then none
  else if !x.seen then some ⟨n, 1#w, true⟩
  else if x.last < n then
    some ⟨n, if w ≤ n - x.last then 1#w else (x.mask <<< (n - x.last)) ||| 1#w, true⟩
  else if w ≤ x.last - n then none
  else if x.mask.getLsbD (x.last - n) then none
  else some { x with mask := x.mask ||| BitVec.twoPow w (x.last - n) }

/-- The window that takes no number up to `n`. -/
def seeded (n : Nat) : Window w :=
  ⟨n, if n = 0 then 0#w else BitVec.allOnes w, decide (n ≠ 0)⟩

/-- What was taken since the last seed. -/
structure History where
  seed : Nat := 0
  accepted : List Nat := []

namespace History

def highest (h : History) : Nat := h.accepted.foldr max h.seed

def note (h : History) (n : Nat) : History := { h with accepted := n :: h.accepted }

/-- The set view of the window: `n` is new, above the seed and not too old. -/
structure Admits (w : Nat) (h : History) (n : Nat) : Prop where
  positive : 0 < n
  unused : n ∉ h.accepted
  above_seed : h.seed < n
  in_window : h.highest < n + w

theorem seed_le_highest (h : History) : h.seed ≤ h.highest := by
  unfold highest
  induction h.accepted with
  | nil => exact Nat.le_refl _
  | cons a as ih => exact Nat.le_trans ih (Nat.le_max_right _ _)

theorem le_highest {h : History} {n : Nat} (hn : n ∈ h.accepted) : n ≤ h.highest := by
  unfold highest
  revert hn
  induction h.accepted with
  | nil => intro hn; simp at hn
  | cons a as ih =>
    intro hn
    rcases List.mem_cons.mp hn with rfl | hn
    · exact Nat.le_max_left _ _
    · exact Nat.le_trans (ih hn) (Nat.le_max_right _ _)

theorem highest_note (h : History) (n : Nat) : (h.note n).highest = max n h.highest := rfl

end History

/-! ## The window stands for the set -/

structure Represents (x : Window w) (h : History) : Prop where
  fresh : x.seen = false → h.seed = 0 ∧ h.accepted = []
  last : x.seen = true → x.last = h.highest
  bits : x.seen = true → ∀ b, b < w → b < x.last →
    (x.mask.getLsbD b = true ↔ x.last - b ∈ h.accepted ∨ x.last - b ≤ h.seed)

theorem seeded_represents (n : Nat) : Represents (seeded n : Window w) { seed := n } := by
  refine ⟨?_, fun _ => rfl, ?_⟩
  · intro hf
    simp only [seeded, ne_eq, decide_not, Bool.not_eq_false', decide_eq_true_eq] at hf
    exact ⟨hf, rfl⟩
  · intro hs b hb _
    simp only [seeded, ne_eq, decide_not, Bool.not_eq_true', decide_eq_false_iff_not] at hs
    simp [seeded, hs, hb]

/-- The window takes exactly the numbers that the set admits. -/
theorem accept_isSome_iff {x : Window w} {h : History} (hr : Represents x h) (n : Nat) :
    (accept x n).isSome = true ↔ h.Admits w n := by
  unfold accept
  by_cases hn : n = 0
  · rw [if_pos hn]
    refine ⟨by simp, fun ha => ?_⟩
    have := ha.positive
    omega
  rw [if_neg hn]
  cases hseen : x.seen with
  | false =>
    obtain ⟨h0, ha⟩ := hr.fresh hseen
    have hhigh : h.highest = 0 := by simp [History.highest, h0, ha]
    refine ⟨fun _ => ⟨by omega, by simp [ha], by omega, by omega⟩, fun _ => ?_⟩
    simp
  | true =>
    have hlast := hr.last hseen
    have hseed := h.seed_le_highest
    simp only [Bool.not_true, Bool.false_eq_true, if_false]
    by_cases hnew : x.last < n
    · rw [if_pos hnew]
      refine ⟨fun _ => ⟨by omega, ?_, by omega, by omega⟩, fun _ => rfl⟩
      intro hmem
      have := History.le_highest hmem
      omega
    rw [if_neg hnew]
    by_cases hold : w ≤ x.last - n
    · rw [if_pos hold]
      refine ⟨by simp, fun ha => ?_⟩
      have := ha.in_window
      omega
    rw [if_neg hold]
    -- A number inside the window is taken exactly when its bit is clear.
    have hbit := hr.bits hseen (x.last - n) (by omega) (by omega)
    rw [Nat.sub_sub_self (by omega)] at hbit
    by_cases hset : x.mask.getLsbD (x.last - n) = true
    · rw [if_pos hset]
      refine ⟨by simp, fun ha => ?_⟩
      rcases hbit.mp hset with hmem | hle
      · exact absurd hmem ha.unused
      · have := ha.above_seed
        omega
    · rw [if_neg hset]
      have hclear := fun hor => hset (hbit.mpr hor)
      refine ⟨fun _ => ⟨by omega, fun hmem => hclear (Or.inl hmem), ?_, by omega⟩, fun _ => rfl⟩
      have : ¬n ≤ h.seed := fun hle => hclear (Or.inr hle)
      omega

/-- One bit at the bottom, for the number just taken. -/
theorem one_bits (hw : 0 < w) (b : Nat) : (1#w).getLsbD b = true ↔ b = 0 := by
  simp [BitVec.getLsbD_one, hw]

theorem represents_first (hw : 0 < w) {x : Window w} {h : History} (hr : Represents x h)
    (hseen : x.seen = false) (n : Nat) : Represents (⟨n, 1#w, true⟩ : Window w) (h.note n) := by
  obtain ⟨h0, hacc⟩ := hr.fresh hseen
  refine ⟨by simp, ?_, ?_⟩
  · intro _
    simp [History.highest, History.note, h0, hacc]
  · intro _ b hb hlt
    rw [one_bits hw]
    simp only [History.note, hacc, h0, List.mem_singleton]
    dsimp only at hlt
    omega

/-- Nothing above the head was taken. -/
theorem not_mem_above {x : Window w} {h : History} (hr : Represents x h) (hseen : x.seen = true)
    {m : Nat} (hm : x.last < m) : m ∉ h.accepted ∧ ¬m ≤ h.seed := by
  have hlast := hr.last hseen
  have hseed := h.seed_le_highest
  refine ⟨?_, by omega⟩
  intro hmem
  have := History.le_highest hmem
  omega

/-- A number ahead of the head becomes the head. The old bits move up with it, or out. -/
theorem represents_ahead (hw : 0 < w) {x : Window w} {h : History} (hr : Represents x h)
    (hseen : x.seen = true) {n : Nat} (hnew : x.last < n) :
    Represents (⟨n, if w ≤ n - x.last then 1#w else (x.mask <<< (n - x.last)) ||| 1#w, true⟩ :
      Window w) (h.note n) := by
  have hlast := hr.last hseen
  refine ⟨by simp, ?_, ?_⟩
  · intro _
    rw [History.highest_note]
    dsimp only
    omega
  intro _ b hb hlt
  dsimp only at hlt ⊢
  simp only [History.note, List.mem_cons]
  by_cases hskip : b < n - x.last
  · -- The head itself, or a number that the jump skipped: no bit but the lowest is set.
    obtain ⟨hmem, hle⟩ := not_mem_above hr hseen (m := n - b) (by omega)
    have hbit : (if w ≤ n - x.last then 1#w else (x.mask <<< (n - x.last)) ||| 1#w).getLsbD b = true
        ↔ b = 0 := by
      split
      · exact one_bits hw b
      · rw [BitVec.getLsbD_or, BitVec.getLsbD_shiftLeft, Bool.or_eq_true, one_bits hw]
        simp [hskip]
    rw [hbit]
    simp only [hmem, hle, or_false]
    omega
  · -- An old bit, still in reach.
    have hjump : ¬w ≤ n - x.last := by omega
    have hbit := hr.bits hseen (b - (n - x.last)) (by omega) (by omega)
    rw [show x.last - (b - (n - x.last)) = n - b by omega] at hbit
    have hb0 : b ≠ 0 := by omega
    have hself : n - b ≠ n := by omega
    rw [if_neg hjump, BitVec.getLsbD_or, BitVec.getLsbD_shiftLeft, Bool.or_eq_true, one_bits hw]
    simp only [hb, hskip, decide_true, decide_false, Bool.not_false, Bool.true_and, hbit, hself,
      hb0, false_or, or_false]

/-- A late number sets its own bit and no other. -/
theorem represents_late {x : Window w} {h : History} (hr : Represents x h)
    (hseen : x.seen = true) {n : Nat} (hlate : n ≤ x.last) (hin : x.last - n < w) :
    Represents { x with mask := x.mask ||| BitVec.twoPow w (x.last - n) } (h.note n) := by
  have hlast := hr.last hseen
  refine ⟨?_, ?_, ?_⟩
  · intro hf
    rw [hseen] at hf
    cases hf
  · intro _
    rw [History.highest_note]
    dsimp only
    omega
  · intro _ b hb hlt
    dsimp only at hlt ⊢
    rw [BitVec.getLsbD_or, Bool.or_eq_true, BitVec.getLsbD_twoPow, hr.bits hseen b hb hlt]
    simp only [History.note, List.mem_cons, Bool.and_eq_true, decide_eq_true_eq]
    have hself : (x.last - n < w ∧ x.last - n = b) ↔ x.last - b = n := by omega
    rw [hself]
    constructor
    · rintro ((hmem | hle) | hb0)
      · exact Or.inl (Or.inr hmem)
      · exact Or.inr hle
      · exact Or.inl (Or.inl hb0)
    · rintro ((hb0 | hmem) | hle)
      · exact Or.inr hb0
      · exact Or.inl (Or.inl hmem)
      · exact Or.inl (Or.inr hle)

/-- What the window takes, it stands for afterwards. -/
theorem accept_represents (hw : 0 < w) {x y : Window w} {h : History} (hr : Represents x h)
    {n : Nat} (ha : accept x n = some y) : Represents y (h.note n) := by
  unfold accept at ha
  split at ha
  · cases ha
  split at ha
  · rename_i hseen
    cases ha
    exact represents_first hw hr (by simpa using hseen) n
  rename_i hseen
  have hseen' : x.seen = true := by simpa using hseen
  split at ha
  · cases ha
    exact represents_ahead hw hr hseen' ‹_›
  rename_i hnew
  split at ha
  · cases ha
  rename_i hold
  split at ha
  · cases ha
  · cases ha
    exact represents_late hr hseen' (by omega) (by omega)

end SlidingWindow
