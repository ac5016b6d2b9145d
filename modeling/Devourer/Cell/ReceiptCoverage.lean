-- What the receipts cover. The ledger keeps the greatest end of a window
-- that it absorbed, which says that everything below was covered only if
-- each window goes on from another.
import Devourer.Cell.ReceiptLaws

namespace devourer.cell

/-! ## Windows in a row -/

section Windows

variable {ι : Type*} (lo hi : ι → ℕ) (vs : List ι)

/-- Everything below the end of a window is in a window. -/
def Gapless : Prop := ∀ v ∈ vs, ∀ i < hi v, ∃ u ∈ vs, lo u ≤ i ∧ i < hi u

/-- Each window starts at 0 or goes on from one that starts before it. -/
def Chained : Prop := ∀ v ∈ vs, lo v = 0 ∨ ∃ u ∈ vs, lo u < lo v ∧ lo v ≤ hi u

variable {lo hi vs}

theorem Chained.covers (h : Chained lo hi vs) (n : ℕ) :
    ∀ v ∈ vs, lo v ≤ n → ∀ i < hi v, ∃ u ∈ vs, lo u ≤ i ∧ i < hi u := by
  induction n with
  | zero =>
    intro v hv hlo i hi
    exact ⟨v, hv, by omega, hi⟩
  | succ n ih =>
    intro v hv hlo i hi
    by_cases hle : lo v ≤ i
    · exact ⟨v, hv, hle, hi⟩
    · -- the index is before this window, so the one that it goes on from has it covered
      obtain h0 | ⟨u, hu, hbefore, hmeets⟩ := h v hv
      · omega
      · exact ih u hu (by omega) i (by omega)

theorem gapless_iff_chained (hle : ∀ v ∈ vs, lo v ≤ hi v) :
    Gapless lo hi vs ↔ Chained lo hi vs := by
  constructor
  · intro h v hv
    by_cases h0 : lo v = 0
    · exact .inl h0
    · have hend := hle v hv
      obtain ⟨u, hu, hstart, hlast⟩ := h v hv (lo v - 1) (by omega)
      exact .inr ⟨u, hu, by omega, by omega⟩
  · intro h v hv
    exact h.covers (lo v) v hv le_rfl

end Windows

/-! ## The ledger -/

namespace ReceiptLedger

/-- A receipt that arrives: its buffer, and the transmitter that takes it. -/
abbrev Arrival := Bytes × Octets 6

def absorb_all (l : ReceiptLedger) (xs : List Arrival) : ReceiptLedger :=
  Runs.after (fun l x => (l.absorb x.1 x.2).1) l xs

/-- The receipts that are absorbed on the way. -/
def absorbed (l : ReceiptLedger) (xs : List Arrival) : List ReceiptView :=
  xs.filterMap fun x => l.taken x.1 x.2

def first (v : ReceiptView) : ℕ := v.base.toNat
def past (v : ReceiptView) : ℕ := v.base.toNat + v.nbits.toNat

variable {l : ReceiptLedger}

theorem covered_absorb_none {x : Arrival} (h : l.taken x.1 x.2 = none) :
    (l.absorb x.1 x.2).1.highest_covered = l.highest_covered := by
  rw [absorb_none h]

theorem covered_absorb_some {x : Arrival} {v : ReceiptView} (h : l.taken x.1 x.2 = some v) :
    (l.absorb x.1 x.2).1.highest_covered = max l.highest_covered (past v) := by
  unfold taken at h
  obtain ⟨hv, htest⟩ := Option.filter_eq_some_iff.mp h
  simp only [decide_eq_true_eq] at htest
  unfold absorb
  rw [hv]
  dsimp only
  rw [if_neg (not_not.mpr htest.1), if_neg (by omega)]
  unfold highest_covered past
  dsimp only
  split <;> omega

/-- What is absorbed does not turn on what was absorbed before. -/
theorem absorbed_absorb (l : ReceiptLedger) (x : Arrival) (xs : List Arrival) :
    (l.absorb x.1 x.2).1.absorbed xs = l.absorbed xs := by
  unfold absorbed
  simp only [taken_absorb]

/-- The ledger's bound is the greatest end of a receipt that it absorbed. -/
theorem lt_covered_iff (l : ReceiptLedger) (xs : List Arrival) (i : ℕ) :
    i < (l.absorb_all xs).highest_covered ↔
      i < l.highest_covered ∨ ∃ v ∈ l.absorbed xs, i < past v := by
  induction xs generalizing l with
  | nil => simp [absorb_all, absorbed]
  | cons x xs ih =>
    show i < ((l.absorb x.1 x.2).1.absorb_all xs).highest_covered ↔ _
    rw [ih, absorbed_absorb]
    cases h : l.taken x.1 x.2 with
    | none =>
      rw [covered_absorb_none h]
      simp [absorbed, h]
    | some v =>
      rw [covered_absorb_some h, lt_max_iff]
      simp [absorbed, h, or_assoc]

/-- Every index below the ledger's bound was in the window of a receipt that it absorbed, exactly
if each of these receipts starts at 0 or goes on from one that starts before it. -/
theorem everything_below_is_covered_iff (max_index : UInt64) (xs : List Arrival) :
    let l : ReceiptLedger := { _max_index := max_index }
    (∀ i < (l.absorb_all xs).highest_covered, ∃ v ∈ l.absorbed xs,
        v.base.toNat ≤ i ∧ i < v.base.toNat + v.nbits.toNat) ↔
      ∀ v ∈ l.absorbed xs, v.base.toNat = 0 ∨ ∃ u ∈ l.absorbed xs,
        u.base.toNat < v.base.toNat ∧ v.base.toNat ≤ u.base.toNat + u.nbits.toNat := by
  intro l
  have hgapless : Gapless first past (l.absorbed xs) ↔ Chained first past (l.absorbed xs) :=
    gapless_iff_chained fun v _ => Nat.le_add_right _ _
  refine Iff.trans ?_ hgapless
  constructor
  · intro h v hv i hi
    exact h i ((lt_covered_iff l xs i).mpr (.inr ⟨v, hv, hi⟩))
  · intro h i hi
    rcases (lt_covered_iff l xs i).mp hi with h0 | ⟨v, hv, hlt⟩
    · exact absurd h0 (Nat.not_lt_zero i)
    · exact h v hv i hlt

/-- The receipt of a window of ten that has seen index 100 alone. -/
def demoReceipt : Arrival :=
  (((ReceiptWindow.make 10).note 100).encode (Octets.zero 6) 100, Octets.zero 6)

/-- The bound is 101, and index 5 was in no receipt. -/
theorem a_first_receipt_leaves_a_hole :
    let l : ReceiptLedger := {}
    (l.absorb_all [demoReceipt]).highest_covered = 101 ∧
      ¬ ∀ i < (l.absorb_all [demoReceipt]).highest_covered, ∃ v ∈ l.absorbed [demoReceipt],
        v.base.toNat ≤ i ∧ i < v.base.toNat + v.nbits.toNat := by
  intro l
  have hbound : (l.absorb_all [demoReceipt]).highest_covered = 101 := by decide +kernel
  refine ⟨hbound, ?_⟩
  intro h
  obtain ⟨v, hv, hle, -⟩ := h 5 (by rw [hbound]; decide)
  have hbase : ∀ v ∈ l.absorbed [demoReceipt], v.base = 91 := by decide +kernel
  rw [hbase v hv] at hle
  exact absurd hle (by decide)

end ReceiptLedger

end devourer.cell
