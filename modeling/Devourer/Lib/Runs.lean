-- Runs of a machine that takes one input at a time. A law of every run
-- is a law of the start that each step keeps.
import Mathlib.Data.List.Induction

namespace Runs

variable {σ ι : Type*} (step : σ → ι → σ)

/-- The state after a list of inputs, first input first. -/
def after (s : σ) (is : List ι) : σ := is.foldl step s

@[simp] theorem after_nil (s : σ) : after step s [] = s := rfl

@[simp] theorem after_cons (s : σ) (i : ι) (is : List ι) :
    after step s (i :: is) = after step (step s i) is := rfl

theorem after_append (s : σ) (is js : List ι) :
    after step s (is ++ js) = after step (after step s is) js := List.foldl_append

@[simp] theorem after_snoc (s : σ) (is : List ι) (i : ι) :
    after step s (is ++ [i]) = step (after step s is) i := by
  rw [after_append]; rfl

/-- What the start has and each step keeps holds after every run. -/
theorem after_keeps {P : σ → Prop} (s : σ) (h0 : P s) (hstep : ∀ s i, P s → P (step s i))
    (is : List ι) : P (after step s is) := by
  induction is using List.reverseRecOn with
  | nil => exact h0
  | append_singleton is i ih => rw [after_snoc]; exact hstep _ i ih

/-- What the steps of a run give out, one after another. -/
def emitted {ο : Type*} (out : σ → ι → List ο) : σ → List ι → List ο
  | _, [] => []
  | s, i :: is => out s i ++ emitted out (step s i) is

theorem emitted_snoc {ο : Type*} (out : σ → ι → List ο) (s : σ) (is : List ι) (i : ι) :
    emitted step out s (is ++ [i]) = emitted step out s is ++ out (after step s is) i := by
  induction is generalizing s with
  | nil => exact List.append_nil _
  | cons j is ih =>
    rw [List.cons_append, emitted, emitted, ih, List.append_assoc, after_cons]

/-- Each step of a run meets a condition in the state it is taken in. -/
def Along (C : σ → ι → Prop) : σ → List ι → Prop
  | _, [] => True
  | s, i :: is => C s i ∧ Along C (step s i) is

instance decidableAlong {C : σ → ι → Prop} [∀ s i, Decidable (C s i)] :
    (s : σ) → (is : List ι) → Decidable (Along step C s is)
  | _, [] => isTrue trivial
  | s, i :: is => @instDecidableAnd _ _ _ (decidableAlong (step s i) is)

theorem along_of_forall {C : σ → ι → Prop} {is : List ι} (h : ∀ s, ∀ i ∈ is, C s i) (s : σ) :
    Along step C s is := by
  induction is generalizing s with
  | nil => trivial
  | cons i is ih =>
    refine ⟨h s i (by simp), ih ?_ _⟩
    intro t j hj
    exact h t j (by simp [hj])

theorem along_append {C : σ → ι → Prop} {s : σ} {is js : List ι} :
    Along step C s (is ++ js) ↔ Along step C s is ∧ Along step C (after step s is) js := by
  induction is generalizing s with
  | nil => exact (and_iff_right trivial).symm
  | cons i is ih =>
    simp only [List.cons_append, Along, ih, after_cons]
    exact and_assoc.symm

theorem Along.take {C : σ → ι → Prop} {s : σ} {is : List ι} (h : Along step C s is) (n : ℕ) :
    Along step C s (is.take n) := by
  induction is generalizing s n with
  | nil => rw [List.take_nil]; trivial
  | cons i is ih =>
    cases n with
    | zero => trivial
    | succ n => exact ⟨h.1, ih h.2 n⟩

/-- A condition that each reached state shows of the step before it holds along the run. -/
theorem along_of_reached {P Q : σ → Prop} {C : σ → ι → Prop} (s : σ) (h0 : P s)
    (hstep : ∀ s i, P s → P (step s i)) (hC : ∀ s i, P s → Q (step s i) → C s i) (is : List ι)
    (hQ : ∀ n, Q (after step s (is.take n))) : Along step C s is := by
  induction is generalizing s with
  | nil => trivial
  | cons i is ih =>
    refine ⟨hC s i h0 (hQ 1), ih (step s i) (hstep s i h0) ?_⟩
    intro n
    exact hQ (n + 1)

/-- What the start has and each step that meets the condition keeps holds after such a run. -/
theorem after_keeps_along {P : σ → Prop} {C : σ → ι → Prop} (s : σ) (h0 : P s)
    (hstep : ∀ s i, C s i → P s → P (step s i)) (is : List ι) (hC : Along step C s is) :
    P (after step s is) := by
  induction is generalizing s with
  | nil => exact h0
  | cons i is ih => exact ih (step s i) (hstep s i hC.1 h0) hC.2

theorem Along.mono {C D : σ → ι → Prop} {s : σ} {is : List ι} (h : Along step C s is)
    (hCD : ∀ s i, C s i → D s i) : Along step D s is := by
  induction is generalizing s with
  | nil => trivial
  | cons i is ih => exact ⟨hCD s i h.1, ih h.2⟩

/-- A law of each step, from the condition of the steps and what it keeps. -/
theorem along_imp {P : σ → Prop} {C D : σ → ι → Prop} (s : σ) (h0 : P s)
    (hstep : ∀ s i, P s → C s i → P (step s i)) (hD : ∀ s i, P s → C s i → D s i) (is : List ι)
    (hC : Along step C s is) : Along step D s is := by
  induction is generalizing s with
  | nil => trivial
  | cons i is ih => exact ⟨hD s i h0 hC.1, ih _ (hstep s i h0 hC.1) hC.2⟩

/-- Two conditions that are the same in every state that the first of them leads to. -/
theorem along_congr {P : σ → Prop} {C D : σ → ι → Prop} (s : σ) (h0 : P s)
    (hCD : ∀ s i, P s → (C s i ↔ D s i)) (hstep : ∀ s i, P s → C s i → P (step s i))
    (is : List ι) : Along step C s is ↔ Along step D s is := by
  induction is generalizing s with
  | nil => exact Iff.rfl
  | cons i is ih =>
    constructor
    · intro h
      exact ⟨(hCD s i h0).mp h.1, (ih _ (hstep s i h0 h.1)).mp h.2⟩
    · intro h
      have hc := (hCD s i h0).mpr h.1
      exact ⟨hc, (ih _ (hstep s i h0 hc)).mpr h.2⟩

/-- The steps of a run meet a condition exactly if its states have a property, when an invariant
makes the condition of a step the same as the property of the state after it. -/
theorem along_iff_reached {P Q : σ → Prop} {C : σ → ι → Prop} (s : σ) (h0 : P s)
    (hQ : ∀ s, P s → Q s) (hstep : ∀ s i, P s → C s i → P (step s i))
    (hC : ∀ s i, P s → Q (step s i) → C s i) (is : List ι) :
    Along step C s is ↔ ∀ n, Q (after step s (is.take n)) := by
  constructor
  · intro h n
    exact hQ _ (after_keeps_along step s h0 (fun s i hc hp => hstep s i hp hc) _ (h.take step n))
  · intro h
    induction is generalizing s with
    | nil => trivial
    | cons i is ih =>
      have hc : C s i := hC s i h0 (h 1)
      exact ⟨hc, ih (step s i) (hstep s i h0 hc) fun n => h (n + 1)⟩

end Runs
