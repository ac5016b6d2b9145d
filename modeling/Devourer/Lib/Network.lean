-- A network that keeps every message ever sent. Any of them may be delivered
-- at any later time, in any order, any number of times, or never.
import Devourer.Lib.Runs

/-- The parties of a protocol as one state. They act on inputs of their own and take messages,
and each time they may send some. -/
structure Network (σ ι δ μ : Type*) where
  act : σ → ι → σ × List μ
  take : σ → δ → μ → σ × List μ

namespace Network

/-- The parties, and the messages ever sent, oldest first. -/
structure World (σ μ : Type*) where
  parties : σ
  pool : List μ

/-- One step: an input of the parties' own, or the delivery of the `k`-th message. -/
inductive Op (ι δ : Type*)
  | act (i : ι)
  | deliver (d : δ) (k : ℕ)

variable {σ ι δ μ : Type*}

/-- The world after a reaction: nothing that was sent is ever lost. -/
def World.put (w : World σ μ) (r : σ × List μ) : World σ μ := ⟨r.1, w.pool ++ r.2⟩

@[simp] theorem World.put_parties (w : World σ μ) (r : σ × List μ) : (w.put r).parties = r.1 := rfl

@[simp] theorem World.mem_put_pool (w : World σ μ) (r : σ × List μ) (m : μ) :
    m ∈ (w.put r).pool ↔ m ∈ w.pool ∨ m ∈ r.2 := List.mem_append

variable (N : Network σ ι δ μ)

def step (w : World σ μ) : Op ι δ → World σ μ
  | .act i => w.put (N.act w.parties i)
  | .deliver d k =>
    match w.pool[k]? with
    | some m => w.put (N.take w.parties d m)
    | none => w

/-- The world after a list of steps. -/
def run (w : World σ μ) (ops : List (Op ι δ)) : World σ μ := Runs.after N.step w ops

/-- A step acts, delivers a message of the pool, or finds none to deliver. -/
theorem step_cases (w : World σ μ) (op : Op ι δ) :
    (∃ i, op = .act i ∧ N.step w op = w.put (N.act w.parties i)) ∨
      (∃ d k m, op = .deliver d k ∧ w.pool[k]? = some m ∧ m ∈ w.pool ∧
        N.step w op = w.put (N.take w.parties d m)) ∨
      ∃ d k, op = .deliver d k ∧ w.pool[k]? = none ∧ N.step w op = w := by
  cases op with
  | act i => exact .inl ⟨i, rfl, rfl⟩
  | deliver d k =>
    rcases hk : w.pool[k]? with _ | m
    · right; right
      refine ⟨d, k, rfl, hk, ?_⟩
      simp only [step, hk]
    · right; left
      refine ⟨d, k, m, rfl, hk, List.mem_of_getElem? hk, ?_⟩
      simp only [step, hk]

/-- A law of the start holds after every run, if acting keeps it and taking a message of the
pool keeps it. The conditions are on the steps, in the world they are taken in. -/
theorem run_keeps {P : World σ μ → Prop} {C : World σ μ → Op ι δ → Prop} (w : World σ μ) (h0 : P w)
    (hact : ∀ w i, C w (.act i) → P w → P (w.put (N.act w.parties i)))
    (htake : ∀ w d k m, C w (.deliver d k) → w.pool[k]? = some m → m ∈ w.pool → P w →
      P (w.put (N.take w.parties d m)))
    (ops : List (Op ι δ)) (hC : Runs.Along N.step C w ops) : P (N.run w ops) := by
  refine Runs.after_keeps_along N.step w h0 ?_ ops hC
  intro v op hop hv
  rcases N.step_cases v op with ⟨i, rfl, he⟩ | ⟨d, k, m, rfl, hk, hm, he⟩ | ⟨_, _, -, -, he⟩
  · rw [he]; exact hact v i hop hv
  · rw [he]; exact htake v d k m hop hk hm hv
  · rw [he]; exact hv

end Network
