-- Programs on a state that may throw, and what holds after one of them: of the
-- value that it returns, or of the state that it throws in.

namespace Triples

/-- A program on a state, which returns a value or throws. The state that it throws in stays. -/
abbrev Prog (σ ε α : Type) := ExceptT ε (StateM σ) α

variable {σ ε α β : Type}

/-- What holds of the end of a program. -/
def Ends (Q : α → σ → Prop) (E : σ → Prop) : Except ε α × σ → Prop
  | (.ok a, t) => Q a t
  | (.error _, t) => E t

/-- From a state with `P` a program returns with `Q`, or it throws with `E`. -/
def Triple (P : σ → Prop) (x : Prog σ ε α) (Q : α → σ → Prop) (E : σ → Prop) : Prop :=
  ∀ s, P s → Ends Q E (x.run.run s)

section

variable {P P' : σ → Prop} {Q Q' : α → σ → Prop} {R : β → σ → Prop} {E E' F : σ → Prop}
  {x : Prog σ ε α}

theorem Triple.pure {a : α} (h : ∀ s, P s → Q a s) : Triple P (Pure.pure a : Prog σ ε α) Q E := h

theorem Triple.bind {f : α → Prog σ ε β} (hx : Triple P x Q E)
    (hf : ∀ a, Triple (Q a) (f a) R E) : Triple P (x >>= f) R E := by
  intro s hs
  have h := hx s hs
  change Ends R E ((ExceptT.bindCont f (x.run.run s).1).run (x.run.run s).2)
  rcases hrun : x.run.run s with ⟨a | a, t⟩
  · rw [hrun] at h
    exact h
  · rw [hrun] at h
    exact hf a t h

theorem Triple.map {f : α → β} (hx : Triple P x (fun a => R (f a)) E) : Triple P (f <$> x) R E := by
  rw [map_eq_pure_bind]
  exact hx.bind fun a => Triple.pure fun s h => h

/-- What is thrown in a state with `F` is caught there. -/
theorem Triple.catch {c : ε → Prog σ ε α} (hx : Triple P x Q F)
    (hc : ∀ e, Triple F (c e) Q E) : Triple P (tryCatch x c) Q E := by
  intro s hs
  have h := hx s hs
  rcases hrun : x.run.run s with ⟨a | a, t⟩
  · rw [hrun] at h
    have hcatch : (tryCatch x c).run.run s = (c a).run.run t := by
      have hthrow : StateT.run x s = (.error a, t) := hrun
      simp [tryCatch, tryCatchThe, MonadExceptOf.tryCatch, ExceptT.tryCatch, hthrow]
      rfl
    rw [hcatch]
    exact hc a t h
  · rw [hrun] at h
    have hret : (tryCatch x c).run.run s = (.ok a, t) := by
      have hok : StateT.run x s = (.ok a, t) := hrun
      simp [tryCatch, tryCatchThe, MonadExceptOf.tryCatch, ExceptT.tryCatch, hok]
      rfl
    rw [hret]
    exact h

theorem Triple.conseq (hx : Triple P x Q E) (hP : ∀ s, P' s → P s) (hQ : ∀ a s, Q a s → Q' a s)
    (hE : ∀ s, E s → E' s) : Triple P' x Q' E' := by
  intro s hs
  have h := hx s (hP s hs)
  rcases hrun : x.run.run s with ⟨a | a, t⟩
  · rw [hrun] at h
    exact hE t h
  · rw [hrun] at h
    exact hQ a t h

/-- The second test is made where the first one holds. -/
theorem Triple.andM {y z : Prog σ ε Bool} {T : σ → Prop} {B : Bool → σ → Prop}
    (hy : Triple P y (fun b s => if b then T s else B false s) E) (hz : Triple T z B E) :
    Triple P (y <&&> z) B E := by
  refine hy.bind fun b => ?_
  cases b with
  | false => exact Triple.pure fun s h => h
  | true => exact hz

end

end Triples
