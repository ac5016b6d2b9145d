-- What the gate remembers is the history of the confirms and the rollbacks,
-- and a proposal is spaced from them as the policy has it.
import Mathlib.Algebra.Order.Group.Int
import Mathlib.Tactic.Linarith
import Devourer.Chanmig.MigGate

namespace devourer.chanmig

/-- A migration that was resolved. -/
inductive Event
  | confirmed (at_ms : ℤ)
  | rolledback (key : UInt32) (at_ms : ℤ)

namespace Event

def time : Event → ℤ
  | confirmed t => t
  | rolledback _ t => t

def confirmTime : Event → Option ℤ
  | confirmed t => some t
  | rolledback _ _ => none

end Event

/-- The times of the confirms, the newest first, as the histories below. -/
def confirms (h : List Event) : List ℤ := h.filterMap Event.confirmTime

/-- The rollbacks since the last confirm. -/
def streak : List Event → ℕ
  | .rolledback _ _ :: h => streak h + 1
  | _ => 0

/-- The most recent rollback of a channel: its time, and its number since the confirm before it. -/
def lastRollback (key : UInt32) : List Event → Option (ℤ × ℕ)
  | [] => none
  | .confirmed _ :: h => lastRollback key h
  | .rolledback k t :: h => if k = key then some (t, streak h + 1) else lastRollback key h

section

variable {F : Type}

/-- The hold-down of the `k`th rollback. -/
def holddownOf (pol : GatePolicy F) (k : ℕ) : ℤ :=
  min pol.holddown_cap_ms (pol.holddown_base_ms * 2 ^ (k - 1))

/-- Times that are not negative, and a cap that leaves room to double. -/
structure GatePolicy.Sane (pol : GatePolicy F) : Prop where
  cooldown : 0 ≤ pol.cooldown_ms
  residency : 0 ≤ pol.residency_ms
  base : 0 ≤ pol.holddown_base_ms
  cap : 0 ≤ pol.holddown_cap_ms
  cap_le : pol.holddown_cap_ms ≤ 2 ^ 61

/-! ## The doubling loop -/

theorem doubled_eq {cap : ℤ} (hcap : cap ≤ 2 ^ 61) (n : ℕ) {b : ℤ} (hb : 0 ≤ b) :
    ∃ r, MigGate.doubled cap n b = some r ∧ min cap r = min cap (b * 2 ^ n) := by
  induction n generalizing b with
  | zero => exact ⟨b, rfl, by simp⟩
  | succ n ih =>
    unfold MigGate.doubled
    by_cases hlt : b < cap
    · have hroom : i64 (b * 2) = some (b * 2) := by
        unfold i64 INT64_MIN
        rw [if_pos (by omega)]
      obtain ⟨r, hr, hmin⟩ := ih (b := b * 2) (by omega)
      refine ⟨r, ?_, ?_⟩
      · rw [if_pos hlt, hroom]
        exact hr
      · rw [hmin, pow_succ, mul_assoc, mul_comm 2]
    · refine ⟨b, if_neg hlt, ?_⟩
      have hone : (1 : ℤ) ≤ 2 ^ (n + 1) := one_le_pow₀ (by decide)
      have hle : b * 1 ≤ b * 2 ^ (n + 1) := mul_le_mul_of_nonneg_left hone hb
      rw [min_eq_left (by omega), min_eq_left (by omega)]

/-- The loop does not overflow, however long the streak is. -/
theorem backoff_eq {pol : GatePolicy F} (h : pol.Sane) (k : ℕ) :
    MigGate.backoff pol k = some (holddownOf pol k) := by
  obtain ⟨r, hr, hmin⟩ := doubled_eq h.cap_le (k - 1) h.base
  have hturns : ((k : ℤ) - 1).toNat = k - 1 := by omega
  unfold MigGate.backoff holddownOf
  rw [hturns, hr]
  show some (if r > pol.holddown_cap_ms then pol.holddown_cap_ms else r) = _
  rw [← hmin]
  split
  · rw [min_eq_left (by omega)]
  · rw [min_eq_right (by omega)]

theorem holddownOf_nonneg {pol : GatePolicy F} (h : pol.Sane) (k : ℕ) : 0 ≤ holddownOf pol k := by
  have hpow : (0 : ℤ) ≤ pol.holddown_base_ms * 2 ^ (k - 1) := mul_nonneg h.base (by positivity)
  exact le_min h.cap hpow

/-! ## The history -/

theorem find_set_holddown_in (key k : UInt32) (until_ms : ℤ) (hs : List (UInt32 × ℤ)) :
    (GateState.set_holddown_in key until_ms hs).find? (·.1 == k) =
      if k = key then some (key, until_ms) else hs.find? (·.1 == k) := by
  induction hs with
  | nil =>
    by_cases hk : k = key
    · simp [GateState.set_holddown_in, hk]
    · have hk' : ¬ key = k := fun h => hk h.symm
      simp [GateState.set_holddown_in, hk, hk']
  | cons h hs ih =>
    unfold GateState.set_holddown_in
    by_cases hkey : h.1 = key
    · rw [if_pos (by simpa using hkey)]
      by_cases hk : k = key
      · simp [hk]
      · have hk' : ¬ key = k := fun h => hk h.symm
        simp [hk, hk', hkey]
    · rw [if_neg (by simpa using hkey), List.find?_cons, ih]
      by_cases hk : k = key
      · subst hk
        have hother : (h.1 == k) = false := by simpa using hkey
        simp [hother]
      · rw [if_neg hk, if_neg hk, List.find?_cons]

theorem lastRollback_mem {key : UInt32} {h : List Event} {r : ℤ} {k : ℕ}
    (hl : lastRollback key h = some (r, k)) : .rolledback key r ∈ h := by
  induction h with
  | nil => cases hl
  | cons e h ih =>
    cases e with
    | confirmed t => exact List.mem_cons_of_mem _ (ih hl)
    | rolledback key' t =>
      unfold lastRollback at hl
      split at hl
      · rename_i hkey
        obtain ⟨rfl, -⟩ := Prod.mk.inj (Option.some.inj hl)
        rw [hkey]
        exact List.mem_cons_self
      · exact List.mem_cons_of_mem _ (ih hl)

/-- The state of the gate says what the history says. -/
structure Records (pol : GatePolicy F) (st : GateState F) (h : List Event) : Prop where
  move : st.last_move_ms = (h.head?.map Event.time).getD INT64_MIN
  residency : st.residency_start_ms = (confirms h).head?.getD INT64_MIN
  moves : st.moves_session = (confirms h).length
  streak : st.rollback_streak = streak h
  holddown : ∀ key, st.holddown_for key =
    ((lastRollback key h).map fun r => r.1 + holddownOf pol r.2).getD INT64_MIN

theorem records_confirmed {pol : GatePolicy F} {st st' : GateState F} {h : List Event} {now_ms : ℤ}
    (hr : Records pol st h) (hc : mig_gate_on_confirmed st now_ms = some st') :
    Records pol st' (.confirmed now_ms :: h) := by
  obtain ⟨moves, hmoves, hst⟩ := Option.bind_eq_some_iff.mp hc
  have hmoves' := eq_of_i32 hmoves
  obtain rfl := Option.some.inj hst
  refine ⟨rfl, rfl, ?_, rfl, hr.holddown⟩
  show moves = ((confirms h).length + 1 : ℕ)
  rw [hmoves', hr.moves, Nat.cast_add, Nat.cast_one]

theorem records_rolledback {pol : GatePolicy F} (hpol : pol.Sane) {st st' : GateState F}
    {h : List Event} {target : ChannelDef} {now_ms : ℤ} (hr : Records pol st h)
    (hc : mig_gate_on_rolledback st target pol now_ms = some st') :
    Records pol st' (.rolledback target.key now_ms :: h) := by
  obtain ⟨k, hk, hc⟩ := Option.bind_eq_some_iff.mp hc
  have hk' : k = ((chanmig.streak h + 1 : ℕ) : ℤ) := by
    rw [eq_of_i32 hk, hr.streak, Nat.cast_add, Nat.cast_one]
  rw [hk', backoff_eq hpol, Option.bind_eq_bind, Option.bind_some] at hc
  obtain ⟨until_ms, huntil, hst⟩ := Option.bind_eq_some_iff.mp hc
  have huntil' := eq_of_i64 huntil
  obtain rfl := Option.some.inj hst
  refine ⟨rfl, hr.residency, hr.moves, rfl, ?_⟩
  intro key
  have hold := hr.holddown key
  unfold GateState.holddown_for at hold ⊢
  rw [GateState.set_holddown, find_set_holddown_in, lastRollback]
  by_cases hkey : target.key = key
  · rw [if_pos hkey.symm, if_pos hkey]
    exact huntil'
  · rw [if_neg fun h => hkey h.symm, if_neg hkey]
    exact hold

/-! ## Decisions -/

theorem probation_verdict (inp : GateInputs F) : (MigGate.probation inp).verdict ≠ .Propose := by
  unfold MigGate.probation
  split
  · nofun
  · nofun

theorem within_false {now_ms start limit : ℤ} (h : MigGate.within now_ms start limit = some false) :
    start = INT64_MIN ∨ start ≤ now_ms - limit := by
  unfold MigGate.within at h
  split at h
  · obtain ⟨d, hd, hlt⟩ := Option.map_eq_some_iff.mp h
    rw [eq_of_i64 hd] at hlt
    simp only [decide_eq_false_iff_not] at hlt
    exact Or.inr (by omega)
  · rename_i hstart
    exact Or.inl (not_not.mp hstart)

/-- The gates against oscillation, passed. -/
theorem oscillation_passed {pol : GatePolicy F} {st : GateState F} {now_ms : ℤ} {key : UInt32}
    (h : MigGate.oscillation st pol key now_ms = some none) :
    (st.last_move_ms = INT64_MIN ∨ st.last_move_ms ≤ now_ms - pol.cooldown_ms) ∧
    (st.residency_start_ms = INT64_MIN ∨ st.residency_start_ms ≤ now_ms - pol.residency_ms) ∧
    st.moves_session < pol.move_cap ∧
    (st.holddown_for key = INT64_MIN ∨ st.holddown_for key ≤ now_ms) := by
  obtain ⟨cooling, hcool, h⟩ := Option.bind_eq_some_iff.mp h
  cases cooling with
  | true => cases h
  | false =>
    obtain ⟨settling, hsettle, h⟩ := Option.bind_eq_some_iff.mp h
    cases settling with
    | true => cases h
    | false =>
      rw [if_neg Bool.false_ne_true] at h
      split at h
      · cases h
      · rename_i hmoves
        dsimp only at h
        split at h
        · cases h
        · rename_i hhold
          refine ⟨within_false hcool, within_false hsettle, by omega, ?_⟩
          by_cases hmin : st.holddown_for key = INT64_MIN
          · exact Or.inl hmin
          · exact Or.inr (Int.not_lt.mp fun hlt => hhold ⟨hmin, hlt⟩)

theorem overrides_passed {inp : GateInputs F} {now_ms : ℤ}
    (h : MigGate.overrides inp now_ms = none) :
    inp.mode ≠ .Off ∧ inp.pinned = none ∧
      (inp.inhibit_until_ms = INT64_MIN ∨ inp.inhibit_until_ms ≤ now_ms) := by
  unfold MigGate.overrides at h
  split at h
  · cases h
  · rename_i hoff
    split at h
    · cases h
    · rename_i hpin
      split at h
      · cases h
      · rename_i hinhibit
        refine ⟨hoff, by simpa using hpin, ?_⟩
        by_cases hmin : inp.inhibit_until_ms = INT64_MIN
        · exact Or.inl hmin
        · exact Or.inr (Int.not_lt.mp fun hlt => hinhibit ⟨hmin, hlt⟩)

variable [LT F] [DecidableLT F]

/-- Every gate was passed. -/
structure Passed (inp : GateInputs F) (st : GateState F) (pol : GatePolicy F) (now_ms : ℤ)
    (rec_ : Decision F) : Prop where
  overrides : MigGate.overrides inp now_ms = none
  probation : inp.probation_active = false
  in_flight : inp.in_flight = false
  mode : inp.mode ≠ .Advisory
  oscillation : MigGate.oscillation st pol rec_.target.key now_ms = some none
  completes : MigGate.completes inp pol = none

theorem mode_passed {inp : GateInputs F} {st : GateState F} {pol : GatePolicy F} {now_ms : ℤ}
    {rec_ : Decision F} (hp : Passed inp st pol now_ms rec_) :
    inp.mode = .Automatic ∨ inp.mode = .Manual ∧ inp.approve_next = true := by
  obtain ⟨hoff, -, -⟩ := overrides_passed hp.overrides
  have hcomp := hp.completes
  unfold MigGate.completes at hcomp
  split at hcomp
  · cases hcomp
  · split at hcomp
    · cases hcomp
    · split at hcomp
      · cases hcomp
      · rename_i happrove
        cases hmode : inp.mode with
        | Off => exact absurd hmode hoff
        | Advisory => exact absurd hmode hp.mode
        | Manual => exact Or.inr ⟨rfl, by simpa [hmode] using happrove⟩
        | Automatic => exact Or.inl rfl

variable [Zero F] [Sub F] [Mul F] [OfScientific F]

variable {inp : GateInputs F} {pol : GatePolicy F} {st st' : GateState F} {h : List Event}
  {now_ms : ℤ} {o : GateOutcome}

theorem in_flight_verdict (inp : GateInputs F) (st : GateState F) (pol : GatePolicy F) :
    (MigGate.in_flight inp st pol).verdict ≠ .Propose := by
  unfold MigGate.in_flight
  split
  · nofun
  · split
    · dsimp only
      split
      · nofun
      · nofun
    · nofun

/-- A call of the gate proposes after every gate is passed, and else leaves the state. -/
theorem decide_cases (hd : mig_gate_decide inp st pol now_ms = some (o, st')) :
    (o.verdict ≠ .Propose ∧ st' = st) ∨
      ∃ rec_, Passed inp st pol now_ms rec_ ∧ (o, st') = MigGate.propose st rec_ := by
  -- what a gate that holds gives
  have holds : ∀ {o₁ : GateOutcome}, some (o₁, st) = some (o, st') → o₁.verdict ≠ .Propose →
      o.verdict ≠ .Propose ∧ st' = st := by
    intro o₁ heq hne
    obtain ⟨rfl, rfl⟩ := Prod.mk.inj (Option.some.inj heq)
    exact ⟨hne, rfl⟩
  unfold mig_gate_decide at hd
  split at hd
  · exact Or.inl (holds hd nofun)
  · rename_i hover
    split at hd
    · exact Or.inl (holds hd (probation_verdict inp))
    · rename_i hprob
      split at hd
      · exact Or.inl (holds hd (in_flight_verdict inp st pol))
      · rename_i hflight
        split at hd
        · exact Or.inl (holds hd nofun)
        · rename_i hmode
          split at hd
          · exact Or.inl (holds hd nofun)
          · split at hd
            · exact Or.inl (holds hd nofun)
            · rename_i rec_ _
              split at hd
              · cases hd
              · exact Or.inl (holds hd nofun)
              · rename_i hosc
                split at hd
                · exact Or.inl (holds hd nofun)
                · rename_i hcomp
                  refine Or.inr
                    ⟨rec_, ⟨hover, ?_, ?_, hmode, hosc, hcomp⟩, (Option.some.inj hd).symm⟩
                  · simpa using hprob
                  · simpa using hflight

/-- A decision changes nothing of the history. -/
theorem records_decide (hr : Records pol st h)
    (hd : mig_gate_decide inp st pol now_ms = some (o, st')) : Records pol st' h := by
  rcases decide_cases hd with ⟨-, rfl⟩ | ⟨rec_, -, heq⟩
  · exact hr
  · obtain rfl : st' = (MigGate.propose st rec_).2 := congrArg Prod.snd heq
    exact ⟨hr.move, hr.residency, hr.moves, hr.streak, hr.holddown⟩

/-! ## Sessions -/

variable (F) in
inductive Call
  | decide (inp : GateInputs F) (now_ms : ℤ)
  | confirmed (now_ms : ℤ)
  | rolledback (target : ChannelDef) (now_ms : ℤ)

/-- The times of the calls that are remembered are after the value that stands for "never". -/
def Call.Dated : Call F → Prop
  | .decide _ _ => True
  | .confirmed now_ms => INT64_MIN < now_ms
  | .rolledback _ now_ms => INT64_MIN < now_ms

/-- One call, and what it adds to the history. There is no state after an overflow. -/
def Call.step (pol : GatePolicy F) (s : GateState F × List Event) :
    Call F → Option (GateState F × List Event)
  | .decide inp now_ms => (mig_gate_decide inp s.1 pol now_ms).map fun r => (r.2, s.2)
  | .confirmed now_ms =>
    (mig_gate_on_confirmed s.1 now_ms).map fun st => (st, .confirmed now_ms :: s.2)
  | .rolledback target now_ms =>
    (mig_gate_on_rolledback s.1 target pol now_ms).map fun st =>
      (st, .rolledback target.key now_ms :: s.2)

/-- A session from the fresh state. -/
def session (pol : GatePolicy F) (calls : List (Call F)) : Option (GateState F × List Event) :=
  Runs.after (fun s call => s.bind fun s => call.step pol s) (some ({ frozen_score := 0 }, []))
    calls

/-- What the fresh state has and each call keeps holds after every session of such calls. -/
theorem session_keeps {P : GateState F × List Event → Prop} {Q : Call F → Prop}
    (h0 : P ({ frozen_score := 0 }, []))
    (hstep : ∀ s c s', P s → Q c → Call.step pol s c = some s' → P s') {calls : List (Call F)}
    (hcalls : ∀ c ∈ calls, Q c) {s : GateState F × List Event} (hs : session pol calls = some s) :
    P s := by
  induction calls using List.reverseRecOn generalizing s with
  | nil =>
    obtain rfl := Option.some.inj hs
    exact h0
  | append_singleton calls call ih =>
    unfold session at hs
    rw [Runs.after_snoc] at hs
    obtain ⟨s₀, hs₀, hcall⟩ := Option.bind_eq_some_iff.mp hs
    exact hstep s₀ call s (ih (fun c hc => hcalls c (by simp [hc])) hs₀) (hcalls call (by simp))
      hcall

theorem records_session (hpol : pol.Sane) {calls : List (Call F)}
    (hdated : ∀ c ∈ calls, c.Dated) {s : GateState F × List Event}
    (hs : session pol calls = some s) :
    Records pol s.1 s.2 ∧ ∀ e ∈ s.2, INT64_MIN < e.time := by
  refine session_keeps (P := fun s => Records pol s.1 s.2 ∧ ∀ e ∈ s.2, INT64_MIN < e.time) ?_ ?_
    hdated hs
  · refine ⟨⟨rfl, rfl, rfl, rfl, fun _ => rfl⟩, ?_⟩
    intro e he
    cases he
  · intro s₀ call s ⟨hrec, htimes⟩ hdate hcall
    cases call with
    | decide inp now_ms =>
      obtain ⟨⟨o, st⟩, hd, rfl⟩ := Option.map_eq_some_iff.mp hcall
      exact ⟨records_decide hrec hd, htimes⟩
    | confirmed now_ms =>
      obtain ⟨st, hc, rfl⟩ := Option.map_eq_some_iff.mp hcall
      exact ⟨records_confirmed hrec hc, List.forall_mem_cons.mpr ⟨hdate, htimes⟩⟩
    | rolledback target now_ms =>
      obtain ⟨st, hc, rfl⟩ := Option.map_eq_some_iff.mp hcall
      exact ⟨records_rolledback hpol hrec hc, List.forall_mem_cons.mpr ⟨hdate, htimes⟩⟩

/-- What the policy asks of a proposal at a time, after a history. -/
structure Spaced (pol : GatePolicy F) (inp : GateInputs F) (h : List Event) (target : ChannelDef)
    (now_ms : ℤ) : Prop where
  mode : inp.mode = .Automatic ∨ inp.mode = .Manual ∧ inp.approve_next = true
  pinned : inp.pinned = none
  inhibited : inp.inhibit_until_ms = INT64_MIN ∨ inp.inhibit_until_ms ≤ now_ms
  probation : inp.probation_active = false
  in_flight : inp.in_flight = false
  cooldown : ∀ e ∈ h.head?, e.time ≤ now_ms - pol.cooldown_ms
  residency : ∀ t ∈ (confirms h).head?, t ≤ now_ms - pol.residency_ms
  move_cap : (confirms h).length < pol.move_cap
  holddown : ∀ r k, lastRollback target.key h = some (r, k) → r + holddownOf pol k ≤ now_ms

/-- In every session whose arithmetic does not overflow, a proposal is spaced from the moves before
it as the policy has it; and the doubling loop does not overflow, whatever the streak is. -/
theorem proposals_are_spaced (pol : GatePolicy F) (hpol : pol.Sane) (calls : List (Call F))
    (hdated : ∀ c ∈ calls, c.Dated) (s : GateState F × List Event)
    (hs : session pol calls = some s) (inp : GateInputs F) (now_ms : ℤ) (o : GateOutcome)
    (st : GateState F) (hd : mig_gate_decide inp s.1 pol now_ms = some (o, st)) :
    (o.verdict = .Propose → Spaced pol inp s.2 o.target now_ms) ∧
      ∀ k : ℕ, MigGate.backoff pol k = some (holddownOf pol k) := by
  refine ⟨?_, backoff_eq hpol⟩
  intro hpropose
  obtain ⟨hrec, htimes⟩ := records_session hpol hdated hs
  rcases decide_cases hd with ⟨hne, -⟩ | ⟨rec_, hp, heq⟩
  · exact absurd hpropose hne
  · obtain rfl : o = (MigGate.propose s.1 rec_).1 := congrArg Prod.fst heq
    obtain ⟨-, hpin, hinhibit⟩ := overrides_passed hp.overrides
    obtain ⟨hcool, hsettle, hmoves, hhold⟩ := oscillation_passed hp.oscillation
    refine ⟨mode_passed hp, hpin, hinhibit, hp.probation, hp.in_flight, ?_, ?_, ?_, ?_⟩
    · intro e he
      have hmove : s.1.last_move_ms = e.time := by
        rw [hrec.move, Option.mem_def.mp he]
        rfl
      have hdate := htimes e (List.mem_of_head? he)
      rcases hcool with hmin | hle
      · exact absurd (hmove.symm.trans hmin) (ne_of_gt hdate)
      · rwa [hmove] at hle
    · intro t ht
      have hres : s.1.residency_start_ms = t := by
        rw [hrec.residency, Option.mem_def.mp ht]
        rfl
      obtain ⟨e, he, hte⟩ := List.mem_filterMap.mp (List.mem_of_head? ht)
      have hdate : INT64_MIN < t := by
        cases e with
        | confirmed t' =>
          obtain rfl : t' = t := Option.some.inj hte
          exact htimes _ he
        | rolledback _ _ => cases hte
      rcases hsettle with hmin | hle
      · exact absurd (hres.symm.trans hmin) (ne_of_gt hdate)
      · rwa [hres] at hle
    · rw [← hrec.moves]
      exact hmoves
    · intro r k hlast
      have hlast' : lastRollback rec_.target.key s.2 = some (r, k) := hlast
      have hdown : s.1.holddown_for rec_.target.key = r + holddownOf pol k := by
        rw [hrec.holddown, hlast']
        rfl
      have hdate := htimes _ (lastRollback_mem hlast)
      have hnonneg := holddownOf_nonneg hpol k
      rcases hhold with hmin | hle
      · have hsum : r + holddownOf pol k = INT64_MIN := hdown.symm.trans hmin
        have hr : INT64_MIN < r := hdate
        omega
      · rwa [hdown] at hle

end

/-! ## A session -/

def demoPolicy : GatePolicy ℚ where
  confidence_min := 9 / 10
  control_margin_min := 3 / 10
  material_change_frac := 1 / 2

def demoTarget : ChannelDef := { band := 5, primary := 40 }

/-- Channel 40 is recommended. -/
def demoAdvice : Decision ℚ where
  recommend := true
  target := demoTarget
  ranking := [{ def_ := demoTarget, score := 1, confidence := 1 }]

def demoInputs : GateInputs ℚ where
  mode := .Automatic
  rec_ := some demoAdvice
  control_link_margin := 1

theorem demoPolicy_sane : demoPolicy.Sane where
  cooldown := by decide
  residency := by decide
  base := by decide
  cap := by decide
  cap_le := by decide

/-- Two rollbacks of channel 40. -/
def demoCalls : List (Call ℚ) := [.rolledback demoTarget 0, .rolledback demoTarget 1000]

/-- The state after them. -/
def demoState : GateState ℚ where
  last_move_ms := 1000
  rollback_streak := 2
  holddowns := [(demoTarget.key, 121000)]
  frozen_score := 0

theorem demoCalls_session : session demoPolicy demoCalls =
    some (demoState, [.rolledback demoTarget.key 1000, .rolledback demoTarget.key 0]) := by
  rfl

/-- The second rollback holds the channel down for two minutes, and the cooldown is over after
five. -/
theorem a_proposal_waits_for_the_cooldown :
    (mig_gate_decide demoInputs demoState demoPolicy 300999).map (·.1.reason) = some .Cooldown ∧
      ∃ o st, mig_gate_decide demoInputs demoState demoPolicy 301000 = some (o, st) ∧
        o.verdict = .Propose ∧ Spaced demoPolicy demoInputs
          [.rolledback demoTarget.key 1000, .rolledback demoTarget.key 0] o.target 301000 := by
  have hdated : ∀ c ∈ demoCalls, c.Dated := by
    intro c hc
    simp only [demoCalls, List.mem_cons, List.not_mem_nil, or_false] at hc
    rcases hc with rfl | rfl
    · show INT64_MIN < 0
      decide
    · show INT64_MIN < 1000
      decide
  have hpropose : (mig_gate_decide demoInputs demoState demoPolicy 301000).map (·.1.verdict) =
      some .Propose := by decide +kernel
  obtain ⟨⟨o, st⟩, hd, hverdict⟩ := Option.map_eq_some_iff.mp hpropose
  refine ⟨by decide +kernel, o, st, hd, hverdict, ?_⟩
  exact (proposals_are_spaced demoPolicy demoPolicy_sane demoCalls hdated _ demoCalls_session
    demoInputs 301000 o st hd).1 hverdict

/-- A confirm at the time that stands for "never" is not remembered, and the gate proposes again at
once. -/
theorem a_confirm_at_the_sentinel_is_forgotten :
    (session demoPolicy [.confirmed INT64_MIN]).bind (fun s =>
        (mig_gate_decide demoInputs s.1 demoPolicy INT64_MIN).map (·.1.verdict)) = some .Propose ∧
      demoPolicy.Sane ∧ ¬ INT64_MIN ≤ INT64_MIN - demoPolicy.cooldown_ms := by
  exact ⟨by decide +kernel, demoPolicy_sane, by decide⟩

end devourer.chanmig
