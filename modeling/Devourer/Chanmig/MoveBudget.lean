-- The move budget of a session: it is spent by the confirmed migrations
-- alone, so a channel that keeps rolling back is not bounded by it.
import Devourer.Chanmig.GateHistory

namespace devourer.chanmig

section

variable {F : Type} [Zero F] [Sub F] [Mul F] [OfScientific F] [LT F] [DecidableLT F]

variable {pol : GatePolicy F}

/-- The moves that are counted are the confirmed ones. -/
theorem moves_session_eq {calls : List (Call F)} {s : GateState F × List Event}
    (hs : session pol calls = some s) : s.1.moves_session = (confirms s.2).length := by
  apply session_keeps (P := fun s => s.1.moves_session = (confirms s.2).length)
    (Q := fun _ => True) rfl _ (fun _ _ => trivial) hs
  intro s c s' hmoves _ hcall
  cases c with
  | decide inp now_ms =>
    obtain ⟨⟨o, st⟩, hd, rfl⟩ := Option.map_eq_some_iff.mp hcall
    rcases decide_cases hd with ⟨-, rfl⟩ | ⟨rec_, -, heq⟩
    · exact hmoves
    · obtain rfl : st = (MigGate.propose s.1 rec_).2 := congrArg Prod.snd heq
      exact hmoves
  | confirmed now_ms =>
    obtain ⟨st, hc, rfl⟩ := Option.map_eq_some_iff.mp hcall
    obtain ⟨moves, hcount, hst⟩ := Option.bind_eq_some_iff.mp hc
    obtain rfl := Option.some.inj hst
    show moves = ((confirms s.2).length + 1 : ℕ)
    rw [eq_of_i32 hcount, hmoves, Nat.cast_add, Nat.cast_one]
  | rolledback target now_ms =>
    obtain ⟨st, hc, rfl⟩ := Option.map_eq_some_iff.mp hcall
    obtain ⟨k, -, hc⟩ := Option.bind_eq_some_iff.mp hc
    obtain ⟨backoff, -, hc⟩ := Option.bind_eq_some_iff.mp hc
    obtain ⟨until_ms, -, hst⟩ := Option.bind_eq_some_iff.mp hc
    obtain rfl := Option.some.inj hst
    exact hmoves

/-! ## A call that passes every other gate -/

/-- A policy whose times leave room before the end of the clock. -/
structure GatePolicy.Roomy (pol : GatePolicy F) : Prop where
  sane : pol.Sane
  cooldown_le : pol.cooldown_ms ≤ 2 ^ 61
  residency_le : pol.residency_ms ≤ 2 ^ 61

/-- A confirm or a rollback at a time of an ordinary clock. -/
def Call.Timely : Call F → Prop
  | .decide _ _ => True
  | .confirmed now_ms => 0 ≤ now_ms ∧ now_ms ≤ 2 ^ 61
  | .rolledback _ now_ms => 0 ≤ now_ms ∧ now_ms ≤ 2 ^ 61

/-- A recommendation at the least confidence that the policy takes, in automatic mode. -/
def clear_inputs (pol : GatePolicy F) : GateInputs F where
  mode := .Automatic
  rec_ := some
    { recommend := true
      ranking := [{ def_ := {}, score := 0, confidence := pol.confidence_min }] }
  control_link_margin := pol.control_margin_min

/-- The last instant of the clock. -/
def clock_end : ℤ := 9223372036854775807

theorem within_at_end {start limit : ℤ} (hstart : start = INT64_MIN ∨ (0 ≤ start ∧ start ≤ 2 ^ 61))
    (hlimit : limit ≤ 2 ^ 61) : MigGate.within clock_end start limit = some false := by
  unfold MigGate.within
  rcases hstart with rfl | ⟨hpos, hle⟩
  · rfl
  · have hroom : i64 (clock_end - start) = some (clock_end - start) := by
      unfold i64 INT64_MIN clock_end
      rw [if_pos (by omega)]
    have hne : start ≠ INT64_MIN := by
      unfold INT64_MIN
      omega
    have hlate : ¬ clock_end - start < limit := by
      unfold clock_end
      omega
    rw [if_pos hne, hroom]
    simp [hlate]

theorem timely_session {calls : List (Call F)} (htimely : ∀ c ∈ calls, c.Timely)
    {s : GateState F × List Event} (hs : session pol calls = some s) :
    ∀ e ∈ s.2, 0 ≤ e.time ∧ e.time ≤ 2 ^ 61 := by
  refine session_keeps (P := fun s => ∀ e ∈ s.2, 0 ≤ e.time ∧ e.time ≤ 2 ^ 61) ?_ ?_ htimely hs
  · intro e he
    cases he
  · intro s₀ call s hbefore htime hcall
    cases call with
    | decide inp now_ms =>
      obtain ⟨⟨o, st⟩, hd, rfl⟩ := Option.map_eq_some_iff.mp hcall
      exact hbefore
    | confirmed now_ms =>
      obtain ⟨st, hc, rfl⟩ := Option.map_eq_some_iff.mp hcall
      exact List.forall_mem_cons.mpr ⟨htime, hbefore⟩
    | rolledback target now_ms =>
      obtain ⟨st, hc, rfl⟩ := Option.map_eq_some_iff.mp hcall
      exact List.forall_mem_cons.mpr ⟨htime, hbefore⟩

omit [Zero F] [Sub F] [Mul F] [OfScientific F] [LT F] [DecidableLT F] in
theorem holddown_at_end (hpol : pol.Sane) {st : GateState F} {h : List Event}
    (hrec : Records pol st h) (htimes : ∀ e ∈ h, 0 ≤ e.time ∧ e.time ≤ 2 ^ 61) (key : UInt32) :
    st.holddown_for key ≤ clock_end := by
  rw [hrec.holddown]
  cases hlast : lastRollback key h with
  | none =>
    show INT64_MIN ≤ clock_end
    decide
  | some r =>
    obtain ⟨r, k⟩ := r
    have htime := htimes _ (lastRollback_mem hlast)
    have hcap : holddownOf pol k ≤ pol.holddown_cap_ms := min_le_left _ _
    have hcap' := hpol.cap_le
    show r + holddownOf pol k ≤ clock_end
    have hr : r ≤ 2 ^ 61 := htime.2
    unfold clock_end
    omega

/-- At the end of the clock only the move cap is left of the gates against oscillation. -/
theorem oscillation_at_end (hpol : pol.Roomy) {calls : List (Call F)}
    (htimely : ∀ c ∈ calls, c.Timely) {s : GateState F × List Event}
    (hs : session pol calls = some s) (hroom : s.1.moves_session < pol.move_cap) (key : UInt32) :
    MigGate.oscillation s.1 pol key clock_end = some none := by
  have hdated : ∀ c ∈ calls, c.Dated := by
    intro c hc
    have htime := htimely c hc
    cases c with
    | decide inp now_ms => trivial
    | confirmed now_ms => exact lt_of_lt_of_le (by decide) htime.1
    | rolledback target now_ms => exact lt_of_lt_of_le (by decide) htime.1
  obtain ⟨hrec, -⟩ := records_session hpol.sane hdated hs
  have htimes := timely_session htimely hs
  have hmove : s.1.last_move_ms = INT64_MIN ∨
      (0 ≤ s.1.last_move_ms ∧ s.1.last_move_ms ≤ 2 ^ 61) := by
    rw [hrec.move]
    cases hhead : s.2.head? with
    | none => exact Or.inl rfl
    | some e => exact Or.inr (htimes e (List.mem_of_head? hhead))
  have hresidency : s.1.residency_start_ms = INT64_MIN ∨
      (0 ≤ s.1.residency_start_ms ∧ s.1.residency_start_ms ≤ 2 ^ 61) := by
    rw [hrec.residency]
    cases hhead : (confirms s.2).head? with
    | none => exact Or.inl rfl
    | some t =>
      obtain ⟨e, he, hte⟩ := List.mem_filterMap.mp (List.mem_of_head? hhead)
      cases e with
      | confirmed t' =>
        obtain rfl : t' = t := Option.some.inj hte
        exact Or.inr (htimes _ he)
      | rolledback _ _ => cases hte
  have hdown := holddown_at_end hpol.sane hrec htimes key
  unfold MigGate.oscillation
  rw [within_at_end hmove hpol.cooldown_le, within_at_end hresidency hpol.residency_le]
  simp only [Option.bind_eq_bind, Option.bind_some, Bool.false_eq_true, if_false]
  rw [if_neg (by omega), if_neg (by omega)]

theorem clear_inputs_propose (hirrefl : ∀ x : F, ¬ x < x) {st : GateState F}
    (hosc : MigGate.oscillation st pol ({} : ChannelDef).key clock_end = some none) :
    ∃ o st', mig_gate_decide (clear_inputs pol) st pol clock_end = some (o, st') ∧
      o.verdict = .Propose := by
  have hrecommended : ∃ rec_, MigGate.recommended (clear_inputs pol) pol = .ok rec_ ∧
      rec_.target = {} := by
    unfold MigGate.recommended clear_inputs
    simp [hirrefl]
  obtain ⟨rec_, hrec, htarget⟩ := hrecommended
  have hcompletes : MigGate.completes (clear_inputs pol) pol = none := by
    unfold MigGate.completes clear_inputs
    simp [hirrefl]
  have hover : MigGate.overrides (clear_inputs pol) clock_end = none := rfl
  have hhealth : MigGate.health (clear_inputs pol) = none := rfl
  refine ⟨(MigGate.propose st rec_).1, (MigGate.propose st rec_).2, ?_, rfl⟩
  unfold mig_gate_decide
  rw [hover, hhealth, hrec]
  simp only [htarget, hosc, hcompletes]
  rfl

/-! ## The budget -/

/-- The budget bounds a session exactly as far as it counts. No call of the gate proposes once the
confirmed migrations alone have reached the cap; and where confirmed and rolled back have reached
it together but the confirmed alone have not, the gate still proposes, for inputs that pass the
other gates. -/
theorem resolved_moves_spend_the_budget_iff (pol : GatePolicy F) (calls : List (Call F))
    (s : GateState F × List Event) (hs : session pol calls = some s) :
    ((pol.move_cap ≤ s.2.length → pol.move_cap ≤ (confirms s.2).length) →
      pol.move_cap ≤ s.2.length → ∀ inp now_ms o st,
        mig_gate_decide inp s.1 pol now_ms = some (o, st) → o.verdict ≠ .Propose) ∧
    (pol.Roomy → (∀ x : F, ¬ x < x) → (∀ c ∈ calls, c.Timely) →
      (pol.move_cap ≤ s.2.length → ∀ inp now_ms o st,
        mig_gate_decide inp s.1 pol now_ms = some (o, st) → o.verdict ≠ .Propose) →
      pol.move_cap ≤ s.2.length → pol.move_cap ≤ (confirms s.2).length) := by
  have hmoves := moves_session_eq hs
  refine ⟨?_, ?_⟩
  · intro hcond hresolved inp now_ms o st hd
    have hspent := hcond hresolved
    rcases decide_cases hd with ⟨hne, -⟩ | ⟨rec_, hp, -⟩
    · exact hne
    · obtain ⟨-, -, hleft, -⟩ := oscillation_passed hp.oscillation
      omega
  · intro hpol hirrefl htimely hbounded hresolved
    by_contra hleft
    have hosc := oscillation_at_end hpol htimely hs (by omega) ({} : ChannelDef).key
    obtain ⟨o, st, hd, hpropose⟩ := clear_inputs_propose hirrefl hosc
    exact hbounded hresolved _ _ o st hd hpropose

end

/-- Ten confirms spend the ten moves. -/
theorem ten_confirms_spend_the_budget : ∃ s,
    session demoPolicy (List.replicate 10 (.confirmed 0)) = some s ∧
      ∀ inp now_ms o st, mig_gate_decide inp s.1 demoPolicy now_ms = some (o, st) →
        o.verdict ≠ .Propose := by
  have hrun : (session demoPolicy (List.replicate 10 (.confirmed 0))).map
      (fun s => (s.2.length, (confirms s.2).length)) = some (10, 10) := by decide +kernel
  obtain ⟨s, hs, hcounts⟩ := Option.map_eq_some_iff.mp hrun
  obtain ⟨hresolved, hconfirmed⟩ := Prod.mk.inj hcounts
  refine ⟨s, hs, ?_⟩
  apply (resolved_moves_spend_the_budget_iff demoPolicy _ s hs).1
  · rw [hresolved, hconfirmed]
    exact id
  · rw [hresolved]
    decide

/-- After ten rollbacks of one channel the gate proposes it an eleventh time, under a budget of ten
moves. -/
theorem ten_rollbacks_leave_the_budget : ¬ ∀ (calls : List (Call ℚ)) s,
    session demoPolicy calls = some s → demoPolicy.move_cap ≤ s.2.length →
    ∀ inp now_ms o st, mig_gate_decide inp s.1 demoPolicy now_ms = some (o, st) →
      o.verdict ≠ .Propose := by
  intro hbounded
  have hrun : (session demoPolicy (List.replicate 10 (.rolledback demoTarget 0))).bind
      (fun s => (mig_gate_decide demoInputs s.1 demoPolicy 3600000).map
        fun r => (s.2.length, r.1.verdict)) = some (10, .Propose) := by decide +kernel
  obtain ⟨s, hs, hdecide⟩ := Option.bind_eq_some_iff.mp hrun
  obtain ⟨⟨o, st⟩, hd, hresult⟩ := Option.map_eq_some_iff.mp hdecide
  obtain ⟨hresolved, hpropose⟩ := Prod.mk.inj hresult
  refine hbounded _ s hs ?_ demoInputs 3600000 o st hd hpropose
  rw [hresolved]
  decide

end devourer.chanmig
