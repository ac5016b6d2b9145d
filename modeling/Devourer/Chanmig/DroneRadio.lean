-- The drone and its radio. The host carries out each retune before the next
-- call, and the drone should end up knowing where its radio is.
import Devourer.Chanmig.MigReplay

namespace devourer.chanmig

open MigAction MigResponder

/-- The drone, the channel that its radio is on, and the retunes that its host has still to
carry out. -/
structure DroneRig where
  drone : MigResponder
  radio : ChannelDef
  pending : List ChannelDef := []

namespace DroneRig

/-- A retune that succeeds sets the radio, one that fails leaves it. The host calls nothing else
while a retune is pending, and reports no retune that was not asked for. -/
def step (w : DroneRig) (op : Op) : DroneRig :=
  match w.pending, op with
  | [], .retune_done _ _ _ => w
  | [], op => { w with drone := (w.drone.feed op).1, pending := tunes (w.drone.feed op).2 }
  | c :: cs, .retune_done ok now tsf =>
    { drone := (w.drone.feed (.retune_done ok now tsf)).1
      radio := if ok then c else w.radio
      pending := cs ++ tunes (w.drone.feed (.retune_done ok now tsf)).2 }
  | _ :: _, _ => w

def run (w : DroneRig) (ops : List Op) : DroneRig := Runs.after step w ops

/-- A stable drone with no retune pending is on the channel that it says it is on. -/
def Located (w : DroneRig) : Prop :=
  w.pending = [] → w.drone.st_ = .Stable → w.drone.current_.same_rf w.radio = true

/-- Where a retune leaves the radio. -/
def lands (radio c : ChannelDef) (ok : Bool) : ChannelDef := if ok then c else radio

/-- The three retunes whose outcome the drone takes for granted. A rollback takes the radio to be
on the fallback channel, whatever it asked for and whether or not it got it; a failed return from
a probe and a failed last resort take it to be on the rescue channel. -/
structure Granted (v : Stand) (radio c : ChannelDef) (ok : Bool) : Prop where
  rollback : v.st = .Rollback → v.fallback.same_rf (lands radio c ok) = true
  probe : v.st = .Validating → v.pp = .Return → ok = false → v.rescue.same_rf radio = true
  rescue : v.st = .Stable → ok = false → v.rescue.same_rf radio = true

/-- A step that reports no retune, or one that came out as the drone takes it. -/
def Foreseen (w : DroneRig) (op : Op) : Prop :=
  ∀ c cs ok now tsf, w.pending = c :: cs → op = .retune_done ok now tsf →
    Granted w.drone.stand w.radio c ok

/-! ## Where the radio is in each state -/

/-- The stand of the drone, the channel of the radio, and the retunes that are pending. -/
inductive Placed (v : Stand) (radio : ChannelDef) : List ChannelDef → Prop
  | settled (st : v.st = .Stable) (here : v.current.same_rf radio = true) : Placed v radio []
  | lastResort (st : v.st = .Stable) (there : v.current = v.rescue) : Placed v radio [v.rescue]
  | atSource (st : v.st = .Committed ∨ v.st = .Switching ∧ v.phase = .Draining ∨
      v.st = .Validating ∧ v.pp = .Drain) (here : v.current.same_rf radio = true) :
    Placed v radio []
  | switching (st : v.st = .Switching) (phase : v.phase = .Retuning) : Placed v radio [v.target]
  | fallingBack (st : v.st = .Switching) (phase : v.phase = .RollbackRetune) :
    Placed v radio [v.fallback]
  | verifying (st : v.st = .Verifying) (here : v.current.same_rf radio = true)
    (there : v.current = v.target) : Placed v radio []
  | rollingBack (st : v.st = .Rollback) (c : ChannelDef) : Placed v radio [c]
  | hopping (st : v.st = .Validating) (pp : v.pp = .Retune) : Placed v radio [v.target]
  | sampling (st : v.st = .Validating) (pp : v.pp = .Sampling)
    (here : v.current.same_rf radio = true) : Placed v radio []
  | returning (st : v.st = .Validating) (pp : v.pp = .Return) : Placed v radio [v.source]

variable {v v' : Stand} {radio : ChannelDef} {cs : List ChannelDef} {bs : List Bool}

/-- With no retune pending the drone knows where its radio is. -/
theorem Placed.here (h : Placed v radio []) : v.current.same_rf radio = true := by
  cases h <;> assumption

theorem Placed.peer {l : List ChannelDef} (h : Placed v radio l) (p : Option UInt32) :
    Placed { v with peer := p } radio l := by
  cases h with
  | settled st here => exact .settled st here
  | lastResort st there => exact .lastResort st there
  | atSource st here => exact .atSource st here
  | switching st phase => exact .switching st phase
  | fallingBack st phase => exact .fallingBack st phase
  | verifying st here there => exact .verifying st here there
  | rollingBack st => exact .rollingBack (v := { v with peer := p }) st _
  | hopping st pp => exact .hopping st pp
  | sampling st pp here => exact .sampling st pp here
  | returning st pp => exact .returning st pp

/-- A call, with no retune pending. -/
theorem placed_call {op : Op} (h : Placed v radio []) (hop : op.isRetuneDone = false)
    (hm : Move v op v' cs bs) : Placed v' radio cs := by
  cases hm with
  | rest => exact h
  | lapses => exact .settled rfl h.here
  | drains => exact .atSource (.inr (.inl ⟨rfl, rfl⟩)) h.here
  | retunes _ hst => exact .switching hst rfl
  | expires => exact .rollingBack rfl _
  | hops hst => exact .hopping hst rfl
  | samples hst => exact .returning hst rfl
  | confirms _ hst =>
    refine .settled rfl ?_
    cases h with
    | verifying _ here there => exact there ▸ here
    | settled st => exact absurd (st.symm.trans hst) (by simp)
    | sampling st => exact absurd (st.symm.trans hst) (by simp)
    | atSource st => simp [hst] at st
  | declines => exact h.peer _
  | orphans => exact .settled rfl h.here
  | rolls => exact .rollingBack rfl _
  | commits => exact .atSource (.inl rfl) h.here
  | probes => exact .atSource (.inr (.inr ⟨rfl, rfl⟩)) h.here
  | _ => simp [Op.isRetuneDone] at hop

/-- The outcome of the retune that is pending. -/
theorem placed_retune {c : ChannelDef} {ok : Bool} {now : Int} {tsf : UInt64} {ts : List ChannelDef}
    (h : Placed v radio (c :: cs)) (hm : Move v (.retune_done ok now tsf) v' ts bs)
    (hg : Granted v radio c ok) : Placed v' (lands radio c ok) (cs ++ ts) := by
  cases h with
  | lastResort st there =>
    cases hm with
    | rest =>
      refine .settled st ?_
      rw [there]
      cases ok with
      | true => exact ChannelDef.same_rf_self _
      | false => exact hg.rescue st rfl
    | _ => simp_all
  | switching st phase =>
    cases hm with
    | rest _ hd => simp [Op.isRetuneDone, Stand.tuning, st, phase] at hd
    | switches => exact .verifying rfl (ChannelDef.same_rf_self _) rfl
    | fails => exact .fallingBack st rfl
    | retunes hop => simp at hop
    | _ => simp_all
  | fallingBack st phase =>
    cases hm with
    | rest _ hd => simp [Op.isRetuneDone, Stand.tuning, st, phase] at hd
    | returns => exact .settled rfl (ChannelDef.same_rf_self _)
    | rescues => exact .lastResort rfl rfl
    | retunes hop => simp at hop
    | _ => simp_all
  | rollingBack st =>
    cases hm with
    | rest _ hd => simp [Op.isRetuneDone, Stand.tuning, st] at hd
    | rolled => exact .settled rfl (hg.rollback st)
    | _ => simp_all
  | hopping st pp =>
    cases hm with
    | rest _ hd => simp [Op.isRetuneDone, Stand.tuning, st, pp] at hd
    | arrives => exact .sampling st rfl (ChannelDef.same_rf_self _)
    | misses => exact .returning st rfl
    | _ => simp_all
  | returning st pp =>
    cases hm with
    | rest _ hd => simp [Op.isRetuneDone, Stand.tuning, st, pp] at hd
    | strays => exact .settled rfl (hg.probe st pp rfl)
    | vetoes => exact .settled rfl (ChannelDef.same_rf_self _)
    | clears => exact .atSource (.inl rfl) (ChannelDef.same_rf_self _)
    | _ => simp_all

/-- A drone that knows where its radio is after the retune took nothing for granted wrongly. -/
theorem granted_of_located {c : ChannelDef} {ok : Bool} {now : Int} {tsf : UInt64}
    {ts : List ChannelDef} (h : Placed v radio (c :: cs))
    (hm : Move v (.retune_done ok now tsf) v' ts bs)
    (hloc : cs ++ ts = [] → v'.st = .Stable → v'.current.same_rf (lands radio c ok) = true) :
    Granted v radio c ok := by
  cases h with
  | lastResort st there =>
    cases hm with
    | rest =>
      refine ⟨fun h => absurd (st.symm.trans h) (by simp),
        fun h => absurd (st.symm.trans h) (by simp), fun _ hok => ?_⟩
      have hhere := hloc rfl st
      subst hok
      rw [there] at hhere
      exact hhere
    | _ => simp_all
  | rollingBack st =>
    cases hm with
    | rest _ hd => simp [Op.isRetuneDone, Stand.tuning, st] at hd
    | rolled =>
      exact ⟨fun _ => hloc rfl rfl, fun h => absurd (st.symm.trans h) (by simp),
        fun h => absurd (st.symm.trans h) (by simp)⟩
    | _ => simp_all
  | returning st pp =>
    refine ⟨fun h => absurd (st.symm.trans h) (by simp), fun _ _ hok => ?_,
      fun h => absurd (st.symm.trans h) (by simp)⟩
    cases hm with
    | rest _ hd => simp [Op.isRetuneDone, Stand.tuning, st, pp] at hd
    | strays => exact hloc rfl rfl
    | vetoes => cases hok
    | clears => cases hok
    | _ => simp_all
  | switching st | fallingBack st =>
    exact ⟨fun h => absurd (st.symm.trans h) (by simp), fun h => absurd (st.symm.trans h) (by simp),
      fun h => absurd (st.symm.trans h) (by simp)⟩
  | hopping st pp =>
    exact ⟨fun h => absurd (st.symm.trans h) (by simp),
      fun _ h => absurd (pp.symm.trans h) (by simp), fun h => absurd (st.symm.trans h) (by simp)⟩

/-! ## Runs -/

def Fits (w : DroneRig) : Prop := Placed w.drone.stand w.radio w.pending

/-- A step is idle, calls the drone with no retune pending, or carries out the first retune. -/
theorem step_cases (w : DroneRig) (op : Op) :
    step w op = w ∨
      (w.pending = [] ∧ op.isRetuneDone = false ∧ step w op =
        { w with drone := (w.drone.feed op).1, pending := tunes (w.drone.feed op).2 }) ∨
      ∃ c cs ok now tsf, w.pending = c :: cs ∧ op = .retune_done ok now tsf ∧ step w op =
        { drone := (w.drone.feed op).1
          radio := lands w.radio c ok
          pending := cs ++ tunes (w.drone.feed op).2 } := by
  rcases hp : w.pending with _ | ⟨c, cs⟩
  · cases op with
    | retune_done ok now tsf => exact .inl (by simp only [step, hp])
    | _ => exact .inr (.inl ⟨rfl, rfl, by simp only [step, hp]⟩)
  · cases op with
    | retune_done ok now tsf =>
      exact .inr (.inr ⟨c, cs, ok, now, tsf, rfl, rfl, by simp only [step, hp, lands]⟩)
    | _ => exact .inl (by simp only [step, hp])

theorem located_of_fits {w : DroneRig} (h : Fits w) : Located w := by
  intro hp _
  unfold Fits at h
  rw [hp] at h
  exact h.here

theorem fits_step {w : DroneRig} (h : Fits w) (op : Op) (hf : Foreseen w op) :
    Fits (step w op) := by
  rcases step_cases w op with he | ⟨hp, hop, he⟩ | ⟨c, cs, ok, now, tsf, hp, rfl, he⟩
  · rw [he]
    exact h
  · rw [he]
    unfold Fits at h
    rw [hp] at h
    exact placed_call h hop (feed_moves w.drone op)
  · rw [he]
    unfold Fits at h
    rw [hp] at h
    exact placed_retune h (feed_moves w.drone _) (hf c cs ok now tsf hp rfl)

theorem foreseen_of_located {w : DroneRig} (h : Fits w) (op : Op) (hl : Located (step w op)) :
    Foreseen w op := by
  intro c cs ok now tsf hp hop
  subst hop
  unfold Fits at h
  rw [hp] at h
  have he : step w (.retune_done ok now tsf) =
      { drone := (w.drone.feed (.retune_done ok now tsf)).1
        radio := lands w.radio c ok
        pending := cs ++ tunes (w.drone.feed (.retune_done ok now tsf)).2 } := by
    simp only [step, hp, lands]
  rw [he] at hl
  exact granted_of_located h (feed_moves w.drone _) hl

/-- A drone and its radio, on the channel that the drone is told. -/
def fresh (params : MigParams) (link_id drone_epoch : UInt32) (current : ChannelDef)
    (caps : MigCaps) : DroneRig where
  drone := init params link_id drone_epoch current caps
  radio := current

/-- The drone knows where its radio is all along a run exactly if each retune that it takes for
granted comes out as it takes it. -/
theorem the_drone_knows_its_radio (params : MigParams) (link_id drone_epoch : UInt32)
    (current : ChannelDef) (caps : MigCaps) (ops : List Op) :
    let w := fresh params link_id drone_epoch current caps
    Runs.Along step Foreseen w ops ↔ ∀ n, Located (run w (ops.take n)) := by
  intro w
  have h0 : Fits w := .settled rfl (ChannelDef.same_rf_self _)
  exact Runs.along_iff_reached step w h0 (fun _ => located_of_fits)
    (fun _ op h hf => fits_step h op hf) (fun _ op h hl => foreseen_of_located h op hl) ops

/-- The drone moves to channel 40 with channel 44 as its fallback, and the ground restarts. -/
def demoRollback : List Op :=
  [ .message { demoProposal 0x11110001 (Link.channel5 40) with fallback_mode := 1 } 102 1102000,
    .message (demoAck 0x11110001) 106 1106000,
    .tick 600 1600000,
    .drain_done,
    .retune_done true 610 1610000,
    .message (demoProposal 0x33330001 (Link.channel5 48)) 700 1700000,
    .retune_done true 710 1710000 ]

/-- Every retune succeeds. The radio is back on channel 36, and the drone says it is on 44. -/
theorem a_restart_misplaces_the_drone :
    let w := run (fresh {} 0xC1 0x22220001 (Link.channel5 36) {}) demoRollback
    w.pending = [] ∧ w.drone.st_ = .Stable ∧ w.drone.current_ = Link.channel5 44 ∧
      w.radio = Link.channel5 36 ∧ ¬ Located w := by
  intro w
  have hp : w.pending = [] := by decide +kernel
  have hst : w.drone.st_ = .Stable := by decide +kernel
  have hc : w.drone.current_ = Link.channel5 44 := by decide +kernel
  have hr : w.radio = Link.channel5 36 := by decide +kernel
  refine ⟨hp, hst, hc, hr, fun h => ?_⟩
  have hsame := h hp hst
  rw [hc, hr] at hsame
  exact absurd hsame (by decide)

end DroneRig

end devourer.chanmig
