-- The ground and its radio. The ground keeps the source that it was built
-- with: after a migration it proposes a move from a channel it has left.
import Devourer.Chanmig.GroundMoves
import Devourer.Chanmig.MigReplay

namespace devourer.chanmig

open MigAction MigProposer

/-- The ground, the channel that its radio is on, and the retunes that its host has still to
carry out. -/
structure GroundRig where
  ground : MigProposer
  radio : ChannelDef
  pending : List ChannelDef := []

namespace GroundRig

/-- The host carries out each retune before the next call. -/
def step (w : GroundRig) (op : Op) : GroundRig :=
  match w.pending, op with
  | [], op => { w with ground := (w.ground.feed op).1, pending := tunes (w.ground.feed op).2 }
  | c :: cs, .retune_done =>
    { ground := (w.ground.feed .retune_done).1
      radio := c
      pending := cs ++ tunes (w.ground.feed .retune_done).2 }
  | _ :: _, _ => w

def run (w : GroundRig) (ops : List Op) : GroundRig := Runs.after step w ops

/-- A start proposes a move from a channel. -/
def ProposesFrom (g : MigProposer) (c : ChannelDef) : Prop :=
  ∀ target evidence_gen rescue now,
    ∃ m, SendUnicast m ∈ (g.start target evidence_gen rescue now).2 ∧
      m.type = .MT_PROPOSAL ∧ m.source.same_rf c = true

/-- A stable ground is on the channel that it says it is on, and proposes moves from there. -/
def Known (w : GroundRig) : Prop :=
  w.ground.st_ = .Stable → w.ground.current_.same_rf w.radio = true ∧ ProposesFrom w.ground w.radio

/-- Where the radio of the ground is between calls. -/
def seat (v : Post) : ChannelDef :=
  match v.st with
  | .Verifying => v.target
  | .Recovery => v.scan
  | _ => v.source

/-- Each end of an exchange is back on the source: a status in which the drone says that it has
settled where the ground is, the retune that follows the drone, an abort that says that nothing
moved, and the marker or the video frame that ends a recovery. -/
structure Homeward (v : Post) (op : Op) : Prop where
  status : ∀ m now, op = .message m now → m.type = .MT_STATUS → v.heeds m = true →
    v.current.same_rf m.current = true → v.source.same_rf m.current = true
  follow : op = .retune_done → v.st = .Switching → v.following = true →
    v.source.same_rf v.follow = true
  abort : ∀ m now, op = .message m now → m.type = .MT_ABORT → m.effective = 0 →
    v.source.same_rf (seat v) = true
  marker : ∀ m now, op = .message m now → m.type = .MT_MARKER → m.generation = v.gen →
    m.drone_epoch = v.drone_epoch → v.st = .Recovery →
    v.source.same_rf m.aired_on = true ∧ v.source.same_rf v.scan = true
  video : ∀ now, op = .video now → v.st = .Recovery → v.source.same_rf v.scan = true

/-- A step ends no exchange away from the source. The calls that the host does not make while a
retune is pending are left out. -/
def Returning (w : GroundRig) (op : Op) : Prop :=
  w.pending = [] ∨ op = .retune_done → Homeward w.ground.post op

/-! ## Where the radio is in each state -/

/-- The post of the ground, the channel of the radio, and the retunes that are pending. -/
inductive Placed (v : Post) (radio : ChannelDef) : List ChannelDef → Prop
  | home (st : v.st = .Stable ∨ v.st = .Proposed ∨ v.st = .Committed) (hf : v.following = false)
    (home : v.source.same_rf radio = true) (here : v.current.same_rf radio = true) :
    Placed v radio []
  | switching (st : v.st = .Switching) (hf : v.following = false) : Placed v radio [v.target]
  | following (st : v.st = .Switching) (hf : v.following = true) : Placed v radio [v.follow]
  | verifying (st : v.st = .Verifying) (hf : v.following = false) (here : v.current = radio)
    (there : v.target = radio) : Placed v radio []
  | scanning (st : v.st = .Recovery) (hf : v.following = false) : Placed v radio [v.scan]
  | listening (st : v.st = .Recovery) (hf : v.following = false) (here : v.scan = radio) :
    Placed v radio []

variable {v v' : Post} {radio : ChannelDef} {cs : List ChannelDef}

theorem Placed.idle (h : Placed v radio []) : v.following = false ∧ v.st ≠ .Switching := by
  cases h with
  | home st hf => exact ⟨hf, by rcases st with st | st | st <;> simp [st]⟩
  | verifying st hf | listening st hf => exact ⟨hf, by simp [st]⟩

theorem Placed.seated (h : Placed v radio []) : (seat v).same_rf radio = true := by
  cases h with
  | home st _ home =>
    have hseat : seat v = v.source := by rcases st with st | st | st <;> simp [seat, st]
    rw [hseat]
    exact home
  | verifying st _ _ there => simp [seat, st, there]
  | listening st _ here => simp [seat, st, here]

theorem Placed.of_home (h : Placed v radio [])
    (st : v.st = .Stable ∨ v.st = .Proposed ∨ v.st = .Committed) :
    v.source.same_rf radio = true ∧ v.current.same_rf radio = true := by
  cases h with
  | home _ _ home here => exact ⟨home, here⟩
  | verifying st' | listening st' => simp [st'] at st

/-- Where the ground takes an exchange to have ended, and where its radio is then. -/
theorem home_of_ends {op : Op} {c : ChannelDef} (h : Placed v radio []) (hh : Homeward v op)
    (hc : v.ends op = some c) : v.source.same_rf c = true ∧ v.source.same_rf radio = true := by
  cases op with
  | start | tick => simp [Post.ends] at hc
  | retune_done => simp [Post.ends, h.idle.2] at hc
  | video now =>
    simp only [Post.ends] at hc
    split at hc
    · rename_i hst
      obtain rfl := Option.some.inj hc
      have hscan := hh.video now rfl hst
      have hseat : seat v = v.scan := by simp [seat, hst]
      exact ⟨hscan, ChannelDef.same_rf_trans hscan (hseat ▸ h.seated)⟩
    · cases hc
  | message m now =>
    simp only [Post.ends, Post.endsOn] at hc
    split at hc
    · rename_i ht
      split at hc
      · rename_i hr
        obtain rfl := Option.some.inj hc
        exact ⟨ChannelDef.same_rf_self _, (h.of_home (.inr (.inl hr.1))).1⟩
      · split at hc
        · rename_i hs
          obtain rfl := Option.some.inj hc
          have hsrc := hh.status m now rfl ht hs.1 hs.2
          refine ⟨hsrc, ?_⟩
          have hhere : v.current.same_rf radio = true := by
            cases h with
            | home _ _ _ here => exact here
            | verifying _ _ here => simp [here]
            | listening st => rcases Post.heeds_state hs.1 with hst | hst | hst <;> simp [st] at hst
          have hcur := ChannelDef.same_rf_trans hsrc (ChannelDef.same_rf_symm hs.2)
          exact ChannelDef.same_rf_trans hcur hhere
        · cases hc
    · rename_i ht
      split at hc
      · rename_i hm
        obtain rfl := Option.some.inj hc
        obtain ⟨haired, hscan⟩ := hh.marker m now rfl ht hm.1 hm.2.1 hm.2.2
        have hseat : seat v = v.scan := by simp [seat, hm.2.2]
        exact ⟨haired, ChannelDef.same_rf_trans hscan (hseat ▸ h.seated)⟩
      · cases hc
    · rename_i ht
      split at hc
      · rename_i he
        obtain rfl := Option.some.inj hc
        exact ⟨ChannelDef.same_rf_self _,
          ChannelDef.same_rf_trans (hh.abort m now rfl ht he) h.seated⟩
      · cases hc
    · cases hc

/-- A call, with no retune pending. -/
theorem placed_call {op : Op} (h : Placed v radio []) (hm : Move v op v' cs)
    (hh : Homeward v op) : Placed v' radio cs := by
  obtain ⟨hf, hsw⟩ := h.idle
  cases hm with
  | rest => exact h
  | settles hc =>
    obtain ⟨hsrc, hrad⟩ := home_of_ends h hh hc
    refine .home (.inl rfl) (by simp [hf]) hrad ?_
    exact ChannelDef.same_rf_trans (ChannelDef.same_rf_symm hsrc) hrad
  | switches hst => exact absurd hst hsw
  | follows => exact .following rfl rfl
  | starts hst =>
    obtain ⟨home, here⟩ := h.of_home (.inl hst)
    exact .home (.inr (.inl rfl)) hf home here
  | givesUp hst =>
    obtain ⟨home, -⟩ := h.of_home (.inr (.inl hst))
    exact .home (.inl rfl) hf home home
  | adopts _ hst =>
    obtain ⟨home, here⟩ := h.of_home (.inr (.inl hst))
    exact .home (.inr (.inr rfl)) hf home here
  | adoptsLate => exact .switching rfl hf
  | activates => exact .switching rfl hf
  | loses => exact .scanning (v := v.lost) rfl hf
  | aborts => exact .scanning (v := v.lost) rfl hf
  | scans hst => exact .scanning hst hf

/-- The retune that is pending is done. -/
theorem placed_retune {c : ChannelDef} {ts : List ChannelDef} (h : Placed v radio (c :: cs))
    (hm : Move v .retune_done v' ts) (hh : Homeward v .retune_done) : Placed v' c (cs ++ ts) := by
  cases h with
  | switching st hf =>
    cases hm with
    | rest _ hr => exact absurd st (hr rfl)
    | settles hc => simp [Post.ends, hf] at hc
    | switches => exact .verifying rfl hf rfl rfl
  | following st hf =>
    have hends : v.ends .retune_done = some v.follow := if_pos ⟨st, hf⟩
    obtain ⟨rfl, rfl⟩ := hm.of_ends hends
    exact .home (.inl rfl) rfl (hh.follow rfl st hf) (ChannelDef.same_rf_self _)
  | scanning st hf =>
    cases hm with
    | rest => exact .listening st hf rfl
    | settles hc => simp [Post.ends, st] at hc
    | switches hst => exact absurd (st.symm.trans hst) (by simp)

/-! ## Runs -/

/-- A start sends one proposal, from the source that the ground keeps. -/
theorem start_sends {g : MigProposer} (hst : g.st_ = .Stable) (target : ChannelDef)
    (evidence_gen : UInt32) (rescue : ChannelDef) (now : Int) :
    ∃ m, (g.start target evidence_gen rescue now).2 =
        [SendUnicast m, EmitEvent MigState.Proposed.toUInt8] ∧
      m.type = .MT_PROPOSAL ∧ m.source = g.source_ := by
  unfold start
  rw [if_neg (not_not.mpr hst)]
  exact ⟨_, rfl, rfl, rfl⟩

theorem proposesFrom_iff {g : MigProposer} (hst : g.st_ = .Stable) (c : ChannelDef) :
    ProposesFrom g c ↔ g.source_.same_rf c = true := by
  constructor
  · intro h
    obtain ⟨m, hm, -, hc⟩ := h {} 0 {} 0
    obtain ⟨m', hacts, -, hsrc⟩ := start_sends hst {} 0 {} 0
    rw [hacts] at hm
    have heq : m = m' := by simpa using hm
    rw [← hsrc, ← heq]
    exact hc
  · intro hc target evidence_gen rescue now
    obtain ⟨m, hacts, ht, hsrc⟩ := start_sends hst target evidence_gen rescue now
    refine ⟨m, ?_, ht, ?_⟩
    · rw [hacts]
      exact List.mem_cons_self
    · rw [hsrc]
      exact hc

def Fits (w : GroundRig) : Prop := Placed w.ground.post w.radio w.pending

/-- A stable ground that is placed is on its source. -/
theorem known_of_fits {w : GroundRig} (h : Fits w) : Known w := by
  intro hst
  have hpost : w.ground.post.st = .Stable := hst
  unfold Fits at h
  generalize hv : w.ground.post = v at h hpost
  generalize w.pending = l at h
  cases h with
  | home st hf home here =>
    subst hv
    exact ⟨here, (proposesFrom_iff hst _).mpr home⟩
  | switching st | following st | verifying st | scanning st | listening st =>
    exact absurd (st.symm.trans hpost) (by simp)

theorem known_iff {w : GroundRig} (hst : w.ground.st_ = .Stable) (h : Known w) :
    w.ground.current_.same_rf w.radio = true ∧ w.ground.source_.same_rf w.radio = true := by
  obtain ⟨hc, hp⟩ := h hst
  exact ⟨hc, (proposesFrom_iff hst _).mp hp⟩

theorem step_free {w : GroundRig} (hp : w.pending = []) (op : Op) :
    step w op =
      { w with ground := (w.ground.feed op).1, pending := tunes (w.ground.feed op).2 } := by
  simp only [step, hp]

theorem step_retune {w : GroundRig} {c : ChannelDef} {cs : List ChannelDef}
    (hp : w.pending = c :: cs) : step w .retune_done =
      { ground := (w.ground.feed .retune_done).1
        radio := c
        pending := cs ++ tunes (w.ground.feed .retune_done).2 } := by
  simp only [step, hp]

theorem step_blocked {w : GroundRig} {op : Op} (hp : w.pending ≠ []) (hop : op ≠ .retune_done) :
    step w op = w := by
  rcases h : w.pending with _ | ⟨c, cs⟩
  · exact absurd h hp
  · cases op with
    | retune_done => exact absurd rfl hop
    | _ => simp only [step, h]

theorem fits_step {w : GroundRig} (h : Fits w) (op : Op) (hr : Returning w op) :
    Fits (step w op) := by
  unfold Fits at h
  rcases hp : w.pending with _ | ⟨c, cs⟩
  · rw [step_free hp]
    rw [hp] at h
    exact placed_call h (feed_moves w.ground op) (hr (.inl hp))
  · by_cases hop : op = .retune_done
    · subst hop
      rw [step_retune hp]
      rw [hp] at h
      exact placed_retune h (feed_moves w.ground _) (hr (.inr rfl))
    · rw [step_blocked (by simp [hp]) hop]
      exact h

/-- What a call that ends the exchange leaves, for a ground that knows where its radio is after
it. -/
theorem known_of_ends {w : GroundRig} {op : Op} {c : ChannelDef} (hp : w.pending = [])
    (hc : w.ground.post.ends op = some c) (hk : Known (step w op)) :
    c.same_rf w.radio = true ∧ w.ground.source_.same_rf w.radio = true := by
  have hpost := ((feed_moves w.ground op).of_ends hc).1
  have hst : (w.ground.feed op).1.st_ = .Stable := congrArg Post.st hpost
  have hcur : (w.ground.feed op).1.current_ = c := congrArg Post.current hpost
  have hsrc : (w.ground.feed op).1.source_ = w.ground.source_ := congrArg Post.source hpost
  rw [step_free hp] at hk
  have hknown := known_iff hst hk
  rw [← hcur, ← hsrc]
  exact hknown

theorem homeward_of_known {w : GroundRig} (h : Fits w) (op : Op) (hp : w.pending = [])
    (hk : Known (step w op)) : Homeward w.ground.post op := by
  unfold Fits at h
  rw [hp] at h
  have hback : ∀ {c d}, w.ground.post.ends op = some c → d.same_rf w.radio = true →
      w.ground.source_.same_rf d = true := by
    intro c d hc hd
    exact ChannelDef.same_rf_trans (known_of_ends hp hc hk).2 (ChannelDef.same_rf_symm hd)
  refine ⟨?_, ?_, ?_, ?_, ?_⟩
  · rintro m now rfl ht hh hsame
    have hends : w.ground.post.ends (.message m now) = some m.current := by
      have hprop : ¬ (w.ground.post.st = .Proposed ∧ m.reason ≠ 0) := by
        intro hpr
        rcases Post.heeds_state hh with hst | hst | hst <;> simp [hst] at hpr
      simp only [Post.ends, Post.endsOn, ht]
      rw [if_neg hprop, if_pos ⟨hh, hsame⟩]
    exact hback hends (known_of_ends hp hends hk).1
  · intro _ hst _
    exact absurd hst h.idle.2
  · rintro m now rfl ht he
    have hends : w.ground.post.ends (.message m now) = some w.ground.source_ := by
      simp only [Post.ends, Post.endsOn, ht]
      exact if_pos he
    exact hback hends h.seated
  · rintro m now rfl ht hg hde hst
    have hends : w.ground.post.ends (.message m now) = some m.aired_on := by
      simp only [Post.ends, Post.endsOn, ht]
      exact if_pos ⟨hg, hde, hst⟩
    have hseat : seat w.ground.post = w.ground.post.scan := by simp [seat, hst]
    exact ⟨hback hends (known_of_ends hp hends hk).1, hback hends (hseat ▸ h.seated)⟩
  · rintro now rfl hst
    have hends : w.ground.post.ends (.video now) = some w.ground.post.scan := if_pos hst
    exact hback hends (known_of_ends hp hends hk).1

/-- The end of a retune is back on the source if the ground knows where its radio is after it. -/
theorem follow_of_known {w : GroundRig} (hp : w.pending ≠ [])
    (hk : Known (step w .retune_done)) : Homeward w.ground.post .retune_done := by
  refine ⟨?_, ?_, ?_, ?_, ?_⟩
  · intro m now hop
    cases hop
  · intro _ hst hf
    rcases hpend : w.pending with _ | ⟨c, cs⟩
    · exact absurd hpend hp
    · have hends : w.ground.post.ends .retune_done = some w.ground.post.follow := if_pos ⟨hst, hf⟩
      have hpost := ((feed_moves w.ground .retune_done).of_ends hends).1
      have hst' : (w.ground.feed .retune_done).1.st_ = .Stable := congrArg Post.st hpost
      have hsrc : (w.ground.feed .retune_done).1.source_ = w.ground.source_ :=
        congrArg Post.source hpost
      have hcur : (w.ground.feed .retune_done).1.current_ = w.ground.post.follow :=
        congrArg Post.current hpost
      rw [step_retune hpend] at hk
      obtain ⟨hc, hs⟩ := known_iff hst' hk
      simp only [hsrc, hcur] at hc hs
      exact ChannelDef.same_rf_trans hs (ChannelDef.same_rf_symm hc)
  · intro m now hop
    cases hop
  · intro m now hop
    cases hop
  · intro now hop
    cases hop

theorem returning_of_known {w : GroundRig} (h : Fits w) (op : Op) (hk : Known (step w op)) :
    Returning w op := by
  intro hcall
  by_cases hp : w.pending = []
  · exact homeward_of_known h op hp hk
  · obtain rfl := hcall.resolve_left hp
    exact follow_of_known hp hk

/-- A ground and its radio, on the channel that the ground is told. -/
def fresh (params : MigParams) (link_id ground_epoch : UInt32) (source : ChannelDef) :
    GroundRig where
  ground := init params link_id ground_epoch source
  radio := source

/-- The ground knows where its radio is all along a run, and proposes from there, exactly if each
exchange ends back on the channel that it was built with. -/
theorem the_ground_knows_its_radio (params : MigParams) (link_id ground_epoch : UInt32)
    (source : ChannelDef) (ops : List Op) :
    let w := fresh params link_id ground_epoch source
    Runs.Along step Returning w ops ↔ ∀ n, Known (run w (ops.take n)) := by
  intro w
  have h0 : Fits w :=
    .home (.inl rfl) rfl (ChannelDef.same_rf_self _) (ChannelDef.same_rf_self _)
  exact Runs.along_iff_reached step w h0 (fun _ => known_of_fits)
    (fun _ op h hr => fits_step h op hr) (fun _ op h hk => returning_of_known h op hk) ops

/-- A migration to channel 40 that the drone reports done. -/
def demoMigration : List Op :=
  [ .start (Link.channel5 40) 1 (Link.channel5 44) 100,
    .message
      { type := .MT_COMMIT
        drone_epoch := 0x22220001
        generation := 1
        ground_nonce_echo := mig_mix_nonce 0x11110001 1 0xA1
        drone_nonce := mig_mix_nonce 0x22220001 1 0xD2
        target := Link.channel5 40
        rescue := Link.channel5 44
        activate_tsf := 1600000
        tx_tsf := 1102000 } 106,
    .tick 600,
    .retune_done,
    .message
      { type := .MT_STATUS
        role := 1
        sender_epoch := 0x22220001
        generation := 1
        state := MigState.Stable.toUInt8
        current := Link.channel5 40 } 1100 ]

/-- The next proposal is a move from channel 36, with the radio on channel 40. -/
theorem a_migration_leaves_the_source_behind :
    let w := run (fresh {} 0xC1 0x11110001 (Link.channel5 36)) demoMigration
    w.ground.st_ = .Stable ∧ w.pending = [] ∧ w.radio = Link.channel5 40 ∧
      w.ground.current_ = Link.channel5 40 ∧
      (w.ground.start (Link.channel5 48) 2 (Link.channel5 44) 2000).1.make_proposal.source =
        Link.channel5 36 ∧ ¬ Known w := by
  intro w
  have hst : w.ground.st_ = .Stable := by decide +kernel
  have hr : w.radio = Link.channel5 40 := by decide +kernel
  have hs : w.ground.source_ = Link.channel5 36 := by decide +kernel
  refine ⟨hst, by decide +kernel, hr, by decide +kernel, by decide +kernel, fun h => ?_⟩
  have hsame := (known_iff hst h).2
  rw [hs, hr] at hsame
  exact absurd hsame (by decide)

end GroundRig

end devourer.chanmig
