-- Exchanges that are not the ground's own. A message of another generation
-- should do nothing, and no retune should come before an adopted commit; an
-- abort is taken whatever its generation, and so is a refusal.
import Devourer.Chanmig.GroundMoves
import Devourer.Chanmig.MigReplay

namespace devourer.chanmig

open MigAction MigProposer

/-- The ground, and the commit that it has adopted since its last start. -/
structure GroundLog where
  ground : MigProposer
  adopted : Option MigMsg := none

namespace GroundLog

/-- What a call leaves of the adopted commit. A start opens the next generation. -/
def adopts (w : GroundLog) : Op → Option MigMsg
  | .start _ _ _ _ => if w.ground.st_ = .Stable then none else w.adopted
  | .message m _ =>
    if w.ground.st_ = .Proposed ∧ m.type = .MT_COMMIT ∧ w.ground.commit_matches m then some m
    else w.adopted
  | _ => w.adopted

def step (w : GroundLog) (op : Op) : GroundLog where
  ground := (w.ground.feed op).1
  adopted := w.adopts op

def run (w : GroundLog) (ops : List Op) : GroundLog := Runs.after step w ops

/-- A call does nothing, up to the count of markers on the wrong channel. -/
def Idle (g : MigProposer) (op : Op) : Prop :=
  (g.feed op).2 = [] ∧ ∃ n, (g.feed op).1 = { g with wrong_channel_ := n }

/-- The ground's own commit. -/
structure Own (g : MigProposer) (c : MigMsg) : Prop where
  type : c.type = .MT_COMMIT
  generation : c.generation = g.gen_
  nonce : c.ground_nonce_echo = g.nonce_

/-- A foreign message does nothing, and a retune comes after a commit of the ground's own. -/
structure Heedful (w : GroundLog) (op : Op) : Prop where
  foreign : ∀ m now, op = .message m now → m.generation ≠ w.ground.gen_ → Idle w.ground op
  retunes : ∀ c, RetuneTo c ∈ (w.ground.feed op).2 →
    ∃ m, (step w op).adopted = some m ∧ Own (step w op).ground m

/-- The two handlers without a gate get no foreign message: an abort is of the ground's own
generation and, if it says that the drone rolled back, comes after the commit; a refusal of a
proposal is of its generation. -/
structure Addressed (w : GroundLog) (op : Op) : Prop where
  abort : ∀ m now, op = .message m now → m.type = .MT_ABORT →
    m.generation = w.ground.gen_ ∧ (m.effective ≠ 0 → w.adopted.isSome)
  refusal : ∀ m now, op = .message m now → m.type = .MT_STATUS → w.ground.st_ = .Proposed →
    m.reason ≠ 0 → m.generation = w.ground.gen_

/-! ## The invariant -/

/-- The adopted commit is the ground's own, and the states past the commit have one. -/
structure Kept (v : Post) (adopted : Option MigMsg) : Prop where
  own : ∀ c, adopted = some c →
    c.type = .MT_COMMIT ∧ c.generation = v.gen ∧ c.ground_nonce_echo = v.nonce
  past : v.st ≠ .Stable → v.st ≠ .Proposed → adopted.isSome

def Keeps (w : GroundLog) : Prop := Kept w.ground.post w.adopted

/-- Whatever a call leaves adopted is a commit of the generation before the call. -/
theorem adopts_own {w : GroundLog} (h : Keeps w) (op : Op) (c : MigMsg)
    (hc : w.adopts op = some c) : Own w.ground c := by
  have hkept : w.adopted = some c → Own w.ground c := by
    intro ha
    obtain ⟨ht, hg, hn⟩ := h.own c ha
    exact ⟨ht, hg, hn⟩
  cases op with
  | start target evidence_gen rescue now =>
    simp only [adopts] at hc
    split at hc
    · cases hc
    · exact hkept hc
  | message m now =>
    simp only [adopts] at hc
    split at hc
    · rename_i hm
      obtain rfl := Option.some.inj hc
      have hm' : m.generation = w.ground.gen_ ∧ m.ground_nonce_echo = w.ground.nonce_ := by
        simpa [commit_matches] using hm.2.2
      exact ⟨hm.2.1, hm'.1, hm'.2⟩
    · exact hkept hc
  | tick now => exact hkept hc
  | retune_done => exact hkept hc
  | video now => exact hkept hc

/-- Only a start drops the adopted commit, and only when the ground is stable. -/
theorem adopts_isSome {w : GroundLog} (op : Op) (hst : w.ground.st_ ≠ .Stable)
    (h : w.adopted.isSome) : (w.adopts op).isSome := by
  cases op with
  | start target evidence_gen rescue now =>
    simp only [adopts]
    rw [if_neg hst]
    exact h
  | message m now =>
    simp only [adopts]
    split
    · rfl
    · exact h
  | tick now => exact h
  | retune_done => exact h
  | video now => exact h

theorem adopts_other {w : GroundLog} {m : MigMsg} (now : Int) (h : m.type ≠ .MT_COMMIT) :
    w.adopts (.message m now) = w.adopted := if_neg fun hc => h hc.2.1

theorem adopts_commit {w : GroundLog} {m : MigMsg} (now : Int) (ht : m.type = .MT_COMMIT)
    (hst : w.ground.st_ = .Proposed) (hg : m.generation = w.ground.gen_)
    (hn : m.ground_nonce_echo = w.ground.nonce_) : w.adopts (.message m now) = some m := by
  refine if_pos ⟨hst, ht, ?_⟩
  simp [commit_matches, hg, hn]

/-- The states past the commit. -/
theorem past_move {w : GroundLog} {op : Op} {v' : Post} {cs : List ChannelDef} (h : Keeps w)
    (hm : Move w.ground.post op v' cs) (ha : Addressed w op) (hs : v'.st ≠ .Stable)
    (hp : v'.st ≠ .Proposed) : (w.adopts op).isSome := by
  have hpast : w.ground.st_ ≠ .Stable → w.ground.st_ ≠ .Proposed → (w.adopts op).isSome := by
    intro hs hp
    exact adopts_isSome op hs (h.past hs hp)
  have hin : ∀ st, w.ground.st_ = st → st ≠ .Stable → st ≠ .Proposed → (w.adopts op).isSome := by
    rintro st rfl hs hp
    exact hpast hs hp
  cases hm with
  | rest => exact hpast hs hp
  | settles => exact absurd rfl hs
  | switches hst => exact hin _ hst (by simp) (by simp)
  | follows ht hh =>
    rcases Post.heeds_state hh with hst | hst | hst
    · exact hin _ hst (by simp) (by simp)
    · exact hin _ hst (by simp) (by simp)
    · exact hin _ hst (by simp) (by simp)
  | starts => exact absurd rfl hp
  | givesUp => exact absurd rfl hs
  | adopts ht hst hg hn | adoptsLate ht hst hg hn =>
    rw [adopts_commit _ ht hst hg hn]
    rfl
  | activates hst => exact hin _ hst (by simp) (by simp)
  | loses hst => exact hin _ hst (by simp) (by simp)
  | aborts ht he =>
    rw [adopts_other _ (by simp [ht])]
    exact (ha.abort _ _ rfl ht).2 he
  | scans hst => exact hin _ hst (by simp) (by simp)

theorem own_move {w : GroundLog} {op : Op} {v' : Post} {cs : List ChannelDef} (h : Keeps w)
    (hm : Move w.ground.post op v' cs) (c : MigMsg) (hc : w.adopts op = some c) :
    c.type = .MT_COMMIT ∧ c.generation = v'.gen ∧ c.ground_nonce_echo = v'.nonce := by
  have hown := adopts_own h op c hc
  cases hm with
  | starts hst =>
    have hnone : none = some c := (if_pos hst).symm.trans hc
    cases hnone
  | _ => exact ⟨hown.type, hown.generation, hown.nonce⟩

theorem keeps_step {w : GroundLog} (h : Keeps w) (op : Op) (ha : Addressed w op) :
    Keeps (step w op) :=
  ⟨own_move h (feed_moves w.ground op), past_move h (feed_moves w.ground op) ha⟩

/-! ## The law of a step -/

/-- A retune leaves the ground past its commit. -/
theorem tuned_past {v v' : Post} {op : Op} {cs : List ChannelDef} (hm : Move v op v' cs)
    {c : ChannelDef} (hc : c ∈ cs) : v'.st ≠ .Stable ∧ v'.st ≠ .Proposed := by
  cases hm with
  | follows | adoptsLate | activates | loses | aborts =>
    exact ⟨by simp [Post.lost], by simp [Post.lost]⟩
  | scans hst => simp [hst]
  | _ => simp at hc

theorem foreign_idle (s : MigProposer) (m : MigMsg) (now : Int) (hg : m.generation ≠ s.gen_)
    (ha : m.type ≠ .MT_ABORT) (hr : m.type = .MT_STATUS → ¬ (s.st_ = .Proposed ∧ m.reason ≠ 0)) :
    s.on_message m now = (s, []) := by
  unfold on_message
  split
  · have hm : s.commit_matches m = false := by simp [commit_matches, hg]
    unfold on_commit
    rw [hm]
    rfl
  · rename_i ht
    unfold on_status
    rw [if_neg (hr ht), if_neg fun hc => hg hc.2.1]
  · unfold on_marker
    rw [if_pos (.inl hg)]
  · rename_i ht
    exact absurd ht ha
  · rfl

theorem abort_acts (s : MigProposer) (m : MigMsg) (now : Int) (ht : m.type = .MT_ABORT) :
    (s.on_message m now).2 ≠ [] := by
  simp only [on_message, ht, on_abort]
  split <;> simp

theorem refusal_acts (s : MigProposer) (m : MigMsg) (now : Int) (ht : m.type = .MT_STATUS)
    (h : s.st_ = .Proposed ∧ m.reason ≠ 0) : (s.on_message m now).2 ≠ [] := by
  simp only [on_message, ht, on_status]
  rw [if_pos h]
  simp

theorem heedful_of_addressed {w : GroundLog} (h : Keeps w) {op : Op} (ha : Addressed w op) :
    Heedful w op := by
  constructor
  · rintro m now rfl hg
    have hidle : w.ground.on_message m now = (w.ground, []) := by
      refine foreign_idle _ m now hg ?_ ?_
      · intro ht
        exact hg (ha.abort m now rfl ht).1
      · intro ht hr
        exact hg (ha.refusal m now rfl ht hr.1 hr.2)
    have hfeed : w.ground.feed (.message m now) = (w.ground, []) := hidle
    unfold Idle
    rw [hfeed]
    exact ⟨rfl, w.ground.wrong_channel_, rfl⟩
  · intro c hc
    have hkept := keeps_step h op ha
    have hpast := tuned_past (feed_moves w.ground op) (mem_tunes.mpr hc)
    obtain ⟨m, hm⟩ := Option.isSome_iff_exists.mp (hkept.past hpast.1 hpast.2)
    obtain ⟨ht, hg, hn⟩ := hkept.own m hm
    exact ⟨m, hm, ht, hg, hn⟩

theorem addressed_of_heedful {w : GroundLog} {op : Op} (h : Heedful w op) : Addressed w op := by
  constructor
  · rintro m now rfl ht
    constructor
    · by_contra hg
      exact abort_acts _ m now ht (h.foreign m now rfl hg).1
    · intro he
      have hmem : RetuneTo (w.ground.enter_recovery now).recov_channel ∈
          (w.ground.feed (.message m now)).2 := by
        simp only [feed, on_message, ht, on_abort]
        rw [if_neg he]
        simp
      obtain ⟨c, hc, -⟩ := h.retunes _ hmem
      have hadopted : w.adopted = some c := (adopts_other now (by simp [ht])).symm.trans hc
      rw [hadopted]
      rfl
  · rintro m now rfl ht hst hr
    by_contra hg
    exact refusal_acts _ m now ht ⟨hst, hr⟩ (h.foreign m now rfl hg).1

/-! ## Runs -/

/-- All along a run the ground ignores what is foreign and retunes after its commit, exactly if
no abort and no refusal of another exchange comes, and no rollback before the commit. -/
theorem the_ground_ignores_foreign_exchanges (params : MigParams) (link_id ground_epoch : UInt32)
    (source : ChannelDef) (ops : List Op) :
    let w := GroundLog.mk (init params link_id ground_epoch source) none
    Runs.Along step Addressed w ops ↔ Runs.Along step Heedful w ops := by
  intro w
  have h0 : Keeps w := by
    constructor
    · intro c hc
      cases hc
    · intro hs
      exact absurd rfl hs
  exact Runs.along_congr step w h0
    (fun _ _ h => ⟨heedful_of_addressed h, addressed_of_heedful⟩)
    (fun _ op h ha => keeps_step h op ha) ops

/-- An abort of generation 0 comes while the first proposal is in the air. -/
def demoAbort : List Op :=
  [ .start (Link.channel5 40) 1 (Link.channel5 44) 100,
    .message { type := .MT_ABORT, ground_epoch := 0x33330001, effective := 1 } 110 ]

/-- The ground retunes on it, with no commit adopted. -/
theorem a_foreign_abort_moves_the_ground :
    let w := GroundLog.mk (init {} 0xC1 0x11110001 (Link.channel5 36)) none
    let u := run w (demoAbort.take 1)
    let op := Op.message { type := .MT_ABORT, ground_epoch := 0x33330001, effective := 1 } 110
    u.ground.gen_ = 1 ∧ u.adopted = none ∧ (step u op).ground.st_ = .Recovery ∧
      RetuneTo (Link.channel5 36) ∈ (u.ground.feed op).2 ∧ ¬ Heedful u op ∧
      ¬ Runs.Along step Heedful w demoAbort := by
  intro w u op
  have hgen : u.ground.gen_ = 1 := by decide +kernel
  have hnone : u.adopted = none := by decide +kernel
  have hst : (step u op).ground.st_ = .Recovery := by decide +kernel
  have hmem : RetuneTo (Link.channel5 36) ∈ (u.ground.feed op).2 :=
    mem_tunes.mp (by decide +kernel)
  have hnot : ¬ Heedful u op := by
    intro h
    have ha := (addressed_of_heedful h).abort _ _ rfl rfl
    exact absurd ha.1 (by rw [hgen]; decide)
  exact ⟨hgen, hnone, hst, hmem, hnot, fun h => hnot h.2.1⟩

end GroundLog

end devourer.chanmig
