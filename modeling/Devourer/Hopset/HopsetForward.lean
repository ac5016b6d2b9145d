-- The follower under one authority: its generations only go forward, and
-- what it puts in force is a legal mask.
import Devourer.Lib.Runs
import Devourer.Hopset.FollowerMoves

namespace devourer.hopset

open HopsetAction

/-- A follower, and the states that it has put in force, the first of them first. -/
structure Journal where
  follower : HopsetFollower
  activated : List HopsetState := []

namespace Journal

def step (w : Journal) (i : HopsetFollower.Op × UInt64) : Journal where
  follower := (w.follower.feed i.1 i.2).1
  activated := w.activated ++ activations (w.follower.feed i.1 i.2).2

def run (w : Journal) (is : List (HopsetFollower.Op × UInt64)) : Journal := Runs.after step w is

def fresh (params : HopsetParams) (epoch : UInt32) : Journal := { follower := .init params epoch }

/-- A commit, and a beacon of an authority, of this boot of the authority. -/
def OfEpoch (e : UInt32) : HopsetFollower.Op → Prop
  | .commit m => m.tx_epoch = e
  | .status m => m.role = 1 → m.sender_epoch = e
  | _ => True

/-- A legal mask, or the full one of generation 0. -/
def Legal (p : HopsetParams) (st : HopsetState) : Prop :=
  mask_valid st.active_mask p.n_base p.min_active = true ∨
    st.generation = 0 ∧ st.active_mask = full_mask p.n_base

/-- The generation in force does not fall. -/
def Forward (w : Journal) (i : HopsetFollower.Op × UInt64) : Prop :=
  w.follower.cur_.generation ≤ (step w i).follower.cur_.generation

/-! ## What the follower keeps -/

/-- What is in force is the last of what was put in force, and what is armed comes after it. -/
structure Keeps (p : HopsetParams) (e : UInt32) (s : HopsetFollower) (l : List HopsetState) :
    Prop where
  params : s.p_ = p
  peer : s.have_auth_ = true → s.auth_epoch_ = e
  unmet : s.have_auth_ = false → s.st_ ≠ .Pending
  start : l = [] → s.cur_.generation = 0
  met : l ≠ [] → s.have_auth_ = true
  below : ∀ st ∈ l, st.generation ≤ s.cur_.generation
  sorted : (l.map (·.generation)).Pairwise (· < ·)
  ahead : s.st_ = .Pending → l ≠ [] → s.cur_.generation < s.pend_.generation
  legal : ∀ st ∈ l, Legal p st
  armed : s.st_ = .Pending → Legal p s.pend_

variable {p : HopsetParams} {e : UInt32} {s s' : HopsetFollower} {l : List HopsetState}

/-- A change that puts nothing in force and arms nothing. -/
theorem Keeps.turn (h : Keeps p e s l) (hp : s'.p_ = s.p_) (ha : s'.have_auth_ = s.have_auth_)
    (he : s'.auth_epoch_ = s.auth_epoch_) (hc : s'.cur_ = s.cur_) (hd : s'.pend_ = s.pend_)
    (hst : s'.st_ = .Pending → s.st_ = .Pending) : Keeps p e s' l where
  params := hp.trans h.params
  peer hauth := he.trans (h.peer (ha ▸ hauth))
  unmet hauth hpend := h.unmet (ha ▸ hauth) (hst hpend)
  start hl := (congrArg HopsetState.generation hc).trans (h.start hl)
  met hl := ha.trans (h.met hl)
  below st hmem := hc ▸ h.below st hmem
  sorted := h.sorted
  ahead hpend hl := by rw [hc, hd]; exact h.ahead (hst hpend) hl
  legal := h.legal
  armed hpend := by rw [hd]; exact h.armed (hst hpend)

/-- A state that is new to the follower is put in force. -/
theorem Keeps.puts (h : Keeps p e s l) {st : HopsetState} (hp : s'.p_ = s.p_)
    (ha : s'.have_auth_ = true) (he : s'.auth_epoch_ = e) (hc : s'.cur_ = st)
    (hst : s'.st_ = .Synced) (hnew : l ≠ [] → s.cur_.generation < st.generation)
    (hlegal : Legal p st) : Keeps p e s' (l ++ [st]) where
  params := hp.trans h.params
  peer _ := he
  unmet hauth := absurd (ha.symm.trans hauth) (by simp)
  start hl := absurd hl (by simp)
  met _ := ha
  below d hmem := by
    rw [hc]
    rcases List.mem_append.mp hmem with hmem | hmem
    · exact UInt32.le_trans (h.below d hmem)
        (UInt32.le_of_lt (hnew (List.ne_nil_of_mem hmem)))
    · rw [List.mem_singleton.mp hmem]
      exact UInt32.le_refl _
  sorted := by
    rw [List.map_append, List.pairwise_append]
    refine ⟨h.sorted, List.pairwise_singleton _ _, ?_⟩
    intro a hmem b hb
    obtain ⟨d, hd, rfl⟩ := List.mem_map.mp hmem
    obtain rfl := List.mem_singleton.mp hb
    exact UInt32.lt_of_le_of_lt (h.below d hd) (hnew (List.ne_nil_of_mem hd))
  ahead hpend := absurd (hst.symm.trans hpend) (by simp)
  legal d hmem := by
    rcases List.mem_append.mp hmem with hmem | hmem
    · exact h.legal d hmem
    · rw [List.mem_singleton.mp hmem]
      exact hlegal
  armed hpend := absurd (hst.symm.trans hpend) (by simp)

/-- A call that leaves the follower and puts nothing in force. -/
theorem Keeps.rest (h : Keeps p e s l) {acts : List HopsetAction} (ha : activations acts = []) :
    Keeps p e s (l ++ activations acts) := by
  rw [ha, List.append_nil]
  exact h

/-! ## The calls -/

theorem adopt_epoch_fields (s : HopsetFollower) (e : UInt32) :
    (s.adopt_epoch e).have_auth_ = true ∧ (s.adopt_epoch e).auth_epoch_ = e ∧
      (s.adopt_epoch e).p_ = s.p_ ∧ (s.adopt_epoch e).cur_ = s.cur_ := by
  have hv := HopsetFollower.adopt_epoch_hold s e
  refine ⟨congrArg HopsetFollower.Hold.have_auth hv, congrArg HopsetFollower.Hold.auth_epoch hv, ?_,
    congrArg HopsetFollower.Hold.cur hv⟩
  unfold HopsetFollower.adopt_epoch
  split <;> rfl

theorem keeps_arm (h : Keeps p e s l) {m : HopsetMsg} (now : UInt64) (he : m.tx_epoch = e)
    (hnew : l ≠ [] → s.cur_.generation < m.generation)
    (hlegal : Legal p (HopsetFollower.of_commit m)) :
    Keeps p e (s.arm m now).1 (l ++ activations (s.arm m now).2) := by
  obtain ⟨hauth, hepoch, hparams, hcur⟩ := adopt_epoch_fields s m.tx_epoch
  unfold HopsetFollower.arm
  simp only
  split
  · exact h.puts hparams hauth (hepoch.trans he) rfl rfl hnew hlegal
  · have hkept : Keeps p e
        { s.adopt_epoch m.tx_epoch with pend_ := HopsetFollower.of_commit m, st_ := .Pending } l :=
      { params := hparams.trans h.params
        peer := fun _ => hepoch.trans he
        unmet := fun hu => absurd (hauth.symm.trans hu) (by simp)
        start := fun hl => (congrArg HopsetState.generation hcur).trans (h.start hl)
        met := fun _ => hauth
        below := fun st hmem => hcur ▸ h.below st hmem
        sorted := h.sorted
        ahead := fun _ hl => by
          show (s.adopt_epoch m.tx_epoch).cur_.generation < m.generation
          rw [hcur]
          exact hnew hl
        legal := h.legal
        armed := fun _ => hlegal }
    exact hkept.rest rfl

theorem legal_of_commit_reason {m : HopsetMsg} (h : s.commit_reason m = .None) :
    Legal s.p_ (HopsetFollower.of_commit m) := by
  left
  unfold HopsetFollower.commit_reason at h
  split at h
  · cases h
  · split at h
    · cases h
    · split at h
      · split at h <;> cases h
      · rename_i hvalid
        have hmask : mask_valid m.active_mask s.p_.n_base s.p_.min_active = true := by
          simpa using hvalid
        exact hmask

theorem keeps_on_commit (h : Keeps p e s l) {m : HopsetMsg} (now : UInt64) (he : m.tx_epoch = e) :
    Keeps p e (s.on_commit m now).1 (l ++ activations (s.on_commit m now).2) := by
  unfold HopsetFollower.on_commit
  simp only
  split
  · exact h.rest rfl
  · rename_i hreason
    split
    · exact h.rest rfl
    · split
      · exact h.rest rfl
      · rename_i hage
        split
        · exact h.rest rfl
        · split
          · exact h.rest rfl
          · refine keeps_arm h now he ?_ ?_
            · intro hl
              by_contra hle
              refine hage ⟨?_, UInt32.not_lt.mp hle⟩
              simp [h.met hl, h.peer (h.met hl), he]
            · rw [← h.params]
              exact legal_of_commit_reason (not_not.mp hreason)

theorem keeps_recover (h : Keeps p e s l) {m : HopsetMsg} (he : m.sender_epoch = e)
    (hnew : l ≠ [] → s.cur_.generation < m.generation) (hlegal : Legal p (s.of_status m)) :
    Keeps p e (s.recover m).1 (l ++ activations (s.recover m).2) := by
  obtain ⟨hauth, hepoch, hparams, -⟩ := adopt_epoch_fields s m.sender_epoch
  have hkept : Keeps p e (s.recover m).1 (l ++ [s.of_status m]) :=
    h.puts hparams hauth (hepoch.trans he) rfl rfl hnew hlegal
  exact hkept

/-- A beacon of generation 0 stands for the full mask. -/
theorem legal_of_status {m : HopsetMsg}
    (h : ¬ (!mask_valid m.active_mask s.p_.n_base s.p_.min_active ∧ m.generation ≠ 0)) :
    Legal s.p_ (s.of_status m) := by
  by_cases hz : m.generation = 0
  · exact .inr ⟨hz, if_pos hz⟩
  · left
    have hmask : (s.of_status m).active_mask = m.active_mask := if_neg hz
    rw [hmask]
    by_contra hbad
    exact h ⟨by simpa using hbad, hz⟩

theorem keeps_on_status (h : Keeps p e s l) {m : HopsetMsg} (now : UInt64)
    (he : m.role = 1 → m.sender_epoch = e) :
    Keeps p e (s.on_status m now).1 (l ++ activations (s.on_status m now).2) := by
  unfold HopsetFollower.on_status
  simp only
  split
  · exact h.rest rfl
  · rename_i hrole
    have he' := he (not_not.mp hrole)
    split
    · exact h.rest rfl
    · split
      · refine Keeps.rest ?_ rfl
        exact h.turn rfl rfl rfl rfl rfl (by simp)
      · split
        · exact h.rest rfl
        · rename_i hmask
          split
          · exact h.rest rfl
          · split
            · exact h.rest rfl
            · rename_i hold
              split
              · unfold HopsetFollower.resync_check
                split
                · refine Keeps.rest ?_ rfl
                  exact h.turn rfl rfl rfl rfl rfl (by simp)
                · exact h.rest rfl
              · rename_i hsame
                refine keeps_recover h he' ?_ ?_
                · intro hl
                  have hboth : (s.have_auth_ && m.sender_epoch == s.auth_epoch_) = true := by
                    simp [h.met hl, h.peer (h.met hl), he']
                  have hge := UInt32.not_lt.mp fun hlt => hold ⟨hboth, hlt⟩
                  have hne : m.generation ≠ s.cur_.generation := fun heq => hsame ⟨hboth, heq⟩
                  exact UInt32.lt_of_le_of_ne hge hne.symm
                · rw [← h.params]
                  exact legal_of_status hmask

theorem keeps_on_tick (h : Keeps p e s l) (now : UInt64) :
    Keeps p e (s.on_tick now).1 (l ++ activations (s.on_tick now).2) := by
  have hstatus : ∀ {q : HopsetFollower}, Keeps p e q l →
      Keeps p e (q.tick_status now).1 l ∧ activations (q.tick_status now).2 = [] := by
    intro q hq
    unfold HopsetFollower.tick_status
    split
    · exact ⟨hq.turn rfl rfl rfl rfl rfl id, rfl⟩
    · split
      · exact ⟨hq.turn rfl rfl rfl rfl rfl id, rfl⟩
      · exact ⟨hq, rfl⟩
  unfold HopsetFollower.on_tick
  split
  · rename_i hd
    have hauth : s.have_auth_ = true := by
      by_contra hno
      exact h.unmet (by simpa using hno) hd.1
    have hkept : Keeps p e s.activate.1 (l ++ [s.pend_]) :=
      h.puts rfl hauth (h.peer hauth) rfl rfl (h.ahead hd.1) (h.armed hd.1)
    exact hkept
  · split
    · refine Keeps.rest ?_ rfl
      exact h.turn rfl rfl rfl rfl rfl (by simp)
    · split
      · have hretry : Keeps p e { s with tries_ := s.tries_ + 1, last_prop_slot_ := now } l :=
          h.turn rfl rfl rfl rfl rfl id
        obtain ⟨hk, ha⟩ := hstatus hretry
        exact hk.rest ha
      · obtain ⟨hk, ha⟩ := hstatus h
        exact hk.rest ha

theorem keeps_feed (h : Keeps p e s l) {op : HopsetFollower.Op} (now : UInt64)
    (hop : OfEpoch e op) : Keeps p e (s.feed op now).1 (l ++ activations (s.feed op now).2) := by
  cases op with
  | propose mask observation_count reason_bitmap nonce =>
    show Keeps p e (s.propose _ _ _ _ now).1 (l ++ activations (s.propose _ _ _ _ now).2)
    unfold HopsetFollower.propose
    split
    · exact h.rest rfl
    · refine Keeps.rest ?_ rfl
      exact h.turn rfl rfl rfl rfl rfl (by simp)
  | commit m => exact keeps_on_commit h now hop
  | status m => exact keeps_on_status h now hop
  | marker marker_gen fp_matches marker_slot =>
    show Keeps p e (s.on_marker _ _ _).1 (l ++ activations (s.on_marker _ _ _).2)
    unfold HopsetFollower.on_marker
    simp only
    split
    · exact h.rest rfl
    · split
      · exact h.rest rfl
      · split
        · exact h.rest rfl
        · refine Keeps.rest ?_ rfl
          exact h.turn rfl rfl rfl rfl rfl (by simp)
  | tick => exact keeps_on_tick h now

/-- Before anything was put in force the generation is 0. -/
theorem Keeps.start_le (h : Keeps p e s l) {g : UInt32}
    (hnew : l ≠ [] → s.cur_.generation < g) : s.cur_.generation ≤ g := by
  by_cases hl : l = []
  · rw [h.start hl]
    exact UInt32.zero_le
  · exact UInt32.le_of_lt (hnew hl)

theorem forward_move (h : Keeps p e s l) {op : HopsetFollower.Op} {now : UInt64}
    {v : HopsetFollower.Hold} (hop : OfEpoch e op) (hm : HopsetFollower.Move s now op v) :
    s.cur_.generation ≤ v.cur.generation := by
  cases hm with
  | rest => exact UInt32.le_refl _
  | turns => exact UInt32.le_refl _
  | arms => exact UInt32.le_refl _
  | joins hage =>
    refine h.start_le fun hl => ?_
    have hauth := h.met hl
    exact hage hauth (hop.trans (h.peer hauth).symm)
  | recovers hrole hage =>
    refine h.start_le fun hl => ?_
    have hauth := h.met hl
    exact hage hauth ((hop hrole).trans (h.peer hauth).symm)
  | activates hst => exact h.start_le (h.ahead hst)

/-! ## Every run -/

theorem keeps_fresh (p : HopsetParams) (epoch e : UInt32) :
    Keeps p e (fresh p epoch).follower (fresh p epoch).activated where
  params := rfl
  peer h := by cases h
  unmet _ h := by cases h
  start _ := rfl
  met h := absurd rfl h
  below st h := by cases h
  sorted := List.Pairwise.nil
  ahead h := by cases h
  legal st h := by cases h
  armed h := by cases h

/-- The full mask of a proper base is legal. -/
theorem full_mask_valid {n : UInt64} {min_active : UInt32} (h1 : 1 ≤ n) (h64 : n ≤ 64)
    (hmin : min_active.toNat ≤ n.toNat) : mask_valid (full_mask n) n min_active = true := by
  have hne : n ≠ 0 := by
    rintro rfl
    exact absurd h1 (by decide)
  have hbase : ¬ (n = 0 ∨ n > kMaxBaseChannels) := by
    rintro (h | h)
    · exact hne h
    · exact absurd h64 (UInt64.not_le.mpr h)
  have hpart : full_mask n &&& ~~~(full_mask n) = 0 := by
    rw [← UInt64.toBitVec_inj]
    exact BitVec.and_not_self _
  have hcount : min_active ≤ popcount64 (full_mask n) := by
    rw [UInt32.le_iff_toNat_le, popcount64_full h64]
    exact hmin
  unfold mask_valid
  rw [if_neg hbase, if_neg (not_not.mpr hpart)]
  exact decide_eq_true hcount

/-- Under one boot of the authority each state that the follower puts in force has a greater
generation than the one before, the generation in force never falls, and every mask that is put
in force, or armed, is legal: the full one of generation 0, or one that passes the check. -/
theorem generations_only_go_forward (params : HopsetParams) (epoch e : UInt32)
    (is : List (HopsetFollower.Op × UInt64)) (his : ∀ i ∈ is, OfEpoch e i.1) :
    let w := run (fresh params epoch) is
    (w.activated.map (·.generation)).Pairwise (· < ·) ∧
      Runs.Along step Forward (fresh params epoch) is ∧
      (∀ st ∈ w.activated, Legal params st) ∧
      (w.follower.st_ = .Pending → Legal params w.follower.pend_) ∧
      (1 ≤ params.n_base → params.n_base ≤ 64 → params.min_active.toNat ≤ params.n_base.toNat →
        ∀ st ∈ w.activated, mask_valid st.active_mask params.n_base params.min_active = true) := by
  intro w
  have hall : Runs.Along step (fun _ i => OfEpoch e i.1) (fresh params epoch) is :=
    Runs.along_of_forall step (fun _ i hi => his i hi) _
  have h0 := keeps_fresh params epoch e
  have hkept : Keeps params e w.follower w.activated :=
    Runs.after_keeps_along step (P := fun w => Keeps params e w.follower w.activated) _ h0
      (fun v i hi h => keeps_feed h i.2 hi) is hall
  have hforward : Runs.Along step Forward (fresh params epoch) is := by
    refine Runs.along_imp step (P := fun w => Keeps params e w.follower w.activated) _ h0
      (fun v i h hi => keeps_feed h i.2 hi) ?_ is hall
    intro v i h hi
    exact forward_move h hi (HopsetFollower.feed_moves v.follower i.1 i.2).move
  refine ⟨hkept.sorted, hforward, hkept.legal, hkept.armed, ?_⟩
  intro h1 h64 hmin st hst
  rcases hkept.legal st hst with hvalid | ⟨-, hfull⟩
  · exact hvalid
  · rw [hfull]
    exact full_mask_valid h1 h64 hmin

/-- A commit that is armed. -/
def demoCommit : HopsetMsg where
  type := .HT_COMMIT
  tx_epoch := 7
  generation := 1
  active_mask := 3
  activate_slot := 20

/-- A beacon, of a generation whose commit was lost. -/
def demoBeacon (generation : UInt32) (active_mask : UInt64) : HopsetMsg where
  type := .HT_STATUS
  role := 1
  sender_epoch := 7
  generation := generation
  active_mask := active_mask
  activate_slot := 18

def demoForward : List (HopsetFollower.Op × UInt64) :=
  [(.status (demoBeacon 0 0), 5), (.commit demoCommit, 10), (.tick, 20),
    (.status (demoBeacon 4 6), 12)]

theorem demoForward_ofEpoch : ∀ i ∈ demoForward, OfEpoch 7 i.1 := by
  intro i hi
  simp only [demoForward, List.mem_cons, List.not_mem_nil, or_false] at hi
  rcases hi with rfl | rfl | rfl | rfl
  · exact fun _ => rfl
  · rfl
  · trivial
  · exact fun _ => rfl

/-- The slot clock falls back on the way, and the generations go on. -/
theorem a_follower_goes_forward :
    let w := run (fresh { n_base := 3 } 9) demoForward
    w.activated.map (·.generation) = [0, 1, 4] ∧ w.activated.map (·.active_mask) = [7, 3, 6] ∧
      (w.activated.map (·.generation)).Pairwise (· < ·) := by
  intro w
  have h := generations_only_go_forward { n_base := 3 } 9 7 demoForward demoForward_ofEpoch
  exact ⟨by decide +kernel, by decide +kernel, h.1⟩

end Journal

end devourer.hopset
