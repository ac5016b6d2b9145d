-- The accounts of the ground's exchanges. An exchange should end with one
-- result and one note to the gate, but three of the ways out of it leave
-- the note out, and an abort is taken when no exchange is open.
import Devourer.Chanmig.MigForeign

namespace devourer.chanmig

open MigAction MigProposer

namespace MigAction

def isDone : MigAction → Bool
  | Done _ => true
  | _ => false

def isGate : MigAction → Bool
  | GateNotify _ => true
  | _ => false

/-- How many results and how many notes to the gate a list of actions holds. -/
def closings (acts : List MigAction) : ℕ × ℕ := (acts.countP isDone, acts.countP isGate)

theorem closings_append (acts acts' : List MigAction) :
    closings (acts ++ acts') =
      ((closings acts).1 + (closings acts').1, (closings acts).2 + (closings acts').2) := by
  unfold closings
  rw [List.countP_append, List.countP_append]

@[simp] theorem closings_nil : closings [] = (0, 0) := rfl

/-- An action that is neither a result nor a note. -/
def Plain (a : MigAction) : Prop := isDone a = false ∧ isGate a = false

theorem plain_send (m : MigMsg) (unicast : Bool) : Plain (send m unicast) := by
  cases unicast <;> exact ⟨rfl, rfl⟩

theorem plain_retune (c : ChannelDef) : Plain (RetuneTo c) := ⟨rfl, rfl⟩

theorem plain_event (c : UInt8) : Plain (EmitEvent c) := ⟨rfl, rfl⟩

theorem closings_plain {a : MigAction} (ha : Plain a) (acts : List MigAction) :
    closings (a :: acts) = closings acts := by
  unfold closings
  rw [List.countP_cons_of_neg (by simp [ha.1]), List.countP_cons_of_neg (by simp [ha.2])]

@[simp] theorem closings_send (m : MigMsg) (unicast : Bool) (acts : List MigAction) :
    closings (send m unicast :: acts) = closings acts := closings_plain (plain_send m unicast) acts

@[simp] theorem closings_retune (c : ChannelDef) (acts : List MigAction) :
    closings (RetuneTo c :: acts) = closings acts := closings_plain (plain_retune c) acts

@[simp] theorem closings_event (c : UInt8) (acts : List MigAction) :
    closings (EmitEvent c :: acts) = closings acts := closings_plain (plain_event c) acts

@[simp] theorem closings_ev (s : MigProposer) (acts : List MigAction) :
    closings (s.ev :: acts) = closings acts := closings_event _ acts

end MigAction

namespace MigProposer

/-! ## The accounts of a run -/

def run (s : MigProposer) (ops : List Op) : MigProposer :=
  Runs.after (fun s op => (s.feed op).1) s ops

/-- What a run asks for, in order. -/
def acted (s : MigProposer) : List Op → List MigAction
  | [] => []
  | op :: ops => (s.feed op).2 ++ acted (s.feed op).1 ops

def Op.isStart : Op → Bool
  | .start _ _ _ _ => true
  | _ => false

/-- The flag of a controller that latches at a start and releases on a note to the gate. -/
def latched (s : MigProposer) (flag : Bool) : List Op → Bool
  | [] => flag
  | op :: ops =>
    latched (s.feed op).1 ((op.isStart || flag) && !(s.feed op).2.any isGate) ops

/-- Calls that begin with a start that leaves `Stable`, and that have not come back to it. -/
structure Underway (s : MigProposer) (ops : List Op) : Prop where
  stable : s.st_ = .Stable
  starts : ∃ op rest, ops = op :: rest ∧ op.isStart
  away : ∀ n, 0 < n → n ≤ ops.length → (s.run (ops.take n)).st_ ≠ .Stable

/-- An exchange is open after a run. -/
def Open (s : MigProposer) (ops : List Op) : Prop :=
  ∃ pre ex, ops = pre ++ ex ∧ Underway (s.run pre) ex

/-- From a start that leaves `Stable` to the next return there is one result and one note, there
is none of either while no exchange is open, and the flag is the exchange's. -/
structure Accounted (s : MigProposer) (ops : List Op) : Prop where
  once : ∀ pre ex op post, ops = pre ++ ex ++ op :: post → Underway (s.run pre) ex →
    (s.run (pre ++ ex ++ [op])).st_ = .Stable → closings ((s.run pre).acted (ex ++ [op])) = (1, 1)
  closed : ∀ pre op post, ops = pre ++ op :: post → ¬ Open s pre →
    closings ((s.run pre).feed op).2 = (0, 0)
  flag : ∀ pre post, ops = pre ++ post → (s.latched false pre = true ↔ Open s pre)

/-- The calls that end an exchange without a note, or that end or enter one when none is open: an
abort of a rollback that did not happen or of no exchange at all, a refused proposal, and the
last try of a proposal. -/
def Strays (s : MigProposer) : Op → Prop
  | .message m _ =>
    m.type = .MT_ABORT ∧ (m.effective = 0 ∨ s.st_ = .Stable) ∨
      m.type = .MT_STATUS ∧ s.st_ = .Proposed ∧ m.reason ≠ 0
  | .tick now => s.st_ = .Proposed ∧ s.next_send_ms_ ≤ now ∧ s.p_.proposal_max_tries ≤ s.tries_
  | _ => False

instance (s : MigProposer) : (op : Op) → Decidable (Strays s op)
  | .message m _ => inferInstanceAs (Decidable (m.type = .MT_ABORT ∧ (m.effective = 0 ∨
      s.st_ = .Stable) ∨ m.type = .MT_STATUS ∧ s.st_ = .Proposed ∧ m.reason ≠ 0))
  | .tick now => inferInstanceAs (Decidable (s.st_ = .Proposed ∧ s.next_send_ms_ ≤ now ∧
      s.p_.proposal_max_tries ≤ s.tries_))
  | .start _ _ _ _ => isFalse not_false
  | .retune_done => isFalse not_false
  | .video _ => isFalse not_false

/-! ## One call -/

/-- A call closes the account if it comes back to `Stable`, and is plain if it does not. -/
def Balanced (s : MigProposer) (t : MigProposer × List MigAction) : Prop :=
  closings t.2 = if s.st_ ≠ .Stable ∧ t.1.st_ = .Stable then (1, 1) else (0, 0)

/-- A call that asks for nothing that counts, and that does not come back to `Stable`. -/
theorem balanced_quiet {s : MigProposer} {t : MigProposer × List MigAction}
    (hq : closings t.2 = (0, 0)) (hst : t.1.st_ = .Stable → s.st_ = .Stable) : Balanced s t := by
  unfold Balanced
  rw [if_neg (fun h => h.1 (hst h.2)), hq]

theorem balanced_idle (s : MigProposer) : Balanced s (s, []) := balanced_quiet rfl id

theorem balanced_settled {s : MigProposer} {t : MigProposer × List MigAction}
    (hs : s.st_ ≠ .Stable) (ht : t.1.st_ = .Stable) (hc : closings t.2 = (1, 1)) :
    Balanced s t := by
  unfold Balanced
  rw [if_pos ⟨hs, ht⟩, hc]

theorem balanced_start (s : MigProposer) (target : ChannelDef) (evidence_gen : UInt32)
    (rescue : ChannelDef) (now : Int) :
    Balanced s (s.start target evidence_gen rescue now) := by
  unfold start
  split
  · exact balanced_idle s
  · apply balanced_quiet
    · simp
    · simp

theorem tick_committed_quiet (s : MigProposer) (now : Int) (hst : s.st_ ≠ .Stable) :
    closings (s.tick_committed now).2 = (0, 0) ∧ (s.tick_committed now).1.st_ ≠ .Stable := by
  unfold tick_committed tick_ack tick_activate
  simp only
  split <;> split <;> simp [hst]

theorem balanced_commit (s : MigProposer) (m : MigMsg) (now : Int) :
    Balanced s (s.on_commit m now) := by
  unfold on_commit
  split
  · exact balanced_idle s
  · split
    · obtain ⟨hc, hst⟩ := tick_committed_quiet (s.adopt_commit m now) now (by simp [adopt_commit])
      apply balanced_quiet
      · simpa using hc
      · exact fun h => absurd h hst
    · exact balanced_quiet (by simp) id
    · exact balanced_idle s

theorem balanced_follow (s : MigProposer) (chan : ChannelDef) (hst : s.st_ ≠ .Stable) :
    Balanced s (s.follow_drone chan) := by
  unfold follow_drone
  split
  · apply balanced_settled hst rfl
    -- the confirm stands before the note and the result
    simp only
    split <;> rfl
  · apply balanced_quiet
    · simp
    · simp

theorem balanced_status (s : MigProposer) (m : MigMsg)
    (h : ¬ (s.st_ = .Proposed ∧ m.reason ≠ 0)) : Balanced s (s.on_status m) := by
  unfold on_status
  rw [if_neg h]
  split
  · rename_i hh
    apply balanced_follow
    intro hst
    simp [hst] at hh
  · exact balanced_idle s

theorem balanced_recover (s : MigProposer) (c : ChannelDef) (hst : s.st_ ≠ .Stable) :
    Balanced s (s.recover_to c) := balanced_settled hst rfl rfl

theorem maybe_confirm_quiet (s : MigProposer) (now : Int) :
    closings (s.maybe_confirm now).2 = (0, 0) ∧ (s.maybe_confirm now).1.st_ = s.st_ := by
  unfold maybe_confirm
  split
  · exact ⟨by simp, rfl⟩
  · exact ⟨rfl, rfl⟩

theorem balanced_marker (s : MigProposer) (m : MigMsg) (now : Int) :
    Balanced s (s.on_marker m now) := by
  unfold on_marker
  split
  · exact balanced_idle s
  · split
    · rename_i hst
      split
      · exact balanced_quiet rfl id
      · split
        · exact balanced_idle s
        · obtain ⟨hc, hst'⟩ := maybe_confirm_quiet
            { s with got_gen_marker_ := true, markers_seen_ := s.markers_seen_ + 1 } now
          exact balanced_quiet hc (fun h => hst'.symm.trans h)
    · rename_i hst
      exact balanced_recover s m.aired_on (by simp [hst])
    · exact balanced_idle s

theorem balanced_abort (s : MigProposer) (m : MigMsg) (now : Int) (he : m.effective ≠ 0) :
    Balanced s (s.on_abort m now) := by
  unfold on_abort
  rw [if_neg he]
  apply balanced_quiet
  · simp
  · simp [enter_recovery]

theorem balanced_proposed (s : MigProposer) (now : Int)
    (h : ¬ (s.next_send_ms_ ≤ now ∧ s.p_.proposal_max_tries ≤ s.tries_)) :
    Balanced s (s.tick_proposed now) := by
  unfold tick_proposed
  split
  · exact balanced_idle s
  · rename_i hdue
    rw [if_neg (fun ht => h ⟨Int.not_lt.mp hdue, ht⟩)]
    exact balanced_quiet (by simp) id

theorem balanced_verifying (s : MigProposer) (now : Int) :
    Balanced s (s.tick_verifying now) := by
  unfold tick_verifying tick_confirm tick_follow
  simp only
  split <;> split
  · exact balanced_quiet (by simp) (by simp [enter_recovery])
  · exact balanced_quiet (by simp) id
  · exact balanced_quiet (by simp) (by simp [enter_recovery])
  · exact balanced_idle s

theorem balanced_recovery (s : MigProposer) (now : Int) : Balanced s (s.tick_recovery now) := by
  unfold tick_recovery
  split
  · exact balanced_idle s
  · apply balanced_quiet
    · simp only
      split <;> simp
    · exact id

theorem balanced_tick (s : MigProposer) (now : Int) (h : ¬ Strays s (.tick now)) :
    Balanced s (s.on_tick now) := by
  unfold on_tick
  split
  · rename_i hst
    exact balanced_proposed s now (fun hc => h ⟨hst, hc⟩)
  · rename_i hst
    obtain ⟨hc, hst'⟩ := tick_committed_quiet s now (by simp [hst])
    exact balanced_quiet hc (fun h => absurd h hst')
  · exact balanced_verifying s now
  · exact balanced_recovery s now
  · exact balanced_idle s

theorem balanced_retune_done (s : MigProposer) : Balanced s s.on_retune_done := by
  unfold on_retune_done
  split
  · exact balanced_idle s
  · rename_i hst
    have hst' : s.st_ = .Switching := not_not.mp hst
    split
    · exact balanced_settled (by simp [hst']) rfl rfl
    · apply balanced_quiet
      · simp
      · simp

theorem balanced_video (s : MigProposer) (now : Int) : Balanced s (s.on_video now) := by
  unfold on_video
  split
  · split
    · exact balanced_idle s
    · obtain ⟨hc, hst'⟩ := maybe_confirm_quiet { s with video_seen_ := s.video_seen_ + 1 } now
      exact balanced_quiet hc (fun h => hst'.symm.trans h)
  · rename_i hst
    exact balanced_recover s s.recov_channel (by simp [hst])
  · exact balanced_idle s

theorem balanced_message (s : MigProposer) (m : MigMsg) (now : Int)
    (h : ¬ Strays s (.message m now)) : Balanced s (s.on_message m now) := by
  unfold on_message
  split
  · exact balanced_commit s m now
  · rename_i ht
    exact balanced_status s m (fun hc => h (.inr ⟨ht, hc⟩))
  · exact balanced_marker s m now
  · rename_i ht
    exact balanced_abort s m now (fun he => h (.inl ⟨ht, .inl he⟩))
  · exact balanced_idle s

theorem feed_balanced (s : MigProposer) (op : Op) (h : ¬ Strays s op) : Balanced s (s.feed op) := by
  cases op with
  | start target evidence_gen rescue now => exact balanced_start s target evidence_gen rescue now
  | message m now => exact balanced_message s m now h
  | tick now => exact balanced_tick s now h
  | retune_done => exact balanced_retune_done s
  | video now => exact balanced_video s now

/-- With no exchange open, only a start leaves `Stable`. -/
theorem stable_stays (s : MigProposer) (op : Op) (hst : s.st_ = .Stable) (h : ¬ Strays s op) :
    (s.feed op).1.st_ = .Stable ∨ op.isStart = true := by
  cases op with
  | start target evidence_gen rescue now => exact .inr rfl
  | message m now =>
    left
    unfold feed on_message on_commit on_status on_marker
    simp only [hst, reduceCtorEq, false_and, or_self, and_false, if_false]
    split
    · split <;> exact hst
    · exact hst
    · split <;> exact hst
    · rename_i ht
      exact absurd (.inl ⟨ht, .inr hst⟩) h
    · exact hst
  | tick now => simp [feed, on_tick, hst]
  | retune_done => simp [feed, on_retune_done, hst]
  | video now => simp [feed, on_video, hst]

/-- A start asks for no note. -/
theorem start_leaves (s : MigProposer) (op : Op) (h : op.isStart = true) :
    (s.feed op).1.st_ ≠ .Stable ∧ closings (s.feed op).2 = (0, 0) := by
  cases op with
  | start target evidence_gen rescue now =>
    simp only [feed, start]
    split
    · rename_i hst
      exact ⟨hst, rfl⟩
    · exact ⟨by simp, by simp⟩
  | _ => simp [Op.isStart] at h

/-! ## Runs -/

theorem run_snoc (s : MigProposer) (ops : List Op) (op : Op) :
    s.run (ops ++ [op]) = ((s.run ops).feed op).1 := by
  unfold run
  rw [Runs.after_snoc]

theorem run_append (s : MigProposer) (ops ops' : List Op) :
    s.run (ops ++ ops') = (s.run ops).run ops' := Runs.after_append _ _ _ _

theorem acted_snoc (s : MigProposer) (ops : List Op) (op : Op) :
    s.acted (ops ++ [op]) = s.acted ops ++ ((s.run ops).feed op).2 := by
  induction ops generalizing s with
  | nil => simp [acted, run]
  | cons o ops ih =>
    rw [List.cons_append, acted, acted, ih, List.append_assoc]
    rfl

theorem latched_snoc (s : MigProposer) (flag : Bool) (ops : List Op) (op : Op) :
    s.latched flag (ops ++ [op]) =
      ((op.isStart || s.latched flag ops) && !((s.run ops).feed op).2.any isGate) := by
  induction ops generalizing s flag with
  | nil => rfl
  | cons o ops ih =>
    rw [List.cons_append, latched, latched, ih]
    rfl

/-- The calls of a run, none of which strays. -/
def Straight (s : MigProposer) (ops : List Op) : Prop :=
  Runs.Along (fun s op => (s.feed op).1) (fun s op => ¬ Strays s op) s ops

instance (s : MigProposer) (ops : List Op) : Decidable (Straight s ops) :=
  inferInstanceAs (Decidable (Runs.Along _ _ s ops))

theorem straight_snoc {s : MigProposer} {ops : List Op} {op : Op} :
    Straight s (ops ++ [op]) ↔ Straight s ops ∧ ¬ Strays (s.run ops) op := by
  unfold Straight
  rw [Runs.along_append]
  simp [Runs.Along, run]

theorem Open.away {s : MigProposer} {ops : List Op} (h : Open s ops) :
    (s.run ops).st_ ≠ .Stable := by
  obtain ⟨pre, ex, rfl, hu⟩ := h
  obtain ⟨op, rest, rfl, _⟩ := hu.starts
  have h := hu.away (op :: rest).length (by simp) (Nat.le_refl _)
  rwa [List.take_length, ← run_append] at h

/-- One more call that does not come back to `Stable` leaves an exchange underway. -/
theorem Underway.snoc {s : MigProposer} {ex : List Op} (h : Underway s ex) (op : Op)
    (hst : (s.run (ex ++ [op])).st_ ≠ .Stable) : Underway s (ex ++ [op]) := by
  refine ⟨h.stable, ?_, ?_⟩
  · obtain ⟨o, rest, rfl, ho⟩ := h.starts
    exact ⟨o, rest ++ [op], rfl, ho⟩
  · intro n hpos hn
    rcases Nat.lt_or_ge ex.length n with hlt | hle
    · rw [List.take_of_length_le (by simpa using Nat.succ_le_of_lt hlt)]
      exact hst
    · rw [List.take_append_of_le_length hle]
      exact h.away n hpos hle

/-- An exchange is open exactly in the states other than `Stable`. -/
theorem open_iff {s : MigProposer} (h0 : s.st_ = .Stable) {ops : List Op} (h : Straight s ops) :
    Open s ops ↔ (s.run ops).st_ ≠ .Stable := by
  constructor
  · exact Open.away
  · induction ops using List.reverseRecOn with
    | nil => exact fun hst => absurd h0 hst
    | append_singleton ops op ih =>
      intro hst
      obtain ⟨hops, hop⟩ := straight_snoc.mp h
      by_cases hbefore : (s.run ops).st_ = .Stable
      · -- the call is a start, and the exchange begins with it
        have hstart : op.isStart = true := by
          rcases stable_stays _ op hbefore hop with hs | hs
          · exact absurd (run_snoc s ops op ▸ hs) hst
          · exact hs
        refine ⟨ops, [op], rfl, hbefore, ⟨op, [], rfl, hstart⟩, ?_⟩
        intro n hpos hn
        rw [List.take_of_length_le (by simpa using Nat.succ_le_of_lt hpos), ← run_append]
        exact hst
      · obtain ⟨pre, ex, rfl, hu⟩ := ih hops hbefore
        refine ⟨pre, ex ++ [op], List.append_assoc _ _ _, hu.snoc op ?_⟩
        rw [← run_append, ← List.append_assoc]
        exact hst

/-- While an exchange is underway nothing is asked for that counts. -/
theorem underway_quiet {s : MigProposer} {ex : List Op} (hu : Underway s ex)
    (h : Straight s ex) : closings (s.acted ex) = (0, 0) := by
  induction ex using List.reverseRecOn with
  | nil => rfl
  | append_singleton ex op ih =>
    obtain ⟨hex, hop⟩ := straight_snoc.mp h
    rw [acted_snoc, closings_append]
    have hst : (s.run (ex ++ [op])).st_ ≠ .Stable := by
      have := hu.away (ex ++ [op]).length (by simp) (Nat.le_refl _)
      rwa [List.take_length] at this
    have hlast : closings ((s.run ex).feed op).2 = (0, 0) := by
      have hb := feed_balanced (s.run ex) op hop
      unfold Balanced at hb
      rwa [← run_snoc, if_neg (fun hc => hst hc.2)] at hb
    cases ex with
    | nil => rw [hlast]; rfl
    | cons o rest =>
      have hu' : Underway s (o :: rest) := by
        refine ⟨hu.stable, ?_, ?_⟩
        · obtain ⟨o', rest', he, ho⟩ := hu.starts
          cases he
          exact ⟨o, rest, rfl, ho⟩
        · intro n hpos hn
          have := hu.away n hpos (by simp at hn ⊢; omega)
          rwa [List.take_append_of_le_length hn] at this
      rw [ih hu' hex, hlast]
      rfl

theorem any_gate_iff (acts : List MigAction) : acts.any isGate = true ↔ (closings acts).2 ≠ 0 := by
  unfold closings
  simp [List.countP_eq_zero]

theorem flag_iff {s : MigProposer} (h0 : s.st_ = .Stable) {ops : List Op} (h : Straight s ops) :
    s.latched false ops = true ↔ (s.run ops).st_ ≠ .Stable := by
  induction ops using List.reverseRecOn with
  | nil => simp [latched, run, h0]
  | append_singleton ops op ih =>
    obtain ⟨hops, hop⟩ := straight_snoc.mp h
    have hb := feed_balanced (s.run ops) op hop
    unfold Balanced at hb
    rw [latched_snoc, run_snoc, Bool.and_eq_true, Bool.or_eq_true, ih hops, Bool.not_eq_true',
      ← Bool.not_eq_true, any_gate_iff, hb]
    by_cases hback : ((s.run ops).feed op).1.st_ = .Stable
    · -- back in `Stable`: by a note, or from `Stable` itself by a call that is no start
      by_cases hbefore : (s.run ops).st_ = .Stable
      · have hno : op.isStart = false := by
          by_contra hs
          exact (start_leaves _ op (by simpa using hs)).1 hback
        simp [hback, hbefore, hno]
      · simp [hback, hbefore]
    · by_cases hbefore : (s.run ops).st_ = .Stable
      · simp [hback, hbefore, (stable_stays _ op hbefore hop).resolve_left hback]
      · simp [hback, hbefore]

theorem straight_prefix {s : MigProposer} {pre post : List Op} (h : Straight s (pre ++ post)) :
    Straight s pre ∧ Straight (s.run pre) post := (Runs.along_append _).mp h

/-- In every run from the start none of whose calls strays, every exchange is resolved exactly
once, nothing is resolved while none is open, and a controller that latches at the start and
releases on the note has its flag up exactly while the exchange is open. -/
theorem every_exchange_is_resolved_once (params : MigParams) (link_id ground_epoch : UInt32)
    (source : ChannelDef) (ops : List Op)
    (h : Straight (init params link_id ground_epoch source) ops) :
    Accounted (init params link_id ground_epoch source) ops := by
  have h0 : (init params link_id ground_epoch source).st_ = .Stable := rfl
  constructor
  · rintro pre ex op post rfl hu hback
    obtain ⟨hpe, hrest⟩ := straight_prefix h
    obtain ⟨_, hex⟩ := straight_prefix hpe
    have hop := hrest.1
    have hopen : Open (init params link_id ground_epoch source) (pre ++ ex) := ⟨pre, ex, rfl, hu⟩
    have hb := feed_balanced _ op hop
    unfold Balanced at hb
    rw [run_snoc] at hback
    rw [acted_snoc, closings_append, underway_quiet hu hex, ← run_append]
    rw [if_pos ⟨hopen.away, hback⟩] at hb
    rw [hb]
    rfl
  · rintro pre op post rfl hno
    obtain ⟨hpre, hrest⟩ := straight_prefix h
    have hst : ((init params link_id ground_epoch source).run pre).st_ = .Stable := by
      by_contra hst
      exact hno ((open_iff h0 hpre).mpr hst)
    have hb := feed_balanced _ op hrest.1
    unfold Balanced at hb
    exact hb.trans (if_neg (fun hc => hc.1 hst))
  · rintro pre post rfl
    obtain ⟨hpre, _⟩ := straight_prefix h
    rw [flag_iff h0 hpre, open_iff h0 hpre]

/-- A move to channel 40 that ends where the drone says it settled. -/
def demoExchange : List Op :=
  [ .start (Link.channel5 40) 1 (Link.channel5 44) 100,
    .message { type := .MT_COMMIT, generation := 1, drone_epoch := 7, target := Link.channel5 40,
               ground_nonce_echo := mig_mix_nonce 0x11110001 1 0xA1 } 110,
    .retune_done,
    .message { type := .MT_STATUS, role := 1, generation := 1, current := Link.channel5 40 } 900 ]

theorem a_move_is_resolved_once :
    let s := init {} 0xC1 0x11110001 (Link.channel5 36)
    closings (s.acted demoExchange) = (1, 1) ∧ Accounted s demoExchange := by
  intro s
  have hstraight : Straight s demoExchange := by decide +kernel
  exact ⟨by decide +kernel, every_exchange_is_resolved_once _ _ _ _ _ hstraight⟩

/-- A proposal that the drone refuses because it is busy. -/
def demoRefusal : List Op :=
  [ .start (Link.channel5 40) 1 (Link.channel5 44) 100,
    .message { type := .MT_STATUS, role := 1, generation := 1, reason := 13 } 110 ]

/-- The ground is back in `Stable` with a result and no note, and the flag is up for good. -/
theorem a_refused_proposal_leaves_the_flag_up :
    let s := init {} 0xC1 0x11110001 (Link.channel5 36)
    (s.run demoRefusal).st_ = .Stable ∧ closings (s.acted demoRefusal) = (1, 0) ∧
      s.latched false demoRefusal = true ∧ ¬ Accounted s demoRefusal := by
  intro s
  have hst : (s.run demoRefusal).st_ = .Stable := by decide +kernel
  have hcount : closings (s.acted demoRefusal) = (1, 0) := by decide +kernel
  have hflag : s.latched false demoRefusal = true := by decide +kernel
  refine ⟨hst, hcount, hflag, ?_⟩
  intro h
  exact ((h.flag demoRefusal [] rfl).mp hflag).away hst

end MigProposer

end devourer.chanmig
