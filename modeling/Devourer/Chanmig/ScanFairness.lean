-- No bin of the scout is starved: what one turn does to the deadlines and to
-- the round, and what follows for every run of turns.
import Devourer.Chanmig.ScanPlan
import Devourer.Lib.Deadlines

namespace devourer.chanmig

namespace ScanScheduler

/-! ## Turns -/

def bin_count (s : ScanScheduler) : ℕ := s.bins_.length

/-- A dwell: when it was asked for, when it ended and how. -/
structure Turn where
  now_ms : ℤ
  done_ms : ℤ
  ok : Bool

def turn (s : ScanScheduler) (t : Turn) : ScanScheduler :=
  (s.next t.now_ms).2.complete (s.next t.now_ms).1 t.done_ms t.ok

/-- The bin that the next dwell is on, unless it is a full-width dwell. -/
def dwelt (s : ScanScheduler) (now_ms : ℤ) : Option ℕ :=
  if (s.next now_ms).1.valid && !(s.next now_ms).1.full_width then
    some (s.next now_ms).1.plan_index.toNat
  else none

section

variable (s : ScanScheduler) (now_ms : ℤ)

@[simp] theorem arm_cfg : (s.arm now_ms).cfg_ = s.cfg_ := (s.arm_keeps now_ms).cfg

@[simp] theorem arm_bins : (s.arm now_ms).bins_ = s.bins_ := by
  unfold arm
  split
  · rfl
  · rfl

@[simp] theorem arm_covered : (s.arm now_ms).covered_n_ = s.covered_n_ := by
  unfold arm
  split
  · rfl
  · rfl

@[simp] theorem arm_rounds : (s.arm now_ms).rounds_ = s.rounds_ := by
  unfold arm
  split
  · rfl
  · rfl

@[simp] theorem arm_bin (i : ℕ) : (s.arm now_ms).bin i = s.bin i := by
  unfold bin
  rw [arm_bins]

end

/-- What a turn does: it leaves the bins as they are, or it observes or fails the most overdue. -/
inductive Turned (s : ScanScheduler) (t : Turn) : ScanScheduler → Prop
  | aside {s' : ScanScheduler} (h : s.dwelt t.now_ms = none) (cfg : s'.cfg_ = s.cfg_)
      (bins : s'.bins_ = s.bins_) (covered : s'.covered_n_ = s.covered_n_)
      (rounds : s'.rounds_ = s.rounds_) : Turned s t s'
  | observed (hne : s.bins_ ≠ []) (h : s.dwelt t.now_ms = some s.most_overdue) (hok : t.ok = true) :
      Turned s t ((s.arm t.now_ms).cover_bin s.most_overdue t.done_ms)
  | failed (hne : s.bins_ ≠ []) (h : s.dwelt t.now_ms = some s.most_overdue) (hok : t.ok = false) :
      Turned s t ((s.arm t.now_ms).fail_bin s.most_overdue t.done_ms)

theorem turn_turned (s : ScanScheduler) (t : Turn) : s.Turned t (s.turn t) := by
  by_cases hbins : s.bins_ = []
  · have hnext : s.next t.now_ms = ({}, s) := by rw [ScanScheduler.next, if_pos hbins]
    have hturn : s.turn t = s := by
      unfold turn
      rw [hnext]
      rfl
    rw [hturn]
    refine .aside ?_ rfl rfl rfl rfl
    unfold dwelt
    rw [hnext]
    rfl
  · by_cases hwide : (s.arm t.now_ms).wide_due t.now_ms = true
    · have hnext : s.next t.now_ms = ((s.arm t.now_ms).wide_dwell, s.arm t.now_ms) := by
        rw [ScanScheduler.next, if_neg hbins, if_pos hwide]
      unfold turn
      rw [hnext]
      refine .aside ?_ (s.arm_cfg _) (s.arm_bins _) (s.arm_covered _) (s.arm_rounds _)
      unfold dwelt
      rw [hnext]
      rfl
    · have hnext : s.next t.now_ms = ((s.arm t.now_ms).bin_dwell, s.arm t.now_ms) := by
        rw [ScanScheduler.next, if_neg hbins, if_neg hwide]
      have hsame : (s.arm t.now_ms).most_overdue = s.most_overdue := by
        simp only [most_overdue, arm_bins, arm_bin]
      have hdwelt : s.dwelt t.now_ms = some s.most_overdue := by
        unfold dwelt
        rw [hnext]
        simp [ScanScheduler.bin_dwell, hsame]
      have hlt := most_overdue_lt hbins
      have hturn : s.turn t = if t.ok then (s.arm t.now_ms).cover_bin s.most_overdue t.done_ms
          else (s.arm t.now_ms).fail_bin s.most_overdue t.done_ms := by
        unfold turn
        rw [hnext]
        simp [complete, ScanScheduler.bin_dwell, hsame, hlt]
      rw [hturn]
      cases hok : t.ok with
      | true => exact .observed hbins hdwelt hok
      | false => exact .failed hbins hdwelt hok

theorem bin_field {α : Type*} (s : ScanScheduler) (i : ℕ) (g : Bin → α) :
    (s.bins_.map g).getD i (g {}) = g (s.bin i) := List.getD_map _ _ _

/-- What a failure leaves of the bins: every field but the deadline and the failures. -/
theorem fail_bin_map {α : Type*} (s : ScanScheduler) (now_ms : ℤ) (i : ℕ) (done_ms : ℤ)
    (g : Bin → α) (hg : g { s.bin i with
      deadline_ms := done_ms + s.cfg_.fail_retry_ms, fails := (s.bin i).fails + 1 } = g (s.bin i)) :
    ((s.arm now_ms).fail_bin i done_ms).bins_.map g = s.bins_.map g := by
  rw [fail_bin, arm_bins, arm_bin, arm_cfg]
  exact s.map_set_bin i g hg

/-! ## Rounds -/

/-- The count of the covered bins, and those that were observed since the last full round. -/
structure Covers (s : ScanScheduler) (since : List ℕ) : Prop where
  count : s.covered_n_ = s.bins_.countP (·.covered)
  marked : ∀ j < s.bin_count, (s.bin j).covered = true ↔ j ∈ since
  short : s.bins_ ≠ [] → ∃ j < s.bin_count, j ∉ since

theorem bin_set (s : ScanScheduler) {bins : List Bin} {i : ℕ} {b : Bin} (hi : i < s.bin_count)
    (hbins : bins = s.bins_.set i b) (j : ℕ) :
    bins.getD j {} = if j = i then b else s.bin j := by
  have hlen : i < s.bins_.length := hi
  rw [hbins, List.getD_eq_getElem?_getD, List.getElem?_set]
  by_cases hij : i = j
  · simp [hij, hij ▸ hlen]
  · rw [if_neg hij, if_neg (Ne.symm hij)]
    exact (List.getD_eq_getElem?_getD).symm

/-- The bins of which one was just observed are all covered exactly if the others were. -/
theorem countP_set_covered {s : ScanScheduler} {i : ℕ} {b : Bin} (hi : i < s.bin_count)
    (hb : b.covered = true) (hold : (s.bin i).covered = false) :
    (s.bins_.set i b).countP (·.covered) = s.bins_.countP (·.covered) + 1 := by
  have hlen : i < s.bins_.length := hi
  have hget : s.bins_[i].covered = false := by
    rw [bin, List.getD_eq_getElem _ _ hlen] at hold
    exact hold
  rw [List.countP_set hlen]
  simp [hb, hget]

theorem countP_eq_length_iff {bins : List Bin} :
    bins.countP (·.covered) = bins.length ↔ ∀ j < bins.length, (bins.getD j {}).covered = true := by
  rw [List.countP_eq_length]
  constructor
  · intro h j hj
    rw [List.getD_eq_getElem _ _ hj]
    exact h _ (List.getElem_mem hj)
  · intro h b hb
    obtain ⟨j, hj, rfl⟩ := List.mem_iff_getElem.mp hb
    have hcovered := h j hj
    rwa [List.getD_eq_getElem _ _ hj] at hcovered

theorem marked_set {s : ScanScheduler} {since : List ℕ} (h : s.Covers since) {i : ℕ} {b : Bin}
    (hi : i < s.bin_count) (hb : b.covered = true) :
    ∀ j < s.bin_count, ((s.bins_.set i b).getD j {}).covered = true ↔ j ∈ since ++ [i] := by
  intro j hj
  rw [s.bin_set hi rfl, List.mem_append, List.mem_singleton, ← h.marked j hj]
  by_cases hij : j = i
  · simp [hij, hb]
  · simp [hij]

/-- One more observation of a bin that is covered already. -/
theorem covers_again {s : ScanScheduler} {since : List ℕ} (h : s.Covers since) {i : ℕ} {b : Bin}
    (hi : i < s.bin_count) (hb : b.covered = true) (hold : (s.bin i).covered = true)
    {s' : ScanScheduler} (hbins : s'.bins_ = s.bins_.set i b) (hn : s'.covered_n_ = s.covered_n_) :
    s'.Covers (since ++ [i]) := by
  have hcount : s'.bin_count = s.bin_count := by
    rw [bin_count, hbins, List.length_set]
    rfl
  have hmap := s.map_set_bin i (·.covered) (hb.trans hold.symm)
  refine ⟨?_, ?_, ?_⟩
  · have hsame := congrArg (List.countP id) hmap
    rw [List.countP_map, List.countP_map] at hsame
    rw [hn, h.count, hbins]
    exact hsame.symm
  · intro j hj
    rw [hcount] at hj
    rw [bin, hbins]
    exact marked_set h hi hb j hj
  · intro hne
    rw [hcount]
    obtain ⟨j, hj, hout⟩ := h.short (by rintro hnil; simp [hbins, hnil] at hne)
    refine ⟨j, hj, ?_⟩
    have hin : i ∈ since := (h.marked i hi).mp hold
    rw [List.mem_append, List.mem_singleton]
    rintro (hj' | rfl)
    · exact hout hj'
    · exact hout hin

/-- A round starts with no bin covered. -/
theorem covers_nil {s : ScanScheduler} (hbins : ∀ b ∈ s.bins_, b.covered = false)
    (hn : s.covered_n_ = 0) : s.Covers [] := by
  refine ⟨?_, ?_, ?_⟩
  · rw [hn]
    apply Eq.symm
    apply List.countP_eq_zero.mpr
    intro b hb
    simp [hbins b hb]
  · intro j hj
    have hlen : j < s.bins_.length := hj
    have hfalse := hbins _ (List.getElem_mem hlen)
    rw [bin, List.getD_eq_getElem _ _ hlen, hfalse]
    simp
  · intro hne
    exact ⟨0, List.length_pos_iff.mpr hne, List.not_mem_nil⟩

/-- One observation: the round closes exactly if every bin was observed since the last one. -/
theorem cover_bin_covers {s : ScanScheduler} {since : List ℕ} (h : s.Covers since) {i : ℕ}
    (hi : i < s.bin_count) (now_ms : ℤ) :
    ((∀ j < s.bin_count, j ∈ since ++ [i]) → (s.cover_bin i now_ms).rounds_ = s.rounds_ + 1 ∧
      (s.cover_bin i now_ms).Covers []) ∧
    (¬ (∀ j < s.bin_count, j ∈ since ++ [i]) → (s.cover_bin i now_ms).rounds_ = s.rounds_ ∧
      (s.cover_bin i now_ms).Covers (since ++ [i])) := by
  have hne : s.bins_ ≠ [] := List.ne_nil_of_length_pos ((Nat.zero_le i).trans_lt hi)
  unfold cover_bin
  dsimp only
  generalize hdone : ({ s.bin i with
    deadline_ms := now_ms + (s.bin i).cadence_ms, fails := 0, covered := true } : Bin) = done
  have hb : done.covered = true := by rw [← hdone]
  have hmarked := marked_set h hi hb
  by_cases hold : (s.bin i).covered = true
  · rw [if_pos hold]
    refine ⟨?_, fun _ => ⟨rfl, covers_again h hi hb hold rfl rfl⟩⟩
    intro hall
    obtain ⟨j, hj, hout⟩ := h.short hne
    rcases List.mem_append.mp (hall j hj) with hin | hin
    · exact absurd hin hout
    · rw [List.mem_singleton.mp hin] at hout
      exact absurd ((h.marked i hi).mp hold) hout
  · rw [if_neg hold]
    have hcount := countP_set_covered hi hb (Bool.eq_false_iff.mpr hold)
    have hfull : s.covered_n_ + 1 = (s.bins_.set i done).length ↔
        ∀ j < s.bin_count, j ∈ since ++ [i] := by
      rw [h.count, ← hcount, countP_eq_length_iff, List.length_set]
      exact forall₂_congr hmarked
    by_cases hall : s.covered_n_ + 1 = (s.bins_.set i done).length
    · rw [if_pos hall]
      refine ⟨fun _ => ⟨rfl, covers_nil ?_ rfl⟩, fun hnot => absurd (hfull.mp hall) hnot⟩
      intro b hmem
      obtain ⟨b', -, rfl⟩ := List.mem_map.mp hmem
      rfl
    · rw [if_neg hall]
      refine ⟨fun hin => absurd (hfull.mpr hin) hall, fun hnot => ⟨rfl, ?_, ?_, ?_⟩⟩
      · rw [h.count, ← hcount]
      · intro j hj
        have hj' : j < s.bin_count := by simpa [bin_count] using hj
        exact hmarked j hj'
      · intro _
        push Not at hnot
        simpa [bin_count] using hnot

/-- A scheduler, and the bins that were observed since its rounds last rose. -/
structure Watched where
  scheduler : ScanScheduler
  since : List ℕ := []

namespace Watched

/-- The bin that a turn observes. A failed dwell and a full-width one observe none. -/
def observes (w : Watched) (t : Turn) : List ℕ :=
  if t.ok then (w.scheduler.dwelt t.now_ms).toList else []

def turn (w : Watched) (t : Turn) : Watched :=
  { scheduler := w.scheduler.turn t
    since := if (w.scheduler.turn t).rounds_ = w.scheduler.rounds_ then w.since ++ w.observes t
      else [] }

/-- A bin is observed, and then every bin was since the rounds last rose. -/
def Closes (w : Watched) (t : Turn) : Prop :=
  w.observes t ≠ [] ∧ ∀ j < w.scheduler.bin_count, j ∈ w.since ++ w.observes t

/-- Where nothing is observed the round stands, and what covers it. -/
theorem stands {w : Watched} {t : Turn} {s' : ScanScheduler} (h : w.scheduler.Covers w.since)
    (hs' : w.scheduler.turn t = s') (hnone : w.observes t = [])
    (hmap : s'.bins_.map (·.covered) = w.scheduler.bins_.map (·.covered))
    (hn : s'.covered_n_ = w.scheduler.covered_n_) (hrounds : s'.rounds_ = w.scheduler.rounds_) :
    (¬ w.Closes t ∧ (w.turn t).scheduler.rounds_ = w.scheduler.rounds_) ∧
      (w.turn t).scheduler.Covers (w.turn t).since := by
  have hlen : s'.bin_count = w.scheduler.bin_count := by
    have := congrArg List.length hmap
    rwa [List.length_map, List.length_map] at this
  have hbin : ∀ j, (s'.bin j).covered = (w.scheduler.bin j).covered := by
    intro j
    rw [← s'.bin_field j (·.covered), ← w.scheduler.bin_field j (·.covered), hmap]
  have hwatched : w.turn t = { scheduler := s', since := w.since } := by
    unfold turn
    rw [hs', hrounds, if_pos rfl, hnone, List.append_nil]
  rw [hwatched]
  refine ⟨⟨fun hclose => hclose.1 hnone, hrounds⟩, ?_, ?_, ?_⟩
  · have hsame := congrArg (List.countP id) hmap
    rw [List.countP_map, List.countP_map] at hsame
    exact hn.trans (h.count.trans hsame.symm)
  · intro j hj
    rw [hbin j]
    exact h.marked j (hlen ▸ hj)
  · intro hne
    rw [hlen]
    apply h.short
    intro hnil
    rw [hnil] at hmap
    exact hne (List.map_eq_nil_iff.mp hmap)

/-- A turn that observes a bin: the rounds rise by one exactly if it closes the round. -/
theorem covers_of_observed {w : Watched} {t : Turn} {i : ℕ} (h : w.scheduler.Covers w.since)
    (hi : i < w.scheduler.bin_count) (hone : w.observes t = [i])
    (hturn : w.scheduler.turn t = (w.scheduler.arm t.now_ms).cover_bin i t.done_ms) :
    (w.Closes t ∧ (w.turn t).scheduler.rounds_ = w.scheduler.rounds_ + 1 ∨
      ¬ w.Closes t ∧ (w.turn t).scheduler.rounds_ = w.scheduler.rounds_) ∧
      (w.turn t).scheduler.Covers (w.turn t).since := by
  have hcount : (w.scheduler.arm t.now_ms).bin_count = w.scheduler.bin_count := by
    rw [bin_count, arm_bins]
    rfl
  have harm : (w.scheduler.arm t.now_ms).Covers w.since := by
    refine ⟨?_, ?_, ?_⟩
    · simpa using h.count
    · simpa [bin_count] using h.marked
    · simpa [bin_count] using h.short
  obtain ⟨hcloses, hstands⟩ := cover_bin_covers harm (hcount.symm ▸ hi) t.done_ms
  rw [hcount, arm_rounds] at hcloses hstands
  unfold Closes turn
  rw [hturn, hone]
  by_cases hall : ∀ j < w.scheduler.bin_count, j ∈ w.since ++ [i]
  · obtain ⟨hrounds, hcovers⟩ := hcloses hall
    refine ⟨.inl ⟨⟨List.cons_ne_nil _ _, hall⟩, hrounds⟩, ?_⟩
    simp only [hrounds, Nat.succ_ne_self, if_false]
    exact hcovers
  · obtain ⟨hrounds, hcovers⟩ := hstands hall
    refine ⟨.inr ⟨fun hclose => hall hclose.2, hrounds⟩, ?_⟩
    simp only [hrounds, if_true]
    exact hcovers

/-- One turn: the rounds rise by one exactly if it closes the round. -/
theorem turn_covers {w : Watched} (h : w.scheduler.Covers w.since) (t : Turn) :
    (w.Closes t ∧ (w.turn t).scheduler.rounds_ = w.scheduler.rounds_ + 1 ∨
      ¬ w.Closes t ∧ (w.turn t).scheduler.rounds_ = w.scheduler.rounds_) ∧
      (w.turn t).scheduler.Covers (w.turn t).since := by
  have hturned := w.scheduler.turn_turned t
  generalize hs' : w.scheduler.turn t = s' at hturned
  cases hturned with
  | aside hdwelt cfg bins covered rounds =>
    have hnone : w.observes t = [] := by
      unfold observes
      rw [hdwelt]
      split
      · rfl
      · rfl
    obtain ⟨hrounds, hcovers⟩ := stands h hs' hnone (by rw [bins]) covered rounds
    exact ⟨.inr hrounds, hcovers⟩
  | failed hne hdwelt hok =>
    have hnone : w.observes t = [] := by
      unfold observes
      rw [hok]
      rfl
    have hmap :=
      w.scheduler.fail_bin_map t.now_ms w.scheduler.most_overdue t.done_ms (·.covered) rfl
    obtain ⟨hrounds, hcovers⟩ := stands h hs' hnone hmap (arm_covered _ _) (arm_rounds _ _)
    exact ⟨.inr hrounds, hcovers⟩
  | observed hne hdwelt hok =>
    have hone : w.observes t = [w.scheduler.most_overdue] := by
      unfold observes
      rw [hok, hdwelt]
      rfl
    exact covers_of_observed h (most_overdue_lt hne) hone hs'

end Watched

/-! ## Deadlines -/

/-- Every deadline that is given is later than the time it is given at. -/
structure Paced (s : ScanScheduler) : Prop where
  cadence : ∀ b ∈ s.bins_, 0 < b.cadence_ms
  retry : 0 < s.cfg_.fail_retry_ms

def deadlines (s : ScanScheduler) (i : ℕ) : ℤ := (s.bin i).deadline_ms

theorem deadlines_of_set {s s' : ScanScheduler} {i : ℕ} {v : ℤ} (hi : i < s.bin_count)
    (h : s'.bins_.map (·.deadline_ms) = (s.bins_.map (·.deadline_ms)).set i v) :
    s'.deadlines = Deadlines.serve s.deadlines (i, v) := by
  have hlen : i < s.bins_.length := hi
  funext j
  rw [deadlines, ← s'.bin_field j (·.deadline_ms), h, List.getD_eq_getElem?_getD, List.getElem?_set]
  by_cases hij : i = j
  · subst hij
    simp [Deadlines.serve, hlen]
  · rw [if_neg hij, ← List.getD_eq_getElem?_getD, s.bin_field j (·.deadline_ms)]
    have hother : Deadlines.serve s.deadlines (i, v) j = s.deadlines j :=
      Function.update_of_ne (Ne.symm hij) _ _
    exact hother.symm

theorem paced_of_map {s s' : ScanScheduler} (h : s.Paced) (hcfg : s'.cfg_ = s.cfg_)
    (hmap : s'.bins_.map (·.cadence_ms) = s.bins_.map (·.cadence_ms)) : s'.Paced := by
  refine ⟨?_, hcfg ▸ h.retry⟩
  intro b hb
  have hmem : b.cadence_ms ∈ s'.bins_.map (·.cadence_ms) := List.mem_map_of_mem hb
  rw [hmap] at hmem
  obtain ⟨b', hb', heq⟩ := List.mem_map.mp hmem
  exact heq ▸ h.cadence b' hb'

theorem most_overdue_next {s : ScanScheduler} (h : s.bins_ ≠ []) :
    Deadlines.Next s.bin_count s.deadlines s.most_overdue := by
  have hlen : s.bin_count = s.bins_.length - 1 + 1 :=
    (Nat.sub_add_cancel (List.length_pos_iff.mpr h)).symm
  rw [hlen]
  exact Deadlines.next_of_loop _ _

/-- What an observation does to the fields of the bins that the round does not change. -/
theorem cover_bin_map {α : Type*} (s : ScanScheduler) (i : ℕ) (now_ms : ℤ) (g : Bin → α)
    (hg : ∀ b : Bin, g { b with covered := false } = g b) :
    (s.cover_bin i now_ms).bins_.map g = (s.bins_.map g).set i (g { s.bin i with
      deadline_ms := now_ms + (s.bin i).cadence_ms, fails := 0, covered := true }) := by
  have hreset : (fun b : Bin => g { b with covered := false }) = g := funext hg
  unfold cover_bin
  dsimp only
  split
  · exact List.map_set
  · split
    · rw [List.map_map]
      exact (congrArg (List.map · _) hreset).trans List.map_set
    · exact List.map_set

/-- A turn changes one deadline at most, that of the bin it is on, which is the next one. -/
inductive Served (s : ScanScheduler) (t : Turn) (s' : ScanScheduler) : Prop
  | none (h : s.dwelt t.now_ms = none) (same : s'.deadlines = s.deadlines)
  | one (i : ℕ) (h : s.dwelt t.now_ms = some i) (next : Deadlines.Next s.bin_count s.deadlines i)
      (later : t.done_ms < s'.deadlines i)
      (served : s'.deadlines = Deadlines.serve s.deadlines (i, s'.deadlines i))

theorem served_of_map {s s' : ScanScheduler} {t : Turn} {v : ℤ} (h : s.Paced) (hne : s.bins_ ≠ [])
    (hdwelt : s.dwelt t.now_ms = some s.most_overdue) (hcfg : s'.cfg_ = s.cfg_) (hv : t.done_ms < v)
    (hcadence : s'.bins_.map (·.cadence_ms) = s.bins_.map (·.cadence_ms))
    (hdeadline : s'.bins_.map (·.deadline_ms) =
      (s.bins_.map (·.deadline_ms)).set s.most_overdue v) :
    s'.Paced ∧ s'.bin_count = s.bin_count ∧ Served s t s' := by
  have hserve := deadlines_of_set (most_overdue_lt hne) hdeadline
  have hself : s'.deadlines s.most_overdue = v := by
    rw [hserve]
    exact Function.update_self _ _ _
  refine ⟨paced_of_map h hcfg hcadence, ?_, .one _ hdwelt (most_overdue_next hne) (hself ▸ hv) ?_⟩
  · have hlen := congrArg List.length hcadence
    rwa [List.length_map, List.length_map] at hlen
  · rw [hself]
    exact hserve

theorem turn_served {s : ScanScheduler} (h : s.Paced) (t : Turn) :
    (s.turn t).Paced ∧ (s.turn t).bin_count = s.bin_count ∧ Served s t (s.turn t) := by
  have hturned := s.turn_turned t
  generalize s.turn t = s' at hturned ⊢
  cases hturned with
  | aside hdwelt cfg bins covered rounds =>
    refine ⟨paced_of_map h cfg (by rw [bins]), by rw [bin_count, bins, bin_count], .none hdwelt ?_⟩
    funext j
    rw [deadlines, bin, bins]
    rfl
  | observed hne hdwelt hok =>
    have hcadence := (s.arm t.now_ms).cover_bin_map s.most_overdue t.done_ms (·.cadence_ms)
      fun _ => rfl
    have hdeadline := (s.arm t.now_ms).cover_bin_map s.most_overdue t.done_ms (·.deadline_ms)
      fun _ => rfl
    have hcfg := ((s.arm t.now_ms).cover_bin_keeps s.most_overdue t.done_ms).cfg
    rw [arm_bins, arm_bin] at hcadence hdeadline
    rw [arm_cfg] at hcfg
    have hmem : s.bin s.most_overdue ∈ s.bins_ := by
      rw [bin, List.getD_eq_getElem _ _ (most_overdue_lt hne)]
      exact List.getElem_mem _
    have hsame := hcadence.trans (List.map_set.symm.trans
      (s.map_set_bin s.most_overdue (·.cadence_ms) rfl))
    exact served_of_map h hne hdwelt hcfg (lt_add_of_pos_right _ (h.cadence _ hmem)) hsame hdeadline
  | failed hne hdwelt hok =>
    have hcadence := s.fail_bin_map t.now_ms s.most_overdue t.done_ms (·.cadence_ms) rfl
    have hdeadline :
        ((s.arm t.now_ms).fail_bin s.most_overdue t.done_ms).bins_.map (·.deadline_ms) =
        (s.bins_.map (·.deadline_ms)).set s.most_overdue (t.done_ms + s.cfg_.fail_retry_ms) := by
      rw [fail_bin, arm_bins, List.map_set, arm_cfg]
    exact served_of_map h hne hdwelt (s.arm_cfg _) (lt_add_of_pos_right _ h.retry)
      hcadence hdeadline

/-- The bin dwells of a run, each with the deadline that it leaves. -/
def bin_dwells (s : ScanScheduler) : List Turn → List (ℕ × ℤ)
  | [] => []
  | t :: ts =>
    (s.dwelt t.now_ms).toList.map (fun i => (i, (s.turn t).deadlines i)) ++ (s.turn t).bin_dwells ts

/-- The times of the calls do not decrease, from `now_ms` on. -/
def Timed (now_ms : ℤ) : List Turn → Prop
  | [] => True
  | t :: ts => now_ms ≤ t.now_ms ∧ t.now_ms ≤ t.done_ms ∧ Timed t.done_ms ts

theorem Timed.mono {m n : ℤ} {ts : List Turn} (h : Timed n ts) (hmn : m ≤ n) : Timed m ts := by
  cases ts with
  | nil => trivial
  | cons t ts => exact ⟨hmn.trans h.1, h.2⟩

theorem bin_dwells_along {s : ScanScheduler} (h : s.Paced) {now_ms : ℤ} {ts : List Turn}
    (ht : Timed now_ms ts) :
    Runs.Along Deadlines.serve (fun d b => Deadlines.Next s.bin_count d b.1 ∧ now_ms < b.2)
      s.deadlines (s.bin_dwells ts) := by
  induction ts generalizing s with
  | nil => trivial
  | cons t ts ih =>
    obtain ⟨hpaced, hcount, hserved⟩ := turn_served h t
    have hle := ht.1.trans ht.2.1
    have hrest := ih hpaced (ht.2.2.mono hle)
    rw [hcount] at hrest
    unfold bin_dwells
    cases hserved with
    | none hdwelt hsame =>
      rw [hdwelt, ← hsame]
      exact hrest
    | one i hdwelt hnext hlater hserve =>
      rw [hdwelt]
      refine ⟨⟨hnext, hle.trans_lt hlater⟩, ?_⟩
      rw [← hserve]
      exact hrest

/-! ## From the candidates -/

theorem add_bin_forall {P : Bin → Prop} {band ch : UInt8} {cadence : ℤ} {bins : List Bin}
    (hnew : P { ch, band, cadence_ms := cadence })
    (hfaster : ∀ b, P b → P { b with cadence_ms := cadence }) (h : ∀ b ∈ bins, P b) :
    ∀ b ∈ add_bin band cadence bins ch, P b := by
  intro b hb
  unfold add_bin at hb
  split at hb
  · rcases List.mem_append.mp hb with hb | hb
    · exact h b hb
    · rw [List.mem_singleton.mp hb]
      exact hnew
  · obtain ⟨j, hj, rfl⟩ := List.mem_iff_getElem.mp hb
    rw [List.length_modify] at hj
    rw [List.getElem_modify]
    have hold := h _ (List.getElem_mem hj)
    split
    · split
      · exact hfaster _ hold
      · exact hold
    · exact hold

/-- What every bin has that is made with one of the two cadences. -/
theorem create_forall {cfg : ScanPlanConfig} {P : Bin → Prop}
    (hnew : ∀ ch band, ∀ cadence ∈ [cfg.backup_revisit_ms, cfg.bg_revisit_ms],
      P { ch, band, cadence_ms := cadence })
    (hfaster : ∀ b, ∀ cadence ∈ [cfg.backup_revisit_ms, cfg.bg_revisit_ms],
      P b → P { b with cadence_ms := cadence }) :
    (create cfg).covered_n_ = 0 ∧ ∀ b ∈ (create cfg).bins_, P b := by
  have hkeeps := Runs.after_keeps add_candidate
    (P := fun s => s.cfg_ = cfg ∧ s.covered_n_ = 0 ∧ ∀ b ∈ s.bins_, P b) { cfg_ := cfg }
    ⟨rfl, rfl, fun b hb => absurd hb List.not_mem_nil⟩ ?_ cfg.candidates.zipIdx
  · exact hkeeps.2
  · rintro s c ⟨hcfg, hn, hbins⟩
    have hcadence : (if c.1.backup then s.cfg_.backup_revisit_ms else s.cfg_.bg_revisit_ms) ∈
        [cfg.backup_revisit_ms, cfg.bg_revisit_ms] := by
      rw [hcfg]
      split
      · exact List.mem_cons_self
      · exact List.mem_cons_of_mem _ List.mem_cons_self
    refine ⟨hcfg, hn, ?_⟩
    apply Runs.after_keeps (add_bin c.1.band _) (P := fun bins => ∀ b ∈ bins, P b)
    · exact hbins
    · intro bins ch h
      exact add_bin_forall (hnew ch _ _ hcadence) (fun b => hfaster b _ hcadence) h

theorem create_paced {cfg : ScanPlanConfig} (hbackup : 0 < cfg.backup_revisit_ms)
    (hbg : 0 < cfg.bg_revisit_ms) (hretry : 0 < cfg.fail_retry_ms) : (create cfg).Paced := by
  have hpos : ∀ cadence ∈ [cfg.backup_revisit_ms, cfg.bg_revisit_ms], 0 < cadence := by
    simp [hbackup, hbg]
  refine ⟨(create_forall ?_ ?_).2, (create_cfg cfg).symm ▸ hretry⟩
  · intro ch band cadence hcadence
    exact hpos cadence hcadence
  · intro b cadence hcadence _
    exact hpos cadence hcadence

theorem create_covers (cfg : ScanPlanConfig) : (create cfg).Covers [] := by
  obtain ⟨hn, hbins⟩ := create_forall (P := fun b => b.covered = false) (fun _ _ _ _ => rfl)
    fun _ _ _ h => h
  exact covers_nil hbins hn

/-- A fresh scheduler after these turns, watched. -/
def watch (cfg : ScanPlanConfig) (turns : List Turn) : Watched :=
  Runs.after Watched.turn { scheduler := create cfg } turns

/-- The rounds count full rounds, and a bin that is due gets one of the next dwells, of as many as
there are bins: whoever fails, and however fast the other bins come back. -/
theorem scheduling_is_fair (cfg : ScanPlanConfig) (hbackup : 0 < cfg.backup_revisit_ms)
    (hbg : 0 < cfg.bg_revisit_ms) (hretry : 0 < cfg.fail_retry_ms) (turns : List Turn) :
    (∀ t, (watch cfg turns).Closes t ∧ (watch cfg (turns ++ [t])).scheduler.rounds_ =
          (watch cfg turns).scheduler.rounds_ + 1 ∨
        ¬ (watch cfg turns).Closes t ∧ (watch cfg (turns ++ [t])).scheduler.rounds_ =
          (watch cfg turns).scheduler.rounds_) ∧
      ∀ now_ms i more, i < (watch cfg turns).scheduler.bin_count →
        (watch cfg turns).scheduler.deadlines i ≤ now_ms → Timed now_ms more →
        (watch cfg turns).scheduler.bin_count ≤
          ((watch cfg turns).scheduler.bin_dwells more).length →
        i ∈ (((watch cfg turns).scheduler.bin_dwells more).take
          (watch cfg turns).scheduler.bin_count).map Prod.fst := by
  have hkeeps : (watch cfg turns).scheduler.Covers (watch cfg turns).since ∧
      (watch cfg turns).scheduler.Paced := by
    apply Runs.after_keeps Watched.turn
      (P := fun w => w.scheduler.Covers w.since ∧ w.scheduler.Paced)
    · exact ⟨create_covers cfg, create_paced hbackup hbg hretry⟩
    · rintro w t ⟨hcovers, hpaced⟩
      exact ⟨(Watched.turn_covers hcovers t).2, (turn_served hpaced t).1⟩
  refine ⟨?_, ?_⟩
  · intro t
    unfold watch
    rw [Runs.after_snoc]
    exact (Watched.turn_covers hkeeps.1 t).1
  · intro now_ms i more hi hdue htimed hlen
    exact Deadlines.served_in_turn hi hdue (bin_dwells_along hkeeps.2 htimed) hlen

/-- Two channels, of which the first fails: the second gets the next dwell. -/
theorem a_failing_bin_waits_its_turn :
    1 ∈ (((watch { candidates := [{ band := 5, primary := 36 }, { band := 5, primary := 149 }] }
      []).scheduler.bin_dwells [⟨0, 100, false⟩, ⟨100, 200, true⟩]).take 2).map Prod.fst :=
  (scheduling_is_fair { candidates := [{ band := 5, primary := 36 },
    { band := 5, primary := 149 }] }
    (by decide) (by decide) (by decide) []).2 0 1 [⟨0, 100, false⟩, ⟨100, 200, true⟩]
    (by decide +kernel) (by decide +kernel)
    ⟨by decide, by decide, by decide, by decide, trivial⟩ (by decide +kernel)

end ScanScheduler

end devourer.chanmig
