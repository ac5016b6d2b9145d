-- Which scout the evidence comes from: beside the store of cells one of the
-- records themselves, and when all that it holds is of one scout.
import Devourer.Chanmig.EvidenceStore

namespace devourer.chanmig

namespace EvidenceStore

variable {C D : Type}

/-! ## The cells of another kind -/

/-- The same store, with what each cell becomes. -/
def map (f : C → D) (s : EvidenceStore C) : EvidenceStore D :=
  { plan_hash_ := s.plan_hash_
    max_age_ms_ := s.max_age_ms_
    ring_cap_ := s.ring_cap_
    scout_id_ := s.scout_id_
    gen_ := s.gen_
    cands_ := s.cands_.map fun c => { def_ := c.def_, bins := c.bins, wide := c.wide.map f }
    bins_ := s.bins_.map fun b => { ch := b.ch, cells := b.cells.map f }
    fold_counts_ := s.fold_counts_ }

variable {f : C → D} {cell : SurveyDwell → C} {s : EvidenceStore C} {d : SurveyDwell} {now_ms : ℤ}

@[simp] theorem map_plan_hash : (s.map f).plan_hash_ = s.plan_hash_ := rfl
@[simp] theorem map_max_age : (s.map f).max_age_ms_ = s.max_age_ms_ := rfl
@[simp] theorem map_scout_id : (s.map f).scout_id_ = s.scout_id_ := rfl

theorem map_push_cell (cap : ℕ) (ring : List C) (x : C) :
    (push_cell cap ring x).map f = push_cell cap (ring.map f) (f x) := by
  unfold push_cell
  rw [List.map_append, List.length_map]
  split
  · rw [List.map_drop]
    rfl
  · rfl

theorem map_fold_cell (x : C) :
    (((s.fold_cell d x).1).map f, (s.fold_cell d x).2) = (s.map f).fold_cell d (f x) := by
  unfold fold_cell
  by_cases hwide : d.flags &&& kFlagFullWidth ≠ 0
  · rw [if_pos hwide, if_pos hwide]
    have hfind : (s.map f).cands_.findIdx? (·.def_.same_rf d.def_) =
        s.cands_.findIdx? (·.def_.same_rf d.def_) := List.findIdx?_map
    rw [hfind]
    cases s.cands_.findIdx? (·.def_.same_rf d.def_) with
    | none => rfl
    | some i =>
      have hcands := map_modify
        (f := fun c : Cand C => { c with wide := push_cell s.ring_cap_ c.wide x })
        (g := fun c : Cand D => { c with wide := push_cell s.ring_cap_ c.wide (f x) })
        (h := fun c => { def_ := c.def_, bins := c.bins, wide := c.wide.map f })
        (fun c => by simp only [map_push_cell]) s.cands_ i
      simp only [map, count, bump, hcands]
  · rw [if_neg hwide, if_neg hwide]
    have hfind : (s.map f).bins_.findIdx? (·.ch == d.def_.primary) =
        s.bins_.findIdx? (·.ch == d.def_.primary) := List.findIdx?_map
    rw [hfind]
    cases s.bins_.findIdx? (·.ch == d.def_.primary) with
    | none => rfl
    | some i =>
      have hbins := map_modify
        (f := fun b : BinRing C => { b with cells := push_cell s.ring_cap_ b.cells x })
        (g := fun b : BinRing D => { b with cells := push_cell s.ring_cap_ b.cells (f x) })
        (h := fun b => { ch := b.ch, cells := b.cells.map f })
        (fun b => by simp only [map_push_cell]) s.bins_ i
      simp only [map, count, bump, hbins]

theorem map_ingest_scouted :
    (((s.ingest_scouted cell d now_ms).1).map f, (s.ingest_scouted cell d now_ms).2) =
      (s.map f).ingest_scouted (f ∘ cell) d now_ms := by
  unfold ingest_scouted
  rw [map_max_age]
  split
  · rfl
  · split
    · rfl
    · split
      · rfl
      · split
        · rfl
        · exact map_fold_cell (cell d)

/-- A fold of what the cells become is what the fold of the cells becomes. -/
theorem map_ingest : (((s.ingest cell d now_ms).1).map f, (s.ingest cell d now_ms).2) =
    (s.map f).ingest (f ∘ cell) d now_ms := by
  unfold ingest
  rw [map_plan_hash, map_scout_id]
  split
  · rfl
  · split
    · rfl
    · split
      · simp only [map, count, List.map_map]
        rfl
      · simp only [map_ingest_scouted]
        split
        · rfl
        · rfl

theorem map_add_bin (s : EvidenceStore C) (ch : UInt8) :
    (s.map f).add_bin ch = (s.add_bin ch).map f := by
  have hfind : (s.map f).find_bin ch =
      (s.find_bin ch).map fun b => { ch := b.ch, cells := b.cells.map f } := List.find?_map
  unfold add_bin
  rw [hfind, Option.isNone_map]
  split
  · simp [map]
  · rfl

theorem map_add_candidate (s : EvidenceStore C) (c : ChannelDef) :
    (s.map f).add_candidate c = (s.add_candidate c).map f := by
  have hpush : ({ s.map f with
      cands_ := (s.map f).cands_ ++ [{ def_ := c, bins := constituent_bins c }] } :
      EvidenceStore D) =
      map f { s with cands_ := s.cands_ ++ [{ def_ := c, bins := constituent_bins c }] } := by
    simp [map]
  unfold add_candidate
  simp only [hpush]
  exact List.foldl_hom (map f) map_add_bin

theorem map_init (candidates : List ChannelDef) (plan_hash : UInt32) (max_age_ms : ℤ)
    (ring_cap : ℕ) : (init candidates plan_hash max_age_ms ring_cap : EvidenceStore C).map f =
      init candidates plan_hash max_age_ms ring_cap :=
  (List.foldl_hom (map f) map_add_candidate).symm

/-! ## What is held -/

variable {x r : C}

theorem mem_push_cell {cap : ℕ} {ring : List C} (h : r ∈ push_cell cap ring x) :
    r ∈ ring ∨ r = x := by
  unfold push_cell at h
  rw [List.mem_append, List.mem_singleton] at h
  rcases h with h | h
  · split at h
    · exact .inl (List.mem_of_mem_drop h)
    · exact .inl h
  · exact .inr h

/-- A ring for two cells or more does not lose all that it held at once. -/
theorem push_cell_keeps {cap : ℕ} (hcap : 2 ≤ cap) {ring : List C} (h : r ∈ ring) :
    ∃ q ∈ ring, q ∈ push_cell cap ring x := by
  unfold push_cell
  split
  · rename_i hfull
    have hlen : 0 < (ring.drop 1).length := by
      rw [List.length_drop]
      omega
    obtain ⟨q, hq⟩ := List.exists_mem_of_length_pos hlen
    exact ⟨q, List.mem_of_mem_drop hq, List.mem_append_left _ hq⟩
  · exact ⟨r, h, List.mem_append_left _ h⟩

theorem mem_held : r ∈ s.held ↔ (∃ b ∈ s.bins_, r ∈ b.cells) ∨ ∃ c ∈ s.cands_, r ∈ c.wide := by
  simp [held]

theorem mem_held_fold_cell (h : r ∈ (s.fold_cell d x).1.held) : r ∈ s.held ∨ r = x := by
  rw [mem_held] at h
  unfold fold_cell at h
  split at h
  · split at h
    · exact .inl (mem_held.mpr h)
    · rcases h with hbin | ⟨c, hc, hr⟩
      · exact .inl (mem_held.mpr (.inl hbin))
      · rcases mem_of_mem_modify hc with hc | ⟨c', hc', rfl⟩
        · exact .inl (mem_held.mpr (.inr ⟨c, hc, hr⟩))
        · rcases mem_push_cell hr with hr | rfl
          · exact .inl (mem_held.mpr (.inr ⟨c', hc', hr⟩))
          · exact .inr rfl
  · split at h
    · exact .inl (mem_held.mpr h)
    · rcases h with ⟨b, hb, hr⟩ | hwide
      · rcases mem_of_mem_modify hb with hb | ⟨b', hb', rfl⟩
        · exact .inl (mem_held.mpr (.inl ⟨b, hb, hr⟩))
        · rcases mem_push_cell hr with hr | rfl
          · exact .inl (mem_held.mpr (.inl ⟨b', hb', hr⟩))
          · exact .inr rfl
      · exact .inl (mem_held.mpr (.inr hwide))

theorem fold_cell_keeps (hcap : 2 ≤ s.ring_cap_) (h : r ∈ s.held) :
    ∃ q ∈ s.held, q ∈ (s.fold_cell d x).1.held := by
  have hsame : ∀ g, r ∈ (s.count g).1.held := fun _ => h
  have hheld := h
  rw [mem_held] at h
  unfold fold_cell
  split
  · split
    · exact ⟨r, hheld, hsame _⟩
    · rename_i i _
      rcases h with hbin | ⟨c, hc, hr⟩
      · exact ⟨r, hheld, mem_held.mpr (.inl hbin)⟩
      · obtain ⟨q, hq, hpushed⟩ := push_cell_keeps (x := x) hcap hr
        have hqheld := mem_held.mpr (.inr ⟨c, hc, hq⟩)
        rcases mem_modify_of_mem i
          (fun c => { c with wide := push_cell s.ring_cap_ c.wide x }) hc with hc | hc
        · exact ⟨q, hqheld, mem_held.mpr (.inr ⟨c, hc, hq⟩)⟩
        · exact ⟨q, hqheld, mem_held.mpr (.inr ⟨_, hc, hpushed⟩)⟩
  · split
    · exact ⟨r, hheld, hsame _⟩
    · rename_i i _
      rcases h with ⟨b, hb, hr⟩ | hwide
      · obtain ⟨q, hq, hpushed⟩ := push_cell_keeps (x := x) hcap hr
        have hqheld := mem_held.mpr (.inl ⟨b, hb, hq⟩)
        rcases mem_modify_of_mem i
          (fun b => { b with cells := push_cell s.ring_cap_ b.cells x }) hb with hb | hb
        · exact ⟨q, hqheld, mem_held.mpr (.inl ⟨b, hb, hq⟩)⟩
        · exact ⟨q, hqheld, mem_held.mpr (.inl ⟨_, hb, hpushed⟩)⟩
      · exact ⟨r, hheld, mem_held.mpr (.inr hwide)⟩

/-! ## Scouts -/

/-- A record gets past the plan and the failure flags. -/
def Admitted (s : EvidenceStore C) (d : SurveyDwell) : Prop :=
  d.plan_hash = s.plan_hash_ ∧
    d.flags &&& (kFlagRetuneFailed ||| kFlagReadFailed ||| kFlagTruncated) = 0

/-- Past the scout: nothing is held that was not but the new cell, and not all of the old goes. -/
structure Scouted (s : EvidenceStore C) (x : C) (s' : EvidenceStore C) : Prop where
  scout : s'.scout_id_ = s.scout_id_
  held : ∀ r ∈ s'.held, r ∈ s.held ∨ r = x
  keeps : 2 ≤ s.ring_cap_ → ∀ r ∈ s.held, ∃ q ∈ s.held, q ∈ s'.held

theorem scouted_count (g : Fold) : Scouted s x (s.count g).1 :=
  ⟨rfl, fun _ hr => .inl hr, fun _ r hr => ⟨r, hr, hr⟩⟩

theorem scouted_fold_cell : Scouted s x (s.fold_cell d x).1 := by
  refine ⟨?_, fun _ => mem_held_fold_cell, fun hcap _ => fold_cell_keeps hcap⟩
  unfold fold_cell
  split
  · split
    · rfl
    · rfl
  · split
    · rfl
    · rfl

theorem ingest_scouted_spec : Scouted s (cell d) (s.ingest_scouted cell d now_ms).1 := by
  unfold ingest_scouted
  split
  · exact scouted_count _
  · split
    · exact scouted_count _
    · split
      · exact scouted_count _
      · split
        · exact scouted_count _
        · exact scouted_fold_cell

/-- What a fold does with the scout and with what is held. -/
inductive Folded (s : EvidenceStore C) (d : SurveyDwell) (x : C) (s' : EvidenceStore C) : Prop
  | refused (h : ¬ s.Admitted d) (scout : s'.scout_id_ = s.scout_id_) (held : s'.held = s.held)
  | changed (h : s.Admitted d) (hset : s.scout_id_ ≠ 0) (hother : d.scout_id ≠ s.scout_id_)
      (scout : s'.scout_id_ = d.scout_id) (held : s'.held = s.cands_.flatMap (·.wide))
  | scouted (h : s.Admitted d) (hscout : s.scout_id_ = 0 ∨ d.scout_id = s.scout_id_)
      (folded : Scouted { s with scout_id_ := d.scout_id } x s')

theorem ingest_folded : Folded s d (cell d) (s.ingest cell d now_ms).1 := by
  unfold ingest
  by_cases hplan : d.plan_hash = s.plan_hash_
  · rw [if_neg (not_not.mpr hplan)]
    split
    · rename_i hflags
      exact .refused (fun h => hflags h.2) rfl rfl
    · rename_i hflags
      have hadmitted : s.Admitted d := ⟨hplan, not_not.mp hflags⟩
      split
      · rename_i hscout
        exact .changed hadmitted hscout.1 hscout.2 rfl (by simp [held, count, List.flatMap_map])
      · rename_i hscout
        by_cases hzero : s.scout_id_ = 0
        · simp only [if_pos hzero]
          exact .scouted hadmitted (.inl hzero) ingest_scouted_spec
        · have hsame : d.scout_id = s.scout_id_ := by
            by_contra hne
            exact hscout ⟨hzero, hne⟩
          have hself : { s with scout_id_ := d.scout_id } = s := by rw [hsame]
          simp only [if_neg hzero]
          refine .scouted hadmitted (.inr hsame) ?_
          rw [hself]
          exact ingest_scouted_spec
  · rw [if_pos hplan]
    exact .refused (fun h => hplan h.1) rfl rfl

/-- A record that would change the scout finds no full-width cell held, and no cell at all while
the store has no scout yet. -/
def Apart (s : EvidenceStore C) (d : SurveyDwell) : Prop :=
  s.Admitted d → d.scout_id ≠ s.scout_id_ →
    (∀ c ∈ s.cands_, c.wide = []) ∧ (s.scout_id_ = 0 → s.held = [])

/-- All records of which the store holds the cells are of its scout. -/
def Unmixed (s : EvidenceStore SurveyDwell) : Prop := ∀ r ∈ s.held, r.scout_id = s.scout_id_

variable {t : EvidenceStore SurveyDwell}

theorem unmixed_ingest (h : t.Unmixed) (hapart : t.Apart d) :
    (t.ingest id d now_ms).1.Unmixed := by
  intro r hr
  have hfolded : Folded t d (id d) (t.ingest id d now_ms).1 := ingest_folded
  cases hfolded with
  | refused _ scout held =>
    rw [held] at hr
    rw [scout]
    exact h r hr
  | changed hadmitted _ hother scout held =>
    obtain ⟨hwide, -⟩ := hapart hadmitted hother
    rw [held] at hr
    obtain ⟨c, hc, hrc⟩ := List.mem_flatMap.mp hr
    rw [hwide c hc] at hrc
    cases hrc
  | scouted hadmitted hscout folded =>
    have hnew : (t.ingest id d now_ms).1.scout_id_ = d.scout_id := folded.scout
    rw [hnew]
    rcases folded.held r hr with hold | rfl
    · by_cases hsame : d.scout_id = t.scout_id_
      · rw [hsame]
        exact h r hold
      · have hempty := (hapart hadmitted hsame).2 (hscout.resolve_right hsame)
        have hold' : r ∈ t.held := hold
        rw [hempty] at hold'
        cases hold'
    · rfl

/-- With rings of two cells or more, a record that mixes the scouts is caught in the store. -/
theorem apart_of_unmixed (hcap : 2 ≤ t.ring_cap_) (h : t.Unmixed)
    (hnext : (t.ingest id d now_ms).1.Unmixed) : t.Apart d := by
  intro hadmitted hother
  have hfolded : Folded t d (id d) (t.ingest id d now_ms).1 := ingest_folded
  cases hfolded with
  | refused hrefused _ _ => exact absurd hadmitted hrefused
  | changed _ hset _ scout held =>
    refine ⟨?_, fun hzero => absurd hzero hset⟩
    intro c hc
    apply List.eq_nil_iff_forall_not_mem.mpr
    intro r hr
    have hold := h r (mem_held.mpr (.inr ⟨c, hc, hr⟩))
    have hnew := hnext r (held ▸ List.mem_flatMap.mpr ⟨c, hc, hr⟩)
    rw [scout, hold] at hnew
    exact hother hnew.symm
  | scouted _ hscout folded =>
    have hempty : t.held = [] := by
      apply List.eq_nil_iff_forall_not_mem.mpr
      intro r hr
      obtain ⟨q, hq, hq'⟩ := folded.keeps hcap r hr
      have hnew := hnext q hq'
      rw [folded.scout, h q hq] at hnew
      exact hother hnew.symm
    refine ⟨?_, fun _ => hempty⟩
    intro c hc
    apply List.eq_nil_iff_forall_not_mem.mpr
    intro r hr
    have hmem := mem_held.mpr (.inr ⟨c, hc, hr⟩)
    rw [hempty] at hmem
    cases hmem

/-! ## Runs -/

/-- The store after these records, each with the time of its call. -/
def run (cell : SurveyDwell → C) (s : EvidenceStore C) (calls : List (SurveyDwell × ℤ)) :
    EvidenceStore C := Runs.after (fun s c => (s.ingest cell c.1 c.2).1) s calls

theorem map_run (calls : List (SurveyDwell × ℤ)) :
    (s.run cell calls).map f = (s.map f).run (f ∘ cell) calls := by
  induction calls using List.reverseRecOn with
  | nil => rfl
  | append_singleton calls c ih =>
    unfold run at ih ⊢
    rw [Runs.after_snoc, Runs.after_snoc, ← ih]
    exact congrArg Prod.fst map_ingest

variable {F : Type}

/-- The cells that the store holds, and those that it hands out. -/
def HandsOut (s : EvidenceStore (BinCell F)) (c : BinCell F) : Prop :=
  c ∈ s.held ∨ (∃ ch now_ms, c ∈ s.fresh_cells now_ms ch) ∨
    ∃ cand ∈ s.cands_, ∃ now_ms, c ∈ s.wide_cells now_ms cand

theorem held_of_handsOut {s : EvidenceStore (BinCell F)} {c : BinCell F} (h : s.HandsOut c) :
    c ∈ s.held := by
  rcases h with h | ⟨ch, now_ms, h⟩ | ⟨cand, hcand, now_ms, h⟩
  · exact h
  · unfold fresh_cells at h
    split at h
    · cases h
    · rename_i b hb
      exact mem_held.mpr (.inl ⟨b, List.mem_of_find?_eq_some hb, (List.mem_filter.mp h).1⟩)
  · exact mem_held.mpr (.inr ⟨cand, hcand, (List.mem_filter.mp h).1⟩)

theorem held_map : (s.map f).held = s.held.map f := by
  simp [held, map, List.flatMap_map, List.map_flatMap]

/-- The evidence is of one scout as long as no record of another one comes on what the store keeps
across the change: the full-width cells, and whatever scout 0 had folded, as 0 reads as no scout
yet. The cells are those of the records that the second store holds. -/
theorem evidence_is_of_one_scout [DoubleOps F] (candidates : List ChannelDef) (plan_hash : UInt32)
    (max_age_ms : ℤ) (ring_cap : ℕ) (calls : List (SurveyDwell × ℤ)) :
    (2 ≤ ring_cap →
      (Runs.Along (fun s c => (s.ingest id c.1 c.2).1) (fun s c => s.Apart c.1)
          (init candidates plan_hash max_age_ms ring_cap) calls ↔
        ∀ n, ((init candidates plan_hash max_age_ms ring_cap).run id (calls.take n)).Unmixed)) ∧
    (Runs.Along (fun s c => (s.ingest id c.1 c.2).1) (fun s c => s.Apart c.1)
        (init candidates plan_hash max_age_ms ring_cap) calls →
      ∀ n (c : BinCell F),
        ((init candidates plan_hash max_age_ms ring_cap).run BinCell.of (calls.take n)).HandsOut c →
        ∃ r ∈ ((init candidates plan_hash max_age_ms ring_cap).run id (calls.take n)).held,
          BinCell.of r = c ∧ r.scout_id = ((init candidates plan_hash max_age_ms ring_cap).run
            (BinCell.of (F := F)) (calls.take n)).scout_id_) := by
  have hfresh : Fresh (init candidates plan_hash max_age_ms ring_cap : EvidenceStore SurveyDwell)
      candidates max_age_ms ring_cap := fresh_init _ _ _ _
  have hstart : (init candidates plan_hash max_age_ms ring_cap :
      EvidenceStore SurveyDwell).Unmixed := by
    intro r hr
    rw [hfresh.held] at hr
    cases hr
  refine ⟨?_, ?_⟩
  · intro hcap
    have hcap' : 2 ≤ (init candidates plan_hash max_age_ms ring_cap :
        EvidenceStore SurveyDwell).ring_cap_ := by rwa [hfresh.cap]
    refine Runs.along_iff_reached (P := fun s => Unmixed s ∧ 2 ≤ s.ring_cap_) (Q := Unmixed) _ _
      ⟨hstart, hcap'⟩ (fun s h => h.1) ?_ ?_ calls
    · intro s c h hapart
      refine ⟨unmixed_ingest h.1 hapart, ?_⟩
      rw [sameSetup_ingest.cap]
      exact h.2
    · intro s c h hnext
      exact apart_of_unmixed h.2 h.1 hnext
  · intro halong n c hc
    have hunmixed : ((init candidates plan_hash max_age_ms ring_cap).run id
        (calls.take n)).Unmixed :=
      Runs.after_keeps_along _ _ hstart (fun s c hapart h => unmixed_ingest h hapart) _
        (halong.take _ n)
    have hcells : (run id (init candidates plan_hash max_age_ms ring_cap) (calls.take n)).map
        (BinCell.of (F := F)) = (map (BinCell.of (F := F)) (init candidates plan_hash max_age_ms
          ring_cap)).run (BinCell.of ∘ id) (calls.take n) := map_run _
    rw [map_init] at hcells
    have hheld := held_of_handsOut hc
    have hscout := congrArg scout_id_ hcells
    rw [Function.comp_id] at hcells hscout
    rw [← hcells, held_map] at hheld
    obtain ⟨r, hr, hrc⟩ := List.mem_map.mp hheld
    exact ⟨r, hr, hrc, (hunmixed r hr).trans hscout⟩

open scoped DoubleOps

/-- A dwell over the whole of 5 GHz channel 36 at 40 MHz. -/
def wide_dwell (scout_id : UInt32) : SurveyDwell :=
  { def_ := { band := 5, primary := 36, width := .CHANNEL_WIDTH_40, offset := 1 }
    observe_ms := 100
    flags := kFlagFullWidth
    scout_id := scout_id }

/-- A dwell over 20 MHz of it. -/
def narrow_dwell (scout_id : UInt32) : SurveyDwell :=
  { def_ := { band := 5, primary := 36 }
    observe_ms := 100
    scout_id := scout_id }

/-- A narrow dwell of one scout, and then dwells of another, the first of which is rejected. -/
def scout_changes : List (SurveyDwell × ℤ) :=
  [(narrow_dwell 7, 0), (narrow_dwell 8, 20), (narrow_dwell 8, 40), (wide_dwell 8, 60)]

/-- The store has cells of the first scout, and then of the second alone. -/
theorem a_scout_is_replaced :
    ((init [(wide_dwell 7).def_] 0 60000 32).run id (scout_changes.take 1)).held =
        [narrow_dwell 7] ∧
      ((init [(wide_dwell 7).def_] 0 60000 32).run id scout_changes).held =
        [narrow_dwell 8, wide_dwell 8] ∧
      ((init [(wide_dwell 7).def_] 0 60000 32).run id scout_changes).Unmixed := by
  refine ⟨by decide +kernel, by decide +kernel, ?_⟩
  have h := evidence_is_of_one_scout (F := ℚ) [(wide_dwell 7).def_] 0 60000 32 scout_changes
  refine (h.1 (by decide)).mp ?_ 4
  unfold Apart Admitted
  decide +kernel

/-- The wide cell of scout 1 is still there once the store names scout 2. -/
theorem a_new_scout_keeps_the_wide_cells :
    ¬ ∀ (candidates : List ChannelDef) (plan_hash : UInt32) (max_age_ms : ℤ) (ring_cap : ℕ)
      (calls : List (SurveyDwell × ℤ)),
      ((init candidates plan_hash max_age_ms ring_cap).run id calls).Unmixed := by
  intro h
  have hrun := h [(wide_dwell 1).def_] 0 60000 32 [(wide_dwell 1, 0), (wide_dwell 2, 20)]
  revert hrun
  unfold Unmixed
  decide +kernel

end EvidenceStore

end devourer.chanmig
