-- What a group of register accesses promises: each op is issued at most once and in
-- order, each read gets the payload of its own transfer, and a group that succeeds
-- did what the synchronous default does.
import Devourer.Usb.CtrlBatch
import Mathlib.Data.List.Nodup
import Mathlib.Data.List.Perm.Basic

namespace devourer.usb

/-- A step that only an open batch of writes takes. -/
def Pc.batched : Pc → Bool
  | .take .single | .take_wait .single | .flush (.take .single) _ | .flush .read _ | .pipeline
  | .read | .read_look | .read_progress | .read_inspect => true
  | _ => false

/-- A step at which slots are taken and not submitted. -/
def Pc.holding : Pc → Bool
  | .acquire | .submit => true
  | _ => false

/-- A step at which submitted ops are waited for. -/
def Pc.waiting : Pc → Bool
  | .submit | .wait | .look | .progress | .inspect | .flush .wait _ => true
  | _ => false

namespace Ctrl

variable {δ : Type*}

/-! ## Who has the slots -/

/-- The transfers that are not over for the transport. -/
def xfers (s : Ctrl δ) : List Xfer := s.ep0 ++ s.finished.map Prod.fst

def owners (s : Ctrl δ) : List ℕ :=
  s.free ++ s.slots ++ s.xfers.filterMap Xfer.slot ++ s.landing

/-- The ops as the group has them: a read that was found complete has its payload. -/
def told (seen : List ℕ) (outcome : ℕ → Option Completion) (ops : List CtrlOp) : List CtrlOp :=
  ops.mapIdx fun i op =>
    if i ∈ seen ∧ op.write = false then
      { op with value := (outcome i).elim op.value Completion.payload }
    else op

/-- The slot of a waiting op is in flight, or it holds what the transfer of the op has brought. -/
def Waits (s : Ctrl δ) (ops : List CtrlOp) (p : ℕ × ℕ) : Prop :=
  (∃ x ∈ s.xfers, x.slot = some p.2 ∧ x.index = some p.1 ∧ (s.slot p.2).done = false) ∨
    (p.2 ∈ s.free ++ s.landing ∧ (s.slot p.2).done ∧ ∃ c op, s.outcome p.1 = some c ∧
      ops[p.1]? = some op ∧ (s.slot p.2).status = some c.status ∧ (s.slot p.2).actual = c.actual ∧
      (op.write = false → (s.slot p.2).buf = c.payload))

/-- An op that was issued is found complete, waited for, given up or has failed. -/
def Answered (s : Ctrl δ) (i : ℕ) : Prop :=
  i ∈ s.seen ∨ i ∈ s.used.map Prod.fst ∨ i ∈ s.given_up ∨ (s.pc = .control_wait ∧ i + 1 = s.pos) ∨
    ∃ c, s.outcome i = some c ∧ c.whole = false

/-- The state of a group over `ops`, outside a batch of writes. -/
structure Sound (ops : List CtrlOp) (s : Ctrl δ) : Prop where
  single : s.batch = false ∧ s.pc.batched = false
  owners : s.owners.Nodup
  holding : s.pc.holding = false → s.slots = []
  waiting : s.pc.waiting = false → s.used = []
  ready : ∀ w ∈ s.slots, (s.slot w).done = false
  waits : ∀ p ∈ s.used, p.1 ∈ s.issued ∧ s.Waits ops p
  index : ∀ x ∈ s.xfers, ∀ i, x.index = some i → i ∈ s.issued ∧ ops[i]? = some x.op
  once : (s.xfers.filterMap Xfer.index).Nodup
  fresh : ∀ x ∈ s.ep0, ∀ i, x.index = some i → s.outcome i = none
  settled : ∀ x c, (x, c) ∈ s.finished → ∀ i, x.index = some i → s.outcome i = some c
  outcomes : ∀ i c, s.outcome i = some c → i ∈ s.issued
  control : ∀ x ∈ s.xfers, x.slot = none → s.pc = .control_wait ∧ ∃ i, x.index =
    some i ∧ i + 1 = s.pos
  order : s.issued.Pairwise (· < ·)
  below : ∀ i ∈ s.issued, i < s.pos
  values : s.pc ≠ .threw → s.ops = told s.seen s.outcome ops
  seen : ∀ i ∈ s.seen, i < s.pos ∧ ∃ c, s.outcome i = some c ∧ c.whole
  answered : ∀ i ∈ s.issued, s.Answered i
  progress : s.pc ≠ .threw → s.ok → ∀ i < s.pos,
    i ∈ s.seen ∨ i ∈ s.used.map Prod.fst ∨ (s.pc = .control_wait ∧ i + 1 = s.pos)
  begun : s.pc = .start → s.ok = true ∧ (s.built = false → s.owners = [])
  returned : ∀ ok, s.pc = .returned ok → ok = s.ok ∧ ops.length ≤ s.pos

variable {ops : List CtrlOp} {s : Ctrl δ}

/-! ## The bus -/

theorem told_outcome {seen : List ℕ} {outcome outcome' : ℕ → Option Completion}
    (h : ∀ i ∈ seen, outcome' i = outcome i) : told seen outcome' ops = told seen outcome ops := by
  unfold told
  apply List.mapIdx_eq_mapIdx_iff.mpr
  intro i hi
  by_cases hseen : i ∈ seen
  · rw [h i hseen]
  · simp [hseen]

section

variable {k : ℕ} {x : Xfer} (c : Completion) (registers origin : δ)

theorem xfers_over (hx : s.ep0[k]? = some x) :
    (xfer_over { s with ep0 := s.ep0.eraseIdx k, registers, origin } x c).xfers.Perm s.xfers := by
  obtain ⟨hk, hget⟩ := List.getElem?_eq_some_iff.mp hx
  have herase : s.ep0.Perm (x :: s.ep0.eraseIdx k) := by
    rw [← hget]
    exact (List.getElem_cons_eraseIdx_perm hk).symm
  have hpair : ((s.ep0.eraseIdx k ++ s.finished.map Prod.fst) ++ [x]).Perm
      ((x :: s.ep0.eraseIdx k) ++ s.finished.map Prod.fst) := List.perm_append_comm
  simp only [xfers, xfer_over, List.map_append, List.map_cons, List.map_nil, ← List.append_assoc]
  exact hpair.trans (herase.symm.append_right _)

/-- What was an outcome before stays one. -/
theorem outcome_over (h : s.Sound ops) (hx : s.ep0[k]? = some x) {i : ℕ} {c' : Completion}
    (hi : s.outcome i = some c') :
    (xfer_over { s with ep0 := s.ep0.eraseIdx k, registers, origin } x c).outcome i = some c' := by
  simp only [xfer_over]
  rcases hindex : x.index with - | j
  · exact hi
  · have hne : i ≠ j := by
      rintro rfl
      rw [h.fresh x (List.mem_of_getElem? hx) i hindex] at hi
      cases hi
    simp [hne, hi]

theorem sound_over (h : s.Sound ops) (hx : s.ep0[k]? = some x) :
    (xfer_over { s with ep0 := s.ep0.eraseIdx k, registers, origin } x c).Sound ops := by
  have hperm := xfers_over (s := s) c registers origin hx
  have howners :=
    ((hperm.filterMap Xfer.slot).append_left (s.free ++ s.slots)).append_right s.landing
  have hkeep := fun i c' => @outcome_over _ _ _ _ _ c registers origin h hx i c'
  have hmem : x ∈ s.ep0 := List.mem_of_getElem? hx
  have hseen : ∀ i ∈ s.seen,
      (xfer_over { s with ep0 := s.ep0.eraseIdx k, registers, origin } x c).outcome i =
        s.outcome i := by
    intro i hi
    obtain ⟨-, c', hc', -⟩ := h.seen i hi
    rw [hc', hkeep i c' hc']
  constructor
  · exact h.single
  · exact howners.nodup_iff.mpr h.owners
  · exact h.holding
  · exact h.waiting
  · exact h.ready
  · intro p hp
    obtain ⟨hissued, hwaits⟩ := h.waits p hp
    refine ⟨hissued, ?_⟩
    rcases hwaits with ⟨x', hx', hrest⟩ | ⟨hfree, hdone, c', op, hout, hrest⟩
    · exact .inl ⟨x', hperm.mem_iff.mpr hx', hrest⟩
    · exact .inr ⟨hfree, hdone, c', op, hkeep _ _ hout, hrest⟩
  · intro x' hx' i hi
    exact h.index x' (hperm.mem_iff.mp hx') i hi
  · exact ((hperm.filterMap Xfer.index).nodup_iff).mpr h.once
  · intro x' hx' i hi
    have hx'' : x' ∈ s.ep0 := List.mem_of_mem_eraseIdx hx'
    simp only [xfer_over]
    rcases hindex : x.index with - | j
    · exact h.fresh x' hx'' i hi
    · have hne : i ≠ j := by
        rintro rfl
        have honce := (hperm.filterMap Xfer.index).nodup_iff.mpr h.once
        simp only [xfers, xfer_over, List.map_append, List.filterMap_append,
          List.map_cons, List.map_nil, ← List.append_assoc] at honce
        refine (List.nodup_append'.mp honce).2.2
          (List.mem_append_left _ (List.mem_filterMap.mpr ⟨x', hx', hi⟩)) ?_
        simp [hindex]
      simp [hne, h.fresh x' hx'' i hi]
  · intro x' c' hx' i hi
    simp only [xfer_over, List.mem_append, List.mem_singleton, Prod.mk.injEq] at hx'
    rcases hx' with hx' | ⟨rfl, rfl⟩
    · exact hkeep i c' (h.settled x' c' hx' i hi)
    · simp [xfer_over, hi]
  · intro i c' hi
    simp only [xfer_over] at hi
    rcases hindex : x.index with - | j <;> simp only [hindex] at hi
    · exact h.outcomes i c' hi
    · by_cases hij : i = j
      · exact hij ▸ (h.index x (List.mem_append_left _ hmem) j hindex).1
      · exact h.outcomes i c' (by simpa [hij] using hi)
  · intro x' hx'
    exact h.control x' (hperm.mem_iff.mp hx')
  · exact h.order
  · exact h.below
  · intro hpc
    exact (h.values hpc).trans (told_outcome hseen).symm
  · intro i hi
    rw [hseen i hi]
    exact h.seen i hi
  · intro i hi
    rcases h.answered i hi with hs | hu | hg | hc | ⟨c', hout, hwhole⟩
    · exact .inl hs
    · exact .inr (.inl hu)
    · exact .inr (.inr (.inl hg))
    · exact .inr (.inr (.inr (.inl hc)))
    · exact .inr (.inr (.inr (.inr ⟨c', hkeep i c' hout, hwhole⟩)))
  · exact h.progress
  · intro hpc
    refine ⟨(h.begun hpc).1, fun hbuilt => ?_⟩
    exact List.Perm.eq_nil (((h.begun hpc).2 hbuilt) ▸ howners)
  · exact h.returned

end

theorem sound_exec (dev : Registers δ) (h : s.Sound ops) : (s.exec dev).Sound ops := by
  unfold exec
  rcases hep0 : s.ep0 with - | ⟨x, rest⟩
  · exact h
  · have hx : s.ep0[0]? = some x := by rw [hep0]; rfl
    have hover := fun c registers origin => sound_over c registers origin h hx
    simp only [hep0, List.eraseIdx_cons_zero] at hover
    exact hover _ _ _

theorem sound_fail (dev : Registers δ) (h : s.Sound ops) (k : ℕ) (c : Completion)
    (applied : Bool) : (s.fail dev k c applied).Sound ops := by
  unfold fail
  rcases hx : s.ep0[k]? with - | x
  · exact h
  · dsimp only
    split
    · exact h
    · exact sound_over c _ _ h hx

/-! ## The callbacks -/

/-- Of two members with one value, each is the other. -/
theorem eq_of_filterMap_nodup {α β : Type*} {f : α → Option β} {l : List α}
    (h : (l.filterMap f).Nodup) {x y : α} (hx : x ∈ l) (hy : y ∈ l) {b : β} (hfx : f x = some b)
    (hfy : f y = some b) : x = y := by
  induction l with
  | nil => simp at hx
  | cons a l ih =>
    have hmem : ∀ z ∈ l, f z = some b → b ∈ l.filterMap f := by
      intro z hz hfz
      exact List.mem_filterMap.mpr ⟨z, hz, hfz⟩
    rcases List.mem_cons.mp hx with rfl | hx' <;> rcases List.mem_cons.mp hy with rfl | hy'
    · rfl
    · simp only [List.filterMap_cons, hfx, List.nodup_cons] at h
      exact absurd (hmem y hy' hfy) h.1
    · simp only [List.filterMap_cons, hfy, List.nodup_cons] at h
      exact absurd (hmem x hx' hfx) h.1
    · apply ih _ hx' hy'
      rw [List.filterMap_cons] at h
      split at h
      · exact h
      · exact (List.nodup_cons.mp h).2

theorem Sound.slots_nodup (h : s.Sound ops) : (s.xfers.filterMap Xfer.slot).Nodup := by
  have howners := h.owners
  rw [Ctrl.owners, List.append_assoc] at howners
  exact (List.nodup_append'.mp (List.nodup_append'.mp howners).2.1).1

/-- A slot in flight is neither free nor on its way there. -/
theorem Sound.slot_apart (h : s.Sound ops) {x : Xfer} (hx : x ∈ s.xfers) {w : ℕ}
    (hw : x.slot = some w) : w ∉ s.free ++ s.landing := by
  have hmem : w ∈ s.xfers.filterMap Xfer.slot := List.mem_filterMap.mpr ⟨x, hx, hw⟩
  have howners := h.owners
  simp only [Ctrl.owners, List.append_assoc] at howners
  obtain ⟨-, hrest, hfree⟩ := List.nodup_append'.mp howners
  obtain ⟨-, hrest, -⟩ := List.nodup_append'.mp hrest
  obtain ⟨-, -, hlanding⟩ := List.nodup_append'.mp hrest
  intro hboth
  rcases List.mem_append.mp hboth with hw' | hw'
  · exact hfree hw' (by simp [hmem])
  · exact hlanding hmem hw'

theorem Sound.slot_held (h : s.Sound ops) {x : Xfer} (hx : x ∈ s.xfers) {w : ℕ}
    (hw : x.slot = some w) : w ∉ s.slots := by
  have hmem : w ∈ s.xfers.filterMap Xfer.slot := List.mem_filterMap.mpr ⟨x, hx, hw⟩
  have howners := h.owners
  simp only [Ctrl.owners, List.append_assoc] at howners
  obtain ⟨-, hrest, -⟩ := List.nodup_append'.mp howners
  obtain ⟨-, -, hslots⟩ := List.nodup_append'.mp hrest
  intro hw'
  exact hslots hw' (by simp [hmem])

theorem sound_callback (h : s.Sound ops) (k : ℕ) : (s.async_write_cb k).Sound ops := by
  unfold async_write_cb
  split
  · next w op index c hfin =>
    obtain ⟨hk, hget⟩ := List.getElem?_eq_some_iff.mp hfin
    have hmem : (({ slot := some w, op, index } : Xfer), c) ∈ s.finished :=
      List.mem_of_getElem? hfin
    have hxfers : s.xfers.Perm
        (({ slot := some w, op, index } : Xfer) ::
          (s.ep0 ++ (s.finished.eraseIdx k).map Prod.fst)) := by
      have herase : s.finished.Perm (({ slot := some w, op, index }, c) ::
          s.finished.eraseIdx k) := by
        rw [← hget]
        exact (List.getElem_cons_eraseIdx_perm hk).symm
      exact ((herase.map Prod.fst).append_left s.ep0).trans List.perm_middle
    have hx : ({ slot := some w, op, index } : Xfer) ∈ s.xfers := hxfers.mem_iff.mpr (by simp)
    have hsub : ∀ x ∈ s.ep0 ++ (s.finished.eraseIdx k).map Prod.fst, x ∈ s.xfers := by
      intro x hx'
      exact hxfers.mem_iff.mpr (List.mem_cons_of_mem _ hx')
    have hperm : s.owners.Perm (s.free ++ s.slots ++
        (s.ep0 ++ (s.finished.eraseIdx k).map Prod.fst).filterMap Xfer.slot ++ w :: s.landing) := by
      have hslots := hxfers.filterMap Xfer.slot
      simp only [List.filterMap_cons] at hslots
      have hleft := (hslots.append_left (s.free ++ s.slots)).append_right s.landing
      refine hleft.trans ?_
      rw [List.perm_iff_count]
      intro b
      simp only [List.count_append, List.count_cons]
      omega
    constructor
    · exact h.single
    · exact hperm.nodup_iff.mp h.owners
    · exact h.holding
    · exact h.waiting
    · intro w' hw'
      have hne : w' ≠ w := by
        rintro rfl
        exact h.slot_held hx rfl hw'
      simpa [hne] using h.ready w' hw'
    · intro p hp
      obtain ⟨hissued, hwaits⟩ := h.waits p hp
      refine ⟨hissued, ?_⟩
      by_cases hpw : p.2 = w
      · rcases hwaits with ⟨x', hx', hslot, hindex, -⟩ | ⟨hfree, -⟩
        · rw [hpw] at hslot
          obtain rfl := eq_of_filterMap_nodup h.slots_nodup hx' hx hslot rfl
          refine .inr ⟨by simp [hpw], by simp [hpw], c, op, h.settled _ _ hmem _ hindex,
            (h.index _ hx _ hindex).2, by simp [hpw], by simp [hpw], ?_⟩
          intro hread
          simp [hpw, hread]
        · exact absurd (hpw ▸ hfree) (h.slot_apart hx rfl)
      · rcases hwaits with ⟨x', hx', hslot, hrest⟩ | ⟨hfree, hrest⟩
        · rcases List.mem_cons.mp (hxfers.mem_iff.mp hx') with rfl | hx''
          · exact absurd (Option.some.inj hslot).symm hpw
          · exact .inl ⟨x', hx'', hslot, by simpa [hpw] using hrest⟩
        · refine .inr ⟨?_, by simpa [hpw] using hrest⟩
          rcases List.mem_append.mp hfree with hfree | hfree <;> simp [hfree]
    · intro x' hx'
      exact h.index x' (hsub x' hx')
    · have honce := (hxfers.filterMap Xfer.index).nodup_iff.mp h.once
      rw [List.filterMap_cons] at honce
      split at honce
      · exact honce
      · exact (List.nodup_cons.mp honce).2
    · exact h.fresh
    · intro x' c' hx'
      exact h.settled x' c' (List.mem_of_mem_eraseIdx hx')
    · exact h.outcomes
    · intro x' hx'
      exact h.control x' (hsub x' hx')
    · exact h.order
    · exact h.below
    · exact h.values
    · exact h.seen
    · exact h.answered
    · exact h.progress
    · intro hpc
      refine ⟨(h.begun hpc).1, fun hbuilt => ?_⟩
      have hnil := (h.begun hpc).2 hbuilt
      rw [hnil] at hperm
      exact absurd hperm.symm.eq_nil (by simp)
    · exact h.returned
  · exact h

theorem sound_push (h : s.Sound ops) (w : ℕ) : (s.push w).Sound ops := by
  unfold push
  split
  · next hw =>
    have hperm : (s.landing.erase w ++ w :: s.free).Perm (s.landing ++ s.free) := by
      refine List.perm_middle.trans ?_
      exact (List.perm_cons_erase hw).symm.append_right s.free
    constructor
    · exact h.single
    · have hnodup := h.owners
      refine (List.Perm.nodup_iff ?_).mp hnodup
      rw [List.perm_iff_count]
      intro b
      have hcount := hperm.count_eq b
      simp only [owners, xfers, List.count_append] at hcount ⊢
      omega
    · exact h.holding
    · exact h.waiting
    · exact h.ready
    · intro p hp
      obtain ⟨hissued, hwaits⟩ := h.waits p hp
      refine ⟨hissued, ?_⟩
      rcases hwaits with hfly | ⟨hfree, hrest⟩
      · exact .inl hfly
      · refine .inr ⟨?_, hrest⟩
        have hmem : p.2 ∈ s.landing.erase w ++ w :: s.free :=
          hperm.mem_iff.mpr (List.mem_append.mpr (List.mem_append.mp hfree).symm)
        exact List.mem_append.mpr (List.mem_append.mp hmem).symm
    · exact h.index
    · exact h.once
    · exact h.fresh
    · exact h.settled
    · exact h.outcomes
    · exact h.control
    · exact h.order
    · exact h.below
    · exact h.values
    · exact h.seen
    · exact h.answered
    · exact h.progress
    · intro hpc
      refine ⟨(h.begun hpc).1, fun hbuilt => ?_⟩
      have hnil := (h.begun hpc).2 hbuilt
      simp only [owners, List.append_eq_nil_iff] at hnil
      rw [hnil.2] at hw
      simp at hw
    · exact h.returned
  · exact h

/-! ## The thread -/

/-- Away from the synchronous access, what is issued is answered whatever becomes of one. -/
theorem Sound.answered_any (h : s.Sound ops) (hpc : s.pc ≠ .control_wait) {i : ℕ}
    (hi : i ∈ s.issued) (waited : Prop) : i ∈ s.seen ∨ i ∈ s.used.map Prod.fst ∨ i ∈ s.given_up ∨
      waited ∨ ∃ c, s.outcome i = some c ∧ c.whole = false := by
  rcases h.answered i hi with hs | hu | hg | hc | hf
  · exact .inl hs
  · exact .inr (.inl hu)
  · exact .inr (.inr (.inl hg))
  · exact absurd hc.1 hpc
  · exact .inr (.inr (.inr (.inr hf)))

/-- The thread goes on without touching slots or ops. -/
theorem Sound.goto (h : s.Sound ops) {pc : Pc} {ok batch abandoned built : Bool}
    {write_errors before want : ℕ} {undo : Option (List CtrlOp)} {slots : List ℕ}
    {used : List (ℕ × ℕ)} (hslots : slots = s.slots) (hused : used = s.used)
    (hbatch : batch = false) (hpc : pc.batched = false)
    (hholding : pc.holding = false → s.slots = []) (hwaiting : pc.waiting = false → s.used = [])
    (hfrom : s.pc ≠ .control_wait ∧ s.pc ≠ .threw)
    (hto : pc ≠ .control_wait ∧ pc ≠ .threw ∧ pc ≠ .start) (hok : ok → s.ok)
    (hreturned : ∀ r, pc = .returned r → r = ok ∧ ops.length ≤ s.pos) :
    { s with
      pc, ok, batch, abandoned, built, write_errors, before, want, undo, slots
      used }.Sound ops := by
  subst hslots hused
  constructor
  · exact ⟨hbatch, hpc⟩
  · exact h.owners
  · exact hholding
  · exact hwaiting
  · exact h.ready
  · exact h.waits
  · exact h.index
  · exact h.once
  · exact h.fresh
  · exact h.settled
  · exact h.outcomes
  · intro x hx hslot
    exact absurd (h.control x hx hslot).1 hfrom.1
  · exact h.order
  · exact h.below
  · exact fun _ => h.values hfrom.2
  · exact h.seen
  · exact fun i hi => h.answered_any hfrom.1 hi _
  · intro _ hok' i hi
    rcases h.progress hfrom.2 (hok hok') i hi with hs | hu | hc
    · exact .inl hs
    · exact .inr (.inl hu)
    · exact absurd hc.1 hfrom.1
  · exact fun hstart => absurd hstart hto.2.2
  · exact hreturned

theorem length_told (seen : List ℕ) (outcome : ℕ → Option Completion) (ops : List CtrlOp) :
    (told seen outcome ops).length = ops.length := List.length_mapIdx

theorem Sound.length_eq (h : s.Sound ops) (hpc : s.pc ≠ .threw) : s.ops.length = ops.length := by
  rw [h.values hpc, length_told]

theorem getElem?_told (seen : List ℕ) (outcome : ℕ → Option Completion) (i : ℕ) :
    (told seen outcome ops)[i]? = ops[i]?.map fun op =>
      if i ∈ seen ∧ op.write = false then
        { op with value := (outcome i).elim op.value Completion.payload }
      else op := List.getElem?_mapIdx

theorem told_nil (outcome : ℕ → Option Completion) (ops : List CtrlOp) :
    told [] outcome ops = ops := by
  apply List.ext_getElem?
  intro i
  simp [getElem?_told]

/-- The next op is as it was given. -/
theorem Sound.next_op (h : s.Sound ops) (hpc : s.pc ≠ .threw) : s.ops[s.pos]? = ops[s.pos]? := by
  rw [h.values hpc, getElem?_told]
  have hseen : s.pos ∉ s.seen := by
    intro hmem
    exact absurd (h.seen _ hmem).1 (Nat.lt_irrefl _)
  simp [hseen]

theorem sound_start (h : s.Sound ops) (hpc : s.pc = .start) (go : Bool) :
    (s.thread_step go).Sound ops := by
  obtain ⟨hok, hbuilt⟩ := h.begun hpc
  have hslots := h.holding (by rw [hpc]; rfl)
  have hused := h.waiting (by rw [hpc]; rfl)
  have hfrom : s.pc ≠ .control_wait ∧ s.pc ≠ .threw := by rw [hpc]; simp
  have hbatch := h.single.1
  have hlength := h.length_eq hfrom.2
  have hgoto : ∀ pc, pc.batched = false → pc ≠ .control_wait ∧ pc ≠ .threw ∧ pc ≠ .start →
      (∀ r, pc = .returned r → r = s.ok ∧ ops.length ≤ s.pos) → { s with pc := pc }.Sound ops := by
    intro pc hpc hto hret
    exact h.goto rfl rfl hbatch hpc (fun _ => hslots) (fun _ => hused) hfrom hto id hret
  simp only [thread_step, hpc]
  split
  · next hnil =>
    apply hgoto _ rfl (by simp)
    intro r hr
    rw [hnil] at hlength
    rw [hok, ← hlength]
    simpa using (Pc.returned.inj hr).symm
  split
  · exact hgoto _ rfl (by simp) (by simp)
  split
  · exact hgoto _ rfl (by simp) (by simp)
  split
  · next hunbuilt _ =>
    have hnil := hbuilt (by simpa using hunbuilt)
    have hchunk := hgoto .chunk rfl (by simp) (by simp)
    simp only [owners, List.append_eq_nil_iff] at hnil
    refine { hchunk with owners := ?_, waits := ?_, begun := by simp }
    · change (List.range kAsyncWriteDepth ++ s.slots ++ s.xfers.filterMap Xfer.slot ++
        s.landing).Nodup
      rw [hslots, hnil.1.2, hnil.2]
      simpa using List.nodup_range
    · simp [hused]
  · exact hgoto _ rfl (by simp) (by simp)

/-- A slot comes off the free list. -/
theorem sound_taken (h : s.Sound ops) {w : ℕ} {rest : List ℕ} (hfree : s.free = w :: rest)
    (hused : s.used = []) (hfrom : s.pc ≠ .control_wait ∧ s.pc ≠ .threw) {pc : Pc}
    (hpc : pc = .acquire ∨ pc = .submit) :
    { s with slot := s.reset w, free := rest, slots := s.slots ++ [w], pc }.Sound ops := by
  have hgoto : { s with pc := pc }.Sound ops := by
    apply h.goto rfl rfl h.single.1 _ _ (fun _ => hused) hfrom _ id
    · rintro r rfl
      simp at hpc
    · rcases hpc with rfl | rfl <;> rfl
    · rcases hpc with rfl | rfl <;> simp [Pc.holding]
    · rcases hpc with rfl | rfl <;> simp
  refine { hgoto with owners := ?_, holding := ?_, ready := ?_, waits := ?_, begun := ?_ }
  · refine (List.Perm.nodup_iff ?_).mp h.owners
    rw [List.perm_iff_count]
    intro b
    simp only [owners, hfree, xfers, List.count_append, List.count_cons, List.count_nil]
    omega
  · intro hno
    rcases hpc with rfl | rfl <;> simp [Pc.holding] at hno
  · intro w' hw'
    by_cases hne : w' = w
    · simp [reset, hne]
    · have hmem : w' ∈ s.slots := by
        simp only [List.mem_append, List.mem_singleton] at hw'
        exact hw'.resolve_right hne
      simpa [reset, hne] using h.ready w' hmem
  · simp [hused]
  · rintro rfl
    simp at hpc

theorem sound_chunk (h : s.Sound ops) (hpc : s.pc = .chunk) (go : Bool) :
    (s.thread_step go).Sound ops := by
  have hslots := h.holding (by rw [hpc]; rfl)
  have hused := h.waiting (by rw [hpc]; rfl)
  have hfrom : s.pc ≠ .control_wait ∧ s.pc ≠ .threw := by rw [hpc]; simp
  have hlength := h.length_eq hfrom.2
  simp only [thread_step, hpc]
  split
  · split
    · exact h.goto rfl rfl h.single.1 rfl (fun _ => hslots) (fun _ => hused) hfrom (by simp) id
        (by simp)
    · exact h.goto hslots.symm rfl h.single.1 rfl (fun _ => hslots) (fun _ => hused) hfrom (by simp)
        id (by simp)
  · next hend =>
    apply h.goto rfl rfl h.single.1 rfl (fun _ => hslots) (fun _ => hused) hfrom (by simp) id
    intro r hr
    refine ⟨(Pc.returned.inj hr).symm, ?_⟩
    omega

theorem sound_acquire (h : s.Sound ops) (hpc : s.pc = .acquire) (go : Bool) :
    (s.thread_step go).Sound ops := by
  have hused := h.waiting (by rw [hpc]; rfl)
  have hfrom : s.pc ≠ .control_wait ∧ s.pc ≠ .threw := by rw [hpc]; simp
  have hsubmit : { s with used := [], pc := .submit }.Sound ops :=
    h.goto rfl hused.symm h.single.1 rfl (by simp [Pc.holding]) (fun _ => hused) hfrom (by simp) id
      (by simp)
  simp only [thread_step, hpc]
  split
  · split
    · next w rest hfree => exact sound_taken h hfree hused hfrom (.inl rfl)
    · split
      · next hslots =>
        exact h.goto rfl rfl h.single.1 rfl (fun _ => hslots) (fun _ => hused) hfrom (by simp) id
          (by simp)
      · exact hsubmit
  · exact hsubmit

theorem sound_take (h : s.Sound ops) (hpc : s.pc = .take .group) (go : Bool) :
    (s.thread_step go).Sound ops := by
  have hslots := h.holding (by rw [hpc]; rfl)
  have hused := h.waiting (by rw [hpc]; rfl)
  have hfrom : s.pc ≠ .control_wait ∧ s.pc ≠ .threw := by rw [hpc]; simp
  simp only [thread_step, hpc]
  split
  · next w rest hfree =>
    have htaken := sound_taken h hfree hused hfrom (.inr rfl)
    simpa [taken, hslots] using htaken
  · exact h.goto rfl rfl h.single.1 rfl (fun _ => hslots) (fun _ => hused) hfrom (by simp) id
      (by simp)

theorem sound_take_wait (h : s.Sound ops) (hpc : s.pc = .take_wait .group) (go : Bool) :
    (s.thread_step go).Sound ops := by
  have hslots := h.holding (by rw [hpc]; rfl)
  have hused := h.waiting (by rw [hpc]; rfl)
  have hfrom : s.pc ≠ .control_wait ∧ s.pc ≠ .threw := by rw [hpc]; simp
  simp only [thread_step, hpc]
  split
  · exact h.goto rfl rfl h.single.1 rfl (fun _ => hslots) (fun _ => hused) hfrom (by simp) id
      (by simp)
  · split
    · exact h
    · exact h.goto rfl rfl h.single.1 rfl (fun _ => hslots) (fun _ => hused) hfrom (by simp) id
        (by simp)

/-- What is seen lies below the next op, and below the one after it. -/
theorem Sound.seen_next (h : s.Sound ops) {i : ℕ} (hi : i ∈ s.seen) :
    i < s.pos + 1 ∧ ∃ c, s.outcome i = some c ∧ c.whole := by
  obtain ⟨hlt, hout⟩ := h.seen i hi
  exact ⟨Nat.lt_succ_of_lt hlt, hout⟩

/-- The transfers, with that of the next op. -/
theorem xfers_next (s : Ctrl δ) (x : Xfer) :
    (s.ep0 ++ [x] ++ s.finished.map Prod.fst).Perm (x :: s.xfers) := by
  simp only [xfers, List.append_assoc]
  exact List.perm_middle

theorem Sound.order_next (h : s.Sound ops) : (s.issued ++ [s.pos]).Pairwise (· < ·) := by
  refine List.pairwise_append.mpr ⟨h.order, by simp, ?_⟩
  intro i hi j hj
  rw [List.mem_singleton.mp hj]
  exact h.below i hi

theorem Sound.below_next (h : s.Sound ops) {i : ℕ} (hi : i ∈ s.issued ++ [s.pos]) :
    i < s.pos + 1 := by
  rcases List.mem_append.mp hi with hi | hi
  · exact Nat.lt_succ_of_lt (h.below i hi)
  · rw [List.mem_singleton.mp hi]
    exact Nat.lt_succ_self _

theorem Sound.unissued (h : s.Sound ops) : s.outcome s.pos = none := by
  rcases hout : s.outcome s.pos with - | c
  · rfl
  · exact absurd (h.below _ (h.outcomes _ c hout)) (Nat.lt_irrefl _)

/-- The indices of the transfers, with a new one. -/
theorem Sound.once_cons (h : s.Sound ops) {x : Xfer} (hx : x.index = some s.pos) :
    ((x :: s.xfers).filterMap Xfer.index).Nodup := by
  rw [List.filterMap_cons, hx]
  refine List.nodup_cons.mpr ⟨?_, h.once⟩
  intro hmem
  obtain ⟨x', hx', hindex⟩ := List.mem_filterMap.mp hmem
  exact absurd (h.below _ (h.index x' hx' _ hindex).1) (Nat.lt_irrefl _)

/-- A slot that was taken for the next op is not one of those that are waited for. -/
theorem Sound.waits_other (h : s.Sound ops) {w : ℕ} (hw : w ∈ s.slots) {p : ℕ × ℕ}
    (hp : p ∈ s.used) : p.2 ≠ w := by
  rintro rfl
  rcases (h.waits p hp).2 with ⟨x, hx, hslot, -⟩ | ⟨hfree, -⟩
  · exact h.slot_held hx hslot hw
  · have howners := h.owners
    simp only [Ctrl.owners, List.append_assoc] at howners
    obtain ⟨-, hrest, hfree'⟩ := List.nodup_append'.mp howners
    obtain ⟨-, -, hslots⟩ := List.nodup_append'.mp hrest
    rcases List.mem_append.mp hfree with hmem | hmem
    · exact hfree' hmem (by simp [hw])
    · exact hslots hw (by simp [hmem])

theorem sound_submitted (h : s.Sound ops) (hpc : s.pc = .submit) {w : ℕ} {rest : List ℕ}
    (hslots : s.slots = w :: rest) {op : CtrlOp} (hop : s.ops[s.pos]? = some op) :
    { s.async_submit w s.pos op true with
      slots := rest, used := s.used ++ [(s.pos, w)], ok := s.ok && true
      pos := s.pos + 1 }.Sound ops := by
  have hnot : s.pc ≠ .control_wait ∧ s.pc ≠ .threw := by rw [hpc]; simp
  have hw : w ∈ s.slots := by simp [hslots]
  constructor
  · exact h.single
  · refine (List.Perm.nodup_iff ?_).mp h.owners
    rw [List.perm_iff_count]
    intro b
    have hcount := ((xfers_next s { slot := some w, op, index := some s.pos }).filterMap
      Xfer.slot).count_eq b
    simp only [List.filterMap_cons, List.count_cons] at hcount
    simp only [async_submit, owners, hslots, xfers, if_true, List.count_append,
      List.count_cons] at hcount ⊢
    omega
  · intro hno
    simp [async_submit, hpc, Pc.holding] at hno
  · intro hno
    simp [async_submit, hpc, Pc.waiting] at hno
  · intro w' hw'
    have hne : w' ≠ w := by
      rintro rfl
      have howners := h.owners
      simp only [owners, hslots, List.append_assoc] at howners
      have hnodup := (List.nodup_append'.mp howners).2.1
      exact (List.nodup_cons.mp hnodup).1 (by simp [show w' ∈ rest from hw'])
    simpa [async_submit, hne] using h.ready w' (by simp [hslots, show w' ∈ rest from hw'])
  · intro p hp
    rcases List.mem_append.mp hp with hp | hp
    · obtain ⟨hissued, hwaits⟩ := h.waits p hp
      refine ⟨by simp [async_submit, hissued], ?_⟩
      have hne := h.waits_other hw hp
      rcases hwaits with ⟨x, hx, hslot, hindex, hdone⟩ | ⟨hfree, hrest⟩
      · refine .inl ⟨x, (xfers_next s _).mem_iff.mpr (List.mem_cons_of_mem _ hx), hslot, hindex, ?_⟩
        simpa [async_submit, hne] using hdone
      · exact .inr ⟨hfree, by simpa [async_submit, hne] using hrest⟩
    · obtain rfl := List.mem_singleton.mp hp
      refine ⟨by simp [async_submit], .inl ⟨{ slot := some w, op, index := some s.pos }, ?_⟩⟩
      refine ⟨(xfers_next s _).mem_iff.mpr (List.mem_cons_self ..), rfl, rfl, ?_⟩
      simpa [async_submit] using h.ready w hw
  · intro x hx i hi
    rcases List.mem_cons.mp ((xfers_next s _).mem_iff.mp hx) with rfl | hx
    · obtain rfl : s.pos = i := by simpa using hi
      exact ⟨by simp [async_submit], (h.next_op hnot.2).symm.trans hop⟩
    · obtain ⟨hissued, hget⟩ := h.index x hx i hi
      exact ⟨by simp [async_submit, hissued], hget⟩
  · exact ((xfers_next s _).filterMap Xfer.index).nodup_iff.mpr (h.once_cons rfl)
  · intro x hx i hi
    simp only [async_submit, if_true, List.mem_append, List.mem_singleton] at hx
    rcases hx with hx | rfl
    · exact h.fresh x hx i hi
    · obtain rfl : s.pos = i := by simpa using hi
      exact h.unissued
  · exact h.settled
  · intro i c hi
    exact List.mem_append_left _ (h.outcomes i c hi)
  · intro x hx hslot
    rcases List.mem_cons.mp ((xfers_next s _).mem_iff.mp hx) with rfl | hx
    · simp at hslot
    · exact absurd (h.control x hx hslot).1 hnot.1
  · exact h.order_next
  · exact fun i hi => h.below_next hi
  · exact fun _ => h.values hnot.2
  · exact fun i hi => h.seen_next hi
  · intro i hi
    rcases List.mem_append.mp hi with hi | hi
    · rcases h.answered i hi with hs | hu | hg | hc | hf
      · exact .inl hs
      · exact .inr (.inl (by simp [show i ∈ s.used.map Prod.fst from hu]))
      · exact .inr (.inr (.inl hg))
      · exact absurd hc.1 hnot.1
      · exact .inr (.inr (.inr (.inr hf)))
    · rw [List.mem_singleton.mp hi]
      exact .inr (.inl (by simp))
  · intro _ hok i hi
    rcases Nat.lt_succ_iff_lt_or_eq.mp hi with hi | rfl
    · rcases h.progress hnot.2 (by simpa using hok) i hi with hs | hu | hc
      · exact .inl hs
      · exact .inr (.inl (by simp [show i ∈ s.used.map Prod.fst from hu]))
      · exact absurd hc.1 hnot.1
    · exact .inr (.inl (by simp))
  · intro hstart
    simp [async_submit, hpc] at hstart
  · intro r hr
    simp [async_submit, hpc] at hr

theorem sound_refused (h : s.Sound ops) (hpc : s.pc = .submit) {w : ℕ} {rest : List ℕ}
    (hslots : s.slots = w :: rest) (op : CtrlOp) :
    { s.async_submit w s.pos op false with
      slots := rest, ok := s.ok && false, pos := s.pos + 1 }.Sound ops := by
  have hnot : s.pc ≠ .control_wait ∧ s.pc ≠ .threw := by rw [hpc]; simp
  have hw : w ∈ s.slots := by simp [hslots]
  constructor
  · exact h.single
  · refine (List.Perm.nodup_iff ?_).mp h.owners
    rw [List.perm_iff_count]
    intro b
    simp only [async_submit, owners, hslots, xfers, Bool.false_eq_true, if_false,
      List.count_append, List.count_cons]
    omega
  · intro hno
    simp [async_submit, hpc, Pc.holding] at hno
  · intro hno
    simp [async_submit, hpc, Pc.waiting] at hno
  · intro w' hw'
    by_cases hne : w' = w
    · subst hne
      simpa [async_submit] using h.ready w' hw
    · simpa [async_submit, hne] using h.ready w' (by simp [hslots, show w' ∈ rest from hw'])
  · intro p hp
    obtain ⟨hissued, hwaits⟩ := h.waits p hp
    refine ⟨hissued, ?_⟩
    have hne := h.waits_other hw hp
    rcases hwaits with ⟨x, hx, hslot, hindex, hdone⟩ | ⟨hfree, hrest⟩
    · exact .inl ⟨x, hx, hslot, hindex, by simpa [async_submit, hne] using hdone⟩
    · refine .inr ⟨?_, by simpa [async_submit, hne] using hrest⟩
      exact List.mem_cons_of_mem _ hfree
  · exact h.index
  · exact h.once
  · exact h.fresh
  · exact h.settled
  · exact h.outcomes
  · intro x hx hslot
    exact absurd (h.control x hx hslot).1 hnot.1
  · exact h.order
  · intro i hi
    exact Nat.lt_succ_of_lt (h.below i hi)
  · exact fun _ => h.values hnot.2
  · exact fun i hi => h.seen_next hi
  · exact fun i hi => h.answered_any hnot.1 hi _
  · intro _ hok
    simp at hok
  · intro hstart
    simp [async_submit, hpc] at hstart
  · intro r hr
    simp [async_submit, hpc] at hr

theorem sound_submit (h : s.Sound ops) (hpc : s.pc = .submit) (go : Bool) :
    (s.thread_step go).Sound ops := by
  simp only [thread_step, hpc]
  split
  · next w rest op hslots hop =>
    cases go with
    | true => exact sound_submitted h hpc hslots hop
    | false => exact sound_refused h hpc hslots op
  · next _ hslots =>
    exact h.goto rfl rfl h.single.1 rfl (fun _ => hslots) (by simp [Pc.waiting])
      (by rw [hpc]; simp) (by simp) id (by simp)
  · exact h

/-! ## The looks -/

/-- A slot that is found complete has brought what the transfer of its op has. -/
theorem Waits.of_good {p : ℕ × ℕ} (h : s.Waits ops p) (hgood : (s.slot p.2).good) :
    ∃ c op, s.outcome p.1 = some c ∧ c.whole ∧ ops[p.1]? = some op ∧
      (op.write = false → (s.slot p.2).buf = c.payload) := by
  simp only [AsyncWrite.good, Bool.and_eq_true, decide_eq_true_eq] at hgood
  rcases h with ⟨x, -, -, -, hdone⟩ | ⟨-, -, c, op, hout, hop, hstatus, hactual, hbuf⟩
  · rw [hdone] at hgood
    simp at hgood
  · refine ⟨c, op, hout, ?_, hop, hbuf⟩
    have hcompleted : c.status = .COMPLETED := Option.some.inj (hstatus.symm.trans hgood.1.2)
    simp [Completion.whole, hcompleted, ← hactual, hgood.2]

/-- A slot that is done and not complete belongs to a transfer that has failed. -/
theorem Waits.of_failed {p : ℕ × ℕ} (h : s.Waits ops p) (hdone : (s.slot p.2).done)
    (hbad : (s.slot p.2).good = false) : ∃ c, s.outcome p.1 = some c ∧ c.whole = false := by
  rcases h with ⟨x, -, -, -, hnot⟩ | ⟨-, -, c, op, hout, -, hstatus, hactual, -⟩
  · rw [hdone] at hnot
    cases hnot
  · refine ⟨c, hout, ?_⟩
    simpa [AsyncWrite.good, hdone, hstatus, hactual, Completion.whole] using hbad

/-- An op is found complete. -/
theorem told_snoc {seen : List ℕ} {outcome : ℕ → Option Completion} {i : ℕ} {op : CtrlOp}
    {c : Completion} (hop : ops[i]? = some op) (hout : outcome i = some c) {value : BitVec 32}
    (hvalue : op.write = false → value = c.payload) :
    (if op.write then told seen outcome ops else set_value (told seen outcome ops) i value) =
      told (seen ++ [i]) outcome ops := by
  apply List.ext_getElem?
  intro k
  by_cases hk : k = i
  · subst hk
    cases hwrite : op.write with
    | true => simp [getElem?_told, hop, hwrite]
    | false =>
      by_cases hseen : k ∈ seen <;>
        simp [set_value, getElem?_told, hop, hwrite, hout, hvalue hwrite, hseen]
  · have hmem : k ∈ seen ++ [i] ↔ k ∈ seen := by simp [hk]
    cases hwrite : op.write
    · simp [set_value, getElem?_told, hmem, Ne.symm hk]
    · simp [getElem?_told, hmem]

/-- Of the ops that are waited for the first is answered. -/
theorem used_tail {i j w : ℕ} {rest : List (ℕ × ℕ)} (h : j ∈ ((i, w) :: rest).map Prod.fst) :
    j = i ∨ j ∈ rest.map Prod.fst := List.mem_cons.mp h

/-- The first op that is waited for is inspected, and the thread waits for the rest. Only what is
told of this op changes. -/
theorem sound_inspected (h : s.Sound ops) (hpc : s.pc = .inspect) {i w : ℕ} {rest : List (ℕ × ℕ)}
    (hused : s.used = (i, w) :: rest) {ops' : List CtrlOp} {seen given_up : List ℕ} {ok : Bool}
    (hvalues : ops' = told seen s.outcome ops)
    (hseen : ∀ j ∈ seen, j < s.pos ∧ ∃ c, s.outcome j = some c ∧ c.whole)
    (hanswered : ∀ j ∈ s.issued, j ∈ seen ∨ j ∈ rest.map Prod.fst ∨ j ∈ given_up ∨
      ∃ c, s.outcome j = some c ∧ c.whole = false)
    (hprogress : ok → ∀ j < s.pos, j ∈ seen ∨ j ∈ rest.map Prod.fst) :
    { s with ops := ops', seen, given_up, ok, used := rest, pc := .wait }.Sound ops := by
  have hnot : s.pc ≠ .control_wait := by rw [hpc]; simp
  have hrest : ∀ p ∈ rest, p ∈ s.used := by
    intro p hp
    simp [hused, hp]
  constructor
  · exact ⟨h.single.1, rfl⟩
  · exact h.owners
  · exact fun _ => h.holding (by rw [hpc]; rfl)
  · simp [Pc.waiting]
  · exact h.ready
  · exact fun p hp => h.waits p (hrest p hp)
  · exact h.index
  · exact h.once
  · exact h.fresh
  · exact h.settled
  · exact h.outcomes
  · intro x hx hslot
    exact absurd (h.control x hx hslot).1 hnot
  · exact h.order
  · exact h.below
  · exact fun _ => hvalues
  · exact hseen
  · intro j hj
    rcases hanswered j hj with hs | hu | hg | hf
    · exact .inl hs
    · exact .inr (.inl hu)
    · exact .inr (.inr (.inl hg))
    · exact .inr (.inr (.inr (.inr hf)))
  · intro _ hok j hj
    rcases hprogress hok j hj with hs | hu
    · exact .inl hs
    · exact .inr (.inl hu)
  · simp
  · simp

/-- An op that came back whole is seen. -/
theorem sound_inspect_good (h : s.Sound ops) (hpc : s.pc = .inspect) {i w : ℕ}
    {rest : List (ℕ × ℕ)} (hused : s.used = (i, w) :: rest) (hgood : (s.slot w).good) :
    { s with
      ops := if (s.ops[i]?.elim true CtrlOp.write) then s.ops
        else set_value s.ops i (s.slot w).buf
      seen := s.seen ++ [i]
      used := rest
      pc := .wait }.Sound ops := by
  have hnot : s.pc ≠ .control_wait ∧ s.pc ≠ .threw := by rw [hpc]; simp
  obtain ⟨hissued, hwaits⟩ := h.waits (i, w) (by simp [hused])
  obtain ⟨c, op, hout, hwhole, hop, hbuf⟩ := hwaits.of_good hgood
  have hget : (s.ops[i]?.elim true CtrlOp.write) = op.write := by
    rw [h.values hnot.2, getElem?_told, hop]
    simp only [Option.map_some, Option.elim]
    split <;> rfl
  apply sound_inspected h hpc hused
  · rw [hget, h.values hnot.2]
    exact told_snoc hop hout hbuf
  · intro j hj
    rcases List.mem_append.mp hj with hj | hj
    · exact h.seen j hj
    · rw [List.mem_singleton.mp hj]
      exact ⟨h.below i hissued, c, hout, hwhole⟩
  · intro j hj
    rcases h.answered j hj with hs | hu | hg | hc | hf
    · exact .inl (List.mem_append_left _ hs)
    · rw [hused] at hu
      rcases used_tail hu with rfl | hu
      · exact .inl (by simp)
      · exact .inr (.inl hu)
    · exact .inr (.inr (.inl hg))
    · exact absurd hc.1 hnot.1
    · exact .inr (.inr (.inr hf))
  · intro hok j hj
    rcases h.progress hnot.2 hok j hj with hs | hu | hc
    · exact .inl (List.mem_append_left _ hs)
    · rw [hused] at hu
      rcases used_tail hu with rfl | hu
      · exact .inl (by simp)
      · exact .inr hu
    · exact absurd hc.1 hnot.1

/-- An op that has failed, or that is given up before it is done, fails the group. -/
theorem sound_inspect_bad (h : s.Sound ops) (hpc : s.pc = .inspect) {i w : ℕ}
    {rest : List (ℕ × ℕ)} (hused : s.used = (i, w) :: rest) (hbad : (s.slot w).good = false) :
    { s with
      ok := false
      given_up := if (s.slot w).done then s.given_up else s.given_up ++ [i]
      used := rest
      pc := .wait }.Sound ops := by
  have hnot : s.pc ≠ .control_wait ∧ s.pc ≠ .threw := by rw [hpc]; simp
  obtain ⟨-, hwaits⟩ := h.waits (i, w) (by simp [hused])
  apply sound_inspected h hpc hused
  · exact h.values hnot.2
  · exact h.seen
  · intro j hj
    rcases h.answered j hj with hs | hu | hg | hc | hf
    · exact .inl hs
    · rw [hused] at hu
      rcases used_tail hu with rfl | hu
      · cases hdone : (s.slot w).done with
        | true => exact .inr (.inr (.inr (hwaits.of_failed hdone hbad)))
        | false => exact .inr (.inr (.inl (by simp)))
      · exact .inr (.inl hu)
    · refine .inr (.inr (.inl ?_))
      split
      · exact hg
      · exact List.mem_append_left _ hg
    · exact absurd hc.1 hnot.1
    · exact .inr (.inr (.inr hf))
  · intro hok
    simp at hok

theorem sound_inspect (h : s.Sound ops) (hpc : s.pc = .inspect) (go : Bool) :
    (s.thread_step go).Sound ops := by
  simp only [thread_step, hpc]
  split
  · exact h
  · next i w rest hused =>
    split
    · next hgood =>
      exact sound_inspect_good h hpc hused hgood
    · next hbad =>
      exact sound_inspect_bad h hpc hused (by simpa using hbad)

theorem sound_wait (h : s.Sound ops)
    (hpc : s.pc = .wait ∨ s.pc = .look ∨ s.pc = .progress) (go : Bool) :
    (s.thread_step go).Sound ops := by
  have hnot : s.pc ≠ .control_wait ∧ s.pc ≠ .threw := by
    rcases hpc with hpc | hpc | hpc <;> rw [hpc] <;> simp
  have hslots := h.holding (by rcases hpc with hpc | hpc | hpc <;> rw [hpc] <;> rfl)
  have hgoto : ∀ pc before, pc.batched = false → pc.waiting = true →
      pc ≠ .control_wait ∧ pc ≠ .threw ∧ pc ≠ .start → (∀ r, pc ≠ .returned r) →
      { s with pc, before }.Sound ops := by
    intro pc before hbatched hwaiting hto hret
    exact h.goto rfl rfl h.single.1 hbatched (fun _ => hslots) (by simp [hwaiting]) hnot hto id
      fun r hr => absurd hr (hret r)
  rcases hpc with hpc | hpc | hpc <;> simp only [thread_step, hpc]
  · split
    · next hused =>
      exact h.goto rfl rfl h.single.1 rfl (fun _ => hslots) (fun _ => hused) hnot (by simp) id
        (by simp)
    · exact hgoto _ _ rfl rfl (by simp) (by simp)
  · split
    · exact h
    · split <;> exact hgoto _ _ rfl rfl (by simp) (by simp)
  · split
    · exact hgoto _ _ rfl rfl (by simp) (by simp)
    · split
      · exact h
      · exact hgoto _ _ rfl rfl (by simp) (by simp)

theorem flush_stage (ret : Ret) (stage next : Flush) :
    (Pc.flush ret next).batched = (Pc.flush ret stage).batched ∧
      (Pc.flush ret next).waiting = (Pc.flush ret stage).waiting := by
  rcases ret with (- | -) | - | - <;> exact ⟨rfl, rfl⟩

theorem sound_flush (h : s.Sound ops) {ret : Ret} {stage : Flush} (hpc : s.pc = .flush ret stage)
    (go : Bool) : (s.thread_step go).Sound ops := by
  have hnot : s.pc ≠ .control_wait ∧ s.pc ≠ .threw := by rw [hpc]; simp
  have hslots := h.holding (by rw [hpc]; rfl)
  have hsingle := h.single
  rw [hpc] at hsingle
  -- the flush goes on, or it returns
  have hon : ∀ next before, { s with pc := .flush ret next, before }.Sound ops := by
    intro next before
    obtain ⟨hbatched, hwaiting⟩ := flush_stage ret stage next
    refine h.goto rfl rfl h.single.1 (hbatched.trans hsingle.2) (fun _ => hslots) (fun hno => ?_)
      hnot (by simp) id (by simp)
    exact h.waiting (by rw [hpc, ← hwaiting]; exact hno)
  have hback : ∀ write_errors abandoned batch, batch = false →
      (back { s with write_errors, abandoned, batch } ret).Sound ops := by
    intro write_errors abandoned batch hbatch
    cases ret with
    | take caller =>
      have hused := h.waiting (by rw [hpc]; rfl)
      cases caller with
      | single => simp [Pc.batched] at hsingle
      | group =>
        have hno : (abandoned || !batch) = true := by simp [hbatch]
        simp only [back, hno, if_true, no_slot]
        exact h.goto rfl rfl hbatch rfl (fun _ => hslots) (fun _ => hused) hnot (by simp) (by simp)
          (by simp)
    | wait =>
      exact h.goto rfl rfl hbatch rfl (fun _ => hslots) (by simp [Pc.waiting]) hnot (by simp) id
        (by simp)
    | read => simp [Pc.batched] at hsingle
  simp only [thread_step, hpc]
  cases stage <;> simp only [flush_step]
  · split
    · exact hback _ _ _ hsingle.1
    · exact hon _ _
  · split
    · exact hon _ _
    · exact hback _ _ _ hsingle.1
  · split
    · exact hon _ _
    · split
      · exact h
      · exact hon _ _
  · split
    · exact h
    · exact hon _ _
  · split
    · exact hback _ _ _ rfl
    · exact hback _ _ _ hsingle.1

/-! ## The synchronous accesses -/

theorem sound_sync (h : s.Sound ops) (hpc : s.pc = .sync) (go : Bool) :
    (s.thread_step go).Sound ops := by
  have hnot : s.pc ≠ .control_wait ∧ s.pc ≠ .threw := by rw [hpc]; simp
  have hslots := h.holding (by rw [hpc]; rfl)
  have hused := h.waiting (by rw [hpc]; rfl)
  have hlength := h.length_eq hnot.2
  simp only [thread_step, hpc, h.single.1, Bool.false_eq_true, if_false]
  split
  · exact h.goto rfl rfl rfl rfl (fun _ => hslots) (fun _ => hused) hnot (by simp) id
      (by simp)
  · refine h.goto rfl rfl rfl rfl (fun _ => hslots) (fun _ => hused) hnot (by simp) id ?_
    intro r hr
    refine ⟨(Pc.returned.inj hr).symm, ?_⟩
    omega

/-- An access that libusb refuses is passed over. -/
theorem sound_passed (h : s.Sound ops) (hpc : s.pc = .control) (op : CtrlOp) :
    (control_failed { s with pos := s.pos + 1 } op).Sound ops := by
  have hnot : s.pc ≠ .control_wait ∧ s.pc ≠ .threw := by rw [hpc]; simp
  have hslots := h.holding (by rw [hpc]; rfl)
  have hused := h.waiting (by rw [hpc]; rfl)
  have hbelow : ∀ i ∈ s.issued, i < s.pos + 1 := fun i hi => Nat.lt_succ_of_lt (h.below i hi)
  have hpassed : ∀ pc ok ops' write_errors, (pc = .sync ∧ ok = false ∧ ops' = s.ops ∨ pc = .threw) →
      { s with pc, ok, ops := ops', write_errors, pos := s.pos + 1 }.Sound ops := by
    intro pc ok ops' write_errors hto
    refine { h with
      single := ?_, holding := fun _ => hslots, waiting := fun _ => hused, control := ?_
      below := hbelow, values := ?_, seen := fun i hi => h.seen_next hi, answered := ?_
      progress := ?_, begun := ?_, returned := ?_ }
    · rcases hto with ⟨rfl, -⟩ | rfl <;> exact ⟨h.single.1, rfl⟩
    · intro x hx hslot
      exact absurd (h.control x hx hslot).1 hnot.1
    · rcases hto with ⟨-, -, rfl⟩ | rfl
      · exact fun _ => h.values hnot.2
      · simp
    · exact fun i hi => h.answered_any hnot.1 hi _
    · rcases hto with ⟨-, rfl, -⟩ | rfl <;> simp
    · rcases hto with ⟨rfl, -⟩ | rfl <;> simp
    · rcases hto with ⟨rfl, -⟩ | rfl <;> simp
  unfold control_failed
  split
  · exact hpassed _ _ _ _ (.inl ⟨rfl, rfl, rfl⟩)
  · exact hpassed _ _ _ _ (.inr rfl)

theorem sound_control (h : s.Sound ops) (hpc : s.pc = .control) (go : Bool) :
    (s.thread_step go).Sound ops := by
  have hnot : s.pc ≠ .control_wait ∧ s.pc ≠ .threw := by rw [hpc]; simp
  have hslots := h.holding (by rw [hpc]; rfl)
  have hused := h.waiting (by rw [hpc]; rfl)
  simp only [thread_step, hpc]
  split
  · exact h
  · next op hop =>
    cases go with
    | false => exact sound_passed h hpc op
    | true =>
      simp only [if_true]
      constructor
      · exact ⟨h.single.1, rfl⟩
      · have hslot := (xfers_next s { slot := none, op, index := some s.pos }).filterMap Xfer.slot
        simp only [List.filterMap_cons] at hslot
        have howners := (hslot.append_left (s.free ++ s.slots)).append_right s.landing
        exact howners.nodup_iff.mpr h.owners
      · exact fun _ => hslots
      · exact fun _ => hused
      · exact h.ready
      · simp [hused]
      · intro x hx i hi
        rcases List.mem_cons.mp ((xfers_next s _).mem_iff.mp hx) with rfl | hx
        · obtain rfl : s.pos = i := by simpa using hi
          exact ⟨by simp, (h.next_op hnot.2).symm.trans hop⟩
        · obtain ⟨hissued, hget⟩ := h.index x hx i hi
          exact ⟨List.mem_append_left _ hissued, hget⟩
      · exact ((xfers_next s _).filterMap Xfer.index).nodup_iff.mpr (h.once_cons rfl)
      · intro x hx i hi
        rcases List.mem_append.mp hx with hx | hx
        · exact h.fresh x hx i hi
        · rw [List.mem_singleton.mp hx] at hi
          obtain rfl : s.pos = i := by simpa using hi
          exact h.unissued
      · exact h.settled
      · intro i c hi
        exact List.mem_append_left _ (h.outcomes i c hi)
      · intro x hx hslot
        rcases List.mem_cons.mp ((xfers_next s _).mem_iff.mp hx) with rfl | hx
        · exact ⟨rfl, s.pos, rfl, rfl⟩
        · exact absurd (h.control x hx hslot).1 hnot.1
      · exact h.order_next
      · exact fun i hi => h.below_next hi
      · exact fun _ => h.values hnot.2
      · exact fun i hi => h.seen_next hi
      · intro i hi
        rcases List.mem_append.mp hi with hi | hi
        · exact h.answered_any hnot.1 hi _
        · rw [List.mem_singleton.mp hi]
          exact .inr (.inr (.inr (.inl ⟨rfl, rfl⟩)))
      · intro _ hok i hi
        rcases Nat.lt_succ_iff_lt_or_eq.mp hi with hi | rfl
        · rcases h.progress hnot.2 hok i hi with hs | hu | hc
          · exact .inl hs
          · exact .inr (.inl hu)
          · exact absurd hc.1 hnot.1
        · exact .inr (.inr ⟨rfl, rfl⟩)
      · simp
      · simp

/-- The synchronous access is over: its transfer is the only one without a slot. -/
theorem control_over (h : s.Sound ops) {x : Xfer} {c : Completion} (hfin : (x, c) ∈ s.finished)
    (hslot : x.slot = none) :
    x.index = some (s.pos - 1) ∧ s.pos - 1 + 1 = s.pos ∧ s.pos - 1 ∈ s.issued ∧
      s.outcome (s.pos - 1) = some c ∧ ops[s.pos - 1]? = some x.op ∧
        s.xfers.Perm (x :: (s.ep0 ++ (s.finished.erase (x, c)).map Prod.fst)) := by
  have hperm : s.xfers.Perm (x :: (s.ep0 ++ (s.finished.erase (x, c)).map Prod.fst)) := by
    have herase := ((List.perm_cons_erase hfin).map Prod.fst).append_left s.ep0
    exact herase.trans List.perm_middle
  have hx : x ∈ s.xfers := hperm.mem_iff.mpr (List.mem_cons_self ..)
  obtain ⟨-, i, hindex, hi⟩ := h.control x hx hslot
  obtain rfl : i = s.pos - 1 := by omega
  obtain ⟨hissued, hget⟩ := h.index x hx _ hindex
  exact ⟨hindex, hi, hissued, h.settled x c hfin _ hindex, hget, hperm⟩

/-- The transfers that are left once the synchronous access is over: each has a slot, and no slot
and no op twice. -/
theorem control_left (h : s.Sound ops) {x : Xfer} {c : Completion} (hfin : (x, c) ∈ s.finished)
    (hslot : x.slot = none) {left : List Xfer}
    (hleft : left = s.ep0 ++ (s.finished.erase (x, c)).map Prod.fst) :
    (∀ x' ∈ left, x' ∈ s.xfers) ∧ (∀ x' ∈ left, x'.slot ≠ none) ∧
      (s.free ++ s.slots ++ left.filterMap Xfer.slot ++ s.landing).Nodup ∧
        (left.filterMap Xfer.index).Nodup := by
  obtain ⟨hindex, hpos, -, -, -, hperm⟩ := control_over h hfin hslot
  rw [← hleft] at hperm
  have honce := (hperm.filterMap Xfer.index).nodup_iff.mp h.once
  rw [List.filterMap_cons, hindex] at honce
  obtain ⟨hlast, hrest⟩ := List.nodup_cons.mp honce
  have hsub : ∀ x' ∈ left, x' ∈ s.xfers := by
    intro x' hx'
    exact hperm.mem_iff.mpr (List.mem_cons_of_mem _ hx')
  refine ⟨hsub, ?_, ?_, hrest⟩
  · intro x' hx' hnone
    obtain ⟨-, i, hi, hpos'⟩ := h.control x' (hsub x' hx') hnone
    obtain rfl : i = s.pos - 1 := by omega
    exact hlast (List.mem_filterMap.mpr ⟨x', hx', hi⟩)
  · have hslot' := hperm.filterMap Xfer.slot
    rw [List.filterMap_cons, hslot] at hslot'
    have hall := (hslot'.append_left (s.free ++ s.slots)).append_right s.landing
    exact hall.nodup_iff.mp h.owners

/-- What is answered while the thread waits for a synchronous access, which is the last op. -/
theorem control_answered (h : s.Sound ops) (hused : s.used = []) {i : ℕ} (hi : i ∈ s.issued) :
    i ∈ s.seen ∨ i ∈ s.given_up ∨ i = s.pos - 1 ∨ ∃ c, s.outcome i = some c ∧ c.whole = false := by
  rcases h.answered i hi with hs | hu | hg | ⟨-, hc⟩ | hf
  · exact .inl hs
  · simp [hused] at hu
  · exact .inr (.inl hg)
  · exact .inr (.inr (.inl (by omega)))
  · exact .inr (.inr (.inr hf))

/-- A synchronous access that fails: the thread goes on with the next op, or it throws. -/
theorem sound_control_bad (h : s.Sound ops) (hpc : s.pc = .control_wait) {x : Xfer}
    {c : Completion} (hfin : (x, c) ∈ s.finished) (hslot : x.slot = none) (hbad : c.whole = false)
    {pc : Pc} {ok : Bool} {ops' : List CtrlOp} (write_errors : ℕ)
    (hto : pc = .sync ∧ ok = false ∧ ops' = s.ops ∨ pc = .threw) :
    { s with
      finished := s.finished.erase (x, c)
      pc, ok, ops := ops', write_errors }.Sound ops := by
  have hthrew : s.pc ≠ .threw := by rw [hpc]; simp
  have hslots := h.holding (by rw [hpc]; rfl)
  have hused := h.waiting (by rw [hpc]; rfl)
  obtain ⟨-, -, -, hout, -, -⟩ := control_over h hfin hslot
  obtain ⟨hsub, hcontrol, howners, honce⟩ := control_left h hfin hslot rfl
  refine { h with
    single := ?_, owners := howners, holding := fun _ => hslots, waiting := fun _ => hused
    waits := by simp [hused]
    index := fun x' hx' => h.index x' (hsub x' hx'), once := honce
    settled := fun x' c' hx' => h.settled x' c' (List.mem_of_mem_erase hx')
    control := fun x' hx' hnone => absurd hnone (hcontrol x' hx')
    values := ?_, answered := ?_, progress := ?_, begun := ?_, returned := ?_ }
  · rcases hto with ⟨rfl, -⟩ | rfl <;> exact ⟨h.single.1, rfl⟩
  · intro hno
    rcases hto with ⟨-, -, rfl⟩ | rfl
    · exact h.values hthrew
    · exact absurd rfl hno
  · intro i hi
    rcases control_answered h hused hi with hs | hg | rfl | hf
    · exact .inl hs
    · exact .inr (.inr (.inl hg))
    · exact .inr (.inr (.inr (.inr ⟨c, hout, hbad⟩)))
    · exact .inr (.inr (.inr (.inr hf)))
  · intro hno hok
    rcases hto with ⟨-, rfl, -⟩ | rfl
    · simp at hok
    · exact absurd rfl hno
  · rcases hto with ⟨rfl, -⟩ | rfl <;> simp
  · rcases hto with ⟨rfl, -⟩ | rfl <;> simp

/-- A synchronous access that comes back whole: its op is seen. -/
theorem sound_control_whole (h : s.Sound ops) (hpc : s.pc = .control_wait) {x : Xfer}
    {c : Completion} (hfin : (x, c) ∈ s.finished) (hslot : x.slot = none) (hwhole : c.whole) :
    { s with
      finished := s.finished.erase (x, c)
      ops := if x.op.write then s.ops else set_value s.ops (s.pos - 1) c.payload
      seen := s.seen ++ [s.pos - 1]
      pc := .sync }.Sound ops := by
  have hthrew : s.pc ≠ .threw := by rw [hpc]; simp
  have hslots := h.holding (by rw [hpc]; rfl)
  have hused := h.waiting (by rw [hpc]; rfl)
  obtain ⟨-, hpos, hissued, hout, hop, -⟩ := control_over h hfin hslot
  obtain ⟨hsub, hcontrol, howners, honce⟩ := control_left h hfin hslot rfl
  refine { h with
    single := ⟨h.single.1, rfl⟩, owners := howners, holding := fun _ => hslots
    waiting := fun _ => hused, waits := by simp [hused]
    index := fun x' hx' => h.index x' (hsub x' hx'), once := honce
    settled := fun x' c' hx' => h.settled x' c' (List.mem_of_mem_erase hx')
    control := fun x' hx' hnone => absurd hnone (hcontrol x' hx')
    values := ?_, seen := ?_, answered := ?_, progress := ?_, begun := by simp
    returned := by simp }
  · intro _
    rw [h.values hthrew]
    exact told_snoc hop hout fun _ => rfl
  · intro i hi
    rcases List.mem_append.mp hi with hi | hi
    · exact h.seen i hi
    · rw [List.mem_singleton.mp hi]
      exact ⟨h.below _ hissued, c, hout, hwhole⟩
  · intro i hi
    rcases control_answered h hused hi with hs | hg | rfl | hf
    · exact .inl (List.mem_append_left _ hs)
    · exact .inr (.inr (.inl hg))
    · exact .inl (by simp)
    · exact .inr (.inr (.inr (.inr hf)))
  · intro _ hok i hi
    rcases h.progress hthrew hok i hi with hs | hu | ⟨-, hc⟩
    · exact .inl (List.mem_append_left _ hs)
    · simp [hused] at hu
    · obtain rfl : i = s.pos - 1 := by omega
      exact .inl (by simp)

theorem sound_control_wait (h : s.Sound ops) (hpc : s.pc = .control_wait) (go : Bool) :
    (s.thread_step go).Sound ops := by
  simp only [thread_step, hpc]
  split
  · exact h
  · next x c hfind =>
    have hfin := List.mem_of_find?_eq_some hfind
    have hslot : x.slot = none := by simpa using List.find?_some hfind
    split
    · next hwhole =>
      exact sound_control_whole h hpc hfin hslot hwhole
    · next hbad =>
      have hbad' : c.whole = false := by simpa using hbad
      unfold control_failed
      split
      · exact sound_control_bad h hpc hfin hslot hbad' _ (.inl ⟨rfl, rfl, rfl⟩)
      · exact sound_control_bad h hpc hfin hslot hbad' _ (.inr rfl)

theorem sound_thread (h : s.Sound ops) (go : Bool) : (s.thread_step go).Sound ops := by
  have hsingle := h.single.2
  rcases hpc : s.pc with - | - | - | (- | -) | (- | -) | - | - | - | - | - | ⟨ret, stage⟩ |
    - | - | - | - | - | - | - | - | ok | -
  · exact sound_start h hpc go
  · exact sound_chunk h hpc go
  · exact sound_acquire h hpc go
  · exact sound_take h hpc go
  · simp [hpc, Pc.batched] at hsingle
  · exact sound_take_wait h hpc go
  · simp [hpc, Pc.batched] at hsingle
  · exact sound_submit h hpc go
  · exact sound_wait h (.inl hpc) go
  · exact sound_wait h (.inr (.inl hpc)) go
  · exact sound_wait h (.inr (.inr hpc)) go
  · exact sound_inspect h hpc go
  · exact sound_flush h hpc go
  · exact sound_sync h hpc go
  · exact sound_control h hpc go
  · exact sound_control_wait h hpc go
  · simp [hpc, Pc.batched] at hsingle
  · simp [hpc, Pc.batched] at hsingle
  · simp [hpc, Pc.batched] at hsingle
  · simp [hpc, Pc.batched] at hsingle
  · simp [hpc, Pc.batched] at hsingle
  · simpa [thread_step, hpc] using h
  · simpa [thread_step, hpc] using h

theorem sound_step (dev : Registers δ) (h : s.Sound ops) (act : Act) :
    (s.step dev act).Sound ops := by
  cases act with
  | thread go => exact sound_thread h go
  | exec => exact sound_exec dev h
  | fail k c applied => exact sound_fail dev h k c applied
  | callback k => exact sound_callback h k
  | push w => exact sound_push h w

/-- A group begins: any pool that is consistent, with any older transfers on the bus. -/
structure Entry (ops : List CtrlOp) (s : Ctrl δ) : Prop where
  pc : s.pc = .start
  ops : s.ops = ops
  locals : s.pos = 0 ∧ s.ok = true ∧ s.slots = [] ∧ s.used = []
  ghosts : s.issued = [] ∧ s.seen = [] ∧ s.given_up = [] ∧ s.origin = s.registers
  outcome : ∀ i, s.outcome i = none
  owners : s.owners.Nodup
  older : ∀ x ∈ s.xfers, x.index = none ∧ x.slot ≠ none
  built : s.built = false → s.owners = []

theorem Entry.sound (h : s.Entry ops) (hbatch : s.batch = false) : s.Sound ops := by
  obtain ⟨hpos, hok, hslots, hused⟩ := h.locals
  obtain ⟨hissued, hseen, -, -⟩ := h.ghosts
  have holder : ∀ x ∈ s.xfers, ∀ i, x.index ≠ some i := by
    intro x hx i hi
    rw [(h.older x hx).1] at hi
    cases hi
  constructor
  · exact ⟨hbatch, by rw [h.pc]; rfl⟩
  · exact h.owners
  · exact fun _ => hslots
  · exact fun _ => hused
  · simp [hslots]
  · simp [hused]
  · exact fun x hx i hi => absurd hi (holder x hx i)
  · have hnil : s.xfers.filterMap Xfer.index = [] := by
      rw [List.filterMap_eq_nil_iff]
      exact fun x hx => (h.older x hx).1
    rw [hnil]
    exact List.nodup_nil
  · exact fun x hx i hi => absurd hi (holder x (List.mem_append_left _ hx) i)
  · intro x c hx i hi
    exact absurd hi (holder x (List.mem_append_right _ (List.mem_map_of_mem hx)) i)
  · intro i c hi
    rw [h.outcome i] at hi
    cases hi
  · exact fun x hx hslot => absurd hslot (h.older x hx).2
  · simp [hissued]
  · simp [hissued]
  · intro _
    rw [h.ops, hseen, told_nil]
  · simp [hseen]
  · simp [hissued]
  · simp [hpos]
  · exact fun _ => ⟨hok, h.built⟩
  · simp [h.pc]

theorem sound_run (dev : Registers δ) (h : s.Entry ops) (hbatch : s.batch = false)
    (acts : List Act) : (Runs.after (step dev) s acts).Sound ops :=
  Runs.after_keeps _ _ (h.sound hbatch) (fun _ act hs => sound_step dev hs act) acts

end Ctrl

end devourer.usb
