-- What the AX plane stores to is never what the hardware may still read: each
-- page is in one place at a time, and each ring keeps an entry free.
import Devourer.Pcie.WdPages

namespace devourer.pcie.DmaAx

open Circular Memory

variable {slab : ℕ} {s : Ax} {ch : Channel} {m m' : Memory}

/-! ## What the plane promises -/

namespace Ax

/-- How many entries the hardware has still to consume. -/
def outstanding (s : Ax) (ch : Channel) : ℕ := ahead kBdLen (s.hw ch) (s.host_idx ch)

/-- The hardware may still read a part. -/
def Live (s : Ax) : Part → Prop
  | .entry ch i => ∃ k < s.outstanding ch, i = (s.hw ch + k) % kBdLen
  | .fwcmd_slot i => ∃ k < s.outstanding kFwcmdCh, i = (s.hw kFwcmdCh + k) % kBdLen
  | .wd_page page => page < kWdPages ∧ s.hw_page page ≠ .idle
  | .payload page => page < kWdPages ∧ s.hw_page page ≠ .idle

/-- A step stores nothing to what the hardware may still read. -/
def Spares (slab : ℕ) (s : Ax) (a : Act) : Prop :=
  ∀ w ∈ (step slab s a).stored.drop s.stored.length, ∀ x, s.Live x →
    Apart (x.iova slab) x.size w.1 w.2

/-- Each page is free, and once in the list, or busy. -/
def Partitioned (s : Ax) : Prop :=
  s.free_pages.Nodup ∧ (∀ page ∈ s.free_pages, page < kWdPages) ∧
    ∀ page < kWdPages, page ∈ s.free_pages ↔ s.page_busy page = false

/-- A call that returned `len` had its entry consumed. -/
def Completes (s : Ax) : Prop := ∀ c ∈ s.returned, c.2 ≤ s.consumed c.1

/-- The hardware finds each frame that it may still read, and its pieces tile it. -/
def Tiled (slab : ℕ) (s : Ax) : Prop :=
  ∀ page < kWdPages, s.hw_page page ≠ .idle → Laid slab s.mem page (s.passed page) ∧
    Tiles ((Part.payload page).iova slab) ((s.passed page).length - wd_len (s.passed page))
      (addr_infos slab page (s.passed page))

end Ax

/-! ## The invariant -/

/-- Where a page is. -/
inductive Loc
  | free
  | call (ch : Channel)
  | posted (ch : Channel) (i : ℕ)
  | fetched
  | reported
  deriving DecidableEq

def Loc.hw : Loc → HwPage
  | .posted _ _ => .posted
  | .fetched => .fetched
  | .free | .call _ | .reported => .idle

/-- The pages that the reports name which were not reaped. -/
def Ax.pending (s : Ax) : List ℕ :=
  (List.range (ahead kBdLen s.rpq_wp s.rpq_hw)).flatMap fun k =>
    Ax.named (s.rpq_buf ((s.rpq_wp + k) % kBdLen))

/-- The indices of a ring, and the counts of its entries. -/
structure Rings (wp hw host consumed submitted : ℕ) : Prop where
  wp_lt : wp < kBdLen
  hw_lt : hw < kBdLen
  same : host = wp
  count : consumed + ahead kBdLen hw host = submitted

/-- The pages and the places that they are in. -/
structure Pool (free_pages : List ℕ) (page_busy : ℕ → Bool) (hw_page : ℕ → HwPage)
    (loc : ℕ → Loc) (pending : List ℕ) : Prop where
  nodup : free_pages.Nodup
  free : ∀ p, p ∈ free_pages ↔ p < kWdPages ∧ loc p = .free
  busy : ∀ p < kWdPages, page_busy p = true ↔ loc p ≠ .free
  once : pending.Nodup
  reported : ∀ p, p ∈ pending ↔ p < kWdPages ∧ loc p = .reported
  hw : ∀ p < kWdPages, hw_page p = (loc p).hw

/-- A job has its page, or its slot, for itself. -/
def JobAt (s : Ax) (loc : ℕ → Loc) (ch : Channel) : Job → Prop
  | .fwcmd slot buf => ch = kFwcmdCh ∧ slot = s.wp ch ∧ buf.length ≤ kFwcmdSlotSize
  | .wd page buf => page < kWdPages ∧ loc page = .call ch ∧ Fits buf

/-- The stores to come are those that are missing in the page. -/
def Todo (slab : ℕ) (m : Memory) : Job → List Store → Prop
  | .fwcmd slot _, todo =>
    ∀ x ∈ todo, x.Within ((Part.fwcmd_slot slot).iova slab) (Part.fwcmd_slot slot).size
  | .wd page buf, todo =>
    ∃ (m0 : Memory) (past : List Store), past ++ todo = wd_stores slab page buf ∧
    Same slab m (m0.stores past) (.wd_page page) ∧ Same slab m (m0.stores past) (.payload page)

/-- The frame stands in its page. -/
def Done (slab : ℕ) (m : Memory) : Job → Prop
  | .fwcmd _ _ => True
  | .wd page buf => Laid slab m page buf

def Room (s : Ax) (ch : Channel) : Prop := s.outstanding ch + 1 < kBdLen

/-- What holds where the call of a channel stands. -/
def CallAt (slab : ℕ) (s : Ax) (loc : ℕ → Loc) (ch : Channel) : Pc → Prop
  | .idle | .wait => True
  | .room buf => if ch = kFwcmdCh then buf.length ≤ kFwcmdSlotSize else Fits buf
  | .acquire buf | .starve buf => Room s ch ∧ Fits buf
  | .store job todo => Room s ch ∧ JobAt s loc ch job ∧ Todo slab s.mem job todo
  | .patch job => Room s ch ∧ JobAt s loc ch job ∧ Done slab s.mem job
  | .bd job => Room s ch ∧ JobAt s loc ch job ∧ Done slab s.mem job
  | .kick job => Room s ch ∧ JobAt s loc ch job ∧ Done slab s.mem job ∧
    s.entry_page ch (s.wp ch) = job.page

/-- The invariant. The call of the channel `skip` is in the middle of its step. -/
structure Sound (slab : ℕ) (s : Ax) (loc : ℕ → Loc) (skip : Option Channel) : Prop where
  rings : ∀ ch, Rings (s.wp ch) (s.hw ch) (s.host_idx ch) (s.consumed ch) (s.submitted ch)
  pool : Pool s.free_pages s.page_busy s.hw_page loc s.pending
  rpq : s.rpq_wp < kBdLen ∧ s.rpq_hw < kBdLen
  entries : ∀ ch, ∀ k < s.outstanding ch, ∀ p ∈ s.entry_page ch ((s.hw ch + k) % kBdLen),
    p < kWdPages ∧ loc p = .posted ch ((s.hw ch + k) % kBdLen)
  calls : ∀ ch, skip ≠ some ch → CallAt slab s loc ch (s.call ch)
  completes : s.Completes
  laid : ∀ p < kWdPages, s.hw_page p ≠ .idle → Laid slab s.mem p (s.passed p)

variable {s' : Ax} {loc loc' : ℕ → Loc} {skip : Option Channel} {pc : Pc}

/-! ### What a call relies on -/

/-- Two memories have the same in a page and its payload. -/
def SamePage (slab : ℕ) (m m' : Memory) (page : ℕ) : Prop :=
  Same slab m m' (.wd_page page) ∧ Same slab m m' (.payload page)

theorem JobAt.frame {job : Job} (h : JobAt s loc ch job) (hwp : s'.wp ch = s.wp ch)
    (hloc : ∀ p < kWdPages, loc p = .call ch → loc' p = .call ch) : JobAt s' loc' ch job := by
  cases job with
  | fwcmd slot buf =>
    obtain ⟨hch, hslot, hlen⟩ := h
    exact ⟨hch, hslot.trans hwp.symm, hlen⟩
  | wd page buf =>
    obtain ⟨hpage, hcall, hfit⟩ := h
    exact ⟨hpage, hloc page hpage hcall, hfit⟩

theorem Todo.frame {job : Job} {todo : List Store} (hjob : JobAt s loc ch job)
    (h : Todo slab m job todo)
    (hmem : ∀ p < kWdPages, loc p = .call ch → SamePage slab m' m p) : Todo slab m' job todo := by
  cases job with
  | fwcmd slot buf => exact h
  | wd page buf =>
    obtain ⟨hpage, hcall, -⟩ := hjob
    obtain ⟨m0, past, hpast, hwd, hpayload⟩ := h
    have hsame := hmem page hpage hcall
    exact ⟨m0, past, hpast, hsame.1.trans hwd, hsame.2.trans hpayload⟩

theorem Done.frame {job : Job} (hjob : JobAt s loc ch job) (h : Done slab m job)
    (hmem : ∀ p < kWdPages, loc p = .call ch → SamePage slab m' m p) : Done slab m' job := by
  cases job with
  | fwcmd slot buf => trivial
  | wd page buf =>
    obtain ⟨hpage, hcall, -⟩ := hjob
    have hsame := hmem page hpage hcall
    exact Laid.congr h hsame.1 hsame.2

/-- A call does not mind what the others do. -/
theorem CallAt.frame (h : CallAt slab s loc ch pc) (hwp : s'.wp ch = s.wp ch)
    (hout : s'.outstanding ch ≤ s.outstanding ch) (hentry : s'.entry_page ch = s.entry_page ch)
    (hloc : ∀ p < kWdPages, loc p = .call ch → loc' p = .call ch)
    (hmem : ∀ p < kWdPages, loc p = .call ch → SamePage slab s'.mem s.mem p) :
    CallAt slab s' loc' ch pc := by
  have hroom : Room s ch → Room s' ch := fun hr => Nat.lt_of_le_of_lt (Nat.succ_le_succ hout) hr
  cases pc with
  | idle | wait => trivial
  | room buf => exact h
  | acquire buf | starve buf => exact ⟨hroom h.1, h.2⟩
  | store job todo =>
    obtain ⟨hr, hjob, htodo⟩ := h
    exact ⟨hroom hr, hjob.frame hwp hloc, htodo.frame hjob hmem⟩
  | patch job | bd job =>
    obtain ⟨hr, hjob, hdone⟩ := h
    exact ⟨hroom hr, hjob.frame hwp hloc, hdone.frame hjob hmem⟩
  | kick job =>
    obtain ⟨hr, hjob, hdone, hpage⟩ := h
    refine ⟨hroom hr, hjob.frame hwp hloc, hdone.frame hjob hmem, ?_⟩
    rw [hwp, hentry, hpage]

theorem Sound.hold (h : Sound slab s loc none) (ch : Channel) : Sound slab s loc (some ch) :=
  { h with calls := fun c _ => h.calls c nofun }

theorem Sound.set_call (h : Sound slab s loc (some ch)) (hpc : CallAt slab s loc ch pc) :
    Sound slab (s.set_call ch pc) loc none := by
  refine ⟨h.rings, h.pool, h.rpq, h.entries, ?_, h.completes, h.laid⟩
  intro c _
  by_cases hc : c = ch
  · subst hc
    have hcall : (s.set_call c pc).call c = pc := Function.update_self _ _ _
    rw [hcall]
    exact hpc.frame rfl (Nat.le_refl _) rfl (fun _ _ h => h) fun _ _ _ => ⟨rfl, rfl⟩
  · have hcall : (s.set_call ch pc).call c = s.call c := Function.update_of_ne hc _ _
    rw [hcall]
    have hat := h.calls c fun hsome => hc (Option.some.inj hsome).symm
    exact hat.frame rfl (Nat.le_refl _) rfl (fun _ _ h => h) fun _ _ _ => ⟨rfl, rfl⟩

/-! ### Stores -/

/-- The parts that the call of a channel may store to. -/
def Owned (s : Ax) (loc : ℕ → Loc) (ch : Channel) : Part → Prop
  | .entry c i => c = ch ∧ i = s.wp ch
  | .fwcmd_slot i => ch = kFwcmdCh ∧ i = s.wp ch
  | .wd_page p => p < kWdPages ∧ loc p = .call ch
  | .payload p => p < kWdPages ∧ loc p = .call ch

/-- A store that the call of a channel may make. -/
def Mine (slab : ℕ) (s : Ax) (loc : ℕ → Loc) (ch : Channel) (x : Store) : Prop :=
  ∃ y : Part, y.Valid ∧ Owned s loc ch y ∧ x.Within (y.iova slab) y.size

theorem Mine.apart {x : Store} {y : Part} (h : Mine slab s loc ch x) (hy : y.Valid)
    (hne : ¬Owned s loc ch y) : Apart (y.iova slab) y.size x.place x.bytes.length := by
  obtain ⟨z, hz, hown, hwithin⟩ := h
  refine (Part.apart hy hz ?_).store hwithin
  rintro rfl
  exact hne hown

/-- The write index is the end of the entries that the hardware has still to consume. -/
theorem Sound.cell_outstanding (h : Sound slab s loc skip) (ch : Channel) :
    (s.hw ch + s.outstanding ch) % kBdLen = s.wp ch := by
  obtain ⟨hwp, hhw, hhost, -⟩ := h.rings ch
  unfold Ax.outstanding
  rw [hhost]
  exact cell_ahead hhw hwp

theorem Sound.cell_ne_wp (h : Sound slab s loc skip) {k : ℕ} (hk : k < s.outstanding ch) :
    (s.hw ch + k) % kBdLen ≠ s.wp ch := by
  have hhw := (h.rings ch).hw_lt
  have hlt : s.outstanding ch < kBdLen := ahead_lt hhw
  intro heq
  have hsame := cell_inj hhw (by omega) hlt (heq.trans (h.cell_outstanding ch).symm)
  omega

/-- The hardware does not read what a call stores to. -/
theorem Sound.not_live {y : Part} (h : Sound slab s loc skip) (hown : Owned s loc ch y) :
    ¬s.Live y := by
  cases y with
  | entry c i =>
    obtain ⟨rfl, rfl⟩ := hown
    rintro ⟨k, hk, hi⟩
    exact h.cell_ne_wp hk hi.symm
  | fwcmd_slot i =>
    obtain ⟨rfl, rfl⟩ := hown
    rintro ⟨k, hk, hi⟩
    exact h.cell_ne_wp hk hi.symm
  | wd_page p | payload p =>
    obtain ⟨hp, hcall⟩ := hown
    rintro ⟨-, hlive⟩
    apply hlive
    rw [h.pool.hw p hp, hcall]
    rfl

theorem same_store {x : Store} {y : Part}
    (h : Apart (y.iova slab) y.size x.place x.bytes.length) : Same slab (m.store x) m y :=
  read_store_apart h

/-- A store of a call leaves the invariant of the others. -/
theorem Sound.write {x : Store} (h : Sound slab s loc (some ch)) (hx : Mine slab s loc ch x) :
    Sound slab (s.write x) loc (some ch) := by
  have hpage : ∀ p < kWdPages, loc p ≠ .call ch → SamePage slab (s.write x).mem s.mem p := by
    intro p hp hne
    constructor
    · exact same_store (hx.apart hp fun hown => hne hown.2)
    · exact same_store (hx.apart hp fun hown => hne hown.2)
  refine ⟨h.rings, h.pool, h.rpq, h.entries, ?_, h.completes, ?_⟩
  · intro c hc
    refine (h.calls c hc).frame rfl (Nat.le_refl _) rfl (fun _ _ h => h) ?_
    intro p hp hcall
    apply hpage p hp
    rw [hcall]
    intro heq
    obtain rfl := Loc.call.inj heq
    exact hc rfl
  · intro p hp hlive
    have hsame := hpage p hp (by
      intro hcall
      apply hlive
      have hhw := h.pool.hw p hp
      rw [hcall] at hhw
      exact hhw)
    exact (h.laid p hp hlive).congr hsame.1 hsame.2

/-! ### Reports that are reaped -/

/-- A release word that names no busy page changes a counter and nothing else. -/
theorem release_page_unknown (s : Ax) (seq status : ℕ)
    (h : kWdPages ≤ seq ∨ s.page_busy seq = false) : s.release_page seq status =
      { s with rpp := { s.rpp with unknown_seq := s.rpp.unknown_seq + 1 } } := if_pos h

theorem hw_page_release_page (s : Ax) (seq status : ℕ) :
    (s.release_page seq status).hw_page = s.hw_page := by
  unfold Ax.release_page
  split <;> rfl

/-- What reaping writes besides the slab and the ring. -/
theorem release_words_eq (s : Ax) (ws : List ℕ) : ∃ f b r,
    s.release_words ws = { s with free_pages := f, page_busy := b, rpp := r } := by
  induction ws generalizing s with
  | nil => exact ⟨s.free_pages, s.page_busy, s.rpp, rfl⟩
  | cons w ws ih =>
    obtain ⟨f, b, r, heq⟩ := ih (s.release_page (rpp_seq w) (rpp_status w))
    have hcons : s.release_words (w :: ws) =
        (s.release_page (rpp_seq w) (rpp_status w)).release_words ws := rfl
    rw [hcons, heq]
    unfold Ax.release_page
    split
    · exact ⟨f, b, r, rfl⟩
    · exact ⟨f, b, r, rfl⟩

/-- One page moves to another place, and the tables follow at that page alone. -/
theorem Pool.relocate {f f' pending pending' : List ℕ} {b b' : ℕ → Bool} {hw hw' : ℕ → HwPage}
    {p : ℕ} {l : Loc} (h : Pool f b hw loc pending) (hnodup : f'.Nodup) (honce : pending'.Nodup)
    (hfree : p ∈ f' ↔ p < kWdPages ∧ l = .free)
    (hbusy : p < kWdPages → (b' p = true ↔ l ≠ .free))
    (hreported : p ∈ pending' ↔ p < kWdPages ∧ l = .reported)
    (hhw : p < kWdPages → hw' p = l.hw)
    (hothers : ∀ q, q ≠ p →
      (q ∈ f' ↔ q ∈ f) ∧ b' q = b q ∧ (q ∈ pending' ↔ q ∈ pending) ∧ hw' q = hw q) :
    Pool f' b' hw' (Function.update loc p l) pending' := by
  have hself : Function.update loc p l p = l := Function.update_self _ _ _
  have hother : ∀ q, q ≠ p → Function.update loc p l q = loc q := fun q hq =>
    Function.update_of_ne hq _ _
  constructor
  · exact hnodup
  · intro q
    by_cases hq : q = p
    · rw [hq, hself]
      exact hfree
    · rw [hother q hq, (hothers q hq).1, h.free]
  · intro q hlt
    by_cases hq : q = p
    · subst hq
      rw [hself]
      exact hbusy hlt
    · rw [hother q hq, (hothers q hq).2.1, h.busy q hlt]
  · exact honce
  · intro q
    by_cases hq : q = p
    · rw [hq, hself]
      exact hreported
    · rw [hother q hq, (hothers q hq).2.2.1, h.reported]
  · intro q hlt
    by_cases hq : q = p
    · subst hq
      rw [hself]
      exact hhw hlt
    · rw [hother q hq, (hothers q hq).2.2.2, h.hw q hlt]

theorem Pool.release {f rest : List ℕ} {b : ℕ → Bool} {hw : ℕ → HwPage} {p : ℕ}
    (h : Pool f b hw loc (p :: rest)) :
    Pool (p :: f) (Function.update b p false) hw (Function.update loc p .free) rest := by
  obtain ⟨hp, hloc⟩ := (h.reported p).mp List.mem_cons_self
  obtain ⟨hnot, honce⟩ := List.nodup_cons.mp h.once
  have hfree : p ∉ f := by
    rw [h.free, hloc]
    simp
  apply h.relocate
  · exact List.nodup_cons.mpr ⟨hfree, h.nodup⟩
  · exact honce
  · simp [hp]
  · simp
  · simp [hnot]
  · intro hlt
    rw [h.hw p hlt, hloc]
    rfl
  · intro q hq
    rw [Function.update_of_ne hq]
    simp [hq]

/-- The pages that words name. -/
def named_words (ws : List ℕ) : List ℕ := (ws.map rpp_seq).filter (· < kWdPages)

/-- The words are taken one after another, and each page they name is free then. -/
theorem Pool.release_words {ws rest : List ℕ}
    (h : Pool s.free_pages s.page_busy s.hw_page loc (named_words ws ++ rest)) :
    ∃ loc', Pool (s.release_words ws).free_pages (s.release_words ws).page_busy
      s.hw_page loc' rest ∧
      ∀ p, loc p ≠ .reported → loc' p = loc p := by
  induction ws generalizing s loc with
  | nil => exact ⟨loc, h, fun _ _ => rfl⟩
  | cons w ws ih =>
    by_cases hseq : rpp_seq w < kWdPages
    · have hnamed : named_words (w :: ws) = rpp_seq w :: named_words ws := by
        simp [named_words, hseq]
      rw [hnamed, List.cons_append] at h
      obtain ⟨hp, hloc⟩ := (h.reported _).mp List.mem_cons_self
      have hbusy : s.page_busy (rpp_seq w) = true := by
        rw [h.busy _ hp, hloc]
        nofun
      have hstep : s.release_page (rpp_seq w) (rpp_status w) = _ := if_neg (by simp [hp, hbusy])
      have hnext := @ih (s.release_page (rpp_seq w) (rpp_status w))
        (Function.update loc (rpp_seq w) .free)
      rw [hstep] at hnext
      obtain ⟨loc', hpool, hkeep⟩ := hnext h.release
      refine ⟨loc', ?_, ?_⟩
      · rw [← hstep, hw_page_release_page] at hpool
        exact hpool
      · intro p hne
        have hother : p ≠ rpp_seq w := by
          rintro rfl
          exact hne hloc
        have hsame : Function.update loc (rpp_seq w) .free p = loc p :=
          Function.update_of_ne hother _ _
        rw [hkeep p (by rw [hsame]; exact hne), hsame]
    · have hnamed : named_words (w :: ws) = named_words ws := by
        simp [named_words, hseq]
      rw [hnamed] at h
      have hstep := release_page_unknown s (rpp_seq w) (rpp_status w) (Or.inl (by omega))
      have hnext := @ih (s.release_page (rpp_seq w) (rpp_status w)) loc
      rw [hstep] at hnext
      obtain ⟨loc', hpool, hkeep⟩ := hnext h
      rw [← hstep, hw_page_release_page] at hpool
      exact ⟨loc', hpool, hkeep⟩

/-- The range of a descriptor of the release ring. -/
def RpqBd (slab : ℕ) (w : ℕ × ℕ) : Prop :=
  ∃ i < kBdLen, w = (slab + layout.rpq_bd + i * BD_SZ, BD_SZ)

/-- What reaping leaves alone, and what it stores to. -/
structure Reaped (slab : ℕ) (s s' : Ax) : Prop where
  rings : s'.wp = s.wp ∧ s'.hw = s.hw ∧ s'.host_idx = s.host_idx
  rpq_wp : s'.rpq_wp < kBdLen
  rpq_hw : s'.rpq_hw = s.rpq_hw
  stored : ∃ ws, s'.stored = s.stored ++ ws ∧ ∀ w ∈ ws, RpqBd slab w

theorem Reaped.trans {s'' : Ax} (h : Reaped slab s s') (h' : Reaped slab s' s'') :
    Reaped slab s s'' := by
  obtain ⟨ws, hws, hall⟩ := h.stored
  obtain ⟨ws', hws', hall'⟩ := h'.stored
  obtain ⟨hwp, hhw, hhost⟩ := h.rings
  obtain ⟨hwp', hhw', hhost'⟩ := h'.rings
  refine ⟨⟨hwp'.trans hwp, hhw'.trans hhw, hhost'.trans hhost⟩, h'.rpq_wp,
    h'.rpq_hw.trans h.rpq_hw, ws ++ ws', ?_, ?_⟩
  · rw [hws', hws, List.append_assoc]
  · intro w hw
    rcases List.mem_append.mp hw with hw | hw
    · exact hall w hw
    · exact hall' w hw

theorem Reaped.refl (slab : ℕ) (hwp : s.rpq_wp < kBdLen) : Reaped slab s s :=
  ⟨⟨rfl, rfl, rfl⟩, hwp, rfl, [], (List.append_nil _).symm, nofun⟩

theorem reaped_one (slab : ℕ) (hwp : s.rpq_wp < kBdLen) : Reaped slab s (s.reap_one slab) := by
  obtain ⟨f, b, r, heq⟩ := release_words_eq s (rpp_words (s.rpq_buf s.rpq_wp))
  unfold Ax.reap_one
  dsimp only
  rw [heq]
  refine ⟨⟨rfl, rfl, rfl⟩, Nat.mod_lt _ (by decide), rfl, _, rfl, ?_⟩
  intro w hw
  obtain rfl := List.mem_singleton.mp hw
  refine ⟨s.rpq_wp, hwp, ?_⟩
  rw [Ax.arm_rpq_bd, Bd.length_bytes]

theorem reaped_loop (slab hw n : ℕ) (hwp : s.rpq_wp < kBdLen) :
    Reaped slab s (Ax.reap_loop slab hw n s) := by
  induction n generalizing s with
  | zero => exact Reaped.refl slab hwp
  | succ n ih =>
    unfold Ax.reap_loop
    split
    · exact Reaped.refl slab hwp
    · have hone := reaped_one slab hwp
      exact hone.trans (ih hone.rpq_wp)

theorem reaped (slab : ℕ) (hwp : s.rpq_wp < kBdLen) (gone : Bool) :
    Reaped slab s (s.reap_rpq_locked slab gone) := by
  unfold Ax.reap_rpq_locked
  dsimp only
  split
  · exact Reaped.refl slab hwp
  · exact reaped_loop slab _ _ hwp

/-- The reports that wait are those of the buffer that is read next, and the others. -/
theorem pending_cons (hwp : s.rpq_wp < kBdLen) (hhw : s.rpq_hw < kBdLen)
    (hne : s.rpq_wp ≠ s.rpq_hw) :
    s.pending = named_words (rpp_words (s.rpq_buf s.rpq_wp)) ++
      Ax.pending { s with rpq_wp := (s.rpq_wp + 1) % kBdLen } := by
  have hout := ahead_succ_left hwp hhw hne
  unfold Ax.pending
  rw [← hout, List.range_succ_eq_map, List.flatMap_cons, List.flatMap_map, Nat.add_zero,
    Nat.mod_eq_of_lt hwp]
  congr 1
  apply List.flatMap_congr
  intro k _
  dsimp only
  rw [cell_succ]

theorem Sound.reap_one (h : Sound slab s loc skip) (hne : s.rpq_wp ≠ s.rpq_hw) :
    ∃ loc', Sound slab (s.reap_one slab) loc' skip := by
  obtain ⟨hwp, hhw⟩ := h.rpq
  have hpending := h.pool
  rw [pending_cons hwp hhw hne] at hpending
  obtain ⟨loc', hpool, hkeep⟩ := hpending.release_words
  obtain ⟨f, b, r, heq⟩ := release_words_eq s (rpp_words (s.rpq_buf s.rpq_wp))
  rw [heq] at hpool
  have hreap : s.reap_one slab = { s with
      free_pages := f, page_busy := b, rpp := r
      mem := s.mem.store (Ax.arm_rpq_bd slab s.rpq_wp)
      stored := s.stored ++ [((Ax.arm_rpq_bd slab s.rpq_wp).place,
        (Ax.arm_rpq_bd slab s.rpq_wp).bytes.length)]
      rpq_wp := (s.rpq_wp + 1) % kBdLen } := by
    unfold Ax.reap_one
    dsimp only
    rw [heq]
    rfl
  have hsame : ∀ y : Part, y.Valid →
      Same slab (s.mem.store (Ax.arm_rpq_bd slab s.rpq_wp)) s.mem y := by
    intro y hy
    have hapart := @Part.apart_rpq_bd slab _ _ hy hwp
    apply same_store
    have hlen : (Ax.arm_rpq_bd slab s.rpq_wp).bytes.length = BD_SZ := Bd.length_bytes _
    rw [hlen]
    exact hapart.symm
  rw [hreap]
  refine ⟨loc', h.rings, hpool, ⟨Nat.mod_lt _ (by decide), hhw⟩, ?_, ?_, h.completes, ?_⟩
  · intro ch k hk p hp
    obtain ⟨hlt, hloc⟩ := h.entries ch k hk p hp
    refine ⟨hlt, ?_⟩
    rw [hkeep p (by rw [hloc]; nofun), hloc]
  · intro c hc
    refine (h.calls c hc).frame rfl (Nat.le_refl _) rfl ?_ ?_
    · intro p _ hloc
      rw [hkeep p (by rw [hloc]; nofun), hloc]
    · intro p hp _
      exact ⟨hsame _ hp, hsame _ hp⟩
  · intro p hp hlive
    exact (h.laid p hp hlive).congr (hsame _ hp) (hsame _ hp)

theorem Sound.reap_loop (h : Sound slab s loc skip) (n : ℕ) :
    ∃ loc', Sound slab (Ax.reap_loop slab s.rpq_hw n s) loc' skip := by
  induction n generalizing s loc with
  | zero => exact ⟨loc, h⟩
  | succ n ih =>
    unfold Ax.reap_loop
    split
    · exact ⟨loc, h⟩
    · rename_i hne
      obtain ⟨loc', hone⟩ := h.reap_one hne
      have hrest := ih hone
      rw [(reaped_one slab h.rpq.1).rpq_hw] at hrest
      exact hrest

/-- What `hw_idx` reads is the index of the hardware, or no index. -/
theorem hw_idx_spec {hw host : ℕ} (hhw : hw < kBdLen) (hhost : host < kBdLen) (gone : Bool) :
    Ax.hw_idx hw host gone = if gone then kBdLen else hw := by
  unfold kBdLen at hhw hhost
  unfold Ax.hw_idx
  cases gone with
  | true => rfl
  | false =>
    have hor : hw <<< 16 ||| host = hw <<< 16 + host :=
      (Nat.shiftLeft_add_eq_or_of_lt (by omega) hw).symm
    have hmask : ∀ n, n &&& IDX_MASK = n % 2 ^ 12 := fun n => Nat.and_two_pow_sub_one_eq_mod n 12
    have hidx : (hw <<< 16 ||| host) >>> 16 &&& IDX_MASK = hw := by
      rw [hor, hmask, Nat.shiftLeft_eq, Nat.shiftRight_eq_div_pow]
      omega
    have hread : hw <<< 16 ||| host ≠ 0xFFFFFFFF := by
      rw [hor, Nat.shiftLeft_eq]
      omega
    simp only [Bool.false_eq_true, if_false, hidx, if_neg hread]
    exact if_pos hhw

theorem Sound.reap_rpq_locked (h : Sound slab s loc skip) (gone : Bool) :
    ∃ loc', Sound slab (s.reap_rpq_locked slab gone) loc' skip := by
  obtain ⟨hwp, hhw⟩ := h.rpq
  unfold Ax.reap_rpq_locked
  simp only [hw_idx_spec hhw hwp]
  cases gone with
  | true => exact ⟨loc, by simpa using h⟩
  | false =>
    simp only [Bool.false_eq_true, if_false]
    split
    · exact ⟨loc, h⟩
    · exact h.reap_loop kBdLen

/-! ### The steps of a call -/

theorem Pool.take {f pending : List ℕ} {b : ℕ → Bool} {hw : ℕ → HwPage} {p : ℕ}
    (h : Pool (p :: f) b hw loc pending) (ch : Channel) :
    Pool f (Function.update b p true) hw (Function.update loc p (.call ch)) pending := by
  obtain ⟨hp, hloc⟩ := (h.free p).mp List.mem_cons_self
  obtain ⟨hnot, hnodup⟩ := List.nodup_cons.mp h.nodup
  apply h.relocate
  · exact hnodup
  · exact h.once
  · simp [hnot]
  · simp
  · simp [h.reported, hloc]
  · intro hlt
    rw [h.hw p hlt, hloc]
    rfl
  · intro q hq
    rw [Function.update_of_ne hq]
    simp [hq]

/-- A page is taken from the free ones. -/
theorem Sound.take {p : ℕ} {rest : List ℕ} (h : Sound slab s loc (some ch))
    (hfree : s.free_pages = p :: rest) :
    Sound slab { s with free_pages := rest, page_busy := Function.update s.page_busy p true }
      (Function.update loc p (.call ch)) (some ch) := by
  have hpool := h.pool
  rw [hfree] at hpool
  obtain ⟨-, hloc⟩ := (hpool.free p).mp List.mem_cons_self
  have hkeep : ∀ q, loc q ≠ .free → Function.update loc p (.call ch) q = loc q := by
    intro q hq
    apply Function.update_of_ne
    rintro rfl
    exact hq hloc
  refine ⟨h.rings, hpool.take ch, h.rpq, ?_, ?_, h.completes, h.laid⟩
  · intro c k hk q hq
    obtain ⟨hlt, hposted⟩ := h.entries c k hk q hq
    refine ⟨hlt, ?_⟩
    rw [hkeep q (by rw [hposted]; nofun), hposted]
  · intro c hc
    refine (h.calls c hc).frame rfl (Nat.le_refl _) rfl ?_ fun _ _ _ => ⟨rfl, rfl⟩
    intro q _ hcall
    rw [hkeep q (by rw [hcall]; nofun), hcall]

theorem Sound.acquire {buf : Bytes} (h : Sound slab s loc none) (hpc : s.call ch = .acquire buf)
    (gone : Bool) : ∃ loc', Sound slab (s.acquire slab ch buf gone) loc' none := by
  have hat := h.calls ch nofun
  rw [hpc] at hat
  obtain ⟨hroom, hfit⟩ := hat
  obtain ⟨loc', hreap⟩ := (h.hold ch).reap_rpq_locked gone
  have hreaped := reaped slab h.rpq.1 gone
  obtain ⟨hwp, hhw, hhost⟩ := hreaped.rings
  have hroom' : Room (s.reap_rpq_locked slab gone) ch := by
    unfold Room Ax.outstanding
    rw [hhw, hhost]
    exact hroom
  unfold Ax.acquire
  dsimp only
  generalize s.reap_rpq_locked slab gone = t at *
  split
  · exact ⟨loc', hreap.set_call ⟨hroom', hfit⟩⟩
  · rename_i page rest hfree
    obtain ⟨hp, -⟩ := (hreap.pool.free page).mp (hfree ▸ List.mem_cons_self)
    refine ⟨_, (hreap.take hfree).set_call ⟨hroom', ⟨hp, Function.update_self _ _ _, hfit⟩, ?_⟩⟩
    exact ⟨t.mem, [], rfl, rfl, rfl⟩

/-- The next store of a frame is one that the call may make. -/
theorem mine_todo {job : Job} {x : Store} {todo : List Store} (hwp : s.wp ch < kBdLen)
    (hjob : JobAt s loc ch job) (h : Todo slab m job (x :: todo)) : Mine slab s loc ch x := by
  cases job with
  | fwcmd slot buf =>
    obtain ⟨hch, rfl, -⟩ := hjob
    exact ⟨.fwcmd_slot (s.wp ch), hwp, ⟨hch, rfl⟩, h x List.mem_cons_self⟩
  | wd page buf =>
    obtain ⟨hp, hcall, hfit⟩ := hjob
    obtain ⟨m0, past, hpast, -, -⟩ := h
    have hx : x ∈ wd_stores slab page buf := by
      rw [← hpast]
      simp
    rw [wd_stores_eq] at hx
    rcases List.mem_cons.mp hx with rfl | hx
    · exact ⟨.payload page, hp, ⟨hp, hcall⟩, within_payload_store hfit⟩
    · exact ⟨.wd_page page, hp, ⟨hp, hcall⟩, within_page_stores hfit hx⟩

theorem Todo.store {job : Job} {x : Store} {todo : List Store} (h : Todo slab m job (x :: todo)) :
    Todo slab (m.store x) job todo := by
  cases job with
  | fwcmd slot buf => exact fun y hy => h y (List.mem_cons_of_mem _ hy)
  | wd page buf =>
    obtain ⟨m0, past, hpast, hwd, hpayload⟩ := h
    refine ⟨m0, past ++ [x], ?_, ?_, ?_⟩
    · rw [← hpast, List.append_assoc]
      rfl
    · unfold Same
      rw [stores_append]
      exact read_store_congr hwd x
    · unfold Same
      rw [stores_append]
      exact read_store_congr hpayload x

/-- When no store is missing, the frame stands in its page. -/
theorem Todo.done {job : Job} (hslab : slab + layout.total ≤ 2 ^ 32) (hjob : JobAt s loc ch job)
    (h : Todo slab m job []) : Done slab m job := by
  cases job with
  | fwcmd slot buf => trivial
  | wd page buf =>
    obtain ⟨hp, -, hfit⟩ := hjob
    obtain ⟨m0, past, hpast, hwd, hpayload⟩ := h
    rw [List.append_nil] at hpast
    subst hpast
    exact (laid_wd_stores hslab hp hfit m0).congr hwd hpayload

theorem mine_patches {job : Job} {x : Store} (hjob : JobAt s loc ch job)
    (hx : x ∈ job.patches slab m) : Mine slab s loc ch x := by
  cases job with
  | fwcmd slot buf => cases hx
  | wd page buf =>
    obtain ⟨hp, hcall, -⟩ := hjob
    obtain ⟨hlo, hhi⟩ := within_patches hx
    refine ⟨.wd_page page, hp, ⟨hp, hcall⟩, hlo, le_trans hhi ?_⟩
    have hsize : (Part.wd_page page).size = 128 := rfl
    omega

theorem Done.patches {job : Job} (hjob : JobAt s loc ch job) (h : Done slab m job) :
    Done slab (m.stores (job.patches slab m)) job := by
  cases job with
  | fwcmd slot buf => trivial
  | wd page buf => exact laid_patches hjob.1 h

/-- A list of stores changes the memory, and what is recorded of the stores. -/
theorem writes_eq (s : Ax) (xs : List Store) : s.writes xs = { s with
    mem := s.mem.stores xs, stored := s.stored ++ xs.map fun x => (x.place, x.bytes.length) } := by
  induction xs generalizing s with
  | nil => simp [Ax.writes]
  | cons x xs ih =>
    have hcons : s.writes (x :: xs) = (s.write x).writes xs := rfl
    rw [hcons, ih]
    simp [Ax.write]

theorem Sound.writes {xs : List Store} (h : Sound slab s loc (some ch))
    (hxs : ∀ x ∈ xs, Mine slab s loc ch x) : Sound slab (s.writes xs) loc (some ch) := by
  induction xs generalizing s with
  | nil => exact h
  | cons x xs ih =>
    have hwrite := h.write (hxs x List.mem_cons_self)
    exact ih hwrite fun y hy => hxs y (List.mem_cons_of_mem _ hy)

theorem mine_entry (hwp : s.wp ch < kBdLen) (job : Job) : Mine slab s loc ch
    ⟨(Part.entry ch (s.wp ch)).iova slab, (job.entry slab).bytes⟩ := by
  refine ⟨.entry ch (s.wp ch), hwp, ⟨rfl, rfl⟩, Nat.le_refl _, ?_⟩
  rw [Bd.length_bytes]
  rfl

/-- An entry that the hardware does not have yet may come to name any page. -/
theorem Sound.name_page (h : Sound slab s loc (some ch)) (page : Option ℕ) :
    Sound slab { s with
      entry_page := Function.update s.entry_page ch
        (Function.update (s.entry_page ch) (s.wp ch) page) } loc (some ch) := by
  refine ⟨h.rings, h.pool, h.rpq, ?_, ?_, h.completes, h.laid⟩
  · intro c k hk p hp
    apply h.entries c k hk p
    by_cases hc : c = ch
    · subst hc
      dsimp only at hp
      rw [Function.update_self, Function.update_of_ne (h.cell_ne_wp hk)] at hp
      exact hp
    · dsimp only at hp
      rw [Function.update_of_ne hc] at hp
      exact hp
  · intro c hc
    have hne : c ≠ ch := fun heq => hc (congrArg some heq.symm)
    exact (h.calls c hc).frame rfl (Nat.le_refl _) (Function.update_of_ne hne _ _)
      (fun _ _ h => h) fun _ _ _ => ⟨rfl, rfl⟩

theorem Sound.bd {job : Job} (h : Sound slab s loc none) (hpc : s.call ch = .bd job) :
    Sound slab (s.bd slab ch job) loc none := by
  have hat := h.calls ch nofun
  rw [hpc] at hat
  obtain ⟨hroom, hjob, hdone⟩ := hat
  have hwp := (h.rings ch).wp_lt
  have hlen : (job.entry slab).bytes.length = (Part.entry ch (s.wp ch)).size := Bd.length_bytes _
  have hsame : ∀ y : Part, y.Valid → y ≠ .entry ch (s.wp ch) → Same slab
      (s.mem.store ⟨(Part.entry ch (s.wp ch)).iova slab, (job.entry slab).bytes⟩) s.mem y := by
    intro y hy hne
    apply same_store
    rw [hlen]
    exact Part.apart hy (y := .entry ch (s.wp ch)) hwp hne
  have hkept : Done slab
      (s.mem.store ⟨(Part.entry ch (s.wp ch)).iova slab, (job.entry slab).bytes⟩) job :=
    hdone.frame hjob fun p hp _ => ⟨hsame _ hp nofun, hsame _ hp nofun⟩
  refine (((h.hold ch).name_page job.page).write (mine_entry hwp job)).set_call
    ⟨hroom, hjob.frame rfl ?_, hkept, ?_⟩
  · exact fun _ _ h => h
  · change Function.update s.entry_page ch _ ch (s.wp ch) = _
    rw [Function.update_self, Function.update_self]

/-- The index of a ring moves on past a new entry. -/
theorem outstanding_kick (h : Sound slab s loc skip) (hroom : Room s ch) :
    ahead kBdLen (s.hw ch) (((s.wp ch + 1) % kBdLen &&& IDX_MASK) % 2 ^ 16) = s.outstanding ch + 1 ∧
      ((s.wp ch + 1) % kBdLen &&& IDX_MASK) % 2 ^ 16 = (s.wp ch + 1) % kBdLen := by
  obtain ⟨hwp, hhw, hhost, -⟩ := h.rings ch
  have hmask : ((s.wp ch + 1) % kBdLen &&& IDX_MASK) % 2 ^ 16 = (s.wp ch + 1) % kBdLen := by
    have hand : (s.wp ch + 1) % kBdLen &&& IDX_MASK = (s.wp ch + 1) % kBdLen % 2 ^ 12 :=
      Nat.and_two_pow_sub_one_eq_mod _ 12
    rw [hand]
    unfold kBdLen
    omega
  refine ⟨?_, hmask⟩
  rw [hmask]
  unfold Room Ax.outstanding at *
  rw [hhost] at hroom ⊢
  exact ahead_succ_right hhw hwp hroom

/-- A page moves from one place in use to another. -/
theorem Pool.move {f pending : List ℕ} {b : ℕ → Bool} {hw : ℕ → HwPage} {p : ℕ} {l : Loc}
    (h : Pool f b hw loc pending) (hfree : loc p ≠ .free) (hreported : loc p ≠ .reported)
    (hfree' : l ≠ .free) (hreported' : l ≠ .reported) :
    Pool f b (Function.update hw p l.hw) (Function.update loc p l) pending := by
  apply h.relocate
  · exact h.nodup
  · exact h.once
  · simp [h.free, hfree, hfree']
  · intro hlt
    simp [h.busy p hlt, hfree, hfree']
  · simp [h.reported, hreported, hreported']
  · intro _
    apply Function.update_self
  · intro q hq
    rw [Function.update_of_ne hq]
    simp

/-- The hardware has the page of a call. -/
theorem Sound.post {p : ℕ} {buf : Bytes} (h : Sound slab s loc (some ch)) (hp : p < kWdPages)
    (hloc : loc p = .call ch) (hlaid : Laid slab s.mem p buf) (i : ℕ) :
    Sound slab { s with
      hw_page := Function.update s.hw_page p .posted
      passed := Function.update s.passed p buf } (Function.update loc p (.posted ch i))
      (some ch) := by
  have hother : ∀ q, loc q ≠ .call ch → Function.update loc p (.posted ch i) q = loc q := by
    intro q hq
    apply Function.update_of_ne
    rintro rfl
    exact hq hloc
  refine ⟨h.rings, ?_, h.rpq, ?_, ?_, h.completes, ?_⟩
  · exact h.pool.move (l := .posted ch i) (by rw [hloc]; nofun) (by rw [hloc]; nofun) nofun nofun
  · intro c k hk q hq
    obtain ⟨hlt, hposted⟩ := h.entries c k hk q hq
    refine ⟨hlt, ?_⟩
    rw [hother q (by rw [hposted]; nofun), hposted]
  · intro c hc
    refine (h.calls c hc).frame rfl (Nat.le_refl _) rfl ?_ fun _ _ _ => ⟨rfl, rfl⟩
    intro q _ hcall
    rw [hother q, hcall]
    rw [hcall]
    intro heq
    exact hc (congrArg some (Loc.call.inj heq).symm)
  · intro q hq hlive
    dsimp only at hlive ⊢
    by_cases hqp : q = p
    · subst hqp
      rw [Function.update_self]
      exact hlaid
    · rw [Function.update_of_ne hqp] at hlive ⊢
      exact h.laid q hq hlive

/-- The index moves on past the entry of the call. -/
theorem Sound.advance (h : Sound slab s loc (some ch)) (hroom : Room s ch)
    (hpage : ∀ p ∈ s.entry_page ch (s.wp ch), p < kWdPages ∧ loc p = .posted ch (s.wp ch)) :
    Sound slab { s with
      wp := Function.update s.wp ch ((s.wp ch + 1) % kBdLen)
      host_idx := Function.update s.host_idx ch (((s.wp ch + 1) % kBdLen &&& IDX_MASK) % 2 ^ 16)
      submitted := Function.update s.submitted ch (s.submitted ch + 1) } loc (some ch) := by
  obtain ⟨hout, hmask⟩ := outstanding_kick h hroom
  have hcell := h.cell_outstanding ch
  refine ⟨?_, h.pool, h.rpq, ?_, ?_, h.completes, h.laid⟩
  · intro c
    obtain ⟨hwp, hhw, hhost, hcount⟩ := h.rings c
    dsimp only
    by_cases hc : c = ch
    · subst hc
      rw [Function.update_self, Function.update_self, Function.update_self]
      refine ⟨Nat.mod_lt _ (by decide), hhw, hmask, ?_⟩
      rw [hout, ← hcount]
      rfl
    · rw [Function.update_of_ne hc, Function.update_of_ne hc, Function.update_of_ne hc]
      exact ⟨hwp, hhw, hhost, hcount⟩
  · intro c k hk p hp
    unfold Ax.outstanding at hk
    dsimp only at hk hp ⊢
    by_cases hc : c = ch
    · subst hc
      rw [Function.update_self, hout] at hk
      by_cases hlast : k = s.outstanding c
      · subst hlast
        rw [hcell] at hp ⊢
        exact hpage p hp
      · exact h.entries c k (by omega) p hp
    · rw [Function.update_of_ne hc] at hk
      exact h.entries c k hk p hp
  · intro c hc
    have hne : c ≠ ch := fun heq => hc (congrArg some heq.symm)
    refine (h.calls c hc).frame (Function.update_of_ne hne _ _) (Nat.le_of_eq ?_) rfl
      (fun _ _ h => h) fun _ _ _ => ⟨rfl, rfl⟩
    unfold Ax.outstanding
    dsimp only
    rw [Function.update_of_ne hne]

theorem Sound.kick {job : Job} (h : Sound slab s loc none) (hpc : s.call ch = .kick job) :
    ∃ loc', Sound slab (s.kick ch job) loc' none := by
  have hat := h.calls ch nofun
  rw [hpc] at hat
  obtain ⟨hroom, hjob, hdone, hentry⟩ := hat
  cases job with
  | fwcmd slot buf =>
    refine ⟨loc, ((h.hold ch).advance hroom ?_).set_call trivial⟩
    intro p hp
    rw [hentry] at hp
    cases hp
  | wd page buf =>
    obtain ⟨hp, hloc, -⟩ := hjob
    refine ⟨_, (((h.hold ch).post hp hloc hdone (s.wp ch)).advance hroom ?_).set_call trivial⟩
    intro q hq
    dsimp only at hq
    rw [hentry] at hq
    obtain rfl : page = q := Option.some.inj hq
    exact ⟨hp, Function.update_self _ _ _⟩

theorem Sound.wait_consumed (h : Sound slab s loc none) (late gone : Bool) :
    Sound slab (s.wait_consumed ch late gone) loc none := by
  obtain ⟨hwp, hhw, hhost, hcount⟩ := h.rings ch
  have hidle : Sound slab (s.set_call ch .idle) loc none := by
    apply (h.hold ch).set_call
    trivial
  unfold Ax.wait_consumed
  dsimp only
  rw [hw_idx_spec hhw (by omega)]
  cases gone with
  | true =>
    have hne : kBdLen ≠ s.wp ch := Nat.ne_of_gt hwp
    rw [if_pos rfl, if_neg hne, if_pos (Nat.le_refl _)]
    exact hidle
  | false =>
    simp only [Bool.false_eq_true, if_false]
    split
    · rename_i hcaught
      have hall : s.consumed ch = s.submitted ch := by
        rw [hhost, hcaught, ahead_self hwp, Nat.add_zero] at hcount
        exact hcount
      have hreturned : Sound slab { s with returned := (ch, s.submitted ch) :: s.returned } loc
          (some ch) := by
        refine ⟨h.rings, h.pool, h.rpq, h.entries, (h.hold ch).calls, ?_, h.laid⟩
        intro c hc
        rcases List.mem_cons.mp hc with rfl | hc
        · exact Nat.le_of_eq hall.symm
        · exact h.completes c hc
      apply hreturned.set_call
      trivial
    · rw [if_neg (Nat.not_le.mpr hhw)]
      split
      · exact hidle
      · exact h

/-- The room that is found is there. -/
theorem Sound.room_of_ring_has_room {gone : Bool} (h : Sound slab s loc skip)
    (hroom : s.ring_has_room ch gone = true) : Room s ch := by
  obtain ⟨hwp, hhw, hhost, -⟩ := h.rings ch
  unfold Ax.ring_has_room at hroom
  rw [hw_idx_spec hhw (by omega)] at hroom
  cases gone with
  | true => simp at hroom
  | false =>
    simp only [Bool.false_eq_true, if_false, if_neg (Nat.not_le.mpr hhw), decide_eq_true_eq]
      at hroom
    unfold Room Ax.outstanding
    rw [hhost]
    exact Nat.add_lt_of_lt_sub hroom

theorem Sound.call_step (hslab : slab + layout.total ≤ 2 ^ 32) (h : Sound slab s loc none)
    (ch : Channel) (late gone : Bool) :
    ∃ loc', Sound slab (s.call_step slab ch late gone) loc' none := by
  have hat := h.calls ch nofun
  have hhold := h.hold ch
  have hidle : Sound slab (s.set_call ch .idle) loc none := by
    apply hhold.set_call
    trivial
  unfold Ax.call_step
  split
  · exact ⟨loc, h⟩
  · rename_i buf hpc
    rw [hpc] at hat
    split
    · have hroom : Room s ch := h.room_of_ring_has_room ‹_›
      split
      · rename_i hch
        rw [CallAt, if_pos hch] at hat
        refine ⟨loc, hhold.set_call ⟨hroom, ⟨hch, rfl, hat⟩, ?_⟩⟩
        intro x hx
        obtain rfl := List.mem_singleton.mp hx
        exact ⟨Nat.le_refl _, Nat.add_le_add_left hat _⟩
      · rename_i hch
        rw [CallAt, if_neg hch] at hat
        exact ⟨loc, hhold.set_call ⟨hroom, hat⟩⟩
    · exact ⟨loc, hidle⟩
  · exact h.acquire ‹_› gone
  · rename_i buf hpc
    rw [hpc] at hat
    split
    · exact ⟨loc, hidle⟩
    · exact ⟨loc, hhold.set_call hat⟩
  · rename_i job x todo hpc
    rw [hpc] at hat
    obtain ⟨hroom, hjob, htodo⟩ := hat
    have hmine := mine_todo (h.rings ch).wp_lt hjob htodo
    refine ⟨loc, (hhold.write hmine).set_call ⟨hroom, ?_, htodo.store⟩⟩
    exact hjob.frame rfl fun _ _ h => h
  · rename_i job hpc
    rw [hpc] at hat
    obtain ⟨hroom, hjob, htodo⟩ := hat
    exact ⟨loc, hhold.set_call ⟨hroom, hjob, htodo.done hslab hjob⟩⟩
  · rename_i job hpc
    rw [hpc] at hat
    obtain ⟨hroom, hjob, hdone⟩ := hat
    have hwrites := hhold.writes fun x hx => mine_patches (m := s.mem) hjob hx
    rw [writes_eq] at hwrites ⊢
    refine ⟨loc, hwrites.set_call ⟨hroom, ?_, hdone.patches hjob⟩⟩
    exact hjob.frame rfl fun _ _ h => h
  · exact ⟨loc, h.bd ‹_›⟩
  · exact h.kick ‹_›
  · exact ⟨loc, h.wait_consumed late gone⟩

theorem Sound.tx_submit (h : Sound slab s loc none) (hint : ℕ) (buf : Bytes) :
    Sound slab (s.tx_submit hint buf) loc none := by
  unfold Ax.tx_submit
  split
  · rename_i hch
    dsimp only
    split
    · exact h
    · split
      · split
        · exact h
        · rename_i hcmd hlen
          rw [not_or, Nat.not_lt, Nat.not_lt] at hlen
          apply (h.hold _).set_call
          rw [CallAt, if_pos hcmd]
          exact hlen.2
      · split
        · exact h
        · rename_i hcmd hlen
          split
          · exact h
          · rename_i hflen
            rw [not_or, Nat.not_lt, Nat.not_lt] at hlen
            rw [not_or, Nat.not_lt] at hflen
            apply (h.hold _).set_call
            rw [CallAt, if_neg hcmd]
            exact fits_take hlen.2 (Nat.mod_le _ _) (Nat.pos_of_ne_zero hflen.1) hflen.2
  · exact h

/-! ### The steps of the hardware -/

/-- The hardware index moves on past an entry. -/
theorem Sound.retreat (h : Sound slab s loc none) (hne : s.hw ch ≠ s.host_idx ch) :
    Sound slab { s with
      hw := Function.update s.hw ch ((s.hw ch + 1) % kBdLen)
      consumed := Function.update s.consumed ch (s.consumed ch + 1) } loc none := by
  have hless : ahead kBdLen ((s.hw ch + 1) % kBdLen) (s.host_idx ch) + 1 = s.outstanding ch := by
    obtain ⟨hwp, hhw, hhost, -⟩ := h.rings ch
    exact ahead_succ_left hhw (hhost ▸ hwp) hne
  have hout : ∀ c, ahead kBdLen (Function.update s.hw ch ((s.hw ch + 1) % kBdLen) c)
      (s.host_idx c) ≤ s.outstanding c := by
    intro c
    by_cases hc : c = ch
    · subst hc
      rw [Function.update_self]
      omega
    · rw [Function.update_of_ne hc]
      exact Nat.le_refl _
  refine ⟨?_, h.pool, h.rpq, ?_, ?_, ?_, h.laid⟩
  · intro c
    obtain ⟨hwp, hhw, hhost, hcount⟩ := h.rings c
    dsimp only
    by_cases hc : c = ch
    · subst hc
      rw [Function.update_self, Function.update_self]
      refine ⟨hwp, Nat.mod_lt _ (by decide), hhost, ?_⟩
      rw [← hcount, Nat.add_assoc, Nat.add_comm 1, hless]
      rfl
    · rw [Function.update_of_ne hc, Function.update_of_ne hc]
      exact ⟨hwp, hhw, hhost, hcount⟩
  · intro c k hk p hp
    unfold Ax.outstanding at hk
    dsimp only at hk hp ⊢
    by_cases hc : c = ch
    · subst hc
      rw [Function.update_self] at hk hp ⊢
      rw [cell_succ] at hp ⊢
      exact h.entries c (k + 1) (by omega) p hp
    · rw [Function.update_of_ne hc] at hk hp ⊢
      exact h.entries c k hk p hp
  · intro c hc
    exact (h.calls c hc).frame rfl (hout c) rfl (fun _ _ h => h) fun _ _ _ => ⟨rfl, rfl⟩
  · intro c hc
    have hle := h.completes c hc
    dsimp only
    by_cases hch : c.1 = ch
    · rw [hch, Function.update_self]
      rw [hch] at hle
      exact Nat.le_succ_of_le hle
    · rw [Function.update_of_ne hch]
      exact hle

/-- A page whose entry is not in the ring any more is fetched. -/
theorem Sound.fetch {p i : ℕ} (h : Sound slab s loc none) (hp : p < kWdPages)
    (hloc : loc p = .posted ch i) (hpast : ∀ k < s.outstanding ch, (s.hw ch + k) % kBdLen ≠ i) :
    Sound slab { s with hw_page := Function.update s.hw_page p .fetched }
      (Function.update loc p .fetched) none := by
  have hother : ∀ q, q ≠ p → Function.update loc p .fetched q = loc q := fun q hq =>
    Function.update_of_ne hq _ _
  refine ⟨h.rings, ?_, h.rpq, ?_, ?_, h.completes, ?_⟩
  · exact h.pool.move (l := .fetched) (by rw [hloc]; nofun) (by rw [hloc]; nofun) nofun nofun
  · intro c k hk q hq
    obtain ⟨hlt, hposted⟩ := h.entries c k hk q hq
    refine ⟨hlt, ?_⟩
    rw [hother q, hposted]
    rintro rfl
    obtain ⟨rfl, rfl⟩ := Loc.posted.inj (hloc.symm.trans hposted)
    exact hpast k hk rfl
  · intro c hc
    refine (h.calls c hc).frame rfl (Nat.le_refl _) rfl ?_ fun _ _ _ => ⟨rfl, rfl⟩
    intro q _ hcall
    rw [hother q, hcall]
    rintro rfl
    rw [hloc] at hcall
    cases hcall
  · intro q hq hlive
    apply h.laid q hq
    by_cases hqp : q = p
    · subst hqp
      rw [h.pool.hw q hq, hloc]
      nofun
    · dsimp only at hlive
      rw [Function.update_of_ne hqp] at hlive
      exact hlive

theorem Sound.consume (h : Sound slab s loc none) (ch : Channel) :
    ∃ loc', Sound slab (s.consume ch) loc' none := by
  unfold Ax.consume
  split
  · exact ⟨loc, h⟩
  · rename_i hne
    obtain ⟨hwp, hhw, hhost, -⟩ := h.rings ch
    have hless := ahead_succ_left hhw (hhost ▸ hwp : s.host_idx ch < kBdLen) hne
    have hfirst : (s.hw ch + 0) % kBdLen = s.hw ch := Nat.mod_eq_of_lt hhw
    cases hentry : s.entry_page ch (s.hw ch) with
    | none => exact ⟨loc, h.retreat hne⟩
    | some p =>
      have hmem := h.entries ch 0 (by unfold Ax.outstanding; omega) p
      rw [hfirst] at hmem
      obtain ⟨hp, hloc⟩ := hmem hentry
      refine ⟨_, (h.retreat hne).fetch hp hloc ?_⟩
      intro k hk heq
      unfold Ax.outstanding at hk
      dsimp only at hk heq
      rw [Function.update_self] at hk heq
      rw [cell_succ] at heq
      have hlt : ahead kBdLen (s.hw ch) (s.host_idx ch) < kBdLen := ahead_lt hhw
      have hsame := cell_inj hhw (by omega) (by omega) (heq.trans hfirst.symm)
      omega

/-- The reports that wait, and those of the buffer that is written. -/
theorem pending_snoc (hwp : s.rpq_wp < kBdLen) (hhw : s.rpq_hw < kBdLen)
    (hroom : (s.rpq_hw + 1) % kBdLen ≠ s.rpq_wp) (buf : Bytes) :
    Ax.pending { s with
      rpq_buf := Function.update s.rpq_buf s.rpq_hw buf
      rpq_hw := (s.rpq_hw + 1) % kBdLen } = s.pending ++ Ax.named buf := by
  have hlt : ahead kBdLen s.rpq_wp s.rpq_hw < kBdLen := ahead_lt hwp
  have hne : ahead kBdLen s.rpq_wp s.rpq_hw + 1 ≠ kBdLen := fun hfull =>
    hroom (ahead_succ_full hwp hhw hfull)
  have hcell := cell_ahead hwp hhw
  unfold Ax.pending
  dsimp only
  rw [ahead_succ_right hwp hhw (by omega), List.range_succ, List.flatMap_append,
    List.flatMap_singleton, hcell, Function.update_self]
  congr 1
  apply List.flatMap_congr
  intro k hk
  rw [List.mem_range] at hk
  rw [Function.update_of_ne]
  intro heq
  have hsame := cell_inj hwp (by omega) hlt (heq.trans hcell.symm)
  omega

/-- Pages that the hardware has fetched are reported. -/
theorem Pool.report {f pending ps : List ℕ} {b : ℕ → Bool} {hw : ℕ → HwPage}
    (h : Pool f b hw loc pending) (hnodup : ps.Nodup)
    (hps : ∀ p ∈ ps, p < kWdPages ∧ loc p = .fetched) :
    Pool f b (fun p => if p ∈ ps then .idle else hw p)
      (fun p => if p ∈ ps then .reported else loc p) (pending ++ ps) := by
  constructor
  · exact h.nodup
  · intro q
    by_cases hq : q ∈ ps
    · simp [hq, h.free, (hps q hq).2]
    · simp [hq, h.free]
  · intro q hlt
    by_cases hq : q ∈ ps
    · simp [hq, h.busy q hlt, (hps q hq).2]
    · simp [hq, h.busy q hlt]
  · rw [List.nodup_append]
    refine ⟨h.once, hnodup, ?_⟩
    rintro p hp q hq rfl
    have hloc := ((h.reported p).mp hp).2
    rw [(hps p hq).2] at hloc
    cases hloc
  · intro q
    rw [List.mem_append, h.reported]
    by_cases hq : q ∈ ps
    · simp [hq, (hps q hq).1]
    · simp [hq]
  · intro q hlt
    by_cases hq : q ∈ ps
    · simp [hq, Loc.hw]
    · simp [hq, h.hw q hlt]

theorem Sound.report (h : Sound slab s loc none) (buf : Bytes) :
    ∃ loc', Sound slab (s.report buf) loc' none := by
  unfold Ax.report
  split
  · rename_i hok
    obtain ⟨hroom, hnodup, hfetched⟩ := hok
    obtain ⟨hwp, hhw⟩ := h.rpq
    have hlt : ∀ p ∈ Ax.named buf, p < kWdPages := fun p hp => by
      simpa using (List.mem_filter.mp hp).2
    have hwas : ∀ p ∈ Ax.named buf, loc p = .fetched := by
      intro p hp
      have hpage := h.pool.hw p (hlt p hp)
      rw [hfetched p hp] at hpage
      cases hloc : loc p with
      | fetched => rfl
      | free | call _ | posted _ _ | reported => rw [hloc] at hpage; cases hpage
    have hkeep : ∀ q, loc q ≠ .fetched → (if q ∈ Ax.named buf then .reported else loc q) = loc q :=
      fun q hq => if_neg fun hmem => hq (hwas q hmem)
    refine ⟨fun p => if p ∈ Ax.named buf then .reported else loc p, h.rings, ?_,
      ⟨hwp, Nat.mod_lt _ (by decide)⟩, ?_, ?_, h.completes, ?_⟩
    · have hpool := h.pool.report hnodup fun p hp => ⟨hlt p hp, hwas p hp⟩
      rw [← pending_snoc hwp hhw hroom buf] at hpool
      exact hpool
    · intro c k hk q hq
      obtain ⟨hq', hposted⟩ := h.entries c k hk q hq
      refine ⟨hq', ?_⟩
      rw [hkeep q (by rw [hposted]; nofun), hposted]
    · intro c hc
      refine (h.calls c hc).frame rfl (Nat.le_refl _) rfl ?_ fun _ _ _ => ⟨rfl, rfl⟩
      intro q _ hcall
      rw [hkeep q (by rw [hcall]; nofun), hcall]
    · intro q hq hlive
      dsimp only at hlive
      apply h.laid q hq
      intro hidle
      apply hlive
      split
      · rfl
      · exact hidle
  · exact ⟨loc, h⟩

/-! ## Runs -/

theorem Sound.step (hslab : slab + layout.total ≤ 2 ^ 32) (h : Sound slab s loc none) (a : Act) :
    ∃ loc', Sound slab (step slab s a) loc' none := by
  cases a with
  | tx_submit hint buf => exact ⟨loc, h.tx_submit hint buf⟩
  | call ch late gone => exact h.call_step hslab ch late gone
  | reap gone => exact h.reap_rpq_locked gone
  | consume ch => exact h.consume ch
  | report buf => exact h.report buf

theorem pool_start :
    Pool (List.range kWdPages) (fun _ => false) (fun _ => .idle) (fun _ => .free) [] := by
  constructor
  · exact List.nodup_range
  · intro p
    simp
  · intro p _
    simp
  · exact List.nodup_nil
  · intro p
    simp
  · intro p _
    rfl

theorem sound_start (slab : ℕ) (mem : Memory) :
    Sound slab (start mem) (fun _ => .free) none := by
  have hpos : 0 < kBdLen := by decide
  have hzero : ahead kBdLen 0 0 = 0 := ahead_self hpos
  have hnone : (start mem).pending = [] := congrArg (fun n => (List.range n).flatMap _) hzero
  have hempty : ∀ ch, (start mem).outstanding ch = 0 := fun _ => hzero
  refine ⟨?_, ?_, ⟨hpos, hpos⟩, ?_, fun _ _ => trivial, nofun, ?_⟩
  · intro ch
    exact ⟨hpos, hpos, rfl, (Nat.zero_add _).trans hzero⟩
  · rw [hnone]
    dsimp only [start]
    exact pool_start
  · intro ch k hk
    rw [hempty] at hk
    exact absurd hk (Nat.not_lt_zero _)
  · intro p _ hlive
    exact absurd rfl hlive

theorem sound_run (hslab : slab + layout.total ≤ 2 ^ 32) (mem : Memory) (acts : List Act) :
    ∃ loc, Sound slab (Runs.after (step slab) (start mem) acts) loc none := by
  apply Runs.after_keeps (step slab) (P := fun s => ∃ loc, Sound slab s loc none)
  · exact ⟨_, sound_start slab mem⟩
  · rintro s a ⟨loc, h⟩
    exact h.step hslab a

/-! ## What the invariant says -/

theorem Sound.partitioned (h : Sound slab s loc none) : s.Partitioned := by
  refine ⟨h.pool.nodup, fun p hp => ((h.pool.free p).mp hp).1, ?_⟩
  intro p hp
  have hbusy := h.pool.busy p hp
  rw [h.pool.free p]
  cases hb : s.page_busy p with
  | true => simpa [hp, hb] using hbusy
  | false => simpa [hp, hb] using hbusy

theorem Sound.tiled (h : Sound slab s loc none) : s.Tiled slab := by
  intro p hp hlive
  have hlaid := h.laid p hp hlive
  exact ⟨hlaid, tiles_addr_infos hlaid.fits⟩

/-- The stores of a step are those of a call, or to the descriptors of the release ring. -/
def Allowed (slab : ℕ) (s : Ax) (loc : ℕ → Loc) (w : ℕ × ℕ) : Prop :=
  (∃ ch x, Mine slab s loc ch x ∧ w = (x.place, x.bytes.length)) ∨ RpqBd slab w

theorem Allowed.spares {w : ℕ × ℕ} {y : Part} (h : Sound slab s loc none)
    (hw : Allowed slab s loc w) (hy : s.Live y) : Apart (y.iova slab) y.size w.1 w.2 := by
  have hvalid : y.Valid := by
    cases y with
    | entry c i =>
      obtain ⟨k, -, rfl⟩ := hy
      exact Nat.mod_lt _ (by decide)
    | fwcmd_slot i =>
      obtain ⟨k, -, rfl⟩ := hy
      exact Nat.mod_lt _ (by decide)
    | wd_page p | payload p => exact hy.1
  rcases hw with ⟨ch, x, hmine, rfl⟩ | ⟨i, hi, rfl⟩
  · exact hmine.apart hvalid fun hown => h.not_live hown hy
  · exact (Part.apart_rpq_bd hvalid hi).symm

/-- What a step stores. -/
theorem Sound.stored (h : Sound slab s loc none) (a : Act) : ∃ ws,
    (DmaAx.step slab s a).stored = s.stored ++ ws ∧ ∀ w ∈ ws, Allowed slab s loc w := by
  have hnone : ∀ s' : Ax, s'.stored = s.stored →
      ∃ ws, s'.stored = s.stored ++ ws ∧ ∀ w ∈ ws, Allowed slab s loc w := by
    intro s' hs'
    exact ⟨[], by rw [hs', List.append_nil], nofun⟩
  have hreap : ∀ gone, ∃ ws, (s.reap_rpq_locked slab gone).stored = s.stored ++ ws ∧
      ∀ w ∈ ws, Allowed slab s loc w := by
    intro gone
    obtain ⟨ws, hws, hall⟩ := (reaped slab h.rpq.1 gone).stored
    exact ⟨ws, hws, fun w hw => Or.inr (hall w hw)⟩
  cases a with
  | tx_submit hint buf =>
    apply hnone
    dsimp only [DmaAx.step]
    unfold Ax.tx_submit
    dsimp only
    split_ifs <;> rfl
  | reap gone => exact hreap gone
  | consume ch =>
    apply hnone
    dsimp only [DmaAx.step]
    unfold Ax.consume
    split <;> rfl
  | report buf =>
    apply hnone
    dsimp only [DmaAx.step]
    unfold Ax.report
    split <;> rfl
  | call ch late gone =>
    have hat := h.calls ch nofun
    dsimp only [DmaAx.step]
    unfold Ax.call_step
    split
    · exact hnone s rfl
    · apply hnone
      split_ifs <;> rfl
    · obtain ⟨ws, hws, hall⟩ := hreap gone
      refine ⟨ws, ?_, hall⟩
      rw [← hws]
      unfold Ax.acquire
      dsimp only
      split <;> rfl
    · apply hnone
      split <;> rfl
    · rename_i job x todo hpc
      rw [hpc] at hat
      refine ⟨[(x.place, x.bytes.length)], rfl, ?_⟩
      intro w hw
      exact Or.inl ⟨ch, x, mine_todo (h.rings ch).wp_lt hat.2.1 hat.2.2, List.mem_singleton.mp hw⟩
    · exact hnone _ rfl
    · rename_i job hpc
      rw [hpc] at hat
      rw [writes_eq]
      refine ⟨_, rfl, ?_⟩
      intro w hw
      obtain ⟨x, hx, rfl⟩ := List.mem_map.mp hw
      exact Or.inl ⟨ch, x, mine_patches hat.2.1 hx, rfl⟩
    · rename_i job hpc
      refine ⟨_, rfl, ?_⟩
      intro w hw
      obtain rfl := List.mem_singleton.mp hw
      exact Or.inl ⟨ch, _, mine_entry (h.rings ch).wp_lt job, rfl⟩
    · apply hnone
      unfold Ax.kick
      split <;> rfl
    · apply hnone
      unfold Ax.wait_consumed
      dsimp only
      split_ifs <;> rfl

theorem Sound.spares (h : Sound slab s loc none) (a : Act) : s.Spares slab a := by
  obtain ⟨ws, hws, hall⟩ := h.stored a
  intro w hw y hy
  rw [hws, List.drop_left] at hw
  exact (hall w hw).spares h hy

/-- In every run, whatever the lengths, the timeouts and the order of the steps, the plane stores
nothing to what its hardware may still read, and completes what was consumed. -/
theorem tx_memory_is_never_reused_under_the_hardware (slab : ℕ)
    (hslab : slab + layout.total ≤ 2 ^ 32) (mem : Memory) (acts : List Act) :
    (Runs.after (step slab) (start mem) acts).Partitioned ∧
      (∀ a, (Runs.after (step slab) (start mem) acts).Spares slab a) ∧
      (Runs.after (step slab) (start mem) acts).Completes ∧
      (Runs.after (step slab) (start mem) acts).Tiled slab ∧
      ∀ seq status, (kWdPages ≤ seq ∨
          (Runs.after (step slab) (start mem) acts).page_busy seq = false) →
        (Runs.after (step slab) (start mem) acts).release_page seq status =
          { Runs.after (step slab) (start mem) acts with
            rpp := { (Runs.after (step slab) (start mem) acts).rpp with
              unknown_seq := (Runs.after (step slab) (start mem) acts).rpp.unknown_seq + 1 } } := by
  obtain ⟨loc, h⟩ := sound_run hslab mem acts
  exact ⟨h.partitioned, h.spares, h.completes, h.tiled, release_page_unknown _⟩

/-- A frame of 8 bytes on the first channel, laid out and fetched while another call begins. -/
theorem a_frame_that_is_fetched_is_tiled :
    let ach0 : Channel := ⟨0, by decide⟩
    let b0mg : Channel := ⟨8, by decide⟩
    (Runs.after (step 0x10000000) (start fun _ => 0)
      ([.tx_submit 0 (List.replicate 40 1)] ++ List.replicate 11 (.call ach0 false false) ++
        [.tx_submit 8 (List.replicate 50 2), .call b0mg false false, .consume ach0,
          .call b0mg false false, .call ach0 false false])).Tiled 0x10000000 :=
  (tx_memory_is_never_reused_under_the_hardware 0x10000000 (by decide) (fun _ => 0) _).2.2.2.1

end devourer.pcie.DmaAx
