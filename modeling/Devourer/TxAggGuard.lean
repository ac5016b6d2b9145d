-- The guard on the output queue: how many descriptors start in one bulk
-- window. The packing loop keeps to it, and the boundary escape then moves
-- descriptors over the edges of the windows. Which frames are taken, and when a
-- window gets too many starts, is told from the frame lengths.
import Devourer.TxAggPlan

namespace devourer

open TxAggPlan Layout

/-! ## Starts -/

/-- Where the descriptors start. -/
def starts (blocks : List TxAggBlock) : List ℕ := blocks.map (·.offset.toNat)

theorem starts_eq (blocks : List TxAggBlock) : starts blocks = (extents blocks).map Prod.fst := by
  unfold starts extents
  rw [List.map_map]
  rfl

/-- No window has more starts than the limit. -/
def Guarded (lim : TxAggLimits) (blocks : List TxAggBlock) : Prop :=
  ∀ k, inWindow lim.bulk_size.toNat k (starts blocks) ≤ lim.descs_per_bulk.toNat

/-! ## The loop -/

/-- The loop fills window `w`, and has counted the descriptors that start in it. -/
structure Guards (lim : TxAggLimits) (s : Packing) (w : ℕ) : Prop where
  ptr : s.bulk_ptr.toNat = (w + 1) * lim.bulk_size.toNat
  enters : w * lim.bulk_size.toNat ≤ s.next.toNat
  stays : s.next.toNat < (w + 1) * lim.bulk_size.toNat
  count : inWindow lim.bulk_size.toNat w (starts s.blocks) = s.desc_count.toNat
  room : s.desc_count.toNat < lim.descs_per_bulk.toNat
  behind : ∀ o ∈ starts s.blocks, o ≤ s.next.toNat
  full : Guarded lim s.blocks

variable {lim : TxAggLimits} {done ls : List UInt64} {s t : Packing} {l : UInt64} {w : ℕ}

/-- A window holds one place of a line of windows. -/
theorem window_unique {B k w o : ℕ} (hk : k * B ≤ o ∧ o < (k + 1) * B)
    (hw : w * B ≤ o ∧ o < (w + 1) * B) : k = w := by
  have hkw : k < w + 1 := Nat.lt_of_mul_lt_mul_right (Nat.lt_of_le_of_lt hk.1 hw.2)
  have hwk : w < k + 1 := Nat.lt_of_mul_lt_mul_right (Nat.lt_of_le_of_lt hw.1 hk.2)
  omega

theorem starts_push (hblocks : t.blocks = s.blocks ++ [{ offset := s.next, length := l }]) :
    starts t.blocks = starts s.blocks ++ [s.next.toNat] := by
  rw [hblocks, starts, List.map_append]
  rfl

/-- The window that is filled takes one more descriptor, and no other window does. -/
theorem Guards.push (h : Guards lim s w)
    (hblocks : t.blocks = s.blocks ++ [{ offset := s.next, length := l }]) :
    Guarded lim t.blocks ∧
      inWindow lim.bulk_size.toNat w (starts t.blocks) = s.desc_count.toNat + 1 := by
  have hin : w * lim.bulk_size.toNat ≤ s.next.toNat ∧
      s.next.toNat < (w + 1) * lim.bulk_size.toNat := ⟨h.enters, h.stays⟩
  unfold Guarded
  simp only [starts_push hblocks, inWindow_snoc]
  constructor
  · intro k
    by_cases hk : k * lim.bulk_size.toNat ≤ s.next.toNat ∧
        s.next.toNat < (k + 1) * lim.bulk_size.toNat
    · obtain rfl := window_unique hk hin
      have hcount := h.count
      have hroom := h.room
      rw [if_pos hin]
      omega
    · rw [if_neg hk, Nat.add_zero]
      exact h.full k
  · rw [if_pos hin, h.count]

theorem guards_start (hD : 1 ≤ lim.descs_per_bulk.toNat) (hB : 0 < lim.bulk_size.toNat) :
    Guards lim { bulk_ptr := lim.bulk_size } 0 where
  ptr := by simp
  enters := by simp
  stays := by simpa using hB
  count := rfl
  room := hD
  behind := by simp [starts]
  full _ := Nat.zero_le _

/-- The place of the next block never goes back. -/
theorem next_le_push (h : Packs lim done s) (ht : Packs lim (done ++ [l]) t) :
    s.next.toNat ≤ t.next.toNat := by
  rw [h.next, ht.next, sizes_snoc, next_snoc]
  exact le_trans (Nat.le_add_right _ _) (alignUp_spec (by decide) _).2.1

/-- Why the loop ends with these frames left. -/
inductive Ends (lim : TxAggLimits) : List UInt64 → Packing → Prop
  | frames (p : Packing) : Ends lim [] p
  | bytes (p : Packing) (k : UInt64) (ks : List UInt64) :
      p.next + blockSize lim p k > cap lim → Ends lim (k :: ks) p
  | count (p : Packing) (ks : List UInt64) :
      p.blocks ≠ [] → lim.max_frames.toNat ≤ p.blocks.length → Ends lim ks p
  | guard (p : Packing) (ks : List UInt64) (v : ℕ) :
      lim.descs_per_bulk.toNat ≤ inWindow lim.bulk_size.toNat v (starts p.blocks) →
      v * lim.bulk_size.toNat ≤ p.next.toNat → p.next.toNat < (v + 1) * lim.bulk_size.toNat →
      Ends lim ks p

/-- How the loop goes on behind a block: not at all, in the window it fills, with one more
descriptor and room for another, or in a new window. -/
theorem pack_goes_on (hD : 1 ≤ lim.descs_per_bulk.toNat)
    (hcap : ¬ s.next + blockSize lim s l > cap lim) (ls : List UInt64) :
    ∃ t : Packing,
      t.blocks = s.blocks ++ [{ offset := s.next, length := blockSize lim s l }] ∧
      t.tail = s.next + blockSize lim s l ∧ t.next = txagg_rnd8 (s.next + blockSize lim s l) ∧
      (pack lim (l :: ls) s = t ∧ (lim.max_frames.toNat ≤ t.blocks.length ∨
          t.next < s.bulk_ptr ∧ lim.descs_per_bulk ≤ s.desc_count + 1) ∨
        pack lim (l :: ls) s = pack lim ls t ∧
        (t.next < s.bulk_ptr ∧ t.bulk_ptr = s.bulk_ptr ∧ t.desc_count = s.desc_count + 1 ∧
            t.desc_count < lim.descs_per_bulk ∨
          ¬ t.next < s.bulk_ptr ∧ t.desc_count = 0 ∧
            t.bulk_ptr = (t.next / lim.bulk_size + 1) * lim.bulk_size)) := by
  have hon : lim.descs_per_bulk ≠ 0 := by
    rintro hzero
    rw [hzero] at hD
    exact absurd hD (by decide)
  rw [pack, if_neg hcap]
  dsimp only
  split
  · rename_i hcount
    exact ⟨_, rfl, rfl, rfl, Or.inl ⟨rfl, Or.inl hcount⟩⟩
  · split
    · rename_i hwindow
      split
      · rename_i hfull
        exact ⟨_, rfl, rfl, rfl, Or.inl ⟨rfl, Or.inr ⟨hwindow, hfull⟩⟩⟩
      · rename_i hroom
        refine ⟨_, rfl, rfl, rfl, Or.inr ⟨rfl, Or.inl ⟨hwindow, rfl, rfl, ?_⟩⟩⟩
        exact UInt32.not_le.mp hroom
    · rename_i hwindow
      exact ⟨_, rfl, rfl, rfl, Or.inr ⟨rfl, Or.inr ⟨hwindow, rfl, rfl⟩⟩⟩

theorem Guards.succ_toNat (h : Guards lim s w) :
    (s.desc_count + 1).toNat = s.desc_count.toNat + 1 := by
  have hbound := lim.descs_per_bulk.toNat_lt
  have hold := h.room
  have hunit : UInt32.toNat 1 = 1 := rfl
  rw [UInt32.toNat_add, hunit]
  omega

/-- The next block starts in the window that is filled, where the guard has counted it. -/
theorem Guards.same_window (h : Guards lim s w)
    (hblocks : t.blocks = s.blocks ++ [{ offset := s.next, length := l }])
    (hle : s.next.toNat ≤ t.next.toNat) (hlt : t.next < s.bulk_ptr)
    (hptr : t.bulk_ptr = s.bulk_ptr) (hcount : t.desc_count = s.desc_count + 1)
    (hroom : t.desc_count < lim.descs_per_bulk) : Guards lim t w := by
  obtain ⟨hfull, hone⟩ := h.push hblocks
  have hnext := UInt64.lt_iff_toNat_lt.mp hlt
  have hadd : t.desc_count.toNat = s.desc_count.toNat + 1 := by rw [hcount, h.succ_toNat]
  refine ⟨by rw [hptr, h.ptr], le_trans h.enters hle, by rw [← h.ptr]; exact hnext,
    by rw [hone, hadd], UInt32.lt_iff_toNat_lt.mp hroom, ?_, hfull⟩
  intro o ho
  rw [starts_push hblocks] at ho
  rcases List.mem_append.mp ho with ho | ho
  · exact le_trans (h.behind o ho) hle
  · rw [List.mem_singleton.mp ho]
    exact hle

/-- The next block starts a window that has no start yet. -/
theorem Guards.new_window (h : Guards lim s w) (hD : 1 ≤ lim.descs_per_bulk.toNat)
    (hB : 0 < lim.bulk_size.toNat)
    (hblocks : t.blocks = s.blocks ++ [{ offset := s.next, length := l }])
    (hle : s.next.toNat ≤ t.next.toNat) (hlt : ¬ t.next < s.bulk_ptr)
    (hsmall : t.next.toNat + lim.bulk_size.toNat < 2 ^ 64) (hcount : t.desc_count = 0)
    (hptr : t.bulk_ptr = (t.next / lim.bulk_size + 1) * lim.bulk_size) :
    Guards lim t (t.next.toNat / lim.bulk_size.toNat) := by
  have hstay := h.stays
  have hpast : (w + 1) * lim.bulk_size.toNat ≤ t.next.toNat := by
    rw [← h.ptr]
    exact UInt64.le_iff_toNat_le.mp (UInt64.not_lt.mp hlt)
  have hwindow : w + 1 ≤ t.next.toNat / lim.bulk_size.toNat := (Nat.le_div_iff_mul_le hB).mpr hpast
  have hedge := Nat.mul_le_mul_right lim.bulk_size.toNat hwindow
  have hfloor := Nat.div_mul_le_self t.next.toNat lim.bulk_size.toNat
  have hexpand := Nat.add_one_mul (t.next.toNat / lim.bulk_size.toNat) lim.bulk_size.toNat
  have hceil : t.next.toNat < (t.next.toNat / lim.bulk_size.toNat + 1) * lim.bulk_size.toNat := by
    have hlast := Nat.lt_div_mul_add (a := t.next.toNat) hB
    omega
  have hbehind : ∀ o ∈ starts t.blocks, o ≤ s.next.toNat := by
    intro o ho
    rw [starts_push hblocks] at ho
    rcases List.mem_append.mp ho with ho | ho
    · exact h.behind o ho
    · rw [List.mem_singleton.mp ho]
  have hzero : t.desc_count.toNat = 0 := by
    rw [hcount]
    rfl
  refine ⟨?_, hfloor, hceil, ?_, by rw [hzero]; exact hD, fun o ho => le_trans (hbehind o ho) hle,
    (h.push hblocks).1⟩
  · have hunit : UInt64.toNat 1 = 1 := rfl
    have hquot : t.next.toNat / lim.bulk_size.toNat ≤ t.next.toNat := Nat.div_le_self _ _
    rw [hptr, UInt64.toNat_mul, UInt64.toNat_add, UInt64.toNat_div, hunit,
      Nat.mod_eq_of_lt (show t.next.toNat / lim.bulk_size.toNat + 1 < 2 ^ 64 by omega),
      Nat.mod_eq_of_lt (by omega)]
  · rw [hzero]
    apply inWindow_past
    intro o ho
    have hlast := hbehind o ho
    omega

/-- The loop keeps to the guard, and ends where it has to. -/
theorem guards_pack (hD : 1 ≤ lim.descs_per_bulk.toNat) (hB : 0 < lim.bulk_size.toNat)
    (h : Packs lim done s) (hg : Guards lim s w)
    (hfit : ∀ l ∈ ls, lim.desc_size.toNat + l.toNat + reach lim (done ++ ls) + 15 < 2 ^ 64)
    (hwindow : reach lim (done ++ ls) + lim.bulk_size.toNat + 7 < 2 ^ 64) :
    ∃ k ≤ ls.length, Packs lim (done ++ ls.take k) (pack lim ls s) ∧
      Guarded lim (pack lim ls s).blocks ∧ Ends lim (ls.drop k) (pack lim ls s) := by
  induction ls generalizing done s w with
  | nil => exact ⟨0, le_rfl, by simpa [pack] using h, hg.full, .frames s⟩
  | cons l ls ih =>
    by_cases hcap : s.next + blockSize lim s l > cap lim
    · rw [pack, if_pos hcap]
      exact ⟨0, Nat.zero_le _, by simpa using h, hg.full, .bytes s l ls hcap⟩
    · obtain ⟨t, hblocks, htail, hnext, hgo⟩ := pack_goes_on hD hcap ls
      have hpacks := packs_push h (hfit l List.mem_cons_self) hcap hblocks htail hnext
      have hle := next_le_push h hpacks
      obtain ⟨hfull, hone⟩ := hg.push hblocks
      have hall : done ++ l :: ls = done ++ [l] ++ ls := by simp
      rcases hgo with ⟨hstop, hwhy⟩ | ⟨hgo, hon⟩
      · rw [hstop]
        refine ⟨1, by simp, by simpa using hpacks, hfull, ?_⟩
        rcases hwhy with hcount | ⟨hlt, hroom⟩
        · exact .count t _ (by simp [hblocks]) hcount
        · have hlast := UInt64.lt_iff_toNat_lt.mp hlt
          have hmany := UInt32.le_iff_toNat_le.mp hroom
          rw [hg.ptr] at hlast
          rw [hg.succ_toNat, ← hone] at hmany
          exact .guard t _ w hmany (le_trans hg.enters hle) hlast
      · rw [hall] at hfit hwindow
        have hgt : ∃ v, Guards lim t v := by
          rcases hon with ⟨hlt, hptr, hcount, hroom⟩ | ⟨hlt, hcount, hptr⟩
          · exact ⟨w, hg.same_window hblocks hle hlt hptr hcount hroom⟩
          · have hsmall : t.next.toNat + lim.bulk_size.toNat < 2 ^ 64 := by
              have hnear := hpacks.near
              have hreach := hpacks.le_reach ls
              omega
            exact ⟨_, hg.new_window hD hB hblocks hle hlt hsmall hcount hptr⟩
        obtain ⟨v, hgt⟩ := hgt
        obtain ⟨k, hk, hrest⟩ :=
          ih hpacks hgt (fun x hx => hfit x (List.mem_cons_of_mem l hx)) hwindow
        rw [hgo]
        exact ⟨k + 1, by simpa using hk, by simpa using hrest⟩

/-! ## The frames that are taken -/

namespace TxAggLimits

/-- Where frame `i` starts when no block has the reserve. -/
def start (lim : TxAggLimits) (ls : List UInt64) (i : ℕ) : ℕ :=
  ((ls.take i).map fun l => alignUp 8 (lim.desc_size.toNat + l.toNat)).sum

/-- Where it starts when the first block may have the reserve. -/
def startBehind (lim : TxAggLimits) (shim : Bool) (ls : List UInt64) (i : ℕ) : ℕ :=
  lim.start ls i + if 0 < i ∧ shim then 8 else 0

/-- Where the first `n` frames end as they are packed. -/
def ending (lim : TxAggLimits) (ls : List UInt64) : ℕ → ℕ
  | 0 => 0
  | n + 1 => lim.start ls n + (lim.desc_size.toNat + (ls.getD n 0).toNat) +
      if lim.first_reserve then 8 else 0

/-- The first `n` frames keep to the limits, and no more than the guard allows start in one bulk
window. -/
structure Fits (lim : TxAggLimits) (ls : List UInt64) (n : ℕ) : Prop where
  given : n ≤ ls.length
  count : n ≤ max 1 lim.max_frames.toNat
  bytes : lim.ending ls n ≤ (cap lim).toNat
  apart : ∀ i < n, lim.descs_per_bulk.toNat ≤ i →
    lim.startBehind lim.first_reserve ls (i - lim.descs_per_bulk.toNat) / lim.bulk_size.toNat <
      lim.startBehind lim.first_reserve ls i / lim.bulk_size.toNat

/-- The escape brings frame `i` into the window of the frame so many before it that the guard does
not allow both: the frames from that one to `i` would leave room for a start, and the reserve has
`i` on an edge, or puts that one on an edge. -/
def Crosses (lim : TxAggLimits) (ls : List UInt64) (i : ℕ) : Prop :=
  let o := lim.start ls (i - lim.descs_per_bulk.toNat)
  lim.start ls i + 8 ≤ o + lim.bulk_size.toNat ∧
    if lim.first_reserve then lim.bulk_size.toNat ∣ lim.start ls i + 8
    else lim.descs_per_bulk.toNat < i ∧ lim.bulk_size.toNat ∣ o + 8

variable {n m : ℕ}

/-- The frames that fit are a prefix. -/
theorem ending_mono (lim : TxAggLimits) (ls : List UInt64) (hle : m ≤ n) (hn : n ≤ ls.length) :
    lim.ending ls m ≤ lim.ending ls n := by
  induction n, hle using Nat.le_induction with
  | base => exact le_rfl
  | succ n hle ih =>
    refine (ih (by omega)).trans ?_
    cases n with
    | zero => exact Nat.zero_le _
    | succ n =>
      have hstep : lim.start ls (n + 1) = lim.start ls n +
          alignUp 8 (lim.desc_size.toNat + (ls.getD n 0).toNat) := by
        have hlt : n < ls.length := by omega
        rw [start, start, List.take_succ_eq_append_getElem hlt, List.map_append, List.sum_append,
          List.map_singleton, List.sum_singleton, List.getD_eq_getElem _ _ hlt]
      have hup := (alignUp_spec (a := 8) (by decide)
        (lim.desc_size.toNat + (ls.getD n 0).toNat)).2.1
      simp only [ending, hstep]
      omega

theorem Fits.mono (h : lim.Fits ls n) (hle : m ≤ n) : lim.Fits ls m where
  given := hle.trans h.given
  count := hle.trans h.count
  bytes := (ending_mono lim ls hle h.given).trans h.bytes
  apart i hi hD := h.apart i (by omega) hD

/-- At one number of frames the next does not fit. -/
theorem Fits.last_unique (hm : lim.Fits ls m) (hm' : ¬ lim.Fits ls (m + 1)) (hn : lim.Fits ls n)
    (hn' : ¬ lim.Fits ls (n + 1)) : m = n := by
  rcases Nat.lt_trichotomy m n with hlt | heq | hgt
  · exact absurd (hn.mono hlt) hm'
  · exact heq
  · exact absurd (hm.mono hgt) hn'

theorem dvd_start (lim : TxAggLimits) (ls : List UInt64) (i : ℕ) : 8 ∣ lim.start ls i := by
  have hsum := dvd_sum_alignUp (a := 8) (by decide)
    ((ls.take i).map fun l => lim.desc_size.toNat + l.toNat)
  rwa [List.map_map] at hsum

theorem start_mono (lim : TxAggLimits) (ls : List UInt64) : Monotone (lim.start ls) := by
  intro i j hij
  obtain ⟨k, rfl⟩ := Nat.exists_eq_add_of_le hij
  rw [start, start, List.take_add, List.map_append, List.sum_append]
  exact Nat.le_add_right _ _

theorem startBehind_mono (lim : TxAggLimits) (shim : Bool) (ls : List UInt64) :
    Monotone (lim.startBehind shim ls) := by
  intro i j hij
  apply Nat.add_le_add (lim.start_mono ls hij)
  split
  · next hi =>
    rw [if_pos ⟨by omega, hi.2⟩]
  · exact Nat.zero_le _

/-- The first block, with its reserve, moves all others. -/
theorem next_sizes (lim : TxAggLimits) (shim : Bool) {i : ℕ} (hi : i ≤ ls.length) :
    next 8 0 (sizes lim.desc_size.toNat shim (ls.take i)) = lim.startBehind shim ls i := by
  rw [next_eq_sum (by decide) (dvd_zero 8), Nat.zero_add, startBehind, start]
  cases i with
  | zero => simp [sizes]
  | succ i =>
    obtain ⟨l, ks, rfl⟩ := List.exists_cons_of_length_pos (show 0 < ls.length by omega)
    simp only [List.take_succ_cons, sizes, List.map_cons, List.map_map, List.sum_cons,
      Function.comp_def]
    cases shim with
    | false => simp
    | true =>
      have hgrow := alignUp_add (a := 8) (by decide) (lim.desc_size.toNat + l.toNat)
      simp only [if_true, hgrow, Nat.succ_pos, and_self]
      omega

end TxAggLimits

/-- Where blocks in place start. -/
theorem starts_placed {blocks : List TxAggBlock} {shim : Bool} {n : ℕ} (hn : n ≤ ls.length)
    (h : extents blocks = place 8 0 (sizes lim.desc_size.toNat shim (ls.take n))) :
    starts blocks = (List.range n).map (lim.startBehind shim ls) := by
  have hlen : (sizes lim.desc_size.toNat shim (ls.take n)).length = n := by
    rw [length_sizes, List.length_take, Nat.min_eq_left hn]
  rw [starts_eq, h, map_fst_place, hlen]
  apply List.map_congr_left
  intro i hi
  have hi := List.mem_range.mp hi
  rw [take_sizes, List.take_take, Nat.min_eq_left hi.le]
  exact lim.next_sizes shim (by omega)

theorem ending_lays {n : ℕ} (hn : n ≤ ls.length) :
    stop (place 8 0 (sizes lim.desc_size.toNat lim.first_reserve (ls.take n))) =
      lim.ending ls n := by
  cases n with
  | zero => rfl
  | succ n =>
    have hlt : n < ls.length := by omega
    rw [List.take_succ_eq_append_getElem hlt, sizes_snoc, stop_snoc, lim.next_sizes _ hlt.le,
      TxAggLimits.ending, List.getD_eq_getElem _ _ hlt, TxAggLimits.startBehind]
    have hempty : ls.take n = [] ↔ ¬ 0 < n := by
      rw [List.take_eq_nil_iff]
      constructor
      · rintro (h | h)
        · omega
        · rw [h] at hlt
          exact absurd hlt (Nat.not_lt_zero n)
      · exact fun h => Or.inl (by omega)
    simp only [hempty]
    by_cases hpos : 0 < n <;> cases lim.first_reserve <;> simp [hpos] <;> omega

/-- The guard of a plan, told from where its frames start. -/
theorem guarded_lays_iff {p : TxAggPlan} {n : ℕ} (h : Lays lim (ls.take n) p) (hn : n ≤ ls.length)
    (hB : 0 < lim.bulk_size.toNat) :
    Guarded lim p.blocks ↔ ∀ i, lim.descs_per_bulk.toNat ≤ i → i < n →
      lim.startBehind p.shim ls (i - lim.descs_per_bulk.toNat) / lim.bulk_size.toNat <
        lim.startBehind p.shim ls i / lim.bulk_size.toNat := by
  unfold Guarded
  rw [starts_placed hn h.blocks]
  exact inWindow_le_iff hB (lim.startBehind_mono p.shim ls) n _

/-- With one frame more, the loop would have gone past its end. -/
theorem not_fits_of_ends {n : ℕ} {p : Packing} (h : Packs lim (ls.take n) p) (hn : n ≤ ls.length)
    (hB : 0 < lim.bulk_size.toNat) (hfit : NoWrap lim ls) (hends : Ends lim (ls.drop n) p) :
    ¬ lim.Fits ls (n + 1) := by
  intro hmore
  have hlt : n < ls.length := hmore.given
  have hlen : p.blocks.length = n := by rw [h.length, List.length_take, Nat.min_eq_left hn]
  have hnext : p.next.toNat = lim.startBehind lim.first_reserve ls n := by
    rw [h.next, lim.next_sizes _ hn]
  have hrest := List.drop_eq_getElem_cons hlt
  generalize ls.drop n = rest at hends hrest
  cases hends with
  | frames => cases hrest
  | bytes _ l rest hcap =>
    obtain ⟨rfl, rfl⟩ := List.cons.inj hrest
    have hroom := hfit _ (List.getElem_mem hlt)
    have hreach := h.le_reach (ls.drop n)
    rw [List.take_append_drop] at hreach
    have hgt := UInt64.lt_iff_toNat_lt.mp hcap
    have hle := hmore.bytes
    rw [← ending_lays hlt, List.take_succ_eq_append_getElem hlt, sizes_snoc, stop_snoc, ← h.next,
      ← blockSize_toNat h (by omega), ← next_add_toNat h (by omega)] at hle
    omega
  | count _ rest hne hmany =>
    have hpos := List.length_pos_iff.mpr hne
    have hle := hmore.count
    omega
  | guard _ rest v hfull hlow hhigh =>
    have hapart : ∀ i, lim.descs_per_bulk.toNat ≤ i → i < n + 1 → _ :=
      fun i hD hi => hmore.apart i hi hD
    have hle := (inWindow_le_iff hB (lim.startBehind_mono lim.first_reserve ls) (n + 1) _).mpr
      hapart v
    rw [List.range_succ, List.map_append, List.map_singleton, inWindow_snoc, ← hnext,
      if_pos ⟨hlow, hhigh⟩, ← starts_placed hn h.blocks] at hle
    omega

/-- The frames of the packing are those that fit. -/
theorem planned_fits (hD : 1 ≤ lim.descs_per_bulk.toNat) (hB : lim.bulk_size ≠ 0)
    (hfit : NoWrap lim ls) (hwindow : reach lim ls + lim.bulk_size.toNat + 7 < 2 ^ 64) :
    ∃ n, Lays lim (ls.take n) (planned lim ls) ∧ lim.Fits ls n ∧ ¬ lim.Fits ls (n + 1) ∧
      (planned lim ls).total.toNat = lim.ending ls n := by
  obtain ⟨n, hn, hpacks, hguard, hends⟩ := guards_pack hD (total_pos hB)
    (packs_start lim lim.bulk_size) (guards_start hD (total_pos hB)) hfit hwindow
  obtain ⟨-, -, -, hcount⟩ := packs_pack (packs_start lim lim.bulk_size) hfit (Or.inl rfl)
  rw [List.nil_append] at hpacks
  have hlays : Lays lim (ls.take n) (planned lim ls) :=
    ⟨hpacks.blocks, hpacks.tail, hpacks.le.trans (cap_le lim), hcount⟩
  have htotal : (planned lim ls).total.toNat = lim.ending ls n := by
    rw [← ending_lays hn, hlays.total, hlays.blocks]
    rfl
  refine ⟨n, hlays, ⟨hn, ?_, ?_, ?_⟩, not_fits_of_ends hpacks hn (total_pos hB) hfit hends, htotal⟩
  · rw [hpacks.length, List.length_take, Nat.min_eq_left hn] at hcount
    exact hcount
  · rw [← htotal]
    exact hpacks.le
  · intro i hi hDi
    exact (guarded_lays_iff hlays hn (total_pos hB)).mp hguard i hDi hi

/-! ## The escape -/

/-- The escape brings two starts that were in different windows into one. -/
theorem crosses_iff (hD : 1 ≤ lim.descs_per_bulk.toNat) (hB : 0 < lim.bulk_size.toNat)
    (h8 : 8 ∣ lim.bulk_size.toNat) {i : ℕ} (hi : lim.descs_per_bulk.toNat ≤ i)
    (hapart : lim.startBehind lim.first_reserve ls (i - lim.descs_per_bulk.toNat) /
        lim.bulk_size.toNat < lim.startBehind lim.first_reserve ls i / lim.bulk_size.toNat) :
    ¬ lim.startBehind (!lim.first_reserve) ls (i - lim.descs_per_bulk.toNat) /
        lim.bulk_size.toNat < lim.startBehind (!lim.first_reserve) ls i / lim.bulk_size.toNat ↔
      lim.Crosses ls i := by
  have hpos : 0 < i := by omega
  unfold TxAggLimits.Crosses
  unfold TxAggLimits.startBehind at hapart ⊢
  cases hshim : lim.first_reserve with
  | true =>
    simp only [hshim, Bool.not_true, hpos, Bool.false_eq_true, and_false, and_true, if_false,
      if_true, Nat.add_zero] at hapart ⊢
    rw [together_back hB h8 (lim.dvd_start ls i) hapart, and_comm]
  | false =>
    simp only [hshim, Bool.not_false, hpos, Bool.false_eq_true, and_false, and_true, if_false,
      if_true, Nat.add_zero] at hapart ⊢
    rcases Nat.eq_or_lt_of_le hi with heq | hlt
    · -- the first block stays, and the later start only goes on
      have hfirst : ¬ 0 < i - lim.descs_per_bulk.toNat := by omega
      have hon := Nat.div_le_div_right (c := lim.bulk_size.toNat)
        (Nat.le_add_right (lim.start ls i) 8)
      rw [if_neg hfirst, Nat.add_zero]
      refine iff_of_false ?_ ?_
      · rw [not_not]
        exact lt_of_lt_of_le hapart hon
      · rintro ⟨-, hlt, -⟩
        omega
    · rw [if_pos (by omega), together_on hB h8 (lim.dvd_start ls _) (lim.dvd_start ls i) hapart,
        and_iff_right hlt, and_comm]

/-- The guard holds in the plan that is returned, unless the frames that fit end on a bulk boundary
and the escape brings one of them into the window of too many before it. -/
theorem guard_holds_iff (lim : TxAggLimits) (frame_lens : List UInt64)
    (hfit : NoWrap lim frame_lens)
    (hwindow : reach lim frame_lens + lim.bulk_size.toNat + 7 < 2 ^ 64)
    (hD : 1 ≤ lim.descs_per_bulk.toNat) (hB : lim.bulk_size ≠ 0) (h8 : 8 ∣ lim.bulk_size.toNat) :
    Guarded lim (plan_tx_agg frame_lens lim).blocks ↔
      ∀ n, lim.Fits frame_lens n → ¬ lim.Fits frame_lens (n + 1) → lim.ending frame_lens n ≠ 0 →
        lim.bulk_size.toNat ∣ lim.ending frame_lens n →
        ∀ i < n, lim.descs_per_bulk.toNat ≤ i → ¬ lim.Crosses frame_lens i := by
  by_cases hnil : frame_lens = []
  · subst hnil
    rw [plan_tx_agg_empty (Or.inl rfl)]
    refine iff_of_true (fun k => Nat.zero_le _) ?_
    intro n hn _ hpos
    obtain rfl : n = 0 := Nat.le_zero.mp hn.given
    exact absurd rfl hpos
  obtain ⟨n, hlays, hfits, hlast, htotal⟩ := planned_fits hD hB hfit hwindow
  have hn := hfits.given
  have hguarded : Guarded lim (planned lim frame_lens).blocks :=
    (guarded_lays_iff hlays hn (total_pos hB)).mpr fun i hDi hi => hfits.apart i hi hDi
  -- no other number of frames is asked for
  have honly : ∀ {P : ℕ → Prop}, (∀ m, lim.Fits frame_lens m → ¬ lim.Fits frame_lens (m + 1) →
      P m) ↔ P n := by
    intro P
    constructor
    · exact fun h => h n hfits hlast
    · intro h m hm hm'
      rw [hm.last_unique hm' hfits hlast]
      exact h
  rw [honly, plan_tx_agg_eq hB hnil]
  have hzero : (planned lim frame_lens).total ≠ 0 ↔ lim.ending frame_lens n ≠ 0 := by
    rw [← htotal]
    exact not_congr UInt64.toNat_inj.symm
  have hmultiple : (planned lim frame_lens).total % lim.bulk_size = 0 ↔
      lim.bulk_size.toNat ∣ lim.ending frame_lens n := by
    rw [← htotal, ← UInt64.toNat_inj, UInt64.toNat_mod]
    exact (Nat.dvd_iff_mod_eq_zero).symm
  split
  · next hescape =>
    have hcap : (planned lim frame_lens).total.toNat ≤ (cap lim).toNat := by
      rw [htotal]
      exact hfits.bytes
    obtain ⟨hflip, -⟩ := lays_flip hlays hescape.1 fun hshim =>
      cap_room hshim (total_pos hescape.1) hcap
    rw [guarded_lays_iff hflip hn (total_pos hB)]
    have heach : ∀ i < n, lim.descs_per_bulk.toNat ≤ i → _ := fun i hi hDi =>
      crosses_iff hD (total_pos hB) h8 hDi (hfits.apart i hi hDi)
    constructor
    · intro h _ _ i hi hDi hcross
      exact (heach i hi hDi).mpr hcross (h i hDi hi)
    · intro h i hDi hi
      by_contra htogether
      exact h (hzero.mp hescape.1) (hmultiple.mp hescape.2) i hi hDi ((heach i hi hDi).mp htogether)
  · next hescape =>
    refine iff_of_true hguarded ?_
    intro hpos hdvd
    exact absurd ⟨hzero.mpr hpos, hmultiple.mpr hdvd⟩ hescape

/-- Two frames that end on a boundary, where the escape moves the second over no edge. -/
theorem guard_holds_for_two_frames :
    let lim : TxAggLimits := { descs_per_bulk := 1, desc_size := 40, first_reserve := true }
    lim.ending [552, 384] 2 = 1024 ∧
      (plan_tx_agg [552, 384] lim).blocks = [⟨0, 592⟩, ⟨592, 424⟩] ∧
      Guarded lim (plan_tx_agg [552, 384] lim).blocks := by
  intro lim
  have hfit : NoWrap lim [552, 384] := by
    intro l hl
    rcases List.mem_pair.mp hl with rfl | rfl
    · decide
    · decide
  refine ⟨by decide, by decide +kernel, ?_⟩
  apply (guard_holds_iff lim [552, 384] hfit (by decide) (by decide) (by decide) (by decide)).mpr
  intro n hn _ _ _ i hi hDi
  have hle : n ≤ 2 := hn.given
  have hone : 1 ≤ i := hDi
  obtain rfl : i = 1 := by omega
  rintro ⟨hnear, -⟩
  exact absurd hnear (by decide)

/-- Two full blocks end on a boundary. Without the reserve of the first, the second starts before
the edge of its window, and so in the window of the first. -/
theorem the_escape_breaks_the_guard :
    let lim : TxAggLimits := { descs_per_bulk := 1, desc_size := 40, first_reserve := true }
    16 ≤ lim.bulk_size.toNat ∧ 8 ∣ lim.bulk_size.toNat ∧ 1 ≤ lim.descs_per_bulk.toNat ∧
      (plan_tx_agg [464, 472] lim).blocks = [⟨0, 504⟩, ⟨504, 512⟩] ∧
      inWindow lim.bulk_size.toNat 0 (starts (plan_tx_agg [464, 472] lim).blocks) = 2 ∧
      ¬ Guarded lim (plan_tx_agg [464, 472] lim).blocks := by
  intro lim
  have hblocks : (plan_tx_agg [464, 472] lim).blocks = [⟨0, 504⟩, ⟨504, 512⟩] := by decide +kernel
  have htwo : inWindow lim.bulk_size.toNat 0 (starts (plan_tx_agg [464, 472] lim).blocks) = 2 := by
    rw [hblocks]
    decide +kernel
  refine ⟨by decide, by decide, by decide, hblocks, htwo, ?_⟩
  intro hguard
  have hle := hguard 0
  rw [htwo] at hle
  exact absurd hle (by decide)

end devourer
