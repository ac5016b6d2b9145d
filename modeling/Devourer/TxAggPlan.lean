-- The layout of one aggregated bulk transfer: a prefix of the frames, each
-- behind its descriptor, packed under the limits of the chip and the bus.
import Mathlib.Data.Nat.Bitwise
import Devourer.Lib.Layout

namespace devourer

structure TxAggLimits where
  desc_size : UInt64 := 48
  bulk_size : UInt64 := 512
  max_bytes : UInt64 := 20480
  max_frames : UInt32 := 255
  /-- How many descriptors may start in one bulk window. 0 is off. -/
  descs_per_bulk : UInt32 := 0
  first_reserve : Bool := false

structure TxAggBlock where
  offset : UInt64
  length : UInt64
  deriving DecidableEq

structure TxAggPlan where
  blocks : List TxAggBlock := []
  total : UInt64 := 0
  shim : Bool := false
  deriving DecidableEq

def txagg_rnd8 (v : UInt64) : UInt64 := (v + 7) &&& ~~~7

namespace TxAggPlan

/-- The variables of the packing loop. -/
structure Packing where
  blocks : List TxAggBlock := []
  tail : UInt64 := 0
  next : UInt64 := 0
  desc_count : UInt32 := 0
  bulk_ptr : UInt64

/-- The headroom lets the boundary escape add the reserve. -/
def cap (lim : TxAggLimits) : UInt64 :=
  if lim.first_reserve then lim.max_bytes
  else if lim.max_bytes > 8 then lim.max_bytes - 8 else 0

/-- The bytes that the next frame's block takes. -/
def blockSize (lim : TxAggLimits) (s : Packing) (l : UInt64) : UInt64 :=
  lim.desc_size + l + if s.blocks = [] ∧ lim.first_reserve then 8 else 0

/-- The loop over the frames, which ends where it breaks. -/
def pack (lim : TxAggLimits) : List UInt64 → Packing → Packing
  | [], s => s
  | l :: ls, s =>
    let blk := blockSize lim s l
    if s.next + blk > cap lim then s
    else
      let s := { s with
        blocks := s.blocks ++ [{ offset := s.next, length := blk }]
        tail := s.next + blk
        next := txagg_rnd8 (s.next + blk) }
      if s.blocks.length ≥ lim.max_frames.toNat then s
      else if s.next < s.bulk_ptr then
        -- the guard counts the next descriptor, which starts in this window
        if lim.descs_per_bulk ≠ 0 then
          let s := { s with desc_count := s.desc_count + 1 }
          if s.desc_count ≥ lim.descs_per_bulk then s else pack lim ls s
        else pack lim ls s
      else pack lim ls { s with
        desc_count := 0
        bulk_ptr := (s.next / lim.bulk_size + 1) * lim.bulk_size }

/-- The boundary escape: the reserve of the first block is dropped where it was, and added where it
was not. -/
def flipReserve (p : TxAggPlan) : TxAggPlan where
  shim := !p.shim
  blocks :=
    match p.blocks with
    | [] => []
    | b :: bs =>
      let d : UInt64 := if p.shim then -8 else 8
      { b with length := b.length + d } :: bs.map fun c => { c with offset := c.offset + d }
  total := p.total + if p.shim then -8 else 8

end TxAggPlan

open TxAggPlan

def plan_tx_agg (frame_lens : List UInt64) (lim : TxAggLimits) : TxAggPlan :=
  if frame_lens.length = 0 ∨ lim.bulk_size = 0 then {}
  else
    let s := pack lim frame_lens { bulk_ptr := lim.bulk_size }
    let p : TxAggPlan := { blocks := s.blocks, total := s.tail, shim := lim.first_reserve }
    if p.total ≠ 0 ∧ p.total % lim.bulk_size = 0 then p.flipReserve else p

/-! ## The layout -/

theorem txagg_rnd8_toNat {v : UInt64} (h : v.toNat + 7 < 2 ^ 64) :
    (txagg_rnd8 v).toNat = Layout.alignUp 8 v.toNat := by
  have hseven : UInt64.toNat 7 = 2 ^ 3 - 1 := rfl
  have hsum : (v + 7).toNat = v.toNat + 7 := by
    rw [UInt64.toNat_add, hseven]
    omega
  have hnot : UInt64.toNat (~~~7) = 2 ^ 64 - (7 + 1) := rfl
  unfold txagg_rnd8 Layout.alignUp
  rw [← hsum]
  generalize v + 7 = x
  have hshift : (x &&& ~~~7).toNat = x.toNat >>> 3 <<< 3 := by
    apply Nat.eq_of_testBit_eq
    intro i
    have hbits : Nat.testBit 7 i = decide (i < 3) := Nat.testBit_two_pow_sub_one 3 i
    have hlow : x.toNat.testBit i = true → i < 64 := by
      intro hi
      have hle := Nat.ge_two_pow_of_testBit hi
      exact (Nat.pow_lt_pow_iff_right (by omega)).mp (hle.trans_lt x.toNat_lt)
    rw [UInt64.toNat_and, Nat.testBit_and, hnot, Nat.testBit_two_pow_sub_succ (by decide), hbits,
      Nat.testBit_shiftLeft, Nat.testBit_shiftRight]
    by_cases hi : i < 3
    · simp [hi]
    · have hback : 3 + (i - 3) = i := by omega
      rw [hback]
      cases hx : x.toNat.testBit i with
      | false => simp
      | true => simp [hi, hlow hx, Nat.le_of_not_lt hi]
  rw [hshift, Nat.shiftLeft_eq, Nat.shiftRight_eq_div_pow]

/-- The size of each frame's block, where the first may have the reserve. -/
def sizes (desc : ℕ) (shim : Bool) : List UInt64 → List ℕ
  | [] => []
  | l :: ls => (desc + l.toNat + if shim then 8 else 0) :: ls.map fun l => desc + l.toNat

theorem take_sizes (desc : ℕ) (shim : Bool) (ls : List UInt64) (i : ℕ) :
    (sizes desc shim ls).take i = sizes desc shim (ls.take i) := by
  cases i with
  | zero => cases ls <;> rfl
  | succ i =>
    cases ls with
    | nil => rfl
    | cons l ls => simp [sizes, List.map_take]

theorem sum_sizes_le (desc : ℕ) (shim : Bool) (ls : List UInt64) :
    ((sizes desc shim ls).map (· + (8 - 1))).sum ≤
    (ls.map fun l => desc + l.toNat + 7).sum + 8 := by
  cases ls with
  | nil => exact Nat.zero_le _
  | cons l ls =>
    simp only [sizes, List.map_cons, List.sum_cons, List.map_map]
    have hrest : (ls.map ((· + (8 - 1)) ∘ fun l => desc + l.toNat)).sum =
        (ls.map fun l => desc + l.toNat + 7).sum := rfl
    split <;> omega

/-- The blocks as numbers. -/
def extents (bs : List TxAggBlock) : List (ℕ × ℕ) :=
  bs.map fun b => (b.offset.toNat, b.length.toNat)

theorem sizes_snoc (desc : ℕ) (shim : Bool) (ls : List UInt64) (l : UInt64) :
    sizes desc shim (ls ++ [l]) =
      sizes desc shim ls ++ [desc + l.toNat + if ls = [] ∧ shim then 8 else 0] := by
  cases ls with
  | nil => simp [sizes]
  | cons k ks => simp [sizes]

theorem length_sizes (desc : ℕ) (shim : Bool) (ls : List UInt64) :
    (sizes desc shim ls).length = ls.length := by
  cases ls with
  | nil => rfl
  | cons l ls => simp [sizes]

/-- How far the packing of these frames can come: to the byte cap, or to the end of the last. -/
def reach (lim : TxAggLimits) (ls : List UInt64) : ℕ :=
  min lim.max_bytes.toNat ((ls.map fun l => lim.desc_size.toNat + l.toNat + 7).sum + 8)

/-- The byte counts of these frames do not wrap. -/
def NoWrap (lim : TxAggLimits) (ls : List UInt64) : Prop :=
  ∀ l ∈ ls, lim.desc_size.toNat + l.toNat + reach lim ls + 15 < 2 ^ 64

/-- The loop has these frames in place. -/
structure Packs (lim : TxAggLimits) (done : List UInt64) (s : Packing) : Prop where
  blocks : extents s.blocks =
    Layout.place 8 0 (sizes lim.desc_size.toNat lim.first_reserve done)
  tail : s.tail.toNat = Layout.stop (extents s.blocks)
  next : s.next.toNat = Layout.next 8 0 (sizes lim.desc_size.toNat lim.first_reserve done)
  near : s.next.toNat < s.tail.toNat + 8
  le : s.tail.toNat ≤ (cap lim).toNat

variable {lim : TxAggLimits} {done ls : List UInt64} {s : Packing} {l : UInt64}

theorem Packs.length (h : Packs lim done s) : s.blocks.length = done.length := by
  have hlen := congrArg List.length h.blocks
  rw [Layout.length_place, length_sizes, extents, List.length_map] at hlen
  exact hlen

theorem cap_le (lim : TxAggLimits) : (cap lim).toNat ≤ lim.max_bytes.toNat := by
  unfold cap
  split
  · exact le_rfl
  · split
    · rename_i hgt
      rw [UInt64.toNat_sub_of_le _ _ (UInt64.le_of_lt hgt)]
      exact Nat.sub_le _ _
    · exact Nat.zero_le _

theorem packs_start (lim : TxAggLimits) (bulk_ptr : UInt64) : Packs lim [] { bulk_ptr } where
  blocks := rfl
  tail := rfl
  next := rfl
  near := Nat.succ_pos 7
  le := Nat.zero_le _

/-- Where the packing has come to is within the reach of these frames and any others. -/
theorem Packs.le_reach (h : Packs lim done s) (ls : List UInt64) :
    s.tail.toNat ≤ reach lim (done ++ ls) := by
  have hstop := Layout.stop_le (a := 8) (by decide) 0
    (sizes lim.desc_size.toNat lim.first_reserve done)
  have hsum := sum_sizes_le lim.desc_size.toNat lim.first_reserve done
  rw [← h.blocks, ← h.tail] at hstop
  apply le_min
  · exact h.le.trans (cap_le lim)
  · rw [List.map_append, List.sum_append]
    omega

theorem reserve_le (p : Prop) [Decidable p] : (if p then 8 else 0) ≤ 8 := by
  split
  · exact le_rfl
  · exact Nat.zero_le _

theorem blockSize_toNat (h : Packs lim done s)
    (hroom : lim.desc_size.toNat + l.toNat + s.tail.toNat + 15 < 2 ^ 64) :
    (blockSize lim s l).toNat =
      lim.desc_size.toNat + l.toNat + if done = [] ∧ lim.first_reserve then 8 else 0 := by
  have hsum : (lim.desc_size + l).toNat = lim.desc_size.toNat + l.toNat := by
    rw [UInt64.toNat_add]
    omega
  have hempty : s.blocks = [] ↔ done = [] := by
    rw [← List.length_eq_zero_iff, h.length, List.length_eq_zero_iff]
  unfold blockSize
  simp only [hempty]
  split
  · have height : UInt64.toNat 8 = 8 := rfl
    rw [UInt64.toNat_add, hsum, height]
    omega
  · have hzero : UInt64.toNat 0 = 0 := rfl
    rw [UInt64.toNat_add, hsum, hzero]
    omega

theorem next_add_toNat (h : Packs lim done s)
    (hroom : lim.desc_size.toNat + l.toNat + s.tail.toNat + 15 < 2 ^ 64) :
    (s.next + blockSize lim s l).toNat = s.next.toNat + (blockSize lim s l).toNat := by
  have hnear := h.near
  have hsize := blockSize_toNat h hroom
  have height := reserve_le (done = [] ∧ lim.first_reserve)
  rw [UInt64.toNat_add]
  omega

/-- A frame that fits is put in place. -/
theorem packs_push (h : Packs lim done s)
    (hroom : lim.desc_size.toNat + l.toNat + reach lim (done ++ l :: ls) + 15 < 2 ^ 64)
    (hcap : ¬ s.next + blockSize lim s l > cap lim) {t : Packing}
    (hblocks : t.blocks = s.blocks ++ [{ offset := s.next, length := blockSize lim s l }])
    (htail : t.tail = s.next + blockSize lim s l)
    (hnext : t.next = txagg_rnd8 (s.next + blockSize lim s l)) : Packs lim (done ++ [l]) t := by
  have hbelow : lim.desc_size.toNat + l.toNat + s.tail.toNat + 15 < 2 ^ 64 := by
    have hreach := h.le_reach (l :: ls)
    omega
  have hsize := blockSize_toNat h hbelow
  have hadd := next_add_toNat h hbelow
  have hle := UInt64.le_iff_toNat_le.mp (UInt64.not_lt.mp hcap)
  have hmax := cap_le lim
  have hplace : extents t.blocks =
      Layout.place 8 0 (sizes lim.desc_size.toNat lim.first_reserve (done ++ [l])) := by
    rw [hblocks, sizes_snoc, Layout.place_snoc, ← h.blocks, ← h.next, ← hsize]
    simp [extents]
  have hstop : t.tail.toNat = Layout.stop (extents t.blocks) := by
    rw [hplace, sizes_snoc, Layout.stop_snoc, htail, hadd, h.next, hsize]
  have hfar : (s.next + blockSize lim s l).toNat + 7 < 2 ^ 64 := by
    have hend := Layout.stop_le (a := 8) (by decide) 0
      (sizes lim.desc_size.toNat lim.first_reserve (done ++ [l]))
    have hsum := sum_sizes_le lim.desc_size.toNat lim.first_reserve (done ++ [l])
    rw [← hplace, ← hstop, htail] at hend
    rw [List.map_append, List.sum_append] at hsum
    have hmin : (s.next + blockSize lim s l).toNat ≤ reach lim (done ++ l :: ls) := by
      apply le_min (hle.trans hmax)
      rw [List.map_append, List.sum_append]
      simp only [List.map_cons, List.map_nil, List.sum_cons, List.sum_nil] at hsum ⊢
      omega
    omega
  have hrnd := txagg_rnd8_toNat hfar
  obtain ⟨-, -, hlt⟩ := Layout.alignUp_spec (a := 8) (by decide) (s.next + blockSize lim s l).toNat
  refine ⟨hplace, hstop, ?_, ?_, ?_⟩
  · rw [hnext, hrnd, sizes_snoc, Layout.next_snoc, hadd, h.next, hsize]
  · rw [hnext, htail, hrnd]
    exact hlt
  · rw [htail]
    exact hle

/-- What one turn of the loop does: it breaks before the frame, or places it, and then breaks or
goes on. -/
theorem pack_cons (lim : TxAggLimits) (l : UInt64) (ls : List UInt64) (s : Packing) :
    (s.next + blockSize lim s l > cap lim ∧ pack lim (l :: ls) s = s) ∨
    (¬ s.next + blockSize lim s l > cap lim ∧ ∃ t : Packing,
      t.blocks = s.blocks ++ [{ offset := s.next, length := blockSize lim s l }] ∧
      t.tail = s.next + blockSize lim s l ∧ t.next = txagg_rnd8 (s.next + blockSize lim s l) ∧
      (pack lim (l :: ls) s = t ∨
        t.blocks.length < lim.max_frames.toNat ∧ pack lim (l :: ls) s = pack lim ls t)) := by
  rw [pack]
  dsimp only
  split
  · rename_i hcap
    exact Or.inl ⟨hcap, rfl⟩
  · rename_i hcap
    refine Or.inr ⟨hcap, ?_⟩
    split
    · exact ⟨_, rfl, rfl, rfl, Or.inl rfl⟩
    · rename_i hcount
      split
      · split
        · split
          · exact ⟨_, rfl, rfl, rfl, Or.inl rfl⟩
          · exact ⟨_, rfl, rfl, rfl, Or.inr ⟨Nat.lt_of_not_le hcount, rfl⟩⟩
        · exact ⟨_, rfl, rfl, rfl, Or.inr ⟨Nat.lt_of_not_le hcount, rfl⟩⟩
      · exact ⟨_, rfl, rfl, rfl, Or.inr ⟨Nat.lt_of_not_le hcount, rfl⟩⟩

/-- The loop places a prefix of the frames, and no more than it may. -/
theorem packs_pack (h : Packs lim done s)
    (hfit : ∀ l ∈ ls, lim.desc_size.toNat + l.toNat + reach lim (done ++ ls) + 15 < 2 ^ 64)
    (hcount : s.blocks = [] ∨ s.blocks.length < lim.max_frames.toNat) :
    ∃ k ≤ ls.length, Packs lim (done ++ ls.take k) (pack lim ls s) ∧
      (pack lim ls s).blocks.length ≤ max 1 lim.max_frames.toNat := by
  induction ls generalizing done s with
  | nil =>
    refine ⟨0, le_rfl, by simpa [pack] using h, ?_⟩
    rcases hcount with hnil | hlt
    · simp [pack, hnil]
    · simp only [pack]
      omega
  | cons l ls ih =>
    have hlen : s.blocks.length + 1 ≤ max 1 lim.max_frames.toNat := by
      rcases hcount with hnil | hlt
      · simp [hnil]
      · omega
    rcases pack_cons lim l ls s with ⟨hcap, hstop⟩ | ⟨hcap, t, hblocks, htail, hnext, hgo⟩
    · rw [hstop]
      exact ⟨0, Nat.zero_le _, by simpa using h, by omega⟩
    · have hpush := packs_push h (hfit l List.mem_cons_self) hcap hblocks htail hnext
      have htlen : t.blocks.length = s.blocks.length + 1 := by rw [hblocks]; simp
      rcases hgo with hstop | ⟨hmore, hgo⟩
      · rw [hstop]
        refine ⟨1, by simp, by simpa using hpush, by omega⟩
      · have hfits : ∀ x ∈ ls, lim.desc_size.toNat + x.toNat + reach lim (done ++ [l] ++ ls) + 15 <
            2 ^ 64 := by
          intro x hx
          rw [List.append_assoc]
          exact hfit x (List.mem_cons_of_mem l hx)
        obtain ⟨k, hk, hpacks, hle⟩ := ih hpush hfits (Or.inr hmore)
        rw [hgo]
        refine ⟨k + 1, by simpa using hk, ?_, hle⟩
        simpa using hpacks

/-! ## The boundary escape -/

theorem sizes_reserve (desc : ℕ) (ls : List UInt64) :
    Layout.place 8 0 (sizes desc true ls) =
      Layout.bump 8 (Layout.place 8 0 (sizes desc false ls)) := by
  cases ls with
  | nil => rfl
  | cons l ls =>
    have hbump := Layout.place_bump (a := 8) (by decide) 0 (desc + l.toNat)
      (ls.map fun l => desc + l.toNat)
    simpa [sizes] using hbump

theorem sub_eight_toNat {v : UInt64} (h : 8 ≤ v.toNat) : (v + -8).toNat = v.toNat - 8 := by
  have hneg : UInt64.toNat (-8) = 18446744073709551608 := rfl
  have hlt := v.toNat_lt
  rw [UInt64.toNat_add, hneg]
  omega

theorem add_eight_toNat {v : UInt64} (h : v.toNat + 8 < 2 ^ 64) : (v + 8).toNat = v.toNat + 8 := by
  have height : UInt64.toNat 8 = 8 := rfl
  rw [UInt64.toNat_add, height]
  omega

/-- The reserve is added. -/
theorem extents_flip_add {p : TxAggPlan} (hshim : p.shim = false)
    (hroom : ∀ e ∈ extents p.blocks, e.1 + e.2 + 8 < 2 ^ 64) :
    extents p.flipReserve.blocks = Layout.bump 8 (extents p.blocks) := by
  unfold flipReserve
  rw [hshim]
  cases hblocks : p.blocks with
  | nil => rfl
  | cons b bs =>
    rw [hblocks] at hroom
    have hfirst : (b.length + 8).toNat = b.length.toNat + 8 := by
      have := hroom (b.offset.toNat, b.length.toNat) (by simp [extents])
      exact add_eight_toNat (by omega)
    have hrest : ∀ c ∈ bs, (c.offset + 8).toNat = c.offset.toNat + 8 := by
      intro c hc
      have := hroom (c.offset.toNat, c.length.toNat)
        (List.mem_map_of_mem (f := fun b : TxAggBlock => (b.offset.toNat, b.length.toNat))
          (List.mem_cons_of_mem b hc))
      exact add_eight_toNat (by omega)
    simp only [extents, Bool.false_eq_true, if_false, List.map_cons, List.map_map, Layout.bump,
      hfirst]
    congr 1
    apply List.map_congr_left
    intro c hc
    simp [hrest c hc]

/-- The reserve is dropped. -/
theorem extents_flip_drop {p : TxAggPlan} (hshim : p.shim = true) {q : List (ℕ × ℕ)}
    (hq : extents p.blocks = Layout.bump 8 q) : extents p.flipReserve.blocks = q := by
  unfold flipReserve
  rw [hshim]
  cases hblocks : p.blocks with
  | nil =>
    rw [hblocks] at hq
    cases q with
    | nil => rfl
    | cons e q => cases hq
  | cons b bs =>
    rw [hblocks] at hq
    cases q with
    | nil => cases hq
    | cons e q =>
      obtain ⟨o, n⟩ := e
      simp only [extents, List.map_cons, Layout.bump, List.cons.injEq, Prod.mk.injEq] at hq
      obtain ⟨⟨ho, hn⟩, hrest⟩ := hq
      have hfirst : (b.length + -8).toNat = n := by
        rw [sub_eight_toNat (by omega)]
        omega
      simp only [extents, if_true, List.map_cons, List.map_map, hfirst, ho]
      rw [List.cons.injEq]
      refine ⟨rfl, ?_⟩
      have hback : (bs.map fun c => (c.offset.toNat, c.length.toNat)).map
          (fun e => (e.1 - 8, e.2)) = q := by
        rw [hrest, List.map_map]
        exact List.map_id q
      rw [← hback, List.map_map]
      apply List.map_congr_left
      intro c hc
      have hmem : (c.offset.toNat, c.length.toNat) ∈ q.map fun p => (p.1 + 8, p.2) := by
        rw [← hrest]
        exact List.mem_map_of_mem (f := fun c : TxAggBlock => (c.offset.toNat, c.length.toNat)) hc
      obtain ⟨e, -, he⟩ := List.mem_map.mp hmem
      have hoff : e.1 + 8 = c.offset.toNat := congrArg Prod.fst he
      simp [sub_eight_toNat (show 8 ≤ c.offset.toNat by omega)]

/-! ## Plans -/

/-- A plan of these frames, as numbers. -/
structure Lays (lim : TxAggLimits) (taken : List UInt64) (p : TxAggPlan) : Prop where
  blocks : extents p.blocks = Layout.place 8 0 (sizes lim.desc_size.toNat p.shim taken)
  total : p.total.toNat = Layout.stop (extents p.blocks)
  le : p.total.toNat ≤ lim.max_bytes.toNat
  count : p.blocks.length ≤ max 1 lim.max_frames.toNat

theorem flip_length (p : TxAggPlan) : p.flipReserve.blocks.length = p.blocks.length := by
  unfold flipReserve
  cases p.blocks with
  | nil => rfl
  | cons b bs => simp

/-- The escape leaves a plan of the same frames, eight bytes shorter or longer. -/
theorem lays_flip {p : TxAggPlan} (h : Lays lim done p) (hpos : p.total ≠ 0)
    (hroom : p.shim = false → p.total.toNat + 8 ≤ lim.max_bytes.toNat) :
    Lays lim done p.flipReserve ∧
      (p.total.toNat = p.flipReserve.total.toNat + 8 ∨
        p.flipReserve.total.toNat = p.total.toNat + 8) := by
  have hne : extents p.blocks ≠ [] := by
    intro hnil
    have htotal := h.total
    rw [hnil] at htotal
    exact hpos (UInt64.toNat_inj.mp htotal)
  have hmax := lim.max_bytes.toNat_lt
  by_cases hshim : p.shim = true
  · -- the reserve goes
    have hq := h.blocks
    rw [hshim, sizes_reserve] at hq
    have hflip := extents_flip_drop hshim hq
    have hplaced : Layout.place 8 0 (sizes lim.desc_size.toNat false done) ≠ [] := by
      intro hnil
      rw [hnil] at hq
      exact hne hq
    have htotal : p.total.toNat = Layout.stop (extents p.flipReserve.blocks) + 8 := by
      rw [h.total, hq, Layout.stop_bump hplaced, hflip]
    have hless : p.flipReserve.total.toNat = p.total.toNat - 8 := by
      show (p.total + if p.shim then -8 else 8).toNat = _
      rw [if_pos hshim]
      exact sub_eight_toNat (by omega)
    refine ⟨⟨?_, ?_, ?_, ?_⟩, Or.inl (by omega)⟩
    · show _ = Layout.place 8 0 (sizes _ (!p.shim) done)
      rw [hshim]
      exact hflip
    · rw [hless, htotal]
      omega
    · rw [hless]
      have := h.le
      omega
    · rw [flip_length]
      exact h.count
  · -- the reserve comes
    have hshim' : p.shim = false := by simpa using hshim
    have hfit := hroom hshim'
    have hends : ∀ e ∈ extents p.blocks, e.1 + e.2 + 8 < 2 ^ 64 := by
      intro e he
      have hstop : e.1 + e.2 ≤ Layout.stop (extents p.blocks) := by
        rw [h.blocks] at he ⊢
        exact Layout.end_le_stop (by decide) he
      rw [← h.total] at hstop
      omega
    have hflip := extents_flip_add hshim' hends
    have hmore : p.flipReserve.total.toNat = p.total.toNat + 8 := by
      show (p.total + if p.shim then -8 else 8).toNat = _
      rw [if_neg hshim]
      exact add_eight_toNat (by omega)
    refine ⟨⟨?_, ?_, ?_, ?_⟩, Or.inr hmore⟩
    · show _ = Layout.place 8 0 (sizes _ (!p.shim) done)
      rw [hflip, h.blocks, hshim', Bool.not_false, sizes_reserve]
    · rw [hmore, hflip, Layout.stop_bump hne, h.total]
    · rw [hmore]
      exact hfit
    · rw [flip_length]
      exact h.count

/-- The plan before the escape. -/
def planned (lim : TxAggLimits) (ls : List UInt64) : TxAggPlan :=
  let s := pack lim ls { bulk_ptr := lim.bulk_size }
  { blocks := s.blocks, total := s.tail, shim := lim.first_reserve }

theorem plan_tx_agg_eq (hbulk : lim.bulk_size ≠ 0) (hls : ls ≠ []) :
    plan_tx_agg ls lim =
      if (planned lim ls).total ≠ 0 ∧ (planned lim ls).total % lim.bulk_size = 0 then
        (planned lim ls).flipReserve
      else planned lim ls := by
  have hgo : ¬ (ls.length = 0 ∨ lim.bulk_size = 0) := by
    rintro (h | h)
    · exact hls (List.length_eq_zero_iff.mp h)
    · exact hbulk h
  unfold plan_tx_agg
  rw [if_neg hgo]
  rfl

theorem lays_planned (lim : TxAggLimits) (hfit : NoWrap lim ls) :
    ∃ k ≤ ls.length, Lays lim (ls.take k) (planned lim ls) ∧
      (planned lim ls).total.toNat ≤ (cap lim).toNat := by
  obtain ⟨k, hk, hpacks, hcount⟩ :=
    packs_pack (packs_start lim lim.bulk_size) hfit (Or.inl rfl)
  rw [List.nil_append] at hpacks
  exact ⟨k, hk, ⟨hpacks.blocks, hpacks.tail, hpacks.le.trans (cap_le lim), hcount⟩, hpacks.le⟩

/-- Where there is no reserve there is room for one. -/
theorem cap_room {n : ℕ} (hshim : lim.first_reserve = false) (hpos : 0 < n)
    (hn : n ≤ (cap lim).toNat) : n + 8 ≤ lim.max_bytes.toNat := by
  unfold cap at hn
  rw [hshim, if_neg Bool.false_ne_true] at hn
  split at hn
  · rename_i hgt
    have height : UInt64.toNat 8 = 8 := rfl
    have hgt' := UInt64.lt_iff_toNat_lt.mp hgt
    rw [UInt64.toNat_sub_of_le _ _ (UInt64.le_of_lt hgt)] at hn
    omega
  · have hzero : UInt64.toNat 0 = 0 := rfl
    omega

theorem total_pos {t : UInt64} (h : t ≠ 0) : 0 < t.toNat :=
  Nat.pos_of_ne_zero fun h0 => h (UInt64.toNat_inj.mp h0)

theorem plan_tx_agg_empty (h : ls = [] ∨ lim.bulk_size = 0) : plan_tx_agg ls lim = {} := by
  unfold plan_tx_agg
  rw [if_pos (h.imp_left List.length_eq_zero_iff.mpr)]

/-- Every plan is a plan of a prefix, and its total is no multiple of the bulk size. -/
theorem lays_plan (hfit : NoWrap lim ls) (hbulk : ¬ lim.bulk_size.toNat ∣ 8) :
    ∃ k ≤ ls.length, Lays lim (ls.take k) (plan_tx_agg ls lim) ∧
      ¬ ((plan_tx_agg ls lim).total ≠ 0 ∧
        lim.bulk_size.toNat ∣ (plan_tx_agg ls lim).total.toNat) := by
  by_cases hgo : ls = [] ∨ lim.bulk_size = 0
  · rw [plan_tx_agg_empty hgo]
    refine ⟨0, Nat.zero_le _, ⟨rfl, rfl, Nat.zero_le _, Nat.zero_le _⟩, ?_⟩
    rintro ⟨hpos, -⟩
    exact hpos rfl
  · rw [not_or] at hgo
    obtain ⟨k, hk, hlays, hcap⟩ := lays_planned lim hfit
    refine ⟨k, hk, ?_⟩
    rw [plan_tx_agg_eq hgo.2 hgo.1]
    split
    · rename_i hmultiple
      obtain ⟨hflip, htotal⟩ := lays_flip hlays hmultiple.1 fun hshim =>
        cap_room hshim (total_pos hmultiple.1) hcap
      refine ⟨hflip, ?_⟩
      rintro ⟨-, hafter⟩
      have hbefore : lim.bulk_size.toNat ∣ (planned lim ls).total.toNat := by
        apply Nat.dvd_of_mod_eq_zero
        rw [← UInt64.toNat_mod, hmultiple.2]
        rfl
      -- both totals are multiples, and so are the eight bytes between them
      apply hbulk
      rcases htotal with htotal | htotal
      · rw [htotal] at hbefore
        exact (Nat.dvd_add_right hafter).mp hbefore
      · rw [htotal] at hafter
        exact (Nat.dvd_add_right hbefore).mp hafter
    · rename_i hmultiple
      refine ⟨hlays, ?_⟩
      rintro ⟨hpos, hdvd⟩
      apply hmultiple
      refine ⟨hpos, ?_⟩
      rw [← UInt64.toNat_inj, UInt64.toNat_mod]
      exact Nat.mod_eq_zero_of_dvd hdvd

/-! ## One plan after another -/

/-- The caller plans what is left, until a plan is empty: the frames of each plan, and what is
left. -/
def replan (lim : TxAggLimits) (ls : List UInt64) : List (List UInt64) × List UInt64 :=
  let k := (plan_tx_agg ls lim).blocks.length
  if k = 0 ∨ ls = [] then ([], ls)
  else
    let r := replan lim (ls.drop k)
    (ls.take k :: r.1, r.2)
termination_by ls.length
decreasing_by
  rename_i h
  rw [not_or] at h
  have hpos := List.length_pos_iff.mpr h.2
  rw [List.length_drop]
  omega

/-- Nothing is left out, doubled or moved. -/
theorem replan_covers (lim : TxAggLimits) (ls : List UInt64) :
    (replan lim ls).1.flatten ++ (replan lim ls).2 = ls := by
  induction ls using replan.induct lim with
  | case1 ls k h =>
    rw [replan, if_pos h]
    rfl
  | case2 ls k h ih =>
    rw [replan, if_neg h]
    show (ls.take k :: (replan lim (ls.drop k)).1).flatten ++ (replan lim (ls.drop k)).2 = ls
    rw [List.flatten_cons, List.append_assoc, ih, List.take_append_drop]

/-- The frames that are left reach no further. -/
theorem NoWrap.drop (hfit : NoWrap lim ls) (k : ℕ) : NoWrap lim (ls.drop k) := by
  intro l hl
  have hroom := hfit l (List.mem_of_mem_drop hl)
  have hle : reach lim (ls.drop k) ≤ reach lim ls := by
    apply min_le_min_left
    apply Nat.add_le_add_right
    conv_rhs => rw [← List.take_append_drop k ls, List.map_append, List.sum_append]
    exact Nat.le_add_left _ _
  omega

/-- A first frame that fits is taken. -/
theorem first_too_long {l : UInt64} (hbulk : lim.bulk_size ≠ 0) (hfit : NoWrap lim (l :: ls))
    (hnone : (plan_tx_agg (l :: ls) lim).blocks.length = 0) :
    (cap lim).toNat <
      lim.desc_size.toNat + l.toNat + if lim.first_reserve then 8 else 0 := by
  have hroom := hfit l List.mem_cons_self
  have hstart := packs_start lim lim.bulk_size
  have hzero : UInt64.toNat 0 = 0 := rfl
  have hempty : (pack lim (l :: ls) { bulk_ptr := lim.bulk_size }).blocks.length = 0 := by
    rw [plan_tx_agg_eq hbulk (List.cons_ne_nil l ls)] at hnone
    split at hnone
    · rw [flip_length] at hnone
      exact hnone
    · exact hnone
  rcases pack_cons lim l ls { bulk_ptr := lim.bulk_size } with
    ⟨hcap, -⟩ | ⟨hcap, t, hblocks, htail, hnext, hgo⟩
  · have hbelow : lim.desc_size.toNat + l.toNat + UInt64.toNat 0 + 15 < 2 ^ 64 := by omega
    have hgt := UInt64.lt_iff_toNat_lt.mp hcap
    rw [next_add_toNat hstart hbelow, blockSize_toNat hstart hbelow] at hgt
    simpa [hzero] using hgt
  · exfalso
    have hpush := packs_push hstart hroom hcap hblocks htail hnext
    rcases hgo with hstop | ⟨hmore, hgo⟩
    · rw [hstop, hpush.length] at hempty
      simp at hempty
    · obtain ⟨k, -, hpacks, -⟩ :=
        packs_pack hpush (fun x hx => hfit x (List.mem_cons_of_mem l hx)) (Or.inr hmore)
      rw [hgo, hpacks.length] at hempty
      simp at hempty

theorem replan_stops (hbulk : lim.bulk_size ≠ 0) (hfit : NoWrap lim ls) :
    (replan lim ls).2 = [] ∨ ∃ l rest, (replan lim ls).2 = l :: rest ∧
      (cap lim).toNat < lim.desc_size.toNat + l.toNat + if lim.first_reserve then 8 else 0 := by
  induction ls using replan.induct lim with
  | case1 ls k h =>
    rw [replan, if_pos h]
    cases ls with
    | nil => exact Or.inl rfl
    | cons l rest =>
      refine Or.inr ⟨l, rest, rfl, ?_⟩
      exact first_too_long hbulk hfit (h.resolve_right (List.cons_ne_nil l rest))
  | case2 ls k h ih =>
    rw [replan, if_neg h]
    exact ih (hfit.drop k)

/-! ## What a plan is -/

/-- A plan of these frames: blocks in order from 0 on, each aligned and close behind the last, with
the reserve in the first just where the plan has it. -/
structure LaidOut (lim : TxAggLimits) (taken : List UInt64) (p : TxAggPlan) : Prop where
  lengths : p.blocks.map (·.length.toNat) = sizes lim.desc_size.toNat p.shim taken
  aligned : ∀ b ∈ p.blocks, 8 ∣ b.offset.toNat
  first : ∀ b ∈ p.blocks.head?, b.offset = 0
  follows : p.blocks.IsChain fun b c =>
    b.offset.toNat + b.length.toNat ≤ c.offset.toNat ∧
      c.offset.toNat < b.offset.toNat + b.length.toNat + 8
  total : p.total.toNat =
    (p.blocks.getLast?.map fun b => b.offset.toNat + b.length.toNat).getD 0
  le : p.total.toNat ≤ lim.max_bytes.toNat
  count : p.blocks.length ≤ max 1 lim.max_frames.toNat

theorem Lays.laidOut {p : TxAggPlan} (h : Lays lim done p) : LaidOut lim done p where
  lengths := by
    have hsnd := congrArg (List.map Prod.snd) h.blocks
    rw [Layout.map_snd_place, extents, List.map_map] at hsnd
    exact hsnd
  aligned b hb := by
    have hmem : (b.offset.toNat, b.length.toNat) ∈ extents p.blocks :=
      List.mem_map_of_mem (f := fun b : TxAggBlock => (b.offset.toNat, b.length.toNat)) hb
    rw [h.blocks] at hmem
    exact Layout.dvd_of_mem_place (by decide) (dvd_zero 8) hmem
  first b hb := by
    have hblocks := h.blocks
    cases hp : p.blocks with
    | nil => simp [hp] at hb
    | cons c cs =>
      rw [hp, List.head?_cons] at hb
      obtain rfl : c = b := Option.some.inj hb
      rw [hp] at hblocks
      cases hs : sizes lim.desc_size.toNat p.shim done with
      | nil => rw [hs] at hblocks; cases hblocks
      | cons n ns =>
        rw [hs] at hblocks
        have hzero : c.offset.toNat = 0 := congrArg Prod.fst (List.cons.inj hblocks).1
        exact UInt64.toNat_inj.mp hzero
  follows := by
    have hchain := Layout.place_follows (a := 8) (by decide) 0
      (sizes lim.desc_size.toNat p.shim done)
    rw [← h.blocks, extents, List.isChain_map] at hchain
    exact hchain
  total := by
    rw [h.total, Layout.stop, extents, List.getLast?_map, Option.map_map]
    rfl
  le := h.le
  count := h.count

/-- Where the byte counts do not wrap, a plan lays out a prefix of the frames under the limits and
never ends on a bulk boundary, and the plans of what is left after it cover the frames in order, up
to one that is too long by itself. -/
theorem plans_are_laid_out (lim : TxAggLimits) (frame_lens : List UInt64)
    (hfit : NoWrap lim frame_lens) (hbulk : ¬ lim.bulk_size.toNat ∣ 8) :
    (∃ k ≤ frame_lens.length, LaidOut lim (frame_lens.take k) (plan_tx_agg frame_lens lim)) ∧
    ¬ ((plan_tx_agg frame_lens lim).total ≠ 0 ∧
      lim.bulk_size.toNat ∣ (plan_tx_agg frame_lens lim).total.toNat) ∧
    (replan lim frame_lens).1.flatten ++ (replan lim frame_lens).2 = frame_lens ∧
    (lim.bulk_size ≠ 0 → (replan lim frame_lens).2 = [] ∨
      ∃ l rest, (replan lim frame_lens).2 = l :: rest ∧
        (cap lim).toNat <
          lim.desc_size.toNat + l.toNat + if lim.first_reserve then 8 else 0) := by
  obtain ⟨k, hk, hlays, hmultiple⟩ := lays_plan hfit hbulk
  refine ⟨⟨k, hk, hlays.laidOut⟩, hmultiple, replan_covers lim frame_lens, ?_⟩
  intro hne
  exact replan_stops hne hfit

/-- Three frames without the reserve would end on a bulk boundary, so the first block gets it. -/
theorem three_frames_are_laid_out :
    let p := plan_tx_agg [100, 200, 64] {}
    p.blocks = [⟨0, 156⟩, ⟨160, 248⟩, ⟨408, 112⟩] ∧ p.total = 520 ∧
      ∃ k ≤ 3, LaidOut {} ([100, 200, 64].take k) p := by
  intro p
  have hfit : NoWrap {} [100, 200, 64] := by
    intro l hl
    simp only [List.mem_cons, List.not_mem_nil, or_false] at hl
    rcases hl with rfl | rfl | rfl
    · decide
    · decide
    · decide
  obtain ⟨hlaid, -⟩ := plans_are_laid_out {} [100, 200, 64] hfit (by decide)
  exact ⟨by decide +kernel, by decide +kernel, hlaid⟩

/-- Without a bulk size nothing is planned, though 0 does not divide 8 and the frame fits; and a
length near the end of the range wraps, so that its block is empty. -/
theorem a_frame_that_fits_is_not_planned :
    (¬ UInt64.toNat 0 ∣ 8 ∧ (plan_tx_agg [100] { bulk_size := 0 }).blocks = [] ∧
      (replan { bulk_size := 0 } [100]).2 = [100] ∧
      48 + 100 ≤ (cap { bulk_size := 0 }).toNat) ∧
    (¬ UInt64.toNat 512 ∣ 8 ∧
      (plan_tx_agg [18446744073709551568] {}).blocks = [⟨0, 0⟩] ∧
      UInt64.toNat 0 ≠ 48 + UInt64.toNat 18446744073709551568) := by
  have hempty : (plan_tx_agg [100] { bulk_size := 0 }).blocks = [] := by decide +kernel
  refine ⟨⟨by decide, hempty, ?_, by decide⟩, by decide, by decide +kernel, by decide⟩
  rw [replan, if_pos (Or.inl (by rw [hempty]; rfl))]

end devourer
