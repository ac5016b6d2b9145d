-- The schedule under an adaptive hopset: the channels in play, in an order of
-- their own for each round from the activation on.
import Devourer.HopSchedule
import Devourer.Hopset.HopsetState

namespace devourer.hopset

open HopSchedule (Returns shuffled limit)

/-- The keys that are derived from the master seed, each for its own use. -/
structure HopsetKeys where
  master : HopSchedule.Key
  sched : HopSchedule.Key
  ctrl : HopSchedule.Key

namespace HopsetKeys

def pack (lo hi : UInt64) : HopSchedule.Key :=
  ⟨Wire.putLe 8 lo.toBitVec ++ Wire.putLe 8 hi.toBitVec, by simp⟩

/-- `devourer-hopset-` and two more letters. -/
def tag (a b : UInt8) : Bytes :=
  [0x64, 0x65, 0x76, 0x6f, 0x75, 0x72, 0x65, 0x72, 0x2d, 0x68, 0x6f, 0x70, 0x73, 0x65, 0x74, 0x2d,
    a, b]

def derive (master : HopSchedule.Key) : HopsetKeys where
  master := master
  sched := pack (HopSchedule.siphash24 master (tag 0x73 0x30))
    (HopSchedule.siphash24 master (tag 0x73 0x31))
  ctrl := pack (HopSchedule.siphash24 master (tag 0x63 0x30))
    (HopSchedule.siphash24 master (tag 0x63 0x31))

def mac (keys : HopsetKeys) (p : Bytes) : UInt64 := HopSchedule.siphash24 keys.ctrl p

end HopsetKeys

/-- The lookup over a base that does not change. A view of a base that is too large, or empty, is
not built. -/
structure AdaptiveScheduleView where
  base_ : HopSchedule
  keys_ : HopsetKeys
  st_ : HopsetState := {}
  n_ : UInt64
  /-- How many rounds share one probe. 0 is for none. -/
  probe_period_ : UInt32 := 0
  in_range : ¬ (n_ = 0 ∨ n_ > kMaxBaseChannels)

namespace AdaptiveScheduleView

def make (base : HopSchedule) (keys : HopsetKeys) (n_base : UInt64) :
    Except String AdaptiveScheduleView :=
  if h : n_base = 0 ∨ n_base > kMaxBaseChannels then throw "base hopset size out of range"
  else pure { base_ := base, keys_ := keys, n_ := n_base, in_range := h }

def set_state (v : AdaptiveScheduleView) (st : HopsetState) : AdaptiveScheduleView :=
  { v with st_ := st }

def set_probe_period (v : AdaptiveScheduleView) (rounds : UInt32) : AdaptiveScheduleView :=
  { v with probe_period_ := rounds }

/-- The tag `A`, the generation, the mask, the round and the counter. -/
def word (v : AdaptiveScheduleView) (round counter : UInt64) : UInt64 :=
  HopSchedule.siphash24 v.keys_.sched
    (0x41 :: (Wire.putLe 4 v.st_.generation.toBitVec ++ Wire.putLe 8 v.st_.active_mask.toBitVec ++
      Wire.putLe 8 round.toBitVec ++ Wire.putLe 8 counter.toBitVec))

def permutation (v : AdaptiveScheduleView) (round k : UInt64) : Option (Array ℕ) :=
  shuffled v.word round k

/-- The lookup, by any words for the generations past the first; the code asks `v.word`. -/
def channel_index_by (word : UInt64 → UInt64 → UInt64) (v : AdaptiveScheduleView) (slot : UInt64) :
    Returns ℕ :=
  if v.st_.generation = 0 then v.base_.channel_index slot v.n_
  else
    let k := (popcount64 v.st_.active_mask).toUInt64
    if k = 0 then throw "empty active mask"
    else
      let rel := slot - v.st_.activate_slot
      if k = 1 then ExceptT.mk (some (nth_set_bit v.st_.active_mask 0))
      else do
        let p ← (shuffled word (rel / k) k : Option (Array ℕ))
        ExceptT.mk (some (nth_set_bit v.st_.active_mask (p.getD (rel % k).toNat 0)))

def channel_index (v : AdaptiveScheduleView) (slot : UInt64) : Returns ℕ :=
  channel_index_by v.word v slot

end AdaptiveScheduleView

/-! ## Rounds -/

/-- A shuffle is a permutation of the positions. -/
theorem shuffled_perm {word : UInt64 → UInt64 → UInt64} {round n : UInt64} {p : Array ℕ}
    (h : shuffled word round n = some p) : p.toList.Perm (List.range n.toNat) := by
  have hperm := Array.perm_iff_toList_perm.mp (Shuffle.shuffle_perm h)
  rwa [Array.toList_range] at hperm

/-- Read from its first place to its last, a list gives its entries. -/
theorem map_getD_range (l : List ℕ) : (List.range l.length).map (fun i => l.getD i 0) = l := by
  apply List.ext_getElem
  · simp
  · intro i hi hi'
    rw [List.getElem_map, List.getElem_range, List.getD_eq_getElem _ _ hi']

theorem map_getD_eq {p : Array ℕ} {n : ℕ} (h : p.toList.Perm (List.range n)) :
    (List.range n).map (fun i => p.getD i 0) = p.toList := by
  have hlen : p.toList.length = n := by rw [h.length_eq, List.length_range]
  have hget : ∀ i, p.getD i 0 = p.toList.getD i 0 := by
    intro i
    rw [Array.getD_eq_getD_getElem?, List.getD_eq_getElem?_getD, Array.getElem?_toList]
  simp only [hget, ← hlen]
  exact map_getD_range p.toList

/-- The round and the place of a slot, counted from the first slot of the schedule. -/
theorem slot_split {n : UInt64} {r i : ℕ} (hi : i < n.toNat) (hr : (r + 1) * n.toNat ≤ 2 ^ 64) :
    UInt64.ofNat (r * n.toNat + i) / n = UInt64.ofNat r ∧
      (UInt64.ofNat (r * n.toNat + i) % n).toNat = i := by
  have hlt : r * n.toNat + i < 2 ^ 64 := by
    rw [Nat.add_mul, Nat.one_mul] at hr
    omega
  have hto : (UInt64.ofNat (r * n.toNat + i)).toNat = r * n.toNat + i :=
    UInt64.toNat_ofNat_of_lt' hlt
  have hrlt : r < 2 ^ 64 := by
    have hone : r * 1 ≤ r * n.toNat := Nat.mul_le_mul_left r (by omega)
    omega
  constructor
  · rw [← UInt64.toNat_inj, UInt64.toNat_div, hto, UInt64.toNat_ofNat_of_lt' hrlt, Nat.mul_comm,
      Nat.mul_add_div (by omega), Nat.div_eq_of_lt hi, Nat.add_zero]
  · rw [UInt64.toNat_mod, hto, Nat.mul_comm, Nat.mul_add_mod, Nat.mod_eq_of_lt hi]

/-- The counter comes round to every word. -/
theorem iterate_counter (i : ℕ) (c : UInt64) :
    (fun c : UInt64 => c + 1)^[i] c = c + UInt64.ofNat i := by
  induction i generalizing c with
  | zero => simp
  | succ i ih =>
    rw [Function.iterate_succ_apply, ih, UInt64.ofNat_add, UInt64.add_assoc,
      UInt64.add_comm 1]
    rfl

theorem kWords_eq : HopSchedule.kWords = 2 ^ 64 := by decide

/-- A rejection loop does not end exactly when it takes none of the words that there are. -/
theorem draw_eq_none_iff (word : UInt64 → UInt64) (bound counter : UInt64) :
    HopSchedule.draw word bound counter = none ↔ ∀ c, limit bound ≤ word c := by
  unfold HopSchedule.draw
  rw [Option.map_eq_none_iff, Shuffle.draw_eq_none_iff, kWords_eq]
  constructor
  · intro h c
    have hc := h (c - counter).toNat (c - counter).toNat_lt
    rw [iterate_counter, UInt64.ofNat_toNat, decide_eq_false_iff_not, UInt64.not_lt,
      UInt64.add_comm, UInt64.sub_add_cancel] at hc
    exact hc
  · intro h i _
    rw [decide_eq_false_iff_not, UInt64.not_lt]
    exact h _

/-- The sequential schedule takes the channels in turn, and a keyed one by its shuffle. -/
theorem channel_index_by_slot {word : UInt64 → UInt64 → UInt64} {s : HopSchedule} {n : UInt64}
    {r i : ℕ} {p : Array ℕ} (hi : i < n.toNat) (hr : (r + 1) * n.toNat ≤ 2 ^ 64)
    (hp : s.sequential_ = false → shuffled word (UInt64.ofNat r) n = some p) :
    s.channel_index_by word (UInt64.ofNat (r * n.toNat + i)) n =
      pure (if s.sequential_ then i else p.getD i 0) := by
  obtain ⟨hround, hplace⟩ := slot_split hi hr
  have hn : n ≠ 0 := by
    rintro rfl
    exact absurd hi (Nat.not_lt_zero i)
  unfold HopSchedule.channel_index_by
  rw [if_neg hn, hround, hplace]
  by_cases hseq : s.sequential_
  · rw [if_pos hseq, if_pos hseq]
  · rw [if_neg hseq, if_neg hseq, hp (by simpa using hseq)]
    rfl

/-- A round of the fixed schedule is a permutation of the base. -/
theorem round_perm {word : UInt64 → UInt64 → UInt64} {s : HopSchedule} {n : UInt64} {r : ℕ}
    (hr : (r + 1) * n.toNat ≤ 2 ^ 64)
    (hends : s.sequential_ = true ∨ shuffled word (UInt64.ofNat r) n ≠ none) :
    ((List.range n.toNat).map fun i =>
        s.channel_index_by word (UInt64.ofNat (r * n.toNat + i)) n).Perm
      ((List.range n.toNat).map pure) := by
  by_cases hseq : s.sequential_
  · have hslots : ∀ i ∈ List.range n.toNat,
        s.channel_index_by word (UInt64.ofNat (r * n.toNat + i)) n = pure i := by
      intro i hi
      rw [channel_index_by_slot (p := #[]) (List.mem_range.mp hi) hr (by simp [hseq]), if_pos hseq]
    rw [List.map_congr_left hslots]
  · obtain ⟨p, hp⟩ := Option.ne_none_iff_exists'.mp (hends.resolve_left hseq)
    have hperm := shuffled_perm hp
    have hslots : ∀ i ∈ List.range n.toNat,
        s.channel_index_by word (UInt64.ofNat (r * n.toNat + i)) n = pure (p.getD i 0) := by
      intro i hi
      rw [channel_index_by_slot (List.mem_range.mp hi) hr fun _ => hp, if_neg hseq]
    rw [List.map_congr_left hslots]
    have hmap := hperm.map (pure : ℕ → Returns ℕ)
    rw [← map_getD_eq hperm, List.map_map] at hmap
    exact hmap

/-- The slots of a round, counted from the activation. -/
theorem sub_activate (anchor : UInt64) (m : ℕ) :
    UInt64.ofNat (anchor.toNat + m) - anchor = UInt64.ofNat m := by
  rw [UInt64.ofNat_add, UInt64.ofNat_toNat, UInt64.add_comm, UInt64.add_sub_cancel]

/-- A mask within the base has its bits among the base's positions. -/
theorem lt_two_pow_of_and_not {mask n : UInt64} (hn : n ≤ 64) (h : mask &&& ~~~(full_mask n) = 0) :
    mask.toNat < 2 ^ n.toNat := by
  have hle := UInt64.le_iff_toNat_le.mp (le_of_and_not h)
  rw [full_mask_toNat hn] at hle
  have hpos : 0 < 2 ^ n.toNat := Nat.two_pow_pos _
  omega

namespace AdaptiveScheduleView

variable {word : UInt64 → UInt64 → UInt64} {v : AdaptiveScheduleView} {r i : ℕ}

/-- The number of channels in play, as the lookup counts them. -/
theorem popcount64_wide (mask : UInt64) :
    (popcount64 mask).toUInt64.toNat = (popcount64 mask).toNat := UInt32.toNat_toUInt64 _

/-- In a generation past the first a slot has the channel that the shuffle of its round names. -/
theorem channel_index_by_slot {k : ℕ} {p : Array ℕ} (hgen : v.st_.generation ≠ 0)
    (hk : (popcount64 v.st_.active_mask).toNat = k) (hi : i < k)
    (hr : v.st_.activate_slot.toNat + (r + 1) * k ≤ 2 ^ 64)
    (hp : shuffled word (UInt64.ofNat r) (popcount64 v.st_.active_mask).toUInt64 = some p) :
    v.channel_index_by word (UInt64.ofNat (v.st_.activate_slot.toNat + (r * k + i))) =
      ExceptT.mk (some (nth_set_bit v.st_.active_mask (p.getD i 0))) := by
  have hwide := popcount64_wide v.st_.active_mask
  rw [hk] at hwide
  have hkne : (popcount64 v.st_.active_mask).toUInt64 ≠ 0 := by
    intro h
    rw [h] at hwide
    exact absurd hi (by rw [← hwide]; exact Nat.not_lt_zero i)
  have hsplit := slot_split (n := (popcount64 v.st_.active_mask).toUInt64) (r := r) (i := i)
    (by omega) (by rw [hwide]; omega)
  rw [hwide] at hsplit
  obtain ⟨hround, hplace⟩ := hsplit
  unfold channel_index_by
  rw [if_neg hgen]
  dsimp only
  rw [if_neg hkne, sub_activate, hround, hplace]
  split
  · -- one channel is in play, and no shuffle is asked
    rename_i hone
    have hk1 : k = 1 := by rw [← hwide, hone]; rfl
    have hperm := shuffled_perm hp
    rw [hwide, hk1, List.range_one, List.perm_singleton] at hperm
    have hp0 : p.getD i 0 = 0 := by
      obtain rfl : i = 0 := by omega
      obtain rfl : p = #[0] := Array.toList_inj.mp hperm
      rfl
    rw [hp0]
  · rw [hp]
    rfl

/-- The bit that the shuffle names for a slot. -/
theorem channel_index_by_bit {k : ℕ} {p : Array ℕ} (hgen : v.st_.generation ≠ 0)
    (hk : (popcount64 v.st_.active_mask).toNat = k) (hi : i < k)
    (hr : v.st_.activate_slot.toNat + (r + 1) * k ≤ 2 ^ 64)
    (hp : shuffled word (UInt64.ofNat r) (popcount64 v.st_.active_mask).toUInt64 = some p) :
    v.channel_index_by word (UInt64.ofNat (v.st_.activate_slot.toNat + (r * k + i))) =
      pure ((Bits.positions 64 v.st_.active_mask.toNat).getD (p.getD i 0) 0) := by
  have hperm := shuffled_perm hp
  rw [popcount64_wide, hk] at hperm
  have hmem : p.getD i 0 ∈ List.range k := by
    apply hperm.mem_iff.mp
    rw [← map_getD_eq hperm]
    exact List.mem_map_of_mem (List.mem_range.mpr hi)
  have hlt : p.getD i 0 < (Bits.positions 64 v.st_.active_mask.toNat).length := by
    rw [Bits.length_positions v.st_.active_mask.toNat_lt, ← popcount64_eq, hk]
    exact List.mem_range.mp hmem
  rw [channel_index_by_slot hgen hk hi hr hp, nth_set_bit_eq hlt, List.getD_eq_getElem _ _ hlt]
  rfl

/-- A round of a later generation visits each channel of the mask once. -/
theorem adaptive_round_perm {k : ℕ} (hgen : v.st_.generation ≠ 0)
    (hmask : v.st_.active_mask &&& ~~~(full_mask v.n_) = 0)
    (hk : (popcount64 v.st_.active_mask).toNat = k)
    (hr : v.st_.activate_slot.toNat + (r + 1) * k ≤ 2 ^ 64)
    (hends : shuffled word (UInt64.ofNat r) (UInt64.ofNat k) ≠ none) :
    ((List.range k).map fun i =>
        v.channel_index_by word (UInt64.ofNat (v.st_.activate_slot.toNat + (r * k + i)))).Perm
      ((Bits.positions v.n_.toNat v.st_.active_mask.toNat).map pure) := by
  have hwide := popcount64_wide v.st_.active_mask
  rw [hk] at hwide
  rw [← hwide, UInt64.ofNat_toNat] at hends
  obtain ⟨p, hp⟩ := Option.ne_none_iff_exists'.mp hends
  have hperm := shuffled_perm hp
  rw [hwide] at hperm
  have h64 : v.st_.active_mask.toNat < 2 ^ 64 := v.st_.active_mask.toNat_lt
  have hlen : (Bits.positions 64 v.st_.active_mask.toNat).length = k := by
    rw [Bits.length_positions h64, ← popcount64_eq, hk]
  have hn : v.n_ ≤ 64 := UInt64.not_lt.mp fun h => v.in_range (Or.inr h)
  have hbase := (Bits.positions_perm (lt_two_pow_of_and_not hn hmask)).trans
    (Bits.positions_perm h64).symm
  have hslots : ∀ i ∈ List.range k,
      v.channel_index_by word (UInt64.ofNat (v.st_.activate_slot.toNat + (r * k + i))) =
        pure ((Bits.positions 64 v.st_.active_mask.toNat).getD (p.getD i 0) 0) := by
    intro i hi
    exact channel_index_by_bit hgen hk (List.mem_range.mp hi) hr hp
  rw [List.map_congr_left hslots]
  have hvisit := hperm.map fun j => (Bits.positions 64 v.st_.active_mask.toNat).getD j 0
  rw [← map_getD_eq hperm, List.map_map, ← hlen, map_getD_range, hlen] at hvisit
  have hall := (hvisit.trans hbase.symm).map (pure : ℕ → Returns ℕ)
  rwa [List.map_map] at hall

end AdaptiveScheduleView

/-- The limit of a draw is a multiple of its bound. -/
theorem dvd_limit (bound : UInt64) : bound.toNat ∣ (limit bound).toNat := by
  have hmax : UInt64.toNat 0xFFFFFFFFFFFFFFFF = 18446744073709551615 := rfl
  have hle : (0xFFFFFFFFFFFFFFFF : UInt64) % bound ≤ 0xFFFFFFFFFFFFFFFF := by
    rw [UInt64.le_iff_toNat_le, UInt64.toNat_mod]
    exact Nat.mod_le _ _
  rw [limit, UInt64.toNat_sub_of_le _ _ hle, UInt64.toNat_mod, hmax]
  exact Nat.dvd_sub_mod _

/-- Each round visits each of its channels once: whatever the words are, as long as the rejection
loops end, the slots of a round have the channels of the mask in some order, those of the fixed
schedule have the whole base, and no residue is favoured among the draws that are accepted. -/
theorem each_round_visits_every_channel :
    (∀ (word : UInt64 → UInt64 → UInt64) (v : AdaptiveScheduleView) (r : ℕ),
      let k := (popcount64 v.st_.active_mask).toNat
      v.st_.generation ≥ 1 → v.st_.active_mask &&& ~~~(full_mask v.n_) = 0 → 1 ≤ k →
      v.st_.activate_slot.toNat + (r + 1) * k ≤ 2 ^ 64 →
      shuffled word (UInt64.ofNat r) (UInt64.ofNat k) ≠ none →
      ((List.range k).map fun i =>
          v.channel_index_by word (UInt64.ofNat (v.st_.activate_slot.toNat + (r * k + i)))).Perm
        ((Bits.positions v.n_.toNat v.st_.active_mask.toNat).map pure)) ∧
    (∀ (word : UInt64 → UInt64 → UInt64) (s : HopSchedule) (n : UInt64) (r : ℕ),
      1 ≤ n → (r + 1) * n.toNat ≤ 2 ^ 64 →
      s.sequential_ = true ∨ shuffled word (UInt64.ofNat r) n ≠ none →
      ((List.range n.toNat).map fun i =>
          s.channel_index_by word (UInt64.ofNat (r * n.toNat + i)) n).Perm
        ((List.range n.toNat).map pure)) ∧
    (∀ bound j : UInt64, j < bound →
      (limit bound).toNat.count (· % bound.toNat = j.toNat) =
        (limit bound).toNat / bound.toNat) := by
  refine ⟨?_, ?_, ?_⟩
  · intro word v r k hgen hmask _ hr hends
    have hgen' : v.st_.generation ≠ 0 := by
      intro h
      rw [h] at hgen
      exact absurd hgen (by decide)
    exact v.adaptive_round_perm hgen' hmask rfl hr hends
  · intro word s n r _ hr hends
    exact round_perm hr hends
  · intro bound j hj
    have hlt := UInt64.lt_iff_toNat_lt.mp hj
    exact Shuffle.residues_even (by omega) (dvd_limit bound) hlt

/-- Three of five channels in play, under the words of a real key. -/
def demoView : AdaptiveScheduleView where
  base_ := .sequential
  keys_ := .derive (Octets.zero 16)
  st_ := { generation := 1, active_mask := 11, activate_slot := 100 }
  n_ := 5
  in_range := by decide

theorem a_round_of_three :
    ((List.range 3).map fun i => demoView.channel_index (UInt64.ofNat (100 + (2 * 3 + i)))).Perm
      ([0, 1, 3].map pure) := by
  have hcount : (popcount64 demoView.st_.active_mask).toNat = 3 := by decide +kernel
  have hends : shuffled demoView.word (UInt64.ofNat 2)
      (UInt64.ofNat (popcount64 demoView.st_.active_mask).toNat) ≠ none :=
    Option.isSome_iff_ne_none.mp (by decide +kernel)
  have h := each_round_visits_every_channel.1 demoView.word demoView 2 (by decide) (by decide)
    (by rw [hcount]; decide) (by rw [hcount]; decide) hends
  rw [hcount] at h
  exact h

end devourer.hopset
