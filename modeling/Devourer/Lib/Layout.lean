-- Blocks laid one after another, each from the next aligned place on: where
-- they start and end, and what a longer first block does to the rest.
import Mathlib.Data.Finset.Max
import Mathlib.Data.List.Chain
import Mathlib.Order.Interval.Finset.Nat
import Mathlib.Tactic.Ring

namespace Layout

/-- The least multiple of `a` from `x` on. -/
def alignUp (a x : ℕ) : ℕ := (x + (a - 1)) / a * a

/-- Blocks of these sizes from `o` on, each with its start. -/
def place (a : ℕ) : ℕ → List ℕ → List (ℕ × ℕ)
  | _, [] => []
  | o, b :: bs => (o, b) :: place a (alignUp a (o + b)) bs

/-- Where the block after these would start. -/
def next (a : ℕ) : ℕ → List ℕ → ℕ
  | o, [] => o
  | o, b :: bs => next a (alignUp a (o + b)) bs

/-- The end of the last block, or 0. -/
def stop (ps : List (ℕ × ℕ)) : ℕ := (ps.getLast?.map fun p => p.1 + p.2).getD 0

/-- A block starts at most `a - 1` after the one before it ends, and not before. -/
def Follows (a : ℕ) (p q : ℕ × ℕ) : Prop := p.1 + p.2 ≤ q.1 ∧ q.1 < p.1 + p.2 + a

variable {a : ℕ}

theorem alignUp_spec (ha : 0 < a) (x : ℕ) :
    a ∣ alignUp a x ∧ x ≤ alignUp a x ∧ alignUp a x < x + a := by
  have hdiv := Nat.div_add_mod (x + (a - 1)) a
  have hmod := Nat.mod_lt (x + (a - 1)) ha
  have hcomm : (x + (a - 1)) / a * a = a * ((x + (a - 1)) / a) := Nat.mul_comm _ _
  refine ⟨Nat.dvd_mul_left _ _, ?_, ?_⟩
  · rw [alignUp, hcomm]
    omega
  · rw [alignUp, hcomm]
    omega

/-- There is one multiple of `a` so close behind `x`. -/
theorem alignUp_eq {o x : ℕ} (hdvd : a ∣ o) (hle : x ≤ o) (hlt : o < x + a) : alignUp a x = o := by
  obtain ⟨hdvd', hle', hlt'⟩ := alignUp_spec (show 0 < a by omega) x
  rcases Nat.lt_trichotomy (alignUp a x) o with h | h | h
  · have hgap := Nat.le_of_dvd (Nat.sub_pos_of_lt h) (Nat.dvd_sub hdvd hdvd')
    omega
  · exact h
  · have hgap := Nat.le_of_dvd (Nat.sub_pos_of_lt h) (Nat.dvd_sub hdvd' hdvd)
    omega

theorem alignUp_add (ha : 0 < a) (x : ℕ) : alignUp a (x + a) = alignUp a x + a := by
  have hsum : x + a + (a - 1) = x + (a - 1) + a := by omega
  rw [alignUp, alignUp, hsum, Nat.add_div_right _ ha, Nat.succ_mul]

theorem alignUp_add_left {o : ℕ} (ho : a ∣ o) (ha : 0 < a) (x : ℕ) :
    alignUp a (o + x) = o + alignUp a x := by
  obtain ⟨hdvd, hle, hlt⟩ := alignUp_spec ha x
  exact alignUp_eq (Nat.dvd_add ho hdvd) (by omega) (by omega)

theorem map_snd_place (o : ℕ) (bs : List ℕ) : (place a o bs).map Prod.snd = bs := by
  induction bs generalizing o with
  | nil => rfl
  | cons b bs ih =>
    rw [place, List.map_cons, ih]

theorem length_place (o : ℕ) (bs : List ℕ) : (place a o bs).length = bs.length := by
  rw [← List.length_map (f := Prod.snd), map_snd_place]

theorem place_snoc (o : ℕ) (bs : List ℕ) (b : ℕ) :
    place a o (bs ++ [b]) = place a o bs ++ [(next a o bs, b)] := by
  induction bs generalizing o with
  | nil => rfl
  | cons c bs ih =>
    rw [List.cons_append, place, ih]
    rfl

/-- Each block starts behind those before it. -/
theorem map_fst_place (o : ℕ) (bs : List ℕ) :
    (place a o bs).map Prod.fst = (List.range bs.length).map fun i => next a o (bs.take i) := by
  induction bs generalizing o with
  | nil => rfl
  | cons b bs ih =>
    rw [place, List.map_cons, ih, List.length_cons, List.range_succ_eq_map, List.map_cons,
      List.map_map]
    rfl

/-- Behind an aligned start each block takes its own aligned size. -/
theorem next_eq_sum (ha : 0 < a) {o : ℕ} (ho : a ∣ o) (bs : List ℕ) :
    next a o bs = o + (bs.map (alignUp a)).sum := by
  induction bs generalizing o with
  | nil => rfl
  | cons b bs ih =>
    rw [next, ih (alignUp_spec ha _).1, alignUp_add_left ho ha, List.map_cons, List.sum_cons]
    omega

theorem dvd_sum_alignUp (ha : 0 < a) (bs : List ℕ) : a ∣ (bs.map (alignUp a)).sum := by
  induction bs with
  | nil => exact dvd_zero a
  | cons b bs ih => exact Nat.dvd_add (alignUp_spec ha b).1 ih

theorem next_snoc (o : ℕ) (bs : List ℕ) (b : ℕ) :
    next a o (bs ++ [b]) = alignUp a (next a o bs + b) := by
  induction bs generalizing o with
  | nil => rfl
  | cons c bs ih => exact ih _

theorem stop_snoc (o : ℕ) (bs : List ℕ) (b : ℕ) :
    stop (place a o (bs ++ [b])) = next a o bs + b := by
  rw [place_snoc, stop, List.getLast?_concat]
  rfl

theorem dvd_of_mem_place (ha : 0 < a) {o : ℕ} (ho : a ∣ o) {bs : List ℕ} {p : ℕ × ℕ}
    (h : p ∈ place a o bs) : a ∣ p.1 := by
  induction bs generalizing o with
  | nil => cases h
  | cons b bs ih =>
    rcases List.mem_cons.mp h with rfl | h
    · exact ho
    · exact ih (alignUp_spec ha _).1 h

theorem place_follows (ha : 0 < a) (o : ℕ) (bs : List ℕ) : (place a o bs).IsChain (Follows a) := by
  induction bs generalizing o with
  | nil => exact List.IsChain.nil
  | cons b bs ih =>
    cases bs with
    | nil => exact List.IsChain.singleton _
    | cons c bs =>
      have hrest := ih (alignUp a (o + b))
      obtain ⟨-, hle, hlt⟩ := alignUp_spec ha (o + b)
      exact List.isChain_cons_cons.mpr ⟨⟨hle, hlt⟩, hrest⟩

theorem start_le_next (ha : 0 < a) (o : ℕ) (bs : List ℕ) : o ≤ next a o bs := by
  induction bs generalizing o with
  | nil => exact le_rfl
  | cons b bs ih =>
    have hle := (alignUp_spec ha (o + b)).2.1
    have hnext := ih (alignUp a (o + b))
    rw [next]
    omega

theorem start_le_of_mem (ha : 0 < a) {o : ℕ} {bs : List ℕ} {p : ℕ × ℕ} (h : p ∈ place a o bs) :
    o ≤ p.1 := by
  induction bs generalizing o with
  | nil => cases h
  | cons b bs ih =>
    rcases List.mem_cons.mp h with rfl | h
    · exact le_rfl
    · have hle := (alignUp_spec ha (o + b)).2.1
      have hrest := ih h
      omega

/-- What the blocks take at most, with the gaps between them. -/
theorem stop_le (ha : 0 < a) (o : ℕ) (bs : List ℕ) :
    stop (place a o bs) ≤ o + (bs.map (· + (a - 1))).sum := by
  have hnext : ∀ (bs : List ℕ) (o : ℕ), next a o bs ≤ o + (bs.map (· + (a - 1))).sum := by
    intro bs
    induction bs with
    | nil => exact fun o => Nat.le_add_right _ _
    | cons b bs ih =>
      intro o
      have hlt := (alignUp_spec ha (o + b)).2.2
      have hrest := ih (alignUp a (o + b))
      rw [next, List.map_cons, List.sum_cons]
      omega
  cases bs using List.reverseRecOn with
  | nil => exact Nat.zero_le _
  | append_singleton bs b =>
    have hbefore := hnext bs o
    rw [stop_snoc, List.map_append, List.sum_append, List.map_singleton, List.sum_singleton]
    omega

/-- Each block ends where the last does, or before. -/
theorem end_le_stop (ha : 0 < a) {o : ℕ} {bs : List ℕ} {p : ℕ × ℕ} (h : p ∈ place a o bs) :
    p.1 + p.2 ≤ stop (place a o bs) := by
  have hnext : ∀ (bs : List ℕ) (o : ℕ), ∀ p ∈ place a o bs, p.1 + p.2 ≤ next a o bs := by
    intro bs
    induction bs with
    | nil => intro o p hp; cases hp
    | cons b bs ih =>
      intro o p hp
      rcases List.mem_cons.mp hp with rfl | hp
      · exact le_trans (alignUp_spec ha _).2.1 (start_le_next ha _ bs)
      · exact ih _ p hp
  induction bs using List.reverseRecOn with
  | nil => cases h
  | append_singleton bs b _ =>
    rw [stop_snoc]
    rw [place_snoc] at h
    rcases List.mem_append.mp h with h | h
    · exact le_trans (hnext bs o p h) (Nat.le_add_right _ _)
    · rw [List.mem_singleton.mp h]

/-- A start that is one alignment later moves every block by as much. -/
theorem place_add (ha : 0 < a) (o : ℕ) (bs : List ℕ) :
    place a (o + a) bs = (place a o bs).map fun p => (p.1 + a, p.2) := by
  induction bs generalizing o with
  | nil => rfl
  | cons b bs ih =>
    have hsum : o + a + b = o + b + a := by omega
    rw [place, hsum, alignUp_add ha, ih]
    rfl

/-- A first block that is one alignment longer, with the rest moved by as much. -/
def bump (a : ℕ) : List (ℕ × ℕ) → List (ℕ × ℕ)
  | [] => []
  | (o, b) :: ps => (o, b + a) :: ps.map fun p => (p.1 + a, p.2)

theorem place_bump (ha : 0 < a) (o b : ℕ) (bs : List ℕ) :
    place a o ((b + a) :: bs) = bump a (place a o (b :: bs)) := by
  rw [place, place, bump, ← Nat.add_assoc, alignUp_add ha, place_add ha]

theorem stop_bump {ps : List (ℕ × ℕ)} (h : ps ≠ []) : stop (bump a ps) = stop ps + a := by
  obtain ⟨⟨o, b⟩, rest, rfl⟩ := List.exists_cons_of_ne_nil h
  cases rest using List.reverseRecOn with
  | nil => simp [bump, stop, Nat.add_assoc]
  | append_singleton rest p _ =>
    rw [bump, List.map_append, ← List.cons_append, ← List.cons_append, stop, stop,
      List.map_singleton, List.getLast?_concat, List.getLast?_concat]
    simp only [Option.map_some, Option.getD_some]
    omega

/-! ## Windows -/

/-- How many of these offsets are in window `k` of `B` bytes. -/
def inWindow (B k : ℕ) (os : List ℕ) : ℕ := os.countP fun o => k * B ≤ o ∧ o < (k + 1) * B

variable {B k : ℕ} {os : List ℕ}

theorem inWindow_snoc (B k : ℕ) (os : List ℕ) (o : ℕ) :
    inWindow B k (os ++ [o]) =
      inWindow B k os + if k * B ≤ o ∧ o < (k + 1) * B then 1 else 0 := by
  unfold inWindow
  rw [List.countP_append, List.countP_singleton]
  simp only [decide_eq_true_eq]

/-- Nothing is in a window that comes after all the offsets. -/
theorem inWindow_past (h : ∀ o ∈ os, o < k * B) : inWindow B k os = 0 := by
  unfold inWindow
  rw [List.countP_eq_zero]
  intro o ho
  have hlt := h o ho
  simp only [decide_eq_true_eq]
  omega

/-- Two places are in different windows just where an edge lies between them. -/
theorem div_lt_div_iff (hB : 0 < B) {x y : ℕ} : x / B < y / B ↔ ∃ k, x < k * B ∧ k * B ≤ y := by
  constructor
  · intro h
    exact ⟨y / B, (Nat.div_lt_iff_lt_mul hB).mp h, Nat.div_mul_le_self y B⟩
  · rintro ⟨k, hx, hy⟩
    have hlt := (Nat.div_lt_iff_lt_mul hB).mpr hx
    have hle := (Nat.le_div_iff_mul_le hB).mpr hy
    omega

theorem inWindow_range (hB : 0 < B) (f : ℕ → ℕ) (n k : ℕ) :
    inWindow B k ((List.range n).map f) = ((Finset.range n).filter fun i => f i / B = k).card := by
  unfold inWindow
  rw [List.countP_map, List.countP_eq_length_filter]
  have hwindow : ∀ i, (decide (k * B ≤ f i ∧ f i < (k + 1) * B)) = decide (f i / B = k) := by
    intro i
    rw [decide_eq_decide]
    constructor
    · exact fun h => Nat.div_eq_of_lt_le h.1 h.2
    · rintro rfl
      refine ⟨Nat.div_mul_le_self _ _, ?_⟩
      exact (Nat.div_lt_iff_lt_mul hB).mp (Nat.lt_succ_self _)
  simp only [Function.comp_def, hwindow]
  rfl

/-- No window has more than `D` of these places if no `D + 1` in a row are in one. -/
theorem inWindow_le_iff (hB : 0 < B) {f : ℕ → ℕ} (hf : Monotone f) (n D : ℕ) :
    (∀ k, inWindow B k ((List.range n).map f) ≤ D) ↔
      ∀ i, D ≤ i → i < n → f (i - D) / B < f i / B := by
  simp only [inWindow_range hB]
  constructor
  · intro h i hD hi
    by_contra hsame
    have heq : f (i - D) / B = f i / B :=
      le_antisymm (Nat.div_le_div_right (hf (Nat.sub_le i D))) (Nat.le_of_not_lt hsame)
    have hsub : Finset.Icc (i - D) i ⊆ (Finset.range n).filter fun j => f j / B = f i / B := by
      intro j hj
      obtain ⟨hlow, hhigh⟩ := Finset.mem_Icc.mp hj
      have hge := Nat.div_le_div_right (c := B) (hf hlow)
      have hle := Nat.div_le_div_right (c := B) (hf hhigh)
      exact Finset.mem_filter.mpr ⟨Finset.mem_range.mpr (by omega), by omega⟩
    have hcard := Finset.card_le_card hsub
    rw [Nat.card_Icc] at hcard
    have hle := h (f i / B)
    omega
  · intro h k
    by_contra hmany
    set S := (Finset.range n).filter fun i => f i / B = k with hS
    have hne : S.Nonempty := Finset.card_pos.mp (by omega)
    obtain ⟨hlow, hlowk⟩ := Finset.mem_filter.mp (S.min'_mem hne)
    obtain ⟨hhigh, hhighk⟩ := Finset.mem_filter.mp (S.max'_mem hne)
    have hsub : S ⊆ Finset.Icc (S.min' hne) (S.max' hne) := fun i hi =>
      Finset.mem_Icc.mpr ⟨S.min'_le i hi, S.le_max' i hi⟩
    have hcard := Finset.card_le_card hsub
    rw [Nat.card_Icc] at hcard
    -- the place that is `D` behind the first of the window is still in it
    have hlast := Finset.mem_range.mp hhigh
    have hnext := h (S.min' hne + D) (Nat.le_add_left _ _) (by omega)
    rw [Nat.add_sub_cancel] at hnext
    have hle := Nat.div_le_div_right (c := B) (hf (show S.min' hne + D ≤ S.max' hne by omega))
    omega

/-- Of two multiples the lower is at least one step behind. -/
theorem add_le_of_dvd {x y : ℕ} (hx : a ∣ x) (hy : a ∣ y) (hlt : x < y) : x + a ≤ y :=
  Nat.add_le_of_le_sub' hlt.le (Nat.le_of_dvd (Nat.sub_pos_of_lt hlt) (Nat.dvd_sub hy hx))

/-- Two places in different windows come into one when the later goes back by one alignment, from an
edge, and the windows between them are not more than one. -/
theorem together_back (hB : 0 < B) (haB : a ∣ B) {x y e : ℕ} (hy : a ∣ y)
    (h : (x + e) / B < (y + a) / B) : ¬ x / B < y / B ↔ B ∣ y + a ∧ y + a ≤ x + B := by
  obtain ⟨k, hlow, hhigh⟩ := (div_lt_div_iff hB).mp h
  rw [div_lt_div_iff hB]
  constructor
  · intro hno
    have hpast : y < k * B := Nat.lt_of_not_le fun hle => hno ⟨k, by omega, hle⟩
    have hedge : k * B = y + a :=
      le_antisymm hhigh (add_le_of_dvd hy (haB.mul_left k) hpast)
    refine ⟨⟨k, by rw [← hedge, Nat.mul_comm]⟩, ?_⟩
    by_contra hfar
    obtain ⟨j, rfl⟩ : ∃ j, k = j + 1 := Nat.exists_eq_succ_of_ne_zero (by
      rintro rfl
      omega)
    have hstep := Nat.add_one_mul j B
    have hle := Nat.le_of_dvd hB haB
    exact hno ⟨j, by omega, by omega⟩
  · rintro ⟨⟨j, hj⟩, hnear⟩ ⟨m, hx, hm⟩
    rw [Nat.mul_comm] at hj
    have hlt : m * B < j * B := by
      have hpos := Nat.pos_of_dvd_of_pos haB hB
      omega
    have hstep := Nat.mul_le_mul_right B (Nat.lt_of_mul_lt_mul_right hlt)
    have hsucc := Nat.add_one_mul m B
    simp only [Nat.succ_eq_add_one] at hstep
    omega

/-- They come into one when both go on by one alignment, the first to an edge. -/
theorem together_on (hB : 0 < B) (haB : a ∣ B) {x y : ℕ} (hx : a ∣ x) (hy : a ∣ y)
    (h : x / B < y / B) : ¬ (x + a) / B < (y + a) / B ↔ B ∣ x + a ∧ y + a ≤ x + B := by
  obtain ⟨k, hlow, hhigh⟩ := (div_lt_div_iff hB).mp h
  have hpos := Nat.pos_of_dvd_of_pos haB hB
  rw [div_lt_div_iff hB]
  constructor
  · intro hno
    have hreached : k * B ≤ x + a := Nat.le_of_not_lt fun hlt => hno ⟨k, hlt, by omega⟩
    have hedge : k * B = x + a :=
      le_antisymm hreached (add_le_of_dvd hx (haB.mul_left k) hlow)
    refine ⟨⟨k, by rw [← hedge, Nat.mul_comm]⟩, ?_⟩
    have hstep := Nat.add_one_mul k B
    have hshort : y + a < (k + 1) * B :=
      Nat.lt_of_not_le fun hle => hno ⟨k + 1, by omega, hle⟩
    have hgap := add_le_of_dvd (Nat.dvd_add hy (dvd_refl a)) (haB.mul_left (k + 1)) hshort
    omega
  · rintro ⟨⟨j, hj⟩, hnear⟩ ⟨m, hm, hle⟩
    rw [Nat.mul_comm] at hj
    have hlt : j * B < m * B := by omega
    have hstep := Nat.mul_le_mul_right B (Nat.lt_of_mul_lt_mul_right hlt)
    have hsucc := Nat.add_one_mul j B
    simp only [Nat.succ_eq_add_one] at hstep
    omega

end Layout
