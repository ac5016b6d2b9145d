-- Packets that come in segments, of which the first and the last are marked: what is to
-- be delivered of them, and where two readers part that deliver it.
import Mathlib.Data.List.Perm.Basic
import Mathlib.Data.Nat.Notation

namespace Segments

/-- A segment. One that is not good is not to be used. -/
structure Segment (α : Type*) where
  good : Bool
  first : Bool
  last : Bool
  data : List α
  deriving DecidableEq

variable {α : Type*}

namespace Segment

def whole (x : Segment α) : Bool := x.good && x.first && x.last
def begins (x : Segment α) : Bool := x.good && x.first && !x.last
def continues (x : Segment α) : Bool := x.good && !x.first && !x.last
def ends (x : Segment α) : Bool := x.good && !x.first && x.last

end Segment

/-- The segment at a place is of some kind. -/
def At (xs : List (Segment α)) (k : ℕ) (kind : Segment α → Bool) : Prop :=
  ∃ x, xs[k]? = some x ∧ kind x = true

/-! ## What is to be delivered -/

/-- Good segments in a row, the first of which alone is marked first, and the last last. -/
structure IsRun (xs : List (Segment α)) (i j : ℕ) : Prop where
  le : i ≤ j
  lt : j < xs.length
  marks : ∀ k x, i ≤ k → k ≤ j → xs[k]? = some x →
    x.good = true ∧ (x.first = true ↔ k = i) ∧ (x.last = true ↔ k = j)

/-- What the segments from `i` to `j` bring. -/
def payload (xs : List (Segment α)) (i j : ℕ) : List α :=
  ((xs.take (j + 1)).drop i).flatMap Segment.data

/-- Each run is delivered once, in order, and nothing else. -/
def Delivers (xs : List (Segment α)) (out : List (List α)) : Prop :=
  ∃ runs : List (ℕ × ℕ), runs.Pairwise (fun r s => r.2 < s.2) ∧
    (∀ i j, (i, j) ∈ runs ↔ IsRun xs i j) ∧ out = runs.map fun r => payload xs r.1 r.2

/-! ## Packets under way -/

/-- The packet that begins at `i` is the one that is held at the end. -/
def Held (xs : List (Segment α)) (i : ℕ) : Prop :=
  At xs i Segment.begins ∧
    ∀ k, i < k → k < xs.length → ¬ At xs k Segment.begins ∧ ¬ At xs k Segment.ends

/-- Each segment since `i` belongs to its packet. -/
def Unbroken (xs : List (Segment α)) (i : ℕ) : Prop :=
  ∀ k, i < k → k < xs.length → At xs k Segment.continues

/-- The packet that begins at `i` has come as far as its segments go. -/
def Grows (xs : List (Segment α)) (i : ℕ) : Prop := At xs i Segment.begins ∧ Unbroken xs i

/-- A last segment comes to a packet that something else came into. -/
def Splices (xs : List (Segment α)) : Prop :=
  ∃ j, At xs j Segment.ends ∧ ∃ i, Held (xs.take j) i ∧ ¬ Unbroken (xs.take j) i

section

variable {xs : List (Segment α)} {x : Segment α} {i j k : ℕ} {kind : Segment α → Bool}

theorem At.lt (h : At xs k kind) : k < xs.length := by
  obtain ⟨x, hx, -⟩ := h
  exact (List.getElem?_eq_some_iff.mp hx).1

theorem at_append : At (xs ++ [x]) k kind ↔ At xs k kind ∨ (k = xs.length ∧ kind x = true) := by
  constructor
  · rintro ⟨y, hy, hkind⟩
    rcases Nat.lt_trichotomy k xs.length with h | h | h
    · rw [List.getElem?_append_left h] at hy
      exact .inl ⟨y, hy, hkind⟩
    · rw [h, List.getElem?_concat_length] at hy
      obtain rfl := Option.some.inj hy
      exact .inr ⟨h, hkind⟩
    · rw [List.getElem?_eq_none (by simp; omega)] at hy
      cases hy
  · rintro (⟨y, hy, hkind⟩ | ⟨rfl, hkind⟩)
    · have hlt := (List.getElem?_eq_some_iff.mp hy).1
      exact ⟨y, by rw [List.getElem?_append_left hlt, hy], hkind⟩
    · exact ⟨x, List.getElem?_concat_length, hkind⟩

theorem at_last : At (xs ++ [x]) xs.length kind ↔ kind x = true := by
  rw [at_append]
  constructor
  · rintro (h | ⟨-, h⟩)
    · exact absurd h.lt (Nat.lt_irrefl _)
    · exact h
  · exact fun h => .inr ⟨rfl, h⟩

theorem at_before (h : k < xs.length) : At (xs ++ [x]) k kind ↔ At xs k kind := by
  rw [at_append]
  exact or_iff_left fun hk => absurd hk.1 (Nat.ne_of_lt h)

/-! ### One more segment -/

theorem unbroken_append (hi : i < xs.length) :
    Unbroken (xs ++ [x]) i ↔ Unbroken xs i ∧ x.continues = true := by
  constructor
  · intro h
    constructor
    · intro k hik hk
      exact (at_before hk).mp (h k hik (by simp; omega))
    · exact at_last.mp (h xs.length hi (by simp))
  · rintro ⟨h, hx⟩ k hik hk
    rcases Nat.lt_or_eq_of_le (Nat.le_of_lt_succ (by simpa using hk)) with hlt | rfl
    · exact (at_before hlt).mpr (h k hik hlt)
    · exact at_last.mpr hx

theorem held_append : Held (xs ++ [x]) i ↔
    (Held xs i ∧ x.begins = false ∧ x.ends = false) ∨ (i = xs.length ∧ x.begins = true) := by
  constructor
  · rintro ⟨hi, hrest⟩
    rcases at_append.mp hi with hi | ⟨rfl, hx⟩
    · have hlast := hrest xs.length hi.lt (by simp)
      rw [at_last, at_last, Bool.not_eq_true, Bool.not_eq_true] at hlast
      refine .inl ⟨⟨hi, ?_⟩, hlast⟩
      intro k hik hk
      have h := hrest k hik (by simp; omega)
      rwa [at_before hk, at_before hk] at h
    · exact .inr ⟨rfl, hx⟩
  · rintro (⟨⟨hi, hrest⟩, hbegins, hends⟩ | ⟨rfl, hx⟩)
    · refine ⟨(at_before hi.lt).mpr hi, ?_⟩
      intro k hik hk
      rcases Nat.lt_or_eq_of_le (Nat.le_of_lt_succ (by simpa using hk)) with hlt | rfl
      · rw [at_before hlt, at_before hlt]
        exact hrest k hik hlt
      · simp [at_last, hbegins, hends]
    · refine ⟨at_last.mpr hx, ?_⟩
      intro k hik hk
      have hk : k < xs.length + 1 := by simpa using hk
      omega

/-- Only one packet is held. -/
theorem Held.unique (hi : Held xs i) (hj : Held xs j) : i = j := by
  rcases Nat.lt_trichotomy i j with h | h | h
  · exact absurd hj.1 (hi.2 j h hj.1.lt).1
  · exact h
  · exact absurd hi.1 (hj.2 i h hi.1.lt).1

theorem splices_append : Splices (xs ++ [x]) ↔
    Splices xs ∨ (x.ends = true ∧ ∃ i, Held xs i ∧ ¬ Unbroken xs i) := by
  constructor
  · rintro ⟨j, hj, i, hi⟩
    rcases at_append.mp hj with hj | ⟨rfl, hx⟩
    · rw [List.take_append_of_le_length (Nat.le_of_lt hj.lt)] at hi
      exact .inl ⟨j, hj, i, hi⟩
    · rw [List.take_left] at hi
      exact .inr ⟨hx, i, hi⟩
  · rintro (⟨j, hj, i, hi⟩ | ⟨hx, i, hi⟩)
    · refine ⟨j, (at_before hj.lt).mpr hj, i, ?_⟩
      rwa [List.take_append_of_le_length (Nat.le_of_lt hj.lt)]
    · refine ⟨xs.length, at_last.mpr hx, i, ?_⟩
      rwa [List.take_left]

/-! ### Runs -/

theorem getElem?_before (h : k < xs.length) : (xs ++ [x])[k]? = xs[k]? :=
  List.getElem?_append_left h

theorem unbroken_self (x : Segment α) : Unbroken (xs ++ [x]) xs.length := by
  intro k hik hk
  have hk : k < xs.length + 1 := by simpa using hk
  omega

theorem isRun_before (hj : j < xs.length) : IsRun (xs ++ [x]) i j ↔ IsRun xs i j := by
  constructor
  · intro h
    refine ⟨h.le, hj, ?_⟩
    intro k y hik hkj hy
    exact h.marks k y hik hkj (by rw [getElem?_before (by omega), hy])
  · intro h
    refine ⟨h.le, by simp; omega, ?_⟩
    intro k y hik hkj hy
    rw [getElem?_before (by omega)] at hy
    exact h.marks k y hik hkj hy

/-- The run that a segment ends: it is a packet of its own, or the last of one. -/
theorem isRun_last : IsRun (xs ++ [x]) i xs.length ↔
    (i = xs.length ∧ x.whole = true) ∨
      (x.ends = true ∧ Grows xs i) := by
  constructor
  · intro h
    have hx := h.marks xs.length x h.le (Nat.le_refl _) List.getElem?_concat_length
    rcases Nat.lt_or_eq_of_le h.le with hlt | rfl
    · right
      refine ⟨?_, ?_, ?_⟩
      · have hnot : x.first = false := by
          rw [← Bool.not_eq_true, hx.2.1]
          omega
        simp [Segment.ends, hx.1, hnot, hx.2.2.mpr rfl]
      · obtain ⟨y, hy⟩ : ∃ y, xs[i]? = some y := ⟨xs[i], List.getElem?_eq_getElem hlt⟩
        have hm := h.marks i y (Nat.le_refl _) h.le (by rw [getElem?_before hlt, hy])
        have hnot : y.last = false := by
          rw [← Bool.not_eq_true, hm.2.2]
          omega
        exact ⟨y, hy, by simp [Segment.begins, hm.1, hnot, hm.2.1.mpr rfl]⟩
      · intro k hik hk
        obtain ⟨y, hy⟩ : ∃ y, xs[k]? = some y := ⟨xs[k], List.getElem?_eq_getElem hk⟩
        have hm := h.marks k y (by omega) (by omega) (by rw [getElem?_before hk, hy])
        have hfirst : y.first = false := by
          rw [← Bool.not_eq_true, hm.2.1]
          omega
        have hlast : y.last = false := by
          rw [← Bool.not_eq_true, hm.2.2]
          omega
        exact ⟨y, hy, by simp [Segment.continues, hm.1, hfirst, hlast]⟩
    · exact .inl ⟨rfl, by simp [Segment.whole, hx.1, hx.2.1.mpr rfl, hx.2.2.mpr rfl]⟩
  · rintro (⟨rfl, hx⟩ | ⟨hx, hi, hrest⟩)
    · refine ⟨Nat.le_refl _, by simp, ?_⟩
      intro k y hik hkj hy
      obtain rfl : k = xs.length := Nat.le_antisymm hkj hik
      rw [List.getElem?_concat_length] at hy
      obtain rfl := Option.some.inj hy
      simp only [Segment.whole, Bool.and_eq_true] at hx
      exact ⟨hx.1.1, by simp [hx.1.2], by simp [hx.2]⟩
    · refine ⟨Nat.le_of_lt hi.lt, by simp, ?_⟩
      intro k y hik hkj hy
      rcases Nat.lt_or_eq_of_le hkj with hk | rfl
      · rw [getElem?_before hk] at hy
        rcases Nat.lt_or_eq_of_le hik with hlt | rfl
        · obtain ⟨z, hz, hkind⟩ := hrest k hlt hk
          obtain rfl : z = y := Option.some.inj (hz.symm.trans hy)
          simp only [Segment.continues, Bool.and_eq_true, Bool.not_eq_true'] at hkind
          exact ⟨hkind.1.1, by simp [hkind.1.2]; omega, by simp [hkind.2]; omega⟩
        · obtain ⟨z, hz, hkind⟩ := hi
          obtain rfl : z = y := Option.some.inj (hz.symm.trans hy)
          simp only [Segment.begins, Bool.and_eq_true, Bool.not_eq_true'] at hkind
          exact ⟨hkind.1.1, by simp [hkind.1.2], by simp [hkind.2]; omega⟩
      · rw [List.getElem?_concat_length] at hy
        obtain rfl := Option.some.inj hy
        simp only [Segment.ends, Bool.and_eq_true, Bool.not_eq_true'] at hx
        have hlt := hi.lt
        exact ⟨hx.1.1, by simp [hx.1.2]; omega, by simp [hx.2]⟩

theorem IsRun.unique {i' : ℕ} (h : IsRun xs i j) (h' : IsRun xs i' j) : i = i' := by
  have hle := h.le
  have hle' := h'.le
  have hlt := h.lt
  -- at the later of the two beginnings stands a first segment of both
  have hget : ∀ k (hk : k ≤ j), xs[k]? = some (xs.get ⟨k, by omega⟩) :=
    fun k hk => List.getElem?_eq_getElem (by omega)
  rcases Nat.le_total i i' with hi | hi
  · have hm := (h.marks _ _ hi hle' (hget i' hle')).2.1
    have hm' := (h'.marks _ _ (Nat.le_refl _) hle' (hget i' hle')).2.1
    exact (hm.mp (hm'.mpr rfl)).symm
  · have hm := (h.marks _ _ (Nat.le_refl _) hle (hget i hle)).2.1
    have hm' := (h'.marks _ _ hi hle (hget i hle)).2.1
    exact hm'.mp (hm.mpr rfl)

theorem payload_before (hj : j < xs.length) : payload (xs ++ [x]) i j = payload xs i j := by
  unfold payload
  rw [List.take_append_of_le_length (by omega)]

/-! ### Deliveries -/

theorem Delivers.keep {out : List (List α)} (h : Delivers xs out)
    (hno : ∀ i, ¬ IsRun (xs ++ [x]) i xs.length) : Delivers (xs ++ [x]) out := by
  obtain ⟨runs, hsorted, hmem, rfl⟩ := h
  refine ⟨runs, hsorted, ?_, ?_⟩
  · intro i j
    rw [hmem]
    constructor
    · exact fun hrun => (isRun_before hrun.lt).mpr hrun
    · intro hrun
      have hne : j ≠ xs.length := fun heq => hno i (heq ▸ hrun)
      have hlt : j < xs.length + 1 := by simpa using hrun.lt
      exact (isRun_before (by omega)).mp hrun
  · apply List.map_congr_left
    rintro ⟨i, j⟩ hr
    exact (payload_before ((hmem i j).mp hr).lt).symm

theorem Delivers.deliver {out : List (List α)} (h : Delivers xs out)
    (hi : IsRun (xs ++ [x]) i xs.length) :
    Delivers (xs ++ [x]) (out ++ [payload (xs ++ [x]) i xs.length]) := by
  obtain ⟨runs, hsorted, hmem, rfl⟩ := h
  refine ⟨runs ++ [(i, xs.length)], ?_, ?_, ?_⟩
  · rw [List.pairwise_append]
    refine ⟨hsorted, List.pairwise_singleton .., ?_⟩
    rintro ⟨i', j'⟩ hr r hlast
    obtain rfl := List.mem_singleton.mp hlast
    exact ((hmem i' j').mp hr).lt
  · intro i' j'
    rw [List.mem_append, List.mem_singleton, hmem, Prod.mk.injEq]
    constructor
    · rintro (hrun | ⟨rfl, rfl⟩)
      · exact (isRun_before hrun.lt).mpr hrun
      · exact hi
    · intro hrun
      have hlt : j' < xs.length + 1 := by simpa using hrun.lt
      rcases Nat.lt_or_eq_of_le (Nat.le_of_lt_succ hlt) with hj | rfl
      · exact .inl ((isRun_before hj).mp hrun)
      · exact .inr ⟨hrun.unique hi, rfl⟩
  · rw [List.map_append, List.map_singleton]
    congr 1
    apply List.map_congr_left
    rintro ⟨i', j'⟩ hr
    exact (payload_before ((hmem i' j').mp hr).lt).symm

/-- There is one way to deliver what is to be delivered. -/
theorem Delivers.unique {out out' : List (List α)} (h : Delivers xs out) (h' : Delivers xs out') :
    out = out' := by
  obtain ⟨runs, hsorted, hmem, rfl⟩ := h
  obtain ⟨runs', hsorted', hmem', rfl⟩ := h'
  have hnodup : ∀ {l : List (ℕ × ℕ)}, l.Pairwise (fun r s => r.2 < s.2) → l.Nodup := by
    intro l hl
    apply hl.imp
    rintro r s hrs rfl
    exact Nat.lt_irrefl _ hrs
  have hperm : runs.Perm runs' := by
    apply (List.perm_ext_iff_of_nodup (hnodup hsorted) (hnodup hsorted')).mpr
    rintro ⟨i, j⟩
    rw [hmem, hmem']
  have heq : runs = runs' := by
    apply List.Perm.eq_of_pairwise _ hsorted hsorted' hperm
    intro r s _ _ hrs hsr
    exact absurd hrs (Nat.lt_asymm hsr)
  rw [heq]

end

end Segments
