-- A set of numbers as the bits of a list of words, and what setting, clearing
-- and counting do to the set.
import Mathlib.Data.List.Basic
import Mathlib.Data.List.GetD
import Mathlib.Data.Set.Card

namespace Bitmap

variable {w : ℕ}

/-- Bit `i % w` of word `i / w`. A bit past the last word is clear. -/
def get (b : List (BitVec w)) (i : ℕ) : Bool := (b.getD (i / w) 0#w).getLsbD (i % w)

def set (b : List (BitVec w)) (i : ℕ) : List (BitVec w) := b.modify (i / w) (· ||| 1#w <<< (i % w))

def clear (b : List (BitVec w)) (i : ℕ) : List (BitVec w) :=
  b.modify (i / w) (· &&& ~~~(1#w <<< (i % w)))

variable {b : List (BitVec w)} {i j : ℕ}

@[simp] theorem length_set : (set b i).length = b.length := List.length_modify _ _ _

@[simp] theorem length_clear : (clear b i).length = b.length := List.length_modify _ _ _

/-- The one bit of `1 << k`. -/
theorem getLsbD_one_shiftLeft {k n : ℕ} (hk : k < w) :
    (1#w <<< k).getLsbD n = decide (n = k) := by
  rw [BitVec.getLsbD_shiftLeft, BitVec.getLsbD_one]
  by_cases h : n = k
  · subst h
    simp [hk]
    omega
  · simp only [h, decide_false, Bool.and_eq_false_iff, decide_eq_false_iff_not,
      Bool.not_eq_eq_eq_not, Bool.not_false]
    by_contra hall
    simp only [not_or, decide_eq_true_eq] at hall
    omega

/-- A place is a word and a bit of it. -/
theorem place_inj (h : i / w = j / w) (h' : i % w = j % w) : i = j := by
  rw [← Nat.div_add_mod i w, ← Nat.div_add_mod j w, h, h']

theorem get_modify (f : BitVec w → BitVec w) (h : i / w < b.length) :
    ((b.modify (i / w) f).getD (j / w) 0#w) =
      if i / w = j / w then f (b.getD (j / w) 0#w) else b.getD (j / w) 0#w := by
  rw [List.getD_eq_getElem?_getD, List.getD_eq_getElem?_getD, List.getElem?_modify]
  split
  · rename_i heq
    rw [← heq, List.getElem?_eq_getElem h]
    rfl
  · simp

theorem get_set (hw : 0 < w) (h : i / w < b.length) :
    get (set b i) j = (decide (i = j) || get b j) := by
  unfold get set
  rw [get_modify _ h]
  split
  · rename_i hword
    rw [BitVec.getLsbD_or, getLsbD_one_shiftLeft (Nat.mod_lt i hw), Bool.or_comm]
    congr 1
    by_cases hij : i = j
    · simp [hij]
    · have hmod : j % w ≠ i % w := fun hm => hij (place_inj hword hm.symm)
      simp [hij, hmod]
  · rename_i hword
    have hij : i ≠ j := fun hij => hword (by rw [hij])
    simp [hij]

theorem get_clear (hw : 0 < w) (h : i / w < b.length) :
    get (clear b i) j = (!decide (i = j) && get b j) := by
  unfold get clear
  rw [get_modify _ h]
  split
  · rename_i hword
    rw [BitVec.getLsbD_and, BitVec.getLsbD_not, getLsbD_one_shiftLeft (Nat.mod_lt i hw),
      Bool.and_comm]
    congr 1
    by_cases hij : i = j
    · simp [hij]
    · have hmod : j % w ≠ i % w := fun hm => hij (place_inj hword hm.symm)
      simp [hij, hmod, Nat.mod_lt j hw]
  · rename_i hword
    have hij : i ≠ j := fun hij => hword (by rw [hij])
    simp [hij]

theorem get_replicate (n : ℕ) : get (List.replicate n 0#w) i = false := by
  unfold get
  rw [List.getD_eq_getElem?_getD, List.getElem?_replicate]
  split
  · simp
  · simp

/-- More words that are clear hold nothing. -/
theorem get_append_zeros (n : ℕ) : get (b ++ List.replicate n 0#w) i = get b i := by
  unfold get
  congr 1
  rw [List.getD_eq_getElem?_getD, List.getD_eq_getElem?_getD, List.getElem?_append]
  split
  · rfl
  · rename_i h
    rw [List.getElem?_replicate, List.getElem?_eq_none (by omega)]
    split
    · rfl
    · rfl

theorem get_append_left (c : List (BitVec w)) (h : i / w < b.length) :
    get (b ++ c) i = get b i := by
  unfold get
  rw [List.getD_append _ _ _ _ h]

/-- Only a place within the words can be set. -/
theorem lt_of_get (hw : 0 < w) (h : get b i = true) : i < b.length * w := by
  by_contra hge
  have hle : b.length ≤ i / w := (Nat.le_div_iff_mul_le hw).mpr (by omega)
  rw [get, List.getD_eq_getElem?_getD, List.getElem?_eq_none hle] at h
  simp at h

theorem get_finite (hw : 0 < w) (b : List (BitVec w)) : {i | get b i = true}.Finite :=
  (Set.finite_lt_nat (b.length * w)).subset fun _ h => lt_of_get hw h

/-! ## Many bits at once -/

/-- Set a list of places. -/
theorem get_foldl_set (hw : 0 < w) {is : List ℕ} (h : ∀ i ∈ is, i / w < b.length) :
    get (is.foldl set b) j = (decide (j ∈ is) || get b j) := by
  induction is generalizing b with
  | nil => simp
  | cons i is ih =>
    rw [List.foldl_cons, ih (fun k hk => by rw [length_set]; exact h k (by simp [hk])),
      get_set hw (h i (by simp))]
    by_cases hji : j = i
    · simp [hji]
    · have hij : i ≠ j := fun hij => hji hij.symm
      simp [hji, hij]

/-- Set a list of places, and count those that were clear. -/
def learn (b : List (BitVec w)) (is : List ℕ) : List (BitVec w) × ℕ :=
  is.foldl (fun r i => if get r.1 i then r else (set r.1 i, r.2 + 1)) (b, 0)

theorem learn_snoc (is : List ℕ) :
    learn b (is ++ [i]) =
      if get (learn b is).1 i then learn b is
      else (set (learn b is).1 i, (learn b is).2 + 1) := by
  unfold learn
  rw [List.foldl_append]
  rfl

theorem length_learn (is : List ℕ) : (learn b is).1.length = b.length := by
  induction is using List.reverseRecOn with
  | nil => rfl
  | append_singleton is i ih =>
    rw [learn_snoc]
    split
    · exact ih
    · rw [length_set, ih]

theorem get_learn (hw : 0 < w) {is : List ℕ} (h : ∀ i ∈ is, i / w < b.length) :
    get (learn b is).1 j = (decide (j ∈ is) || get b j) := by
  induction is using List.reverseRecOn with
  | nil => simp [learn]
  | append_singleton is i ih =>
    have hget := ih fun k hk => h k (by simp [hk])
    have hin : i / w < (learn b is).1.length := by
      rw [length_learn]
      exact h i (by simp)
    rw [learn_snoc]
    by_cases hji : j = i
    · subst hji
      split
      · rename_i hj
        simp [hj]
      · rw [get_set hw hin]
        simp
    · have hij : i ≠ j := fun hij => hji hij.symm
      split
      · simp [hget, hji]
      · rw [get_set hw hin, hget]
        simp [hji, hij]

/-- The places that are set are as many as were set before and were counted. -/
theorem ncard_learn (hw : 0 < w) {is : List ℕ} (h : ∀ i ∈ is, i / w < b.length) :
    {j | get (learn b is).1 j = true}.ncard = {j | get b j = true}.ncard + (learn b is).2 := by
  induction is using List.reverseRecOn with
  | nil => rfl
  | append_singleton is i ih =>
    have hcount := ih fun k hk => h k (by simp [hk])
    have hin : i / w < (learn b is).1.length := by
      rw [length_learn]
      exact h i (by simp)
    rw [learn_snoc]
    split
    · exact hcount
    · rename_i hi
      have hinsert : {j | get (set (learn b is).1 i) j = true} =
          insert i {j | get (learn b is).1 j = true} := by
        ext j
        show get (set (learn b is).1 i) j = true ↔ j = i ∨ get (learn b is).1 j = true
        rw [get_set hw hin, Bool.or_eq_true, decide_eq_true_eq, eq_comm]
      have hnew : i ∉ {j | get (learn b is).1 j = true} := hi
      rw [hinsert, Set.ncard_insert_of_notMem hnew (get_finite hw _), hcount, Nat.add_assoc]

end Bitmap
