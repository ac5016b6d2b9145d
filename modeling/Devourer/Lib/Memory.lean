-- A flat memory of bytes: what is read back after a store, and what a store
-- leaves alone.
import Devourer.Lib.Wire

/-- A byte at each address. -/
abbrev Memory := ℕ → UInt8

namespace Memory

/-- The bytes `bs` stored from `a` on. -/
def write (m : Memory) (a : ℕ) (bs : Bytes) : Memory := fun x =>
  if a ≤ x ∧ x < a + bs.length then byteAt bs (x - a) else m x

/-- The `n` bytes from `a` on. -/
def read (m : Memory) (a n : ℕ) : Bytes := (List.range n).map fun i => m (a + i)

variable {m m' : Memory} {a b n k : ℕ} {bs : Bytes}

@[simp] theorem length_read (m : Memory) (a n : ℕ) : (m.read a n).length = n := by simp [read]

@[simp] theorem read_zero (m : Memory) (a : ℕ) : m.read a 0 = [] := rfl

theorem write_in {x : ℕ} (h : a ≤ x) (h' : x < a + bs.length) :
    m.write a bs x = byteAt bs (x - a) := if_pos ⟨h, h'⟩

theorem write_out {x : ℕ} (h : x < a ∨ a + bs.length ≤ x) : m.write a bs x = m x := by
  apply if_neg
  omega

theorem read_congr (h : ∀ i < n, m (a + i) = m' (a + i)) : m.read a n = m'.read a n := by
  apply List.map_congr_left
  intro i hi
  exact h i (List.mem_range.mp hi)

theorem getElem_read {i : ℕ} (h : i < (m.read a n).length) : (m.read a n)[i] = m (a + i) := by
  simp [read]

theorem byteAt_read {i : ℕ} (h : i < n) : byteAt (m.read a n) i = m (a + i) := by
  unfold byteAt
  rw [List.getD_eq_getElem _ _ (by simpa using h), getElem_read]

/-- What was stored is read back. -/
@[simp] theorem read_write (m : Memory) (a : ℕ) (bs : Bytes) :
    (m.write a bs).read a bs.length = bs := by
  apply List.ext_getElem
  · simp
  · intro i hi hi'
    rw [getElem_read, write_in (by omega) (by omega), Nat.add_sub_cancel_left]
    exact List.getD_eq_getElem _ _ hi'

/-- A store leaves every range alone that it does not meet. -/
theorem read_write_apart (h : a + n ≤ b ∨ b + bs.length ≤ a) :
    (m.write b bs).read a n = m.read a n := by
  apply read_congr
  intro i hi
  apply write_out
  omega

/-- A range is the part before a place and the part from it on. -/
theorem read_add (m : Memory) (a n k : ℕ) :
    m.read a (n + k) = m.read a n ++ m.read (a + n) k := by
  simp [read, List.range_add, Nat.add_assoc]

theorem read_succ (m : Memory) (a n : ℕ) : m.read a (n + 1) = m.read a n ++ [m (a + n)] :=
  read_add m a n 1

/-- The byte after a range is stored. -/
theorem read_write_snoc (m : Memory) (a n : ℕ) (x : UInt8) :
    (m.write (a + n) [x]).read a (n + 1) = m.read a n ++ [x] := by
  rw [read_succ, read_write_apart (Or.inl (Nat.le_refl _)), write_in (Nat.le_refl _) (by simp)]
  simp [byteAt]

/-- Bytes are stored behind a range. -/
theorem read_write_next (m : Memory) (a n : ℕ) (bs : Bytes) :
    (m.write (a + n) bs).read a (n + bs.length) = m.read a n ++ bs := by
  rw [read_add, read_write_apart (Or.inl (Nat.le_refl _)), read_write]

/-- One byte of a range is stored. -/
theorem read_write_set (m : Memory) (a n k : ℕ) (x : UInt8) :
    (m.write (a + k) [x]).read a n = (m.read a n).set k x := by
  apply List.ext_getElem
  · simp
  · intro i hi hi'
    rw [getElem_read, List.getElem_set, getElem_read]
    by_cases hik : k = i
    · subst hik
      rw [if_pos rfl, write_in (Nat.le_refl _) (by simp)]
      simp [byteAt]
    · rw [if_neg hik]
      apply write_out
      rw [List.length_singleton]
      omega

/-- A byte is stored where it stands already, or behind the range. -/
theorem read_write_same {x : UInt8} (h : k < n → m (a + k) = x) :
    (m.write (a + k) [x]).read a n = m.read a n := by
  apply read_congr
  intro i hi
  by_cases hik : i = k
  · subst hik
    rw [write_in (Nat.le_refl _) (by simp), h hi]
    simp [byteAt]
  · apply write_out
    rw [List.length_singleton]
    omega

/-- The little-endian word of `n` bytes at an address. -/
def word (m : Memory) (w n a : ℕ) : BitVec w := Wire.getLe w n fun i => m (a + i)

/-- A word is read where its bytes stand, within a longer range. -/
theorem word_of_read {w : ℕ} {v : BitVec w} (pre post : Bytes) (hn : w ≤ 8 * n)
    (h : m.read a k = pre ++ (Wire.putLe n v ++ post)) : m.word w n (a + pre.length) = v := by
  apply Wire.getLe_of_bytes v hn
  intro i hi
  have hk : k = pre.length + (n + post.length) := by
    rw [← length_read m a k, h]
    simp
  have hin : pre.length + i < k := by omega
  rw [Nat.add_assoc, ← byteAt_read (m := m) (a := a) hin, h, byteAt_append_right _ (by omega),
    Nat.add_sub_cancel_left, byteAt_append_left _ (by simpa using hi)]

theorem word_congr {m' : Memory} (h : ∀ i < n, m (a + i) = m' (a + i)) :
    m.word w n a = m'.word w n a := by
  apply BitVec.eq_of_getLsbD_eq
  intro j _
  unfold word
  rw [Wire.getLsbD_getLe, Wire.getLsbD_getLe]
  by_cases hj : j < 8 * n
  · rw [h (j / 8) (by omega)]
  · simp [hj]

theorem word_write_apart (h : a + n ≤ b ∨ b + bs.length ≤ a) :
    (m.write b bs).word w n a = m.word w n a := by
  apply word_congr
  intro i hi
  apply write_out
  omega

/-! ## Ranges and stores -/

/-- Two ranges do not meet. -/
def Apart (a n b k : ℕ) : Prop := a + n ≤ b ∨ b + k ≤ a

theorem Apart.symm {a n b k : ℕ} (h : Apart a n b k) : Apart b k a n := Or.symm h

/-- Bytes to store from a place on. -/
structure Store where
  place : ℕ
  bytes : Bytes
  deriving DecidableEq

/-- The store stays in a range. -/
def Store.Within (x : Store) (a n : ℕ) : Prop := a ≤ x.place ∧ x.place + x.bytes.length ≤ a + n

def store (m : Memory) (x : Store) : Memory := m.write x.place x.bytes

def stores (m : Memory) (xs : List Store) : Memory := xs.foldl store m

@[simp] theorem stores_nil (m : Memory) : m.stores [] = m := rfl

@[simp] theorem stores_cons (m : Memory) (x : Store) (xs : List Store) :
    m.stores (x :: xs) = (m.store x).stores xs := rfl

theorem stores_append (m : Memory) (xs ys : List Store) :
    m.stores (xs ++ ys) = (m.stores xs).stores ys := List.foldl_append

/-- A range that is apart from one is apart from each store in it. -/
theorem Apart.store {x : Store} (h : Apart a n b k) (hx : x.Within b k) :
    Apart a n x.place x.bytes.length := by
  obtain ⟨hlo, hhi⟩ := hx
  rcases h with h | h
  · exact Or.inl (Nat.le_trans h hlo)
  · exact Or.inr (Nat.le_trans hhi h)

theorem read_store_apart {x : Store} (h : Apart a n x.place x.bytes.length) :
    (m.store x).read a n = m.read a n := read_write_apart h

theorem read_stores_apart {xs : List Store} (h : ∀ x ∈ xs, Apart a n x.place x.bytes.length) :
    (m.stores xs).read a n = m.read a n := by
  induction xs generalizing m with
  | nil => rfl
  | cons x xs ih =>
    rw [stores_cons, ih fun y hy => h y (List.mem_cons_of_mem _ hy),
      read_store_apart (h x List.mem_cons_self)]

/-- Of stores that are apart each is read back. -/
theorem read_stores_mem {xs : List Store} {x : Store} (hx : x ∈ xs)
    (h : xs.Pairwise fun y z => Apart y.place y.bytes.length z.place z.bytes.length) :
    (m.stores xs).read x.place x.bytes.length = x.bytes := by
  induction xs generalizing m with
  | nil => cases hx
  | cons y ys ih =>
    obtain ⟨hy, hys⟩ := List.pairwise_cons.mp h
    rw [stores_cons]
    rcases List.mem_cons.mp hx with rfl | hx
    · rw [read_stores_apart hy]
      exact read_write _ _ _
    · exact ih hx hys

/-! ## Memories that agree on a range -/

theorem read_eq_iff : m.read a n = m'.read a n ↔ ∀ i < n, m (a + i) = m' (a + i) := by
  constructor
  · intro h i hi
    rw [← byteAt_read (m := m) hi, h, byteAt_read hi]
  · exact read_congr

/-- They agree on each part of the range. -/
theorem read_eq_part (h : m.read a n = m'.read a n) (hb : a ≤ b) (hk : b + k ≤ a + n) :
    m.read b k = m'.read b k := by
  rw [read_eq_iff] at h ⊢
  intro i hi
  have hin := h (b - a + i) (by omega)
  rwa [← Nat.add_assoc, Nat.add_sub_cancel' hb] at hin

theorem word_eq_part {w : ℕ} (h : m.read a n = m'.read a n) (hb : a ≤ b) (hk : b + k ≤ a + n) :
    m.word w k b = m'.word w k b :=
  word_congr (read_eq_iff.mp (read_eq_part h hb hk))

/-- They agree on it after the same store. -/
theorem read_store_congr (h : m.read a n = m'.read a n) (x : Store) :
    (m.store x).read a n = (m'.store x).read a n := by
  rw [read_eq_iff] at h ⊢
  intro i hi
  unfold store write
  rw [h i hi]

end Memory
