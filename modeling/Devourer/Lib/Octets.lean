-- Byte strings as they stand in a buffer, and fixed-size octet arrays. A
-- read past the end of a string gives 0, so every read below is total.
import Mathlib.Algebra.Group.Nat.Defs
import Mathlib.Data.List.Basic
import Mathlib.Data.List.GetD

abbrev Bytes := List UInt8

/-- The byte at an offset of a buffer. -/
def byteAt (b : Bytes) (i : Nat) : UInt8 := b.getD i 0

theorem byteAt_append_left {a : Bytes} (b : Bytes) {i : Nat} (h : i < a.length) :
    byteAt (a ++ b) i = byteAt a i := by
  unfold byteAt
  rw [List.getD_append _ _ _ _ h]

theorem byteAt_append_right {a : Bytes} (b : Bytes) {i : Nat} (h : a.length ≤ i) :
    byteAt (a ++ b) i = byteAt b (i - a.length) := by
  unfold byteAt
  rw [List.getD_append_right _ _ _ _ h]

theorem byteAt_behind (a b : Bytes) (i : Nat) : byteAt (a ++ b) (a.length + i) = byteAt b i := by
  rw [byteAt_append_right _ (by omega), Nat.add_sub_cancel_left]

theorem byteAt_set_ne {b : Bytes} {i j : Nat} (x : UInt8) (h : i ≠ j) :
    byteAt (b.set i x) j = byteAt b j := by
  unfold byteAt
  rw [List.getD_eq_getElem?_getD, List.getD_eq_getElem?_getD, List.getElem?_set_ne h]

/-- A length that fits 16 bits is read back from them. -/
theorem toUInt16_toNat {n : Nat} (h : n < 2 ^ 16) : n.toUInt16.toNat = n := Nat.mod_eq_of_lt h

/-! ## Reads that fail past the end -/

def peek (b : Bytes) (i : Nat) : Option UInt8 := b[i]?

/-- The `n` bytes at an offset, where the buffer has them. -/
def span (b : Bytes) (off n : Nat) : Option Bytes :=
  if off + n ≤ b.length then some ((b.drop off).take n) else none

theorem peek_eq {b : Bytes} {i : Nat} (h : i < b.length) : peek b i = some (byteAt b i) := by
  unfold peek byteAt
  rw [List.getElem?_eq_getElem h, List.getD_eq_getElem _ _ h]

theorem span_eq {b : Bytes} {off n : Nat} (h : off + n ≤ b.length) :
    span b off n = some ((b.drop off).take n) := if_pos h

theorem byteAt_drop (b : Bytes) (off i : Nat) : byteAt (b.drop off) i = byteAt b (off + i) := by
  unfold byteAt
  rw [List.getD_eq_getElem?_getD, List.getD_eq_getElem?_getD, List.getElem?_drop]

theorem byteAt_take {b : Bytes} {n i : Nat} (h : i < n) : byteAt (b.take n) i = byteAt b i := by
  unfold byteAt
  rw [List.getD_eq_getElem?_getD, List.getD_eq_getElem?_getD, List.getElem?_take_of_lt h]

/-- A fixed-size octet array. -/
abbrev Octets (n : Nat) := {b : Bytes // b.length = n}

namespace Octets

/-- The array that a wipe leaves. -/
def zero (n : Nat) : Octets n := ⟨List.replicate n 0, by simp⟩

/-- The `n` bytes at an offset of a buffer, copied out. -/
def slice (b : Bytes) (off n : Nat) : Octets n :=
  ⟨(List.range n).map (fun i => byteAt b (off + i)), by simp⟩

/-- A slice reads the bytes of its range and no others. -/
theorem slice_congr {a b : Bytes} {off n : Nat}
    (h : ∀ i, i < n → byteAt a (off + i) = byteAt b (off + i)) : slice a off n = slice b off n := by
  apply Subtype.ext
  apply List.map_congr_left
  intro i hi
  exact h i (List.mem_range.mp hi)

/-- The array that stands at an offset is the slice there. -/
theorem slice_append {n : Nat} (pre : Bytes) (o : Octets n) (post : Bytes) {off : Nat}
    (h : pre.length = off) : slice (pre ++ (o.val ++ post)) off n = o := by
  apply Subtype.ext
  apply List.ext_getElem
  · simp [slice, o.property]
  · intro i hi hi'
    have hn : i < n := by rw [← o.property]; exact hi'
    simp only [slice, List.getElem_map, List.getElem_range]
    rw [byteAt_append_right _ (by omega), ← h, Nat.add_sub_cancel_left, byteAt_append_left _ hi']
    unfold byteAt
    rw [List.getD_eq_getElem _ _ hi']

/-- The first `m` bytes of `src` copied over the start of `dst`. -/
def overwrite {n : Nat} (dst src : Octets n) (m : Nat) : Octets n :=
  ⟨src.val.take m ++ dst.val.drop m, by
    have h1 := dst.property
    have h2 := src.property
    simp only [List.length_append, List.length_take, List.length_drop, h1, h2]
    omega⟩

/-- What was copied over the start stands there. -/
theorem take_overwrite {n : Nat} (dst src : Octets n) (m : Nat) :
    (overwrite dst src m).val.take m = src.val.take m := by
  have h1 := dst.property
  have h2 := src.property
  simp only [overwrite, List.take_append, List.take_take, Nat.min_self, List.length_take, h2]
  by_cases hm : m ≤ n
  · simp [hm]
  · have hd : dst.val.drop m = [] := List.drop_eq_nil_of_le (by omega)
    simp [hd]

instance (n : Nat) : Inhabited (Octets n) := ⟨zero n⟩

end Octets
