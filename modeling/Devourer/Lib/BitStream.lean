-- Codes of any widths in a row, the lowest bit of each first, as the bits of
-- a string of bytes.
import Devourer.Lib.Octets

namespace BitStream

/-- The bits of a string of bytes, the lowest bit of each byte first. -/
def ofBytes (d : Bytes) : List Bool := d.flatMap fun x => (List.range 8).map x.toBitVec.getLsbD

/-- A code and the width that it takes. -/
abbrev Code (w : ℕ) := ℕ × BitVec w

/-- The code needs no more than its width. -/
def Code.Fits {w : ℕ} (c : Code w) : Prop := c.2.toNat < 2 ^ c.1

def Code.bits {w : ℕ} (c : Code w) : List Bool := (List.range c.1).map c.2.getLsbD

def ofCodes {w : ℕ} (l : List (Code w)) : List Bool := l.flatMap Code.bits

variable {w : ℕ} {d : Bytes} {i : ℕ}

@[simp] theorem length_bits (c : Code w) : c.bits.length = c.1 := by simp [Code.bits]

theorem length_ofBytes (d : Bytes) : (ofBytes d).length = 8 * d.length := by
  induction d with
  | nil => rfl
  | cons x d ih =>
    unfold ofBytes at ih ⊢
    rw [List.flatMap_cons, List.length_append, ih, List.length_map, List.length_range,
      List.length_cons]
    omega

theorem getElem?_ofBytes (h : i < 8 * d.length) :
    (ofBytes d)[i]? = some ((byteAt d (i / 8)).toBitVec.getLsbD (i % 8)) := by
  induction d generalizing i with
  | nil => exact absurd h (Nat.not_lt_zero i)
  | cons x d ih =>
    unfold ofBytes at ih ⊢
    rw [List.flatMap_cons]
    by_cases hlow : i < 8
    · rw [List.getElem?_append_left (by simpa using hlow), Nat.div_eq_of_lt hlow,
        Nat.mod_eq_of_lt hlow, List.getElem?_map, List.getElem?_range hlow]
      rfl
    · obtain ⟨j, rfl⟩ := Nat.exists_eq_add_of_le (Nat.le_of_not_lt hlow)
      rw [List.length_cons] at h
      rw [List.getElem?_append_right (by simp), List.length_map, List.length_range,
        Nat.add_sub_cancel_left, ih (by omega), Nat.add_div_left j (by decide), Nat.add_mod_left]
      rfl

/-- The bits from a place on begin with a code: each of them is where it is looked for. -/
theorem bit_of_drop {c : Code w} {pos : ℕ} {rest : List Bool}
    (h : (ofBytes d).drop pos = c.bits ++ rest) (hi : i < c.1) :
    pos + i < 8 * d.length ∧
      (byteAt d ((pos + i) / 8)).toBitVec.getLsbD ((pos + i) % 8) = c.2.getLsbD i := by
  have hread : (ofBytes d)[pos + i]? = some (c.2.getLsbD i) := by
    rw [← List.getElem?_drop, h, List.getElem?_append_left (by simpa using hi), Code.bits,
      List.getElem?_map, List.getElem?_range hi]
    rfl
  have hlt : pos + i < 8 * d.length := by
    rw [← length_ofBytes]
    exact (List.getElem?_eq_some_iff.mp hread).1
  refine ⟨hlt, ?_⟩
  rw [getElem?_ofBytes hlt] at hread
  exact Option.some.inj hread

/-- Behind a code stand the bits of the rest. -/
theorem drop_of_drop {c : Code w} {pos : ℕ} {rest : List Bool}
    (h : (ofBytes d).drop pos = c.bits ++ rest) : (ofBytes d).drop (pos + c.1) = rest := by
  rw [← List.drop_drop, h, List.drop_left' (length_bits c)]

end BitStream
