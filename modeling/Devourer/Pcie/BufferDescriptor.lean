-- The 8-byte buffer descriptor of the rings: two 16-bit fields and the
-- 32-bit address of the buffer.
import Devourer.Lib.Memory

namespace devourer.pcie

/-- A descriptor: in most places `a` is the size of the buffer. -/
structure Bd where
  a : BitVec 16
  b : BitVec 16
  dma : BitVec 32
  deriving DecidableEq

def BD_SZ : ℕ := 8

def Bd.bytes (d : Bd) : Bytes := Wire.putLe 2 d.a ++ (Wire.putLe 2 d.b ++ Wire.putLe 4 d.dma)

@[simp] theorem Bd.length_bytes (d : Bd) : d.bytes.length = BD_SZ := by
  simp [Bd.bytes, BD_SZ]

def bd_write (m : Memory) (e : ℕ) (d : Bd) : Memory := m.write e d.bytes

/-- What the hardware finds at the place of a descriptor. -/
def bd_read (m : Memory) (e : ℕ) : Bd where
  a := m.word 16 2 e
  b := m.word 16 2 (e + 2)
  dma := m.word 32 4 (e + 4)

variable {m : Memory} {e x : ℕ} {d : Bd} {bs : Bytes}

@[simp] theorem bd_read_write (m : Memory) (e : ℕ) (d : Bd) : bd_read (bd_write m e d) e = d := by
  have hread : (bd_write m e d).read e BD_SZ = d.bytes := by
    rw [← d.length_bytes]
    exact Memory.read_write m e d.bytes
  have ha : (bd_write m e d).word 16 2 e = d.a := by
    exact Memory.word_of_read [] _ (by omega) hread
  have hb : (bd_write m e d).word 16 2 (e + 2) = d.b := by
    exact Memory.word_of_read (Wire.putLe 2 d.a) _ (by omega) hread
  have hdma : (bd_write m e d).word 32 4 (e + 4) = d.dma := by
    apply Memory.word_of_read (k := BD_SZ) (Wire.putLe 2 d.a ++ Wire.putLe 2 d.b) [] (by omega)
    rw [hread]
    simp [Bd.bytes]
  simp only [bd_read, ha, hb, hdma]

/-- A store leaves every descriptor alone that it does not meet. -/
theorem bd_read_apart (h : e + BD_SZ ≤ x ∨ x + bs.length ≤ e) :
    bd_read (m.write x bs) e = bd_read m e := by
  unfold BD_SZ at h
  unfold bd_read
  rw [Memory.word_write_apart (by omega), Memory.word_write_apart (by omega),
    Memory.word_write_apart (by omega)]

theorem bd_read_write_apart (h : e + BD_SZ ≤ x ∨ x + BD_SZ ≤ e) :
    bd_read (bd_write m x d) e = bd_read m e := by
  apply bd_read_apart
  rw [d.length_bytes]
  exact h

end devourer.pcie
