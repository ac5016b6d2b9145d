-- Fixed-width fields of a buffer: words in either byte order, a reader that
-- moves an offset, and what it reads back of fields written one after another.
import Devourer.Lib.Octets
import Mathlib.Logic.Basic

namespace Wire

/-! ## Little-endian words -/

/-- The low `n` bytes of a word, the least significant first. -/
def putLe {w : Nat} (n : Nat) (v : BitVec w) : Bytes :=
  (List.range n).map fun i => UInt8.ofBitVec ((v >>> (8 * i)).setWidth 8)

/-- The word of `n` bytes, the least significant first. -/
def getLe (w n : Nat) (f : Nat → UInt8) : BitVec w :=
  (List.range n).foldl (fun v i => v ||| ((f i).toBitVec.setWidth w <<< (8 * i))) 0#w

@[simp] theorem length_putLe {w : Nat} (n : Nat) (v : BitVec w) : (putLe n v).length = n := by
  simp [putLe]

theorem byteAt_putLe {w : Nat} (n : Nat) (v : BitVec w) {i : Nat} (h : i < n) :
    byteAt (putLe n v) i = UInt8.ofBitVec ((v >>> (8 * i)).setWidth 8) := by
  unfold byteAt putLe
  rw [List.getD_eq_getElem _ _ (by simpa using h)]
  simp

theorem getLe_succ (w n : Nat) (f : Nat → UInt8) :
    getLe w (n + 1) f = getLe w n f ||| ((f n).toBitVec.setWidth w <<< (8 * n)) := by
  simp [getLe, List.range_succ]

theorem getLe_congr {w n : Nat} {f g : Nat → UInt8} (h : ∀ i, i < n → f i = g i) :
    getLe w n f = getLe w n g := by
  induction n with
  | zero => rfl
  | succ n ih =>
    rw [getLe_succ, getLe_succ, ih fun i hi => h i (Nat.lt_succ_of_lt hi), h n (Nat.lt_succ_self n)]

/-- Bit `j` of a word is bit `j % 8` of byte `j / 8`. -/
theorem getLsbD_getLe (w n : Nat) (f : Nat → UInt8) (j : Nat) :
    (getLe w n f).getLsbD j =
      (decide (j < w) && (decide (j < 8 * n) && (f (j / 8)).toBitVec.getLsbD (j % 8))) := by
  induction n with
  | zero => simp [getLe]
  | succ n ih =>
    rw [getLe_succ, BitVec.getLsbD_or, ih, BitVec.getLsbD_shiftLeft, BitVec.getLsbD_setWidth]
    by_cases hw : j < w
    · by_cases hlow : j < 8 * n
      · simp [hw, hlow, show j < 8 * (n + 1) by omega]
      · by_cases hin : j < 8 * (n + 1)
        · have hdiv : j / 8 = n := by omega
          have hmod : j % 8 = j - 8 * n := by omega
          simp [hw, hlow, hin, hdiv, hmod, show j - 8 * n < w by omega]
        · have hout : (f n).toBitVec.getLsbD (j - 8 * n) = false :=
            BitVec.getLsbD_of_ge _ _ (by omega)
          simp [hlow, hin, hout]
    · simp [hw]

/-- A word is read back from its bytes. -/
theorem getLe_of_bytes {w n : Nat} (v : BitVec w) (hn : w ≤ 8 * n) {f : Nat → UInt8}
    (hf : ∀ i, i < n → f i = byteAt (putLe n v) i) : getLe w n f = v := by
  apply BitVec.eq_of_getLsbD_eq
  intro j hj
  have hlt : j < 8 * n := by omega
  have hi : j / 8 < n := by omega
  have hbit : 8 * (j / 8) + j % 8 = j := Nat.div_add_mod j 8
  rw [getLsbD_getLe, hf _ hi, byteAt_putLe n v hi]
  simp [hj, hlt, hbit, Nat.mod_lt]

/-! ## Big-endian words -/

/-- The low `n` bytes of a word, the most significant first. -/
def putBe {w : Nat} (n : Nat) (v : BitVec w) : Bytes :=
  (List.range n).map fun i => UInt8.ofBitVec ((v >>> (8 * (n - 1 - i))).setWidth 8)

/-- The word of `n` bytes, the most significant first. -/
def getBe (w n : Nat) (f : Nat → UInt8) : BitVec w :=
  (List.range n).foldl (fun v i => (v <<< 8) ||| (f i).toBitVec.setWidth w) 0#w

@[simp] theorem length_putBe {w : Nat} (n : Nat) (v : BitVec w) : (putBe n v).length = n := by
  simp [putBe]

theorem byteAt_putBe {w : Nat} (n : Nat) (v : BitVec w) {i : Nat} (h : i < n) :
    byteAt (putBe n v) i = UInt8.ofBitVec ((v >>> (8 * (n - 1 - i))).setWidth 8) := by
  unfold byteAt putBe
  rw [List.getD_eq_getElem _ _ (by simpa using h)]
  simp

theorem getBe_succ (w n : Nat) (f : Nat → UInt8) :
    getBe w (n + 1) f = (getBe w n f <<< 8) ||| (f n).toBitVec.setWidth w := by
  simp [getBe, List.range_succ]

/-- Bit `j` of a word is bit `j % 8` of byte `j / 8` from the end. -/
theorem getLsbD_getBe (w n : Nat) (f : Nat → UInt8) (j : Nat) :
    (getBe w n f).getLsbD j =
      (decide (j < w) && (decide (j < 8 * n) &&
        (f (n - 1 - j / 8)).toBitVec.getLsbD (j % 8))) := by
  induction n generalizing j with
  | zero => simp [getBe]
  | succ n ih =>
    rw [getBe_succ, BitVec.getLsbD_or, BitVec.getLsbD_shiftLeft, BitVec.getLsbD_setWidth, ih]
    by_cases hw : j < w
    · by_cases hlow : j < 8
      · have hdiv : n + 1 - 1 - j / 8 = n := by omega
        rw [hdiv]
        simp [hw, hlow, Nat.mod_eq_of_lt hlow, show j < 8 * (n + 1) by omega]
      · have hbyte : n + 1 - 1 - j / 8 = n - 1 - (j - 8) / 8 := by omega
        have hbit : (j - 8) % 8 = j % 8 := by omega
        have hin : j - 8 < 8 * n ↔ j < 8 * (n + 1) := by omega
        have hout : (f n).toBitVec.getLsbD j = false := BitVec.getLsbD_of_ge _ _ (by omega)
        rw [hbyte, hbit]
        simp [hw, hlow, hin, hout, show j - 8 < w by omega]
    · simp [hw]

/-- A word is read back from its bytes. -/
theorem getBe_of_bytes {w n : Nat} (v : BitVec w) (hn : w ≤ 8 * n) {f : Nat → UInt8}
    (hf : ∀ i, i < n → f i = byteAt (putBe n v) i) : getBe w n f = v := by
  apply BitVec.eq_of_getLsbD_eq
  intro j hj
  have hlt : j < 8 * n := by omega
  have hi : n - 1 - j / 8 < n := by omega
  have hback : n - 1 - (n - 1 - j / 8) = j / 8 := by omega
  have hbit : 8 * (j / 8) + j % 8 = j := Nat.div_add_mod j 8
  rw [getLsbD_getBe, hf _ hi, byteAt_putBe n v hi, hback]
  simp [hj, hlt, hbit, Nat.mod_lt]

/-- A word that holds all of its bytes tells each of them. -/
theorem getBe_inj {w n : Nat} (hw : 8 * n ≤ w) {f g : Nat → UInt8}
    (h : getBe w n f = getBe w n g) {k : Nat} (hk : k < n) : f k = g k := by
  apply UInt8.toBitVec_inj.mp
  apply BitVec.eq_of_getLsbD_eq
  intro i hi
  have hbit := congrArg (BitVec.getLsbD · (8 * (n - 1 - k) + i)) h
  have hbyte : n - 1 - (8 * (n - 1 - k) + i) / 8 = k := by omega
  have hlow : (8 * (n - 1 - k) + i) % 8 = i := by omega
  have hword : 8 * (n - 1 - k) + i < w := by omega
  have hbytes : 8 * (n - 1 - k) + i < 8 * n := by omega
  simp only [getLsbD_getBe, hbyte, hlow, hword, hbytes, decide_true, Bool.true_and] at hbit
  exact hbit

/-! ## Readers -/

/-- A reader of a buffer, with the offset it reads at. -/
abbrev Get (α : Type) := ReaderT Bytes (StateM Nat) α

/-- The next `n` bytes as a word. -/
def word (w n : Nat) : Get (BitVec w) := fun p o => (getLe w n fun i => byteAt p (o + i), o + n)

/-- A reader takes exactly these bytes, wherever they stand, for the value. -/
def Reads {α : Type} (g : Get α) (x : Bytes) (a : α) : Prop :=
  ∀ front back : Bytes, g (front ++ (x ++ back)) front.length = (a, front.length + x.length)

variable {α β : Type}

theorem Reads.pure (a : α) : Reads (Pure.pure a) [] a := fun _ _ => rfl

theorem Reads.bind {g : Get α} {f : α → Get β} {x y : Bytes} {a : α} {b : β} (hg : Reads g x a)
    (hf : Reads (f a) y b) : Reads (g >>= f) (x ++ y) b := by
  intro front back
  have hfirst := hg front (y ++ back)
  have hrest := hf (front ++ x) back
  rw [List.append_assoc, List.length_append] at hrest
  rw [List.append_assoc, List.length_append, ← Nat.add_assoc]
  calc (g >>= f) (front ++ (x ++ (y ++ back))) front.length
      = f (g (front ++ (x ++ (y ++ back))) front.length).1 (front ++ (x ++ (y ++ back)))
          (g (front ++ (x ++ (y ++ back))) front.length).2 := rfl
    _ = f a (front ++ (x ++ (y ++ back))) (front.length + x.length) := by rw [hfirst]
    _ = (b, front.length + x.length + y.length) := hrest

/-- The fields of a record, one after another. -/
theorem Reads.cons {g : Get α} {f : α → Get β} {x : Bytes} {xs : List Bytes} {a : α} {b : β}
    (hg : Reads g x a) (hf : Reads (f a) xs.flatten b) :
    Reads (g >>= f) (x :: xs).flatten b := by
  rw [List.flatten_cons]
  exact hg.bind hf

theorem Reads.nil (a : α) : Reads (Pure.pure a) ([] : List Bytes).flatten a := Reads.pure a

theorem Reads.map {g : Get α} {x : Bytes} {a : α} (hg : Reads g x a) (f : α → β) :
    Reads (f <$> g) x (f a) := by
  intro front back
  have h := hg front back
  show (f (g (front ++ (x ++ back)) front.length).1, _) = _
  rw [h]

/-- The field at an offset of a buffer. -/
theorem Reads.at {g : Get α} {x : Bytes} {a : α} (hg : Reads g x a) {p u v : Bytes}
    (hp : p = u ++ (x ++ v)) {o : Nat} (ho : u.length = o) : g p o = (a, o + x.length) := by
  subst hp ho
  exact hg u v

theorem reads_word {w n : Nat} (v : BitVec w) (hn : w ≤ 8 * n) :
    Reads (word w n) (putLe n v) v := by
  intro front back
  have hbytes : ∀ i, i < n →
      byteAt (front ++ (putLe n v ++ back)) (front.length + i) = byteAt (putLe n v) i := by
    intro i hi
    rw [byteAt_behind, byteAt_append_left _ (by simpa using hi)]
  have hword := getLe_of_bytes v hn hbytes
  show (getLe w n _, front.length + n) = _
  rw [hword, length_putLe]

end Wire
