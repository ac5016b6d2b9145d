-- Fields of bits in the little-endian dwords of a buffer: what each field reads
-- back, pieces copied into a buffer, and the xor of its dwords.
import Mathlib.Algebra.GroupWithZero.Nat
import Devourer.Lib.Layout
import Devourer.Lib.Wire

namespace BitFields

/-- The dword at an offset. -/
def le32 (b : Bytes) (o : ℕ) : BitVec 32 := Wire.getLe 32 4 fun i => byteAt b (o + i)

/-- The `len` bits from bit `bit` on, of the dword at an offset. -/
def bits (b : Bytes) (o bit len : ℕ) : ℕ := ((le32 b o).extractLsb' bit len).toNat

def flag (b : Bytes) (o bit : ℕ) : Bool := (le32 b o).getLsbD bit

theorem bits_lt (b : Bytes) (o bit len : ℕ) : bits b o bit len < 2 ^ len :=
  ((le32 b o).extractLsb' bit len).isLt

/-- What stands behind the dword does not matter. -/
theorem le32_append {b : Bytes} (c : Bytes) {o : ℕ} (h : o + 4 ≤ b.length) :
    le32 (b ++ c) o = le32 b o := by
  unfold le32 Wire.getLe
  apply List.foldl_ext
  intro v i hi
  have hlt : i < 4 := List.mem_range.mp hi
  dsimp only
  rw [byteAt_append_left c (by omega)]

theorem bits_append {b : Bytes} (c : Bytes) {o : ℕ} (h : o + 4 ≤ b.length) (bit len : ℕ) :
    bits (b ++ c) o bit len = bits b o bit len := by
  rw [bits, bits, le32_append c h]

theorem flag_append {b : Bytes} (c : Bytes) {o : ℕ} (h : o + 4 ≤ b.length) (bit : ℕ) :
    flag (b ++ c) o bit = flag b o bit := by
  rw [flag, flag, le32_append c h]

/-! ## Copying into a buffer -/

/-- A piece copied over what stands from `o` on. -/
def paste (b : Bytes) (o : ℕ) (c : Bytes) : Bytes := b.take o ++ c ++ b.drop (o + c.length)

theorem length_paste {b c : Bytes} {o : ℕ} (h : o + c.length ≤ b.length) :
    (paste b o c).length = b.length := by
  simp only [paste, List.length_append, List.length_take, List.length_drop]
  omega

theorem drop_paste {b c : Bytes} {o : ℕ} (h : o + c.length ≤ b.length) :
    (paste b o c).drop o = c ++ b.drop (o + c.length) := by
  have htake : (b.take o).length = o := by
    rw [List.length_take]
    omega
  rw [paste, List.append_assoc]
  exact List.drop_left' htake

/-- What stands in front of the piece stays. -/
theorem take_paste {b c : Bytes} {o p n : ℕ} (h : o + c.length ≤ b.length) (hp : p + n ≤ o) :
    ((paste b o c).drop p).take n = (b.drop p).take n := by
  have htake : (paste b o c).take o = b.take o := by
    have hlen : (b.take o).length = o := by
      rw [List.length_take]
      omega
    rw [paste, List.append_assoc]
    exact List.take_left' hlen
  have hfront : ∀ x : Bytes, (x.drop p).take n = ((x.take o).drop p).take n := by
    intro x
    rw [List.drop_take, List.take_take, Nat.min_eq_left (by omega)]
  rw [hfront, htake, ← hfront]

/-- What stands behind the piece stays. -/
theorem drop_paste_behind {b c : Bytes} {o p : ℕ} (h : o + c.length ≤ b.length)
    (hp : o + c.length ≤ p) : (paste b o c).drop p = b.drop p := by
  obtain ⟨k, rfl⟩ := Nat.exists_eq_add_of_le hp
  rw [Nat.add_assoc, ← List.drop_drop, drop_paste h, ← List.drop_drop, List.drop_left,
    List.drop_drop, Nat.add_assoc]

/-- Pieces copied one after another. -/
def pasteAll (b : Bytes) (ps : List (ℕ × Bytes)) : Bytes :=
  ps.foldl (fun b p => paste b p.1 p.2) b

/-- Each piece ends before the next one starts, and the last one before the end. -/
def Laid (n : ℕ) : List (ℕ × Bytes) → Prop
  | [] => True
  | p :: ps => p.1 + p.2.length ≤ n ∧ (∀ q ∈ ps, p.1 + p.2.length ≤ q.1) ∧ Laid n ps

theorem Laid.le {n : ℕ} {ps : List (ℕ × Bytes)} (h : Laid n ps) {p : ℕ × Bytes} (hp : p ∈ ps) :
    p.1 + p.2.length ≤ n := by
  induction ps with
  | nil => cases hp
  | cons q ps ih =>
    rcases List.mem_cons.mp hp with rfl | hp
    · exact h.1
    · exact ih h.2.2 hp

theorem take_pasteAll {b : Bytes} {ps : List (ℕ × Bytes)} {p n : ℕ} (h : Laid b.length ps)
    (hp : ∀ q ∈ ps, p + n ≤ q.1) : ((pasteAll b ps).drop p).take n = (b.drop p).take n := by
  induction ps generalizing b with
  | nil => rfl
  | cons q ps ih =>
    obtain ⟨hq, -, hps⟩ := h
    rw [← length_paste hq] at hps
    have hrest := ih hps fun r hr => hp r (List.mem_cons_of_mem q hr)
    exact hrest.trans (take_paste hq (hp q List.mem_cons_self))

/-- Each piece stands where it was copied to. -/
theorem pasteAll_holds {b : Bytes} {ps : List (ℕ × Bytes)} (h : Laid b.length ps) {p : ℕ × Bytes}
    (hp : p ∈ ps) : ((pasteAll b ps).drop p.1).take p.2.length = p.2 := by
  induction ps generalizing b with
  | nil => cases hp
  | cons q ps ih =>
    obtain ⟨hq, hlater, hps⟩ := h
    rw [← length_paste hq] at hps
    rcases List.mem_cons.mp hp with rfl | hp
    · have hfront := take_pasteAll (p := p.1) (n := p.2.length) hps hlater
      refine hfront.trans ?_
      rw [drop_paste hq]
      exact List.take_left
    · exact ih hps hp

/-- Pieces that are placed one after another. -/
def pieces (a o : ℕ) (cs : List Bytes) : List (ℕ × Bytes) :=
  ((Layout.place a o (cs.map List.length)).map Prod.fst).zip cs

theorem laid_pieces {a n o : ℕ} (ha : 0 < a) {cs : List Bytes}
    (h : ∀ q ∈ Layout.place a o (cs.map List.length), q.1 + q.2 ≤ n) : Laid n (pieces a o cs) := by
  induction cs generalizing o with
  | nil => trivial
  | cons c cs ih =>
    obtain ⟨hfirst, hrest⟩ := List.forall_mem_cons.mp h
    refine ⟨hfirst, ?_, ih hrest⟩
    intro q hq
    obtain ⟨e, he, hoff⟩ := List.mem_map.mp (List.of_mem_zip hq).1
    have hstart := Layout.start_le_of_mem ha he
    have hup := (Layout.alignUp_spec ha (o + c.length)).2.1
    rw [← hoff]
    exact hup.trans hstart

/-! ## One field -/

/-- Some bits of the dword at an offset. -/
structure Field where
  off : ℕ
  bit : ℕ
  len : ℕ
  deriving DecidableEq

namespace Field

/-- The field is inside of its dword, and that in the first `n` bytes. -/
def Fits (n : ℕ) (f : Field) : Prop := f.off + 4 ≤ n ∧ f.bit + f.len ≤ 32

/-- Two fields share no bit. -/
def Apart (f g : Field) : Prop :=
  f.off + 4 ≤ g.off ∨ g.off + 4 ≤ f.off ∨
    f.off = g.off ∧ (f.bit + f.len ≤ g.bit ∨ g.bit + g.len ≤ f.bit)

def mask (f : Field) : BitVec 32 := (BitVec.allOnes 32 >>> (32 - f.len)) <<< f.bit

/-- The value of a field. -/
def get (f : Field) (b : Bytes) : ℕ := bits b f.off f.bit f.len

/-- A dword with a value in the place of the field. -/
def into (f : Field) (w : BitVec 32) (v : ℕ) : BitVec 32 :=
  (w &&& ~~~f.mask) ||| ((BitVec.ofNat 32 v &&& (BitVec.allOnes 32 >>> (32 - f.len))) <<< f.bit)

def set (f : Field) (b : Bytes) (v : ℕ) : Bytes :=
  paste b f.off (Wire.putLe 4 (f.into (le32 b f.off) v))

end Field

open BitFields.Field

theorem le32_paste (b : Bytes) {o : ℕ} (v : BitVec 32) (h : o + 4 ≤ b.length) :
    le32 (paste b o (Wire.putLe 4 v)) o = v := by
  apply Wire.getLe_of_bytes v (Nat.le_refl _)
  intro i hi
  rw [← byteAt_drop, drop_paste (by rwa [Wire.length_putLe]),
    byteAt_append_left _ (by simpa using hi)]

theorem byteAt_take_drop (b : Bytes) (p : ℕ) {n i : ℕ} (h : i < n) :
    byteAt ((b.drop p).take n) i = byteAt b (p + i) := by
  rw [← byteAt_drop]
  unfold byteAt
  simp [List.getD_eq_getElem?_getD, h]

theorem le32_congr {b c : Bytes} {o p : ℕ} (h : (b.drop o).take 4 = (c.drop p).take 4) :
    le32 b o = le32 c p := by
  apply Wire.getLe_congr
  intro i hi
  rw [← byteAt_take_drop b o hi, h, byteAt_take_drop c p hi]

theorem le32_paste_apart (b : Bytes) {o p : ℕ} (v : BitVec 32) (h : o + 4 ≤ b.length)
    (hp : o + 4 ≤ p ∨ p + 4 ≤ o) : le32 (paste b o (Wire.putLe 4 v)) p = le32 b p := by
  have hlen : o + (Wire.putLe 4 v).length ≤ b.length := by rwa [Wire.length_putLe]
  apply le32_congr
  rcases hp with hp | hp
  · rw [drop_paste_behind hlen (by rwa [Wire.length_putLe])]
  · exact take_paste hlen hp

/-- Bit by bit, the value stands in the field, and the rest of the dword stays. -/
theorem getLsbD_into (f : Field) (w : BitVec 32) (v : ℕ) {j : ℕ} (hf : f.bit + f.len ≤ 32)
    (hj : j < 32) : (f.into w v).getLsbD j =
      if f.bit ≤ j ∧ j < f.bit + f.len then v.testBit (j - f.bit) else w.getLsbD j := by
  have hones : ∀ k, (BitVec.allOnes 32 >>> (32 - f.len)).getLsbD k = decide (k < f.len) := by
    intro k
    rw [BitVec.getLsbD_ushiftRight, BitVec.getLsbD_allOnes]
    apply decide_eq_decide.mpr
    omega
  unfold into mask
  rw [BitVec.getLsbD_or, BitVec.getLsbD_and, BitVec.getLsbD_not, BitVec.getLsbD_shiftLeft,
    BitVec.getLsbD_shiftLeft, BitVec.getLsbD_and, hones, BitVec.getLsbD_ofNat]
  by_cases hlow : j < f.bit
  · have hout : ¬ (f.bit ≤ j ∧ j < f.bit + f.len) := by omega
    simp [hj, hlow, hout]
  · by_cases hin : j - f.bit < f.len
    · have hyes : f.bit ≤ j ∧ j < f.bit + f.len := by omega
      simp [hj, hlow, hin, hyes, show j - f.bit < 32 by omega]
    · have hout : ¬ (f.bit ≤ j ∧ j < f.bit + f.len) := by omega
      simp [hj, hlow, hin, hout]

namespace Field

variable {b : Bytes} {f g : Field}

theorem length_set {n : ℕ} (hf : f.Fits n) (hn : n ≤ b.length) (v : ℕ) :
    (f.set b v).length = b.length :=
  length_paste (by
    rw [Wire.length_putLe]
    exact Nat.le_trans hf.1 hn)

theorem le32_set {n : ℕ} (hf : f.Fits n) (hn : n ≤ b.length) (v : ℕ) :
    le32 (f.set b v) f.off = f.into (le32 b f.off) v :=
  le32_paste _ _ (Nat.le_trans hf.1 hn)

theorem le32_set_apart {n p : ℕ} (hf : f.Fits n) (hn : n ≤ b.length) (v : ℕ)
    (hp : f.off + 4 ≤ p ∨ p + 4 ≤ f.off) : le32 (f.set b v) p = le32 b p :=
  le32_paste_apart _ _ (Nat.le_trans hf.1 hn) hp

theorem get_set {n : ℕ} (hf : f.Fits n) (hn : n ≤ b.length) (v : ℕ) :
    f.get (f.set b v) = v % 2 ^ f.len := by
  have hbits : ((f.into (le32 b f.off) v).extractLsb' f.bit f.len) = BitVec.ofNat f.len v := by
    apply BitVec.eq_of_getLsbD_eq
    intro i hi
    have hfit := hf.2
    rw [BitVec.getLsbD_extractLsb', getLsbD_into _ _ _ hf.2 (by omega), BitVec.getLsbD_ofNat,
      if_pos (by omega), Nat.add_sub_cancel_left]
  unfold get bits
  rw [le32_set hf hn, hbits, BitVec.toNat_ofNat]

theorem get_set_apart {n : ℕ} (hf : f.Fits n) (hg : g.Fits n) (hn : n ≤ b.length)
    (h : f.Apart g) (v : ℕ) : g.get (f.set b v) = g.get b := by
  have hdword : f.off + 4 ≤ g.off ∨ g.off + 4 ≤ f.off → g.get (f.set b v) = g.get b := by
    intro hout
    unfold get bits
    rw [le32_set_apart hf hn v hout]
  rcases h with h | h | ⟨hoff, hbit⟩
  · exact hdword (Or.inl h)
  · exact hdword (Or.inr h)
  · unfold get bits
    rw [← hoff, le32_set hf hn]
    apply congrArg BitVec.toNat
    apply BitVec.eq_of_getLsbD_eq
    intro i hi
    have hfit := hg.2
    rw [BitVec.getLsbD_extractLsb', BitVec.getLsbD_extractLsb', getLsbD_into _ _ _ hf.2 (by omega),
      if_neg (by omega)]

/-- What stands behind the dword of a field stays. -/
theorem drop_set {n p : ℕ} (hf : f.Fits n) (hn : n ≤ b.length) (hp : n ≤ p) (v : ℕ) :
    (f.set b v).drop p = b.drop p := by
  have hlen : f.off + (Wire.putLe 4 (f.into (le32 b f.off) v)).length ≤ n := by
    rw [Wire.length_putLe]
    exact hf.1
  exact drop_paste_behind (Nat.le_trans hlen hn) (Nat.le_trans hlen hp)

/-- A field is read from the bytes that the fields are in. -/
theorem get_congr {n : ℕ} (hf : f.Fits n) {c : Bytes} (h : b.take n = c.take n) :
    f.get b = f.get c := by
  have hdword : le32 b f.off = le32 c f.off := by
    have htake : ∀ x : Bytes, (x.drop f.off).take 4 = ((x.take n).drop f.off).take 4 := by
      intro x
      have := hf.1
      rw [List.drop_take, List.take_take, Nat.min_eq_left (by omega)]
    apply le32_congr
    rw [htake, h, ← htake]
  unfold get bits
  rw [hdword]

end Field

/-! ## The fields of a record -/

/-- Named fields in the first `n` bytes, which share no bit. -/
structure Record (ι : Type*) (n : ℕ) where
  field : ι → Field
  fits : ∀ i, (field i).Fits n
  apart : ∀ i j, i ≠ j → (field i).Apart (field j)

/-- A buffer that holds a record. -/
structure Buffer (n : ℕ) where
  bytes : Bytes
  long : n ≤ bytes.length

namespace Record

variable {ι : Type*} {n : ℕ} (R : Record ι n)

def get (b : Bytes) (i : ι) : ℕ := (R.field i).get b

def set (b : Buffer n) (i : ι) (v : ℕ) : Buffer n where
  bytes := (R.field i).set b.bytes v
  long := by
    rw [length_set (R.fits i) b.long]
    exact b.long

@[simp] theorem length_set (b : Buffer n) (i : ι) (v : ℕ) :
    (R.set b i v).bytes.length = b.bytes.length :=
  Field.length_set (R.fits i) b.long v

@[simp] theorem get_set [DecidableEq ι] (b : Buffer n) (i j : ι) (v : ℕ) :
    R.get (R.set b i v).bytes j = if i = j then v % 2 ^ (R.field i).len else R.get b.bytes j := by
  split
  · next h =>
    subst h
    exact Field.get_set (R.fits i) b.long v
  · next h => exact get_set_apart (R.fits i) (R.fits j) b.long (R.apart i j h) v

@[simp] theorem drop_set (b : Buffer n) (i : ι) (v : ℕ) :
    (R.set b i v).bytes.drop n = b.bytes.drop n :=
  Field.drop_set (R.fits i) b.long (Nat.le_refl n) v

theorem get_congr {b c : Bytes} (h : b.take n = c.take n) (i : ι) : R.get b i = R.get c i :=
  Field.get_congr (R.fits i) h

/-- Fields written one after another. -/
def sets (b : Buffer n) (ws : List (ι × ℕ)) : Buffer n := ws.foldl (fun b w => R.set b w.1 w.2) b

theorem length_sets (b : Buffer n) (ws : List (ι × ℕ)) :
    (R.sets b ws).bytes.length = b.bytes.length := by
  induction ws generalizing b with
  | nil => rfl
  | cons w ws ih => exact (ih _).trans (R.length_set b w.1 w.2)

variable [DecidableEq ι]

/-- What a list of writes leaves in a field, if it is written at all: the last of them. -/
def written : List (ι × ℕ) → ι → Option ℕ
  | [], _ => none
  | w :: ws, i => (written ws i).or (if w.1 = i then some (w.2 % 2 ^ (R.field i).len) else none)

theorem written_none {ws : List (ι × ℕ)} {i : ι} (h : ∀ w ∈ ws, w.1 ≠ i) :
    R.written ws i = none := by
  induction ws with
  | nil => rfl
  | cons w ws ih =>
    rw [written, ih fun v hv => h v (List.mem_cons_of_mem w hv), if_neg (h w List.mem_cons_self)]
    rfl

theorem get_sets (b : Buffer n) (ws : List (ι × ℕ)) (i : ι) :
    R.get (R.sets b ws).bytes i = (R.written ws i).getD (R.get b.bytes i) := by
  induction ws generalizing b with
  | nil => rfl
  | cons w ws ih =>
    rw [sets, List.foldl_cons, ← sets, ih, get_set, written]
    by_cases hw : w.1 = i
    · subst hw
      cases R.written ws w.1 <;> simp
    · cases R.written ws i <;> simp [hw]

end Record

/-! ## The xor of the dwords -/

/-- The two halves of a dword, one over the other. -/
def halves (v : BitVec 32) : BitVec 16 := v.setWidth 16 ^^^ (v >>> 16).setWidth 16

/-- The first `k` dwords of a buffer, one over the other. -/
def xor16 (b : Bytes) (k : ℕ) : BitVec 16 :=
  (List.range k).foldl (fun s i => s ^^^ halves (le32 b (4 * i))) 0

theorem xor16_succ (b : Bytes) (k : ℕ) :
    xor16 b (k + 1) = xor16 b k ^^^ halves (le32 b (4 * k)) := by
  simp [xor16, List.range_succ]

theorem xor16_congr {b c : Bytes} {k : ℕ} (h : ∀ i < k, le32 b (4 * i) = le32 c (4 * i)) :
    xor16 b k = xor16 c k := by
  induction k with
  | zero => rfl
  | succ k ih =>
    rw [xor16_succ, xor16_succ, ih fun i hi => h i (Nat.lt_succ_of_lt hi), h k (Nat.lt_succ_self k)]

/-- One dword that changes by `x`, among dwords that stay. -/
theorem xor16_change {b c : Bytes} {k m : ℕ} {x : BitVec 16} (hm : m < k)
    (h : ∀ i < k, i ≠ m → le32 c (4 * i) = le32 b (4 * i))
    (hx : halves (le32 c (4 * m)) = halves (le32 b (4 * m)) ^^^ x) :
    xor16 c k = xor16 b k ^^^ x := by
  induction k with
  | zero => cases hm
  | succ k ih =>
    rw [xor16_succ, xor16_succ]
    rcases Nat.lt_succ_iff_lt_or_eq.mp hm with hlt | rfl
    · rw [ih hlt fun i hi => h i (Nat.lt_succ_of_lt hi), h k (Nat.lt_succ_self k) (by omega)]
      ac_rfl
    · rw [xor16_congr fun i hi => h i (Nat.lt_succ_of_lt hi) (by omega), hx]
      ac_rfl

end BitFields
