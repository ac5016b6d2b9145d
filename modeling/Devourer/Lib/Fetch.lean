-- Readers that fail when they read past the end of their buffer, so that a
-- decoder which never fails is one that stays inside it.
import Mathlib.Algebra.GroupWithZero.Nat
import Devourer.Lib.Wire

namespace Wire

/-- A reader of a buffer at an offset. It has no result when it reads past the end. -/
abbrev Fetch (α : Type) := ReaderT Bytes (StateT Nat Option) α

/-- The next `n` bytes as a word. -/
def fetch (w n : Nat) : Fetch (BitVec w) := fun p o =>
  if o + n ≤ p.length then some (word w n p o) else none

/-- The first `o` bytes of a buffer. -/
def first (p : Bytes) (o : Nat) : Option Bytes := if o ≤ p.length then some (p.take o) else none

/-- A reader takes `n` bytes, and only these, wherever there are as many. -/
def Takes {α : Type} (g : Fetch α) (n : Nat) : Prop :=
  ∀ p o, o + n ≤ p.length → ∃ a, g p o = some (a, o + n)

/-- A reader takes exactly these bytes, wherever they stand, for the value. -/
def Fetches {α : Type} (g : Fetch α) (x : Bytes) (a : α) : Prop :=
  ∀ front back : Bytes, g (front ++ (x ++ back)) front.length = some (a, front.length + x.length)

variable {α β : Type} {w n m o : Nat} {p : Bytes}

theorem bind_eq (g : Fetch α) (f : α → Fetch β) :
    (g >>= f) p o = (g p o).bind fun r => f r.1 p r.2 := rfl

theorem fetch_eq (h : o + n ≤ p.length) : fetch w n p o = some (word w n p o) := if_pos h

theorem first_eq (h : o ≤ p.length) : first p o = some (p.take o) := if_pos h

/-! ## Reads stay inside -/

theorem Takes.pure (a : α) : Takes (Pure.pure a) 0 := fun _ _ _ => ⟨a, rfl⟩

theorem Takes.bind {g : Fetch α} {f : α → Fetch β} (hg : Takes g n) (hf : ∀ a, Takes (f a) m) :
    Takes (g >>= f) (n + m) := by
  intro p o h
  obtain ⟨a, ha⟩ := hg p o (by omega)
  obtain ⟨b, hb⟩ := hf a p (o + n) (by omega)
  refine ⟨b, ?_⟩
  rw [bind_eq, ha, ← Nat.add_assoc]
  exact hb

/-- The fields of a record, one after another. -/
theorem Takes.cons {g : Fetch α} {f : α → Fetch β} {ns : List Nat} (hg : Takes g n)
    (hf : ∀ a, Takes (f a) ns.sum) : Takes (g >>= f) (n :: ns).sum := by
  rw [List.sum_cons]
  exact hg.bind hf

theorem Takes.nil (a : α) : Takes (Pure.pure a) ([] : List Nat).sum := Takes.pure a

theorem Takes.map {g : Fetch α} (hg : Takes g n) (f : α → β) : Takes (f <$> g) n := by
  intro p o h
  obtain ⟨a, ha⟩ := hg p o h
  exact ⟨f a, by show (g p o).bind _ = _; rw [ha]; rfl⟩

theorem takes_fetch (w n : Nat) : Takes (fetch w n) n := by
  intro p o h
  exact ⟨_, fetch_eq h⟩

/-! ## What is read back -/

theorem Fetches.pure (a : α) : Fetches (Pure.pure a) [] a := fun _ _ => rfl

theorem Fetches.bind {g : Fetch α} {f : α → Fetch β} {x y : Bytes} {a : α} {b : β}
    (hg : Fetches g x a) (hf : Fetches (f a) y b) : Fetches (g >>= f) (x ++ y) b := by
  intro front back
  have hfirst := hg front (y ++ back)
  have hrest := hf (front ++ x) back
  rw [List.append_assoc, List.length_append] at hrest
  rw [List.append_assoc, List.length_append, ← Nat.add_assoc, bind_eq, hfirst]
  exact hrest

theorem Fetches.cons {g : Fetch α} {f : α → Fetch β} {x : Bytes} {xs : List Bytes} {a : α} {b : β}
    (hg : Fetches g x a) (hf : Fetches (f a) xs.flatten b) :
    Fetches (g >>= f) (x :: xs).flatten b := by
  rw [List.flatten_cons]
  exact hg.bind hf

theorem Fetches.nil (a : α) : Fetches (Pure.pure a) ([] : List Bytes).flatten a := Fetches.pure a

theorem Fetches.map {g : Fetch α} {x : Bytes} {a : α} (hg : Fetches g x a) (f : α → β) :
    Fetches (f <$> g) x (f a) := by
  intro front back
  show (g (front ++ (x ++ back)) front.length).bind _ = _
  rw [hg front back]
  rfl

/-- The field at an offset of a buffer. -/
theorem Fetches.at {g : Fetch α} {x : Bytes} {a : α} (hg : Fetches g x a) {p u v : Bytes}
    (hp : p = u ++ (x ++ v)) {o : Nat} (ho : u.length = o) : g p o = some (a, o + x.length) := by
  subst hp ho
  exact hg u v

theorem fetches_fetch {w n : Nat} (v : BitVec w) (hn : w ≤ 8 * n) :
    Fetches (fetch w n) (putLe n v) v := by
  intro front back
  rw [fetch_eq (by simp), reads_word v hn front back]

/-! ## Readers that do not look where the buffer ends -/

/-- A reader moves its offset by `n`, whatever it reads. -/
def Moves (g : Get α) (n : Nat) : Prop := ∀ p o, (g p o).2 = o + n

theorem Moves.pure (a : α) : Moves (Pure.pure a) 0 := fun _ _ => rfl

theorem Moves.bind {g : Get α} {f : α → Get β} (hg : Moves g n) (hf : ∀ a, Moves (f a) m) :
    Moves (g >>= f) (n + m) := by
  intro p o
  calc ((g >>= f) p o).2
      = (f (g p o).1 p (g p o).2).2 := rfl
    _ = (g p o).2 + m := hf _ _ _
    _ = o + (n + m) := by rw [hg, Nat.add_assoc]

theorem Moves.cons {g : Get α} {f : α → Get β} {ns : List Nat} (hg : Moves g n)
    (hf : ∀ a, Moves (f a) ns.sum) : Moves (g >>= f) (n :: ns).sum := by
  rw [List.sum_cons]
  exact hg.bind hf

theorem Moves.nil (a : α) : Moves (Pure.pure a) ([] : List Nat).sum := Moves.pure a

theorem Moves.map {g : Get α} (hg : Moves g n) (f : α → β) : Moves (f <$> g) n :=
  fun p o => hg p o

theorem moves_word (w n : Nat) : Moves (word w n) n := fun _ _ => rfl

theorem Moves.eq {g : Get α} (hg : Moves g n) (p : Bytes) (o : Nat) :
    ∃ a, g p o = (a, o + n) := ⟨(g p o).1, Prod.ext rfl (hg p o)⟩

/-- The same reader, without a result when it has read past the end. A reader that only moves
forward has done so exactly when it stands behind the end. -/
def checked (g : Get α) : Fetch α := fun p o =>
  if (g p o).2 ≤ p.length then some (g p o) else none

theorem checked_inside {g : Get α} (hg : Moves g n) (h : o + n ≤ p.length) :
    checked g p o = some (g p o) := if_pos (by rw [hg]; exact h)

theorem checked_past {g : Get α} (hg : Moves g n) (h : p.length < o + n) :
    checked g p o = none := if_neg (by rw [hg]; omega)

/-! ## Words of the usual widths -/

def put8 (v : UInt8) : Bytes := putLe 1 v.toBitVec
def put16 (v : UInt16) : Bytes := putLe 2 v.toBitVec
def put32 (v : UInt32) : Bytes := putLe 4 v.toBitVec
def put64 (v : UInt64) : Bytes := putLe 8 v.toBitVec

def get8 : Fetch UInt8 := UInt8.ofBitVec <$> fetch 8 1
def get16 : Fetch UInt16 := UInt16.ofBitVec <$> fetch 16 2
def get32 : Fetch UInt32 := UInt32.ofBitVec <$> fetch 32 4
def get64 : Fetch UInt64 := UInt64.ofBitVec <$> fetch 64 8

@[simp] theorem length_put8 (v : UInt8) : (put8 v).length = 1 := length_putLe _ _
@[simp] theorem length_put16 (v : UInt16) : (put16 v).length = 2 := length_putLe _ _
@[simp] theorem length_put32 (v : UInt32) : (put32 v).length = 4 := length_putLe _ _
@[simp] theorem length_put64 (v : UInt64) : (put64 v).length = 8 := length_putLe _ _

theorem takes_get8 : Takes get8 1 := (takes_fetch 8 1).map _
theorem takes_get16 : Takes get16 2 := (takes_fetch 16 2).map _
theorem takes_get32 : Takes get32 4 := (takes_fetch 32 4).map _
theorem takes_get64 : Takes get64 8 := (takes_fetch 64 8).map _

theorem fetches_put8 (v : UInt8) : Fetches get8 (put8 v) v :=
  (fetches_fetch v.toBitVec (by decide)).map UInt8.ofBitVec

theorem fetches_put16 (v : UInt16) : Fetches get16 (put16 v) v :=
  (fetches_fetch v.toBitVec (by decide)).map UInt16.ofBitVec

theorem fetches_put32 (v : UInt32) : Fetches get32 (put32 v) v :=
  (fetches_fetch v.toBitVec (by decide)).map UInt32.ofBitVec

theorem fetches_put64 (v : UInt64) : Fetches get64 (put64 v) v :=
  (fetches_fetch v.toBitVec (by decide)).map UInt64.ofBitVec

end Wire
