-- The CCMP replay windows, one for each traffic id, against the sets of
-- packet numbers that they stand for.
import Mathlib.Logic.Function.Basic
import Devourer.Lib.Runs
import Devourer.Lib.SlidingWindow

namespace devourer.sta

open SlidingWindow (Window History Represents)

/-! ## The windows -/

namespace CcmpReplay

def kNonQosTid : Int := 16
def kSlots : Nat := 17
def kWindow : UInt64 := 64

end CcmpReplay

open CcmpReplay in
/-- `class CcmpReplay`: three arrays, indexed by the traffic id. Bit 0 of a mask stands for
`last_` itself. -/
structure CcmpReplay where
  last_ : Fin kSlots → UInt64 := fun _ => 0
  mask_ : Fin kSlots → UInt64 := fun _ => 0
  seen_ : Fin kSlots → Bool := fun _ => false

namespace CcmpReplay

/-- `accept` on a traffic id that has a window. -/
def accept_slot (r : CcmpReplay) (pn : UInt64) (i : Fin kSlots) : CcmpReplay × Bool :=
  if !r.seen_ i then
    ({ seen_ := Function.update r.seen_ i true
       last_ := Function.update r.last_ i pn
       mask_ := Function.update r.mask_ i 1 }, true)
  else if pn > r.last_ i then
    let shift := pn - r.last_ i
    ({ r with
       mask_ := Function.update r.mask_ i
         (if shift ≥ kWindow then 1 else (r.mask_ i <<< shift) ||| 1)
       last_ := Function.update r.last_ i pn }, true)
  else
    let behind := r.last_ i - pn
    if behind ≥ kWindow then (r, false)
    else
      let bit := (1 : UInt64) <<< behind
      if r.mask_ i &&& bit ≠ 0 then (r, false)
      else ({ r with mask_ := Function.update r.mask_ i (r.mask_ i ||| bit) }, true)

def accept (r : CcmpReplay) (pn : UInt64) (tid : Int) : CcmpReplay × Bool :=
  if pn = 0 then (r, false)
  else if h : tid < 0 ∨ tid ≥ kSlots then (r, false)
  else r.accept_slot pn ⟨tid.toNat, by omega⟩

def seed (_ : CcmpReplay) (pn : UInt64) : CcmpReplay :=
  { last_ := fun _ => pn
    mask_ := fun _ => if pn ≠ 0 then ~~~0 else 0
    seen_ := fun _ => decide (pn ≠ 0) }

def reset (_ : CcmpReplay) : CcmpReplay := {}

/-! ## One slot is one window -/

/-- The window of one traffic id. -/
def slot (r : CcmpReplay) (i : Fin kSlots) : Window 64 :=
  ⟨(r.last_ i).toNat, (r.mask_ i).toBitVec, r.seen_ i⟩

/-- The two machines hold the same for traffic id `j`. -/
structure SameSlot (r r' : CcmpReplay) (j : Fin kSlots) : Prop where
  last : r'.last_ j = r.last_ j
  mask : r'.mask_ j = r.mask_ j
  seen : r'.seen_ j = r.seen_ j

theorem slot_of_same {r r' : CcmpReplay} {j : Fin kSlots} (h : SameSlot r r' j) :
    r'.slot j = r.slot j := by
  unfold slot
  rw [h.last, h.mask, h.seen]

theorem toNat_sub_of_lt {a b : UInt64} (h : b < a) : (a - b).toNat = a.toNat - b.toNat :=
  UInt64.toNat_sub_of_le _ _ (UInt64.le_of_lt h)

/-- The shift of the mask, for the shifts that the code makes. -/
theorem toBitVec_shift {m s : UInt64} (h : s < kWindow) :
    (m <<< s).toBitVec = m.toBitVec <<< s.toNat := by
  have hs : s.toNat < 64 := UInt64.lt_iff_toNat_lt.mp h
  rw [UInt64.toBitVec_shiftLeft]
  show m.toBitVec <<< (s.toBitVec % 64).toNat = _
  rw [BitVec.toNat_umod]
  show m.toBitVec <<< (s.toNat % 64) = _
  rw [Nat.mod_eq_of_lt hs]

theorem toBitVec_bit {s : UInt64} (h : s < kWindow) :
    ((1 : UInt64) <<< s).toBitVec = BitVec.twoPow 64 s.toNat := by
  rw [toBitVec_shift h]
  rfl

/-- The test of one bit of the mask. -/
theorem and_bit_ne_zero {m s : UInt64} (h : s < kWindow) :
    m &&& (1 <<< s) ≠ 0 ↔ m.toBitVec.getLsbD s.toNat = true := by
  have hs : s.toNat < 64 := UInt64.lt_iff_toNat_lt.mp h
  have hz : m &&& (1 <<< s) = 0 ↔ (m.toBitVec &&& BitVec.twoPow 64 s.toNat) = 0#64 := by
    rw [← toBitVec_bit h, ← UInt64.toBitVec_and]
    exact ⟨fun he => by rw [he]; rfl, fun he => UInt64.toBitVec_inj.mp he⟩
  rw [ne_eq, hz, BitVec.and_twoPow]
  cases hb : m.toBitVec.getLsbD s.toNat with
  | false => simp
  | true =>
    simp only [if_true, iff_true]
    intro h0
    have := congrArg (BitVec.getLsbD · s.toNat) h0
    simp [hs] at this

/-- The answer on one slot is the answer of its window; a refusal changes nothing, and the
other slots never change. -/
theorem accept_slot_eq (r : CcmpReplay) {pn : UInt64} (hpn : pn ≠ 0) (i : Fin kSlots) :
    match SlidingWindow.accept (r.slot i) pn.toNat with
    | none => r.accept_slot pn i = (r, false)
    | some y => (r.accept_slot pn i).2 = true ∧ (r.accept_slot pn i).1.slot i = y ∧
        ∀ j, j ≠ i → SameSlot r (r.accept_slot pn i).1 j := by
  have hn : pn.toNat ≠ 0 := fun h => hpn (UInt64.toNat_inj.mp h)
  unfold SlidingWindow.accept accept_slot slot
  dsimp only
  rw [if_neg hn]
  by_cases hseen : r.seen_ i = true
  · simp only [hseen, Bool.not_true, Bool.false_eq_true, if_false]
    by_cases hnew : pn > r.last_ i
    · have hsub : (pn - r.last_ i).toNat = pn.toNat - (r.last_ i).toNat := toNat_sub_of_lt hnew
      have hge : pn - r.last_ i ≥ kWindow ↔ 64 ≤ pn.toNat - (r.last_ i).toNat := by
        rw [← hsub]
        exact UInt64.le_iff_toNat_le
      rw [if_pos hnew, if_pos (UInt64.lt_iff_toNat_lt.mp hnew)]
      refine ⟨rfl, ?_, ?_⟩
      · simp only [Function.update_self, hseen]
        by_cases hj : pn - r.last_ i ≥ kWindow
        · rw [if_pos hj, if_pos (hge.mp hj)]
          rfl
        · rw [if_neg hj, if_neg (fun h => hj (hge.mpr h)), UInt64.toBitVec_or,
            toBitVec_shift (UInt64.not_le.mp hj), hsub]
          rfl
      · intro j hj
        exact ⟨Function.update_of_ne hj _ _, Function.update_of_ne hj _ _, rfl⟩
    · have hsub : (r.last_ i - pn).toNat = (r.last_ i).toNat - pn.toNat :=
        UInt64.toNat_sub_of_le _ _ (UInt64.not_lt.mp hnew)
      have hge : r.last_ i - pn ≥ kWindow ↔ 64 ≤ (r.last_ i).toNat - pn.toNat := by
        rw [← hsub]
        exact UInt64.le_iff_toNat_le
      rw [if_neg hnew, if_neg (fun h => hnew (UInt64.lt_iff_toNat_lt.mpr h))]
      by_cases hold : r.last_ i - pn ≥ kWindow
      · rw [if_pos hold, if_pos (hge.mp hold)]
      · have hlt := UInt64.not_le.mp hold
        have hbit := and_bit_ne_zero (m := r.mask_ i) hlt
        rw [hsub] at hbit
        rw [if_neg hold, if_neg (fun h => hold (hge.mpr h))]
        by_cases hset : r.mask_ i &&& 1 <<< (r.last_ i - pn) ≠ 0
        · rw [if_pos hset, if_pos (hbit.mp hset)]
        · rw [if_neg hset, if_neg (fun h => hset (hbit.mpr h))]
          refine ⟨rfl, ?_, ?_⟩
          · simp only [Function.update_self, hseen]
            rw [UInt64.toBitVec_or, toBitVec_bit hlt, hsub]
          · intro j hj
            exact ⟨rfl, Function.update_of_ne hj _ _, rfl⟩
  · rw [Bool.not_eq_true] at hseen
    simp only [hseen, Bool.not_false, if_true]
    refine ⟨trivial, ?_, ?_⟩
    · simp only [Function.update_self]
      rfl
    · intro j hj
      exact ⟨Function.update_of_ne hj _ _, Function.update_of_ne hj _ _,
        Function.update_of_ne hj _ _⟩

/-! ## Runs -/

inductive Op
  | accept (pn : UInt64) (tid : Int)
  | seed (pn : UInt64)
  | reset

def step (r : CcmpReplay) : Op → CcmpReplay
  | .accept pn tid => (r.accept pn tid).1
  | .seed pn => r.seed pn
  | .reset => r.reset

/-- The windows after a list of calls on fresh ones. -/
def run (ops : List Op) : CcmpReplay := Runs.after step {} ops

/-- One call, with the numbers that traffic id `t` took since the last seed kept beside. -/
def observe (t : Int) (p : CcmpReplay × History) (op : Op) : CcmpReplay × History :=
  (p.1.step op,
    match op with
    | .accept pn tid => if tid = t ∧ (p.1.accept pn tid).2 = true then p.2.note pn.toNat else p.2
    | .seed pn => { seed := pn.toNat }
    | .reset => {})

/-- The seed in force and the numbers that `accept` took on traffic id `t` since. -/
def history (t : Int) (ops : List Op) : History := (Runs.after (observe t) ({}, {}) ops).2

theorem observe_run (t : Int) (ops : List Op) :
    (Runs.after (observe t) ({}, {}) ops).1 = run ops := by
  unfold run
  induction ops using List.reverseRecOn with
  | nil => rfl
  | append_singleton ops op ih => rw [Runs.after_snoc, Runs.after_snoc, ← ih]; rfl

theorem slot_seed (r : CcmpReplay) (pn : UInt64) (i : Fin kSlots) :
    (r.seed pn).slot i = SlidingWindow.seeded pn.toNat := by
  have hz : pn.toNat = 0 ↔ pn = 0 := ⟨fun h => UInt64.toNat_inj.mp h, fun h => by rw [h]; rfl⟩
  unfold slot seed SlidingWindow.seeded
  by_cases h : pn = 0
  · simp [h]
  · simp [h, hz]

/-- A traffic id that has a window is its index. -/
theorem accept_in_range (r : CcmpReplay) {pn : UInt64} (hpn : pn ≠ 0) (i : Fin kSlots) :
    r.accept pn (i : Nat) = r.accept_slot pn i := by
  have hi := i.isLt
  unfold accept
  rw [if_neg hpn, dif_neg (by omega)]
  rfl

theorem accept_zero (r : CcmpReplay) (tid : Int) : r.accept 0 tid = (r, false) := by
  unfold accept
  rw [if_pos rfl]

theorem accept_out_of_range (r : CcmpReplay) (pn : UInt64) {tid : Int}
    (h : tid < 0 ∨ tid ≥ kSlots) : r.accept pn tid = (r, false) := by
  unfold accept
  by_cases hpn : pn = 0
  · rw [if_pos hpn]
  · rw [if_neg hpn, dif_pos h]

/-- Every traffic id is out of range or the index of a window. -/
theorem tid_cases (tid : Int) : (tid < 0 ∨ tid ≥ kSlots) ∨ ∃ i : Fin kSlots, tid = (i : Nat) := by
  by_cases h : tid < 0 ∨ tid ≥ kSlots
  · exact Or.inl h
  · rw [not_or] at h
    refine Or.inr ⟨⟨tid.toNat, by omega⟩, ?_⟩
    simp only
    omega

/-- What `accept` does to the windows, its own and the others. -/
theorem accept_effect (r : CcmpReplay) (pn : UInt64) (tid : Int) :
    r.accept pn tid = (r, false) ∨
      ∃ i : Fin kSlots, tid = (i : Nat) ∧ (r.accept pn tid).2 = true ∧
        SlidingWindow.accept (r.slot i) pn.toNat = some ((r.accept pn tid).1.slot i) ∧
        ∀ j, j ≠ i → SameSlot r (r.accept pn tid).1 j := by
  by_cases hpn : pn = 0
  · rw [hpn]
    exact Or.inl (accept_zero r tid)
  rcases tid_cases tid with hout | ⟨i, rfl⟩
  · exact Or.inl (accept_out_of_range r pn hout)
  have he := accept_slot_eq r hpn i
  rw [accept_in_range r hpn i]
  cases hw : SlidingWindow.accept (r.slot i) pn.toNat with
  | none =>
    rw [hw] at he
    exact Or.inl he
  | some y =>
    rw [hw] at he
    obtain ⟨h1, h2, h3⟩ := he
    exact Or.inr ⟨i, rfl, h1, by rw [h2, hw], h3⟩

/-- Each window stands for the history of its traffic id. -/
theorem represents_history (i : Fin kSlots) (ops : List Op) :
    Represents ((run ops).slot i) (history (i : Nat) ops) := by
  rw [← observe_run (i : Nat) ops]
  unfold history
  refine Runs.after_keeps (P := fun p : CcmpReplay × History => Represents (p.1.slot i) p.2)
    (observe (i : Nat)) ({}, {}) ?_ ?_ ops
  · exact SlidingWindow.seeded_represents 0
  intro p op hr
  cases op with
  | seed pn =>
    show Represents ((p.1.seed pn).slot i) { seed := pn.toNat }
    rw [slot_seed]
    exact SlidingWindow.seeded_represents _
  | reset => exact SlidingWindow.seeded_represents 0
  | accept pn tid =>
    show Represents ((p.1.accept pn tid).1.slot i)
      (if tid = (i : Nat) ∧ (p.1.accept pn tid).2 = true then p.2.note pn.toNat else p.2)
    rcases accept_effect p.1 pn tid with hrej | ⟨j, rfl, hacc, hw, hothers⟩
    · simp only [hrej, Bool.false_eq_true, and_false, if_false]
      exact hr
    · by_cases hij : i = j
      · subst hij
        rw [if_pos ⟨rfl, hacc⟩]
        exact SlidingWindow.accept_represents (by decide) hr hw
      · have hne : ¬(((j : Nat) : Int) = (i : Nat) ∧ (p.1.accept pn (j : Nat)).2 = true) := by
          rintro ⟨h, -⟩
          exact hij (Fin.ext (by omega))
        rw [if_neg hne, slot_of_same (hothers i hij)]
        exact hr

/-- The replay window is its set: after any calls, `accept` says yes exactly to a number
that is new on its traffic id, above the seed and within 64 of the highest one. A refusal
changes nothing, and no other traffic id changes either way. -/
theorem accept_is_the_set (ops : List Op) (pn : UInt64) (t : Int) :
    (((run ops).accept pn t).2 = true ↔
      0 ≤ t ∧ t < 17 ∧ 1 ≤ pn.toNat ∧ pn.toNat ∉ (history t ops).accepted ∧
        (history t ops).seed < pn.toNat ∧ (history t ops).highest < pn.toNat + 64) ∧
    (((run ops).accept pn t).2 = false → ((run ops).accept pn t).1 = run ops) ∧
    (∀ j : Fin kSlots, ((j : Nat) : Int) ≠ t → SameSlot (run ops) ((run ops).accept pn t).1 j) := by
  refine ⟨?_, ?_, ?_⟩
  · by_cases hpn : pn = 0
    · subst hpn
      rw [accept_zero]
      simp
    rcases tid_cases t with hout | ⟨i, rfl⟩
    · rw [accept_out_of_range _ _ hout]
      unfold kSlots at hout
      simp only [Bool.false_eq_true, false_iff]
      omega
    have hi := i.isLt
    unfold kSlots at hi
    have hset := SlidingWindow.accept_isSome_iff (represents_history i ops) pn.toNat
    have he := accept_slot_eq (run ops) hpn i
    have hanswer : ((run ops).accept pn (i : Nat)).2 = true ↔
        (SlidingWindow.accept ((run ops).slot i) pn.toNat).isSome = true := by
      rw [accept_in_range _ hpn]
      cases hw : SlidingWindow.accept ((run ops).slot i) pn.toNat with
      | none =>
        rw [hw] at he
        rw [he]
        simp
      | some y =>
        rw [hw] at he
        rw [he.1]
        simp
    rw [hanswer, hset]
    constructor
    · rintro ⟨h1, h2, h3, h4⟩
      exact ⟨by omega, by omega, h1, h2, h3, h4⟩
    · rintro ⟨-, -, h1, h2, h3, h4⟩
      exact ⟨h1, h2, h3, h4⟩
  · intro hrej
    rcases accept_effect (run ops) pn t with h | ⟨i, -, hacc, -⟩
    · rw [h]
    · rw [hacc] at hrej
      cases hrej
  · intro j hj
    rcases accept_effect (run ops) pn t with h | ⟨i, rfl, -, -, hothers⟩
    · rw [h]
      exact ⟨rfl, rfl, rfl⟩
    · exact hothers j (fun h => hj (by rw [h]))

/-- The law on a number that comes twice, after a seed and a jump. -/
theorem a_number_is_taken_once :
    ((run [.seed 5, .accept 10 3, .accept 7 3]).accept 7 3).2 = false ∧
      ((run [.seed 5, .accept 10 3, .accept 7 3]).accept 7 3).1 =
        run [.seed 5, .accept 10 3, .accept 7 3] := by
  have h : ((run [.seed 5, .accept 10 3, .accept 7 3]).accept 7 3).2 = false := by decide +kernel
  exact ⟨h, (accept_is_the_set [.seed 5, .accept 10 3, .accept 7 3] 7 3).2.1 h⟩

end CcmpReplay

end devourer.sta
