-- Two readers of packets in segments: one that drops the packet it holds at anything
-- but its next segment, and one that holds it across bad segments and whole packets.
import Devourer.Lib.Segments
import Mathlib.Data.List.Induction

namespace Segments

variable {α : Type*}

/-! ## Two readers -/

structure Reader (α : Type*) where
  /-- What has come of the packet that is held. -/
  pending : Option (List α) := none
  out : List (List α) := []

namespace Reader

/-- A segment that is not the first of its packet. -/
def add (s : Reader α) (x : Segment α) : Reader α :=
  match s.pending with
  | none => s
  | some p =>
    if x.last then { pending := none, out := s.out ++ [p ++ x.data] }
    else { s with pending := some (p ++ x.data) }

/-- The reader that drops the packet it holds at anything but its next segment. -/
def strict (s : Reader α) (x : Segment α) : Reader α :=
  if !x.good then { s with pending := none }
  else if x.first && x.last then { pending := none, out := s.out ++ [x.data] }
  else if x.first then { s with pending := some x.data }
  else s.add x

/-- The reader that holds it until another packet begins. -/
def lax (s : Reader α) (x : Segment α) : Reader α :=
  if !x.good then s
  else if x.first && x.last then { s with out := s.out ++ [x.data] }
  else if x.first then { s with pending := some x.data }
  else s.add x

end Reader

section

variable {xs : List (Segment α)} {x : Segment α} {i j : ℕ}

/-! ## The strict reader -/

theorem grows_append : Grows (xs ++ [x]) i ↔
    (Grows xs i ∧ x.continues = true) ∨ (i = xs.length ∧ x.begins = true) := by
  constructor
  · rintro ⟨hi, hrest⟩
    rcases at_append.mp hi with hi | ⟨rfl, hx⟩
    · obtain ⟨hrest, hx⟩ := (unbroken_append hi.lt).mp hrest
      exact .inl ⟨⟨hi, hrest⟩, hx⟩
    · exact .inr ⟨rfl, hx⟩
  · rintro (⟨⟨hi, hrest⟩, hx⟩ | ⟨rfl, hx⟩)
    · exact ⟨(at_before hi.lt).mpr hi, (unbroken_append hi.lt).mpr ⟨hrest, hx⟩⟩
    · exact ⟨at_last.mpr hx, unbroken_self x⟩

/-- What has come from place `i` on. -/
def tail (xs : List (Segment α)) (i : ℕ) : List α := (xs.drop i).flatMap Segment.data

theorem tail_append (hi : i ≤ xs.length) : tail (xs ++ [x]) i = tail xs i ++ x.data := by
  unfold tail
  rw [List.drop_append_of_le_length hi, List.flatMap_append, List.flatMap_singleton]

theorem tail_self (x : Segment α) : tail (xs ++ [x]) xs.length = x.data := by
  rw [tail_append (Nat.le_refl _), tail, List.drop_length, List.flatMap_nil, List.nil_append]

theorem payload_eq_tail (i : ℕ) : payload (xs ++ [x]) i xs.length = tail (xs ++ [x]) i := by
  unfold payload tail
  rw [List.take_of_length_le (by simp)]

/-- The strict reader holds the packet that grows, and has delivered what is to be delivered. -/
structure Strict (xs : List (Segment α)) (s : Reader α) : Prop where
  pending : ∀ p, s.pending = some p ↔ ∃ i, Grows xs i ∧ p = tail xs i
  delivers : Delivers xs s.out

/-- A segment that neither begins nor continues a packet leaves none. -/
theorem not_grows (hbegins : x.begins = false) (hcontinues : x.continues = false) (i : ℕ) :
    ¬ Grows (xs ++ [x]) i := by
  rw [grows_append]
  simp [hbegins, hcontinues]

/-- A segment that is no last one ends no run. -/
theorem not_isRun (hwhole : x.whole = false) (hends : x.ends = false) (i : ℕ) :
    ¬ IsRun (xs ++ [x]) i xs.length := by
  rw [isRun_last]
  simp [hwhole, hends]

section

variable {s : Reader α}

theorem Strict.drop (h : Strict xs s) (hwhole : x.whole = false) (hends : x.ends = false)
    (hbegins : x.begins = false) (hcontinues : x.continues = false) :
    Strict (xs ++ [x]) { s with pending := none } where
  pending p := by
    constructor
    · exact fun hp => by cases hp
    · rintro ⟨i, hi, -⟩
      exact absurd hi (not_grows hbegins hcontinues i)
  delivers := h.delivers.keep (not_isRun hwhole hends)

theorem Strict.deliver (h : Strict xs s) {i : ℕ} (hi : IsRun (xs ++ [x]) i xs.length)
    (hbegins : x.begins = false) (hcontinues : x.continues = false) :
    Strict (xs ++ [x]) { pending := none, out := s.out ++ [tail (xs ++ [x]) i] } where
  pending p := by
    constructor
    · exact fun hp => by cases hp
    · rintro ⟨j, hj, -⟩
      exact absurd hj (not_grows hbegins hcontinues j)
  delivers := by
    rw [← payload_eq_tail]
    exact h.delivers.deliver hi

theorem Strict.begin (h : Strict xs s) (hwhole : x.whole = false) (hends : x.ends = false)
    (hbegins : x.begins = true) (hcontinues : x.continues = false) :
    Strict (xs ++ [x]) { s with pending := some x.data } where
  pending p := by
    constructor
    · intro hp
      obtain rfl := Option.some.inj hp
      exact ⟨xs.length, grows_append.mpr (.inr ⟨rfl, hbegins⟩), (tail_self x).symm⟩
    · rintro ⟨i, hi, rfl⟩
      rcases grows_append.mp hi with ⟨-, hx⟩ | ⟨rfl, -⟩
      · exact absurd (hx.symm.trans hcontinues) (by simp)
      · rw [tail_self]
  delivers := h.delivers.keep (not_isRun hwhole hends)

/-- A segment that is not the first of its packet: the packet grows, is delivered, or is none. -/
theorem Strict.add (h : Strict xs s) (hgood : x.good = true) (hfirst : x.first = false) :
    Strict (xs ++ [x]) (s.add x) := by
  have hwhole : x.whole = false := by simp [Segment.whole, hfirst]
  have hbegins : x.begins = false := by simp [Segment.begins, hfirst]
  unfold Reader.add
  rcases hp : s.pending with - | p
  · have hnone : ∀ i, ¬ Grows xs i := by
      intro i hi
      have hsome := (h.pending _).mpr ⟨i, hi, rfl⟩
      rw [hp] at hsome
      cases hsome
    constructor
    · intro p
      rw [hp]
      constructor
      · exact fun hf => by cases hf
      · rintro ⟨i, hi, -⟩
        rcases grows_append.mp hi with ⟨hi, -⟩ | ⟨-, hx⟩
        · exact absurd hi (hnone i)
        · exact absurd (hx.symm.trans hbegins) (by simp)
    · apply h.delivers.keep
      intro i hi
      rcases isRun_last.mp hi with ⟨-, hx⟩ | ⟨-, hx⟩
      · exact absurd (hx.symm.trans hwhole) (by simp)
      · exact hnone i hx
  · obtain ⟨i, hi, rfl⟩ := (h.pending p).mp hp
    have hle : i ≤ xs.length := Nat.le_of_lt hi.1.lt
    simp only [← tail_append hle]
    split
    · next hlast =>
      have hends : x.ends = true := by simp [Segment.ends, hgood, hfirst, hlast]
      have hcontinues : x.continues = false := by simp [Segment.continues, hlast]
      exact h.deliver (isRun_last.mpr (.inr ⟨hends, hi⟩)) hbegins hcontinues
    · next hlast =>
      have hends : x.ends = false := by simp [Segment.ends, hlast]
      have hcontinues : x.continues = true := by simp [Segment.continues, hgood, hfirst, hlast]
      refine ⟨?_, h.delivers.keep (not_isRun hwhole hends)⟩
      intro p
      constructor
      · intro hsome
        exact ⟨i, grows_append.mpr (.inl ⟨hi, hcontinues⟩), (Option.some.inj hsome).symm⟩
      · rintro ⟨j, hj, rfl⟩
        rcases grows_append.mp hj with ⟨hj, -⟩ | ⟨-, hx⟩
        · have hsame : tail xs i = tail xs j := by
            have hj' := (h.pending _).mpr ⟨j, hj, rfl⟩
            exact Option.some.inj (hp.symm.trans hj')
          rw [tail_append hle, tail_append (Nat.le_of_lt hj.1.lt), hsame]
        · exact absurd (hx.symm.trans hbegins) (by simp)

theorem Strict.next (h : Strict xs s) (x : Segment α) : Strict (xs ++ [x]) (s.strict x) := by
  unfold Reader.strict
  rcases hgood : x.good
  · exact h.drop (by simp [Segment.whole, hgood]) (by simp [Segment.ends, hgood])
      (by simp [Segment.begins, hgood]) (by simp [Segment.continues, hgood])
  rcases hfirst : x.first
  · exact h.add hgood hfirst
  have hcontinues : x.continues = false := by simp [Segment.continues, hfirst]
  rcases hlast : x.last
  · exact h.begin (by simp [Segment.whole, hlast]) (by simp [Segment.ends, hlast])
      (by simp [Segment.begins, hgood, hfirst, hlast]) hcontinues
  · have hwhole : x.whole = true := by simp [Segment.whole, hgood, hfirst, hlast]
    have hdone := h.deliver (isRun_last.mpr (.inl ⟨rfl, hwhole⟩))
      (by simp [Segment.begins, hlast]) hcontinues
    rwa [tail_self] at hdone

end

theorem strict_run (xs : List (Segment α)) : Strict xs (xs.foldl Reader.strict {}) := by
  induction xs using List.reverseRecOn with
  | nil =>
    constructor
    · intro p
      constructor
      · exact fun hp => by cases hp
      · rintro ⟨i, hi, -⟩
        exact absurd hi.1.lt (Nat.not_lt_zero i)
    · refine ⟨[], List.Pairwise.nil, ?_, rfl⟩
      intro i j
      constructor
      · exact fun hr => absurd hr List.not_mem_nil
      · exact fun hr => absurd hr.lt (Nat.not_lt_zero j)
  | append_singleton xs x ih =>
    rw [List.foldl_append]
    exact ih.next x

/-! ## The lax reader -/

/-- The two readers side by side: the lax one also holds the packet that something came into, and
has delivered more once it has spliced. -/
structure Beside (xs : List (Segment α)) (l s : Reader α) : Prop where
  held : l.pending.isSome = true ↔ ∃ i, Held xs i
  kept : s.pending.isSome = true ↔ ∃ i, Held xs i ∧ Unbroken xs i
  same : ∀ p, s.pending = some p → l.pending = some p
  out : (¬ Splices xs ∧ l.out = s.out) ∨ (Splices xs ∧ s.out.length < l.out.length)

section

variable {l s : Reader α}

theorem splices_keep (hends : x.ends = false) : Splices (xs ++ [x]) ↔ Splices xs := by
  rw [splices_append]
  simp [hends]

/-- A segment that the lax reader holds its packet across. Both may deliver it. -/
theorem Beside.across (h : Beside xs l s) (hbegins : x.begins = false) (hends : x.ends = false)
    (hcontinues : x.continues = false) (more : List (List α)) :
    Beside (xs ++ [x]) { l with out := l.out ++ more }
      { pending := none, out := s.out ++ more } where
  held := by
    refine h.held.trans (exists_congr fun i => ?_)
    rw [held_append]
    simp [hbegins, hends]
  kept := by
    refine iff_of_false (by simp) ?_
    rintro ⟨i, hi, hrest⟩
    rcases held_append.mp hi with ⟨hi, -⟩ | ⟨-, hx⟩
    · have hx := ((unbroken_append hi.1.lt).mp hrest).2
      exact absurd (hx.symm.trans hcontinues) (by simp)
    · exact absurd (hx.symm.trans hbegins) (by simp)
  same p hp := by cases hp
  out := by
    rw [splices_keep hends]
    rcases h.out with ⟨hno, heq⟩ | ⟨hsplice, hlt⟩
    · exact .inl ⟨hno, by rw [heq]⟩
    · refine .inr ⟨hsplice, ?_⟩
      simp only [List.length_append]
      omega

theorem Beside.begin (h : Beside xs l s) (hbegins : x.begins = true) (hends : x.ends = false) :
    Beside (xs ++ [x]) { l with pending := some x.data } { s with pending := some x.data } where
  held := iff_of_true rfl ⟨xs.length, held_append.mpr (.inr ⟨rfl, hbegins⟩)⟩
  kept := iff_of_true rfl
    ⟨xs.length, held_append.mpr (.inr ⟨rfl, hbegins⟩), unbroken_self x⟩
  same p hp := hp
  out := by
    rw [splices_keep hends]
    exact h.out

theorem Beside.length_le (h : Beside xs l s) : s.out.length ≤ l.out.length := by
  rcases h.out with ⟨-, heq⟩ | ⟨-, hlt⟩
  · exact Nat.le_of_eq (congrArg List.length heq.symm)
  · exact Nat.le_of_lt hlt

/-- A last segment comes: what is held is delivered, by the lax reader also when something came
into it. -/
theorem Beside.finish (h : Beside xs l s) (hbegins : x.begins = false) (hends : x.ends = true)
    (hlast : x.last = true) : Beside (xs ++ [x]) (l.add x) (s.add x) := by
  have hnone : ∀ r : Reader α, (r.add x).pending = none := by
    intro r
    unfold Reader.add
    rcases hr : r.pending with - | p <;> simp [hr, hlast]
  have hheld : ∀ i, ¬ Held (xs ++ [x]) i := by
    intro i
    rw [held_append]
    simp [hbegins, hends]
  have hsplices : Splices (xs ++ [x]) ↔ Splices xs ∨ ∃ i, Held xs i ∧ ¬ Unbroken xs i := by
    rw [splices_append]
    simp only [hends, true_and]
  constructor
  · rw [hnone]
    exact iff_of_false (by simp) fun ⟨i, hi⟩ => hheld i hi
  · rw [hnone]
    exact iff_of_false (by simp) fun ⟨i, hi, _⟩ => hheld i hi
  · intro p hp
    rw [hnone] at hp
    cases hp
  · rw [hsplices]
    rcases hl : l.pending with - | p
    · have hno : ∀ i, ¬ Held xs i := by
        intro i hi
        have hsome := h.held.mpr ⟨i, hi⟩
        rw [hl] at hsome
        cases hsome
      have hs : s.pending = none := by
        rcases hs : s.pending with - | q
        · rfl
        · exact absurd (hl.symm.trans (h.same q hs)) (by simp)
      have hsame : ∀ r : Reader α, r.pending = none → r.add x = r := by
        intro r hr
        simp [Reader.add, hr]
      have hkeep : (Splices xs ∨ ∃ i, Held xs i ∧ ¬ Unbroken xs i) ↔ Splices xs :=
        or_iff_left fun ⟨i, hi⟩ => hno i hi.1
      rw [hsame l hl, hsame s hs, hkeep]
      exact h.out
    · obtain ⟨i, hi⟩ := h.held.mp (by rw [hl]; rfl)
      have hgive : ∀ (r : Reader α) q, r.pending = some q →
          (r.add x).out = r.out ++ [q ++ x.data] := by
        intro r q hr
        simp [Reader.add, hr, hlast]
      rw [hgive l p hl]
      rcases hs : s.pending with - | q
      · have hbroken : ¬ Unbroken xs i := by
          intro hrest
          have hsome := h.kept.mpr ⟨i, hi, hrest⟩
          rw [hs] at hsome
          cases hsome
        have hsame : s.add x = s := by simp [Reader.add, hs]
        refine .inr ⟨.inr ⟨i, hi, hbroken⟩, ?_⟩
        rw [hsame, List.length_append, List.length_singleton]
        exact Nat.lt_succ_of_le h.length_le
      · obtain ⟨j, hj, hrest⟩ := h.kept.mp (by rw [hs]; rfl)
        have hkeep : (Splices xs ∨ ∃ i, Held xs i ∧ ¬ Unbroken xs i) ↔ Splices xs := by
          apply or_iff_left
          rintro ⟨i, hi, hbroken⟩
          exact hbroken (hi.unique hj ▸ hrest)
        have hq : p = q := Option.some.inj (hl.symm.trans (h.same q hs))
        rw [hgive s q hs, hq, hkeep]
        rcases h.out with ⟨hno, heq⟩ | ⟨hsplice, hlt⟩
        · exact .inl ⟨hno, by rw [heq]⟩
        · refine .inr ⟨hsplice, ?_⟩
          simp only [List.length_append]
          omega

theorem Beside.add (h : Beside xs l s) (hgood : x.good = true) (hfirst : x.first = false) :
    Beside (xs ++ [x]) (l.add x) (s.add x) := by
  have hbegins : x.begins = false := by simp [Segment.begins, hfirst]
  rcases hlast : x.last
  · -- the packet goes on in both, if it is held
    have hends : x.ends = false := by simp [Segment.ends, hlast]
    have hcontinues : x.continues = true := by simp [Segment.continues, hgood, hfirst, hlast]
    have hheld : ∀ i, Held (xs ++ [x]) i ↔ Held xs i := by
      intro i
      rw [held_append]
      simp [hbegins, hends]
    have hkept : ∀ i, Held (xs ++ [x]) i ∧ Unbroken (xs ++ [x]) i ↔ Held xs i ∧ Unbroken xs i := by
      intro i
      rw [hheld]
      refine and_congr_right fun hi => ?_
      rw [unbroken_append hi.1.lt]
      exact and_iff_left hcontinues
    have hadd : ∀ r : Reader α, (r.add x).pending = r.pending.map (· ++ x.data) ∧
        (r.add x).out = r.out := by
      intro r
      unfold Reader.add
      rcases hr : r.pending with - | p <;> simp [hr, hlast]
    obtain ⟨hl, hlout⟩ := hadd l
    obtain ⟨hs, hsout⟩ := hadd s
    constructor
    · rw [hl, Option.isSome_map, h.held]
      exact exists_congr fun i => (hheld i).symm
    · rw [hs, Option.isSome_map, h.kept]
      exact exists_congr fun i => (hkept i).symm
    · intro p hp
      rw [hs] at hp
      obtain ⟨q, hq, rfl⟩ := Option.map_eq_some_iff.mp hp
      rw [hl, h.same q hq]
      rfl
    · rw [splices_keep hends, hlout, hsout]
      exact h.out
  · exact h.finish hbegins (by simp [Segment.ends, hgood, hfirst, hlast]) hlast

theorem Beside.next (h : Beside xs l s) (x : Segment α) :
    Beside (xs ++ [x]) (l.lax x) (s.strict x) := by
  unfold Reader.lax Reader.strict
  rcases hgood : x.good
  · have hacross :=
      h.across (x := x) (by simp [Segment.begins, hgood]) (by simp [Segment.ends, hgood])
      (by simp [Segment.continues, hgood]) []
    simpa using hacross
  rcases hfirst : x.first
  · exact h.add hgood hfirst
  rcases hlast : x.last
  · exact h.begin (by simp [Segment.begins, hgood, hfirst, hlast]) (by simp [Segment.ends, hfirst])
  · exact h.across (by simp [Segment.begins, hlast]) (by simp [Segment.ends, hfirst])
      (by simp [Segment.continues, hfirst]) [x.data]

end

theorem beside_run (xs : List (Segment α)) :
    Beside xs (xs.foldl Reader.lax {}) (xs.foldl Reader.strict {}) := by
  induction xs using List.reverseRecOn with
  | nil =>
    constructor
    · exact iff_of_false (by simp) fun ⟨i, hi⟩ => Nat.not_lt_zero i hi.1.lt
    · exact iff_of_false (by simp) fun ⟨i, hi, _⟩ => Nat.not_lt_zero i hi.1.lt
    · exact fun p hp => hp
    · exact .inl ⟨fun ⟨j, hj, _⟩ => Nat.not_lt_zero j hj.lt, rfl⟩
  | append_singleton xs x ih =>
    rw [List.foldl_append, List.foldl_append]
    exact ih.next x

/-- The lax reader delivers what is to be delivered exactly if it has not spliced. -/
theorem lax_delivers_iff (xs : List (Segment α)) :
    Delivers xs (xs.foldl Reader.lax {}).out ↔ ¬ Splices xs := by
  have hstrict := (strict_run xs).delivers
  rcases (beside_run xs).out with ⟨hno, heq⟩ | ⟨hsplice, hlt⟩
  · rw [heq]
    exact iff_of_true hstrict hno
  · refine iff_of_false ?_ (not_not_intro hsplice)
    intro h
    rw [h.unique hstrict] at hlt
    exact Nat.lt_irrefl _ hlt

end

end Segments
