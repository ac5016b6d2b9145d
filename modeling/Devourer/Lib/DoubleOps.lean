-- What a program computes in doubles, for any type with these operations: no
-- law of arithmetic is taken for granted, and the laws of the order where they
-- are needed are those that binary64 has.
import Mathlib.Algebra.Order.Field.Rat
import Mathlib.Data.Prod.Lex

class DoubleOps (F : Type) extends Zero F, One F, Neg F, Add F, Sub F, Mul F, Div F, LT F, LE F,
    OfScientific F where
  decidableLT : DecidableLT F
  decidableLE : DecidableLE F
  /-- `==`. -/
  equal : F → F → Bool
  /-- The cast of an integer. -/
  ofInt : ℤ → F
  /-- The cast to a signed integer. -/
  toInt : F → ℤ
  /-- The cast to a size. -/
  toSize : F → ℕ
  exp : F → F

namespace DoubleOps

section

variable {F : Type} [DoubleOps F]

instance : DecidableLT F := decidableLT

instance : DecidableLE F := decidableLE

/-- `std::min`, which gives its first argument where they do not compare. -/
def min (a b : F) : F := if b < a then b else a

/-- It compares with itself, as all doubles do but the NaNs. -/
def IsNumber (a : F) : Prop := a ≤ a

end

/-- The order of doubles, in which what compares is a number. -/
class Ordered (F : Type) [DoubleOps F] : Prop where
  le_trans {a b c : F} : a ≤ b → b ≤ c → a ≤ c
  le_of_lt {a b : F} : a < b → a ≤ b
  le_of_not_lt {a b : F} : IsNumber a → IsNumber b → ¬ b < a → a ≤ b
  isNumber_of_le {a b : F} : a ≤ b → IsNumber b
  isNumber_two : IsNumber (2.0 : F)
  isNumber_neg_one : IsNumber (-1.0 : F)

/-! ## Exact arithmetic -/

/-- Exact arithmetic, with the exponential cut after its linear term. -/
scoped instance : DoubleOps ℚ where
  decidableLT := inferInstance
  decidableLE := inferInstance
  equal a b := a = b
  ofInt z := z
  toInt q := if 0 ≤ q then q.floor else q.ceil
  toSize q := q.floor.toNat
  exp q := 1 + q

scoped instance : Ordered ℚ where
  le_trans := Rat.le_trans
  le_of_lt := Rat.le_of_lt
  le_of_not_lt _ _ h := Rat.not_lt.mp h
  isNumber_of_le _ := Rat.le_refl
  isNumber_two := Rat.le_refl
  isNumber_neg_one := Rat.le_refl

/-! ## Doubles -/

scoped instance doubles : DoubleOps Float where
  zero := 0.0
  one := 1.0
  decidableLT := inferInstance
  decidableLE := inferInstance
  equal a b := a == b
  ofInt := Float.ofInt
  toInt x := x.toInt64.toInt
  toSize x := x.toUInt64.toNat
  exp := Float.exp

open Float.Model

/-- Where a float stands among the others. -/
def float_rank : UnpackedFloat → ℤ ×ₗ ℤ ×ₗ ℤ
  | .infinity .negative => toLex (-2, toLex (0, 0))
  | .finite .negative m e _ => toLex (-1, toLex (-e, -m))
  | .zero _ => toLex (0, toLex (0, 0))
  | .finite .positive m e _ => toLex (1, toLex (e, m))
  | .infinity .positive => toLex (2, toLex (0, 0))
  | .notANumber => toLex (0, toLex (0, 0))

theorem then_compare (e e' : ℤ) (m m' : ℕ) :
    (compare e e').then (compare m m') =
      if e < e' ∨ e = e' ∧ m < m' then .lt else if e = e' ∧ m = m' then .eq else .gt := by
  rcases lt_trichotomy e e' with h | rfl | h
  · simp [compare_lt_iff_lt.mpr h, h]
  · rcases lt_trichotomy m m' with h | rfl | h
    · simp [compare_lt_iff_lt.mpr h, h]
    · simp
    · simp [compare_gt_iff_gt.mpr h, h.not_gt, h.ne']
  · simp [compare_gt_iff_gt.mpr h, h.not_gt, h.ne']

/-- Finite floats of one sign compare by their exponents, and then by their mantissas. -/
theorem compare_finite (e e' : ℤ) (m m' : ℕ) :
    (((compare e e').then (compare m m')).isLE = true ↔ e < e' ∨ e = e' ∧ m ≤ m') ∧
      ((compare e e').then (compare m m') = .lt ↔ e < e' ∨ e = e' ∧ m < m') ∧
      (((compare e e').then (compare m m')).isGE = true ↔ e' < e ∨ e = e' ∧ m' ≤ m) ∧
      ((compare e e').then (compare m m') = .gt ↔ e' < e ∨ e = e' ∧ m' < m) := by
  rw [then_compare]
  split_ifs <;> simp <;> omega

theorem compare_float_rank {a b : UnpackedFloat} (ha : a ≠ .notANumber) (hb : b ≠ .notANumber) :
    (a.le b = true ↔ float_rank a ≤ float_rank b) ∧
    (a.lt b = true ↔ float_rank a < float_rank b) := by
  unfold UnpackedFloat.le UnpackedFloat.lt
  rcases a with (_ | _) | _ | _ | ⟨_ | _, m, e, hm⟩
  case notANumber => exact absurd rfl ha
  all_goals
    rcases b with (_ | _) | _ | _ | ⟨_ | _, m', e', hm'⟩
    case notANumber => exact absurd rfl hb
    all_goals
      dsimp only [UnpackedFloat.compare, float_rank]
      first
      | decide
      | simp [Prod.Lex.le_iff, Prod.Lex.lt_iff, compare_finite]

/-- What does not compare is no number. -/
theorem numbers_of_le {a b : UnpackedFloat} (h : a.le b = true) :
    a ≠ .notANumber ∧ b ≠ .notANumber := by
  constructor
  · rintro rfl
    cases b <;> exact Bool.false_ne_true h
  · rintro rfl
    cases a <;> exact Bool.false_ne_true h

theorem numbers_of_lt {a b : UnpackedFloat} (h : a.lt b = true) :
    a ≠ .notANumber ∧ b ≠ .notANumber := by
  constructor
  · rintro rfl
    cases b <;> exact Bool.false_ne_true h
  · rintro rfl
    cases a <;> exact Bool.false_ne_true h

theorem le_iff_unpacked {a b : Float} : a ≤ b ↔ a.toModel.unpack.le b.toModel.unpack = true :=
  decide_eq_true_iff

theorem lt_iff_unpacked {a b : Float} : a < b ↔ a.toModel.unpack.lt b.toModel.unpack = true :=
  decide_eq_true_iff

scoped instance ordered_doubles : Ordered Float where
  le_trans {a b c} hab hbc := by
    rw [le_iff_unpacked] at *
    obtain ⟨ha, hb⟩ := numbers_of_le hab
    have hc := (numbers_of_le hbc).2
    exact (compare_float_rank ha hc).1.mpr
      (((compare_float_rank ha hb).1.mp hab).trans ((compare_float_rank hb hc).1.mp hbc))
  le_of_lt {a b} h := by
    rw [lt_iff_unpacked] at h
    rw [le_iff_unpacked]
    obtain ⟨ha, hb⟩ := numbers_of_lt h
    exact (compare_float_rank ha hb).1.mpr ((compare_float_rank ha hb).2.mp h).le
  le_of_not_lt {a b} ha hb h := by
    rw [lt_iff_unpacked] at h
    rw [IsNumber, le_iff_unpacked] at ha hb
    rw [le_iff_unpacked]
    have ha := (numbers_of_le ha).1
    have hb := (numbers_of_le hb).1
    rw [(compare_float_rank hb ha).2, not_lt] at h
    exact (compare_float_rank ha hb).1.mpr h
  isNumber_of_le {a b} h := by
    rw [IsNumber]
    rw [le_iff_unpacked] at *
    have hb := (numbers_of_le h).2
    exact (compare_float_rank hb hb).1.mpr le_rfl
  isNumber_two := by
    unfold IsNumber
    decide
  isNumber_neg_one := by
    unfold IsNumber
    decide

end DoubleOps
