-- Flat programs of rows between markers of branches, walked with two flags
-- and no stack, against the nested branches that they are written from.
import Mathlib.Data.List.Basic

namespace Branches

variable {γ ρ : Type*}

inductive Token (γ ρ : Type*)
  | if_ (c : γ)
  | else_if (c : γ)
  | check
  | else_
  | end_if
  | row (r : ρ)

/-- The rows of a branch, and the condition that it is taken under. -/
structure Branch (γ ρ : Type*) where
  cond : γ
  rows : List ρ

structure Chain (γ ρ : Type*) where
  first : Branch γ ρ
  others : List (Branch γ ρ)
  otherwise : Option (List ρ)

inductive Item (γ ρ : Type*)
  | row (r : ρ)
  | chain (c : Chain γ ρ)

/-! ## As it is written -/

def Branch.tokens (mark : γ → Token γ ρ) (b : Branch γ ρ) : List (Token γ ρ) :=
  mark b.cond :: .check :: b.rows.map .row

/-- The end of a chain, with the branch before it that is taken under no condition. -/
def closing (otherwise : Option (List ρ)) : List (Token γ ρ) :=
  (otherwise.map fun rows => .else_ :: rows.map .row).getD [] ++ [.end_if]

def Chain.tokens (c : Chain γ ρ) : List (Token γ ρ) :=
  c.first.tokens .if_ ++ (c.others.flatMap (Branch.tokens .else_if) ++ closing c.otherwise)

def Item.tokens : Item γ ρ → List (Token γ ρ)
  | row r => [.row r]
  | chain c => c.tokens

variable [DecidableEq γ] (target : γ)

/-! ## What is taken -/

/-- The rows of the first branch under the target. Nothing is taken, and nothing goes on, where a
chain has no such branch but one that is taken under no condition. -/
def Chain.taken (c : Chain γ ρ) : Option (List ρ) :=
  match (c.first :: c.others).find? (·.cond = target) with
  | some b => some b.rows
  | none => if c.otherwise.isSome then none else some []

def meaning : List (Item γ ρ) → List ρ
  | [] => []
  | .row r :: items => r :: meaning items
  | .chain c :: items =>
    match c.taken target with
    | some rows => rows ++ meaning items
    | none => []

/-! ## The walk -/

/-- The rows that are taken with the last condition that was read, whether rows are taken now, and
whether a branch of the chain has been. -/
def walk : γ → Bool → Bool → List (Token γ ρ) → List ρ
  | _, _, _, [] => []
  | cond, matched, found, t :: ts =>
    match t with
    | .if_ c => walk c matched found ts
    | .else_if c => walk c matched found ts
    | .else_ => if !found then [] else walk cond false found ts
    | .end_if => walk cond true false ts
    | .check =>
      if found then walk cond false found ts
      else if cond = target then walk cond true true ts
      else walk cond false false ts
    | .row r => if matched then r :: walk cond matched found ts else walk cond matched found ts

variable {target} {k : List (Token γ ρ)} {R : List ρ}

theorem walk_rows (cond : γ) (matched found : Bool) (rows : List ρ) (k : List (Token γ ρ)) :
    walk target cond matched found (rows.map .row ++ k) =
      (if matched then rows else []) ++ walk target cond matched found k := by
  induction rows with
  | nil => simp
  | cons r rows ih =>
    rw [List.map_cons, List.cons_append, walk, ih]
    cases matched <;> rfl

/-- A branch is taken under the target, if none of its chain was. -/
theorem walk_branch {mark : γ → Token γ ρ} (hmark : mark = .if_ ∨ mark = .else_if) (b : Branch γ ρ)
    (cond : γ) (matched : Bool) (k : List (Token γ ρ)) :
    walk target cond matched false (b.tokens mark ++ k) =
      if b.cond = target then b.rows ++ walk target b.cond true true k
      else walk target b.cond false false k := by
  by_cases hb : b.cond = target
  · rcases hmark with rfl | rfl <;> simp [Branch.tokens, walk, walk_rows, hb]
  · rcases hmark with rfl | rfl <;> simp [Branch.tokens, walk, walk_rows, hb]

/-- What stands behind a branch that was taken is skipped up to the end of the chain. -/
theorem walk_found (hk : ∀ cond, walk target cond true false k = R) (others : List (Branch γ ρ))
    (otherwise : Option (List ρ)) (cond : γ) (matched : Bool) :
    walk target cond matched true
      (others.flatMap (Branch.tokens .else_if) ++ (closing otherwise ++ k)) = R := by
  induction others generalizing cond matched with
  | nil =>
    cases otherwise with
    | none => exact hk cond
    | some rows =>
      simp only [closing, List.flatMap_nil, List.nil_append, Option.map_some, Option.getD_some,
        List.cons_append, List.append_assoc, walk, walk_rows]
      exact hk cond
  | cons b others ih =>
    rw [List.flatMap_cons, List.append_assoc]
    simp only [Branch.tokens, List.cons_append, walk, walk_rows]
    exact ih b.cond false

/-- The first branch under the target is taken, of those that are left. -/
theorem walk_others (hk : ∀ cond, walk target cond true false k = R) (others : List (Branch γ ρ))
    (otherwise : Option (List ρ)) (cond : γ) (matched : Bool) :
    walk target cond matched false
        (others.flatMap (Branch.tokens .else_if) ++ (closing otherwise ++ k)) =
      match others.find? (·.cond = target) with
      | some b => b.rows ++ R
      | none => if otherwise.isSome then [] else R := by
  induction others generalizing cond matched with
  | nil =>
    cases otherwise with
    | none => exact hk cond
    | some rows => rfl
  | cons b others ih =>
    rw [List.flatMap_cons, List.append_assoc, walk_branch (.inr rfl), List.find?_cons]
    by_cases hb : b.cond = target
    · rw [if_pos hb, walk_found hk]
      simp [hb]
    · rw [if_neg hb, ih]
      simp [hb]

/-- The walk takes what the nested branches say. -/
theorem walk_items (items : List (Item γ ρ)) (cond : γ) :
    walk target cond true false (items.flatMap Item.tokens) = meaning target items := by
  induction items generalizing cond with
  | nil => rfl
  | cons item items ih =>
    rw [List.flatMap_cons]
    cases item with
    | row r => simp [Item.tokens, walk, meaning, ih]
    | chain c =>
      have hothers := walk_others ih c.others c.otherwise
      rw [Item.tokens, Chain.tokens, List.append_assoc, List.append_assoc, walk_branch (.inl rfl),
        meaning, Chain.taken, List.find?_cons]
      by_cases hfirst : c.first.cond = target
      · rw [if_pos hfirst, walk_found ih]
        simp [hfirst]
      · rw [if_neg hfirst, hothers]
        simp only [hfirst, decide_false]
        cases c.others.find? (·.cond = target) with
        | some b => rfl
        | none => cases c.otherwise <;> rfl

end Branches
