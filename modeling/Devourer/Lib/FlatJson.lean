-- Flat JSON text: an object whose values are numbers, strings, literals and
-- arrays of numbers. Each text is one that the grammar derives.
import Mathlib.Algebra.Group.Nat.Defs
import Mathlib.Data.Int.Notation
import Mathlib.Data.List.Basic

namespace FlatJson

/-! ## Numbers -/

def IsDigits (t : List Char) : Prop := t ≠ [] ∧ ∀ c ∈ t, c.isDigit = true

/-- A sign, digits with no leading zero, a fraction and an exponent. -/
def IsNumber (t : List Char) : Prop :=
  ∃ sign int frac exp, t = sign ++ (int ++ (frac ++ exp)) ∧
    (sign = [] ∨ sign = ['-']) ∧
    IsDigits int ∧ (int.head? = some '0' → int = ['0']) ∧
    (frac = [] ∨ ∃ ds, IsDigits ds ∧ frac = '.' :: ds) ∧
    (exp = [] ∨ ∃ e s ds, (e = 'e' ∨ e = 'E') ∧ (s = [] ∨ s = ['+'] ∨ s = ['-']) ∧
      IsDigits ds ∧ exp = e :: (s ++ ds))

abbrev Number := {t : List Char // IsNumber t}

/-- A character of a number. -/
def NumberChar (c : Char) : Prop :=
  c.isDigit = true ∨ c = '-' ∨ c = '+' ∨ c = '.' ∨ c = 'e' ∨ c = 'E'

theorem number_chars (n : Number) : ∀ c ∈ n.val, NumberChar c := by
  obtain ⟨sign, int, frac, exp, ht, hsign, hint, -, hfrac, hexp⟩ := n.property
  intro c hc
  rw [ht] at hc
  simp only [List.mem_append] at hc
  rcases hc with hc | hc | hc | hc
  · rcases hsign with rfl | rfl
    · cases hc
    · exact .inr (.inl (List.mem_singleton.mp hc))
  · exact .inl (hint.2 c hc)
  · rcases hfrac with rfl | ⟨ds, hds, rfl⟩
    · cases hc
    · rcases List.mem_cons.mp hc with rfl | hc
      · exact .inr (.inr (.inr (.inl rfl)))
      · exact .inl (hds.2 c hc)
  · rcases hexp with rfl | ⟨e, s, ds, he, hs, hds, rfl⟩
    · cases hc
    · rcases List.mem_cons.mp hc with rfl | hc
      · rcases he with rfl | rfl
        · exact .inr (.inr (.inr (.inr (.inl rfl))))
        · exact .inr (.inr (.inr (.inr (.inr rfl))))
      · rcases List.mem_append.mp hc with hc | hc
        · rcases hs with rfl | rfl | rfl
          · cases hc
          · exact .inr (.inr (.inl (List.mem_singleton.mp hc)))
          · exact .inr (.inl (List.mem_singleton.mp hc))
        · exact .inl (hds.2 c hc)

theorem number_ne_nil (n : Number) : n.val ≠ [] := by
  obtain ⟨sign, int, frac, exp, ht, -, hint, -⟩ := n.property
  rw [ht]
  intro h
  simp only [List.append_eq_nil_iff] at h
  exact hint.1 h.2.1

/-- The characters of a number are none that structure a line. -/
theorem NumberChar.ne {c d : Char} (h : NumberChar c)
    (hd : d ∈ ['"', '\\', ',', ':', '[', ']', '\x7b', '\x7d', '\n', 'n', ' ']) : c ≠ d := by
  rintro rfl
  rcases h with h | h | h | h | h | h
  · revert hd h
    simp only [List.mem_cons, List.not_mem_nil, or_false]
    rintro (rfl | rfl | rfl | rfl | rfl | rfl | rfl | rfl | rfl | rfl | rfl) h
    all_goals revert h; decide
  all_goals
    subst h
    revert hd
    decide

/-! ### The decimal text of an integer -/

def decimal (z : ℤ) : List Char :=
  if z < 0 then '-' :: Nat.toDigits 10 z.natAbs else Nat.toDigits 10 z.natAbs

theorem head_toDigits (n : ℕ) (hn : 0 < n) : (Nat.toDigits 10 n).head? ≠ some '0' := by
  induction n using Nat.base_induction 10 (by decide) with
  | single m hm =>
    rw [Nat.toDigits_of_lt_base hm]
    intro h
    have hm' : m.digitChar = '0' := by simpa using h
    have : m = 0 := by
      have h48 := Nat.toNat_digitChar_sub_48_of_lt_ten hm
      rw [hm'] at h48
      exact h48.symm
    omega
  | digit m k hk hm ih =>
    rw [← Nat.toDigits_append_toDigits (by decide) hm hk,
      List.head?_append_of_ne_nil _ Nat.toDigits_ne_nil]
    exact ih hm

theorem isDigits_toDigits (n : ℕ) : IsDigits (Nat.toDigits 10 n) :=
  ⟨Nat.toDigits_ne_nil, fun _ hc => Nat.isDigit_of_mem_toDigits (by decide) (by decide) hc⟩

theorem isNumber_decimal (z : ℤ) : IsNumber (decimal z) := by
  have hzero : (Nat.toDigits 10 z.natAbs).head? = some '0' →
      Nat.toDigits 10 z.natAbs = ['0'] := by
    intro h
    by_cases hz : z.natAbs = 0
    · rw [hz, Nat.toDigits_zero]
    · exact absurd h (head_toDigits _ (Nat.pos_of_ne_zero hz))
  unfold decimal
  split
  · exact ⟨['-'], _, [], [], by simp, .inr rfl, isDigits_toDigits _, hzero, .inl rfl, .inl rfl⟩
  · exact ⟨[], _, [], [], by simp, .inl rfl, isDigits_toDigits _, hzero, .inl rfl, .inl rfl⟩

def Number.ofInt (z : ℤ) : Number := ⟨decimal z, isNumber_decimal z⟩

theorem length_decimal_le {z : ℤ} {k : ℕ} (hk : 0 < k) (h : z.natAbs < 10 ^ k) :
    (decimal z).length ≤ k + 1 := by
  have hlen := (Nat.length_toDigits_le_iff (b := 10) (by decide) hk).mpr h
  unfold decimal
  split
  · exact Nat.succ_le_succ hlen
  · omega

/-! ## Strings -/

/-- The hexadecimal digit of a value below 16, and what it stands for. -/
def hexDigit (n : ℕ) : Char := Nat.digitChar n

def hexVal (c : Char) : ℕ :=
  if c.isDigit then c.toNat - 48 else if 'a' ≤ c ∧ c ≤ 'f' then c.toNat - 87 else c.toNat - 55

def IsHex (c : Char) : Prop := c.isDigit = true ∨ ('a' ≤ c ∧ c ≤ 'f') ∨ ('A' ≤ c ∧ c ≤ 'F')

/-- What may stand between the quotes of a string. -/
inductive Body : List Char → Prop
  | nil : Body []
  | char {c : Char} {t : List Char} (quote : c ≠ '"') (slash : c ≠ '\\') (print : ' ' ≤ c)
      (rest : Body t) : Body (c :: t)
  | escape {c : Char} {t : List Char} (kind : c ∈ ['"', '\\', '/', 'b', 'f', 'n', 'r', 't'])
      (rest : Body t) : Body ('\\' :: c :: t)
  | unicode {a b c d : Char} {t : List Char} (ha : IsHex a) (hb : IsHex b) (hc : IsHex c)
      (hd : IsHex d) (rest : Body t) : Body ('\\' :: 'u' :: a :: b :: c :: d :: t)

/-- The text that a body stands for. -/
def unescape : List Char → List Char
  | '\\' :: 'u' :: a :: b :: c :: d :: t =>
    Char.ofNat (16 * (16 * (16 * hexVal a + hexVal b) + hexVal c) + hexVal d) :: unescape t
  | '\\' :: c :: t =>
    (if c = 'n' then '\n' else if c = 't' then '\t' else if c = 'r' then '\r'
      else if c = 'b' then '\x08' else if c = 'f' then '\x0c' else c) :: unescape t
  | c :: t => c :: unescape t
  | [] => []

/-- What is checked of each character of a text holds of it. -/
theorem forall_chars {p : Char → Prop} [DecidablePred p] {t : List Char}
    (h : (t.all fun c => decide (p c)) = true) : ∀ c ∈ t, p c :=
  fun c hc => of_decide_eq_true (List.all_eq_true.mp h c hc)

/-- A text with no quote, no backslash and no control character stands for itself. -/
def Plain (t : List Char) : Prop := ∀ c ∈ t, c ≠ '"' ∧ c ≠ '\\' ∧ ' ' ≤ c

instance (t : List Char) : Decidable (Plain t) := List.decidableBAll _ t

theorem Plain.body {t : List Char} (h : Plain t) : Body t := by
  induction t with
  | nil => exact .nil
  | cons c t ih =>
    obtain ⟨h1, h2, h3⟩ := h c List.mem_cons_self
    exact .char h1 h2 h3 (ih fun d hd => h d (List.mem_cons_of_mem _ hd))

/-! ### What a scanner of strings sees -/

/-- A text in units: one character, or a backslash with whatever follows it. -/
inductive Units : List Char → Prop
  | nil : Units []
  | char {c : Char} {t : List Char} (quote : c ≠ '"') (slash : c ≠ '\\') (rest : Units t) :
      Units (c :: t)
  | escape {c : Char} {t : List Char} (rest : Units t) : Units ('\\' :: c :: t)

theorem Body.units {t : List Char} (h : Body t) : Units t := by
  induction h with
  | nil => exact .nil
  | char quote slash _ _ ih => exact .char quote slash ih
  | escape _ _ ih => exact .escape ih
  | unicode ha hb hc hd _ ih =>
    have hne : ∀ {x : Char}, IsHex x → x ≠ '"' ∧ x ≠ '\\' := by
      intro x hx
      constructor
      · rintro rfl
        rcases hx with hx | hx | hx
        all_goals revert hx; decide
      · rintro rfl
        rcases hx with hx | hx | hx
        all_goals revert hx; decide
    exact .escape (.char (hne ha).1 (hne ha).2 (.char (hne hb).1 (hne hb).2
      (.char (hne hc).1 (hne hc).2 (.char (hne hd).1 (hne hd).2 ih))))

/-- A key that needs no escape. -/
def Unquoted (t : List Char) : Prop := ∀ c ∈ t, c ≠ '"' ∧ c ≠ '\\'

instance (t : List Char) : Decidable (Unquoted t) := List.decidableBAll _ t

theorem Unquoted.units {t : List Char} (h : Unquoted t) : Units t := by
  induction t with
  | nil => exact .nil
  | cons c t ih =>
    obtain ⟨h1, h2⟩ := h c List.mem_cons_self
    exact .char h1 h2 (ih fun d hd => h d (List.mem_cons_of_mem _ hd))

/-! ## Values, members and objects -/

/-- An element of an array is a number or null. -/
inductive Value
  | null
  | bool (b : Bool)
  | num (n : Number)
  | str (body : {t : List Char // Body t})
  | arr (xs : List (Option Number))

def element : Option Number → List Char
  | none => ['n', 'u', 'l', 'l']
  | some n => n.val

/-- Texts with a comma between each two. -/
def commas : List (List Char) → List Char
  | [] => []
  | t :: ts => t ++ ts.flatMap (',' :: ·)

theorem length_commas_le {ts : List (List Char)} {k : ℕ} (h : ∀ t ∈ ts, t.length ≤ k) :
    (commas ts).length ≤ ts.length * (k + 1) := by
  have htail : ∀ ts : List (List Char), (∀ t ∈ ts, t.length ≤ k) →
      (ts.flatMap (',' :: ·)).length ≤ ts.length * (k + 1) := by
    intro ts
    induction ts with
    | nil => exact fun _ => Nat.zero_le _
    | cons t ts ih =>
      intro h
      have ht := h t List.mem_cons_self
      have hts := ih fun u hu => h u (List.mem_cons_of_mem _ hu)
      rw [List.flatMap_cons, List.length_append, List.length_cons, List.length_cons,
        Nat.succ_mul]
      omega
  cases ts with
  | nil => exact Nat.zero_le _
  | cons t ts =>
    have ht := h t List.mem_cons_self
    have hts := htail ts fun u hu => h u (List.mem_cons_of_mem _ hu)
    unfold commas
    rw [List.length_append, List.length_cons, Nat.succ_mul]
    omega

namespace Value

def text : Value → List Char
  | null => ['n', 'u', 'l', 'l']
  | bool true => ['t', 'r', 'u', 'e']
  | bool false => ['f', 'a', 'l', 's', 'e']
  | num n => n.val
  | str body => '"' :: (body.val ++ ['"'])
  | arr xs => '[' :: (commas (xs.map element) ++ [']'])

@[simp] theorem text_null : null.text = ['n', 'u', 'l', 'l'] := rfl

@[simp] theorem text_true : (bool true).text = ['t', 'r', 'u', 'e'] := rfl

@[simp] theorem text_num (n : Number) : (num n).text = n.val := rfl

@[simp] theorem text_str (body : {t : List Char // Body t}) :
    (str body).text = '"' :: (body.val ++ ['"']) := rfl

end Value

structure Member where
  key : List Char
  value : Value

def Member.text (m : Member) : List Char := '"' :: (m.key ++ ('"' :: ':' :: m.value.text))

def object (ms : List Member) : List Char :=
  '\x7b' :: (commas (ms.map Member.text) ++ ['\x7d'])

/-! ## Control characters -/

/-- A text with no control character, so with no newline. -/
def Printable (t : List Char) : Prop := ∀ c ∈ t, ' ' ≤ c

instance (t : List Char) : Decidable (Printable t) := List.decidableBAll _ t

theorem Printable.append {s t : List Char} (hs : Printable s) (ht : Printable t) :
    Printable (s ++ t) := by
  intro c hc
  rcases List.mem_append.mp hc with hc | hc
  · exact hs c hc
  · exact ht c hc

theorem Printable.cons {c : Char} {t : List Char} (hc : ' ' ≤ c) (ht : Printable t) :
    Printable (c :: t) := by
  intro d hd
  rcases List.mem_cons.mp hd with rfl | hd
  · exact hc
  · exact ht d hd

theorem printable_nil : Printable [] := fun _ hc => by cases hc

theorem Plain.printable {t : List Char} (h : Plain t) : Printable t := fun c hc => (h c hc).2.2

theorem printable_isDigit {c : Char} (h : c.isDigit = true) : ' ' ≤ c := by
  have h48 : 48 ≤ c.toNat := (Char.isDigit_iff_toNat.mp h).1
  have h32 : 32 ≤ c.toNat := by omega
  exact h32

theorem NumberChar.printable {c : Char} (h : NumberChar c) : ' ' ≤ c := by
  rcases h with h | rfl | rfl | rfl | rfl | rfl
  · exact printable_isDigit h
  all_goals decide

theorem IsHex.printable {c : Char} (h : IsHex c) : ' ' ≤ c := by
  rcases h with h | ⟨h, -⟩ | ⟨h, -⟩
  · exact printable_isDigit h
  · exact Nat.le_trans (by decide : ' '.toNat ≤ 'a'.toNat) h
  · exact Nat.le_trans (by decide : ' '.toNat ≤ 'A'.toNat) h

theorem Body.printable {t : List Char} (h : Body t) : Printable t := by
  induction h with
  | nil => exact printable_nil
  | char _ _ print _ ih => exact ih.cons print
  | escape kind _ ih =>
    apply (ih.cons _).cons (by decide)
    revert kind
    simp only [List.mem_cons, List.not_mem_nil, or_false]
    rintro (rfl | rfl | rfl | rfl | rfl | rfl | rfl | rfl)
    all_goals decide
  | unicode ha hb hc hd _ ih =>
    exact (((((ih.cons hd.printable).cons hc.printable).cons hb.printable).cons
      ha.printable).cons (by decide)).cons (by decide)

theorem printable_element (x : Option Number) : Printable (element x) := by
  cases x with
  | none => decide
  | some n => exact fun c hc => (number_chars n c hc).printable

theorem printable_commas {ts : List (List Char)} (h : ∀ t ∈ ts, Printable t) :
    Printable (commas ts) := by
  cases ts with
  | nil => exact printable_nil
  | cons t ts =>
    apply (h t List.mem_cons_self).append
    intro c hc
    obtain ⟨u, hu, hc⟩ := List.mem_flatMap.mp hc
    rcases List.mem_cons.mp hc with rfl | hc
    · decide
    · exact h u (List.mem_cons_of_mem _ hu) c hc

theorem Value.printable (v : Value) : Printable v.text := by
  cases v with
  | null => decide
  | bool b =>
    cases b with
    | false => decide
    | true => decide
  | num n => exact fun c hc => (number_chars n c hc).printable
  | str body => exact (body.property.printable.append (by decide)).cons (by decide)
  | arr xs =>
    apply (Printable.append _ (by decide)).cons (by decide)
    apply printable_commas
    intro t ht
    obtain ⟨x, -, rfl⟩ := List.mem_map.mp ht
    exact printable_element x

theorem Member.printable {m : Member} (h : Plain m.key) : Printable m.text :=
  (h.printable.append ((m.value.printable.cons (by decide)).cons (by decide))).cons (by decide)

theorem object_printable {ms : List Member} (h : ∀ m ∈ ms, Plain m.key) :
    Printable (object ms) := by
  apply (Printable.append _ (by decide)).cons (by decide)
  apply printable_commas
  intro t ht
  obtain ⟨m, hm, rfl⟩ := List.mem_map.mp ht
  exact Member.printable (h m hm)

/-- One more member behind others. -/
theorem commas_snoc {ts : List (List Char)} (h : ts ≠ []) (t : List Char) :
    commas (ts ++ [t]) = commas ts ++ ',' :: t := by
  cases ts with
  | nil => exact absurd rfl h
  | cons u us => simp [commas]

end FlatJson
