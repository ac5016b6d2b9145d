-- What the typed lookups read from the text of a value: the integer, the
-- string and the array that were written.
import Devourer.Chanmig.JsonlScan
import Devourer.EventWhole

namespace devourer.chanmig

open FlatJson

/-! ## Digits -/

theorem isdigit_eq (c : Char) : isdigit c = c.isDigit := by
  simp [isdigit, Char.isDigit, Char.le_def]

/-- No digit comes first. -/
def NoDigit (t : List Char) : Prop := ∀ c ∈ t.head?, isdigit c = false

theorem takeWhile_digits {ds rest : List Char} (hds : IsDigits ds) (hrest : NoDigit rest) :
    (ds ++ rest).takeWhile isdigit = ds ∧ (ds ++ rest).dropWhile isdigit = rest := by
  have hall : ∀ c ∈ ds, isdigit c = true := fun c hc => (isdigit_eq c).trans (hds.2 c hc)
  rw [List.takeWhile_append_of_pos hall, List.dropWhile_append_of_pos hall]
  cases rest with
  | nil => simp
  | cons c t =>
    have hc : isdigit c = false := hrest c rfl
    rw [List.takeWhile_cons_of_neg (by simp [hc]), List.dropWhile_cons_of_neg (by simp [hc])]
    simp

theorem foldl_digits (n : ℕ) :
    digits_value (Nat.toDigits 10 n) = n := Nat.ofDigitChars_ten_toDigits

theorem digit_ne {c d : Char} (h : c.isDigit = true) (hd : d.isDigit = false) : c ≠ d := by
  rintro rfl
  rw [h] at hd
  cases hd

/-- How a number in decimal starts: a minus or a digit, and no blank. -/
theorem decimal_start (z : ℤ) (rest : List Char) :
    (decimal z ++ rest).dropWhile isspace = decimal z ++ rest ∧
      (decimal z).head? ≠ some '+' ∧ ((decimal z).head? = some '-' ↔ z < 0) := by
  have hdig := isDigits_toDigits z.natAbs
  obtain ⟨c, t, hct⟩ := List.exists_cons_of_ne_nil hdig.1
  have hc : c.isDigit = true := hdig.2 c (by rw [hct]; exact List.mem_cons_self)
  unfold decimal
  by_cases hz : z < 0
  · rw [if_pos hz]
    refine ⟨List.dropWhile_cons_of_neg (by decide), by simp, by simp [hz]⟩
  · rw [if_neg hz, hct]
    have hspace : isspace c = false := by
      simp only [isspace, Bool.or_eq_false_iff, decide_eq_false_iff_not]
      exact ⟨⟨⟨⟨⟨digit_ne hc rfl, digit_ne hc rfl⟩, digit_ne hc rfl⟩, digit_ne hc rfl⟩,
        digit_ne hc rfl⟩, digit_ne hc rfl⟩
    refine ⟨List.dropWhile_cons_of_neg (by simp [hspace]), ?_, ?_⟩
    · simpa using digit_ne hc rfl
    · simp [hz, digit_ne hc (show ('-' : Char).isDigit = false from rfl)]

/-! ## Integers -/

/-- The sign and the digits of a number in decimal. -/
theorem decimal_digits (z : ℤ) (rest : List Char) :
    (if (decimal z ++ rest).head? = some '-' ∨ (decimal z ++ rest).head? = some '+' then
      (decimal z ++ rest).tail else decimal z ++ rest) = Nat.toDigits 10 z.natAbs ++ rest ∧
    ((decimal z ++ rest).head? = some '-' ↔ z < 0) := by
  have hne : decimal z ≠ [] := (isNumber_decimal z).elim fun _ _ => number_ne_nil (.ofInt z)
  obtain ⟨-, hplus, hminus⟩ := decimal_start z rest
  rw [List.head?_append_of_ne_nil _ hne]
  refine ⟨?_, hminus⟩
  by_cases hz : z < 0
  · rw [if_pos (.inl (hminus.mpr hz))]
    unfold decimal
    rw [if_pos hz]
    rfl
  · rw [if_neg (not_or.mpr ⟨fun h => hz (hminus.mp h), hplus⟩)]
    unfold decimal
    rw [if_neg hz]

theorem natAbs_signed (z : ℤ) : (if z < 0 then -(z.natAbs : ℤ) else z.natAbs) = z := by
  split
  · omega
  · omega

theorem foldl_digits_cast (ds : List Char) :
    ds.foldl (fun (n : ℤ) c => 10 * n + (c.toNat - 48 : ℕ)) 0 = digits_value ds := by
  have hcast : ∀ n : ℕ, ds.foldl (fun (n : ℤ) c => 10 * n + (c.toNat - 48 : ℕ)) n =
      (ds.foldl (fun n c => 10 * n + (c.toNat - 48)) n : ℕ) := by
    induction ds with
    | nil => exact fun _ => rfl
    | cons c ds ih =>
      intro n
      rw [List.foldl_cons, List.foldl_cons, ← ih]
      norm_cast
  exact hcast 0

/-- `strtol` reads what was printed, and stops behind it. -/
theorem strtol_decimal (z : ℤ) {rest : List Char} (h : NoDigit rest) :
    strtol (decimal z ++ rest) = (z, rest) := by
  obtain ⟨hspace, -, -⟩ := decimal_start z rest
  obtain ⟨hdigits, hneg⟩ := decimal_digits z rest
  obtain ⟨htake, hdrop⟩ := takeWhile_digits (isDigits_toDigits z.natAbs) h
  have hfold : (Nat.toDigits 10 z.natAbs).foldl
      (fun (n : ℤ) c => 10 * n + (c.toNat - 48 : ℕ)) 0 = z.natAbs := by
    rw [foldl_digits_cast, foldl_digits]
  unfold strtol
  dsimp only
  rw [hspace, hdigits, htake, hdrop, hfold, if_neg Nat.toDigits_ne_nil]
  simp only [hneg, natAbs_signed]

/-- A text of digits is read to its end, leading zeros and all. -/
theorem strtol_digits {ds : List Char} (h : IsDigits ds) :
    strtol ds = ((digits_value ds : ℤ), []) := by
  obtain ⟨c, t, rfl⟩ := List.exists_cons_of_ne_nil h.1
  have hc : c.isDigit = true := h.2 c List.mem_cons_self
  have hspace : isspace c = false := by
    have hne : ∀ d : Char, d.isDigit = false → c ≠ d := fun d hd => digit_ne hc hd
    simp [isspace, hne ' ' rfl, hne '\t' rfl, hne '\n' rfl, hne '\x0b' rfl, hne '\x0c' rfl,
      hne '\r' rfl]
  have hminus : c ≠ '-' := digit_ne hc rfl
  have hplus : c ≠ '+' := digit_ne hc rfl
  obtain ⟨htake, hdrop⟩ := @takeWhile_digits (c :: t) [] h nofun
  rw [List.append_nil] at htake hdrop
  unfold strtol
  rw [List.dropWhile_cons_of_neg (by simp [hspace])]
  simp only [List.head?_cons, Option.some.injEq, hminus, hplus, or_self, if_false]
  rw [htake, hdrop, if_neg h.1, foldl_digits_cast]

/-- `strtod` reads an integer that a double holds. -/
theorem strtod_decimal {z : ℤ} (h : |z| ≤ 2 ^ 53) : strtod (decimal z) = some (z : ℚ) := by
  obtain ⟨hspace, -, -⟩ := decimal_start z []
  obtain ⟨hdigits, hneg⟩ := decimal_digits z []
  obtain ⟨htake, hdrop⟩ := @takeWhile_digits _ [] (isDigits_toDigits z.natAbs) nofun
  rw [List.append_nil] at hspace hdigits hneg htake hdrop
  have hm : (digits_value (Nat.toDigits 10 z.natAbs ++ []) : ℚ) *
      10 ^ (exponent [] - (([] : List Char).length : ℤ)) = z.natAbs := by
    rw [List.append_nil, foldl_digits]
    simp [exponent]
  have hsigned : (if z < 0 then -((z.natAbs : ℕ) : ℚ) else (z.natAbs : ℕ)) = (z : ℚ) := by
    rw [Nat.cast_natAbs]
    by_cases hz : z < 0
    · rw [if_pos hz, abs_of_neg hz]
      push_cast
      ring
    · rw [if_neg hz, abs_of_nonneg (not_lt.mp hz)]
  unfold strtod
  dsimp only
  rw [hspace, hdigits, List.append_nil, htake, hdrop]
  rw [if_neg (fun h0 => Nat.toDigits_ne_nil h0.1)]
  simp only [List.head?_nil, reduceCtorEq, if_false, hneg, hm, hsigned, Doubles.round_intCast h]

/-! ## Strings -/

/-- A control character other than the three with an escape of their own comes back as a question
mark. -/
def sanitize (c : Char) : Char :=
  if c.toNat < 0x20 ∧ c ≠ '\n' ∧ c ≠ '\t' ∧ c ≠ '\r' then '?' else c

theorem unescape_char {c : Char} (h : c ≠ '\\') (t : List Char) :
    unescape (c :: t) = c :: unescape t := by
  rw [unescape.eq_def]
  split
  · rename_i heq
    exact absurd (List.cons.inj heq).1 h
  · rename_i heq
    exact absurd (List.cons.inj heq).1 h
  · rename_i heq
    exact absurd (List.cons.inj heq).1 h
  · rename_i heq
    obtain ⟨rfl, rfl⟩ := List.cons.inj heq
    rfl
  · rename_i heq
    cases heq

theorem unescape_escape_char (c : Char) (t : List Char) :
    unescape (Ev.escape_char c ++ t) = sanitize c :: unescape t := by
  unfold Ev.escape_char sanitize
  by_cases hq : c = '"'
  · subst hq
    rfl
  by_cases hs : c = '\\'
  · subst hs
    rfl
  by_cases hn : c = '\n'
  · subst hn
    rfl
  by_cases htab : c = '\t'
  · subst htab
    rfl
  by_cases hr : c = '\r'
  · subst hr
    rfl
  rw [if_neg hq, if_neg hs, if_neg hn, if_neg htab, if_neg hr]
  by_cases hctl : c.toNat < 0x20
  · rw [if_pos hctl, if_pos ⟨hctl, hn, htab, hr⟩, Ev.hex_padded_char hctl]
    rfl
  · rw [if_neg hctl, if_neg (fun h => hctl h.1)]
    exact unescape_char hs t

theorem unescape_escape (v : List Char) : unescape (Ev.escape v) = v.map sanitize := by
  induction v with
  | nil => rfl
  | cons c v ih =>
    have hcons : Ev.escape (c :: v) = Ev.escape_char c ++ Ev.escape v := rfl
    rw [hcons, unescape_escape_char, ih]
    rfl

/-- A text with no backslash stands for itself. -/
theorem unescape_plain {t : List Char} (h : ∀ c ∈ t, c ≠ '\\') : unescape t = t := by
  induction t with
  | nil => rfl
  | cons c t ih =>
    rw [unescape_char (h c List.mem_cons_self), ih fun d hd => h d (List.mem_cons_of_mem _ hd)]

/-! ## Arrays -/

/-- The elements behind the first, and the bracket. -/
def tail_text (xs : List Int32) : List Char :=
  xs.flatMap (fun x => ',' :: decimal x.toInt) ++ [']']

theorem noDigit_tail (xs : List Int32) : NoDigit (tail_text xs) := by
  cases xs with
  | nil =>
    intro c hc
    obtain rfl : c = ']' := by simpa [tail_text, eq_comm] using hc
    decide
  | cons x xs =>
    intro c hc
    obtain rfl : c = ',' := by simpa [tail_text, eq_comm] using hc
    decide

/-- A number is no separator and no bracket. -/
theorem decimal_head (z : ℤ) (rest : List Char) :
    (decimal z ++ rest).dropWhile (fun c => c = ',' ∨ c = ' ') = decimal z ++ rest ∧
      decimal z ++ rest ≠ [] ∧ (decimal z ++ rest).head? ≠ some ']' ∧ rest ≠ decimal z ++ rest := by
  have hne : decimal z ≠ [] := number_ne_nil (.ofInt z)
  obtain ⟨c, t, hct⟩ := List.exists_cons_of_ne_nil hne
  have hc : NumberChar c := by
    apply number_chars (.ofInt z)
    have hval : (Number.ofInt z).val = c :: t := hct
    rw [hval]
    exact List.mem_cons_self
  have hcomma : c ≠ ',' := hc.ne (by decide)
  have hblank : c ≠ ' ' := hc.ne (by decide)
  have hbracket : c ≠ ']' := hc.ne (by decide)
  rw [hct]
  refine ⟨List.dropWhile_cons_of_neg (by simp [hcomma, hblank]), by simp,
    by simpa using hbracket, ?_⟩
  intro h
  have := congrArg List.length h
  simp at this
  omega

theorem elements_number (n : ℕ) (x : Int32) (xs : List Int32) :
    elements (n + 1) (decimal x.toInt ++ tail_text xs) = x :: elements n (tail_text xs) := by
  obtain ⟨hdrop, hne, hhead, hrest⟩ := decimal_head x.toInt (tail_text xs)
  rw [elements, hdrop, if_neg (not_or.mpr ⟨hne, hhead⟩),
    strtol_decimal x.toInt (noDigit_tail xs), if_neg hrest, Int32.ofInt_toInt]

theorem elements_tail (n : ℕ) (xs : List Int32) : elements n (tail_text xs) = xs.take n := by
  induction xs generalizing n with
  | nil =>
    cases n with
    | zero => rfl
    | succ n => rfl
  | cons x xs ih =>
    cases n with
    | zero => rfl
    | succ n =>
      have hcomma : elements (n + 1) (tail_text (x :: xs)) =
          elements (n + 1) (decimal x.toInt ++ tail_text xs) := by
        have htail : tail_text (x :: xs) = ',' :: (decimal x.toInt ++ tail_text xs) := by
          simp [tail_text]
        rw [htail, elements, elements, List.dropWhile_cons_of_pos (by decide)]
      rw [hcomma, elements_number, ih]
      rfl

/-- The elements of an array, from behind its bracket. -/
theorem elements_array (n : ℕ) (xs : List Int32) :
    elements n (commas ((xs.map fun x => some (Number.ofInt x.toInt)).map element) ++ [']']) =
      xs.take n := by
  cases xs with
  | nil => exact elements_tail n []
  | cons x xs =>
    have hcommas : commas (((x :: xs).map fun x => some (Number.ofInt x.toInt)).map element) ++
        [']'] = decimal x.toInt ++ tail_text xs := by
      simp [commas, tail_text, List.flatMap_map, element, Number.ofInt]
    rw [hcommas]
    cases n with
    | zero => rfl
    | succ n =>
      rw [elements_number, elements_tail]
      rfl

/-! ## Lookups -/

section lookups

variable {line key : List Char}

theorem jsonl_int_of {z : ℤ} (h : find_value key none line = some (decimal z)) (hz : |z| ≤ 2 ^ 53) :
    jsonl_int line key = some z := by
  have hne : decimal z ≠ ['n', 'u', 'l', 'l'] := by
    intro hnull
    have hn := number_chars (.ofInt z) 'n' (by
      have hval : (Number.ofInt z).val = ['n', 'u', 'l', 'l'] := hnull
      rw [hval]
      exact List.mem_cons_self)
    exact hn.ne (by decide) rfl
  have hhead : ∀ c ∈ (decimal z).head?, NumberChar c := by
    intro c hc
    exact number_chars (.ofInt z) c (List.mem_of_mem_head? hc)
  have hquote : (decimal z).head? ≠ some '"' := fun h => (hhead _ h).ne (by decide) rfl
  have hbracket : (decimal z).head? ≠ some '[' := fun h => (hhead _ h).ne (by decide) rfl
  unfold jsonl_int jsonl_num
  rw [h]
  dsimp only
  rw [if_neg (by simp [hne, hquote, hbracket]), strtod_decimal hz]
  simp

theorem jsonl_str_of {body : List Char}
    (h : find_value key none line = some ('"' :: (body ++ ['"']))) :
    jsonl_str line key = some (unescape body) := by
  have hlast : ('"' :: (body ++ ['"'])).getLast? = some '"' := by
    rw [← List.cons_append]
    exact List.getLast?_concat
  unfold jsonl_str
  rw [h]
  dsimp only
  rw [if_neg (by simp [hlast])]
  simp

theorem jsonl_arr_of {xs : List Int32} (h : find_value key none line =
      some (Value.arr (xs.map fun x => some (Number.ofInt x.toInt))).text) (max : ℤ) :
    jsonl_arr line key max = some (xs.take max.toNat) := by
  unfold jsonl_arr
  rw [h]
  simp only [Value.text, List.head?_cons, ne_eq, not_true, if_false, List.tail_cons]
  rw [elements_array]

/-- No lookup of the key succeeds. -/
def Misses (line key : List Char) : Prop :=
  jsonl_num line key = none ∧ jsonl_int line key = none ∧ jsonl_str line key = none ∧
    ∀ max, jsonl_arr line key max = none

theorem misses_absent (h : find_value key none line = none) : Misses line key := by
  unfold Misses jsonl_int jsonl_num jsonl_str jsonl_arr
  simp [h]

theorem misses_null (h : find_value key none line = some ['n', 'u', 'l', 'l']) :
    Misses line key := by
  unfold Misses jsonl_int jsonl_num jsonl_str jsonl_arr
  simp [h]

end lookups

/-! ## Events -/

/-- What the lookups give for a field. -/
def ReadsAs (line key : List Char) : Ev.Arg → Prop
  | .ll v => |v.toInt| ≤ 2 ^ 53 → jsonl_int line key = some v.toInt
  | .ull v => (v.toNat : ℤ) ≤ 2 ^ 53 → jsonl_int line key = some (v.toNat : ℤ)
  | .str v => jsonl_str line key = some (v.map sanitize)
  | .hexf v digits => jsonl_str line key = some ('0' :: 'x' :: Ev.hex_padded v.toNat digits)
  | .hex p => jsonl_str line key = some (Ev.hex_text p)
  | .arr v => ∀ max, jsonl_arr line key max = some (v.take max.toNat)
  | .null => Misses line key
  | _ => True

theorem reads_as {line key : List Char} {a : Ev.Arg}
    (h : find_value key none line = some a.exact.text) : ReadsAs line key a := by
  -- a text that was written without escapes
  have hplain : ∀ {t : List Char}, Plain t → find_value key none line = some ('"' :: (t ++ ['"'])) →
      jsonl_str line key = some t := by
    intro t ht h
    have hread := jsonl_str_of h
    rwa [unescape_plain fun c hc => (ht c hc).2.1] at hread
  cases a with
  | ll v => exact fun hv => jsonl_int_of h hv
  | ull v =>
    intro hv
    apply jsonl_int_of h
    rwa [abs_of_nonneg (Int.natCast_nonneg _)]
  | str v =>
    have hread := jsonl_str_of h
    rwa [unescape_escape] at hread
  | hexf v digits => exact hplain (Ev.plain_hexf v.toNat digits) h
  | hex p => exact hplain (Ev.plain_hex_text p) h
  | arr v => exact jsonl_arr_of h
  | null => exact misses_null h
  | double v => trivial
  | bool v => trivial
  | arr_double v => trivial

theorem find?_key {cs : List Ev.Call} (hnodup : (cs.map Ev.Call.key).Nodup) {c : Ev.Call}
    (hc : c ∈ cs) :
    (cs.map Ev.Call.member).find? (fun m => m.key = c.key) = some c.member := by
  induction cs with
  | nil => cases hc
  | cons d cs ih =>
    rw [List.map_cons] at hnodup ⊢
    obtain ⟨hd, hcs⟩ := List.nodup_cons.mp hnodup
    rcases List.mem_cons.mp hc with rfl | hc
    · exact List.find?_cons_of_pos (by simp [Ev.Call.member])
    · have hne : d.key ≠ c.key := by
        intro h
        apply hd
        rw [h]
        exact List.mem_map_of_mem hc
      rw [List.find?_cons_of_neg (by simp [Ev.Call.member, hne])]
      exact ih hcs hc

/-- The text of each field is found under its key, and nothing under a key that is none. -/
theorem find_value_event {name line : List Char} {calls : List Ev.Call} (hplain : Plain name)
    (hkeys : ∀ c ∈ calls, Unquoted c.key) (hnodup : (['e', 'v'] :: calls.map Ev.Call.key).Nodup)
    (hline : Ev.line name calls = some line) (h : (Ev.run name calls)._truncated = false) :
    (∀ c ∈ calls, find_value c.key none line = some c.arg.exact.text) ∧
      ∀ key, key ≠ ['e', 'v'] → key ∉ calls.map Ev.Call.key → find_value key none line = none := by
  obtain ⟨hev, hnodup⟩ := List.nodup_cons.mp hnodup
  rw [Ev.line_of_untruncated hplain calls h, Option.some.injEq] at hline
  subst hline
  have hunquoted : ∀ m ∈ Ev.name_member ⟨name, hplain.body⟩ :: calls.map Ev.Call.member,
      Unquoted m.key := by
    intro m hm
    have hname : Unquoted ['e', 'v'] := by decide
    rcases List.mem_cons.mp hm with rfl | hm
    · exact hname
    · obtain ⟨c, hc, rfl⟩ := List.mem_map.mp hm
      exact hkeys c hc
  have hnewline : ∀ c ∈ ['\n'], c ≠ '"' := forall_chars (by decide)
  constructor
  · intro c hc
    have hne : (Ev.name_member ⟨name, hplain.body⟩).key ≠ c.key := by
      intro h
      apply hev
      exact List.mem_map.mpr ⟨c, hc, h.symm⟩
    rw [find_value_object _ hunquoted hnewline,
      List.find?_cons_of_neg (by simpa using hne), find?_key hnodup hc]
    rfl
  · intro key hkey hnone
    rw [find_value_object _ hunquoted hnewline,
      List.find?_cons_of_neg (by simpa [Ev.name_member, eq_comm] using hkey)]
    have hfind : (calls.map Ev.Call.member).find? (fun m => m.key = key) = none := by
      rw [List.find?_eq_none]
      intro m hm
      obtain ⟨c, hc, rfl⟩ := List.mem_map.mp hm
      simp only [decide_eq_true_eq]
      intro h
      apply hnone
      rw [← h]
      exact List.mem_map_of_mem hc
    rw [hfind]
    rfl

/-- Each field of an event that is not truncated reads back as it was written. -/
theorem event_reads_back {name line : List Char} {calls : List Ev.Call} (hplain : Plain name)
    (hkeys : ∀ c ∈ calls, Unquoted c.key) (hnodup : (['e', 'v'] :: calls.map Ev.Call.key).Nodup)
    (hline : Ev.line name calls = some line) (h : (Ev.run name calls)._truncated = false) :
    (∀ c ∈ calls, ReadsAs line c.key c.arg) ∧
      ∀ key, key ≠ ['e', 'v'] → key ∉ calls.map Ev.Call.key → Misses line key := by
  obtain ⟨hfind, hnone⟩ := find_value_event hplain hkeys hnodup hline h
  exact ⟨fun c hc => reads_as (hfind c hc), fun key hkey hk => misses_absent (hnone key hkey hk)⟩

/-- An event that is not truncated starts with its name. -/
theorem jsonl_ev_is_line {name line : List Char} {calls : List Ev.Call} (hplain : Plain name)
    (hline : Ev.line name calls = some line) (h : (Ev.run name calls)._truncated = false) :
    jsonl_ev_is line name = true := by
  rw [Ev.line_of_untruncated hplain calls h, Option.some.injEq] at hline
  have hsplit : line = '\x7b' :: '"' :: 'e' :: 'v' :: '"' :: ':' :: '"' :: (name ++ ['"']) ++
      ((calls.map Ev.Call.member).map Member.text).flatMap (',' :: ·) ++ ['\x7d', '\n'] := by
    rw [← hline]
    simp [object, commas, Ev.name_member, Member.text]
  unfold jsonl_ev_is
  rw [hsplit, List.append_assoc]
  exact decide_eq_true List.take_left

end devourer.chanmig
