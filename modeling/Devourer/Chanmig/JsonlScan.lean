-- The scanner on the text of a flat object: it finds each member that is
-- there, with its whole value, and no other, whatever the strings contain.
import Devourer.Chanmig.JsonlLite

namespace devourer.chanmig

open FlatJson

variable {key s t rest : List Char} {c : Char}

/-! ## One character -/

section steps

variable {depth : ℕ}

theorem find_value_outside : find_value key none (c :: t) =
    if c = '"' then find_value key (some []) t else find_value key none t :=
  find_value.eq_def _ _ _

theorem find_value_inside : find_value key (some s) (c :: t) =
    if c = '"' then
      match t with
      | [] => none
      | d :: v =>
        if d = ':' then
          if s = key then (value_span false 0 v).filter (· ≠ []) else find_value key none v
        else find_value key none (d :: v)
    else if c = '\\' then
      match t with
      | [] => none
      | d :: t => find_value key (some (s ++ [c, d])) t
    else find_value key (some (s ++ [c])) t :=
  find_value.eq_def _ _ _

theorem value_span_outside : value_span false depth (c :: t) =
    if c = '"' then (value_span true depth t).map (c :: ·)
    else if c = '[' ∨ c = '\x7b' then (value_span false (depth + 1) t).map (c :: ·)
    else if c = ']' ∨ c = '\x7d' then
      if depth = 0 then some [] else (value_span false (depth - 1) t).map (c :: ·)
    else if c = ',' ∧ depth = 0 then some []
    else (value_span false depth t).map (c :: ·) :=
  value_span.eq_def _ _ _

theorem value_span_inside : value_span true depth (c :: t) =
    if c = '"' then (value_span false depth t).map (c :: ·)
    else if c = '\\' then
      match t with
      | [] => none
      | d :: t => (value_span true depth t).map (c :: d :: ·)
    else (value_span true depth t).map (c :: ·) :=
  value_span.eq_def _ _ _

theorem find_value_open : find_value key none ('"' :: t) = find_value key (some []) t :=
  find_value_outside.trans (if_pos rfl)

theorem find_value_other (h : c ≠ '"') : find_value key none (c :: t) = find_value key none t :=
  find_value_outside.trans (if_neg h)

theorem find_value_char (h : c ≠ '"') (h' : c ≠ '\\') :
    find_value key (some s) (c :: t) = find_value key (some (s ++ [c])) t := by
  rw [find_value_inside, if_neg h, if_neg h']

theorem find_value_escape :
    find_value key (some s) ('\\' :: c :: t) = find_value key (some (s ++ ['\\', c])) t := by
  rw [find_value_inside]
  rfl

theorem find_value_colon : find_value key (some s) ('"' :: ':' :: t) =
    if s = key then (value_span false 0 t).filter (· ≠ []) else find_value key none t := by
  rw [find_value_inside]
  rfl

/-- A string that no colon follows is no key. -/
theorem find_value_no_colon (h : c ≠ ':') :
    find_value key (some s) ('"' :: c :: t) = find_value key none (c :: t) := by
  rw [find_value_inside]
  simp only [if_true, h, if_false]

theorem value_span_open :
    value_span false depth ('"' :: t) = (value_span true depth t).map ('"' :: ·) :=
  value_span_outside.trans (if_pos rfl)

theorem value_span_close :
    value_span true depth ('"' :: t) = (value_span false depth t).map ('"' :: ·) :=
  value_span_inside.trans (if_pos rfl)

theorem value_span_char (h : c ≠ '"') (h' : c ≠ '\\') :
    value_span true depth (c :: t) = (value_span true depth t).map (c :: ·) := by
  rw [value_span_inside, if_neg h, if_neg h']

theorem value_span_escape : value_span true depth ('\\' :: c :: t) =
    (value_span true depth t).map ('\\' :: c :: ·) := by
  rw [value_span_inside]
  rfl

theorem value_span_bracket :
    value_span false depth ('[' :: t) = (value_span false (depth + 1) t).map ('[' :: ·) := by
  rw [value_span_outside]
  rfl

theorem value_span_bracket_end :
    value_span false (depth + 1) (']' :: t) = (value_span false depth t).map (']' :: ·) := by
  rw [value_span_outside]
  rfl

/-- A character that structures no value at this depth. -/
def Inner (depth : ℕ) (c : Char) : Prop :=
  c ≠ '"' ∧ c ≠ '[' ∧ c ≠ '\x7b' ∧ c ≠ ']' ∧ c ≠ '\x7d' ∧ (c = ',' → depth ≠ 0)

theorem value_span_other (h : Inner depth c) :
    value_span false depth (c :: t) = (value_span false depth t).map (c :: ·) := by
  obtain ⟨h1, h2, h3, h4, h5, h6⟩ := h
  have hcomma : ¬(c = ',' ∧ depth = 0) := fun hc => h6 hc.1 hc.2
  rw [value_span_outside]
  simp only [h1, h2, h3, h4, h5, hcomma, or_self, if_false]

/-- What follows a value in an object. -/
def Ends (rest : List Char) : Prop := ∃ c t, rest = c :: t ∧ (c = ',' ∨ c = '\x7d')

theorem value_span_ends (h : Ends rest) : value_span false 0 rest = some [] := by
  obtain ⟨c, t, rfl, rfl | rfl⟩ := h
  · rw [value_span_outside]
    rfl
  · rw [value_span_outside]
    rfl

end steps

/-! ## Inside a string -/

/-- The scanner goes through the units of a string. -/
theorem find_value_units (h : Units t) (s : List Char) :
    find_value key (some s) (t ++ rest) = find_value key (some (s ++ t)) rest := by
  induction h generalizing s with
  | nil => rw [List.nil_append, List.append_nil]
  | char quote slash _ ih =>
    rw [List.cons_append, find_value_char quote slash, ih, List.append_assoc]
    rfl
  | escape _ ih =>
    rw [List.cons_append, List.cons_append, find_value_escape, ih, List.append_assoc]
    rfl

theorem value_span_units (h : Units t) (depth : ℕ) :
    value_span true depth (t ++ rest) = (value_span true depth rest).map (t ++ ·) := by
  induction h with
  | nil => simp
  | char quote slash _ ih =>
    rw [List.cons_append, value_span_char quote slash, ih, Option.map_map]
    rfl
  | escape _ ih =>
    rw [List.cons_append, List.cons_append, value_span_escape, ih, Option.map_map]
    rfl

/-! ## Outside of strings -/

theorem find_value_skip (h : ∀ c ∈ t, c ≠ '"') :
    find_value key none (t ++ rest) = find_value key none rest := by
  induction t with
  | nil => rfl
  | cons c t ih =>
    rw [List.cons_append, find_value_other (h c List.mem_cons_self)]
    exact ih fun d hd => h d (List.mem_cons_of_mem _ hd)

theorem value_span_inner {depth : ℕ} (h : ∀ c ∈ t, Inner depth c) :
    value_span false depth (t ++ rest) = (value_span false depth rest).map (t ++ ·) := by
  induction t with
  | nil => simp
  | cons c t ih =>
    rw [List.cons_append, value_span_other (h c List.mem_cons_self),
      ih fun d hd => h d (List.mem_cons_of_mem _ hd), Option.map_map]
    rfl

/-! ## Values -/

theorem number_inner (n : Number) (depth : ℕ) : ∀ c ∈ n.val, Inner depth c := by
  intro c hc
  have hn := number_chars n c hc
  exact ⟨hn.ne (by decide), hn.ne (by decide), hn.ne (by decide), hn.ne (by decide),
    hn.ne (by decide), fun h => absurd h (hn.ne (by decide))⟩

theorem element_inner (x : Option Number) (depth : ℕ) : ∀ c ∈ element x, Inner depth c := by
  cases x with
  | none =>
    intro c hc
    simp only [element, List.mem_cons, List.not_mem_nil, or_false] at hc
    unfold Inner
    rcases hc with rfl | rfl | rfl | rfl
    all_goals simp
  | some n => exact number_inner n depth

/-- What stands between the brackets of an array. -/
theorem elements_inner (xs : List (Option Number)) :
    ∀ c ∈ commas (xs.map element), Inner 1 c := by
  have hcomma : Inner 1 ',' := by
    unfold Inner
    simp
  cases xs with
  | nil => exact fun c hc => by cases hc
  | cons x xs =>
    intro c hc
    rcases List.mem_append.mp hc with hc | hc
    · exact element_inner x 1 c hc
    · obtain ⟨u, hu, hc⟩ := List.mem_flatMap.mp hc
      obtain ⟨y, -, rfl⟩ := List.mem_map.mp hu
      rcases List.mem_cons.mp hc with rfl | hc
      · exact hcomma
      · exact element_inner y 1 c hc

theorem bool_inner (b : Bool) : ∀ c ∈ (Value.bool b).text, Inner 0 c := by
  unfold Inner
  cases b with
  | false => simp [Value.text]
  | true => simp [Value.text]

/-- The span of a value is its text. -/
theorem value_span_text (v : Value) (h : Ends rest) :
    value_span false 0 (v.text ++ rest) = some v.text := by
  have hinner : ∀ {t : List Char}, (∀ c ∈ t, Inner 0 c) →
      value_span false 0 (t ++ rest) = some t := by
    intro t ht
    rw [value_span_inner ht, value_span_ends h]
    simp
  cases v with
  | null => exact hinner (element_inner none 0)
  | bool b => exact hinner (bool_inner b)
  | num n => exact hinner (number_inner n 0)
  | str body =>
    have hrest : value_span false 0 ('"' :: (body.val ++ ('"' :: rest))) =
        some ('"' :: (body.val ++ ['"'])) := by
      rw [value_span_open, value_span_units body.property.units, value_span_close,
        value_span_ends h]
      simp
    simpa using hrest
  | arr xs =>
    have hrest : value_span false 0 ('[' :: (commas (xs.map element) ++ (']' :: rest))) =
        some ('[' :: (commas (xs.map element) ++ [']'])) := by
      rw [value_span_bracket, Nat.zero_add, value_span_inner (elements_inner xs),
        value_span_bracket_end, value_span_ends h]
      simp
    simpa [Value.text] using hrest

theorem text_ne_nil (v : Value) : v.text ≠ [] := by
  cases v with
  | bool b =>
    cases b with
    | false => simp [Value.text]
    | true => simp [Value.text]
  | num n => exact number_ne_nil n
  | _ => simp [Value.text]

/-- Looking for another key, the scanner goes past a value. -/
theorem find_value_past (v : Value) (h : Ends rest) :
    find_value key none (v.text ++ rest) = find_value key none rest := by
  have hinner : ∀ {t : List Char}, (∀ c ∈ t, Inner 0 c) →
      find_value key none (t ++ rest) = find_value key none rest :=
    fun ht => find_value_skip fun c hc => (ht c hc).1
  cases v with
  | null => exact hinner (element_inner none 0)
  | bool b => exact hinner (bool_inner b)
  | num n => exact hinner (number_inner n 0)
  | str body =>
    -- the string ends before a comma or a brace, so it is no key
    have hrest : find_value key none ('"' :: (body.val ++ ('"' :: rest))) =
        find_value key none rest := by
      obtain ⟨c, t, rfl, hc⟩ := h
      have hcolon : c ≠ ':' := by
        rcases hc with rfl | rfl
        · decide
        · decide
      rw [find_value_open, find_value_units body.property.units, find_value_no_colon hcolon]
    simpa using hrest
  | arr xs =>
    have hskip : ∀ c ∈ '[' :: (commas (xs.map element) ++ [']']), c ≠ '"' := by
      intro c hc
      rcases List.mem_cons.mp hc with rfl | hc
      · decide
      rcases List.mem_append.mp hc with hc | hc
      · exact (elements_inner xs c hc).1
      · rw [List.mem_singleton.mp hc]
        decide
    exact find_value_skip hskip

/-! ## Members and objects -/

theorem find_value_member (m : Member) (hkey : Unquoted m.key) (h : Ends rest) :
    find_value key none (m.text ++ rest) =
      if m.key = key then some m.value.text else find_value key none rest := by
  have htext : m.text ++ rest = '"' :: (m.key ++ ('"' :: ':' :: (m.value.text ++ rest))) := by
    simp [Member.text]
  rw [htext, find_value_open, find_value_units hkey.units, find_value_colon, List.nil_append]
  by_cases hk : m.key = key
  · rw [if_pos hk, if_pos hk, value_span_text m.value h]
    simp [Option.filter, text_ne_nil m.value]
  · rw [if_neg hk, if_neg hk, find_value_past m.value h]

theorem find_value_members (ms : List Member) (hkeys : ∀ m ∈ ms, Unquoted m.key) (h : Ends rest)
    (hnone : find_value key none rest = none) :
    find_value key none (ms.flatMap (fun m => ',' :: m.text) ++ rest) =
      (ms.find? fun m => m.key = key).map fun m => m.value.text := by
  induction ms with
  | nil => exact hnone
  | cons m ms ih =>
    have hrest : Ends (ms.flatMap (fun m => ',' :: m.text) ++ rest) := by
      cases ms with
      | nil => exact h
      | cons n ns => exact ⟨',', _, rfl, .inl rfl⟩
    have hcomma : find_value key none (',' :: (m.text ++
        (ms.flatMap (fun m => ',' :: m.text) ++ rest))) =
          find_value key none (m.text ++ (ms.flatMap (fun m => ',' :: m.text) ++ rest)) :=
      find_value_other (by decide)
    rw [List.flatMap_cons, List.cons_append, List.cons_append, List.append_assoc, hcomma,
      find_value_member m (hkeys m List.mem_cons_self) hrest]
    by_cases hk : m.key = key
    · rw [if_pos hk, List.find?_cons_of_pos (by simpa using hk)]
      rfl
    · rw [if_neg hk, List.find?_cons_of_neg (by simpa using hk)]
      exact ih fun n hn => hkeys n (List.mem_cons_of_mem _ hn)

/-- The scanner finds the first member of a key, and what a line has behind its object is no
member. -/
theorem find_value_object (ms : List Member) (hkeys : ∀ m ∈ ms, Unquoted m.key)
    (hrest : ∀ c ∈ rest, c ≠ '"') :
    find_value key none (object ms ++ rest) =
      (ms.find? fun m => m.key = key).map fun m => m.value.text := by
  have hend : find_value key none ('\x7d' :: rest) = none := by
    have h := @find_value_skip key ('\x7d' :: rest) [] (by
      intro c hc
      rcases List.mem_cons.mp hc with rfl | hc
      · decide
      · exact hrest c hc)
    rw [List.append_nil] at h
    rw [h]
    rfl
  have hends : Ends ('\x7d' :: rest) := ⟨_, _, rfl, .inr rfl⟩
  have hopen : object ms ++ rest = '\x7b' :: (commas (ms.map Member.text) ++ ('\x7d' :: rest)) := by
    simp [object]
  have hskip : find_value key none ('\x7b' :: (commas (ms.map Member.text) ++ ('\x7d' :: rest))) =
      find_value key none (commas (ms.map Member.text) ++ ('\x7d' :: rest)) :=
    find_value_other (by decide)
  rw [hopen, hskip]
  cases ms with
  | nil => exact hend
  | cons m ms =>
    have hcommas : commas ((m :: ms).map Member.text) ++ ('\x7d' :: rest) =
        m.text ++ (ms.flatMap (fun m => ',' :: m.text) ++ ('\x7d' :: rest)) := by
      simp [commas, List.flatMap_map]
    have hrest' : Ends (ms.flatMap (fun m => ',' :: m.text) ++ ('\x7d' :: rest)) := by
      cases ms with
      | nil => exact hends
      | cons n ns => exact ⟨',', _, rfl, .inl rfl⟩
    rw [hcommas, find_value_member m (hkeys m List.mem_cons_self) hrest',
      find_value_members ms (fun n hn => hkeys n (List.mem_cons_of_mem _ hn)) hends hend]
    by_cases hk : m.key = key
    · rw [if_pos hk, List.find?_cons_of_pos (by simpa using hk)]
      rfl
    · rw [if_neg hk, List.find?_cons_of_neg (by simpa using hk)]

end devourer.chanmig
