-- What stands on the line of an event: which calls leave their field whole,
-- as null or not at all, and what the line then is.
import Devourer.Event

namespace devourer.Ev

open FlatJson

/-! ## Escapes -/

theorem hex_padded_char {c : Char} (h : c.toNat < 0x20) :
    hex_padded c.toNat 4 = ['0', '0', hexDigit (c.toNat / 16), hexDigit (c.toNat % 16)] := by
  unfold hex_padded hexDigit
  rw [Nat.toDigits_eq_if (by decide)]
  by_cases h16 : c.toNat < 16
  · rw [if_pos h16, Nat.mod_eq_of_lt h16, Nat.div_eq_of_lt h16]
    rfl
  · rw [if_neg h16, Nat.toDigits_of_lt_base (by omega)]
    rfl

theorem isHex_hexDigit {n : ℕ} (h : n < 16) : IsHex (hexDigit n) := by
  have hall : ∀ n < 16, (hexDigit n).isDigit = true ∨ ('a' ≤ hexDigit n ∧ hexDigit n ≤ 'f') ∨
      ('A' ≤ hexDigit n ∧ hexDigit n ≤ 'F') := by decide
  exact hall n h

theorem hexVal_hexDigit {n : ℕ} (h : n < 16) : hexVal (hexDigit n) = n := by
  have hall : ∀ n < 16, hexVal (hexDigit n) = n := by decide
  exact hall n h

/-- One character, as one unit of a string body that stands for it. -/
theorem escape_char_body (c : Char) {t : List Char} (ht : Body t) :
    Body (escape_char c ++ t) ∧ unescape (escape_char c ++ t) = c :: unescape t := by
  unfold escape_char
  by_cases hq : c = '"'
  · subst hq
    exact ⟨.escape (by decide) ht, rfl⟩
  by_cases hs : c = '\\'
  · subst hs
    exact ⟨.escape (by decide) ht, rfl⟩
  by_cases hn : c = '\n'
  · subst hn
    exact ⟨.escape (by decide) ht, rfl⟩
  by_cases htab : c = '\t'
  · subst htab
    exact ⟨.escape (by decide) ht, rfl⟩
  by_cases hr : c = '\r'
  · subst hr
    exact ⟨.escape (by decide) ht, rfl⟩
  rw [if_neg hq, if_neg hs, if_neg hn, if_neg htab, if_neg hr]
  by_cases hctl : c.toNat < 0x20
  · rw [if_pos hctl, hex_padded_char hctl]
    have h1 : c.toNat / 16 < 16 := by omega
    have h2 : c.toNat % 16 < 16 := by omega
    have h0 : IsHex '0' := .inl (by decide)
    refine ⟨.unicode h0 h0 (isHex_hexDigit h1) (isHex_hexDigit h2) ht, ?_⟩
    have hval : 16 * (16 * (16 * hexVal '0' + hexVal '0') + hexVal (hexDigit (c.toNat / 16))) +
        hexVal (hexDigit (c.toNat % 16)) = c.toNat := by
      rw [hexVal_hexDigit h1, hexVal_hexDigit h2, show hexVal '0' = 0 from rfl]
      omega
    simp only [List.cons_append, List.nil_append]
    rw [unescape, hval, Char.ofNat_toNat]
  · rw [if_neg hctl]
    have hprint : ' ' ≤ c := Nat.not_lt.mp hctl
    refine ⟨.char hq hs hprint ht, ?_⟩
    rw [List.singleton_append, unescape.eq_def]
    split
    · rename_i heq
      exact absurd (List.cons.inj heq).1 hs
    · rename_i heq
      exact absurd (List.cons.inj heq).1 hs
    · rename_i heq
      obtain ⟨rfl, rfl⟩ := List.cons.inj heq
      rfl
    · rename_i heq
      cases heq

/-- What `str` writes between the quotes stands for the string. -/
theorem escape_body (v : List Char) : Body (escape v) ∧ unescape (escape v) = v := by
  induction v with
  | nil => exact ⟨.nil, rfl⟩
  | cons c v ih =>
    have hone := escape_char_body c ih.1
    rw [ih.2] at hone
    exact hone

theorem length_escape_char (c : Char) : (escape_char c).length ≤ 6 := by
  unfold escape_char
  by_cases hctl : c.toNat < 0x20
  · rw [hex_padded_char hctl]
    split
    · decide
    split
    · decide
    split
    · decide
    split
    · decide
    split
    · decide
    simp
  · repeat' split
    all_goals first | decide | simp

theorem length_escape (v : List Char) : (escape v).length ≤ v.length * 6 := by
  induction v with
  | nil => exact Nat.le_refl _
  | cons c v ih =>
    have h := length_escape_char c
    have hcons : escape (c :: v) = escape_char c ++ escape v := rfl
    rw [hcons, List.length_append, List.length_cons]
    omega

/-! ## The value of a field -/

theorem mem_toDigits_hex {c : Char} {n : ℕ} (h : c ∈ Nat.toDigits 16 n) :
    ∃ k < 16, c = hexDigit k := by
  induction n using Nat.base_induction 16 (by decide) with
  | single m hm =>
    rw [Nat.toDigits_of_lt_base hm] at h
    exact ⟨m, hm, List.mem_singleton.mp h⟩
  | digit m k hk hm ih =>
    rw [← Nat.toDigits_append_toDigits (by decide) hm hk, Nat.toDigits_of_lt_base hk] at h
    rcases List.mem_append.mp h with h | h
    · exact ih h
    · exact ⟨k, hk, List.mem_singleton.mp h⟩

theorem plain_hexDigit {k : ℕ} (h : k < 16) :
    hexDigit k ≠ '"' ∧ hexDigit k ≠ '\\' ∧ ' ' ≤ hexDigit k := by
  have hall : ∀ k < 16, hexDigit k ≠ '"' ∧ hexDigit k ≠ '\\' ∧ ' ' ≤ hexDigit k := by decide
  exact hall k h

theorem plain_hex_padded (v width : ℕ) : Plain (hex_padded v width) := by
  intro c hc
  rcases List.mem_append.mp hc with hc | hc
  · rw [List.eq_of_mem_replicate hc]
    decide
  · obtain ⟨k, hk, rfl⟩ := mem_toDigits_hex hc
    exact plain_hexDigit hk

theorem plain_hexf (v width : ℕ) : Plain ('0' :: 'x' :: hex_padded v width) := by
  intro c hc
  rcases List.mem_cons.mp hc with rfl | hc
  · decide
  rcases List.mem_cons.mp hc with rfl | hc
  · decide
  · exact plain_hex_padded v width c hc

theorem plain_hex_text (p : Bytes) : Plain (hex_text p) := by
  intro c hc
  obtain ⟨b, -, hb⟩ := List.mem_flatMap.mp hc
  have hhi : (b >>> 4).toNat < 16 := by
    have h4 : (b >>> 4).toNat = b.toNat / 16 := by
      rw [UInt8.toNat_shiftRight, Nat.shiftRight_eq_div_pow]
      rfl
    have := b.toNat_lt
    omega
  have hlo : (b &&& 0xf).toNat < 16 := by
    have h15 : (b &&& 0xf).toNat = b.toNat % 16 := by
      rw [UInt8.toNat_and]
      exact Nat.and_two_pow_sub_one_eq_mod _ 4
    omega
  rcases List.mem_cons.mp hb with rfl | hb
  · exact plain_hexDigit hhi
  · rw [List.mem_singleton.mp hb]
    exact plain_hexDigit hlo

theorem length_hex_text (p : Bytes) : (hex_text p).length = p.length * 2 := by
  induction p with
  | nil => rfl
  | cons b p ih =>
    have hcons : hex_text (b :: p) =
        [hexDigit (b >>> 4).toNat, hexDigit (b &&& 0xf).toNat] ++ hex_text p := rfl
    rw [hcons, List.length_append, ih, List.length_cons]
    simp only [List.length_cons, List.length_nil]
    omega

namespace Arg

/-- The JSON value that stands for an argument. -/
def exact : Arg → Value
  | .ll v => .num (Number.ofInt v.toInt)
  | .ull v => .num (Number.ofInt v.toNat)
  | .double (some v) => .num v
  | .double none => .null
  | .bool v => .bool v
  | .str v => .str ⟨escape v, (escape_body v).1⟩
  | .null => .null
  | .hexf v digits => .str ⟨_, (plain_hexf v.toNat digits).body⟩
  | .hex p => .str ⟨_, (plain_hex_text p).body⟩
  | .arr v => .arr (v.map fun x => some (Number.ofInt x.toInt))
  | .arr_double v => .arr v

/-- The characters that are asked for before the value is written. -/
def need : Arg → ℕ
  | .str v => v.length * 6 + 2
  | .hex p => p.length * 2 + 2
  | a => a.exact.text.length

theorem length_le_need (a : Arg) : a.exact.text.length ≤ a.need := by
  cases a with
  | str v =>
    have := length_escape v
    simp only [exact, need, Value.text, List.length_cons, List.length_append, List.length_nil]
    omega
  | hex p =>
    have := length_hex_text p
    simp only [exact, need, Value.text, List.length_cons, List.length_append, List.length_nil]
    omega
  | _ => exact Nat.le_refl _

/-- A string and a blob fall back to null. -/
def falls_back : Arg → Bool
  | .str _ => true
  | .hex _ => true
  | _ => false

end Arg

/-! ## Appends -/

/-- `n` more characters stay off the slack. -/
def Room (s : Ev) (n : ℕ) : Prop := s._buf.length + n + kSlack ≤ kMaxLine

instance (s : Ev) (n : ℕ) : Decidable (Room s n) :=
  inferInstanceAs (Decidable (s._buf.length + n + kSlack ≤ kMaxLine))

variable {s : Ev} {p : List Char} {n : ℕ}

theorem ensure_room (h : Room s n) : s.ensure n kSlack = (s, true) := if_neg (Nat.not_lt.mpr h)

theorem ensure_full (h : ¬Room s n) : s.ensure n kSlack = ({ s with _truncated := true }, false) :=
  if_pos (Nat.not_le.mp h)

theorem raw_room (hd : s._dead = false) (h : Room s p.length) : s.raw p = s.append p := by
  unfold raw
  rw [hd, ensure_room h]
  rfl

theorem raw_full (hd : s._dead = false) (h : ¬Room s p.length) :
    s.raw p = { s with _truncated := true } := by
  unfold raw
  rw [if_neg (by rw [hd]; decide), ensure_full h]
  rfl

@[simp] theorem append_dead (s : Ev) (p : List Char) : (s.append p)._dead = s._dead := rfl

@[simp] theorem append_truncated (s : Ev) (p : List Char) :
    (s.append p)._truncated = s._truncated := rfl

@[simp] theorem append_append (s : Ev) (p q : List Char) :
    (s.append p).append q = s.append (p ++ q) := by
  unfold append
  rw [List.append_assoc]

theorem room_append {k : ℕ} (h : Room s (p.length + k)) : Room (s.append p) k := by
  unfold Room append at *
  rw [List.length_append]
  omega

theorem Room.mono {k : ℕ} (h : Room s n) (hk : k ≤ n) : Room s k := by
  unfold Room at *
  omega

/-- Two pieces that fit together are appended one behind the other. -/
theorem raw_raw_room (q : List Char) (hd : s._dead = false) (h : Room s (p ++ q).length) :
    (s.raw p).raw q = s.append (p ++ q) := by
  rw [List.length_append] at h
  rw [raw_room hd (h.mono (Nat.le_add_right _ _)),
    raw_room (s := s.append p) hd (room_append h), append_append]

theorem tail_items_room (ts : List (List Char)) (hd : s._dead = false)
    (h : Room s (ts.flatMap (',' :: ·)).length) :
    ts.foldl (fun s t => (s.raw [',']).raw t) s = s.append (ts.flatMap (',' :: ·)) := by
  induction ts generalizing s with
  | nil =>
    unfold append
    simp
  | cons t ts ih =>
    rw [List.flatMap_cons, List.length_append] at h
    rw [List.foldl_cons, raw_raw_room t hd (h.mono (Nat.le_add_right _ _))]
    have hrest := ih (s := s.append ([','] ++ t)) hd (room_append h)
    rw [hrest, append_append]
    rfl

theorem items_room (ts : List (List Char)) (hd : s._dead = false)
    (h : Room s (commas ts).length) : s.items ts = s.append (commas ts) := by
  cases ts with
  | nil =>
    unfold append
    simp [items, commas]
  | cons t ts =>
    rw [commas, List.length_append] at h
    have hitems : s.items (t :: ts) =
        ts.foldl (fun s t => (s.raw [',']).raw t) (s.raw t) := rfl
    rw [hitems, raw_room hd (h.mono (Nat.le_add_right _ _)),
      tail_items_room (s := s.append t) ts hd (room_append h), append_append]
    rfl

/-- An array whose pieces fit together is written whole. -/
theorem array_room (ts : List (List Char)) (hd : s._dead = false)
    (h : Room s ('[' :: (commas ts ++ [']'])).length) :
    s.array ts = s.append ('[' :: (commas ts ++ [']'])) := by
  have hsplit : '[' :: (commas ts ++ [']']) = ['['] ++ (commas ts ++ [']']) := rfl
  rw [hsplit, List.length_append, List.length_append] at h
  unfold array
  rw [raw_room hd (h.mono (Nat.le_add_right _ _))]
  have h1 := room_append h
  rw [items_room (s := s.append ['[']) ts hd (h1.mono (Nat.le_add_right _ _)), append_append]
  have h2 : Room (s.append (['['] ++ commas ts)) [']'].length := by
    apply room_append
    rw [List.length_append]
    exact h.mono (by omega)
  rw [raw_room (s := s.append (['['] ++ commas ts)) hd h2, append_append, List.append_assoc]
  rfl

/-! ## What a call writes -/

/-- A value that fits is written whole. -/
theorem value_room {a : Arg} (hd : s._dead = false) (h : Room s a.need) :
    s.value a = s.append a.exact.text := by
  cases a with
  | ll v => exact raw_room hd h
  | ull v => exact raw_room hd h
  | double v =>
    cases v with
    | none => exact raw_room hd h
    | some v => exact raw_room hd h
  | bool v =>
    cases v with
    | false => exact raw_room hd h
    | true => exact raw_room hd h
  | str v =>
    simp only [value, str]
    rw [ensure_room (n := v.length * 6 + 2) h]
    rfl
  | null => exact raw_room hd h
  | hexf v digits => exact raw_room hd h
  | hex p =>
    simp only [value, blob]
    rw [ensure_room (n := p.length * 2 + 2) h]
    rfl
  | arr v =>
    have hmap : (v.map fun x => some (Number.ofInt x.toInt)).map element =
        v.map fun x => decimal x.toInt := by
      rw [List.map_map]
      rfl
    have harr := array_room (v.map fun x => decimal x.toInt) hd
    rw [← hmap] at harr
    have hvalue : s.value (.arr v) =
        s.array ((v.map fun x => some (Number.ofInt x.toInt)).map element) := by
      rw [hmap]
      rfl
    rw [hvalue]
    exact harr h
  | arr_double v => exact array_room _ hd h

/-- A string or blob that does not fit is null, if that fits. -/
theorem value_null {a : Arg} (hd : s._dead = false) (hfull : ¬Room s a.need)
    (hfalls : a.falls_back = true) (h : Room s 4) :
    s.value a = { s.append null_text with _truncated := true } := by
  cases a with
  | str v =>
    simp only [value, str]
    rw [ensure_full (n := v.length * 6 + 2) hfull]
    exact raw_room (s := { s with _truncated := true }) hd h
  | hex p =>
    simp only [value, blob]
    rw [ensure_full (n := p.length * 2 + 2) hfull]
    exact raw_room (s := { s with _truncated := true }) hd h
  | _ => cases hfalls

/-- The key of a call. -/
def key_text (c : Call) : List Char := ',' :: '"' :: (c.key ++ ['"', ':'])

theorem length_key_text (c : Call) : (key_text c).length = c.key.length + 4 := by
  simp [key_text]

theorem begin_field_full {k : List Char} (hd : s._dead = false) (h : ¬Room s (k.length + 4)) :
    s.begin_field k = ({ s with _truncated := true }, false) := by
  unfold begin_field
  rw [if_neg (by rw [hd]; decide), ensure_full h]
  rfl

theorem begin_field_room {k : List Char} (hd : s._dead = false) (h : Room s (k.length + 4)) :
    s.begin_field k = (s.append (',' :: '"' :: (k ++ ['"', ':'])), true) := by
  unfold begin_field
  rw [if_neg (by rw [hd]; decide), ensure_room h]
  rfl

theorem call_full {c : Call} (hd : s._dead = false) (h : ¬Room s (key_text c).length) :
    s.call c = { s with _truncated := true } := by
  rw [length_key_text] at h
  unfold call
  rw [begin_field_full hd h]
  rfl

theorem call_room {c : Call} (hd : s._dead = false) (h : Room s (key_text c).length) :
    s.call c = (s.append (key_text c)).value c.arg := by
  rw [length_key_text] at h
  unfold call
  rw [begin_field_room hd h]
  rfl

/-- The three ways of a call that leaves no half of a field. -/
inductive Wrote (s : Ev) (c : Call) : Ev → Prop
  | exact (room : Room s ((key_text c).length + c.arg.need)) :
      Wrote s c (s.append (key_text c ++ c.arg.exact.text))
  | null (room : Room s ((key_text c).length + 4)) :
      Wrote s c { s.append (key_text c ++ null_text) with _truncated := true }
  | absent : Wrote s c { s with _truncated := true }

/-- The key of the call does not fit, or its whole value does too, or null does for a value that
falls back to it. -/
def Whole (s : Ev) (c : Call) : Prop :=
  ¬Room s (key_text c).length ∨ Room s ((key_text c).length + c.arg.need) ∨
    (c.arg.falls_back = true ∧ Room s ((key_text c).length + 4))

instance (s : Ev) (c : Call) : Decidable (Whole s c) :=
  inferInstanceAs (Decidable (¬Room s (key_text c).length ∨
    Room s ((key_text c).length + c.arg.need) ∨
      (c.arg.falls_back = true ∧ Room s ((key_text c).length + 4))))

theorem call_wrote {c : Call} (hd : s._dead = false) (h : Whole s c) : Wrote s c (s.call c) := by
  by_cases hkey : Room s (key_text c).length
  · by_cases hvalue : Room s ((key_text c).length + c.arg.need)
    · rw [call_room hd hkey, value_room (s := s.append (key_text c)) hd (room_append hvalue),
        append_append]
      exact .exact hvalue
    · rcases h with h | h | ⟨hfalls, hnull⟩
      · exact absurd hkey h
      · exact absurd h hvalue
      · have hfull : ¬Room (s.append (key_text c)) c.arg.need := by
          intro hr
          apply hvalue
          unfold Room append at *
          rw [List.length_append] at hr
          omega
        rw [call_room hd hkey, value_null (s := s.append (key_text c)) hd hfull hfalls
          (room_append hnull), append_append]
        exact .null hnull
  · rw [call_full hd hkey]
    exact .absent

/-! ## What a line says -/

/-- The value is that of the argument: a string is one that stands for it. -/
def Exact : Arg → Value → Prop
  | .str v, w => ∃ b, w = .str b ∧ unescape b.val = v
  | a, w => w = a.exact

theorem exact_exact (a : Arg) : Exact a a.exact := by
  cases a with
  | str v => exact ⟨_, rfl, (escape_body v).2⟩
  | _ => rfl

/-- A call and what the object has for it: a value, or no member at all. -/
abbrev Fate := Call × Option Value

def Present (f : Fate) : Prop := ∃ w, f.2 = some w ∧ Exact f.1.arg w

/-- Present with the exact value, present as null, or absent. -/
def Fair (f : Fate) : Prop := Present f ∨ f.2 = some .null ∨ f.2 = none

def fated (fs : List Fate) : List Member := fs.filterMap fun f => f.2.map (⟨f.1.key, ·⟩)

/-- The event name, as the first member. -/
def name_member (n : {t : List Char // Body t}) : Member := ⟨['e', 'v'], .str n⟩

def truncated_member : Member :=
  ⟨['t', 'r', 'u', 'n', 'c', 'a', 't', 'e', 'd'], .bool true⟩

/-- One well-formed line for an event with this name and these calls. A name too long for a line is
dropped. -/
structure Faithful (name : List Char) (calls : List Call) (line : List Char) : Prop where
  size : line.length ≤ kMaxLine
  newline : ∃ body, line = body ++ ['\n'] ∧ '\n' ∉ body
  stands : ∃ n fs truncated, fs.map Prod.fst = calls ∧
    line = object (name_member n :: (fated fs ++ if truncated then [truncated_member] else [])) ++
      ['\n'] ∧
    (∀ f ∈ fs, Fair f) ∧ (n.val = name ∨ (n.val = [] ∧ truncated = true)) ∧
    (truncated = false → ∀ f ∈ fs, Present f)

/-! ## The line as it grows -/

/-- What the buffer holds after the name and some calls. -/
structure Lined (name : List Char) (calls : List Call) (s : Ev) : Prop where
  alive : s._dead = false
  room : Room s 0
  stands : ∃ n fs, fs.map Prod.fst = calls ∧
    s._buf = '\x7b' :: commas ((name_member n :: fated fs).map Member.text) ∧
    (∀ f ∈ fs, Fair f) ∧ (n.val = name ∨ (n.val = [] ∧ s._truncated = true)) ∧
    (s._truncated = false → ∀ f ∈ fs, Present f)

theorem fated_snoc (fs : List Fate) (f : Fate) :
    fated (fs ++ [f]) = fated fs ++ (f.2.map fun v => (⟨f.1.key, v⟩ : Member)).toList := by
  unfold fated
  rw [List.filterMap_append]
  cases hf : f.2 with
  | none => simp [hf]
  | some v => simp [hf]

/-- A member behind those that stand. -/
theorem lined_member {n : {t : List Char // Body t}} {fs : List Fate} (c : Call) (v : Value)
    (h : s._buf = '\x7b' :: commas ((name_member n :: fated fs).map Member.text)) :
    s._buf ++ (key_text c ++ v.text) =
      '\x7b' :: commas ((name_member n :: fated (fs ++ [(c, some v)])).map Member.text) := by
  have hkey : key_text c ++ v.text = ',' :: Member.text ⟨c.key, v⟩ := by
    simp [key_text, Member.text]
  rw [fated_snoc, h, hkey, ← List.cons_append, List.map_append]
  have hone : List.map Member.text
      ((some v).map fun v => (⟨c.key, v⟩ : Member)).toList = [Member.text ⟨c.key, v⟩] := rfl
  rw [hone, commas_snoc (by simp)]
  rfl

theorem forall_snoc {α : Type} {P : α → Prop} {xs : List α} {x : α} (h : ∀ y ∈ xs, P y)
    (hx : P x) : ∀ y ∈ xs ++ [x], P y := by
  intro y hy
  rcases List.mem_append.mp hy with hy | hy
  · exact h y hy
  · rw [List.mem_singleton.mp hy]
    exact hx

theorem lined_call {name : List Char} {calls : List Call} {c : Call} {t : Ev}
    (h : Lined name calls s) (hw : Wrote s c t) : Lined name (calls ++ [c]) t := by
  obtain ⟨hd, hroom, n, fs, hfs, hbuf, hfair, hname, hpresent⟩ := h
  cases hw with
  | exact room =>
    have hp : Present (c, some c.arg.exact) := ⟨_, rfl, exact_exact c.arg⟩
    have hlen : c.arg.exact.text.length ≤ c.arg.need := c.arg.length_le_need
    refine ⟨hd, ?_, n, fs ++ [(c, some c.arg.exact)], by rw [List.map_append, hfs]; rfl,
      lined_member c _ hbuf, forall_snoc hfair (.inl hp), hname, ?_⟩
    · apply room_append
      rw [List.length_append]
      exact room.mono (by omega)
    · intro ht
      exact forall_snoc (hpresent ht) hp
  | null room =>
    refine ⟨hd, ?_, n, fs ++ [(c, some Value.null)], by rw [List.map_append, hfs]; rfl,
      lined_member c Value.null hbuf, forall_snoc hfair (.inr (.inl rfl)), ?_,
      fun ht => by cases ht⟩
    · have h4 := room_append (p := key_text c ++ null_text) (k := 0) (by
        rw [List.length_append]
        exact room)
      exact h4
    · rcases hname with hname | ⟨hname, -⟩
      · exact .inl hname
      · exact .inr ⟨hname, rfl⟩
  | absent =>
    have hsame : fated (fs ++ [(c, none)]) = fated fs := by
      rw [fated_snoc]
      simp
    refine ⟨hd, hroom, n, fs ++ [(c, none)], by rw [List.map_append, hfs]; rfl,
      by rw [hsame]; exact hbuf, forall_snoc hfair (.inr (.inr rfl)), ?_, fun ht => by cases ht⟩
    rcases hname with hname | ⟨hname, -⟩
    · exact .inl hname
    · exact .inr ⟨hname, rfl⟩

/-- The head of a line with the name and its quotes. -/
def head_text : List Char := ['\x7b', '"', 'e', 'v', '"', ':', '"']

/-- The quote behind the name has no place where the name just fits. -/
def name_splits (name : List Char) : Prop := name.length + head_text.length + kSlack = kMaxLine

instance (name : List Char) : Decidable (name_splits name) :=
  inferInstanceAs (Decidable (name.length + head_text.length + kSlack = kMaxLine))

theorem lined_start {name : List Char} (hplain : Plain name) (h : ¬name_splits name) :
    Lined name [] (start true name) := by
  have hstart : start true name = ((({} : Ev).append head_text).raw name).raw ['"'] := rfl
  rw [hstart]
  have hlen : head_text.length = 7 := rfl
  have hnone : ∀ f ∈ ([] : List Fate), Fair f := fun _ hf => absurd hf List.not_mem_nil
  have hnone' : ∀ f ∈ ([] : List Fate), Present f := fun _ hf => absurd hf List.not_mem_nil
  by_cases hname : Room (({} : Ev).append head_text) name.length
  · have hquote : Room (({} : Ev).append head_text) (name ++ ['"']).length := by
      have hquoted : (name ++ ['"']).length = name.length + 1 := by simp
      have hbuf : (({} : Ev).append head_text)._buf.length = 7 := rfl
      unfold Room name_splits at *
      rw [hquoted]
      rw [hlen] at h
      rw [hbuf] at hname ⊢
      omega
    rw [raw_raw_room (s := ({} : Ev).append head_text) ['"'] rfl hquote, append_append]
    refine ⟨rfl, ?_, ⟨name, hplain.body⟩, [], rfl, ?_, hnone, .inl rfl, fun _ => hnone'⟩
    · rw [← append_append]
      exact room_append hquote
    · simp [append, head_text, fated, commas, name_member, Member.text, Value.text]
  · rw [raw_full (s := ({} : Ev).append head_text) rfl hname]
    have hquote : Room ({ ({} : Ev).append head_text with _truncated := true }) 1 := by decide
    have hroom : Room ({ _buf := head_text ++ ['"'], _truncated := true }) 0 := by decide
    have hbuf : head_text ++ ['"'] =
        '\x7b' :: commas ((name_member ⟨[], .nil⟩ :: fated []).map Member.text) := rfl
    rw [raw_room (s := { ({} : Ev).append head_text with _truncated := true }) (p := ['"']) rfl
      hquote]
    exact ⟨rfl, hroom, ⟨[], .nil⟩, [], rfl, hbuf, hnone, .inr ⟨rfl, rfl⟩, fun _ => hnone'⟩

theorem lined_run {name : List Char} {calls : List Call} (hplain : Plain name)
    (hname : ¬name_splits name) (h : Runs.Along call Whole (start true name) calls) :
    Lined name calls (run name calls) := by
  induction calls using List.reverseRecOn with
  | nil => exact lined_start hplain hname
  | append_singleton calls c ih =>
    obtain ⟨hcalls, hc, -⟩ := (Runs.along_append call).mp h
    have hl := ih hcalls
    have hsnoc : run name (calls ++ [c]) = (run name calls).call c := Runs.after_snoc call _ _ _
    rw [hsnoc]
    exact lined_call hl (call_wrote hl.alive hc)

theorem closer_room (h : s._buf.length + p.length ≤ kMaxLine) : s.closer p = s.append p := by
  have hroom : s.ensure p.length 0 = (s, true) := if_neg (by omega)
  unfold closer
  rw [hroom]
  rfl

/-- The closer always fits, and it ends the object. -/
theorem faithful_emit {name : List Char} {calls : List Call} (h : Lined name calls s)
    (hkeys : ∀ c ∈ calls, Plain c.key) :
    ∃ line, s.emit.2 = some line ∧ Faithful name calls line := by
  obtain ⟨hd, hroom, n, fs, hfs, hbuf, hfair, hname, hpresent⟩ := h
  have hmark : marker = ',' :: truncated_member.text := rfl
  have hmarklen : marker.length = 17 := rfl
  have hmax : kMaxLine = 65536 := rfl
  have hslack : kSlack = 32 := rfl
  have hlen : s._buf.length + 32 ≤ 65536 := hroom
  -- the buffer with the marker is that of one more member
  have hbody : (if s._truncated = true then s.closer marker else s)._buf ++ ['\x7d'] =
      object (name_member n :: (fated fs ++
        if s._truncated = true then [truncated_member] else [])) := by
    by_cases ht : s._truncated = true
    · rw [if_pos ht, if_pos ht, closer_room (by omega)]
      simp only [append, hbuf, hmark, object, List.map_cons, List.map_append, List.map_nil,
        ← List.cons_append, commas_snoc (List.cons_ne_nil _ _)]
    · rw [if_neg ht, if_neg ht, hbuf]
      simp [object]
  have hshort : (if s._truncated = true then s.closer marker else s)._buf.length + 2 ≤ 65536 := by
    split
    · rw [closer_room (by omega)]
      simp only [append, List.length_append, hmarklen]
      omega
    · omega
  have hline : s.emit.2 = some ((if s._truncated = true then s.closer marker else s)._buf ++
      ['\x7d', '\n']) := by
    unfold emit
    rw [if_neg (by rw [hd]; decide)]
    dsimp only
    rw [closer_room (s := if s._truncated = true then s.closer marker else s)
      (p := ['\x7d', '\n']) hshort]
    rfl
  have hsplit : (if s._truncated = true then s.closer marker else s)._buf ++ ['\x7d', '\n'] =
      object (name_member n :: (fated fs ++
        if s._truncated = true then [truncated_member] else [])) ++ ['\n'] := by
    rw [← hbody, List.append_assoc]
    rfl
  refine ⟨_, hline, ?_, ⟨_, hsplit, ?_⟩, n, fs, s._truncated, hfs, hsplit, hfair, hname, hpresent⟩
  · rw [List.length_append]
    exact hshort
  · intro hmem
    have hplain : ∀ m ∈ name_member n :: (fated fs ++
        if s._truncated = true then [truncated_member] else []), Plain m.key := by
      intro m hm
      have hev : Plain ['e', 'v'] := by decide
      rcases List.mem_cons.mp hm with rfl | hm
      · exact hev
      rcases List.mem_append.mp hm with hm | hm
      · obtain ⟨f, hf, hfm⟩ := List.mem_filterMap.mp hm
        obtain ⟨v, -, rfl⟩ := Option.map_eq_some_iff.mp hfm
        apply hkeys
        rw [← hfs]
        exact List.mem_map_of_mem hf
      · split at hm
        · rw [List.mem_singleton.mp hm]
          decide
        · cases hm
    exact absurd (object_printable hplain _ hmem) (by decide)

/-- Every event is one well-formed line, as long as no call leaves half of a field and the name
leaves a place for its quote. -/
theorem an_event_is_one_line (name : List Char) (calls : List Call) (hplain : Plain name)
    (hkeys : ∀ c ∈ calls, Plain c.key) (hname : ¬name_splits name)
    (h : Runs.Along call Whole (start true name) calls) :
    ∃ line, Ev.line name calls = some line ∧ Faithful name calls line :=
  faithful_emit (lined_run hplain hname h) hkeys

/-- A number, a string with a newline in it, a null, a blob and a key of this length. -/
def mixed_calls (p : Bytes) (n : ℕ) : List Call :=
  [⟨['k'], .ll 10⟩, ⟨['s'], .str ['x', '\n']⟩, ⟨['n'], .null⟩, ⟨['b'], .hex p⟩,
    ⟨List.replicate n 'k', .ll 10⟩]

/-- The blob becomes a null, and the key behind it is dropped. -/
theorem an_event_of_dropped_fields_is_one_line :
    ∃ line, Ev.line ['a'] (mixed_calls (List.replicate 32768 0) 65504) = some line ∧
      Faithful ['a'] (mixed_calls (List.replicate 32768 0) 65504) line := by
  have hplain : ∀ c ∈ mixed_calls (List.replicate 32768 0) 65504, Plain c.key := by
    have hfew : Plain ['k'] ∧ Plain ['s'] ∧ Plain ['n'] ∧ Plain ['b'] := by decide
    simp only [mixed_calls, List.forall_mem_cons]
    refine ⟨hfew.1, hfew.2.1, hfew.2.2.1, hfew.2.2.2, ?_, by simp⟩
    intro c hc
    rw [List.eq_of_mem_replicate hc]
    decide
  apply an_event_is_one_line ['a'] _ (by decide) hplain (by decide)
  refine ⟨by decide, by decide, by decide, .inr (.inr ⟨rfl, ?_⟩), .inl ?_, trivial⟩
  · -- the key of the blob and a null
    have hroom : Room
        (run ['a'] [⟨['k'], .ll 10⟩, ⟨['s'], .str ['x', '\n']⟩, ⟨['n'], .null⟩]) 9 := by
      decide
    exact hroom
  · have hmax : kMaxLine = 65536 := rfl
    have hslack : kSlack = 32 := rfl
    rw [length_key_text, List.length_replicate, Room, hmax, hslack]
    omega

/-! ## A key with no value -/

/-- A blob that leaves six places, and then a number of two digits. -/
def demoCalls (p : Bytes) : List Call := [⟨['b'], .hex p⟩, ⟨['k'], .ll 10⟩]

/-- The key of the number takes five of the places, and the number does not fit. -/
theorem demo_line {p : Bytes} (hp : p.length = 32741) :
    Ev.line ['a'] (demoCalls p) = some (head_text ++ ['a', '"', ',', '"', 'b', '"', ':', '"'] ++
      (hex_text p ++ (['"', ',', '"', 'k', '"', ':'] ++ (marker ++ ['\x7d', '\n'])))) := by
  have hmax : kMaxLine = 65536 := rfl
  have hslack : kSlack = 32 := rfl
  have hhex := length_hex_text p
  have hstart : start true ['a'] = { _buf := head_text ++ ['a', '"'] } := rfl
  have hkey : (key_text ⟨['b'], .hex p⟩).length = 5 := rfl
  have hkey' : (key_text ⟨['k'], .ll 10⟩).length = 5 := rfl
  -- the blob fits
  have hblob : ({ _buf := head_text ++ ['a', '"'] } : Ev).call ⟨['b'], .hex p⟩ =
      { _buf := head_text ++ ['a', '"'] ++ (key_text ⟨['b'], .hex p⟩ ++
        ('"' :: (hex_text p ++ ['"']))) } := by
    have hroom : Room ({ _buf := head_text ++ ['a', '"'] } : Ev)
        ((key_text ⟨['b'], .hex p⟩).length + (Arg.hex p).need) := by
      have hlen : (head_text ++ ['a', '"']).length = 9 := rfl
      unfold Room
      rw [hkey, hlen, hmax, hslack]
      simp only [Arg.need, hp]
      omega
    rw [call_room rfl (hroom.mono (Nat.le_add_right _ _)),
      value_room (s := Ev.append _ _) rfl (room_append hroom), append_append]
    rfl
  generalize hbuf : head_text ++ ['a', '"'] ++ (key_text ⟨['b'], .hex p⟩ ++
    ('"' :: (hex_text p ++ ['"']))) = buf at hblob
  have hlen : buf.length = 65498 := by
    rw [← hbuf]
    simp only [List.length_append, hkey, List.length_cons, hhex, hp, List.length_nil, head_text]
  -- the key of the number does, the number does not
  have hnumber : ({ _buf := buf } : Ev).call ⟨['k'], .ll 10⟩ =
      { _buf := buf ++ key_text ⟨['k'], .ll 10⟩, _truncated := true } := by
    have hroom : Room ({ _buf := buf } : Ev) (key_text ⟨['k'], .ll 10⟩).length := by
      unfold Room
      rw [hlen, hkey', hmax, hslack]
      omega
    have hfull : ¬Room (({ _buf := buf } : Ev).append (key_text ⟨['k'], .ll 10⟩))
        (decimal (10 : Int64).toInt).length := by
      have hten : (decimal (10 : Int64).toInt).length = 2 := rfl
      unfold Room append
      rw [List.length_append, hlen, hkey', hten, hmax, hslack]
      omega
    rw [call_room rfl hroom]
    exact raw_full (s := Ev.append _ _) rfl hfull
  have hrun : run ['a'] (demoCalls p) =
      { _buf := buf ++ key_text ⟨['k'], .ll 10⟩, _truncated := true } := by
    unfold run demoCalls
    rw [Runs.after_cons, Runs.after_cons, Runs.after_nil, hstart, hblob, hnumber]
  have hroom : (buf ++ key_text ⟨['k'], .ll 10⟩).length + 19 ≤ 65536 := by
    rw [List.length_append, hlen, hkey']
    omega
  unfold Ev.line
  rw [hrun]
  unfold emit
  rw [if_neg Bool.false_ne_true]
  dsimp only
  rw [if_pos rfl, closer_room (p := marker) (by
      have hm : marker.length = 17 := rfl
      rw [hm, hmax]
      dsimp only
      omega),
    closer_room (s := Ev.append _ _) (p := ['\x7d', '\n']) (by
      have hm : marker.length = 17 := rfl
      unfold append
      rw [List.length_append, hm, hmax]
      dsimp only [List.length_cons, List.length_nil]
      omega)]
  rw [← hbuf]
  simp only [append, key_text, List.append_assoc, List.cons_append, List.nil_append]

/-- A number near the cap leaves its key behind with no value: that line is no object. -/
theorem a_key_can_lose_its_value :
    ¬ ∀ name calls, Plain name → (∀ c ∈ calls, Plain c.key) → (calls.map Call.key).Nodup →
      ∃ line, Ev.line name calls = some line ∧ Faithful name calls line := by
  intro h
  obtain ⟨line, hline, hf⟩ := h ['a'] (demoCalls (List.replicate 32741 0)) (by decide)
    (by unfold demoCalls; decide) (by unfold demoCalls; decide)
  have hp : (List.replicate 32741 (0 : UInt8)).length = 32741 := List.length_replicate
  generalize List.replicate 32741 (0 : UInt8) = p at hline hf hp
  rw [demo_line hp, Option.some.injEq] at hline
  obtain ⟨-, -, n, fs, truncated, hfs, hsays, hfair, hname, -⟩ := hf
  rw [← hline] at hsays
  -- the two calls and their fates
  obtain ⟨f, g, rfl⟩ : ∃ f g : Fate, fs = [f, g] := by
    have hlen := congrArg List.length hfs
    rw [List.length_map] at hlen
    exact List.length_eq_two.mp hlen
  simp only [demoCalls, List.map_cons, List.map_nil, List.cons.injEq, and_true] at hfs
  obtain ⟨hf, hg⟩ := hfs
  have hhex : ∀ w, Exact f.1.arg w → w = (Arg.hex p).exact := by
    intro w hw
    rwa [hf] at hw
  have hten : ∀ w, Exact g.1.arg w → w = (Arg.ll 10).exact := by
    intro w hw
    rwa [hg] at hw
  have htext : (Arg.ll 10).exact.text = ['1', '0'] := rfl
  have hblob : (Arg.hex p).exact.text = '"' :: (hex_text p ++ ['"']) := rfl
  rcases hname with hn | ⟨hn, -⟩
  · rcases hfair f (by simp) with ⟨w, hw, hexact⟩ | hw | hw
    · rw [hhex w hexact] at hw
      rcases hfair g (by simp) with ⟨x, hx, hexact'⟩ | hx | hx
      · rw [hten x hexact'] at hx
        simp [object, commas, fated, name_member, Member.text, head_text, marker, hn, hw, hx, hf,
          hg, htext, hblob] at hsays
      · simp [object, commas, fated, name_member, Member.text, head_text, marker, hn, hw, hx, hf,
          hg, hblob] at hsays
      · cases truncated
        · simp [object, commas, fated, name_member, Member.text, head_text, marker, hn, hw, hx,
            hf, hblob] at hsays
        · simp [object, commas, fated, name_member, Member.text, head_text, marker, hn, hw, hx,
            hf, hblob, truncated_member] at hsays
    · simp [object, commas, fated, name_member, Member.text, head_text, marker, hn, hw, hf]
        at hsays
    · rcases hfair g (by simp) with ⟨x, hx, hexact'⟩ | hx | hx
      · simp [object, commas, fated, name_member, Member.text, head_text, marker, hn, hw, hx, hg]
          at hsays
      · simp [object, commas, fated, name_member, Member.text, head_text, marker, hn, hw, hx, hg]
          at hsays
      · cases truncated
        · simp [object, commas, fated, name_member, Member.text, head_text, marker, hn, hw, hx]
            at hsays
        · simp [object, commas, fated, name_member, Member.text, head_text, marker, hn, hw, hx,
            truncated_member] at hsays
  · simp [object, commas, name_member, Member.text, head_text, marker, hn] at hsays

end devourer.Ev
