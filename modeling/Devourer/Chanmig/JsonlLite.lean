-- The reader of event lines: it finds a key in the text of a flat object and
-- reads the value behind it as a number, a string or an array.
import Devourer.Chanmig.ScanText
import Devourer.Lib.Doubles
import Devourer.Lib.FlatJson

namespace devourer.chanmig

/-! ## The scanner -/

/-- The value behind a colon, up to a comma or a bracket that is not its own. `none` is a string
that does not end. -/
def value_span (in_string : Bool) (depth : ℕ) : List Char → Option (List Char)
  | [] => if in_string then none else some []
  | v :: t =>
    if in_string then
      if v = '"' then (value_span false depth t).map (v :: ·)
      else if v = '\\' then
        match t with
        | [] => none
        | c :: t => (value_span true depth t).map (v :: c :: ·)
      else (value_span true depth t).map (v :: ·)
    else if v = '"' then (value_span true depth t).map (v :: ·)
    else if v = '[' ∨ v = '\x7b' then (value_span false (depth + 1) t).map (v :: ·)
    else if v = ']' ∨ v = '\x7d' then
      if depth = 0 then some [] else (value_span false (depth - 1) t).map (v :: ·)
    else if v = ',' ∧ depth = 0 then some []
    else (value_span false depth t).map (v :: ·)

/-- The text of the value of `key`. `string` is what the scanner has of the string that it is in: a
string before a colon is a key. -/
def find_value (key : List Char) (string : Option (List Char)) : List Char → Option (List Char)
  | [] => none
  | c :: t =>
    match string with
    | none => if c = '"' then find_value key (some []) t else find_value key none t
    | some s =>
      if c = '"' then
        match t with
        | [] => none
        | d :: v =>
          if d = ':' then
            if s = key then (value_span false 0 v).filter (· ≠ []) else find_value key none v
          else find_value key none (d :: v)
      else if c = '\\' then
        match t with
        | [] => none
        | d :: t => find_value key (some (s ++ [c, d])) t
      else find_value key (some (s ++ [c])) t

/-- The line starts with the name of the event. -/
def jsonl_ev_is (line name : List Char) : Bool :=
  let start := '\x7b' :: '"' :: 'e' :: 'v' :: '"' :: ':' :: '"' :: (name ++ ['"'])
  line.take start.length = start

/-! ## Numbers -/

def digits_value (t : List Char) : ℕ := t.foldl (fun n c => 10 * n + (c.toNat - 48)) 0

/-- The exponent behind the digits of a number, or 0. -/
def exponent (t : List Char) : ℤ :=
  match t with
  | e :: t =>
    if e = 'e' ∨ e = 'E' then
      let neg := t.head? = some '-'
      let t := if neg ∨ t.head? = some '+' then t.tail else t
      let n : ℤ := digits_value (t.takeWhile isdigit)
      if neg then -n else n
    else 0
  | [] => 0

/-- The decimal number at the start of a text, as the nearest double, or `none` where there is no
digit. What else `strtod` reads is left out: hexadecimal numbers, infinities and NaNs, and the
overflow to an infinity. -/
def strtod (t : List Char) : Option ℚ :=
  let s := t.dropWhile isspace
  let neg := s.head? = some '-'
  let s := if neg ∨ s.head? = some '+' then s.tail else s
  let int := s.takeWhile isdigit
  let s := s.dropWhile isdigit
  let point := s.head? = some '.'
  let frac := if point then s.tail.takeWhile isdigit else []
  let s := if point then s.tail.dropWhile isdigit else s
  if int = [] ∧ frac = [] then none
  else
    let m : ℚ := digits_value (int ++ frac) * 10 ^ (exponent s - frac.length)
    some (Doubles.round (if neg then -m else m))

/-- `none` is a key that is absent, null or no number. -/
def jsonl_num (line key : List Char) : Option ℚ :=
  match find_value key none line with
  | none => none
  | some v =>
    if v = ['n', 'u', 'l', 'l'] ∨ v.head? = some '"' ∨ v.head? = some '[' then none else strtod v

def jsonl_int (line key : List Char) : Option ℤ := (jsonl_num line key).map Doubles.truncate

/-! ## Strings and arrays -/

/-- The escapes of `Ev`, undone. A `\u` folds to a question mark. -/
def unescape : List Char → List Char
  | '\\' :: 'u' :: _ :: _ :: _ :: _ :: t => '?' :: unescape t
  | '\\' :: 'u' :: _ => ['?']
  | '\\' :: x :: t =>
    (if x = 'n' then '\n' else if x = 't' then '\t' else if x = 'r' then '\r' else x) :: unescape t
  | c :: t => c :: unescape t
  | [] => []

def jsonl_str (line key : List Char) : Option (List Char) :=
  match find_value key none line with
  | none => none
  | some v =>
    if v.length < 2 ∨ v.head? ≠ some '"' ∨ v.getLast? ≠ some '"' then none
    else some (unescape v.tail.dropLast)

/-- At most `n` elements behind the bracket. -/
def elements : ℕ → List Char → List Int32
  | 0, _ => []
  | n + 1, t =>
    let t := t.dropWhile fun c => c = ',' ∨ c = ' '
    if t = [] ∨ t.head? = some ']' then []
    else if (strtol t).2 = t then []
    else Int32.ofInt (strtol t).1 :: elements n (strtol t).2

def jsonl_arr (line key : List Char) (max : ℤ) : Option (List Int32) :=
  match find_value key none line with
  | none => none
  | some v => if v.head? ≠ some '[' then none else some (elements max.toNat v.tail)

end devourer.chanmig
