-- The machine event stream: one event is one line of JSON, written field by
-- field into a buffer with a cap.
import Devourer.Lib.FlatJson
import Devourer.Lib.Octets
import Devourer.Lib.Runs

namespace devourer

open FlatJson

/-! ## The buffer -/

/-- The characters of `_buf` up to `_len`. Where they stand, inline, in the scratch of the thread
or on the heap, tells nothing of them. -/
structure Ev where
  _buf : List Char := []
  _dead : Bool := false
  _truncated : Bool := false
  deriving DecidableEq

namespace Ev

def kMaxLine : ℕ := 64 * 1024

/-- Reserved for the closer of `emit`. -/
def kSlack : ℕ := 32

def append (s : Ev) (p : List Char) : Ev := { s with _buf := s._buf ++ p }

/-- Room for `n` more characters before the slack, or the line is flagged. -/
def ensure (s : Ev) (n slack : ℕ) : Ev × Bool :=
  if s._buf.length + n + slack > kMaxLine then ({ s with _truncated := true }, false) else (s, true)

def raw (s : Ev) (p : List Char) : Ev :=
  if s._dead then s
  else
    let r := s.ensure p.length kSlack
    if r.2 then r.1.append p else r.1

/-- The append of `emit`, which spends the slack. -/
def closer (s : Ev) (p : List Char) : Ev :=
  let r := s.ensure p.length 0
  if r.2 then r.1.append p else r.1

/-- The key of a field. -/
def begin_field (s : Ev) (k : List Char) : Ev × Bool :=
  if s._dead then (s, false)
  else
    let r := s.ensure (k.length + 4) kSlack
    if r.2 then (r.1.append (',' :: '"' :: (k ++ ['"', ':'])), true) else (r.1, false)

/-! ## Strings and blobs -/

/-- `%0*llx`: the hexadecimal text, with zeros up to a width. -/
def hex_padded (v width : ℕ) : List Char :=
  List.replicate (width - (Nat.toDigits 16 v).length) '0' ++ Nat.toDigits 16 v

def escape_char (c : Char) : List Char :=
  if c = '"' then ['\\', '"']
  else if c = '\\' then ['\\', '\\']
  else if c = '\n' then ['\\', 'n']
  else if c = '\t' then ['\\', 't']
  else if c = '\r' then ['\\', 'r']
  else if c.toNat < 0x20 then '\\' :: 'u' :: hex_padded c.toNat 4
  else [c]

def escape (v : List Char) : List Char := v.flatMap escape_char

def null_text : List Char := ['n', 'u', 'l', 'l']

def str (s : Ev) (v : List Char) : Ev :=
  let r := s.ensure (v.length * 6 + 2) kSlack
  if r.2 then r.1.append ('"' :: (escape v ++ ['"'])) else r.1.raw null_text

/-- The two digits of each byte. -/
def hex_text (p : Bytes) : List Char :=
  p.flatMap fun (b : UInt8) => [hexDigit (b >>> 4).toNat, hexDigit (b &&& 0xf).toNat]

def blob (s : Ev) (p : Bytes) : Ev :=
  let r := s.ensure (p.length * 2 + 2) kSlack
  if r.2 then r.1.append ('"' :: (hex_text p ++ ['"'])) else r.1.raw null_text

/-- One piece for each element, with a comma before all but the first. -/
def items (s : Ev) : List (List Char) → Ev
  | [] => s
  | t :: ts => ts.foldl (fun s t => (s.raw [',']).raw t) (s.raw t)

def array (s : Ev) (ts : List (List Char)) : Ev := ((s.raw ['[']).items ts).raw [']']

/-! ## Fields -/

/-- A double: the text that `%.10g` prints of it, or nothing where it is not finite. -/
abbrev Double := Option Number

/-- What is handed to `f`, `hexf`, `hex` or `arr` with a key. -/
inductive Arg
  | ll (v : Int64)
  | ull (v : UInt64)
  | double (v : Double)
  | bool (v : Bool)
  | str (v : List Char)
  | null
  | hexf (v : UInt64) (digits : Fin 17)
  | hex (p : Bytes)
  | arr (v : List Int32)
  | arr_double (v : List Double)
  deriving DecidableEq

structure Call where
  key : List Char
  arg : Arg
  deriving DecidableEq

/-- `f` of an `int`, a `long` and an `unsigned` is `f` of the wide type. -/
def f_int (k : List Char) (v : Int32) : Call := ⟨k, .ll v.toInt64⟩
def f_unsigned (k : List Char) (v : UInt32) : Call := ⟨k, .ull v.toUInt64⟩

/-- What is shorter than an `int` is promoted to one. -/
def f_short (k : List Char) (v : UInt16) : Call := f_int k (Int32.ofNat v.toNat)
def f_byte (k : List Char) (v : UInt8) : Call := f_int k (Int32.ofNat v.toNat)

/-- The value, behind its key. -/
def value (s : Ev) : Arg → Ev
  | .ll v => s.raw (decimal v.toInt)
  | .ull v => s.raw (decimal v.toNat)
  | .double (some v) => s.raw v.val
  | .double none => s.raw null_text
  | .bool true => s.raw ['t', 'r', 'u', 'e']
  | .bool false => s.raw ['f', 'a', 'l', 's', 'e']
  | .str v => s.str v
  | .null => s.raw null_text
  | .hexf v digits => s.raw ('"' :: '0' :: 'x' :: (hex_padded v.toNat digits ++ ['"']))
  | .hex p => s.blob p
  | .arr v => s.array (v.map fun x => decimal x.toInt)
  | .arr_double v => s.array (v.map element)

def call (s : Ev) (c : Call) : Ev :=
  let r := s.begin_field c.key
  if r.2 then r.1.value c.arg else r.1

/-! ## The life of an event -/

/-- The constructor. An event of a disabled sink is dead from the start. -/
def start (enabled : Bool) (name : List Char) : Ev :=
  if !enabled then { _dead := true }
  else ((({} : Ev).raw ['\x7b', '"', 'e', 'v', '"', ':', '"']).raw name).raw ['"']

/-- The marker of a truncated line. -/
def marker : List Char :=
  [',', '"', 't', 'r', 'u', 'n', 'c', 'a', 't', 'e', 'd', '"', ':', 't', 'r', 'u', 'e']

/-- The event after `emit`, and the line passed to `write_line`. -/
def emit (s : Ev) : Ev × Option (List Char) :=
  if s._dead then (s, none)
  else
    let s := if s._truncated then s.closer marker else s
    let s := s.closer ['\x7d', '\n']
    ({ s with _dead := true }, some s._buf)

/-- An event of an enabled sink, after its field calls. -/
def run (name : List Char) (calls : List Call) : Ev := Runs.after call (start true name) calls

/-- Its line. -/
def line (name : List Char) (calls : List Call) : Option (List Char) := (run name calls).emit.2

end Ev

end devourer
