-- The fixed hop schedule: the keyed hash SipHash-2-4, which also seals the
-- control messages, and the order of the channels that its words shuffle.
import Devourer.Lib.Wire
import Devourer.Lib.Shuffle

namespace devourer

namespace HopSchedule

abbrev Key := Octets 16

def load64 (p : Bytes) : UInt64 := UInt64.ofBitVec (Wire.getLe 64 8 (byteAt p))

def rotl (x b : UInt64) : UInt64 := x <<< b ||| x >>> (64 - b)

/-- The four words of the hash. -/
structure State where
  a : UInt64
  b : UInt64
  c : UInt64
  d : UInt64

def round (s : State) : State :=
  let a := s.a + s.b
  let b := rotl s.b 13 ^^^ a
  let a := rotl a 32
  let c := s.c + s.d
  let d := rotl s.d 16 ^^^ c
  let a := a + d
  let d := rotl d 21 ^^^ a
  let c := c + b
  let b := rotl b 17 ^^^ c
  let c := rotl c 32
  { a, b, c, d }

def rounds : Nat → State → State
  | 0, s => s
  | n + 1, s => rounds n (round s)

/-- One word of the input. -/
def absorb (s : State) (m : UInt64) : State :=
  let s := rounds 2 { s with d := s.d ^^^ m }
  { s with a := s.a ^^^ m }

def siphash24 (key : Key) (input : Bytes) : UInt64 :=
  let k0 := load64 key.val
  let k1 := load64 (key.val.drop 8)
  let s : State :=
    { a := 0x736f6d6570736575 ^^^ k0
      b := 0x646f72616e646f6d ^^^ k1
      c := 0x6c7967656e657261 ^^^ k0
      d := 0x7465646279746573 ^^^ k1 }
  let len := input.length
  let s := (List.range (len / 8)).foldl (fun s i => absorb s (load64 (input.drop (8 * i)))) s
  -- the last word holds the length and the bytes that fill no word
  let tail := Wire.getLe 64 (len % 8) fun i => byteAt input (8 * (len / 8) + i)
  let s := absorb s (UInt64.ofNat len <<< 56 ||| UInt64.ofBitVec tail)
  let s := rounds 4 { s with c := s.c ^^^ 0xff }
  s.a ^^^ s.b ^^^ s.c ^^^ s.d

/-! ## The permutation of a round -/

/-- A word at or above the last multiple of the bound is rejected. -/
def limit (bound : UInt64) : UInt64 := 0xFFFFFFFFFFFFFFFF - 0xFFFFFFFFFFFFFFFF % bound

/-- The words that a counter of 64 bits can name. A rejection loop that takes none of them goes on
for ever. -/
def kWords : ℕ := 18446744073709551616

/-- The draw below the bound, which moves the counter on. -/
def draw (word : UInt64 → UInt64) (bound counter : UInt64) : Option (UInt64 × UInt64) :=
  (Shuffle.draw (fun c => (word c, c + 1)) (· < limit bound) kWords counter).map
    (Prod.map (· % bound) id)

/-- The shuffle of a round, by any words. There is none when a rejection loop does not end. -/
def shuffled (word : UInt64 → UInt64 → UInt64) (round n : UInt64) : Option (Array ℕ) :=
  let pick := fun (i : ℕ) c => (draw (word round) (UInt64.ofNat i) c).map (Prod.map UInt64.toNat id)
  Shuffle.shuffle pick n.toNat (Array.range n.toNat) 0

end HopSchedule

/-- A schedule with a key, or the public one in turn. -/
structure HopSchedule where
  key_ : HopSchedule.Key
  sequential_ : Bool := false

namespace HopSchedule

/-- What a call ends with: nothing when it does not return, and the text of what it throws. -/
abbrev Returns (α : Type) := ExceptT String Option α

def sequential : HopSchedule := { key_ := Octets.zero 16, sequential_ := true }

def word (s : HopSchedule) (round_no counter : UInt64) : UInt64 :=
  siphash24 s.key_
    (0x48 :: (Wire.putLe 8 round_no.toBitVec ++ Wire.putLe 8 counter.toBitVec))

/-- The lookup, by any words; the code asks `s.word`. -/
def channel_index_by (word : UInt64 → UInt64 → UInt64) (s : HopSchedule) (slot n : UInt64) :
    Returns ℕ :=
  if n = 0 then throw "empty hopset"
  else if s.sequential_ then pure (slot % n).toNat
  else do
    let p ← (shuffled word (slot / n) n : Option (Array ℕ))
    return p.getD (slot % n).toNat 0

def permutation (s : HopSchedule) (round n : UInt64) : Option (Array ℕ) := shuffled s.word round n

def channel_index (s : HopSchedule) (slot n : UInt64) : Returns ℕ :=
  channel_index_by s.word s slot n

end HopSchedule

end devourer
