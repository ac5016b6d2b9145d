-- Windowed receipts: a receiver mails a bitmap of the frames that it had
-- lately, and the transmitter merges the bitmaps into what was delivered.
import Devourer.Lib.Bitmap
import Devourer.Lib.Wire

namespace devourer.cell

open Wire

def kReceiptHeader : ℕ := 16
def kReceiptVersion : UInt8 := 1

def receipt_tlv_size (nbits : UInt16) : ℕ := kReceiptHeader + (nbits.toNat + 7) / 8

/-! ## The receiver -/

/-- A ring of bits over the last `_w` frame indices. -/
structure ReceiptWindow where
  _w : UInt32
  _bits : List (BitVec 64)
  _any : Bool := false
  _max : UInt32 := 0
  _late : ℕ := 0
  w_pos : 0 < _w.toNat
  w_le : _w.toNat ≤ 65535
  length_bits : _bits.length = (_w.toNat + 63) / 64

namespace ReceiptWindow

def make (window_bits : UInt16) : ReceiptWindow where
  _w := if window_bits ≠ 0 then window_bits.toUInt32 else 8192
  _bits := List.replicate
    (((if window_bits ≠ 0 then window_bits.toUInt32 else 8192).toNat + 63) / 64) 0#64
  w_pos := by
    split
    · rename_i h
      rw [UInt16.toNat_toUInt32, Nat.pos_iff_ne_zero]
      exact fun h0 => h (UInt16.toNat_inj.mp h0)
    · decide
  w_le := by
    split
    · rw [UInt16.toNat_toUInt32]
      have hlt := window_bits.toNat_lt
      omega
    · decide
  length_bits := List.length_replicate

/-- The ring slot of an index. Its word and its bit both come from the slot. -/
def slot (s : ReceiptWindow) (idx : UInt32) : ℕ := (idx % s._w).toNat

def set_bit (s : ReceiptWindow) (idx : UInt32) : ReceiptWindow :=
  { s with
    _bits := Bitmap.set s._bits (s.slot idx)
    length_bits := by rw [Bitmap.length_set]; exact s.length_bits }

def clear_bit (s : ReceiptWindow) (idx : UInt32) : ReceiptWindow :=
  { s with
    _bits := Bitmap.clear s._bits (s.slot idx)
    length_bits := by rw [Bitmap.length_clear]; exact s.length_bits }

def get_bit (s : ReceiptWindow) (idx : UInt32) : Bool := Bitmap.get s._bits (s.slot idx)

/-- The indices whose slots an advance clears. -/
def advanced (s : ReceiptWindow) (idx : UInt32) : List UInt32 :=
  let advance := idx - s._max
  let to_clear := if advance < s._w then advance else s._w
  (List.range to_clear.toNat).map fun k =>
    s._max + 1 + UInt32.ofNat k + (advance - to_clear)

def note (s : ReceiptWindow) (idx : UInt32) : ReceiptWindow :=
  if s._any = false then { s with _any := true, _max := idx }.set_bit idx
  else if idx > s._max then
    { (s.advanced idx).foldl clear_bit s with _max := idx }.set_bit idx
  else if s._max - idx ≥ s._w then { s with _late := s._late + 1 }
  else s.set_bit idx

def base (s : ReceiptWindow) : UInt32 := if s._max ≥ s._w - 1 then s._max - (s._w - 1) else 0

def nbits (s : ReceiptWindow) : UInt16 := (s._max - s.base + 1).toUInt16

/-- The bitmap of a receipt, the lowest bit first. -/
def bitmap (s : ReceiptWindow) : List (BitVec 8) :=
  ((List.range s.nbits.toNat).filter fun i => s.get_bit (s.base + UInt32.ofNat i)).foldl Bitmap.set
    (List.replicate ((s.nbits.toNat + 7) / 8) 0#8)

/-- A receipt as it is mailed. -/
def tlv (ta : Octets 6) (base : UInt32) (nbits : UInt16) (bitmap : List (BitVec 8)) : Bytes :=
  [0x44, 0x52, kReceiptVersion, 0] ++ (ta.val ++ (putLe 4 base.toBitVec ++
    (putLe 2 nbits.toBitVec ++ bitmap.map UInt8.ofBitVec)))

/-- The bytes that `encode` writes, of which there are none when it returns 0. -/
def encode (s : ReceiptWindow) (ta : Octets 6) (out_len : ℕ) : Bytes :=
  if s._any = false then []
  else if out_len < receipt_tlv_size s.nbits then []
  else tlv ta s.base s.nbits s.bitmap

end ReceiptWindow

/-! ## The transmitter -/

structure ReceiptView where
  ta : Octets 6
  base : UInt32
  nbits : UInt16
  /-- The buffer from the bitmap on, trailer included. -/
  bitmap : Bytes

namespace ReceiptView

def bit (v : ReceiptView) (i : ℕ) : Bool := Bitmap.get (v.bitmap.map UInt8.toBitVec) i

/-- The indices that a receipt reports. -/
def named (v : ReceiptView) : List ℕ :=
  ((List.range v.nbits.toNat).filter v.bit).map (v.base.toNat + ·)

end ReceiptView

def receipt_decode (p : Bytes) : Option ReceiptView :=
  if p.length < kReceiptHeader ∨ byteAt p 0 ≠ 0x44 ∨ byteAt p 1 ≠ 0x52 ∨
      byteAt p 2 ≠ kReceiptVersion then none
  else
    let nbits := UInt16.ofBitVec (getLe 16 2 fun i => byteAt p (14 + i))
    if nbits = 0 ∨ p.length < receipt_tlv_size nbits then none
    else some {
      ta := Octets.slice p 4 6
      base := UInt32.ofBitVec (getLe 32 4 fun i => byteAt p (10 + i))
      nbits
      bitmap := p.drop kReceiptHeader }

/-- What the receipts so far report. The indices are below a cap, since a receipt comes off the
air. -/
structure ReceiptLedger where
  _max_index : UInt64 := 67108864
  _bits : List (BitVec 64) := []
  _total : ℕ := 0
  _highest_covered : ℕ := 0
  _receipts : ℕ := 0

namespace ReceiptLedger

/-- The words of the ledger, with room for the indices below `top`. -/
def room (l : ReceiptLedger) (top : ℕ) : List (BitVec 64) :=
  if top > l._bits.length * 64 then
    l._bits ++ List.replicate ((top + 63) / 64 - l._bits.length) 0#64
  else l._bits

/-- The number of indices that are new, or -1 for what is not taken. -/
def absorb (l : ReceiptLedger) (tlv : Bytes) (own_ta : Octets 6) : ReceiptLedger × ℤ :=
  match receipt_decode tlv with
  | none => (l, -1)
  | some v =>
    let top := v.base.toNat + v.nbits.toNat
    if v.ta ≠ own_ta then (l, -1)
    else if top > l._max_index.toNat then (l, -1)
    else
      let (bits, fresh) := Bitmap.learn (l.room top) v.named
      ({ l with
          _bits := bits
          _total := l._total + fresh
          _highest_covered := if top > l._highest_covered then top else l._highest_covered
          _receipts := l._receipts + 1 }, fresh)

def delivered (l : ReceiptLedger) (idx : ℕ) : Bool :=
  idx / 64 < l._bits.length && Bitmap.get l._bits idx

def delivered_total (l : ReceiptLedger) : ℕ := l._total

def highest_covered (l : ReceiptLedger) : ℕ := l._highest_covered

end ReceiptLedger

end devourer.cell
