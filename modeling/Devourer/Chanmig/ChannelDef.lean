-- The channel identity that the migration stack agrees on: the tuple that
-- the radio is tuned with, and the legality of a channel on its grid.
import Mathlib.Data.Nat.Notation

namespace devourer

/-- The center frequency of a channel, in MHz. -/
def chan_to_freq (ch : Int) : UInt16 :=
  if ch = 14 then 2484
  else if ch ≤ 14 then UInt16.ofInt (2407 + 5 * ch)
  else UInt16.ofInt (5000 + 5 * ch)

namespace chanmig

/-- `ChannelWidth_t`. A byte off the wire is cast to the enumeration unchecked, so a width that
no enumerator names keeps its number. -/
inductive ChannelWidth_t
  | CHANNEL_WIDTH_20
  | CHANNEL_WIDTH_40
  | CHANNEL_WIDTH_80
  | CHANNEL_WIDTH_160
  | CHANNEL_WIDTH_80_80
  | CHANNEL_WIDTH_5
  | CHANNEL_WIDTH_10
  | CHANNEL_WIDTH_MAX
  | other (v : UInt8) (h : 7 < v)
  deriving DecidableEq

namespace ChannelWidth_t

/-- The number of an enumerator. -/
def toUInt8 : ChannelWidth_t → UInt8
  | CHANNEL_WIDTH_20 => 0
  | CHANNEL_WIDTH_40 => 1
  | CHANNEL_WIDTH_80 => 2
  | CHANNEL_WIDTH_160 => 3
  | CHANNEL_WIDTH_80_80 => 4
  | CHANNEL_WIDTH_5 => 5
  | CHANNEL_WIDTH_10 => 6
  | CHANNEL_WIDTH_MAX => 7
  | other v _ => v

/-- The unchecked cast of a byte. -/
def ofUInt8 (b : UInt8) : ChannelWidth_t :=
  if h : 7 < b then other b h
  else if b = 0 then CHANNEL_WIDTH_20
  else if b = 1 then CHANNEL_WIDTH_40
  else if b = 2 then CHANNEL_WIDTH_80
  else if b = 3 then CHANNEL_WIDTH_160
  else if b = 4 then CHANNEL_WIDTH_80_80
  else if b = 5 then CHANNEL_WIDTH_5
  else if b = 6 then CHANNEL_WIDTH_10
  else CHANNEL_WIDTH_MAX

@[simp] theorem ofUInt8_toUInt8 (w : ChannelWidth_t) : ofUInt8 w.toUInt8 = w := by
  cases w with
  | other v h => exact dif_pos h
  | _ => rfl

end ChannelWidth_t

open ChannelWidth_t

structure ChannelDef where
  /-- 2 is 2.4 GHz and 5 is 5 GHz. -/
  band : UInt8 := 0
  primary : UInt8 := 0
  width : ChannelWidth_t := CHANNEL_WIDTH_20
  offset : UInt8 := 0
  /-- Receive-only, so never a migration target. -/
  no_ir : Bool := false
  dfs : Bool := false
  backup : Bool := false
  deriving DecidableEq

namespace ChannelDef

/-- The identity over the RF tuple. The flags are attributes and stay out of it. -/
def key (d : ChannelDef) : UInt32 :=
  d.band.toUInt32 <<< 24 ||| d.primary.toUInt32 <<< 16 ||| d.width.toUInt8.toUInt32 <<< 8 |||
    d.offset.toUInt32

def same_rf (d o : ChannelDef) : Bool := d.key == o.key

@[simp] theorem same_rf_self (d : ChannelDef) : d.same_rf d = true := beq_self_eq_true d.key

theorem same_rf_iff {d o : ChannelDef} : d.same_rf o = true ↔ d.key = o.key := beq_iff_eq

theorem same_rf_symm {d o : ChannelDef} (h : d.same_rf o = true) : o.same_rf d = true :=
  same_rf_iff.mpr (same_rf_iff.mp h).symm

theorem same_rf_trans {d o p : ChannelDef} (h : d.same_rf o = true) (h' : o.same_rf p = true) :
    d.same_rf p = true :=
  same_rf_iff.mpr ((same_rf_iff.mp h).trans (same_rf_iff.mp h'))

/-- The occupied width, in half MHz. -/
def span_halfmhz (d : ChannelDef) : Int :=
  match d.width with
  | CHANNEL_WIDTH_5 => 10
  | CHANNEL_WIDTH_10 => 20
  | CHANNEL_WIDTH_40 => 80
  | CHANNEL_WIDTH_80 => 160
  | _ => 40

/-- How far the center of an 80 MHz block is from its primary, in channels. -/
def off_ch (offset : UInt8) : Int :=
  if offset = 2 then 2 else if offset = 3 then -2 else if offset = 4 then -6 else 6

/-- The center of the occupied block, in half MHz. -/
def center_halfmhz (d : ChannelDef) : Int :=
  let p : Int := 2 * (chan_to_freq d.primary.toNat).toNat
  match d.width with
  | CHANNEL_WIDTH_40 => p + (if d.offset = 1 then 20 else -20)
  | CHANNEL_WIDTH_80 => p + 2 * 5 * off_ch d.offset
  | _ => p

def center_mhz (d : ChannelDef) : UInt16 := UInt16.ofInt (d.center_halfmhz.tdiv 2)

end ChannelDef

/-- `DefError` without its `Ok`, which the `ok` of `normalize` stands for. -/
inductive DefError
  | BadBand
  | BadPrimary
  | BadWidth
  | BadOffset
  | OffGrid40
  | OffGrid80
  | AmbiguousOffset
  deriving DecidableEq

/-- The anchor of the 5 GHz raster, which restarts at 149. -/
def anchor5 (primary : UInt8) : Int := if primary ≥ 149 then 149 else 36

/-- The offset that the grid fixes, or the one given if it agrees. -/
def fill_offset (d : ChannelDef) (derived : UInt8) : Except DefError ChannelDef :=
  if d.offset = 0 then .ok { d with offset := derived }
  else if d.offset = derived then .ok d
  else .error .BadOffset

/-- A 2.4 GHz pair may go either way, so it may need its offset given. -/
def normalize40_2g (d : ChannelDef) : Except DefError ChannelDef :=
  if d.primary = 14 then .error .OffGrid40
  else
    let up_ok : Bool := d.primary.toNat + 4 ≤ 13
    let dn_ok : Bool := d.primary ≥ 5
    if !up_ok && !dn_ok then .error .OffGrid40
    else if d.offset = 0 then
      if up_ok && dn_ok then .error .AmbiguousOffset
      else .ok { d with offset := if up_ok then 1 else 2 }
    else if d.offset = 1 then if up_ok then .ok d else .error .OffGrid40
    else if d.offset = 2 then if dn_ok then .ok d else .error .OffGrid40
    else .error .BadOffset

/-- Grid legality. The def that comes back differs in nothing but a derived offset. -/
def normalize (d : ChannelDef) : Except DefError ChannelDef :=
  if d.band ≠ 2 ∧ d.band ≠ 5 then .error .BadBand
  else if d.band = 2 ∧ (d.primary < 1 ∨ d.primary > 14) then .error .BadPrimary
  else if d.band = 5 ∧ (d.primary < 16 ∨ d.primary > 253) then .error .BadPrimary
  else
    let rel : Int := d.primary.toNat - anchor5 d.primary
    match d.width with
    | CHANNEL_WIDTH_20 | CHANNEL_WIDTH_5 | CHANNEL_WIDTH_10 =>
      if d.offset ≠ 0 then .error .BadOffset else .ok d
    | CHANNEL_WIDTH_40 =>
      if d.band = 2 then normalize40_2g d
      else if rel < 0 ∨ rel % 4 ≠ 0 then .error .OffGrid40
      else fill_offset d (if rel % 8 = 0 then 1 else 2)
    | CHANNEL_WIDTH_80 =>
      if d.band = 2 then .error .BadWidth
      else if rel < 0 ∨ rel % 4 ≠ 0 then .error .OffGrid80
      else fill_offset d (UInt8.ofInt (rel % 16 / 4 + 1))
    | _ => .error .BadWidth

/-- `validate(d) == DefError::Ok`: a def whose offset can be derived is valid too. -/
def validate (d : ChannelDef) : Bool := (normalize d).isOk

/-- The 20 MHz channels of the occupied block. Their numbers are bytes, which wrap. -/
def constituent_bins (d : ChannelDef) : List UInt8 :=
  match d.width with
  | CHANNEL_WIDTH_40 =>
    let lo := if d.offset = 1 then d.primary else d.primary - 4
    [lo, lo + 4]
  | CHANNEL_WIDTH_80 =>
    let pos := if d.offset ≥ 1 ∧ d.offset ≤ 4 then d.offset else 1
    let base := d.primary - 4 * (pos - 1)
    [base, base + 4, base + 8, base + 12]
  | _ => [d.primary]

end chanmig

end devourer
