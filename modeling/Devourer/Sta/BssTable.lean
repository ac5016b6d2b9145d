-- What a scan found, and which of it is worth joining: one entry for each
-- BSSID in a table of sixteen slots, filled straight off the air.
import Mathlib.Algebra.Order.Ring.Nat
import Mathlib.Data.Fintype.Card
import Mathlib.Data.List.FinRange
import Devourer.Lib.Pick
import Devourer.Lib.Runs
import Devourer.Sta.Dot11

namespace devourer.sta

abbrev kMaxBss : Nat := 16

local instance : NeZero kMaxBss := ⟨Nat.succ_ne_zero 15⟩

structure BssTable where
  slots_ : Fin kMaxBss → BssEntry := fun _ => {}
  used_ : Fin kMaxBss → Bool := fun _ => false
  count_ : Int := 0
  wanted_ : Bytes := []

namespace BssTable

def set_wanted (t : BssTable) (ssid : Bytes) : BssTable := { t with wanted_ := ssid }

def clear (t : BssTable) : BssTable := { t with used_ := fun _ => false, count_ := 0 }

def index_of (t : BssTable) (bssid : Mac) : Option (Fin kMaxBss) :=
  (List.finRange kMaxBss).find? fun i => t.used_ i && (t.slots_ i).info.bssid == bssid

def find (t : BssTable) (bssid : Mac) : Option BssEntry := (t.index_of bssid).map t.slots_

/-! ## Slots -/

def protected_slot (t : BssTable) (i : Fin kMaxBss) : Bool :=
  t.wanted_ != [] && (t.slots_ i).info.ssid == t.wanted_

/-- Is slot `i` a better victim than the one so far? Ages are unsigned differences. -/
def staler (t : BssTable) (now_ms : UInt32) (i victim : Fin kMaxBss) : Bool :=
  let age_v := now_ms - (t.slots_ victim).last_seen_ms
  let age_i := now_ms - (t.slots_ i).last_seen_ms
  decide (age_i > age_v) ||
    (age_i == age_v && decide ((t.slots_ i).rssi < (t.slots_ victim).rssi))

/-- The victim of a full table: unprotected if there is one, else any slot. -/
def victim (t : BssTable) (now_ms : UInt32) : Fin kMaxBss :=
  match Pick.best (fun i => !t.protected_slot i) (t.staler now_ms) (List.finRange kMaxBss) with
  | some i => i
  | none =>
    -- every slot is protected
    match Pick.best (fun _ => true) (t.staler now_ms) (List.finRange kMaxBss) with
    | some i => i
    | none => 0

/-- Slot `i` is given up. -/
def drop_slot (t : BssTable) (i : Fin kMaxBss) : BssTable :=
  { t with used_ := Function.update t.used_ i false, count_ := t.count_ - 1 }

/-- A free slot, or the one worth losing. -/
def allocate (t : BssTable) (now_ms : UInt32) : BssTable × Fin kMaxBss :=
  match (List.finRange kMaxBss).find? fun i => !t.used_ i with
  | some i => (t, i)
  | none => (t.drop_slot (t.victim now_ms), t.victim now_ms)

/-! ## Observe and expire -/

/-- Is the SSID empty or all zeros? -/
def hidden (ssid : Bytes) : Bool := ssid.all (· == 0)

/-- The end of `observe`: the entry of slot `i` takes the frame in. -/
def refresh (t : BssTable) (i : Fin kMaxBss) (info : BssInfo) (rssi : Int8) (now_ms : UInt32) :
    BssTable :=
  let fresh := !t.used_ i
  let seen := if t.used_ i then (t.slots_ i).frames else 0
  let info :=
    if !fresh && (t.slots_ i).info.ssid != [] && hidden info.ssid then
      { info with ssid := (t.slots_ i).info.ssid }
    else info
  { t with
    used_ := Function.update t.used_ i true
    count_ := if fresh then t.count_ + 1 else t.count_
    slots_ := Function.update t.slots_ i
      { info := info, rssi := rssi, last_seen_ms := now_ms, frames := seen + 1 } }

/-- The frame as the table takes it in: a beacon or a probe response that parses, with the
receive channel where it names none. -/
def heard (frame : Bytes) (rx_channel : UInt8) : Option BssInfo :=
  if frame.length < 24 then none
  else if byteAt frame 0 ≠ kFcBeacon ∧ byteAt frame 0 ≠ kFcProbeResp then none
  else
    match parse_beacon frame with
    | none => none
    | some info =>
      if info.channel = 0 ∧ channel_valid rx_channel then
        some { info with channel := rx_channel }
      else some info

/-- The slot of the entry is what `observe` returns; nothing for a frame it does not take. -/
def observe (t : BssTable) (frame : Bytes) (rssi : Int8) (rx_channel : UInt8) (now_ms : UInt32) :
    BssTable × Option (Fin kMaxBss) :=
  match heard frame rx_channel with
  | none => (t, none)
  | some info =>
    match t.index_of info.bssid with
    | some i => (t.refresh i info rssi now_ms, some i)
    | none =>
      let a := t.allocate now_ms
      (a.1.refresh a.2 info rssi now_ms, some a.2)

/-- One turn of the loop of `expire`, with the number dropped so far. -/
def expire_slot (now_ms max_age_ms : UInt32) (r : BssTable × Nat) (i : Fin kMaxBss) :
    BssTable × Nat :=
  if !r.1.used_ i then r
  else if now_ms - (r.1.slots_ i).last_seen_ms ≥ max_age_ms then (r.1.drop_slot i, r.2 + 1)
  else r

def expire (t : BssTable) (now_ms max_age_ms : UInt32) : BssTable × Nat :=
  (List.finRange kMaxBss).foldl (expire_slot now_ms max_age_ms) (t, 0)

/-! ## Selection -/

/-- The slots that the loop of `best_matching` does not skip. -/
def considers (t : BssTable) (ssid : Bytes) (want_rsn : Bool) (i : Fin kMaxBss) : Bool :=
  t.used_ i && (t.slots_ i).info.ssid == ssid &&
    !(if want_rsn then !bss_is_wpa2_psk (t.slots_ i).info else (t.slots_ i).info.privacy) &&
    channel_valid (t.slots_ i).info.channel && bss_is_infrastructure (t.slots_ i).info

/-- Stronger, or as strong and heard later: a signed difference, as the clock wraps. -/
def prefers (t : BssTable) (i best : Fin kMaxBss) : Bool :=
  decide ((t.slots_ i).rssi > (t.slots_ best).rssi) ||
    ((t.slots_ i).rssi == (t.slots_ best).rssi &&
      decide (((t.slots_ i).last_seen_ms - (t.slots_ best).last_seen_ms).toInt32 > 0))

def best_matching (t : BssTable) (ssid : Bytes) (want_rsn : Bool) : Option (Fin kMaxBss) :=
  Pick.best (t.considers ssid want_rsn) t.prefers (List.finRange kMaxBss)

def select (t : BssTable) (ssid : Bytes) : Option (Fin kMaxBss) := t.best_matching ssid true

def select_open (t : BssTable) (ssid : Bytes) : Option (Fin kMaxBss) := t.best_matching ssid false

/-! ## Runs -/

/-- What changes a table. -/
inductive Call
  | observe (frame : Bytes) (rssi : Int8) (rx_channel : UInt8) (now_ms : UInt32)
  | expire (now_ms max_age_ms : UInt32)
  | clear
  | set_wanted (ssid : Bytes)

def step (t : BssTable) : Call → BssTable
  | .observe frame rssi rx_channel now_ms => (t.observe frame rssi rx_channel now_ms).1
  | .expire now_ms max_age_ms => (t.expire now_ms max_age_ms).1
  | .clear => t.clear
  | .set_wanted ssid => t.set_wanted ssid

end BssTable

end devourer.sta
