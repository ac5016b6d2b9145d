-- The identity of a station and the receive filter that comes with it: what
-- `StationIdentity.h` decides, and the calls of `station.cpp` that read and
-- write the chip.
import Devourer.Lib.Runs
import Devourer.Mt7612u.TxBuild

namespace devourer.mt7612u.station

def MT_AUTO_RSP_EN : BitVec 32 := BIT 0

def MT_RX_FILTR_CFG_CRC_ERR : BitVec 32 := BIT 0
def MT_RX_FILTR_CFG_PHY_ERR : BitVec 32 := BIT 1
def MT_RX_FILTR_CFG_PROMISC : BitVec 32 := BIT 2
def MT_RX_FILTR_CFG_VER_ERR : BitVec 32 := BIT 4
def MT_RX_FILTR_CFG_DUP : BitVec 32 := BIT 7
def MT_RX_FILTR_CFG_CFACK : BitVec 32 := BIT 8
def MT_RX_FILTR_CFG_CFEND : BitVec 32 := BIT 9
def MT_RX_FILTR_CFG_ACK : BitVec 32 := BIT 10
def MT_RX_FILTR_CFG_CTS : BitVec 32 := BIT 11
def MT_RX_FILTR_CFG_RTS : BitVec 32 := BIT 12
def MT_RX_FILTR_CFG_BA : BitVec 32 := BIT 14
def MT_RX_FILTR_CFG_CTRL_RSV : BitVec 32 := BIT 16

/-- The filter of a managed station. Every bit drops a kind of frame. -/
def MT_RX_FILTR_CFG_MANAGED : BitVec 32 :=
  MT_RX_FILTR_CFG_CRC_ERR ||| MT_RX_FILTR_CFG_PHY_ERR ||| MT_RX_FILTR_CFG_PROMISC |||
    MT_RX_FILTR_CFG_VER_ERR ||| MT_RX_FILTR_CFG_DUP ||| MT_RX_FILTR_CFG_CFACK |||
    MT_RX_FILTR_CFG_CFEND ||| MT_RX_FILTR_CFG_ACK ||| MT_RX_FILTR_CFG_CTS |||
    MT_RX_FILTR_CFG_RTS ||| MT_RX_FILTR_CFG_BA ||| MT_RX_FILTR_CFG_CTRL_RSV

inductive Verdict
  | OK
  | BAD_ARGS
  | MULTICAST
  | SAME_ADDR
  | READ_FAILED
  | PORT_MISMATCH
  | AUTO_RSP_OFF
  deriving DecidableEq

inductive PortCmp
  | SAME
  | DIFFERENT
  | UNKNOWN
  deriving DecidableEq

inductive Event
  | NONE
  | DROPPED
  | RESTORED
  | UNVERIFIED
  deriving DecidableEq

/-- The record of a station. `rx_filtr_restore` has a meaning while one of the flags is set. -/
structure State where
  own : Octets 6 := Octets.zero 6
  bssid : Octets 6 := Octets.zero 6
  armed : Bool := false
  lost : Bool := false
  rx_filtr_restore : BitVec 32 := 0
  stranded : Bool := false

/-! ## What is decided -/

def check_args (own bssid : Option (Octets 6)) : Verdict :=
  match own, bssid with
  | some own, some bssid =>
    if byteAt own.val 0 &&& 0x01 ≠ 0 ∨ byteAt bssid.val 0 &&& 0x01 ≠ 0 then .MULTICAST
    else if own = bssid then .SAME_ADDR
    else .OK
  | _, _ => .BAD_ARGS

/-- `port` and `auto_rsp_cfg` are what a read gave, where it succeeded. -/
def sta_decide (own bssid port : Option (Octets 6)) (auto_rsp_cfg : Option (BitVec 32)) : Verdict :=
  let a := check_args own bssid
  if a ≠ .OK then a
  else if port = none then .READ_FAILED
  else if port ≠ own then .PORT_MISMATCH
  else
    match auto_rsp_cfg with
    | none => .READ_FAILED
    | some cfg => if cfg &&& MT_AUTO_RSP_EN = 0 then .AUTO_RSP_OFF else .OK

def port_compare (port : Option (Octets 6)) (own : Octets 6) : PortCmp :=
  match port with
  | none => .UNKNOWN
  | some port => if port = own then .SAME else .DIFFERENT

namespace State

/-- No arm, no drop and no stranded filter. -/
def idle (s : State) : Bool := !s.armed && !s.lost && !s.stranded

/-- An arm that another one, a drop or a strand came before keeps the value recorded by it. -/
def arm (s : State) (own bssid : Octets 6) (cur_filtr : BitVec 32) : State :=
  { own, bssid
    armed := true
    lost := false
    stranded := false
    rx_filtr_restore := if s.idle then cur_filtr else s.rx_filtr_restore }

/-- The undo of a refused arm did not read back. -/
def strand (s : State) (pre_arm : BitVec 32) : State :=
  { s with
    rx_filtr_restore := if s.idle then pre_arm else s.rx_filtr_restore
    stranded := if s.armed then s.stranded else true }

def clear (_ : State) : State := {}

def port_observed (s : State) (c : PortCmp) (allow_restore : Bool) : Event × State :=
  if s.armed then
    if c = .DIFFERENT then (.DROPPED, { s with armed := false, lost := true })
    else (if c = .UNKNOWN then .UNVERIFIED else .NONE, s)
  else if s.lost ∧ allow_restore ∧ c = .SAME then
    (.RESTORED, { s with armed := true, lost := false })
  else (.NONE, s)

/-- The value to write for a request of the consumer. -/
def rx_filter_request (s : State) (want managed : BitVec 32) : BitVec 32 × State :=
  let kept := if s.armed ∨ s.lost ∨ s.stranded then { s with rx_filtr_restore := want } else s
  (if s.armed then managed else want, kept)

end State

/-! ## The calls -/

/-- The device: the record, and what `MT_RX_FILTR_CFG` holds. -/
structure Chip where
  sta : State := {}
  rx_filtr_cfg : BitVec 32

/-- How the accesses of one `sta_write_filter` go: whether the write reports success, whether it
lands, and whether the read succeeds. -/
structure Fate where
  wr_ok : Bool
  lands : Bool
  rr_ok : Bool

namespace Chip

def write (d : Chip) (v : BitVec 32) (lands : Bool) : Chip :=
  if lands then { d with rx_filtr_cfg := v } else d

/-- Write the filter and read it back. A read that succeeds gives what the register holds. -/
def sta_write_filter (d : Chip) (v : BitVec 32) (f : Fate) : ℤ × Chip :=
  let d := d.write v f.lands
  (if f.wr_ok ∧ f.rr_ok ∧ d.rx_filtr_cfg = v then 0 else -1, d)

/-- The port identity, from the two words of `MT_MAC_ADDR`. -/
def sta_read_port_identity (dw0 dw1 : Option (BitVec 32)) : Option (Octets 6) :=
  match dw0, dw1 with
  | some dw0, some dw1 => some ⟨put_le32 dw0 ++ put_le16 (dw1.setWidth 16), rfl⟩
  | _, _ => none

/-- What the chip answers to one call that arms the station: the two words of the port, the
auto-response word, whether the filter can be read, and how the two writes go. -/
structure Answers where
  dw0 : Option (BitVec 32)
  dw1 : Option (BitVec 32)
  auto_rsp_cfg : Option (BitVec 32)
  filtr_ok : Bool
  managed : Fate
  undo : Fate

def set_station_identity (d : Chip) (own bssid : Option (Octets 6)) (a : Answers) : ℤ × Chip :=
  match own, bssid, sta_decide own bssid (sta_read_port_identity a.dw0 a.dw1) a.auto_rsp_cfg with
  | some own, some bssid, .OK =>
    if !a.filtr_ok then (-1, d)
    else
      let filtr := d.rx_filtr_cfg
      let (rc, d) := d.sta_write_filter MT_RX_FILTR_CFG_MANAGED a.managed
      if rc ≠ 0 then
        let (rc, d) := d.sta_write_filter filtr a.undo
        (-1, if rc ≠ 0 then { d with sta := d.sta.strand filtr } else d)
      else (0, { d with sta := d.sta.arm own bssid filtr })
  | _, _, _ => (-1, d)

def clear_station_identity (d : Chip) (f : Fate) : ℤ × Chip :=
  if d.sta.armed ∨ d.sta.lost ∨ d.sta.stranded then
    let (rc, d) := d.sta_write_filter d.sta.rx_filtr_restore f
    if rc ≠ 0 then (-1, d) else (0, { d with sta := d.sta.clear })
  else (0, { d with sta := d.sta.clear })

def station_identity_check (d : Chip) (dw0 dw1 : Option (BitVec 32)) (allow_restore : Bool)
    (f : Fate) : Chip :=
  if !d.sta.armed && !d.sta.lost then d
  else
    let port := sta_read_port_identity dw0 dw1
    let (ev, sta) := d.sta.port_observed (port_compare port d.sta.own) allow_restore
    let d := { d with sta }
    match ev with
    | .DROPPED => (d.sta_write_filter d.sta.rx_filtr_restore f).2
    | .RESTORED => (d.sta_write_filter MT_RX_FILTR_CFG_MANAGED f).2
    | _ => d

/-- `mt7612u_set_monitor_rx` with the filter that it asks for. -/
def set_monitor_rx (d : Chip) (want : BitVec 32) (lands : Bool) : Chip :=
  let (v, sta) := d.sta.rx_filter_request want MT_RX_FILTR_CFG_MANAGED
  { d with sta }.write v lands

end Chip

/-- One call, with what the chip does in it. -/
inductive Call
  | set (own bssid : Option (Octets 6)) (a : Chip.Answers)
  | clear (f : Fate)
  | check (dw0 dw1 : Option (BitVec 32)) (allow_restore : Bool) (f : Fate)
  | request (want : BitVec 32) (lands : Bool)

/-- What a call answers and leaves. A call without an answer counts as 0. -/
def call (d : Chip) : Call → ℤ × Chip
  | .set own bssid a => d.set_station_identity own bssid a
  | .clear f => d.clear_station_identity f
  | .check dw0 dw1 allow_restore f => (0, d.station_identity_check dw0 dw1 allow_restore f)
  | .request want lands => (0, d.set_monitor_rx want lands)

/-- The device after these calls, from one where nothing is armed. -/
def session (reg : BitVec 32) (calls : List Call) : Chip :=
  Runs.after (fun d c => (call d c).2) { rx_filtr_cfg := reg } calls

end devourer.mt7612u.station
