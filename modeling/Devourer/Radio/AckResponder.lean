-- The station half of port 0: the registers that make the adapter answer for an
-- address, over a bus whose writes may lie about whether they landed, and the
-- calls that arm the port, clear it and bring it up again.
import Devourer.Lib.Octets
import Devourer.Lib.Runs
import Devourer.Lib.Triples

namespace devourer.ack

open Triples

/-! ## The bus -/

/-- The registers of port 0: 0x0102, 0x0610, 0x0614, 0x0618 and 0x061c. -/
structure Port0 where
  msr : UInt8
  macid_lo : UInt32
  macid_hi : UInt16
  bssid_lo : UInt32
  bssid_hi : UInt16
  deriving DecidableEq

inductive Report
  | success
  | failure
  | throws
  deriving DecidableEq

/-- What the bus does with one access. A read only throws or does not. -/
structure Fate where
  lands : Bool
  report : Report

/-- The registers, the number of accesses so far, and the registers as each write left them, the
latest first. -/
structure Bus where
  port : Port0
  accesses : ℕ := 0
  seen : List Port0 := []

abbrev Access (α : Type) := Prog Bus Unit α

structure Reg (α : Type) where
  get : Port0 → α
  set : α → Port0 → Port0

def reg_0102 : Reg UInt8 := ⟨(·.msr), fun v p => { p with msr := v }⟩

def reg_0610 : Reg UInt32 := ⟨(·.macid_lo), fun v p => { p with macid_lo := v }⟩

def reg_0614 : Reg UInt16 := ⟨(·.macid_hi), fun v p => { p with macid_hi := v }⟩

def reg_0618 : Reg UInt32 := ⟨(·.bssid_lo), fun v p => { p with bssid_lo := v }⟩

def reg_061c : Reg UInt16 := ⟨(·.bssid_hi), fun v p => { p with bssid_hi := v }⟩

section

variable (wire : ℕ → Fate) {α : Type}

def rtw_read (r : Reg α) : Access α := fun b =>
  let t := { b with accesses := b.accesses + 1 }
  if (wire b.accesses).report = .throws then (.error (), t) else (.ok (r.get b.port), t)

/-- A write that reports nothing of the sort may have landed, and one that reports success may have
not. -/
def rtw_write (r : Reg α) (v : α) : Access Bool := fun b =>
  let fate := wire b.accesses
  let port := if fate.lands then r.set v b.port else b.port
  let t := { port, accesses := b.accesses + 1, seen := port :: b.seen }
  match fate.report with
  | .success => (.ok true, t)
  | .failure => (.ok false, t)
  | .throws => (.error (), t)

/-! ## Addresses -/

def macid_lo (mac : Octets 6) : UInt32 :=
  (byteAt mac.val 0).toUInt32 ||| (byteAt mac.val 1).toUInt32 <<< 8 |||
    (byteAt mac.val 2).toUInt32 <<< 16 ||| (byteAt mac.val 3).toUInt32 <<< 24

def macid_hi (mac : Octets 6) : UInt16 :=
  (byteAt mac.val 4).toUInt16 ||| (byteAt mac.val 5).toUInt16 <<< 8

def is_unicast (mac : Octets 6) : Bool := byteAt mac.val 0 &&& 0x01 = 0

/-- Both addresses are unicast, neither is zero, and they differ. -/
def station_args_ok (own bssid : Octets 6) : Bool :=
  is_unicast own && is_unicast bssid && own ≠ Octets.zero 6 && bssid ≠ Octets.zero 6 && own ≠ bssid

/-! ## The identity of the port -/

structure PortIdentity where
  macid_lo : UInt32 := 0
  macid_hi : UInt16 := 0
  bssid_lo : UInt32 := 0
  bssid_hi : UInt16 := 0
  deriving DecidableEq

def snapshot_port_identity : Access (Option PortIdentity) :=
  tryCatch (do
      let macid_lo ← rtw_read wire reg_0610
      let macid_hi ← rtw_read wire reg_0614
      let bssid_lo ← rtw_read wire reg_0618
      let bssid_hi ← rtw_read wire reg_061c
      pure (some { macid_lo, macid_hi, bssid_lo, bssid_hi }))
    fun _ => pure none

/-- A write whose throw is a failure like another. -/
def write_contained (r : Reg α) (v : α) : Access Bool :=
  tryCatch (rtw_write wire r v) fun _ => pure false

/-- All four halves are attempted, also when one of them throws. -/
def restore_port_identity (identity : PortIdentity) : Access Bool := do
  let ml ← write_contained wire reg_0610 identity.macid_lo
  let mh ← write_contained wire reg_0614 identity.macid_hi
  let bl ← write_contained wire reg_0618 identity.bssid_lo
  let bh ← write_contained wire reg_061c identity.bssid_hi
  pure (ml && mh && bl && bh)

def reads [DecidableEq α] (r : Reg α) (v : α) : Access Bool :=
  (fun x => decide (x = v)) <$> rtw_read wire r

def port_identity_is (identity : PortIdentity) : Access Bool :=
  tryCatch (reads wire reg_0610 identity.macid_lo <&&> (reads wire reg_0614 identity.macid_hi <&&>
      (reads wire reg_0618 identity.bssid_lo <&&> reads wire reg_061c identity.bssid_hi)))
    fun _ => pure false

/-! ## The station -/

def kNetTypeMask : UInt8 := 0x03

def kNetTypeInfra : UInt8 := 0x02

structure StationRestore where
  identity : PortIdentity := {}
  /-- 0x0102[1:0] before the arm. -/
  net_type : UInt8 := 0
  deriving DecidableEq

def snapshot_station_restore : Access (Option StationRestore) :=
  tryCatch (do
      match ← snapshot_port_identity wire with
      | none => pure none
      | some identity =>
        let msr ← rtw_read wire reg_0102
        pure (some { identity, net_type := msr &&& kNetTypeMask }))
    fun _ => pure none

/-- The identity writes of `arm_station`. Each is attempted. -/
def write_identity (own bssid : Octets 6) : Access Bool := do
  let ml ← rtw_write wire reg_0610 (macid_lo own)
  let mh ← rtw_write wire reg_0614 (macid_hi own)
  let bl ← rtw_write wire reg_0618 (macid_lo bssid)
  let bh ← rtw_write wire reg_061c (macid_hi bssid)
  pure (ml && mh && bl && bh)

/-- The gate is closed first, and it opens only when all four identity writes reported success. -/
def arm_station (own bssid : Octets 6) : Access Bool :=
  tryCatch (do
      let nt ← rtw_read wire reg_0102
      let closed := nt &&& ~~~kNetTypeMask
      if !(← rtw_write wire reg_0102 closed) then pure false
      else if !(← write_identity wire own bssid) then pure false
      else rtw_write wire reg_0102 (closed ||| kNetTypeInfra))
    fun _ => pure false

def net_type_is (nt : UInt8) : Access Bool :=
  (fun x => decide (x &&& kNetTypeMask = nt)) <$> rtw_read wire reg_0102

def station_is (own bssid : Octets 6) : Access Bool :=
  tryCatch (net_type_is wire kNetTypeInfra <&&> (reads wire reg_0610 (macid_lo own) <&&>
      (reads wire reg_0614 (macid_hi own) <&&> (reads wire reg_0618 (macid_lo bssid) <&&>
        reads wire reg_061c (macid_hi bssid)))))
    fun _ => pure false

def station_matches (saved : StationRestore) : Access Bool :=
  tryCatch (port_identity_is wire saved.identity <&&>
      net_type_is wire (saved.net_type &&& kNetTypeMask))
    fun _ => pure false

/-- The net_type bits of the snapshot, over what the register has beside them. -/
def reopen (saved : StationRestore) : Access Unit := do
  let nt ← rtw_read wire reg_0102
  let _ ← rtw_write wire reg_0102 ((nt &&& ~~~kNetTypeMask) ||| (saved.net_type &&& kNetTypeMask))

/-- The identity is not touched under a gate that did not close. -/
def restore_station (saved : StationRestore) : Access Bool := do
  let closed ← tryCatch (do
      let nt ← rtw_read wire reg_0102
      rtw_write wire reg_0102 (nt &&& ~~~kNetTypeMask))
    fun _ => pure false
  if !closed then station_matches wire saved
  else
    let _ ← restore_port_identity wire saved.identity
    tryCatch (reopen wire saved) fun _ => pure ()
    station_matches wire saved

end

end devourer.ack

/-! ## The arm -/

namespace devourer

open devourer.ack Triples

structure StationArm where
  _restore : Option StationRestore := none

namespace StationArm

def armed (s : StationArm) : Bool := s._restore.isSome

section

variable (wire : ℕ → Fate)

/-- True when nothing was armed, or when the pre-arm state was restored and read back. -/
def clear (s : StationArm) : Access (Bool × StationArm) :=
  match s._restore with
  | none => pure (true, s)
  | some saved => do
    if !(← restore_station wire saved) then pure (false, s)
    else pure (true, { s with _restore := none })

/-- A clear that does not verify keeps the record. -/
def retire (s : StationArm) : Access StationArm :=
  if !s.armed then pure s else tryCatch (Prod.snd <$> s.clear wire) fun _ => pure s

/-- The snapshot that a clear goes back to: the one there is, or that of a port without an owner. -/
def rollback_target (s : StationArm) : Access (Option StationRestore) :=
  match s._restore with
  | some saved => pure (some saved)
  | none => do
    match ← snapshot_station_restore wire with
    | none => pure none
    | some snap => pure (if snap.net_type ≠ 0 then none else some snap)

/-- The transfer status is not the verdict: what reads back decides. -/
def arm (s : StationArm) (own bssid : Octets 6) : Access (Bool × StationArm) :=
  if !station_args_ok own bssid then pure (false, s)
  else do
    match ← s.rollback_target wire with
    | none => pure (false, s)
    | some saved =>
      let s := { s with _restore := some saved }
      let _ ← arm_station wire own bssid
      if ← station_is wire own bssid then pure (true, s)
      else if ← restore_station wire saved then pure (false, { s with _restore := none })
      else pure (false, s)

end

/-! ## Histories -/

inductive Call
  | arm (own bssid : Octets 6)
  | clear
  | retire

structure Session where
  station : StationArm := {}
  bus : Bus

/-- A bring-up answers nothing, which counts as true. -/
def program (wire : ℕ → Fate) (s : StationArm) : Call → Access (Bool × StationArm)
  | .arm own bssid => s.arm wire own bssid
  | .clear => s.clear wire
  | .retire => (true, ·) <$> s.retire wire

/-- What a call answers, and what it leaves. -/
def answer (wire : ℕ → Fate) (s : Session) (c : Call) : Except Unit Bool × Session :=
  match (program wire s.station c).run.run s.bus with
  | (.ok (b, station), bus) => (.ok b, { station, bus })
  | (.error e, bus) => (.error e, { s with bus })

def session (wire : ℕ → Fate) (p0 : Port0) (calls : List Call) : Session :=
  Runs.after (fun s c => (answer wire s c).2) { bus := { port := p0 } } calls

end StationArm

end devourer
