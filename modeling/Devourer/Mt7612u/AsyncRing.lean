-- The asynchronous rings of the mt7612u: callers of `mt_async_tx_submit`, the
-- completion callbacks, and one `mt_async_stop`. A step is one section under
-- the lock of the ring, one call of libusb, or one copy into a slot.
import Devourer.Mt7612u.RxParse
import Devourer.Lib.Runs
import Devourer.Lib.Tally
import Devourer.Usb.Libusb
import Mathlib.Data.Fin.Basic
import Mathlib.Data.Int.Notation
import Mathlib.Logic.Function.Basic

namespace devourer.mt7612u

open usb (Status)

def MT_TX_RING : ℕ := 16
def MT_RX_RING : ℕ := 16
def MT_USB_AGG_BUF : ℕ := 16384
def MT_TX_BUFSZ : ℕ := MT_USB_AGG_BUF

abbrev TxIdx := Fin MT_TX_RING
abbrev RxIdx := Fin MT_RX_RING

/-- One slot of the send ring, with its transfer. `d` says that the slot still has its device,
`owned` that libusb has the transfer, and `cancelled` that it was asked to cancel it since. -/
structure TxSlot where
  busy : Bool := false
  submitted : Bool := false
  d : Bool := true
  nframes : ℕ := 0
  buf : Bytes := []
  owned : Bool := false
  cancelled : Bool := false
  /-- The number of the submission that libusb has. -/
  send : ℕ := 0
  deriving DecidableEq

/-- Where a transfer of the receive ring is. -/
inductive RxStage
  | idle
  | owned
  /-- In its callback, which is about to resubmit. -/
  | decide (status : Status)
  deriving DecidableEq

structure RxSlot where
  d : Bool := true
  stage : RxStage := .idle
  cancelled : Bool := false
  deriving DecidableEq

/-- A submit that returned 0: the frames of its caller, what became of its transfer, and whether
the stop left it behind. -/
structure Send where
  frames : ℕ
  result : Option Bool := none
  stranded : Bool := false
  deriving DecidableEq

/-- What a call of `mt_async_tx_submit` does next. -/
inductive Call
  /-- The search for a slot, and the wait for one. -/
  | scan (buf : Bytes) (nframes : ℕ)
  | copy (idx : TxIdx) (buf : Bytes) (nframes : ℕ)
  | submit (idx : TxIdx) (nframes : ℕ)
  | returned (rc : ℤ)
  deriving DecidableEq

/-- What `mt_async_stop` does next. -/
inductive Stop
  | idle
  | cancel_rx (i : ℕ)
  | cancel_tx (i : ℕ)
  | drain
  | join (stuck : Bool)
  | finished
  deriving DecidableEq

/-- The device and its ring. -/
structure Ring where
  tx : TxIdx → TxSlot := fun _ => {}
  rx : RxIdx → RxSlot := fun _ => {}
  running : Bool := true
  stopping : Bool := false
  rx_active : Bool := false
  tx_inflight : ℤ := 0
  rx_inflight : ℤ := 0
  tx_submitted : ℕ := 0
  tx_done_n : ℕ := 0
  tx_err : ℕ := 0
  rx_frames : ℕ := 0
  rx_err : ℕ := 0
  rx_invalid : ℕ := 0
  rx_dropped : ℕ := 0
  /-- `d->a` is set. -/
  a : Bool := true
  tx_wire_failed : ℕ := 0
  transfers_stranded : Bool := false
  freed : Bool := false
  calls : List Call := []
  stop : Stop := .idle
  /-- Completions that are not whole. -/
  tx_failed : ℕ := 0
  sends : ℕ → Send := fun _ => ⟨0, none, false⟩

/-- The rings as `mt_async_start` leaves them, on a device that has lost frames before. -/
def start (receives : RxIdx → Bool) (tx_wire_failed : ℕ) : Ring where
  rx i := { stage := if receives i then .owned else .idle }
  rx_active := true
  rx_inflight := ∑ i, if receives i then 1 else 0
  tx_wire_failed

namespace Ring

def set_tx (s : Ring) (i : TxIdx) (x : TxSlot) : Ring := { s with tx := Function.update s.tx i x }

def set_rx (s : Ring) (i : RxIdx) (x : RxSlot) : Ring := { s with rx := Function.update s.rx i x }

def set_call (s : Ring) (k : ℕ) (c : Call) : Ring := { s with calls := s.calls.set k c }

/-! ### `mt_async_tx_submit` -/

def mt_async_tx_submit (s : Ring) (buf : Bytes) (nframes : ℕ) : Ring :=
  if !s.a || MT_TX_BUFSZ < buf.length then { s with calls := s.calls ++ [.returned (-1)] }
  else { s with calls := s.calls ++ [.scan buf nframes] }

/-- The first slot that is not busy. -/
def free_slot (s : Ring) : Option TxIdx := (List.finRange MT_TX_RING).find? fun i => !(s.tx i).busy

/-- `late` says that the wait for a slot has run out. -/
def scan (s : Ring) (k : ℕ) (buf : Bytes) (nframes : ℕ) (late : Bool) : Ring :=
  if !s.running || s.stopping then s.set_call k (.returned (-1))
  else
    match s.free_slot with
    | some idx =>
      let s := s.set_tx idx { s.tx idx with busy := true, nframes, submitted := false }
      { s with tx_inflight := s.tx_inflight + 1 }.set_call k (.copy idx buf nframes)
    | none => if late then s.set_call k (.returned (-1)) else s

def copy (s : Ring) (k : ℕ) (idx : TxIdx) (buf : Bytes) (nframes : ℕ) : Ring :=
  (s.set_tx idx { s.tx idx with buf }).set_call k (.submit idx nframes)

/-- `ok` says that libusb takes the transfer. -/
def submit (s : Ring) (k : ℕ) (idx : TxIdx) (nframes : ℕ) (ok : Bool) : Ring :=
  let stop_refused := s.stopping
  if stop_refused || !ok then
    let s := s.set_tx idx { s.tx idx with busy := false }
    { s with
      tx_inflight := s.tx_inflight - 1
      tx_err := if stop_refused then s.tx_err else s.tx_err + 1 }.set_call k (.returned (-1))
  else
    let sends := Function.update s.sends s.tx_submitted { frames := nframes }
    let s := s.set_tx idx { s.tx idx with
      submitted := true, owned := true, cancelled := false, send := s.tx_submitted }
    { s with tx_submitted := s.tx_submitted + 1, sends }.set_call k (.returned 0)

def call_step (s : Ring) (k : ℕ) (late ok : Bool) : Ring :=
  -- a caller that is still in the search when the ring is freed is outside the contract
  if s.freed then s
  else
    match s.calls[k]? with
    | some (.scan buf nframes) => s.scan k buf nframes late
    | some (.copy idx buf nframes) => s.copy k idx buf nframes
    | some (.submit idx nframes) => s.submit k idx nframes ok
    | some (.returned _) | none => s

/-! ### The callbacks -/

def tx_done (s : Ring) (i : TxIdx) (status : Status) (actual_length : ℕ) : Ring :=
  let x := s.tx i
  if x.owned then
    let whole := status == .COMPLETED && actual_length == x.buf.length
    let s := if whole then { s with tx_done_n := s.tx_done_n + 1 }
      else
        { s with
          tx_err := s.tx_err + 1
          tx_failed := s.tx_failed + 1
          tx_wire_failed := if x.d then s.tx_wire_failed + x.nframes else s.tx_wire_failed }
    let s := s.set_tx i { x with busy := false, owned := false }
    { s with
      tx_inflight := s.tx_inflight - 1
      sends := Function.update s.sends x.send { s.sends x.send with result := some whole } }
  else s

/-- The part of `rx_done` up to the resubmission. `len` is what the parser returns. -/
def rx_done (s : Ring) (i : RxIdx) (status : Status) (len : ℤ) : Ring :=
  let x := s.rx i
  if x.stage = .owned then
    let s := s.set_rx i { x with stage := .decide status }
    if status = .COMPLETED then
      if x.d then
        { s with
          rx_invalid := if len = MT_RX_PARSE_INVALID then s.rx_invalid + 1 else s.rx_invalid
          rx_dropped := if len ≤ 0 then s.rx_dropped + 1 else s.rx_dropped
          rx_frames := if len ≤ 0 then s.rx_frames else s.rx_frames + 1 }
      else s
    else if status ≠ .CANCELLED then { s with rx_err := s.rx_err + 1 }
    else s
  else s

/-- The decision and the resubmission. -/
def rx_resubmit (s : Ring) (i : RxIdx) (ok : Bool) : Ring :=
  let x := s.rx i
  match x.stage with
  | .decide status =>
    let resubmit := s.rx_active && x.d && status ≠ .CANCELLED
    if resubmit && ok then s.set_rx i { x with stage := .owned, cancelled := false }
    else
      let s := s.set_rx i { x with stage := .idle }
      { s with
        rx_err := if resubmit then s.rx_err + 1 else s.rx_err
        rx_inflight := s.rx_inflight - 1 }
  | .idle | .owned => s

/-! ### `mt_async_stop` -/

/-- The transfers that are still out are counted as failed, and let go of the device. -/
def strand (s : Ring) : Ring :=
  { s with
    tx_wire_failed := s.tx_wire_failed +
      ∑ i, if (s.tx i).busy && (s.tx i).submitted then (s.tx i).nframes else 0
    tx := fun i => { s.tx i with d := false }
    rx := fun i => { s.rx i with d := false }
    sends := fun n => if ∃ i, (s.tx i).owned ∧ (s.tx i).send = n then
      { s.sends n with stranded := true } else s.sends n }

/-- `timeout` says that the wait has run out. -/
def stop_step (s : Ring) (timeout : Bool) : Ring :=
  match s.stop with
  | .idle => { s with rx_active := false, stopping := true, stop := .cancel_rx 0 }
  | .cancel_rx i =>
    if h : i < MT_RX_RING then
      let x := s.rx ⟨i, h⟩
      let x := if x.stage = .owned then { x with cancelled := true } else x
      { s.set_rx ⟨i, h⟩ x with stop := .cancel_rx (i + 1) }
    else { s with stop := .cancel_tx 0 }
  | .cancel_tx i =>
    if h : i < MT_TX_RING then
      let x := s.tx ⟨i, h⟩
      let x := if x.owned then { x with cancelled := true } else x
      { s.set_tx ⟨i, h⟩ x with stop := .cancel_tx (i + 1) }
    else { s with stop := .drain }
  | .drain =>
    if (s.tx_inflight ≠ 0 ∨ s.rx_inflight ≠ 0) ∧ timeout = false then s
    else
      let stuck : Bool := s.tx_inflight ≠ 0 ∨ s.rx_inflight ≠ 0
      let s := { s with running := false, stop := .join stuck }
      if stuck then s.strand else s
  | .join stuck =>
    let s := { s with a := false, stop := .finished }
    if stuck then { s with transfers_stranded := true } else { s with freed := true }
  | .finished => s

end Ring

inductive Act
  | mt_async_tx_submit (buf : Bytes) (nframes : ℕ)
  | call (k : ℕ) (late ok : Bool)
  | tx_done (i : TxIdx) (status : Status) (actual_length : ℕ)
  | rx_done (i : RxIdx) (status : Status) (len : ℤ)
  | rx_resubmit (i : RxIdx) (ok : Bool)
  | stop (timeout : Bool)
  deriving DecidableEq

def step (s : Ring) : Act → Ring
  | .mt_async_tx_submit buf nframes => s.mt_async_tx_submit buf nframes
  | .call k late ok => s.call_step k late ok
  | .tx_done i status actual_length => s.tx_done i status actual_length
  | .rx_done i status len => s.rx_done i status len
  | .rx_resubmit i ok => s.rx_resubmit i ok
  | .stop timeout => s.stop_step timeout

end devourer.mt7612u
