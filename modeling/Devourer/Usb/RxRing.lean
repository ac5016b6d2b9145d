-- The receive ring with a pool of buffers: the completion callback, the consumer
-- thread and the loop that tears the ring down. A step of a thread is one section
-- under a mutex or one call of libusb, with the local work behind it.
import Devourer.Lib.Octets
import Devourer.Lib.Runs
import Devourer.Usb.Libusb
import Mathlib.Data.Int.Notation
import Mathlib.Logic.Function.Basic

namespace devourer.usb

/-! ## The ring -/

/-- `RxMode`, of the modes that have a pool. -/
inductive RxMode
  | ReorderPool
  | SpscFat
  deriving DecidableEq

structure RxConfig where
  mode : RxMode
  /-- `PoolExhaust::Backpressure`, and not `Drop`. -/
  bp : Bool := true
  n_urbs : ℕ
  spare : ℕ := 0
  /-- The buffers of the pool that could be allocated. -/
  alloc : ℕ → Bool := fun _ => true

/-- The locals of `devourer_rx_cb`. -/
structure Job where
  urb : ℕ
  received : ℕ
  fresh : ℕ := 0
  resubmit : Bool
  rlen : ℕ
  deriving DecidableEq

/-- The step of `devourer_rx_cb` that is next. -/
inductive Stage
  | take_spare
  | submit_fresh
  | return_fresh
  | consume_armed
  | pool_received
  | enqueue
  | consume_inline
  | publish
  | park
  | discard
  | resubmit
  | retire
  deriving DecidableEq

/-- The step of the consumer thread that is next. -/
inductive Consumer
  | absent
  | idle
  | consume (buf len : ℕ)
  | give_back (buf : ℕ)
  | exited
  deriving DecidableEq

/-- The step of `rx_loop` that is next. -/
inductive Loop
  | arming (i : ℕ)
  | looping
  | closing
  | draining
  | stopping
  | joining
  | done
  deriving DecidableEq

/-- A payload that the ring answers for, and whether it was counted as dropped. -/
structure Seen where
  payload : Bytes
  dropped : Bool := false

structure Ring where
  /-- The transfers that libusb has, each with its buffer. -/
  submitted : List (ℕ × ℕ) := []
  /-- The last one pushed first. -/
  free_bufs : List ℕ := []
  queue : List (ℕ × ℕ) := []
  parked : List ℕ := []
  /-- The buffers of the transfers that are not in the ring: not yet submitted, refused by libusb
  or retired. -/
  unposted : List ℕ := []
  parking_closed : Bool := false
  dead : Bool := false
  consumer_stop : Bool := false
  active : ℤ := 0
  pool_dropped : ℕ := 0
  /-- The running callback. -/
  cb : Option (Stage × Job) := none
  consumer : Consumer := .absent
  loop : Loop := .arming 0
  /-- What the buffers hold. -/
  mem : ℕ → Bytes := fun _ => []
  /-- Some call of `should_stop` has answered true. -/
  stopped : Bool := false
  /-- Of the completions with a payload: in the reordering mode all, in the other those before the
  stop, the oldest first. -/
  seen : List Seen := []
  /-- What `on_data` got, the oldest first. -/
  delivered : List Bytes := []

namespace Ring

section

variable (cfg : RxConfig)

/-- The ring before the first submission: the spares stand in the pool. -/
def start : Ring :=
  { unposted := (List.range cfg.n_urbs).filter cfg.alloc
    free_bufs := ((List.range' cfg.n_urbs cfg.spare).filter cfg.alloc).reverse }

/-- `rx_consume`. -/
def rx_consume (s : Ring) (buf len : ℕ) : Ring :=
  if len = 0 then s else { s with delivered := s.delivered ++ [(s.mem buf).take len] }

/-! ## The callback -/

/-- Where the callback goes on when no fresh buffer is on the wire. -/
def degrade (j : Job) : Stage :=
  match cfg.mode with
  | .ReorderPool => .consume_inline
  | .SpscFat => if cfg.bp && j.resubmit && 0 < j.rlen then .publish else .discard

/-- Where it goes on when a fresh buffer is. -/
def armed (j : Job) : Stage :=
  match cfg.mode with
  | .ReorderPool => .consume_armed
  | .SpscFat => if 0 < j.rlen then .enqueue else .pool_received

/-- Whether the ring answers for the payload of a completion. -/
def answers (j : Job) : Bool := 0 < j.rlen && (cfg.mode = .ReorderPool || j.resubmit)

/-- The locals at the start of the callback. -/
def job (urb received : ℕ) (status : Status) (actual_length : ℕ) (stop : Bool) : Job :=
  { urb, received
    resubmit := !stop && (status = .COMPLETED || status = .TIMED_OUT)
    rlen := if status = .COMPLETED then actual_length else 0 }

/-- A completed transfer enters the callback, up to its first mutex or call of libusb. -/
def complete (s : Ring) (urb : ℕ) (status : Status) (actual_length : ℕ) (stop : Bool) : Ring :=
  match s.submitted.find? (·.1 = urb), s.cb with
  | some (_, received), none =>
    let j := job urb received status actual_length stop
    { s with
      submitted := s.submitted.erase (urb, received)
      dead := s.dead || status = .NO_DEVICE
      stopped := s.stopped || stop
      seen := if answers cfg j then s.seen ++ [{ payload := (s.mem received).take j.rlen }]
        else s.seen
      cb := some (if j.resubmit then .take_spare else degrade cfg j, j) }
  | _, _ => s

/-- The last payload seen is counted as dropped. -/
def drop_last (l : List Seen) : List Seen :=
  l.dropLast ++ (l.getLast?.map ({ · with dropped := true })).toList

def callback_stage (s : Ring) (j : Job) (rc : Rc) : Stage → Ring
  | .take_spare =>
    match s.free_bufs with
    | [] => { s with cb := some (degrade cfg j, j) }
    | fresh :: rest => { s with free_bufs := rest, cb := some (.submit_fresh, { j with fresh }) }
  | .submit_fresh =>
    if rc = .SUCCESS then
      { s with submitted := s.submitted ++ [(j.urb, j.fresh)], cb := some (armed cfg j, j) }
    else { s with cb := some (.return_fresh, j) }
  | .return_fresh =>
    { s with free_bufs := j.fresh :: s.free_bufs, cb := some (degrade cfg j, j) }
  | .consume_armed => { s.rx_consume j.received j.rlen with cb := some (.pool_received, j) }
  | .pool_received => { s with free_bufs := j.received :: s.free_bufs, cb := none }
  | .enqueue => { s with queue := s.queue ++ [(j.received, j.rlen)], cb := none }
  | .consume_inline =>
    { s.rx_consume j.received j.rlen with
      cb := some (if j.resubmit then .resubmit else .retire, j) }
  | .publish => { s with queue := s.queue ++ [(j.received, j.rlen)], cb := some (.park, j) }
  | .park =>
    if s.parking_closed then { s with active := s.active - 1, cb := none }
    else { s with parked := j.urb :: s.parked, cb := none }
  | .discard =>
    let lost := j.resubmit && 0 < j.rlen
    { s with
      pool_dropped := if lost then s.pool_dropped + 1 else s.pool_dropped
      seen := if lost then drop_last s.seen else s.seen
      cb := some (if j.resubmit then .resubmit else .retire, j) }
  | .resubmit =>
    if rc = .SUCCESS then { s with submitted := s.submitted ++ [(j.urb, j.received)], cb := none }
    else { s with cb := some (.retire, j) }
  | .retire => { s with active := s.active - 1, unposted := j.received :: s.unposted, cb := none }

def callback_step (s : Ring) (rc : Rc) : Ring :=
  match s.cb with
  | none => s
  | some (stage, j) => s.callback_stage cfg j rc stage

/-! ## The consumer -/

/-- The buffer goes to a parked transfer, which goes back on the wire, or to the pool. -/
def give_back (s : Ring) (buf : ℕ) (rc : Rc) : Ring :=
  match s.parked with
  | t :: rest =>
    if cfg.bp && !s.parking_closed then
      if rc = .SUCCESS then { s with parked := rest, submitted := s.submitted ++ [(t, buf)] }
      else { s with free_bufs := buf :: s.free_bufs, dead := s.dead || rc = .NO_DEVICE }
    else { s with free_bufs := buf :: s.free_bufs }
  | [] => { s with free_bufs := buf :: s.free_bufs }

def consumer_step (s : Ring) (rc : Rc) : Ring :=
  match s.consumer with
  | .absent => s
  | .idle =>
    match s.queue with
    | [] => if s.consumer_stop then { s with consumer := .exited } else s
    | (buf, len) :: rest => { s with queue := rest, consumer := .consume buf len }
  | .consume buf len => { s.rx_consume buf len with consumer := .give_back buf }
  | .give_back buf => { s.give_back cfg buf rc with consumer := .idle }
  | .exited => s

/-! ## The loop -/

/-- The next transfer is submitted, when its buffer was allocated, or the loop begins. `stop` is the
answer of `should_stop` where the loop asks for it. -/
def loop_step (s : Ring) (rc : Rc) (stop : Bool) : Ring :=
  match s.loop with
  | .arming i =>
    if i < cfg.n_urbs then
      if cfg.alloc i && rc = .SUCCESS then
        { s with
          submitted := s.submitted ++ [(i, i)]
          unposted := s.unposted.erase i
          active := s.active + 1
          loop := .arming (i + 1) }
      else { s with loop := .arming (i + 1) }
    else
      { s with loop := .looping, consumer := if cfg.mode = .SpscFat then .idle else .absent }
  | .looping =>
    if stop || s.active ≤ 0 || s.dead then { s with loop := .closing, stopped := s.stopped || stop }
    else s
  | .closing =>
    { s with
      parking_closed := true
      active := s.active - s.parked.length
      parked := []
      loop := .draining }
  | .draining => if 0 < s.active then s else { s with loop := .stopping }
  | .stopping =>
    if cfg.mode = .SpscFat then { s with consumer_stop := true, loop := .joining }
    else { s with loop := .done }
  | .joining => if s.consumer = .exited then { s with loop := .done } else s
  | .done => s

/-! ## Runs -/

inductive Act
  /-- The device writes into a posted buffer. -/
  | dma (buf : ℕ) (data : Bytes)
  | complete (urb : ℕ) (status : Status) (actual_length : ℕ) (stop : Bool)
  | callback (rc : Rc)
  | consumer (rc : Rc)
  | loop (rc : Rc) (stop : Bool)

/-- An act that is not enabled changes nothing. -/
def step (s : Ring) : Act → Ring
  | .dma buf data =>
    if buf ∈ s.submitted.map (·.2) then { s with mem := Function.update s.mem buf data } else s
  | .complete urb status actual_length stop => s.complete cfg urb status actual_length stop
  | .callback rc => s.callback_step cfg rc
  | .consumer rc => s.consumer_step cfg rc
  | .loop rc stop => s.loop_step cfg rc stop

def run (acts : List Act) : Ring := Runs.after (step cfg) (start cfg) acts

end

end Ring

end devourer.usb
