-- A batch of pipelined register writes: the calls between `write_batch_begin` and
-- `write_batch_end`, over the slots of `async_write` and `async_read`. One thread makes
-- the calls, and a step of it is one call of libusb, one section under a mutex or one
-- access to what the other side writes. A callback may run on another thread: it tests
-- the generation, counts an error, takes the slot out of flight and returns it in four
-- steps. The values of the registers are left out.
import Devourer.Usb.CtrlBatch

namespace devourer.usb.pipelined

def kAsyncMaxPayload : ℕ := 4

/-- A call of `ctrl_read`, `ctrl_write` or their wide forms, with its bytes. -/
structure Access where
  is_read : Bool
  n : ℕ
  deriving DecidableEq

/-- How far the callback of a transfer has come. -/
inductive Callback
  | out
  /-- It has tested the generation, and counts an error next or not. -/
  | tested (counts : Bool)
  | counted
  deriving DecidableEq

/-- `AsyncWrite` with its transfer. -/
structure AsyncSlot extends AsyncWrite where
  /-- The length of the payload. -/
  length : ℕ := 0
  callback : Callback := .out
  /-- The write that the transfer is for. -/
  call : ℕ := 0

/-- The transfer completed with its full length. -/
def AsyncSlot.whole (x : AsyncSlot) : Bool := x.status = some .COMPLETED && x.actual = x.length

/-- What became of a register write. -/
structure Issued where
  /-- That it completed with its full length, once it is over. -/
  outcome : Option Bool := none
  /-- Its transfer was retired. -/
  given_up : Bool := false
  deriving DecidableEq

def Issued.lost (x : Issued) : Bool := x.outcome = some false || x.given_up

/-! ## The transport -/

structure Pool where
  batch_depth : ℕ := 0
  batch_open : Bool := false
  batch : Bool := false
  abandoned : Bool := false
  /-- The slots have been allocated. -/
  built : Bool := false
  slot : ℕ → AsyncSlot := fun _ => {}
  /-- The last one pushed first. -/
  free : List ℕ := []
  /-- The slots whose callback has still to return them. -/
  landing : List ℕ := []
  inflight : ℤ := 0
  completed : ℕ := 0
  write_errors : ℕ := 0
  generation : ℕ := 0
  /-- The register writes of the session, in the order of their calls. -/
  writes : List Issued := []
  /-- How many there were when the outermost batch began. -/
  since : ℕ := 0

namespace Pool

/-- The writes since the outermost `write_batch_begin`. -/
def batch_writes (s : Pool) : List Issued := s.writes.drop s.since

/-- `ensure_async_slots`, with the outcome of the allocation. -/
def ensure_async_slots (s : Pool) (go : Bool) : Pool :=
  if !s.built && go then
    { s with built := true, free := (List.range kAsyncWriteDepth).reverse }
  else s

/-- The outermost `write_batch_begin`, up to the first of its two stores. -/
def opened (s : Pool) : Pool :=
  { s with
    batch_depth := s.batch_depth + 1, batch_open := true
    write_errors := 0, since := s.writes.length }

/-- The outermost `write_batch_begin`, from the second of its two stores on. -/
def batch_begin (s : Pool) (go : Bool) : Pool :=
  let s := { s with generation := s.generation + 1 }
  if s.abandoned then s
  else
    let s := s.ensure_async_slots go
    if s.built then { s with batch := true } else s

/-- The call of a register write starts. -/
def issue (s : Pool) : Pool := { s with writes := s.writes ++ [{}] }

/-- What a taker does to the slot it popped. -/
def take_slot (s : Pool) (w : ℕ) (rest : List ℕ) : Pool :=
  { s with
    free := rest
    slot := Function.update s.slot w
      { s.slot w with done := false, inflight := false, status := none, actual := 0 } }

/-- The setup of a slot. A write is the last one of the session. -/
def filled (s : Pool) (w : ℕ) (a : Access) : AsyncSlot :=
  { s.slot w with
    is_read := a.is_read, length := a.n, gen := s.generation, call := s.writes.length - 1 }

/-- `async_submit`, when libusb takes the transfer. -/
def submitted (s : Pool) (w : ℕ) (a : Access) : Pool :=
  { s with
    slot := Function.update s.slot w { s.filled w a with inflight := true }
    inflight := s.inflight + 1 }

/-- `async_submit`, when libusb refuses it. -/
def refused (s : Pool) (w : ℕ) (a : Access) : Pool :=
  { s with
    slot := Function.update s.slot w { s.filled w a with inflight := false }
    free := w :: s.free }

def set_outcome (writes : List Issued) (i : ℕ) (ok : Bool) : List Issued :=
  writes.modify i ({ · with outcome := some ok })

/-- The synchronous transfer of a write is over. -/
def controlled (s : Pool) (ok : Bool) : Pool :=
  { s with
    writes := set_outcome s.writes (s.writes.length - 1) ok
    write_errors := if !ok && s.batch_open then s.write_errors + 1 else s.write_errors }

/-- `flush_writes` looks at a slot that it could not reap. -/
def retire (s : Pool) (w : ℕ) : Pool :=
  if (s.slot w).inflight && !(s.slot w).is_read then
    { s with
      write_errors := s.write_errors + 1
      writes := s.writes.modify (s.slot w).call ({ · with given_up := true }) }
  else s

def abandon (s : Pool) : Pool := { s with abandoned := true, batch := false }

/-- The outermost `write_batch_end`, after its flush. -/
def batch_end (s : Pool) : Pool := { s with batch := false, batch_open := false }

/-- `async_write_cb`, up to the test of the generation. -/
def async_write_cb (s : Pool) (w : ℕ) (status : Status) (actual : ℕ) : Pool :=
  let x := { s.slot w with status := some status, actual }
  if x.inflight && x.callback = .out then
    { s with
      slot := Function.update s.slot w
        { x with callback := .tested (!x.is_read && x.gen = s.generation && !x.whole) } }
  else s

/-- The callback counts an error, if it is to. -/
def count (s : Pool) (w : ℕ) : Pool :=
  let x := s.slot w
  match x.callback with
  | .tested counts =>
    { s with
      slot := Function.update s.slot w { x with callback := .counted }
      write_errors := if counts then s.write_errors + 1 else s.write_errors
      writes := if x.is_read then s.writes else set_outcome s.writes x.call x.whole }
  | .out | .counted => s

/-- The callback takes the slot out of flight. -/
def land (s : Pool) (w : ℕ) : Pool :=
  let x := s.slot w
  if x.callback = .counted then
    { s with
      slot := Function.update s.slot w { x with callback := .out, inflight := false, done := true }
      inflight := s.inflight - 1
      completed := s.completed + 1
      landing := w :: s.landing }
  else s

/-- The slot is back in the free list. -/
def push (s : Pool) (w : ℕ) : Pool :=
  if w ∈ s.landing then { s with landing := s.landing.erase w, free := w :: s.free } else s

end Pool

/-! ## The thread -/

/-- Where `flush_writes` returns to. -/
inductive Ret
  | take (a : Access)
  | read (n w : ℕ)
  | close
  | call
  deriving DecidableEq

inductive Flush
  | entry
  | loop
  | wait
  | drain
  | verdict
  | retire (w : ℕ)
  deriving DecidableEq

/-- The step of the thread that is next. -/
inductive Pc
  /-- Between two calls. -/
  | idle
  /-- Between the two stores of the outermost `write_batch_begin`. -/
  | opening (go : Bool)
  | take (a : Access)
  | take_wait (a : Access)
  | submit (a : Access) (w : ℕ)
  | read (n w : ℕ)
  | read_look (n w : ℕ)
  | read_wait (n w : ℕ)
  | read_inspect (n w : ℕ)
  | control (a : Access)
  | flush (ret : Ret) (stage : Flush)
  | close
  /-- The outermost `write_batch_end` has answered. -/
  | ended (ok : Bool)
  deriving DecidableEq

def Pc.ready : Pc → Bool
  | .idle | .ended _ => true
  | _ => false

structure WriteBatch extends Pool where
  pc : Pc := .idle
  before : ℕ := 0

namespace WriteBatch

def go_to (s : WriteBatch) (pc : Pc) : WriteBatch := { s with pc }

/-- The loop of `async_take_slot` looks again. -/
def look_for_slot (s : WriteBatch) (a : Access) : WriteBatch :=
  { s with before := s.completed, pc := .take a }

/-- `flush_writes` returns. -/
def back (s : WriteBatch) : Ret → WriteBatch
  | .take a => if s.abandoned || !s.batch then s.go_to (.control a) else s.look_for_slot a
  | .read n w => s.go_to (.read_inspect n w)
  | .close => s.go_to .close
  | .call => s.go_to .idle

def flush_step (s : WriteBatch) (ret : Ret) (go : Bool) : Flush → WriteBatch
  | .entry => if s.abandoned then s.back ret else s.go_to (.flush ret .loop)
  | .loop =>
    if 0 < s.inflight then { s with before := s.completed, pc := .flush ret .wait } else s.back ret
  | .wait =>
    if s.completed ≠ s.before then s.go_to (.flush ret .loop)
    -- the submitted transfers are cancelled here, which the bus may heed or not
    else if go then s else s.go_to (.flush ret .drain)
  | .drain => if 0 < s.inflight && go then s else s.go_to (.flush ret .verdict)
  | .verdict => if 0 < s.inflight then s.go_to (.flush ret (.retire 0)) else s.back ret
  | .retire w =>
    if w < kAsyncWriteDepth then { s with toPool := s.retire w, pc := .flush ret (.retire (w + 1)) }
    else back { s with toPool := s.abandon } ret

/-- `go` is the outcome of a call: that a submission or a transfer has succeeded, or that a wait
goes on. -/
def thread_step (s : WriteBatch) (go : Bool) : WriteBatch :=
  match s.pc with
  | .idle | .ended _ => s
  | .opening go => { s with toPool := s.batch_begin go, pc := .idle }
  | .take a =>
    match s.free with
    | w :: rest => { s with toPool := s.take_slot w rest, pc := .submit a w }
    | [] => s.go_to (.take_wait a)
  | .take_wait a =>
    if s.completed ≠ s.before then s.look_for_slot a
    else if go then s else s.go_to (.flush (.take a) .entry)
  | .submit a w =>
    if go then
      { s with toPool := s.submitted w a, pc := if a.is_read then .read a.n w else .idle }
    else { s with toPool := s.refused w a, pc := .control a }
  | .read n w => { s with before := s.completed, pc := .read_look n w }
  | .read_look n w =>
    if (s.slot w).done then s.go_to (.read_inspect n w) else s.go_to (.read_wait n w)
  | .read_wait n w =>
    if s.completed ≠ s.before then { s with before := s.completed, pc := .read_look n w }
    else if go then s else s.go_to (.flush (.read n w) .entry)
  | .read_inspect n w =>
    let x := s.slot w
    if x.done && x.status = some .COMPLETED && x.actual = n then s.go_to .idle
    else s.go_to (.control ⟨true, n⟩)
  -- a read that fails here throws
  | .control a =>
    if a.is_read then s.go_to .idle else { s with toPool := s.controlled go, pc := .idle }
  | .flush ret stage => s.flush_step ret go stage
  | .close => { s with toPool := s.batch_end, pc := .ended (s.write_errors = 0) }

/-! ## The calls -/

inductive Call
  /-- With the outcome of the allocation, should it come to that. -/
  | write_batch_begin (go : Bool)
  | write_batch_end
  | access (a : Access)
  | flush_writes
  deriving DecidableEq

def write_batch_begin (s : WriteBatch) (go : Bool) : WriteBatch :=
  if 0 < s.batch_depth then { s with batch_depth := s.batch_depth + 1, pc := .idle }
  else { s with toPool := s.opened, pc := .opening go }

def write_batch_end (s : WriteBatch) : WriteBatch :=
  if !s.batch_open then s.go_to .idle
  else if 0 < s.batch_depth - 1 then { s with batch_depth := s.batch_depth - 1, pc := .idle }
  else { s with batch_depth := s.batch_depth - 1, pc := .flush .close .entry }

/-- Through a slot, or synchronously. -/
def transfer (s : WriteBatch) (a : Access) : WriteBatch :=
  if s.batch && a.n ≤ kAsyncMaxPayload then s.look_for_slot a else s.go_to (.control a)

def access (s : WriteBatch) (a : Access) : WriteBatch :=
  if a.is_read then s.transfer a else transfer { s with toPool := s.issue } a

def call (s : WriteBatch) : Call → WriteBatch
  | .write_batch_begin go => s.write_batch_begin go
  | .write_batch_end => s.write_batch_end
  | .access a => s.access a
  | .flush_writes => s.go_to (.flush .call .entry)

inductive Act
  | call (c : Call)
  | thread (go : Bool)
  | completion (w : ℕ) (status : Status) (actual : ℕ)
  | count (w : ℕ)
  | land (w : ℕ)
  | push (w : ℕ)

/-- The slot whose callback takes a step. -/
def Act.slot : Act → Option ℕ
  | .call _ | .thread _ => none
  | .completion w _ _ | .count w | .land w | .push w => some w

def step (s : WriteBatch) : Act → WriteBatch
  | .call c => if s.pc.ready then s.call c else s
  | .thread go => s.thread_step go
  | .completion w status actual => { s with toPool := s.async_write_cb w status actual }
  | .count w => { s with toPool := s.toPool.count w }
  | .land w => { s with toPool := s.toPool.land w }
  | .push w => { s with toPool := s.toPool.push w }

def run (acts : List Act) : WriteBatch := Runs.after step {} acts

end WriteBatch

end devourer.usb.pipelined
