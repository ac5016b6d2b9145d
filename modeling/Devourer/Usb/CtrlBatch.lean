-- Groups of register accesses over the pool of transfer slots: `ctrl_batch`, the
-- pipelined and the synchronous accesses it falls back to, the completion callback
-- and the bus. A step is one section under a mutex, one call of libusb or one look
-- at what a callback writes, with the local work around it.
import Devourer.Lib.Runs
import Devourer.Usb.Libusb
import Mathlib.Data.Int.Notation
import Mathlib.Logic.Function.Basic

namespace devourer.usb

structure CtrlOp where
  write : Bool
  addr : BitVec 16
  value : BitVec 32
  deriving DecidableEq

/-! ## The synchronous default -/

/-- The register plane of a transport: a write answers whether it succeeded, a failed
read throws. -/
structure Plane (σ : Type*) where
  write32 : σ → BitVec 16 → BitVec 32 → Bool × σ
  read32 : σ → BitVec 16 → Option (BitVec 32) × σ

namespace ITransport

/-- The loop of `ITransport::ctrl_batch`, with the ops behind it; none when a read throws. -/
def ctrl_loop {σ : Type*} (plane : Plane σ) : σ → Bool → List CtrlOp →
    Option (Bool × List CtrlOp) × σ
  | s, ok, [] => (some (ok, []), s)
  | s, ok, op :: ops =>
    if op.write then
      let (wrote, s) := plane.write32 s op.addr op.value
      let (out, s) := ctrl_loop plane s (wrote && ok) ops
      (out.map fun r => (r.1, op :: r.2), s)
    else
      match plane.read32 s op.addr with
      | (none, s) => (none, s)
      | (some value, s) =>
        let (out, s) := ctrl_loop plane s ok ops
        (out.map fun r => (r.1, { op with value } :: r.2), s)

def ctrl_batch {σ : Type*} (plane : Plane σ) (s : σ) (ops : List CtrlOp) :
    Option (Bool × List CtrlOp) × σ :=
  ctrl_loop plane s true ops

end ITransport

/-- The registers of a device. -/
structure Registers (δ : Type*) where
  write32 : δ → BitVec 16 → BitVec 32 → δ
  read32 : δ → BitVec 16 → BitVec 32 × δ

/-- The registers over a bus that loses nothing. -/
def Registers.plane {δ : Type*} (dev : Registers δ) : Plane δ where
  write32 d addr value := (true, dev.write32 d addr value)
  read32 d addr := let (value, d) := dev.read32 d addr; (some value, d)

/-- What the device does at a transfer, with the payload that the transfer has then. -/
def Registers.access {δ : Type*} (dev : Registers δ) (d : δ) (op : CtrlOp) : BitVec 32 × δ :=
  if op.write then (op.value, dev.write32 d op.addr op.value) else dev.read32 d op.addr

/-! ## The transport -/

def kAsyncWriteDepth : ℕ := 8

/-- `AsyncWrite`, without the transfer. -/
structure AsyncWrite where
  done : Bool := false
  inflight : Bool := false
  is_read : Bool := false
  gen : ℕ := 0
  status : Option Status := none
  actual : ℕ := 0
  /-- The payload behind the setup packet. -/
  buf : BitVec 32 := 0

/-- The slot has its 4 bytes. -/
def AsyncWrite.good (w : AsyncWrite) : Bool :=
  w.done && w.status = some .COMPLETED && w.actual = 4

structure Completion where
  status : Status
  actual : ℕ
  payload : BitVec 32
  deriving DecidableEq

/-- The transfer completed with its 4 bytes. -/
def Completion.whole (c : Completion) : Bool := c.status = .COMPLETED && c.actual = 4

/-- A transfer on EP0, of a slot or of a synchronous access, and the op of the group that it is
for. -/
structure Xfer where
  slot : Option ℕ
  op : CtrlOp
  index : Option ℕ
  deriving DecidableEq

/-- Who asked for a slot. -/
inductive Caller
  | group
  | single
  deriving DecidableEq

/-- Where `flush_writes` returns to. -/
inductive Ret
  | take (caller : Caller)
  | wait
  | read
  deriving DecidableEq

inductive Flush
  | entry
  | loop
  | wait
  | drain
  | verdict
  deriving DecidableEq

/-- The step of the thread that is next. -/
inductive Pc
  | start
  | chunk
  | acquire
  | take (caller : Caller)
  | take_wait (caller : Caller)
  | submit
  | wait
  | look
  | progress
  | inspect
  | flush (ret : Ret) (stage : Flush)
  | sync
  | control
  | control_wait
  /-- `async_write` and `async_read`, when a batch of writes is open. -/
  | pipeline
  | read
  | read_look
  | read_progress
  | read_inspect
  | returned (ok : Bool)
  | threw
  deriving DecidableEq

structure Ctrl (δ : Type*) where
  ops : List CtrlOp
  /- The transport. -/
  batch : Bool := false
  batch_open : Bool := false
  abandoned : Bool := false
  cfg_ctrl_batch : Bool := true
  /-- The slots have been allocated. -/
  built : Bool := true
  slot : ℕ → AsyncWrite := fun _ => {}
  /-- The last one pushed first. -/
  free : List ℕ := []
  inflight : ℤ := 0
  completed : ℕ := 0
  write_errors : ℕ := 0
  generation : ℕ := 0
  /- The locals of the thread. -/
  pc : Pc := .start
  /-- The op that is to be issued next. -/
  pos : ℕ := 0
  ok : Bool := true
  want : ℕ := 0
  /-- The slots that were taken and are not submitted. -/
  slots : List ℕ := []
  /-- The ops that were submitted and are still to be waited for, with their slots. -/
  used : List (ℕ × ℕ) := []
  before : ℕ := 0
  /-- The ops as they come back when a read throws: the copy of `finish_synchronously` is lost. -/
  undo : Option (List CtrlOp) := none
  /- The bus. -/
  registers : δ
  /-- The transfers that were submitted, in order. -/
  ep0 : List Xfer := []
  /-- Those that are over, before their callback. -/
  finished : List (Xfer × Completion) := []
  /-- The slots whose callback has still to return them. -/
  landing : List ℕ := []
  /- What has happened. -/
  issued : List ℕ := []
  outcome : ℕ → Option Completion := fun _ => none
  /-- The ops that the thread found complete. -/
  seen : List ℕ := []
  /-- Those that were not over when the thread had cancelled them and looked. -/
  given_up : List ℕ := []
  /-- The registers as the first transfer of the group finds them. -/
  origin : δ

namespace Ctrl

variable {δ : Type*}

/-! ## Slots -/

/-- A slot that was taken is reset. -/
def reset (s : Ctrl δ) (w : ℕ) : ℕ → AsyncWrite :=
  Function.update s.slot w
    { s.slot w with done := false, inflight := false, status := none, actual := 0 }

/-- The setup of a slot for an op, then `async_submit`. -/
def async_submit (s : Ctrl δ) (w i : ℕ) (op : CtrlOp) (go : Bool) : Ctrl δ :=
  let filled : AsyncWrite :=
    { s.slot w with
      is_read := !op.write, buf := if op.write then op.value else (s.slot w).buf,
      gen := s.generation }
  if go then
    { s with
      slot := Function.update s.slot w { filled with inflight := true }
      inflight := s.inflight + 1
      ep0 := s.ep0 ++ [{ slot := some w, op, index := some i }]
      issued := s.issued ++ [i] }
  else
    { s with
      slot := Function.update s.slot w { filled with inflight := false }
      free := w :: s.free }

def set_value (ops : List CtrlOp) (i : ℕ) (value : BitVec 32) : List CtrlOp :=
  ops.modify i ({ · with value })

/-- `async_take_slot` has a slot. -/
def taken (s : Ctrl δ) (caller : Caller) (w : ℕ) (rest : List ℕ) : Ctrl δ :=
  { s with
    slot := s.reset w, free := rest, slots := [w]
    pc := match caller with
      | .group => .submit
      | .single => .pipeline }

/-- It has none: the rest of the group, or the access, is synchronous. -/
def no_slot (s : Ctrl δ) : Caller → Ctrl δ
  | .group => { s with ok := false, undo := some s.ops, pc := .sync }
  | .single => { s with pc := .control }

/-- `flush_writes` returns. -/
def back (s : Ctrl δ) : Ret → Ctrl δ
  | .take caller =>
    if s.abandoned || !s.batch then s.no_slot caller
    else { s with before := s.completed, pc := .take caller }
  | .wait => { s with pc := .inspect }
  | .read => { s with pc := .read_inspect }

def flush_step (s : Ctrl δ) (ret : Ret) (go : Bool) : Flush → Ctrl δ
  | .entry => if s.abandoned then s.back ret else { s with pc := .flush ret .loop }
  | .loop =>
    if 0 < s.inflight then { s with before := s.completed, pc := .flush ret .wait } else s.back ret
  | .wait =>
    if s.completed ≠ s.before then { s with pc := .flush ret .loop }
    -- the submitted transfers are cancelled here, which the bus may heed or not
    else if go then s else { s with pc := .flush ret .drain }
  | .drain => if 0 < s.inflight && go then s else { s with pc := .flush ret .verdict }
  | .verdict =>
    if 0 < s.inflight then
      back { s with
        write_errors := s.write_errors + (List.range kAsyncWriteDepth).countP fun w =>
          (s.slot w).inflight && !(s.slot w).is_read
        abandoned := true
        batch := false } ret
    else s.back ret

/-! ## The thread -/

/-- A synchronous access has failed. -/
def control_failed (s : Ctrl δ) (op : CtrlOp) : Ctrl δ :=
  if op.write then
    { s with
      ok := false
      write_errors := if s.batch_open then s.write_errors + 1 else s.write_errors
      pc := .sync }
  else { s with ops := s.undo.getD s.ops, pc := .threw }

/-- `go` is the outcome of a call: that a submission or an allocation has succeeded, or that a wait
goes on. -/
def thread_step (s : Ctrl δ) (go : Bool) : Ctrl δ :=
  match s.pc with
  | .start =>
    if s.ops = [] then { s with pc := .returned true }
    else if s.batch_open || s.abandoned || !s.cfg_ctrl_batch then { s with pc := .sync }
    else if s.built then { s with pc := .chunk }
    else if go then { s with built := true, free := List.range kAsyncWriteDepth, pc := .chunk }
    else { s with pc := .sync }
  | .chunk =>
    if s.pos < s.ops.length then
      if s.abandoned then { s with undo := some s.ops, pc := .sync }
      else
        { s with want := min (s.ops.length - s.pos) kAsyncWriteDepth, slots := [], pc := .acquire }
    else { s with pc := .returned s.ok }
  | .acquire =>
    if s.slots.length < s.want then
      match s.free with
      | w :: rest => { s with slot := s.reset w, free := rest, slots := s.slots ++ [w] }
      | [] =>
        if s.slots = [] then { s with before := s.completed, pc := .take .group }
        else { s with used := [], pc := .submit }
    else { s with used := [], pc := .submit }
  | .take caller =>
    match s.free with
    | w :: rest => s.taken caller w rest
    | [] => { s with pc := .take_wait caller }
  | .take_wait caller =>
    if s.completed ≠ s.before then { s with before := s.completed, pc := .take caller }
    else if go then s else { s with pc := .flush (.take caller) .entry }
  | .submit =>
    match s.slots, s.ops[s.pos]? with
    | w :: rest, some op =>
      { s.async_submit w s.pos op go with
        slots := rest
        used := if go then s.used ++ [(s.pos, w)] else s.used
        ok := s.ok && go
        pos := s.pos + 1 }
    | [], _ => { s with pc := .wait }
    | _ :: _, none => s
  | .wait =>
    match s.used with
    | [] => { s with pc := .chunk }
    | _ :: _ => { s with before := s.completed, pc := .look }
  | .look =>
    match s.used with
    | [] => s
    | (_, w) :: _ =>
      if (s.slot w).done then { s with pc := .inspect } else { s with pc := .progress }
  | .progress =>
    if s.completed ≠ s.before then { s with before := s.completed, pc := .look }
    else if go then s else { s with pc := .flush .wait .entry }
  | .inspect =>
    match s.used with
    | [] => s
    | (i, w) :: rest =>
      if (s.slot w).good then
        { s with
          ops := if (s.ops[i]?.elim true CtrlOp.write) then s.ops
            else set_value s.ops i (s.slot w).buf
          seen := s.seen ++ [i]
          used := rest
          pc := .wait }
      else
        { s with
          ok := false
          given_up := if (s.slot w).done then s.given_up else s.given_up ++ [i]
          used := rest
          pc := .wait }
  | .flush ret stage => s.flush_step ret go stage
  | .sync =>
    if s.pos < s.ops.length then
      if s.batch then { s with before := s.completed, pc := .take .single }
        else { s with pc := .control }
    else { s with pc := .returned s.ok }
  | .control =>
    match s.ops[s.pos]? with
    | none => s
    | some op =>
      if go then
        { s with
          ep0 := s.ep0 ++ [{ slot := none, op, index := some s.pos }]
          issued := s.issued ++ [s.pos]
          pos := s.pos + 1
          pc := .control_wait }
      else control_failed { s with pos := s.pos + 1 } op
  | .control_wait =>
    match s.finished.find? (·.1.slot = none) with
    | none => s
    | some (x, c) =>
      let s := { s with finished := s.finished.erase (x, c) }
      if c.whole then
        { s with
          ops := if x.op.write then s.ops else set_value s.ops (s.pos - 1) c.payload
          seen := s.seen ++ [s.pos - 1]
          pc := .sync }
      else s.control_failed x.op
  | .pipeline =>
    match s.slots, s.ops[s.pos]? with
    | w :: _, some op =>
      let s := { s.async_submit w s.pos op go with slots := [] }
      if !go then { s with pc := .control }
      else if op.write then { s with pos := s.pos + 1, pc := .sync }
      else { s with used := [(s.pos, w)], pc := .read }
    | _, _ => s
  | .read => { s with before := s.completed, pc := .read_look }
  | .read_look =>
    match s.used with
    | [] => s
    | (_, w) :: _ =>
      if (s.slot w).done then { s with pc := .read_inspect } else { s with pc := .read_progress }
  | .read_progress =>
    if s.completed ≠ s.before then { s with before := s.completed, pc := .read_look }
    else if go then s else { s with pc := .flush .read .entry }
  | .read_inspect =>
    match s.used with
    | [] => s
    | (i, w) :: _ =>
      if (s.slot w).good then
        { s with
          ops := set_value s.ops i (s.slot w).buf
          seen := s.seen ++ [i]
          used := []
          pos := s.pos + 1
          pc := .sync }
      else { s with used := [], pc := .control }
  | .returned _ | .threw => s

/-! ## The bus and the callbacks -/

/-- A transfer is over. -/
def xfer_over (s : Ctrl δ) (x : Xfer) (c : Completion) : Ctrl δ :=
  { s with
    finished := s.finished ++ [(x, c)]
    outcome := match x.index with
      | some i => Function.update s.outcome i (some c)
      | none => s.outcome }

/-- The device executes the first transfer. -/
def exec (dev : Registers δ) (s : Ctrl δ) : Ctrl δ :=
  match s.ep0 with
  | [] => s
  | x :: rest =>
    let (payload, registers) := dev.access s.registers x.op
    xfer_over { s with
      ep0 := rest
      registers
      origin := if x.index = none then registers else s.origin } x
      { status := .COMPLETED, actual := 4, payload }

/-- A transfer fails or is cancelled, after the device has executed it or before. -/
def fail (dev : Registers δ) (s : Ctrl δ) (k : ℕ) (c : Completion) (applied : Bool) : Ctrl δ :=
  match s.ep0[k]? with
  | none => s
  | some x =>
    if c.whole then s
    else
      let registers := if applied && k = 0 then (dev.access s.registers x.op).2 else s.registers
      xfer_over { s with
        ep0 := s.ep0.eraseIdx k
        registers
        origin := if x.index = none then registers else s.origin } x c

/-- `async_write_cb`, up to the return of the slot. -/
def async_write_cb (s : Ctrl δ) (k : ℕ) : Ctrl δ :=
  match s.finished[k]? with
  | some ({ slot := some w, op, .. }, c) =>
    { s with
      finished := s.finished.eraseIdx k
      write_errors :=
        if !(s.slot w).is_read && (s.slot w).gen = s.generation && !c.whole then s.write_errors + 1
        else s.write_errors
      slot := Function.update s.slot w
        { s.slot w with
          status := some c.status, actual := c.actual
          buf := if op.write then (s.slot w).buf else c.payload
          inflight := false, done := true }
      inflight := s.inflight - 1
      completed := s.completed + 1
      landing := w :: s.landing }
  | _ => s

/-- The slot is back in the free list. -/
def push (s : Ctrl δ) (w : ℕ) : Ctrl δ :=
  if w ∈ s.landing then { s with landing := s.landing.erase w, free := w :: s.free } else s

inductive Act
  | thread (go : Bool)
  | exec
  | fail (k : ℕ) (c : Completion) (applied : Bool)
  | callback (k : ℕ)
  | push (w : ℕ)

def step (dev : Registers δ) (s : Ctrl δ) : Act → Ctrl δ
  | .thread go => s.thread_step go
  | .exec => s.exec dev
  | .fail k c applied => s.fail dev k c applied
  | .callback k => s.async_write_cb k
  | .push w => s.push w

end Ctrl

end devourer.usb
