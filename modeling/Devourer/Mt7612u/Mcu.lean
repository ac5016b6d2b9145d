-- The in-band channel to the MCU: commands go out on one endpoint, replies
-- come back on another at any time and in any order, and four bits of a
-- sequence number are all that joins a reply to its command.
import Devourer.Lib.Runs
import Devourer.Mt7612u.RxParse

namespace devourer.mt7612u.mcu

def MCU_MSG_MAX : ℕ := 192
def CPU_TX_PORT : BitVec 32 := 2
def MT_MCU_MSG_CMD_SEQ : BitVec 32 := GENMASK 19 16
def MT_MCU_MSG_CMD_TYPE : BitVec 32 := GENMASK 26 20
def MT_MCU_MSG_TYPE_CMD : BitVec 32 := BIT 30
def MT_RX_FCE_INFO_CMD_SEQ : BitVec 32 := GENMASK 19 16
def MT_RX_FCE_INFO_EVT_TYPE : BitVec 32 := GENMASK 23 20
def MT_EVT_CMD_DONE : BitVec 32 := 0

/-! ## The transport -/

/-- What a read of the response endpoint gives. -/
inductive Bulk
  | ok (p : Bytes)
  | timeout
  | error
  deriving DecidableEq

/-- The two endpoints. A write answers whether it went through. -/
structure Port (ω : Type*) where
  read : ω → Bulk × ω
  write : ω → Bytes → Bool × ω

/-- What the device keeps of the channel. -/
structure Transport where
  mcu_seq : UInt8 := 0
  mcu_stale_pending : Bool := false
  deriving DecidableEq

/-- The packet is long enough to be read, and it ends the command with this sequence number. -/
def done (seq : BitVec 32) (p : Bytes) : Bool :=
  4 ≤ p.length ∧ FIELD_GET MT_RX_FCE_INFO_CMD_SEQ (rd32 p 0) = seq ∧
    FIELD_GET MT_RX_FCE_INFO_EVT_TYPE (rd32 p 0) = MT_EVT_CMD_DONE

/-- The next sequence number, which is never 0. -/
def next_seq (mcu_seq : UInt8) : UInt8 × UInt8 :=
  let s := mcu_seq + 1
  if s &&& 0xf = 0 then ((s + 1) &&& 0xf, s + 1) else (s &&& 0xf, s)

/-- A command with its TXINFO, its padding and the zero word behind it. -/
def message (cmd : BitVec 32) (seq : UInt8) (data : Bytes) : Bytes :=
  let info := FIELD_PREP MT_TXD_INFO_LEN (BitVec.ofNat 32 (Layout.alignUp 4 data.length)) |||
    FIELD_PREP MT_TXD_INFO_DPORT CPU_TX_PORT |||
    FIELD_PREP MT_MCU_MSG_CMD_SEQ (seq.toBitVec.setWidth 32) |||
    FIELD_PREP MT_MCU_MSG_CMD_TYPE cmd ||| MT_MCU_MSG_TYPE_CMD
  let pad := Layout.alignUp 4 (4 + data.length) + 4 - (4 + data.length)
  put_le32 info ++ (data ++ List.replicate pad 0)

section

variable {ω : Type*} (io : Port ω)

/-- At most `n` reads for the reply. -/
def wait_loop (seq : BitVec 32) : ℕ → ω → Bool × ω
  | 0, w => (false, w)
  | n + 1, w =>
    match io.read w with
    | (.timeout, w) => wait_loop seq n w
    | (.error, w) => (false, w)
    | (.ok p, w) => if done seq p then (true, w) else wait_loop seq n w

def mcu_wait_resp (d : Transport) (w : ω) (seq : UInt8) : ℤ × Transport × ω :=
  let (answered, w) := wait_loop io (seq.toBitVec.setWidth 32) 10 w
  if answered then (0, d, w) else (-1, { d with mcu_stale_pending := true }, w)

/-- At most `n` reads of what nobody collected. Only a timeout shows that nothing is left. -/
def drain_loop : ℕ → ω → Bool × ω
  | 0, w => (false, w)
  | n + 1, w =>
    match io.read w with
    | (.timeout, w) => (true, w)
    | (.error, w) => (false, w)
    | (.ok p, w) => if p.length < 4 then (false, w) else drain_loop n w

def drained (d : Transport) (w : ω) : Transport × ω :=
  if d.mcu_stale_pending then
    let (drained_clean, w) := drain_loop io 64 w
    ({ d with mcu_stale_pending := !drained_clean }, w)
  else (d, w)

def mt_mcu_send (d : Transport) (w : ω) (cmd : BitVec 32) (data : Bytes) (wait_resp : Bool) :
    ℤ × Transport × ω :=
  if data.length > MCU_MSG_MAX then (-1, d, w)
  else
    let (d, w) := drained io d w
    let (seq, mcu_seq) := if wait_resp then next_seq d.mcu_seq else (0, d.mcu_seq)
    let d := { d with mcu_seq }
    let (ok, w) := io.write w (message cmd seq data)
    if !ok then (-1, { d with mcu_stale_pending := true }, w)
    else if wait_resp then mcu_wait_resp io d w seq else (0, d, w)

/-! ### What the loops keep -/

variable {P : ω → Prop}

/-- What each read keeps, the reads for a reply keep. The one that ends them gave the reply. -/
theorem wait_keeps (hread : ∀ w, P w → P (io.read w).2) (seq : BitVec 32) (n : ℕ)
    {w : ω} (h : P w) :
    P (wait_loop io seq n w).2 ∧ ((wait_loop io seq n w).1 = true →
      ∃ w' p, P w' ∧ io.read w' = (.ok p, (wait_loop io seq n w).2) ∧ done seq p = true) := by
  induction n generalizing w with
  | zero => exact ⟨h, by simp [wait_loop]⟩
  | succ n ih =>
    have hnext := hread w h
    unfold wait_loop
    rcases hr : io.read w with ⟨got, w'⟩
    rw [hr] at hnext
    cases got with
    | timeout => exact ih hnext
    | error => exact ⟨hnext, by simp⟩
    | ok p =>
      dsimp only
      split
      · exact ⟨hnext, fun _ => ⟨w, p, h, hr, ‹_›⟩⟩
      · exact ih hnext

theorem drain_keeps (hread : ∀ w, P w → P (io.read w).2) (n : ℕ) {w : ω} (h : P w) :
    P (drain_loop io n w).2 := by
  induction n generalizing w with
  | zero => exact h
  | succ n ih =>
    have hnext := hread w h
    unfold drain_loop
    rcases hr : io.read w with ⟨got, w'⟩
    rw [hr] at hnext
    cases got with
    | timeout => exact hnext
    | error => exact hnext
    | ok p =>
      dsimp only
      split
      · exact hnext
      · exact ih hnext

theorem drained_keeps (hread : ∀ w, P w → P (io.read w).2) (d : Transport) {w : ω} (h : P w) :
    P (drained io d w).2 ∧ (drained io d w).1.mcu_seq = d.mcu_seq := by
  unfold drained
  split
  · exact ⟨drain_keeps io hread 64 h, rfl⟩
  · exact ⟨h, rfl⟩

end

/-! ## The other side

The MCU holds the commands that reached it and answers each at most once, whenever it likes. A
reply echoes the sequence number of its command. Every packet carries the number of the call whose
command it answers, which the driver never sees. -/

structure Message where
  call : ℕ
  bytes : Bytes

structure Packet where
  bytes : Bytes
  answers : Option ℕ := none

/-- A packet that ends no command: too short to be read, or an event of another type. -/
structure Event where
  bytes : Bytes
  no_reply : ∀ seq, done seq bytes = false

def Message.seq (m : Message) : BitVec 32 := FIELD_GET MT_MCU_MSG_CMD_SEQ (rd32 m.bytes 0)

/-- The bits of `word` outside of the two fields, and what stands behind them, are free. -/
def Message.reply (m : Message) (word : BitVec 32) (rest : Bytes) : Packet where
  bytes := put_le32 (FIELD_PREP MT_RX_FCE_INFO_CMD_SEQ m.seq |||
    (word &&& ~~~(MT_RX_FCE_INFO_CMD_SEQ ||| MT_RX_FCE_INFO_EVT_TYPE))) ++ rest
  answers := some m.call

inductive Act
  | answer (k : ℕ) (word : BitVec 32) (rest : Bytes)
  | event (e : Event)

/-- What happens up to the end of one read. A fault may take the packet with it. -/
structure Window where
  acts : List Act := []
  fault : Option Bool := none

structure Mcu where
  working : List Message := []
  queue : List Packet := []
  given : Option Packet := none
  /-- The call that is being served. -/
  now : ℕ := 0
  /-- The reads to come, and those that follow the command. -/
  reads : List Window := []
  later : List Window := []
  out_ok : Bool := true
  delivers : Bool := true

namespace Mcu

def act (m : Mcu) : Act → Mcu
  | .answer k word rest =>
    match m.working[k]? with
    | some msg =>
      { m with working := m.working.eraseIdx k, queue := m.queue ++ [msg.reply word rest] }
    | none => m
  | .event e => { m with queue := m.queue ++ [{ bytes := e.bytes }] }

def read (m : Mcu) : Bulk × Mcu :=
  let win := m.reads.headD {}
  let m := Runs.after act { m with reads := m.reads.tail } win.acts
  match win.fault with
  | some loses => (.error, if loses then { m with queue := m.queue.tail } else m)
  | none =>
    match m.queue with
    | [] => (.timeout, m)
    | p :: queue => (.ok p.bytes, { m with queue, given := some p })

/-- A command whose write failed may have reached the MCU all the same. -/
def write (m : Mcu) (bytes : Bytes) : Bool × Mcu :=
  let m := { m with reads := m.later }
  (m.out_ok, if m.out_ok || m.delivers then
    { m with working := m.working ++ [{ call := m.now, bytes }] } else m)

def port : Port Mcu := ⟨read, write⟩

@[simp] theorem port_read (m : Mcu) : port.read m = m.read := rfl

@[simp] theorem port_write (m : Mcu) (bytes : Bytes) : port.write m bytes = m.write bytes := rfl

end Mcu

/-- One call of `mt_mcu_send`, with what the other side does in it. -/
structure Call where
  cmd : BitVec 32
  data : Bytes
  wait_resp : Bool
  drains : List Window := []
  reads : List Window := []
  out_ok : Bool := true
  delivers : Bool := true

abbrev System := Transport × Mcu

/-- The world at the start of a call. -/
def Call.start (c : Call) (m : Mcu) : Mcu :=
  { m with
    given := none
    reads := c.drains
    later := c.reads
    out_ok := c.out_ok
    delivers := c.delivers }

def call (s : System) (c : Call) : ℤ × System :=
  let (rc, d, m) := mt_mcu_send Mcu.port s.1 (c.start s.2) c.cmd c.data c.wait_resp
  (rc, d, { m with now := m.now + 1 })

/-- The system after these calls. -/
def session (cs : List Call) : System := Runs.after (fun s c => (call s c).2) ({}, {}) cs

/-! ## Sequence numbers -/

/-- The sequence number of the `n`-th call that waits. -/
def tag (n : ℕ) : ℕ := if n = 0 then 0 else (n - 1) % 15 + 1

theorem tag_lt (n : ℕ) : tag n < 16 := by
  unfold tag
  split <;> omega

theorem tag_pos {n : ℕ} (h : 0 < n) : 0 < tag n := by
  unfold tag
  split <;> omega

theorem tag_succ (n : ℕ) : tag (n + 1) = if tag n = 15 then 1 else tag n + 1 := by
  unfold tag
  split_ifs <;> omega

/-- Calls with one sequence number are a multiple of 15 apart. -/
theorem dvd_of_tag_eq {m n : ℕ} (hm : 0 < m) (hmn : m ≤ n) (h : tag m = tag n) : 15 ∣ n - m := by
  unfold tag at h
  rw [if_neg (by omega), if_neg (by omega)] at h
  omega

theorem next_seq_eq {s : UInt8} {n : ℕ} (h : s.toNat % 16 = tag n) :
    (next_seq s).1.toNat = tag (n + 1) ∧ (next_seq s).2.toNat % 16 = tag (n + 1) := by
  have hnibble : ∀ x : UInt8, (x &&& 0xf).toNat = x.toNat % 16 := by
    intro x
    rw [UInt8.toNat_and]
    exact Nat.and_two_pow_sub_one_eq_mod x.toNat 4
  have hone : ∀ x : UInt8, (x + 1).toNat % 16 = (x.toNat % 16 + 1) % 16 := by
    intro x
    rw [UInt8.toNat_add]
    change (x.toNat + 1) % 256 % 16 = _
    omega
  have hlt := tag_lt n
  rw [tag_succ]
  unfold next_seq
  by_cases hwrap : tag n = 15
  · have hzero : s + 1 &&& 0xf = 0 := by
      apply UInt8.toNat_inj.mp
      rw [hnibble, hone, h, hwrap]
      rfl
    simp only [hzero, if_true, hnibble, hone, h, hwrap]
    decide
  · have hnext : (s + 1).toNat % 16 = tag n + 1 := by
      rw [hone, h]
      omega
    have hne : s + 1 &&& 0xf ≠ 0 := by
      intro hzero
      have := congrArg UInt8.toNat hzero
      rw [hnibble, hnext] at this
      simp at this
    simpa [hne, hwrap, hnibble] using hnext

/-- A sequence number as it stands in a word. -/
def seq_word (n : ℕ) : BitVec 32 := BitVec.ofNat 32 n

theorem seq_word_inj {m n : ℕ} (hm : m < 16) (hn : n < 16) (h : seq_word m = seq_word n) :
    m = n := by
  have := congrArg BitVec.toNat h
  simp only [seq_word, BitVec.toNat_ofNat] at this
  omega

theorem seq_word_of (s : UInt8) : s.toBitVec.setWidth 32 = seq_word s.toNat := by
  apply BitVec.eq_of_toNat_eq
  simp [seq_word]

theorem get_or (m v w : BitVec 32) : FIELD_GET m (v ||| w) = FIELD_GET m v ||| FIELD_GET m w := by
  unfold FIELD_GET
  rw [BitVec.and_or_distrib_right, BitVec.ushiftRight_or_distrib]

/-- A field shows nothing of the bits outside of it. -/
theorem get_and {m n : BitVec 32} (hmn : n &&& m = 0) (v : BitVec 32) :
    FIELD_GET m (v &&& n) = 0 := by
  unfold FIELD_GET
  rw [BitVec.and_assoc, hmn]
  simp

theorem get_prep {m n : BitVec 32} (hmn : n &&& m = 0) (v : BitVec 32) :
    FIELD_GET m (FIELD_PREP n v) = 0 := get_and hmn _

theorem get_seq_prep {n : ℕ} (h : n < 16) :
    FIELD_GET MT_MCU_MSG_CMD_SEQ (FIELD_PREP MT_MCU_MSG_CMD_SEQ (seq_word n)) = seq_word n := by
  have hall : ∀ n : Fin 16, FIELD_GET MT_MCU_MSG_CMD_SEQ
      (FIELD_PREP MT_MCU_MSG_CMD_SEQ (seq_word n)) = seq_word n := by decide
  exact hall ⟨n, h⟩

/-- The command carries the sequence number that it was given. -/
theorem seq_message (call : ℕ) (cmd : BitVec 32) {seq : UInt8} (h : seq.toNat < 16) (data : Bytes) :
    (Message.mk call (message cmd seq data)).seq = seq_word seq.toNat := by
  have hlen : MT_TXD_INFO_LEN &&& MT_MCU_MSG_CMD_SEQ = 0 := by decide
  have hport : MT_TXD_INFO_DPORT &&& MT_MCU_MSG_CMD_SEQ = 0 := by decide
  have htype : MT_MCU_MSG_CMD_TYPE &&& MT_MCU_MSG_CMD_SEQ = 0 := by decide
  have hcmd : FIELD_GET MT_MCU_MSG_CMD_SEQ MT_MCU_MSG_TYPE_CMD = 0 := by decide
  unfold Message.seq message
  dsimp only
  rw [rd32_put, seq_word_of]
  simp only [get_or, get_prep hlen, get_prep hport, get_prep htype, hcmd, get_seq_prep h]
  simp

/-- A reply ends the command that it answers, and no other. -/
theorem done_reply {m : Message} {n : ℕ} (hn : n < 16) (hm : m.seq = seq_word n)
    (word : BitVec 32) (rest : Bytes) (seq : BitVec 32) :
    done seq (m.reply word rest).bytes = true ↔ seq = seq_word n := by
  have hout : ~~~(MT_RX_FCE_INFO_CMD_SEQ ||| MT_RX_FCE_INFO_EVT_TYPE) &&& MT_RX_FCE_INFO_CMD_SEQ =
      0 := by decide
  have hevt : ~~~(MT_RX_FCE_INFO_CMD_SEQ ||| MT_RX_FCE_INFO_EVT_TYPE) &&& MT_RX_FCE_INFO_EVT_TYPE =
      0 := by decide
  have hapart : MT_RX_FCE_INFO_CMD_SEQ &&& MT_RX_FCE_INFO_EVT_TYPE = 0 := by decide
  have hlen : 4 ≤ (m.reply word rest).bytes.length := by simp [Message.reply]
  have hseq : FIELD_GET MT_RX_FCE_INFO_CMD_SEQ (rd32 (m.reply word rest).bytes 0) = seq_word n := by
    unfold Message.reply
    rw [rd32_put, get_or, get_and hout, hm]
    exact BitVec.or_zero.trans (get_seq_prep hn)
  have hdone : FIELD_GET MT_RX_FCE_INFO_EVT_TYPE (rd32 (m.reply word rest).bytes 0) =
      MT_EVT_CMD_DONE := by
    unfold Message.reply
    rw [rd32_put, get_or, get_and hevt, get_prep hapart]
    rfl
  unfold done
  rw [hseq, hdone]
  simp only [hlen, and_true, true_and, decide_eq_true_eq]
  exact eq_comm

/-! ## What no read changes -/

namespace Mcu

/-- The part of the world that neither an act nor a read touches. -/
def fixed (m : Mcu) : ℕ × List Window × Bool × Bool := (m.now, m.later, m.out_ok, m.delivers)

theorem fixed_act (m : Mcu) (a : Act) : (m.act a).fixed = m.fixed := by
  cases a with
  | answer k word rest => cases hk : m.working[k]? <;> simp [act, hk, fixed]
  | event e => rfl

theorem fixed_acts (m : Mcu) (as : List Act) : (Runs.after act m as).fixed = m.fixed := by
  apply Runs.after_keeps (P := fun m' => m'.fixed = m.fixed) act m rfl
  intro m' a hm
  rw [fixed_act, hm]

theorem fixed_read (m : Mcu) : m.read.2.fixed = m.fixed := by
  have hacts : (Runs.after act { m with reads := m.reads.tail } (m.reads.headD {}).acts).fixed =
      m.fixed := fixed_acts _ _
  unfold read
  dsimp only
  generalize Runs.after act { m with reads := m.reads.tail } (m.reads.headD {}).acts = m' at hacts
  cases (m.reads.headD {}).fault with
  | some loses => cases loses <;> exact hacts
  | none => cases hq : m'.queue <;> exact hacts

end Mcu

/-! ## What a reply may be to -/

/-- Everything that is still to be read answers a call by a sequence number that `R` allows it. -/
structure Held (R : ℕ → ℕ → Prop) (m : Mcu) : Prop where
  working : ∀ msg ∈ m.working, ∃ n < 16, msg.seq = seq_word n ∧ R msg.call n
  queue : ∀ p ∈ m.queue, ∀ seq, done seq p.bytes = true →
    ∃ call n, p.answers = some call ∧ n < 16 ∧ seq = seq_word n ∧ R call n

/-- The packet handed to the driver last answers a call that `R` allows, by this number. -/
def Gave (R : ℕ → ℕ → Prop) (m : Mcu) (seq : BitVec 32) : Prop :=
  ∃ p call n, m.given = some p ∧ p.answers = some call ∧ n < 16 ∧ seq = seq_word n ∧ R call n

section

variable {R : ℕ → ℕ → Prop}

theorem Held.mono {R' : ℕ → ℕ → Prop} {m : Mcu} (h : Held R m) (hR : ∀ c n, R c n → R' c n) :
    Held R' m := by
  refine ⟨?_, ?_⟩
  · intro msg hmsg
    obtain ⟨n, hn, hseq, hr⟩ := h.working msg hmsg
    exact ⟨n, hn, hseq, hR _ _ hr⟩
  · intro p hp seq hdone
    obtain ⟨c, n, hans, hn, hseq, hr⟩ := h.queue p hp seq hdone
    exact ⟨c, n, hans, hn, hseq, hR _ _ hr⟩

theorem held_act (m : Mcu) (a : Act) (h : Held R m) : Held R (m.act a) := by
  cases a with
  | answer k word rest =>
    cases hk : m.working[k]? with
    | none => simpa [Mcu.act, hk] using h
    | some msg =>
      obtain ⟨n, hn, hseq, hr⟩ := h.working msg (List.mem_of_getElem? hk)
      simp only [Mcu.act, hk]
      refine ⟨?_, ?_⟩
      · intro other hother
        exact h.working other (List.mem_of_mem_eraseIdx hother)
      · intro p hp seq hdone
        rcases List.mem_append.mp hp with hp | hp
        · exact h.queue p hp seq hdone
        · obtain rfl := List.mem_singleton.mp hp
          exact ⟨msg.call, n, rfl, hn, (done_reply hn hseq word rest seq).mp hdone, hr⟩
  | event e =>
    refine ⟨h.working, ?_⟩
    intro p hp seq hdone
    rcases List.mem_append.mp hp with hp | hp
    · exact h.queue p hp seq hdone
    · obtain rfl := List.mem_singleton.mp hp
      have hnone := e.no_reply seq
      rw [hdone] at hnone
      cases hnone

theorem held_acts (m : Mcu) (as : List Act) (h : Held R m) : Held R (Runs.after Mcu.act m as) :=
  Runs.after_keeps Mcu.act m h held_act as

/-- A read keeps the rest, and a packet that it gives out was among what was to be read. -/
theorem held_read (m : Mcu) (h : Held R m) : Held R m.read.2 ∧
    ∀ p, m.read.1 = .ok p → ∀ seq, done seq p = true → Gave R m.read.2 seq := by
  unfold Mcu.read
  dsimp only
  have hacts : Held R (Runs.after Mcu.act { m with reads := m.reads.tail }
      (m.reads.headD {}).acts) := held_acts _ _ ⟨h.working, h.queue⟩
  generalize Runs.after Mcu.act { m with reads := m.reads.tail }
    (m.reads.headD {}).acts = m' at hacts
  cases (m.reads.headD {}).fault with
  | some loses =>
    refine ⟨?_, by simp⟩
    cases loses with
    | false => simpa using hacts
    | true =>
      refine ⟨hacts.working, ?_⟩
      intro p hp
      exact hacts.queue p (List.mem_of_mem_tail hp)
  | none =>
    cases hq : m'.queue with
    | nil => simpa using hacts
    | cons p queue =>
      refine ⟨⟨hacts.working, ?_⟩, ?_⟩
      · intro q hmem
        exact hacts.queue q (by rw [hq]; exact List.mem_cons_of_mem p hmem)
      · intro q hgave seq hdone
        obtain rfl : p.bytes = q := by simpa using hgave
        obtain ⟨c, n, hans, hn, hseq, hr⟩ := hacts.queue p (by simp [hq]) seq hdone
        exact ⟨p, c, n, rfl, hans, hn, hseq, hr⟩

theorem held_write (m : Mcu) (bytes : Bytes) (h : Held R m) {n : ℕ} (hn : n < 16)
    (hseq : (Message.mk m.now bytes).seq = seq_word n) (hr : R m.now n) :
    (m.write bytes).2.now = m.now ∧ Held R (m.write bytes).2 := by
  unfold Mcu.write
  dsimp only
  split
  · refine ⟨rfl, ?_, h.queue⟩
    intro msg hmsg
    rcases List.mem_append.mp hmsg with hmsg | hmsg
    · exact h.working msg hmsg
    · obtain rfl := List.mem_singleton.mp hmsg
      exact ⟨n, hn, hseq, hr⟩
  · exact ⟨rfl, h.working, h.queue⟩

/-- The number that the command of this call carries, behind `n` calls that waited. -/
def Call.carries (c : Call) (n : ℕ) : ℕ := if c.wait_resp then tag (n + 1) else 0

/-- One call: its number, what is still to be read behind it, and the reply that it took. -/
theorem call_spec {s : System} {c : Call} {n : ℕ} (hlen : c.data.length ≤ MCU_MSG_MAX)
    (hseq : s.1.mcu_seq.toNat % 16 = tag n) (hheld : Held R s.2) (hr : R s.2.now (c.carries n)) :
    ((call s c).2.1.mcu_seq.toNat % 16 = tag (if c.wait_resp then n + 1 else n)) ∧
      (call s c).2.2.now = s.2.now + 1 ∧ Held R (call s c).2.2 ∧
      (c.wait_resp = true → (call s c).1 = 0 →
        Gave R (call s c).2.2 (seq_word (tag (n + 1)))) := by
  have hread : ∀ m : Mcu, m.now = s.2.now ∧ Held R m →
      (Mcu.port.read m).2.now = s.2.now ∧ Held R (Mcu.port.read m).2 := by
    rintro m ⟨hnow, hm⟩
    exact ⟨(congrArg Prod.fst m.fixed_read).trans hnow, (held_read m hm).1⟩
  obtain ⟨⟨hnow, hdrained⟩, hkeep⟩ := drained_keeps Mcu.port hread s.1 (w := c.start s.2)
    ⟨rfl, hheld.working, hheld.queue⟩
  unfold call mt_mcu_send
  rw [if_neg (by omega)]
  generalize drained Mcu.port s.1 (c.start s.2) = x at hnow hdrained hkeep ⊢
  obtain ⟨d, m⟩ := x
  dsimp only at hnow hdrained hkeep ⊢
  rw [← hkeep] at hseq
  rw [← hnow] at hr
  cases hwait : c.wait_resp with
  | false =>
    rw [Call.carries, hwait, if_neg Bool.false_ne_true] at hr
    obtain ⟨hnow', hwritten⟩ := held_write m (message c.cmd 0 c.data) hdrained (by decide)
      (seq_message m.now c.cmd (by decide) c.data) hr
    simp only [Bool.false_eq_true, if_false, false_implies, and_true, Mcu.port_write]
    rcases hw : m.write (message c.cmd 0 c.data) with ⟨ok, m'⟩
    rw [hw] at hwritten hnow'
    cases ok with
    | false => exact ⟨hseq, congrArg (· + 1) (hnow'.trans hnow), hwritten.working, hwritten.queue⟩
    | true => exact ⟨hseq, congrArg (· + 1) (hnow'.trans hnow), hwritten.working, hwritten.queue⟩
  | true =>
    rw [Call.carries, hwait, if_pos rfl] at hr
    obtain ⟨hnext, hlow⟩ := next_seq_eq hseq
    generalize next_seq d.mcu_seq = x at hnext hlow ⊢
    obtain ⟨seq, mcu_seq⟩ := x
    dsimp only at hnext hlow
    rw [← hnext] at hr
    have hlt : seq.toNat < 16 := by rw [hnext]; exact tag_lt _
    obtain ⟨hnow', hwritten⟩ := held_write m (message c.cmd seq c.data) hdrained hlt
      (seq_message m.now c.cmd hlt c.data) hr
    simp only [if_true, true_implies, Mcu.port_write]
    rcases hw : m.write (message c.cmd seq c.data) with ⟨ok, m'⟩
    rw [hw] at hwritten hnow'
    have hfirst : m'.now = s.2.now := hnow'.trans hnow
    cases ok with
    | false => exact ⟨hlow, congrArg (· + 1) hfirst, ⟨hwritten.working, hwritten.queue⟩, by simp⟩
    | true =>
      obtain ⟨⟨hlast, hrest⟩, htook⟩ := wait_keeps Mcu.port hread (seq.toBitVec.setWidth 32) 10
        ⟨hfirst, hwritten⟩
      simp only [Bool.not_true, Bool.false_eq_true, if_false, mcu_wait_resp]
      generalize wait_loop Mcu.port (seq.toBitVec.setWidth 32) 10 m' = x at hlast hrest htook ⊢
      obtain ⟨answered, m''⟩ := x
      cases answered with
      | false => exact ⟨hlow, congrArg (· + 1) hlast, ⟨hrest.working, hrest.queue⟩, by simp⟩
      | true =>
        refine ⟨hlow, congrArg (· + 1) hlast, ⟨hrest.working, hrest.queue⟩, ?_⟩
        intro _
        obtain ⟨w, p, ⟨-, hw⟩, htaken, hdone⟩ := htook rfl
        have hgave := (held_read w hw).2 p (congrArg Prod.fst htaken) _ hdone
        rw [seq_word_of, hnext] at hgave
        rw [show w.read.2 = m'' from congrArg Prod.snd htaken] at hgave
        exact hgave

/-- A command that is too long leaves everything but the clock of the calls. -/
theorem call_long {s : System} {c : Call} (hlen : MCU_MSG_MAX < c.data.length) :
    (call s c).1 = -1 ∧ (call s c).2.1 = s.1 ∧ (call s c).2.2.now = s.2.now + 1 ∧
      (Held R s.2 → Held R (call s c).2.2) := by
  unfold call mt_mcu_send
  rw [if_pos hlen]
  exact ⟨rfl, rfl, rfl, fun h => ⟨h.working, h.queue⟩⟩

end

/-! ## Whole runs -/

/-- A call that takes a sequence number. -/
def Call.counts (c : Call) : Bool := c.wait_resp && c.data.length ≤ MCU_MSG_MAX

/-- How many of these calls took a sequence number. -/
def waits (cs : List Call) : ℕ := cs.countP Call.counts

/-- The sequence number of the `i`-th call, 0 for one that waits for no reply. -/
def seq_of (cs : List Call) (i : ℕ) : ℕ :=
  if (cs[i]?.map Call.counts).getD false then tag (waits (cs.take (i + 1))) else 0

/-- A command of the `i`-th call is with the MCU, or its reply waits to be read. -/
def Mcu.Outstanding (m : Mcu) (i : ℕ) : Prop :=
  (∃ msg ∈ m.working, msg.call = i) ∨ ∃ p ∈ m.queue, p.answers = some i

theorem waits_snoc (cs : List Call) (c : Call) :
    waits (cs ++ [c]) = waits cs + if c.counts then 1 else 0 := by
  simp [waits, List.countP_append, List.countP_singleton]

theorem seq_of_snoc {cs : List Call} {i : ℕ} (h : i < cs.length) (c : Call) :
    seq_of (cs ++ [c]) i = seq_of cs i := by
  unfold seq_of
  rw [List.getElem?_append_left h, List.take_append_of_le_length (by omega)]

theorem seq_of_last (cs : List Call) (c : Call) :
    seq_of (cs ++ [c]) cs.length = if c.counts then tag (waits cs + 1) else 0 := by
  have hwhole : (cs ++ [c]).take (cs.length + 1) = cs ++ [c] := by
    apply List.take_of_length_le
    simp
  unfold seq_of
  rw [hwhole, waits_snoc]
  cases hc : c.counts <;> simp [hc]

/-- The number last taken, the clock, and what is still to be read. -/
structure Sound (cs : List Call) (s : System) : Prop where
  seq : s.1.mcu_seq.toNat % 16 = tag (waits cs)
  now : s.2.now = cs.length
  held : Held (fun i n => i < cs.length ∧ n = seq_of cs i) s.2

theorem sound_call {cs : List Call} {s : System} (h : Sound cs s) (c : Call) :
    Sound (cs ++ [c]) (call s c).2 := by
  have hheld : Held (fun i n => i < (cs ++ [c]).length ∧ n = seq_of (cs ++ [c]) i) s.2 := by
    apply h.held.mono
    rintro i n ⟨hi, rfl⟩
    refine ⟨?_, (seq_of_snoc hi c).symm⟩
    rw [List.length_append]
    omega
  rcases Nat.lt_or_ge MCU_MSG_MAX c.data.length with hlong | hlen
  · have hnot : c.counts = false := by simp [Call.counts, hlong]
    obtain ⟨-, hsame, hnow, hkept⟩ := call_long (s := s) hlong
    refine ⟨?_, ?_, hkept hheld⟩
    · rw [hsame, h.seq, waits_snoc, hnot]
      simp
    · rw [hnow, h.now, List.length_append, List.length_singleton]
  · have hcounts : c.counts = c.wait_resp := by simp [Call.counts, hlen]
    have hcarry : s.2.now < (cs ++ [c]).length ∧
        c.carries (waits cs) = seq_of (cs ++ [c]) s.2.now := by
      rw [h.now, seq_of_last, hcounts]
      refine ⟨?_, rfl⟩
      rw [List.length_append, List.length_singleton]
      omega
    obtain ⟨hseq, hnow, hrest, -⟩ := call_spec hlen h.seq hheld hcarry
    refine ⟨?_, ?_, hrest⟩
    · rw [hseq, waits_snoc, hcounts]
      cases c.wait_resp <;> rfl
    · rw [hnow, h.now, List.length_append, List.length_singleton]

theorem session_snoc (cs : List Call) (c : Call) :
    session (cs ++ [c]) = (call (session cs) c).2 := Runs.after_snoc _ _ _ _

theorem sound_session (cs : List Call) : Sound cs (session cs) := by
  induction cs using List.reverseRecOn with
  | nil => exact ⟨rfl, rfl, by simp [session], by simp [session]⟩
  | append_singleton cs c ih =>
    rw [session_snoc]
    exact sound_call ih c

/-- A waiting call that returns 0 took its own reply, or one that was outstanding since a call
whose number in the sequence of the waiting calls is less by a multiple of 15. -/
theorem success_attributed (cs : List Call) (c : Call) (hwait : c.wait_resp = true)
    (hok : (call (session cs) c).1 = 0) :
    ∃ p i, (session (cs ++ [c])).2.given = some p ∧ p.answers = some i ∧
      (i = cs.length ∨
        ((session cs).2.Outstanding i ∧ seq_of cs i ≠ 0 ∧
          waits (cs.take (i + 1)) < waits (cs ++ [c]) ∧
          15 ∣ waits (cs ++ [c]) - waits (cs.take (i + 1)))) := by
  have hsound := sound_session cs
  have hlen : c.data.length ≤ MCU_MSG_MAX := by
    by_contra hlong
    rw [(call_long (R := fun _ _ => True) (by omega)).1] at hok
    cases hok
  have hcounts : c.counts = true := by simp [Call.counts, hlen, hwait]
  -- what may come is narrowed to what is outstanding now and the command of this call
  have hheld : Held (fun i n => ((session cs).2.Outstanding i ∧ i < cs.length ∧ n = seq_of cs i) ∨
      (i = cs.length ∧ n = tag (waits cs + 1))) (session cs).2 := by
    refine ⟨?_, ?_⟩
    · intro msg hmsg
      obtain ⟨n, hn, hseq, hi⟩ := hsound.held.working msg hmsg
      exact ⟨n, hn, hseq, Or.inl ⟨Or.inl ⟨msg, hmsg, rfl⟩, hi⟩⟩
    · intro p hp seq hdone
      obtain ⟨i, n, hans, hn, hseq, hi⟩ := hsound.held.queue p hp seq hdone
      exact ⟨i, n, hans, hn, hseq, Or.inl ⟨Or.inr ⟨p, hp, hans⟩, hi⟩⟩
  have hcarry : c.carries (waits cs) = tag (waits cs + 1) := by simp [Call.carries, hwait]
  obtain ⟨-, -, -, htook⟩ := call_spec hlen hsound.seq hheld
    (Or.inr ⟨hsound.now, hcarry⟩)
  obtain ⟨p, i, n, hgiven, hans, hn, hseq, hwhose⟩ := htook hwait hok
  have htag : tag (waits cs + 1) = n := seq_word_inj (tag_lt _) hn hseq
  rw [session_snoc]
  refine ⟨p, i, hgiven, hans, ?_⟩
  rcases hwhose with ⟨hout, hi, hof⟩ | ⟨hown, -⟩
  · right
    have hpos : 0 < tag (waits cs + 1) := tag_pos (Nat.succ_pos _)
    have hne : seq_of cs i ≠ 0 := by omega
    have hold : tag (waits (cs.take (i + 1))) = tag (waits cs + 1) := by
      rw [htag, hof]
      unfold seq_of at hne ⊢
      split at hne
      · rw [if_pos ‹_›]
      · exact absurd rfl hne
    have hle : waits (cs.take (i + 1)) ≤ waits cs := by
      exact (List.take_sublist _ _).countP_le
    have hsome : 0 < waits (cs.take (i + 1)) := by
      by_contra hzero
      rw [show waits (cs.take (i + 1)) = 0 by omega] at hold
      have : tag 0 = 0 := rfl
      omega
    rw [waits_snoc, hcounts, if_pos rfl]
    exact ⟨hout, hne, by omega, dvd_of_tag_eq hsome (by omega) hold⟩
  · exact Or.inl hown

/-- A calibration, in which the oldest command is answered. -/
def calibrate : Call where
  cmd := 31
  data := List.replicate 8 0
  wait_resp := true
  reads := [{ acts := [.answer 0 0 []] }]

/-- A calibration that nobody answers, and fourteen behind it that are answered. -/
def one_late : List Call :=
  { calibrate with reads := [] } ::
    List.replicate 14 { calibrate with reads := [{ acts := [.answer 1 0 []] }] }

/-- The sixteenth takes the reply to the first. -/
theorem calibrate_attributed :
    (session (one_late ++ [calibrate])).2.given.bind (·.answers) = some 0 ∧
      ∃ p i, (session (one_late ++ [calibrate])).2.given = some p ∧ p.answers = some i ∧
        (i = one_late.length ∨ ((session one_late).2.Outstanding i ∧ seq_of one_late i ≠ 0 ∧
          waits (one_late.take (i + 1)) < waits (one_late ++ [calibrate]) ∧
          15 ∣ waits (one_late ++ [calibrate]) - waits (one_late.take (i + 1)))) :=
  ⟨by decide +kernel, success_attributed one_late calibrate rfl (by decide +kernel)⟩

/-! ## The channel comes back -/

namespace Mcu

variable {m : Mcu}

theorem read_empty (hquiet : m.reads.headD {} = {}) (hq : m.queue = []) :
    m.read = (.timeout, { m with reads := m.reads.tail }) := by
  unfold read
  rw [hquiet]
  simp [hq]

theorem read_front (hquiet : m.reads.headD {} = {}) {p : Packet} {queue : List Packet}
    (hq : m.queue = p :: queue) :
    m.read = (.ok p.bytes, { m with reads := m.reads.tail, queue, given := some p }) := by
  unfold read
  rw [hquiet]
  simp [hq]

/-- A read in which one command is answered gives the front of the queue with its reply behind. -/
theorem read_answer {k : ℕ} {msg : Message} {word : BitVec 32} {rest : Bytes} {later : List Window}
    (hreads : m.reads = { acts := [.answer k word rest] } :: later) (hk : m.working[k]? = some msg)
    {p : Packet} {queue : List Packet} (hq : m.queue ++ [msg.reply word rest] = p :: queue) :
    m.read = (.ok p.bytes,
      { m with reads := later, working := m.working.eraseIdx k, queue, given := some p }) := by
  simp [read, hreads, act, hk, hq]

end Mcu

/-- A read in which nothing happens. -/
def quiet : Window := {}

/-- Where nothing happens, the drain takes the whole queue and then times out. -/
theorem drain_quiet {n : ℕ} {m : Mcu} (hreads : m.reads = [])
    (hwhole : ∀ p ∈ m.queue, 4 ≤ p.bytes.length) (hfew : m.queue.length < n) : ∃ given,
      drain_loop Mcu.port n m = (true, { m with queue := [], given }) := by
  have hquiet : m.reads.headD {} = {} := by rw [hreads]; rfl
  induction n generalizing m with
  | zero => omega
  | succ n ih =>
    unfold drain_loop
    rw [Mcu.port_read]
    rcases hq : m.queue with _ | ⟨p, queue⟩
    · rw [Mcu.read_empty hquiet hq]
      refine ⟨m.given, ?_⟩
      simp [hreads, ← hq]
    · rw [Mcu.read_front hquiet hq]
      have hp := hwhole p (by simp [hq])
      rw [hq, List.length_cons] at hfew
      obtain ⟨given, hrest⟩ := ih
        (m := { m with reads := m.reads.tail, queue, given := some p })
        (by simp [hreads]) (fun q hmem => hwhole q (by simp [hq, hmem])) (by simpa using hfew)
        (by simp [hreads])
      refine ⟨given, ?_⟩
      dsimp only
      rw [if_neg (by omega), hrest]
      simp [hreads]

/-- What a wait of `n` reads makes of packets that nobody waits for, with the reply behind them. -/
def Waited (stale : List Packet) (own : Packet) (n : ℕ) (x : Bool × Mcu) : Prop :=
  if stale.length < n then x.1 = true ∧ x.2.queue = [] ∧ x.2.given = some own
  else x.1 = false ∧ x.2.queue = stale.drop n ++ [own]

theorem waited_cons {p : Packet} {stale : List Packet} {own : Packet} {n : ℕ} {x : Bool × Mcu}
    (h : Waited stale own n x) : Waited (p :: stale) own (n + 1) x := by
  unfold Waited at h ⊢
  simpa using h

section

variable {t : ℕ} {stale : List Packet} {own : Packet}

/-- The reply stands in the queue. -/
theorem wait_landed (hstale : ∀ p ∈ stale, done (seq_word t) p.bytes = false)
    (hown : done (seq_word t) own.bytes = true) {n : ℕ} {m : Mcu} (hreads : m.reads = [])
    (hq : m.queue = stale ++ [own]) :
    let x := wait_loop Mcu.port (seq_word t) n m
    x.2.working = m.working ∧ Waited stale own n x := by
  have hquiet : m.reads.headD {} = {} := by rw [hreads]; rfl
  induction n generalizing m stale with
  | zero =>
    refine ⟨rfl, ?_⟩
    simp [Waited, wait_loop, hq]
  | succ n ih =>
    unfold wait_loop
    dsimp only
    rw [Mcu.port_read]
    cases stale with
    | nil =>
      rw [Mcu.read_front hquiet hq]
      simp [Waited, hown]
    | cons p stale =>
      rw [Mcu.read_front hquiet hq]
      have hp := hstale p (by simp)
      simp only [hp, Bool.false_eq_true, if_false]
      obtain ⟨hworking, hwaited⟩ :=
        ih (m := { m with reads := m.reads.tail, queue := stale ++ [own], given := some p })
        (fun q hmem => hstale q (by simp [hmem])) (by simp [hreads]) rfl (by simp [hreads])
      exact ⟨hworking, waited_cons hwaited⟩

/-- The reply comes within the reads that are left. -/
theorem wait_prompt (ht : t < 16) (hstale : ∀ p ∈ stale, done (seq_word t) p.bytes = false)
    {k : ℕ} {msg : Message} (hmsg : msg.seq = seq_word t) (word : BitVec 32) (rest : Bytes)
    {j n : ℕ} (hj : j < n) {m : Mcu}
    (hreads : m.reads = List.replicate j quiet ++ [{ acts := [.answer k word rest] }])
    (hk : m.working[k]? = some msg) (hq : m.queue = stale) :
    let x := wait_loop Mcu.port (seq_word t) n m
    x.2.working = m.working.eraseIdx k ∧ Waited stale (msg.reply word rest) n x := by
  have hown := (done_reply ht hmsg word rest (seq_word t)).mpr rfl
  induction j generalizing m n stale with
  | zero =>
    obtain ⟨n, rfl⟩ := Nat.exists_eq_add_of_lt hj
    rw [Nat.zero_add]
    unfold wait_loop
    dsimp only
    rw [Mcu.port_read]
    have hhead : m.reads = { acts := [.answer k word rest] } :: [] := by simpa using hreads
    cases stale with
    | nil =>
      rw [Mcu.read_answer hhead hk (by rw [hq]; rfl)]
      simp [Waited, hown]
    | cons p stale =>
      rw [Mcu.read_answer hhead hk (by rw [hq]; rfl)]
      have hp := hstale p (by simp)
      simp only [hp, Bool.false_eq_true, if_false]
      obtain ⟨hworking, hwaited⟩ := wait_landed (m := { m with
          reads := [], working := m.working.eraseIdx k
          queue := stale ++ [msg.reply word rest], given := some p }) (n := n)
        (fun q hmem => hstale q (by simp [hmem])) hown rfl rfl
      exact ⟨hworking, waited_cons hwaited⟩
  | succ j ih =>
    obtain ⟨n, rfl⟩ : ∃ n', n = n' + 1 := ⟨n - 1, by omega⟩
    have hquiet : m.reads.headD {} = {} := by simp [hreads, List.replicate_succ, quiet]
    have htail : m.reads.tail = List.replicate j quiet ++ [{ acts := [.answer k word rest] }] := by
      simp [hreads, List.replicate_succ]
    unfold wait_loop
    dsimp only
    rw [Mcu.port_read]
    cases stale with
    | nil =>
      rw [Mcu.read_empty hquiet hq]
      obtain ⟨hworking, hwaited⟩ := ih (m := { m with reads := m.reads.tail }) (n := n) (by simp)
        (by omega) htail hk hq
      refine ⟨hworking, ?_⟩
      unfold Waited at hwaited ⊢
      rw [List.length_nil, if_pos (by omega)] at hwaited ⊢
      exact hwaited
    | cons p stale =>
      rw [Mcu.read_front hquiet hq]
      have hp := hstale p (by simp)
      simp only [hp, Bool.false_eq_true, if_false]
      obtain ⟨hworking, hwaited⟩ := ih
        (m := { m with reads := m.reads.tail, queue := stale, given := some p }) (n := n)
        (fun q hmem => hstale q (by simp [hmem])) (by omega) htail hk rfl
      exact ⟨hworking, waited_cons hwaited⟩

end

/-- A waiting call whose command goes through and is answered within its ten reads, where nothing
else happens. `k` commands are with the MCU that it never answers. -/
structure Prompt (c : Call) (k : ℕ) : Prop where
  waits : c.wait_resp = true
  short : c.data.length ≤ MCU_MSG_MAX
  sent : c.out_ok = true
  drains : c.drains = []
  reads : ∃ j < 10, ∃ word rest,
    c.reads = List.replicate j quiet ++ [{ acts := [.answer k word rest] }]

/-- What is left in front of the reply once the drain was made, where it is. -/
def Stale (s : System) : List Packet := if s.1.mcu_stale_pending then [] else s.2.queue

/-- A prompt call takes its reply, unless ten stale ones stand in front of it. Then it arms the
drain, and leaves those behind the tenth. -/
theorem call_prompt {s : System} {c : Call} {n : ℕ} (hprompt : Prompt c s.2.working.length)
    (hseq : s.1.mcu_seq.toNat % 16 = tag n)
    (hwhole : s.1.mcu_stale_pending = true →
      (∀ p ∈ s.2.queue, 4 ≤ p.bytes.length) ∧ s.2.queue.length < 64)
    (hstale : ∀ p ∈ Stale s, done (seq_word (tag (n + 1))) p.bytes = false) :
    (call s c).2.1.mcu_seq.toNat % 16 = tag (n + 1) ∧ (call s c).2.2.working = s.2.working ∧
      ∃ own : Packet, own.answers = some s.2.now ∧ 4 ≤ own.bytes.length ∧
        if (Stale s).length < 10 then
          (call s c).1 = 0 ∧ (call s c).2.1.mcu_stale_pending = false ∧
            (call s c).2.2.queue = [] ∧ (call s c).2.2.given = some own
        else (call s c).1 = -1 ∧ (call s c).2.1.mcu_stale_pending = true ∧
          (call s c).2.2.queue = (Stale s).drop 10 ++ [own] := by
  -- the drain leaves what is stale, in front of an empty script
  obtain ⟨d, m, hdrained, hd, hclear, hm⟩ : ∃ d m,
      drained Mcu.port s.1 (c.start s.2) = (d, m) ∧ d.mcu_seq = s.1.mcu_seq ∧
      d.mcu_stale_pending = false ∧
      ∃ given, m = { c.start s.2 with queue := Stale s, given } := by
    unfold drained Stale
    cases hpend : s.1.mcu_stale_pending with
    | false =>
      refine ⟨s.1, c.start s.2, rfl, rfl, hpend, none, rfl⟩
    | true =>
      obtain ⟨hlong, hfew⟩ := hwhole hpend
      obtain ⟨given, hloop⟩ := drain_quiet (n := 64) (m := c.start s.2) hprompt.drains hlong hfew
      rw [if_pos rfl, hloop]
      exact ⟨_, _, rfl, rfl, rfl, given, rfl⟩
  obtain ⟨given, hm⟩ := hm
  obtain ⟨j, hj, word, rest, hreads⟩ := hprompt.reads
  rw [← hd] at hseq
  obtain ⟨hnext, hlow⟩ := next_seq_eq hseq
  unfold call mt_mcu_send
  have hshort := hprompt.short
  rw [if_neg (by omega), hdrained, hprompt.waits]
  simp only [if_true, Mcu.port_write]
  generalize next_seq d.mcu_seq = x at hnext hlow ⊢
  obtain ⟨seq, mcu_seq⟩ := x
  dsimp only at hnext hlow ⊢
  have hlt : seq.toNat < 16 := by rw [hnext]; exact tag_lt _
  -- the command is with the MCU
  let msg : Message := { call := s.2.now, bytes := message c.cmd seq c.data }
  have hwrite : m.write (message c.cmd seq c.data) = (true, { m with
      reads := c.reads, working := m.working ++ [msg] }) := by
    simp [Mcu.write, hm, Call.start, hprompt.sent, msg]
  have hmsg : msg.seq = seq_word (tag (n + 1)) := by
    rw [← hnext]
    exact seq_message s.2.now c.cmd hlt c.data
  have hworking : m.working = s.2.working := by simp [hm, Call.start]
  rw [hwrite]
  simp only [Bool.not_true, Bool.false_eq_true, if_false, mcu_wait_resp]
  rw [seq_word_of, hnext]
  obtain ⟨hleft, hwaited⟩ := wait_prompt (tag_lt (n + 1)) hstale hmsg word rest hj
    (m := { m with reads := c.reads, working := m.working ++ [msg] }) hreads
    (by simp [hworking]) (by simp [hm])
  have hback : (m.working ++ [msg]).eraseIdx s.2.working.length = s.2.working := by
    rw [hworking, List.eraseIdx_append_of_length_le (by omega)]
    simp
  generalize wait_loop Mcu.port (seq_word (tag (n + 1))) 10
    { m with reads := c.reads, working := m.working ++ [msg] } = x at hleft hwaited ⊢
  obtain ⟨answered, m'⟩ := x
  dsimp only at hleft hwaited ⊢
  rw [hback] at hleft
  unfold Waited at hwaited
  split at hwaited
  · next hfew =>
    obtain ⟨rfl, hqueue, hgiven⟩ := hwaited
    refine ⟨hlow, hleft, msg.reply word rest, rfl, ?_, ?_⟩
    · simp [Message.reply]
    · rw [if_pos hfew]
      exact ⟨rfl, hclear, hqueue, hgiven⟩
  · next hmany =>
    obtain ⟨rfl, hqueue⟩ := hwaited
    refine ⟨hlow, hleft, msg.reply word rest, rfl, ?_, ?_⟩
    · simp [Message.reply]
    · rw [if_neg hmany]
      exact ⟨rfl, rfl, hqueue⟩

/-- The MCU has caught up: what it will ever answer stands in the queue, in whole packets, fewer
than the drain takes, and none of them is to a call that 13 waiting ones came behind. -/
structure CaughtUp (cs : List Call) : Prop where
  whole : ∀ p ∈ (session cs).2.queue, 4 ≤ p.bytes.length
  few : (session cs).2.queue.length < 64
  recent : ∀ p ∈ (session cs).2.queue, ∀ i, p.answers = some i → seq_of cs i ≠ 0 →
    waits cs < waits (cs.take (i + 1)) + 13

/-- Nothing in the queue passes for a reply to one of the next two waiting calls. -/
theorem stale_of_caughtUp {cs : List Call} (h : CaughtUp cs) {d : ℕ} (hd : d = 1 ∨ d = 2) :
    ∀ p ∈ (session cs).2.queue, done (seq_word (tag (waits cs + d))) p.bytes = false := by
  intro p hp
  by_contra hdone
  rw [Bool.not_eq_false] at hdone
  obtain ⟨i, n, hans, hn, hseq, hi, hof⟩ := (sound_session cs).held.queue p hp _ hdone
  have htag : tag (waits cs + d) = n := seq_word_inj (tag_lt _) hn hseq
  have hpos : 0 < tag (waits cs + d) := tag_pos (by omega)
  have hne : seq_of cs i ≠ 0 := by omega
  have hrecent := h.recent p hp i hans hne
  have hle : waits (cs.take (i + 1)) ≤ waits cs := (List.take_sublist _ _).countP_le
  have hsame : tag (waits (cs.take (i + 1))) = tag (waits cs + d) := by
    rw [htag, hof]
    unfold seq_of at hne ⊢
    split at hne
    · rw [if_pos ‹_›]
    · exact absurd rfl hne
  have hsome : 0 < waits (cs.take (i + 1)) := by
    by_contra hzero
    rw [show waits (cs.take (i + 1)) = 0 by omega] at hsame
    have : tag 0 = 0 := rfl
    omega
  have hdvd := dvd_of_tag_eq hsome (by omega) hsame
  omega

/-- After any run, once the MCU has caught up, the second of two calls that it answers in time takes
its own reply and leaves the channel clean. The first does so too, unless ten stale replies wait
and the drain is not armed. -/
theorem resyncs (cs : List Call) (c₁ c₂ : Call) (h : CaughtUp cs)
    (h₁ : Prompt c₁ (session cs).2.working.length) (h₂ : Prompt c₂ (session cs).2.working.length) :
    ((call (session cs) c₁).1 = 0 ↔
      (session cs).1.mcu_stale_pending = true ∨ (session cs).2.queue.length < 10) ∧
    (call (session (cs ++ [c₁])) c₂).1 = 0 ∧
    (session (cs ++ [c₁, c₂])).1.mcu_stale_pending = false ∧
    (session (cs ++ [c₁, c₂])).2.queue = [] ∧
    ∃ p, (session (cs ++ [c₁, c₂])).2.given = some p ∧ p.answers = some (cs.length + 1) := by
  have hsound := sound_session cs
  have hnow : (session (cs ++ [c₁])).2.now = cs.length + 1 := by
    rw [(sound_session _).now, List.length_append, List.length_singleton]
  have hsub : ∀ p ∈ Stale (session cs), p ∈ (session cs).2.queue := by
    intro p hp
    unfold Stale at hp
    split at hp
    · cases hp
    · exact hp
  obtain ⟨hseq, hworking, own, -, hlong, hout⟩ := call_prompt h₁ hsound.seq
    (fun _ => ⟨h.whole, h.few⟩)
    (fun p hp => stale_of_caughtUp h (Or.inl rfl) p (hsub p hp))
  have htwo : session (cs ++ [c₁, c₂]) = (call (session (cs ++ [c₁])) c₂).2 := by
    rw [← session_snoc, List.append_assoc]
    rfl
  rw [htwo]
  rw [← session_snoc] at hseq hworking hout
  rw [← hworking] at h₂
  -- the second call finds the queue empty, or the drain armed
  have hsecond : ∀ (hclean : Stale (session (cs ++ [c₁])) = [])
      (_ : (session (cs ++ [c₁])).1.mcu_stale_pending = true →
        (∀ p ∈ (session (cs ++ [c₁])).2.queue, 4 ≤ p.bytes.length) ∧
          (session (cs ++ [c₁])).2.queue.length < 64),
      (call (session (cs ++ [c₁])) c₂).1 = 0 ∧
        (call (session (cs ++ [c₁])) c₂).2.1.mcu_stale_pending = false ∧
        (call (session (cs ++ [c₁])) c₂).2.2.queue = [] ∧
        ∃ p, (call (session (cs ++ [c₁])) c₂).2.2.given = some p ∧
          p.answers = some (cs.length + 1) := by
    intro hclean hwhole
    obtain ⟨-, -, own', hans, -, hlast⟩ := call_prompt h₂ hseq hwhole (by simp [hclean])
    rw [hclean, List.length_nil, if_pos (by decide)] at hlast
    obtain ⟨hrc, hclear, hqueue, hgiven⟩ := hlast
    rw [hnow] at hans
    exact ⟨hrc, hclear, hqueue, own', hgiven, hans⟩
  have hfirst : (Stale (session cs)).length < 10 ↔
      (session cs).1.mcu_stale_pending = true ∨ (session cs).2.queue.length < 10 := by
    unfold Stale
    cases (session cs).1.mcu_stale_pending <;> simp
  rw [← hfirst]
  by_cases hlt : (Stale (session cs)).length < 10
  · rw [if_pos hlt] at hout
    obtain ⟨hrc, hclear, hqueue, -⟩ := hout
    refine ⟨iff_of_true hrc hlt, hsecond ?_ ?_⟩
    · simp [Stale, hclear, hqueue]
    · simp [hclear]
  · rw [if_neg hlt] at hout
    obtain ⟨hrc, harmed, hqueue⟩ := hout
    refine ⟨iff_of_false (by rw [hrc]; decide) hlt, hsecond ?_ ?_⟩
    · simp [Stale, harmed]
    · intro _
      rw [hqueue]
      refine ⟨?_, ?_⟩
      · intro p hp
        rcases List.mem_append.mp hp with hp | hp
        · exact h.whole p (hsub p (List.mem_of_mem_drop hp))
        · rw [List.mem_singleton.mp hp]
          exact hlong
      · have hfew : (Stale (session cs)).length ≤ (session cs).2.queue.length := by
          unfold Stale
          split
          · simp
          · exact le_rfl
        have := h.few
        rw [List.length_append, List.length_drop, List.length_singleton]
        omega

/-- A packet of no bytes. -/
def short_packet : Event where
  bytes := []
  no_reply := by simp [done]

/-- A calibration whose reply comes with the last of its reads, behind a short packet. -/
def overrun : Call where
  cmd := 31
  data := List.replicate 8 0
  wait_resp := true
  reads := List.replicate 9 quiet ++ [{ acts := [.event short_packet, .answer 0 0 []] }]

theorem calibrate_prompt : Prompt calibrate 0 := by
  refine ⟨rfl, ?_, rfl, rfl, 0, by omega, 0, [], rfl⟩
  decide

theorem overrun_resyncs :
    ((call (session [overrun]) calibrate).1 = 0 ↔ (session [overrun]).1.mcu_stale_pending = true ∨
      (session [overrun]).2.queue.length < 10) ∧
    (call (session ([overrun] ++ [calibrate])) calibrate).1 = 0 ∧
    (session ([overrun] ++ [calibrate, calibrate])).1.mcu_stale_pending = false ∧
    (session ([overrun] ++ [calibrate, calibrate])).2.queue = [] ∧
    ∃ p, (session ([overrun] ++ [calibrate, calibrate])).2.given = some p ∧
      p.answers = some 2 := by
  have hqueue : (session [overrun]).2.queue = [{ bytes := [0, 0, 1, 0], answers := some 0 }] := by
    rfl
  refine resyncs [overrun] calibrate calibrate ⟨?_, ?_, ?_⟩ calibrate_prompt calibrate_prompt
  · simp [hqueue]
  · simp [hqueue]
  · intro p hp i hans _
    have hlt : waits [overrun] = 1 := by decide
    omega

end devourer.mt7612u.mcu
