-- The station client around the state machine: one received MPDU up to the
-- host, one Ethernet frame of the host down to the air, and the keys, packet
-- numbers and windows that belong to each.
import Devourer.Sta.CcmpFields
import Devourer.Sta.CcmpReplay
import Devourer.Sta.StationSm

namespace devourer.sta

/-! ## The client -/

/-- The counters of the two books that the client prints. -/
structure Ledger where
  g_tap_rx : UInt64 := 0
  g_tap_down_drop : UInt64 := 0
  g_tx_enc : UInt64 := 0
  g_tx_plain : UInt64 := 0
  g_q_in : UInt64 := 0
  g_q_drop : UInt64 := 0
  g_sent : UInt64 := 0
  g_send_fail : UInt64 := 0
  deriving DecidableEq

/-- The globals of the data plane. The first six are set before the first frame. -/
structure StaClient where
  g_crypto : CryptoOps
  g_own : Mac
  g_ssid : Bytes
  g_chan : UInt8
  g_rt : Bytes
  g_rt_ack : Bytes
  g_sm : StationSm
  g_data_seq : SeqCounter := {}
  g_q : List Bytes := []
  g_tx_pn : UInt64 := 1
  g_rx_replay : CcmpReplay := {}
  g_rx_dup : DupDetector := {}
  g_group_replay : CcmpReplay := {}
  g_ptk_gen_seen : UInt32 := 0
  g_gtk_gen_seen : UInt32 := 0
  ledger : Ledger := {}

/-- A frame that `ccmp_decrypt` opened and whose number its window took: the generation noted
for the key, and what the cipher was called with and gave. -/
structure Opening where
  group : Bool
  gen : UInt32
  tk : Octets 16
  mpdu : Bytes
  hlen : Nat
  tid : Int
  pn : UInt64
  plain : Bytes

/-- What a call does that can be seen from outside, in order. -/
inductive Event
  /-- `ccmp_encrypt` succeeded, with this PTK generation noted. -/
  | sealed (gen : UInt32) (s : Sealing)
  | opened (o : Opening)
  /-- A frame written to the host. -/
  | tap (eth : Bytes)

namespace StaClient

/-! ## Down to the air -/

def kMaxQueue : Nat := 128

/-- Bounded; the flag says whether the frame went in. -/
def enqueue (c : StaClient) (mpdu : Bytes) : StaClient × Bool :=
  let unicast := decide (mpdu.length ≥ 10) && byteAt mpdu 4 &&& 0x01 == 0
  let rt := if unicast && !c.g_rt_ack.isEmpty then c.g_rt_ack else c.g_rt
  let l := { c.ledger with g_q_in := c.ledger.g_q_in + 1 }
  if c.g_q.length < kMaxQueue then ({ c with g_q := c.g_q ++ [rt ++ mpdu], ledger := l }, true)
  else ({ c with ledger := { l with g_q_drop := l.g_q_drop + 1 } }, false)

/-- `g_data_seq.next()`, and the client that has used it. -/
def next_seq (c : StaClient) : UInt16 × StaClient :=
  (c.g_data_seq.next.1, { c with g_data_seq := c.g_data_seq.next.2 })

/-- The call of `ccmp_encrypt` that `air_msdu` makes. -/
def sealing (c : StaClient) (msdu : Bytes) (da : Mac) (tk : Octets 16) : Sealing :=
  let hdr := data_hdr_to_ds c.g_sm.bssid_ c.g_own da true c.next_seq.1
  { crypto := c.g_crypto
    tk := tk
    hdr := hdr
    a2 := c.g_own
    pn := c.g_tx_pn
    key_id := 0
    plain := msdu
    out := true
    out_cap := (ccmp_encrypted_len hdr.length msdu.length).toUInt64 }

/-- `air_msdu` on a protected link. -/
def air_sealed (c : StaClient) (msdu : Bytes) (da : Mac) (tk : Octets 16) (from_host : Bool) :
    StaClient × List Event × Bool :=
  let s := c.sealing msdu da tk
  let c := c.next_seq.2
  if ccmp_encrypted_len s.hdr.length msdu.length = 0 then (c, [], false)
  else
    match s.frame with
    | none => (c, [], false)
    | some f =>
      let l := if from_host then { c.ledger with g_tx_enc := c.ledger.g_tx_enc + 1 } else c.ledger
      (({ c with g_tx_pn := c.g_tx_pn + 1, ledger := l }.enqueue f).1,
        [.sealed c.g_ptk_gen_seen s], true)

/-- `air_msdu` on an open link. -/
def air_plain (c : StaClient) (msdu : Bytes) (da : Mac) (from_host : Bool) : StaClient :=
  let hdr := data_hdr_to_ds c.g_sm.bssid_ c.g_own da false c.next_seq.1
  let c := c.next_seq.2
  let l := if from_host then { c.ledger with g_tx_plain := c.ledger.g_tx_plain + 1 } else c.ledger
  ({ c with ledger := l }.enqueue (hdr ++ msdu)).1

/-- One MSDU framed, protected on a protected link, and queued. Without a key of its own it goes
under the installed one. The flag is false when the cipher refused. -/
def air_msdu (c : StaClient) (msdu : Bytes) (da : Mac) (tk : Option (Octets 16))
    (from_host : Bool) : StaClient × List Event × Bool :=
  if c.g_sm.security_ = .Open then (c.air_plain msdu da from_host, [], true)
  else c.air_sealed msdu da (tk.getD c.g_sm.sup_.tk) from_host

def drop_down (c : StaClient) : StaClient :=
  { c with ledger := { c.ledger with g_tap_down_drop := c.ledger.g_tap_down_drop + 1 } }

/-- One Ethernet frame from the host. -/
def tap_down_one (c : StaClient) (eth : Bytes) : StaClient × List Event :=
  let c := { c with ledger := { c.ledger with g_tap_rx := c.ledger.g_tap_rx + 1 } }
  match eth_to_msdu eth 2048 with
  | none => (c.drop_down, [])
  | some (msdu, da, sa) =>
    if !c.g_sm.connected then (c.drop_down, [])
    else if sa ≠ c.g_own then (c.drop_down, [])
    else
      let r := c.air_msdu msdu da none true
      (if r.2.2 then r.1 else r.1.drop_down, r.2.1)

/-! ## The state that belongs to a key or an association -/

/-- A new key restarts its numbers: both directions of the pairwise key, and the window of the
group key from the counter that came with it. -/
def note_ptk (c : StaClient) : StaClient :=
  if c.g_sm.sup_.ptk_valid_ ∧ c.g_sm.sup_.ptk_gen_ ≠ c.g_ptk_gen_seen then
    { c with
      g_ptk_gen_seen := c.g_sm.sup_.ptk_gen_
      g_tx_pn := 1
      g_rx_replay := c.g_rx_replay.reset }
  else c

def note_gtk (c : StaClient) : StaClient :=
  if c.g_sm.sup_.gtk_valid_ ∧ c.g_sm.sup_.gtk_gen_ ≠ c.g_gtk_gen_seen then
    { c with
      g_gtk_gen_seen := c.g_sm.sup_.gtk_gen_
      g_group_replay := c.g_group_replay.seed c.g_sm.sup_.gtk_rsc_ }
  else c

def note_keys (c : StaClient) : StaClient := c.note_ptk.note_gtk

def on_association (c : StaClient) : StaClient := { c with g_rx_dup := {} }

/-- An SSID-specific probe request. -/
def probe (c : StaClient) (chan : UInt8) : StaClient :=
  let m := build_probe_req c.g_own c.g_ssid chan (decide (chan > 14))
  if m = [] then c else (c.next_seq.2.enqueue (assign_seq m c.next_seq.1)).1

def nudge (c : StaClient) : StaClient :=
  c.probe (if c.g_sm.channel_ ≠ 0 then c.g_sm.channel_ else c.g_chan)

/-! ## Up to the host -/

/-- What the filter of `rx_frame` learns of a data frame. -/
structure DataFrame where
  hlen : Nat
  da : Mac
  sa : Mac
  tid : Int
  to_us : Bool
  group : Bool

/-- The tests of a data frame: from the DS, of our BSS, to us or a group, no fragment, and no
A-MSDU. -/
def admitted (c : StaClient) (mpdu : Bytes) : Option DataFrame :=
  let fc0 := byteAt mpdu 0
  let fc1 := byteAt mpdu 1
  let hlen := data_hdr_len fc0 fc1
  let to_us := decide (StationSm.addr1 mpdu = c.g_own)
  let group := byteAt mpdu 4 &&& 0x01 != 0
  if fc0 ≠ kFcData ∧ !is_qos_data fc0 then none
  else if fc1 &&& kFcFromDs = 0 ∨ fc1 &&& kFcToDs ≠ 0 then none
  else if StationSm.addr2 mpdu ≠ c.g_sm.bssid_ then none
  else if !to_us && !group then none
  else if fc1 &&& kFcMoreFrag ≠ 0 ∨ byteAt mpdu 22 &&& 0x0f ≠ 0 then none
  else if mpdu.length < hlen then none
  else if is_qos_data fc0 ∧ byteAt mpdu 24 &&& 0x80 ≠ 0 then none
  else
    some
      { hlen := hlen
        da := data_da mpdu fc1
        sa := data_sa mpdu fc1
        tid := if is_qos_data fc0 then (byteAt mpdu 24 &&& 0x0f).toNat else CcmpReplay.kNonQosTid
        to_us := to_us
        group := group }

/-- An MSDU for the host, as an Ethernet frame. -/
def tap_up (da sa : Mac) (msdu : Bytes) : List Event :=
  ((msdu_to_eth da sa msdu 2048).map Event.tap).toList

def is_eapol_key (plain : Bytes) : Bool :=
  is_ethertype_snap plain && byteAt plain 6 == 0x88 && byteAt plain 7 == 0x8e &&
    eapol_is_key (plain.drop kLlcSnapLen)

/-- The answer to a rekey goes out under the key that its request came in under, and only then
do the numbers restart. -/
def answer (c : StaClient) (reply : Bytes) (tk : Octets 16) : StaClient × List Event :=
  let r := if reply = [] then (c, [], true)
    else c.air_msdu (append_llc_snap [] 0x888e ++ reply) c.g_sm.bssid_ (some tk) false
  (r.1.note_keys, r.2.1)

/-- An MSDU that was opened under `tk`: the state machine's or the host's. -/
def deliver (c : StaClient) (d : DataFrame) (pairwise : Bool) (tk : Octets 16) (plain : Bytes)
    (now : UInt32) : StaClient × List Event :=
  if is_eapol_key plain && (!d.to_us || !pairwise) then (c, [])
  else if d.to_us && pairwise then
    let r := c.g_sm.on_decrypted_msdu plain now
    let c := { c with g_sm := r.1 }
    match r.2 with
    | some reply => c.answer reply tk
    | none => (c, tap_up d.da d.sa plain)
  else (c, tap_up d.da d.sa plain)

/-- The key that a frame's key id names: the pairwise one for 0, else the group key of that id
(and whether it is the pairwise one). -/
def key_for (c : StaClient) (ccmp : Bytes) : Option (Octets 16 × Bool) :=
  let key_id := ccmp_key_id ccmp
  if key_id = 0 then some (c.g_sm.sup_.tk, true)
  else if !c.g_sm.sup_.gtk_valid_ ∨ key_id ≠ c.g_sm.sup_.gtk_key_id_ then none
  else some (c.g_sm.sup_.gtk, false)

/-- The window of the key, asked for a number: the client after it and the answer. -/
def accept (c : StaClient) (pairwise : Bool) (pn : UInt64) (tid : Int) : StaClient × Bool :=
  if pairwise then
    ({ c with g_rx_replay := (c.g_rx_replay.accept pn tid).1 }, (c.g_rx_replay.accept pn tid).2)
  else
    ({ c with g_group_replay := (c.g_group_replay.accept pn CcmpReplay.kNonQosTid).1 },
      (c.g_group_replay.accept pn CcmpReplay.kNonQosTid).2)

/-- A protected frame; its number is admitted only after its tag verified. -/
def rx_protected (c : StaClient) (mpdu : Bytes) (d : DataFrame) (now : UInt32) :
    StaClient × List Event :=
  if c.g_sm.security_ = .Open then (c, [])
  else if ccmp_decrypted_len mpdu.length d.hlen = 0 then (c, [])
  else
    match c.key_for (mpdu.drop d.hlen) with
    | none => (c, [])
    | some (tk, pairwise) =>
      match ccmp_decrypt c.g_crypto tk mpdu d.hlen (StationSm.addr2 mpdu) true
          (ccmp_decrypted_len mpdu.length d.hlen).toUInt64 with
      | none => (c, [])
      | some (plain, pn) =>
        let a := c.accept pairwise pn d.tid
        if !a.2 then (a.1, [])
        else
          let o : Opening :=
            { group := !pairwise
              gen := if pairwise then c.g_ptk_gen_seen else c.g_gtk_gen_seen
              tk := tk
              mpdu := mpdu
              hlen := d.hlen
              tid := if pairwise then d.tid else CcmpReplay.kNonQosTid
              pn := pn
              plain := plain }
          let r := a.1.deliver d pairwise tk plain now
          (r.1, .opened o :: r.2)

/-- An unprotected frame is the host's on an open link only. -/
def rx_plain (c : StaClient) (mpdu : Bytes) (d : DataFrame) : StaClient × List Event :=
  if c.g_sm.security_ ≠ .Open then (c, [])
  else if mpdu.length > d.hlen then (c, tap_up d.da d.sa (mpdu.drop d.hlen))
  else (c, [])

/-- The data half of `rx_frame`. Group frames are never retried. -/
def rx_data (c : StaClient) (mpdu : Bytes) (now : UInt32) : StaClient × List Event :=
  match c.admitted mpdu with
  | none => (c, [])
  | some d =>
    let dup := if d.group then (c.g_rx_dup, false)
      else c.g_rx_dup.is_duplicate (byteAt mpdu 1 &&& kFcRetry != 0) (get_le16 mpdu 22) d.tid
    let c := { c with g_rx_dup := dup.1 }
    if dup.2 then (c, [])
    else if byteAt mpdu 1 &&& kFcProtected = 0 then c.rx_plain mpdu d
    else c.rx_protected mpdu d now

/-- The half of `rx_frame` that is the state machine's, and what follows a change of its state:
a nudge for an accepted association, and the state of the association and of its keys. -/
def rx_station (c : StaClient) (mpdu : Bytes) (now : UInt32) : StaClient :=
  let before := c.g_sm
  let c := { c with g_sm := c.g_sm.on_rx mpdu now }
  let c := if before.state_ = .Associating ∧ c.g_sm.state_ ≠ .Associating ∧
    c.g_sm.state_ ≠ .Failed then c.nudge else c
  let c := if before.state_ ≠ .Connected ∧ c.g_sm.connected then c.on_association else c
  if c.g_sm.connected then c.note_keys else c

/-- One received MPDU without its FCS. -/
def rx_frame (c : StaClient) (mpdu : Bytes) (now : UInt32) : StaClient × List Event :=
  if mpdu.length < 24 then (c, [])
  else
    let c := c.rx_station mpdu now
    if !c.g_sm.connected then (c, []) else c.rx_data mpdu now

/-! ## The loop around it -/

/-- The frames of the state machine, numbered and queued; each pass of the loop takes one. -/
def drain : Nat → StaClient → StaClient
  | 0, c => c
  | n + 1, c =>
    match c.g_sm.pop_tx true with
    | (sm, some f) =>
      let c := { c with g_sm := sm }
      drain n (c.next_seq.2.enqueue (assign_seq f c.next_seq.1)).1
    | (_, none) => c

/-- The queue handed to the radio; `ok` says which of its frames the radio took. -/
def send_batch (c : StaClient) (ok : List Bool) : StaClient :=
  let sent := ((List.range c.g_q.length).filter fun i => ok.getD i false).length
  { c with
    g_q := []
    ledger :=
      { c.ledger with
        g_sent := c.ledger.g_sent + sent.toUInt64
        g_send_fail := c.ledger.g_send_fail + (c.g_q.length - sent).toUInt64 } }

/-- One section under the mutex, or one send. -/
inductive Op
  | rx (mpdu : Bytes) (now : UInt32)
  | tap_down (eth : Bytes)
  | probe (chan : UInt8)
  | join (bss : BssEntry) (snonce : Option (Octets 32)) (now : UInt32)
  | tick (now : UInt32)
  | link_lost
  | leave
  | drain
  | send_batch (ok : List Bool)

def step (c : StaClient) : Op → StaClient × List Event
  | .rx mpdu now => c.rx_frame mpdu now
  | .tap_down eth => c.tap_down_one eth
  | .probe chan => (c.probe chan, [])
  | .join bss snonce now => ({ c with g_sm := (c.g_sm.join bss snonce now).1 }, [])
  | .tick now => ({ c with g_sm := c.g_sm.tick now }, [])
  | .link_lost => ({ c with g_sm := c.g_sm.link_lost }, [])
  | .leave => ({ c with g_sm := c.g_sm.leave 3 }, [])
  | .drain => (drain c.g_sm.pending_tx c, [])
  | .send_batch ok => (c.send_batch ok, [])

/-- What is set before the threads start. Without a passphrase the link is open. -/
structure Setup where
  crypto : CryptoOps
  own : Mac
  ssid : Bytes
  psk : Bytes
  chan : UInt8
  rt : Bytes
  rt_ack : Bytes

def start (u : Setup) : StaClient :=
  { g_crypto := u.crypto
    g_own := u.own
    g_ssid := u.ssid
    g_chan := u.chan
    g_rt := u.rt
    g_rt_ack := u.rt_ack
    g_sm :=
      if u.psk = [] then (StationSm.configure_open {} u.ssid u.own).1
      else (StationSm.configure {} u.crypto u.ssid (some u.psk) u.own).1 }

end StaClient

end devourer.sta
