-- The association state machine: scan result in, connected out. Time comes
-- in as an argument, frames come in through `on_rx`, and frames to send
-- wait in a queue.
import Mathlib.Logic.Function.Basic
import Devourer.Sta.Supplicant

namespace devourer.sta

namespace StationSm

inductive State
  | Idle
  | Authenticating
  | Associating
  | FourWay
  | Connected
  | Failed
  deriving DecidableEq

inductive Failure
  | None
  | AuthTimeout
  | AuthRefused
  | AssocTimeout
  | AssocRefused
  | Deauthenticated
  | HandshakeTimeout
  | BeaconLost
  | NoPmk
  | NotConfigured
  | NoChannel
  | NotInfrastructure
  | SsidMismatch
  | Unconfirmed
  deriving DecidableEq

inductive Security
  | Open
  | Wpa2Psk
  deriving DecidableEq

/-- The diagnostic counters by name. No decision reads one. -/
inductive Tally
  | auth_tx
  | assoc_tx
  | eapol_tx
  | eapol_rx
  | beacons_rx
  | rx_not_our_bss
  | rx_not_for_us
  | rx_ignored
  | rx_protected
  | rx_malformed
  | tx_dropped
  | rx_assoc_repeat
  deriving DecidableEq

def kMaxTries : Nat := 3
def kMgmtTimeoutMs : UInt32 := 300
def kHandshakeTimeoutMs : UInt32 := 3000
def kBeaconLossMs : UInt32 := 1024
def kMaxBeaconIntervalTu : UInt32 := 1000
def kMaxTxQueue : Nat := 8

/-- The listen interval that `build_assoc_req` defaults to. -/
def kListenInterval : UInt16 := 10

end StationSm

open StationSm in
/-- `class StationSm`, one field for each data member. -/
structure StationSm where
  crypto_ : Option CryptoOps := none
  security_ : Security := .Wpa2Psk
  configured_ : Bool := false
  state_ : StationSm.State := .Idle
  fail_ : Failure := .None
  ssid_ : Bytes := []
  own_ : Mac := Octets.zero 6
  bssid_ : Mac := Octets.zero 6
  ap_rsn_ : RsnInfo := {}
  snonce_ : Octets 32 := Octets.zero 32
  pmk_ : Octets 32 := Octets.zero 32
  have_pmk_ : Bool := false
  channel_ : UInt8 := 0
  aid_ : UInt16 := 0
  authenticated_ : Bool := false
  status_ : UInt16 := 0
  tries_ : Nat := 0
  last_tx_ms_ : UInt32 := 0
  last_heard_ms_ : UInt32 := 0
  beacon_loss_ms_ : UInt32 := kBeaconLossMs
  seq_ : SeqCounter := {}
  sup_ : Supplicant := {}
  tx_ : List Bytes := []
  counters : Tally → UInt32 := fun _ => 0

namespace StationSm

def bump (s : StationSm) (t : Tally) : StationSm :=
  { s with counters := Function.update s.counters t (s.counters t + 1) }

/-! ## The queue -/

/-- The one place that enforces the bound. The flag says whether the frame went in. -/
def queue (s : StationSm) (m : Bytes) : StationSm × Bool :=
  if s.tx_.length ≥ kMaxTxQueue then (s.bump .tx_dropped, false)
  else ({ s with tx_ := s.tx_ ++ [m] }, true)

/-- The next sequence number, and the machine that has used it. -/
def next_seq (s : StationSm) : UInt16 × StationSm :=
  (s.seq_.next.1, { s with seq_ := s.seq_.next.2 })

/-- Queues a deauthentication to the current BSSID. -/
def queue_deauth (s : StationSm) (reason : UInt16) : StationSm :=
  let m := assign_seq (build_deauth s.own_ s.bssid_ reason) s.next_seq.1
  (s.next_seq.2.queue m).1

/-- A failure ends the association. The PMK and the configuration stay. -/
def fail (s : StationSm) (why : Failure) (status : UInt16) : StationSm :=
  { s with
    tx_ := []
    sup_ := s.sup_.forget
    aid_ := 0
    state_ := .Failed
    fail_ := why
    status_ := status }

/-- The request that `send_auth` hands to `queue`. -/
def auth_request (s : StationSm) : Bytes :=
  assign_seq (build_auth_req s.own_ s.bssid_) s.next_seq.1

/-- Counts a try for a request that was queued. -/
def count_try (s : StationSm) (now_ms : UInt32) (t : Tally) : StationSm :=
  { s with last_tx_ms_ := now_ms, tries_ := s.tries_ + 1 }.bump t

def send_auth (s : StationSm) (now_ms : UInt32) : StationSm :=
  let q := s.next_seq.2.queue s.auth_request
  if q.2 then q.1.count_try now_ms .auth_tx else q.1

/-- The association request before its sequence number; empty for an SSID that it cannot
encode. -/
def assoc_request (s : StationSm) : Bytes :=
  build_assoc_req s.own_ s.bssid_ s.ssid_ (s.security_ == .Wpa2Psk) (decide (s.channel_ > 14))
    kListenInterval

def send_assoc (s : StationSm) (now_ms : UInt32) : StationSm :=
  if s.assoc_request = [] then s.fail .AssocRefused 0
  else
    let q := s.next_seq.2.queue (assign_seq s.assoc_request s.next_seq.1)
    if q.2 then q.1.count_try now_ms .assoc_tx else q.1

/-! ## Configure, join and leave -/

/-- A reconfigured station is associated to nothing. A failed state keeps its reason. -/
def drop_association_keys (s : StationSm) : StationSm :=
  { s with
    sup_ := s.sup_.forget
    tx_ := []
    aid_ := 0
    authenticated_ := false
    state_ := if s.state_ = .Failed then .Failed else .Idle }

/-- `psk` is `none` for the null pointer. The flag is `have_pmk_`. -/
def configure (s : StationSm) (crypto : CryptoOps) (ssid : Bytes) (psk : Option Bytes) (own : Mac) :
    StationSm × Bool :=
  let pmk := pmk_from_psk crypto psk ssid
  let s :=
    { s with
      crypto_ := some crypto
      ssid_ := ssid
      own_ := own
      pmk_ := pmk.getD (Octets.zero 32)
      have_pmk_ := pmk.isSome
      security_ := .Wpa2Psk }
  ({ s.drop_association_keys with configured_ := true }, s.have_pmk_)

def configure_open (s : StationSm) (ssid : Bytes) (own : Mac) : StationSm × Bool :=
  let s :=
    { s with
      crypto_ := none
      security_ := .Open
      ssid_ := ssid
      own_ := own
      pmk_ := Octets.zero 32
      have_pmk_ := false }
  ({ s.drop_association_keys with configured_ := true }, true)

/-- Ten of the BSS's own beacon intervals, between the floor and the ceiling. -/
def beacon_window (beacon_interval_tu : UInt16) : UInt32 :=
  let tu := if beacon_interval_tu.toUInt32 > kMaxBeaconIntervalTu then kMaxBeaconIntervalTu
    else beacon_interval_tu.toUInt32
  let ten := tu * 1024 * 10 / 1000
  if ten > kBeaconLossMs then ten else kBeaconLossMs

/-- The farewell of `join` to the association that it replaces. -/
def farewell (s : StationSm) : StationSm :=
  let s := { s with tx_ := [] }
  if s.authenticated_ then s.queue_deauth 3 else s

/-- `join` past its checks, up to its `send_auth`. -/
def begin_join (s : StationSm) (bss : BssEntry) (snonce : Octets 32) (now_ms : UInt32) :
    StationSm :=
  let s := s.farewell
  { s with
    bssid_ := bss.info.bssid
    snonce_ := snonce
    channel_ := bss.info.channel
    beacon_loss_ms_ := beacon_window bss.info.beacon_interval_tu
    aid_ := 0
    fail_ := .None
    status_ := 0
    sup_ := s.sup_.forget
    authenticated_ := false
    state_ := .Authenticating
    tries_ := 0
    last_heard_ms_ := now_ms }

/-- `snonce` is `none` for the null pointer. An open station keeps the SNonce it has. -/
def join (s : StationSm) (bss : BssEntry) (snonce : Option (Octets 32)) (now_ms : UInt32) :
    StationSm × Bool :=
  if !s.configured_ then (s.fail .NotConfigured 0, false)
  else if bss.info.ssid ≠ s.ssid_ then (s.fail .SsidMismatch 0, false)
  else if !channel_valid bss.info.channel then (s.fail .NoChannel 0, false)
  else if !bss_is_infrastructure bss.info then (s.fail .NotInfrastructure 0, false)
  else if s.security_ = .Wpa2Psk then
    if !s.have_pmk_ then (s.fail .NoPmk 0, false)
    else if !bss_is_wpa2_psk bss.info then (s.fail .AssocRefused 0, false)
    else
      let s := { s with ap_rsn_ := bss.info.rsn }
      match snonce with
      | none => (s.fail .NotConfigured 0, false)
      | some n => ((s.begin_join bss n now_ms).send_auth now_ms, true)
  else if bss.info.privacy then (s.fail .AssocRefused 0, false)
  else ((s.begin_join bss s.snonce_ now_ms).send_auth now_ms, true)

def leave (s : StationSm) (reason : UInt16) : StationSm :=
  if s.state_ = .Idle then s
  else
    let s := { s with tx_ := [] }
    let s := if s.authenticated_ then s.queue_deauth reason else s
    { s with
      sup_ := s.sup_.forget
      state_ := .Idle
      fail_ := .None
      aid_ := 0
      authenticated_ := false }

/-! ## Management responses -/

def on_auth (s : StationSm) (frame : Bytes) (now_ms : UInt32) : StationSm :=
  if s.state_ ≠ .Authenticating then s
  else
    match parse_auth frame with
    | none => s.bump .rx_malformed
    | some a =>
      if a.algorithm ≠ 0 then s.fail .AuthRefused a.status
      else if a.seq ≠ 2 then s
      else if a.status ≠ 0 then s.fail .AuthRefused a.status
      else
        { s with authenticated_ := true, state_ := .Associating, tries_ := 0 }.send_assoc now_ms

/-- `sup_.start(*crypto_, …)`. The source reads through `crypto_` here, so a station that
gets this far without one has no behaviour; none does. -/
def start_four_way (s : StationSm) : StationSm :=
  match s.crypto_ with
  | none => s
  | some crypto =>
    { s with sup_ := s.sup_.start crypto s.pmk_ s.own_ s.bssid_ s.snonce_ (some s.ap_rsn_) }

def on_assoc_resp (s : StationSm) (frame : Bytes) (now_ms : UInt32) : StationSm :=
  if s.state_ ≠ .Associating then s.bump .rx_assoc_repeat
  else
    match parse_assoc_resp frame with
    | none => s.bump .rx_malformed
    | some r =>
      if r.status ≠ 0 then s.fail .AssocRefused r.status
      else if r.aid = 0 then s.fail .AssocRefused r.status
      else
        let s := { s with aid_ := r.aid, last_tx_ms_ := now_ms, last_heard_ms_ := now_ms }
        if s.security_ = .Open then { s with state_ := .Connected }
        else { s with state_ := .FourWay }.start_four_way

/-! ## EAPOL -/

/-- What an unprotected EAPOL-Key frame may be. -/
def cleartext_eapol_allowed (s : StationSm) (eapol : Bytes) : Bool :=
  match parse_eapol_key eapol with
  | none => true
  | some k =>
    if !k.pairwise then false
    else if !s.sup_.ptk_valid_ then true
    else s.sup_.is_installed_msg3 k

/-- What `eapol_reply` gives: the machine, the body to send back or nothing, and whether
the handshake moved. -/
structure EapolReply where
  sm : StationSm
  reply : Bytes := []
  progressed : Bool := false

def eapol_reply (s : StationSm) (eapol : Bytes) : EapolReply :=
  if s.security_ ≠ .Wpa2Psk then { sm := s.bump .rx_ignored }
  else if s.state_ ≠ .FourWay ∧ s.state_ ≠ .Connected then { sm := s }
  else
    let o := s.sup_.on_eapol eapol
    { sm := { s.bump .eapol_rx with sup_ := o.sup }
      reply := if o.verdict = .Reply ∨ o.verdict = .Retransmit then o.out.getD [] else []
      progressed := decide (o.verdict = .Reply) }

def promote_if_keyed (s : StationSm) (now_ms : UInt32) : StationSm :=
  if s.state_ = .FourWay ∧ s.sup_.state_ = .Done ∧ s.sup_.ptk_valid_ then
    { s with state_ := .Connected, last_heard_ms_ := now_ms }
  else s

/-- The end of both EAPOL paths, once the reply has left. -/
def reply_sent (s : StationSm) (progressed : Bool) (now_ms : UInt32) : StationSm :=
  let s := s.bump .eapol_tx
  let s := if progressed then { s with last_tx_ms_ := now_ms } else s
  s.promote_if_keyed now_ms

/-- The unprotected data frame that carries an EAPOL reply. -/
def eapol_frame (s : StationSm) (reply : Bytes) : Bytes :=
  append_llc_snap (data_hdr_to_ds s.bssid_ s.own_ s.bssid_ false s.next_seq.1) 0x888e ++ reply

def on_eapol (s : StationSm) (eapol : Bytes) (now_ms : UInt32) : StationSm :=
  let r := s.eapol_reply eapol
  if r.reply = [] then r.sm
  else
    let q := r.sm.next_seq.2.queue (r.sm.eapol_frame r.reply)
    if q.2 then q.1.reply_sent r.progressed now_ms else q.1

/-! ## One received frame -/

/-- The tests of an unprotected from-DS data frame, and the EAPOL packet in it. -/
def cleartext_eapol (s : StationSm) (frame : Bytes) (to_us : Bool) : Except Tally Bytes :=
  let fc0 := byteAt frame 0
  let fc1 := byteAt frame 1
  let hlen := data_hdr_len fc0 fc1
  let eapol := frame.drop (hlen + kLlcSnapLen)
  if fc1 &&& kFcMoreFrag ≠ 0 ∨ byteAt frame 22 &&& 0x0f ≠ 0 then .error .rx_malformed
  else if frame.length < hlen + kLlcSnapLen then .error .rx_malformed
  else if is_qos_data fc0 ∧ byteAt frame 24 &&& 0x80 ≠ 0 then .error .rx_malformed
  else if ¬(byteAt frame hlen = 0xaa ∧ byteAt frame (hlen + 1) = 0xaa ∧
      byteAt frame (hlen + 2) = 0x03) then .error .rx_ignored
  else if ¬(byteAt frame (hlen + 6) = 0x88 ∧ byteAt frame (hlen + 7) = 0x8e) then
    .error .rx_ignored
  else if !to_us then .error .rx_ignored
  else if eapol.length < 2 then .error .rx_malformed
  else if !eapol_is_key eapol then .error .rx_ignored
  else if !s.cleartext_eapol_allowed eapol then .error .rx_ignored
  else .ok eapol

/-- The data half of `on_rx`. -/
def on_data (s : StationSm) (frame : Bytes) (to_us : Bool) (now_ms : UInt32) : StationSm :=
  let fc0 := byteAt frame 0
  let fc1 := byteAt frame 1
  if fc0 ≠ kFcData ∧ !is_qos_data fc0 then s.bump .rx_ignored
  else if fc1 &&& kFcFromDs = 0 ∨ fc1 &&& kFcToDs ≠ 0 then s.bump .rx_ignored
  else
    let s := if to_us ∧ frame.length ≥ data_hdr_len fc0 fc1 then { s with last_heard_ms_ := now_ms }
      else s
    if fc0 &&& 0x40 ≠ 0 then s.bump .rx_ignored
    else if fc1 &&& kFcProtected ≠ 0 then s.bump .rx_protected
    else
      match s.cleartext_eapol frame to_us with
      | .error t => s.bump t
      | .ok eapol => s.on_eapol eapol now_ms

def addr1 (frame : Bytes) : Mac := Octets.slice frame 4 6
def addr2 (frame : Bytes) : Mac := Octets.slice frame 10 6

/-- The switch of `on_rx` on the frame type, past its address filter. -/
def on_our_frame (s : StationSm) (frame : Bytes) (to_us : Bool) (now_ms : UInt32) : StationSm :=
  let fc0 := byteAt frame 0
  if fc0 = kFcBeacon ∨ fc0 = kFcProbeResp then
    if frame.length < 24 + 12 then s.bump .rx_malformed
    else { s.bump .beacons_rx with last_heard_ms_ := now_ms }
  else if fc0 = kFcAuth then
    if to_us then s.on_auth frame now_ms else s
  else if fc0 = kFcAssocResp then
    if to_us then s.on_assoc_resp frame now_ms else s
  else if fc0 = kFcReassocResp then s.bump .rx_ignored
  else if fc0 = kFcDeauth ∨ fc0 = kFcDisassoc then
    match parse_reason frame with
    | none => s.bump .rx_malformed
    | some reason => { s.fail .Deauthenticated reason with authenticated_ := false }
  else s.on_data frame to_us now_ms

/-- One received frame; the empty frame stands for the null pointer. -/
def on_rx (s : StationSm) (frame : Bytes) (now_ms : UInt32) : StationSm :=
  if frame.length < 24 then s
  else if s.state_ = .Idle ∨ s.state_ = .Failed then s
  else if addr2 frame ≠ s.bssid_ then s.bump .rx_not_our_bss
  else
    let to_us := decide (addr1 frame = s.own_)
    let bcast := decide (byteAt frame 4 &&& 0x01 ≠ 0)
    if !to_us && !bcast then s.bump .rx_not_for_us else s.on_our_frame frame to_us now_ms

/-- One decrypted MSDU; the empty one stands for the null pointer. The result is the
machine and, for a frame that was consumed, the body to send back. -/
def on_decrypted_msdu (s : StationSm) (msdu : Bytes) (now_ms : UInt32) : StationSm × Option Bytes :=
  if msdu.length = 0 then (s, none)
  else
    let s := { s with last_heard_ms_ := now_ms }
    if !is_ethertype_snap msdu then (s, none)
    else if ¬(byteAt msdu 6 = 0x88 ∧ byteAt msdu 7 = 0x8e) then (s, none)
    else if !eapol_is_key (msdu.drop kLlcSnapLen) then (s, none)
    else
      let r := s.eapol_reply (msdu.drop kLlcSnapLen)
      (if r.reply = [] then r.sm else r.sm.reply_sent r.progressed now_ms, some r.reply)

/-! ## Time, the caller's verdict, and the queue's other end -/

def tick (s : StationSm) (now_ms : UInt32) : StationSm :=
  let since := now_ms - s.last_tx_ms_
  match s.state_ with
  | .Authenticating =>
    if since < kMgmtTimeoutMs then s
    else if s.tries_ ≥ kMaxTries then s.fail .AuthTimeout 0
    else s.send_auth now_ms
  | .Associating =>
    if since < kMgmtTimeoutMs then s
    else if s.tries_ ≥ kMaxTries then s.fail .AssocTimeout 0
    else s.send_assoc now_ms
  | .FourWay => if since ≥ kHandshakeTimeoutMs then s.fail .HandshakeTimeout 0 else s
  | .Connected =>
    if now_ms - s.last_heard_ms_ ≥ s.beacon_loss_ms_ then s.fail .BeaconLost 0 else s
  | .Idle => s
  | .Failed => s

def link_lost (s : StationSm) : StationSm :=
  if s.state_ = .Connected then s.fail .Unconfirmed 0 else s

/-- `out` is false for a null pointer, which takes nothing. -/
def pop_tx (s : StationSm) (out : Bool) : StationSm × Option Bytes :=
  match out, s.tx_ with
  | true, m :: rest => ({ s with tx_ := rest }, some m)
  | _, _ => (s, none)

def pending_tx (s : StationSm) : Nat := s.tx_.length

def keyed (s : StationSm) : Bool := decide (s.state_ = .Connected) && s.sup_.ptk_valid_

def connected (s : StationSm) : Bool :=
  decide (s.state_ = .Connected) && (decide (s.security_ = .Open) || s.sup_.ptk_valid_)

/-! ## Runs -/

/-- One call on the machine. -/
inductive Op
  | configure (crypto : CryptoOps) (ssid : Bytes) (psk : Option Bytes) (own : Mac)
  | configure_open (ssid : Bytes) (own : Mac)
  | join (bss : BssEntry) (snonce : Option (Octets 32)) (now_ms : UInt32)
  | leave (reason : UInt16)
  | on_rx (frame : Bytes) (now_ms : UInt32)
  | on_decrypted_msdu (msdu : Bytes) (now_ms : UInt32)
  | tick (now_ms : UInt32)
  | link_lost
  | pop_tx (out : Bool)

def step (s : StationSm) : Op → StationSm
  | .configure crypto ssid psk own => (s.configure crypto ssid psk own).1
  | .configure_open ssid own => (s.configure_open ssid own).1
  | .join bss snonce now_ms => (s.join bss snonce now_ms).1
  | .leave reason => s.leave reason
  | .on_rx frame now_ms => s.on_rx frame now_ms
  | .on_decrypted_msdu msdu now_ms => (s.on_decrypted_msdu msdu now_ms).1
  | .tick now_ms => s.tick now_ms
  | .link_lost => s.link_lost
  | .pop_tx out => (s.pop_tx out).1

/-- The machine after a list of calls on a fresh one. -/
def run (ops : List Op) : StationSm := Runs.after step {} ops

@[simp] theorem run_nil : run [] = {} := rfl

@[simp] theorem run_snoc (ops : List Op) (op : Op) : run (ops ++ [op]) = (run ops).step op :=
  Runs.after_snoc step {} ops op

end StationSm

end devourer.sta
