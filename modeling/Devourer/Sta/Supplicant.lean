-- The station half of the WPA2-PSK key exchange. `on_eapol` answers one
-- EAPOL frame; it decides everything before it installs anything.
import Devourer.Lib.Runs
import Devourer.Sta.Dot11
import Devourer.Sta.Eapol

namespace devourer.sta

namespace Supplicant

inductive State
  | Idle
  | WaitMsg1
  | WaitMsg3
  | Done
  deriving DecidableEq

inductive Verdict
  | Ignored
  | Malformed
  | CryptoError
  | MicFailed
  | Replayed
  | Retransmit
  | OutOfState
  | Reply
  deriving DecidableEq

inductive Kind
  | None
  | Msg1
  | Msg3
  | Group1
  deriving DecidableEq

/-- The diagnostic counters. No decision reads them. -/
structure Counters where
  mic_failures : UInt32 := 0
  replays : UInt32 := 0
  retransmits : UInt32 := 0
  malformed : UInt32 := 0
  out_of_state : UInt32 := 0
  ignored : UInt32 := 0
  crypto_errors : UInt32 := 0
  rsn_mismatches : UInt32 := 0
  deriving DecidableEq

def Counters.note (c : Counters) : Verdict → Counters
  | .Malformed => { c with malformed := c.malformed + 1 }
  | .CryptoError => { c with crypto_errors := c.crypto_errors + 1 }
  | .MicFailed => { c with mic_failures := c.mic_failures + 1 }
  | .Replayed => { c with replays := c.replays + 1 }
  | .OutOfState => { c with out_of_state := c.out_of_state + 1 }
  | .Ignored => { c with ignored := c.ignored + 1 }
  | .Retransmit => c
  | .Reply => c

def kMaxKeyData : Nat := 2048
def kGtkLenCcmp : Nat := 16
def kPtkTkLenCcmp : UInt16 := 16

end Supplicant

open Supplicant in
/-- `class Supplicant`, one field for each data member. -/
structure Supplicant where
  crypto_ : Option CryptoOps := none
  state_ : State := .Idle
  pmk_ : Octets 32 := Octets.zero 32
  own_ : Mac := Octets.zero 6
  bssid_ : Mac := Octets.zero 6
  snonce_ : Octets 32 := Octets.zero 32
  anonce_ : Octets 32 := Octets.zero 32
  inst_anonce_ : Octets 32 := Octets.zero 32
  ptk_ : Ptk := Octets.zero 48
  cand_ptk_ : Ptk := Octets.zero 48
  gtk_ : Octets 32 := Octets.zero 32
  gtk_len_ : Nat := 0
  gtk_key_id_ : UInt8 := 0
  gtk_rsc_ : UInt64 := 0
  ap_rsn_ : RsnInfo := {}
  ap_rsn_set_ : Bool := false
  ptk_gen_ : UInt32 := 0
  gtk_gen_ : UInt32 := 0
  ptk_valid_ : Bool := false
  cand_valid_ : Bool := false
  gtk_valid_ : Bool := false
  rx_replay_ : UInt64 := 0
  rx_replay_set_ : Bool := false
  answered_replay_ : UInt64 := 0
  answered_ : Bool := false
  answered_kind_ : Kind := .None
  last_reply_ : Bytes := []
  m1_replay_ : UInt64 := 0
  m1_anonce_ : Octets 32 := Octets.zero 32
  m1_answered_ : Bool := false
  m1_reply_ : Bytes := []
  counters : Counters := {}

namespace Supplicant

/-- What `on_eapol` did with a frame: the machine after it, its verdict, and what it
wrote to `out`. -/
structure Outcome where
  sup : Supplicant
  verdict : Verdict
  out : Option Bytes := none

/-- The last third of the PTK. -/
def tk (s : Supplicant) : Octets 16 := Octets.slice s.ptk_.val 32 16

/-- The first bytes at `gtk_`, all that the cipher reads of it. -/
def gtk (s : Supplicant) : Octets 16 := Octets.slice s.gtk_.val 0 16

/-! ## Start and forget -/

/-- Drops every key. The addresses, the two generations and the counters stay. -/
def forget (s : Supplicant) : Supplicant :=
  { own_ := s.own_
    bssid_ := s.bssid_
    ptk_gen_ := s.ptk_gen_
    gtk_gen_ := s.gtk_gen_
    counters := s.counters }

/-- The advertised RSN element that a handshake checks message 3 against, if any. -/
def start_rsn (ap_rsn : Option RsnInfo) : Option RsnInfo := ap_rsn.filter (·.valid)

def start (s : Supplicant) (crypto : CryptoOps) (pmk : Octets 32) (own bssid : Mac)
    (snonce : Octets 32) (ap_rsn : Option RsnInfo) : Supplicant :=
  { s.forget with
    ap_rsn_ := (start_rsn ap_rsn).getD {}
    ap_rsn_set_ := (start_rsn ap_rsn).isSome
    crypto_ := some crypto
    pmk_ := pmk
    own_ := own
    bssid_ := bssid
    snonce_ := snonce
    state_ := .WaitMsg1 }

/-! ## Classify and count -/

def classify (k : EapolKey) : Kind :=
  if k.pairwise then
    if k.ack && !k.has_mic then .Msg1
    else if k.ack && k.has_mic && k.install && k.secure then .Msg3
    else .None
  else if k.ack && k.has_mic && k.secure then .Group1
  else .None

def note (s : Supplicant) (v : Verdict) : Outcome :=
  { sup := { s with counters := s.counters.note v }, verdict := v }

/-- Answers with a cached reply and counts the retransmission. -/
def resend (s : Supplicant) (reply : Bytes) : Outcome :=
  { sup := { s with counters := { s.counters with retransmits := s.counters.retransmits + 1 } }
    verdict := .Retransmit
    out := some reply }

def mic_verdict (m : MicCheck) : Verdict :=
  if m = .CryptoError then .CryptoError else .MicFailed

def retransmit_or_replay (s : Supplicant) (k : EapolKey) (kind : Kind) : Outcome :=
  if k.replay = s.rx_replay_ ∧ kind = s.answered_kind_ ∧ s.answered_ ∧
      k.replay = s.answered_replay_ ∧ s.last_reply_ ≠ [] then
    s.resend s.last_reply_
  else s.note .Replayed

/-- Is `k` a message 3 of the handshake already installed? -/
def is_installed_msg3 (s : Supplicant) (k : EapolKey) : Bool :=
  s.ptk_valid_ && k.pairwise && k.ack && k.has_mic && k.install && k.secure &&
    decide (k.nonce = s.inst_anonce_)

/-! ## Install and answer -/

/-- The Key RSC field as a 48-bit little-endian packet number. -/
def rsc_pn (rsc : Octets 8) : UInt64 :=
  (List.range 6).foldl (fun v i => v ||| ((byteAt rsc.val i).toUInt64 <<< (8 * i).toUInt64)) 0

/-- Is this GTK the one in use already? -/
def gtk_in_use (s : Supplicant) (g : GtkKde) : Bool :=
  s.gtk_valid_ && s.gtk_len_ == g.gtk_len && s.gtk_key_id_ == g.key_id &&
    s.gtk_.val.take g.gtk_len == g.gtk.val.take g.gtk_len

def install_gtk (s : Supplicant) (g : GtkKde) (rsc : Octets 8) : Supplicant :=
  if s.gtk_in_use g then s
  else
    { s with
      gtk_ := Octets.overwrite s.gtk_ g.gtk g.gtk_len
      gtk_len_ := g.gtk_len
      gtk_key_id_ := g.key_id
      gtk_rsc_ := rsc_pn rsc
      gtk_valid_ := true
      gtk_gen_ := s.gtk_gen_ + 1 }

def authenticated (s : Supplicant) (replay : UInt64) : Supplicant :=
  { s with rx_replay_ := replay, rx_replay_set_ := true }

def answer (s : Supplicant) (kind : Kind) (replay : UInt64) (reply : Bytes) : Supplicant :=
  if kind = .Msg1 then
    { s with m1_replay_ := replay, m1_answered_ := true, m1_reply_ := reply }
  else
    { s with
      answered_kind_ := kind
      answered_replay_ := replay
      answered_ := true
      last_reply_ := reply }

/-! ## Key data -/

def visit_rsn (_ : Option RsnInfo) (id : UInt8) (b : Bytes) : Option RsnInfo × Bool :=
  if id ≠ 48 then (none, true) else ((parse_rsn b).filter (·.valid), false)

/-- The first RSN element of unwrapped key data, when it parses. -/
def find_rsn_element (kd : Bytes) : Option RsnInfo := (walk_key_data kd visit_rsn none).1

def rsn_equivalent (a b : RsnInfo) : Bool :=
  a.version == b.version && a.group_suite == b.group_suite &&
    a.pairwise_mask == b.pairwise_mask && a.pairwise_other == b.pairwise_other &&
    a.pairwise_count == b.pairwise_count && a.akm_mask == b.akm_mask &&
    a.akm_other == b.akm_other && a.akm_count == b.akm_count &&
    a.capabilities == b.capabilities && a.group_mgmt_suite == b.group_mgmt_suite

/-- The downgrade check: the RSN element of message 3 is the advertised one. -/
def rsn_matches (plain : Bytes) (ap_rsn : RsnInfo) : Bool :=
  match find_rsn_element plain with
  | none => false
  | some got => rsn_equivalent got ap_rsn

/-- Unwraps the key data with the KEK and takes its one GTK: 16 bytes, key id 1, 2 or 3.
Message 3 and group message 1 read the GTK by these same steps. -/
def unwrap_gtk (crypto : CryptoOps) (ptk : Ptk) (k : EapolKey) : Option (Bytes × GtkKde) :=
  match crypto.aes_key_unwrap ptk.kek.val k.key_data with
  | none => none
  | some plain =>
    let r := find_gtk_kde plain
    if r.1 ≠ .Found ∨ r.2.gtk_len ≠ kGtkLenCcmp ∨ r.2.key_id = 0 then none
    else some (plain, r.2)

/-! ## Message 1 -/

/-- Message 2: the SNonce and the RSN element, MIC'd with the candidate's KCK. -/
def build_msg2 (crypto : CryptoOps) (snonce : Octets 32) (ptk : Ptk) (replay : UInt64) : Bytes :=
  let rsn := append_rsn_ccmp_psk []
  build_eapol_key (kKeyDescVersionCcmp ||| kKiPairwise ||| kKiMic) 0 replay (some snonce) none
    (some rsn) rsn.length (some crypto) (some ptk.kck) kEapolVersionSupplicant

def on_msg1 (s : Supplicant) (crypto : CryptoOps) (k : EapolKey) : Outcome :=
  match derive_ptk crypto s.pmk_ s.bssid_ s.own_ k.nonce s.snonce_ with
  | none => s.note .CryptoError
  | some new_ptk =>
    let e := build_msg2 crypto s.snonce_ new_ptk k.replay
    if e = [] then s.note .CryptoError
    else
      { sup :=
          { { s with
              anonce_ := k.nonce
              cand_ptk_ := new_ptk
              cand_valid_ := true
              m1_anonce_ := k.nonce }.answer .Msg1 k.replay e with
            state_ := if s.state_ = .WaitMsg1 then .WaitMsg3 else s.state_ }
        verdict := .Reply
        out := some e }

/-! ## Message 3 -/

/-- Which PTK this message 3 belongs to: the candidate's (`true`), or the installed one. -/
def msg3_key (s : Supplicant) (k : EapolKey) : Except Verdict (Ptk × Bool) :=
  if s.cand_valid_ ∧ k.nonce = s.anonce_ then .ok (s.cand_ptk_, true)
  else if s.ptk_valid_ ∧ k.nonce = s.inst_anonce_ then .ok (s.ptk_, false)
  else if !s.cand_valid_ && !s.ptk_valid_ then .error .OutOfState
  else .error .Malformed

/-- Message 4, and group message 2 with `pairwise` clear. -/
def build_ack (crypto : CryptoOps) (key_info : UInt16) (ptk : Ptk) (replay : UInt64) : Bytes :=
  build_eapol_key key_info 0 replay none none none 0 (some crypto) (some ptk.kck)
    kEapolVersionSupplicant

def build_msg4 (crypto : CryptoOps) (ptk : Ptk) (replay : UInt64) : Bytes :=
  build_ack crypto (kKeyDescVersionCcmp ||| kKiPairwise ||| kKiMic ||| kKiSecure) ptk replay

def build_group2 (crypto : CryptoOps) (ptk : Ptk) (replay : UInt64) : Bytes :=
  build_ack crypto (kKeyDescVersionCcmp ||| kKiMic ||| kKiSecure) ptk replay

/-- Why a message that found its key is refused. -/
inductive Refusal
  | verdict (v : Verdict)
  | rsn_mismatch

/-- A refusal is counted and changes nothing else. -/
def refuse (s : Supplicant) : Refusal → Outcome
  | .verdict v => s.note v
  | .rsn_mismatch =>
    { s with counters := { s.counters with
        rsn_mismatches := s.counters.rsn_mismatches + 1 } }.note .Malformed

/-- Every check of message 3 after its key is chosen, in order. The result is the GTK to
install and message 4. -/
def check_msg3 (s : Supplicant) (crypto : CryptoOps) (kptk : Ptk) (k : EapolKey) :
    Except Refusal (GtkKde × Bytes) :=
  if k.key_len ≠ kPtkTkLenCcmp then .error (.verdict .Malformed)
  else if eapol_mic_ok crypto kptk.kck k ≠ .Ok then
    .error (.verdict (mic_verdict (eapol_mic_ok crypto kptk.kck k)))
  else if !k.encrypted ∨ k.key_data_len = 0 then .error (.verdict .Malformed)
  else if k.key_data_len < 16 ∨ k.key_data_len % 8 ≠ 0 then .error (.verdict .Malformed)
  else
    match unwrap_gtk crypto kptk k with
    | none => .error (.verdict .Malformed)
    | some (plain, g) =>
      if s.ap_rsn_set_ ∧ !rsn_matches plain s.ap_rsn_ then .error .rsn_mismatch
      else if build_msg4 crypto kptk k.replay = [] then .error (.verdict .CryptoError)
      else .ok (g, build_msg4 crypto kptk k.replay)

/-- The PTK is installed only when it is not the installed one already. -/
def install_ptk (s : Supplicant) (kptk : Ptk) (nonce : Octets 32) : Supplicant :=
  if !s.ptk_valid_ ∨ kptk ≠ s.ptk_ then
    { s with
      ptk_ := kptk
      inst_anonce_ := nonce
      ptk_valid_ := true
      ptk_gen_ := s.ptk_gen_ + 1 }
  else s

/-- The candidate is spent: only a fresh message 1 re-arms it. -/
def spend_candidate (s : Supplicant) (from_cand : Bool) : Supplicant :=
  if from_cand then { s with cand_ptk_ := Octets.zero 48, cand_valid_ := false } else s

def install_msg3 (s : Supplicant) (k : EapolKey) (kptk : Ptk) (from_cand : Bool) (g : GtkKde)
    (e : Bytes) : Supplicant :=
  let s := (s.install_ptk kptk k.nonce).spend_candidate from_cand
  let s := (s.install_gtk g k.rsc).authenticated k.replay
  { s.answer .Msg3 k.replay e with state_ := .Done }

def on_msg3 (s : Supplicant) (crypto : CryptoOps) (k : EapolKey) : Outcome :=
  match s.msg3_key k with
  | .error v => s.note v
  | .ok (kptk, from_cand) =>
    match s.check_msg3 crypto kptk k with
    | .error r => s.refuse r
    | .ok (g, e) =>
      { sup := s.install_msg3 k kptk from_cand g e, verdict := .Reply, out := some e }

/-! ## Group message 1 -/

/-- Every check of group message 1, in order. -/
def check_group1 (s : Supplicant) (crypto : CryptoOps) (k : EapolKey) :
    Except Verdict (GtkKde × Bytes) :=
  if s.state_ ≠ .Done ∨ !s.ptk_valid_ then .error .OutOfState
  else if eapol_mic_ok crypto s.ptk_.kck k ≠ .Ok then
    .error (mic_verdict (eapol_mic_ok crypto s.ptk_.kck k))
  else if !k.encrypted ∨ k.key_data_len < 16 ∨ k.key_data_len % 8 ≠ 0 then .error .Malformed
  else
    match unwrap_gtk crypto s.ptk_ k with
    | none => .error .Malformed
    | some (_, g) =>
      if build_group2 crypto s.ptk_ k.replay = [] then .error .CryptoError
      else .ok (g, build_group2 crypto s.ptk_ k.replay)

def install_group1 (s : Supplicant) (k : EapolKey) (g : GtkKde) (e : Bytes) : Supplicant :=
  ((s.install_gtk g k.rsc).authenticated k.replay).answer .Group1 k.replay e

def on_group1 (s : Supplicant) (crypto : CryptoOps) (k : EapolKey) : Outcome :=
  match s.check_group1 crypto k with
  | .error v => s.note v
  | .ok (g, e) => { sup := s.install_group1 k g e, verdict := .Reply, out := some e }

/-! ## One frame -/

/-- Is this a repeat of the message 1 that was answered last: same counter, same ANonce? -/
def is_repeated_msg1 (s : Supplicant) (k : EapolKey) : Bool :=
  s.m1_answered_ && k.replay == s.m1_replay_ && decide (k.nonce = s.m1_anonce_) &&
    !s.m1_reply_.isEmpty

/-- `on_eapol` on a frame that parsed, past the checks of its key information. -/
def on_key (s : Supplicant) (crypto : CryptoOps) (k : EapolKey) : Outcome :=
  if s.rx_replay_set_ ∧ k.replay ≤ s.rx_replay_ then s.retransmit_or_replay k (classify k)
  else
    match classify k with
    | .Msg1 => if s.is_repeated_msg1 k then s.resend s.m1_reply_ else s.on_msg1 crypto k
    | .Msg3 => s.on_msg3 crypto k
    | .Group1 => s.on_group1 crypto k
    | .None => s.note .Ignored

def on_eapol (s : Supplicant) (eapol : Bytes) : Outcome :=
  match s.crypto_ with
  | none => s.note .OutOfState
  | some crypto =>
    if s.state_ = .Idle then s.note .OutOfState
    else
      match parse_eapol_key eapol with
      | none => s.note .Malformed
      | some k =>
        if k.version ≠ kKeyDescVersionCcmp then s.note .Malformed
        else if k.request then s.note .Malformed
        else if k.key_data_len > kMaxKeyData then s.note .Malformed
        else if classify k = .None then s.note .Ignored
        else s.on_key crypto k

/-! ## Runs -/

/-- One call on the machine. -/
inductive Op
  | start (crypto : CryptoOps) (pmk : Octets 32) (own bssid : Mac) (snonce : Octets 32)
      (ap_rsn : Option RsnInfo)
  | forget
  | on_eapol (eapol : Bytes)

def step (s : Supplicant) : Op → Supplicant
  | .start crypto pmk own bssid snonce ap_rsn => s.start crypto pmk own bssid snonce ap_rsn
  | .forget => s.forget
  | .on_eapol eapol => (s.on_eapol eapol).sup

/-- The machine after a list of calls on a fresh one. -/
def run (ops : List Op) : Supplicant := Runs.after step {} ops

@[simp] theorem run_nil : run [] = {} := rfl

@[simp] theorem run_snoc (ops : List Op) (op : Op) : run (ops ++ [op]) = (run ops).step op :=
  Runs.after_snoc step {} ops op

end Supplicant

end devourer.sta
