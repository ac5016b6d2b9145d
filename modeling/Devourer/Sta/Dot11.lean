-- 802.11 frames as the station builds and reads them: the management
-- header, the elements, the RSN element, and the data header.
import Mathlib.Logic.Function.Basic
import Devourer.Lib.Octets

namespace devourer.sta

/-! ## Frame control -/

def kFcAssocReq : UInt8 := 0x00
def kFcAssocResp : UInt8 := 0x10
def kFcReassocResp : UInt8 := 0x30
def kFcProbeReq : UInt8 := 0x40
def kFcProbeResp : UInt8 := 0x50
def kFcBeacon : UInt8 := 0x80
def kFcDisassoc : UInt8 := 0xa0
def kFcAuth : UInt8 := 0xb0
def kFcDeauth : UInt8 := 0xc0
def kFcData : UInt8 := 0x08

def kFcToDs : UInt8 := 0x01
def kFcFromDs : UInt8 := 0x02
def kFcMoreFrag : UInt8 := 0x04
def kFcRetry : UInt8 := 0x08
def kFcProtected : UInt8 := 0x40

def kEidSsid : UInt8 := 0
def kEidSupportedRates : UInt8 := 1
def kEidDsParams : UInt8 := 3
def kEidRsn : UInt8 := 48
def kEidExtSupportedRates : UInt8 := 50

def put_le16 (x : UInt16) : Bytes := [x.toUInt8, (x >>> 8).toUInt8]

def get_le16 (p : Bytes) (i : Nat) : UInt16 :=
  (byteAt p i).toUInt16 ||| ((byteAt p (i + 1)).toUInt16 <<< 8)

/-! ## Headers -/

/-- A MAC address. -/
abbrev Mac := Octets 6

/-- The 24-byte management header: `da` is address 1, `sa` address 2. -/
def mgmt_hdr (subtype_fc : UInt8) (da sa bssid : Mac) : Bytes :=
  [subtype_fc, 0x00] ++ put_le16 0 ++ da.val ++ sa.val ++ bssid.val ++ put_le16 0

/-- Writes a sequence number into the Sequence Control field of a built frame. -/
def assign_seq (frame : Bytes) (seq : UInt16) : Bytes :=
  if frame.length < 24 then frame
  else
    let sc := (seq &&& 0x0fff) <<< 4
    (frame.set 22 sc.toUInt8).set 23 (sc >>> 8).toUInt8

/-- `class SeqCounter`: a 12-bit counter kept in 16 bits. -/
structure SeqCounter where
  n_ : UInt16 := 0
  deriving DecidableEq

def SeqCounter.next (c : SeqCounter) : UInt16 × SeqCounter := (c.n_ &&& 0x0fff, ⟨c.n_ + 1⟩)

/-! ## Elements -/

/-- The element, or nothing when the body does not fit an 8-bit length. -/
def append_ie (m : Bytes) (eid : UInt8) (body : Bytes) : Option Bytes :=
  if body.length > 255 then none
  else some (m ++ eid :: body.length.toUInt8 :: body)

def append_ssid (m ssid : Bytes) : Option Bytes :=
  if ssid.length > 32 then none else append_ie m kEidSsid ssid

/-- An element whose body is known to fit; `append_ie`'s answer is not read. -/
def append_fixed_ie (m : Bytes) (eid : UInt8) (body : Bytes) : Bytes :=
  (append_ie m eid body).getD m

def append_supported_rates_sta (m : Bytes) (five_ghz : Bool) : Bytes :=
  if five_ghz then
    append_fixed_ie m kEidSupportedRates [0x0c, 0x12, 0x18, 0x24, 0x30, 0x48, 0x60, 0x6c]
  else
    append_fixed_ie m kEidSupportedRates [0x02, 0x04, 0x0b, 0x16, 0x0c, 0x12, 0x18, 0x24]

def append_ext_supported_rates_sta (m : Bytes) (five_ghz : Bool) : Bytes :=
  if five_ghz then m
  else append_fixed_ie m kEidExtSupportedRates [0x30, 0x48, 0x60, 0x6c]

/-- The WPA2-PSK RSN element: CCMP group, CCMP pairwise, PSK AKM. -/
def append_rsn_ccmp_psk (m : Bytes) : Bytes :=
  append_fixed_ie m kEidRsn
    [0x01, 0x00,
     0x00, 0x0f, 0xac, 0x04,
     0x01, 0x00, 0x00, 0x0f, 0xac, 0x04,
     0x01, 0x00, 0x00, 0x0f, 0xac, 0x02,
     0x00, 0x00]

/-- The loop of `find_ie`; each element takes two bytes at least. -/
def find_ie_loop (eid : UInt8) : Nat → Bytes → Option Bytes
  | 0, _ => none
  | fuel + 1, id :: len :: rest =>
    if rest.length < len.toNat then none
    else if id = eid then some (rest.take len.toNat)
    else find_ie_loop eid fuel (rest.drop len.toNat)
  | _ + 1, _ => none

/-- The body of the first element with this id. An element that runs past the end stops the
walk. -/
def find_ie (body : Bytes) (eid : UInt8) : Option Bytes := find_ie_loop eid body.length body

/-! ## The RSN element -/

structure RsnInfo where
  valid : Bool := false
  version : UInt16 := 0
  group_ccmp : Bool := false
  pairwise_ccmp : Bool := false
  akm_psk : Bool := false
  capabilities : UInt16 := 0
  mfp_required : Bool := false
  mfp_capable : Bool := false
  pairwise_count : UInt16 := 0
  akm_count : UInt16 := 0
  group_suite : UInt32 := 0
  pairwise_mask : UInt32 := 0
  pairwise_other : Bool := false
  akm_mask : UInt32 := 0
  akm_other : Bool := false
  group_mgmt_suite : UInt32 := 0
  deriving DecidableEq

/-- Is the selector at `i` the 00-0F-AC suite of this type? -/
def rsn_suite_is (p : Bytes) (i : Nat) (type : UInt8) : Bool :=
  byteAt p i == 0x00 && byteAt p (i + 1) == 0x0f && byteAt p (i + 2) == 0xac &&
    byteAt p (i + 3) == type

def rsn_suite_u32 (p : Bytes) (i : Nat) : UInt32 :=
  ((byteAt p i).toUInt32 <<< 24) ||| ((byteAt p (i + 1)).toUInt32 <<< 16) |||
    ((byteAt p (i + 2)).toUInt32 <<< 8) ||| (byteAt p (i + 3)).toUInt32

/-- Adds one suite to a set: a bit for an 00-0F-AC suite, the flag otherwise. -/
def rsn_suite_note (p : Bytes) (i : Nat) (mask : UInt32) (other : Bool) : UInt32 × Bool :=
  if byteAt p i == 0x00 && byteAt p (i + 1) == 0x0f && byteAt p (i + 2) == 0xac &&
      decide (byteAt p (i + 3) < 32) then
    (mask ||| (1 <<< (byteAt p (i + 3)).toUInt32), other)
  else (mask, true)

/-- What a loop over one suite list gathers: is `type` in it, the mask and the flag. -/
structure SuiteSet where
  has : Bool := false
  mask : UInt32 := 0
  other : Bool := false
  deriving DecidableEq

/-- The loop over the `count` suites from `i`; the pairwise and the AKM list share it. -/
def rsn_suites (p : Bytes) (i count : Nat) (type : UInt8) : SuiteSet :=
  (List.range count).foldl
    (fun acc n =>
      let j := i + 4 * n
      let noted := rsn_suite_note p j acc.mask acc.other
      { has := acc.has || rsn_suite_is p j type, mask := noted.1, other := noted.2 })
    {}

/-- A counted suite list at `i`, when the element goes on that far: the count, the
suites and the offset after them. The outer `none` is a count that overruns. -/
def rsn_suite_list (p : Bytes) (i : Nat) (type : UInt8) : Option (UInt16 × SuiteSet × Nat) :=
  if i + 2 ≤ p.length then
    let count := get_le16 p i
    if i + 2 + count.toNat * 4 > p.length then none
    else some (count, rsn_suites p (i + 2) count.toNat type, i + 2 + 4 * count.toNat)
  else some (0, {}, i)

/-- `parse_rsn` on the body of an RSN element. `none` is a refusal, which leaves the
default `RsnInfo` behind. -/
def parse_rsn (p : Bytes) : Option RsnInfo :=
  if p.length < 2 then none
  else if get_le16 p 0 ≠ 1 then none
  else
    let hasGroup := 2 + 4 ≤ p.length
    let i := if hasGroup then 6 else 2
    match rsn_suite_list p i 4 with
    | none => none
    | some (pairwise_count, pairwise, i) =>
      match rsn_suite_list p i 2 with
      | none => none
      | some (akm_count, akm, i) =>
        let hasCaps := i + 2 ≤ p.length
        let capabilities := if hasCaps then get_le16 p i else 0
        let i := if hasCaps then i + 2 else i
        let hasPmkids := i + 2 ≤ p.length
        let pmkids := if hasPmkids then (get_le16 p i).toNat else 0
        let i := if hasPmkids then i + 2 else i
        if i + pmkids * 16 > p.length then none
        else
          let i := i + pmkids * 16
          some
            { valid := true
              version := get_le16 p 0
              group_ccmp := if hasGroup then rsn_suite_is p 2 4 else false
              group_suite := if hasGroup then rsn_suite_u32 p 2 else 0
              pairwise_count := pairwise_count
              pairwise_ccmp := pairwise.has
              pairwise_mask := pairwise.mask
              pairwise_other := pairwise.other
              akm_count := akm_count
              akm_psk := akm.has
              akm_mask := akm.mask
              akm_other := akm.other
              capabilities := capabilities
              mfp_required := capabilities &&& 0x0040 != 0
              mfp_capable := capabilities &&& 0x0080 != 0
              group_mgmt_suite := if i + 4 ≤ p.length then rsn_suite_u32 p i else 0 }

/-! ## What a scan learns -/

/-- What a station learns about a BSS from one beacon or probe response. -/
structure BssInfo where
  bssid : Mac := Octets.zero 6
  ssid : Bytes := []
  capability : UInt16 := 0
  beacon_interval_tu : UInt16 := 0
  channel : UInt8 := 0
  privacy : Bool := false
  has_rsn : Bool := false
  rsn_ccmp_psk : Bool := false
  rsn_mfp_required : Bool := false
  rsn_capabilities : UInt16 := 0
  rsn : RsnInfo := {}
  deriving DecidableEq

/-- One entry of the scan table. -/
structure BssEntry where
  info : BssInfo := {}
  rssi : Int8 := -128
  last_seen_ms : UInt32 := 0
  frames : UInt32 := 0

/-- 1..14 is 2.4 GHz, 32..253 is 5 GHz. -/
def channel_valid (chan : UInt8) : Bool :=
  (decide (chan ≥ 1) && decide (chan ≤ 14)) || (decide (chan ≥ 32) && decide (chan ≤ 253))

def bss_is_infrastructure (b : BssInfo) : Bool :=
  b.capability &&& 0x0001 != 0 && b.capability &&& 0x0002 == 0

def bss_is_wpa2_psk (b : BssInfo) : Bool := b.privacy && b.rsn_ccmp_psk

/-- What the RSN element of a beacon adds. A refused element leaves the default behind. -/
def BssInfo.with_rsn (b : BssInfo) (body : Bytes) : BssInfo :=
  let rsn := (parse_rsn body).getD {}
  { b with
    has_rsn := true
    rsn := rsn
    rsn_ccmp_psk := rsn.valid && rsn.group_ccmp && rsn.pairwise_ccmp && rsn.akm_psk &&
      !rsn.mfp_required
    rsn_capabilities := rsn.capabilities
    rsn_mfp_required := rsn.mfp_required }

/-- A beacon or a probe response: the 12 fixed bytes behind the header, then the elements. -/
def parse_beacon (frame : Bytes) : Option BssInfo :=
  if frame.length < 24 + 12 then none
  else
    let capability := get_le16 frame (24 + 10)
    let body := frame.drop (24 + 12)
    let info : BssInfo :=
      { bssid := Octets.slice frame 16 6
        beacon_interval_tu := get_le16 frame (24 + 8)
        capability := capability
        privacy := capability &&& 0x0010 != 0 }
    let ssid := (find_ie body kEidSsid).getD []
    if ssid.length > 32 then none
    else
      let info := { info with ssid := ssid }
      let info :=
        match find_ie body kEidDsParams with
        | some p =>
          if p.length ≥ 1 ∧ channel_valid (byteAt p 0) then { info with channel := byteAt p 0 }
          else info
        | none => info
      match find_ie body kEidRsn with
      | some p => some (info.with_rsn p)
      | none => some info

/-! ## Fixed bodies -/

structure AuthFields where
  algorithm : UInt16
  seq : UInt16
  status : UInt16

def parse_auth (frame : Bytes) : Option AuthFields :=
  if frame.length < 24 + 6 then none
  else some ⟨get_le16 frame 24, get_le16 frame 26, get_le16 frame 28⟩

structure AssocRespFields where
  capability : UInt16
  status : UInt16
  aid : UInt16

def parse_assoc_resp (frame : Bytes) : Option AssocRespFields :=
  if frame.length < 24 + 6 then none
  else some ⟨get_le16 frame 24, get_le16 frame 26, get_le16 frame 28 &&& 0x3fff⟩

/-- The reason code of a deauthentication or disassociation. -/
def parse_reason (frame : Bytes) : Option UInt16 :=
  if frame.length < 24 + 2 then none else some (get_le16 frame 24)

/-! ## Station frames -/

def append_ds_params (m : Bytes) (chan : UInt8) : Bytes := append_fixed_ie m kEidDsParams [chan]

/-- A probe request to everyone; empty for an SSID that it cannot encode. -/
def build_probe_req (own : Mac) (ssid : Bytes) (chan : UInt8) (five_ghz : Bool) : Bytes :=
  let bcast : Mac := Octets.slice (List.replicate 6 0xff) 0 6
  match append_ssid (mgmt_hdr kFcProbeReq bcast own bcast) ssid with
  | none => []
  | some m =>
    let m := append_ext_supported_rates_sta (append_supported_rates_sta m five_ghz) five_ghz
    if chan ≠ 0 ∧ !five_ghz then append_ds_params m chan else m

/-- Open-system authentication, sequence 1. -/
def build_auth_req (own bssid : Mac) : Bytes :=
  mgmt_hdr kFcAuth bssid own bssid ++ put_le16 0 ++ put_le16 1 ++ put_le16 0

/-- Association request; empty for an SSID that it cannot encode. -/
def build_assoc_req (own bssid : Mac) (ssid : Bytes) (rsn five_ghz : Bool)
    (listen_interval : UInt16) : Bytes :=
  let m := mgmt_hdr kFcAssocReq bssid own bssid ++
    put_le16 (0x0001 ||| (if rsn then 0x0010 else 0)) ++ put_le16 listen_interval
  match append_ssid m ssid with
  | none => []
  | some m =>
    let m := append_ext_supported_rates_sta (append_supported_rates_sta m five_ghz) five_ghz
    if rsn then append_rsn_ccmp_psk m else m

def build_deauth (own bssid : Mac) (reason : UInt16) : Bytes :=
  mgmt_hdr kFcDeauth bssid own bssid ++ put_le16 reason

/-! ## Data frames -/

def kLlcSnapLen : Nat := 8

def append_llc_snap (m : Bytes) (ethertype : UInt16) : Bytes :=
  m ++ ([0xaa, 0xaa, 0x03, 0x00, 0x00, 0x00, (ethertype >>> 8).toUInt8,
    ethertype.toUInt8] : Bytes)

/-- The uplink data header: address 1 is the BSSID, address 2 this station. -/
def data_hdr_to_ds (bssid own dest : Mac) (protect : Bool) (seq : UInt16) : Bytes :=
  [kFcData, kFcToDs ||| (if protect then kFcProtected else 0)] ++ put_le16 0 ++
    bssid.val ++ own.val ++ dest.val ++ put_le16 ((seq &&& 0x0fff) <<< 4)

/-- The downlink data header: address 1 is the station, address 2 the BSSID. -/
def data_hdr_from_ds (sta bssid src : Mac) (protect : Bool) (seq : UInt16) : Bytes :=
  [kFcData, kFcFromDs ||| (if protect then kFcProtected else 0)] ++ put_le16 0 ++
    sta.val ++ bssid.val ++ src.val ++ put_le16 ((seq &&& 0x0fff) <<< 4)

/-- True for every QoS data subtype. -/
def is_qos_data (fc0 : UInt8) : Bool := fc0 &&& 0x8c == 0x88

def is_ethertype_snap (msdu : Bytes) : Bool :=
  decide (kLlcSnapLen ≤ msdu.length) && byteAt msdu 0 == 0xaa && byteAt msdu 1 == 0xaa &&
    byteAt msdu 2 == 0x03 && byteAt msdu 3 == 0x00 && byteAt msdu 4 == 0x00 &&
    byteAt msdu 5 == 0x00

/-- The bytes before the frame body. -/
def data_hdr_len (fc0 fc1 : UInt8) : Nat :=
  24 + (if is_qos_data fc0 then 2 else 0) +
    (if fc1 &&& (kFcToDs ||| kFcFromDs) == kFcToDs ||| kFcFromDs then 6 else 0) +
    (if is_qos_data fc0 && (fc1 &&& 0x80 != 0) then 4 else 0)

/-- The destination is address 1, or address 3 on the way to the DS. -/
def data_da (hdr : Bytes) (fc1 : UInt8) : Mac :=
  if fc1 &&& kFcToDs ≠ 0 then Octets.slice hdr 16 6 else Octets.slice hdr 4 6

def data_sa (hdr : Bytes) (fc1 : UInt8) : Mac :=
  if fc1 &&& kFcToDs ≠ 0 ∧ fc1 &&& kFcFromDs ≠ 0 then Octets.slice hdr 24 6
  else if fc1 &&& kFcFromDs ≠ 0 then Octets.slice hdr 16 6
  else Octets.slice hdr 10 6

/-! ## 802.11 and 802.3 -/

def kEthHdrLen : Nat := 14

/-- An MSDU as an Ethernet II frame in a buffer of `out_cap` bytes. -/
def msdu_to_eth (da sa : Mac) (msdu : Bytes) (out_cap : Nat) : Option Bytes :=
  if !is_ethertype_snap msdu then none
  else if out_cap < kEthHdrLen + (msdu.length - kLlcSnapLen) then none
  else some (da.val ++ (sa.val ++ ([byteAt msdu 6, byteAt msdu 7] ++ msdu.drop kLlcSnapLen)))

/-- An Ethernet II frame as an MSDU in a buffer of `out_cap` bytes, with its two addresses. -/
def eth_to_msdu (eth : Bytes) (out_cap : Nat) : Option (Bytes × Mac × Mac) :=
  if eth.length < kEthHdrLen then none
  else if out_cap < kLlcSnapLen + (eth.length - kEthHdrLen) then none
  else some ([0xaa, 0xaa, 0x03, 0x00, 0x00, 0x00, byteAt eth 12, byteAt eth 13] ++
    eth.drop kEthHdrLen, Octets.slice eth 0 6, Octets.slice eth 6 6)

/-! ## Duplicates -/

namespace DupDetector

def kNonQosTid : Int := 16
def kSlots : Nat := 17

end DupDetector

open DupDetector in
/-- `class DupDetector`: the last Sequence Control of each traffic id. -/
structure DupDetector where
  seen_ : Fin kSlots → Bool := fun _ => false
  last_ : Fin kSlots → UInt16 := fun _ => 0

namespace DupDetector

/-- The slot of a traffic id; those that have none share the last one. -/
def slot (tid : Int) : Fin kSlots :=
  if h : 0 ≤ tid ∧ tid < kSlots then ⟨tid.toNat, by omega⟩ else ⟨16, by decide⟩

/-- A frame that is no retransmission of the last one becomes the last one. -/
def is_duplicate (d : DupDetector) (retry : Bool) (seq_ctl : UInt16) (tid : Int) :
    DupDetector × Bool :=
  let i := slot tid
  if retry && d.seen_ i && d.last_ i == seq_ctl then (d, true)
  else
    ({ seen_ := Function.update d.seen_ i true, last_ := Function.update d.last_ i seq_ctl }, false)

end DupDetector

end devourer.sta
